import Chronicle.Command.Processor

namespace Chronicle

/-!
# How often a command is tried

* `Processor.conclude` — what is answered if an attempt is the last one.
* `Processor.startOf`, `Processor.outcome`, `Processor.Conflicts` — the state in which an attempt starts
  if all attempts before it met conflicts, how it ends, and that it meets a conflict too.
* `Processor.EndsAt` — the attempt that processing ends with: the first one that does not meet a
  conflict, or the last one there is. `Processor.last` computes it.
* `Processor.process_eq` — processing answers what this attempt says, and counts it by
  `Word32.wrap`.
* `Processor.EndsInTime` — there is an end to the attempts before the counter comes round.
* `Processor.Loops` — the loop of attempts, without a bound. `Processor.loops_process` — processing is
  this loop if there is an end to it; `Processor.not_loops` — there is none if the number of retries is
  the greatest word and all attempts meet conflicts.
-/

namespace Processor

/-! ### The answer -/

section Answer

variable {σ δ κ S : Type}

/-- What is answered if an attempt is the last one. -/
def conclude (p : Processor σ δ κ S) (c : Command κ S) (attempts : Nat) :
    Except CommandFailure Attempt × Processing σ δ →
      Except CommandError CommandResult × Processing σ δ
  | (.error cause, w) => (.error ⟨c.label, attempts, cause⟩, w)
  | (.ok (.committed batch events), w) =>
    (.ok ⟨batch, lastPosition events, attempts, events⟩, p.announce events w)
  | (.ok (.conflict conflict), w) => (.error ⟨c.label, attempts, .conflict conflict⟩, w)

theorem conclude_fst (p : Processor σ δ κ S) (c : Command κ S) (attempts : Nat)
    (r : Except CommandFailure Attempt × Processing σ δ) :
    (p.conclude c attempts r).1 = match r.1 with
      | .error cause => .error ⟨c.label, attempts, cause⟩
      | .ok (.committed batch events) => .ok ⟨batch, lastPosition events, attempts, events⟩
      | .ok (.conflict conflict) => .error ⟨c.label, attempts, .conflict conflict⟩ := by
  rcases r with ⟨_ | _ | _, w'⟩ <;> rfl

/-- The number of attempts that an answer counts. -/
def counted : Except CommandError CommandResult → Nat
  | .ok result => result.attempts
  | .error err => err.attempts

@[simp] theorem counted_conclude (p : Processor σ δ κ S) (c : Command κ S) (attempts : Nat)
    (r : Except CommandFailure Attempt × Processing σ δ) :
    counted (p.conclude c attempts r).1 = attempts := by
  rcases r with ⟨_ | _ | _, w'⟩ <;> rfl

variable {p : Processor σ δ κ S} {c : Command κ S}

/-- A command that succeeds does so by its last attempt. -/
theorem conclude_eq_ok {attempts : Nat} {r : Except CommandFailure Attempt × Processing σ δ}
    {result : CommandResult} (h : (p.conclude c attempts r).1 = .ok result) :
    r.1 = .ok (.committed result.batch result.events) ∧ result.attempts = attempts ∧
      result.position = lastPosition result.events ∧
      (p.conclude c attempts r).2 = p.announce result.events r.2 := by
  rcases r with ⟨_ | _ | _, w'⟩
  · cases h
  · cases h
    exact ⟨rfl, rfl, rfl, rfl⟩
  · cases h

/-- A command that fails does so by its last attempt. -/
theorem conclude_eq_error {attempts : Nat} {r : Except CommandFailure Attempt × Processing σ δ}
    {err : CommandError} (h : (p.conclude c attempts r).1 = .error err) :
    err.label = c.label ∧ err.attempts = attempts ∧ (p.conclude c attempts r).2 = r.2 ∧
      (r.1 = .error err.cause ∨
        ∃ conflict, r.1 = .ok (.conflict conflict) ∧ err.cause = .conflict conflict) := by
  rcases r with ⟨_ | _ | _, w'⟩
  · cases h
    exact ⟨rfl, rfl, rfl, .inl rfl⟩
  · cases h
  · cases h
    exact ⟨rfl, rfl, rfl, .inr ⟨_, rfl, rfl⟩⟩

end Answer

/-! ### Attempts -/

section Attempts

variable {σ δ κ S : Type} [DecidableEq κ] (p : Processor σ δ κ S) (c : Command κ S)

/-- The state in which an attempt starts, if the attempts before it meet conflicts; attempts are
counted from zero. -/
def startOf : Nat → Processing σ δ → Processing σ δ
  | 0, w => w
  | k + 1, w => startOf k (p.attempt c w).2

/-- How an attempt ends. -/
def outcome (k : Nat) (w : Processing σ δ) : Except CommandFailure Attempt :=
  (p.attempt c (p.startOf c k w)).1

/-- An attempt meets a conflict. -/
def Conflicts (k : Nat) (w : Processing σ δ) : Prop :=
  ∃ conflict, p.outcome c k w = .ok (.conflict conflict)

/-- An attempt is the last one, with a number of retries: there were conflicts before it, and it meets
none unless there are no retries left. -/
structure EndsAt (retries k : Nat) (w : Processing σ δ) : Prop where
  /-- There are not more attempts than retries and one. -/
  le : k ≤ retries
  /-- Every attempt before it met a conflict. -/
  before : ∀ j < k, p.Conflicts c j w
  /-- There are no retries left if it meets one too. -/
  final : k < retries → ¬ p.Conflicts c k w

/-- The last attempt, with a number of retries. -/
def lastWithin : Nat → Processing σ δ → Nat
  | 0, _ => 0
  | retries + 1, w =>
    match p.attempt c w with
    | (.ok (.conflict _), w) => lastWithin retries w + 1
    | _ => 0

/-- The last attempt. -/
def last (w : Processing σ δ) : Nat := p.lastWithin c p.mostRetries w

/-- The state in which the last attempt starts. -/
def lastStart (w : Processing σ δ) : Processing σ δ := p.startOf c (p.last c w) w

/-- The state after the last attempt, before anybody is told about it. -/
def lastEnd (w : Processing σ δ) : Processing σ δ := (p.attempt c (p.lastStart c w)).2

variable {p c} {w : Processing σ δ}

theorem outcome_last : p.outcome c (p.last c w) w = (p.attempt c (p.lastStart c w)).1 := rfl

theorem conflicts_of_attempt {conflict : Conflict} {w' : Processing σ δ}
    (h : p.attempt c w = (.ok (.conflict conflict), w')) : p.Conflicts c 0 w :=
  ⟨conflict, congrArg Prod.fst h⟩

theorem EndsAt.unique {retries k k' : Nat} (h : p.EndsAt c retries k w)
    (h' : p.EndsAt c retries k' w) : k = k' := by
  have hle := h.le
  have hle' := h'.le
  rcases Nat.lt_trichotomy k k' with hlt | heq | hlt
  · exact absurd (h'.before k hlt) (h.final (by omega))
  · exact heq
  · exact absurd (h.before k' hlt) (h'.final (by omega))

theorem endsAt_of_not_conflicts {retries k : Nat} (hle : k ≤ retries)
    (hbefore : ∀ j < k, p.Conflicts c j w) (h : ¬ p.Conflicts c k w) : p.EndsAt c retries k w :=
  ⟨hle, hbefore, fun _ => h⟩

/-- One attempt more, before the others. -/
theorem EndsAt.succ {retries k : Nat} (hconflict : p.Conflicts c 0 w)
    (h : p.EndsAt c retries k (p.attempt c w).2) : p.EndsAt c (retries + 1) (k + 1) w where
  le := Nat.succ_le_succ h.le
  before j hj := by
    cases j with
    | zero => exact hconflict
    | succ j => exact h.before j (by omega)
  final hlt := h.final (by omega)

theorem endsAt_lastWithin (p : Processor σ δ κ S) (c : Command κ S) (retries : Nat)
    (w : Processing σ δ) : p.EndsAt c retries (p.lastWithin c retries w) w := by
  induction retries generalizing w with
  | zero => exact ⟨Nat.le_refl 0, nofun, nofun⟩
  | succ retries ih =>
    unfold lastWithin
    split
    · rename_i conflict w' hattempt
      obtain rfl : (p.attempt c w).2 = w' := congrArg Prod.snd hattempt
      exact (ih _).succ (conflicts_of_attempt hattempt)
    · rename_i answer w' hno
      refine endsAt_of_not_conflicts (Nat.zero_le _) nofun ?_
      rintro ⟨conflict, hconflict⟩
      exact hno conflict _ (Prod.ext hconflict rfl)

theorem endsAt_last (p : Processor σ δ κ S) (c : Command κ S) (w : Processing σ δ) :
    p.EndsAt c p.mostRetries (p.last c w) w := p.endsAt_lastWithin c p.mostRetries w

theorem lastWithin_of_not_conflicts {retries : Nat} (h : ¬ p.Conflicts c 0 w) :
    p.lastWithin c retries w = 0 :=
  (p.endsAt_lastWithin c retries w).unique (endsAt_of_not_conflicts (Nat.zero_le _) nofun h)

theorem lastWithin_succ_of_conflicts {retries : Nat} (h : p.Conflicts c 0 w) :
    p.lastWithin c (retries + 1) w = p.lastWithin c retries (p.attempt c w).2 + 1 :=
  (p.endsAt_lastWithin c (retries + 1) w).unique ((p.endsAt_lastWithin c retries _).succ h)

theorem processFrom_of_last {bound attempts : Nat}
    (h : p.Conflicts c 0 w → p.maxRetries < attempts) :
    p.processFrom c bound attempts w = p.conclude c attempts (p.attempt c w) := by
  unfold processFrom
  rcases hattempt : p.attempt c w with ⟨_ | _ | _, w'⟩
  · rfl
  · rfl
  · exact if_pos (h (conflicts_of_attempt hattempt))

theorem processFrom_of_conflicts {bound attempts : Nat} (hconflict : p.Conflicts c 0 w)
    (hle : attempts ≤ p.maxRetries) :
    p.processFrom c (bound + 1) attempts w
      = p.processFrom c bound (Word32.next attempts) (p.attempt c w).2 := by
  obtain ⟨conflict, hanswer⟩ := hconflict
  rcases hattempt : p.attempt c w with ⟨answer, w'⟩
  obtain rfl : answer = .ok (.conflict conflict) := (congrArg Prod.fst hattempt).symm.trans hanswer
  rw [processFrom, hattempt]
  exact if_neg (Nat.not_lt.2 hle)

/-- Processing answers what its last attempt says, as long as the counter is not greater than the number
of retries until the bound is reached. -/
theorem processFrom_eq (p : Processor σ δ κ S) (c : Command κ S) {bound n : Nat}
    (w : Processing σ δ) (hbound : ∀ j < bound, Word32.wrap (n + j) ≤ p.maxRetries) :
    p.processFrom c bound (Word32.wrap n) w
      = p.conclude c (Word32.wrap (n + p.lastWithin c bound w))
        (p.attempt c (p.startOf c (p.lastWithin c bound w) w)) := by
  induction bound generalizing n w with
  | zero =>
    unfold processFrom lastWithin startOf
    rcases p.attempt c w with ⟨_ | _ | _, w'⟩
    · rfl
    · rfl
    · exact ite_self _
  | succ bound ih =>
    by_cases hconflict : p.Conflicts c 0 w
    · have hnow : Word32.wrap n ≤ p.maxRetries := hbound 0 (Nat.succ_pos bound)
      have hlater : ∀ j < bound, Word32.wrap (n + 1 + j) ≤ p.maxRetries := by
        intro j hj
        rw [Nat.add_right_comm, Nat.add_assoc]
        exact hbound (j + 1) (Nat.succ_lt_succ hj)
      rw [processFrom_of_conflicts hconflict hnow, Word32.next_wrap, ih _ hlater,
        lastWithin_succ_of_conflicts hconflict, startOf, Nat.add_right_comm, Nat.add_assoc]
    · rw [processFrom_of_last fun h => absurd h hconflict, lastWithin_of_not_conflicts hconflict]
      rfl

omit [DecidableEq κ] in
theorem maxRetries_le_mostRetries (p : Processor σ δ κ S) : p.maxRetries ≤ p.mostRetries := by
  unfold mostRetries
  split
  · exact Nat.le_refl _
  · exact Nat.le_add_right _ _

omit [DecidableEq κ] in
/-- Until the bound is reached, the counter is not greater than the number of retries. -/
theorem wrap_le_maxRetries (p : Processor σ δ κ S) {j : Nat} (h : j < p.mostRetries) :
    Word32.wrap (1 + j) ≤ p.maxRetries := by
  unfold mostRetries at h
  split at h
  · exact Nat.le_trans (Nat.mod_le _ _) (by omega)
  · have := Word32.wrap_lt (1 + j)
    omega

/-- Processing answers what its last attempt says. -/
theorem process_eq (p : Processor σ δ κ S) (c : Command κ S) (w : Processing σ δ) :
    p.process c w
      = p.conclude c (Word32.wrap (p.last c w + 1)) (p.attempt c (p.lastStart c w)) := by
  rw [Nat.add_comm]
  exact p.processFrom_eq c w fun j hj => p.wrap_le_maxRetries hj

/-- The answer counts the last attempt. -/
theorem counted_process (p : Processor σ δ κ S) (c : Command κ S) (w : Processing σ δ) :
    counted (p.process c w).1 = Word32.wrap (p.last c w + 1) := by
  rw [process_eq, counted_conclude]

end Attempts

/-! ### The counter -/

section Counter

variable {σ δ κ S : Type} [DecidableEq κ]

/-- There is an end to the attempts before the counter comes round: it can be greater than the number of
retries, or an attempt meets no conflict in time. -/
def EndsInTime (p : Processor σ δ κ S) (c : Command κ S) (w : Processing σ δ) : Prop :=
  p.maxRetries + 1 < Word32.count ∨ ∃ k, k + 1 < Word32.count ∧ ¬ p.Conflicts c k w

variable {p : Processor σ δ κ S} {c : Command κ S} {w : Processing σ δ}

/-- Then the last attempt is found within the retries, and counted by its number. -/
theorem EndsInTime.endsAt (h : p.EndsInTime c w) :
    p.EndsAt c p.maxRetries (p.last c w) w ∧ p.last c w + 1 < Word32.count := by
  have hends := p.endsAt_last c w
  have hle := hends.le
  by_cases hlt : p.maxRetries + 1 < Word32.count
  · rw [mostRetries, if_pos hlt] at hends hle
    exact ⟨hends, by omega⟩
  · obtain ⟨k, hk, hno⟩ := h.resolve_left hlt
    have hlast : p.last c w ≤ k := Nat.not_lt.1 fun hbefore => hno (hends.before k hbefore)
    have hmost := p.maxRetries_le_mostRetries
    exact ⟨⟨by omega, hends.before, fun hfinal => hends.final (by omega)⟩, by omega⟩

end Counter

/-! ### The loop without a bound -/

section Loop

variable {σ δ κ S : Type} [DecidableEq κ]

/-- The loop of attempts: with a counter, and from a state on, it ends with an answer. -/
inductive Loops (p : Processor σ δ κ S) (c : Command κ S) :
    Nat → Processing σ δ → Except CommandError CommandResult × Processing σ δ → Prop
  /-- An attempt is the last one if it meets no conflict, or there are no retries left. -/
  | last {attempts w} (h : p.Conflicts c 0 w → p.maxRetries < attempts) :
    Loops p c attempts w (p.conclude c attempts (p.attempt c w))
  /-- Otherwise there is another one. -/
  | again {attempts w answer} (hconflict : p.Conflicts c 0 w) (hle : attempts ≤ p.maxRetries)
    (h : Loops p c (Word32.next attempts) (p.attempt c w).2 answer) : Loops p c attempts w answer

variable {p : Processor σ δ κ S} {c : Command κ S} {w : Processing σ δ}

/-- The loop has one answer at most. -/
theorem Loops.unique {attempts : Nat}
    {answer answer' : Except CommandError CommandResult × Processing σ δ}
    (h : p.Loops c attempts w answer) (h' : p.Loops c attempts w answer') : answer = answer' := by
  induction h with
  | last hlast =>
    cases h' with
    | last _ => rfl
    | again hconflict hle _ => exact absurd (hlast hconflict) (Nat.not_lt.2 hle)
  | again hconflict hle _ ih =>
    cases h' with
    | last hlast => exact absurd (hlast hconflict) (Nat.not_lt.2 hle)
    | again _ _ h' => exact ih h'

/-- If the number of retries is the greatest word and all attempts meet conflicts, there is no answer. -/
theorem not_loops {attempts : Nat} (hretries : Word32.count ≤ p.maxRetries + 1)
    (hattempts : attempts < Word32.count) (hall : ∀ k, p.Conflicts c k w)
    (answer : Except CommandError CommandResult × Processing σ δ) :
    ¬ p.Loops c attempts w answer := by
  intro h
  induction h with
  | last hlast =>
    have := hlast (hall 0)
    omega
  | again _ _ _ ih => exact ih (Word32.wrap_lt _) fun k => hall (k + 1)

/-- The loop comes to an attempt if all attempts before it meet conflicts and are not counted by a
number greater than the number of retries. -/
theorem loops_of_before {n k : Nat}
    (hbefore : ∀ j < k, p.Conflicts c j w ∧ Word32.wrap (n + j) ≤ p.maxRetries)
    (hlast : p.Conflicts c k w → p.maxRetries < Word32.wrap (n + k)) :
    p.Loops c (Word32.wrap n) w
      (p.conclude c (Word32.wrap (n + k)) (p.attempt c (p.startOf c k w))) := by
  induction k generalizing n w with
  | zero => exact .last hlast
  | succ k ih =>
    obtain ⟨hconflict, hle⟩ := hbefore 0 (Nat.succ_pos k)
    have hnext : ∀ j, n + (j + 1) = n + 1 + j := fun j => by omega
    rw [hnext] at hlast ⊢
    refine .again hconflict hle ?_
    rw [Word32.next_wrap, startOf]
    refine ih (fun j hj => ?_) hlast
    rw [← hnext]
    exact hbefore (j + 1) (Nat.succ_lt_succ hj)

/-- Processing is the loop of attempts, if the counter can be greater than the number of retries or an
attempt within the bound meets no conflict. -/
theorem loops_process (h : p.maxRetries + 1 < Word32.count ∨
    ∃ k ≤ p.mostRetries, ¬ p.Conflicts c k w) : p.Loops c 1 w (p.process c w) := by
  have hends := p.endsAt_last c w
  rw [process_eq, Nat.add_comm]
  refine loops_of_before (n := 1) (fun j hj => ⟨hends.before j hj, ?_⟩) fun hconflict => ?_
  · have := hends.le
    exact p.wrap_le_maxRetries (by omega)
  · -- The last attempt meets a conflict, so all within the bound do.
    have hmost : p.last c w = p.mostRetries :=
      Nat.le_antisymm hends.le (Nat.not_lt.1 fun hlt => hends.final hlt hconflict)
    rw [hmost] at hends hconflict ⊢
    rcases h with hlt | ⟨k, hk, hno⟩
    · rw [mostRetries, if_pos hlt, Word32.wrap_of_lt (by omega)]
      omega
    · rcases Nat.lt_or_eq_of_le hk with hk | rfl
      · exact absurd (hends.before k hk) hno
      · exact absurd hconflict hno

theorem EndsInTime.loops_process (h : p.EndsInTime c w) : p.Loops c 1 w (p.process c w) := by
  refine Processor.loops_process ?_
  by_cases hlt : p.maxRetries + 1 < Word32.count
  · exact .inl hlt
  · obtain ⟨k, hk, hno⟩ := h.resolve_left hlt
    refine .inr ⟨k, ?_, hno⟩
    rw [mostRetries, if_neg hlt]
    omega

end Loop

end Processor

end Chronicle
