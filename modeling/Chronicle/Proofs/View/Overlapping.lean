import Chronicle.Proofs.View.Redelivery
import Chronicle.Proofs.View.Replaying

namespace Chronicle

/-!
# Batches that overlap in batch mode

A manager in batch mode hands a batch to its handlers as one event, which stands where the last event of
the batch stands. Whether a view has seen it is decided by that position.

* `Event.Straddles` — a batch that ends beyond a position without lying beyond it altogether.
* `ViewManager.GivesNew` — no handler is given an event that its view has seen.
* `ViewManager.newTo_blocks` — of batches of which none straddles the end of another one, those that are
  new to a view ascend, all in all.
* `ViewManager.batches_come_whole` — a handler is given a batch as a whole or not at all: as a whole if
  it affects the view and ends beyond what the view has seen. So no event comes twice if no batch
  straddles the end of another one.
* `ViewManager.overlap_comes_again` — of a batch that does, the events that the view has seen come
  again.
-/

/-! ### Batches as events -/

theorem toOption_eq_some_iff {ε α : Type} {x : Except ε α} {a : α} :
    x.toOption = some a ↔ x = .ok a := by
  cases x <;> simp [Except.toOption]

namespace Event

/-- A batch ends beyond a position, but it has events that are not beyond it. -/
def Straddles (p : Int) (block : List Event) : Prop :=
  (∃ q, (batch block).position = .ok q ∧ p < q) ∧ ∃ e ∈ block, ∃ q : Int, e.position = .ok q ∧ q ≤ p

instance (p : Int) (block : List Event) : Decidable (Straddles p block) :=
  decidable_of_iff ((∃ q ∈ (batch block).position.toOption, p < q) ∧
    ∃ e ∈ block, ∃ q ∈ e.position.toOption, q ≤ p) (by
      simp only [Straddles, Option.mem_def, toOption_eq_some_iff])

/-- A batch that ascends stands where its greatest position is. -/
theorem Ascending.position_batch {block : List Event} (h : Ascending block) (hne : block ≠ []) :
    ∃ p, (batch block).position = .ok p ∧
      ∀ e ∈ block, ∀ q : Int, e.position = .ok q → q ≤ p := by
  have hlast := List.getLast?_eq_some_getLast hne
  obtain ⟨p, -, hp⟩ := h.placed _ (List.getLast_mem hne)
  exact ⟨p, Event.position_batch hlast hp, fun e he q hq => h.le_last hlast hp he hq⟩

end Event

namespace ViewManager

variable {V : Type} {m m₀ : ViewManager V} {context : ViewContext} {calls : List (List Event)}

/-! ### What a view is given of a batch -/

/-- No handler is given a batch that holds an event which its view has seen. -/
def GivesNew (m : ViewManager V) (context : ViewContext) (block : List Event) : Prop :=
  ∀ id, ∀ e ∈ given id (m.runs context block), ∀ held, e.batched? = some (.ok held) →
    ∀ e' ∈ held, ∀ p : Int, e'.position = .ok p → (m.viewOrNew id).last < p

/-- Whatever ascending batches a manager accepts, no handler is given an event that its view has
seen. -/
def PassesOver (m : ViewManager V) (context : ViewContext) : Prop :=
  ∀ calls : List (List Event), (∀ block ∈ calls, Event.Ascending block) →
    (dispatchAll context calls m).1 = none → ∀ before block behind,
      calls = before ++ block :: behind → (dispatchAll context before m).2.GivesNew context block

theorem presented_of_batched (h : m.batchMode = true) (block : List Event) :
    m.presented block = [Event.batch block] := if_pos h

/-- A batch is new to a view if it affects the view and ends beyond what the view has seen. -/
theorem newTo_batch {block : List Event} {p : Int} (hp : (Event.batch block).position = .ok p)
    (id : String) (last : Int) : m.newTo context id last [Event.batch block]
      = if id ∈ m.affected context (Event.batch block) ∧ last < p then [Event.batch block] else [] := by
  rw [newTo, hp]
  rfl

/-- In batch mode, a batch is given to a handler as a whole or not at all. -/
theorem given_batch (hbatch : m.batchMode = true) {block : List Event}
    (hblock : Event.Ascending block) (hne : block ≠ [])
    (hdone : (m.dispatch context block).error = none) (id : String) :
    ∃ p, (Event.batch block).position = .ok p ∧ given id (m.runs context block)
      = if id ∈ m.affected context (Event.batch block) ∧ (m.viewOrNew id).last < p then
        [Event.batch block] else [] := by
  obtain ⟨p, hp, -⟩ := hblock.position_batch hne
  refine ⟨p, hp, ?_⟩
  rw [given_runs hdone, if_neg hne, news, presented_of_batched hbatch, newTo_batch hp]

/-- A handler is given an event that its view has seen exactly if the batch affects the view and
straddles what it has seen. -/
theorem givesNew_iff (hbatch : m.batchMode = true) {block : List Event}
    (hblock : Event.Ascending block) (hdone : (m.dispatch context block).error = none) :
    m.GivesNew context block ↔ ∀ id ∈ m.affected context (Event.batch block),
      ¬ Event.Straddles (m.viewOrNew id).last block := by
  by_cases hne : block = []
  · subst hne
    have hnone : ∀ id, given id (m.runs context []) = [] := fun id => by simp [given_runs hdone]
    simp [GivesNew, hnone, Event.Straddles]
  · constructor
    · rintro hnew id hid ⟨⟨q, hq, hlt⟩, e, he, q', hq', hle⟩
      obtain ⟨p, hp, hgiven⟩ := given_batch hbatch hblock hne hdone id
      cases hq.symm.trans hp
      rw [if_pos ⟨hid, hlt⟩] at hgiven
      have hbeyond := hnew id (Event.batch block) (by simp [hgiven]) block
        (Event.batched?_batch block) e he q' hq'
      omega
    · intro hstraddles id e he held hheld e' he' q hq
      obtain ⟨p, hp, hgiven⟩ := given_batch hbatch hblock hne hdone id
      rw [hgiven] at he
      split at he
      · rename_i hnew
        obtain rfl := List.mem_singleton.1 he
        rw [Event.batched?_batch, Option.some.injEq, Except.ok.injEq] at hheld
        subst hheld
        by_contra hseen
        exact hstraddles id hnew.1 ⟨⟨p, hp, hnew.2⟩, e', he', q, hq, Int.not_lt.1 hseen⟩
      · cases he

/-- Of batches of which none straddles the end of another one or what the view has seen, those that are
new to the view ascend, all in all, and lie beyond what it has seen. -/
theorem newTo_blocks (m : ViewManager V) (context : ViewContext) (id : String) {last : Int}
    {blocks : List (List Event)} (hblocks : ∀ block ∈ blocks, Event.Ascending block)
    (hlast : ∀ block ∈ blocks, ¬ Event.Straddles last block)
    (hends : ∀ block ∈ blocks, ∀ p, (Event.batch block).position = .ok p →
      ∀ block' ∈ blocks, ¬ Event.Straddles p block') :
    ∃ taken : List (List Event), taken.Sublist blocks ∧
      m.newTo context id last ((inhabited blocks).map Event.batch) = taken.map Event.batch ∧
      Event.Ascending taken.flatten ∧
      ∀ e ∈ taken.flatten, ∀ p, e.position = .ok p → last < p := by
  induction blocks generalizing last with
  | nil => exact ⟨[], .slnil, rfl, ⟨nofun, .nil⟩, nofun⟩
  | cons block rest ih =>
    have hrest : ∀ b ∈ rest, Event.Ascending b := fun b hb =>
      hblocks b (List.mem_cons_of_mem block hb)
    have hends' : ∀ b ∈ rest, ∀ p, (Event.batch b).position = .ok p →
        ∀ b' ∈ rest, ¬ Event.Straddles p b' := fun b hb p hp b' hb' =>
      hends b (List.mem_cons_of_mem block hb) p hp b' (List.mem_cons_of_mem block hb')
    have hlast' : ∀ b ∈ rest, ¬ Event.Straddles last b := fun b hb =>
      hlast b (List.mem_cons_of_mem block hb)
    by_cases hne : block = []
    · obtain ⟨taken, hsub, hnew, htaken⟩ := ih hrest hlast' hends'
      exact ⟨taken, hsub.cons block, by simpa [inhabited, hne] using hnew, htaken⟩
    · have hinhabited : (inhabited (block :: rest)).map Event.batch
          = Event.batch block :: (inhabited rest).map Event.batch := by
        simp [inhabited, hne]
      obtain ⟨p, hp, hmax⟩ := (hblocks block List.mem_cons_self).position_batch hne
      rw [hinhabited, newTo, hp]
      simp only
      split
      · -- The batch is taken, and from here on the view has seen what is not beyond its end.
        rename_i hnew
        obtain ⟨taken, hsub, htaken, hascending, hbeyond⟩ := ih hrest
          (fun b hb => hends block List.mem_cons_self p hp b (List.mem_cons_of_mem block hb)) hends'
        have hfirst : ∀ e ∈ block, ∀ q, e.position = .ok q → last < q := by
          intro e he q hq
          by_contra hseen
          exact hlast block List.mem_cons_self
            ⟨⟨p, hp, hnew.2⟩, e, he, q, hq, Int.not_lt.1 hseen⟩
        refine ⟨block :: taken, hsub.cons_cons block, by rw [htaken]; rfl,
          (hblocks block List.mem_cons_self).append hascending ?_, ?_⟩
        · intro e he e' he' q q' hq hq'
          exact Int.lt_of_le_of_lt (hmax e he q hq) (hbeyond e' he' q' hq')
        · intro e he q hq
          obtain he | he := List.mem_append.1 he
          · exact hfirst e he q hq
          · exact Int.lt_trans hnew.2 (hbeyond e he q hq)
      · obtain ⟨taken, hsub, htaken⟩ := ih hrest hlast' hends'
        exact ⟨taken, hsub.cons block, htaken⟩

/-! ### Batches one after the other -/

/-- In batch mode, what comes of batches is what comes of them as events. -/
theorem HasSeen.dispatchBlocks {events : List Event} (h : m₀.HasSeen context events m)
    (hbatch : m₀.batchMode = true) (hdone : (ViewManager.dispatchAll context calls m).1 = none) :
    m₀.HasSeen context (events ++ (inhabited calls).map Event.batch)
        (ViewManager.dispatchAll context calls m).2 ∧
      ∀ id, m₀.newTo context id (m₀.viewOrNew id).last events ++ given id (m.runsAll context calls)
        = m₀.newTo context id (m₀.viewOrNew id).last
            (events ++ (inhabited calls).map Event.batch) := by
  induction calls generalizing m events with
  | nil =>
    exact ⟨by simpa [inhabited, ViewManager.dispatchAll] using h,
      fun id => by simp [inhabited, runsAll, given]⟩
  | cons block rest ih =>
    obtain ⟨hhead, hsame, htail⟩ := dispatchAll_cons_eq_none hdone
    rw [hsame]
    by_cases hne : block = []
    · subst hne
      rw [manager_dispatch_nil] at htail ⊢
      obtain ⟨hseen, hgiven⟩ := ih h htail
      refine ⟨by simpa [inhabited] using hseen, fun id => ?_⟩
      rw [runsAll, hhead, given_append, ViewManager.given_runs hhead]
      simpa [inhabited, manager_dispatch_nil] using hgiven id
    · have hpresented : m.presented block = [] ++ [Event.batch block] :=
        presented_of_batched (h.setUp.batchMode.trans hbatch) block
      obtain ⟨hseen, hgiven⟩ := ih
        (h.dispatch_presented hne hpresented (List.nil_subset _) hhead) htail
      have hinhabited : events ++ [Event.batch block] ++ (inhabited rest).map Event.batch
          = events ++ (inhabited (block :: rest)).map Event.batch := by
        simp [inhabited, hne]
      rw [hinhabited] at hseen hgiven
      refine ⟨hseen, fun id => ?_⟩
      rw [runsAll, hhead, given_append, ← List.append_assoc,
        h.given_runs hne hpresented (List.nil_subset _) hhead]
      exact hgiven id

/-- Of batches that are all dispatched, the first ones are, and the next one after them. -/
theorem dispatchAll_append_eq_none {block : List Event} {before behind : List (List Event)}
    (h : (dispatchAll context (before ++ block :: behind) m).1 = none) :
    (dispatchAll context before m).1 = none ∧
      ((dispatchAll context before m).2.dispatch context block).error = none := by
  induction before generalizing m with
  | nil => exact ⟨rfl, (dispatchAll_cons_eq_none h).1⟩
  | cons first rest ih =>
    obtain ⟨hfirst, hsame, hrest⟩ := dispatchAll_cons_eq_none h
    rw [dispatchAll, hfirst]
    exact ih hrest

/-- **In batch mode, a handler is given a batch as a whole or not at all.** Whatever a manager has
applied before, and however the batches overlap that `dispatchAll` hands to it with success: the handler of
a view is `given` those batches that affect the view and end beyond what the view has seen by then
(`newTo`). So a batch that comes again is passed over. An event that the view has seen is given to the
handler exactly if the batch `Straddles` what the view has seen. If no batch straddles what a view has seen
at first or the end of another batch, the events that the handler is given ascend (`Event.Ascending`), and
none comes twice. -/
theorem batches_come_whole (hbatch : m.batchMode = true) (hrunning : m.stopped = false)
    (hcalls : ∀ block ∈ calls, Event.Ascending block)
    (hdone : (dispatchAll context calls m).1 = none) :
    (∀ id, given id (m.runsAll context calls)
      = m.newTo context id (m.viewOrNew id).last ((inhabited calls).map Event.batch)) ∧
    (∀ before block behind, calls = before ++ block :: behind →
      let now := (dispatchAll context before m).2
      now.GivesNew context block ↔ ∀ id ∈ m.affected context (Event.batch block),
        ¬ Event.Straddles (now.viewOrNew id).last block) ∧
    ((∀ id, ∀ block ∈ calls, ¬ Event.Straddles (m.viewOrNew id).last block) →
      (∀ block ∈ calls, ∀ p, (Event.batch block).position = .ok p →
        ∀ block' ∈ calls, ¬ Event.Straddles p block') →
      ∀ id, ∃ taken : List (List Event), taken.Sublist calls ∧
        given id (m.runsAll context calls) = taken.map Event.batch ∧
        Event.Ascending taken.flatten) := by
  have hfresh : m.HasSeen context [] m := .refl hrunning
  obtain ⟨-, hgiven⟩ := hfresh.dispatchBlocks hbatch hdone
  refine ⟨hgiven, ?_, fun hlast hends id => ?_⟩
  · rintro before block behind rfl now
    obtain ⟨hbefore, hblock⟩ := dispatchAll_append_eq_none hdone
    obtain ⟨hseen, -⟩ := hfresh.dispatchBlocks hbatch hbefore
    rw [givesNew_iff (hseen.setUp.batchMode.trans hbatch)
      (hcalls block (by simp)) hblock]
    simp only [hseen.setUp.affected]
    rfl
  · obtain ⟨taken, hsub, htaken, hascending, -⟩ :=
      m.newTo_blocks context id hcalls (hlast id) hends
    exact ⟨taken, hsub, (hgiven id).trans htaken, hascending⟩

end ViewManager

namespace Sample

/-- A tally that takes the events of a batch one by one. -/
def gathering : ViewManager Tally := gatherer.toViewSetup.batched.manager

/-- Three deposits. -/
def threeDeposits : List Event :=
  (Log.empty.save .nil (Log.empty.continuation "a" "Deposited" (deposited.encode 5) 3)).2.events

theorem ascending_threeDeposits : Event.Ascending threeDeposits :=
  (Log.consistent_empty.save _ _).ascending

end Sample

set_option maxRecDepth 10000 in
/-- Of three batches, the second one is the first one again: the tally has every deposit once. -/
theorem ViewManager.batches_come_whole_repeated :
    let calls := [Sample.threeDeposits.take 2, Sample.threeDeposits.take 2,
      Sample.threeDeposits.drop 2]
    ((Sample.gathering.dispatchAll Dict.empty calls).2.view? Locator.globalId).map
        (fun view => view.state.log) = some ["Deposited(0)", "Deposited(1)", "Deposited(2)"] ∧
      ∀ id, ∃ taken : List (List Event), taken.Sublist calls ∧
        given id (Sample.gathering.runsAll Dict.empty calls) = taken.map Event.batch ∧
        Event.Ascending taken.flatten := by
  intro calls
  have hcalls : ∀ block ∈ calls, Event.Ascending block := by
    simp only [calls, List.forall_mem_cons, List.not_mem_nil, false_imp_iff, implies_true, and_true]
    have htake := Sample.ascending_threeDeposits.sublist (List.take_sublist 2 _)
    exact ⟨htake, htake, Sample.ascending_threeDeposits.sublist (List.drop_sublist 2 _)⟩
  have hdone : (Sample.gathering.dispatchAll Dict.empty calls).1 = none := by decide +kernel
  obtain ⟨-, -, hascending⟩ := batches_come_whole rfl rfl hcalls hdone
  have hends : ∀ block ∈ calls, ∀ p ∈ (Event.batch block).position.toOption, ∀ block' ∈ calls,
      ¬ Event.Straddles p block' := by decide +kernel
  refine ⟨by decide +kernel, hascending (fun id => ?_) fun block hblock p hp =>
    hends block hblock p (by rw [hp]; rfl)⟩
  show ∀ block ∈ calls, ¬ Event.Straddles (-1) block
  decide +kernel

set_option maxRecDepth 10000 in
/-- **In batch mode, events come again with a batch that overlaps an earlier one.** A manager that was
handed the first two of three deposits, and then the last two, has the second one twice. -/
theorem ViewManager.overlap_comes_again : ¬ Sample.gathering.PassesOver Dict.empty ∧
    ((Sample.gathering.dispatchAll Dict.empty
        [Sample.threeDeposits.take 2, Sample.threeDeposits.drop 1]).2.view? Locator.globalId).map
      (fun view => (view.state.count, view.state.sum, view.state.log))
      = some (4, 20, ["Deposited(0)", "Deposited(1)", "Deposited(1)", "Deposited(2)"]) := by
  refine ⟨fun hpasses => ?_, by decide +kernel⟩
  have hdrop := Sample.ascending_threeDeposits.sublist (List.drop_sublist 1 _)
  have hnew := hpasses [Sample.threeDeposits.take 2, Sample.threeDeposits.drop 1]
    (by simpa using ⟨Sample.ascending_threeDeposits.sublist (List.take_sublist 2 _), hdrop⟩)
    (by decide +kernel) [Sample.threeDeposits.take 2] (Sample.threeDeposits.drop 1) [] rfl
  rw [givesNew_iff (by decide +kernel) hdrop (by decide +kernel)] at hnew
  exact absurd (hnew Locator.globalId (by decide +kernel)) (by decide +kernel)

end Chronicle
