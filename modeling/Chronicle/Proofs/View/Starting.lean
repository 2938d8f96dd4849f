import Chronicle.Proofs.View.Isolation

namespace Chronicle

/-!
# What a start leaves behind

A start brings all managers to the end of the log. Some of them may not get there, since they refuse an
event, because they are stopped already, or because the log cannot be read.

* `ViewDispatcher.Visits` — a visit of all registrations, each of which ends somehow;
  `ViewDispatcher.Visits.answers` says that what holds of an answer and of what has become of the
  registration holds of all of them.
* `ViewDispatcher.Starts` — a start, where catching up is the loop `Feeding.Loops`, for which there is no
  bound.
* `ViewDispatcher.start_stops_or_reaches` — what every manager is left like after a start.
* `ViewDispatcher.start_leaves_running` — a manager that could not read the log is left running.
-/

namespace ViewDispatcher

variable {σ V β : Type}

/-- What has come of bringing each manager to the end of the log at a start. -/
def startAnswers (src : ViewSource σ) (purge : Bool) (s : σ × ViewDispatcher V) :
    List (Option ViewDispatchError) :=
  (visitAll (fun f => if purge then f.replay src else f.catchUp src) s).1

/-- After a start, every manager that it has not brought to the end of the log is stopped. -/
def FailStops (src : ViewSource SharedLog) (purge : Bool) (s : SharedLog × ViewDispatcher V) : Prop :=
  ∀ m ∈ (start src purge s).2.2.managers, m.stopped = true ∨ m.AtEnd s.1.log

instance (src : ViewSource SharedLog) (purge : Bool) (s : SharedLog × ViewDispatcher V) :
    Decidable (FailStops src purge s) :=
  inferInstanceAs (Decidable (∀ m ∈ (start src purge s).2.2.managers,
    m.stopped = true ∨ m.AtEnd s.1.log))

/-! ### Answers of a visit -/

/-- Registrations are visited in turn, and each visit ends: the answers and what there is afterwards. -/
inductive Visits (ends : Feeding σ V → β × Feeding σ V → Prop) : σ → Profiler →
    List (Registration V) → List β × σ × Profiler × List (Registration V) → Prop where
  /-- There is nothing to visit. -/
  | nil {store : σ} {profiler : Profiler} : Visits ends store profiler [] ([], store, profiler, [])
  /-- A visit of the first registration ends, and then those of the others. -/
  | cons {store : σ} {profiler : Profiler} {r : Registration V} {rest : List (Registration V)}
    {answer : β} {f : Feeding σ V} {answers : List β}
    {after : σ × Profiler × List (Registration V)} :
    ends ⟨store, profiler, r⟩ (answer, f) → Visits ends f.store f.profiler rest (answers, after) →
    Visits ends store profiler (r :: rest)
      (answer :: answers, after.1, after.2.1, f.target :: after.2.2)

section

variable {ends : Feeding σ V → β × Feeding σ V → Prop} {store : σ} {profiler : Profiler}
  {registrations : List (Registration V)}
  {outcome outcome' : List β × σ × Profiler × List (Registration V)}

/-- If each visit ends in one way, so do all of them. -/
theorem Visits.unique (hunique : ∀ {f o o'}, ends f o → ends f o' → o = o')
    (h : Visits ends store profiler registrations outcome)
    (h' : Visits ends store profiler registrations outcome') : outcome = outcome' := by
  induction h generalizing outcome' with
  | nil =>
    cases h'
    rfl
  | cons hfirst _ ih =>
    cases h' with
    | cons hfirst' hrest' =>
      cases hunique hfirst hfirst'
      cases ih hrest'
      rfl

/-- If visits keep a property of the store, and what they answer always fits what has become of the
registration, then all answers fit. -/
theorem Visits.answers {P : σ → Prop} {R : β → Registration V → Prop}
    (hkeeps : ∀ {f o}, ends f o → P f.store → P o.2.store)
    (hfits : ∀ {f o}, ends f o → P f.store → R o.1 o.2.target)
    (h : Visits ends store profiler registrations outcome) (hstore : P store) :
    List.Forall₂ R outcome.1 outcome.2.2.2 := by
  induction h with
  | nil => exact .nil
  | cons hfirst _ ih => exact .cons (hfits hfirst hstore) (ih (hkeeps hfirst hstore))

/-- A visit ends with what the action does, as long as it ends for each registration. -/
theorem visits_visitList {act : Feeding σ V → β × Feeding σ V} {P : σ → Prop}
    (hkeeps : ∀ f, P f.store → P (act f).2.store) (hstore : P store) (profiler : Profiler)
    (hends : ∀ f, P f.store → f.target ∈ registrations → ends f (act f)) :
    Visits ends store profiler registrations (visitList act store profiler registrations) := by
  induction registrations generalizing store profiler with
  | nil => exact .nil
  | cons r rest ih =>
    exact .cons (hends ⟨store, profiler, r⟩ hstore List.mem_cons_self)
      (ih (hkeeps ⟨store, profiler, r⟩ hstore) _ fun f hf hmem =>
        hends f hf (List.mem_cons_of_mem r hmem))

end

/-! ### Starts -/

/-- The registration from which a start catches up. -/
def beginning (purge : Bool) (f : Feeding σ V) : Feeding σ V :=
  if purge then f.onManager ViewManager.purge else f

theorem store_beginning (purge : Bool) (f : Feeding σ V) : (beginning purge f).store = f.store := by
  unfold beginning
  split <;> rfl

theorem manager_beginning (purge : Bool) (f : Feeding σ V) : (beginning purge f).target.manager
    = if purge then f.target.manager.purge else f.target.manager := by
  unfold beginning
  split <;> rfl

/-- A manager that a start brings to the end of the log catches up, maybe purged before. -/
theorem bring_eq (src : ViewSource σ) (purge : Bool) (f : Feeding σ V) :
    (if purge then f.replay src else f.catchUp src) = (beginning purge f).catchUp src := by
  unfold beginning
  split <;> rfl

/-- A start has ended with these answers: catching up has, for one manager after the other, and then the
tasks were started. -/
def StartsBy (ends : Feeding σ V → Option ViewDispatchError × Feeding σ V → Prop) (src : ViewSource σ)
    (purge : Bool) (s : σ × ViewDispatcher V) (answers : List (Option ViewDispatchError))
    (after : σ × ViewDispatcher V) : Prop :=
  ∃ profiler registrations,
    Visits (fun f outcome => ends (beginning purge f) outcome)
      s.1 s.2.profiler s.2.registrations (answers, after.1, profiler, registrations) ∧
    after.2 = ({ s.2 with registrations, profiler } : ViewDispatcher V).startTasks src

/-- A start has ended with these answers: the loops have. -/
def Starts (src : ViewSource σ) (purge : Bool) (s : σ × ViewDispatcher V)
    (answers : List (Option ViewDispatchError)) (after : σ × ViewDispatcher V) : Prop :=
  StartsBy (fun f outcome => ∃ rounds, Feeding.Loops src rounds f outcome) src purge s answers after

section

variable {ends : Feeding σ V → Option ViewDispatchError × Feeding σ V → Prop} {src : ViewSource σ}
  {purge : Bool} {s after after' : σ × ViewDispatcher V}
  {answers answers' : List (Option ViewDispatchError)}

/-- There is one way in which a start ends. -/
theorem Starts.unique (h : Starts src purge s answers after)
    (h' : Starts src purge s answers' after') : answers = answers' ∧ after = after' := by
  obtain ⟨profiler, registrations, hvisits, hafter⟩ := h
  obtain ⟨profiler', registrations', hvisits', hafter'⟩ := h'
  have hsame := hvisits.unique (fun ⟨_, hloops⟩ ⟨_, hloops'⟩ => (hloops.unique hloops').2) hvisits'
  simp only [Prod.mk.injEq] at hsame
  obtain ⟨rfl, hstore, rfl, rfl⟩ := hsame
  exact ⟨rfl, Prod.ext hstore (hafter.trans hafter'.symm)⟩

/-- What fits the answer of catching up, and the manager afterwards, fits all answers of a start. -/
theorem StartsBy.forall₂ {P : σ → Prop} {R : Option ViewDispatchError → ViewManager V → Prop}
    (h : StartsBy ends src purge s answers after)
    (hkeeps : ∀ {f outcome}, ends f outcome → P f.store → P outcome.2.store)
    (hfits : ∀ {f outcome}, ends f outcome → P f.store → R outcome.1 outcome.2.target.manager)
    (hstore : P s.1) : List.Forall₂ R answers after.2.managers := by
  obtain ⟨profiler, registrations, hvisits, hafter⟩ := h
  rw [hafter, managers_startTasks]
  refine List.forall₂_map_right_iff.2 (hvisits.answers (P := P) ?_ ?_ hstore)
  · intro f o hends hf
    exact hkeeps hends ((store_beginning purge f).symm ▸ hf)
  · intro f o hends hf
    exact hfits hends ((store_beginning purge f).symm ▸ hf)

/-- A start ends with what `start` says, if catching up ends with what `Feeding.catchUp` says. -/
theorem startsBy_start {P : σ → Prop} (hkeeps : ∀ f : Feeding σ V, P f.store → P (f.catchUp src).2.store)
    (hstore : P s.1) (hends : ∀ f : Feeding σ V, P f.store → ∀ m ∈ s.2.managers,
      f.target.manager = (if purge then m.purge else m) → ends f (f.catchUp src)) :
    StartsBy ends src purge s (startAnswers src purge s) (start src purge s).2 := by
  refine ⟨_, _, visits_visitList (P := P) (fun f hf => ?_) hstore s.2.profiler (fun f hf hmem => ?_),
    rfl⟩
  · rw [bring_eq]
    exact hkeeps _ ((store_beginning purge f).symm ▸ hf)
  · rw [bring_eq]
    exact hends _ ((store_beginning purge f).symm ▸ hf) f.target.manager (List.mem_map_of_mem hmem)
      (manager_beginning purge f)

end

/-- Where others write and reads may fail, a start ends, and with what `start` says; unless a manager that
is not purged stands at the greatest word. -/
theorem starts_start {src : ViewSource SharedLog} {s : SharedLog × ViewDispatcher V} {purge : Bool}
    (hstore : src.store = SharedLog.store) (hchunks : 0 < src.config.maxItemsPerBatch)
    (hlog : s.1.log.Consistent)
    (hpositions : ∀ m ∈ s.2.managers, purge = true ∨ m.position < Word64.greatest) :
    Starts src purge s (startAnswers src purge s) (start src purge s).2 := by
  refine startsBy_start (P := s.1.Passed)
    (fun f hf => hf.trans (Feeding.keeps_catchUp hstore f).passed) (.refl s.1) (fun f hf m hm hbegins => ?_)
  have hposition : f.target.manager.position < Word64.greatest := by
    rw [hbegins]
    obtain rfl | hposition := hpositions m hm
    · exact (by decide : (-1 : Int) < Word64.greatest)
    · split
      · exact (by decide : (-1 : Int) < Word64.greatest)
      · exact hposition
  obtain ⟨rounds, -, hloops⟩ := Feeding.exists_loops hstore hchunks (hf.grown hlog).log hposition
  exact ⟨rounds, hloops⟩

/-- A start answers the first error. After it, whatever the store is and however it fails, a manager is
stopped exactly if what came of it is an error of its own and not one of the store
(`ViewDispatchError.leavesStopped`). Where the store is a log that others write to and whose reads may fail
at any item, a manager without an error has come to the end of the log that there was at the start
(`ViewManager.AtEnd`). So **if no read fails, every manager that does not get to the end of the log is
stopped** (`FailStops`). All this holds of `start` and of every start that ends, however many rounds it
takes (`Starts`); over such a log a start ends with what `start` says, unless a manager stands at
`Word64.greatest`. -/
theorem start_stops_or_reaches (purge : Bool) :
    (∀ {σ : Type} (src : ViewSource σ) (s : σ × ViewDispatcher V),
      (start src purge s).1 = (startAnswers src purge s).findSome? id ∧
      List.Forall₂ (fun answer m => m.stopped = ViewDispatchError.leavesStopped answer)
        (startAnswers src purge s) (start src purge s).2.2.managers ∧
      ∀ answers after, Starts src purge s answers after →
        List.Forall₂ (fun answer m => m.stopped = ViewDispatchError.leavesStopped answer)
          answers after.2.managers) ∧
    ∀ (src : ViewSource SharedLog) (s : SharedLog × ViewDispatcher V),
      src.store = SharedLog.store → 0 < src.config.maxItemsPerBatch → s.1.log.Consistent →
      List.Forall₂ (fun answer m => answer = none → m.AtEnd s.1.log)
        (startAnswers src purge s) (start src purge s).2.2.managers ∧
      (s.1.Reliable → FailStops src purge s) ∧
      (∀ answers after, Starts src purge s answers after →
        List.Forall₂ (fun answer m => answer = none → m.AtEnd s.1.log) answers after.2.managers ∧
        (s.1.Reliable → ∀ m ∈ after.2.managers, m.stopped = true ∨ m.AtEnd s.1.log)) ∧
      ((∀ m ∈ s.2.managers, purge = true ∨ m.position < Word64.greatest) →
        ∀ answers after, Starts src purge s answers after ↔
          answers = startAnswers src purge s ∧ after = (start src purge s).2) := by
  have hstart : ∀ {σ : Type} (src : ViewSource σ) (s : σ × ViewDispatcher V),
      StartsBy (fun f outcome => f.catchUp src = outcome) src purge s (startAnswers src purge s)
        (start src purge s).2 := fun src s =>
    startsBy_start (P := fun _ => True) (fun _ _ => trivial) trivial fun _ _ _ _ _ => rfl
  refine ⟨fun src s => ⟨rfl, ?_, fun answers after h => ?_⟩, fun src s hstore hchunks hlog => ?_⟩
  · refine (hstart src s).forall₂ (P := fun _ => True) (fun _ _ => trivial) ?_ trivial
    rintro f _ rfl -
    exact Feeding.stopped_catchUp src f
  · refine StartsBy.forall₂ h (P := fun _ => True) (fun _ _ => trivial) ?_ trivial
    rintro f outcome ⟨rounds, hloops⟩ -
    exact hloops.stopped
  · -- The managers before have only let others write.
    have hkeeps : ∀ {f : Feeding SharedLog V} {outcome}, f.catchUp src = outcome →
        s.1.Passed f.store → s.1.Passed outcome.2.store := by
      rintro f _ rfl hf
      exact hf.trans (Feeding.keeps_catchUp hstore f).passed
    have hkeeps' : ∀ {f : Feeding SharedLog V} {outcome},
        (∃ rounds, Feeding.Loops src rounds f outcome) → s.1.Passed f.store →
          s.1.Passed outcome.2.store := by
      rintro f outcome ⟨rounds, hloops⟩ hf
      rw [← hloops.catchUpFrom_eq (Nat.le_refl rounds)]
      exact hf.trans (Feeding.keeps_catchUpFrom hstore rounds f).passed
    have hmember : ∀ {answers : List (Option ViewDispatchError)} {ms : List (ViewManager V)},
        List.Forall₂ (fun _ m => m.stopped = true ∨ m.AtEnd s.1.log) answers ms →
        ∀ m ∈ ms, m.stopped = true ∨ m.AtEnd s.1.log := by
      intro answers ms hall m hm
      obtain ⟨i, hi, rfl⟩ := List.getElem_of_mem hm
      exact (List.forall₂_iff_get.1 hall).2 i (hall.length_eq ▸ hi) hi
    refine ⟨(hstart src s).forall₂ hkeeps ?_ (.refl s.1), fun hreliable =>
      hmember ((hstart src s).forall₂ hkeeps ?_ (.refl s.1)), fun answers after h =>
      ⟨StartsBy.forall₂ h hkeeps' ?_ (.refl s.1), fun hreliable =>
        hmember (StartsBy.forall₂ h hkeeps' ?_ (.refl s.1))⟩, fun hpositions answers after => ?_⟩
    · rintro f _ rfl hf hdone
      have hgrown := hf.grown hlog
      exact (Feeding.catchUp_end hstore hchunks hgrown.log hdone).of_size_le hgrown.size_le
    · rintro f _ rfl hf
      have hlater := hf.later hlog
      exact (Feeding.catchUp_stops_or_ends hstore hchunks hlater.grown.log
        (hlater.reliable hreliable)).imp_right fun h => h.of_size_le hlater.grown.size_le
    · rintro f outcome ⟨rounds, hloops⟩ hf hdone
      have hgrown := hf.grown hlog
      exact (hloops.atEnd hstore hchunks hgrown.log hdone).of_size_le hgrown.size_le
    · rintro f outcome ⟨rounds, hloops⟩ hf
      have hlater := hf.later hlog
      exact (hloops.stops_or_ends hstore hchunks hlater.grown.log
        (hlater.reliable hreliable)).imp_right fun h => h.of_size_le hlater.grown.size_le
    · have hends := starts_start hstore hchunks hlog hpositions
      constructor
      · exact fun h => h.unique hends
      · rintro ⟨rfl, rfl⟩
        exact hends

end ViewDispatcher

namespace Sample

/-- A log with two deposits, and what happens at the reads of it. -/
def twoDeposits (ahead : List Happening) : SharedLog where
  log := (Log.empty.save .nil (Log.empty.continuation "a" "Deposited" (deposited.encode 5) 2)).2
  ahead := ahead

end Sample

set_option maxRecDepth 10000 in
/-- Of two managers, the one that refuses the deposits is stopped, and the other one has come to the
end. -/
theorem ViewDispatcher.start_stops_or_reaches_refusing :
    let src : ViewSource SharedLog := ⟨SharedLog.store, Dict.empty, {}⟩
    let s := (Sample.twoDeposits [], Sample.refusing)
    FailStops src false s ∧ Starts src false s (startAnswers src false s) (start src false s).2 ∧
      (start src false s).2.2.managers.map (fun m => (m.stopped, m.position))
        = [(true, -1), (false, 1)] := by
  intro src s
  have hlog : s.1.log.Consistent := Log.consistent_empty.save _ _
  obtain ⟨-, hstops, -, hstarts⟩ := (start_stops_or_reaches false).2 src s rfl (by decide) hlog
  exact ⟨hstops nofun, (hstarts (by decide +kernel) _ _).2 ⟨rfl, rfl⟩, by decide +kernel⟩

/-- A manager that counts events, whose read of a log with two deposits fails. -/
def Sample.unread (fault : Fault) : SharedLog × ViewDispatcher Sample.Tally :=
  (Sample.twoDeposits [⟨[], some fault⟩], { registrations := [Sample.overall "counting" .count] })

set_option maxRecDepth 10000 in
/-- **A start may leave a manager running that it has not brought to the end of the log.** The read of
the log is refused, or it breaks off behind the first event: the manager is not stopped. -/
theorem ViewDispatcher.start_leaves_running :
    ¬ FailStops ⟨SharedLog.store, Dict.empty, {}⟩ false
        (Sample.unread (.refused (.storage "boom"))) ∧
      ¬ FailStops ⟨SharedLog.store, Dict.empty, {}⟩ true
        (Sample.unread (.broken ⟨1, .connection "boom"⟩)) := by
  decide +kernel

end Chronicle
