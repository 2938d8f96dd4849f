import Chronicle.Proofs.Batch.Defects
import Chronicle.Proofs.Log.Outcome
import Chronicle.Proofs.Log.Shared

namespace Chronicle

/-!
# Positions are given out by the store alone

* `Batch.checkSequences` — what is left of the integrity check where positions follow one another.
* `Batch.checkIntegrity_congr` — so batches with the same roots and sequence numbers are checked alike,
  wherever their positions begin.
* `Event.SameButPlace` — two events say the same, except about their position and their batch.
* `EventStore.Allocates` — what a store owes to those who save: it takes no notice of the positions and
  the batches that events come with. The stores of this library pay it.
* `Log.save_ne_position` — a log never finds fault with positions, as they are its own.
-/

/-! ### Checking without positions -/

namespace Batch

/-- The number of an event in the history of its root. -/
def Numbers.inRoot (n : Numbers) : String × Int := (n.root, n.sequence)

/-- Check the sequence numbers one after the other, given those that come next. -/
def checkSequences (batch : Uuid) : Table String Int → List (String × Int) → Except BatchError Unit
  | _, [] => .ok ()
  | next, (root, sequence) :: rest =>
    let expected := (next.get? root).getD sequence
    if sequence ≠ expected then .error (.nonSequentialSequence batch root expected sequence)
    else checkSequences batch (next.insert root (Word64.wrap (expected + 1))) rest

/-- Where positions follow one another, only the sequence numbers are checked. -/
theorem checkFrom_eq_checkSequences (batch : Uuid) (positions : List Int) {position : Int}
    (next : Table String Int) {ns : List Numbers}
    (h : ∀ (k : Nat) (n : Numbers), ns[k]? = some n → n.position = Word64.wrap (position + k)) :
    checkFrom batch positions (Word64.wrap position) next ns
      = checkSequences batch next (ns.map Numbers.inRoot) := by
  induction ns generalizing position next with
  | nil => rfl
  | cons n rest ih =>
    have hfirst : n.position = Word64.wrap position := by simpa using h 0 n rfl
    have hrest : ∀ (k : Nat) (n' : Numbers), rest[k]? = some n' →
        n'.position = Word64.wrap (position + 1 + k) := by
      intro k n' hk
      have hplace : position + ((k + 1 : Nat) : Int) = position + 1 + (k : Int) := by omega
      rw [h (k + 1) n' hk, hplace]
    rw [checkFrom, if_neg (not_not.2 hfirst), Word64.wrap_wrap_add]
    show (if _ then _ else _) = checkSequences batch next ((n.root, n.sequence) :: rest.map _)
    rw [checkSequences, ih _ hrest]

theorem checkSequences_ne_position {batch : Uuid} {next : Table String Int}
    {numbers : List (String × Int)} (batch' : Uuid) (expected actual : Int) (positions : List Int) :
    checkSequences batch next numbers
      ≠ .error (.nonSequentialPosition batch' expected actual positions) := by
  induction numbers generalizing next with
  | nil => exact nofun
  | cons n rest ih =>
    obtain ⟨root, sequence⟩ := n
    rw [checkSequences]
    split
    · exact nofun
    · exact ih

/-- The lowest numbers are those of the roots, whatever the positions are. -/
theorem lowest_congr {ns ns' : List Numbers}
    (h : ns'.map Numbers.inRoot = ns.map Numbers.inRoot) (t : Table String Int) :
    lowest t ns' = lowest t ns := by
  induction ns generalizing t ns' with
  | nil =>
    obtain rfl : ns' = [] := List.map_eq_nil_iff.1 h
    rfl
  | cons n rest ih =>
    obtain ⟨n', rest', rfl, hfirst, hrest⟩ := List.map_eq_cons_iff.1 h
    obtain ⟨hroot, hsequence⟩ := Prod.mk.inj hfirst
    rw [lowest, lowest, hroot, hsequence, ih hrest]

/-! ### Batches whose positions follow one another -/

/-- The positions follow one another from the first one on, as far as they can be read; behind the
greatest word comes the least. -/
def InLine (first : Int) (events : List Event) : Prop :=
  ∀ (k : Nat) (e : Event) (p : Int), events[k]? = some e → e.position = .ok p →
    p = Word64.wrap (first + k)

variable {batch : Uuid} {events events' : List Event} {first first' : Int}

/-- The check of a batch whose numbers can be read. -/
theorem InLine.checkIntegrity_eq (h : InLine first events) {ns : List Numbers}
    (hread : numbersFrom batch 0 events = .ok ns) : checkIntegrity batch events
      = checkSequences batch (lowest Table.empty ns) (ns.map Numbers.inRoot) := by
  have hposition : ∀ (k : Nat) (n : Numbers), ns[k]? = some n →
      n.position = Word64.wrap (first + k) := by
    intro k n hk
    obtain ⟨e, he, hn⟩ :=
      exists_getElem?_of_forall₂ ((numbersFrom_eq_ok_iff batch 0 events ns).1 hread).flip hk
    exact h k e n.position he ((numbersOf_eq_ok_iff e n).1 hn).2.2
  rw [checkIntegrity, hread]
  cases ns with
  | nil => rfl
  | cons n rest =>
    have hn : n.position = Word64.wrap first := by simpa using hposition 0 n rfl
    show checkFrom batch _ n.position _ (n :: rest) = _
    rw [hn]
    exact checkFrom_eq_checkSequences batch _ _ hposition

/-- The check finds no fault with positions that follow one another. -/
theorem InLine.checkIntegrity_ne_position (h : InLine first events) (batch' : Uuid)
    (expected actual : Int) (positions : List Int) : checkIntegrity batch events
      ≠ .error (.nonSequentialPosition batch' expected actual positions) := by
  cases hread : numbersFrom batch 0 events with
  | error err =>
    obtain ⟨_, ⟨_, _, _, _, rfl⟩, -⟩ := numbersFrom_eq_error_iff.1 hread
    rw [checkIntegrity, hread]
    intro herr
    cases herr
  | ok ns =>
    rw [h.checkIntegrity_eq hread]
    exact checkSequences_ne_position batch' expected actual positions

/-- Events with the same root and sequence number have the same number in the root, if both have a
position. -/
theorem SameNumber.numbersOf_eq {e e' : Event} (h : SameNumber e e')
    (hposition : ∃ p, e.position = .ok p) (hposition' : ∃ p, e'.position = .ok p) :
    (numbersOf e').map Numbers.inRoot = (numbersOf e).map Numbers.inRoot := by
  obtain ⟨p, hp⟩ := hposition
  obtain ⟨p', hp'⟩ := hposition'
  unfold numbersOf
  rw [h.1, h.2, hp, hp']
  cases e.root with
  | error err => rfl
  | ok root => cases e.sequence <;> rfl

variable (batch) in
theorem numbersFrom_congr (h : List.Forall₂ SameNumber events events')
    (hposition : ∀ e ∈ events, ∃ p, e.position = .ok p)
    (hposition' : ∀ e ∈ events', ∃ p, e.position = .ok p) (index : Nat) :
    (numbersFrom batch index events').map (List.map Numbers.inRoot)
      = (numbersFrom batch index events).map (List.map Numbers.inRoot) := by
  induction h generalizing index with
  | nil => rfl
  | @cons e e' rest rest' hsame _ ih =>
    have hfirst := hsame.numbersOf_eq (hposition e List.mem_cons_self)
      (hposition' e' List.mem_cons_self)
    have hrest := ih (fun e he => hposition e (List.mem_cons_of_mem _ he))
      (fun e he => hposition' e (List.mem_cons_of_mem _ he)) (index + 1)
    rw [numbersFrom, numbersFrom]
    cases hn : numbersOf e <;> cases hn' : numbersOf e' <;> rw [hn, hn'] at hfirst
    case error.error => cases hfirst; rfl
    case error.ok => cases hfirst
    case ok.error => cases hfirst
    case ok.ok n n' =>
      simp only
      cases hns : numbersFrom batch (index + 1) rest <;>
        cases hns' : numbersFrom batch (index + 1) rest' <;> rw [hns, hns'] at hrest
      case error.error => cases hrest; rfl
      case error.ok => cases hrest
      case ok.error => cases hrest
      case ok.ok =>
        have hn : n'.inRoot = n.inRoot := Except.ok.inj hfirst
        have hns := Except.ok.inj hrest
        show Except.ok (List.map _ _) = Except.ok (List.map _ _)
        rw [List.map_cons, List.map_cons, hn, hns]

/-- **Batches with the same roots and sequence numbers are checked alike,** wherever the positions of
the one and of the other begin. -/
theorem checkIntegrity_congr (h : List.Forall₂ SameNumber events events')
    (hline : InLine first events) (hline' : InLine first' events')
    (hposition : ∀ e ∈ events, ∃ p, e.position = .ok p)
    (hposition' : ∀ e ∈ events', ∃ p, e.position = .ok p) :
    checkIntegrity batch events' = checkIntegrity batch events := by
  have hsame := numbersFrom_congr batch h hposition hposition' 0
  cases hns : numbersFrom batch 0 events <;> cases hns' : numbersFrom batch 0 events' <;>
    rw [hns, hns'] at hsame
  case error.error =>
    cases hsame
    rw [checkIntegrity, checkIntegrity, hns, hns']
  case error.ok => cases hsame
  case ok.error => cases hsame
  case ok.ok ns ns' =>
    have hroots : ns'.map Numbers.inRoot = ns.map Numbers.inRoot := Except.ok.inj hsame
    rw [hline.checkIntegrity_eq hns, hline'.checkIntegrity_eq hns', lowest_congr hroots, hroots]

end Batch

/-! ### Events that differ in their places -/

/-- Two events say the same, except about their position and their batch. -/
structure Event.SameButPlace (e e' : Event) : Prop where
  /-- They have the same type tag. -/
  tag : e'.tag = e.tag
  /-- They have the same payload. -/
  payload : e'.payload = e.payload
  /-- They agree on all other metadata. -/
  kept : ∀ key, key ≠ Metadata.Key.position → key ≠ Metadata.Key.batch →
    e'.metadata.get? key = e.metadata.get? key

namespace Event.SameButPlace

variable {e e' : Event}

/-- They have the same root and the same sequence number. -/
theorem sameNumber (h : e.SameButPlace e') : Batch.SameNumber e e' :=
  ⟨require_congr h.tag (h.kept _ (by decide) (by decide)),
    readAs_congr _ h.tag (h.kept _ (by decide) (by decide))⟩

/-- They are the same once both have been given a position and a batch. -/
theorem placed_eq (h : e.SameButPlace e') (position batch : String) :
    (e'.withMetadata Metadata.Key.position position).withMetadata Metadata.Key.batch batch
      = (e.withMetadata Metadata.Key.position position).withMetadata Metadata.Key.batch batch := by
  have hmetadata : (e'.metadata.insert Metadata.Key.position position).insert Metadata.Key.batch batch
      = (e.metadata.insert Metadata.Key.position position).insert Metadata.Key.batch batch := by
    refine Dict.ext_get? fun key => ?_
    rw [Dict.get?_insert, Dict.get?_insert, Dict.get?_insert, Dict.get?_insert]
    by_cases hbatch : key = Metadata.Key.batch
    · rw [if_pos hbatch, if_pos hbatch]
    · by_cases hposition : key = Metadata.Key.position
      · rw [if_neg hbatch, if_neg hbatch, if_pos hposition, if_pos hposition]
      · rw [if_neg hbatch, if_neg hbatch, if_neg hposition, if_neg hposition,
          h.kept key hposition hbatch]
  show Event.mk e'.tag e'.payload _ = Event.mk e.tag e.payload _
  rw [h.tag, h.payload]
  exact congrArg _ hmetadata

end Event.SameButPlace

/-! ### Stores that give out positions -/

/-- The store gives out positions itself: what a save does and answers does not depend on the positions
and the batches that the events come with. -/
def EventStore.Allocates {σ : Type} (store : EventStore σ) : Prop :=
  ∀ (batch : Uuid) (events events' : List Event) (s : σ),
    List.Forall₂ Event.SameButPlace events events' →
      store.save batch events' s = store.save batch events s

namespace Log

variable {events events' : List Event}

/-- A stamp covers the places that the events had. -/
theorem stamp_congr (h : List.Forall₂ Event.SameButPlace events events') (batch : Uuid)
    (position : Nat) : stamp batch position events' = stamp batch position events := by
  induction h generalizing position with
  | nil => rfl
  | cons hfirst _ ih => rw [stamp, stamp, hfirst.placed_eq, ih]

/-- A log takes no notice of the places that events come with. -/
theorem save_congr (h : List.Forall₂ Event.SameButPlace events events') (batch : Uuid) (log : Log) :
    log.save batch events' = log.save batch events := by
  have hempty : events'.isEmpty = events.isEmpty := by cases h <;> rfl
  have hroom : log.HasRoom events' ↔ log.HasRoom events := by rw [HasRoom, HasRoom, h.length_eq]
  unfold save
  simp only [hempty, hroom, stamp_congr h]

theorem allocates_store : store.Allocates := fun batch _ _ log h => save_congr h batch log

/-- Stamped events stand in line. -/
theorem inLine_stamp (batch : Uuid) (position : Nat) (events : List Event) :
    Batch.InLine position (stamp batch position events) := by
  intro k e p he hp
  have hplace := position_stamp he hp
  push_cast at hplace
  rw [← hplace, Word64.wrap_of_fits (Event.fits_position hp)]

/-- The uniqueness check does not complain about integrity. -/
theorem checkFrom_ne_integrity (log : Log) (batch : Uuid) (next : Table String Int)
    (events : List Event) (cause : BatchError) :
    log.checkFrom batch next events ≠ .error (.integrity cause) := by
  induction events generalizing next with
  | nil =>
    intro h
    cases h
  | cons e rest ih =>
    rw [checkFrom]
    split
    · intro h
      cases h
    · intro h
      cases h
    · simp only
      split_ifs
      · intro h
        cases h
      · intro h
        cases h
      · exact ih _

theorem appendAll_ne_integrity (log : Log) (events : List Event) (cause : BatchError) :
    (log.appendAll events).1 ≠ .error (.integrity cause) := by
  induction events generalizing log with
  | nil =>
    intro h
    cases h
  | cons e rest ih =>
    rw [appendAll]
    split
    · intro h
      cases h
    · exact ih _

/-- A log never finds fault with the positions of a batch. -/
theorem save_ne_position (log : Log) (batch : Uuid) (events : List Event) (batch' : Uuid)
    (expected actual : Int) (positions : List Int) : (log.save batch events).1
      ≠ .error (.integrity (.nonSequentialPosition batch' expected actual positions)) := by
  unfold save
  split
  · exact nofun
  · split
    · exact nofun
    · simp only
      split
      · rename_i cause hrefused
        intro hanswer
        cases hanswer
        exact (inLine_stamp batch log.size events).checkIntegrity_ne_position _ _ _ _ hrefused
      · split
        · rename_i err hunique
          intro hanswer
          cases hanswer
          exact log.checkFrom_ne_integrity _ _ _ _ hunique
        · exact nofun
        · split
          · rename_i err log' happend
            intro hanswer
            cases hanswer
            exact log.appendAll_ne_integrity (stamp batch log.size events) _
              (congrArg Prod.fst happend)
          · exact nofun

end Log

theorem SharedLog.allocates_store : SharedLog.store.Allocates := by
  intro batch events events' s h
  show s.save batch events' = s.save batch events
  unfold save
  simp only [Log.save_congr h]

theorem ScriptedStore.allocates_store : ScriptedStore.store.Allocates := by
  intro batch events events' s h
  show s.save batch events' = s.save batch events
  unfold save
  simp only [Log.save_congr h]

end Chronicle
