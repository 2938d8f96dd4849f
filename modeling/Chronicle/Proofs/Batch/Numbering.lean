import Chronicle.Batch.Numbering
import Chronicle.Proofs.Batch.Integrity

namespace Chronicle

/-!
# What a numbered batch holds

* `Batch.mem_number`, `Batch.exists_first_mem_number` — a numbered batch holds the emitted events, and
  the first one of a root goes on from the number the root was loaded with.
* `Batch.InRange` — all numbers that a batch gives out are words.
* `Batch.getElem?_number` — the events have the positions from the given one on, in batch order.
* `Batch.filter_number` — the events of a root are the ones that were emitted on it, numbered from its
  own number on, if every root is there once and has events of its own only.
* `Batch.checkIntegrity_number` — so the batch passes the integrity check.
-/

namespace Batch

/-! ### Marked events -/

/-- Numbering keeps the root of an event. -/
theorem Stamp.root_mark (s : Stamp) (sequence position : Int) {e : Event} {id : String}
    (h : e.root = .ok id) : (s.mark sequence position e).root = .ok id := by
  rw [Event.root_eq_ok_iff] at h ⊢
  simp [mark, Dict.get?_merge, Dict.get?_insert, Metadata.Key.root, Metadata.Key.sequence,
    Metadata.Key.position, Metadata.Key.batch, Metadata.Key.time, h] at h ⊢

theorem Stamp.get?_sequence_mark (s : Stamp) (sequence position : Int) (e : Event) :
    (s.mark sequence position e).metadata.get? Metadata.Key.sequence
      = some (toString sequence) := by
  simp [mark, Dict.get?_merge, Dict.get?_insert, Metadata.Key.sequence, Metadata.Key.position,
    Metadata.Key.batch, Metadata.Key.time]

theorem Stamp.get?_position_mark (s : Stamp) (sequence position : Int) (e : Event) :
    (s.mark sequence position e).metadata.get? Metadata.Key.position
      = some (toString position) := by
  simp [mark, Dict.get?_merge, Dict.get?_insert, Metadata.Key.position, Metadata.Key.batch,
    Metadata.Key.time]

/-- A numbered event has the number it was given, if that can be read at all. -/
theorem Stamp.sequence_mark (s : Stamp) {sequence position n : Int} {e : Event}
    (h : (s.mark sequence position e).sequence = .ok n) : n = sequence := by
  obtain ⟨value, hvalue, hread⟩ := (Event.readAs_eq_ok_iff _ _ _ _).1 h
  rw [s.get?_sequence_mark, Option.some.injEq] at hvalue
  subst hvalue
  exact Numeral.eq_of_read?_toString hread

/-- A sequence number that is a word can be read. -/
theorem Stamp.sequence_mark_of_fits (s : Stamp) {sequence : Int} (position : Int) (e : Event)
    (h : Word64.Fits sequence) : (s.mark sequence position e).sequence = .ok sequence :=
  (Event.readAs_eq_ok_iff _ _ _ _).2
    ⟨_, s.get?_sequence_mark sequence position e, Numeral.read?_toString h⟩

/-- A position that is a word can be read. -/
theorem Stamp.position_mark_of_fits (s : Stamp) (sequence : Int) {position : Int} (e : Event)
    (h : Word64.Fits position) : (s.mark sequence position e).position = .ok position :=
  (Event.readAs_eq_ok_iff _ _ _ _).2
    ⟨_, s.get?_position_mark sequence position e, Numeral.read?_toString h⟩

/-- A numbered event carries the id of its batch, whatever its emitter or the command has set. -/
theorem Stamp.batchId_mark (s : Stamp) (sequence position : Int) (e : Event) :
    (s.mark sequence position e).batchId = .ok s.batch := by
  refine (Event.readAs_eq_ok_iff _ _ _ _).2 ⟨s.batch.text, ?_, Uuid.read?_text s.batch⟩
  simp [mark, Dict.get?_merge, Dict.get?_insert, Metadata.Key.batch, Metadata.Key.time]

/-! ### The events of one root -/

theorem Stamp.mem_markFrom {s : Stamp} {sequence position : Int} {events : List Event} {e : Event}
    (h : e ∈ s.markFrom sequence position events) :
    ∃ e₀ ∈ events, ∃ sequence' position', e = s.mark sequence' position' e₀ := by
  induction events generalizing sequence position with
  | nil => cases h
  | cons e₁ rest ih =>
    rcases List.mem_cons.1 h with rfl | h
    · exact ⟨e₁, List.mem_cons_self, _, _, rfl⟩
    · obtain ⟨e₀, he₀, hmark⟩ := ih h
      exact ⟨e₀, List.mem_cons_of_mem _ he₀, hmark⟩

/-- The numbers of a root's events follow one another, as words do. -/
theorem Stamp.getElem?_markFrom (s : Stamp) (sequence position : Int) (events : List Event)
    (k : Nat) : (s.markFrom sequence position events)[k]?
      = (events[k]?).map (s.mark (Word64.wrap (sequence + k)) (Word64.wrap (position + k))) := by
  induction events generalizing sequence position k with
  | nil => simp [markFrom]
  | cons e rest ih =>
    cases k with
    | zero => simp [markFrom]
    | succ k =>
      have hsequence : sequence + 1 + (k : Int) = sequence + ((k + 1 : Nat) : Int) := by omega
      have hposition : position + 1 + (k : Int) = position + ((k + 1 : Nat) : Int) := by omega
      rw [markFrom, List.getElem?_cons_succ, List.getElem?_cons_succ, ih, hsequence, hposition]

/-! ### The events of a batch -/

/-- A numbered batch holds emitted events only. -/
theorem mem_number {s : Stamp} {position : Int} {pending : List Pending} {e : Event}
    (h : e ∈ number s position pending) : ∃ p ∈ pending, ∃ e₀ ∈ p.events,
      ∃ sequence position', e = s.mark sequence position' e₀ := by
  induction pending generalizing position with
  | nil => cases h
  | cons p rest ih =>
    rcases List.mem_append.1 h with h | h
    · exact ⟨p, List.mem_cons_self, Stamp.mem_markFrom h⟩
    · obtain ⟨p', hp', hmark⟩ := ih h
      exact ⟨p', List.mem_cons_of_mem _ hp', hmark⟩

/-- The first event of every root goes on from the number that the root has. -/
theorem exists_first_mem_number (s : Stamp) (position : Int) {pending : List Pending} {p : Pending}
    (hp : p ∈ pending) (hne : p.events ≠ []) :
    ∃ e₀ ∈ p.events, ∃ position',
      s.mark (Word64.wrap (p.sequence + 1)) position' e₀ ∈ number s position pending := by
  induction pending generalizing position with
  | nil => cases hp
  | cons p' rest ih =>
    rcases List.mem_cons.1 hp with rfl | hp
    · obtain ⟨e₀, later, hevents⟩ := List.exists_cons_of_ne_nil hne
      refine ⟨e₀, by simp [hevents], Word64.wrap position, ?_⟩
      rw [number, hevents]
      exact List.mem_append_left _ List.mem_cons_self
    · obtain ⟨e₀, he₀, position', hmem⟩ := ih (position + p'.events.length) hp
      exact ⟨e₀, he₀, position', List.mem_append_right _ hmem⟩

theorem length_number (s : Stamp) (position : Int) (pending : List Pending) :
    (number s position pending).length = (pending.flatMap Pending.events).length := by
  induction pending generalizing position with
  | nil => rfl
  | cons p rest ih => simp [number, ih]

/-- The events of a batch have the positions from the given one on, as words. -/
theorem getElem?_number {s : Stamp} {position : Int} {pending : List Pending} {k : Nat} {e : Event}
    (h : (number s position pending)[k]? = some e) :
    ∃ sequence e₀, e = s.mark sequence (Word64.wrap (position + k)) e₀ := by
  induction pending generalizing position k with
  | nil => simp [number] at h
  | cons p rest ih =>
    rw [number] at h
    rcases Nat.lt_or_ge k p.events.length with hk | hk
    · rw [List.getElem?_append_left (by simpa using hk), Stamp.getElem?_markFrom,
        List.getElem?_eq_getElem hk] at h
      cases h
      exact ⟨_, _, rfl⟩
    · rw [List.getElem?_append_right (by simpa using hk), Stamp.length_markFrom] at h
      obtain ⟨sequence, e₀, rfl⟩ := ih h
      have hplace : position + p.events.length + ((k - p.events.length : Nat) : Int)
          = position + k := by omega
      exact ⟨sequence, e₀, by rw [hplace]⟩

/-! ### Batches of events that know their roots -/

/-- What has been emitted on roots with these ids: every id is there once, and every event belongs to
the root it was emitted on. -/
structure ById (entries : List (String × Pending)) : Prop where
  /-- No root is there twice. -/
  nodup : (entries.map Prod.fst).Nodup
  /-- Every event says that it is of its root. -/
  owned : ∀ entry ∈ entries, ∀ e ∈ entry.2.events, e.root = .ok entry.1

variable {s : Stamp} {position : Int} {entries : List (String × Pending)} {id : String}

theorem ById.tail {entry : String × Pending} (h : ById (entry :: entries)) : ById entries where
  nodup := (List.nodup_cons.1 h.nodup).2
  owned entry' hentry' := h.owned entry' (List.mem_cons_of_mem _ hentry')

/-- Every event of the batch is of one of the roots. -/
theorem ById.exists_root (h : ById entries) {e : Event}
    (he : e ∈ number s position (entries.map Prod.snd)) :
    ∃ entry ∈ entries, e.root = .ok entry.1 := by
  obtain ⟨p, hp, e₀, he₀, _, _, rfl⟩ := mem_number he
  obtain ⟨entry, hentry, rfl⟩ := List.mem_map.1 hp
  exact ⟨entry, hentry, s.root_mark _ _ (h.owned entry hentry e₀ he₀)⟩

/-- A root that is not there has no events in the batch. -/
theorem filter_number_of_notMem (h : ById entries) (hid : id ∉ entries.map Prod.fst) :
    (number s position (entries.map Prod.snd)).filter (Event.isOf id) = [] := by
  rw [List.filter_eq_nil_iff]
  intro e he hof
  obtain ⟨entry, hentry, hroot⟩ := h.exists_root he
  rw [Event.isOf_iff, hroot, Except.ok.injEq] at hof
  exact hid (hof ▸ List.mem_map_of_mem hentry)

/-- The events of a root in the batch are the events that were emitted on it, in their order, numbered
from the number that the root has. -/
theorem filter_number (s : Stamp) (position : Int) (h : ById entries) {p : Pending} (hp : (id, p) ∈ entries) :
    ∃ position', (number s position (entries.map Prod.snd)).filter (Event.isOf id)
      = s.markFrom (p.sequence + 1) position' p.events := by
  induction entries generalizing position with
  | nil => cases hp
  | cons entry rest ih =>
    obtain ⟨id', p'⟩ := entry
    have hfirst := h.owned (id', p') List.mem_cons_self
    obtain ⟨hnot, _⟩ := List.nodup_cons.1 h.nodup
    rw [List.map_cons, number, List.filter_append]
    rcases List.mem_cons.1 hp with heq | hp
    · -- The first root is the one: all of its events stay, and no later one is of it.
      cases heq
      have hown : (s.markFrom (p.sequence + 1) position p.events).filter (Event.isOf id)
          = s.markFrom (p.sequence + 1) position p.events := by
        rw [List.filter_eq_self]
        intro e he
        obtain ⟨e₀, he₀, _, _, rfl⟩ := Stamp.mem_markFrom he
        exact (Event.isOf_iff _ _).2 (s.root_mark _ _ (hfirst e₀ he₀))
      exact ⟨position, by rw [hown, filter_number_of_notMem h.tail hnot, List.append_nil]⟩
    · -- The first root is another one: none of its events stays.
      have hne : id ≠ id' := fun heq => hnot (List.mem_map.2 ⟨(id, p), hp, heq⟩)
      have hother : (s.markFrom (p'.sequence + 1) position p'.events).filter (Event.isOf id) = [] := by
        rw [List.filter_eq_nil_iff]
        intro e he hof
        obtain ⟨e₀, he₀, _, _, rfl⟩ := Stamp.mem_markFrom he
        rw [Event.isOf_iff, s.root_mark _ _ (hfirst e₀ he₀), Except.ok.injEq] at hof
        exact hne hof.symm
      rw [hother, List.nil_append]
      exact ih _ h.tail hp

/-! ### Numbers that are words -/

/-- All numbers that a batch gives out are words. -/
structure InRange (position : Int) (pending : List Pending) : Prop where
  /-- The sequence numbers are. -/
  sequence : ∀ p ∈ pending, ∀ k < p.events.length, Word64.Fits (p.sequence + 1 + k)
  /-- The positions are. -/
  position : ∀ k < (pending.flatMap Pending.events).length, Word64.Fits (position + k)

/-- The positions of a batch can be read, wherever they begin. -/
theorem position_getElem?_number {pending : List Pending} {k : Nat} {e : Event}
    (he : (number s position pending)[k]? = some e) :
    e.position = .ok (Word64.wrap (position + k)) := by
  obtain ⟨_, _, rfl⟩ := getElem?_number he
  exact s.position_mark_of_fits _ _ (Word64.fits_wrap _)

/-- Within the range of words, they are the positions from the given one on. -/
theorem InRange.position_getElem? {pending : List Pending} (h : InRange position pending) {k : Nat}
    {e : Event} (he : (number s position pending)[k]? = some e) : e.position = .ok (position + k) := by
  have hk : k < (pending.flatMap Pending.events).length :=
    length_number s position pending ▸ (List.getElem?_eq_some_iff.1 he).1
  rw [position_getElem?_number he, Word64.wrap_of_fits (h.position k hk)]

/-- Then they do not leave that range. -/
theorem InRange.inBounds {pending : List Pending} (h : InRange position pending) :
    InBounds (number s position pending) := by
  intro e first he hfirst
  rw [List.head?_eq_getElem?] at he
  have hread := h.position_getElem? he
  rw [hfirst, Except.ok.injEq] at hread
  have hlength := length_number s position pending
  have hpos := (List.getElem?_eq_some_iff.1 he).1
  have hlast := h.position ((number s position pending).length - 1) (by omega)
  unfold Word64.Fits at hlast
  push_cast at hread
  omega

/-- The sequence numbers of a root can be read, if they are words. -/
theorem InRange.sequence_getElem? (h : InRange position (entries.map Prod.snd)) (hby : ById entries)
    {p : Pending} (hp : (id, p) ∈ entries) {k : Nat} {e : Event}
    (he : ((number s position (entries.map Prod.snd)).filter (Event.isOf id))[k]? = some e) :
    e.sequence = .ok (p.sequence + 1 + k) := by
  obtain ⟨position', hfilter⟩ := filter_number s position hby hp
  rw [hfilter, Stamp.getElem?_markFrom, Option.map_eq_some_iff] at he
  obtain ⟨e₀, he₀, rfl⟩ := he
  have hfits := h.sequence p (List.mem_map_of_mem hp) k (List.getElem?_eq_some_iff.1 he₀).1
  rw [s.sequence_mark_of_fits _ _ (Word64.fits_wrap _), Word64.wrap_of_fits hfits]

/-- **A numbered batch passes the integrity check,** whatever metadata its events or the command have
set, as long as its numbers are words. -/
theorem checkIntegrity_number (batch : Uuid) (hby : ById entries)
    (hrange : InRange position (entries.map Prod.snd)) :
    checkIntegrity batch (number s position (entries.map Prod.snd)) = .ok () := by
  rw [checkIntegrity_eq_ok_iff batch hrange.inBounds]
  refine ⟨⟨fun e he => ?_, fun e he => ?_, fun root => ?_⟩, position, fun k e hk =>
    hrange.position_getElem? hk⟩
  · obtain ⟨entry, _, hroot⟩ := hby.exists_root he
    exact ⟨entry.1, hroot⟩
  · obtain ⟨⟨id, p⟩, hp, hroot⟩ := hby.exists_root he
    obtain ⟨k, hk⟩ := List.getElem?_of_mem
      (List.mem_filter.2 ⟨he, (Event.isOf_iff id e).2 hroot⟩)
    exact ⟨_, hrange.sequence_getElem? hby hp hk⟩
  · by_cases hroot : root ∈ entries.map Prod.fst
    · obtain ⟨⟨id, p⟩, hp, rfl⟩ := List.mem_map.1 hroot
      exact ⟨p.sequence + 1, fun k e hk => hrange.sequence_getElem? hby hp hk⟩
    · exact ⟨0, fun k e hk => by simp [filter_number_of_notMem hby hroot] at hk⟩

end Batch

end Chronicle
