import Chronicle.Proofs.Event.Reading
import Mathlib.Data.List.Basic

namespace Chronicle

/-!
# Consistent logs and the histories of roots

* `Log.history` — the events of a root, in log order.
* `Log.Consistent` — the invariant of a log: an event stands where its position says, the history of
  a root is numbered from zero on, and the index of the log leads to it.
* `Log.Consistent.append` — an event that has the next position and the next sequence number of its
  root keeps the log consistent.
* `Log.Consistent.load_eq` — what the log answers about a root is the end of its history.
-/

namespace Log

/-! ### Histories -/

/-- The events of a root, in log order. -/
def history (log : Log) (root : String) : List Event := log.events.filter (Event.isOf root)

/-- The positions of the events of a root, as the index has them. -/
def placesOf (log : Log) (root : String) : List Nat := (log.index.get? root).getD []

theorem mem_history {log : Log} {root : String} {e : Event} :
    e ∈ log.history root ↔ e ∈ log.events ∧ e.root = .ok root := by
  simp [history]

@[simp] theorem history_empty (root : String) : empty.history root = [] := rfl

/-- The history after more events is the history before and the new events of the root. -/
theorem history_of_append {log log' : Log} {events : List Event}
    (h : log'.events = log.events ++ events) (root : String) :
    log'.history root = log.history root ++ events.filter (Event.isOf root) := by
  rw [history, h, List.filter_append, history]

@[simp] theorem events_append (log : Log) (root : String) (e : Event) :
    (log.append root e).events = log.events ++ [e] := rfl

@[simp] theorem size_append (log : Log) (root : String) (e : Event) :
    (log.append root e).size = log.size + 1 := by
  simp [size]

theorem history_append {log : Log} {root : String} {e : Event} (hroot : e.root = .ok root)
    (root' : String) : (log.append root e).history root'
      = if root' = root then log.history root' ++ [e] else log.history root' := by
  rw [history_of_append (events_append log root e), List.filter_singleton,
    Event.isOf_eq_decide hroot]
  by_cases hr : root' = root <;> simp [hr]

theorem placesOf_append (log : Log) (root root' : String) (e : Event) :
    (log.append root e).placesOf root'
      = if root' = root then log.placesOf root' ++ [log.size] else log.placesOf root' := by
  unfold placesOf append
  rw [Table.get?_insert]
  by_cases hr : root' = root
  · rw [if_pos hr, if_pos hr, hr]
    rfl
  · rw [if_neg hr, if_neg hr]

/-- An item of a list with one more item at the end is an item of the list or the new one. -/
theorem getElem?_concat {α : Type} {l : List α} {a b : α} {k : Nat}
    (h : (l ++ [a])[k]? = some b) : l[k]? = some b ∨ k = l.length ∧ b = a := by
  obtain ⟨hlt, rfl⟩ := List.getElem?_eq_some_iff.1 h
  rw [List.length_append, List.length_singleton] at hlt
  rcases Nat.lt_or_ge k l.length with hk | hk
  · exact .inl (by rw [List.getElem_append_left hk, List.getElem?_eq_getElem hk])
  · exact .inr ⟨by omega, by rw [List.getElem_append_right hk]; simp⟩

/-! ### Consistency -/

/-- What every log satisfies that came about by saving. -/
structure Consistent (log : Log) : Prop where
  /-- An event stands where its position says. -/
  position : ∀ {i : Nat} {e : Event}, log.events[i]? = some e → e.position = .ok (i : Int)
  /-- The events of a root are numbered from zero on. -/
  sequence : ∀ {root : String} {k : Nat} {e : Event},
    (log.history root)[k]? = some e → e.sequence = .ok (k : Int)
  /-- The index of a root leads to its events. -/
  places : ∀ root, (log.placesOf root).map (fun i => log.events[i]?) = (log.history root).map some
  /-- Every event says which root emitted it. -/
  rooted : ∀ {e : Event}, e ∈ log.events → ∃ root, e.root = .ok root
  /-- The size is a word. -/
  room : (log.size : Int) ≤ Word64.greatest

theorem consistent_empty : empty.Consistent where
  position h := by simp [empty] at h
  sequence h := by simp at h
  places root := rfl
  rooted h := by simp [empty] at h
  room := by decide

namespace Consistent

variable {log : Log}

/-- The log counts the events of a root. -/
theorem stored_eq (h : log.Consistent) (root : String) :
    log.stored root = (log.history root).length := by
  have hlen := congrArg List.length (h.places root)
  simpa [stored, placesOf] using hlen

/-- The index leads only to places that exist. -/
theorem lt_size_of_mem_placesOf (h : log.Consistent) {root : String} {i : Nat}
    (hi : i ∈ log.placesOf root) : i < log.size := by
  have hmem : log.events[i]? ∈ (log.history root).map some := by
    rw [← h.places root]
    exact List.mem_map_of_mem hi
  obtain ⟨e, _, he⟩ := List.mem_map.1 hmem
  exact (List.getElem?_eq_some_iff.1 he.symm).1

/-- An event with the next position and the next sequence number of its root keeps the log
consistent, as long as there is room for it. -/
theorem append (h : log.Consistent) {root : String} {e : Event} (hroot : e.root = .ok root)
    (hroom : (log.size : Int) < Word64.greatest) (hposition : e.position = .ok (log.size : Int))
    (hsequence : e.sequence = .ok (log.stored root : Int)) : (log.append root e).Consistent where
  position := by
    intro i e' hi
    rw [events_append] at hi
    rcases getElem?_concat hi with hi | ⟨rfl, rfl⟩
    · exact h.position hi
    · exact hposition
  sequence := by
    intro root' k e' hk
    -- Only the history of the event's own root has got longer, by this event.
    rw [history_append hroot] at hk
    split at hk
    · rename_i hr
      subst hr
      rcases getElem?_concat hk with hk | ⟨rfl, rfl⟩
      · exact h.sequence hk
      · rw [hsequence, h.stored_eq]
    · exact h.sequence hk
  places := by
    intro root'
    -- The old places are within the old log, so they lead where they led.
    have hold : ∀ root', (log.placesOf root').map (fun i => (log.append root e).events[i]?)
        = (log.history root').map some := by
      intro root'
      rw [← h.places root']
      refine List.map_congr_left fun i hi => ?_
      rw [events_append]
      exact List.getElem?_append_left (h.lt_size_of_mem_placesOf hi)
    rw [history_append hroot, placesOf_append]
    by_cases hr : root' = root
    · subst hr
      rw [if_pos rfl, if_pos rfl, List.map_append, hold]
      simp [size]
    · rw [if_neg hr, if_neg hr, hold]
  rooted := by
    intro e' he'
    rw [events_append, List.mem_append, List.mem_singleton] at he'
    rcases he' with he' | rfl
    · exact h.rooted he'
    · exact ⟨root, hroot⟩
  room := by
    rw [size_append]
    push_cast
    omega

/-- The number that comes next in the history of a root is a word. -/
theorem fits_length_history (h : log.Consistent) (root : String) :
    Word64.Fits ((log.history root).length : Int) := by
  have hle : (log.history root).length ≤ log.size := List.length_filter_le _ _
  have hroom := h.room
  exact Word64.fits_natCast (by omega)

/-! ### Reading a consistent log -/

/-- What the log answers about a root is its history from a sequence number on. -/
theorem load_eq (h : log.Consistent) (root : String) (first : Int) :
    log.load root first = (log.history root).drop first.toNat := by
  have hdrop : ((log.placesOf root).drop first.toNat).map (fun i => log.events[i]?)
      = ((log.history root).drop first.toNat).map some := by
    rw [List.map_drop, h.places, List.map_drop]
  calc log.load root first
      = (((log.placesOf root).drop first.toNat).map (fun i => log.events[i]?)).filterMap id := by
        rw [List.filterMap_map]
        rfl
    _ = (log.history root).drop first.toNat := by
        rw [hdrop, List.filterMap_map]
        exact List.filterMap_some

/-- The positions of the log increase. -/
theorem position_lt (h : log.Consistent) : log.events.Pairwise fun a b =>
    ∃ p q : Int, a.position = .ok p ∧ b.position = .ok q ∧ p < q := by
  rw [List.pairwise_iff_getElem]
  intro i j hi hj hij
  refine ⟨i, j, h.position ?_, h.position ?_, by exact_mod_cast hij⟩
  · exact List.getElem?_eq_getElem hi
  · exact List.getElem?_eq_getElem hj

/-- Two events of one root differ in their sequence numbers. -/
theorem sequence_ne (h : log.Consistent) : log.events.Pairwise fun a b =>
    ∀ root, a.root = .ok root → b.root = .ok root → a.sequence ≠ b.sequence := by
  have hroot : ∀ root, log.events.Pairwise fun a b =>
      a.root = .ok root → b.root = .ok root → a.sequence ≠ b.sequence := by
    intro root
    -- Within one history, the sequence numbers are the places.
    have hhist : (log.history root).Pairwise fun a b => a.sequence ≠ b.sequence := by
      rw [List.pairwise_iff_getElem]
      intro i j hi hj hij
      rw [h.sequence (List.getElem?_eq_getElem hi), h.sequence (List.getElem?_eq_getElem hj)]
      intro heq
      cases heq
      omega
    rw [history, List.pairwise_filter] at hhist
    simpa only [Event.isOf_iff] using hhist
  rw [List.pairwise_iff_getElem] at *
  intro i j hi hj hij root
  exact (List.pairwise_iff_getElem.1 (hroot root)) i j hi hj hij

end Consistent

end Log

end Chronicle
