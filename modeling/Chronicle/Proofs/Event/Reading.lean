import Chronicle.Store.Log

namespace Chronicle

/-!
# Reading the metadata that were set

* `Numeral.read?_toString_eq` — the decimal text of a number reads back exactly if the number is a
  64-bit word.
* `Event.require_withMetadata_self`, `Event.require_withMetadata_of_ne` — what setting one piece of
  metadata does to reading it and to reading the others.
* `Event.readAs_eq_ok_iff` — when a piece of metadata is read in a form.
* `Event.isOf` — whether an event was emitted by a root, as a test.
-/

/-- The decimal text of a number reads back as the number, unless it is too large for a word. -/
theorem Numeral.read?_toString_eq (n : Int) :
    Numeral.read? (toString n) = if Word64.Fits n then some n else none := by
  rw [Numeral.read?, Int.toString_eq_repr, Numeral.readSigned?_repr]
  by_cases h : Word64.Fits n <;> simp [h]

/-- A number that was read from the decimal text of `n` is `n`. -/
theorem Numeral.eq_of_read?_toString {n m : Int} (h : Numeral.read? (toString n) = some m) :
    m = n := by
  rw [Numeral.read?_toString_eq] at h
  split at h
  · exact (Option.some.inj h).symm
  · cases h

/-- Only words are read. -/
theorem Numeral.fits_of_read? {s : String} {n : Int} (h : Numeral.read? s = some n) :
    Word64.Fits n := by
  simpa using (Option.filter_eq_some_iff.1 h).2

namespace Event

/-! ### Setting and reading -/

theorem require_withMetadata_of_ne (e : Event) {key key' : String} (value : String)
    (h : key' ≠ key) : (e.withMetadata key value).require key' = e.require key' := by
  simp [require, Dict.get?_insert, h]

@[simp] theorem require_withMetadata_self (e : Event) (key value : String) :
    (e.withMetadata key value).require key = .ok value := by
  simp [require]

/-- A piece of metadata whose text has the form that is read. -/
theorem readAs_eq_ok_iff {α : Type} (form : String → Option α) (e : Event) (key : String) (a : α) :
    e.readAs form key = .ok a ↔
      ∃ value, e.metadata.get? key = some value ∧ form value = some a := by
  unfold readAs
  cases hv : e.metadata.get? key with
  | none => simp
  | some value => cases hf : form value <;> simp [hf]

theorem readAs_withMetadata_self {α : Type} {form : String → Option α} {value : String} {a : α}
    (e : Event) (key : String) (h : form value = some a) :
    (e.withMetadata key value).readAs form key = .ok a :=
  (readAs_eq_ok_iff form _ key a).2 ⟨value, by simp, h⟩

/-- Reading looks at one key and, for the error, at the tag. -/
theorem readAs_congr {α : Type} (form : String → Option α) {e e' : Event} {key : String}
    (htag : e'.tag = e.tag) (hget : e'.metadata.get? key = e.metadata.get? key) :
    e'.readAs form key = e.readAs form key := by
  simp only [readAs, hget, htag]

theorem require_congr {e e' : Event} {key : String} (htag : e'.tag = e.tag)
    (hget : e'.metadata.get? key = e.metadata.get? key) : e'.require key = e.require key := by
  simp only [require, hget, htag]

/-- A sequence number that was read is a word. -/
theorem fits_sequence {e : Event} {n : Int} (h : e.sequence = .ok n) : Word64.Fits n := by
  obtain ⟨_, _, hread⟩ := (readAs_eq_ok_iff _ _ _ _).1 h
  exact Numeral.fits_of_read? hread

/-- A position that was read is a word. -/
theorem fits_position {e : Event} {n : Int} (h : e.position = .ok n) : Word64.Fits n := by
  obtain ⟨_, _, hread⟩ := (readAs_eq_ok_iff _ _ _ _).1 h
  exact Numeral.fits_of_read? hread

/-! ### The root of an event -/

/-- The event was emitted by the root with an id. -/
def isOf (root : String) (e : Event) : Bool :=
  decide (e.metadata.get? Metadata.Key.root = some root)

theorem root_eq_ok_iff (e : Event) (root : String) :
    e.root = .ok root ↔ e.metadata.get? Metadata.Key.root = some root := by
  unfold Event.root require
  cases e.metadata.get? Metadata.Key.root <;> simp

@[simp] theorem isOf_iff (root : String) (e : Event) : e.isOf root = true ↔ e.root = .ok root := by
  simp [isOf, root_eq_ok_iff]

/-- An event is of one root only. -/
theorem isOf_eq_decide {e : Event} {root : String} (h : e.root = .ok root) (root' : String) :
    e.isOf root' = decide (root' = root) := by
  rw [root_eq_ok_iff] at h
  simp [isOf, h, eq_comm]

end Event

end Chronicle
