import Chronicle.Data.Table

namespace Chronicle

/-!
# Dictionaries: finite maps with text keys, in key order

* `Dict α` — a list of entries in strictly increasing key order. Keys are compared code point by
  code point, which is also the order of their UTF-8 bytes.
* `place` — puts an entry into a sorted list, replacing the value of an equal key (`find_place`).
* `Dict.ext_get?` — a dictionary is determined by the values of its keys.
-/

universe u

namespace Dict

/-- Put an entry into a list sorted by key, replacing the value of an equal key. -/
def place {α : Type u} (k : String) (a : α) : List (String × α) → List (String × α)
  | [] => [(k, a)]
  | (k', a') :: rest =>
    if k < k' then (k, a) :: (k', a') :: rest
    else if k' = k then (k, a) :: rest
    else (k', a') :: place k a rest

/-- Entries in strictly increasing key order. -/
abbrev Sorted {α : Type u} (l : List (String × α)) : Prop :=
  l.Pairwise fun a b => a.1 < b.1

variable {α : Type u}

theorem mem_place {k : String} {a : α} {l : List (String × α)} {e : String × α}
    (h : e ∈ place k a l) : e = (k, a) ∨ e ∈ l := by
  induction l with
  | nil => simpa [place] using h
  | cons e' rest ih =>
    obtain ⟨k', a'⟩ := e'
    simp only [place] at h
    split at h
    · simpa using h
    · split at h
      · rcases List.mem_cons.1 h with h | h
        · exact .inl h
        · exact .inr (List.mem_cons_of_mem _ h)
      · rcases List.mem_cons.1 h with h | h
        · exact .inr (h ▸ List.mem_cons_self)
        · exact (ih h).imp id (List.mem_cons_of_mem _)

theorem lt_of_not_lt_of_ne {k k' : String} (h : ¬ k < k') (hne : ¬ k' = k) : k' < k :=
  Decidable.byContradiction fun hlt =>
    hne (String.le_antisymm (String.not_lt.1 h) (String.not_lt.1 hlt))

theorem sorted_place (k : String) (a : α) {l : List (String × α)} (h : Sorted l) :
    Sorted (place k a l) := by
  induction l with
  | nil => simp [place]
  | cons e rest ih =>
    obtain ⟨k', a'⟩ := e
    have hrest := (List.pairwise_cons.1 h).2
    have hhead := (List.pairwise_cons.1 h).1
    simp only [place]
    split
    · rename_i hlt
      refine List.pairwise_cons.2 ⟨fun e he => ?_, h⟩
      rcases List.mem_cons.1 he with rfl | he
      · exact hlt
      · exact String.lt_trans hlt (hhead e he)
    · rename_i hnlt
      split
      · rename_i heq
        subst heq
        exact List.pairwise_cons.2 ⟨hhead, hrest⟩
      · rename_i hne
        refine List.pairwise_cons.2 ⟨fun e he => ?_, ih hrest⟩
        rcases mem_place he with rfl | he
        · exact lt_of_not_lt_of_ne hnlt hne
        · exact hhead e he

theorem find_place (k k₀ : String) (a : α) {l : List (String × α)} (h : Sorted l) :
    Table.find k₀ (place k a l) = if k₀ = k then some a else Table.find k₀ l := by
  induction l with
  | nil => simp [place, Table.find, eq_comm]
  | cons e rest ih =>
    obtain ⟨k', a'⟩ := e
    have hrest := (List.pairwise_cons.1 h).2
    simp only [place]
    split
    · by_cases h₀ : k₀ = k
      · simp [Table.find, h₀]
      · simp [Table.find, h₀, Ne.symm h₀]
    · split
      · rename_i heq
        subst heq
        by_cases h₀ : k₀ = k'
        · simp [Table.find, h₀]
        · simp [Table.find, h₀, Ne.symm h₀]
      · rename_i hne
        by_cases h₀ : k₀ = k
        · subst h₀
          simp [Table.find, hne, ih hrest]
        · simp only [Table.find, ih hrest, h₀, if_false]

end Dict

/-- A finite map from texts to values, in key order. -/
structure Dict (α : Type u) where
  /-- The entries, smallest key first. -/
  entries : List (String × α) := []
  /-- Keys strictly increase. -/
  sorted : Dict.Sorted entries := by simp

namespace Dict

variable {α : Type u}

/-- The dictionary without entries. -/
def empty : Dict α := {}

instance : Inhabited (Dict α) := ⟨empty⟩

/-- The value of a key. -/
def get? (d : Dict α) (k : String) : Option α := Table.find k d.entries

/-- Set the value of a key. -/
def insert (d : Dict α) (k : String) (a : α) : Dict α :=
  ⟨place k a d.entries, sorted_place k a d.sorted⟩

/-- Whether a key has a value. -/
def contains (d : Dict α) (k : String) : Bool := (d.get? k).isSome

/-- Number of entries. -/
def size (d : Dict α) : Nat := d.entries.length

/-- Insert entries one after the other: the last value of a key wins. -/
def insertAll (d : Dict α) (l : List (String × α)) : Dict α :=
  l.foldl (fun d e => d.insert e.1 e.2) d

/-- The dictionary of a list of entries. -/
def ofList (l : List (String × α)) : Dict α := empty.insertAll l

/-- Add the entries of `other` whose keys have no value yet. -/
def merge (d other : Dict α) : Dict α :=
  other.entries.foldl (fun d e => if d.contains e.1 then d else d.insert e.1 e.2) d

@[ext] theorem ext {c d : Dict α} (h : c.entries = d.entries) : c = d := by
  cases c; cases d; cases h; rfl

instance [DecidableEq α] : DecidableEq (Dict α) := fun c d =>
  decidable_of_iff (c.entries = d.entries) ⟨ext, fun h => h ▸ rfl⟩

@[simp] theorem get?_empty (k : String) : (empty : Dict α).get? k = none := rfl

@[simp] theorem entries_empty : (empty : Dict α).entries = [] := rfl

theorem get?_insert (d : Dict α) (k k₀ : String) (a : α) :
    (d.insert k a).get? k₀ = if k₀ = k then some a else d.get? k₀ :=
  find_place k k₀ a d.sorted

@[simp] theorem get?_insert_self (d : Dict α) (k : String) (a : α) :
    (d.insert k a).get? k = some a := by simp [get?_insert]

theorem contains_insert (d : Dict α) (k k₀ : String) (a : α) :
    (d.insert k a).contains k₀ = (decide (k₀ = k) || d.contains k₀) := by
  by_cases h : k₀ = k <;> simp [contains, get?_insert, h]

/-- Inserting a key that exceeds all keys so far appends its entry. -/
theorem place_append (k : String) (a : α) {l : List (String × α)} (h : ∀ e ∈ l, e.1 < k) :
    place k a l = l ++ [(k, a)] := by
  induction l with
  | nil => rfl
  | cons e rest ih =>
    obtain ⟨k', a'⟩ := e
    have hk : k' < k := h (k', a') List.mem_cons_self
    have hnlt : ¬ k < k' := fun hlt => String.lt_irrefl _ (String.lt_trans hk hlt)
    have hne : ¬ k' = k := fun he => String.lt_irrefl _ (he ▸ hk)
    simp [place, hnlt, hne, ih fun e he => h e (List.mem_cons_of_mem _ he)]

/-- Reading the entries of a dictionary back gives the dictionary. -/
@[simp] theorem ofList_entries (d : Dict α) : ofList d.entries = d := by
  have key : ∀ (l : List (String × α)) (c : Dict α), Sorted (c.entries ++ l) →
      (c.insertAll l).entries = c.entries ++ l := by
    intro l
    induction l with
    | nil => intro c _; simp [insertAll]
    | cons e rest ih =>
      intro c hc
      have hlt : ∀ e' ∈ c.entries, e'.1 < e.1 := fun e' he' =>
        (List.pairwise_append.1 hc).2.2 e' he' e List.mem_cons_self
      have hins : (c.insert e.1 e.2).entries = c.entries ++ [e] := place_append e.1 e.2 hlt
      have := ih (c.insert e.1 e.2) (by rw [hins]; simpa using hc)
      simpa [insertAll, hins] using this
  exact ext (by simpa [ofList] using key d.entries empty (by simpa using d.sorted))

theorem get?_eq_some_iff (d : Dict α) (k : String) (a : α) :
    d.get? k = some a ↔ (k, a) ∈ d.entries := by
  refine Table.find_eq_some_iff ?_
  refine List.Pairwise.map _ (fun a b hab => ?_) d.sorted
  exact fun he => String.lt_irrefl _ (he ▸ hab)

/-- A dictionary is determined by the values of its keys. -/
theorem ext_get? {c d : Dict α} (h : ∀ k, c.get? k = d.get? k) : c = d := by
  have hmem : ∀ e, e ∈ c.entries ↔ e ∈ d.entries := fun e => by
    rw [← get?_eq_some_iff, ← get?_eq_some_iff, h]
  apply ext
  obtain ⟨l, hl⟩ := c
  obtain ⟨m, hm⟩ := d
  simp only at hmem ⊢
  clear h
  induction l generalizing m with
  | nil =>
    cases m with
    | nil => rfl
    | cons e m => exact absurd ((hmem e).2 List.mem_cons_self) (by simp)
  | cons e l ih =>
    cases m with
    | nil => exact absurd ((hmem e).1 List.mem_cons_self) (by simp)
    | cons e' m =>
      have hel := (List.pairwise_cons.1 hl).1
      have hem := (List.pairwise_cons.1 hm).1
      have he : e = e' := by
        rcases List.mem_cons.1 ((hmem e).1 List.mem_cons_self) with he | he
        · exact he
        · rcases List.mem_cons.1 ((hmem e').2 List.mem_cons_self) with he' | he'
          · exact he'.symm
          · exact absurd (String.lt_trans (hem e he) (hel e' he')) (String.lt_irrefl _)
      subst he
      have := ih (List.pairwise_cons.1 hl).2 m (List.pairwise_cons.1 hm).2 fun x => by
        constructor
        · intro hx
          rcases List.mem_cons.1 ((hmem x).1 (List.mem_cons_of_mem _ hx)) with rfl | hx'
          · exact absurd (hel x hx) (String.lt_irrefl _)
          · exact hx'
        · intro hx
          rcases List.mem_cons.1 ((hmem x).2 (List.mem_cons_of_mem _ hx)) with rfl | hx'
          · exact absurd (hem x hx) (String.lt_irrefl _)
          · exact hx'
      rw [this]

theorem get?_foldl_merge (l : List (String × α)) (d : Dict α) (k : String) :
    (l.foldl (fun d e => if d.contains e.1 then d else d.insert e.1 e.2) d).get? k
      = (d.get? k).or (Table.find k l) := by
  induction l generalizing d with
  | nil => simp [Table.find]
  | cons e rest ih =>
    rw [List.foldl_cons, ih]
    by_cases hk : e.1 = k
    · subst hk
      cases hd : d.get? e.1 <;> simp [contains, hd, Table.find]
    · have hk' : ¬ k = e.1 := fun h => hk h.symm
      cases hd : d.get? e.1 <;> simp [contains, hd, Table.find, hk, get?_insert, hk']

/-- A merge keeps every value and fills in the values of `other` where there was none. -/
theorem get?_merge (d other : Dict α) (k : String) :
    (d.merge other).get? k = (d.get? k).or (other.get? k) :=
  get?_foldl_merge other.entries d k

end Dict

end Chronicle
