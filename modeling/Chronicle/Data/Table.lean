namespace Chronicle

/-!
# Tables: finite maps that remember the order of first insertion

* `Table κ α` — a list of entries without repeated keys.
* `insert` — replaces the value of a known key where it stands and puts a new key at the end
  (`keys_insert`).
* `get?` — the value of a key; `get?_insert` says how `insert` changes it, `get?_erase` how `erase`
  does.

Iteration follows the order in which keys first came in, which is the order every listing of this
library shows.
-/

universe u v

/-- A finite map from keys to values, in order of first insertion. -/
structure Table (κ : Type u) (α : Type v) where
  /-- The entries, oldest key first. -/
  entries : List (κ × α) := []
  /-- No key occurs twice. -/
  nodup_keys : (entries.map Prod.fst).Nodup := by simp

namespace Table

variable {κ : Type u} {α : Type v}

/-! ### Entry lists -/

/-- Replace the value at `k` where it stands, or put a new entry at the end. -/
def put [DecidableEq κ] (k : κ) (a : α) : List (κ × α) → List (κ × α)
  | [] => [(k, a)]
  | (k', a') :: rest => if k' = k then (k, a) :: rest else (k', a') :: put k a rest

/-- The value at `k` in a list of entries. -/
def find [DecidableEq κ] (k : κ) : List (κ × α) → Option α
  | [] => none
  | (k', a) :: rest => if k' = k then some a else find k rest

theorem map_fst_put [DecidableEq κ] (k : κ) (a : α) (l : List (κ × α)) :
    (put k a l).map Prod.fst
      = if k ∈ l.map Prod.fst then l.map Prod.fst else l.map Prod.fst ++ [k] := by
  induction l with
  | nil => simp [put]
  | cons e rest ih =>
    obtain ⟨k', a'⟩ := e
    by_cases h : k' = k
    · simp [put, h]
    · have h' : ¬ k = k' := fun e => h e.symm
      by_cases hm : k ∈ rest.map Prod.fst
      · simp only [put, h, if_false, List.map_cons, ih, hm, if_true, List.mem_cons, or_true]
      · simp only [put, h, if_false, List.map_cons, ih, hm, List.mem_cons, h', or_self,
          List.cons_append]

theorem nodup_put [DecidableEq κ] (k : κ) (a : α) {l : List (κ × α)}
    (h : (l.map Prod.fst).Nodup) : ((put k a l).map Prod.fst).Nodup := by
  rw [map_fst_put]
  split
  · exact h
  · rename_i hk
    exact List.nodup_append.2 ⟨h, by simp, fun x hx y hy => by
      simp only [List.mem_singleton] at hy
      exact fun e => hk (hy ▸ e ▸ hx)⟩

theorem find_put [DecidableEq κ] (k k' : κ) (a : α) (l : List (κ × α)) :
    find k' (put k a l) = if k' = k then some a else find k' l := by
  induction l with
  | nil => simp [put, find, eq_comm]
  | cons e rest ih =>
    obtain ⟨k₀, a₀⟩ := e
    by_cases h₀ : k₀ = k
    · by_cases h : k' = k
      · simp [put, find, h₀, h]
      · have h' : ¬ k = k' := fun e => h e.symm
        simp [put, find, h₀, h, h']
    · by_cases h : k' = k
      · subst h
        simp [put, find, h₀, ih]
      · simp [put, find, h₀, h, ih]

theorem find_eq_none_iff [DecidableEq κ] (k : κ) (l : List (κ × α)) :
    find k l = none ↔ k ∉ l.map Prod.fst := by
  induction l with
  | nil => simp [find]
  | cons e rest ih =>
    by_cases h : e.1 = k
    · simp [find, h]
    · have h' : ¬ k = e.1 := fun e => h e.symm
      simp [find, h, ih, h']

theorem find_eq_some_iff [DecidableEq κ] {k : κ} {a : α} {l : List (κ × α)}
    (h : (l.map Prod.fst).Nodup) : find k l = some a ↔ (k, a) ∈ l := by
  induction l with
  | nil => simp [find]
  | cons e rest ih =>
    obtain ⟨k', a'⟩ := e
    simp only [List.map_cons, List.nodup_cons] at h
    by_cases hk : k' = k
    · subst hk
      have hnot : (k', a) ∉ rest := fun hm => h.1 (List.mem_map.2 ⟨_, hm, rfl⟩)
      simp [find, hnot, eq_comm]
    · have hk' : ¬ k = k' := fun e => hk e.symm
      simp [find, hk, hk', ih h.2]

/-! ### Operations -/

/-- The table without entries. -/
def empty : Table κ α := {}

instance : Inhabited (Table κ α) := ⟨empty⟩

/-- Set the value of a key. -/
def insert [DecidableEq κ] (t : Table κ α) (k : κ) (a : α) : Table κ α :=
  ⟨put k a t.entries, nodup_put k a t.nodup_keys⟩

/-- The value of a key. -/
def get? [DecidableEq κ] (t : Table κ α) (k : κ) : Option α := find k t.entries

/-- Keep the entries that pass `p`, in their order. -/
def filter (p : κ → α → Bool) (t : Table κ α) : Table κ α :=
  ⟨t.entries.filter fun e => p e.1 e.2, t.nodup_keys.sublist (List.filter_sublist.map _)⟩

/-- Forget a key. -/
def erase [DecidableEq κ] (t : Table κ α) (k : κ) : Table κ α :=
  t.filter fun k' _ => k' ≠ k

/-- Whether a key has a value. -/
def contains [DecidableEq κ] (t : Table κ α) (k : κ) : Bool := (t.get? k).isSome

/-- The keys, oldest first. -/
def keys (t : Table κ α) : List κ := t.entries.map Prod.fst

/-- The values, in the order of their keys. -/
def values (t : Table κ α) : List α := t.entries.map Prod.snd

/-- Number of entries. -/
def size (t : Table κ α) : Nat := t.entries.length

/-- Whether there are no entries. -/
def isEmpty (t : Table κ α) : Bool := t.entries.isEmpty

/-- Insert entries one after the other: the last value of a key wins, its first place stays. -/
def insertAll [DecidableEq κ] (t : Table κ α) (l : List (κ × α)) : Table κ α :=
  l.foldl (fun t e => t.insert e.1 e.2) t

/-- The table of a list of entries. -/
def ofList [DecidableEq κ] (l : List (κ × α)) : Table κ α := empty.insertAll l

/-- Change every value, keeping keys and order. -/
def mapValues {β : Type v} (f : κ → α → β) (t : Table κ α) : Table κ β :=
  ⟨t.entries.map fun e => (e.1, f e.1 e.2), by
    have : (t.entries.map fun e => (e.1, f e.1 e.2)).map Prod.fst = t.entries.map Prod.fst := by
      simp [Function.comp_def]
    rw [this]
    exact t.nodup_keys⟩

@[ext] theorem ext {s t : Table κ α} (h : s.entries = t.entries) : s = t := by
  cases s; cases t; cases h; rfl

@[simp] theorem keys_empty : (empty : Table κ α).keys = [] := rfl

@[simp] theorem entries_empty : (empty : Table κ α).entries = [] := rfl

@[simp] theorem get?_empty [DecidableEq κ] (k : κ) : (empty : Table κ α).get? k = none := rfl

theorem keys_insert [DecidableEq κ] (t : Table κ α) (k : κ) (a : α) :
    (t.insert k a).keys = if k ∈ t.keys then t.keys else t.keys ++ [k] :=
  map_fst_put k a t.entries

theorem get?_insert [DecidableEq κ] (t : Table κ α) (k k' : κ) (a : α) :
    (t.insert k a).get? k' = if k' = k then some a else t.get? k' :=
  find_put k k' a t.entries

@[simp] theorem get?_insert_self [DecidableEq κ] (t : Table κ α) (k : κ) (a : α) :
    (t.insert k a).get? k = some a := by simp [get?_insert]

theorem get?_eq_none_iff [DecidableEq κ] (t : Table κ α) (k : κ) :
    t.get? k = none ↔ k ∉ t.keys :=
  find_eq_none_iff k t.entries

theorem get?_eq_some_iff [DecidableEq κ] (t : Table κ α) (k : κ) (a : α) :
    t.get? k = some a ↔ (k, a) ∈ t.entries :=
  find_eq_some_iff t.nodup_keys

theorem contains_iff [DecidableEq κ] (t : Table κ α) (k : κ) :
    t.contains k = true ↔ k ∈ t.keys := by
  rw [contains, Option.isSome_iff_ne_none, ne_eq, get?_eq_none_iff, Decidable.not_not]

@[simp] theorem entries_filter (p : κ → α → Bool) (t : Table κ α) :
    (t.filter p).entries = t.entries.filter fun e => p e.1 e.2 := rfl

theorem get?_erase [DecidableEq κ] (t : Table κ α) (k k' : κ) :
    (t.erase k).get? k' = if k' = k then none else t.get? k' := by
  rcases t with ⟨l, hl⟩
  simp only [erase, get?, entries_filter]
  clear hl
  induction l with
  | nil => simp [find]
  | cons e rest ih =>
    obtain ⟨k₀, a₀⟩ := e
    by_cases h₀ : k₀ = k
    · by_cases h : k' = k
      · simp_all
      · have h' : ¬ k = k' := fun e => h e.symm
        simp_all [find]
    · by_cases h : k' = k <;> simp_all [find]

@[simp] theorem size_empty : (empty : Table κ α).size = 0 := rfl

theorem length_keys (t : Table κ α) : t.keys.length = t.size := by simp [keys, size]

@[simp] theorem keys_mapValues {β : Type v} (f : κ → α → β) (t : Table κ α) :
    (t.mapValues f).keys = t.keys := by
  simp [keys, mapValues, Function.comp_def]

end Table

end Chronicle
