import Chronicle.Hierarchy
import Mathlib.Data.List.Nodup

namespace Chronicle

/-!
# Chains of ancestors

Declarations may link types in any way: chains may end in a type that is not declared, end in the
universal tag, or run into a cycle.

* `Hierarchy.visited` — the types that a chain visits, one after the other.
* `Hierarchy.VisitsTwice` — a chain comes back to a type.
* `Hierarchy.Walks` — the search for the ancestors of a type as a loop without a bound, with the number
  of its rounds. There is one way that it goes (`Hierarchy.Walks.unique`).
* `Hierarchy.exists_walks` — the loop ends, since every round but the last one marks another type that
  is declared.
* `Hierarchy.ancestors?_walks` — the search with a bound does what the loop does.
* `Hierarchy.ancestors?_eq_none_iff`, `Hierarchy.getElem?_ancestors` — it fails exactly if the chain
  comes back to a type, and else it finds the types of the chain.
-/

namespace Hierarchy

section

variable {parentOf : String → Option String} {name p : String} {seen l : List String}
  {current : Option String} {rounds rounds' : Nat} {result result' : Option (List String)}

/-! ### Chains -/

/-- A parent as a link of a chain: the universal tag is none. -/
def link (parent : Option String) : Option String :=
  parent.filter fun p => p ≠ Event.universalTag

@[simp] theorem link_none : link none = none := rfl

@[simp] theorem link_universalTag : link (some Event.universalTag) = none := by
  simp [link]

theorem link_some (h : p ≠ Event.universalTag) : link (some p) = some p := by
  simp [link, h]

/-- The types that a chain visits: a type, its parent, the parent of that, until there is none. -/
def visited (parentOf : String → Option String) (name : String) : Nat → Option String
  | 0 => some name
  | n + 1 => (visited parentOf name n).bind fun x => link (parentOf x)

/-- After its first type, a chain is the chain of the parent. -/
theorem visited_succ (parentOf : String → Option String) (name : String) (n : Nat) :
    visited parentOf name (n + 1) = (link (parentOf name)).bind fun p => visited parentOf p n := by
  induction n with
  | zero => simp [visited]
  | succ n ih =>
    rw [visited, ih, Option.bind_assoc]
    rfl

/-- A chain visits some type twice. -/
def VisitsTwice (parentOf : String → Option String) (name : String) : Prop :=
  ∃ i j x, i < j ∧ visited parentOf name i = some x ∧ visited parentOf name j = some x

/-- A chain without repetitions, listed. -/
theorem not_visitsTwice (hnodup : (name :: l).Nodup)
    (hvisited : ∀ n, (name :: l)[n]? = visited parentOf name n) : ¬ VisitsTwice parentOf name := by
  rintro ⟨i, j, x, hlt, hi, hj⟩
  rw [← hvisited] at hi hj
  have hi' := (List.getElem?_eq_some_iff.1 hi).1
  exact Nat.ne_of_lt hlt ((List.getElem?_inj hi' hnodup).1 (hi.trans hj.symm))

/-! ### The search as a loop -/

/-- The search goes on from a link, with some types marked, for a number of rounds. It ends with the
ancestors from the link on, or with none because it has come to a marked type. -/
inductive Walks (parentOf : String → Option String) :
    List String → Option String → Nat → Option (List String) → Prop where
  /-- There is no parent. -/
  | last {seen : List String} : Walks parentOf seen none 0 (some [])
  /-- The parent is the universal tag. -/
  | universal {seen : List String} : Walks parentOf seen (some Event.universalTag) 0 (some [])
  /-- The parent is marked. -/
  | again {seen : List String} {p : String} : p ≠ Event.universalTag → p ∈ seen →
      Walks parentOf seen (some p) 0 none
  /-- The parent is marked now, and the search goes on from there. -/
  | next {seen : List String} {p : String} {rounds : Nat} {result : Option (List String)} :
      p ≠ Event.universalTag → p ∉ seen → Walks parentOf (p :: seen) (parentOf p) rounds result →
      Walks parentOf seen (some p) (rounds + 1) (result.map (p :: ·))

/-- The search goes one way. -/
theorem Walks.unique (h : Walks parentOf seen current rounds result)
    (h' : Walks parentOf seen current rounds' result') : rounds' = rounds ∧ result' = result := by
  induction h generalizing rounds' result' with
  | last =>
    cases h'
    exact ⟨rfl, rfl⟩
  | universal =>
    cases h' with
    | universal => exact ⟨rfl, rfl⟩
    | again hne | next hne => exact absurd rfl hne
  | again hne hseen =>
    cases h' with
    | universal => exact absurd rfl hne
    | again => exact ⟨rfl, rfl⟩
    | next _ hnew => exact absurd hseen hnew
  | next hne hnew _ ih =>
    cases h' with
    | universal => exact absurd rfl hne
    | again _ hseen => exact absurd hseen hnew
    | next _ _ hrest =>
      obtain ⟨rfl, rfl⟩ := ih hrest
      exact ⟨rfl, rfl⟩

/-- A search that does not take more rounds than it may take is not cut short. -/
theorem Walks.chainFrom_eq (h : Walks parentOf seen current rounds result) {fuel : Nat}
    (hfuel : rounds ≤ fuel) : chainFrom parentOf fuel seen current = result := by
  induction h generalizing fuel with
  | last => cases fuel <;> rfl
  | universal => cases fuel <;> simp [chainFrom]
  | again hne hseen => cases fuel <;> simp [chainFrom, hne, hseen]
  | next hne hnew _ ih =>
    obtain ⟨fuel, rfl⟩ := Nat.exists_eq_add_of_lt hfuel
    rw [chainFrom, if_neg hne, if_neg hnew, ih (by omega)]

/-- A search that succeeds has listed the chain, without repetitions and without marked types. -/
theorem Walks.listed (h : Walks parentOf seen current rounds (some l)) :
    l.Nodup ∧ (∀ x ∈ l, x ∉ seen) ∧
      ∀ n, l[n]? = (link current).bind fun p => visited parentOf p n := by
  generalize hresult : some l = result at h
  induction h generalizing l with
  | last =>
    cases hresult
    exact ⟨.nil, nofun, fun _ => rfl⟩
  | universal =>
    cases hresult
    refine ⟨.nil, nofun, fun n => ?_⟩
    rw [link_universalTag]
    rfl
  | again => cases hresult
  | next hne hnew _ ih =>
    obtain ⟨rest, rfl, rfl⟩ := Option.map_eq_some_iff.1 hresult.symm
    obtain ⟨hnodup, hapart, hvisited⟩ := ih rfl
    refine ⟨List.nodup_cons.2 ⟨fun hp => hapart _ hp List.mem_cons_self, hnodup⟩, ?_, ?_⟩
    · intro x hx
      rcases List.mem_cons.1 hx with rfl | hx
      · exact hnew
      · exact fun hseen => hapart x hx (List.mem_cons_of_mem _ hseen)
    · intro n
      rw [link_some hne, Option.bind_some]
      cases n with
      | zero => rfl
      | succ n =>
        rw [List.getElem?_cons_succ, hvisited, visited_succ]

/-- A search that fails has come to a marked type, or to one that the chain had visited. -/
theorem Walks.repeats (h : Walks parentOf seen current rounds none) :
    ∃ n x, ((link current).bind fun p => visited parentOf p n) = some x ∧
      (x ∈ seen ∨ ∃ m < n, ((link current).bind fun p => visited parentOf p m) = some x) := by
  generalize hresult : (none : Option (List String)) = result at h
  induction h with
  | last => cases hresult
  | universal => cases hresult
  | @again seen p hne hseen =>
    refine ⟨0, p, ?_, .inl hseen⟩
    rw [link_some hne]
    rfl
  | @next seen p _ _ hne _ _ ih =>
    obtain ⟨n, x, hx, hcase⟩ := ih (Option.map_eq_none_iff.1 hresult.symm).symm
    have hsucc : ∀ n, ((link (some p)).bind fun p => visited parentOf p (n + 1))
        = (link (parentOf p)).bind fun p => visited parentOf p n := by
      intro n
      rw [link_some hne, Option.bind_some, visited_succ]
    refine ⟨n + 1, x, (hsucc n).trans hx, ?_⟩
    rcases hcase with hmem | ⟨m, hlt, hm⟩
    · rcases List.mem_cons.1 hmem with rfl | hmem
      · -- It is the type that was marked in this round.
        refine .inr ⟨0, Nat.zero_lt_succ n, ?_⟩
        rw [link_some hne]
        rfl
      · exact .inl hmem
    · exact .inr ⟨m + 1, Nat.succ_lt_succ hlt, (hsucc m).trans hm⟩

/-- The search ends: each round but the last one marks another type that is declared, if only types
that are declared have parents. -/
theorem exists_walks {declared : List String} (hdeclared : ∀ x, parentOf x ≠ none → x ∈ declared)
    (seen : List String) (current : Option String) : ∃ rounds result,
      rounds ≤ (declared.filter (· ∉ seen)).length + 1 ∧ Walks parentOf seen current rounds result := by
  -- By the number of declared types that are not marked yet.
  induction hfree : (declared.filter (· ∉ seen)).length using Nat.strongRecOn
    generalizing seen current with
  | _ free ih =>
    subst hfree
    cases current with
    | none => exact ⟨0, _, Nat.zero_le _, .last⟩
    | some p =>
      by_cases hroot : p = Event.universalTag
      · subst hroot
        exact ⟨0, _, Nat.zero_le _, .universal⟩
      by_cases hseen : p ∈ seen
      · exact ⟨0, _, Nat.zero_le _, .again hroot hseen⟩
      cases hparent : parentOf p with
      | none =>
        -- It may not be declared, but then this is the last round.
        have hend : Walks parentOf (p :: seen) (parentOf p) 0 (some []) := hparent ▸ .last
        exact ⟨1, _, Nat.le_add_left _ _, .next hroot hseen hend⟩
      | some q =>
        have hp : p ∈ declared.filter (· ∉ seen) :=
          List.mem_filter.2 ⟨hdeclared p (by simp [hparent]), by simpa using hseen⟩
        have hless : (declared.filter (· ∉ p :: seen)).length
            < (declared.filter (· ∉ seen)).length := by
          have hfilter : declared.filter (· ∉ p :: seen)
              = (declared.filter (· ∉ seen)).filter (· ≠ p) := by
            simp only [List.filter_filter, List.mem_cons, not_or, Bool.decide_and]
          rw [hfilter]
          exact List.length_filter_lt_length_iff_exists.2 ⟨p, hp, by simp⟩
        obtain ⟨rounds, result, hle, hwalks⟩ := ih _ hless (p :: seen) (parentOf p) rfl
        exact ⟨rounds + 1, _, by omega, .next hroot hseen hwalks⟩

end

/-! ### The ancestors of a declared type -/

variable {decls : Declared} {name : String} {ancestors : List String}

/-- The search for the ancestors of a type does what the loop does, whose rounds are no more than the
declared types. -/
theorem ancestors?_walks (decls : Declared) (hname : name ∈ decls.keys) : ∃ rounds ≤ decls.size,
    Walks (parentOf decls) [name] (parentOf decls name) rounds (ancestors? decls name) := by
  have hdeclared : ∀ x, parentOf decls x ≠ none → x ∈ decls.keys := by
    intro x hx
    by_contra hnot
    rw [parentOf, (Table.get?_eq_none_iff _ _).2 hnot] at hx
    exact hx rfl
  obtain ⟨rounds, result, hle, hwalks⟩ := exists_walks hdeclared [name] (parentOf decls name)
  -- The type itself is marked from the beginning.
  have hless : (decls.keys.filter (· ∉ [name])).length < decls.keys.length :=
    List.length_filter_lt_length_iff_exists.2 ⟨name, hname, by simp⟩
  rw [Table.length_keys] at hless
  refine ⟨rounds, by omega, ?_⟩
  rw [ancestors?, hwalks.chainFrom_eq (by omega)]
  exact hwalks

/-- What the search finds is the chain. -/
theorem getElem?_ancestors (hname : name ∈ decls.keys) (h : ancestors? decls name = some ancestors)
    (n : Nat) : (name :: ancestors)[n]? = visited (parentOf decls) name n := by
  obtain ⟨_, _, hwalks⟩ := ancestors?_walks decls hname
  rw [h] at hwalks
  cases n with
  | zero => rfl
  | succ n => rw [visited_succ, List.getElem?_cons_succ, hwalks.listed.2.2]

/-- The search fails exactly if the chain comes back to a type. -/
theorem ancestors?_eq_none_iff (hname : name ∈ decls.keys) :
    ancestors? decls name = none ↔ VisitsTwice (parentOf decls) name := by
  obtain ⟨_, _, hwalks⟩ := ancestors?_walks decls hname
  cases hancestors : ancestors? decls name with
  | none =>
    rw [hancestors] at hwalks
    refine iff_of_true rfl ?_
    obtain ⟨n, x, hx, hcase⟩ := hwalks.repeats
    rw [← visited_succ] at hx
    rcases hcase with hmem | ⟨m, hlt, hm⟩
    · rw [List.mem_singleton.1 hmem] at hx
      exact ⟨0, n + 1, name, Nat.zero_lt_succ n, rfl, hx⟩
    · rw [← visited_succ] at hm
      exact ⟨m + 1, n + 1, x, Nat.succ_lt_succ hlt, hm, hx⟩
  | some ancestors =>
    rw [hancestors] at hwalks
    obtain ⟨hnodup, hapart, _⟩ := hwalks.listed
    have hnodup' : (name :: ancestors).Nodup :=
      List.nodup_cons.2 ⟨fun hmem => hapart name hmem List.mem_cons_self, hnodup⟩
    exact iff_of_false nofun (not_visitsTwice hnodup' (getElem?_ancestors hname hancestors))

end Hierarchy

end Chronicle
