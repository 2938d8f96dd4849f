import Chronicle.Proofs.Data.Distinct
import Chronicle.Proofs.Hierarchy.Chains

namespace Chronicle

/-!
# The hierarchy of any declarations

* `Hierarchy.Sound` — no declaration implements the universal tag, and no name is declared twice.
* `Hierarchy.sound_or_offends` — or else there is a first declaration that offends against that.
* `Hierarchy.ofDeclarations_cases` — what building a hierarchy comes to.
* `Hierarchy.ofDeclarations_decides` — which declarations make a hierarchy, what is wrong with the
  others, and what handlers the types of a hierarchy match. The order of the declarations does not
  matter.
-/

namespace Hierarchy

/-! ### Declarations of a list -/

/-- The declaration of a type. -/
def declarationOf (ds : List Declaration) (name : String) : Option Declaration :=
  ds.find? fun d => d.name = name

/-- The type that a type extends, if it is declared and extends one. -/
def parentIn (ds : List Declaration) (name : String) : Option String :=
  (declarationOf ds name).bind Declaration.parent

/-- The interfaces that a type implements itself, if it is declared. -/
def interfacesIn (ds : List Declaration) (name : String) : List String :=
  ((declarationOf ds name).map Declaration.interfaces).getD []

/-- No declaration implements the universal tag, and no name is declared twice. -/
structure Sound (ds : List Declaration) : Prop where
  /-- The universal tag is nobody's interface. -/
  interfaces : ∀ d ∈ ds, Event.universalTag ∉ d.interfaces
  /-- The names differ. -/
  names : (ds.map Declaration.name).Nodup

variable {ds ds' before after : List Declaration} {d : Declaration}

theorem sound_concat_iff : Sound (ds ++ [d]) ↔
    Sound ds ∧ Event.universalTag ∉ d.interfaces ∧ d.name ∉ ds.map Declaration.name := by
  constructor
  · rintro ⟨hinterfaces, hnames⟩
    rw [List.map_append, List.nodup_append] at hnames
    obtain ⟨hnames, _, hapart⟩ := hnames
    refine ⟨⟨fun d' hd' => hinterfaces d' (List.mem_append_left _ hd'), hnames⟩, ?_, ?_⟩
    · exact hinterfaces d (List.mem_append_right _ List.mem_cons_self)
    · exact fun hd => hapart _ hd _ List.mem_cons_self rfl
  · rintro ⟨⟨hinterfaces, hnames⟩, hd, hname⟩
    refine ⟨?_, ?_⟩
    · intro d' hd'
      rcases List.mem_append.1 hd' with hd' | hd'
      · exact hinterfaces d' hd'
      · rw [List.mem_singleton.1 hd']
        exact hd
    · rw [List.map_append, List.nodup_append]
      refine ⟨hnames, List.nodup_singleton _, ?_⟩
      rintro x hx y hy rfl
      rw [List.mem_singleton.1 hy] at hx
      exact hname hx

/-- Declarations are sound, or one of them is the first to offend. -/
theorem sound_or_offends (ds : List Declaration) : Sound ds ∨ ∃ before d after,
    ds = before ++ d :: after ∧ Sound before ∧
      (Event.universalTag ∈ d.interfaces ∨ d.name ∈ before.map Declaration.name) := by
  -- From the end: an offence among the earlier ones comes first.
  induction ds using List.reverseRecOn with
  | nil => exact .inl ⟨nofun, .nil⟩
  | append_singleton ds d ih =>
    rcases ih with hsound | ⟨before, d', after, rfl, hbefore, hoffends⟩
    · by_cases hd : Event.universalTag ∈ d.interfaces ∨ d.name ∈ ds.map Declaration.name
      · exact .inr ⟨ds, d, [], rfl, hsound, hd⟩
      · rw [not_or] at hd
        exact .inl (sound_concat_iff.2 ⟨hsound, hd⟩)
    · exact .inr ⟨before, d', after ++ [d], by rw [List.append_assoc]; rfl, hbefore, hoffends⟩

theorem Sound.perm (h : Sound ds) (hperm : ds.Perm ds') : Sound ds' :=
  ⟨fun d hd => h.interfaces d (hperm.mem_iff.2 hd), (hperm.map Declaration.name).nodup_iff.1 h.names⟩

/-- The declaration of a type is the one with its name. -/
theorem Sound.declarationOf_eq_some_iff (h : Sound ds) {name : String} :
    declarationOf ds name = some d ↔ d ∈ ds ∧ d.name = name := by
  have hsome : ∀ {d}, declarationOf ds name = some d → d ∈ ds ∧ d.name = name := fun hd =>
    ⟨List.mem_of_find?_eq_some hd, by simpa using List.find?_some hd⟩
  refine ⟨hsome, fun ⟨hd, hname⟩ => ?_⟩
  cases hfind : declarationOf ds name with
  | none => exact absurd hname (by simpa using List.find?_eq_none.1 hfind d hd)
  | some d' =>
    obtain ⟨hd', hname'⟩ := hsome hfind
    rw [List.inj_on_of_nodup_map h.names hd' hd (hname'.trans hname.symm)]

/-- The order of the declarations does not matter to that. -/
theorem Sound.declarationOf_perm (h : Sound ds) (hperm : ds.Perm ds') :
    declarationOf ds = declarationOf ds' := by
  funext name
  refine Option.ext fun d => ?_
  rw [h.declarationOf_eq_some_iff, (h.perm hperm).declarationOf_eq_some_iff, hperm.mem_iff]

theorem Sound.parentIn_perm (h : Sound ds) (hperm : ds.Perm ds') : parentIn ds = parentIn ds' := by
  funext name
  rw [parentIn, parentIn, h.declarationOf_perm hperm]

theorem Sound.interfacesIn_perm (h : Sound ds) (hperm : ds.Perm ds') :
    interfacesIn ds = interfacesIn ds' := by
  funext name
  rw [interfacesIn, interfacesIn, h.declarationOf_perm hperm]

/-! ### Collecting -/

/-- Declarations without offences are collected, each under its name. -/
theorem collect_append {t : Declared} (hinterfaces : ∀ d ∈ ds, Event.universalTag ∉ d.interfaces)
    (hnames : (t.keys ++ ds.map Declaration.name).Nodup) : ∃ t' : Declared,
      t'.keys = t.keys ++ ds.map Declaration.name ∧
      (∀ name, t'.get? name = (declarationOf ds name).or (t.get? name)) ∧
      ∀ rest, collect t (ds ++ rest) = collect t' rest := by
  induction ds generalizing t with
  | nil => exact ⟨t, (List.append_nil _).symm, fun _ => rfl, fun _ => rfl⟩
  | cons d rest ih =>
    have hnew : d.name ∉ t.keys := fun hold =>
      (List.nodup_append.1 hnames).2.2 _ hold _ List.mem_cons_self rfl
    have hkeys : (t.insert d.name d).keys = t.keys ++ [d.name] := by
      rw [Table.keys_insert, if_neg hnew]
    have hsplit : (t.insert d.name d).keys ++ rest.map Declaration.name
        = t.keys ++ (d :: rest).map Declaration.name := by
      rw [hkeys, List.append_assoc]
      rfl
    obtain ⟨t', hkeys', hget, hcollect⟩ :=
      ih (fun d' hd' => hinterfaces d' (List.mem_cons_of_mem _ hd')) (hsplit ▸ hnames)
    refine ⟨t', hkeys'.trans hsplit, fun name => ?_, fun later => ?_⟩
    · rw [hget, Table.get?_insert, declarationOf, declarationOf, List.find?_cons]
      by_cases hname : d.name = name
      · -- The later declarations have other names.
        subst hname
        have hlater : rest.find? (fun d' => d'.name = d.name) = none := by
          rw [List.find?_eq_none]
          intro d' hd' hname
          have hnodup := List.nodup_cons.1 (List.nodup_append.1 hnames).2.1
          exact hnodup.1 (List.mem_map.2 ⟨d', hd', of_decide_eq_true hname⟩)
        rw [hlater, if_pos rfl, decide_eq_true rfl]
        rfl
      · rw [if_neg (Ne.symm hname), decide_eq_false hname]
    · have hcontains : ¬ t.contains d.name = true := by rwa [Table.contains_iff]
      rw [List.cons_append, collect, if_neg (hinterfaces d List.mem_cons_self), if_neg hcontains]
      exact hcollect later

/-- Sound declarations are collected. -/
theorem Sound.collect_eq (h : Sound ds) : ∃ decls : Declared,
    decls.keys = ds.map Declaration.name ∧ (∀ name, decls.get? name = declarationOf ds name) ∧
      ∀ rest, collect Table.empty (ds ++ rest) = collect decls rest := by
  obtain ⟨decls, hkeys, hget, hcollect⟩ := collect_append (t := Table.empty) h.interfaces h.names
  exact ⟨decls, hkeys, fun name => (hget name).trans (Option.or_none), hcollect⟩

/-- The first offence is what collecting fails with. -/
theorem Sound.collect_of_offence (h : Sound before)
    (hoffends : Event.universalTag ∈ d.interfaces ∨ d.name ∈ before.map Declaration.name) :
    collect Table.empty (before ++ d :: after) = .error
      (if Event.universalTag ∈ d.interfaces then .rootAsInterface d.name
        else .duplicateDeclaration d.name) := by
  obtain ⟨decls, hkeys, _, hcollect⟩ := h.collect_eq
  rw [hcollect, collect]
  split
  · rfl
  · rename_i hinterfaces
    exact if_pos ((Table.contains_iff _ _).2 (hkeys ▸ hoffends.resolve_left hinterfaces))

/-! ### Resolving -/

/-- The candidates of all types are computed, or there is a type without. -/
theorem resolveAll_cases (decls : Declared) (acc : Table String (List String)) (names : List String) :
    (∃ t, resolveAll decls acc names = .ok t ∧ (∀ name ∈ names, candidatesOf? decls name ≠ none) ∧
      ∀ name, t.get? name = if name ∈ names then candidatesOf? decls name else acc.get? name) ∨
    ∃ name ∈ names, resolveAll decls acc names = .error (.cycle name) ∧
      candidatesOf? decls name = none := by
  induction names generalizing acc with
  | nil => exact .inl ⟨acc, rfl, nofun, fun _ => rfl⟩
  | cons name rest ih =>
    rw [resolveAll]
    cases hcandidates : candidatesOf? decls name with
    | none => exact .inr ⟨name, List.mem_cons_self, rfl, hcandidates⟩
    | some tags =>
      rcases ih (acc.insert name tags) with ⟨t, ht, hall, hget⟩ | ⟨name', hname', herror, hnone⟩
      · refine .inl ⟨t, ht, ?_, fun x => ?_⟩
        · intro x hx
          rcases List.mem_cons.1 hx with rfl | hx
          · rw [hcandidates]
            exact nofun
          · exact hall x hx
        · rw [hget, Table.get?_insert]
          by_cases hrest : x ∈ rest
          · rw [if_pos hrest, if_pos (List.mem_cons_of_mem _ hrest)]
          · -- What was inserted before has not been overwritten by the rest.
            by_cases hname : x = name
            · subst hname
              rw [if_neg hrest, if_pos rfl, if_pos List.mem_cons_self, hcandidates]
            · have hnot : x ∉ name :: rest := List.not_mem_cons_of_ne_of_not_mem hname hrest
              rw [if_neg hrest, if_neg hname, if_neg hnot]
      · exact .inr ⟨name', List.mem_cons_of_mem _ hname', herror, hnone⟩

/-! ### Building -/

/-- The declarations of a list, collected. -/
structure Collects (ds : List Declaration) (decls : Declared) : Prop where
  /-- The declarations are collected so. -/
  collect_eq : collect Table.empty ds = .ok decls
  /-- Their names are the keys. -/
  keys_eq : decls.keys = ds.map Declaration.name
  /-- They stand under their names. -/
  get?_eq : ∀ name, decls.get? name = declarationOf ds name

theorem Sound.collects (h : Sound ds) : ∃ decls, Collects ds decls := by
  obtain ⟨decls, hkeys, hget, hcollect⟩ := h.collect_eq
  refine ⟨decls, ?_, hkeys, hget⟩
  rw [← List.append_nil ds, hcollect]
  rfl

/-- What can be collected is sound. -/
theorem collects_of_collect_eq {decls : Declared} (h : collect Table.empty ds = .ok decls) :
    Sound ds ∧ Collects ds decls := by
  rcases sound_or_offends ds with hsound | ⟨before, d, after, rfl, hbefore, hoffends⟩
  · obtain ⟨decls', hcollects⟩ := hsound.collects
    cases hcollects.collect_eq.symm.trans h
    exact ⟨hsound, hcollects⟩
  · cases (hbefore.collect_of_offence hoffends).symm.trans h

namespace Collects

variable {decls decls' : Declared}

theorem parentOf_eq (h : Collects ds decls) : parentOf decls = parentIn ds := by
  funext name
  rw [parentOf, h.get?_eq]
  rfl

theorem interfacesOf_eq (h : Collects ds decls) : interfacesOf decls = interfacesIn ds := by
  funext name
  rw [interfacesOf, h.get?_eq]
  rfl

theorem size_eq (h : Collects ds decls) : decls.size = ds.length := by
  rw [← Table.length_keys, h.keys_eq, List.length_map]

theorem mem_keys (h : Collects ds decls) (hd : d ∈ ds) : d.name ∈ decls.keys :=
  h.keys_eq ▸ List.mem_map_of_mem hd

theorem candidatesOf?_eq_none_iff (h : Collects ds decls) (hd : d ∈ ds) :
    candidatesOf? decls d.name = none ↔ VisitsTwice (parentIn ds) d.name := by
  rw [candidatesOf?, Option.map_eq_none_iff, ancestors?_eq_none_iff (h.mem_keys hd), h.parentOf_eq]

/-- The candidates are the same in another order of the declarations. -/
theorem candidatesOf?_perm (h : Collects ds decls) (h' : Collects ds' decls') (hsound : Sound ds)
    (hperm : ds.Perm ds') : candidatesOf? decls = candidatesOf? decls' := by
  have hparent : parentOf decls = parentOf decls' := by
    rw [h.parentOf_eq, h'.parentOf_eq, hsound.parentIn_perm hperm]
  have hinterfaces : interfacesOf decls = interfacesOf decls' := by
    rw [h.interfacesOf_eq, h'.interfacesOf_eq, hsound.interfacesIn_perm hperm]
  have hsize : decls.size = decls'.size := by
    rw [h.size_eq, h'.size_eq, hperm.length_eq]
  funext name
  rw [candidatesOf?, candidatesOf?, ancestors?, ancestors?, hparent, hinterfaces, hsize]

/-- The declarations make a hierarchy, or the chain of some type comes back to a type. -/
theorem ofDeclarations_cases (h : Collects ds decls) :
    (∃ hierarchy, ofDeclarations ds = .ok hierarchy ∧
      (∀ d ∈ ds, ¬ VisitsTwice (parentIn ds) d.name) ∧
      ∀ name, hierarchy.declared.get? name
        = if name ∈ ds.map Declaration.name then candidatesOf? decls name else none) ∨
    ∃ d ∈ ds, ofDeclarations ds = .error (.cycle d.name) ∧ VisitsTwice (parentIn ds) d.name := by
  have hbuild : ofDeclarations ds
      = (resolveAll decls Table.empty decls.keys).map Hierarchy.mk := by
    rw [ofDeclarations, h.collect_eq]
    rfl
  rw [hbuild, h.keys_eq]
  rcases resolveAll_cases decls Table.empty (ds.map Declaration.name) with
    ⟨resolved, hresolved, hall, hlookup⟩ | ⟨name, hname, herror, hnone⟩
  · refine .inl ⟨⟨resolved⟩, by rw [hresolved]; rfl, fun d hd => ?_, hlookup⟩
    rw [← h.candidatesOf?_eq_none_iff hd]
    exact hall _ (List.mem_map_of_mem hd)
  · -- The name is that of a declaration.
    obtain ⟨d, hd, rfl⟩ := List.mem_map.1 hname
    exact .inr ⟨d, hd, by rw [herror]; rfl, (h.candidatesOf?_eq_none_iff hd).1 hnone⟩

end Collects

/-- The first offence is what building fails with. -/
theorem ofDeclarations_of_offence (h : Sound before)
    (hoffends : Event.universalTag ∈ d.interfaces ∨ d.name ∈ before.map Declaration.name) :
    ofDeclarations (before ++ d :: after) = .error
      (if Event.universalTag ∈ d.interfaces then .rootAsInterface d.name
        else .duplicateDeclaration d.name) := by
  rw [ofDeclarations, h.collect_of_offence hoffends]
  rfl

/-- Whatever makes a hierarchy is sound, and no chain of it comes back to a type. -/
theorem ofDeclarations_eq_ok {hierarchy : Hierarchy} (h : ofDeclarations ds = .ok hierarchy) :
    Sound ds ∧ (∀ d ∈ ds, ¬ VisitsTwice (parentIn ds) d.name) ∧ ∃ decls, Collects ds decls ∧
      ∀ name, hierarchy.declared.get? name
        = if name ∈ ds.map Declaration.name then candidatesOf? decls name else none := by
  rcases sound_or_offends ds with hsound | ⟨before, d, after, rfl, hbefore, hoffends⟩
  · obtain ⟨decls, hcollects⟩ := hsound.collects
    rcases hcollects.ofDeclarations_cases with ⟨hierarchy', hok, honce, hlookup⟩ | ⟨_, _, herror, _⟩
    · cases hok.symm.trans h
      exact ⟨hsound, honce, decls, hcollects, hlookup⟩
    · cases herror.symm.trans h
  · cases (ofDeclarations_of_offence hbefore hoffends).symm.trans h

/-- An error is that of the first offence, or it tells of a chain that comes back to a type. -/
theorem ofDeclarations_eq_error {err : HierarchyError} (h : ofDeclarations ds = .error err) :
    (∃ before d after, ds = before ++ d :: after ∧ Sound before ∧
      (Event.universalTag ∈ d.interfaces ∨ d.name ∈ before.map Declaration.name) ∧
      err = if Event.universalTag ∈ d.interfaces then .rootAsInterface d.name
        else .duplicateDeclaration d.name) ∨
    (Sound ds ∧ ∃ d ∈ ds, err = .cycle d.name ∧ VisitsTwice (parentIn ds) d.name) := by
  rcases sound_or_offends ds with hsound | ⟨before, d, after, rfl, hbefore, hoffends⟩
  · obtain ⟨decls, hcollects⟩ := hsound.collects
    rcases hcollects.ofDeclarations_cases with ⟨hierarchy', hok, _⟩ | ⟨d, hd, herror, htwice⟩
    · cases hok.symm.trans h
    · exact .inr ⟨hsound, d, hd, Except.error.inj (h.symm.trans herror), htwice⟩
  · exact .inl ⟨before, d, after, rfl, hbefore, hoffends,
      Except.error.inj (h.symm.trans (ofDeclarations_of_offence hbefore hoffends))⟩

/-- Declarations make a hierarchy exactly if they are sound and no chain comes back to a type. -/
theorem ofDeclarations_isOk_iff (ds : List Declaration) :
    (∃ hierarchy, ofDeclarations ds = .ok hierarchy) ↔
      Sound ds ∧ ∀ d ∈ ds, ¬ VisitsTwice (parentIn ds) d.name := by
  constructor
  · rintro ⟨hierarchy, h⟩
    obtain ⟨hsound, honce, _⟩ := ofDeclarations_eq_ok h
    exact ⟨hsound, honce⟩
  · rintro ⟨hsound, honce⟩
    obtain ⟨decls, hcollects⟩ := hsound.collects
    rcases hcollects.ofDeclarations_cases with ⟨hierarchy, hok, _⟩ | ⟨d, hd, _, htwice⟩
    · exact ⟨hierarchy, hok⟩
    · exact absurd htwice (honce d hd)

/-- A declared type matches itself, the interfaces of its chain, its ancestors and the universal tag. -/
theorem candidates_declared {hierarchy : Hierarchy} (h : ofDeclarations ds = .ok hierarchy)
    (hd : d ∈ ds) : ∃ ancestors interfaces,
      (∀ n, (d.name :: ancestors)[n]? = visited (parentIn ds) d.name n) ∧
      FirstsOf ((d.name :: ancestors).flatMap (interfacesIn ds)) interfaces ∧
      hierarchy.candidates d.name = d.name :: interfaces ++ ancestors ++ [Event.universalTag] := by
  obtain ⟨_, honce, decls, hcollects, hlookup⟩ := ofDeclarations_eq_ok h
  have hname := hcollects.mem_keys hd
  cases hancestors : ancestors? decls d.name with
  | none =>
    rw [ancestors?_eq_none_iff hname, hcollects.parentOf_eq] at hancestors
    exact absurd hancestors (honce d hd)
  | some ancestors =>
    refine ⟨ancestors, _, ?_, firstsOf_eraseDups _, ?_⟩
    · rw [← hcollects.parentOf_eq]
      exact getElem?_ancestors hname hancestors
    · rw [candidates, hlookup, if_pos (List.mem_map_of_mem hd), candidatesOf?, hancestors,
        hcollects.interfacesOf_eq]
      rfl

/-- Another tag matches itself and the universal tag. -/
theorem candidates_undeclared {hierarchy : Hierarchy} (h : ofDeclarations ds = .ok hierarchy)
    {tag : String} (htag : tag ∉ ds.map Declaration.name) : hierarchy.candidates tag
      = if tag = Event.universalTag then [tag] else [tag, Event.universalTag] := by
  obtain ⟨_, _, decls, _, hlookup⟩ := ofDeclarations_eq_ok h
  rw [candidates, hlookup, if_neg htag]

/-- **Which declarations make a hierarchy, and which.** The search for the ancestors of a type (`Walks`)
goes one way and ends, after no more rounds than there are declarations. The first declaration that
implements `Event.universalTag` or repeats a name decides which of the two errors `ofDeclarations` fails
with; the former wins if it does both. Without one (`Sound`), it fails exactly if the chain of some type
comes back to a type (`VisitsTwice`), and names a type with such a chain. Else the `candidates` of every
declared type are itself, then the interfaces of the types of its chain (`visited`), each where it comes
first (`FirstsOf`), then its ancestors, nearest first, then the universal tag; and of any other tag itself
and the universal tag, which is not repeated. The order of the declarations does not matter to what is
accepted and to what matches. -/
theorem ofDeclarations_decides (ds : List Declaration) :
    (∀ decls, collect Table.empty ds = .ok decls → ∀ name ∈ decls.keys, ∃ rounds ≤ ds.length,
      Walks (parentOf decls) [name] (parentOf decls name) rounds (ancestors? decls name) ∧
      ∀ rounds' result, Walks (parentOf decls) [name] (parentOf decls name) rounds' result →
        rounds' = rounds ∧ result = ancestors? decls name) ∧
    (∀ name, ofDeclarations ds = .error (.rootAsInterface name) ↔ ∃ before d after,
      ds = before ++ d :: after ∧ Sound before ∧ Event.universalTag ∈ d.interfaces ∧
        d.name = name) ∧
    (∀ name, ofDeclarations ds = .error (.duplicateDeclaration name) ↔ ∃ before d after,
      ds = before ++ d :: after ∧ Sound before ∧ Event.universalTag ∉ d.interfaces ∧
        d.name ∈ before.map Declaration.name ∧ d.name = name) ∧
    (∀ name, ofDeclarations ds = .error (.cycle name) →
      Sound ds ∧ ∃ d ∈ ds, d.name = name ∧ VisitsTwice (parentIn ds) name) ∧
    ((∃ hierarchy, ofDeclarations ds = .ok hierarchy) ↔
      Sound ds ∧ ∀ d ∈ ds, ¬ VisitsTwice (parentIn ds) d.name) ∧
    (∀ hierarchy, ofDeclarations ds = .ok hierarchy →
      (∀ d ∈ ds, ∃ ancestors interfaces,
        (∀ n, (d.name :: ancestors)[n]? = visited (parentIn ds) d.name n) ∧
        FirstsOf ((d.name :: ancestors).flatMap (interfacesIn ds)) interfaces ∧
        hierarchy.candidates d.name
          = d.name :: interfaces ++ ancestors ++ [Event.universalTag]) ∧
      ∀ tag, tag ∉ ds.map Declaration.name → hierarchy.candidates tag
        = if tag = Event.universalTag then [tag] else [tag, Event.universalTag]) ∧
    ∀ ds', ds.Perm ds' →
      ((∃ hierarchy, ofDeclarations ds' = .ok hierarchy) ↔
        ∃ hierarchy, ofDeclarations ds = .ok hierarchy) ∧
      ∀ hierarchy hierarchy', ofDeclarations ds = .ok hierarchy →
        ofDeclarations ds' = .ok hierarchy' → hierarchy'.candidates = hierarchy.candidates := by
  refine ⟨?search, ?universal, ?repeated, ?cycle, ofDeclarations_isOk_iff ds, ?candidates, ?perm⟩
  case search =>
    intro decls h name hname
    obtain ⟨_, hcollects⟩ := collects_of_collect_eq h
    obtain ⟨rounds, hle, hwalks⟩ := ancestors?_walks decls hname
    exact ⟨rounds, hcollects.size_eq ▸ hle, hwalks, fun _ _ h' => hwalks.unique h'⟩
  case universal =>
    refine fun name => ⟨fun h => ?_, ?_⟩
    · rcases ofDeclarations_eq_error h with
        ⟨before, d, after, rfl, hbefore, _, herr⟩ | ⟨_, _, _, herr, _⟩
      · split at herr
        · rename_i hinterfaces
          exact ⟨before, d, after, rfl, hbefore, hinterfaces,
            (HierarchyError.rootAsInterface.inj herr).symm⟩
        · cases herr
      · cases herr
    · rintro ⟨before, d, after, rfl, hbefore, hinterfaces, rfl⟩
      rw [ofDeclarations_of_offence hbefore (.inl hinterfaces), if_pos hinterfaces]
  case repeated =>
    refine fun name => ⟨fun h => ?_, ?_⟩
    · rcases ofDeclarations_eq_error h with
        ⟨before, d, after, rfl, hbefore, hoffends, herr⟩ | ⟨_, _, _, herr, _⟩
      · split at herr
        · cases herr
        · rename_i hinterfaces
          exact ⟨before, d, after, rfl, hbefore, hinterfaces, hoffends.resolve_left hinterfaces,
            (HierarchyError.duplicateDeclaration.inj herr).symm⟩
      · cases herr
    · rintro ⟨before, d, after, rfl, hbefore, hinterfaces, hname, rfl⟩
      rw [ofDeclarations_of_offence hbefore (.inr hname), if_neg hinterfaces]
  case cycle =>
    intro name h
    rcases ofDeclarations_eq_error h with ⟨_, _, _, _, _, _, herr⟩ | ⟨hsound, d, hd, herr, htwice⟩
    · split at herr <;> cases herr
    · cases herr
      exact ⟨hsound, d, hd, rfl, htwice⟩
  case candidates =>
    exact fun hierarchy h => ⟨fun d hd => candidates_declared h hd,
      fun tag htag => candidates_undeclared h htag⟩
  case perm =>
    refine fun ds' hperm => ⟨?_, fun hierarchy hierarchy' h h' => ?_⟩
    · rw [ofDeclarations_isOk_iff, ofDeclarations_isOk_iff]
      constructor
      · rintro ⟨hsound, honce⟩
        rw [hsound.parentIn_perm hperm.symm] at honce
        exact ⟨hsound.perm hperm.symm, fun d hd => honce d (hperm.mem_iff.1 hd)⟩
      · rintro ⟨hsound, honce⟩
        rw [hsound.parentIn_perm hperm] at honce
        exact ⟨hsound.perm hperm, fun d hd => honce d (hperm.mem_iff.2 hd)⟩
    · obtain ⟨hsound, _, decls, hcollects, hlookup⟩ := ofDeclarations_eq_ok h
      obtain ⟨_, _, decls', hcollects', hlookup'⟩ := ofDeclarations_eq_ok h'
      funext tag
      rw [candidates, candidates, hlookup, hlookup',
        hcollects.candidatesOf?_perm hcollects' hsound hperm]
      simp only [(hperm.map Declaration.name).mem_iff]

/-- The nearest ancestor is declared last and implements an interface that comes again. -/
example : ((ofDeclarations
      [⟨"Boiled", some "Peeled", ["Hot"]⟩, ⟨"Peeled", some "Prepared", ["Raw", "Hot"]⟩]).map
        fun h => h.candidates "Boiled")
      = .ok ["Boiled", "Hot", "Raw", "Peeled", "Prepared", Event.universalTag] := by rfl

end Hierarchy

end Chronicle
