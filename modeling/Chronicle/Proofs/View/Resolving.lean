import Chronicle.Proofs.Hierarchy.Building
import Chronicle.Proofs.View.Projection

namespace Chronicle

/-!
# Handlers are found as if nothing were remembered

* `RegisteredLast` — the last registration for a tag.
* `Preferred` — the handler of the first of some tags that is registered.
* `DispatchTable.search_eq_some_iff` — what a search finds is preferred among the candidates of a tag.
* `Inquiry` — what may be asked of a dispatch table, with the reply and the table that remembers it.
* `DispatchTable.Holds` — a table holds registrations, and what it remembers is right. Every inquiry
  keeps that.
* `DispatchTable.resolves_candidates` — after any inquiries, and whatever was found beforehand, a table
  answers the handler of the first registered candidate.
-/

/-! ### Registrations -/

section

variable {H : Type} {registrations : List (String × H)} {tags all l : List String} {tag : String}
  {handler : H}

/-- The last registration for a tag. -/
def RegisteredLast (registrations : List (String × H)) (tag : String) (handler : H) : Prop :=
  ∃ earlier later, registrations = earlier ++ (tag, handler) :: later ∧ tag ∉ later.map Prod.fst

/-- The handler of the first of some tags that is registered. -/
def Preferred (registrations : List (String × H)) (tags : List String) (handler : H) : Prop :=
  ∃ before tag after, tags = before ++ tag :: after ∧
    (∀ t ∈ before, t ∉ registrations.map Prod.fst) ∧ RegisteredLast registrations tag handler

theorem RegisteredLast.mem (h : RegisteredLast registrations tag handler) :
    tag ∈ registrations.map Prod.fst := by
  obtain ⟨earlier, later, rfl, -⟩ := h
  simp

/-- One more registration replaces those for its tag. -/
theorem registeredLast_concat_iff {e : String × H} :
    RegisteredLast (registrations ++ [e]) tag handler ↔
      if tag = e.1 then handler = e.2 else RegisteredLast registrations tag handler := by
  constructor
  · rintro ⟨earlier, later, hsplit, hlater⟩
    rcases List.eq_nil_or_concat' later with rfl | ⟨later, e', rfl⟩
    · obtain ⟨-, he⟩ := List.append_inj' hsplit rfl
      cases he
      simp
    · rw [← List.cons_append, ← List.append_assoc] at hsplit
      obtain ⟨rfl, he⟩ := List.append_inj' hsplit rfl
      cases he
      rw [List.map_append, List.mem_append, not_or] at hlater
      rw [if_neg (by simpa using hlater.2)]
      exact ⟨earlier, later, rfl, hlater.1⟩
  · split
    · rename_i htag
      rintro rfl
      exact ⟨registrations, [], by rw [htag], List.not_mem_nil⟩
    · rename_i htag
      rintro ⟨earlier, later, rfl, hlater⟩
      refine ⟨earlier, later ++ [e], by simp, ?_⟩
      rw [List.map_append, List.mem_append, not_or]
      exact ⟨hlater, by simpa using htag⟩

theorem Table.ofList_concat {κ α : Type} [DecidableEq κ] (l : List (κ × α)) (e : κ × α) :
    Table.ofList (l ++ [e]) = (Table.ofList l).insert e.1 e.2 := by
  rw [Table.ofList, Table.insertAll, List.foldl_append]
  rfl

/-- The table of registrations has the last one for each tag. -/
theorem get?_ofList_eq_some_iff : (Table.ofList registrations).get? tag = some handler ↔
    RegisteredLast registrations tag handler := by
  induction registrations using List.reverseRecOn with
  | nil =>
    refine iff_of_false nofun fun h => ?_
    exact List.not_mem_nil h.mem
  | append_singleton registrations e ih =>
    rw [Table.ofList_concat, Table.get?_insert, registeredLast_concat_iff]
    split
    · rw [Option.some.injEq, eq_comm]
    · exact ih

theorem get?_ofList_eq_none_iff :
    (Table.ofList registrations).get? tag = none ↔ tag ∉ registrations.map Prod.fst := by
  induction registrations using List.reverseRecOn with
  | nil => exact iff_of_true rfl List.not_mem_nil
  | append_singleton registrations e ih =>
    rw [Table.ofList_concat, Table.get?_insert, List.map_append, List.mem_append, not_or, ← ih]
    by_cases htag : tag = e.1 <;> simp [htag]

/-- The first of some tags that is registered is found. -/
theorem findSome?_eq_some_iff_preferred :
    tags.findSome? (Table.ofList registrations).get? = some handler ↔
      Preferred registrations tags handler := by
  rw [List.findSome?_eq_some_iff]
  simp only [get?_ofList_eq_some_iff, get?_ofList_eq_none_iff]
  constructor
  · rintro ⟨before, tag, after, hsplit, hlast, hbefore⟩
    exact ⟨before, tag, after, hsplit, hbefore, hlast⟩
  · rintro ⟨before, tag, after, hsplit, hbefore, hlast⟩
    exact ⟨before, tag, after, hsplit, hlast, hbefore⟩

/-- One of some tags is preferred if any of them is registered. -/
theorem exists_preferred (h : ∃ t ∈ tags, t ∈ registrations.map Prod.fst) :
    ∃ handler, Preferred registrations tags handler := by
  obtain ⟨t, ht, hregistered⟩ := h
  cases hfound : tags.findSome? (Table.ofList registrations).get? with
  | some handler => exact ⟨handler, findSome?_eq_some_iff_preferred.1 hfound⟩
  | none =>
    have hnone := List.findSome?_eq_none_iff.1 hfound t ht
    exact absurd hregistered (get?_ofList_eq_none_iff.1 hnone)

/-- Tags in front that are not registered do not matter, nor do tags behind. -/
theorem Preferred.among (h : Preferred registrations tags handler) {front : List String}
    (hfront : ∀ t ∈ front, t ∉ registrations.map Prod.fst) (back : List String) :
    Preferred registrations (front ++ tags ++ back) handler := by
  obtain ⟨before, tag, after, rfl, hbefore, hlast⟩ := h
  refine ⟨front ++ before, tag, after ++ back, by simp, fun t ht => ?_, hlast⟩
  rcases List.mem_append.1 ht with ht | ht
  · exact hfront t ht
  · exact hbefore t ht

/-- Repetitions do not matter. -/
theorem FirstsOf.preferred (h : FirstsOf all l) (hall : Preferred registrations all handler) :
    Preferred registrations l handler := by
  obtain ⟨before, tag, after, rfl, hbefore, hlast⟩ := hall
  have hnew : tag ∉ before := fun ht => hbefore tag ht hlast.mem
  have htag : tag ∈ l := (h.mem tag).2 (by simp)
  obtain ⟨front, back, rfl⟩ := List.append_of_mem htag
  refine ⟨front, tag, back, rfl, fun t ht => hbefore t ?_, hlast⟩
  -- What stands in front of the tag came before it.
  have hlt := (List.pairwise_append.1 h.ordered).2.2 t ht tag List.mem_cons_self
  rw [List.idxOf_append_of_notMem hnew, List.idxOf_cons_self] at hlt
  by_contra hnot
  rw [List.idxOf_append_of_notMem hnot] at hlt
  omega

end

/-! ### Inquiries -/

/-- What may be asked of a dispatch table. -/
inductive Inquiry where
  /-- Which handler a tag has. -/
  | resolve (tag : String)
  /-- Whether a tag has a handler. -/
  | handles (tag : String)

/-- What a dispatch table answers. -/
inductive Reply (H : Type) where
  /-- The handler of a tag. -/
  | resolved (handler : Option H)
  /-- Whether a tag has one. -/
  | handled (known : Bool)

namespace Inquiry

variable {H : Type}

/-- The reply of a table, and the table that remembers it. -/
def put (t : DispatchTable H) : Inquiry → Reply H × DispatchTable H
  | resolve tag => (.resolved (t.resolve tag).1, (t.resolve tag).2)
  | handles tag => (.handled (t.handles tag), t.asked tag)

/-- The replies to inquiries that come one after the other. -/
def putAll : List Inquiry → DispatchTable H → List (Reply H) × DispatchTable H
  | [], t => ([], t)
  | inquiry :: rest, t =>
    let (reply, t) := inquiry.put t
    let (replies, t) := putAll rest t
    (reply :: replies, t)

/-- The reply according to a search. -/
def expected (hierarchy : Hierarchy) (handlers : Table String H) : Inquiry → Reply H
  | resolve tag => .resolved (DispatchTable.search hierarchy handlers tag)
  | handles tag => .handled (DispatchTable.search hierarchy handlers tag).isSome

end Inquiry

namespace DispatchTable

variable {H : Type} {hierarchy : Hierarchy} {registrations : List (String × H)}
  {t : DispatchTable H} {tag : String} {handler : H}

/-- A table of registrations that was asked for some tags at once. -/
def prepared (hierarchy : Hierarchy) (registrations : List (String × H)) (known : List String) :
    DispatchTable H :=
  known.foldl asked { hierarchy, handlers := Table.ofList registrations }

/-- A table is built by asking it for the declared and the registered tags. -/
theorem build_eq_prepared (hierarchy : Hierarchy) (registrations : List (String × H)) :
    build hierarchy registrations = prepared hierarchy registrations
      (hierarchy.declaredTypes ++ (Table.ofList registrations).keys) := rfl

/-- A search finds the handler of the first candidate that is registered. -/
theorem search_eq_some_iff : search hierarchy (Table.ofList registrations) tag = some handler ↔
    Preferred registrations (hierarchy.candidates tag) handler :=
  findSome?_eq_some_iff_preferred

theorem search_eq_none_iff : search hierarchy (Table.ofList registrations) tag = none ↔
    ∀ candidate ∈ hierarchy.candidates tag, candidate ∉ registrations.map Prod.fst := by
  rw [search, List.findSome?_eq_none_iff]
  simp only [get?_ofList_eq_none_iff]

/-- A table holds registrations, and what it remembers is right. -/
structure Holds (hierarchy : Hierarchy) (registrations : List (String × H)) (t : DispatchTable H) :
    Prop where
  /-- The hierarchy. -/
  hierarchy : t.hierarchy = hierarchy
  /-- The last handler registered for each tag. -/
  handlers : t.handlers = Table.ofList registrations
  /-- What is remembered is what a search finds. -/
  sound : t.Sound

namespace Holds

theorem handler?_eq (h : t.Holds hierarchy registrations) (tag : String) :
    t.handler? tag = search hierarchy (Table.ofList registrations) tag := by
  rw [h.sound.handler?_eq, h.hierarchy, h.handlers]

theorem asked (h : t.Holds hierarchy registrations) (tag : String) :
    (t.asked tag).Holds hierarchy registrations :=
  ⟨(hierarchy_asked t tag).trans h.hierarchy, (handlers_asked t tag).trans h.handlers,
    h.sound.asked tag⟩

/-- An inquiry is answered by a search, and the table holds the same afterwards. -/
theorem put (h : t.Holds hierarchy registrations) (inquiry : Inquiry) :
    (inquiry.put t).1 = inquiry.expected hierarchy (Table.ofList registrations) ∧
      (inquiry.put t).2.Holds hierarchy registrations := by
  cases inquiry with
  | resolve tag => exact ⟨congrArg Reply.resolved (h.handler?_eq tag), h.asked tag⟩
  | handles tag =>
    have hhandles : t.handles tag
        = (search hierarchy (Table.ofList registrations) tag).isSome := by
      rw [handles, h.handler?_eq]
    exact ⟨congrArg Reply.handled hhandles, h.asked tag⟩

theorem putAll (h : t.Holds hierarchy registrations) (inquiries : List Inquiry) :
    (Inquiry.putAll inquiries t).1
        = inquiries.map (Inquiry.expected hierarchy (Table.ofList registrations)) ∧
      (Inquiry.putAll inquiries t).2.Holds hierarchy registrations := by
  induction inquiries generalizing t with
  | nil => exact ⟨rfl, h⟩
  | cons inquiry rest ih =>
    obtain ⟨hreply, hnext⟩ := h.put inquiry
    obtain ⟨hreplies, hlast⟩ := ih hnext
    refine ⟨?_, hlast⟩
    rw [List.map_cons, ← hreply, ← hreplies]
    rfl

end Holds

theorem holds_prepared (hierarchy : Hierarchy) (registrations : List (String × H))
    (known : List String) :
    (prepared hierarchy registrations known).Holds hierarchy registrations := by
  obtain ⟨hsound, hhierarchy, hhandlers⟩ :=
    foldl_asked (sound_unasked hierarchy (Table.ofList registrations)) known
  exact ⟨hhierarchy, hhandlers, hsound⟩

theorem holds_build (hierarchy : Hierarchy) (registrations : List (String × H)) :
    (build hierarchy registrations).Holds hierarchy registrations := by
  rw [build_eq_prepared]
  exact holds_prepared hierarchy registrations _

end DispatchTable

/-! ### Declared types -/

namespace Hierarchy

variable {H : Type} {hierarchy : Hierarchy} {ds : List Declaration} {d : Declaration}
  {registrations : List (String × H)}

/-- Every tag matches the universal tag. -/
theorem universalTag_mem_candidates (h : ofDeclarations ds = .ok hierarchy) (tag : String) :
    Event.universalTag ∈ hierarchy.candidates tag := by
  by_cases htag : tag ∈ ds.map Declaration.name
  · obtain ⟨d, hd, rfl⟩ := List.mem_map.1 htag
    obtain ⟨ancestors, interfaces, -, -, hcandidates⟩ := candidates_declared h hd
    simp [hcandidates]
  · rw [candidates_undeclared h htag]
    split
    · rename_i huniversal
      simp [huniversal]
    · simp

/-- Of a declared type that is not registered itself, the first interface along its chain is preferred
that is registered, and if there is none, the nearest ancestor that is. -/
theorem preferred_candidates (h : ofDeclarations ds = .ok hierarchy) (hd : d ∈ ds)
    (hown : d.name ∉ registrations.map Prod.fst) : ∃ ancestors,
      (∀ n, (d.name :: ancestors)[n]? = visited (parentIn ds) d.name n) ∧
      let interfaces := (d.name :: ancestors).flatMap (interfacesIn ds)
      (∀ handler, Preferred registrations interfaces handler →
        Preferred registrations (hierarchy.candidates d.name) handler) ∧
      ((∀ i ∈ interfaces, i ∉ registrations.map Prod.fst) →
        ∀ handler, Preferred registrations ancestors handler →
          Preferred registrations (hierarchy.candidates d.name) handler) := by
  obtain ⟨ancestors, interfaces, hchain, hfirsts, hcandidates⟩ := candidates_declared h hd
  refine ⟨ancestors, hchain, fun handler hpreferred => ?interface,
    fun hnone handler hpreferred => ?ancestor⟩
  case interface =>
    have hfront : ∀ t ∈ [d.name], t ∉ registrations.map Prod.fst := by simpa using hown
    have hamong := (hfirsts.preferred hpreferred).among hfront (ancestors ++ [Event.universalTag])
    rw [hcandidates]
    simpa using hamong
  case ancestor =>
    have hfront : ∀ t ∈ d.name :: interfaces, t ∉ registrations.map Prod.fst := by
      intro t ht
      rcases List.mem_cons.1 ht with rfl | ht
      · exact hown
      · exact hnone t ((hfirsts.mem t).1 ht)
    rw [hcandidates]
    exact hpreferred.among hfront [Event.universalTag]

end Hierarchy

/-- **Remembering does not change what is found.** Of any hierarchy and any registrations, a table that
was built from them (`build`) and has been asked anything (`Inquiry.putAll`) answers for a tag the last
handler registered for the first of its `hierarchy.candidates` that is registered (`Preferred`), and none
exactly if no candidate is. Every reply is the one that the table as it was built gives, also if other tags
had been asked for beforehand or in another order (`prepared`). In the hierarchy of declarations
(`Hierarchy.ofDeclarations`), a handler for the universal tag makes every tag have one; and a declared type
without a handler of its own has that of the first registered interface along its chain, or else that of
its nearest registered ancestor. -/
theorem DispatchTable.resolves_candidates {H : Type} (hierarchy : Hierarchy)
    (registrations : List (String × H)) (inquiries : List Inquiry) :
    let built := build hierarchy registrations
    let t := (Inquiry.putAll inquiries built).2
    -- What is found.
    (∀ tag,
      (∀ handler, t.handler? tag = some handler ↔
        Preferred registrations (hierarchy.candidates tag) handler) ∧
      (t.handler? tag = none ↔
        ∀ candidate ∈ hierarchy.candidates tag, candidate ∉ registrations.map Prod.fst) ∧
      (t.handles tag = true ↔
        ∃ candidate ∈ hierarchy.candidates tag, candidate ∈ registrations.map Prod.fst)) ∧
    -- What was asked before does not matter.
    (Inquiry.putAll inquiries built).1 = inquiries.map (fun inquiry => (inquiry.put built).1) ∧
    (∀ known, (Inquiry.putAll inquiries (prepared hierarchy registrations known)).1
      = (Inquiry.putAll inquiries built).1) ∧
    -- What that comes to for declared types.
    ∀ ds, Hierarchy.ofDeclarations ds = .ok hierarchy →
      (Event.universalTag ∈ registrations.map Prod.fst →
        ∀ tag, ∃ handler, t.handler? tag = some handler) ∧
      ∀ d ∈ ds, d.name ∉ registrations.map Prod.fst → ∃ ancestors,
        (∀ n, (d.name :: ancestors)[n]? = Hierarchy.visited (Hierarchy.parentIn ds) d.name n) ∧
        let interfaces := (d.name :: ancestors).flatMap (Hierarchy.interfacesIn ds)
        ((∃ i ∈ interfaces, i ∈ registrations.map Prod.fst) → ∃ handler,
          Preferred registrations interfaces handler ∧ t.handler? d.name = some handler) ∧
        ((∀ i ∈ interfaces, i ∉ registrations.map Prod.fst) →
          (∃ a ∈ ancestors, a ∈ registrations.map Prod.fst) → ∃ handler,
            Preferred registrations ancestors handler ∧ t.handler? d.name = some handler) := by
  intro built t
  have hbuilt : built.Holds hierarchy registrations := holds_build hierarchy registrations
  obtain ⟨hreplies, ht⟩ := hbuilt.putAll inquiries
  have hsome : ∀ tag handler, t.handler? tag = some handler ↔
      Preferred registrations (hierarchy.candidates tag) handler := fun tag handler => by
    rw [ht.handler?_eq, search_eq_some_iff]
  have hnone : ∀ tag, t.handler? tag = none ↔
      ∀ candidate ∈ hierarchy.candidates tag, candidate ∉ registrations.map Prod.fst := fun tag => by
    rw [ht.handler?_eq, search_eq_none_iff]
  refine ⟨fun tag => ⟨hsome tag, hnone tag, ?handles⟩, ?alone, fun known => ?beforehand,
    fun ds hds => ⟨fun huniversal tag => ?universal, fun d hd hown => ?declared⟩⟩
  case handles =>
    rw [handles, Option.isSome_iff_ne_none, ne_eq, hnone]
    push Not
    rfl
  case alone =>
    rw [hreplies]
    exact List.map_congr_left fun inquiry _ => (hbuilt.put inquiry).1.symm
  case beforehand =>
    rw [hreplies]
    exact ((holds_prepared hierarchy registrations known).putAll inquiries).1
  case universal =>
    obtain ⟨handler, hpreferred⟩ :=
      exists_preferred ⟨_, Hierarchy.universalTag_mem_candidates hds tag, huniversal⟩
    exact ⟨handler, (hsome tag handler).2 hpreferred⟩
  case declared =>
    obtain ⟨ancestors, hchain, hinterface, hancestor⟩ := Hierarchy.preferred_candidates hds hd hown
    refine ⟨ancestors, hchain, fun hregistered => ?_, fun hfree hregistered => ?_⟩
    · obtain ⟨handler, hpreferred⟩ := exists_preferred hregistered
      exact ⟨handler, hpreferred, (hsome _ _).2 (hinterface handler hpreferred)⟩
    · obtain ⟨handler, hpreferred⟩ := exists_preferred hregistered
      exact ⟨handler, hpreferred, (hsome _ _).2 (hancestor hfree handler hpreferred)⟩

/-- The flat hierarchy is that of no declarations. -/
example : Hierarchy.ofDeclarations [] = .ok Hierarchy.flat := rfl

end Chronicle
