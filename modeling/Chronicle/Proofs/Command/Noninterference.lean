import Chronicle.Proofs.Command.Agreement
import Chronicle.Proofs.Command.Provenance

namespace Chronicle

/-!
# Nobody can set the keys of the library

Two runs are compared in which commands, their events and the events of creations differ only in what
they say under the six keys that the library sets. The difference shrinks from place to place: what
is emitted differs under six keys, what is marked differs under the four of the numbering
(`Event.SameMark`), and what is numbered does not differ any more (`Event.SameMark.mark_eq`).

* `Event.Alike`, `Script.Alike`, `Program.Alike`, `Command.Alike` — what may differ. A program may look
  at the roots that it gets back, so alike programs go on alike from roots that are alike.
* `UnitOfWork.Alike` — the roots at hand are alike. Acquisitions, emissions and whole programs keep
  them so (`Program.Alike.run`).
* `Processor.processFrom_alike` — alike commands are processed alike, with any store.
* `Processor.reserved_metadata` — that, for any number of commands, and what the committed metadata are.
-/

/-! ### Tables with related values -/

namespace Table

variable {κ α β : Type} {R : α → β → Prop}

/-- Two tables have the same keys in the same order, with related values. -/
def Rel (R : α → β → Prop) (t : Table κ α) (t' : Table κ β) : Prop :=
  List.Forall₂ (fun entry entry' => entry.1 = entry'.1 ∧ R entry.2 entry'.2) t.entries t'.entries

variable [DecidableEq κ] {t : Table κ α} {t' : Table κ β}

/-- Related tables have related values under every key. -/
theorem Rel.get? (h : t.Rel R t') (k : κ) : Option.Rel R (t.get? k) (t'.get? k) := by
  unfold Rel at h
  unfold Table.get?
  generalize t.entries = entries at h
  generalize t'.entries = entries' at h
  induction h with
  | nil => exact .none
  | @cons entry entry' rest rest' hfirst _ ih =>
    obtain ⟨key, a⟩ := entry
    obtain ⟨key', a'⟩ := entry'
    obtain ⟨hkey, hvalue⟩ := hfirst
    obtain rfl : key = key' := hkey
    by_cases hk : key = k
    · simpa [find, hk] using Option.Rel.some hvalue
    · simpa [find, hk] using ih

/-- Related values may be inserted. -/
theorem Rel.insert (h : t.Rel R t') (k : κ) {a : α} {a' : β} (ha : R a a') :
    (t.insert k a).Rel R (t'.insert k a') := by
  unfold Rel at h
  show List.Forall₂ _ (put k a t.entries) (put k a' t'.entries)
  generalize t.entries = entries at h
  generalize t'.entries = entries' at h
  induction h with
  | nil => exact .cons ⟨rfl, ha⟩ .nil
  | @cons entry entry' rest rest' hfirst hrest ih =>
    obtain ⟨key, b⟩ := entry
    obtain ⟨key', b'⟩ := entry'
    obtain ⟨hkey, hvalue⟩ := hfirst
    obtain rfl : key = key' := hkey
    by_cases hk : key = k
    · simp only [put, hk, if_true]
      exact .cons ⟨rfl, ha⟩ hrest
    · simp only [put, hk, if_false]
      exact .cons ⟨rfl, hvalue⟩ ih

end Table

/-! ### Events -/

/-- Two metadata agree under all keys that the library does not set. -/
def Metadata.Alike (m m' : Metadata) : Prop := ∀ key ∉ Key.reserved, m.get? key = m'.get? key

/-- The keys that the numbering of a batch sets. -/
def Metadata.Key.numbering : List String := [sequence, position, batch, time]

/-- The root sets what is left of the keys of the library. -/
theorem Metadata.Key.eq_of_mem_reserved {key : String} (h : key ∈ reserved) (hnot : key ∉ numbering) :
    key = root ∨ key = rootType := by
  simp only [reserved, numbering, List.mem_cons, List.not_mem_nil, or_false] at h hnot
  tauto

theorem Batch.Stamp.isSome_numbers (s : Stamp) (sequence position : Int) {key : String}
    (hkey : key ∈ Metadata.Key.numbering) : (s.numbers sequence position key).isSome = true := by
  simp only [Metadata.Key.numbering, List.mem_cons, List.not_mem_nil, or_false] at hkey
  rcases hkey with rfl | rfl | rfl | rfl <;> rfl

namespace Event

/-- Two events that are emitted differ at most under the keys of the library. -/
structure Alike (e e' : Event) : Prop where
  /-- They say the same. -/
  content : e.content = e'.content
  /-- Their metadata agree under all other keys. -/
  metadata : e.metadata.Alike e'.metadata

/-- Two events have been marked by the same root, and differ at most under the keys of the
numbering. -/
structure SameMark (e e' : Event) : Prop where
  /-- They say the same. -/
  content : e.content = e'.content
  /-- Their metadata agree under all other keys. -/
  metadata : ∀ key ∉ Metadata.Key.numbering, e.metadata.get? key = e'.metadata.get? key
  /-- They have a root. -/
  root : (e.metadata.get? Metadata.Key.root).isSome = true
  /-- They have the type of a root. -/
  rootType : (e.metadata.get? Metadata.Key.rootType).isSome = true

variable {e e' : Event}

/-- The mark of a root replaces what they differ in under the keys of the mark. -/
theorem Alike.mark (h : e.Alike e') {S : Type} (T : AggregateType S) {r r' : Root S}
    (hid : r.id = r'.id) : (r.mark T e).SameMark (r'.mark T e') where
  content := h.content
  metadata := by
    intro key hkey
    have hmarks : r.marks T key = r'.marks T key := by simp only [Root.marks, hid]
    rw [Root.get?_mark, Root.get?_mark, hmarks]
    by_cases hreserved : key ∈ Metadata.Key.reserved
    · -- It is one of the two keys that the root sets.
      have hset : (r'.marks T key).isSome = true := by
        rcases Metadata.Key.eq_of_mem_reserved hreserved hkey with rfl | rfl <;> rfl
      rw [Option.or_of_isSome hset, Option.or_of_isSome hset]
    · rw [h.metadata key hreserved]
  root := by
    rw [Root.get?_mark]
    rfl
  rootType := by
    rw [Root.get?_mark]
    rfl

/-- The keys of the library that the numbering does not set have been set by the root. -/
theorem SameMark.isSome_get? (h : e.SameMark e') {key : String}
    (hreserved : key ∈ Metadata.Key.reserved) (hnot : key ∉ Metadata.Key.numbering) :
    (e.metadata.get? key).isSome = true := by
  rcases Metadata.Key.eq_of_mem_reserved hreserved hnot with rfl | rfl
  · exact h.root
  · exact h.rootType

/-- Numbering replaces the rest of what they differ in: it makes the same event of both. -/
theorem SameMark.mark_eq (h : e.SameMark e') {batch : Uuid} {time : Instant} {m m' : Metadata}
    (hm : m.Alike m') (sequence position : Int) :
    (Batch.Stamp.mk batch time m).mark sequence position e
      = (Batch.Stamp.mk batch time m').mark sequence position e' := by
  obtain ⟨htag, hpayload⟩ : e.tag = e'.tag ∧ e.payload = e'.payload := Prod.mk.inj h.content
  have hmetadata : ((Batch.Stamp.mk batch time m).mark sequence position e).metadata
      = ((Batch.Stamp.mk batch time m').mark sequence position e').metadata := by
    refine Dict.ext_get? fun key => ?_
    rw [Batch.Stamp.get?_mark, Batch.Stamp.get?_mark, Option.or_assoc, Option.or_assoc]
    show ((Batch.Stamp.mk batch time m).numbers sequence position key).or
        ((e.metadata.get? key).or (m.get? key))
      = ((Batch.Stamp.mk batch time m).numbers sequence position key).or
        ((e'.metadata.get? key).or (m'.get? key))
    by_cases hnumbering : key ∈ Metadata.Key.numbering
    · have hset := (Batch.Stamp.mk batch time m).isSome_numbers sequence position hnumbering
      rw [Option.or_of_isSome hset, Option.or_of_isSome hset]
    · rw [← h.metadata key hnumbering]
      by_cases hreserved : key ∈ Metadata.Key.reserved
      · -- So the command does not fill it in.
        have hset := h.isSome_get? hreserved hnumbering
        rw [Option.or_of_isSome hset, Option.or_of_isSome hset]
      · rw [hm key hreserved]
  show Event.mk e.tag e.payload _ = Event.mk e'.tag e'.payload _
  rw [htag, hpayload]
  exact congrArg (Event.mk e'.tag e'.payload) hmetadata

end Event

/-! ### Roots -/

/-- Two roots are the same but for what their uncommitted events say under the keys of the
numbering. -/
structure Root.Alike {S : Type} (r r' : Root S) : Prop where
  /-- The id is the same. -/
  id : r.id = r'.id
  /-- The sequence number is the same. -/
  sequence : r.sequence = r'.sequence
  /-- The cutoff is the same. -/
  cutoff : r.cutoff = r'.cutoff
  /-- The state is the same. -/
  state : r.state = r'.state
  /-- The uncommitted events are marked alike, one by one. -/
  uncommitted : List.Forall₂ Event.SameMark r.uncommitted r'.uncommitted

section

variable {S : Type} {T : AggregateType S} {r r' : Root S}

theorem Root.Alike.refl_of_uncommitted (h : r.uncommitted = []) : r.Alike r :=
  ⟨rfl, rfl, rfl, rfl, h ▸ .nil⟩

/-- Alike events that are emitted on alike roots are taken or refused alike, if the aggregate reads no
metadata. -/
theorem Root.Alike.emit (hT : T.ReadsContent) (h : r.Alike r') {e e' : Event} (he : e.Alike e') :
    (r.emit T e).1.Alike (r'.emit T e').1 ∧ (r.emit T e).2 = (r'.emit T e').2 := by
  have hmark := he.mark T h.id
  have happly : T.apply r.state (r.mark T e) = T.apply r'.state (r'.mark T e') := by
    rw [h.state]
    exact hT _ _ _ hmark.content
  unfold Root.emit Root.buffer
  rw [happly]
  rcases T.apply r'.state (r'.mark T e') with ⟨state, _ | err⟩
  · exact ⟨⟨h.id, h.sequence, h.cutoff, rfl, List.rel_append h.uncommitted (.cons hmark .nil)⟩, rfl⟩
  · exact ⟨⟨h.id, h.sequence, h.cutoff, rfl, h.uncommitted⟩, rfl⟩

/-! ### Scripts -/

/-- Two scripts emit alike events, and go on alike from roots that are alike. -/
inductive Script.Alike : Script S → Script S → Prop where
  /-- Both are done. -/
  | done : Alike .done .done
  /-- Both give up with an error. -/
  | fail (err : AppError) : Alike (.fail err) (.fail err)
  /-- Both emit. -/
  | emit {e e' : Event} {next next' : Root S → Option AppError → Script S} (he : e.Alike e')
      (hnext : ∀ r r' err, Root.Alike r r' → Alike (next r err) (next' r' err)) :
      Alike (.emit e next) (.emit e' next')

/-- Alike scripts make alike roots of alike roots. -/
theorem Script.Alike.run (hT : T.ReadsContent) {script script' : Script S}
    (h : script.Alike script') (hr : r.Alike r') :
    (script.run T r).1.Alike (script'.run T r').1 ∧ (script.run T r).2 = (script'.run T r').2 := by
  induction h generalizing r r' with
  | done => exact ⟨hr, rfl⟩
  | fail err => exact ⟨hr, rfl⟩
  | @emit e e' next next' he _ ih =>
    obtain ⟨hroot, herr⟩ := hr.emit hT he
    have hstep : Script.run T (.emit e' next') r'
        = Script.run T (next' (r'.emit T e').1 (r.emit T e).2) (r'.emit T e').1 := by
      rw [herr]
      rfl
    rw [hstep]
    exact ih _ _ _ hroot hroot

/-- A script does not run another one. -/
theorem Script.run_created (T : AggregateType S) (creation : Root S → Script S) (script : Script S)
    (r : Root S) : script.run { T with created := creation } r = script.run T r := by
  induction script generalizing r with
  | done => rfl
  | fail err => rfl
  | emit e next ih => exact ih _ _ _

/-- Alike creations make alike roots, or fail with the same error. -/
theorem Repository.create_alike (hT : T.ReadsContent) {creation : Root S → Script S} (id : String)
    (h : (T.created (Root.new T id)).Alike (creation (Root.new T id))) :
    (∃ err, create T id = .error err ∧ create { T with created := creation } id = .error err) ∨
      ∃ r r', create T id = .ok r ∧ create { T with created := creation } id = .ok r' ∧ r.Alike r' := by
  obtain ⟨hroot, herr⟩ := h.run hT (Root.Alike.refl_of_uncommitted (r := Root.new T id) rfl)
  have hnew : Root.new { T with created := creation } id = Root.new T id := rfl
  unfold create
  simp only [hnew, Script.run_created]
  generalize (T.created (Root.new T id)).run T (Root.new T id) = ran at hroot herr
  generalize (creation (Root.new T id)).run T (Root.new T id) = ran' at hroot herr
  obtain ⟨root, err⟩ := ran
  obtain ⟨root', err'⟩ := ran'
  obtain rfl : err = err' := herr
  cases err with
  | none => exact .inr ⟨root, root', rfl, rfl, hroot⟩
  | some err => exact .inl ⟨_, rfl, rfl⟩

end

/-! ### Units of work -/

namespace UnitOfWork

variable {σ κ S : Type}

/-- Two units of work have alike roots at hand. -/
def Alike (u u' : UnitOfWork κ S) : Prop :=
  u.roots.Rel (fun entry entry' => entry.1 = entry'.1 ∧ entry.2.Alike entry'.2) u'.roots

/-- Two acquisitions have the same answer, but for what the root has uncommitted. -/
inductive SameAnswer : Except UnitOfWorkError (Option (Root S)) →
    Except UnitOfWorkError (Option (Root S)) → Prop where
  /-- Both fail with an error. -/
  | error (err : UnitOfWorkError) : SameAnswer (.error err) (.error err)
  /-- Both find no root. -/
  | none : SameAnswer (.ok none) (.ok none)
  /-- Both have a root. -/
  | some {r r' : Root S} (h : r.Alike r') : SameAnswer (.ok (some r)) (.ok (some r'))

/-- Two emissions have the same answer, but for what the root has uncommitted. -/
inductive SameReply : Option (Root S × Option AppError) → Option (Root S × Option AppError) →
    Prop where
  /-- Neither has a root. -/
  | none : SameReply none none
  /-- Both are taken, or both are refused with an error. -/
  | some {r r' : Root S} (err : Option AppError) (h : r.Alike r') :
      SameReply (some (r, err)) (some (r', err))

theorem alike_empty : (empty : UnitOfWork κ S).Alike empty := .nil

variable {types : κ → AggregateType S} {u u' : UnitOfWork κ S}

/-- Alike units of work have alike roots of the same kind under an id, or neither has one. -/
theorem Alike.get?_cases (h : u.Alike u') (id : String) :
    (u.roots.get? id = none ∧ u'.roots.get? id = none) ∨ ∃ kind root root',
      u.roots.get? id = some (kind, root) ∧ u'.roots.get? id = some (kind, root') ∧
        root.Alike root' := by
  have hget := Table.Rel.get? h id
  rcases hu : u.roots.get? id with _ | ⟨kind, root⟩ <;>
    rcases hu' : u'.roots.get? id with _ | ⟨kind', root'⟩
  · exact .inl ⟨rfl, rfl⟩
  · simp [hu, hu'] at hget
  · simp [hu, hu'] at hget
  · obtain ⟨rfl, hroot⟩ : kind = kind' ∧ root.Alike root' := by simpa [hu, hu'] using hget
    exact .inr ⟨kind, root, root', rfl, rfl, hroot⟩

/-- Alike roots may be put under an id. -/
theorem Alike.insert (h : u.Alike u') (id : String) (kind : κ) {r r' : Root S} (hr : r.Alike r') :
    Alike ⟨u.roots.insert id (kind, r)⟩ ⟨u'.roots.insert id (kind, r')⟩ :=
  Table.Rel.insert h id ⟨rfl, hr⟩

/-- Alike events may be emitted on alike units of work. -/
theorem Alike.emit (hread : ∀ k, (types k).ReadsContent) (h : u.Alike u') (id : String) {e e' : Event}
    (he : e.Alike e') : SameReply (u.emit types id e).1 (u'.emit types id e').1 ∧
      (u.emit types id e).2.Alike (u'.emit types id e').2 := by
  unfold UnitOfWork.emit
  rcases h.get?_cases id with ⟨hu, hu'⟩ | ⟨kind, root, root', hu, hu', hroot⟩
  · rw [hu, hu']
    exact ⟨.none, h⟩
  · obtain ⟨hafter, herr⟩ := hroot.emit (hread kind) he
    simp only [hu, hu']
    rw [← herr]
    exact ⟨.some _ hafter, h.insert id kind hafter⟩

/-- An emission has nothing to do with creations. -/
theorem emit_created (types : κ → AggregateType S) (creation : κ → Root S → Script S) (id : String)
    (e : Event) (u : UnitOfWork κ S) :
    u.emit (fun k => { types k with created := creation k }) id e = u.emit types id e := by
  unfold emit
  rcases u.roots.get? id with _ | ⟨kind, root⟩ <;> rfl

/-- Alike units of work acquire alike roots, if creations are alike. -/
theorem Alike.acquire [DecidableEq κ] (hread : ∀ k, (types k).ReadsContent)
    {creation : κ → Root S → Script S} (hcreation : ∀ k r, ((types k).created r).Alike (creation k r))
    (h : u.Alike u') (repo : Repository σ) (mode : Acquisition) (kind : κ) (id : String)
    (b : Backing σ) :
    let acquired := u.acquire types repo mode kind id b
    let acquired' := u'.acquire (fun k => { types k with created := creation k }) repo mode kind id b
    SameAnswer acquired.1 acquired'.1 ∧ acquired.2.1.Alike acquired'.2.1 ∧
      acquired.2.2 = acquired'.2.2 := by
  intro acquired acquired'
  unfold acquired acquired' UnitOfWork.acquire
  rcases h.get?_cases id with ⟨hu, hu'⟩ | ⟨held, root, root', hu, hu', hroot⟩
  · simp only [hu, hu', fetch_eq_load, Repository.load_eq, Repository.hydrate_created]
    rcases hfound : repo.hydrate (types kind) id mode.request.bound b with ⟨_ | _ | root, b'⟩
    · exact ⟨.error _, h, rfl⟩
    · -- The repository has found nothing, so it is up to the creation.
      cases mode with
      | get => exact ⟨.error _, h, rfl⟩
      | tryGet => exact ⟨.none, h, rfl⟩
      | load =>
        rcases Repository.create_alike (hread kind) id (hcreation kind _) with
          ⟨err, hcreate, hcreate'⟩ | ⟨root, root', hcreate, hcreate', hroot⟩
        · simp only [Acquisition.request, LoadRequest.absent, hcreate, hcreate']
          exact ⟨.error _, h, rfl⟩
        · simp only [Acquisition.request, LoadRequest.absent, hcreate, hcreate']
          exact ⟨.some hroot, h.insert id kind hroot, rfl⟩
    · have huncommitted : root.uncommitted = [] :=
        (Repository.hydrate_eq_ok (congrArg Prod.fst hfound)).2.1
      have hroot := Root.Alike.refl_of_uncommitted huncommitted
      exact ⟨.some hroot, h.insert id kind hroot, rfl⟩
  · simp only [hu, hu']
    split
    · exact ⟨.some hroot, h, rfl⟩
    · exact ⟨.error _, h, rfl⟩

end UnitOfWork

/-! ### Programs -/

section

variable {S : Type}

/-- Scripts that emit alike events, one by one, are alike. -/
theorem Script.Alike.emitAll {last last' : Script S} (hlast : last.Alike last')
    {events events' : List Event} (h : List.Forall₂ Event.Alike events events') :
    (Script.emitAll last events).Alike (Script.emitAll last' events') := by
  induction h with
  | nil => exact hlast
  | cons hfirst _ ih =>
    refine .emit hfirst fun r r' err _ => ?_
    rcases err with _ | err
    · exact ih
    · exact .fail err

end

/-- Two programs do the same, but for what they say under the keys of the library: they acquire the
same roots, emit alike events, and go on alike from answers that are the same but for that. -/
inductive Program.Alike {κ S : Type} : Program κ S → Program κ S → Prop where
  /-- Both are done. -/
  | done : Alike .done .done
  /-- Both give up with an error. -/
  | fail (err : ExecutionError) : Alike (.fail err) (.fail err)
  /-- Both acquire a root. -/
  | acquire (mode : Acquisition) (kind : κ) (id : String)
      {next next' : Except UnitOfWorkError (Option (Root S)) → Program κ S}
      (hnext : ∀ a a', UnitOfWork.SameAnswer a a' → Alike (next a) (next' a')) :
      Alike (.acquire mode kind id next) (.acquire mode kind id next')
  /-- Both emit on a root. -/
  | emit (id : String) {e e' : Event} {next next' : Option (Root S × Option AppError) → Program κ S}
      (he : e.Alike e') (hnext : ∀ a a', UnitOfWork.SameReply a a' → Alike (next a) (next' a')) :
      Alike (.emit id e next) (.emit id e' next')

namespace Program.Alike

variable {κ S : Type}

/-- Programs that go on alike from a root are alike. -/
theorem acquiring (mode : Acquisition) (kind : κ) (id : String)
    {next next' : Option (Root S) → Program κ S} (hnone : (next none).Alike (next' none))
    (hsome : ∀ r r', r.Alike r' → (next (some r)).Alike (next' (some r'))) :
    (Program.acquiring mode kind id next).Alike (Program.acquiring mode kind id next') := by
  refine .acquire mode kind id ?_
  rintro _ _ (err | _ | hroot)
  · exact .fail _
  · exact hnone
  · exact hsome _ _ hroot

/-- Programs that emit alike events on a root, one by one, are alike. -/
theorem emitAll (id : String) {last last' : Program κ S} (hlast : last.Alike last')
    {events events' : List Event} (h : List.Forall₂ Event.Alike events events') :
    (Program.emitAll id last events).Alike (Program.emitAll id last' events') := by
  induction h with
  | nil => exact hlast
  | cons hfirst _ ih =>
    refine .emit id hfirst ?_
    rintro _ _ (_ | ⟨_ | err, _⟩)
    · exact ih
    · exact ih
    · exact .fail _

/-- Programs that do what alike scripts say are alike. -/
theorem ofScript (id : String) {last last' : Program κ S} (hlast : last.Alike last')
    {script script' : Script S} (h : script.Alike script') :
    (Program.ofScript id last script).Alike (Program.ofScript id last' script') := by
  induction h with
  | done => exact hlast
  | fail err => exact .fail _
  | emit he _ ih =>
    unfold Program.ofScript
    refine .emit id he ?_
    rintro _ _ (_ | ⟨err, hroot⟩)
    · exact hlast
    · exact ih _ _ err hroot

/-- Commands on one root that do what alike scripts say are alike. -/
theorem single (kind : κ) (id : String) {execute execute' : Root S → Script S}
    (h : ∀ r r', r.Alike r' → (execute r).Alike (execute' r')) :
    (Program.single kind id execute).Alike (Program.single kind id execute') :=
  acquiring .load kind id .done fun r r' hroot => ofScript id .done (h r r' hroot)

end Program.Alike

section

variable {σ κ S : Type} [DecidableEq κ] {types : κ → AggregateType S}

/-- Alike programs give up with the same error or not at all, leave the store and the snapshots the
same, and their units of work alike. -/
theorem Program.Alike.run (hread : ∀ k, (types k).ReadsContent) {creation : κ → Root S → Script S}
    (hcreation : ∀ k r, ((types k).created r).Alike (creation k r)) (repo : Repository σ)
    {program program' : Program κ S} (h : program.Alike program') {u u' : UnitOfWork κ S}
    (hu : u.Alike u') (b : Backing σ) :
    let ran := program.run types repo u b
    let ran' := program'.run (fun k => { types k with created := creation k }) repo u' b
    ran.1 = ran'.1 ∧ ran.2.1.Alike ran'.2.1 ∧ ran.2.2 = ran'.2.2 := by
  induction h generalizing u u' b with
  | done => exact ⟨rfl, hu, rfl⟩
  | fail err => exact ⟨rfl, hu, rfl⟩
  | acquire mode kind id _ ih =>
    obtain ⟨hanswer, hunits, hbacking⟩ := hu.acquire hread hcreation repo mode kind id b
    simp only [Program.run]
    rw [← hbacking]
    exact ih _ _ hanswer hunits _
  | emit id he _ ih =>
    obtain ⟨hreply, hunits⟩ := hu.emit hread id he
    simp only [Program.run, UnitOfWork.emit_created]
    exact ih _ _ hreply hunits b

end

/-! ### Batches -/

/-- What two roots have emitted goes on from the same number and is marked alike. -/
structure Pending.Alike (p p' : Pending) : Prop where
  /-- The number is the same. -/
  sequence : p.sequence = p'.sequence
  /-- The events are marked alike, one by one. -/
  events : List.Forall₂ Event.SameMark p.events p'.events

/-- Alike units of work have alike events to take out. -/
theorem UnitOfWork.Alike.takePending {κ S : Type} {u u' : UnitOfWork κ S} (h : u.Alike u') :
    List.Forall₂ Pending.Alike u.takePending.1 u'.takePending.1 := by
  show List.Forall₂ _ ((u.roots.values.map _).filter _) ((u'.roots.values.map _).filter _)
  refine List.rel_filter (fun p p' hp => ?_) ?_
  · obtain ⟨_, events⟩ := p
    obtain ⟨_, events'⟩ := p'
    rcases hp.events with _ | _ <;> simp
  · unfold Table.values
    rw [List.forall₂_map_left_iff, List.forall₂_map_right_iff, List.forall₂_map_left_iff,
      List.forall₂_map_right_iff]
    exact h.imp fun _ _ hentry => ⟨hentry.2.2.sequence, hentry.2.2.uncommitted⟩

namespace Batch

variable {batch : Uuid} {time : Instant} {m m' : Metadata}

theorem Stamp.markFrom_eq (hm : m.Alike m') {events events' : List Event}
    (h : List.Forall₂ Event.SameMark events events') (sequence position : Int) :
    (Stamp.mk batch time m).markFrom sequence position events
      = (Stamp.mk batch time m').markFrom sequence position events' := by
  induction h generalizing sequence position with
  | nil => rfl
  | cons hfirst _ ih => rw [markFrom, markFrom, hfirst.mark_eq hm, ih]

/-- Numbering makes the same batch of events that are marked alike. -/
theorem number_eq (hm : m.Alike m') {pending pending' : List Pending}
    (h : List.Forall₂ Pending.Alike pending pending') (position : Int) :
    number ⟨batch, time, m⟩ position pending = number ⟨batch, time, m'⟩ position pending' := by
  induction h generalizing position with
  | nil => rfl
  | cons hfirst _ ih =>
    rw [number, number, Stamp.markFrom_eq hm hfirst.events, hfirst.sequence, ih,
      hfirst.events.length_eq]

end Batch

/-! ### Processing -/

/-- Two commands do the same, but for what they say under the keys of the library. -/
structure Command.Alike {κ S : Type} (c c' : Command κ S) : Prop where
  /-- Their programs do. -/
  program : c.program.Alike c'.program
  /-- Their metadata agree under all other keys. -/
  metadata : c.metadata.Alike c'.metadata

/-- An answer without the text that names the command. -/
def CommandError.unlabelled :
    Except CommandError CommandResult → Except (Nat × CommandFailure) CommandResult :=
  Except.mapError fun err => (err.attempts, err.cause)

namespace Processor

variable {σ δ κ S : Type}

/-- The processor, with other creations. -/
def withCreations (p : Processor σ δ κ S) (creation : κ → Root S → Script S) :
    Processor σ δ κ S :=
  { p with types := fun k => { p.types k with created := creation k } }

/-- The creations of the processor are like others. -/
def CreatesLike (p : Processor σ δ κ S) (creation : κ → Root S → Script S) : Prop :=
  ∀ k r, ((p.types k).created r).Alike (creation k r)

variable [DecidableEq κ] {p : Processor σ δ κ S} {creation : κ → Root S → Script S}
  {c c' : Command κ S}

omit [DecidableEq κ] in
/-- Events that are marked alike are committed alike, by commands whose metadata are alike. -/
theorem commit_alike (p : Processor σ δ κ S) (creation : κ → Root S → Script S) {m m' : Metadata}
    (hm : m.Alike m') {pending pending' : List Pending}
    (h : List.Forall₂ Pending.Alike pending pending') (batch : Uuid) (b : Backing σ) :
    p.commit m pending batch b = (p.withCreations creation).commit m' pending' batch b := by
  unfold commit withCreations
  simp only [Batch.number_eq hm h]

/-- The programs of alike commands end alike in an attempt. -/
theorem run_alike (hread : ∀ k, (p.types k).ReadsContent) (hcreation : p.CreatesLike creation)
    (h : c.Alike c') (b : Backing σ) :
    let p' := p.withCreations creation
    let ran := c.program.run p.types p.repository UnitOfWork.empty b
    let ran' := c'.program.run p'.types p'.repository UnitOfWork.empty b
    ran.1 = ran'.1 ∧ ran.2.1.Alike ran'.2.1 ∧ ran.2.2 = ran'.2.2 :=
  h.program.run hread hcreation p.repository UnitOfWork.alike_empty b

/-- An attempt at alike commands is the same attempt. -/
theorem attempt_alike (hread : ∀ k, (p.types k).ReadsContent) (hcreation : p.CreatesLike creation)
    (h : c.Alike c') (w : Processing σ δ) :
    p.attempt c w = (p.withCreations creation).attempt c' w := by
  obtain ⟨herr, hunits, hbacking⟩ := run_alike hread hcreation h w.backing
  have hpending := hunits.takePending
  unfold attempt
  generalize c.program.run p.types p.repository UnitOfWork.empty w.backing = ran at *
  generalize c'.program.run (p.withCreations creation).types (p.withCreations creation).repository
    UnitOfWork.empty w.backing = ran' at *
  obtain ⟨err, u, b⟩ := ran
  obtain ⟨err', u', b'⟩ := ran'
  obtain rfl : err = err' := herr
  obtain rfl : b = b' := hbacking
  rcases err with _ | err
  · have hempty : u.takePending.1.isEmpty = u'.takePending.1.isEmpty := by
      rw [Bool.eq_iff_iff, List.isEmpty_iff_length_eq_zero, List.isEmpty_iff_length_eq_zero,
        hpending.length_eq]
    simp only [hempty, p.commit_alike creation h.metadata hpending]
    rfl
  · rfl

/-- Alike commands are processed alike: what they leave behind is the same, and so are their answers, but
for the text that names the command. -/
theorem processFrom_alike (hread : ∀ k, (p.types k).ReadsContent)
    (hcreation : p.CreatesLike creation) (h : c.Alike c') (bound attempts : Nat)
    (w : Processing σ δ) :
    let done := p.processFrom c bound attempts w
    let done' := (p.withCreations creation).processFrom c' bound attempts w
    CommandError.unlabelled done.1 = CommandError.unlabelled done'.1 ∧ done.2 = done'.2 := by
  have hretries : (p.withCreations creation).maxRetries = p.maxRetries := rfl
  induction bound generalizing attempts w with
  | zero =>
    unfold processFrom
    rw [← attempt_alike hread hcreation h]
    rcases p.attempt c w with ⟨_ | _ | _, w'⟩
    · exact ⟨rfl, rfl⟩
    · exact ⟨rfl, rfl⟩
    · simp only [ite_self]
      exact ⟨rfl, trivial⟩
  | succ bound ih =>
    unfold processFrom
    rw [← attempt_alike hread hcreation h]
    rcases p.attempt c w with ⟨_ | _ | _, w'⟩
    · exact ⟨rfl, rfl⟩
    · exact ⟨rfl, rfl⟩
    · simp only [hretries]
      split
      · exact ⟨rfl, rfl⟩
      · exact ih (Word32.next attempts) w'

/-- Process commands one after the other: the answers, and what is left behind. -/
def processAll (p : Processor σ δ κ S) :
    List (Command κ S) → Processing σ δ →
      List (Except CommandError CommandResult) × Processing σ δ
  | [], w => ([], w)
  | c :: rest, w =>
    let (answer, w) := p.process c w
    let (answers, w) := processAll p rest w
    (answer :: answers, w)

/-- Any number of alike commands are processed alike. -/
theorem processAll_alike (hread : ∀ k, (p.types k).ReadsContent)
    (hcreation : p.CreatesLike creation) {commands commands' : List (Command κ S)}
    (h : List.Forall₂ Command.Alike commands commands') (w : Processing σ δ) :
    let done := p.processAll commands w
    let done' := (p.withCreations creation).processAll commands' w
    done.1.map CommandError.unlabelled = done'.1.map CommandError.unlabelled ∧
      done.2 = done'.2 := by
  induction h generalizing w with
  | nil => exact ⟨rfl, rfl⟩
  | @cons c c' rest rest' hfirst _ ih =>
    obtain ⟨hanswer, hafter⟩ : CommandError.unlabelled (p.process c w).1
          = CommandError.unlabelled ((p.withCreations creation).process c' w).1 ∧
        (p.process c w).2 = ((p.withCreations creation).process c' w).2 :=
      processFrom_alike hread hcreation hfirst p.mostRetries (Word32.next 0) w
    obtain ⟨hanswers, hlast⟩ := ih (p.process c w).2
    simp only [processAll, List.map_cons]
    rw [← hafter, ← hanswer, hanswers, hlast]
    exact ⟨rfl, rfl⟩

end Processor

/-- **The keys of the library cannot be set from outside.** First, with the log, in any state that saves
have left it in and whatever other writers save in between: what a command that succeeds has committed
is what it has emitted, and whatever the events and the command have set (`Processor.Attests`), each event
carries the id and the type of the root it was emitted on, its places in the history of that root and in
the log, the id of the batch and the time of the clock; every other key has the value of the emitter, or
else the one of the command, or none. Second, with any store, if aggregates read no metadata
(`ReadsContent`): commands, and creations, that differ only in what their events and metadata say under the
keys of the library (`Command.Alike`, `Processor.CreatesLike`) leave the same behind, logs included, and are
answered the same by `processAll` but for the texts that name them (`CommandError.unlabelled`). -/
theorem Processor.reserved_metadata {δ κ S : Type} [DecidableEq κ] :
    (∀ (p : Processor SharedLog δ κ S) (c : Command κ S) (w : Processing SharedLog δ)
        (calls : List Save) (result : CommandResult), p.repository.store = SharedLog.store →
      w.backing.store.log = (Log.saveAll calls Log.empty).2 → (p.process c w).1 = .ok result →
        p.Attests c w result) ∧
    ∀ (σ : Type) (p : Processor σ δ κ S) (creation : κ → Root S → Script S)
        (commands commands' : List (Command κ S)) (w : Processing σ δ),
      (∀ k, (p.types k).ReadsContent) → p.CreatesLike creation →
      List.Forall₂ Command.Alike commands commands' →
        let done := p.processAll commands w
        let done' := (p.withCreations creation).processAll commands' w
        done.1.map CommandError.unlabelled = done'.1.map CommandError.unlabelled ∧
          done.2 = done'.2 := by
  constructor
  · intro p c w calls result hstore hcalls hresult
    have hlog : w.backing.store.log.Consistent := by
      rw [hcalls]
      exact Log.consistent_empty.saveAll calls
    exact attests hstore c hlog hresult
  · intro σ p creation commands commands' w hread hcreation h
    exact processAll_alike hread hcreation h w

namespace Sample

/-- Metadata with all keys of the library set. -/
def spoof (m : Metadata) : Metadata :=
  Metadata.Key.reserved.foldl (fun m key => m.insert key "spoofed") m

/-- An event with all keys of the library set. -/
def spoofed (e : Event) : Event := { e with metadata := spoof e.metadata }

/-- A request with all keys of the library set, by the events and by the command. -/
def Request.spoofed (r : Request) : Request :=
  { r with events := r.events.map Sample.spoofed, metadata := spoof r.metadata }

/-- Creations with all keys of the library set by the counter that is created. -/
def spoofedCreation (k : Kind) (r : Root State) : Script State :=
  match k with
  | .counter => Script.emitAll .done [spoofed (Event.new counterCreated .null)]
  | k => creation k r.id

theorem alike_spoof (m : Metadata) : m.Alike (spoof m) := by
  intro key hkey
  obtain ⟨hroot, hsequence, hposition, hbatch, htime, htype⟩ :=
    (Metadata.Key.not_mem_reserved_iff key).1 hkey
  simp [spoof, Metadata.Key.reserved, Dict.get?_insert, hroot, hsequence, hposition, hbatch, htime,
    htype]

theorem alike_spoofed (e : Event) : e.Alike (spoofed e) := ⟨rfl, alike_spoof e.metadata⟩

theorem forall₂_spoofed (events : List Event) :
    List.Forall₂ Event.Alike events (events.map spoofed) := by
  rw [List.forall₂_map_right_iff]
  exact List.forall₂_same.2 fun e _ => alike_spoofed e

/-- A spoofed request asks for the same command. -/
theorem Request.alike_command (r : Request) : r.command.Alike r.spoofed.command where
  program := by
    refine Program.Alike.single r.kind r.id fun _ _ _ => ?_
    refine Script.Alike.emitAll ?_ (forall₂_spoofed r.events)
    show (scriptEnding r.reason).Alike (scriptEnding r.reason)
    rcases r.reason with _ | text
    · exact .done
    · exact .fail _
  metadata := alike_spoof r.metadata

theorem createsLike_spoofedCreation : scribe.CreatesLike spoofedCreation := by
  intro k r
  cases k with
  | counter => exact Script.Alike.emitAll .done (.cons (alike_spoofed _) .nil)
  | account => exact .done
  | brittle =>
    show (creation .brittle r.id).Alike (creation .brittle r.id)
    simp only [creation]
    split_ifs
    · exact .fail _
    · exact .done

/-- A deposit by a clerk of a branch. -/
def clerkDeposit : Request :=
  ⟨.account, "a", "deposit",
    [(Event.new "Deposited" (deposited.encode 7)).withMetadata "clerk" "one"], none,
    (Dict.empty.insert "clerk" "none").insert "branch" "two"⟩

/-- A new counter is incremented. -/
def increment : Request :=
  ⟨.counter, "n", "count", [Event.new "Incremented" (incremented.encode 1)], none, Dict.empty⟩

end Sample

set_option maxRecDepth 10000 in
/-- A spoofed deposit that meets another deposit is attested, and it leaves the same log and the same
dispatched events behind as the honest one. -/
theorem Processor.reserved_metadata_spoofed :
    (∃ result, (Sample.scribe.process Sample.clerkDeposit.spoofed.command Sample.disputed).1
        = .ok result ∧ result.attempts = 2 ∧ result.events.length = 1 ∧
      Sample.scribe.Attests Sample.clerkDeposit.spoofed.command Sample.disputed result) ∧
    let done := Sample.scribe.processAll
      [Sample.clerkDeposit.command, Sample.increment.command] Sample.disputed
    let done' := (Sample.scribe.withCreations Sample.spoofedCreation).processAll
      [Sample.clerkDeposit.spoofed.command, Sample.increment.spoofed.command] Sample.disputed
    done.2.backing.store.log.size = 6 ∧ done.2 = done'.2 := by
  have hmetadata := @Processor.reserved_metadata (List (List Event)) Sample.Kind Sample.State _
  constructor
  · have hok : ((Sample.scribe.process Sample.clerkDeposit.spoofed.command
        Sample.disputed).1.toOption.any fun r =>
          decide (r.attempts = 2 ∧ r.events.length = 1)) = true := by decide +kernel
    rcases hresult : (Sample.scribe.process Sample.clerkDeposit.spoofed.command Sample.disputed).1
      with err | result
    · rw [hresult] at hok
      simp [Except.toOption] at hok
    · rw [hresult] at hok
      obtain ⟨hattempts, hevents⟩ := of_decide_eq_true hok
      exact ⟨result, rfl, hattempts, hevents,
        hmetadata.1 _ _ _ [Sample.deposits 0 2] result rfl rfl hresult⟩
  · have hsame := hmetadata.2 SharedLog Sample.scribe Sample.spoofedCreation
      [Sample.clerkDeposit.command, Sample.increment.command]
      [Sample.clerkDeposit.spoofed.command, Sample.increment.spoofed.command] Sample.disputed
      Sample.readsContent_aggregateType Sample.createsLike_spoofedCreation
      (.cons Sample.clerkDeposit.alike_command (.cons Sample.increment.alike_command .nil))
    exact ⟨by decide +kernel, hsame.2⟩

end Chronicle
