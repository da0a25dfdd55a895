import ApiAtlas.Proofs.Assembly
import ApiAtlas.Proofs.Derivation

/-!
# Where errors come from

An error of a walk or a rendering has a site: a struct that is met on its own path, a flattened
field, a field without a type, or the type at one place of a schema. So has the lack of an outcome: a
field whose type cannot be described, or slices without a bottom. `FailureSites` lists these sites
with what each may fail with, and every function that goes through a table fails only as its sites
do. Which descriptors a rendering comes by is left open: a predicate on descriptors that holds of all
members says so. Whatever the sites are, their errors speak of types and fields, if of anything
(`failureSites_of_rendering`).

The functions above them add one cause each: a walk for components two types of one name, the
responses of an operation a code that is there twice, the paths of a document a slot that is taken.
-/

namespace ApiAtlas

/-- The error is one of a walk or a rendering: it speaks of types and fields, or there is no outcome
to speak of. -/
def Error.IsOfRendering : Error → Prop
  | .noRule _ _ | .defect _ | .endlessType _ | .flattenedNonStruct _ _ | .noEnd => True
  | .nameClash _ _ _ | .repeatedOperation _ _ | .repeatedResponse _ _ | .notWritten _ => False

namespace TypeTable

variable {T : TypeTable} {R : Registry} {P : Error → Prop}

/-! ## Walks -/

/-- A walk through flattened fields fails where a type is met again, a flattened field is no struct
or a visible field has no type, or none that can be described. -/
theorem failsOnly_walk (endless : ∀ name, P (.endlessType name))
    (nonStruct : ∀ field name, P (.flattenedNonStruct field name))
    (untyped : ∀ id, ∀ f ∈ T.fields id, f.isVisible = true → f.type = none → ∀ owner,
      P (.defect (.untypedField f.label owner)))
    (circular : ∀ id, ∀ f ∈ T.fields id, ∀ t, f.type = some t → T.isCircular t = true →
      P .noEnd) :
    (∀ (path : List TypeId) (d : Descriptor), (d.facts = none → P (.defect .walkOfEmpty)) →
        FailsOnly P (T.membersFrom path d))
      ∧ (∀ (path : List TypeId) (owner : String) (fields : List Field),
        (∀ f ∈ fields, ∃ id, f ∈ T.fields id) → FailsOnly P (T.membersOf path owner fields)) := by
  refine membersFrom.mutual_induct T
    (fun path d => (d.facts = none → P (.defect .walkOfEmpty)) → FailsOnly P (T.membersFrom path d))
    (fun path owner fields =>
      (∀ f ∈ fields, ∃ id, f ∈ T.fields id) → FailsOnly P (T.membersOf path owner fields))
    ?empty ?met ?enter ?nil ?hidden ?untyped ?circular ?plain ?nonStruct ?flattened
  case empty =>
    intro path d hd hempty
    rw [membersFrom, hd]
    exact .error (hempty hd)
  case met =>
    intro path d i hd hp _
    rw [membersFrom, hd]
    simp only [if_pos hp]
    exact .error (endless _)
  case enter =>
    intro path d i hd hp ih _
    rw [membersFrom, hd]
    simp only [if_neg hp]
    exact ih fun f hf => ⟨i.id, hf⟩
  case nil =>
    intro path owner _
    rw [membersOf]
    exact .ok _
  case hidden =>
    intro path owner f rest hv ih hfields
    rw [membersOf, if_pos hv]
    exact ih fun g hg => hfields g (List.mem_cons_of_mem _ hg)
  case untyped =>
    intro path owner f rest hv ht hfields
    rw [membersOf, if_neg hv, ht]
    obtain ⟨id, hid⟩ := hfields f List.mem_cons_self
    exact .error (untyped id f hid (by simpa using hv) ht owner)
  case circular =>
    intro path owner f rest hv t ht hc hfields
    rw [membersOf, if_neg hv, ht]
    simp only [if_pos hc]
    obtain ⟨id, hid⟩ := hfields f List.mem_cons_self
    exact .error (circular id f hid t ht hc)
  case plain =>
    intro path owner f rest hv t ht hc hf ih hfields
    rw [membersOf, if_neg hv, ht]
    simp only [if_neg hc, if_pos hf]
    have hrest := ih fun g hg => hfields g (List.mem_cons_of_mem _ hg)
    exact hrest.bind fun _ _ => .ok _
  case nonStruct =>
    intro path owner f rest hv t ht d hc hf hk _
    rw [membersOf, if_neg hv, ht]
    simp only [if_neg hc, if_neg hf, d, if_pos hk]
    exact .error (nonStruct _ _)
  case flattened =>
    intro path owner f rest hv t ht d hc hf hk ihHere ihLater hfields
    rw [membersOf, if_neg hv, ht]
    simp only [if_neg hc, if_neg hf, d, if_neg hk]
    have hhere : FailsOnly P (T.membersFrom path d) := by
      refine ihHere fun hempty => ?_
      simp [Descriptor.hasKind, Descriptor.kind?, hempty] at hk
    have hrest := ihLater fun g hg => hfields g (List.mem_cons_of_mem _ hg)
    exact hhere.bind fun _ _ => hrest.bind fun _ _ => .ok _

/-! ## Renderings -/

theorem rule?_isSome_of_hasTypeRule {d : Descriptor} (h : R.hasTypeRule d = true) :
    (R.rule? d).isSome := by
  unfold Registry.hasTypeRule at h
  unfold Registry.rule?
  cases hi : d.facts with
  | none => rw [hi] at h; cases h
  | some i =>
    simp only [hi] at h
    obtain ⟨r, hr⟩ := Option.isSome_iff_exists.1 h
    simp [hr]

/-- What the type at one place may fail with. -/
theorem failsOnly_siteSchema? {policy : Policy} {d : Descriptor}
    (empty : d.facts = none → P (.defect .renderOfEmpty))
    (noRule : ∀ i, d.facts = some i → i.kind ≠ .struct → i.kind ≠ .slice → R.rule? d = none →
      P (.noRule i.kind i.fullName))
    (endless : T.leadsOn R.hasTypeRule d = true → P .noEnd)
    (noElement : ∀ i, d.facts = some i → i.kind = .slice → T.element? i.id = none →
      P (.defect (.sliceWithoutElement i.fullName))) :
    FailsOnly P (T.siteSchema? R policy d) := by
  unfold siteSchema?
  cases hi : d.facts with
  | none => exact .error (empty hi)
  | some i =>
    dsimp only
    have hdata : (R.rule? d = none → P (.noRule i.kind i.fullName)) →
        FailsOnly P ((R.dataSchema T d).map some) := by
      intro h
      unfold Registry.dataSchema Registry.attributesOf
      simp only [hi]
      cases hr : R.rule? d with
      | none => exact .error (h hr)
      | some r => exact .ok _
    by_cases hrule : R.hasTypeRule d = true
    · rw [if_pos hrule]
      refine hdata fun hnone => ?_
      have hsome := rule?_isSome_of_hasTypeRule hrule
      rw [hnone] at hsome
      cases hsome
    · rw [if_neg hrule]
      cases hk : i.kind with
      | slice =>
        dsimp only
        cases he : T.element? i.id with
        | none => exact .error (noElement i hi hk he)
        | some item =>
          have ho : opens R.hasTypeRule d = true := by
            simp [opens, (hasKind_iff hi).2 hk, hrule]
          exact .error (endless ((leadsOn_iff hi).2 ⟨ho, item, he⟩))
      | struct =>
        dsimp only
        split
        · exact .ok _
        · split
          · split
            · exact .ok _
            · exact .ok _
          · exact .ok _
      | _ =>
        refine hdata fun hnone => noRule i hi ?_ ?_ hnone
        · rw [hk]; decide
        · rw [hk]; decide

/-- The sites at which renderings can fail, in a table and under a registry, and what they may fail
with. The renderings are those of descriptors of which `I` holds. -/
structure FailureSites (T : TypeTable) (R : Registry) (I : Descriptor → Prop)
    (P : Error → Prop) : Prop where
  /-- Renderings go on with members. -/
  member : ∀ d ms, T.members d = .ok ms → ∀ m ∈ ms, I m
  /-- A struct was met again. -/
  endless : ∀ name, P (.endlessType name)
  /-- A walk for components came to slices without a bottom. -/
  bottomless : ∀ d, T.Describes d → T.isBottomless d = true → P .noEnd
  /-- The members of a type. -/
  walk : ∀ d i, d.facts = some i → FailsOnly P (T.members d)
  /-- The type at one place, once the arrays around it are gone. -/
  site : ∀ d policy, I d → FailsOnly P (T.siteSchema? R policy (T.peelArrays R d).2)

variable {I : Descriptor → Prop} {policy : Policy}

/-- A rendering and an expansion fail only as their sites do. -/
theorem FailureSites.rendering (h : FailureSites T R I P) :
    (∀ (path : List TypeId) (d : Descriptor), I d → FailsOnly P (T.schemaFrom R policy path d))
      ∧ (∀ (path : List TypeId) (d : Descriptor), d.facts ≠ none →
        FailsOnly P (T.objectFrom R policy path d))
      ∧ (∀ (path : List TypeId) (ms : List Descriptor), (∀ m ∈ ms, I m) →
        FailsOnly P (T.propertiesFrom R policy path ms)) := by
  refine schemaFrom.mutual_induct T R policy
    (fun path d => I d → FailsOnly P (T.schemaFrom R policy path d))
    (fun path d => d.facts ≠ none → FailsOnly P (T.objectFrom R policy path d))
    (fun path ms => (∀ m ∈ ms, I m) → FailsOnly P (T.propertiesFrom R policy path ms))
    ?error ?finished ?expanded ?empty ?met ?stuck ?enter ?nil ?unnamed ?named
  case error =>
    intro path d n b hb e he hd
    have hsite := h.site d policy hd
    rw [hb, he] at hsite
    rw [schemaFrom]
    simp only [hb, he]
    exact .error (hsite _ rfl)
  case finished =>
    intro path d n b hb t ht _
    rw [schemaFrom]
    simp only [hb, ht]
    exact .ok _
  case expanded =>
    intro path d n b hb hnone ih _
    rw [schemaFrom]
    simp only [hb, hnone]
    refine FailsOnly.map (ih ?_)
    obtain ⟨i, hi, _⟩ := expands_of_unfinished hnone
    rw [facts_of_enterable? hi]
    exact Option.some_ne_none i
  case empty =>
    intro path d hd hne
    exact absurd hd hne
  case met =>
    intro path d i hi hp _
    rw [objectFrom_of_met hi hp]
    exact .error (h.endless _)
  case stuck =>
    intro path d i hi hp e he _
    rw [objectFrom_eq hi hp, he]
    exact .error (h.walk d i hi e he)
  case enter =>
    intro path d i hi hp ms hms ih _
    rw [objectFrom_eq hi hp, hms]
    exact (ih fun m hm => h.member d ms hms m hm).map
  case nil =>
    intro path _
    rw [propertiesFrom]
    exact .ok _
  case unnamed =>
    intro path d rest hd ih hms
    rw [propertiesFrom]
    simp only [hd]
    exact ih fun m hm => hms m (List.mem_cons_of_mem _ hm)
  case named =>
    intro path d rest name hd ihHere ihLater hms
    rw [propertiesFrom]
    simp only [hd]
    have hlater := ihLater fun m hm => hms m (List.mem_cons_of_mem _ hm)
    exact (ihHere (hms d List.mem_cons_self)).bind fun _ _ => hlater.bind fun _ _ => .ok _

theorem FailureSites.schemaOf (h : FailureSites T R I P) {d : Descriptor} (hd : I d) :
    FailsOnly P (T.schemaOf R policy d) :=
  h.rendering.1 [] d hd

theorem FailureSites.objectOf (h : FailureSites T R I P) {d : Descriptor} (hd : d.facts ≠ none) :
    FailsOnly P (T.objectOf R policy d) :=
  h.rendering.2.1 [] d hd

/-- Walks and renderings end in no other errors than these, whatever the table and the rules are. -/
theorem failureSites_of_rendering (T : TypeTable) (R : Registry)
    (h : ∀ e : Error, e.IsOfRendering → P e) : FailureSites T R (fun _ => True) P where
  member := fun _ _ _ _ _ => trivial
  endless := fun _ => h _ trivial
  bottomless := fun _ _ _ => h _ trivial
  walk := fun d i hi => by
    refine (failsOnly_walk (fun _ => h _ trivial) (fun _ _ => h _ trivial)
      (fun _ _ _ _ _ _ => h _ trivial) (fun _ _ _ _ _ _ => h _ trivial)).1 [] d fun hnone => ?_
    rw [hi] at hnone
    cases hnone
  site := fun _ _ _ => failsOnly_siteSchema? (fun _ => h _ trivial) (fun _ _ _ _ _ => h _ trivial)
    (fun _ => h _ trivial) (fun _ _ _ _ => h _ trivial)

/-! ## Components -/

theorem FailureSites.discoverFrom (h : FailureSites T R I P) (visited : List TypeId)
    (pending : List Descriptor) (hp : ∀ d ∈ pending, T.Describes d) :
    FailsOnly P (T.discoverFrom R visited pending) := by
  revert hp
  refine discoverFrom.induct_unfolding T R
    (fun _ pending result => (∀ d ∈ pending, T.Describes d) → FailsOnly P result)
    ?nil ?bottomless ?pass ?met ?stuck ?enter visited pending
  case nil =>
    intro _ _
    exact .ok _
  case bottomless =>
    intro _ d rest hb hp
    exact .error (h.bottomless d (hp d List.mem_cons_self) hb)
  case pass =>
    intro _ d rest _ _ ih hp
    exact ih fun d hd => hp d (List.mem_cons_of_mem _ hd)
  case met =>
    intro _ d rest _ _ _ _ ih hp
    exact ih fun d hd => hp d (List.mem_cons_of_mem _ hd)
  case stuck =>
    intro _ d rest _ i hi _ e he _
    exact .error (h.walk _ i (facts_of_enterable? hi) e he)
  case enter =>
    intro _ d rest _ _ _ _ ms hms ih hp
    have hlater := ih fun m hm => by
      rcases List.mem_append.1 hm with hm | hm
      · exact (isMember_of_mem hms hm).describes
      · exact hp m (List.mem_cons_of_mem _ hm)
    exact hlater.bind fun _ _ => .ok _

theorem exists_nameClash_of_collision? {ds : List Descriptor} {e : Error}
    (h : collision? ds = some e) : ∃ name first second, e = .nameClash name first second := by
  induction ds with
  | nil => cases h
  | cons a rest ih =>
    cases rest with
    | nil => cases h
    | cons b rest =>
      rw [collision?] at h
      split at h
      · cases h
        exact ⟨_, _, _, rfl⟩
      · exact ih h

theorem FailureSites.components (h : FailureSites T R I P) {roots : List Descriptor}
    (hroots : ∀ r ∈ roots, T.Describes r)
    (clash : ∀ name first second, P (.nameClash name first second)) :
    FailsOnly P (T.components R roots) := by
  rw [components_eq]
  refine (h.discoverFrom [] roots hroots).bind fun found _ => ?_
  cases hc : collision? (byName found) with
  | none => exact .ok _
  | some e =>
    obtain ⟨name, first, second, rfl⟩ := exists_nameClash_of_collision? hc
    exact .error (clash _ _ _)

end TypeTable

namespace Document

open OpenApi (OperationObject PathItem ResponseObject)

variable {T : TypeTable} {doc : Document} {I : Descriptor → Prop} {P : Error → Prop}

/-- The types of an operation, as far as they are types at all, are among those of which `I`
holds. -/
def Renders (T : TypeTable) (I : Descriptor → Prop) (op : Operation) : Prop :=
  ((T.view op.params).isEmpty = false → I (T.view op.params))
    ∧ ∀ r ∈ op.responses T, (T.view r.body).isEmpty = false → I (T.view r.body)

variable (h : TypeTable.FailureSites T doc.rules I P)

include h

theorem failsOnly_requestBody {op : Operation} (hop : Renders T I op) :
    FailsOnly P (requestBody T doc op) := by
  unfold requestBody
  split
  next hbody =>
    have hparams : (T.view op.params).isEmpty = false := by
      simp only [Operation.hasRequestBody, Bool.and_eq_true, Bool.not_eq_true'] at hbody
      exact hbody.2
    exact (h.schemaOf (hop.1 hparams)).bind fun _ _ => .ok _
  next => exact .ok _

theorem failsOnly_responseObject {r : Response}
    (hr : (T.view r.body).isEmpty = false → I (T.view r.body)) :
    FailsOnly P (responseObject T doc r) := by
  unfold responseObject
  dsimp only
  split
  next => exact .ok _
  next hbody => exact (h.schemaOf (hr (by simpa using hbody))).bind fun _ _ => .ok _

theorem failsOnly_responseObjects (repeated : ∀ code id, P (.repeatedResponse code id))
    {id : String} {done : Keyed String ResponseObject} {rs : List Response}
    (hrs : ∀ r ∈ rs, (T.view r.body).isEmpty = false → I (T.view r.body)) :
    FailsOnly P (responseObjects T doc id done rs) := by
  induction rs generalizing done with
  | nil =>
    rw [responseObjects]
    exact .ok _
  | cons r rest ih =>
    rw [responseObjects]
    refine (failsOnly_responseObject h (hrs r List.mem_cons_self)).bind fun object _ => ?_
    split
    · exact .error (repeated _ _)
    · exact ih fun r hr => hrs r (List.mem_cons_of_mem _ hr)

theorem failsOnly_parameters (op : Operation) : FailsOnly P (parameters T doc op) := by
  have hof : ∀ ds : List Descriptor, (∀ d ∈ ds, I d) → FailsOnly P (parametersOf T doc ds) := by
    intro ds hds
    induction ds with
    | nil =>
      rw [parametersOf]
      exact .ok _
    | cons d rest ih =>
      have hrest := ih fun d hd => hds d (List.mem_cons_of_mem _ hd)
      rw [parametersOf]
      split
      · exact hrest
      · exact (h.schemaOf (hds d List.mem_cons_self)).bind fun _ _ => hrest.bind fun _ _ => .ok _
  unfold parameters
  dsimp only
  split
  next hk =>
    simp only [Bool.and_eq_true] at hk
    obtain ⟨i, hi, _⟩ := TypeTable.exists_facts_of_hasKind hk.1
    exact (h.walk _ i hi).bind fun ms hms => hof ms fun m hm => h.member _ ms hms m hm
  next => exact .ok _

theorem failsOnly_operationObject (repeated : ∀ code id, P (.repeatedResponse code id))
    {op : Operation} (hop : Renders T I op) : FailsOnly P (operationObject T doc op) :=
  (failsOnly_requestBody h hop).bind fun _ _ =>
    (failsOnly_responseObjects h repeated hop.2).bind fun _ _ =>
      (failsOnly_parameters h op).bind fun _ _ => .ok _

theorem failsOnly_pathsFrom (response : ∀ code id, P (.repeatedResponse code id))
    (operation : ∀ m path, P (.repeatedOperation m path)) {start : SortedMap PathItem}
    {ops : List Operation} (hops : ∀ op ∈ ops, Renders T I op) :
    FailsOnly P (pathsFrom T doc start ops) := by
  induction ops generalizing start with
  | nil =>
    rw [pathsFrom]
    exact .ok _
  | cons op rest ih =>
    rw [pathsFrom]
    refine (failsOnly_operationObject h response (hops op List.mem_cons_self)).bind fun _ _ => ?_
    dsimp only
    split
    · exact .error (operation _ _)
    · exact ih fun op hop => hops op (List.mem_cons_of_mem _ hop)

theorem failsOnly_schemas (clash : ∀ name first second, P (.nameClash name first second)) :
    FailsOnly P (schemas T doc) := by
  have hof : ∀ cs : List Descriptor, FailsOnly P (schemasOf T doc cs) := by
    intro cs
    induction cs with
    | nil =>
      rw [schemasOf]
      exact .ok _
    | cons c rest ih =>
      rw [schemasOf]
      split
      · exact ih
      next name hname =>
        have hfacts : c.facts ≠ none := by
          intro hnone
          simp [Descriptor.name?, hnone] at hname
        exact (h.objectOf hfacts).bind fun _ _ => ih.bind fun _ _ => .ok _
  exact (h.components (describes_roots T doc) clash).bind fun cs _ => (hof cs).bind fun _ _ => .ok _

end Document

end ApiAtlas
