import Mathlib.Logic.Function.Iterate
import ApiAtlas.Proofs.References

/-!
# References mean what they stand for

To put the entries of the components in the place of references, again and again, is one way to
read a finished document. On a response whose body can be written out in full, that reading ends,
and it ends in the full text of the body.

The argument follows the full rendering (`schemaFrom_induction`). Beside it runs the rendering with
references, level by level: where that one also expands a struct, both go on with its members; where
it leaves a reference, the rendering of the component takes over. Which of the two policies is at
work then makes no difference, since no member is flattened: both refer to a struct with a name
exactly if it is exported.
-/

namespace ApiAtlas

namespace Schema

mutual

/-- The schema with each of its references replaced by the entry of its name, once. -/
def replaceRefs (entries : Keyed String Schema) : Schema → Schema
  | .ref name => (Keyed.get? name entries).getD (.ref name)
  | .array items => .array (items.replaceRefs entries)
  | .object properties => .object (replaceRefsIn entries properties)
  | .data attributes => .data attributes

/-- The properties with each reference inside them replaced once. -/
def replaceRefsIn (entries : Keyed String Schema) : List (String × Schema) → List (String × Schema)
  | [] => []
  | (name, s) :: rest => (name, s.replaceRefs entries) :: replaceRefsIn entries rest

end

/-- To replace references in `t` over and over leads to `s` and stays there. -/
def Resolves (entries : Keyed String Schema) (t s : Schema) : Prop :=
  ∃ n, ∀ m, n ≤ m → (replaceRefs entries)^[m] t = s

variable {entries : Keyed String Schema}

theorem replaceRefsIn_eq_map (properties : List (String × Schema)) :
    replaceRefsIn entries properties = properties.map fun e => (e.1, e.2.replaceRefs entries) := by
  induction properties with
  | nil => rfl
  | cons e rest ih => rw [replaceRefsIn, ih, List.map_cons]

theorem iterate_replaceRefs_array (m : Nat) (items : Schema) :
    (replaceRefs entries)^[m] (.array items) = .array ((replaceRefs entries)^[m] items) := by
  induction m generalizing items with
  | zero => rfl
  | succ m ih =>
    rw [Function.iterate_succ_apply, Function.iterate_succ_apply, replaceRefs]
    exact ih _

theorem iterate_replaceRefs_object (m : Nat) (properties : List (String × Schema)) :
    (replaceRefs entries)^[m] (.object properties)
      = .object (properties.map fun e => (e.1, (replaceRefs entries)^[m] e.2)) := by
  induction m generalizing properties with
  | zero =>
    show Schema.object properties = _
    congr 1
    exact (List.map_id' properties).symm
  | succ m ih =>
    rw [Function.iterate_succ_apply, replaceRefs, replaceRefsIn_eq_map, ih, List.map_map]
    rfl

namespace Resolves

theorem of_fixed {s : Schema} (h : s.replaceRefs entries = s) : Resolves entries s s :=
  ⟨0, fun m _ => Function.iterate_fixed h m⟩

theorem array {t s : Schema} (h : Resolves entries t s) :
    Resolves entries (.array t) (.array s) := by
  obtain ⟨n, hn⟩ := h
  refine ⟨n, fun m hm => ?_⟩
  rw [iterate_replaceRefs_array, hn m hm]

theorem nested (k : Nat) {t s : Schema} (h : Resolves entries t s) :
    Resolves entries (Schema.nested k t) (Schema.nested k s) := by
  induction k with
  | zero => exact h
  | succ k ih => exact ih.array

/-- A reference resolves as its entry does, one round later. -/
theorem ref {name : String} {t s : Schema} (hget : Keyed.get? name entries = some t)
    (h : Resolves entries t s) : Resolves entries (.ref name) s := by
  obtain ⟨n, hn⟩ := h
  refine ⟨n + 1, fun m hm => ?_⟩
  obtain ⟨m, rfl⟩ : ∃ k, m = k + 1 := ⟨m - 1, by omega⟩
  rw [Function.iterate_succ_apply, replaceRefs, hget]
  exact hn m (by omega)

/-- An object resolves once all of its properties have. -/
theorem ofProperties {pairs pairs' : List (String × Schema)}
    (h : List.Forall₂ (fun e e' => e.1 = e'.1 ∧ Resolves entries e.2 e'.2) pairs pairs') :
    Resolves entries (Schema.ofProperties pairs) (Schema.ofProperties pairs') := by
  have hall : ∃ n, ∀ m, n ≤ m →
      pairs.map (fun e => (e.1, (replaceRefs entries)^[m] e.2)) = pairs' := by
    induction h with
    | nil => exact ⟨0, fun _ _ => rfl⟩
    | cons hhead _ ih =>
      obtain ⟨hname, n, hn⟩ := hhead
      obtain ⟨n', hn'⟩ := ih
      refine ⟨max n n', fun m hm => ?_⟩
      rw [List.map_cons, hn' m (by omega), hn m (by omega), hname]
  obtain ⟨n, hn⟩ := hall
  refine ⟨n, fun m hm => ?_⟩
  rw [Schema.ofProperties, iterate_replaceRefs_object, ← Keyed.ofList_map, hn m hm]
  rfl

end Resolves

end Schema

/-- The policy refers to a struct with a name exactly if it is exported, flattened fields apart. -/
def Policy.RefersToExported (policy : Policy) : Prop :=
  ∀ d : Descriptor, d.isFlattened = false → d.name?.isSome → policy d = !d.isExported

theorem Policy.referExported_refers : Policy.referExported.RefersToExported :=
  fun _ _ _ => rfl

theorem Policy.inlineUnreferable_refers : Policy.inlineUnreferable.RefersToExported := by
  intro d hf hn
  obtain ⟨name, hn⟩ := Option.isSome_iff_exists.1 hn
  simp [Policy.inlineUnreferable, hf, hn]

namespace TypeTable

variable {T : TypeTable} {R : Registry} {policy : Policy}

/-- Where it refers to exported structs alone, a policy expands a struct or refers to it, and refers
only to exported structs with a name. -/
theorem siteSchema?_cases {d : Descriptor} {i : TypeFacts} (hi : T.Expands R d i)
    (hpolicy : d.name?.isSome → policy d = !d.isExported) :
    T.siteSchema? R policy d = .ok none ∨ ∃ name, d.name? = some name ∧ d.isExported = true
      ∧ T.siteSchema? R policy d = .ok (some (.ref name)) := by
  rw [siteSchema?_of_expands hi]
  cases hn : d.name? with
  | none => exact .inl rfl
  | some name =>
    have hp := hpolicy (by rw [hn]; rfl)
    cases hx : d.isExported with
    | false => exact .inl (by simp [hp, hx])
    | true => exact .inr ⟨name, rfl, rfl, by simp [hp, hx]⟩

end TypeTable

namespace Document

open OpenApi (Content operationAt)

variable {T : TypeTable} {doc : Document} {out : Keyed String Schema}

/-- `s` is what every schema with references for `d` resolves to. A flattened field can only be that
of a body, and there the policy does not look at it. -/
def FullSchema (T : TypeTable) (doc : Document) (out : Keyed String Schema) (d : Descriptor)
    (s : Schema) : Prop :=
  T.Reaches doc.rules (doc.roots T) d →
    ∀ policy path t, Policy.RefersToExported policy →
      d.isFlattened = false ∨ policy = Policy.referExported →
      T.schemaFrom doc.rules policy path d = .ok t → Schema.Resolves out t s

/-- An object with references resolves to the object of the members' full schemas. -/
theorem resolves_of_objectFrom {policy : Policy} {path : List TypeId} {d : Descriptor}
    {i : TypeFacts} {ms : List Descriptor} {pairs : List (String × Schema)} {t : Schema}
    (hpolicy : policy.RefersToExported) (hd : T.Reaches doc.rules (doc.roots T) d)
    (hi : TypeTable.enterable? doc.rules d = some i) (hms : T.members d = .ok ms)
    (hall : TypeTable.PropertiesOf (FullSchema T doc out) ms pairs)
    (ht : T.objectFrom doc.rules policy path d = .ok t) :
    Schema.Resolves out t (Schema.ofProperties pairs) := by
  obtain ⟨j, ms', pairs', hj, _, hms', rfl, hall'⟩ := TypeTable.objectFrom_eq_ok ht
  rw [hms] at hms'
  cases hms'
  clear ht
  refine Schema.Resolves.ofProperties ?_
  unfold TypeTable.PropertiesOf at hall hall'
  have hmem : ∀ m ∈ TypeTable.serialized ms, m ∈ ms := fun m hm => (List.mem_filter.1 hm).1
  -- both lists of properties go along the same members
  generalize TypeTable.serialized ms = named at hall hall' hmem
  induction hall' generalizing pairs with
  | nil => cases hall; exact .nil
  | cons hhead' _ ih =>
    cases hall with
    | cons hhead hall =>
      have hm := hmem _ List.mem_cons_self
      obtain ⟨hname, hfull⟩ := hhead
      obtain ⟨hname', hschema'⟩ := hhead'
      refine .cons ⟨?_, ?_⟩ (ih hall fun m hm => hmem m (List.mem_cons_of_mem _ hm))
      · exact Option.some.inj (hname'.symm.trans hname)
      · have hreach := hd.step (TypeTable.step_of_enterable? hi hms hm)
        have hflat := (TypeTable.isMember_of_mem hms hm).isFlattened
        exact hfull hreach policy _ _ hpolicy (.inl hflat) hschema'

/-- **A rendering with references resolves to the full rendering.** -/
theorem fullSchema_of_schemaFrom (hout : Document.schemas T doc = .ok out) {path : List TypeId}
    {d : Descriptor} {s : Schema}
    (hs : T.schemaFrom doc.rules Policy.inlineAll path d = .ok s) : FullSchema T doc out d s := by
  refine TypeTable.schemaFrom_induction (P := FullSchema T doc out) ?_ ?_ hs
  · intro d u hu hd policy path' t hpolicy _ ht
    -- a full rendering is finished only where there is nothing to expand
    have hno : ∀ i, ¬ T.Expands doc.rules (T.peelArrays doc.rules d).2 i := by
      intro i hi
      rw [TypeTable.siteSchema?_of_expands hi] at hu
      obtain ⟨name, _, hname⟩ := Option.bind_eq_some_iff.1 (Except.ok.inj hu)
      cases hname
    obtain ⟨u', hu', hplain, hsame⟩ := TypeTable.siteSchema?_of_not_expands hno hu
    cases hu'
    rw [TypeTable.schemaFrom_of_finished (hsame policy)] at ht
    cases ht
    refine Schema.Resolves.nested _ ?_
    rcases hplain with ⟨a, rfl⟩ | rfl
    · exact Schema.Resolves.of_fixed rfl
    · exact Schema.Resolves.of_fixed rfl
  · intro d ms pairs hnone hms hall hd policy path' t hpolicy hflat ht
    obtain ⟨i, hi⟩ := TypeTable.expands_of_unfinished hnone
    have hb : T.Reaches doc.rules (doc.roots T) (T.peelArrays doc.rules d).2 :=
      hd.behind (TypeTable.behind_of_peel _ d)
    have hrefers : (T.peelArrays doc.rules d).2.name?.isSome →
        policy (T.peelArrays doc.rules d).2 = !(T.peelArrays doc.rules d).2.isExported := by
      rcases hflat with hflat | rfl
      · exact hpolicy _ (TypeTable.isFlattened_peel hflat doc.rules.hasTypeRule)
      · exact fun _ => rfl
    rcases TypeTable.siteSchema?_cases hi hrefers with hsite | ⟨name, hn, hx, hsite⟩
    -- both expand the struct, and go on with its members
    · rw [TypeTable.schemaFrom_of_unfinished hsite] at ht
      obtain ⟨u, hu, rfl⟩ := map_eq_ok.1 ht
      exact (resolves_of_objectFrom hpolicy hb hi.1 hms hall hu).nested _
    -- a reference is left, and the component takes over
    · rw [TypeTable.schemaFrom_of_finished hsite] at ht
      cases ht
      obtain ⟨object, hget, hobject⟩ := component_of_reaches hout hb hi.1 hn hx
      have hentry := resolves_of_objectFrom Policy.inlineUnreferable_refers hb hi.1 hms hall hobject
      exact (Schema.Resolves.ref hget hentry).nested _

/-- **References mean what they stand for.** Take a response of a finished document whose body can
be rendered with everything expanded. The document holds its schema with references; to replace
these by their entries, over and over, ends with the expanded schema, which has none left. -/
theorem references_unfold {out : OpenApi.Document} (h : assemble T doc = .ok out) {op : Operation}
    (hop : op ∈ doc.operations) {r : Response} (hr : r ∈ op.responses T) {s : Schema}
    (hs : T.schemaOf doc.rules Policy.inlineAll (T.view r.body) = .ok s) :
    ∃ object response content, operationAt out.paths op.template op.method = some object
      ∧ (r.code.text, response) ∈ object.responses ∧ response.content = some content
      ∧ T.schemaOf doc.rules Policy.referExported (T.view r.body) = .ok content.schema
      ∧ s.RefFree
      ∧ ∃ n, ∀ m, n ≤ m → (Schema.replaceRefs out.schemas)^[m] content.schema = s := by
  obtain ⟨hpaths, hschemas⟩ := assemble_eq_ok h
  obtain ⟨object, hobject⟩ := exists_operationObject hpaths hop
  obtain ⟨response, content, hmem, hcontent, hschema⟩ :=
    exists_content_of_response hobject hr (TypeTable.isEmpty_of_schemaFrom hs)
  have hat := (operationAt_paths hpaths).2 ⟨op, hop, rfl, hobject⟩
  have hroot : T.Reaches doc.rules (doc.roots T) (T.view r.body) :=
    .root (mem_roots.2 ⟨op, hop, r, hr, rfl⟩)
  refine ⟨object, response, content, hat, hmem, hcontent, hschema, refFree_of_schemaOf hs, ?_⟩
  exact fullSchema_of_schemaFrom hschemas hs hroot _ _ _ Policy.referExported_refers (.inr rfl) hschema

/-- A session with a reference to its device unfolds to one with the device written out. -/
theorem references_unfold_document : ∃ out object response content,
    assemble Example.table Example.document = .ok out
      ∧ operationAt out.paths Example.operation.template .get = some object
      ∧ ("200", response) ∈ object.responses ∧ response.content = some content
      ∧ ∃ n, ∀ m, n ≤ m → (Schema.replaceRefs out.schemas)^[m] content.schema
        = .object [("device", .object [("model", Example.text)])] := by
  obtain ⟨out, hout, _⟩ := Example.document_assembles
  have hr : ⟨.status 200, "ok response", .of (.named "Session")⟩
      ∈ Example.operation.responses Example.table := by
    rw [Example.responses_operation]
    exact List.mem_cons_self
  have hdevice : Example.table.schemaFrom Example.document.rules Policy.inlineAll [.named "Session"]
      Example.device = .ok (.object [("model", Example.text)]) := by
    have hsite : Example.table.siteSchema? Example.document.rules Policy.inlineAll
        (Example.table.peelArrays Example.document.rules Example.device).2 = .ok none := by
      rw [Example.peelArrays_device, TypeTable.siteSchema?_of_expands Example.expands_device]
      simp [Example.name?_device, Policy.inlineAll]
    rw [TypeTable.schemaFrom_of_unfinished hsite, Example.peelArrays_device,
      Example.objectFrom_device _ (by decide)]
    rfl
  obtain ⟨object, response, content, hat, hmem, hcontent, _, _, hunfold⟩ :=
    references_unfold hout (List.mem_singleton_self Example.operation) hr
      (Example.schemaOf_session rfl hdevice)
  exact ⟨out, object, response, content, hout, hat, hmem, hcontent, hunfold⟩

end Document

end ApiAtlas
