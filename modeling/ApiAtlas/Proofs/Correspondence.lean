import ApiAtlas.Proofs.ComponentSet
import ApiAtlas.Proofs.Derivation
import ApiAtlas.Proofs.SchemaMaps

/-!
# Tables that give the same schemas

Two tables correspond if they describe every type alike and the visible fields of every struct match,
one by one, in order. Fields match if descriptors that are reached through them are related; what the
relation lets differ is what nothing but a rule looks at. A walk through one table then meets related
descriptors wherever a walk through the other one does, and a rendering that fails, fails in both for
the same reason. The schemas are the same but for attributes, and there they differ by no more than a
rule can tell related descriptors, and the two tables, apart.

The proofs follow the recursion of the walks and renderings of the first table; each step of the
second is the same one, as it depends on the facts of a descriptor only.
-/

namespace ApiAtlas

/-- Related descriptors are of one type, with one property name and the same tags. -/
structure Similarity (D : Descriptor → Descriptor → Prop) : Prop where
  refl : ∀ d, D d d
  facts : ∀ {d e}, D d e → d.facts = e.facts
  propertyName : ∀ {d e}, D d e → d.propertyName = e.propertyName
  isFlattened : ∀ {d e}, D d e → d.isFlattened = e.isFlattened
  tag : ∀ {d e}, D d e → ∀ key, d.tag key = e.tag key

/-- The policy decides alike on related descriptors. -/
def Policy.Respects (policy : Policy) (D : Descriptor → Descriptor → Prop) : Prop :=
  ∀ {d e}, D d e → policy d = policy e

section Provided

variable {D : Descriptor → Descriptor → Prop} (h : Similarity D)

include h

theorem Similarity.isExported {d e : Descriptor} (hD : D d e) : d.isExported = e.isExported := by
  rw [Descriptor.isExported, Descriptor.isExported, h.facts hD]

theorem Policy.respects_referExported : Policy.referExported.Respects D := fun hD => by
  rw [referExported, referExported, h.isExported hD]

theorem Policy.respects_inlineUnreferable : Policy.inlineUnreferable.Respects D := fun hD => by
  rw [inlineUnreferable, inlineUnreferable, TypeTable.name?_congr (h.facts hD), h.isFlattened hD,
    h.isExported hD]

end Provided

theorem Policy.respects_inlineAll {D : Descriptor → Descriptor → Prop} :
    Policy.inlineAll.Respects D := fun _ => rfl

/-- What the rules write over the two tables for related descriptors has the same image under `g`. -/
def Registry.Respects (R : Registry) (D : Descriptor → Descriptor → Prop) (T T' : TypeTable)
    (g : Attributes → Attributes) : Prop :=
  ∀ {d e r}, D d e → R.rule? d = some r → g (r.run T d) = g (r.run T' e)

namespace TypeTable

/-- The fields are alike, and descriptors that are reached through them are related. -/
structure FieldsMatch (D : Descriptor → Descriptor → Prop) (T T' : TypeTable) (f f' : Field) :
    Prop where
  visible : f'.isVisible = true
  label : f.label = f'.label
  flattened : f.flattened = f'.flattened
  type : Option.Rel (fun t t' => T'.isCircular t' = T.isCircular t
    ∧ D ((T.describe t).through f) ((T'.describe t').through f')) f.type f'.type

/-- The tables describe every type alike, up to fields that nobody sees and what `D` lets differ. -/
structure Corresponds (D : Descriptor → Descriptor → Prop) (T T' : TypeTable) : Prop where
  similar : Similarity D
  describe : ∀ t, T'.describe t = T.describe t
  element? : ∀ t, T'.element? t = T.element? t
  isCircular : ∀ t, T'.isCircular t = T.isCircular t
  keys : ∀ key, key ∈ T'.keys ↔ key ∈ T.keys
  fields_eq_nil : ∀ id, T'.fields id = [] ↔ T.fields id = []
  fields : ∀ id, List.Forall₂ (FieldsMatch D T T') ((T.fields id).filter (·.isVisible))
    ((T'.fields id).filter (·.isVisible))

variable {D : Descriptor → Descriptor → Prop} {T T' : TypeTable} {R : Registry}

/-! ## Walks through flattened fields -/

/-- A field that nobody sees is passed over. -/
theorem membersOf_filter (path : List TypeId) (owner : String) (fields : List Field) :
    T.membersOf path owner (fields.filter (·.isVisible)) = T.membersOf path owner fields := by
  induction fields with
  | nil => rfl
  | cons f rest ih =>
    cases hv : f.isVisible with
    | false =>
      rw [List.filter_cons_of_neg (by simp [hv]), ih, membersOf, if_pos (by simp [hv])]
    | true =>
      rw [List.filter_cons_of_pos hv, membersOf, membersOf]
      simp only [hv, ih]

theorem FieldsMatch.type_eq_none {f f' : Field} (h : FieldsMatch D T T' f f') (ht : f.type = none) :
    f'.type = none := by
  have htype := h.type
  rw [ht] at htype
  cases hf : f'.type with
  | none => rfl
  | some t' =>
    rw [hf] at htype
    cases htype

theorem FieldsMatch.exists_type {f f' : Field} {t : TypeExpr} (h : FieldsMatch D T T' f f')
    (ht : f.type = some t) :
    ∃ t', f'.type = some t' ∧ T'.isCircular t' = T.isCircular t
      ∧ D ((T.describe t).through f) ((T'.describe t').through f') := by
  have htype := h.type
  rw [ht] at htype
  cases hf : f'.type with
  | none =>
    rw [hf] at htype
    cases htype
  | some t' =>
    rw [hf] at htype
    cases htype with
    | some hD => exact ⟨t', rfl, hD.1, hD.2⟩

namespace Corresponds

/-- Both walks meet related members, or stop with the same error. -/
theorem walk (h : Corresponds D T T') :
    (∀ (path : List TypeId) (d : Descriptor) (e : Descriptor), d.facts = e.facts →
        Agree (List.Forall₂ D) (T.membersFrom path d) (T'.membersFrom path e))
      ∧ (∀ (path : List TypeId) (owner : String) (fields : List Field) (fields' : List Field),
        List.Forall₂ (FieldsMatch D T T') (fields.filter (·.isVisible)) fields' →
        Agree (List.Forall₂ D) (T.membersOf path owner fields)
          (T'.membersOf path owner fields')) := by
  refine membersFrom.mutual_induct T
    (fun path d => ∀ e, d.facts = e.facts →
      Agree (List.Forall₂ D) (T.membersFrom path d) (T'.membersFrom path e))
    (fun path owner fields => ∀ fields',
      List.Forall₂ (FieldsMatch D T T') (fields.filter (·.isVisible)) fields' →
      Agree (List.Forall₂ D) (T.membersOf path owner fields) (T'.membersOf path owner fields'))
    ?empty ?met ?enter ?nil ?hidden ?untyped ?circular ?plain ?nonStruct ?flattened
  case empty =>
    intro path d hd e he
    rw [membersFrom, membersFrom, ← he, hd]
    exact .error _
  case met =>
    intro path d i hd hp e he
    rw [membersFrom, membersFrom, ← he, hd]
    simp only [if_pos hp]
    exact .error _
  case enter =>
    intro path d i hd hp ih e he
    rw [membersFrom, membersFrom, ← he, hd]
    simp only [if_neg hp]
    rw [← membersOf_filter (T := T')]
    exact ih _ (h.fields i.id)
  case nil =>
    intro path owner fields' hfields
    cases hfields
    rw [membersOf, membersOf]
    exact .ok .nil
  case hidden =>
    intro path owner f rest hv ih fields' hfields
    rw [membersOf, if_pos hv]
    rw [List.filter_cons_of_neg (by simpa using hv)] at hfields
    exact ih fields' hfields
  case untyped =>
    intro path owner f rest hv ht fields' hfields
    rw [List.filter_cons_of_pos (by simpa using hv)] at hfields
    obtain ⟨f', rest', hf, _, rfl⟩ := List.forall₂_cons_left_iff.1 hfields
    rw [membersOf, if_neg hv, ht, membersOf, if_neg (by simp [hf.visible]), hf.type_eq_none ht,
      hf.label]
    exact .error _
  case circular =>
    intro path owner f rest hv t ht hc fields' hfields
    rw [List.filter_cons_of_pos (by simpa using hv)] at hfields
    obtain ⟨f', rest', hf, hrest, rfl⟩ := List.forall₂_cons_left_iff.1 hfields
    obtain ⟨t', ht', hc', _⟩ := hf.exists_type ht
    rw [membersOf, if_neg hv, ht, membersOf, if_neg (by simp [hf.visible]), ht']
    simp only [hc', if_pos hc]
    exact .error _
  case plain =>
    intro path owner f rest hv t ht hc hflat ih fields' hfields
    rw [List.filter_cons_of_pos (by simpa using hv)] at hfields
    obtain ⟨f', rest', hf, hrest, rfl⟩ := List.forall₂_cons_left_iff.1 hfields
    obtain ⟨t', ht', hc', hD⟩ := hf.exists_type ht
    rw [membersOf, if_neg hv, ht, membersOf, if_neg (by simp [hf.visible]), ht']
    rw [hf.flattened] at hflat
    simp only [hf.flattened, hc', if_neg hc, if_pos hflat]
    exact (ih rest' hrest).bind fun _ _ hlater => .ok (.cons hD hlater)
  case nonStruct =>
    intro path owner f rest hv t ht d hc hflat hk fields' hfields
    rw [List.filter_cons_of_pos (by simpa using hv)] at hfields
    obtain ⟨f', rest', hf, hrest, rfl⟩ := List.forall₂_cons_left_iff.1 hfields
    obtain ⟨t', ht', hc', hD⟩ := hf.exists_type ht
    have hfacts := h.similar.facts hD
    have hk' := hk
    simp only [d, hasKind_congr hfacts] at hk'
    rw [membersOf, if_neg hv, ht, membersOf, if_neg (by simp [hf.visible]), ht']
    have hflat' := hflat
    rw [hf.flattened] at hflat'
    simp only [hc', if_neg hc, if_neg hflat, if_neg hflat', d, if_pos hk, if_pos hk', hf.label,
      Descriptor.fullName, hfacts]
    exact .error _
  case flattened =>
    intro path owner f rest hv t ht d hc hflat hk ihHere ihLater fields' hfields
    rw [List.filter_cons_of_pos (by simpa using hv)] at hfields
    obtain ⟨f', rest', hf, hrest, rfl⟩ := List.forall₂_cons_left_iff.1 hfields
    obtain ⟨t', ht', hc', hD⟩ := hf.exists_type ht
    have hfacts := h.similar.facts hD
    have hk' := hk
    simp only [d, hasKind_congr hfacts] at hk'
    rw [membersOf, if_neg hv, ht, membersOf, if_neg (by simp [hf.visible]), ht']
    have hflat' := hflat
    rw [hf.flattened] at hflat'
    simp only [hc', if_neg hc, if_neg hflat, if_neg hflat', d, if_neg hk, if_neg hk']
    exact (ihHere _ hfacts).bind fun _ _ hhere => (ihLater rest' hrest).bind fun _ _ hlater =>
      .ok (List.rel_append hhere hlater)

theorem members (h : Corresponds D T T') {d e : Descriptor} (he : d.facts = e.facts) :
    Agree (List.Forall₂ D) (T.members d) (T'.members e) :=
  h.walk.1 [] d e he

/-! ## Slices -/

theorem enter? (h : Corresponds D T T') (visited : List String) (id : TypeId) :
    T'.enter? visited id = T.enter? visited id := by
  cases id with
  | named key => simp only [TypeTable.enter?, h.keys]
  | _ => rfl

theorem item? (h : Corresponds D T T') (t : TypeExpr) : T'.item? t = T.item? t := by
  simp only [TypeTable.item?, h.element?, h.isCircular]

theorem peelFrom (h : Corresponds D T T') (stop : Descriptor → Bool) (visited : List String)
    (t : TypeExpr) : T'.peelFrom stop visited t = T.peelFrom stop visited t := by
  induction visited, t using peelFrom.induct T stop with
  | case1 visited t ho item visited' he hv n bottom _ ih =>
    rw [peelFrom_of_opens ho he hv]
    rw [← h.describe] at ho
    rw [← h.item?] at he
    rw [← h.enter?] at hv
    rw [peelFrom_of_opens ho he hv, ih]
  | case2 visited t _ hno =>
    rw [peelFrom_of_no_element hno]
    refine peelFrom_of_no_element fun item visited' he hv => ?_
    rw [h.item?] at he
    rw [h.enter?] at hv
    exact hno item visited' he hv
  | case3 visited t ho =>
    rw [peelFrom_of_not_opens ho]
    rw [← h.describe] at ho
    exact peelFrom_of_not_opens ho

/-- Related descriptors have as many slices around related ones. -/
theorem peel (h : Corresponds D T T') {stop : Descriptor → Bool} {d e : Descriptor} (hD : D d e)
    (hstop : stop d = stop e) :
    (T.peel stop d).1 = (T'.peel stop e).1 ∧ D (T.peel stop d).2 (T'.peel stop e).2 := by
  have hfacts := h.similar.facts hD
  have hopens : opens stop d = opens stop e := by
    rw [opens, opens, hasKind_congr hfacts, hstop]
  unfold TypeTable.peel
  rw [← hfacts, ← hopens]
  cases d.facts with
  | none => exact ⟨rfl, hD⟩
  | some i =>
    dsimp only
    split
    · rw [h.item?, h.enter?]
      split
      · rw [h.peelFrom, h.describe]
        exact ⟨rfl, h.similar.refl _⟩
      · exact ⟨rfl, hD⟩
    · exact ⟨rfl, hD⟩

theorem peelArrays (h : Corresponds D T T') {d e : Descriptor} (hD : D d e) :
    (T.peelArrays R d).1 = (T'.peelArrays R e).1
      ∧ D (T.peelArrays R d).2 (T'.peelArrays R e).2 :=
  h.peel hD (hasTypeRule_congr (h.similar.facts hD))

theorem bottom (h : Corresponds D T T') {d e : Descriptor} (hD : D d e) :
    D (T.bottom d) (T'.bottom e) :=
  (h.peel hD rfl).2

/-- Related descriptors both have a bottom, or neither has. -/
theorem isBottomless (h : Corresponds D T T') {d e : Descriptor} (hD : D d e) :
    T'.isBottomless e = T.isBottomless d := by
  have hfacts := h.similar.facts (h.bottom hD)
  rw [TypeTable.isBottomless, TypeTable.isBottomless, leadsOn, leadsOn, opens, opens, ← hfacts,
    hasKind_congr hfacts]
  simp only [h.element?]

/-! ## Renderings -/

variable {policy : Policy} {g : Attributes → Attributes}

theorem dataSchema (h : Corresponds D T T') (hR : R.Respects D T T' g) {d e : Descriptor}
    (hD : D d e) :
    Agree (fun s s' => s.mapData g = s'.mapData g) (R.dataSchema T d) (R.dataSchema T' e) := by
  have hfacts := h.similar.facts hD
  have hrule : R.rule? e = R.rule? d := by rw [Registry.rule?, Registry.rule?, hfacts]
  unfold Registry.dataSchema Registry.attributesOf
  rw [hrule, ← hfacts]
  cases d.facts with
  | none => exact .error _
  | some i =>
    dsimp only
    cases hr : R.rule? d with
    | none => exact .error _
    | some r =>
      refine .ok ?_
      rw [Schema.mapData, Schema.mapData, hR hD hr]

theorem siteSchema? (h : Corresponds D T T') (hR : R.Respects D T T' g) (hpolicy : policy.Respects D)
    {d e : Descriptor} (hD : D d e) :
    Agree (fun o o' => o.map (Schema.mapData g) = o'.map (Schema.mapData g))
      (T.siteSchema? R policy d) (T'.siteSchema? R policy e) := by
  have hfacts := h.similar.facts hD
  have hdata : Agree (fun o o' : Option Schema => o.map (Schema.mapData g) = o'.map (Schema.mapData g))
      ((R.dataSchema T d).map some) ((R.dataSchema T' e).map some) :=
    (h.dataSchema hR hD).map fun _ _ hs => congrArg some hs
  unfold TypeTable.siteSchema?
  rw [← hfacts, ← hasTypeRule_congr hfacts]
  cases d.facts with
  | none => exact .error _
  | some i =>
    dsimp only
    split
    · exact hdata
    · split
      · rw [h.element?]
        cases T.element? i.id with
        | none => exact .error _
        | some item => exact .error _
      · simp only [h.fields_eq_nil]
        rw [← name?_congr hfacts, ← hpolicy hD]
        split
        · exact .ok rfl
        · split
          · split
            · exact .ok rfl
            · exact .ok rfl
          · exact .ok rfl
      · exact hdata

/-- Both renderings have the same outcome, but for attributes. -/
theorem rendering (h : Corresponds D T T') (hR : R.Respects D T T' g) (hpolicy : policy.Respects D) :
    (∀ (path : List TypeId) (d : Descriptor) (e : Descriptor), D d e →
        Agree (fun s s' => s.mapData g = s'.mapData g) (T.schemaFrom R policy path d)
          (T'.schemaFrom R policy path e))
      ∧ (∀ (path : List TypeId) (d : Descriptor) (e : Descriptor), d.facts = e.facts →
        Agree (fun s s' => s.mapData g = s'.mapData g) (T.objectFrom R policy path d)
          (T'.objectFrom R policy path e))
      ∧ (∀ (path : List TypeId) (ms : List Descriptor) (ms' : List Descriptor),
        List.Forall₂ D ms ms' →
        Agree (fun ps ps' => mapValues (Schema.mapData g) ps = mapValues (Schema.mapData g) ps')
          (T.propertiesFrom R policy path ms) (T'.propertiesFrom R policy path ms')) := by
  refine schemaFrom.mutual_induct T R policy
    (fun path d => ∀ e, D d e → Agree (fun s s' => s.mapData g = s'.mapData g)
      (T.schemaFrom R policy path d) (T'.schemaFrom R policy path e))
    (fun path d => ∀ e, d.facts = e.facts → Agree (fun s s' => s.mapData g = s'.mapData g)
      (T.objectFrom R policy path d) (T'.objectFrom R policy path e))
    (fun path ms => ∀ ms', List.Forall₂ D ms ms' →
      Agree (fun ps ps' => mapValues (Schema.mapData g) ps = mapValues (Schema.mapData g) ps')
        (T.propertiesFrom R policy path ms) (T'.propertiesFrom R policy path ms'))
    ?error ?finished ?expanded ?empty ?met ?stuck ?enter ?nil ?unnamed ?named
  case error =>
    intro path d n b hb x hx e hD
    obtain ⟨hn, hbottom⟩ := h.peelArrays (R := R) hD
    have hsite := h.siteSchema? hR hpolicy hbottom
    rw [hb, hx] at hsite
    rw [schemaFrom_eq, schemaFrom_eq, hb, hx, hsite.error_left]
    exact .error x
  case finished =>
    intro path d n b hb t ht e hD
    obtain ⟨hn, hbottom⟩ := h.peelArrays (R := R) hD
    have hsite := h.siteSchema? hR hpolicy hbottom
    rw [hb, ht] at hsite
    obtain ⟨o, ho, hot⟩ := hsite.ok_left
    obtain ⟨t', rfl, ht'⟩ := Option.map_eq_some_iff.1 hot.symm
    rw [schemaFrom_eq, schemaFrom_eq, hb, ht, ho, ← hn, hb]
    refine .ok ?_
    rw [Schema.mapData_nested, Schema.mapData_nested, ht']
  case expanded =>
    intro path d n b hb hnone ih e hD
    obtain ⟨hn, hbottom⟩ := h.peelArrays (R := R) hD
    have hsite := h.siteSchema? hR hpolicy hbottom
    rw [hb] at hn hbottom
    rw [hb, hnone] at hsite
    obtain ⟨o, ho, hot⟩ := hsite.ok_left
    have hnone' : o = none := Option.map_eq_none_iff.1 hot.symm
    rw [schemaFrom_eq, schemaFrom_eq, hb, hnone, ho, hnone', ← hn]
    refine (ih _ (h.similar.facts hbottom)).map fun s s' hs => ?_
    rw [Schema.mapData_nested, Schema.mapData_nested, hs]
  case empty =>
    intro path d hd e he
    rw [objectFrom, objectFrom]
    split
    next =>
      split
      next => exact .error _
      next hi => rw [← he, hd] at hi; cases hi
    next hi => rw [hd] at hi; cases hi
  case met =>
    intro path d i hi hp e he
    rw [objectFrom_of_met hi hp, objectFrom_of_met (he.symm.trans hi) hp]
    exact .error _
  case stuck =>
    intro path d i hi hp x hx e he
    have hms := h.members he
    rw [hx] at hms
    rw [objectFrom_eq hi hp, objectFrom_eq (he.symm.trans hi) hp, hx, hms.error_left]
    exact .error x
  case enter =>
    intro path d i hi hp ms hms ih e he
    have hagree := h.members he
    rw [hms] at hagree
    obtain ⟨ms', hms', hD⟩ := hagree.ok_left
    rw [objectFrom_eq hi hp, objectFrom_eq (he.symm.trans hi) hp, hms, hms']
    refine (ih ms' hD).map fun ps ps' hps => ?_
    rw [Schema.mapData_ofProperties, Schema.mapData_ofProperties, hps]
  case nil =>
    intro path ms' hms
    cases hms
    rw [propertiesFrom, propertiesFrom]
    exact .ok rfl
  case unnamed =>
    intro path d rest hd ih ms' hms
    obtain ⟨e, rest', hD, hrest, rfl⟩ := List.forall₂_cons_left_iff.1 hms
    rw [propertiesFrom, propertiesFrom]
    simp only [hd, ← h.similar.propertyName hD]
    exact ih rest' hrest
  case named =>
    intro path d rest name hd ihHere ihLater ms' hms
    obtain ⟨e, rest', hD, hrest, rfl⟩ := List.forall₂_cons_left_iff.1 hms
    rw [propertiesFrom, propertiesFrom]
    simp only [hd, ← h.similar.propertyName hD]
    refine (ihHere e hD).bind fun s s' hs => (ihLater rest' hrest).bind fun ps ps' hps => .ok ?_
    rw [mapValues_cons, mapValues_cons, hs, hps]

theorem schemaOf (h : Corresponds D T T') (hR : R.Respects D T T' g) (hpolicy : policy.Respects D)
    {d e : Descriptor} (hD : D d e) :
    Agree (fun s s' => s.mapData g = s'.mapData g) (T.schemaOf R policy d)
      (T'.schemaOf R policy e) :=
  (h.rendering hR hpolicy).1 [] d e hD

theorem objectOf (h : Corresponds D T T') (hR : R.Respects D T T' g) (hpolicy : policy.Respects D)
    {d e : Descriptor} (he : d.facts = e.facts) :
    Agree (fun s s' => s.mapData g = s'.mapData g) (T.objectOf R policy d)
      (T'.objectOf R policy e) :=
  (h.rendering hR hpolicy).2.1 [] d e he

/-! ## Components -/

/-- Both walks find related structs, in the same order. -/
theorem discoverFrom (h : Corresponds D T T') (visited : List TypeId)
    {pending pending' : List Descriptor} (hpending : List.Forall₂ D pending pending') :
    Agree (List.Forall₂ D) (T.discoverFrom R visited pending)
      (T'.discoverFrom R visited pending') := by
  induction visited, pending using discoverFrom.induct T R generalizing pending' with
  | case1 visited =>
    cases hpending
    rw [TypeTable.discoverFrom, TypeTable.discoverFrom]
    exact .ok .nil
  | case2 visited d rest hb =>
    obtain ⟨e, rest', hD, hrest, rfl⟩ := List.forall₂_cons_left_iff.1 hpending
    rw [discoverFrom_of_bottomless hb]
    rw [← h.isBottomless hD] at hb
    rw [discoverFrom_of_bottomless hb]
    exact .error _
  | case3 visited d rest hb hn ih =>
    obtain ⟨e, rest', hD, hrest, rfl⟩ := List.forall₂_cons_left_iff.1 hpending
    have hb : T.isBottomless d = false := by simpa using hb
    rw [discoverFrom_of_pass hb hn]
    rw [enterable?_congr (h.similar.facts (h.bottom hD))] at hn
    rw [← h.isBottomless hD] at hb
    rw [discoverFrom_of_pass hb hn]
    exact ih hrest
  | case4 visited d rest _ i hi hv ih =>
    obtain ⟨e, rest', hD, hrest, rfl⟩ := List.forall₂_cons_left_iff.1 hpending
    rw [discoverFrom_of_met hi hv]
    rw [enterable?_congr (h.similar.facts (h.bottom hD))] at hi
    rw [discoverFrom_of_met hi hv]
    exact ih hrest
  | case5 visited d rest _ i hi hv x hx =>
    obtain ⟨e, rest', hD, hrest, rfl⟩ := List.forall₂_cons_left_iff.1 hpending
    have hfacts := h.similar.facts (h.bottom hD)
    have hms := h.members hfacts
    rw [hx] at hms
    rw [discoverFrom_of_new hi hv, hx]
    rw [enterable?_congr hfacts] at hi
    rw [discoverFrom_of_new hi hv, hms.error_left]
    exact .error x
  | case6 visited d rest _ i hi hv ms hms ih =>
    obtain ⟨e, rest', hD, hrest, rfl⟩ := List.forall₂_cons_left_iff.1 hpending
    have hfacts := h.similar.facts (h.bottom hD)
    have hagree := h.members hfacts
    rw [hms] at hagree
    obtain ⟨ms', hms', hmembers⟩ := hagree.ok_left
    rw [discoverFrom_of_new hi hv, hms]
    rw [enterable?_congr hfacts] at hi
    rw [discoverFrom_of_new hi hv, hms']
    exact (ih (List.rel_append hmembers hrest)).map fun _ _ hfound => .cons (h.bottom hD) hfound

end Corresponds

theorem isReferable_congr {d e : Descriptor} (h : d.facts = e.facts) :
    isReferable d = isReferable e := by
  rw [isReferable, isReferable, name?_congr h, Descriptor.isExported, Descriptor.isExported, h]

theorem sortName_congr {d e : Descriptor} (h : d.facts = e.facts) : sortName d = sortName e := by
  rw [sortName, sortName, name?_congr h]

/-- Related descriptors stay side by side when they are sorted by name. -/
theorem forall₂_byName (hfacts : ∀ {d e}, D d e → d.facts = e.facts) {ds es : List Descriptor}
    (h : List.Forall₂ D ds es) : List.Forall₂ D (byName ds) (byName es) := by
  obtain ⟨hlength, hpairs⟩ := List.forall₂_iff_zip.1 h
  -- both lists are the sides of a list of pairs, and it is the pairs that are sorted
  let ps := ds.zip es
  have hps : ∀ p ∈ ps, D p.1 p.2 := fun p hp => hpairs hp
  have hfst : ps.map Prod.fst = ds := List.map_fst_zip (by omega)
  have hsnd : ps.map Prod.snd = es := List.map_snd_zip (by omega)
  let sorted := (ps.filter fun p => isReferable p.1).mergeSort fun p q => sortName p.1 ≤ sortName q.1
  have hsorted : ∀ p ∈ sorted, D p.1 p.2 := fun p hp =>
    hps p (List.mem_of_mem_filter (List.mem_mergeSort.1 hp))
  have hds : byName ds = sorted.map Prod.fst := by
    rw [byName, removeUnreferable, ← hfst, List.filter_map]
    refine (List.map_mergeSort fun p _ q _ => ?_).symm
    rfl
  have hes : byName es = sorted.map Prod.snd := by
    have hfilter : ps.filter (isReferable ∘ Prod.snd) = ps.filter fun p => isReferable p.1 :=
      List.filter_congr fun p hp => (isReferable_congr (hfacts (hps p hp))).symm
    rw [byName, removeUnreferable, ← hsnd, List.filter_map, hfilter]
    refine (List.map_mergeSort fun p hp q hq => ?_).symm
    rw [sortName_congr (hfacts (hps p (List.mem_of_mem_filter hp))),
      sortName_congr (hfacts (hps q (List.mem_of_mem_filter hq)))]
  rw [hds, hes, List.forall₂_map_left_iff, List.forall₂_map_right_iff]
  exact List.forall₂_same.2 hsorted

theorem collision?_congr (hfacts : ∀ {d e}, D d e → d.facts = e.facts) {ds es : List Descriptor}
    (h : List.Forall₂ D ds es) : collision? ds = collision? es := by
  induction h with
  | nil => rfl
  | cons hfirst hrest ih =>
    cases hrest with
    | nil => rfl
    | cons hsecond hrest =>
      have ha := hfacts hfirst
      have hb := hfacts hsecond
      simp only [collision?, sortName_congr ha, sortName_congr hb, Descriptor.fullName, ha, hb, ih]

/-- Both tables have related components, or the same clash of names. -/
theorem Corresponds.components (h : Corresponds D T T') {roots roots' : List Descriptor}
    (hroots : List.Forall₂ D roots roots') :
    Agree (List.Forall₂ D) (T.components R roots) (T'.components R roots') := by
  rw [components_eq, components_eq]
  refine (h.discoverFrom [] hroots).bind fun found found' hfound => ?_
  have hsorted := forall₂_byName h.similar.facts hfound
  rw [collision?_congr h.similar.facts hsorted]
  cases collision? (byName found') with
  | some x => exact .error x
  | none => exact .ok hsorted

end TypeTable

end ApiAtlas
