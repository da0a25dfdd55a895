import Mathlib.Data.List.Forall2
import ApiAtlas.Proofs.Reachability

/-!
# How a schema comes about

A rendering that succeeds has a shape: at a site the slices come off, and what is left is a finished
schema or a struct, whose properties are renderings again. The path of types in expansion only
decides whether a rendering succeeds, never what it gives; so to speak of results it can be left out
altogether. `schemaFrom_induction` is induction over a successful rendering in this shape.

A policy has a say at structs with fields only (`siteSchema?_of_expands`). All else has one schema,
and that one holds no other (`siteSchema?_of_not_expands`).
-/

namespace ApiAtlas.TypeTable

variable {T : TypeTable} {R : Registry} {policy : Policy}

/-! ## One site -/

/-- The struct of these facts is written out field by field, unless a policy is against it. -/
def Expands (T : TypeTable) (R : Registry) (d : Descriptor) (i : TypeFacts) : Prop :=
  enterable? R d = some i ∧ T.fields i.id ≠ []

theorem siteSchema?_of_expands {d : Descriptor} {i : TypeFacts} (h : T.Expands R d i) :
    T.siteSchema? R policy d
      = .ok (d.name?.bind fun name => if policy d then none else some (.ref name)) := by
  obtain ⟨hi, hf⟩ := h
  obtain ⟨hi, hk, hrule⟩ := enterable?_eq_some.1 hi
  unfold siteSchema?
  simp only [hi, hrule, hk, if_neg hf, Bool.false_eq_true, if_false]
  cases d.name? with
  | none => rfl
  | some name =>
    cases policy d with
    | true => rfl
    | false => rfl

theorem siteSchema?_of_not_expands {d : Descriptor} {o : Option Schema}
    (hn : ∀ i, ¬ T.Expands R d i) (h : T.siteSchema? R policy d = .ok o) :
    ∃ s, o = some s ∧ ((∃ a, s = .data a) ∨ s = .object [])
      ∧ ∀ policy', T.siteSchema? R policy' d = .ok (some s) := by
  have hdata : (R.dataSchema T d).map some = .ok o →
      ∃ s, o = some s ∧ (∃ a, s = .data a) ∧ R.dataSchema T d = .ok s := by
    intro h
    obtain ⟨s, hs, ho⟩ := map_eq_ok.1 h
    obtain ⟨a, _, ha⟩ := map_eq_ok.1 hs
    exact ⟨s, ho.symm, ⟨a, ha.symm⟩, hs⟩
  unfold siteSchema? at h ⊢
  cases hi : d.facts with
  | none => rw [hi] at h; cases h
  | some i =>
    simp only [hi] at h ⊢
    by_cases hrule : R.hasTypeRule d = true
    · simp only [hrule, if_true] at h ⊢
      obtain ⟨s, ho, ha, hs⟩ := hdata h
      exact ⟨s, ho, .inl ha, fun _ => by rw [hs]; rfl⟩
    · rw [if_neg hrule] at h
      simp only [if_neg hrule]
      cases hk : i.kind with
      | slice =>
        simp only [hk] at h
        cases he : T.element? i.id with
        | none => rw [he] at h; cases h
        | some item => rw [he] at h; cases h
      | struct =>
        simp only [hk] at h ⊢
        by_cases hf : T.fields i.id = []
        · simp only [if_pos hf] at h ⊢
          cases h
          exact ⟨_, rfl, .inr rfl, fun _ => rfl⟩
        · have hrule' : R.hasTypeRule d = false := by simpa using hrule
          exact absurd ⟨enterable?_eq_some.2 ⟨hi, hk, hrule'⟩, hf⟩ (hn i)
      | _ =>
        simp only [hk] at h ⊢
        obtain ⟨s, ho, ha, hs⟩ := hdata h
        exact ⟨s, ho, .inl ha, fun _ => by rw [hs]; rfl⟩

theorem expands_of_unfinished {d : Descriptor} (h : T.siteSchema? R policy d = .ok none) :
    ∃ i, T.Expands R d i := by
  by_cases hx : ∃ i, T.Expands R d i
  · exact hx
  · obtain ⟨s, hs, _⟩ := siteSchema?_of_not_expands (fun i hi => hx ⟨i, hi⟩) h
    cases hs

/-! ## One level -/

/-- The members that have a place in an object. -/
def serialized (ms : List Descriptor) : List Descriptor := ms.filter (·.propertyName.isSome)

/-- The properties are those of the serialized members, in order, each with a schema for it. -/
def PropertiesOf (P : Descriptor → Schema → Prop) (ms : List Descriptor)
    (pairs : List (String × Schema)) : Prop :=
  List.Forall₂ (fun m e => m.propertyName = some e.1 ∧ P m e.2) (serialized ms) pairs

theorem peelArrays_of_not_slice {d : Descriptor} (h : d.hasKind .slice = false) :
    T.peelArrays R d = (0, d) :=
  peel_of_not_opens (by simp [opens, h])

theorem schemaFrom_of_finished {path : List TypeId} {d : Descriptor} {t : Schema}
    (h : T.siteSchema? R policy (T.peelArrays R d).2 = .ok (some t)) :
    T.schemaFrom R policy path d = .ok (Schema.nested (T.peelArrays R d).1 t) := by
  rw [schemaFrom]
  simp only [h]

theorem schemaFrom_of_unfinished {path : List TypeId} {d : Descriptor}
    (h : T.siteSchema? R policy (T.peelArrays R d).2 = .ok none) :
    T.schemaFrom R policy path d = (T.objectFrom R policy path (T.peelArrays R d).2).map
      (Schema.nested (T.peelArrays R d).1) := by
  rw [schemaFrom]
  simp only [h]

/-- A data type, and a type without a structure, is rendered where it stands, by its rule. -/
theorem schemaFrom_of_rule {path : List TypeId} {d : Descriptor} {i : TypeFacts} {r : Rule}
    (hi : d.facts = some i)
    (h : R.hasTypeRule d = true ∨ i.kind ≠ .struct ∧ i.kind ≠ .slice) (hr : R.rule? d = some r) :
    T.schemaFrom R policy path d = .ok (.data (r.run T d)) := by
  have hdata : R.dataSchema T d = .ok (.data (r.run T d)) := by
    rw [Registry.dataSchema, Registry.attributesOf, hi, hr]
    rfl
  have hpeel : T.peelArrays R d = (0, d) := by
    refine peel_of_not_opens ?_
    rcases h with hrule | ⟨_, hslice⟩
    · simp [opens, hrule]
    · simp [opens, hasKind_iff hi, hslice]
  have hsite : T.siteSchema? R policy (T.peelArrays R d).2 = .ok (some (.data (r.run T d))) := by
    rw [hpeel, siteSchema?, hi]
    dsimp only
    split
    · rw [hdata]
      rfl
    next hrule =>
      obtain ⟨hstruct, hslice⟩ := h.resolve_left hrule
      cases hk : i.kind with
      | struct => exact absurd hk hstruct
      | slice => exact absurd hk hslice
      | _ => rw [hdata]; rfl
  rw [schemaFrom_of_finished hsite, hpeel]
  rfl
/-- A rendering that succeeds found a finished schema behind the slices or expanded a struct. -/
theorem schemaFrom_eq_ok {path : List TypeId} {d : Descriptor} {s : Schema}
    (h : T.schemaFrom R policy path d = .ok s) :
    (∃ t, T.siteSchema? R policy (T.peelArrays R d).2 = .ok (some t)
        ∧ s = Schema.nested (T.peelArrays R d).1 t)
      ∨ T.siteSchema? R policy (T.peelArrays R d).2 = .ok none
        ∧ ∃ t, T.objectFrom R policy path (T.peelArrays R d).2 = .ok t
          ∧ s = Schema.nested (T.peelArrays R d).1 t := by
  cases hs : T.siteSchema? R policy (T.peelArrays R d).2 with
  | error e => rw [schemaFrom] at h; simp only [hs] at h; cases h
  | ok o =>
    cases o with
    | some t =>
      rw [schemaFrom_of_finished hs] at h
      cases h
      exact .inl ⟨t, rfl, rfl⟩
    | none =>
      rw [schemaFrom_of_unfinished hs] at h
      obtain ⟨t, ht, hst⟩ := map_eq_ok.1 h
      exact .inr ⟨rfl, t, ht, hst.symm⟩

/-- No type has no schema. -/
theorem isEmpty_of_schemaFrom {path : List TypeId} {d : Descriptor} {s : Schema}
    (h : T.schemaFrom R policy path d = .ok s) : d.isEmpty = false := by
  cases hi : d.facts with
  | some i => simp [Descriptor.isEmpty, hi]
  | none =>
    have hsite : T.siteSchema? R policy (T.peelArrays R d).2 = .error (.defect .renderOfEmpty) := by
      have hpeel : T.peelArrays R d = (0, d) :=
        peelArrays_of_not_slice (by simp [Descriptor.hasKind, Descriptor.kind?, hi])
      rw [hpeel, siteSchema?, hi]
    rcases schemaFrom_eq_ok h with ⟨t, ht, _⟩ | ⟨hnone, _⟩
    · rw [hsite] at ht; cases ht
    · rw [hsite] at hnone; cases hnone

theorem propertiesFrom_eq_ok {path : List TypeId} {ms : List Descriptor}
    {pairs : List (String × Schema)} (h : T.propertiesFrom R policy path ms = .ok pairs) :
    PropertiesOf (fun m s => T.schemaFrom R policy path m = .ok s) ms pairs := by
  unfold PropertiesOf serialized
  induction ms generalizing pairs with
  | nil =>
    rw [propertiesFrom] at h
    cases h
    exact .nil
  | cons m rest ih =>
    rw [propertiesFrom] at h
    cases hm : m.propertyName with
    | none =>
      rw [List.filter_cons_of_neg (by simp [hm])]
      simp only [hm] at h
      exact ih h
    | some name =>
      rw [List.filter_cons_of_pos (by simp [hm])]
      simp only [hm] at h
      obtain ⟨schema, hschema, h⟩ := bind_eq_ok.1 h
      obtain ⟨later, hlater, h⟩ := bind_eq_ok.1 h
      cases h
      exact .cons ⟨hm, hschema⟩ (ih hlater)

/-- An expansion that succeeds is the object of the members' schemas. -/
theorem objectFrom_eq_ok {path : List TypeId} {d : Descriptor} {s : Schema}
    (h : T.objectFrom R policy path d = .ok s) :
    ∃ i ms pairs, d.facts = some i ∧ i.id ∉ path ∧ T.members d = .ok ms
      ∧ s = Schema.ofProperties pairs
      ∧ PropertiesOf (fun m s => T.schemaFrom R policy (i.id :: path) m = .ok s) ms pairs := by
  cases hi : d.facts with
  | none =>
    rw [objectFrom_of_no_facts hi] at h
    cases h
  | some i =>
    by_cases hp : i.id ∈ path
    · rw [objectFrom_of_met hi hp] at h
      cases h
    · rw [objectFrom_eq hi hp] at h
      obtain ⟨ms, hms, h⟩ := bind_eq_ok.1 h
      obtain ⟨pairs, hpairs, hs⟩ := map_eq_ok.1 h
      exact ⟨i, ms, pairs, rfl, hp, hms, hs.symm, propertiesFrom_eq_ok hpairs⟩

/-- A struct that is written out was not on the path. -/
theorem not_mem_of_objectFrom {path : List TypeId} {d : Descriptor} {i : TypeFacts} {s : Schema}
    (hi : d.facts = some i) (h : T.objectFrom R policy path d = .ok s) : i.id ∉ path := by
  obtain ⟨j, _, _, hj, hp, _⟩ := objectFrom_eq_ok h
  rw [hi] at hj
  cases hj
  exact hp

/-- The object of a struct with one member. -/
theorem objectFrom_of_singleton {path : List TypeId} {d m : Descriptor} {i : TypeFacts}
    {name : String} {s : Schema} (hi : d.facts = some i) (hp : i.id ∉ path)
    (hms : T.members d = .ok [m]) (hn : m.propertyName = some name)
    (hs : T.schemaFrom R policy (i.id :: path) m = .ok s) :
    T.objectFrom R policy path d = .ok (.object [(name, s)]) := by
  rw [objectFrom_eq hi hp, hms]
  simp only [Except.bind, propertiesFrom, hn, hs]
  rfl

/-! ## Induction -/

/-- **Induction over a rendering that succeeds.** What holds of every finished schema behind
slices, and of every object behind slices if it holds of the object's properties, holds of all that
can be rendered. -/
theorem schemaFrom_induction {P : Descriptor → Schema → Prop}
    (finished : ∀ d t, T.siteSchema? R policy (T.peelArrays R d).2 = .ok (some t) →
      P d (Schema.nested (T.peelArrays R d).1 t))
    (expanded : ∀ d ms pairs, T.siteSchema? R policy (T.peelArrays R d).2 = .ok none →
      T.members (T.peelArrays R d).2 = .ok ms → PropertiesOf P ms pairs →
      P d (Schema.nested (T.peelArrays R d).1 (Schema.ofProperties pairs)))
    {path : List TypeId} {d : Descriptor} {s : Schema}
    (h : T.schemaFrom R policy path d = .ok s) : P d s := by
  revert s
  -- along the recursion of the renderer; of objects and lists of members only what is rendered in
  -- them has to be said
  suffices hall : ∀ s, T.schemaFrom R policy path d = .ok s → P d s from fun {s} => hall s
  refine (schemaFrom.mutual_induct T R policy
    (fun path d => ∀ s, T.schemaFrom R policy path d = .ok s → P d s)
    (fun path d => ∀ i ms, d.facts = some i → i.id ∉ path → T.members d = .ok ms →
      ∀ m ∈ serialized ms, ∀ s, T.schemaFrom R policy (i.id :: path) m = .ok s → P m s)
    (fun path ms => ∀ m ∈ serialized ms, ∀ s, T.schemaFrom R policy path m = .ok s → P m s)
    ?error ?finished ?expanded ?empty ?met ?stuck ?enter ?nil ?unnamed ?named).1 path d
  case error =>
    intro path d n b hb e he s h
    have hsite : T.siteSchema? R policy (T.peelArrays R d).2 = .error e := by rw [hb]; exact he
    rcases schemaFrom_eq_ok h with ⟨t, ht, _⟩ | ⟨hnone, _⟩
    · rw [hsite] at ht; cases ht
    · rw [hsite] at hnone; cases hnone
  case finished =>
    intro path d n b hb t ht s h
    have hsite : T.siteSchema? R policy (T.peelArrays R d).2 = .ok (some t) := by rw [hb]; exact ht
    rw [schemaFrom_of_finished hsite] at h
    cases h
    exact finished d t hsite
  case expanded =>
    intro path d n b hb hnone ih s h
    have hsite : T.siteSchema? R policy (T.peelArrays R d).2 = .ok none := by rw [hb]; exact hnone
    rw [schemaFrom_of_unfinished hsite] at h
    obtain ⟨t, ht, hs⟩ := map_eq_ok.1 h
    obtain ⟨i, ms, pairs, hi, hp, hms, htp, hall⟩ := objectFrom_eq_ok ht
    rw [← hs, htp]
    refine expanded d ms pairs hsite hms ?_
    rw [hb] at hi hms
    -- each property was rendered, and what was rendered there has the property to be shown
    have hinner := (List.forall₂_and_left _ _).2 ⟨ih i ms hi hp hms, hall⟩
    exact hinner.imp fun m e h => ⟨h.2.1, h.1 e.2 h.2.2⟩
  case empty =>
    intro path d hd i ms hi
    rw [hd] at hi
    cases hi
  case met =>
    intro path d i hi hp j ms hj hj'
    rw [hi] at hj
    cases hj
    exact absurd hp hj'
  case stuck =>
    intro path d i hi hp e he j ms hj _ hms
    rw [he] at hms
    cases hms
  case enter =>
    intro path d i hi hp ms hms ih j ms' hj _ hms'
    rw [hi] at hj
    rw [hms] at hms'
    cases hj
    cases hms'
    exact ih
  case nil =>
    intro path m hm
    cases hm
  case unnamed =>
    intro path d rest hd ih m hm
    unfold serialized at hm
    rw [List.filter_cons_of_neg (by simp [hd])] at hm
    exact ih m hm
  case named =>
    intro path d rest name hd ihHere ihLater m hm
    unfold serialized at hm
    rw [List.filter_cons_of_pos (by simp [hd])] at hm
    rcases List.mem_cons.1 hm with hm | hm
    · rw [hm]; exact ihHere
    · exact ihLater m hm

end ApiAtlas.TypeTable
