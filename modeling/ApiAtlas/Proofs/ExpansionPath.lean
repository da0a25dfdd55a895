import ApiAtlas.Proofs.Derivation
import ApiAtlas.Proofs.Flattening
import ApiAtlas.Proofs.FlatteningChains

/-!
# What the path of an expansion is for

The path of types in expansion decides whether a struct is written out, never how. So whatever can be
written out inside some types has the same form inside fewer (`propertiesFrom_of_subset`). The converse
fails, and it does so in one way only: below, a struct is met that has been put on the path. Suppose
that this is the struct whose members are being rendered. Where it is met, the same members are
rendered once more, with the struct on the path, and if that can be done there, it can be done above.
Hence members that can be rendered at all can be rendered inside their struct
(`propertiesFrom_cons_of_members`), and the object of a struct is made of the schemas that its members
have on their own (`objectOf_eq_ok_iff`).
-/

namespace ApiAtlas.TypeTable

variable {T : TypeTable} {R : Registry} {policy : Policy} {path path' : List TypeId}

/-! ## Two paths -/

/-- The members have the properties on another path that they have on this one if they have the same
schemas there. -/
theorem propertiesFrom_of_schemas {ms : List Descriptor} {pairs : List (String × Schema)}
    (h : ∀ m ∈ ms, ∀ s, T.schemaFrom R policy path m = .ok s → T.schemaFrom R policy path' m = .ok s)
    (hpairs : T.propertiesFrom R policy path ms = .ok pairs) :
    T.propertiesFrom R policy path' ms = .ok pairs := by
  induction ms generalizing pairs with
  | nil =>
    rw [propertiesFrom] at hpairs ⊢
    exact hpairs
  | cons m rest ih =>
    have hrest : ∀ {later}, T.propertiesFrom R policy path rest = .ok later →
        T.propertiesFrom R policy path' rest = .ok later :=
      ih fun m hm => h m (List.mem_cons_of_mem _ hm)
    rw [propertiesFrom] at hpairs ⊢
    cases hn : m.propertyName with
    | none =>
      simp only [hn] at hpairs ⊢
      exact hrest hpairs
    | some name =>
      simp only [hn] at hpairs ⊢
      obtain ⟨schema, hschema, hpairs⟩ := bind_eq_ok.1 hpairs
      obtain ⟨later, hlater, hpairs⟩ := bind_eq_ok.1 hpairs
      rw [h m List.mem_cons_self schema hschema, hrest hlater]
      exact hpairs

/-- A descriptor has the schema on another path that it has on this one if what is behind its slices
has the same object there. -/
theorem schemaFrom_of_objects {d : Descriptor} {s : Schema}
    (h : ∀ t, T.objectFrom R policy path (T.peelArrays R d).2 = .ok t →
      T.objectFrom R policy path' (T.peelArrays R d).2 = .ok t)
    (hs : T.schemaFrom R policy path d = .ok s) : T.schemaFrom R policy path' d = .ok s := by
  rcases schemaFrom_eq_ok hs with ⟨t, ht, rfl⟩ | ⟨hnone, t, ht, rfl⟩
  · rw [schemaFrom_of_finished ht]
  · rw [schemaFrom_of_unfinished hnone, h t ht]
    rfl

section Related

variable (rel : List TypeId → List TypeId → Prop)
  (hstep : ∀ path path' d i s, rel path path' → T.Describes d → d.facts = some i →
    T.objectFrom R policy path d = .ok s → i.id ∉ path' ∧ rel (i.id :: path) (i.id :: path'))

include hstep

/-- If a struct that is written out on one path may be written out on a related one, and the two stay
related with the struct on both, then what has an object on the one has it on the other. -/
theorem objectFrom_of_related {d : Descriptor} {s : Schema} (hrel : rel path path')
    (hd : T.Describes d) (hs : T.objectFrom R policy path d = .ok s) :
    T.objectFrom R policy path' d = .ok s := by
  -- each struct that is written out joins both paths, and the first of them can only grow so far
  induction path using path_induction (T := T) generalizing path' d s with
  | _ path ih =>
    obtain ⟨i, _, _, hi, hp, _⟩ := objectFrom_eq_ok hs
    obtain ⟨hp', hrel'⟩ := hstep path path' d i s hrel hd hi hs
    rw [objectFrom_eq hi hp] at hs
    obtain ⟨ms, hms, hs⟩ := bind_eq_ok.1 hs
    obtain ⟨pairs, hpairs, rfl⟩ := map_eq_ok.1 hs
    have hpairs' : T.propertiesFrom R policy (i.id :: path') ms = .ok pairs := by
      refine propertiesFrom_of_schemas (fun m hm s => schemaFrom_of_objects fun t => ?_) hpairs
      have hdescribes := (isMember_of_mem hms hm).describes.peel R.hasTypeRule
      exact ih i.id hp (fields_ne_nil_of_member hi hms hm) hrel' hdescribes
    rw [objectFrom_eq hi hp', hms]
    show (T.propertiesFrom R policy (i.id :: path') ms).map Schema.ofProperties = _
    rw [hpairs']
    rfl

theorem propertiesFrom_of_related {ms : List Descriptor} {pairs : List (String × Schema)}
    (hrel : rel path path') (hms : ∀ m ∈ ms, T.Describes m)
    (hpairs : T.propertiesFrom R policy path ms = .ok pairs) :
    T.propertiesFrom R policy path' ms = .ok pairs := by
  refine propertiesFrom_of_schemas (fun m hm s => schemaFrom_of_objects fun t => ?_) hpairs
  exact objectFrom_of_related rel hstep hrel ((hms m hm).peel R.hasTypeRule)

end Related

/-! ## Fewer types -/

theorem propertiesFrom_of_subset {ms : List Descriptor} {pairs : List (String × Schema)}
    (hsub : path' ⊆ path) (hms : ∀ m ∈ ms, T.Describes m)
    (hpairs : T.propertiesFrom R policy path ms = .ok pairs) :
    T.propertiesFrom R policy path' ms = .ok pairs := by
  refine propertiesFrom_of_related (fun path path' => path' ⊆ path) ?_ hsub hms hpairs
  intro path path' d i s hsub _ hi hs
  have hp := not_mem_of_objectFrom hi hs
  exact ⟨fun hmem => hp (hsub hmem), List.cons_subset_cons _ hsub⟩

/-! ## One more type -/

/-- A type that the expansion does not come by can be put on its path. -/
theorem propertiesFrom_cons_of_not_met {ms : List Descriptor} {pairs : List (String × Schema)}
    {b : TypeId} (hms : ∀ m ∈ ms, T.Describes m)
    (hnot : ∀ path' d s, path ⊆ path' → T.Describes d → d.id? = some b →
      T.objectFrom R policy path' d ≠ .ok s)
    (hpairs : T.propertiesFrom R policy path ms = .ok pairs) :
    T.propertiesFrom R policy (b :: path) ms = .ok pairs := by
  -- `b` stays on the second path only, wherever it stands there; the first one only grows
  refine propertiesFrom_of_related (fun p p' => p' ⊆ b :: p ∧ path ⊆ p) ?_
    ⟨List.Subset.refl _, List.Subset.refl _⟩ hms hpairs
  intro p p' d i s ⟨hsub, hp⟩ hd hi hs
  have hnew := not_mem_of_objectFrom hi hs
  have hne : i.id ≠ b := by
    intro hb
    exact hnot p d s hp hd (by rw [Descriptor.id?, hi, ← hb]; rfl) hs
  refine ⟨fun hmem => ?_, fun a ha => ?_, fun a ha => List.mem_cons_of_mem _ (hp ha)⟩
  · rcases List.mem_cons.1 (hsub hmem) with hmem | hmem
    · exact hne hmem
    · exact hnew hmem
  · rcases List.mem_cons.1 ha with rfl | ha
    · exact List.mem_cons_of_mem _ List.mem_cons_self
    · rcases List.mem_cons.1 (hsub ha) with rfl | ha
      · exact List.mem_cons_self
      · exact List.mem_cons_of_mem _ (List.mem_cons_of_mem _ ha)

/-- **Members that can be rendered can be rendered inside their struct.** -/
theorem propertiesFrom_cons_of_members {e : Descriptor} {j : TypeFacts} {ms : List Descriptor}
    {pairs : List (String × Schema)} (he : T.Describes e) (hj : e.facts = some j)
    (hms : T.members e = .ok ms) (hpairs : T.propertiesFrom R policy path ms = .ok pairs) :
    T.propertiesFrom R policy (j.id :: path) ms = .ok pairs := by
  have hdescribes : ∀ m ∈ ms, T.Describes m := fun m hm => (isMember_of_mem hms hm).describes
  by_cases hmet : ∃ path' d s, path ⊆ path' ∧ T.Describes d ∧ d.id? = some j.id
      ∧ T.objectFrom R policy path' d = .ok s
  · obtain ⟨path', d, s, hsub, hd, hid, hs⟩ := hmet
    -- the struct is met below, and there its members are rendered inside it
    obtain ⟨i, _, _, hi, hp, _⟩ := objectFrom_eq_ok hs
    rw [Descriptor.id?, hi] at hid
    have hij : i.id = j.id := Option.some.inj hid
    have hfacts : d.facts = e.facts := by
      rw [hi, ← hd.facts?_id hi, hij, he.facts?_id hj, hj]
    rw [objectFrom_eq hi hp, members_congr hfacts, hms, hij] at hs
    obtain ⟨pairs', hpairs', _⟩ := map_eq_ok.1 hs
    have hinside := propertiesFrom_of_subset (List.cons_subset_cons j.id hsub) hdescribes hpairs'
    -- what has been rendered inside the struct has been rendered
    have houtside := propertiesFrom_of_subset (List.subset_cons_self _ _) hdescribes hinside
    rw [hpairs] at houtside
    cases houtside
    exact hinside
  -- a struct that is not met may as well be on the path
  · refine propertiesFrom_cons_of_not_met hdescribes ?_ hpairs
    intro path' d s hsub hd hid hs
    exact hmet ⟨path', d, s, hsub, hd, hid, hs⟩

/-- What has an object has members that can be rendered on their own. -/
theorem exists_properties_of_objectOf {d : Descriptor} {s : Schema}
    (hs : T.objectOf R policy d = .ok s) : ∃ ms pairs, T.members d = .ok ms
      ∧ T.propertiesFrom R policy [] ms = .ok pairs ∧ s = Schema.ofProperties pairs := by
  obtain ⟨i, _, _, hi, hp, _⟩ := objectFrom_eq_ok hs
  rw [objectOf, objectFrom_eq hi hp] at hs
  obtain ⟨ms, hms, hs⟩ := bind_eq_ok.1 hs
  obtain ⟨pairs, hpairs, rfl⟩ := map_eq_ok.1 hs
  refine ⟨ms, pairs, hms, ?_, rfl⟩
  exact propertiesFrom_of_subset (List.nil_subset _)
    (fun m hm => (isMember_of_mem hms hm).describes) hpairs

/-- **An object is made of the schemas that its members have on their own.** -/
theorem objectOf_eq_ok_iff {d : Descriptor} {i : TypeFacts} {s : Schema} (hd : T.Describes d)
    (hi : d.facts = some i) : T.objectOf R policy d = .ok s
      ↔ ∃ ms pairs, T.members d = .ok ms ∧ T.propertiesFrom R policy [] ms = .ok pairs
        ∧ s = Schema.ofProperties pairs := by
  refine ⟨exists_properties_of_objectOf, ?_⟩
  rintro ⟨ms, pairs, hms, hpairs, rfl⟩
  rw [objectOf, objectFrom_eq hi List.not_mem_nil, hms]
  exact map_eq_ok.2 ⟨pairs, propertiesFrom_cons_of_members hd hi hms hpairs, rfl⟩

end ApiAtlas.TypeTable
