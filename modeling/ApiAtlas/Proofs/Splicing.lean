import ApiAtlas.Proofs.FlatteningChains
import ApiAtlas.Proofs.Redeclaration
import ApiAtlas.Proofs.Roots

/-!
# Flattening without a path

`Splices` says what the members of some fields are in the words of the fields alone: nothing for a
hidden field, the field itself for a plain one, and for a flattened one whatever the declared fields
of its struct give. It mentions neither a path nor a failure. A derivation is finite, which is all
that is left of the guard against endless types.

Every walk that ends well is such a derivation (`splices_of_membersFrom`). A derivation in turn goes
through all structs that chains of flattened fields lead to, so none of them is at fault or flattens
itself (`Splices.resolves`), and where that is so the walk ends (`exists_membersFrom`). The members
can be given in one way only, so the walk and the derivation have the same ones
(`members_eq_ok_iff`).

What is then to be known of flattening is read off derivations: it does not matter whether the
fields of a struct are flattened into another one or declared there (`Splices.unflattened`,
`Splices.of_unflattened`), nor how often a struct is flattened (`Splices.exists_infix`).
-/

namespace ApiAtlas

open Relation (ReflTransGen TransGen)

namespace TypeTable

variable {T T' : TypeTable}

/-! ## The relation -/

/-- A field is flattened, and is a struct with these facts. -/
def Merges (T : TypeTable) (f : Field) (j : TypeFacts) : Prop :=
  f.flattened = true ∧ ∃ t, f.type = some t ∧ T.facts? t = some j ∧ j.kind = .struct

/-- The members that fields make. -/
inductive Splices (T : TypeTable) : List Field → List Descriptor → Prop where
  | nil : Splices T [] []
  | hidden {f : Field} {rest : List Field} {later : List Descriptor} : f.isVisible = false →
      Splices T rest later → Splices T (f :: rest) later
  | plain {f : Field} {t : TypeExpr} {rest : List Field} {later : List Descriptor} :
      f.isVisible = true → f.flattened = false → f.type = some t → T.isCircular t = false →
      Splices T rest later → Splices T (f :: rest) ((T.describe t).through f :: later)
  | flattened {f : Field} {j : TypeFacts} {rest : List Field} {here later : List Descriptor} :
      T.Merges f j → Splices T (T.fields j.id) here →
      Splices T rest later → Splices T (f :: rest) (here ++ later)

theorem Merges.isVisible {f : Field} {j : TypeFacts} (h : T.Merges f j) : f.isVisible = true :=
  isVisible_of_flattened h.1

theorem Merges.unique {f : Field} {j k : TypeFacts} (h : T.Merges f j) (h' : T.Merges f k) :
    j = k := by
  obtain ⟨_, t, ht, hj, _⟩ := h
  obtain ⟨_, t', ht', hk, _⟩ := h'
  rw [ht] at ht'
  cases ht'
  rw [hj] at hk
  exact Option.some.inj hk

theorem exists_merges_of_flattens {a b : TypeId} (h : T.Flattens a b) :
    ∃ f ∈ T.fields a, ∃ j, T.Merges f j ∧ j.id = b := by
  obtain ⟨f, hmem, hf, t, j, ht, hj, hk, hid⟩ := h
  exact ⟨f, hmem, j, ⟨hf, t, ht, hj, hk⟩, hid⟩

namespace Splices

variable {fields fields' rest : List Field} {f : Field} {ms ms' : List Descriptor}

theorem append (h : T.Splices fields ms) (h' : T.Splices fields' ms') :
    T.Splices (fields ++ fields') (ms ++ ms') := by
  induction h with
  | nil => exact h'
  | hidden hv _ ih => exact .hidden hv ih
  | plain hv hf ht hc _ ih => exact .plain hv hf ht hc ih
  | flattened hm hin _ _ ih =>
    rw [List.append_assoc]
    exact .flattened hm hin ih

/-- The members of a flattened field are those of its struct. -/
theorem of_merges {j : TypeFacts} (h : T.Splices (f :: rest) ms) (hm : T.Merges f j) :
    ∃ here later, T.Splices (T.fields j.id) here ∧ T.Splices rest later ∧ ms = here ++ later := by
  cases h with
  | hidden hv _ => rw [hm.isVisible] at hv; cases hv
  | plain _ hf _ _ _ => rw [hm.1] at hf; cases hf
  | flattened hm' hin hlater =>
    cases hm.unique hm'
    exact ⟨_, _, hin, hlater, rfl⟩

/-- A flattened field on its own makes the members of its struct. -/
theorem of_fields {j : TypeFacts} (hm : T.Merges f j) (h : T.Splices (T.fields j.id) ms) :
    T.Splices [f] ms := by
  have hpart := Splices.flattened hm h .nil
  rwa [List.append_nil] at hpart

/-- The first field has its part in front of the members. -/
theorem of_cons (h : T.Splices (f :: rest) ms) :
    ∃ part later, T.Splices [f] part ∧ T.Splices rest later ∧ ms = part ++ later := by
  cases h with
  | hidden hv hlater => exact ⟨[], ms, .hidden hv .nil, hlater, rfl⟩
  | plain hv hf ht hc hlater => exact ⟨[_], _, .plain hv hf ht hc .nil, hlater, rfl⟩
  | flattened hm hin hlater => exact ⟨_, _, of_fields hm hin, hlater, rfl⟩

theorem of_append (h : T.Splices (fields ++ fields') ms) :
    ∃ before after, T.Splices fields before ∧ T.Splices fields' after ∧ ms = before ++ after := by
  induction fields generalizing ms with
  | nil => exact ⟨[], ms, .nil, h, rfl⟩
  | cons f rest ih =>
    obtain ⟨part, later, hpart, hlater, rfl⟩ := of_cons h
    obtain ⟨before, after, hbefore, hafter, rfl⟩ := ih hlater
    exact ⟨part ++ before, after, hpart.append hbefore, hafter, by rw [List.append_assoc]⟩

/-- Fields make their members one by one. -/
theorem iff_parts : T.Splices fields ms
    ↔ ∃ parts, List.Forall₂ (fun f part => T.Splices [f] part) fields parts
      ∧ ms = parts.flatten := by
  constructor
  · intro h
    induction fields generalizing ms with
    | nil =>
      cases h
      exact ⟨[], .nil, rfl⟩
    | cons f rest ih =>
      obtain ⟨part, later, hpart, hlater, rfl⟩ := of_cons h
      obtain ⟨parts, hparts, rfl⟩ := ih hlater
      exact ⟨part :: parts, .cons hpart hparts, rfl⟩
  · rintro ⟨parts, hparts, rfl⟩
    induction hparts with
    | nil => exact .nil
    | cons hpart _ ih => exact append hpart ih

/-- There is one way to make members. -/
theorem unique (h : T.Splices fields ms) (h' : T.Splices fields ms') : ms = ms' := by
  induction h generalizing ms' with
  | nil =>
    cases h'
    rfl
  | hidden hv _ ih =>
    cases h' with
    | hidden _ hlater => exact ih hlater
    | plain hv' _ _ _ _ => rw [hv] at hv'; cases hv'
    | flattened hm _ _ => rw [hm.isVisible] at hv; cases hv
  | plain hv hf ht _ _ ih =>
    cases h' with
    | hidden hv' _ => rw [hv] at hv'; cases hv'
    | plain _ _ ht' _ hlater =>
      rw [ht] at ht'
      cases ht'
      rw [ih hlater]
    | flattened hm _ _ => rw [hm.1] at hf; cases hf
  | flattened hm _ _ ihIn ih =>
    obtain ⟨here, later, hin, hlater, rfl⟩ := h'.of_merges hm
    rw [ihIn hin, ih hlater]

end Splices

/-! ## Walks that end well -/

section Walks

variable {path : List TypeId} {ms : List Descriptor} {d : Descriptor} {i : TypeFacts}

/-- What a field contributes to a walk it also makes, if the structs it is walked into do. -/
theorem Yields.splices {f : Field} {part : List Descriptor} (h : T.Yields path f part)
    (hin : ∀ {e : Descriptor} {j : TypeFacts}, T.membersFrom path e = .ok part → e.facts = some j →
      T.Splices (T.fields j.id) part) : T.Splices [f] part := by
  cases h with
  | hidden hv => exact .hidden hv .nil
  | plain hv hf ht hc => exact .plain hv hf ht hc .nil
  | flattened hf ht hk hwalked =>
    obtain ⟨j, hj, hjk⟩ := exists_facts_of_hasKind hk
    exact .of_fields ⟨hf, _, ht, hj, hjk⟩ (hin hwalked hj)

/-- **A walk that ends well makes what the fields make.** -/
theorem splices_of_membersFrom (hi : d.facts = some i) (h : T.membersFrom path d = .ok ms) :
    T.Splices (T.fields i.id) ms := by
  induction path using path_induction (T := T) generalizing d i ms with
  | _ path ih =>
    obtain ⟨hp, hms⟩ := (membersFrom_eq_ok hi).1 h
    obtain ⟨parts, hparts, rfl⟩ := membersOf_eq_ok hms
    by_cases hfields : T.fields i.id = []
    · rw [hfields] at hparts ⊢
      cases hparts
      exact .nil
    · exact Splices.iff_parts.2
        ⟨parts, hparts.imp fun _ _ hy => hy.splices fun hwalked hj => ih i.id hp hfields hj hwalked,
          rfl⟩

end Walks

/-! ## Structs that can be flattened -/

/-- The visible fields of a struct have types, which can be described, and those of the flattened ones
are structs. -/
def Spliceable (T : TypeTable) (a : TypeId) : Prop :=
  ∀ f ∈ T.fields a, f.isVisible = true → ∃ t, f.type = some t ∧ T.isCircular t = false
    ∧ (f.flattened = true → ∃ j, T.facts? t = some j ∧ j.kind = .struct)

/-- No chain of flattened fields leads to a struct that is at fault or flattens itself. -/
def Resolves (T : TypeTable) (a : TypeId) : Prop :=
  ∀ y, ReflTransGen T.Flattens a y → T.Spliceable y ∧ ¬ TransGen T.Flattens y y

theorem Resolves.of_flattens {a b : TypeId} (h : T.Resolves a) (hb : T.Flattens a b) :
    T.Resolves b :=
  fun y hy => h y (.head hb hy)

theorem resolves_of_spliceable {a : TypeId} (h : T.Spliceable a)
    (hnext : ∀ b, T.Flattens a b → T.Resolves b) : T.Resolves a := by
  intro y hy
  rcases Relation.ReflTransGen.cases_head hy with rfl | ⟨b, hb, hy⟩
  · refine ⟨h, fun hcycle => ?_⟩
    -- a struct that comes back to itself does so through one that it flattens
    obtain ⟨b, hb, hback⟩ := Relation.TransGen.head'_iff.1 hcycle
    exact (hnext b hb _ hback).2 hcycle
  · exact hnext b hb y hy

/-- What a struct needs of one of its fields. -/
def FieldResolves (T : TypeTable) (f : Field) : Prop :=
  f.isVisible = true → ∃ t, f.type = some t ∧ T.isCircular t = false
    ∧ (f.flattened = true → ∃ j, T.facts? t = some j ∧ j.kind = .struct ∧ T.Resolves j.id)

theorem resolves_of_fields {a : TypeId} (h : ∀ f ∈ T.fields a, T.FieldResolves f) :
    T.Resolves a := by
  refine resolves_of_spliceable (fun f hf hv => ?_) fun b hb => ?_
  · obtain ⟨t, ht, hc, hstruct⟩ := h f hf hv
    refine ⟨t, ht, hc, fun hflat => ?_⟩
    obtain ⟨j, hj, hk, _⟩ := hstruct hflat
    exact ⟨j, hj, hk⟩
  · obtain ⟨f, hf, hflat, t, j, ht, hj, _, rfl⟩ := hb
    obtain ⟨t', ht', _, hstruct⟩ := h f hf (isVisible_of_flattened hflat)
    rw [ht] at ht'
    cases ht'
    obtain ⟨j', hj', _, hres⟩ := hstruct hflat
    rw [hj] at hj'
    cases hj'
    exact hres

/-- **A derivation has met nothing that is at fault.** -/
theorem Splices.fieldResolves {fields : List Field} {ms : List Descriptor}
    (h : T.Splices fields ms) : ∀ f ∈ fields, T.FieldResolves f := by
  induction h with
  | nil => intro f hf; cases hf
  | hidden hv _ ih =>
    refine List.forall_mem_cons.2 ⟨fun hv' => ?_, ih⟩
    rw [hv] at hv'
    cases hv'
  | plain _ hf ht hc _ ih =>
    refine List.forall_mem_cons.2 ⟨fun _ => ⟨_, ht, hc, fun hf' => ?_⟩, ih⟩
    rw [hf] at hf'
    cases hf'
  | flattened hm _ _ ihIn ih =>
    obtain ⟨_, t, ht, hj, hk⟩ := hm
    refine List.forall_mem_cons.2 ⟨fun _ => ⟨t, ht, not_circular_of_facts? hj, fun _ => ?_⟩, ih⟩
    exact ⟨_, hj, hk, resolves_of_fields ihIn⟩

theorem Splices.resolves {a : TypeId} {ms : List Descriptor} (h : T.Splices (T.fields a) ms) :
    T.Resolves a :=
  resolves_of_fields h.fieldResolves

section Walks

variable {path : List TypeId} {owner : String} {fields : List Field} {ms : List Descriptor}
  {d : Descriptor} {i : TypeFacts}

theorem exists_membersOf (h : ∀ f ∈ fields, f.isVisible = true → ∃ t, f.type = some t
      ∧ T.isCircular t = false ∧ (f.flattened = true → ((T.describe t).through f).hasKind .struct = true
        ∧ ∃ here, T.membersFrom path ((T.describe t).through f) = .ok here)) :
    ∃ ms, T.membersOf path owner fields = .ok ms := by
  induction fields with
  | nil =>
    rw [membersOf]
    exact ⟨[], rfl⟩
  | cons f rest ih =>
    obtain ⟨hf, hrest⟩ := List.forall_mem_cons.1 h
    obtain ⟨later, hlater⟩ := ih hrest
    by_cases hv : f.isVisible = true
    · obtain ⟨t, ht, hc, hwalked⟩ := hf hv
      by_cases hflat : f.flattened = true
      · obtain ⟨hk, here, hhere⟩ := hwalked hflat
        rw [membersOf_of_flattened hflat ht hk, hhere, hlater]
        exact ⟨_, rfl⟩
      · rw [membersOf_of_plain hv (by simpa using hflat) ht hc, hlater]
        exact ⟨_, rfl⟩
    · rw [membersOf_of_hidden (by simpa using hv)]
      exact ⟨later, hlater⟩

/-- A walk ends if all that lies ahead of it is in order and none of it lies behind. -/
theorem exists_membersFrom (hi : d.facts = some i) (hres : T.Resolves i.id)
    (hpath : ∀ y ∈ path, ¬ ReflTransGen T.Flattens i.id y) :
    ∃ ms, T.membersFrom path d = .ok ms := by
  induction path using path_induction (T := T) generalizing d i with
  | _ path ih =>
    have hp : i.id ∉ path := fun hmem => hpath _ hmem .refl
    obtain ⟨ms, hms⟩ : ∃ ms, T.membersOf (i.id :: path) i.fullName (T.fields i.id) = .ok ms := by
      refine exists_membersOf fun f hf hv => ?_
      obtain ⟨hspliceable, hacyclic⟩ := hres _ .refl
      obtain ⟨t, ht, hc, hstruct⟩ := hspliceable f hf hv
      refine ⟨t, ht, hc, fun hflat => ?_⟩
      obtain ⟨j, hj, hk⟩ := hstruct hflat
      have hstep : T.Flattens i.id j.id := ⟨f, hf, hflat, t, j, ht, hj, hk, rfl⟩
      refine ⟨(hasKind_iff hj).2 hk,
        ih i.id hp (List.ne_nil_of_mem hf) hj (hres.of_flattens hstep) ?_⟩
      -- to come back to the struct or to the path would be a cycle, or would have been one before
      refine List.forall_mem_cons.2 ⟨fun hback => ?_, fun y hy hback => ?_⟩
      · exact hacyclic (.head' hstep hback)
      · exact hpath y hy (.head hstep hback)
    exact ⟨ms, (membersFrom_eq_ok hi).2 ⟨hp, hms⟩⟩

/-- **There are members exactly if chains of flattened fields end well.** -/
theorem members_succeed_iff (hi : d.facts = some i) :
    (∃ ms, T.members d = .ok ms) ↔ T.Resolves i.id := by
  constructor
  · rintro ⟨ms, h⟩
    exact (splices_of_membersFrom hi h).resolves
  · intro h
    exact exists_membersFrom hi h fun y hy => by cases hy

/-- **The members of a struct are those that its fields make.** -/
theorem members_eq_ok_iff (hi : d.facts = some i) :
    T.members d = .ok ms ↔ T.Splices (T.fields i.id) ms := by
  constructor
  · exact splices_of_membersFrom hi
  · intro h
    obtain ⟨ms', hms'⟩ := (members_succeed_iff hi).2 h.resolves
    rw [hms', h.unique (splices_of_membersFrom hi hms')]

/-- The part of one field, by a walk that starts with it. -/
theorem splices_singleton_iff {f : Field} {part : List Descriptor} :
    T.Splices [f] part ↔ T.Yields [] f part := by
  constructor
  · intro h
    cases h with
    | hidden hv hrest =>
      cases hrest
      exact .hidden hv
    | plain hv hf ht hc hrest =>
      cases hrest
      exact .plain hv hf ht hc
    | flattened hm hin hrest =>
      cases hrest
      obtain ⟨hf, t, ht, hj, hk⟩ := hm
      rw [List.append_nil]
      exact .flattened hf ht ((hasKind_iff hj).2 hk) ((members_eq_ok_iff hj).2 hin)
  · intro h
    exact h.splices fun hwalked hj => (members_eq_ok_iff hj).1 hwalked

/-- The members of a struct are, field by field, the parts of its fields. -/
theorem members_eq_ok_iff_parts (hi : d.facts = some i) : T.members d = .ok ms
    ↔ ∃ parts, List.Forall₂ (T.Yields []) (T.fields i.id) parts ∧ ms = parts.flatten := by
  rw [members_eq_ok_iff hi, Splices.iff_parts]
  simp only [splices_singleton_iff]

end Walks

/-! ## Fields that are flattened or declared -/

/-- Some flattened fields are replaced by what their structs declare. -/
inductive Unflattened (T : TypeTable) : List Field → List Field → Prop where
  | nil : Unflattened T [] []
  | keep {f : Field} {rest rest' : List Field} : Unflattened T rest rest' →
      Unflattened T (f :: rest) (f :: rest')
  | replace {f : Field} {j : TypeFacts} {rest rest' : List Field} : T.Merges f j →
      Unflattened T rest rest' → Unflattened T (f :: rest) (T.fields j.id ++ rest')

theorem Unflattened.refl (fields : List Field) : T.Unflattened fields fields := by
  induction fields with
  | nil => exact .nil
  | cons f rest ih => exact .keep ih

theorem Merges.redeclared {F : List Field → List Field → Prop} (h : T.Redeclares F T') {f : Field}
    {j : TypeFacts} : T'.Merges f j ↔ T.Merges f j := by
  have hfacts : ∀ t, T'.facts? t = T.facts? t := fun t =>
    congrArg Descriptor.facts (Redeclares.describe h t)
  simp only [Merges, hfacts]

section Unflattening

variable {fields fields' : List Field} {ms : List Descriptor}

/-- To flatten a struct makes no less than to declare its fields. -/
theorem Splices.of_unflattened (hu : T.Unflattened fields fields') (h : T.Splices fields' ms) :
    T.Splices fields ms := by
  induction hu generalizing ms with
  | nil => exact h
  | keep _ ih =>
    obtain ⟨part, later, hpart, hlater, rfl⟩ := h.of_cons
    exact hpart.append (ih hlater)
  | replace hm _ ih =>
    obtain ⟨here, later, hhere, hlater, rfl⟩ := h.of_append
    exact .flattened hm hhere (ih hlater)

variable (h : T.Redeclares T.Unflattened T')

include h

/-- A derivation over the table is one over a table whose structs declare what they flattened. -/
theorem Splices.unflattened (hs : T.Splices fields ms) (hu : T.Unflattened fields fields') :
    T'.Splices fields' ms := by
  induction hs generalizing fields' with
  | nil =>
    cases hu
    exact .nil
  | hidden hv _ ih =>
    cases hu with
    | keep hu => exact .hidden hv (ih hu)
    | replace hm _ => rw [hm.isVisible] at hv; cases hv
  | plain hv hf ht hc _ ih =>
    cases hu with
    | keep hu =>
      rw [← Redeclares.describe h]
      exact .plain hv hf ht ((Redeclares.isCircular h _).trans hc) (ih hu)
    | replace hm _ => rw [hm.1] at hf; cases hf
  | flattened hm _ _ ihIn ih =>
    cases hu with
    | keep hu =>
      have hin := ihIn (Redeclares.fields h Unflattened.refl _)
      exact .flattened ((Merges.redeclared h).2 hm) hin (ih hu)
    | replace hm' hu =>
      cases hm.unique hm'
      exact (ihIn (.refl _)).append (ih hu)

/-- A derivation over such a table is one over the table. -/
theorem Splices.reflattened (hs : T'.Splices fields ms) : T.Splices fields ms := by
  induction hs with
  | nil => exact .nil
  | hidden hv _ ih => exact .hidden hv ih
  | plain hv hf ht hc _ ih =>
    rw [Redeclares.describe h]
    exact .plain hv hf ht ((Redeclares.isCircular h _).symm.trans hc) ih
  | flattened hm _ _ ihIn ih =>
    have hin := ihIn.of_unflattened (Redeclares.fields h Unflattened.refl _)
    exact .flattened ((Merges.redeclared h).1 hm) hin ih

/-- **Whether fields are flattened or declared makes no difference to members.** -/
theorem members_unflattened {d : Descriptor} : T'.members d = .ok ms ↔ T.members d = .ok ms := by
  cases hd : d.facts with
  | none =>
    rw [members, members, membersFrom, membersFrom, hd]
  | some i =>
    have hu := Redeclares.fields h Unflattened.refl i.id
    rw [members_eq_ok_iff hd, members_eq_ok_iff hd]
    constructor
    · intro hs
      exact (hs.reflattened h).of_unflattened hu
    · intro hs
      exact hs.unflattened h hu

end Unflattening

/-! ## Structs that are flattened more than once -/

/-- What is flattened, at whatever depth, is there as a whole. -/
theorem Splices.exists_infix {a y : TypeId} {ms : List Descriptor} (h : T.Splices (T.fields a) ms)
    (hy : ReflTransGen T.Flattens a y) : ∃ here, T.Splices (T.fields y) here ∧ here <:+: ms := by
  induction hy using Relation.ReflTransGen.head_induction_on generalizing ms with
  | refl => exact ⟨ms, h, List.infix_rfl⟩
  | head hstep _ ih =>
    obtain ⟨f, hmem, j, hm, rfl⟩ := exists_merges_of_flattens hstep
    obtain ⟨pre, post, hsplit⟩ := List.append_of_mem hmem
    rw [hsplit] at h
    obtain ⟨before, after, _, hafter, rfl⟩ := h.of_append
    obtain ⟨inner, later, hinner, _, rfl⟩ := hafter.of_merges hm
    obtain ⟨here, hhere, hin⟩ := ih hinner
    exact ⟨here, hhere, hin.trans ⟨before, later, by rw [List.append_assoc]⟩⟩

theorem exists_facts?_of_reflTransGen {a y : TypeId} (ha : ∃ k, T.facts? a = some k ∧ k.id = a)
    (hy : ReflTransGen T.Flattens a y) : ∃ k, T.facts? y = some k ∧ k.id = y := by
  cases hy with
  | refl => exact ha
  | tail _ hstep =>
    obtain ⟨_, _, _, t, k, _, hk, _, rfl⟩ := hstep
    exact ⟨k, (describes_describe t).facts?_id hk, rfl⟩

/-- **A struct is there once for every branch on which it is flattened.** -/
theorem members_of_branches {d : Descriptor} {i b c : TypeFacts} {ms : List Descriptor}
    (hi : d.facts = some i) (h : T.members d = .ok ms) {pre mid post : List Field} {f g : Field}
    (hfields : T.fields i.id = pre ++ f :: (mid ++ g :: post)) (hf : T.Merges f b)
    (hg : T.Merges g c) {y : TypeId} (hb : ReflTransGen T.Flattens b.id y)
    (hc : ReflTransGen T.Flattens c.id y) :
    ∃ here m₁ m₂ m₃, T.members (T.describe y) = .ok here
      ∧ ms = m₁ ++ here ++ m₂ ++ here ++ m₃ := by
  have hs := (members_eq_ok_iff hi).1 h
  rw [hfields] at hs
  obtain ⟨before, after, _, hafter, rfl⟩ := hs.of_append
  obtain ⟨part, later, hpart, hlater, rfl⟩ := hafter.of_merges hf
  obtain ⟨between, rest, _, hrest, rfl⟩ := hlater.of_append
  obtain ⟨part', last, hpart', _, rfl⟩ := hrest.of_merges hg
  obtain ⟨here, hhere, u, v, rfl⟩ := hpart.exists_infix hb
  obtain ⟨here', hhere', u', v', rfl⟩ := hpart'.exists_infix hc
  cases hhere.unique hhere'
  obtain ⟨_, t, _, ht, _⟩ := hf
  obtain ⟨k, hk, rfl⟩ :=
    exists_facts?_of_reflTransGen ⟨b, (describes_describe t).facts?_id ht, rfl⟩ hb
  refine ⟨here, before ++ u, v ++ between ++ u', v' ++ last, (members_eq_ok_iff hk).2 hhere, ?_⟩
  simp only [List.append_assoc]

end TypeTable

/-! ## An example: two ways to one struct -/

namespace Example

open TypeTable

/-- A field that is flattened into its struct. -/
def merged (key : String) : Field := ⟨some key, true, true, [], some (.named key)⟩

def stampDef : TypeDef :=
  ⟨some "Stamp", "app::Stamp", true, .struct [property "at" (.primitive .i64)]⟩

def authorDef : TypeDef :=
  ⟨some "Author", "app::Author", true,
    .struct [property "name" (.primitive .string), merged "Stamp"]⟩

def editorDef : TypeDef := ⟨some "Editor", "app::Editor", true, .struct [merged "Stamp"]⟩

def articleDef (fields : List Field) : TypeDef :=
  ⟨some "Article", "app::Article", true, .struct fields⟩

/-- An article of these fields, with all that they may be. -/
def articleTable (fields : List Field) : TypeTable :=
  ⟨[("Article", articleDef fields), ("Author", authorDef), ("Editor", editorDef),
    ("Stamp", stampDef)]⟩

/-- An article has an author and an editor, each with a stamp. -/
def articles : TypeTable := articleTable [merged "Author", merged "Editor"]

def article : Descriptor := articles.describe (.named "Article")

def stampedAt : Descriptor :=
  (articles.describe (.primitive .i64)).through (property "at" (.primitive .i64))

def authorName : Descriptor :=
  (articles.describe (.primitive .string)).through (property "name" (.primitive .string))

theorem facts_article : article.facts
    = some ⟨.named "Article", "app::Article", some "Article", true, .struct⟩ :=
  facts?_of_struct (d := articleDef _) rfl rfl

theorem facts?_author : articles.facts? (.named "Author")
    = some ⟨.named "Author", "app::Author", some "Author", true, .struct⟩ :=
  facts?_of_struct (d := authorDef) rfl rfl

theorem facts?_editor : articles.facts? (.named "Editor")
    = some ⟨.named "Editor", "app::Editor", some "Editor", true, .struct⟩ :=
  facts?_of_struct (d := editorDef) rfl rfl

theorem facts?_stamp : articles.facts? (.named "Stamp")
    = some ⟨.named "Stamp", "app::Stamp", some "Stamp", true, .struct⟩ :=
  facts?_of_struct (d := stampDef) rfl rfl

theorem merges_merged {key : String} {j : TypeFacts} (h : articles.facts? (.named key) = some j)
    (hk : j.kind = .struct) : articles.Merges (merged key) j :=
  ⟨rfl, _, rfl, h, hk⟩

theorem fields_author : articles.fields (.named "Author")
    = [property "name" (.primitive .string), merged "Stamp"] :=
  fields_of_struct (d := authorDef) rfl rfl

theorem splices_stamp : articles.Splices [merged "Stamp"] [stampedAt] := by
  refine .of_fields (merges_merged facts?_stamp rfl) ?_
  rw [fields_of_struct (d := stampDef) rfl rfl]
  exact .plain rfl rfl rfl (isCircular_primitive _) .nil

theorem splices_author : articles.Splices [merged "Author"] [authorName, stampedAt] := by
  refine .of_fields (merges_merged facts?_author rfl) ?_
  rw [fields_author]
  exact .plain rfl rfl rfl (isCircular_primitive _) splices_stamp

theorem splices_editor : articles.Splices [merged "Editor"] [stampedAt] := by
  refine .of_fields (merges_merged facts?_editor rfl) ?_
  rw [fields_of_struct (d := editorDef) rfl rfl]
  exact splices_stamp

/-- The same article, if it declares what its author does. -/
theorem redeclares_article : articles.Redeclares articles.Unflattened
    (articleTable [property "name" (.primitive .string), merged "Stamp", merged "Editor"]) := by
  have hfields : articles.Unflattened [merged "Author", merged "Editor"]
      [property "name" (.primitive .string), merged "Stamp", merged "Editor"] := by
    have h := Unflattened.replace (merges_merged facts?_author rfl) (.refl [merged "Editor"])
    rwa [fields_author] at h
  have hsame : ∀ d, TypeDef.Redeclares articles.Unflattened d d := fun d =>
    ⟨rfl, rfl, rfl, .other d.body⟩
  intro key
  simp only [find?, articles, articleTable, List.lookup_cons, List.lookup_nil]
  split
  · exact .some ⟨rfl, rfl, rfl, .struct hfields⟩
  · split
    · exact .some (hsame _)
    · split
      · exact .some (hsame _)
      · split
        · exact .some (hsame _)
        · exact .none

end Example

namespace TypeTable

variable {T : TypeTable}

/-- **Flattening is exact.** The members of a struct are the parts of its declared fields, in order:
nothing for a hidden field, the field as it is reached for a plain one, and the members of its
struct for a flattened one, walked for as if nothing had been walked before. There are members
exactly if, along all chains of flattened fields, visible fields have types that can be described,
flattened ones are structs and no struct flattens itself. They are the same if a table declares, in
any places, the fields of a flattened struct in place of the flattened field. A struct that two fields
lead to is there for either of them. And every member is a visible field that is not flattened. -/
theorem flattening_exact {d : Descriptor} {i : TypeFacts} (hi : d.facts = some i) :
    (∀ ms, T.members d = .ok ms
        ↔ ∃ parts, List.Forall₂ (T.Yields []) (T.fields i.id) parts ∧ ms = parts.flatten)
      ∧ ((∃ ms, T.members d = .ok ms) ↔ T.Resolves i.id)
      ∧ (∀ T', T.Redeclares T.Unflattened T' →
        ∀ ms, T'.members d = .ok ms ↔ T.members d = .ok ms)
      ∧ (∀ ms, T.members d = .ok ms → ∀ pre f mid g post b c y,
        T.fields i.id = pre ++ f :: (mid ++ g :: post) → T.Merges f b → T.Merges g c →
        ReflTransGen T.Flattens b.id y → ReflTransGen T.Flattens c.id y →
        ∃ here m₁ m₂ m₃, T.members (T.describe y) = .ok here
          ∧ ms = m₁ ++ here ++ m₂ ++ here ++ m₃)
      ∧ ∀ ms, T.members d = .ok ms → ∀ m ∈ ms,
        ∃ f, m.field = some f ∧ f.isVisible = true ∧ f.flattened = false := by
  refine ⟨fun ms => members_eq_ok_iff_parts hi, members_succeed_iff hi,
    fun T' hT ms => members_unflattened hT, ?_, ?_⟩
  · intro ms h pre f mid g post b c y hfields hf hg hb hc
    exact members_of_branches hi h hfields hf hg hb hc
  · intro ms h m hm
    obtain ⟨f, t, hv, hf, _, rfl⟩ := isMember_of_mem h hm
    exact ⟨f, rfl, hv, hf⟩

/-- The article has the stamps of its author and of its editor, whether it flattens its author or
declares the author's fields. -/
theorem flattening_exact_article :
    Example.articles.members Example.article
        = .ok [Example.authorName, Example.stampedAt, Example.stampedAt]
      ∧ (Example.articleTable [Example.property "name" (.primitive .string), Example.merged "Stamp",
          Example.merged "Editor"]).members Example.article
        = .ok [Example.authorName, Example.stampedAt, Example.stampedAt] := by
  obtain ⟨hparts, _, hdeclared, _⟩ := flattening_exact Example.facts_article
  have hmembers : Example.articles.members Example.article
      = .ok [Example.authorName, Example.stampedAt, Example.stampedAt] := by
    refine (hparts _).2 ⟨[[Example.authorName, Example.stampedAt], [Example.stampedAt]], ?_, rfl⟩
    rw [fields_of_struct (d := Example.articleDef _) rfl rfl]
    exact .cons (splices_singleton_iff.1 Example.splices_author)
      (.cons (splices_singleton_iff.1 Example.splices_editor) .nil)
  exact ⟨hmembers, (hdeclared _ Example.redeclares_article _).2 hmembers⟩

end TypeTable

end ApiAtlas
