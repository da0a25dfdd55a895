import Mathlib.Logic.Relation
import ApiAtlas.Proofs.Slices

/-!
# Chains of flattened structs

`Flattens a b` says that a field of `a` is flattened and is a struct `b`, and `Shows a m` that a
chain of such fields leads from `a` to a struct with the plain field `m`. Neither knows of a path of
types that are being walked.

The walk for members has such a path, and it is exact. If the walk ends with members, they are all
that is shown (`mem_members_iff`), and no chain that starts there comes back to where it was
(`not_cycle_of_members`). If it reports an endless type, that type flattens itself
(`cycle_of_members_error`): to be met twice, on two chains, is no reason for it.
-/

namespace ApiAtlas

open Relation (ReflTransGen TransGen)

/-! ## Walks that keep a path -/

section Paths

universe u

variable {α : Type u} {step : α → α → Prop} {Good : List α → α → Prop}

/-- Where a walk that puts all it leaves on its path, and never stands on its path, can come by. -/
theorem good_of_reflTransGen (hstep : ∀ path a b, Good path a → step a b → Good (a :: path) b)
    {path : List α} {a b : α} (ha : Good path a) (h : ReflTransGen step a b) :
    ∃ path', Good path' b := by
  induction h with
  | refl => exact ⟨path, ha⟩
  | tail _ hbc ih =>
    obtain ⟨path', hb⟩ := ih
    exact ⟨_, hstep path' _ _ hb hbc⟩

/-- Such a walk does not come by a place that it could come back to. -/
theorem not_transGen_of_good (hfresh : ∀ path a, Good path a → a ∉ path)
    (hstep : ∀ path a b, Good path a → step a b → Good (a :: path) b)
    {path : List α} {a b : α} (ha : Good path a) (h : ReflTransGen step a b) :
    ¬ TransGen step b b := by
  obtain ⟨path, hb⟩ := good_of_reflTransGen hstep ha h
  -- what was left stays on the path
  have hleft : ∀ c, TransGen step b c → ∃ path', b ∈ path' ∧ Good path' c := by
    intro c hc
    induction hc with
    | single hbc => exact ⟨b :: path, List.mem_cons_self, hstep path b _ hb hbc⟩
    | tail _ hcd ih =>
      obtain ⟨path', hmem, hc⟩ := ih
      exact ⟨_, List.mem_cons_of_mem _ hmem, hstep path' _ _ hc hcd⟩
  intro hcycle
  obtain ⟨path', hmem, hgood⟩ := hleft b hcycle
  exact hfresh path' b hgood hmem

end Paths

namespace TypeTable

variable {T : TypeTable}

/-- **Induction along a path of types.** A walk that puts each struct with fields on its path, and
enters none that is on it, can be reasoned about as if the walks of its parts were done. -/
theorem path_induction {P : List TypeId → Prop}
    (h : ∀ path, (∀ id, id ∉ path → T.fields id ≠ [] → P (id :: path)) → P path)
    (path : List TypeId) : P path := by
  induction hn : unvisited T.structIds path using Nat.strongRecOn generalizing path with
  | ind n ih =>
    refine h path fun id hid hfields => ih _ ?_ (id :: path) rfl
    rw [← hn]
    exact unvisited_cons_lt (mem_structIds_of_fields hfields) hid

/-- A struct with a member has a field. -/
theorem fields_ne_nil_of_member {d m : Descriptor} {i : TypeFacts} {ms : List Descriptor}
    (hi : d.facts = some i) (hms : T.members d = .ok ms) (hm : m ∈ ms) : T.fields i.id ≠ [] := by
  intro hf
  rw [members_of_fields_eq_nil hi hf] at hms
  cases hms
  cases hm

/-- A table's descriptor bears the name that the table gives its type. -/
theorem Describes.fullName_id {d : Descriptor} {i : TypeFacts} (hd : T.Describes d)
    (hi : d.facts = some i) : T.fullName i.id = i.fullName := by
  obtain ⟨t, ht⟩ := hd
  obtain ⟨k, _, hk⟩ := Option.map_eq_some_iff.1 (ht.symm.trans hi)
  rw [← hk]

theorem describes_through {t : TypeExpr} {f : Field} : T.Describes ((T.describe t).through f) :=
  ⟨t, rfl⟩

/-! ## The two relations -/

/-- A field of `a` is flattened and is a struct `b`. -/
def Flattens (T : TypeTable) (a b : TypeId) : Prop :=
  ∃ f ∈ T.fields a, f.flattened = true ∧ ∃ t i, f.type = some t ∧ T.facts? t = some i
    ∧ i.kind = .struct ∧ i.id = b

/-- A plain field, as it is reached, is declared by `a` or by a struct that a chain of flattened
fields leads to. -/
inductive Shows (T : TypeTable) : TypeId → Descriptor → Prop where
  | plain {a : TypeId} {f : Field} {t : TypeExpr} : f ∈ T.fields a → f.isVisible = true →
      f.flattened = false → f.type = some t → T.isCircular t = false →
      Shows T a ((T.describe t).through f)
  | within {a b : TypeId} {m : Descriptor} : T.Flattens a b → Shows T b m → Shows T a m

/-! ## One field -/

section Fields

variable {path : List TypeId} {owner : String} {f : Field} {rest : List Field}

theorem membersOf_of_hidden (hv : f.isVisible = false) :
    T.membersOf path owner (f :: rest) = T.membersOf path owner rest := by
  rw [membersOf]
  simp [hv]

theorem membersOf_of_untyped (hv : f.isVisible = true) (ht : f.type = none) :
    T.membersOf path owner (f :: rest) = .error (.defect (.untypedField f.label owner)) := by
  rw [membersOf]
  simp [hv, ht]

theorem membersOf_of_circular {t : TypeExpr} (hv : f.isVisible = true) (ht : f.type = some t)
    (hc : T.isCircular t = true) : T.membersOf path owner (f :: rest) = .error .noEnd := by
  rw [membersOf]
  simp [hv, ht, hc]

theorem membersOf_of_plain {t : TypeExpr} (hv : f.isVisible = true) (hf : f.flattened = false)
    (ht : f.type = some t) (hc : T.isCircular t = false) : T.membersOf path owner (f :: rest)
      = (T.membersOf path owner rest).map ((T.describe t).through f :: ·) := by
  rw [membersOf]
  simp [hv, ht, hf, hc]
  rfl

theorem isVisible_of_flattened (hf : f.flattened = true) : f.isVisible = true := by
  simp [Field.isVisible, hf]

theorem membersOf_of_nonStruct {t : TypeExpr} (hf : f.flattened = true) (ht : f.type = some t)
    (hc : T.isCircular t = false) (hk : ((T.describe t).through f).hasKind .struct = false) :
    T.membersOf path owner (f :: rest)
      = .error (.flattenedNonStruct f.label ((T.describe t).through f).fullName) := by
  rw [membersOf]
  simp [isVisible_of_flattened hf, ht, hf, hc, hk]

/-- A struct has been described. -/
theorem not_circular_of_hasKind {t : TypeExpr} {k : Kind}
    (hk : ((T.describe t).through f).hasKind k = true) : T.isCircular t = false := by
  obtain ⟨i, hi, _⟩ := exists_facts_of_hasKind hk
  exact not_circular_of_facts? hi

theorem membersOf_of_flattened {t : TypeExpr} (hf : f.flattened = true) (ht : f.type = some t)
    (hk : ((T.describe t).through f).hasKind .struct = true) :
    T.membersOf path owner (f :: rest)
      = (T.membersFrom path ((T.describe t).through f)).bind fun here =>
        (T.membersOf path owner rest).map (here ++ ·) := by
  rw [membersOf]
  simp [isVisible_of_flattened hf, ht, hf, not_circular_of_hasKind hk, hk]
  rfl

/-- What a field is to the walk: passed over, a defect, without end, plain, or flattened. -/
theorem field_cases (T : TypeTable) (f : Field) :
    f.isVisible = false
      ∨ f.isVisible = true ∧ f.type = none
      ∨ (∃ t, f.isVisible = true ∧ f.type = some t ∧ T.isCircular t = true)
      ∨ (∃ t, f.isVisible = true ∧ f.flattened = false ∧ f.type = some t ∧ T.isCircular t = false)
      ∨ (∃ t, f.flattened = true ∧ f.type = some t ∧ T.isCircular t = false
        ∧ ((T.describe t).through f).hasKind .struct = false)
      ∨ ∃ t, f.flattened = true ∧ f.type = some t
        ∧ ((T.describe t).through f).hasKind .struct = true := by
  by_cases hv : f.isVisible = true
  · cases ht : f.type with
    | none => exact .inr (.inl ⟨hv, rfl⟩)
    | some t =>
      by_cases hc : T.isCircular t = true
      · exact .inr (.inr (.inl ⟨t, hv, rfl, hc⟩))
      · have hc : T.isCircular t = false := by simpa using hc
        by_cases hf : f.flattened = true
        · by_cases hk : ((T.describe t).through f).hasKind .struct = true
          · exact .inr (.inr (.inr (.inr (.inr ⟨t, hf, rfl, hk⟩))))
          · exact .inr (.inr (.inr (.inr (.inl ⟨t, hf, rfl, hc, by simpa using hk⟩))))
        · exact .inr (.inr (.inr (.inl ⟨t, hv, by simpa using hf, rfl, hc⟩)))
  · exact .inl (by simpa using hv)

/-- A flattened field of a struct takes one step along a chain. -/
theorem flattens_of_field {a : TypeId} {t : TypeExpr} {i : TypeFacts} (hmem : f ∈ T.fields a)
    (hf : f.flattened = true) (ht : f.type = some t)
    (hi : ((T.describe t).through f).facts = some i)
    (hk : ((T.describe t).through f).hasKind .struct = true) : T.Flattens a i.id :=
  ⟨f, hmem, hf, t, i, ht, hi, (hasKind_iff hi).1 hk, rfl⟩

end Fields

/-! ## What a walk that ends has found -/

section Members

variable {path : List TypeId} {owner : String} {fields : List Field} {ms : List Descriptor}

/-- A struct that was walked was not on the path, and its fields give its members. -/
theorem membersFrom_eq_ok {d : Descriptor} {i : TypeFacts} (hi : d.facts = some i) :
    T.membersFrom path d = .ok ms
      ↔ i.id ∉ path ∧ T.membersOf (i.id :: path) i.fullName (T.fields i.id) = .ok ms := by
  rw [membersFrom, hi]
  by_cases hp : i.id ∈ path
  · simp [hp]
  · simp [hp]

/-- What a field contributes to the members: nothing, itself, or the members of its struct. -/
inductive Yields (T : TypeTable) (path : List TypeId) (f : Field) : List Descriptor → Prop where
  | hidden : f.isVisible = false → Yields T path f []
  | plain {t : TypeExpr} : f.isVisible = true → f.flattened = false → f.type = some t →
      T.isCircular t = false → Yields T path f [(T.describe t).through f]
  | flattened {t : TypeExpr} {here : List Descriptor} : f.flattened = true → f.type = some t →
      ((T.describe t).through f).hasKind .struct = true →
      T.membersFrom path ((T.describe t).through f) = .ok here → Yields T path f here

/-- The members of a list of fields are what its fields contribute, in order. -/
theorem membersOf_eq_ok (h : T.membersOf path owner fields = .ok ms) :
    ∃ parts, List.Forall₂ (T.Yields path) fields parts ∧ ms = parts.flatten := by
  induction fields generalizing ms with
  | nil =>
    rw [membersOf] at h
    cases h
    exact ⟨[], .nil, rfl⟩
  | cons f rest ih =>
    rcases field_cases T f with hv | ⟨hv, ht⟩ | ⟨t, hv, ht, hc⟩ | ⟨t, hv, hf, ht, hc⟩
      | ⟨t, hf, ht, hc, hk⟩ | ⟨t, hf, ht, hk⟩
    · rw [membersOf_of_hidden hv] at h
      obtain ⟨parts, hparts, rfl⟩ := ih h
      exact ⟨[] :: parts, .cons (.hidden hv) hparts, rfl⟩
    · rw [membersOf_of_untyped hv ht] at h
      cases h
    · rw [membersOf_of_circular hv ht hc] at h
      cases h
    · rw [membersOf_of_plain hv hf ht hc] at h
      obtain ⟨later, hlater, rfl⟩ := map_eq_ok.1 h
      obtain ⟨parts, hparts, rfl⟩ := ih hlater
      exact ⟨_ :: parts, .cons (.plain hv hf ht hc) hparts, rfl⟩
    · rw [membersOf_of_nonStruct hf ht hc hk] at h
      cases h
    · rw [membersOf_of_flattened hf ht hk] at h
      obtain ⟨here, hhere, h⟩ := bind_eq_ok.1 h
      obtain ⟨later, hlater, rfl⟩ := map_eq_ok.1 h
      obtain ⟨parts, hparts, rfl⟩ := ih hlater
      exact ⟨here :: parts, .cons (.flattened hf ht hk hhere) hparts, rfl⟩

/-- A flattened field contributes the members of its struct, which was walked for them. -/
theorem Yields.of_flattened {f : Field} {t : TypeExpr} {here : List Descriptor}
    (h : T.Yields path f here) (hf : f.flattened = true) (ht : f.type = some t) :
    T.membersFrom path ((T.describe t).through f) = .ok here := by
  cases h with
  | hidden hv => rw [isVisible_of_flattened hf] at hv; cases hv
  | plain _ hf' _ _ => rw [hf] at hf'; cases hf'
  | flattened _ ht' _ hhere =>
    rw [ht] at ht'
    cases ht'
    exact hhere

theorem Yields.of_plain {f : Field} {t : TypeExpr} {here : List Descriptor}
    (h : T.Yields path f here) (hv : f.isVisible = true) (hf : f.flattened = false)
    (ht : f.type = some t) : here = [(T.describe t).through f] := by
  cases h with
  | hidden hv' => rw [hv] at hv'; cases hv'
  | plain _ _ ht' _ =>
    rw [ht] at ht'
    cases ht'
    rfl
  | flattened hf' _ _ _ => rw [hf] at hf'; cases hf'

/-- Along whatever path, the members of a struct are all that it shows. -/
theorem mem_membersFrom_iff {d m : Descriptor} {i : TypeFacts} (hi : d.facts = some i)
    (h : T.membersFrom path d = .ok ms) : m ∈ ms ↔ T.Shows i.id m := by
  induction path using path_induction (T := T) generalizing d i ms with
  | _ path ih =>
    obtain ⟨hp, hms⟩ := (membersFrom_eq_ok hi).1 h
    obtain ⟨parts, hparts, rfl⟩ := membersOf_eq_ok hms
    constructor
    · intro hm
      obtain ⟨here, hhere, hm⟩ := List.mem_flatten.1 hm
      obtain ⟨f, hmem, hyields⟩ := exists_of_mem_right hparts hhere
      cases hyields with
      | hidden => cases hm
      | plain hv hf ht hc =>
        rw [List.mem_singleton.1 hm]
        exact .plain hmem hv hf ht hc
      | flattened hf ht hk hwalked =>
        obtain ⟨j, hj, _⟩ := exists_facts_of_hasKind hk
        have hinner := ih i.id hp (List.ne_nil_of_mem hmem) hj hwalked
        exact .within (flattens_of_field hmem hf ht hj hk) (hinner.1 hm)
    · intro hshows
      cases hshows with
      | plain hmem hv hf ht _ =>
        obtain ⟨here, hhere, hyields⟩ := exists_of_mem_left hparts hmem
        refine List.mem_flatten.2 ⟨here, hhere, ?_⟩
        rw [hyields.of_plain hv hf ht]
        exact List.mem_singleton_self _
      | within hstep hshows =>
        obtain ⟨f, hmem, hf, t, j, ht, hj, _, rfl⟩ := hstep
        obtain ⟨here, hhere, hyields⟩ := exists_of_mem_left hparts hmem
        have hinner := ih i.id hp (List.ne_nil_of_mem hmem) hj (hyields.of_flattened hf ht)
        exact List.mem_flatten.2 ⟨here, hhere, hinner.2 hshows⟩

/-- **The members of a struct are what it shows.** -/
theorem mem_members_iff {d m : Descriptor} {i : TypeFacts} (hi : d.facts = some i)
    (h : T.members d = .ok ms) : m ∈ ms ↔ T.Shows i.id m :=
  mem_membersFrom_iff hi h

/-- The visible fields of a struct that was walked have types that can be described. -/
theorem Yields.not_circular {f : Field} {t : TypeExpr} {here : List Descriptor}
    (h : T.Yields path f here) (hv : f.isVisible = true) (ht : f.type = some t) :
    T.isCircular t = false := by
  cases h with
  | hidden hv' => rw [hv] at hv'; cases hv'
  | plain _ _ ht' hc =>
    rw [ht] at ht'
    cases ht'
    exact hc
  | flattened _ ht' hk _ =>
    rw [ht] at ht'
    cases ht'
    exact not_circular_of_hasKind hk

/-- Some descriptor of the type has members, if the flattened types in `path` lead to it. -/
def Walked (T : TypeTable) (path : List TypeId) (a : TypeId) : Prop :=
  ∃ e i ms, e.facts = some i ∧ i.id = a ∧ T.membersFrom path e = .ok ms

theorem Walked.not_mem {a : TypeId} (h : T.Walked path a) : a ∉ path := by
  obtain ⟨e, i, ms, hi, rfl, hms⟩ := h
  exact ((membersFrom_eq_ok hi).1 hms).1

theorem Walked.exists_yields {a : TypeId} (h : T.Walked path a) {f : Field} (hf : f ∈ T.fields a) :
    ∃ here, T.Yields (a :: path) f here := by
  obtain ⟨e, i, ms, hi, rfl, hms⟩ := h
  obtain ⟨parts, hparts, _⟩ := membersOf_eq_ok ((membersFrom_eq_ok hi).1 hms).2
  obtain ⟨here, _, hyields⟩ := exists_of_mem_left hparts hf
  exact ⟨here, hyields⟩

/-- Along a chain, each struct is walked with all that it was reached through on the path. -/
theorem Walked.step {a b : TypeId} (h : T.Walked path a) (hab : T.Flattens a b) :
    T.Walked (a :: path) b := by
  obtain ⟨f, hmem, hf, t, i, ht, hi, _, rfl⟩ := hab
  obtain ⟨here, hyields⟩ := h.exists_yields hmem
  exact ⟨_, i, here, hi, rfl, hyields.of_flattened hf ht⟩

/-- **A struct with members flattens nothing that flattens itself.** -/
theorem not_cycle_of_members {d : Descriptor} {i : TypeFacts} (hi : d.facts = some i)
    (h : T.members d = .ok ms) {y : TypeId} (hy : ReflTransGen T.Flattens i.id y) :
    ¬ TransGen T.Flattens y y := by
  have hstart : T.Walked [] i.id := ⟨d, i, ms, hi, rfl, h⟩
  exact not_transGen_of_good (fun _ _ hwalked => Walked.not_mem hwalked)
    (fun _ _ _ hwalked hab => Walked.step hwalked hab) hstart hy

/-- The visible fields of a struct with members, and of those that it flattens, can be described. -/
theorem not_circular_of_members {d : Descriptor} {i : TypeFacts} (hi : d.facts = some i)
    (h : T.members d = .ok ms) {b : TypeId} (hb : ReflTransGen T.Flattens i.id b) {f : Field}
    (hf : f ∈ T.fields b) (hv : f.isVisible = true) {t : TypeExpr} (ht : f.type = some t) :
    T.isCircular t = false := by
  have hstart : T.Walked [] i.id := ⟨d, i, ms, hi, rfl, h⟩
  obtain ⟨path, hwalked⟩ :=
    good_of_reflTransGen (fun _ _ _ hwalked hab => Walked.step hwalked hab) hstart hb
  obtain ⟨here, hyields⟩ := hwalked.exists_yields hf
  exact hyields.not_circular hv ht

end Members

/-! ## What a walk that fails has met -/

section Failures

variable {path : List TypeId} {owner name : String}

/-- Fields report an endless type only for a flattened one of them. -/
theorem exists_flattened_of_error {fields : List Field}
    (h : T.membersOf path owner fields = .error (.endlessType name)) :
    ∃ f ∈ fields, ∃ t, f.flattened = true ∧ f.type = some t
      ∧ ((T.describe t).through f).hasKind .struct = true
      ∧ T.membersFrom path ((T.describe t).through f) = .error (.endlessType name) := by
  induction fields with
  | nil =>
    rw [membersOf] at h
    cases h
  | cons f rest ih =>
    have hrest : T.membersOf path owner rest = .error (.endlessType name) →
        ∃ g ∈ f :: rest, ∃ t, g.flattened = true ∧ g.type = some t
          ∧ ((T.describe t).through g).hasKind .struct = true
          ∧ T.membersFrom path ((T.describe t).through g) = .error (.endlessType name) := by
      intro h
      obtain ⟨g, hg, hfound⟩ := ih h
      exact ⟨g, List.mem_cons_of_mem _ hg, hfound⟩
    rcases field_cases T f with hv | ⟨hv, ht⟩ | ⟨t, hv, ht, hc⟩ | ⟨t, hv, hf, ht, hc⟩
      | ⟨t, hf, ht, hc, hk⟩ | ⟨t, hf, ht, hk⟩
    · rw [membersOf_of_hidden hv] at h
      exact hrest h
    · rw [membersOf_of_untyped hv ht] at h
      cases h
    · rw [membersOf_of_circular hv ht hc] at h
      cases h
    · rw [membersOf_of_plain hv hf ht hc] at h
      exact hrest (map_eq_error.1 h)
    · rw [membersOf_of_nonStruct hf ht hc hk] at h
      cases h
    · rw [membersOf_of_flattened hf ht hk] at h
      rcases bind_eq_error.1 h with h | ⟨here, _, h⟩
      · exact ⟨f, List.mem_cons_self, t, hf, ht, hk, h⟩
      · exact hrest (map_eq_error.1 h)

/-- The endless type is on the path or flattens itself, and a chain leads to it. -/
theorem met_of_membersFrom_error {d : Descriptor} {i : TypeFacts} (hd : T.Describes d)
    (hi : d.facts = some i) (h : T.membersFrom path d = .error (.endlessType name)) :
    ∃ y, ReflTransGen T.Flattens i.id y ∧ T.fullName y = name
      ∧ (y ∈ path ∨ TransGen T.Flattens y y) := by
  induction path using path_induction (T := T) generalizing d i with
  | _ path ih =>
    rw [membersFrom, hi] at h
    by_cases hp : i.id ∈ path
    · simp only [if_pos hp, Except.error.injEq, Error.endlessType.injEq] at h
      exact ⟨i.id, .refl, by rw [hd.fullName_id hi, h], .inl hp⟩
    · simp only [if_neg hp] at h
      obtain ⟨f, hmem, t, hf, ht, hk, h⟩ := exists_flattened_of_error h
      obtain ⟨j, hj, _⟩ := exists_facts_of_hasKind hk
      have hstep := flattens_of_field hmem hf ht hj hk
      obtain ⟨y, hy, hname, hmet⟩ :=
        ih i.id hp (List.ne_nil_of_mem hmem) describes_through hj h
      refine ⟨y, .head hstep hy, hname, ?_⟩
      rcases hmet with hmet | hcycle
      · rcases List.mem_cons.1 hmet with rfl | hmet
        -- the struct itself is met again below itself
        · exact .inr (.head' hstep hy)
        · exact .inl hmet
      · exact .inr hcycle

/-- **A walk reports an endless type only if it flattens itself.** -/
theorem cycle_of_members_error {d : Descriptor} {i : TypeFacts} (hd : T.Describes d)
    (hi : d.facts = some i) (h : T.members d = .error (.endlessType name)) :
    ∃ y, ReflTransGen T.Flattens i.id y ∧ TransGen T.Flattens y y ∧ T.fullName y = name := by
  obtain ⟨y, hy, hname, hmet⟩ := met_of_membersFrom_error hd hi h
  rcases hmet with hmet | hcycle
  · cases hmet
  · exact ⟨y, hy, hcycle, hname⟩

end Failures

end TypeTable

end ApiAtlas
