import ApiAtlas.Proofs.Correspondence

/-!
# What composed rules can tell

Descriptors are alike if they are of one type and come through the same field; they may differ in how
the field's type is wrapped and, if options are among the wrappers, in whether they may be null. Rules
that are functions could look at all of that, and at what lies inside the type. A composed rule looks
at whether a descriptor may be null to decide about `nullable`, at nothing that was written before and
into no type; so over alike descriptors it writes the same, except for `nullable`.
-/

namespace ApiAtlas

/-! ## Alike descriptors -/

/-- The field without its type. -/
def Field.untyped (f : Field) : Field := { f with type := none }

/-- The descriptors are of one type and come through the same field, but for wrappers around the
types of the two. -/
structure Descriptor.Alike (options : Bool) (d e : Descriptor) : Prop where
  facts : d.facts = e.facts
  nullable : options = false → d.nullable = e.nullable
  field : d.field.map Field.untyped = e.field.map Field.untyped

namespace Descriptor.Alike

variable {options : Bool} {d e : Descriptor}

theorem refl (d : Descriptor) : d.Alike options d := ⟨rfl, fun _ => rfl, rfl⟩

/-- What does not look at the type of a field sees the same. -/
theorem look_field {α : Type} (h : d.Alike options e) (look : Option Field → α)
    (hlook : ∀ o, look (o.map Field.untyped) = look o) : look d.field = look e.field := by
  rw [← hlook, h.field, hlook]

theorem tag (h : d.Alike options e) (key : String) : d.tag key = e.tag key :=
  h.look_field (fun o => o.bind (·.tag key)) fun o => by cases o <;> rfl

theorem propertyName (h : d.Alike options e) : d.propertyName = e.propertyName :=
  h.look_field (fun o => o.bind (·.propertyName)) fun o => by cases o <;> rfl

theorem isFlattened (h : d.Alike options e) : d.isFlattened = e.isFlattened :=
  h.look_field (fun o => (o.map fun f : Field => f.flattened).getD false) fun o => by cases o <;> rfl

end Descriptor.Alike

theorem similarity_alike (options : Bool) : Similarity (Descriptor.Alike options) where
  refl := Descriptor.Alike.refl
  facts := fun h => h.facts
  propertyName := fun h => h.propertyName
  isFlattened := fun h => h.isFlattened
  tag := fun h => h.tag

/-! ## Composed rules -/

/-- The attributes without `nullable`. -/
def Attributes.withoutNullable (a : Attributes) : Attributes := a.erase "nullable"

/-- The attributes agree, except for `nullable` if there are `options`. -/
def Attributes.AgreeOn (options : Bool) (a b : Attributes) : Prop :=
  ∀ key, (options = true → key ≠ "nullable") → a.get? key = b.get? key

namespace Attributes.AgreeOn

variable {options : Bool} {a b : Attributes}

theorem insert (h : a.AgreeOn options b) (key value : String) :
    AgreeOn options (a.insert key value) (b.insert key value) := by
  intro key' hkey'
  rw [SortedMap.get?_insert, SortedMap.get?_insert, h key' hkey']

theorem erase (h : a.AgreeOn options b) (key : String) :
    AgreeOn options (a.erase key) (b.erase key) := by
  intro key' hkey'
  rw [SortedMap.get?_erase, SortedMap.get?_erase, h key' hkey']

/-- `nullable` may be put in on one side only if it does not count. -/
theorem insert_nullable (h : a.AgreeOn options b) {n m : Bool} (hnm : options = false → n = m) :
    AgreeOn options (if n then a.insert "nullable" "true" else a)
      (if m then b.insert "nullable" "true" else b) := by
  cases hoptions : options with
  | false =>
    rw [hoptions] at h
    rw [hnm hoptions]
    split
    · exact h.insert _ _
    · exact h
  | true =>
    rw [hoptions] at h
    intro key hkey
    have hinsert : ∀ (c : Attributes) (x : Bool),
        (if x then c.insert "nullable" "true" else c).get? key = c.get? key := by
      intro c x
      split
      · rw [SortedMap.get?_insert, if_neg (hkey rfl)]
      · rfl
    rw [hinsert, hinsert, h key hkey]

theorem withoutNullable (h : a.AgreeOn options b) : a.withoutNullable = b.withoutNullable := by
  refine SortedMap.ext_get? fun key => ?_
  rw [Attributes.withoutNullable, Attributes.withoutNullable, SortedMap.get?_erase,
    SortedMap.get?_erase]
  split
  · rfl
  next hne => exact h key fun _ => hne

theorem eq (h : a.AgreeOn false b) : a = b :=
  SortedMap.ext_get? fun key => h key Bool.noConfusion

end Attributes.AgreeOn

namespace Rule

/-- The rule writes the same for alike descriptors of any two tables, over attributes that agree. -/
def Keeps (options : Bool) (r : Rule) : Prop :=
  ∀ {T T' : TypeTable} {d e : Descriptor} {a b : Attributes}, d.Alike options e →
    a.AgreeOn options b → Attributes.AgreeOn options (r T d a) (r T' e b)

variable {options : Bool}

theorem keeps_nothing : Keeps options nothing := fun _ hab => hab

theorem keeps_set (key value : String) : Keeps options (set key value) :=
  fun _ hab => hab.insert key value

theorem keeps_remove (key : String) : Keeps options (remove key) := fun _ hab => hab.erase key

theorem keeps_typed (schemaType format : String) : Keeps options (typed schemaType format) := by
  intro T T' d e a b hde hab
  refine Attributes.AgreeOn.insert_nullable ?_ hde.nullable
  split
  · exact hab.insert _ _
  · exact (hab.insert _ _).insert _ _

theorem keeps_copyDefault : Keeps options copyDefault := by
  intro T T' d e a b hde hab
  simp only [copyDefault, hde.tag]
  split
  · split
    · exact hab
    · exact hab.insert _ _
  · exact hab

theorem keeps_copyTag (tag key : String) : Keeps options (copyTag tag key) := by
  intro T T' d e a b hde hab
  simp only [copyTag, hde.tag]
  split
  · exact hab.insert _ _
  · exact hab

theorem keeps_whenKind (k : Kind) {r : Rule} (hr : Keeps options r) :
    Keeps options (whenKind k r) := by
  intro T T' d e a b hde hab
  simp only [whenKind, TypeTable.hasKind_congr hde.facts]
  split
  · exact hr hde hab
  · exact hab

theorem keeps_inOrder {rules : List Rule} (h : ∀ r ∈ rules, Keeps options r) :
    Keeps options (inOrder rules) := by
  intro T T' d e a b hde hab
  unfold inOrder
  induction rules generalizing a b with
  | nil => exact hab
  | cons r rest ih =>
    rw [List.foldl_cons, List.foldl_cons]
    exact ih (fun r hr => h r (List.mem_cons_of_mem _ hr)) (h r List.mem_cons_self hde hab)

theorem keeps_builtin (id : TypeId) {extra : List Rule} (h : ∀ r ∈ extra, Keeps options r) :
    Keeps options (builtin id extra) := by
  refine keeps_inOrder fun r hr => ?_
  rcases List.mem_cons.1 hr with rfl | hr
  · unfold builtinBase
    split
    · exact keeps_typed _ _
    · exact keeps_nothing
  · rcases List.mem_cons.1 hr with rfl | hr
    · exact keeps_copyDefault
    · exact h r hr

end Rule

namespace RuleExpr

mutual

/-- A composed rule cannot tell alike descriptors apart but by `nullable`. -/
theorem keeps {options : Bool} : ∀ e : RuleExpr, Rule.Keeps options e.rule
  | .nothing => Rule.keeps_nothing
  | .copyDefault => Rule.keeps_copyDefault
  | .typed schemaType format => Rule.keeps_typed schemaType format
  | .inOrder rs => Rule.keeps_inOrder (keeps_of_mem_rules rs)
  | .builtin type extra => Rule.keeps_builtin type.core (keeps_of_mem_rules extra)
  | .set key value => Rule.keeps_set key value
  | .remove key => Rule.keeps_remove key
  | .copyTag tag key => Rule.keeps_copyTag tag key
  | .whenKind k r => Rule.keeps_whenKind k r.keeps

theorem keeps_of_mem_rules {options : Bool} :
    ∀ es : List RuleExpr, ∀ r ∈ rules es, Rule.Keeps options r
  | [] => fun r hr => by cases hr
  | e :: rest => fun r hr => by
    rcases List.mem_cons.1 hr with rfl | hr
    · exact e.keeps
    · exact keeps_of_mem_rules rest r hr

end

end RuleExpr

/-- All rules of the registry are composed ones. -/
structure Registry.Composed (R : Registry) : Prop where
  byType : ∀ entry ∈ R.byType, ∃ e : RuleExpr, entry.2 = e.rule
  byKind : ∀ entry ∈ R.byKind, ∃ e : RuleExpr, entry.2 = e.rule

namespace Registry.Composed

variable {R : Registry} {options : Bool}

theorem exists_of_rule? (h : R.Composed) {d : Descriptor} {r : Rule} (hr : R.rule? d = some r) :
    ∃ e : RuleExpr, r = e.rule := by
  have hmem : ∀ {κ : Type} [BEq κ] [LawfulBEq κ] {l : List (κ × Rule)} {k : κ},
      l.lookup k = some r → (k, r) ∈ l := by
    intro κ _ _ l k hl
    obtain ⟨before, after, rfl, _⟩ := List.lookup_eq_some_iff.1 hl
    exact List.mem_append_right _ List.mem_cons_self
  obtain ⟨i, _, hr⟩ := Option.bind_eq_some_iff.1 hr
  rcases Option.or_eq_some_iff.1 hr with hr | ⟨_, hr⟩
  · exact h.byType _ (hmem hr)
  · exact h.byKind _ (hmem hr)

theorem agreeOn (h : R.Composed) {T T' : TypeTable} {d e : Descriptor} {r : Rule}
    (hde : d.Alike options e) (hr : R.rule? d = some r) :
    Attributes.AgreeOn options (r.run T d) (r.run T' e) := by
  obtain ⟨expr, rfl⟩ := h.exists_of_rule? hr
  exact expr.keeps hde fun _ _ => rfl

theorem respects (h : R.Composed) (T T' : TypeTable) :
    R.Respects (Descriptor.Alike options) T T' Attributes.withoutNullable :=
  fun hde hr => (h.agreeOn hde hr).withoutNullable

theorem respects_id (h : R.Composed) (T T' : TypeTable) :
    R.Respects (Descriptor.Alike false) T T' id :=
  fun hde hr => (h.agreeOn hde hr).eq

end Registry.Composed

/-! ## Registries of composed rules -/

namespace Registry

variable {R : Registry}

theorem composed_empty : Registry.empty.Composed where
  byType := fun _ hentry => by cases hentry
  byKind := fun _ hentry => by cases hentry

theorem Composed.withKindRule (h : R.Composed) (k : Kind) (e : RuleExpr) :
    (R.withKindRule k e.rule).Composed where
  byType := h.byType
  byKind := fun entry hentry => by
    rcases List.mem_cons.1 hentry with rfl | hentry
    · exact ⟨e, rfl⟩
    · exact h.byKind entry hentry

theorem Composed.withTypeRule (h : R.Composed) (d : Descriptor) (e : RuleExpr) :
    (R.withTypeRule d e.rule).Composed := by
  unfold Registry.withTypeRule
  cases d.facts with
  | none => exact h
  | some i =>
    have hkind : Composed (if i.kind.canonical?.map TypeExpr.primitive = some i.id
        then R.withKindRule i.kind e.rule else R) := by
      split
      · exact h.withKindRule i.kind e
      · exact h
    refine ⟨fun entry hentry => ?_, hkind.byKind⟩
    rcases List.mem_cons.1 hentry with rfl | hentry
    · exact ⟨e, rfl⟩
    · exact hkind.byType entry hentry

theorem Composed.foldl (h : R.Composed) {rules : Descriptor → Rule} {ds : List Descriptor}
    (hds : ∀ d ∈ ds, ∃ e : RuleExpr, rules d = e.rule) :
    (ds.foldl (fun R d => R.withTypeRule d (rules d)) R).Composed := by
  induction ds generalizing R with
  | nil => exact h
  | cons d rest ih =>
    obtain ⟨e, he⟩ := hds d List.mem_cons_self
    rw [List.foldl_cons, he]
    exact ih (h.withTypeRule d e) fun d hd => hds d (List.mem_cons_of_mem _ hd)

/-- The built-in rules are composed. -/
theorem composed_builtin : Registry.builtin.Composed := by
  refine ((composed_empty.foldl fun d hd => ?_).withKindRule .map (.typed "object" "")).withKindRule
    .any .nothing
  obtain ⟨id, hid, rfl⟩ := List.mem_map.1 hd
  obtain ⟨entry, _, rfl⟩ := List.mem_map.1 hid
  refine ⟨.builtin (.primitive entry.1) [], ?_⟩
  rw [Descriptor.id?, TypeTable.describe, TypeTable.facts?_of_primitive]
  rfl

end Registry

end ApiAtlas
