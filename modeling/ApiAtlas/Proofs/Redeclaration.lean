import ApiAtlas.Proofs.Correspondence

/-!
# Tables with other fields

Two tables may have the same definitions but for the fields that structs declare. Everything that is
known about a type apart from its fields is then the same in both: what it is behind its newtypes, its
kind, its names and its element. So the tables correspond as soon as the visible fields of every struct
match (`Redeclares.corresponds`); how the fields are related is left to a relation on lists of fields.
-/

namespace ApiAtlas

/-- The bodies are the same, but for the fields of a struct. -/
inductive TypeBody.Redeclares (F : List Field → List Field → Prop) : TypeBody → TypeBody → Prop where
  | struct {fields fields' : List Field} : F fields fields' →
      Redeclares F (.struct fields) (.struct fields')
  | other (body : TypeBody) : Redeclares F body body

/-- The definitions are the same, but for the fields of a struct. -/
structure TypeDef.Redeclares (F : List Field → List Field → Prop) (d d' : TypeDef) : Prop where
  name : d.name = d'.name
  fullName : d.fullName = d'.fullName
  exported : d.exported = d'.exported
  body : TypeBody.Redeclares F d.body d'.body

/-- The tables give every key the same definition, but for the fields of a struct. -/
def TypeTable.Redeclares (F : List Field → List Field → Prop) (T T' : TypeTable) : Prop :=
  ∀ key, Option.Rel (TypeDef.Redeclares F) (T.find? key) (T'.find? key)

theorem TypeBody.Redeclares.eq_or_struct {F : List Field → List Field → Prop} {b b' : TypeBody}
    (h : b.Redeclares F b') : b = b' ∨ ∃ fields fields', b = .struct fields ∧ b' = .struct fields'
      ∧ F fields fields' := by
  cases h with
  | struct hfields => exact .inr ⟨_, _, rfl, rfl, hfields⟩
  | other body => exact .inl rfl

namespace TypeTable

variable {F : List Field → List Field → Prop} {D : Descriptor → Descriptor → Prop}
  {T T' : TypeTable}

theorem fullName_named (key : String) :
    T.fullName (.named key) = ((T.find? key).map fun d => d.fullName).getD "<empty>" := by
  unfold fullName
  cases T.find? key with
  | none => rfl
  | some d => rfl

theorem mem_keys_iff (key : String) : key ∈ T.keys ↔ (T.find? key).isSome := by
  constructor
  · obtain ⟨defs⟩ := T
    simp only [TypeTable.keys, TypeTable.find?]
    induction defs with
    | nil => intro h; cases h
    | cons e rest ih =>
      intro h
      rw [List.lookup_cons]
      split
      · rfl
      next hne =>
        rcases List.mem_cons.1 h with h | h
        · rw [h, beq_self_eq_true] at hne
          cases hne
        · exact ih h
  · intro h
    obtain ⟨d, hd⟩ := Option.isSome_iff_exists.1 h
    exact mem_keys_of_find? hd

namespace Redeclares

variable (h : T.Redeclares F T')

include h

/-- What a definition says apart from its fields is the same. -/
theorem look_find? {α : Type} (look : Option TypeDef → α)
    (hlook : ∀ d d', TypeDef.Redeclares F d d' → look (some d) = look (some d')) (key : String) :
    look (T'.find? key) = look (T.find? key) := by
  have hfind := h key
  generalize T.find? key = o at hfind
  generalize T'.find? key = o' at hfind
  cases hfind with
  | none => rfl
  | some hd => exact (hlook _ _ hd).symm

theorem find?_bind {α : Type} {look : TypeDef → Option α}
    (hlook : ∀ d d', TypeDef.Redeclares F d d' → look d = look d') (key : String) :
    (T'.find? key).bind look = (T.find? key).bind look :=
  h.look_find? (fun o => o.bind look) hlook key

theorem mem_keys (key : String) : key ∈ T'.keys ↔ key ∈ T.keys := by
  rw [mem_keys_iff, mem_keys_iff]
  exact iff_of_eq (congrArg (· = true) (h.look_find? Option.isSome (fun _ _ _ => rfl) key))

theorem newtype? (key : String) : T'.newtype? key = T.newtype? key := by
  refine h.find?_bind (fun d d' hd => ?_) key
  rcases hd.body.eq_or_struct with hb | ⟨_, _, hb, hb', _⟩
  · rw [hb]
  · rw [hb, hb']

theorem underlyingFrom (visited : List String) (t : TypeExpr) :
    T'.underlyingFrom visited t = T.underlyingFrom visited t := by
  induction visited, t using underlyingFrom.induct T with
  | case1 visited t key hcore inner hnew hvisited =>
    rw [underlyingFrom_of_visited hcore hnew hvisited]
    rw [← h.newtype?] at hnew
    exact underlyingFrom_of_visited hcore hnew hvisited
  | case2 visited t key hcore inner hnew hvisited ih =>
    rw [underlyingFrom_of_newtype hcore hnew hvisited]
    rw [← h.newtype?] at hnew
    rw [underlyingFrom_of_newtype hcore hnew hvisited, ih]
  | case3 visited t key hcore hnew =>
    rw [underlyingFrom_of_not_newtype hcore hnew]
    rw [← h.newtype?] at hnew
    exact underlyingFrom_of_not_newtype hcore hnew
  | case4 visited t hcore =>
    rw [underlyingFrom_of_not_named hcore, underlyingFrom_of_not_named hcore]

theorem underlying (t : TypeExpr) : T'.underlying t = T.underlying t := by
  rw [TypeTable.underlying, TypeTable.underlying, h.underlyingFrom]

theorem isCircular (t : TypeExpr) : T'.isCircular t = T.isCircular t := by
  rw [TypeTable.isCircular, TypeTable.isCircular, h.underlyingFrom]

theorem kind? (t : TypeExpr) : T'.kind? t = T.kind? t := by
  unfold TypeTable.kind?
  rw [h.underlying]
  cases T.underlying t with
  | named key =>
    refine h.find?_bind (fun d d' hd => ?_) key
    rcases hd.body.eq_or_struct with hb | ⟨_, _, hb, hb', _⟩
    · rw [hb]
    · rw [hb, hb']
  | _ => rfl

theorem element? (t : TypeExpr) : T'.element? t = T.element? t := by
  unfold TypeTable.element?
  rw [h.underlying]
  cases T.underlying t with
  | named key =>
    refine h.find?_bind (fun d d' hd => ?_) key
    rcases hd.body.eq_or_struct with hb | ⟨_, _, hb, hb', _⟩
    · rw [hb]
    · rw [hb, hb']
  | primitive p => cases p <;> rfl
  | _ => rfl

theorem fullName (t : TypeExpr) : T'.fullName t = T.fullName t := by
  induction t with
  | named key =>
    rw [fullName_named, fullName_named]
    exact h.look_find? (fun o => (o.map fun d : TypeDef => d.fullName).getD "<empty>")
      (fun d d' hd => hd.fullName) key
  | empty => rfl
  | primitive p => rfl
  | option t ih => exact congrArg (fun s => "core::option::Option<" ++ s ++ ">") ih
  | pointer p t ih => exact congrArg (fun s => p.fullName ++ "<" ++ s ++ ">") ih
  | sequence s t ih => exact congrArg (fun s' => s.fullName ++ "<" ++ s' ++ ">") ih
  | array t n ih => exact congrArg (fun s => "[" ++ s ++ "; " ++ toString n ++ "]") ih
  | dictionary d t ih =>
    exact congrArg (fun s => d.fullName ++ "<alloc::string::String, " ++ s ++ ">") ih

theorem name? (id : TypeId) : T'.name? id = T.name? id := by
  cases id with
  | named key => exact h.find?_bind (fun d d' hd => hd.name) key
  | _ => rfl

theorem isExported (id : TypeId) : T'.isExported id = T.isExported id := by
  cases id with
  | named key =>
    exact h.look_find? (fun o => (o.map fun d : TypeDef => d.exported).getD true)
      (fun d d' hd => hd.exported) key
  | _ => rfl

theorem describe (t : TypeExpr) : T'.describe t = T.describe t := by
  have hfacts : T'.facts? t = T.facts? t := by
    rw [TypeTable.facts?, TypeTable.facts?, h.kind?, h.fullName, h.name?, h.isExported]
  rw [TypeTable.describe, TypeTable.describe, hfacts, TypeTable.isNullable, TypeTable.isNullable,
    h.underlyingFrom]

theorem fields (hF : ∀ fields, F fields fields) (id : TypeId) : F (T.fields id) (T'.fields id) := by
  unfold TypeTable.fields
  split
  · rw [h.underlying]
    split
    next key _ =>
      have hfind := h key
      generalize T.find? key = o at hfind
      generalize T'.find? key = o' at hfind
      cases hfind with
      | none => exact hF []
      | @some d d' hd =>
        obtain ⟨_, _, _, body⟩ := d
        obtain ⟨_, _, _, body'⟩ := d'
        rcases hd.body.eq_or_struct with hb | ⟨fields, fields', hb, hb', hfields⟩
        · simp only at hb
          rw [hb]
          cases body' <;> exact hF _
        · simp only at hb hb'
          rw [hb, hb']
          exact hfields
    · exact hF []
  · exact hF []

/-- **Tables with other fields correspond if visible fields match** and no struct loses or gains all of
its fields. -/
theorem corresponds (hF : ∀ fields, F fields fields) (hD : Similarity D)
    (hnil : ∀ fields fields', F fields fields' → (fields' = [] ↔ fields = []))
    (hmatch : ∀ fields fields', F fields fields' → List.Forall₂ (FieldsMatch D T T')
      (fields.filter (·.isVisible)) (fields'.filter (·.isVisible))) : Corresponds D T T' where
  similar := hD
  describe := h.describe
  element? := h.element?
  isCircular := h.isCircular
  keys := h.mem_keys
  fields_eq_nil := fun id => hnil _ _ (h.fields hF id)
  fields := fun id => hmatch _ _ (h.fields hF id)

end Redeclares

end TypeTable

end ApiAtlas
