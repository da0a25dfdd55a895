import ApiAtlas.Components
import ApiAtlas.Rendering
import ApiAtlas.Proofs.Outcome

/-!
# What an identity determines

A descriptor carries facts about its type, and a type table gives every identity one set of facts.
So two descriptors of one table with the same identity differ at most in the field through which
they were reached and in whether they may be null. Walks and expansions look at the facts alone:
which of several descriptors of a type they start from makes no difference to them.
-/

namespace ApiAtlas.TypeTable

variable {T : TypeTable} {R : Registry}

/-! ## Options and pointers leave no trace -/

theorem underlying_core (t : TypeExpr) : T.underlying t.core = T.underlying t := by
  induction t with
  | option t ih => rw [underlying_option]; exact ih
  | pointer p t ih => rw [underlying_pointer]; exact ih
  | _ => rfl

theorem facts?_core (t : TypeExpr) : T.facts? t.core = T.facts? t := by
  simp only [facts?, kind?, underlying_core, TypeExpr.core_core]

theorem element?_core (t : TypeExpr) : T.element? t.core = T.element? t := by
  simp only [element?, underlying_core]

theorem id_of_facts? {t : TypeExpr} {i : TypeFacts} (h : T.facts? t = some i) : i.id = t.core := by
  obtain ⟨k, _, hk⟩ := Option.map_eq_some_iff.1 h
  rw [← hk]

theorem kind?_of_facts? {t : TypeExpr} {i : TypeFacts} (h : T.facts? t = some i) :
    T.kind? t = some i.kind := by
  obtain ⟨k, hk, rfl⟩ := Option.map_eq_some_iff.1 h
  exact hk

theorem isCircular_option (t : TypeExpr) : T.isCircular (.option t) = T.isCircular t := by
  rw [isCircular, underlyingFrom_option, Option.isNone_map, isCircular]

theorem item?_core (t : TypeExpr) : T.item? t.core = T.item? t := by
  simp only [item?, element?_core]

/-! ## Behind newtypes -/

section Newtypes

variable {visited : List String} {t : TypeExpr} {key : String}

theorem underlyingFrom_of_not_named (h : ∀ key, t.core ≠ .named key) :
    T.underlyingFrom visited t = some (t.core, t.isOptional) := by
  rw [underlyingFrom]
  split
  next key hkey => exact absurd hkey (h key)
  · rfl

theorem underlyingFrom_of_not_newtype (h : t.core = .named key) (hn : T.newtype? key = none) :
    T.underlyingFrom visited t = some (.named key, t.isOptional) := by
  rw [underlyingFrom]
  simp only [h]
  split
  next inner hinner =>
    rw [hn] at hinner
    cases hinner
  · rfl

theorem underlyingFrom_of_visited {inner : TypeExpr} (h : t.core = .named key)
    (hn : T.newtype? key = some inner) (hv : key ∈ visited) :
    T.underlyingFrom visited t = none := by
  rw [underlyingFrom]
  simp only [h]
  split
  next inner' _ => rw [dif_pos hv]
  next hnone =>
    rw [hn] at hnone
    cases hnone

/-- A newtype is what its inner type is, and optional if either is. -/
theorem underlyingFrom_of_newtype {inner : TypeExpr} (h : t.core = .named key)
    (hn : T.newtype? key = some inner) (hv : key ∉ visited) :
    T.underlyingFrom visited t
      = (T.underlyingFrom (key :: visited) inner).map fun u => (u.1, t.isOptional || u.2) := by
  rw [underlyingFrom]
  simp only [h]
  split
  next inner' hinner =>
    rw [hn] at hinner
    cases hinner
    rw [dif_neg hv]
  next hnone =>
    rw [hn] at hnone
    cases hnone

end Newtypes

@[simp]
theorem isCircular_primitive (p : Primitive) : T.isCircular (.primitive p) = false := by
  rw [isCircular, underlyingFrom_of_not_named fun key h => by cases h]
  rfl

theorem isCircular_of_not_newtype {key : String} (hn : T.newtype? key = none) :
    T.isCircular (.named key) = false := by
  rw [isCircular, underlyingFrom_of_not_newtype rfl hn]
  rfl

/-- `n` newtypes lead from a type to what it is at bottom, perhaps through an option. -/
inductive Unwraps (T : TypeTable) : Nat → TypeExpr → TypeId × Bool → Prop where
  | bottom {t : TypeExpr} : (∀ key inner, t.core = .named key → T.newtype? key ≠ some inner) →
      Unwraps T 0 t (t.core, t.isOptional)
  | newtype {n : Nat} {t inner : TypeExpr} {key : String} {u : TypeId × Bool} :
      t.core = .named key → T.newtype? key = some inner → Unwraps T n inner u →
      Unwraps T (n + 1) t (u.1, t.isOptional || u.2)

/-- The number of newtypes depends on the type alone. -/
theorem Unwraps.unique {n m : Nat} {t t' : TypeExpr} {u u' : TypeId × Bool} (h : T.Unwraps n t u)
    (h' : T.Unwraps m t' u') (hcore : t.core = t'.core) : n = m := by
  induction h generalizing m t' u' with
  | bottom hno =>
    cases h' with
    | bottom _ => rfl
    | newtype hkey hn _ => exact absurd hn (hno _ _ (hcore.trans hkey))
  | newtype hkey hn _ ih =>
    cases h' with
    | bottom hno => exact absurd hn (hno _ _ (hcore.symm.trans hkey))
    | newtype hkey' hn' h' =>
      rw [← hcore, hkey] at hkey'
      cases hkey'
      rw [hn] at hn'
      cases hn'
      rw [ih h' rfl]

/-- What a type is found to be, it is. -/
theorem exists_unwraps {visited : List String} {t : TypeExpr} {u : TypeId × Bool}
    (h : T.underlyingFrom visited t = some u) : ∃ n, T.Unwraps n t u := by
  induction visited, t using underlyingFrom.induct T generalizing u with
  | case1 visited t key hkey inner hn hv =>
    rw [underlyingFrom_of_visited hkey hn hv] at h
    cases h
  | case2 visited t key hkey inner hn hv ih =>
    rw [underlyingFrom_of_newtype hkey hn hv] at h
    obtain ⟨v, hinner, rfl⟩ := Option.map_eq_some_iff.1 h
    obtain ⟨n, hunwraps⟩ := ih hinner
    exact ⟨n + 1, .newtype hkey hn hunwraps⟩
  | case3 visited t key hkey hn =>
    rw [underlyingFrom_of_not_newtype hkey hn, ← hkey] at h
    cases h
    refine ⟨0, .bottom fun key' inner hkey' hinner => ?_⟩
    rw [hkey] at hkey'
    cases hkey'
    rw [hn] at hinner
    cases hinner
  | case4 visited t hno =>
    rw [underlyingFrom_of_not_named hno] at h
    cases h
    exact ⟨0, .bottom fun key _ hkey => absurd hkey (hno key)⟩

/-- What a type is, it is found to be. Each newtype on the way has fewer ahead of it than those that
were entered before, so it is none of them. -/
theorem underlyingFrom_of_unwraps {n : Nat} {visited : List String} {t : TypeExpr}
    {u : TypeId × Bool} (h : T.Unwraps n t u)
    (hv : ∀ key ∈ visited, ∀ m u', T.Unwraps m (.named key) u' → n < m) :
    T.underlyingFrom visited t = some u := by
  induction h generalizing visited with
  | @bottom t hno =>
    cases hcore : t.core with
    | named key =>
      have hn : T.newtype? key = none := by
        cases hn : T.newtype? key with
        | none => rfl
        | some inner => exact absurd hn (hno key inner hcore)
      exact underlyingFrom_of_not_newtype hcore hn
    | _ =>
      rw [← hcore]
      refine underlyingFrom_of_not_named fun key hkey => ?_
      rw [hcore] at hkey
      cases hkey
  | @newtype n t inner key u hkey hn hunwraps ih =>
    have hhere : T.Unwraps (n + 1) (.named key) (u.1, false || u.2) := .newtype rfl hn hunwraps
    have hnew : key ∉ visited := fun hmem => absurd (hv key hmem _ _ hhere) (Nat.lt_irrefl _)
    rw [underlyingFrom_of_newtype hkey hn hnew, ih fun k hk m u' hm => ?_]
    · rfl
    · rcases List.mem_cons.1 hk with rfl | hk
      · have := hhere.unique hm rfl
        omega
      · have := hv k hk m u' hm
        omega

/-- **What is found behind newtypes is what they lead to.** The list of those that were entered stops
nothing that has an end. -/
theorem underlyingFrom_nil_iff {t : TypeExpr} {u : TypeId × Bool} :
    T.underlyingFrom [] t = some u ↔ ∃ n, T.Unwraps n t u :=
  ⟨exists_unwraps, fun ⟨_, h⟩ => underlyingFrom_of_unwraps h fun _ hkey => absurd hkey List.not_mem_nil⟩

/-- A type is circular exactly if its newtypes lead nowhere. -/
theorem isCircular_iff {t : TypeExpr} : T.isCircular t = true ↔ ∀ n u, ¬ T.Unwraps n t u := by
  rw [isCircular, Option.isNone_iff_eq_none, Option.eq_none_iff_forall_ne_some]
  exact ⟨fun h n u hu => h u (underlyingFrom_nil_iff.2 ⟨n, hu⟩),
    fun h u hu => (underlyingFrom_nil_iff.1 hu).elim fun n hn => h n u hn⟩

/-- What has facts has come to an end. -/
theorem not_circular_of_facts? {t : TypeExpr} {i : TypeFacts} (h : T.facts? t = some i) :
    T.isCircular t = false := by
  cases hu : T.underlyingFrom [] t with
  | none =>
    have hund : T.underlying t = .empty := by rw [underlying, hu]; rfl
    rw [facts?, kind?, hund] at h
    cases h
  | some u => rw [isCircular, hu]; rfl

/-! ## What the table says of a type -/

section Structs

variable {key : String} {d : TypeDef} {fields : List Field} (h : T.find? key = some d)
  (hd : d.body = .struct fields)

include h hd

theorem underlying_of_struct : T.underlying (.named key) = .named key :=
  underlying_of_not_newtype (by simp [newtype?, h, hd])

theorem facts?_of_struct : T.facts? (.named key)
    = some ⟨.named key, d.fullName, d.name, d.exported, .struct⟩ := by
  have hkind : T.kind? (.named key) = some .struct := by
    rw [kind?, underlying_of_struct h hd]
    simp [h, hd]
  have hname : T.name? (.named key) = d.name := by simp [name?, h]
  have hexported : T.isExported (.named key) = d.exported := by simp [isExported, h]
  have hcore : (TypeExpr.named key).core = .named key := rfl
  rw [facts?, hkind, hcore, fullName_of_find? h, hname, hexported]
  rfl

theorem fields_of_struct : T.fields (.named key) = fields := by
  obtain ⟨_, _, _, body⟩ := d
  cases hd
  simp [TypeTable.fields, underlying_of_struct h rfl, h]

end Structs

theorem kind?_of_primitive (p : Primitive) : T.kind? (.primitive p) = some p.kind := by
  have hund : T.underlying (.primitive p) = .primitive p := by
    unfold underlying underlyingFrom
    rfl
  rw [kind?, hund]

theorem facts?_of_primitive (p : Primitive) : T.facts? (.primitive p)
    = some ⟨.primitive p, p.fullName, p.name?, true, p.kind⟩ := by
  rw [facts?, kind?_of_primitive]
  rfl

theorem facts?_empty : T.facts? .empty = none := by
  have hund : T.underlying .empty = .empty := by
    unfold underlying underlyingFrom
    rfl
  rw [facts?, kind?, hund]
  rfl

theorem isEmpty_describe_empty : (T.describe .empty).isEmpty = true := by
  have hfacts : (T.describe .empty).facts = none := facts?_empty
  rw [Descriptor.isEmpty, hfacts]
  rfl

/-! ## Descriptors of a table -/

/-- The facts of the descriptor are those that the table gives for some type. -/
def Describes (T : TypeTable) (d : Descriptor) : Prop := ∃ t, d.facts = T.facts? t

theorem describes_describe (t : TypeExpr) : T.Describes (T.describe t) := ⟨t, rfl⟩

/-- The identity of a table's descriptor gives all its facts. -/
theorem Describes.facts?_id {d : Descriptor} {i : TypeFacts} (hd : T.Describes d)
    (hi : d.facts = some i) : T.facts? i.id = some i := by
  obtain ⟨t, ht⟩ := hd
  have h : T.facts? t = some i := by rw [← ht, hi]
  rw [id_of_facts? h, facts?_core, h]

/-- The table's own descriptor of an identity has the facts of any other one. -/
theorem Describes.describe_id {d : Descriptor} {i : TypeFacts} (hd : T.Describes d)
    (hi : d.facts = some i) : (T.describe i.id).facts = d.facts := by
  rw [hi]; exact hd.facts?_id hi

/-- No table has a say in what a primitive is. -/
theorem Describes.kind_of_primitive {d : Descriptor} {i : TypeFacts} {p : Primitive}
    (hd : T.Describes d) (hi : d.facts = some i) (hid : i.id = .primitive p) : i.kind = p.kind := by
  have hfacts := hd.facts?_id hi
  rw [hid, facts?_of_primitive] at hfacts
  cases hfacts
  rfl

/-! ## What looks at the facts alone -/

theorem name?_congr {d e : Descriptor} (h : d.facts = e.facts) : d.name? = e.name? := by
  simp only [Descriptor.name?, h]

theorem hasKind_congr {d e : Descriptor} (h : d.facts = e.facts) (k : Kind) :
    d.hasKind k = e.hasKind k := by
  unfold Descriptor.hasKind Descriptor.kind?
  rw [h]

theorem hasTypeRule_congr {d e : Descriptor} (h : d.facts = e.facts) :
    R.hasTypeRule d = R.hasTypeRule e := by
  unfold Registry.hasTypeRule
  rw [h]

theorem enterable?_congr {d e : Descriptor} (h : d.facts = e.facts) :
    enterable? R d = enterable? R e := by
  unfold enterable?
  rw [h, hasTypeRule_congr h]

theorem members_congr {d e : Descriptor} (h : d.facts = e.facts) : T.members d = T.members e := by
  unfold members
  rw [membersFrom, membersFrom, h]

/-- A rendering, in one equation. -/
theorem schemaFrom_eq {policy : Policy} {path : List TypeId} {d : Descriptor} :
    T.schemaFrom R policy path d
      = (T.siteSchema? R policy (T.peelArrays R d).2).bind fun o => match o with
        | some s => .ok (Schema.nested (T.peelArrays R d).1 s)
        | none => (T.objectFrom R policy path (T.peelArrays R d).2).map
          (Schema.nested (T.peelArrays R d).1) := by
  rw [schemaFrom]
  dsimp only
  cases hs : T.siteSchema? R policy (T.peelArrays R d).2 with
  | error e => rfl
  | ok o =>
    cases o with
    | some s => rfl
    | none => rfl

/-- No type has no object. -/
theorem objectFrom_of_no_facts {policy : Policy} {path : List TypeId} {d : Descriptor}
    (hd : d.facts = none) : T.objectFrom R policy path d = .error (.defect .renderOfEmpty) := by
  rw [objectFrom]
  split
  next => rfl
  next hi => rw [hd] at hi; cases hi

/-- A struct that is met inside its own expansion would never end. -/
theorem objectFrom_of_met {policy : Policy} {path : List TypeId} {d : Descriptor} {i : TypeFacts}
    (hi : d.facts = some i) (hp : i.id ∈ path) :
    T.objectFrom R policy path d = .error (.endlessType i.fullName) := by
  rw [objectFrom]
  split
  next hd => rw [hi] at hd; cases hd
  next j hd =>
    rw [hi] at hd
    cases hd
    rw [if_pos hp]

/-- An expansion that may start, in one equation. -/
theorem objectFrom_eq {policy : Policy} {path : List TypeId} {d : Descriptor} {i : TypeFacts}
    (hi : d.facts = some i) (hp : i.id ∉ path) :
    T.objectFrom R policy path d = (T.members d).bind fun ms =>
      (T.propertiesFrom R policy (i.id :: path) ms).map Schema.ofProperties := by
  rw [objectFrom]
  split
  next hd => rw [hi] at hd; cases hd
  next j hd =>
    rw [hi] at hd
    cases hd
    rw [if_neg hp]
    split
    next hm => rw [hm]; rfl
    next hm => rw [hm]; rfl

/-- The object of a struct is that of its facts, whichever descriptor stands for it. -/
theorem objectOf_congr {policy : Policy} {d e : Descriptor} (h : d.facts = e.facts) :
    T.objectOf R policy d = T.objectOf R policy e := by
  unfold objectOf
  cases hd : d.facts with
  | none =>
    have he : e.facts = none := by rw [← h, hd]
    rw [objectFrom_of_no_facts hd, objectFrom_of_no_facts he]
  | some i =>
    have he : e.facts = some i := by rw [← h, hd]
    rw [objectFrom_eq hd List.not_mem_nil, objectFrom_eq he List.not_mem_nil, members_congr h]

end ApiAtlas.TypeTable
