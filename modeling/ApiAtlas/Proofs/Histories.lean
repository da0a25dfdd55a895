import ApiAtlas.Proofs.Identity

/-!
# What a history of registrations decides

A registration for a type puts its rule in front of all rules for that type, and if the type is the
primitive that speaks for its kind, in front of all rules for the kind as well; a registration for a
kind does the latter only. Which rule a type ends up with is therefore a matter of two questions about
the history as a whole, and of no state: what the last registration for the type was and, only if there
is none, what the last one for its kind was. `Governs` puts the two in order.

One registration is a step of both lookups (`lookup_byType_apply`, `lookup_byKind_apply`), a history a
run of such steps (`lookup_byType_after`, `lookup_byKind_after`). The built-in registry has a history of
its own (`builtin_eq_after`), so what starts from it is no different, and its rules can be read off
(`lookup_byType_builtin`, `lookup_byKind_builtin`).
-/

namespace ApiAtlas

/-! ## Registrations -/

/-- A rule is registered for the type of a descriptor or for a kind. -/
inductive Registration where
  | ofType (d : Descriptor) (r : Rule)
  | ofKind (k : Kind) (r : Rule)

/-- The descriptor is of the kind, and its type is the primitive whose rule is the kind's as well. -/
def Descriptor.SpeaksFor (d : Descriptor) (k : Kind) : Prop :=
  d.kind? = some k ∧ d.id? = k.canonical?.map TypeExpr.primitive

instance (d : Descriptor) (k : Kind) : Decidable (d.SpeaksFor k) :=
  inferInstanceAs (Decidable (_ ∧ _))

namespace Registration

/-- The rule that the type of this identity gets. -/
def typeRule? (id : TypeId) : Registration → Option Rule
  | ofType d r => if d.id? = some id then some r else none
  | ofKind _ _ => none

/-- The rule that this kind gets. -/
def kindRule? (k : Kind) : Registration → Option Rule
  | ofType d r => if d.SpeaksFor k then some r else none
  | ofKind k' r => if k' = k then some r else none

/-- The last registration of a history that gives a rule at all gives this one. -/
def Last (rule? : Registration → Option Rule) (history : List Registration) (r : Rule) : Prop :=
  ∃ before e later, history = before ++ e :: later ∧ rule? e = some r ∧ ∀ e' ∈ later, rule? e' = none

/-- No registration of a history gives a rule. -/
def Silent (rule? : Registration → Option Rule) (history : List Registration) : Prop :=
  ∀ e ∈ history, rule? e = none

/-- What a history leaves for a type: its own last rule, or else its kind's, or else none. -/
inductive Governs (history : List Registration) (i : TypeFacts) : Option Rule → Prop where
  | byType {r : Rule} : Last (typeRule? i.id) history r → Governs history i (some r)
  | byKind {r : Rule} : Silent (typeRule? i.id) history → Last (kindRule? i.kind) history r →
      Governs history i (some r)
  | none : Silent (typeRule? i.id) history → Silent (kindRule? i.kind) history →
      Governs history i none

/-- The last rule of a history. -/
def last? (rule? : Registration → Option Rule) (history : List Registration) : Option Rule :=
  history.reverse.findSome? rule?

section Last

variable {rule? : Registration → Option Rule} {history later : List Registration} {r : Rule}

theorem last?_eq_some_iff : last? rule? history = some r ↔ Last rule? history r := by
  unfold last? Last
  rw [List.findSome?_eq_some_iff]
  constructor
  · rintro ⟨later, e, before, hsplit, he, hlater⟩
    refine ⟨before.reverse, e, later.reverse, ?_, he, fun e' he' => hlater e' (List.mem_reverse.1 he')⟩
    rw [← List.reverse_reverse history, hsplit]
    simp
  · rintro ⟨before, e, later, rfl, he, hlater⟩
    refine ⟨later.reverse, e, before.reverse, by simp, he, fun e' he' => ?_⟩
    exact hlater e' (List.mem_reverse.1 he')

theorem last?_eq_none_iff : last? rule? history = none ↔ Silent rule? history := by
  unfold last? Silent
  rw [List.findSome?_eq_none_iff]
  simp only [List.mem_reverse]

theorem last?_append :
    last? rule? (history ++ later) = (last? rule? later).or (last? rule? history) := by
  unfold last?
  rw [List.reverse_append, List.findSome?_append]

theorem last?_cons (e : Registration) :
    last? rule? (e :: later) = (last? rule? later).or (rule? e) := by
  have hone : last? rule? [e] = rule? e := by simp [last?]
  rw [← hone, ← last?_append]
  rfl

/-- A registration that gives no rule can be left out. -/
theorem last?_insert {before : List Registration} {e : Registration} (he : rule? e = none) :
    last? rule? (before ++ e :: later) = last? rule? (before ++ later) := by
  rw [last?_append, last?_append, last?_cons, he, Option.or_none]

/-- Where all that give a rule give one and the same, the order of registrations is of no importance. -/
theorem last?_of_forall {o : Option Rule} (hall : ∀ e ∈ history, rule? e = none ∨ rule? e = o)
    (ho : o = none ∨ ∃ e ∈ history, rule? e = o) : last? rule? history = o := by
  cases hlast : last? rule? history with
  | none =>
    rcases ho with rfl | ⟨e, he, hr⟩
    · rfl
    · rw [← hr, last?_eq_none_iff.1 hlast e he]
  | some r =>
    obtain ⟨before, e, later, rfl, he, _⟩ := last?_eq_some_iff.1 hlast
    rcases hall e (by simp) with hnone | hr
    · rw [he] at hnone
      cases hnone
    · rw [← he, hr]

end Last

/-- Both questions have one answer. -/
theorem governs_iff {history : List Registration} {i : TypeFacts} {o : Option Rule} :
    Governs history i o
      ↔ (last? (typeRule? i.id) history).or (last? (kindRule? i.kind) history) = o := by
  constructor
  · intro h
    cases h with
    | byType hr => rw [last?_eq_some_iff.2 hr, Option.some_or]
    | byKind hno hr => rw [last?_eq_none_iff.2 hno, last?_eq_some_iff.2 hr, Option.none_or]
    | none hno hnone => rw [last?_eq_none_iff.2 hno, last?_eq_none_iff.2 hnone, Option.none_or]
  · rintro rfl
    cases hr : last? (typeRule? i.id) history with
    | some r => exact .byType (last?_eq_some_iff.1 hr)
    | none =>
      rw [Option.none_or]
      cases hk : last? (kindRule? i.kind) history with
      | some r => exact .byKind (last?_eq_none_iff.1 hr) (last?_eq_some_iff.1 hk)
      | none => exact .none (last?_eq_none_iff.1 hr) (last?_eq_none_iff.1 hk)

end Registration

namespace Registry

open Registration (typeRule? kindRule? Governs last? last?_eq_none_iff last?_append last?_cons
  last?_insert last?_of_forall governs_iff)

variable {R : Registry}

/-! ## One registration -/

/-- The registry after one more registration. -/
def apply (R : Registry) : Registration → Registry
  | .ofType d r => R.withTypeRule d r
  | .ofKind k r => R.withKindRule k r

/-- The registry after a history. -/
def after (R : Registry) (history : List Registration) : Registry := history.foldl apply R

theorem speaksFor_iff {d : Descriptor} {i : TypeFacts} (hi : d.facts = some i) (k : Kind) :
    d.SpeaksFor k ↔ i.kind = k ∧ i.kind.canonical?.map TypeExpr.primitive = some i.id := by
  unfold Descriptor.SpeaksFor Descriptor.kind? Descriptor.id?
  rw [hi]
  constructor
  · rintro ⟨hk, hid⟩
    cases hk
    exact ⟨rfl, hid.symm⟩
  · rintro ⟨rfl, hid⟩
    exact ⟨rfl, hid.symm⟩

theorem lookup_byType_apply (e : Registration) (id : TypeId) :
    (R.apply e).byType.lookup id = (e.typeRule? id).or (R.byType.lookup id) := by
  cases e with
  | ofKind k r => rfl
  | ofType d r =>
    rw [apply, withTypeRule, typeRule?, Descriptor.id?]
    cases d.facts with
    | none => rfl
    | some i =>
      -- what the kind gets is no matter to types
      have hbyType : (if i.kind.canonical?.map TypeExpr.primitive = some i.id
          then R.withKindRule i.kind r else R).byType = R.byType := by
        split
        · rfl
        · rfl
      simp only [hbyType, List.lookup_cons, Option.map_some, Option.some.injEq]
      by_cases hid : i.id = id
      · simp [hid]
      · simp [hid, beq_false_of_ne (Ne.symm hid)]

theorem lookup_byKind_apply (e : Registration) (k : Kind) :
    (R.apply e).byKind.lookup k = (e.kindRule? k).or (R.byKind.lookup k) := by
  have hwith : ∀ k' r, (R.withKindRule k' r).byKind.lookup k
      = (if k' = k then some r else none).or (R.byKind.lookup k) := by
    intro k' r
    rw [withKindRule, List.lookup_cons]
    by_cases hk : k' = k
    · simp [hk]
    · simp [hk, beq_false_of_ne (Ne.symm hk)]
  cases e with
  | ofKind k' r => exact hwith k' r
  | ofType d r =>
    rw [apply, withTypeRule, kindRule?]
    cases hi : d.facts with
    | none => simp [Descriptor.SpeaksFor, Descriptor.kind?, hi]
    | some i =>
      simp only [speaksFor_iff hi]
      by_cases hcanonical : i.kind.canonical?.map TypeExpr.primitive = some i.id
      · simp only [hcanonical, if_true, and_true, hwith]
      · simp only [hcanonical, if_false, and_false, Option.none_or]

/-! ## A history -/

theorem after_append (history later : List Registration) :
    R.after (history ++ later) = (R.after history).after later :=
  List.foldl_append

theorem lookup_byType_after (history : List Registration) (id : TypeId) :
    (R.after history).byType.lookup id
      = (last? (typeRule? id) history).or (R.byType.lookup id) := by
  -- the registry varies: the first registration is part of what the later ones start from
  induction history generalizing R with
  | nil => rfl
  | cons e later ih =>
    rw [last?_cons, Option.or_assoc, ← lookup_byType_apply]
    exact ih

theorem lookup_byKind_after (history : List Registration) (k : Kind) :
    (R.after history).byKind.lookup k
      = (last? (kindRule? k) history).or (R.byKind.lookup k) := by
  induction history generalizing R with
  | nil => rfl
  | cons e later ih =>
    rw [last?_cons, Option.or_assoc, ← lookup_byKind_apply]
    exact ih

/-- The rules are those that the history leaves, and the data types those that it has registered. -/
structure Follows (R : Registry) (history : List Registration) : Prop where
  rule : ∀ (d : Descriptor) (i : TypeFacts), d.facts = some i →
    ∀ o, R.rule? d = o ↔ Governs history i o
  dataType : ∀ (d : Descriptor) (i : TypeFacts), d.facts = some i →
    (R.hasTypeRule d = true ↔ ∃ d' r, .ofType d' r ∈ history ∧ d'.id? = some i.id)

theorem follows_after_empty (history : List Registration) :
    (empty.after history).Follows history where
  rule := by
    intro d i hi o
    rw [rule?, hi, Option.bind_some, lookup_byType_after, lookup_byKind_after, governs_iff]
    simp [empty]
  dataType := by
    intro d i hi
    rw [hasTypeRule, hi]
    simp only [lookup_byType_after, empty, List.lookup_nil, Option.or_none]
    constructor
    · intro h
      obtain ⟨r, hr⟩ := Option.isSome_iff_exists.1 h
      obtain ⟨before, e, later, rfl, he, _⟩ := Registration.last?_eq_some_iff.1 hr
      cases e with
      | ofKind k r' => cases he
      | ofType d' r' =>
        rw [typeRule?] at he
        split at he
        next hid => exact ⟨d', r', by simp, hid⟩
        next => cases he
    · rintro ⟨d', r, hmem, hid⟩
      cases hlast : last? (typeRule? i.id) history with
      | some r' => rfl
      | none =>
        have hnone := last?_eq_none_iff.1 hlast _ hmem
        rw [typeRule?, if_pos hid] at hnone
        cases hnone

/-! ## Registrations that leave others alone -/

/-- A type that speaks for no kind is registered for itself only. -/
theorem rule?_after_insert {before later : List Registration} {d e : Descriptor} {r : Rule}
    (hkind : ∀ k, ¬ d.SpeaksFor k) (hid : e.id? ≠ d.id?) :
    (R.after (before ++ .ofType d r :: later)).rule? e = (R.after (before ++ later)).rule? e := by
  unfold rule?
  cases hi : e.facts with
  | none => rfl
  | some i =>
    have htype : typeRule? i.id (.ofType d r) = none := by
      rw [typeRule?, if_neg]
      intro hd
      rw [hd, Descriptor.id?, hi] at hid
      exact hid rfl
    have hnone : kindRule? i.kind (.ofType d r) = none := by
      rw [kindRule?, if_neg (hkind i.kind)]
    rw [Option.bind_some, Option.bind_some, lookup_byType_after, lookup_byType_after,
      lookup_byKind_after, lookup_byKind_after, last?_insert htype, last?_insert hnone]

theorem after_insert_of_isEmpty {before later : List Registration} {d : Descriptor} {r : Rule}
    (hd : d.isEmpty = true) :
    R.after (before ++ .ofType d r :: later) = R.after (before ++ later) := by
  have happly : (R.after before).apply (.ofType d r) = R.after before := by
    rw [apply, withTypeRule, Option.isNone_iff_eq_none.1 hd]
  rw [after_append, after_append]
  exact congrArg (fun S => after S later) happly

/-- Of the types of a table, the primitives that own a kind's rule speak for it, and no others: no
newtype or struct, no choice of names, and of the two texts only the owned one. -/
theorem speaksFor_describe_iff (T : TypeTable) (t : TypeExpr) (k : Kind) :
    (T.describe t).SpeaksFor k ↔ ∃ p, t.core = .primitive p ∧ k.canonical? = some p := by
  constructor
  · rintro ⟨hk, hid⟩
    cases hi : (T.describe t).facts with
    | none =>
      rw [Descriptor.kind?, hi] at hk
      cases hk
    | some i =>
      rw [Descriptor.id?, hi, Option.map_some, TypeTable.id_of_facts? hi] at hid
      obtain ⟨p, hp, hcore⟩ := Option.map_eq_some_iff.1 hid.symm
      exact ⟨p, hcore.symm, hp⟩
  · rintro ⟨p, hcore, hp⟩
    have hfacts : (T.describe t).facts = some ⟨.primitive p, p.fullName, p.name?, true, p.kind⟩ := by
      show T.facts? t = _
      rw [← TypeTable.facts?_core, hcore, TypeTable.facts?_of_primitive]
    rw [speaksFor_iff hfacts]
    have hk := TypeExpr.kind_of_canonical? hp
    exact ⟨hk, by rw [hk, hp]; rfl⟩

/-! ## The built-in rules -/

/-- A registration for each type with a built-in rule: of that rule, followed by further ones. -/
def builtinRegistrations (extra : List Rule) : List Registration :=
  builtinDescriptors.map fun d => .ofType d (Rule.builtin (d.id?.getD .empty) extra)

/-- The registrations that make the built-in registry. -/
def builtinHistory : List Registration :=
  builtinDescriptors.map (fun d => .ofType d (Rule.builtin (d.id?.getD .empty) []))
    ++ [.ofKind .map (Rule.typed "object" ""), .ofKind .any Rule.nothing]

theorem builtinHistory_eq : builtinHistory = builtinRegistrations []
    ++ [.ofKind .map (Rule.typed "object" ""), .ofKind .any Rule.nothing] := rfl

theorem builtin_eq_after : builtin = empty.after builtinHistory := by
  unfold builtin builtinHistory after
  rw [List.foldl_append, List.foldl_map]
  rfl

theorem follows_after_builtin (history : List Registration) :
    (builtin.after history).Follows (builtinHistory ++ history) := by
  rw [builtin_eq_after, ← after_append]
  exact follows_after_empty _

theorem id?_describe_primitive (T : TypeTable) (p : Primitive) :
    (T.describe (.primitive p)).id? = some (.primitive p) := by
  rw [Descriptor.id?, TypeTable.describe, TypeTable.facts?_of_primitive]
  rfl

/-- The types with a built-in rule are primitives. -/
theorem exists_primitive_of_mem_builtinIds {id : TypeId} (h : id ∈ Rule.builtinIds) :
    ∃ p, id = .primitive p := by
  obtain ⟨entry, _, hid⟩ := List.mem_map.1 h
  exact ⟨entry.1, hid.symm⟩

/-- The primitives that speak for a kind have built-in rules. -/
theorem mem_builtinIds_of_canonical? {k : Kind} {p : Primitive} (h : k.canonical? = some p) :
    .primitive p ∈ Rule.builtinIds := by
  cases k <;> cases h <;> decide

theorem mem_builtinRegistrations {extra : List Rule} {e : Registration} :
    e ∈ builtinRegistrations extra ↔ ∃ p, .primitive p ∈ Rule.builtinIds
      ∧ e = .ofType (TypeTable.describe ⟨[]⟩ (.primitive p)) (Rule.builtin (.primitive p) extra) := by
  unfold builtinRegistrations builtinDescriptors
  simp only [List.mem_map]
  constructor
  · rintro ⟨_, ⟨id, hmem, rfl⟩, rfl⟩
    obtain ⟨p, rfl⟩ := exists_primitive_of_mem_builtinIds hmem
    exact ⟨p, hmem, by rw [id?_describe_primitive]; rfl⟩
  · rintro ⟨p, hmem, rfl⟩
    exact ⟨_, ⟨_, hmem, rfl⟩, by rw [id?_describe_primitive]; rfl⟩

/-- Each type with a built-in rule is registered, and no other one. -/
theorem last?_typeRule?_builtinRegistrations (extra : List Rule) (id : TypeId) :
    last? (typeRule? id) (builtinRegistrations extra)
      = if id ∈ Rule.builtinIds then some (Rule.builtin id extra) else none := by
  refine last?_of_forall (fun e he => ?_) ?_
  · obtain ⟨p, hp, rfl⟩ := mem_builtinRegistrations.1 he
    rw [typeRule?, id?_describe_primitive]
    split
    next hid => cases hid; exact .inr (if_pos hp).symm
    next => exact .inl rfl
  · by_cases hmem : id ∈ Rule.builtinIds
    · obtain ⟨p, rfl⟩ := exists_primitive_of_mem_builtinIds hmem
      refine .inr ⟨_, mem_builtinRegistrations.2 ⟨p, hmem, rfl⟩, ?_⟩
      rw [typeRule?, if_pos (id?_describe_primitive _ p), if_pos hmem]
    · exact .inl (if_neg hmem)

/-- A kind gets the rule of the primitive that speaks for it. -/
theorem last?_kindRule?_builtinRegistrations (extra : List Rule) (k : Kind) :
    last? (kindRule? k) (builtinRegistrations extra)
      = k.canonical?.map fun p => Rule.builtin (.primitive p) extra := by
  refine last?_of_forall (fun e he => ?_) ?_
  · obtain ⟨p, _, rfl⟩ := mem_builtinRegistrations.1 he
    rw [kindRule?]
    split
    next hspeaks =>
      obtain ⟨q, hq, hcanonical⟩ := (speaksFor_describe_iff _ _ _).1 hspeaks
      cases hq
      exact .inr (by rw [hcanonical]; rfl)
    next => exact .inl rfl
  · cases hp : k.canonical? with
    | none => exact .inl rfl
    | some p =>
      have hmem := mem_builtinIds_of_canonical? hp
      refine .inr ⟨_, mem_builtinRegistrations.2 ⟨p, hmem, rfl⟩, ?_⟩
      rw [kindRule?, if_pos ((speaksFor_describe_iff _ _ _).2 ⟨p, rfl, hp⟩)]
      rfl

theorem lookup_byType_builtin (id : TypeId) : builtin.byType.lookup id
    = if id ∈ Rule.builtinIds then some (Rule.builtin id []) else none := by
  rw [builtin_eq_after, lookup_byType_after, builtinHistory_eq, last?_append,
    last?_typeRule?_builtinRegistrations]
  exact Option.or_none

/-- The built-in rule for a kind without a structure of its own. -/
def builtinKindRule (k : Kind) : Rule :=
  match k.canonical? with
  | some p => Rule.builtin (.primitive p) []
  | none => if k = .map then Rule.typed "object" "" else Rule.nothing

theorem lookup_byKind_builtin {k : Kind} (hstruct : k ≠ .struct) (hslice : k ≠ .slice) :
    builtin.byKind.lookup k = some (builtinKindRule k) := by
  rw [builtin_eq_after, lookup_byKind_after, builtinHistory_eq, last?_append,
    last?_kindRule?_builtinRegistrations, builtinKindRule]
  cases k with
  | struct => exact absurd rfl hstruct
  | slice => exact absurd rfl hslice
  | _ => rfl

theorem hasTypeRule_builtin_iff {d : Descriptor} {i : TypeFacts} (hi : d.facts = some i) :
    builtin.hasTypeRule d = true ↔ i.id ∈ Rule.builtinIds := by
  rw [hasTypeRule, hi]
  simp only [lookup_byType_builtin]
  split
  next hmem => exact iff_of_true rfl hmem
  next hno => exact iff_of_false Bool.false_ne_true hno

theorem exists_primitive_of_hasTypeRule_builtin {T : TypeTable} {d : Descriptor}
    (hd : T.Describes d) (h : builtin.hasTypeRule d = true) :
    ∃ i p, d.facts = some i ∧ i.id = .primitive p ∧ i.kind = p.kind := by
  cases hi : d.facts with
  | none =>
    rw [hasTypeRule, hi] at h
    cases h
  | some i =>
    obtain ⟨p, hp⟩ := exists_primitive_of_mem_builtinIds ((hasTypeRule_builtin_iff hi).1 h)
    exact ⟨i, p, rfl, hp, hd.kind_of_primitive hi hp⟩

/-- A type with a built-in rule has that one. -/
theorem rule?_builtin_of_type {d : Descriptor} {i : TypeFacts} (hi : d.facts = some i)
    (hmem : i.id ∈ Rule.builtinIds) : builtin.rule? d = some (Rule.builtin i.id []) := by
  rw [rule?, hi, Option.bind_some, lookup_byType_builtin, if_pos hmem, Option.some_or]

/-- A primitive without a structure has the rule of its kind; the two texts have one rule. -/
theorem builtin_eq_builtinKindRule {p : Primitive} (hp : .primitive p ∈ Rule.builtinIds)
    (hk : p.kind ≠ .struct) : Rule.builtin (.primitive p) [] = builtinKindRule p.kind := by
  cases p
  case value | jsonMap => exact absurd hp (by decide)
  case dateTimeUtc | dateTimeFixedOffset | dateTimeLocal | naiveDateTime | naiveDate =>
    exact absurd rfl hk
  all_goals rfl

/-- **But for structs and slices, the built-in rule of a type is that of its kind.** -/
theorem rule?_builtin {T : TypeTable} {d : Descriptor} {i : TypeFacts} (hd : T.Describes d)
    (hi : d.facts = some i) (hstruct : i.kind ≠ .struct) (hslice : i.kind ≠ .slice) :
    builtin.rule? d = some (builtinKindRule i.kind) := by
  by_cases hmem : i.id ∈ Rule.builtinIds
  · obtain ⟨p, hp⟩ := exists_primitive_of_mem_builtinIds hmem
    have hk := hd.kind_of_primitive hi hp
    rw [rule?_builtin_of_type hi hmem, hp, hk]
    rw [hp] at hmem
    rw [hk] at hstruct
    rw [builtin_eq_builtinKindRule hmem hstruct]
  · rw [rule?, hi, Option.bind_some, lookup_byType_builtin, if_neg hmem, Option.none_or,
      lookup_byKind_builtin hstruct hslice]

/-! ## All histories -/

/-- **A history decides the rules.** Whatever is registered in an empty registry, and in whatever order,
a type has the last rule given to it, and one without any the last rule given to its kind or to the type
that speaks for its kind; the types that were given a rule are the data types (`Follows`). In the registry
of the built-in rules it is the same, with these as the earliest registrations. Wherever in a history a
type that speaks for no kind is given a rule, no other type notices. A type speaks for a kind just if,
without its options and pointers, it is the kind's canonical primitive. A rule for no type at all
changes nothing. -/
theorem history_decides_rules :
    (∀ history, (empty.after history).Follows history)
      ∧ (∀ history, (builtin.after history).Follows (builtinHistory ++ history))
      ∧ (∀ (R : Registry) (before later : List Registration) (d e : Descriptor) (r : Rule),
        (∀ k, ¬ d.SpeaksFor k) → e.id? ≠ d.id? →
        (R.after (before ++ .ofType d r :: later)).rule? e = (R.after (before ++ later)).rule? e)
      ∧ (∀ (T : TypeTable) (t : TypeExpr) (k : Kind),
        (T.describe t).SpeaksFor k ↔ ∃ p, t.core = .primitive p ∧ k.canonical? = some p)
      ∧ (∀ (R : Registry) (before later : List Registration) (d : Descriptor) (r : Rule),
        d.isEmpty = true → R.after (before ++ .ofType d r :: later) = R.after (before ++ later)) :=
  ⟨follows_after_empty, follows_after_builtin,
    fun _ _ _ _ _ _ hkind hid => rule?_after_insert hkind hid, speaksFor_describe_iff,
    fun _ _ _ _ _ hd => after_insert_of_isEmpty hd⟩

/-- Of the two texts, the one that does not speak for its kind has no say about the other. -/
theorem history_decides_rules_texts :
    (builtin.after [.ofType (TypeTable.describe ⟨[]⟩ (.primitive .str)) Rule.nothing]).rule?
        (TypeTable.describe ⟨[]⟩ (.primitive .string))
      = builtin.rule? (TypeTable.describe ⟨[]⟩ (.primitive .string)) := by
  obtain ⟨_, _, hleaves, hspeaks, _⟩ := history_decides_rules
  refine hleaves builtin [] [] _ _ _ (fun k hk => ?_) ?_
  · obtain ⟨p, hp, hcanonical⟩ := (hspeaks _ _ _).1 hk
    cases hp
    cases k <;> cases hcanonical
  · rw [id?_describe_primitive, id?_describe_primitive]
    decide

end Registry

end ApiAtlas
