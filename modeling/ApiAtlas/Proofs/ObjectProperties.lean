import ApiAtlas.Proofs.ExpansionPath
import ApiAtlas.Proofs.Newtypes
import ApiAtlas.Proofs.Provenance

/-!
# The properties of an object

The members of a struct stand in the order in which its fields, and those of the structs that it
flattens, are declared. Some have no property name and are passed over; of several with one name the
first decides the place and the last the schema. That is what is left of inserting them one after the
other. And since a member has inside its struct no other schema than on its own
(`exists_properties_of_objectOf`), the properties of an object are told by its members alone.
-/

namespace ApiAtlas

namespace TypeTable

variable {T : TypeTable} {R : Registry} {policy : Policy}

/-- The property names of members, in order and with repetitions. -/
def propertyNames (ms : List Descriptor) : List String := ms.filterMap (·.propertyName)

theorem propertyNames_eq_nil_iff {ms : List Descriptor} :
    propertyNames ms = [] ↔ ∀ m ∈ ms, m.propertyName = none :=
  List.filterMap_eq_nil_iff

theorem propertyNames_serialized (ms : List Descriptor) :
    propertyNames (serialized ms) = propertyNames ms := by
  unfold propertyNames serialized
  rw [List.filterMap_filter]
  refine List.filterMap_congr fun m _ => ?_
  cases m.propertyName with
  | none => rfl
  | some name => rfl

/-- Properties stand under the names of the members that they were made for. -/
theorem keys_of_propertiesOf {P : Descriptor → Schema → Prop} {ms : List Descriptor}
    {pairs : List (String × Schema)} (h : PropertiesOf P ms pairs) :
    Keyed.keys pairs = propertyNames ms := by
  rw [← propertyNames_serialized]
  unfold PropertiesOf at h
  generalize serialized ms = rest at h ⊢
  induction h with
  | nil => rfl
  | cons he _ ih =>
    rw [propertyNames, List.filterMap_cons_some he.1]
    exact congrArg _ ih

theorem mem_propertyNames_of_memberNamed {ms : List Descriptor} {name : String} {m : Descriptor}
    (h : memberNamed ms name = some m) : name ∈ propertyNames ms := by
  obtain ⟨hm, hn⟩ := List.mem_filter.1 (List.mem_of_getLast? h)
  exact List.mem_filterMap.2 ⟨m, hm, by simpa using hn⟩

/-- Under each name stands what the last member of that name was found to be. -/
theorem get?_of_propertiesOf {P : Descriptor → Schema → Prop} {ms : List Descriptor}
    {pairs : List (String × Schema)} (h : PropertiesOf P ms pairs)
    (hP : ∀ m s s', P m s → P m s' → s = s') (name : String) (s : Schema) :
    Keyed.get? name (Keyed.ofList pairs) = some s
      ↔ ∃ m, memberNamed ms name = some m ∧ P m s := by
  constructor
  · intro hget
    obtain ⟨m, _, hm, hs⟩ := memberNamed_of_mem h (Keyed.mem_of_get? hget)
    exact ⟨m, hm, hs⟩
  · rintro ⟨m, hm, hs⟩
    have hkey : name ∈ Keyed.keys (Keyed.ofList pairs) := by
      rw [Keyed.keys_ofList, keys_of_propertiesOf h]
      exact List.mem_eraseDups.2 (mem_propertyNames_of_memberNamed hm)
    obtain ⟨⟨_, s'⟩, hmem, rfl⟩ := List.mem_map.1 hkey
    obtain ⟨m', _, hm', hs'⟩ := memberNamed_of_mem h hmem
    rw [hm] at hm'
    cases hm'
    rw [hP m s s' hs hs']
    exact Keyed.get?_of_mem (Keyed.nodup_keys_ofList pairs) hmem

/-- An object is written without a block of properties exactly if it has none. -/
theorem toValue_object_eq_iff {props : List (String × Schema)} :
    (Schema.object props).toValue = .map [("type", .str "object")] ↔ Keyed.keys props = [] := by
  cases props with
  | nil =>
    rw [Schema.toValue]
    exact iff_of_true rfl rfl
  | cons e rest =>
    rw [Schema.toValue]
    · constructor
      · intro h; cases h
      · intro h; cases h
    · intro h; cases h

end TypeTable

/-! ## An example: a badge with two names -/

namespace Example

open TypeTable

def holderDef : TypeDef :=
  ⟨some "Holder", "app::Holder", true,
    .struct [property "name" (.primitive .string), property "since" (.primitive .i64)]⟩

def badgeDef : TypeDef :=
  ⟨some "Badge", "app::Badge", true, .struct [merged "Holder", property "name" (.primitive .i64)]⟩

/-- A badge flattens its holder, and declares a name that the holder has as well. -/
def badges : TypeTable := ⟨[("Badge", badgeDef), ("Holder", holderDef)]⟩

def badge : Descriptor := badges.describe (.named "Badge")

def badgeMember (name : String) (p : Primitive) : Descriptor :=
  (badges.describe (.primitive p)).through (property name (.primitive p))

theorem facts_badge : badge.facts
    = some ⟨.named "Badge", "app::Badge", some "Badge", true, .struct⟩ :=
  facts?_of_struct (d := badgeDef) rfl rfl

theorem members_badge : badges.members badge
    = .ok [badgeMember "name" .string, badgeMember "since" .i64, badgeMember "name" .i64] := by
  have hholder : badges.facts? (.named "Holder")
      = some ⟨.named "Holder", "app::Holder", some "Holder", true, .struct⟩ :=
    facts?_of_struct (d := holderDef) rfl rfl
  have hdeclared : badges.Splices [property "name" (.primitive .i64)] [badgeMember "name" .i64] :=
    .plain rfl rfl rfl (isCircular_primitive _) .nil
  have hfields : badges.fields (.named "Holder")
      = [property "name" (.primitive .string), property "since" (.primitive .i64)] :=
    fields_of_struct (d := holderDef) rfl rfl
  have hflattened : badges.Splices (badges.fields (.named "Holder"))
      [badgeMember "name" .string, badgeMember "since" .i64] := by
    rw [hfields]
    exact .plain rfl rfl rfl (isCircular_primitive _)
      (.plain rfl rfl rfl (isCircular_primitive _) .nil)
  rw [members_eq_ok_iff facts_badge, fields_of_struct (d := badgeDef) rfl rfl]
  exact .flattened ⟨rfl, _, rfl, hholder, rfl⟩ hflattened hdeclared

theorem schemaOf_badgeMember (name : String) {p : Primitive} (hstruct : p.kind ≠ .struct)
    (hslice : p.kind ≠ .slice) :
    ∃ t, badges.schemaOf Registry.builtin Policy.inlineAll (badgeMember name p) = .ok t := by
  have hfacts : (badgeMember name p).facts = some ⟨.primitive p, p.fullName, p.name?, true, p.kind⟩ :=
    facts?_of_primitive p
  exact ⟨_, schemaOf_of_kindRule ⟨.primitive p, rfl⟩ hfacts hstruct hslice⟩

theorem objectOf_badge :
    ∃ s, badges.objectOf Registry.builtin Policy.inlineAll badge = .ok s := by
  obtain ⟨t₁, h₁⟩ := schemaOf_badgeMember "name" (p := .string) (by decide) (by decide)
  obtain ⟨t₂, h₂⟩ := schemaOf_badgeMember "since" (p := .i64) (by decide) (by decide)
  obtain ⟨t₃, h₃⟩ := schemaOf_badgeMember "name" (p := .i64) (by decide) (by decide)
  have hpairs : badges.propertiesFrom Registry.builtin Policy.inlineAll []
      [badgeMember "name" .string, badgeMember "since" .i64, badgeMember "name" .i64]
      = .ok [("name", t₁), ("since", t₂), ("name", t₃)] := by
    unfold schemaOf at h₁ h₂ h₃
    have hname : ∀ name p,
        (badgeMember name p).propertyName = (property name (.primitive p)).propertyName :=
      fun _ _ => rfl
    simp only [propertiesFrom, hname, h₁, h₂, h₃]
    rfl
  have hdescribes : badges.Describes badge := describes_describe _
  exact ⟨_, (objectOf_eq_ok_iff hdescribes facts_badge).2 ⟨_, _, members_badge, hpairs, rfl⟩⟩

end Example

namespace TypeTable

variable {T : TypeTable} {R : Registry} {policy : Policy}

/-- **The properties of an object are its serialized members.** An object has a property under each
property name that a member of the struct has, once and in the order in which the names first occur; the
schema there is the one that the last member of the name has on its own; and there is no block of
properties exactly if no member has a property name. If the names are distinct, there is a property for
each member with a name, in order. -/
theorem object_properties_exact {d : Descriptor} {s : Schema} (h : T.objectOf R policy d = .ok s) :
    ∃ ms props, T.members d = .ok ms ∧ s = .object props
      ∧ (Keyed.keys props).Nodup ∧ Keyed.keys props = (propertyNames ms).eraseDups
      ∧ (∀ name t, Keyed.get? name props = some t
        ↔ ∃ m, memberNamed ms name = some m ∧ T.schemaOf R policy m = .ok t)
      ∧ (s.toValue = .map [("type", .str "object")] ↔ ∀ m ∈ ms, m.propertyName = none)
      ∧ ((propertyNames ms).Nodup →
        PropertiesOf (fun m t => T.schemaOf R policy m = .ok t) ms props) := by
  obtain ⟨ms, pairs, hms, hpairs, rfl⟩ := exists_properties_of_objectOf h
  have hall : PropertiesOf (fun m t => T.schemaOf R policy m = .ok t) ms pairs :=
    propertiesFrom_eq_ok hpairs
  have hkeys : Keyed.keys (Keyed.ofList pairs) = (propertyNames ms).eraseDups := by
    rw [Keyed.keys_ofList, keys_of_propertiesOf hall]
  have hsame : ∀ m t t', T.schemaOf R policy m = .ok t → T.schemaOf R policy m = .ok t' → t = t' := by
    intro m t t' ht ht'
    rw [ht] at ht'
    cases ht'
    rfl
  refine ⟨ms, Keyed.ofList pairs, hms, rfl, Keyed.nodup_keys_ofList pairs, hkeys,
    get?_of_propertiesOf hall hsame, ?_, fun hnodup => ?_⟩
  · rw [Schema.ofProperties, toValue_object_eq_iff, hkeys, ← propertyNames_eq_nil_iff]
    cases propertyNames ms with
    | nil => exact iff_of_true rfl rfl
    | cons name rest => simp [List.eraseDups_cons]
  · rw [← keys_of_propertiesOf hall] at hnodup
    rwa [Keyed.ofList_of_nodup hnodup]

/-- The name of a badge stands where its holder's would, and is a number. -/
theorem object_properties_exact_badge :
    ∃ props, Example.badges.objectOf Registry.builtin Policy.inlineAll Example.badge
        = .ok (.object props)
      ∧ Keyed.keys props = ["name", "since"]
      ∧ ∀ t, Keyed.get? "name" props = some t
        ↔ Example.badges.schemaOf Registry.builtin Policy.inlineAll (Example.badgeMember "name" .i64)
          = .ok t := by
  obtain ⟨s, hs⟩ := Example.objectOf_badge
  obtain ⟨ms, props, hms, rfl, _, hkeys, hget, _⟩ := object_properties_exact hs
  rw [Example.members_badge] at hms
  cases hms
  refine ⟨props, hs, hkeys.trans (by decide), fun t => ?_⟩
  rw [hget]
  constructor
  · rintro ⟨m, hm, ht⟩
    cases hm
    exact ht
  · intro ht
    exact ⟨_, rfl, ht⟩

end TypeTable

end ApiAtlas
