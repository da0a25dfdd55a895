import ApiAtlas.Proofs.Assembly
import ApiAtlas.Proofs.Derivation

/-!
# Where references come from

A place in a schema is reached by going to the items of an array and to the properties of an object.
The same steps lead through the types that the schema was made from (`siteAt?`): to the element of a
slice, and to the last member with the name of the property, since a later one of that name replaces
the earlier. So every reference in a schema has a struct that it was written for
(`refersWithin_of_schemaFrom`), and that struct is in reach of whatever the schema was made from. In a
finished document this makes it a component.
-/

namespace ApiAtlas

namespace Schema

/-- One step into a schema. -/
inductive Step where
  | items
  | property (name : String)

/-- The place `p` of a schema holds `t`. -/
inductive At : Schema → List Step → Schema → Prop where
  | here {s : Schema} : At s [] s
  | items {s t : Schema} {p : List Step} : At s p t → At (.array s) (.items :: p) t
  | property {properties : List (String × Schema)} {name : String} {s t : Schema} {p : List Step} :
      (name, s) ∈ properties → At s p t → At (.object properties) (.property name :: p) t

/-- No place holds a reference. -/
def RefFree (s : Schema) : Prop := ∀ p t, s.At p t → t.target? = none

/-- A reference inside arrays is one behind all of them. -/
theorem At.of_nested {n : Nat} {s t : Schema} {p : List Step} {target : String}
    (ht : t.target? = some target) (h : (nested n s).At p t) :
    ∃ q, p = List.replicate n .items ++ q ∧ s.At q t := by
  induction n generalizing p with
  | zero => exact ⟨p, rfl, h⟩
  | succ n ih =>
    cases h with
    | here => cases ht
    | items h =>
      obtain ⟨q, hp, hq⟩ := ih h
      exact ⟨q, by rw [hp]; rfl, hq⟩

end Schema

namespace TypeTable

variable {T : TypeTable} {R : Registry} {policy : Policy}

/-! ## The types behind a schema -/

/-- The member whose schema an object keeps under a name. -/
def memberNamed (ms : List Descriptor) (name : String) : Option Descriptor :=
  (ms.filter (·.propertyName = some name)).getLast?

/-- The type that stands behind a place of a descriptor's schema. -/
def siteAt? (T : TypeTable) : List Schema.Step → Descriptor → Option Descriptor
  | [], d => some d
  | .items :: p, d => (T.element d).bind (T.siteAt? p)
  | .property name :: p, d => match T.members d with
    | .error _ => none
    | .ok ms => (memberNamed ms name).bind (T.siteAt? p)

theorem siteAt?_behind {stop : Descriptor → Bool} {n : Nat} {d b : Descriptor}
    (h : T.Behind stop n d b) (p : List Schema.Step) :
    T.siteAt? (List.replicate n .items ++ p) d = T.siteAt? p b := by
  induction h with
  | here => rfl
  | element _ he _ ih =>
    rw [List.replicate_succ, List.cons_append, siteAt?, he, Option.bind_some, ih]

/-- What an object keeps under a name comes from the last member of that name. -/
theorem memberNamed_of_mem {P : Descriptor → Schema → Prop} {ms : List Descriptor}
    {pairs : List (String × Schema)} {name : String} {s : Schema}
    (h : PropertiesOf P ms pairs) (hs : (name, s) ∈ Keyed.ofList pairs) :
    ∃ m ∈ ms, memberNamed ms name = some m ∧ P m s := by
  obtain ⟨pre, post, hpairs, hlast⟩ := Keyed.exists_last_of_mem_ofList hs
  rw [hpairs, PropertiesOf] at h
  obtain ⟨before, m, after, hms, ⟨hname, hP⟩, hafter⟩ := forall₂_split_right h
  -- those after it have other names
  have hnone : after.filter (·.propertyName = some name) = [] := by
    refine List.filter_eq_nil_iff.2 fun x hx => ?_
    obtain ⟨e, he, hxe, _⟩ := exists_of_mem_left hafter hx
    rw [hxe]
    simp only [Option.some.injEq, decide_eq_true_eq]
    intro heq
    refine hlast ?_
    show name ∈ Keyed.keys post
    rw [← heq]
    exact List.mem_map_of_mem he
  have hfilter : ms.filter (·.propertyName = some name)
      = (serialized ms).filter (·.propertyName = some name) := by
    unfold serialized
    rw [List.filter_filter]
    refine List.filter_congr fun x _ => ?_
    cases hx : x.propertyName <;> simp
  refine ⟨m, ?_, ?_, hP⟩
  · have hmem : m ∈ serialized ms := by
      rw [hms]
      exact List.mem_append_right _ List.mem_cons_self
    exact (List.mem_filter.1 hmem).1
  · unfold memberNamed
    rw [hfilter, hms, List.filter_append, List.filter_cons_of_pos (by simpa using hname), hnone]
    exact List.getLast?_concat

/-! ## References and what they were written for -/

/-- The reference was written for the struct of `e`, which the policy did not ask to expand. -/
def WrittenFor (T : TypeTable) (R : Registry) (policy : Policy) (e : Descriptor)
    (target : String) : Prop :=
  ∃ i name, T.Expands R e i ∧ e.name? = some name ∧ policy e = false
    ∧ target = Schema.componentPath name

theorem writtenFor_of_siteSchema? {d : Descriptor} {s t : Schema} {p : List Schema.Step}
    {target : String} (h : T.siteSchema? R policy d = .ok (some s)) (hat : s.At p t)
    (ht : t.target? = some target) : p = [] ∧ T.WrittenFor R policy d target := by
  by_cases hx : ∃ i, T.Expands R d i
  · obtain ⟨i, hi⟩ := hx
    rw [siteSchema?_of_expands hi] at h
    obtain ⟨name, hn, hs⟩ := Option.bind_eq_some_iff.1 (Except.ok.inj h)
    split at hs
    next => cases hs
    next hp =>
      cases hs
      cases hat
      cases ht
      exact ⟨rfl, i, name, hi, hn, by simpa using hp, rfl⟩
  · obtain ⟨s', hs', hplain, _⟩ := siteSchema?_of_not_expands (fun i hi => hx ⟨i, hi⟩) h
    cases hs'
    rcases hplain with ⟨a, rfl⟩ | rfl
    · cases hat; cases ht
    · cases hat with
      | here => cases ht
      | property hmem _ => cases hmem

/-- A reference stands for a type behind its place, which is in reach of the whole. -/
def RefersWithin (T : TypeTable) (R : Registry) (policy : Policy) (d : Descriptor) (s : Schema) :
    Prop :=
  ∀ p t target, s.At p t → t.target? = some target →
    ∃ e, T.siteAt? p d = some e ∧ T.WrittenFor R policy e target
      ∧ ∀ roots, T.Reaches R roots d → T.Reaches R roots e

theorem RefersWithin.ofProperties {d : Descriptor} {i : TypeFacts} {ms : List Descriptor}
    {pairs : List (String × Schema)} (hi : enterable? R d = some i)
    (hms : T.members d = .ok ms) (h : PropertiesOf (T.RefersWithin R policy) ms pairs) :
    T.RefersWithin R policy d (Schema.ofProperties pairs) := by
  intro p t target hat ht
  cases hat with
  | here => cases ht
  | @property _ name s _ p hmem hat =>
    -- a reference inside an object is one inside the schema of the member kept under its name
    obtain ⟨m, hm, hnamed, hinner⟩ := memberNamed_of_mem h hmem
    obtain ⟨e, he, hwritten, hreach⟩ := hinner p t target hat ht
    refine ⟨e, ?_, hwritten, fun roots hd => hreach roots (hd.step (step_of_enterable? hi hms hm))⟩
    rw [siteAt?, hms]
    simp only [hnamed, Option.bind_some]
    exact he

theorem RefersWithin.nested {stop : Descriptor → Bool} {n : Nat} {d b : Descriptor} {s : Schema}
    (hb : T.Behind stop n d b) (h : T.RefersWithin R policy b s) :
    T.RefersWithin R policy d (Schema.nested n s) := by
  intro p t target hat ht
  obtain ⟨q, hp, hq⟩ := hat.of_nested ht
  obtain ⟨e, he, hwritten, hreach⟩ := h q t target hq ht
  refine ⟨e, ?_, hwritten, fun roots hd => hreach roots (hd.behind hb)⟩
  rw [hp, siteAt?_behind hb]
  exact he

/-- **Every reference was written for a struct in reach**, and it is found by the reference's own
place. -/
theorem refersWithin_of_schemaFrom {path : List TypeId} {d : Descriptor} {s : Schema}
    (h : T.schemaFrom R policy path d = .ok s) : T.RefersWithin R policy d s := by
  refine schemaFrom_induction (P := T.RefersWithin R policy) ?_ ?_ h
  · intro d t ht
    -- a finished schema is itself the reference or holds none
    refine RefersWithin.nested (behind_of_peel R.hasTypeRule d) ?_
    intro p u target hat hu
    obtain ⟨hp, hwritten⟩ := writtenFor_of_siteSchema? ht hat hu
    exact ⟨_, by rw [hp]; rfl, hwritten, fun _ hd => hd⟩
  · intro d ms pairs hnone hms hall
    obtain ⟨i, hi⟩ := expands_of_unfinished hnone
    exact (RefersWithin.ofProperties hi.1 hms hall).nested (behind_of_peel R.hasTypeRule d)

end TypeTable

end ApiAtlas
