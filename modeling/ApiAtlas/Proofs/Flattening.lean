import ApiAtlas.Proofs.Identity

/-!
# What the members of a struct are

The members are collected through chains of flattened structs, but each of them is a plain field in
the end: visible, not flattened, and of a type of the table. So a member is never itself to be
flattened, whatever the struct was reached through.
-/

namespace ApiAtlas.TypeTable

variable {T : TypeTable}

/-- A type as it is reached through a visible field that is not flattened. -/
def IsMember (T : TypeTable) (m : Descriptor) : Prop :=
  ∃ (f : Field) (t : TypeExpr), f.isVisible = true ∧ f.flattened = false ∧ f.type = some t
    ∧ m = (T.describe t).through f

theorem IsMember.describes {m : Descriptor} (h : T.IsMember m) : T.Describes m := by
  obtain ⟨f, t, _, _, _, hm⟩ := h
  exact ⟨t, by rw [hm]; rfl⟩

theorem IsMember.isFlattened {m : Descriptor} (h : T.IsMember m) : m.isFlattened = false := by
  obtain ⟨f, t, _, hf, _, hm⟩ := h
  rw [hm]
  exact hf

/-- What holds of every plain field of the table whose type can be described, as it is reached, holds
of all members. -/
theorem forall_of_walk {P : Descriptor → Prop}
    (plain : ∀ id, ∀ f ∈ T.fields id, f.isVisible = true → f.flattened = false →
      ∀ t, f.type = some t → T.isCircular t = false → P ((T.describe t).through f)) :
    (∀ (path : List TypeId) (d : Descriptor) (ms : List Descriptor),
        T.membersFrom path d = .ok ms → ∀ m ∈ ms, P m)
      ∧ (∀ (path : List TypeId) (owner : String) (fields : List Field) (ms : List Descriptor),
        (∀ f ∈ fields, ∃ id, f ∈ T.fields id) → T.membersOf path owner fields = .ok ms →
        ∀ m ∈ ms, P m) := by
  refine membersFrom.mutual_induct T
    (fun path d => ∀ ms, T.membersFrom path d = .ok ms → ∀ m ∈ ms, P m)
    (fun path owner fields => ∀ ms, (∀ f ∈ fields, ∃ id, f ∈ T.fields id) →
      T.membersOf path owner fields = .ok ms → ∀ m ∈ ms, P m)
    ?empty ?met ?enter ?nil ?hidden ?untyped ?circular ?plain ?nonStruct ?flattened
  case empty =>
    intro path d hd ms h
    rw [membersFrom, hd] at h
    cases h
  case met =>
    intro path d i hd hp ms h
    rw [membersFrom, hd] at h
    simp only [if_pos hp] at h
    cases h
  case enter =>
    intro path d i hd hp ih ms h
    rw [membersFrom, hd] at h
    simp only [if_neg hp] at h
    exact ih ms (fun f hf => ⟨i.id, hf⟩) h
  case nil =>
    intro path owner ms _ h m hm
    rw [membersOf] at h
    cases h
    cases hm
  case hidden =>
    intro path owner f rest hv ih ms hfields h
    rw [membersOf, if_pos hv] at h
    exact ih ms (fun g hg => hfields g (List.mem_cons_of_mem _ hg)) h
  case untyped =>
    intro path owner f rest hv ht ms _ h
    rw [membersOf, if_neg hv, ht] at h
    cases h
  case circular =>
    intro path owner f rest hv t ht hc ms _ h
    rw [membersOf, if_neg hv, ht] at h
    simp only [if_pos hc] at h
    cases h
  case plain =>
    intro path owner f rest hv t ht hc hf ih ms hfields h m hm
    rw [membersOf, if_neg hv, ht] at h
    simp only [if_neg hc, if_pos hf] at h
    obtain ⟨later, hlater, hms⟩ := bind_eq_ok.1 h
    cases hms
    rcases List.mem_cons.1 hm with rfl | hm
    · obtain ⟨id, hid⟩ := hfields f List.mem_cons_self
      exact plain id f hid (by simpa using hv) (by simpa using hf) t ht (by simpa using hc)
    · exact ih later (fun g hg => hfields g (List.mem_cons_of_mem _ hg)) hlater m hm
  case nonStruct =>
    intro path owner f rest hv t ht d hc hf hk ms _ h
    rw [membersOf, if_neg hv, ht] at h
    simp only [if_neg hc, if_neg hf, d, if_pos hk] at h
    cases h
  case flattened =>
    intro path owner f rest hv t ht d hc hf hk ihHere ihLater ms hfields h m hm
    rw [membersOf, if_neg hv, ht] at h
    simp only [if_neg hc, if_neg hf, d, if_neg hk] at h
    obtain ⟨here, hhere, h⟩ := bind_eq_ok.1 h
    obtain ⟨later, hlater, hms⟩ := bind_eq_ok.1 h
    cases hms
    rcases List.mem_append.1 hm with hm | hm
    · exact ihHere here hhere m hm
    · exact ihLater later (fun g hg => hfields g (List.mem_cons_of_mem _ hg)) hlater m hm

theorem forall_of_mem_members {P : Descriptor → Prop} {d m : Descriptor} {ms : List Descriptor}
    (plain : ∀ id, ∀ f ∈ T.fields id, f.isVisible = true → f.flattened = false →
      ∀ t, f.type = some t → T.isCircular t = false → P ((T.describe t).through f))
    (h : T.members d = .ok ms) (hm : m ∈ ms) : P m :=
  (forall_of_walk plain).1 [] d ms h m hm

/-- What `members` gives are members. -/
theorem isMember_of_mem {d m : Descriptor} {ms : List Descriptor} (h : T.members d = .ok ms)
    (hm : m ∈ ms) : T.IsMember m :=
  forall_of_mem_members (fun _ f _ hv hf t ht _ => ⟨f, t, hv, hf, ht, rfl⟩) h hm

end ApiAtlas.TypeTable
