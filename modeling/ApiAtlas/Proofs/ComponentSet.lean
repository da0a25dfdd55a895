import ApiAtlas.Components
import ApiAtlas.Proofs.Insertion
import ApiAtlas.Proofs.Reachability

/-!
# Exactly which structs become components

The components are the structs in reach that can be referred to, each once, by name. What is in
reach is said by single steps (`ReachesStruct`), so the statement is free of the walk, of its order
and of the stages that come after it: an unnamed or private struct is walked through like any other
and only then left out.

Three of the stages find nothing to do (`components_eq`). A walk finds structs, none of which is empty
or a slice, and each of them once.
-/

namespace ApiAtlas

/-- A struct that can be referred to: it is exported and has a name that is not empty. -/
def TypeFacts.Referable (i : TypeFacts) : Prop :=
  i.exported = true ∧ ∃ name, i.name = some name ∧ name ≠ ""

namespace TypeTable

variable {T : TypeTable} {R : Registry}

/-! ## Names -/

theorem name?_eq_some {d : Descriptor} {i : TypeFacts} {name : String} (hi : d.facts = some i) :
    d.name? = some name ↔ i.name = some name ∧ name ≠ "" := by
  simp [Descriptor.name?, hi, Option.filter_eq_some_iff]

theorem isReferable_iff {d : Descriptor} {i : TypeFacts} (hi : d.facts = some i) :
    isReferable d = true ↔ i.Referable := by
  have hexp : d.isExported = i.exported := by simp [Descriptor.isExported, hi]
  unfold isReferable TypeFacts.Referable
  rw [Bool.and_eq_true, hexp, Option.isSome_iff_exists]
  constructor
  · rintro ⟨⟨name, hn⟩, he⟩
    exact ⟨he, name, (name?_eq_some hi).1 hn⟩
  · rintro ⟨he, name, hn⟩
    exact ⟨⟨name, (name?_eq_some hi).2 hn⟩, he⟩

/-! ## Sorting by name -/

theorem byName_perm (ds : List Descriptor) : (byName ds).Perm (ds.filter isReferable) :=
  List.mergeSort_perm _ _

theorem mem_byName {ds : List Descriptor} {d : Descriptor} :
    d ∈ byName ds ↔ d ∈ ds ∧ isReferable d = true := by
  rw [(byName_perm ds).mem_iff, List.mem_filter]

theorem byName_sorted (ds : List Descriptor) :
    (byName ds).Pairwise fun a b => sortName a ≤ sortName b := by
  have htrans : ∀ a b c : Descriptor, decide (sortName a ≤ sortName b) = true →
      decide (sortName b ≤ sortName c) = true → decide (sortName a ≤ sortName c) = true := by
    intro a b c hab hbc
    simp only [decide_eq_true_eq] at *
    exact String.le_trans hab hbc
  have htotal : ∀ a b : Descriptor,
      (decide (sortName a ≤ sortName b) || decide (sortName b ≤ sortName a)) = true := by
    intro a b
    simp only [Bool.or_eq_true, decide_eq_true_eq]
    exact String.le_total _ _
  have h := List.pairwise_mergeSort htrans htotal (ds.filter isReferable)
  exact h.imp fun hab => by simpa using hab

theorem lt_of_le_of_ne_name {a b : String} (hle : a ≤ b) (hne : a ≠ b) : a < b :=
  Decidable.byContradiction fun h => hne (String.le_antisymm hle (String.not_lt.1 h))

/-- Among descriptors sorted by name no two neighbours share one exactly when the names ascend
strictly. -/
theorem collision?_eq_none_iff {ds : List Descriptor}
    (hs : ds.Pairwise fun a b => sortName a ≤ sortName b) :
    collision? ds = none ↔ ds.Pairwise fun a b => sortName a < sortName b := by
  induction ds with
  | nil => exact ⟨fun _ => .nil, fun _ => rfl⟩
  | cons a rest ih =>
    obtain ⟨hfirst, hrest⟩ := List.pairwise_cons.1 hs
    cases rest with
    | nil => exact ⟨fun _ => List.pairwise_singleton _ _, fun _ => rfl⟩
    | cons b rest =>
      rw [collision?]
      constructor
      · intro h
        split at h
        next => cases h
        next hne =>
          have hlater := (ih hrest).1 h
          have hab : sortName a < sortName b :=
            lt_of_le_of_ne_name (hfirst b List.mem_cons_self) hne
          refine List.pairwise_cons.2 ⟨fun c hc => ?_, hlater⟩
          rcases List.mem_cons.1 hc with hc | hc
          · rw [hc]; exact hab
          · exact String.lt_trans hab (List.rel_of_pairwise_cons hlater hc)
      · intro h
        obtain ⟨hlt, hlater⟩ := List.pairwise_cons.1 h
        have hne : sortName a ≠ sortName b := fun he =>
          absurd (hlt b List.mem_cons_self) (by rw [he]; exact String.lt_irrefl _)
        rw [if_neg hne]
        exact (ih hrest).2 hlater

theorem nodup_sortName {ds : List Descriptor}
    (h : ds.Pairwise fun a b => sortName a < sortName b) : (ds.map sortName).Nodup := by
  refine List.pairwise_map.2 (h.imp fun hlt heq => ?_)
  rw [heq] at hlt
  exact String.lt_irrefl _ hlt

/-! ## Stages without effect -/

/-- What has each type once, and none that was seen before, loses nothing. -/
theorem distinctFrom_eq_self {seen : List TypeId} {ds : List Descriptor}
    (hids : ∀ d ∈ ds, ∃ id, d.id? = some id) (hnodup : (ds.map Descriptor.id?).Nodup)
    (hseen : ∀ id ∈ seen, some id ∉ ds.map Descriptor.id?) : distinctFrom seen ds = ds := by
  induction ds generalizing seen with
  | nil => rfl
  | cons d rest ih =>
    obtain ⟨id, hid⟩ := hids d List.mem_cons_self
    obtain ⟨hnew, hrest⟩ := List.nodup_cons.1 hnodup
    have hmem : some id ∈ (d :: rest).map Descriptor.id? := by simp [hid]
    have hlater : distinctFrom (id :: seen) rest = rest := by
      refine ih (fun e he => hids e (List.mem_cons_of_mem _ he)) hrest fun id' hid' => ?_
      rcases List.mem_cons.1 hid' with rfl | hid'
      · rwa [← hid]
      · exact fun he => hseen id' hid' (List.mem_cons_of_mem _ he)
    rw [distinctFrom, hid]
    simp only [if_neg fun hs => hseen id hs hmem, hlater]

section Found

variable {roots found : List Descriptor} (h : T.discover R roots = .ok found)

include h

/-- A walk finds no empty descriptors. -/
theorem compact_of_discover : compact found = found := by
  refine List.filter_eq_self.2 fun d hd => ?_
  obtain ⟨i, _, hi, _⟩ := exists_of_mem_discover h hd
  simp [Descriptor.isEmpty, hi]

/-- A walk finds no slices. -/
theorem flattenSlices_of_discover : T.flattenSlices found = .ok found := by
  have hslice : ∀ d ∈ found, d.hasKind .slice = false := by
    intro d hd
    obtain ⟨i, _, hi, hk, _⟩ := exists_of_mem_discover h hd
    simp [Descriptor.hasKind, Descriptor.kind?, hi, hk]
  have hends : ¬ found.any T.isBottomless = true := by
    rw [List.any_eq_true]
    rintro ⟨d, hd, hb⟩
    rw [isBottomless_of_not_slice (hslice d hd)] at hb
    cases hb
  have hsame : found.map T.bottom = found.map id :=
    List.map_congr_left fun d hd => bottom_of_not_slice (hslice d hd)
  rw [flattenSlices, if_neg hends, hsame, List.map_id]

/-- A walk finds each type once. -/
theorem distinct_of_discover : distinct found = found := by
  refine distinctFrom_eq_self (fun d hd => ?_) (discoverFrom_nodup [] roots found h).1 ?_
  · obtain ⟨i, _, hi, _⟩ := exists_of_mem_discover h hd
    exact ⟨i.id, by simp [Descriptor.id?, hi]⟩
  · intro id hid
    cases hid

end Found

/-- **Of the stages only the last two matter:** what cannot be referred to is left out, and the rest
is sorted. -/
theorem components_eq (roots : List Descriptor) :
    T.components R roots = (T.discover R roots).bind fun found =>
      match collision? (byName found) with
      | some e => .error e
      | none => .ok (byName found) := by
  cases h : T.discover R roots with
  | error e => rw [components, h]; rfl
  | ok found =>
    rw [components, h]
    show (T.flattenSlices (compact found)).bind _ = _
    rw [compact_of_discover h, flattenSlices_of_discover h]
    show (match collision? (byName (distinct found)) with | some e => _ | none => _) = _
    rw [distinct_of_discover h]
    rfl

/-! ## The components -/

/-- The components are what a walk finds, if no two of them share a name. -/
theorem components_eq_ok {roots cs : List Descriptor} :
    T.components R roots = .ok cs ↔ ∃ found, T.discover R roots = .ok found
      ∧ cs = byName found ∧ cs.Pairwise fun a b => sortName a < sortName b := by
  constructor
  · intro h
    rw [components_eq] at h
    obtain ⟨found, hfound, h⟩ := bind_eq_ok.1 h
    split at h
    next => cases h
    next hnone =>
      cases h
      exact ⟨found, hfound, rfl, (collision?_eq_none_iff (byName_sorted found)).1 hnone⟩
  · rintro ⟨found, hfound, rfl, hlt⟩
    rw [components_eq]
    refine bind_eq_ok.2 ⟨found, hfound, ?_⟩
    rw [(collision?_eq_none_iff (byName_sorted found)).2 hlt]

/-- The list of components that roots give. -/
structure ComponentList (T : TypeTable) (R : Registry) (roots cs : List Descriptor) : Prop where
  /-- Of each struct in reach that can be referred to there is exactly one descriptor. -/
  once : ∀ i, T.ReachesStruct R roots i → i.Referable →
    ∃ d, d.facts = some i ∧ cs.filter (fun c => c.id? = some i.id) = [d]
  /-- There is nothing else. -/
  only : ∀ d ∈ cs, ∃ i, d.facts = some i ∧ T.ReachesStruct R roots i ∧ i.Referable
  /-- The names ascend strictly. -/
  ascending : cs.Pairwise fun a b => sortName a < sortName b

/-- A list without repeated identities holds one descriptor of each. -/
theorem filter_id?_eq_singleton {cs : List Descriptor} (h : (cs.map Descriptor.id?).Nodup)
    {d : Descriptor} (hd : d ∈ cs) : cs.filter (fun c => c.id? = d.id?) = [d] := by
  induction cs with
  | nil => cases hd
  | cons c rest ih =>
    obtain ⟨hnew, hrest⟩ := List.nodup_cons.1 h
    rcases List.mem_cons.1 hd with hd | hd
    · rw [← hd, List.filter_cons_of_pos (by simp)]
      congr 1
      refine List.filter_eq_nil_iff.2 fun x hx hxd => hnew ?_
      rw [← hd, ← of_decide_eq_true hxd]
      exact List.mem_map_of_mem hx
    · have hne : c.id? ≠ d.id? := fun he => hnew (by rw [he]; exact List.mem_map_of_mem hd)
      rw [List.filter_cons_of_neg (by simp [hne])]
      exact ih hrest hd

/-- **The components of some roots**, if there are any. -/
theorem componentList_of_ok {roots cs : List Descriptor} (hroots : ∀ r ∈ roots, T.Describes r)
    (h : T.components R roots = .ok cs) : T.ComponentList R roots cs := by
  obtain ⟨found, hfound, hcs, hasc⟩ := components_eq_ok.1 h
  have hnodup : (cs.map Descriptor.id?).Nodup := by
    rw [hcs]
    refine ((byName_perm found).map Descriptor.id?).nodup_iff.2 ?_
    exact (discoverFrom_nodup [] roots found hfound).1.sublist
      (List.filter_sublist.map Descriptor.id?)
  refine ⟨fun i hi href => ?_, fun d hd => ?_, hasc⟩
  · obtain ⟨d, hd, hdi⟩ := (mem_discover_iff hroots hfound i).2 hi
    have hmem : d ∈ cs := by
      rw [hcs]
      exact mem_byName.2 ⟨hd, (isReferable_iff hdi).2 href⟩
    have hid : d.id? = some i.id := by simp [Descriptor.id?, hdi]
    refine ⟨d, hdi, ?_⟩
    rw [← hid]
    exact filter_id?_eq_singleton hnodup hmem
  · rw [hcs] at hd
    obtain ⟨hd, href⟩ := mem_byName.1 hd
    obtain ⟨i, _, hdi, _⟩ := exists_of_mem_discover hfound hd
    exact ⟨i, hdi, (mem_discover_iff hroots hfound i).1 ⟨d, hd, hdi⟩, (isReferable_iff hdi).1 href⟩

end TypeTable

end ApiAtlas
