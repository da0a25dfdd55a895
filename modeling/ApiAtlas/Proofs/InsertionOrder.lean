import Mathlib.Data.List.Nodup
import ApiAtlas.Proofs.Roots

/-!
# The order in which operations are added leaves no trace

Order enters a document in three ways. Operations are sorted before they are put in, and the sort
is stable: operations of one path and method keep the order in which they were added. But two such
operations are an error in either order, so that in a document that succeeds sorting leaves one list
only. The roots of the walk for components come in another order, and the walk then meets structs
in another order and through other descriptors. But what it finds is what is in reach
(`mem_discover_iff`), whether it succeeds is a matter of reach as well (`discover_succeeds_iff`),
and sorted by name the same facts make the same list.
-/

namespace ApiAtlas

namespace TypeTable

variable {T : TypeTable} {R : Registry} {roots roots' found found' cs : List Descriptor}

theorem ReachesStruct.mono {i : TypeFacts} (h : T.ReachesStruct R roots i)
    (hsub : ∀ r ∈ roots, r ∈ roots') : T.ReachesStruct R roots' i := by
  obtain ⟨d, hd, hi⟩ := h
  exact ⟨d, hd.mono hsub, hi⟩

theorem mem_map_facts_discover (hroots : ∀ r ∈ roots, T.Describes r)
    (h : T.discover R roots = .ok found) (f : Option TypeFacts) :
    f ∈ found.map Descriptor.facts ↔ ∃ i, f = some i ∧ T.ReachesStruct R roots i := by
  rw [List.mem_map]
  constructor
  · intro hf
    obtain ⟨e, he, hef⟩ := hf
    obtain ⟨i, _, hi, _⟩ := exists_of_mem_discover h he
    exact ⟨i, hef.symm.trans hi, (mem_discover_iff hroots h i).1 ⟨e, he, hi⟩⟩
  · intro hf
    obtain ⟨i, hf, hi⟩ := hf
    rw [hf]
    exact (mem_discover_iff hroots h i).2 hi

/-- No facts are found twice. -/
theorem nodup_map_facts_discover (h : T.discover R roots = .ok found) :
    (found.map Descriptor.facts).Nodup := by
  have hids := (discoverFrom_nodup [] roots found h).1
  have hcomp : found.map Descriptor.id?
      = (found.map Descriptor.facts).map (Option.map TypeFacts.id) := by
    rw [List.map_map]
    rfl
  rw [hcomp] at hids
  exact List.Nodup.of_map _ hids

/-- Walks from the same roots find the same facts, in some order. -/
theorem discover_perm (hroots : ∀ r ∈ roots, T.Describes r) (hsame : ∀ r, r ∈ roots ↔ r ∈ roots')
    (h : T.discover R roots = .ok found) (h' : T.discover R roots' = .ok found') :
    (found.map Descriptor.facts).Perm (found'.map Descriptor.facts) := by
  have hroots' : ∀ r ∈ roots', T.Describes r := fun r hr => hroots r ((hsame r).2 hr)
  refine (List.perm_ext_iff_of_nodup (nodup_map_facts_discover h)
    (nodup_map_facts_discover h')).2 fun f => ?_
  rw [mem_map_facts_discover hroots h, mem_map_facts_discover hroots' h']
  constructor
  · intro hf
    obtain ⟨i, hfi, hi⟩ := hf
    exact ⟨i, hfi, hi.mono fun r hr => (hsame r).1 hr⟩
  · intro hf
    obtain ⟨i, hfi, hi⟩ := hf
    exact ⟨i, hfi, hi.mono fun r hr => (hsame r).2 hr⟩

/-- Sorting by name, which looks at the facts alone, keeps a permutation one. -/
theorem byName_map_facts_perm
    (h : (found.map Descriptor.facts).Perm (found'.map Descriptor.facts)) :
    ((byName found).map Descriptor.facts).Perm ((byName found').map Descriptor.facts) := by
  have hfilter : ∀ ds : List Descriptor, ((byName ds).map Descriptor.facts).Perm
      ((ds.map Descriptor.facts).filter fun f => isReferable ⟨f, false, none⟩) := by
    intro ds
    rw [List.filter_map]
    exact (byName_perm ds).map Descriptor.facts
  exact (hfilter found).trans ((h.filter _).trans (hfilter found').symm)

/-- Of lists that ascend by name and have the same facts, if one does so strictly then there is but
one list of facts. -/
theorem map_facts_eq_of_perm {ds : List Descriptor}
    (hcs : cs.Pairwise fun a b => sortName a < sortName b)
    (hds : ds.Pairwise fun a b => sortName a ≤ sortName b)
    (h : (cs.map Descriptor.facts).Perm (ds.map Descriptor.facts)) :
    cs.map Descriptor.facts = ds.map Descriptor.facts := by
  have hle : cs.Pairwise fun a b => sortName a ≤ sortName b :=
    hcs.imp fun hlt => String.not_lt.1 fun hgt => String.lt_irrefl _ (String.lt_trans hlt hgt)
  have hsorted : ∀ {ds : List Descriptor}, (ds.Pairwise fun a b => sortName a ≤ sortName b) →
      (ds.map Descriptor.facts).Pairwise fun f g =>
        sortName ⟨f, false, none⟩ ≤ sortName ⟨g, false, none⟩ :=
    fun hds => List.pairwise_map.2 hds
  refine List.Perm.eq_of_pairwise ?_ (hsorted hle) (hsorted hds) h
  intro f g hf hg hfg hgf
  -- both facts stand in the list that ascends strictly, under one name
  obtain ⟨a, ha, rfl⟩ := List.mem_map.1 hf
  obtain ⟨b, hb, rfl⟩ := List.mem_map.1 (h.mem_iff.2 hg)
  have hname : sortName a = sortName b := String.le_antisymm hfg hgf
  rw [List.inj_on_of_nodup_map (nodup_sortName hcs) ha hb hname]

/-- Components do not depend on the order of the roots: if there are any they have the same facts,
in the same order. -/
theorem components_of_same_roots (hroots : ∀ r ∈ roots, T.Describes r)
    (hsame : ∀ r, r ∈ roots ↔ r ∈ roots') (h : T.components R roots = .ok cs) :
    ∃ cs', T.components R roots' = .ok cs'
      ∧ List.Forall₂ (fun c c' => c.facts = c'.facts) cs cs' := by
  obtain ⟨found, hfound, hcs, hasc⟩ := components_eq_ok.1 h
  have hroots' : ∀ r ∈ roots', T.Describes r := fun r hr => hroots r ((hsame r).2 hr)
  obtain ⟨found', hfound'⟩ := exists_discover_of_subset hroots (fun r hr => (hsame r).2 hr) hfound
  have hperm := byName_map_facts_perm (discover_perm hroots hsame hfound hfound')
  rw [← hcs] at hperm
  have hfacts := map_facts_eq_of_perm hasc (byName_sorted found') hperm
  have hall : List.Forall₂ (fun c c' : Descriptor => c.facts = c'.facts) cs (byName found') := by
    refine List.forall₂_map_right_iff.1 (List.forall₂_map_left_iff.1 ?_)
    rw [List.forall₂_eq_eq_eq]
    exact hfacts
  refine ⟨byName found', components_eq_ok.2 ⟨found', hfound', rfl, ?_⟩, hall⟩
  have hnames : (cs.map Descriptor.facts).Pairwise fun f g =>
      sortName ⟨f, false, none⟩ < sortName ⟨g, false, none⟩ := List.pairwise_map.2 hasc
  rw [hfacts] at hnames
  have hasc' := List.pairwise_map.1 hnames
  exact hasc'

end TypeTable

namespace Document

open OpenApi (PathItem)

variable {T : TypeTable} {doc : Document} {ops ops' : List Operation}

/-! ## Sorted operations -/

theorem precedes_iff {a b : Operation} : precedes a b = true ↔
    a.template < b.template ∨ a.template = b.template ∧ a.method.rank ≤ b.method.rank := by
  simp [precedes]

theorem precedes_trans (a b c : Operation) (hab : precedes a b = true) (hbc : precedes b c = true) :
    precedes a c = true := by
  rw [precedes_iff] at *
  rcases hab with hab | ⟨hab, hm⟩
  · rcases hbc with hbc | ⟨hbc, _⟩
    · exact .inl (String.lt_trans hab hbc)
    · exact .inl (by rw [← hbc]; exact hab)
  · rcases hbc with hbc | ⟨hbc, hm'⟩
    · exact .inl (by rw [hab]; exact hbc)
    · exact .inr ⟨hab.trans hbc, by omega⟩

theorem precedes_total (a b : Operation) : (precedes a b || precedes b a) = true := by
  rw [Bool.or_eq_true, precedes_iff, precedes_iff]
  by_cases hab : a.template = b.template
  · rcases Nat.le_total a.method.rank b.method.rank with hm | hm
    · exact .inl (.inr ⟨hab, hm⟩)
    · exact .inr (.inr ⟨hab.symm, hm⟩)
  · rcases String.le_total a.template b.template with hle | hle
    · exact .inl (.inl (TypeTable.lt_of_le_of_ne_name hle hab))
    · exact .inr (.inl (TypeTable.lt_of_le_of_ne_name hle (Ne.symm hab)))

/-- Operations that precede each other have one slot. -/
theorem slot_eq_of_precedes {a b : Operation} (hab : precedes a b = true)
    (hba : precedes b a = true) : slot a = slot b := by
  rw [precedes_iff] at hab hba
  rcases hab with hab | ⟨hpath, hm⟩
  · rcases hba with hba | ⟨hpath, _⟩
    · exact absurd (String.lt_trans hab hba) (String.lt_irrefl _)
    · rw [hpath] at hab
      exact absurd hab (String.lt_irrefl _)
  · rcases hba with hba | ⟨_, hm'⟩
    · rw [hpath] at hba
      exact absurd hba (String.lt_irrefl _)
    · exact Prod.ext hpath (Method.rank_injective (Nat.le_antisymm hm hm'))

/-- Where no two operations share a slot, sorting leaves one list only. -/
theorem mergeSort_precedes_eq (h : ops.Perm ops') (hslots : (ops.map slot).Nodup) :
    ops.mergeSort precedes = ops'.mergeSort precedes := by
  refine List.Perm.eq_of_pairwise ?_ (List.pairwise_mergeSort precedes_trans precedes_total ops)
    (List.pairwise_mergeSort precedes_trans precedes_total ops') ?_
  · intro a b ha hb hab hba
    have ha := List.mem_mergeSort.1 ha
    have hb := h.mem_iff.2 (List.mem_mergeSort.1 hb)
    exact List.inj_on_of_nodup_map hslots ha hb (slot_eq_of_precedes hab hba)
  · exact (List.mergeSort_perm ops _).trans (h.trans (List.mergeSort_perm ops' _).symm)

/-! ## The document -/

/-- How operations are finished and put in has nothing to do with which others there are. -/
theorem pathsFrom_with_operations (start : SortedMap PathItem) (list : List Operation) :
    pathsFrom T { doc with operations := ops' } start list = pathsFrom T doc start list := by
  induction list generalizing start with
  | nil => rfl
  | cons op rest ih =>
    have hobject : operationObject T { doc with operations := ops' } op
        = operationObject T doc op := operationObject_congr (by rfl) (by rfl) op
    rw [pathsFrom, pathsFrom, hobject]
    simp only [ih]

theorem paths_of_perm (h : doc.operations.Perm ops') {out : SortedMap PathItem}
    (hout : paths T doc = .ok out) : paths T { doc with operations := ops' } = .ok out := by
  show pathsFrom T { doc with operations := ops' } SortedMap.empty (ops'.mergeSort precedes)
    = .ok out
  rw [pathsFrom_with_operations, ← mergeSort_precedes_eq h (nodup_slots hout)]
  exact hout

/-- Components are finished by their facts. -/
theorem schemasOf_of_same_facts {cs cs' : List Descriptor}
    (h : List.Forall₂ (fun c c' => c.facts = c'.facts) cs cs') :
    schemasOf T doc cs = schemasOf T doc cs' := by
  induction h with
  | nil => rfl
  | cons hfacts _ ih =>
    rw [schemasOf, schemasOf, TypeTable.name?_congr hfacts, TypeTable.objectOf_congr hfacts, ih]

theorem schemas_of_perm (h : doc.operations.Perm ops') {out : Keyed String Schema}
    (hout : schemas T doc = .ok out) : schemas T { doc with operations := ops' } = .ok out := by
  obtain ⟨cs, hcs, hout⟩ := bind_eq_ok.1 hout
  have hsame : ∀ r, r ∈ doc.roots T ↔ r ∈ roots T { doc with operations := ops' } := by
    intro r
    rw [mem_roots, mem_roots]
    simp only [h.mem_iff]
  obtain ⟨cs', hcs', hfacts⟩ := TypeTable.components_of_same_roots (describes_roots T doc) hsame hcs
  have hof : schemasOf T { doc with operations := ops' } cs' = schemasOf T doc cs :=
    (schemasOf_congr (by rfl) cs').trans (schemasOf_of_same_facts hfacts).symm
  refine bind_eq_ok.2 ⟨cs', hcs', ?_⟩
  rw [hof]
  exact hout

theorem assemble_of_perm (h : doc.operations.Perm ops') {out : OpenApi.Document}
    (hout : assemble T doc = .ok out) : assemble T { doc with operations := ops' } = .ok out := by
  obtain ⟨paths, hpaths, hout⟩ := bind_eq_ok.1 hout
  obtain ⟨schemas, hschemas, hout⟩ := bind_eq_ok.1 hout
  refine bind_eq_ok.2 ⟨paths, paths_of_perm h hpaths, ?_⟩
  exact bind_eq_ok.2 ⟨schemas, schemas_of_perm h hschemas, hout⟩

/-- **The order in which operations are added makes no difference.** Whether a document succeeds,
and what it is then, down to its texts, is the same for every order. -/
theorem assemble_perm (T : TypeTable) (doc : Document) (h : doc.operations.Perm ops') :
    (∀ out, assemble T doc = .ok out ↔ assemble T { doc with operations := ops' } = .ok out)
      ∧ (yaml T doc).toOption = (yaml T { doc with operations := ops' }).toOption
      ∧ (json T doc).toOption = (json T { doc with operations := ops' }).toOption := by
  have hiff : ∀ out, assemble T doc = .ok out
      ↔ assemble T { doc with operations := ops' } = .ok out := by
    intro out
    constructor
    · intro hout
      exact assemble_of_perm h hout
    · intro hout
      exact @assemble_of_perm T { doc with operations := ops' } doc.operations h.symm out hout
  refine ⟨hiff, toOption_eq fun text => ?_, toOption_eq fun text => ?_⟩
  · rw [yaml, yaml, map_eq_ok, map_eq_ok]
    simp only [hiff]
  · rw [json, json, map_eq_ok, map_eq_ok]
    simp only [hiff]

/-- Two operations of one path, added in either order. -/
theorem assemble_perm_swapped :
    (yaml Example.table { Example.document with
        operations := [Example.operation, { Example.operation with method := .put }] }).toOption
      = (yaml Example.table { Example.document with
        operations := [{ Example.operation with method := .put }, Example.operation] }).toOption :=
  (assemble_perm Example.table _ (List.Perm.swap _ _ [])).2.1

end Document

end ApiAtlas
