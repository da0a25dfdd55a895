import Mathlib.Data.List.Sort
import ApiAtlas.Proofs.Slots

/-!
# A selection of operations is a part of the document

To leave out operations leaves the others as they are: each is finished by itself, in its own slot.
The components are another matter, since they are found from all response bodies at once. With fewer
roots less is in reach, and a struct may be found by another way, through another field. But what is
found with fewer roots is found with more (`Reaches.mono`), a component is finished by its facts
alone, and of two lists sorted by name the one with fewer facts is a sublist of the other.
-/

namespace ApiAtlas

namespace TypeTable

variable {T : TypeTable} {R : Registry} {roots roots' cs : List Descriptor}

/-- Strictly by name, as facts alone decide it. -/
def FactsBefore (f g : Option TypeFacts) : Prop :=
  sortName ⟨f, false, none⟩ < sortName ⟨g, false, none⟩

instance : Std.Antisymm FactsBefore :=
  ⟨fun _ _ hfg hgf => absurd (String.lt_trans hfg hgf) (String.lt_irrefl _)⟩

/-- If there are components, then a part of the roots has a part of them, in the same order. -/
theorem components_of_subset (hroots : ∀ r ∈ roots, T.Describes r)
    (hsub : ∀ r ∈ roots', r ∈ roots) (h : T.components R roots = .ok cs) :
    ∃ cs', T.components R roots' = .ok cs'
      ∧ (cs'.map Descriptor.facts).Sublist (cs.map Descriptor.facts) := by
  obtain ⟨found, hfound, hcs, hasc⟩ := components_eq_ok.1 h
  have hroots' : ∀ r ∈ roots', T.Describes r := fun r hr => hroots r (hsub r hr)
  obtain ⟨found', hfound'⟩ := exists_discover_of_subset hroots hsub hfound
  -- what the smaller walk finds, the larger one finds, with the same facts
  have hfacts : ∀ c' ∈ byName found', ∃ c ∈ cs, c.facts = c'.facts := by
    intro c' hc'
    obtain ⟨hc', href⟩ := mem_byName.1 hc'
    have hmem := (mem_map_facts_discover hroots' hfound' c'.facts).1 (List.mem_map_of_mem hc')
    obtain ⟨i, hi, hreach⟩ := hmem
    obtain ⟨c, hc, hci⟩ := (mem_discover_iff hroots hfound i).2 (hreach.mono hsub)
    refine ⟨c, ?_, hci.trans hi.symm⟩
    rw [hcs]
    exact mem_byName.2 ⟨hc, (isReferable_iff hci).2 ((isReferable_iff hi).1 href)⟩
  have hnodup' : ((byName found').map Descriptor.facts).Nodup := by
    refine ((byName_perm found').map Descriptor.facts).nodup_iff.2 ?_
    exact (nodup_map_facts_discover hfound').sublist (List.filter_sublist.map Descriptor.facts)
  have hasc' : (byName found').Pairwise fun a b => sortName a < sortName b := by
    refine ((byName_sorted found').and (List.pairwise_map.1 hnodup')).imp_of_mem ?_
    rintro a b ha hb ⟨hle, hne⟩
    refine lt_of_le_of_ne_name hle fun hname => hne ?_
    -- two of one name would be one in the larger list
    obtain ⟨c, hc, hca⟩ := hfacts a ha
    obtain ⟨d, hd, hdb⟩ := hfacts b hb
    have hcd : sortName c = sortName d := by
      rw [sortName, name?_congr hca, sortName, name?_congr hdb]
      exact hname
    rw [← hca, ← hdb, List.inj_on_of_nodup_map (nodup_sortName hasc) hc hd hcd]
  refine ⟨byName found', components_eq_ok.2 ⟨found', hfound', rfl, hasc'⟩, ?_⟩
  have hsubset : (byName found').map Descriptor.facts ⊆ cs.map Descriptor.facts := by
    intro f hf
    obtain ⟨c', hc', rfl⟩ := List.mem_map.1 hf
    obtain ⟨c, hc, hcc'⟩ := hfacts c' hc'
    exact List.mem_map.2 ⟨c, hc, hcc'⟩
  have hbefore : ∀ {ds : List Descriptor}, (ds.Pairwise fun a b => sortName a < sortName b) →
      (ds.map Descriptor.facts).Pairwise FactsBefore := fun hds => List.pairwise_map.2 hds
  exact List.sublist_of_subperm_of_pairwise (List.subperm_of_subset hnodup' hsubset)
    (hbefore hasc') (hbefore hasc)

end TypeTable

namespace Document

open OpenApi (Before PathItem entries entries_ascending filled_empty mem_entries operationAt)

variable {T : TypeTable} {doc : Document}

/-- Of what is made of descriptors by their facts, fewer facts leave a sublist. -/
theorem exists_sublist_of_facts {P : Descriptor → String × Schema → Prop}
    (hP : ∀ {c c' : Descriptor} {e}, c.facts = c'.facts → P c e → P c' e)
    {cs : List Descriptor} {out : List (String × Schema)} (h : List.Forall₂ P cs out)
    {cs' : List Descriptor}
    (hsub : (cs'.map Descriptor.facts).Sublist (cs.map Descriptor.facts)) :
    ∃ out', List.Forall₂ P cs' out' ∧ out'.Sublist out := by
  induction h generalizing cs' with
  | nil =>
    have hnil : cs' = [] := List.map_eq_nil_iff.1 (List.sublist_nil.1 hsub)
    rw [hnil]
    exact ⟨[], .nil, .slnil⟩
  | @cons c e cs out hce _ ih =>
    rw [List.map_cons, List.sublist_cons_iff] at hsub
    rcases hsub with hsub | ⟨fs, hfs, hsub⟩
    · obtain ⟨out', hout', hrest⟩ := ih hsub
      exact ⟨out', hout', hrest.cons e⟩
    · obtain ⟨c', rest, rfl, hfacts, rfl⟩ := List.map_eq_cons_iff.1 hfs
      obtain ⟨out', hout', hrest⟩ := ih hsub
      exact ⟨e :: out', .cons (hP hfacts.symm hce) hout', hrest.cons_cons e⟩

/-- A document with some of the response bodies has some of the component schemas. -/
theorem schemas_of_subset {ops : List Operation}
    (hroots : ∀ r ∈ roots T { doc with operations := ops }, r ∈ doc.roots T)
    {out : Keyed String Schema} (h : schemas T doc = .ok out) :
    ∃ out', schemas T { doc with operations := ops } = .ok out' ∧ out'.Sublist out := by
  obtain ⟨cs, hcs, hall⟩ := schemas_eq_ok.1 h
  obtain ⟨cs', hcs', hfacts⟩ := TypeTable.components_of_subset (describes_roots T doc) hroots hcs
  obtain ⟨out', hall', hout'⟩ := exists_sublist_of_facts (fun hfacts he => by
    rw [← TypeTable.objectOf_congr hfacts, TypeTable.sortName, ← TypeTable.name?_congr hfacts]
    exact he) hall hfacts
  exact ⟨out', schemas_eq_ok.2 ⟨cs', hcs', hall'⟩, hout'⟩

/-- A document with some of the operations has those of its entries that are in their slots. -/
theorem paths_of_sublist {ops : List Operation} (hsub : ops.Sublist doc.operations)
    {out : SortedMap PathItem} (h : paths T doc = .ok out) :
    ∃ out', paths T { doc with operations := ops } = .ok out'
      ∧ entries out' = (entries out).filter fun e => e.1 ∈ ops.map slot := by
  have hslots := nodup_slots h
  have hobject (op : Operation) : operationObject T { doc with operations := ops } op
      = operationObject T doc op := operationObject_congr (by rfl) (by rfl) op
  obtain ⟨out', hout'⟩ : ∃ out', paths T { doc with operations := ops } = .ok out' := by
    refine exists_paths (hslots.sublist (hsub.map slot)) fun op hop => ?_
    rw [hobject]
    exact exists_operationObject h (hsub.subset hop)
  refine ⟨out', hout', ?_⟩
  refine List.Pairwise.eq_of_mem_iff (List.pairwise_map.1 (entries_ascending out'))
    ((List.pairwise_map.1 (entries_ascending out)).filter _) ?_
  rintro ⟨⟨path, m⟩, object⟩
  rw [List.mem_filter, mem_entries, mem_entries, operationAt_paths h, operationAt_paths hout']
  simp only [hobject, decide_eq_true_eq, List.mem_map]
  constructor
  · rintro ⟨op, hop, hslot, hok⟩
    exact ⟨⟨op, hsub.subset hop, hslot, hok⟩, op, hop, hslot⟩
  · rintro ⟨⟨op, hop, hslot, hok⟩, op', hop', hslot'⟩
    -- the operation in the slot is the one that was kept
    have heq : op = op' :=
      List.inj_on_of_nodup_map hslots hop (hsub.subset hop') (hslot.trans hslot'.symm)
    exact ⟨op, heq ▸ hop', hslot, hok⟩

end Document

/-! ## An example: two operations that return a session -/

namespace Example

/-- Ends the session and returns it. -/
def closing : Operation := { operation with method := .delete }

/-- The document of the example with a second operation at the same path. -/
def shared : Document := { document with operations := [operation, closing] }

theorem shared_assembles : ∃ out, Document.assemble table shared = .ok out
    ∧ out.schemas.Sublist [("Device", .object [("model", text)])] := by
  obtain ⟨paths, hpaths⟩ : ∃ paths, Document.paths table shared = .ok paths := by
    have hslots : Document.slot operation ≠ Document.slot closing := fun h =>
      Method.noConfusion (congrArg Prod.snd h)
    refine Document.exists_paths (by simp [shared, hslots]) fun op hop => ?_
    have hobject : Document.operationObject table shared op
        = Document.operationObject table document op :=
      Document.operationObject_congr (by rfl) (by rfl) op
    rw [hobject]
    simp only [shared, List.mem_cons, List.not_mem_nil, or_false] at hop
    rcases hop with rfl | rfl
    · exact operation_finishes
    · exact operation_finishes_with_method (m := .delete) (by decide)
  have hroots : ∀ r ∈ Document.roots table shared, r ∈ Document.roots table document := by
    intro r hr
    obtain ⟨op, hop, response, hresponse, rfl⟩ := Document.mem_roots.1 hr
    simp only [shared, List.mem_cons, List.not_mem_nil, or_false] at hop
    refine Document.mem_roots.2 ⟨operation, List.mem_singleton_self _, response, ?_, rfl⟩
    rcases hop with rfl | rfl
    · exact hresponse
    · rwa [closing, responses_with_method (by decide), ← responses_operation] at hresponse
  obtain ⟨out, hout, hschemas⟩ := document_assembles
  obtain ⟨schemas, hshared, hsub⟩ :=
    Document.schemas_of_subset hroots (Document.assemble_eq_ok hout).2
  exact ⟨_, bind_eq_ok.2 ⟨paths, hpaths, bind_eq_ok.2 ⟨schemas, hshared, rfl⟩⟩, hschemas ▸ hsub⟩

end Example

namespace Document

open OpenApi (entries filled_empty)

variable {T : TypeTable} {doc : Document}

/-- **A selection of operations makes a part of the document.** If a document can be finished, so can
the one with the operations of some choice. Its operations are the entries of those chosen, as they
were and in the same order, and no path is left without an operation; its component schemas are some
of those that there were, as they were and in the same order; all else is the same. -/
theorem selection_monotone {out : OpenApi.Document} (h : assemble T doc = .ok out)
    (keep : Operation → Bool) :
    ∃ out', assemble T (doc.filterMap (Option.guard keep)) = .ok out'
      ∧ entries out'.paths
        = (entries out.paths).filter (fun e => e.1 ∈ (doc.operations.filter keep).map slot)
      ∧ (∀ e ∈ out'.paths.toList, e.2.listed ≠ [])
      ∧ out'.schemas.Sublist out.schemas
      ∧ out'.info = out.info ∧ out'.tags = out.tags ∧ out'.servers = out.servers
      ∧ out'.securitySchemes = out.securitySchemes ∧ out'.security = out.security := by
  have hdoc : doc.filterMap (Option.guard keep)
      = { doc with operations := doc.operations.filter keep } := by
    unfold filterMap
    rw [List.filterMap_eq_filter]
  rw [hdoc]
  obtain ⟨paths, hpaths, hout⟩ := bind_eq_ok.1 h
  obtain ⟨schemas, hschemas, hout⟩ := bind_eq_ok.1 hout
  cases hout
  have hsub : (doc.operations.filter keep).Sublist doc.operations := List.filter_sublist
  obtain ⟨paths', hpaths', hentries⟩ := paths_of_sublist hsub hpaths
  have hroots : ∀ r ∈ roots T { doc with operations := doc.operations.filter keep },
      r ∈ doc.roots T := by
    intro r hr
    obtain ⟨op, hop, response⟩ := mem_roots.1 hr
    exact mem_roots.2 ⟨op, hsub.subset hop, response⟩
  obtain ⟨schemas', hschemas', hsublist⟩ := schemas_of_subset hroots hschemas
  refine ⟨_, bind_eq_ok.2 ⟨paths', hpaths', bind_eq_ok.2 ⟨schemas', hschemas', rfl⟩⟩, hentries,
    filled_pathsFrom hpaths' filled_empty, hsublist, rfl, rfl, rfl, rfl, rfl⟩

/-- Of two operations that return a session one is kept, and with it the component of both. -/
theorem selection_monotone_shared : ∃ out out',
    assemble Example.table Example.shared = .ok out
    ∧ assemble Example.table (Example.shared.filterMap (Option.guard fun op => op.method = .get))
        = .ok out'
    ∧ (entries out.paths).map Prod.fst = [slot Example.operation, slot Example.closing]
    ∧ (entries out'.paths).map Prod.fst = [slot Example.operation]
    ∧ (entries out'.paths).Sublist (entries out.paths)
    ∧ out'.schemas = [("Device", .object [("model", Example.text)])]
    ∧ out.schemas = out'.schemas := by
  obtain ⟨out, hout, hschemas⟩ := Example.shared_assembles
  obtain ⟨out', hout', hentries, _, hsub, _⟩ :=
    selection_monotone hout fun op => op.method = .get
  have hsort : [Example.operation, Example.closing].mergeSort precedes
      = [Example.operation, Example.closing] :=
    List.mergeSort_of_pairwise (List.pairwise_pair.2 (precedes_iff.2 (.inr ⟨rfl, by decide⟩)))
  have hkept : out'.schemas = [("Device", .object [("model", Example.text)])] := by
    obtain ⟨kept, hdocument, hdevice⟩ := Example.document_assembles
    rw [← hdevice, Except.ok.inj (hout'.symm.trans hdocument)]
  refine ⟨out, out', hout, hout', ?_, ?_, hentries ▸ List.filter_sublist, hkept, ?_⟩
  · rw [map_fst_entries (assemble_eq_ok hout).1, Example.shared, hsort]
    rfl
  · rw [map_fst_entries (assemble_eq_ok hout').1]
    exact congrArg (List.map slot) (List.mergeSort_singleton Example.operation)
  · rw [hkept] at hsub ⊢
    exact hschemas.antisymm hsub

end Document

end ApiAtlas
