import ApiAtlas.Proofs.BoundedExpansion
import ApiAtlas.Proofs.NameClashes

/-!
# Data types among the roots

The renderer asks for a rule before it looks at a type's kind, so that a data type is written by its
rule whatever it is. The walk for components opens slices first and asks for a rule of what it finds
behind them. A data type that is no slice ends the walk. A slice that is a data type does not: it is
written by its rule, and yet the structs behind it can become components, as the example has it.

So a data type adds nothing to the components exactly if nothing behind it can be referred to, and
the walk ends there. The structs that are then in reach from it are barren: they have members, which
lead to barren structs again, and none of them stays in the list of components. To a walk it makes no
difference whether such structs were met before (`Barren.discoverFrom_filter`), except for what is
taken out of the list afterwards; and what a walk has met before, it passes over
(`discoverFrom_insert`).
-/

namespace ApiAtlas

namespace TypeTable

variable {T : TypeTable} {R : Registry} {visited visited' ids : List TypeId}
  {d : Descriptor} {i : TypeFacts}

/-! ## What a walk passes over -/

/-- A walk that has met these types goes past the descriptor: it has a bottom, which is no struct to be
entered or one that was met. -/
def PassedBy (T : TypeTable) (R : Registry) (visited : List TypeId) (d : Descriptor) : Prop :=
  T.isBottomless d = false ∧ ∀ i, enterable? R (T.bottom d) = some i → i.id ∈ visited

theorem PassedBy.mono (h : T.PassedBy R visited d) (hsub : ∀ x ∈ visited, x ∈ visited') :
    T.PassedBy R visited' d :=
  ⟨h.1, fun i hi => hsub _ (h.2 i hi)⟩

theorem discoverFrom_of_passedBy {rest : List Descriptor} (h : T.PassedBy R visited d) :
    T.discoverFrom R visited (d :: rest) = T.discoverFrom R visited rest := by
  cases hi : enterable? R (T.bottom d) with
  | none => exact discoverFrom_of_pass h.1 hi
  | some i => exact discoverFrom_of_met hi (h.2 i hi)

theorem discoverFrom_of_all_passedBy {ms rest : List Descriptor}
    (h : ∀ m ∈ ms, T.PassedBy R visited m) :
    T.discoverFrom R visited (ms ++ rest) = T.discoverFrom R visited rest := by
  induction ms with
  | nil => rfl
  | cons m ms ih =>
    obtain ⟨hm, hms⟩ := List.forall_mem_cons.1 h
    rw [List.cons_append, discoverFrom_of_passedBy hm, ih hms]

/-- The types that were met once these structs were found as well. -/
def met (visited : List TypeId) (found : List Descriptor) : List TypeId :=
  found.foldl (fun visited e => e.id?.toList ++ visited) visited

theorem mem_met {x : TypeId} {found : List Descriptor} (h : x ∈ visited) : x ∈ met visited found := by
  induction found generalizing visited with
  | nil => exact h
  | cons e rest ih => exact ih (List.mem_append_right _ h)

/-- **A walk of two lists** is a walk of the first and then, with what it has met, of the second. -/
theorem discoverFrom_append {pending more : List Descriptor} :
    T.discoverFrom R visited (pending ++ more)
      = (T.discoverFrom R visited pending).bind fun found =>
        (T.discoverFrom R (met visited found) more).map (found ++ ·) := by
  induction visited, pending using discoverFrom.induct T R with
  | case1 visited =>
    rw [List.nil_append, discoverFrom]
    show T.discoverFrom R visited more = (T.discoverFrom R visited more).map ([] ++ ·)
    cases T.discoverFrom R visited more with
    | error e => rfl
    | ok later => rfl
  | case2 visited d rest hb =>
    rw [List.cons_append, discoverFrom_of_bottomless hb, discoverFrom_of_bottomless hb]
    rfl
  | case3 visited d rest hb hn ih =>
    have hb : T.isBottomless d = false := by simpa using hb
    rw [List.cons_append, discoverFrom_of_pass hb hn, discoverFrom_of_pass hb hn, ih]
  | case4 visited d rest _ i hi hv ih =>
    rw [List.cons_append, discoverFrom_of_met hi hv, discoverFrom_of_met hi hv, ih]
  | case5 visited d rest _ i hi hv error herror =>
    rw [List.cons_append, discoverFrom_of_new hi hv, discoverFrom_of_new hi hv, herror]
    rfl
  | case6 visited d rest _ i hi hv ms hms ih =>
    rw [List.cons_append, discoverFrom_of_enter rfl hi hv hms,
      discoverFrom_of_enter rfl hi hv hms, ← List.append_assoc, ih]
    cases T.discoverFrom R (i.id :: visited) (ms ++ rest) with
    | error e => rfl
    | ok found =>
      -- the struct that is entered is the first of those that are found
      have hmet : met visited (T.bottom d :: found) = met (i.id :: visited) found := by
        rw [met, List.foldl_cons, Descriptor.id?, facts_of_enterable? hi]
        rfl
      simp only [Except.bind, Except.map, hmet]
      cases T.discoverFrom R (met (i.id :: visited) found) more with
      | error e => rfl
      | ok later => rfl

/-- What leads to no struct, or to one that was met before, can stand anywhere. -/
theorem discoverFrom_insert {pre post : List Descriptor}
    (h : T.PassedBy R visited d) :
    T.discoverFrom R visited (pre ++ d :: post) = T.discoverFrom R visited (pre ++ post) := by
  rw [discoverFrom_append, discoverFrom_append]
  cases T.discoverFrom R visited pre with
  | error e => rfl
  | ok found =>
    simp only [Except.bind]
    rw [discoverFrom_of_passedBy (h.mono fun _ => mem_met)]

/-! ## Barren structs -/

/-- These structs cannot be referred to, have members and lead to each other alone. -/
structure Barren (T : TypeTable) (R : Registry) (ids : List TypeId) : Prop where
  /-- None of them can be referred to. -/
  unreferable : ∀ d i, T.Describes d → enterable? R d = some i → i.id ∈ ids → isReferable d = false
  /-- Their members lead to them. -/
  closed : ∀ d i, T.Describes d → enterable? R d = some i → i.id ∈ ids →
    ∃ ms, T.members d = .ok ms ∧ ∀ m ∈ ms, T.PassedBy R ids m

theorem map_filter_cons {p : Descriptor → Bool} {result : Except Error (List Descriptor)} :
    (result.map (d :: ·)).map (List.filter p)
      = (result.map (List.filter p)).map (List.filter p [d] ++ ·) := by
  cases result with
  | error e => rfl
  | ok found => exact congrArg Except.ok (List.filter_append [d] found)

/-- **To have met barren structs before makes no difference** to what can be referred to. -/
theorem Barren.discoverFrom_filter (hids : T.Barren R ids) {pending : List Descriptor}
    (hp : ∀ p ∈ pending, T.Describes p) (hvisited : ∀ x, x ∈ visited' ↔ x ∈ visited ∨ x ∈ ids) :
    (T.discoverFrom R visited pending).map (List.filter isReferable)
      = (T.discoverFrom R visited' pending).map (List.filter isReferable) := by
  induction visited, pending using discoverFrom.induct T R generalizing visited' with
  | case1 visited => rw [discoverFrom, discoverFrom]
  | case2 visited d rest hb => rw [discoverFrom_of_bottomless hb, discoverFrom_of_bottomless hb]
  | case3 visited d rest hb hn ih =>
    have hb : T.isBottomless d = false := by simpa using hb
    rw [discoverFrom_of_pass hb hn, discoverFrom_of_pass hb hn]
    exact ih (fun p hmem => hp p (List.mem_cons_of_mem _ hmem)) hvisited
  | case4 visited d rest _ i hi hv ih =>
    rw [discoverFrom_of_met hi hv, discoverFrom_of_met hi ((hvisited _).2 (.inl hv))]
    exact ih (fun p hmem => hp p (List.mem_cons_of_mem _ hmem)) hvisited
  | case5 visited d rest _ i hi hv error herror =>
    have hb : T.Describes (T.bottom d) := (hp d List.mem_cons_self).bottom
    have hmet : i.id ∉ ids := by
      intro hmem
      obtain ⟨ms, hms, _⟩ := hids.closed _ i hb hi hmem
      rw [herror] at hms
      cases hms
    have hv' : i.id ∉ visited' := fun hmem => ((hvisited _).1 hmem).elim hv hmet
    rw [discoverFrom_of_new hi hv, discoverFrom_of_new hi hv', herror]
    rfl
  | case6 visited d rest _ i hi hv ms hms ih =>
    have hb : T.Describes (T.bottom d) := (hp d List.mem_cons_self).bottom
    have hpending : ∀ p ∈ ms ++ rest, T.Describes p := by
      intro p hmem
      rcases List.mem_append.1 hmem with hmem | hmem
      · exact (isMember_of_mem hms hmem).describes
      · exact hp p (List.mem_cons_of_mem _ hmem)
    rw [discoverFrom_of_enter rfl hi hv hms, map_filter_cons]
    by_cases hmem : i.id ∈ ids
    -- a barren struct that was met before: nothing of it is kept, and its members are passed over
    · obtain ⟨ms', hms', hclosed⟩ := hids.closed _ i hb hi hmem
      rw [hms] at hms'
      cases hms'
      have hmet : i.id ∈ visited' := (hvisited _).2 (.inr hmem)
      have hsame : ∀ x, x ∈ visited' ↔ x ∈ i.id :: visited ∨ x ∈ ids := by
        intro x
        rw [hvisited, List.mem_cons]
        constructor
        · rintro (hx | hx)
          · exact .inl (.inr hx)
          · exact .inr hx
        · rintro ((rfl | hx) | hx)
          · exact .inr hmem
          · exact .inl hx
          · exact .inr hx
      have hnone : List.filter isReferable [T.bottom d] = [] :=
        List.filter_cons_of_neg (by simp [hids.unreferable _ i hb hi hmem])
      rw [discoverFrom_of_met hi hmet, ih hpending hsame, hnone,
        discoverFrom_of_all_passedBy fun m hm =>
          (hclosed m hm).mono fun x hx => (hvisited x).2 (.inr hx)]
      cases T.discoverFrom R visited' rest with
      | error e => rfl
      | ok found => rfl
    · have hv' : i.id ∉ visited' := fun hmet => ((hvisited _).1 hmet).elim hv hmem
      have hmore : ∀ x, x ∈ i.id :: visited' ↔ x ∈ i.id :: visited ∨ x ∈ ids := by
        intro x
        rw [List.mem_cons, List.mem_cons, hvisited, or_assoc]
      rw [discoverFrom_of_enter rfl hi hv' hms, map_filter_cons, ih hpending hmore]

/-- What a walk finds is barren if none of it can be referred to. -/
theorem barren_of_discover {roots found : List Descriptor} (hroots : ∀ r ∈ roots, T.Describes r)
    (h : T.discover R roots = .ok found)
    (hunreferable : ∀ i, T.ReachesStruct R roots i → ¬ i.Referable) :
    T.Barren R (found.filterMap Descriptor.id?) := by
  have hfacts : ∀ d i, T.Describes d → enterable? R d = some i →
      i.id ∈ found.filterMap Descriptor.id? → ∃ e ∈ found, e.facts = d.facts := by
    intro d i hd hi hmem
    obtain ⟨e, he, hid⟩ := List.mem_filterMap.1 hmem
    obtain ⟨_, _, _, _, _, hreached, _⟩ := exists_of_mem_discover h he
    have hdi := facts_of_enterable? hi
    exact ⟨e, he, by rw [(hreached.describes hroots).facts_of_id? (hd.facts?_id hdi) hid, hdi]⟩
  constructor
  · intro d i hd hi hmem
    obtain ⟨e, he, hed⟩ := hfacts d i hd hi hmem
    have hdi := facts_of_enterable? hi
    have hreached := (mem_discover_iff hroots h i).1 ⟨e, he, hed.trans hdi⟩
    exact Bool.eq_false_iff.2 fun href => hunreferable i hreached ((isReferable_iff hdi).1 href)
  · intro d i hd hi hmem
    obtain ⟨e, he, hed⟩ := hfacts d i hd hi hmem
    obtain ⟨ms, hms, hcovered⟩ := (discoverFrom_closed [] roots found h).2 e he
    refine ⟨ms, by rw [← members_congr hed]; exact hms, fun m hm => ⟨(hcovered m hm).1, ?_⟩⟩
    intro j hj
    rcases (hcovered m hm).2 j hj with hmet | ⟨e', he', hid⟩
    · cases hmet
    · exact List.mem_filterMap.2 ⟨e', he', hid⟩

/-! ## Components -/

/-- The components are made of what can be referred to. -/
theorem components_congr {roots roots' : List Descriptor}
    (h : (T.discover R roots).map (List.filter isReferable)
      = (T.discover R roots').map (List.filter isReferable)) :
    T.components R roots = T.components R roots' := by
  cases hfound : T.discover R roots with
  | error e =>
    rw [hfound] at h
    rw [components_eq, components_eq, hfound, map_eq_error.1 h.symm]
  | ok found =>
    rw [hfound] at h
    obtain ⟨found', hfound', hfilter⟩ := map_eq_ok.1 h.symm
    have hsorted : byName found' = byName found := congrArg sortByName hfilter
    rw [components_of_discover hfound, components_of_discover hfound', hsorted]

theorem components_of_discover_eq {roots roots' : List Descriptor}
    (h : T.discover R roots = T.discover R roots') :
    T.components R roots = T.components R roots' := by
  rw [components_eq, components_eq, h]

theorem components_nil : T.components R [] = .ok [] := by
  refine components_eq_ok.2 ⟨[], ?_, List.mergeSort_nil.symm, .nil⟩
  rw [discover, discoverFrom]

theorem exists_facts_of_hasTypeRule (h : R.hasTypeRule d = true) : ∃ i, d.facts = some i := by
  unfold Registry.hasTypeRule at h
  cases hi : d.facts with
  | none => rw [hi] at h; cases h
  | some i => exact ⟨i, rfl⟩

theorem enterable?_of_hasTypeRule (h : R.hasTypeRule d = true) : enterable? R d = none := by
  refine Option.eq_none_iff_forall_not_mem.2 fun i hi => ?_
  rw [(enterable?_eq_some.1 hi).2.2] at h
  cases h

/-- There are no components exactly if all slices in reach have a bottom and nothing in reach can be
referred to or fails. -/
theorem components_eq_nil_iff {roots : List Descriptor} (hroots : ∀ r ∈ roots, T.Describes r) :
    T.components R roots = .ok []
      ↔ (∀ e, T.Reaches R roots e → T.isBottomless e = false)
        ∧ ∀ i, T.ReachesStruct R roots i → ¬ i.Referable
          ∧ ∃ ms, T.members (T.describe i.id) = .ok ms := by
  constructor
  · intro h
    obtain ⟨found, hfound, _⟩ := components_eq_ok.1 h
    obtain ⟨hends, hm⟩ := (discover_succeeds_iff hroots).1 ⟨found, hfound⟩
    refine ⟨hends, fun i hi => ⟨fun href => ?_, hm i hi⟩⟩
    obtain ⟨c, _, hc⟩ := (componentList_of_ok hroots h).once i hi href
    cases hc
  · rintro ⟨hends, h⟩
    obtain ⟨found, hfound⟩ :=
      (discover_succeeds_iff hroots).2 ⟨hends, fun i hi => (h i hi).2⟩
    refine components_eq_ok.2 ⟨found, hfound, ?_, .nil⟩
    refine (List.eq_nil_iff_forall_not_mem.2 fun e he => ?_).symm
    obtain ⟨hmem, href⟩ := mem_byName.1 he
    obtain ⟨i, _, hi, _⟩ := exists_of_mem_discover hfound hmem
    exact (h i ((mem_discover_iff hroots hfound i).1 ⟨e, hmem, hi⟩)).1 ((isReferable_iff hi).1 href)

/-- **What is barren can be added anywhere.** -/
theorem components_insert (hd : T.Describes d) {pre post : List Descriptor}
    (hroots : ∀ r ∈ pre ++ post, T.Describes r)
    (hends : ∀ e, T.Reaches R [d] e → T.isBottomless e = false)
    (hbarren : ∀ i, T.ReachesStruct R [d] i → ¬ i.Referable
      ∧ ∃ ms, T.members (T.describe i.id) = .ok ms) :
    T.components R (pre ++ d :: post) = T.components R (pre ++ post) := by
  have halone : ∀ r ∈ [d], T.Describes r := List.forall_mem_singleton.2 hd
  obtain ⟨found, hfound⟩ :=
    (discover_succeeds_iff halone).2 ⟨hends, fun i hi => (hbarren i hi).2⟩
  have hids := barren_of_discover halone hfound fun i hi => (hbarren i hi).1
  have hpassed : T.PassedBy R (found.filterMap Descriptor.id?) d := by
    refine ⟨hends d (.root List.mem_cons_self), fun i hi => ?_⟩
    obtain ⟨hdi, hk, hrule⟩ := enterable?_eq_some.1 hi
    have hreached : T.ReachesStruct R [d] i :=
      ⟨_, (Reaches.root List.mem_cons_self).bottom, hdi, hk, hrule⟩
    obtain ⟨e, he, hei⟩ := (mem_discover_iff halone hfound i).2 hreached
    exact List.mem_filterMap.2 ⟨e, he, by rw [Descriptor.id?, hei]; rfl⟩
  have hvisited : ∀ x, x ∈ found.filterMap Descriptor.id?
      ↔ x ∈ [] ∨ x ∈ found.filterMap Descriptor.id? := by simp
  refine components_congr ?_
  rw [discover, discover, hids.discoverFrom_filter (describes_insert hd hroots) hvisited,
    discoverFrom_insert hpassed,
    ← hids.discoverFrom_filter hroots hvisited]

/-! ## Slices of a type -/

section Sequences

variable {s : Sequence} {t : TypeExpr}

theorem underlying_sequence : T.underlying (.sequence s t) = .sequence s t := by
  rw [underlying, underlyingFrom_of_not_named fun key h => by cases h]
  rfl

theorem facts?_sequence : T.facts? (.sequence s t)
    = some ⟨.sequence s t, T.fullName (.sequence s t), none, true, .slice⟩ := by
  have hkind : T.kind? (.sequence s t) = some .slice := by rw [kind?, underlying_sequence]
  rw [facts?, hkind]
  rfl

theorem item?_sequence (hc : T.isCircular t = false) : T.item? (.sequence s t) = some t :=
  item?_eq_some.2 ⟨by rw [element?, underlying_sequence], hc⟩

/-- Behind a slice of something that is no slice is that. -/
theorem bottom_sequence (hc : T.isCircular t = false)
    (h : (T.describe t).hasKind .slice = false) :
    T.bottom (T.describe (.sequence s t)) = T.describe t := by
  have hk : (T.describe (.sequence s t)).hasKind .slice = true :=
    (hasKind_iff facts?_sequence).2 rfl
  exact bottom_of_behind (describes_describe _)
    (.element (by simp [opens, hk]) (element_describe hk (item?_sequence hc)) .here)
    (leadsOn_of_not_slice h)

end Sequences

end TypeTable

/-! ## An example: accounts with rules -/

namespace Example

open TypeTable

/-- Payers, and lists of logins, are written as texts. -/
def accountRules : Registry :=
  ⟨[(.named "Payer", Rule.typed "string" ""),
    (.sequence .vec (.named "Login"), Rule.typed "string" "")], []⟩

def logins : Descriptor := accounts.describe (.sequence .vec (.named "Login"))

theorem hasTypeRule_payer : accountRules.hasTypeRule payer = true := by
  rw [Registry.hasTypeRule, facts_payer]
  rfl

theorem hasTypeRule_logins : accountRules.hasTypeRule logins = true := by
  have hfacts : logins.facts = some ⟨.sequence .vec (.named "Login"), _, none, true, .slice⟩ :=
    facts?_sequence
  rw [Registry.hasTypeRule, hfacts]
  rfl

theorem enterable?_login : enterable? accountRules login
    = some ⟨.named "Login", "auth::Account", some "Account", true, .struct⟩ := by
  refine enterable?_eq_some.2 ⟨facts_login, rfl, ?_⟩
  rw [Registry.hasTypeRule, facts_login]
  rfl

theorem bottom_logins : accounts.bottom logins = login :=
  bottom_sequence (not_circular_of_facts? facts_login) (hasKind_of_enterable? enterable?_login).2

end Example

namespace TypeTable

/-- A list of logins is written by its rule, and yet its items are described. -/
theorem ruled_slice_adds_component :
    Example.accountRules.hasTypeRule Example.logins = true
      ∧ Example.accounts.components Example.accountRules [] = .ok []
      ∧ Example.accounts.components Example.accountRules [Example.logins]
        = .ok [Example.login] := by
  have hdiscover : Example.accounts.discover Example.accountRules [Example.logins]
      = .ok [Example.login] := by
    rw [discover, discoverFrom_of_enter Example.bottom_logins Example.enterable?_login
      List.not_mem_nil Example.members_login, List.nil_append, discoverFrom]
    rfl
  have href : isReferable Example.login = true :=
    (isReferable_iff Example.facts_login).2 ⟨rfl, _, rfl, by decide⟩
  refine ⟨Example.hasTypeRule_logins, ?_, ?_⟩
  · exact components_nil
  · refine components_eq_ok.2 ⟨_, hdiscover, ?_, List.pairwise_singleton _ _⟩
    rw [byName, removeUnreferable, List.filter_cons_of_pos href, List.filter_nil, sortByName,
      List.mergeSort_singleton]

/-- **When a data type adds nothing to the components.** A data type is written by its rule,
whatever it is. If it is no slice, it makes no difference to the outcome of collecting components,
at whatever place among whatever roots. A slice makes no difference exactly if all slices in reach
from it have a bottom, and all structs in reach from it have members and cannot be referred to. -/
theorem data_types_add_nothing_iff {T : TypeTable} {R : Registry} {d : Descriptor}
    (hd : T.Describes d) (hrule : R.hasTypeRule d = true) :
    (∀ policy path, T.schemaFrom R policy path d = R.dataSchema T d)
      ∧ (d.hasKind .slice = false → ∀ pre post,
        T.components R (pre ++ d :: post) = T.components R (pre ++ post))
      ∧ ((∀ pre post, (∀ r ∈ pre ++ post, T.Describes r) →
          T.components R (pre ++ d :: post) = T.components R (pre ++ post))
        ↔ (∀ e, T.Reaches R [d] e → T.isBottomless e = false)
          ∧ ∀ i, T.ReachesStruct R [d] i → ¬ i.Referable
            ∧ ∃ ms, T.members (T.describe i.id) = .ok ms) := by
  refine ⟨fun policy path => ?_, fun hk pre post => ?_, ?_⟩
  · obtain ⟨i, hi⟩ := exists_facts_of_hasTypeRule hrule
    rw [schemaFrom_of_not_opens (by simp [opens, hrule]), siteSchema?, hi]
    simp only [if_pos hrule]
    cases R.dataSchema T d with
    | error e => rfl
    | ok s => rfl
  · refine components_of_discover_eq
      (discoverFrom_insert ⟨isBottomless_of_not_slice hk, fun i hi => ?_⟩)
    rw [bottom_of_not_slice hk, enterable?_of_hasTypeRule hrule] at hi
    cases hi
  · constructor
    · intro h
      refine (components_eq_nil_iff (List.forall_mem_singleton.2 hd)).1 ?_
      have halone : T.components R [d] = T.components R [] := h [] [] (by simp)
      rw [halone]
      exact components_nil
    · rintro ⟨hends, hbarren⟩ pre post hroots
      exact components_insert hd hroots hends hbarren

/-- Payers are written by a rule, so that they do not clash with logins. -/
theorem data_types_add_nothing_iff_payer :
    Example.accounts.Describes Example.payer
      ∧ Example.accountRules.hasTypeRule Example.payer = true
      ∧ Example.accounts.components Example.accountRules [Example.login, Example.payer]
        = Example.accounts.components Example.accountRules [Example.login] := by
  have hdescribes : Example.accounts.Describes Example.payer := describes_describe _
  have h := data_types_add_nothing_iff hdescribes Example.hasTypeRule_payer
  have hkind : Example.payer.hasKind .slice = false := by
    rw [Descriptor.hasKind, Descriptor.kind?, Example.facts_payer]
    rfl
  exact ⟨hdescribes, Example.hasTypeRule_payer, h.2.1 hkind [Example.login] []⟩

end TypeTable

end ApiAtlas
