import ApiAtlas.Proofs.Flattening
import ApiAtlas.Proofs.Slices

/-!
# The walk for components finds what can be reached

`Reaches` says what can be reached from the roots in single steps, from a slice to its element and
from a struct to its members; it knows nothing of an order, of a list of types already met or of
what is left to visit. `discover` is a depth-first walk with all of these.

The walk is sound since it only ever takes such steps. It is complete since its result is closed
(`discoverFrom_closed`): every root and every member of a struct that was found is either found
itself or was met before. And it succeeds exactly when all slices in reach have a bottom and every
struct in reach has members, in which order the roots are taken making no difference.
-/

namespace ApiAtlas.TypeTable

variable {T : TypeTable} {R : Registry}

/-! ## Reachability -/

/-- One step of a walk: from a slice to its element, or from a struct to one of its members. A
struct that is a data type is not looked into. -/
inductive Step (T : TypeTable) (R : Registry) : Descriptor → Descriptor → Prop where
  | element {d e : Descriptor} :
      d.hasKind .slice = true → T.element d = some e → Step T R d e
  | member {d m : Descriptor} {ms : List Descriptor} :
      d.hasKind .struct = true → R.hasTypeRule d = false → T.members d = .ok ms → m ∈ ms →
      Step T R d m

/-- What a walk from the roots comes by. -/
inductive Reaches (T : TypeTable) (R : Registry) (roots : List Descriptor) : Descriptor → Prop where
  | root {d : Descriptor} : d ∈ roots → Reaches T R roots d
  | step {d e : Descriptor} : Reaches T R roots d → Step T R d e → Reaches T R roots e

/-- A struct in reach that is no data type, by the facts about it. -/
def ReachesStruct (T : TypeTable) (R : Registry) (roots : List Descriptor) (i : TypeFacts) : Prop :=
  ∃ d, T.Reaches R roots d ∧ d.facts = some i ∧ i.kind = .struct ∧ R.hasTypeRule d = false

theorem Reaches.describes {roots : List Descriptor} {d : Descriptor}
    (hroots : ∀ r ∈ roots, T.Describes r) (h : T.Reaches R roots d) : T.Describes d := by
  induction h with
  | root hd => exact hroots _ hd
  | step _ hs _ =>
    cases hs with
    | element _ he => exact describes_element he
    | member _ _ hm hmem => exact (isMember_of_mem hm hmem).describes

/-- More roots reach no less. -/
theorem Reaches.mono {roots roots' : List Descriptor} {d : Descriptor} (h : T.Reaches R roots d)
    (hsub : ∀ r ∈ roots, r ∈ roots') : T.Reaches R roots' d := by
  induction h with
  | root hd => exact .root (hsub _ hd)
  | step _ hs ih => exact .step ih hs

theorem Reaches.behind {roots : List Descriptor} {n : Nat} {d b : Descriptor}
    {stop : Descriptor → Bool} (hd : T.Reaches R roots d) (h : T.Behind stop n d b) :
    T.Reaches R roots b := by
  induction h with
  | here => exact hd
  | element ho he _ ih => exact ih (hd.step (.element (hasKind_of_opens ho) he))

/-! ## Structs that a walk enters -/

theorem enterable?_eq_some {d : Descriptor} {i : TypeFacts} :
    enterable? R d = some i ↔ d.facts = some i ∧ i.kind = .struct ∧ R.hasTypeRule d = false := by
  simp [enterable?, Option.filter_eq_some_iff]

theorem hasKind_of_enterable? {d : Descriptor} {i : TypeFacts} (h : enterable? R d = some i) :
    d.hasKind .struct = true ∧ d.hasKind .slice = false := by
  obtain ⟨hi, hk, _⟩ := enterable?_eq_some.1 h
  constructor
  · exact (hasKind_iff hi).2 hk
  · simp [Descriptor.hasKind, Descriptor.kind?, hi, hk]

theorem step_of_enterable? {d m : Descriptor} {i : TypeFacts} {ms : List Descriptor}
    (hi : enterable? R d = some i) (hms : T.members d = .ok ms) (hm : m ∈ ms) : T.Step R d m :=
  .member (hasKind_of_enterable? hi).1 (enterable?_eq_some.1 hi).2.2 hms hm

theorem bottom_of_not_slice {d : Descriptor} (h : d.hasKind .slice = false) : T.bottom d = d := by
  rw [bottom, peel_of_not_opens (by simp [opens, h])]

theorem isBottomless_of_not_slice {d : Descriptor} (h : d.hasKind .slice = false) :
    T.isBottomless d = false := by
  rw [isBottomless, bottom_of_not_slice h, leadsOn_of_not_slice h]

/-- Where a struct is to be entered, slices have come to an end. -/
theorem isBottomless_of_enterable? {d : Descriptor} {i : TypeFacts}
    (h : enterable? R (T.bottom d) = some i) : T.isBottomless d = false :=
  leadsOn_of_not_slice (hasKind_of_enterable? h).2

theorem Reaches.bottom {roots : List Descriptor} {d : Descriptor} (hd : T.Reaches R roots d) :
    T.Reaches R roots (T.bottom d) :=
  hd.behind (behind_of_peel _ d)

/-! ## One step of the walk -/

theorem discoverFrom_of_bottomless {visited : List TypeId} {d : Descriptor}
    {rest : List Descriptor} (hb : T.isBottomless d = true) :
    T.discoverFrom R visited (d :: rest) = .error .noEnd := by
  rw [discoverFrom, if_pos hb]

theorem discoverFrom_of_pass {visited : List TypeId} {d : Descriptor} {rest : List Descriptor}
    (hb : T.isBottomless d = false) (hn : enterable? R (T.bottom d) = none) :
    T.discoverFrom R visited (d :: rest) = T.discoverFrom R visited rest := by
  rw [discoverFrom, hb, if_neg Bool.false_ne_true]
  split
  next => rfl
  next hi => rw [hn] at hi; cases hi

/-- Where there is no type, there is nothing to enter. -/
theorem discoverFrom_of_empty {visited : List TypeId} {rest : List Descriptor} :
    T.discoverFrom R visited (T.describe .empty :: rest) = T.discoverFrom R visited rest := by
  have hfacts : (T.describe .empty).facts = none := facts?_empty
  have hslice : (T.describe .empty).hasKind .slice = false := by
    rw [Descriptor.hasKind, Descriptor.kind?, hfacts]
    rfl
  refine discoverFrom_of_pass (isBottomless_of_not_slice hslice) ?_
  rw [bottom_of_not_slice hslice, enterable?, hfacts]
  rfl

theorem discoverFrom_of_met {visited : List TypeId} {d : Descriptor} {rest : List Descriptor}
    {i : TypeFacts} (hi : enterable? R (T.bottom d) = some i) (hv : i.id ∈ visited) :
    T.discoverFrom R visited (d :: rest) = T.discoverFrom R visited rest := by
  rw [discoverFrom, isBottomless_of_enterable? hi, if_neg Bool.false_ne_true]
  split
  next => rfl
  next j hj =>
    rw [hi] at hj
    cases hj
    rw [if_pos hv]

theorem discoverFrom_of_new {visited : List TypeId} {d : Descriptor} {rest : List Descriptor}
    {i : TypeFacts} (hi : enterable? R (T.bottom d) = some i) (hv : i.id ∉ visited) :
    T.discoverFrom R visited (d :: rest) = (T.members (T.bottom d)).bind fun ms =>
      (T.discoverFrom R (i.id :: visited) (ms ++ rest)).map (T.bottom d :: ·) := by
  rw [discoverFrom, isBottomless_of_enterable? hi, if_neg Bool.false_ne_true]
  split
  next hn => rw [hi] at hn; cases hn
  next j hj =>
    rw [hi] at hj
    cases hj
    rw [if_neg hv]
    split
    next he => rw [he]; rfl
    next hms => rw [hms]; rfl

theorem discoverFrom_of_enter {visited : List TypeId} {d b : Descriptor}
    {rest ms : List Descriptor} {i : TypeFacts} (hb : T.bottom d = b)
    (hi : enterable? R b = some i) (hv : i.id ∉ visited) (hms : T.members b = .ok ms) :
    T.discoverFrom R visited (d :: rest)
      = (T.discoverFrom R (i.id :: visited) (ms ++ rest)).map (b :: ·) := by
  rw [← hb] at hi hms ⊢
  rw [discoverFrom_of_new hi hv, hms]
  rfl

/-! ## Soundness -/

/-- What is found from descriptors in reach is in reach, and each is a struct to be entered. -/
theorem discoverFrom_sound {roots : List Descriptor} (visited : List TypeId)
    (pending found : List Descriptor)
    (hp : ∀ d ∈ pending, T.Reaches R roots d)
    (h : T.discoverFrom R visited pending = .ok found) :
    ∀ e ∈ found, T.Reaches R roots e ∧ ∃ i, enterable? R e = some i := by
  revert found hp
  refine discoverFrom.induct_unfolding T R (fun _ pending result => ∀ found : List Descriptor,
    (∀ d ∈ pending, T.Reaches R roots d) → result = .ok found →
      ∀ e ∈ found, T.Reaches R roots e ∧ ∃ i, enterable? R e = some i)
    ?nil ?bottomless ?pass ?met ?stuck ?enter visited pending
  case nil =>
    intro _ found _ h e he
    cases h
    cases he
  case bottomless =>
    intro _ d rest _ found _ h
    cases h
  case pass =>
    intro _ d rest _ _ ih found hp h
    exact ih found (fun d hd => hp d (List.mem_cons_of_mem _ hd)) h
  case met =>
    intro _ d rest _ _ _ _ ih found hp h
    exact ih found (fun d hd => hp d (List.mem_cons_of_mem _ hd)) h
  case stuck =>
    intro _ d rest _ _ _ _ _ _ found _ h
    cases h
  case enter =>
    intro _ d rest _ i hi _ ms hm ih found hp h
    obtain ⟨later, hlater, hfound⟩ := bind_eq_ok.1 h
    cases hfound
    have hb : T.Reaches R roots (T.bottom d) := (hp d List.mem_cons_self).bottom
    have hpending : ∀ m ∈ ms ++ rest, T.Reaches R roots m := by
      intro m hmem
      rcases List.mem_append.1 hmem with hmem | hmem
      · exact hb.step (step_of_enterable? hi hm hmem)
      · exact hp m (List.mem_cons_of_mem _ hmem)
    intro e he
    rcases List.mem_cons.1 he with he | he
    · rw [he]; exact ⟨hb, i, hi⟩
    · exact ih later hpending hlater e he

/-! ## Completeness -/

/-- A descriptor has a bottom, and if there is a struct to be entered, it was met before or is among
those found. -/
def Covered (T : TypeTable) (R : Registry) (visited : List TypeId) (found : List Descriptor)
    (d : Descriptor) : Prop :=
  T.isBottomless d = false
    ∧ ∀ i, enterable? R (T.bottom d) = some i → i.id ∈ visited ∨ ∃ e ∈ found, e.id? = some i.id

/-- **The result of a walk is closed.** What it started from is covered, and so is every member of a
struct that it found. -/
theorem discoverFrom_closed (visited : List TypeId) (pending found : List Descriptor)
    (h : T.discoverFrom R visited pending = .ok found) :
    (∀ d ∈ pending, T.Covered R visited found d)
      ∧ ∀ e ∈ found, ∃ ms, T.members e = .ok ms ∧ ∀ m ∈ ms, T.Covered R visited found m := by
  revert found
  refine discoverFrom.induct_unfolding T R (fun visited pending result =>
    ∀ found : List Descriptor, result = .ok found → (∀ d ∈ pending, T.Covered R visited found d)
      ∧ ∀ e ∈ found, ∃ ms, T.members e = .ok ms ∧ ∀ m ∈ ms, T.Covered R visited found m)
    ?nil ?bottomless ?pass ?met ?stuck ?enter visited pending
  case nil =>
    intro _ found h
    cases h
    constructor
    · intro d hd; cases hd
    · intro e he; cases he
  case bottomless =>
    intro _ d rest _ found h
    cases h
  case pass =>
    intro visited d rest hb hn ih found h
    obtain ⟨hrest, hfound⟩ := ih found h
    refine ⟨fun x hx => ?_, hfound⟩
    rcases List.mem_cons.1 hx with hx | hx
    · rw [hx]
      refine ⟨by simpa using hb, fun i hi => ?_⟩
      rw [hn] at hi
      cases hi
    · exact hrest x hx
  case met =>
    intro visited d rest hb i hi hv ih found h
    obtain ⟨hrest, hfound⟩ := ih found h
    refine ⟨fun x hx => ?_, hfound⟩
    rcases List.mem_cons.1 hx with hx | hx
    · rw [hx]
      refine ⟨by simpa using hb, fun j hj => ?_⟩
      rw [hi] at hj
      cases hj
      exact .inl hv
    · exact hrest x hx
  case stuck =>
    intro _ d rest _ _ _ _ _ _ found h
    cases h
  case enter =>
    intro visited d rest hb i hi hv ms hm ih found h
    obtain ⟨later, hlater, hfound⟩ := bind_eq_ok.1 h
    cases hfound
    obtain ⟨hpending, hinner⟩ := ih later hlater
    have hid : (T.bottom d).id? = some i.id := by
      simp [Descriptor.id?, (enterable?_eq_some.1 hi).1]
    -- to have met the struct that is entered now is to have found it
    have hcov : ∀ x, T.Covered R (i.id :: visited) later x →
        T.Covered R visited (T.bottom d :: later) x := by
      intro x hx
      refine ⟨hx.1, fun j hj => ?_⟩
      rcases hx.2 j hj with hmet | ⟨e, he, heid⟩
      · rcases List.mem_cons.1 hmet with hmet | hmet
        · exact .inr ⟨T.bottom d, List.mem_cons_self, by rw [hmet]; exact hid⟩
        · exact .inl hmet
      · exact .inr ⟨e, List.mem_cons_of_mem _ he, heid⟩
    constructor
    · intro x hx
      rcases List.mem_cons.1 hx with hx | hx
      · rw [hx]
        refine ⟨by simpa using hb, fun j hj => ?_⟩
        rw [hi] at hj
        cases hj
        exact .inr ⟨T.bottom d, List.mem_cons_self, hid⟩
      · exact hcov x (hpending x (List.mem_append_right _ hx))
    · intro e he
      rcases List.mem_cons.1 he with he | he
      · rw [he]
        exact ⟨ms, hm, fun m hmem => hcov m (hpending m (List.mem_append_left _ hmem))⟩
      · obtain ⟨ms', hm', hcov'⟩ := hinner e he
        exact ⟨ms', hm', fun m hmem => hcov m (hcov' m hmem)⟩

/-- No type is found twice, nor one that was met before. -/
theorem discoverFrom_nodup (visited : List TypeId) (pending found : List Descriptor)
    (h : T.discoverFrom R visited pending = .ok found) :
    (found.map Descriptor.id?).Nodup ∧ ∀ t ∈ visited, some t ∉ found.map Descriptor.id? := by
  revert found
  refine discoverFrom.induct_unfolding T R (fun visited _ result => ∀ found : List Descriptor,
    result = .ok found →
      (found.map Descriptor.id?).Nodup ∧ ∀ t ∈ visited, some t ∉ found.map Descriptor.id?)
    ?nil ?bottomless ?pass ?met ?stuck ?enter visited pending
  case nil =>
    intro _ found h
    cases h
    exact ⟨List.nodup_nil, fun _ _ h => by cases h⟩
  case bottomless =>
    intro _ d rest _ found h
    cases h
  case pass =>
    intro _ d rest _ _ ih found h
    exact ih found h
  case met =>
    intro _ d rest _ _ _ _ ih found h
    exact ih found h
  case stuck =>
    intro _ d rest _ _ _ _ _ _ found h
    cases h
  case enter =>
    intro visited d rest hb i hi hv ms hm ih found h
    obtain ⟨later, hlater, hfound⟩ := bind_eq_ok.1 h
    cases hfound
    obtain ⟨hnd, hnew⟩ := ih later hlater
    have hid : (T.bottom d).id? = some i.id := by
      simp [Descriptor.id?, (enterable?_eq_some.1 hi).1]
    rw [List.map_cons, hid]
    refine ⟨List.nodup_cons.2 ⟨hnew _ List.mem_cons_self, hnd⟩, fun t ht hmem => ?_⟩
    rcases List.mem_cons.1 hmem with hmem | hmem
    · cases hmem; exact hv ht
    · exact hnew t (List.mem_cons_of_mem _ ht) hmem

/-- Two table descriptors with the facts `i` and an identity in common. -/
theorem Describes.facts_of_id? {d : Descriptor} {i : TypeFacts} (hd : T.Describes d)
    (hi : T.facts? i.id = some i) (h : d.id? = some i.id) : d.facts = some i := by
  obtain ⟨j, hj, hid⟩ := Option.map_eq_some_iff.1 h
  have := hd.facts?_id hj
  rw [hid, hi] at this
  rw [hj, this]

variable {roots found : List Descriptor}

/-- What is found has the facts of structs in reach, and members. -/
theorem exists_of_mem_discover (h : T.discover R roots = .ok found) {e : Descriptor}
    (he : e ∈ found) :
    ∃ i ms, e.facts = some i ∧ i.kind = .struct ∧ R.hasTypeRule e = false
      ∧ T.Reaches R roots e ∧ T.members e = .ok ms := by
  obtain ⟨hr, i, hi⟩ := discoverFrom_sound [] roots found (fun d hd => .root hd) h e he
  obtain ⟨ms, hm, _⟩ := (discoverFrom_closed [] roots found h).2 e he
  obtain ⟨hi, hk, hrule⟩ := enterable?_eq_some.1 hi
  exact ⟨i, ms, hi, hk, hrule, hr, hm⟩

/-- Every descriptor in reach has a bottom, and the struct there, if one is to be entered, is found. -/
theorem found_of_reaches (hroots : ∀ r ∈ roots, T.Describes r)
    (h : T.discover R roots = .ok found) {d : Descriptor} (hd : T.Reaches R roots d) :
    T.isBottomless d = false
      ∧ ∀ i, enterable? R (T.bottom d) = some i → ∃ e ∈ found, e.facts = some i := by
  obtain ⟨hstart, hclosed⟩ := discoverFrom_closed [] roots found h
  have hdesc : ∀ e ∈ found, T.Describes e := by
    intro e he
    obtain ⟨_, _, _, _, _, hr, _⟩ := exists_of_mem_discover h he
    exact hr.describes hroots
  -- to be covered is to be found: nothing was met before the walk
  have hfound : ∀ x, T.Describes x → T.Covered R [] found x → T.isBottomless x = false
      ∧ ∀ i, enterable? R (T.bottom x) = some i → ∃ e ∈ found, e.facts = some i := by
    intro x hx hcov
    refine ⟨hcov.1, fun i hi => ?_⟩
    rcases hcov.2 i hi with hmet | ⟨e, he, hid⟩
    · cases hmet
    · have hfacts := hx.bottom.facts?_id (enterable?_eq_some.1 hi).1
      exact ⟨e, he, (hdesc e he).facts_of_id? hfacts hid⟩
  induction hd with
  | root hd => exact hfound _ (hroots _ hd) (hstart _ hd)
  | @step d e hd hs ih =>
    have hdd := hd.describes hroots
    cases hs with
    | element hk he =>
      refine ⟨by rw [← isBottomless_of_element hdd hk he]; exact ih.1, fun i hi => ?_⟩
      have ho : opens (fun _ => false) d = true := by simp [opens, hk]
      have hb : T.bottom d = T.bottom e :=
        bottom_of_behind hdd (.element ho he (behind_of_peel _ e)) (isBottomless_of_enterable? hi)
      exact ih.2 i (by rw [hb]; exact hi)
    | member hk hrule hm hmem =>
      obtain ⟨j, hj, hjk⟩ := exists_facts_of_hasKind hk
      have hent : enterable? R d = some j := enterable?_eq_some.2 ⟨hj, hjk, hrule⟩
      have hb : T.bottom d = d := bottom_of_not_slice (hasKind_of_enterable? hent).2
      obtain ⟨f, hf, hff⟩ := ih.2 j (by rw [hb]; exact hent)
      obtain ⟨ms', hm', hcov⟩ := hclosed f hf
      rw [members_congr (hff.trans hj.symm), hm] at hm'
      cases hm'
      exact hfound _ (isMember_of_mem hm hmem).describes (hcov _ hmem)

/-- **A walk that ends finds the structs in reach, and no others.** -/
theorem mem_discover_iff (hroots : ∀ r ∈ roots, T.Describes r)
    (h : T.discover R roots = .ok found) (i : TypeFacts) :
    (∃ e ∈ found, e.facts = some i) ↔ T.ReachesStruct R roots i := by
  constructor
  · rintro ⟨e, he, hi⟩
    obtain ⟨j, _, hj, hk, hrule, hr, _⟩ := exists_of_mem_discover h he
    rw [hi] at hj
    cases hj
    exact ⟨e, hr, hi, hk, hrule⟩
  · rintro ⟨d, hd, hi, hk, hrule⟩
    have hent : enterable? R d = some i := enterable?_eq_some.2 ⟨hi, hk, hrule⟩
    have hb : T.bottom d = d := bottom_of_not_slice (hasKind_of_enterable? hent).2
    exact (found_of_reaches hroots h hd).2 i (by rw [hb]; exact hent)

/-! ## When a walk succeeds -/

/-- A walk ends well if all structs in reach have members, unless it comes to something without a
bottom. -/
theorem discoverFrom_total (visited : List TypeId) (pending : List Descriptor)
    (hp : ∀ d ∈ pending, T.Reaches R roots d)
    (hm : ∀ d i, T.Reaches R roots d → enterable? R d = some i → ∃ ms, T.members d = .ok ms) :
    (∃ found, T.discoverFrom R visited pending = .ok found)
      ∨ T.discoverFrom R visited pending = .error .noEnd
        ∧ ∃ d, T.Reaches R roots d ∧ T.isBottomless d = true := by
  revert hp
  refine discoverFrom.induct_unfolding T R (fun _ pending result =>
    (∀ d ∈ pending, T.Reaches R roots d) → (∃ found, result = .ok found)
      ∨ result = .error .noEnd ∧ ∃ d, T.Reaches R roots d ∧ T.isBottomless d = true)
    ?nil ?bottomless ?pass ?met ?stuck ?enter visited pending
  case nil =>
    intro _ _
    exact .inl ⟨[], rfl⟩
  case bottomless =>
    intro _ d rest hb hp
    exact .inr ⟨rfl, d, hp d List.mem_cons_self, hb⟩
  case pass =>
    intro _ d rest _ _ ih hp
    exact ih fun d hd => hp d (List.mem_cons_of_mem _ hd)
  case met =>
    intro _ d rest _ _ _ _ ih hp
    exact ih fun d hd => hp d (List.mem_cons_of_mem _ hd)
  case stuck =>
    intro _ d rest _ i hi _ e he hp
    obtain ⟨ms, hms⟩ := hm _ i ((hp d List.mem_cons_self).bottom) hi
    rw [he] at hms
    cases hms
  case enter =>
    intro _ d rest _ i hi _ ms hms ih hp
    have hb : T.Reaches R roots (T.bottom d) := (hp d List.mem_cons_self).bottom
    have hlater := ih fun m hmem => by
      rcases List.mem_append.1 hmem with hmem | hmem
      · exact hb.step (step_of_enterable? hi hms hmem)
      · exact hp m (List.mem_cons_of_mem _ hmem)
    rcases hlater with ⟨later, hlater⟩ | ⟨hlater, hendless⟩
    · exact .inl ⟨T.bottom d :: later, by rw [hlater]; rfl⟩
    · exact .inr ⟨by rw [hlater]; rfl, hendless⟩

/-- Every struct in reach has members. -/
def Walkable (T : TypeTable) (R : Registry) (roots : List Descriptor) : Prop :=
  ∀ i, T.ReachesStruct R roots i → ∃ ms, T.members (T.describe i.id) = .ok ms

/-- Where structs have members, a walk fails for lack of an end alone. -/
theorem discover_of_walkable (hroots : ∀ r ∈ roots, T.Describes r) (hm : T.Walkable R roots) :
    (∃ found, T.discover R roots = .ok found)
      ∨ T.discover R roots = .error .noEnd
        ∧ ∃ d, T.Reaches R roots d ∧ T.isBottomless d = true := by
  refine discoverFrom_total [] roots (fun d hd => .root hd) fun d i hd hi => ?_
  obtain ⟨hi, hk, hrule⟩ := enterable?_eq_some.1 hi
  obtain ⟨ms, hms⟩ := hm i ⟨d, hd, hi, hk, hrule⟩
  exact ⟨ms, hms ▸ members_congr ((hd.describes hroots).describe_id hi).symm⟩

/-- **A walk succeeds exactly when all slices in reach have a bottom and every struct in reach has
members.** -/
theorem discover_succeeds_iff (hroots : ∀ r ∈ roots, T.Describes r) :
    (∃ found, T.discover R roots = .ok found) ↔
      (∀ d, T.Reaches R roots d → T.isBottomless d = false) ∧ T.Walkable R roots := by
  constructor
  · rintro ⟨found, h⟩
    refine ⟨fun d hd => (found_of_reaches hroots h hd).1, fun i hi => ?_⟩
    obtain ⟨d, hd, hdi, _, _⟩ := id hi
    obtain ⟨e, he, hei⟩ := (mem_discover_iff hroots h i).2 hi
    obtain ⟨_, ms, _, _, _, _, hm⟩ := exists_of_mem_discover h he
    refine ⟨ms, ?_⟩
    rw [← hm]
    exact members_congr (((hd.describes hroots).describe_id hdi).trans (hdi.trans hei.symm))
  · rintro ⟨hends, hm⟩
    rcases discover_of_walkable hroots hm with h | ⟨_, d, hd, hb⟩
    · exact h
    · rw [hends d hd] at hb
      cases hb

/-- A walk from some of the roots succeeds where the walk from all of them does. -/
theorem exists_discover_of_subset {roots' : List Descriptor} (hroots : ∀ r ∈ roots, T.Describes r)
    (hsub : ∀ r ∈ roots', r ∈ roots) (h : T.discover R roots = .ok found) :
    ∃ found', T.discover R roots' = .ok found' := by
  obtain ⟨hends, hm⟩ := (discover_succeeds_iff hroots).1 ⟨found, h⟩
  refine (discover_succeeds_iff fun r hr => hroots r (hsub r hr)).2
    ⟨fun d hd => hends d (hd.mono hsub), fun i hi => ?_⟩
  obtain ⟨d, hd, hdi⟩ := hi
  exact hm i ⟨d, hd.mono hsub, hdi⟩

end ApiAtlas.TypeTable
