import ApiAtlas.Proofs.Identity

/-!
# What lies behind slices, as a relation

`Behind stop n d b` says in so many words that `n` slices, opened one after the other, lead from `d`
to `b`; it keeps no list of the types that were entered. `peel` keeps one. It takes the same way
(`behind_of_peel`), and where the way has an end, it arrives there (`peel_of_behind`): the list stops
it only if nothing but slices lies ahead, however far one goes. So what it is left with tells whether
there is an end at all (`leadsOn_peel_iff`, `isBottomless_iff`).
-/

namespace ApiAtlas.TypeTable

variable {T : TypeTable} {R : Registry}

theorem hasKind_iff {d : Descriptor} {i : TypeFacts} {k : Kind} (hi : d.facts = some i) :
    d.hasKind k = true ↔ i.kind = k := by
  simp [Descriptor.hasKind, Descriptor.kind?, hi]

theorem exists_facts_of_hasKind {d : Descriptor} {k : Kind} (h : d.hasKind k = true) :
    ∃ i, d.facts = some i ∧ i.kind = k := by
  cases hi : d.facts with
  | none => simp [Descriptor.hasKind, Descriptor.kind?, hi] at h
  | some i => exact ⟨i, rfl, (hasKind_iff hi).1 h⟩

theorem element_congr {d e : Descriptor} (h : d.facts = e.facts) : T.element d = T.element e := by
  unfold element
  rw [h]

theorem element_eq_some {d e : Descriptor} : T.element d = some e
    ↔ ∃ i item, d.facts = some i ∧ T.item? i.id = some item ∧ T.describe item = e := by
  simp only [element, Option.bind_eq_some_iff, Option.map_eq_some_iff]
  exact ⟨fun ⟨i, hi, item, hitem, he⟩ => ⟨i, item, hi, hitem, he⟩,
    fun ⟨i, item, hi, hitem, he⟩ => ⟨i, hi, item, hitem, he⟩⟩

theorem describes_element {d e : Descriptor} (h : T.element d = some e) : T.Describes e := by
  obtain ⟨_, item, _, _, rfl⟩ := element_eq_some.1 h
  exact describes_describe item

/-! ## Slices that lead on -/

section Stop

variable {stop : Descriptor → Bool} {d e : Descriptor}

theorem hasKind_of_opens (ho : opens stop d = true) : d.hasKind .slice = true := by
  simp only [opens, Bool.and_eq_true] at ho
  exact ho.1

theorem opens_iff {i : TypeFacts} (hi : d.facts = some i) :
    opens stop d = true ↔ i.kind = .slice ∧ stop d = false := by
  rw [opens, Bool.and_eq_true, hasKind_iff hi, Bool.not_eq_true']

theorem leadsOn_iff {i : TypeFacts} (hi : d.facts = some i) :
    T.leadsOn stop d = true ↔ opens stop d = true ∧ ∃ item, T.element? i.id = some item := by
  simp [leadsOn, hi, Option.isSome_iff_exists]

/-- A slice that does not lead on has no element. -/
theorem element?_of_not_leadsOn {i : TypeFacts} (hi : d.facts = some i) (ho : opens stop d = true)
    (h : T.leadsOn stop d = false) : T.element? i.id = none := by
  cases he : T.element? i.id with
  | none => rfl
  | some item =>
    rw [(leadsOn_iff hi).2 ⟨ho, item, he⟩] at h
    cases h

theorem leadsOn_of_not_opens (ho : opens stop d = false) : T.leadsOn stop d = false := by
  rw [leadsOn, ho]
  rfl

theorem leadsOn_of_not_slice (hd : d.hasKind .slice = false) : T.leadsOn stop d = false :=
  leadsOn_of_not_opens (by rw [opens, hd]; rfl)

theorem opens_of_leadsOn (h : T.leadsOn stop d = true) : opens stop d = true := by
  rw [leadsOn, Bool.and_eq_true] at h
  exact h.1

/-- What leads on does so as well where nothing stops it. -/
theorem leadsOn_of_leadsOn (h : T.leadsOn stop d = true) : T.leadsOn (fun _ => false) d = true := by
  have hk := hasKind_of_opens (opens_of_leadsOn h)
  rw [leadsOn, Bool.and_eq_true] at h ⊢
  exact ⟨by simp [opens, hk], h.2⟩

/-- A slice that is opened and whose element can be described leads on to it. -/
theorem leadsOn_of_element (ho : opens stop d = true) (he : T.element d = some e) :
    T.leadsOn stop d = true := by
  obtain ⟨i, item, hi, hitem, _⟩ := element_eq_some.1 he
  exact (leadsOn_iff hi).2 ⟨ho, item, (item?_eq_some.1 hitem).1⟩

end Stop

/-! ## The relation -/

/-- `n` slices lead from `d` to `b`. -/
inductive Behind (T : TypeTable) (stop : Descriptor → Bool) : Nat → Descriptor → Descriptor → Prop
    where
  | here {d : Descriptor} : Behind T stop 0 d d
  | element {n : Nat} {d e b : Descriptor} :
      opens stop d = true → T.element d = some e → Behind T stop n e b → Behind T stop (n + 1) d b

variable {stop : Descriptor → Bool}

/-- The type alone decides what its slices end in. -/
theorem Behind.unique {n m : Nat} {d b c : Descriptor} (h : T.Behind stop n d b)
    (hb : T.leadsOn stop b = false) (h' : T.Behind stop m d c) (hc : T.leadsOn stop c = false) :
    n = m ∧ b = c := by
  induction h generalizing m with
  | here =>
    cases h' with
    | here => exact ⟨rfl, rfl⟩
    | element ho he _ => rw [leadsOn_of_element ho he] at hb; cases hb
  | element ho he _ ih =>
    cases h' with
    | here => rw [leadsOn_of_element ho he] at hc; cases hc
    | element _ he' h' =>
      rw [he] at he'
      cases he'
      obtain ⟨hn, hbc⟩ := ih hb h'
      exact ⟨by omega, hbc⟩

/-- Where everything that slices lead to leads on, the way never stops early. -/
theorem Behind.of_leadsOn {n : Nat} {d b : Descriptor} (h : T.Behind (fun _ => false) n d b)
    (hall : ∀ m c, T.Behind stop m d c → T.leadsOn stop c = true) : T.Behind stop n d b := by
  induction h with
  | here => exact .here
  | element _ he _ ih =>
    have ho := opens_of_leadsOn (hall 0 _ .here)
    exact .element ho he (ih fun m c hc => hall (m + 1) c (.element ho he hc))

/-! ## One step of the computation -/

/-- The element of a slice that is opened comes after it, one array further in. -/
theorem peelFrom_of_opens {stop : Descriptor → Bool} {visited visited' : List String}
    {t item : TypeExpr} (ho : opens stop (T.describe t) = true) (he : T.item? t = some item)
    (hv : T.enter? visited t.core = some visited') :
    T.peelFrom stop visited t
      = ((T.peelFrom stop visited' item).1 + 1, (T.peelFrom stop visited' item).2) := by
  rw [peelFrom, dif_pos ho]
  split
  next item' visited'' he' hv' =>
    rw [he] at he'
    rw [hv] at hv'
    cases he'
    cases hv'
    rfl
  next hno => exact absurd hv (hno item visited' he)

/-- A slice without an element to go on to is as far as it goes. -/
theorem peelFrom_of_no_element {stop : Descriptor → Bool} {visited : List String} {t : TypeExpr}
    (hno : ∀ item visited', T.item? t = some item → T.enter? visited t.core = some visited' →
      False) : T.peelFrom stop visited t = (0, t) := by
  rw [peelFrom]
  split
  · split
    next item visited' he hv => exact (hno item visited' he hv).elim
    next => rfl
  · rfl

/-- What is not opened is at its own bottom. -/
theorem peelFrom_of_not_opens {stop : Descriptor → Bool} {visited : List String} {t : TypeExpr}
    (ho : ¬ opens stop (T.describe t) = true) : T.peelFrom stop visited t = (0, t) := by
  rw [peelFrom, dif_neg ho]

theorem peel_of_not_opens {stop : Descriptor → Bool} {d : Descriptor}
    (ho : ¬ opens stop d = true) : T.peel stop d = (0, d) := by
  unfold peel
  split
  · rfl
  · rw [if_neg ho]

/-- The way through a slice that is opened, from its element on. -/
theorem peel_of_opens {stop : Descriptor → Bool} {d : Descriptor} {i : TypeFacts}
    {item : TypeExpr} {visited : List String} (hi : d.facts = some i)
    (ho : opens stop d = true) (he : T.item? i.id = some item)
    (hv : T.enter? [] i.id = some visited) :
    T.peel stop d
      = ((T.peelFrom stop visited item).1 + 1, T.describe (T.peelFrom stop visited item).2) := by
  unfold peel
  rw [hi]
  simp only [if_pos ho, he, hv]

/-- Whatever `peel` comes to, it is the descriptor itself or lies behind its element. -/
theorem peel_cases (stop : Descriptor → Bool) (d : Descriptor) :
    T.peel stop d = (0, d) ∨ ∃ i item visited, d.facts = some i ∧ opens stop d = true
      ∧ T.item? i.id = some item ∧ T.enter? [] i.id = some visited := by
  unfold peel
  split
  · exact .inl rfl
  next i hi =>
    split
    next ho =>
      split
      next item visited he hv => exact .inr ⟨i, item, visited, hi, ho, he, hv⟩
      · exact .inl rfl
    · exact .inl rfl

/-! ## The computation takes the way -/

theorem element_describe {t item : TypeExpr} (hk : (T.describe t).hasKind .slice = true)
    (he : T.item? t = some item) : T.element (T.describe t) = some (T.describe item) := by
  obtain ⟨i, hi, _⟩ := exists_facts_of_hasKind hk
  exact element_eq_some.2 ⟨i, item, hi, by rw [id_of_facts? hi, item?_core, he], rfl⟩

theorem kind?_of_opens {stop : Descriptor → Bool} {t : TypeExpr}
    (h : opens stop (T.describe t) = true) : T.kind? t = some .slice := by
  obtain ⟨i, hi, hk⟩ := exists_facts_of_hasKind (hasKind_of_opens h)
  rw [kind?_of_facts? hi, hk]

theorem behind_of_peelFrom (stop : Descriptor → Bool) (visited : List String) (t : TypeExpr) :
    T.Behind stop (T.peelFrom stop visited t).1 (T.describe t)
      (T.describe (T.peelFrom stop visited t).2) := by
  induction visited, t using peelFrom.induct T stop with
  | case1 visited t ho item visited' he hv n bottom _ ih =>
    rw [peelFrom_of_opens ho he hv]
    exact .element ho (element_describe (hasKind_of_opens ho) he) ih
  | case2 visited t _ hno =>
    rw [peelFrom_of_no_element hno]
    exact .here
  | case3 visited t ho =>
    rw [peelFrom_of_not_opens ho]
    exact .here

theorem behind_of_peel (stop : Descriptor → Bool) (d : Descriptor) :
    T.Behind stop (T.peel stop d).1 d (T.peel stop d).2 := by
  rcases peel_cases (T := T) stop d with hp | ⟨i, item, visited, hi, ho, he, hv⟩
  · rw [hp]
    exact .here
  · rw [peel_of_opens hi ho he hv]
    exact .element ho (element_eq_some.2 ⟨i, item, hi, he, rfl⟩) (behind_of_peelFrom stop visited item)

/-! ## The computation misses nothing -/

/-- A defined type with an element is one of the table. -/
theorem mem_keys_of_element? {key : String} {item : TypeExpr}
    (h : T.element? (.named key) = some item) : key ∈ T.keys := by
  refine Decidable.byContradiction fun hk => ?_
  have hfind : T.find? key = none := by
    cases hf : T.find? key with
    | none => rfl
    | some d => exact absurd (mem_keys_of_find? hf) hk
  have hnew : T.newtype? key = none := by simp [newtype?, hfind]
  simp [element?, underlying_of_not_newtype hnew, hfind] at h

/-- A type that was not entered before can be entered. -/
theorem exists_enter? {visited : List String} {t item : TypeExpr}
    (he : T.item? t = some item) (hv : ∀ key, t.core = .named key → key ∉ visited) :
    ∃ visited', T.enter? visited t.core = some visited'
      ∧ ∀ key ∈ visited', t.core = .named key ∨ key ∈ visited := by
  rw [← item?_core] at he
  cases hc : t.core with
  | named key =>
    rw [hc] at he
    have hkey := mem_keys_of_element? (item?_eq_some.1 he).1
    refine ⟨key :: visited, if_pos ⟨hkey, hv key hc⟩, fun k hk => ?_⟩
    rcases List.mem_cons.1 hk with hk | hk
    · rw [hk]; exact .inl rfl
    · exact .inr hk
  | _ => exact ⟨visited, rfl, fun key hk => .inr hk⟩

section Ends

variable (hstop : ∀ {d e : Descriptor}, d.facts = e.facts → stop d = stop e)

include hstop

theorem opens_congr {d e : Descriptor} (h : d.facts = e.facts) : opens stop d = opens stop e := by
  rw [opens, opens, hasKind_congr h, hstop h]

/-- A slice is opened by its facts, not by the field that led to it. -/
theorem Behind.congr {n : Nat} {d e b : Descriptor} (h : T.Behind stop (n + 1) d b)
    (hf : d.facts = e.facts) : T.Behind stop (n + 1) e b := by
  cases h with
  | element ho he h =>
    rw [opens_congr hstop hf] at ho
    rw [element_congr hf] at he
    exact .element ho he h

/-- `peelFrom` gets to the end of the way unless it was on the way already. What lies on the way has
fewer slices ahead of it than every type that was entered before, so it is none of them. -/
theorem peelFrom_of_behind {n : Nat} {visited : List String} {t : TypeExpr} {b : Descriptor}
    (h : T.Behind stop n (T.describe t) b) (hb : T.leadsOn stop b = false)
    (hv : ∀ key ∈ visited, ∀ m c, T.Behind stop m (T.describe (.named key)) c →
      T.leadsOn stop c = false → n < m) :
    ∃ u, T.peelFrom stop visited t = (n, u) ∧ T.describe u = b := by
  induction n generalizing visited t with
  | zero =>
    cases h with
    | here =>
      refine ⟨t, ?_, rfl⟩
      by_cases ho : opens stop (T.describe t) = true
      · -- a slice that does not lead on has no element
        refine peelFrom_of_no_element fun item _ he _ => ?_
        rw [leadsOn_of_element ho (element_describe (hasKind_of_opens ho) he)] at hb
        cases hb
      · exact peelFrom_of_not_opens ho
  | succ n ih =>
    have h' : T.Behind stop (n + 1) (T.describe t.core) b := h.congr hstop (facts?_core t).symm
    cases h with
    | element ho he hin =>
      obtain ⟨i, item, hi, hitem, rfl⟩ := element_eq_some.1 he
      rw [id_of_facts? hi, item?_core] at hitem
      have hnew : ∀ key, t.core = .named key → key ∉ visited := by
        intro key hkey hmem
        rw [hkey] at h'
        exact absurd (hv key hmem _ _ h' hb) (Nat.lt_irrefl _)
      obtain ⟨visited', hv', hsub⟩ := exists_enter? hitem hnew
      have hahead : ∀ key ∈ visited', ∀ m c, T.Behind stop m (T.describe (.named key)) c →
          T.leadsOn stop c = false → n < m := by
        intro key hkey m c hm hc
        rcases hsub key hkey with hkey | hkey
        · rw [hkey] at h'
          have := (h'.unique hb hm hc).1
          omega
        · have := hv key hkey m c hm hc
          omega
      obtain ⟨u, hu, hub⟩ := ih hin hahead
      exact ⟨u, by rw [peelFrom_of_opens ho hitem hv', hu], hub⟩

/-- **`peel` arrives where the slices of a type end.** -/
theorem peel_of_behind {n : Nat} {d b : Descriptor} (hd : T.Describes d)
    (h : T.Behind stop n d b) (hb : T.leadsOn stop b = false) : T.peel stop d = (n, b) := by
  cases n with
  | zero =>
    cases h with
    | here =>
      rcases peel_cases (T := T) stop d with hp | ⟨i, item, visited, hi, ho, he, hv⟩
      · exact hp
      · rw [leadsOn_of_element ho (element_eq_some.2 ⟨i, item, hi, he, rfl⟩)] at hb
        cases hb
  | succ n =>
    have hfirst := h
    cases h with
    | element ho he hin =>
      obtain ⟨i, item, hi, hitem, rfl⟩ := element_eq_some.1 he
      have hcore : i.id.core = i.id := (id_of_facts? (hd.facts?_id hi)).symm
      have hnew : ∀ key, i.id.core = .named key → key ∉ ([] : List String) :=
        fun _ _ => List.not_mem_nil
      obtain ⟨visited, hv, hsub⟩ := exists_enter? hitem hnew
      rw [hcore] at hv hsub
      -- the only type entered so far is the slice itself, with one slice more ahead of it
      have hahead : ∀ key ∈ visited, ∀ m c, T.Behind stop m (T.describe (.named key)) c →
          T.leadsOn stop c = false → n < m := by
        intro key hkey m c hm hc
        rcases hsub key hkey with hkey | hkey
        · rw [← hkey] at hm
          have := ((hfirst.congr hstop (hd.describe_id hi).symm).unique hb hm hc).1
          omega
        · cases hkey
      obtain ⟨u, hu, hub⟩ := peelFrom_of_behind hstop hin hb hahead
      rw [peel_of_opens hi ho hitem hv, hu, hub]

/-- **What `peel` is left with tells whether there is an end.** It leads on exactly if everything that
slices lead to does. -/
theorem leadsOn_peel_iff {d : Descriptor} (hd : T.Describes d) :
    T.leadsOn stop (T.peel stop d).2 = true ↔ ∀ n b, T.Behind stop n d b → T.leadsOn stop b = true := by
  constructor
  · intro h n b hb
    cases hend : T.leadsOn stop b with
    | true => rfl
    | false =>
      rw [peel_of_behind hstop hd hb hend, hend] at h
      cases h
  · exact fun h => h _ _ (behind_of_peel stop d)

/-- The way from a slice ends if the way from its element does. -/
theorem leadsOn_peel_element {d e : Descriptor} (hd : T.Describes d) (ho : opens stop d = true)
    (he : T.element d = some e) :
    T.leadsOn stop (T.peel stop d).2 = T.leadsOn stop (T.peel stop e).2 := by
  refine Bool.eq_iff_iff.2 ?_
  rw [leadsOn_peel_iff hstop hd, leadsOn_peel_iff hstop (describes_element he)]
  constructor
  · exact fun h n b hb => h (n + 1) b (.element ho he hb)
  · intro h n b hb
    cases hb with
    | here => exact leadsOn_of_element ho he
    | element _ he' hb =>
      rw [he] at he'
      cases he'
      exact h _ _ hb

/-- Where the way has no end although it may stop earlier, there is no bottom. -/
theorem isBottomless_of_leadsOn {d : Descriptor} (hd : T.Describes d)
    (h : T.leadsOn stop (T.peel stop d).2 = true) : T.isBottomless d = true := by
  have hall := (leadsOn_peel_iff hstop hd).1 h
  refine (leadsOn_peel_iff (fun _ => rfl) hd).2 fun n b hb => ?_
  exact leadsOn_of_leadsOn (hall n b (hb.of_leadsOn hall))

end Ends

/-! ## The bottom -/

section Bottom

variable {d b : Descriptor}

/-- **The bottom of a type is what its slices end in.** -/
theorem bottom_of_behind {n : Nat} (hd : T.Describes d) (h : T.Behind (fun _ => false) n d b)
    (hb : T.leadsOn (fun _ => false) b = false) : T.bottom d = b := by
  rw [bottom, peel_of_behind (fun _ => rfl) hd h hb]

/-- A slice has a bottom if its element has one. -/
theorem isBottomless_of_element {e : Descriptor} (hd : T.Describes d)
    (hk : d.hasKind .slice = true) (he : T.element d = some e) :
    T.isBottomless d = T.isBottomless e :=
  leadsOn_peel_element (fun _ => rfl) hd (by simp [opens, hk]) he

/-- What lies behind slices ends where they do. -/
theorem Behind.isBottomless {n : Nat} (h : T.Behind (fun _ => false) n d b) (hd : T.Describes d) :
    T.isBottomless d = T.isBottomless b := by
  induction h with
  | here => rfl
  | element ho he _ ih =>
    rw [isBottomless_of_element hd (hasKind_of_opens ho) he, ih (describes_element he)]

end Bottom

theorem Describes.peel {d : Descriptor} (hd : T.Describes d) (stop : Descriptor → Bool) :
    T.Describes (T.peel stop d).2 := by
  rcases peel_cases (T := T) stop d with h | ⟨i, item, visited, hi, ho, he, hv⟩
  · rw [h]; exact hd
  · rw [peel_of_opens hi ho he hv]; exact describes_describe _

theorem Describes.bottom {d : Descriptor} (hd : T.Describes d) : T.Describes (T.bottom d) :=
  hd.peel _

/-- Opening slices never leads to a flattened field. -/
theorem isFlattened_peel {d : Descriptor} (hd : d.isFlattened = false)
    (stop : Descriptor → Bool) : (T.peel stop d).2.isFlattened = false := by
  rcases peel_cases (T := T) stop d with h | ⟨i, item, visited, hi, ho, he, hv⟩
  · rw [h]; exact hd
  · rw [peel_of_opens hi ho he hv]; rfl

end ApiAtlas.TypeTable
