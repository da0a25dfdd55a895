import ApiAtlas.Proofs.BoundedExpansion
import ApiAtlas.Proofs.Grounding
import ApiAtlas.Proofs.Roots

/-!
# Inline expansion ends, and fails on cycles alone

`InlineEdge a b` says that a member of `a` with a property name is, behind slices, a struct `b` that has
to be written out inside `a`. A cycle of these edges has no finite form, and neither has a struct that
flattens itself. Types that are merely met twice do.

The renderer keeps a path of the structs in expansion, and the walk for members another one of the
structs that are flattened; neither sees the types on the other. The path is exact all the same. An
expansion that succeeds has gone along all edges and never met its path, so there is no cycle in reach
(`not_reachesCycle_of_ok`). An expansion that reports an endless type has met it on its path, hence
below itself, or was told of it by the walk for members (`met_of_objectFrom_error`). And a path of types
that the expansion does not come by changes nothing (`objectFrom_congr_path`): where a struct is met,
and how often, is of no importance.
-/

namespace ApiAtlas

open Relation (ReflTransGen TransGen)

namespace TypeTable

/-! ## Edges -/

section Edges

variable (T : TypeTable) (R : Registry) (policy : Policy)

/-- `d` is a slice and no data type, and `e` its element. -/
def OpensTo (d e : Descriptor) : Prop :=
  d.hasKind .slice = true ∧ R.hasTypeRule d = false ∧ T.element d = some e

/-- The struct of these facts, with fields and no data type, is written out where it is met. -/
def Inlines (d : Descriptor) (i : TypeFacts) : Prop :=
  T.Expands R d i ∧ (d.name? = none ∨ policy d = true)

/-- Behind slices that are no data types there is a struct `b` to be written out. -/
def ExpandsTo (d : Descriptor) (b : TypeId) : Prop :=
  ∃ e i, ReflTransGen (T.OpensTo R) d e ∧ T.Inlines R policy e i ∧ i.id = b

/-- A member of `a` with a property name makes `b` part of the form of `a`. -/
def InlineEdge (a b : TypeId) : Prop :=
  ∃ m, T.Shows a m ∧ m.propertyName.isSome = true ∧ T.ExpandsTo R policy m b

/-- The expansion of `a` comes to `y`, which lies below itself: by inline edges, or by a chain of
flattened fields that starts at a struct to be written out. -/
def ReachesCycle (a y : TypeId) : Prop :=
  ReflTransGen (T.InlineEdge R policy) a y ∧ TransGen (T.InlineEdge R policy) y y
    ∨ ∃ x, ReflTransGen (T.InlineEdge R policy) a x ∧ ReflTransGen T.Flattens x y
      ∧ TransGen T.Flattens y y

end Edges

variable {T : TypeTable} {R : Registry} {policy : Policy} {path : List TypeId}

theorem Inlines.facts {d : Descriptor} {i : TypeFacts} (h : T.Inlines R policy d i) :
    d.facts = some i :=
  (enterable?_eq_some.1 h.1.1).1

theorem OpensTo.opens {d e : Descriptor} (h : T.OpensTo R d e) :
    opens R.hasTypeRule d = true := by
  obtain ⟨hk, hr, _⟩ := h
  simp [TypeTable.opens, hk, hr]

theorem OpensTo.of_opens {d e : Descriptor} (ho : TypeTable.opens R.hasTypeRule d = true)
    (he : T.element d = some e) : T.OpensTo R d e := by
  simp only [TypeTable.opens, Bool.and_eq_true, Bool.not_eq_true'] at ho
  exact ⟨ho.1, ho.2, he⟩

theorem OpensTo.describes {d e : Descriptor} (h : T.OpensTo R d e) : T.Describes e :=
  describes_element h.2.2

theorem describes_of_opened {d e : Descriptor} (hd : T.Describes d)
    (h : ReflTransGen (T.OpensTo R) d e) : T.Describes e := by
  induction h with
  | refl => exact hd
  | tail _ hstep _ => exact hstep.describes

/-! ## Behind the slices -/

/-- A descriptor has the outcome of what is behind its slices, in as many arrays. -/
theorem schemaFrom_of_opened {d e : Descriptor} (hd : T.Describes d)
    (h : ReflTransGen (T.OpensTo R) d e) : ∃ n, ∀ path,
      T.schemaFrom R policy path d = (T.schemaFrom R policy path e).map (Schema.nested n) := by
  induction h using ReflTransGen.head_induction_on with
  | refl =>
    refine ⟨0, fun path => ?_⟩
    cases T.schemaFrom R policy path e with
    | error e => rfl
    | ok s => rfl
  | head hstep _ ih =>
    obtain ⟨n, hn⟩ := ih hstep.describes
    refine ⟨n + 1, fun path => ?_⟩
    rw [schemaFrom_of_element hd hstep.opens hstep.2.2, hn path]
    cases T.schemaFrom R policy path e with
    | error e => rfl
    | ok s => rfl

theorem opened_of_behind {n : Nat} {d e : Descriptor} (h : T.Behind R.hasTypeRule n d e) :
    ReflTransGen (T.OpensTo R) d e := by
  induction h with
  | here => exact .refl
  | element ho he _ ih => exact .head (.of_opens ho he) ih

/-- Slices end: with what is no slice to be opened, or with a slice without an element. -/
theorem exists_opened (hT : T.Grounded) {d : Descriptor} (hd : T.Describes d) :
    ∃ e, ReflTransGen (T.OpensTo R) d e ∧ T.leadsOn R.hasTypeRule e = false :=
  ⟨_, opened_of_behind (behind_of_peel _ d), hT.leadsOn_peel _ hd⟩

theorem schemaFrom_of_inlines {d : Descriptor} {i : TypeFacts} (h : T.Inlines R policy d i) :
    T.schemaFrom R policy path d = T.objectFrom R policy path d := by
  obtain ⟨hx, hinline⟩ := h
  have ho : opens R.hasTypeRule d = false := by
    simp [opens, (hasKind_of_enterable? hx.1).2]
  have hsite : T.siteSchema? R policy d = .ok none := by
    rw [siteSchema?_of_expands hx]
    rcases hinline with hn | hp
    · rw [hn]; rfl
    · cases d.name? with
      | none => rfl
      | some name => simp [hp]
  rw [schemaFrom_of_not_opens ho, hsite]
  rfl

/-- Where everything is written out, the schema of a struct is its object. -/
theorem schemaOf_of_struct {d : Descriptor} {i : TypeFacts} (hi : d.facts = some i)
    (hk : i.kind = .struct) (hrule : R.hasTypeRule d = false) :
    T.schemaOf R Policy.inlineAll d = T.objectOf R Policy.inlineAll d := by
  have hstruct : enterable? R d = some i := enterable?_eq_some.2 ⟨hi, hk, hrule⟩
  by_cases hf : T.fields i.id = []
  · -- a struct without fields is finished where it stands, and has no members
    have hpeel : T.peelArrays R d = (0, d) :=
      peelArrays_of_not_slice (hasKind_of_enterable? hstruct).2
    have hsite : T.siteSchema? R Policy.inlineAll (T.peelArrays R d).2 = .ok (some (.object [])) := by
      rw [hpeel]
      simp [siteSchema?, hi, hk, hrule, hf]
    rw [schemaOf, schemaFrom_of_finished hsite, hpeel, objectOf, objectFrom_eq hi List.not_mem_nil,
      members_of_fields_eq_nil hi hf]
    simp only [Except.bind, propertiesFrom]
    rfl
  · exact schemaFrom_of_inlines ⟨⟨hstruct, hf⟩, .inr rfl⟩

/-- No site is itself a type that contains itself. -/
theorem siteSchema?_ne_endlessType {d : Descriptor} (name : String) :
    T.siteSchema? R policy d ≠ .error (.endlessType name) := by
  have hfails : FailsOnly (fun e => e ≠ .endlessType name) (T.siteSchema? R policy d) := by
    refine failsOnly_siteSchema? ?empty ?noRule ?endless ?noElement
    case empty => intro _ h; cases h
    case noRule => intro _ _ _ _ _ h; cases h
    case endless => intro _ h; cases h
    case noElement => intro _ _ _ _ h; cases h
  intro h
  exact hfails _ h rfl

/-- What is behind the slices is written out, or it has an outcome that no path changes, and then
it is not endless. -/
theorem inlines_or_fixed {e : Descriptor} (hend : T.leadsOn R.hasTypeRule e = false) :
    (∃ i, T.Inlines R policy e i)
      ∨ ∃ o, (∀ path, T.schemaFrom R policy path e = o)
        ∧ ∀ name, o ≠ .error (.endlessType name) := by
  by_cases ho : opens R.hasTypeRule e = true
  · -- a slice that does not lead on has no element
    obtain ⟨i, hi, _⟩ := exists_facts_of_hasKind (hasKind_of_opens ho)
    have he := element?_of_not_leadsOn hi ho hend
    exact .inr ⟨_, fun path => schemaFrom_of_no_element hi ho he, fun name h => by cases h⟩
  · have ho : opens R.hasTypeRule e = false := by simpa using ho
    by_cases hx : ∃ i, T.Expands R e i
    · obtain ⟨i, hi⟩ := hx
      by_cases hinline : e.name? = none ∨ policy e = true
      · exact .inl ⟨i, hi, hinline⟩
      · -- a reference
        obtain ⟨hname, hpolicy⟩ := not_or.1 hinline
        obtain ⟨name, hn⟩ := Option.ne_none_iff_exists'.1 hname
        have hsite : T.siteSchema? R policy e = .ok (some (.ref name)) := by
          rw [siteSchema?_of_expands hi, hn]
          simp [hpolicy]
        refine .inr ⟨.ok (.ref name), fun path => ?_, fun name h => by cases h⟩
        rw [schemaFrom_of_not_opens ho, hsite]
        rfl
    · right
      cases hs : T.siteSchema? R policy e with
      | error err =>
        refine ⟨.error err, fun path => by rw [schemaFrom_of_not_opens ho, hs]; rfl, ?_⟩
        intro name h
        cases h
        exact siteSchema?_ne_endlessType name hs
      | ok o =>
        obtain ⟨s, rfl, _⟩ := siteSchema?_of_not_expands (fun i hi => hx ⟨i, hi⟩) hs
        exact ⟨.ok s, fun path => by rw [schemaFrom_of_not_opens ho, hs]; rfl, fun name h => by cases h⟩

/-! ## An expansion that succeeds -/

/-- Some descriptor of the type has an object, inside the expansion of the types in `path`. -/
def Expandable (T : TypeTable) (R : Registry) (policy : Policy) (path : List TypeId) (a : TypeId) :
    Prop :=
  ∃ d i s, T.Describes d ∧ d.facts = some i ∧ i.id = a ∧ T.objectFrom R policy path d = .ok s

theorem Expandable.not_mem {a : TypeId} (h : T.Expandable R policy path a) : a ∉ path := by
  obtain ⟨d, i, s, _, hi, rfl, hs⟩ := h
  exact not_mem_of_objectFrom hi hs

/-- What is behind the slices of a descriptor with a schema, and is written out, has an object. -/
theorem expandable_of_schemaFrom {d : Descriptor} (hd : T.Describes d)
    {s : Schema} (hs : T.schemaFrom R policy path d = .ok s) {b : TypeId}
    (hb : T.ExpandsTo R policy d b) : T.Expandable R policy path b := by
  obtain ⟨e, i, hopened, hinlines, rfl⟩ := hb
  obtain ⟨n, hn⟩ := schemaFrom_of_opened hd hopened
  rw [hn path] at hs
  obtain ⟨t, ht, _⟩ := map_eq_ok.1 hs
  rw [schemaFrom_of_inlines hinlines] at ht
  exact ⟨e, i, t, describes_of_opened hd hopened, hinlines.facts, rfl, ht⟩

/-- An object contains the objects that its edges lead to, each with the struct on its path. -/
theorem Expandable.step {a b : TypeId} (h : T.Expandable R policy path a)
    (hab : T.InlineEdge R policy a b) : T.Expandable R policy (a :: path) b := by
  obtain ⟨d, i, s, _, hi, rfl, hs⟩ := h
  obtain ⟨m, hshows, hnamed, hexpands⟩ := hab
  obtain ⟨j, ms, pairs, hj, _, hms, _, hpairs⟩ := objectFrom_eq_ok hs
  rw [hi] at hj
  cases hj
  have hm : m ∈ ms := (mem_members_iff hi hms).2 hshows
  have hserialized : m ∈ serialized ms := List.mem_filter.2 ⟨hm, hnamed⟩
  obtain ⟨e, _, _, hschema⟩ := exists_of_mem_left hpairs hserialized
  exact expandable_of_schemaFrom (isMember_of_mem hms hm).describes hschema hexpands

/-- **No cycle is in reach of an object.** -/
theorem not_reachesCycle_of_ok {a y : TypeId} (h : T.Expandable R policy path a) :
    ¬ T.ReachesCycle R policy a y := by
  have hstep : ∀ path a b, T.Expandable R policy path a → T.InlineEdge R policy a b →
      T.Expandable R policy (a :: path) b := fun _ _ _ h hab => h.step hab
  rintro (⟨hreach, hcycle⟩ | ⟨x, hreach, hchain, hcycle⟩)
  · exact not_transGen_of_good (fun _ _ h => h.not_mem) hstep h hreach hcycle
  · obtain ⟨path', d, i, s, _, hi, rfl, hs⟩ := good_of_reflTransGen hstep h hreach
    obtain ⟨j, ms, _, hj, _, hms, _, _⟩ := objectFrom_eq_ok hs
    rw [hi] at hj
    cases hj
    exact not_cycle_of_members hi hms hchain hcycle

/-! ## An expansion that meets its path -/

/-- A list of members that cannot be rendered has a member that cannot be. -/
theorem exists_member_of_error {ms : List Descriptor} {e : Error}
    (h : T.propertiesFrom R policy path ms = .error e) :
    ∃ m ∈ ms, m.propertyName.isSome = true ∧ T.schemaFrom R policy path m = .error e := by
  induction ms with
  | nil =>
    rw [propertiesFrom] at h
    cases h
  | cons m rest ih =>
    have hrest : T.propertiesFrom R policy path rest = .error e →
        ∃ m' ∈ m :: rest, m'.propertyName.isSome = true
          ∧ T.schemaFrom R policy path m' = .error e := by
      intro h
      obtain ⟨m', hm', hfound⟩ := ih h
      exact ⟨m', List.mem_cons_of_mem _ hm', hfound⟩
    rw [propertiesFrom] at h
    cases hn : m.propertyName with
    | none =>
      simp only [hn] at h
      exact hrest h
    | some name =>
      simp only [hn] at h
      rcases bind_eq_error.1 h with h | ⟨schema, _, h⟩
      · exact ⟨m, List.mem_cons_self, by rw [hn]; rfl, h⟩
      · rcases bind_eq_error.1 h with h | ⟨later, _, h⟩
        · exact hrest h
        · cases h

/-- If a descriptor is endless, so is the struct to be written out behind its slices. -/
theorem exists_inlines_of_error (hT : T.Grounded) {d : Descriptor} (hd : T.Describes d)
    {name : String} (h : T.schemaFrom R policy path d = .error (.endlessType name)) :
    ∃ e i, ReflTransGen (T.OpensTo R) d e ∧ T.Inlines R policy e i
      ∧ T.objectFrom R policy path e = .error (.endlessType name) := by
  obtain ⟨e, hopened, hend⟩ := exists_opened hT hd
  obtain ⟨n, hn⟩ := schemaFrom_of_opened hd hopened
  rw [hn path] at h
  have h := map_eq_error.1 h
  rcases inlines_or_fixed hend with ⟨i, hi⟩ | ⟨o, ho, hne⟩
  · rw [schemaFrom_of_inlines hi] at h
    exact ⟨e, i, hopened, hi, h⟩
  · rw [ho path] at h
    exact absurd h (hne name)

/-- An endless type is on the path or below itself. -/
theorem met_of_objectFrom_error (hT : T.Grounded) {d : Descriptor} (hd : T.Describes d)
    {i : TypeFacts} (hi : d.facts = some i) {name : String}
    (h : T.objectFrom R policy path d = .error (.endlessType name)) :
    ∃ y, T.fullName y = name ∧ (T.ReachesCycle R policy i.id y
      ∨ ReflTransGen (T.InlineEdge R policy) i.id y ∧ y ∈ path) := by
  induction path using path_induction (T := T) generalizing d i with
  | _ path ih =>
    by_cases hp : i.id ∈ path
    · rw [objectFrom_of_met hi hp] at h
      cases h
      exact ⟨i.id, hd.fullName_id hi, .inr ⟨.refl, hp⟩⟩
    · rw [objectFrom_eq hi hp] at h
      rcases bind_eq_error.1 h with h | ⟨ms, hms, h⟩
      · -- the walk for members has found a struct that flattens itself
        obtain ⟨y, hchain, hcycle, hname⟩ := cycle_of_members_error hd hi h
        exact ⟨y, hname, .inl (.inr ⟨i.id, .refl, hchain, hcycle⟩)⟩
      · obtain ⟨m, hm, hnamed, h⟩ := exists_member_of_error (map_eq_error.1 h)
        have hmember := isMember_of_mem hms hm
        obtain ⟨e, j, hopened, hinlines, h⟩ := exists_inlines_of_error hT hmember.describes h
        have hj : e.facts = some j := hinlines.facts
        have hedge : T.InlineEdge R policy i.id j.id :=
          ⟨m, (mem_members_iff hi hms).1 hm, hnamed, e, j, hopened, hinlines, rfl⟩
        obtain ⟨y, hname, hmet⟩ :=
          ih i.id hp (fields_ne_nil_of_member hi hms hm)
            (describes_of_opened hmember.describes hopened) hj h
        refine ⟨y, hname, ?_⟩
        rcases hmet with (⟨hreach, hcycle⟩ | ⟨x, hreach, hcycle⟩) | ⟨hreach, hmet⟩
        · exact .inl (.inl ⟨.head hedge hreach, hcycle⟩)
        · exact .inl (.inr ⟨x, .head hedge hreach, hcycle⟩)
        · rcases List.mem_cons.1 hmet with rfl | hmet
          -- the struct itself is met again below itself
          · exact .inl (.inl ⟨.refl, .head' hedge hreach⟩)
          · exact .inr ⟨.head hedge hreach, hmet⟩

/-! ## Where a struct is met -/

theorem propertiesFrom_congr {path' : List TypeId} {ms : List Descriptor}
    (h : ∀ m ∈ ms, m.propertyName.isSome = true →
      T.schemaFrom R policy path m = T.schemaFrom R policy path' m) :
    T.propertiesFrom R policy path ms = T.propertiesFrom R policy path' ms := by
  induction ms with
  | nil => rw [propertiesFrom, propertiesFrom]
  | cons m rest ih =>
    have hrest := ih fun g hg => h g (List.mem_cons_of_mem _ hg)
    rw [propertiesFrom, propertiesFrom, hrest]
    cases hn : m.propertyName with
    | none => rfl
    | some name => rw [h m List.mem_cons_self (by rw [hn]; rfl)]

/-- Paths that make no difference to the struct behind the slices make none to the descriptor. -/
theorem schemaFrom_congr_of_objects (hT : T.Grounded) {path' : List TypeId} {d : Descriptor}
    (hd : T.Describes d)
    (h : ∀ e i, ReflTransGen (T.OpensTo R) d e → T.Inlines R policy e i →
      T.objectFrom R policy path e = T.objectFrom R policy path' e) :
    T.schemaFrom R policy path d = T.schemaFrom R policy path' d := by
  obtain ⟨e, hopened, hend⟩ := exists_opened hT hd
  obtain ⟨n, hn⟩ := schemaFrom_of_opened hd hopened
  rw [hn, hn]
  refine congrArg (Except.map (Schema.nested n)) ?_
  rcases inlines_or_fixed hend with ⟨i, hi⟩ | ⟨o, ho, _⟩
  · rw [schemaFrom_of_inlines hi, schemaFrom_of_inlines hi]
    exact h e i hopened hi
  · rw [ho, ho]

/-- **Only those types of the path count that the expansion comes by.** -/
theorem objectFrom_congr_path (hT : T.Grounded) {path' : List TypeId} {d : Descriptor}
    {i : TypeFacts} (hi : d.facts = some i)
    (h : ∀ b, ReflTransGen (T.InlineEdge R policy) i.id b → (b ∈ path ↔ b ∈ path')) :
    T.objectFrom R policy path d = T.objectFrom R policy path' d := by
  induction path using path_induction (T := T) generalizing path' d i with
  | _ path ih =>
    by_cases hp : i.id ∈ path
    · rw [objectFrom_of_met hi hp, objectFrom_of_met hi ((h _ .refl).1 hp)]
    · have hp' : i.id ∉ path' := fun hmem => hp ((h _ .refl).2 hmem)
      rw [objectFrom_eq hi hp, objectFrom_eq hi hp']
      cases hms : T.members d with
      | error e => rfl
      | ok ms =>
        refine congrArg (Except.map Schema.ofProperties) (propertiesFrom_congr fun m hm hnamed => ?_)
        refine schemaFrom_congr_of_objects hT (isMember_of_mem hms hm).describes ?_
        intro e j hopened hinlines
        have hedge : T.InlineEdge R policy i.id j.id :=
          ⟨m, (mem_members_iff hi hms).1 hm, hnamed, e, j, hopened, hinlines, rfl⟩
        refine ih i.id hp (fields_ne_nil_of_member hi hms hm) hinlines.facts fun b hb => ?_
        rw [List.mem_cons, List.mem_cons, h b (.head hedge hb)]

/-! ## The two ways to start -/

/-- What is asked of an expansion that starts with the structs `start`, inside a path of types. -/
structure FailsOnCyclesOnly (T : TypeTable) (R : Registry) (policy : Policy)
    (start : TypeId → Prop) (expand : List TypeId → Except Error Schema) : Prop where
  /-- It ends. -/
  ends : ∀ path, expand path ≠ .error .noEnd
  /-- A cycle that it reaches is an error, and there is no schema. -/
  error_of_cycle : ∀ a y, start a → T.ReachesCycle R policy a y → ∃ e, expand [] = .error e
  /-- A type that is reported as endless lies on a cycle that it reaches. -/
  cycle_of_error : ∀ name, expand [] = .error (.endlessType name) →
    ∃ a y, start a ∧ T.ReachesCycle R policy a y ∧ T.fullName y = name
  /-- Inside types that it does not come by, it has the outcome that it has alone. -/
  alone : ∀ path, (∀ a b, start a → ReflTransGen (T.InlineEdge R policy) a b → b ∉ path) →
    expand path = expand []

/-- On a grounded table no rendering goes on without end. -/
theorem Grounded.failureSites (hT : T.Grounded) :
    FailureSites T R T.Describes (fun e => e ≠ .noEnd) where
  member := fun _ _ hms _ hm => (isMember_of_mem hms hm).describes
  endless := fun _ h => by cases h
  bottomless := fun d hd hb => by
    have hend : T.isBottomless d = false := hT.leadsOn_peel _ hd
    rw [hend] at hb
    cases hb
  walk := fun d i hi => by
    refine (failsOnly_walk ?met ?nonStruct ?untyped ?circular).1 [] d ?empty
    case met => intro _ h; cases h
    case nonStruct => intro _ _ h; cases h
    case untyped => intro _ _ _ _ _ _ h; cases h
    case circular =>
      intro _ _ _ t _ hc
      rw [hT.isCircular] at hc
      cases hc
    case empty =>
      intro hnone
      rw [hi] at hnone
      cases hnone
  site := fun d policy hd => by
    refine failsOnly_siteSchema? ?empty ?noRule ?endless ?noElement
    case empty => intro _ h; cases h
    case noRule => intro _ _ _ _ _ h; cases h
    case endless =>
      intro hon
      have hend : T.leadsOn R.hasTypeRule (T.peelArrays R d).2 = false := hT.leadsOn_peel _ hd
      rw [hend] at hon
      cases hon
    case noElement => intro _ _ _ _ h; cases h

theorem Grounded.objectFrom_ne_noEnd (hT : T.Grounded) {d : Descriptor} :
    T.objectFrom R policy path d ≠ .error .noEnd := by
  intro h
  cases hi : d.facts with
  | none =>
    rw [objectFrom_of_no_facts hi] at h
    cases h
  | some i =>
    refine (hT.failureSites (R := R)).rendering.2.1 path d ?_ _ h rfl
    rw [hi]
    exact Option.some_ne_none i

theorem Grounded.schemaFrom_ne_noEnd (hT : T.Grounded) {d : Descriptor} (hd : T.Describes d) :
    T.schemaFrom R policy path d ≠ .error .noEnd :=
  fun h => (hT.failureSites (R := R)).rendering.1 path d hd _ h rfl

theorem objectFrom_failsOnCyclesOnly (hT : T.Grounded) {d : Descriptor} (hd : T.Describes d) :
    T.FailsOnCyclesOnly R policy (fun a => d.id? = some a)
      (fun path => T.objectFrom R policy path d) where
  ends := fun _ => hT.objectFrom_ne_noEnd
  error_of_cycle := by
    intro a y hstart hcycle
    obtain ⟨i, hi, rfl⟩ := Option.map_eq_some_iff.1 hstart
    cases h : T.objectFrom R policy [] d with
    | error e => exact ⟨e, rfl⟩
    | ok s => exact absurd hcycle (not_reachesCycle_of_ok ⟨d, i, s, hd, hi, rfl, h⟩)
  cycle_of_error := by
    intro name h
    cases hi : d.facts with
    | none =>
      simp only [objectFrom_of_no_facts hi] at h
      cases h
    | some i =>
      obtain ⟨y, hname, hcycle | ⟨_, hmet⟩⟩ := met_of_objectFrom_error hT hd hi h
      · exact ⟨i.id, y, by simp [Descriptor.id?, hi], hcycle, hname⟩
      · cases hmet
  alone := by
    intro path h
    cases hi : d.facts with
    | none => simp only [objectFrom_of_no_facts hi]
    | some i =>
      refine objectFrom_congr_path hT hi fun b hb => ?_
      have hnew := h i.id b (by simp [Descriptor.id?, hi]) hb
      simp [hnew]

theorem schemaFrom_failsOnCyclesOnly (hT : T.Grounded) {d : Descriptor} (hd : T.Describes d) :
    T.FailsOnCyclesOnly R policy (T.ExpandsTo R policy d)
      (fun path => T.schemaFrom R policy path d) where
  ends := fun _ => hT.schemaFrom_ne_noEnd hd
  error_of_cycle := by
    intro a y hstart hcycle
    cases h : T.schemaFrom R policy [] d with
    | error e => exact ⟨e, rfl⟩
    | ok s =>
      exact absurd hcycle (not_reachesCycle_of_ok (expandable_of_schemaFrom hd h hstart))
  cycle_of_error := by
    intro name h
    obtain ⟨e, i, hopened, hinlines, h⟩ := exists_inlines_of_error hT hd h
    have he := describes_of_opened hd hopened
    obtain ⟨y, hname, hcycle | ⟨_, hmet⟩⟩ := met_of_objectFrom_error hT he hinlines.facts h
    · exact ⟨i.id, y, ⟨e, i, hopened, hinlines, rfl⟩, hcycle, hname⟩
    · cases hmet
  alone := by
    intro path h
    refine schemaFrom_congr_of_objects hT hd fun e i hopened hinlines => ?_
    refine objectFrom_congr_path hT hinlines.facts fun b hb => ?_
    have hnew := h i.id b ⟨e, i, hopened, hinlines, rfl⟩ hb
    simp [hnew]

end TypeTable

/-! ## An example: a tree -/

namespace Example

def children : Field := property "children" (.sequence .vec (.named "Node"))

def nodeDef : TypeDef := ⟨some "Node", "app::Node", true, .struct [children]⟩

/-- A node holds a list of nodes. -/
def tree : TypeTable := ⟨[("Node", nodeDef)]⟩

open TypeTable

theorem find?_node : tree.find? "Node" = some nodeDef := rfl

theorem facts_node : (tree.describe (.named "Node")).facts
    = some ⟨.named "Node", "app::Node", some "Node", true, .struct⟩ :=
  facts?_of_struct find?_node rfl

theorem item?_children : tree.item? (.sequence .vec (.named "Node")) = some (.named "Node") := by
  refine item?_eq_some.2 ⟨?_, isCircular_of_not_newtype rfl⟩
  rw [element?, underlying, underlyingFrom_of_not_named fun key h => by cases h]
  rfl

theorem facts_children : ((tree.describe (.sequence .vec (.named "Node"))).through children).facts
    = some ⟨.sequence .vec (.named "Node"), "alloc::vec::Vec<app::Node>", none, true, .slice⟩ := by
  have hkind : tree.kind? (.sequence .vec (.named "Node")) = some .slice := by
    rw [kind?, underlying, underlyingFrom_of_not_named fun key h => by cases h]
    rfl
  show tree.facts? _ = _
  rw [facts?, hkind]
  rfl

/-- The nodes below a node are part of its form, unless they are referred to. -/
theorem inlineEdge_node : tree.InlineEdge Registry.empty Policy.inlineAll (.named "Node")
    (.named "Node") := by
  refine ⟨(tree.describe (.sequence .vec (.named "Node"))).through children, ?_, rfl, ?_⟩
  · refine .plain ?_ rfl rfl rfl ?_
    · rw [fields_of_struct find?_node rfl]
      exact List.mem_singleton_self _
    · rw [isCircular, underlyingFrom_of_not_named fun key h => by cases h]
      rfl
  · have hopens : tree.OpensTo Registry.empty
        ((tree.describe (.sequence .vec (.named "Node"))).through children)
        (tree.describe (.named "Node")) := by
      refine ⟨(hasKind_iff facts_children).2 rfl, ?_, ?_⟩
      · rw [Registry.hasTypeRule, facts_children]
        rfl
      · rw [element, facts_children, Option.bind_some, item?_children]
        rfl
    have henter : enterable? Registry.empty (tree.describe (.named "Node"))
        = some ⟨.named "Node", "app::Node", some "Node", true, .struct⟩ := by
      refine enterable?_eq_some.2 ⟨facts_node, rfl, ?_⟩
      rw [Registry.hasTypeRule, facts_node]
      rfl
    refine ⟨_, _, .single hopens, ⟨⟨henter, ?_⟩, .inr rfl⟩, rfl⟩
    rw [fields_of_struct find?_node rfl]
    exact List.cons_ne_nil _ _

/-- A list holds its items, but no type of the table holds anything. -/
theorem tree_grounded : tree.Grounded := by
  refine grounded_of_named fun key id h => ?_
  have hnew : tree.newtype? key = none := by
    simp only [newtype?, find?, tree, List.lookup_cons, List.lookup_nil]
    split
    · rfl
    · rfl
  cases h with
  | element hk he =>
    rw [kind?, underlying_of_not_newtype hnew] at hk
    simp only [find?, tree, List.lookup_cons, List.lookup_nil] at hk
    split at hk
    · cases hk
    · cases hk
  | newtype hn =>
    rw [hnew] at hn
    cases hn

end Example

namespace TypeTable

/-- **Inline expansion ends, and fails on cycles only.** On a table where no type is its own element
through slices and newtypes alone, newtypes, slices and structs can be followed without keeping account
of more than the structs in expansion and the structs being flattened: from some depth on the outcome is
the renderer's, under all rules, by every policy and from every descriptor. It is an error if a cycle of
inline edges is in reach, or a struct that flattens itself; a type is reported as endless only if it lies
on such a cycle; and inside types that the expansion does not come by, on whatever branch, the outcome is
the same as alone. -/
theorem expansion_fails_on_cycles_only {T : TypeTable} (hT : T.Grounded) (R : Registry)
    (policy : Policy) {d : Descriptor} (hd : T.Describes d) :
    (∀ t, ∃ u, T.underlyingFrom [] t = some u ∧ Settles (fun n => T.underlyingWithin n t) u)
      ∧ Settles (fun n => T.schemaWithin R policy n [] d) (T.schemaOf R policy d)
      ∧ Settles (fun n => T.objectWithin R policy n [] d) (T.objectOf R policy d)
      ∧ T.FailsOnCyclesOnly R policy (T.ExpandsTo R policy d)
        (fun path => T.schemaFrom R policy path d)
      ∧ T.FailsOnCyclesOnly R policy (fun a => d.id? = some a)
        (fun path => T.objectFrom R policy path d) := by
  have hschema : T.FailsOnCyclesOnly R policy (T.ExpandsTo R policy d)
      (fun path => T.schemaFrom R policy path d) := schemaFrom_failsOnCyclesOnly hT hd
  have hobject : T.FailsOnCyclesOnly R policy (fun a => d.id? = some a)
      (fun path => T.objectFrom R policy path d) := objectFrom_failsOnCyclesOnly hT hd
  refine ⟨fun t => ?_, ?_, ?_, hschema, hobject⟩
  · obtain ⟨u, hu⟩ :=
      Option.isSome_iff_exists.1 (Option.isNone_eq_false_iff.1 (hT.isCircular t))
    exact ⟨u, hu, (follows_underlyingWithin t).settles u hu⟩
  · exact (follows_schemaWithin hd).settles _ (outcome?_eq_some.2 ⟨rfl, hschema.ends []⟩)
  · exact (follows_objectWithin hd).settles _ (outcome?_eq_some.2 ⟨rfl, hobject.ends []⟩)

/-- A node cannot be written out with all nodes below it. -/
theorem expansion_fails_on_cycles_only_tree : Example.tree.Grounded
    ∧ ∃ e, Example.tree.objectOf Registry.empty Policy.inlineAll
      (Example.tree.describe (.named "Node")) = .error e := by
  have h := expansion_fails_on_cycles_only Example.tree_grounded Registry.empty Policy.inlineAll
    (describes_describe (.named "Node"))
  refine ⟨Example.tree_grounded, h.2.2.2.2.error_of_cycle (.named "Node") (.named "Node") ?_ ?_⟩
  · simp [Descriptor.id?, Example.facts_node]
  · exact .inl ⟨.refl, .single Example.inlineEdge_node⟩

end TypeTable

end ApiAtlas
