import ApiAtlas.Proofs.Failures
import ApiAtlas.Proofs.FlatteningChains

/-!
# Expansions of bounded depth

The functions of this module follow types in the plainest way, without regard to an end: a newtype to
its inner type, a slice to its element, a struct to its members and their schemas. Each call counts,
and where the count runs out there is no outcome at all.

On every table they do what the renderer says (`Follows`). Where it has an outcome, they have the same
one from some bound on; where it says that there is none, `Error.noEnd`, no bound is ever enough. So
the renderer's lists of types that were entered behind newtypes and slices change nothing but that the
lack of an end is told. Of what the library keeps, only the path of structs in expansion is needed for
an outcome, and the path of structs that are flattened.
-/

namespace ApiAtlas

universe u

/-! ## Outcomes that settle -/

/-- From some bound on there is an outcome, and it is always the same. -/
def Settles {α : Type u} (run : Nat → Option α) (a : α) : Prop := ∃ n, ∀ m, n ≤ m → run m = some a

namespace Settles

theorem const {α : Type u} (a : α) : Settles (fun _ => some a) a := ⟨0, fun _ _ => rfl⟩

/-- One call more needs a bound one greater. -/
theorem of_succ {α : Type u} {run run' : Nat → Option α} {a : α}
    (hrun : ∀ n, run (n + 1) = run' n) (h : Settles run' a) : Settles run a := by
  obtain ⟨n, hn⟩ := h
  refine ⟨n + 1, fun m hm => ?_⟩
  obtain ⟨k, rfl⟩ : ∃ k, m = k + 1 := ⟨m - 1, by omega⟩
  rw [hrun]
  exact hn k (by omega)

/-- The first call has the outcome. -/
theorem at_once {α : Type u} {run : Nat → Option α} {a : α} (h : ∀ n, run (n + 1) = some a) :
    Settles run a := of_succ h (const a)

theorem image {α β : Type u} {run : Nat → Option α} {a : α} (h : Settles run a) (f : α → β) :
    Settles (fun n => (run n).map f) (f a) := by
  obtain ⟨n, hn⟩ := h
  refine ⟨n, fun m hm => ?_⟩
  show (run m).map f = some (f a)
  rw [hn m hm]
  rfl

variable {ε α β : Type} {run : Nat → ExceptT ε Option α} {x : Except ε α}

/-- Two steps settle if the first does, and the second after a first that succeeded. -/
theorem bind {next : α → Nat → ExceptT ε Option β} {f : α → Except ε β} (h : Settles run x)
    (hnext : ∀ a, x = .ok a → Settles (next a) (f a)) :
    Settles (fun n => (run n >>= fun a => next a n : ExceptT ε Option β)) (x >>= f) := by
  obtain ⟨n, hn⟩ := h
  cases x with
  | error e =>
    refine ⟨n, fun m hm => ?_⟩
    have hm' : run m = ExceptT.mk (some (.error e)) := hn m hm
    show (run m >>= fun a => next a m) = _
    rw [hm']
    rfl
  | ok a =>
    -- the bound has to do for both steps
    obtain ⟨k, hk⟩ := hnext a rfl
    refine ⟨max n k, fun m hm => ?_⟩
    have hm' : run m = ExceptT.mk (some (.ok a)) := hn m (by omega)
    show (run m >>= fun a => next a m) = _
    rw [hm']
    exact hk m (by omega)

end Settles

/-- What a run comes to, if it ends. -/
def outcome? {α : Type u} : Except Error α → Option (Except Error α)
  | .error .noEnd => none
  | x => some x

theorem outcome?_eq_some {α : Type u} {x y : Except Error α} :
    outcome? x = some y ↔ x = y ∧ x ≠ .error .noEnd := by
  unfold outcome?
  split
  · simp
  next hx =>
    rw [Option.some.injEq, iff_self_and]
    exact fun _ => hx

/-- The bounded runs have no other outcome than this one, and have it from some bound on. If there is
none, no bound is enough. -/
structure Follows {α : Type u} (run : Nat → Option α) (outcome : Option α) : Prop where
  sound : ∀ n a, run n = some a → outcome = some a
  settles : ∀ a, outcome = some a → Settles run a

namespace Follows

theorem const {α : Type u} (o : Option α) : Follows (fun _ => o) o :=
  ⟨fun _ _ h => h, fun a h => by rw [h]; exact .const a⟩

/-- Without an outcome, no bound is enough. -/
theorem never {α : Type u} {run : Nat → Option α} (h : Follows run none) (n : Nat) :
    run n = none := by
  cases hn : run n with
  | none => rfl
  | some a => cases h.sound n a hn

theorem of_succ {α : Type u} {run run' : Nat → Option α} {o : Option α} (hzero : run 0 = none)
    (hrun : ∀ n, run (n + 1) = run' n) (h : Follows run' o) : Follows run o where
  sound := by
    intro n a hn
    cases n with
    | zero =>
      rw [hzero] at hn
      cases hn
    | succ n => exact h.sound n a (by rw [← hrun, hn])
  settles := fun a ha => .of_succ hrun (h.settles a ha)

theorem at_once {α : Type u} {run : Nat → Option α} {o : Option α} (hzero : run 0 = none)
    (h : ∀ n, run (n + 1) = o) : Follows run o :=
  of_succ hzero h (const o)

variable {α β : Type} {run : Nat → ExceptT Error Option α} {x : Except Error α}

/-- A run of two steps has an outcome if the first step has one, and the second after a first that
succeeded. -/
theorem bind {next : α → Nat → ExceptT Error Option β} {f : α → Except Error β}
    (h : Follows run (outcome? x)) (hnext : ∀ a, x = .ok a → Follows (next a) (outcome? (f a))) :
    Follows (fun n => (run n >>= fun a => next a n : ExceptT Error Option β))
      (outcome? (x >>= f)) where
  sound := by
    intro n b hb
    cases hr : run n with
    | none =>
      have hnone : (run n >>= fun a => next a n : ExceptT Error Option β) = .mk none := by
        rw [hr]
        rfl
      rw [hnone] at hb
      cases hb
    | some y =>
      obtain ⟨rfl, hne⟩ := outcome?_eq_some.1 (h.sound n y hr)
      have hstep : (run n >>= fun a => next a n : ExceptT Error Option β)
          = (ExceptT.mk (some x) >>= fun a => next a n) := by rw [hr]; rfl
      rw [hstep] at hb
      cases x with
      | error e =>
        -- an error of the first step is one of both, and is not the want of an end
        cases hb
        refine outcome?_eq_some.2 ⟨rfl, fun he => hne ?_⟩
        cases he
        rfl
      | ok a => exact (hnext a rfl).sound n b hb
  settles := by
    intro b hb
    obtain ⟨rfl, hne⟩ := outcome?_eq_some.1 hb
    refine .bind (h.settles x (outcome?_eq_some.2 ⟨rfl, ?_⟩)) fun a ha => ?_
    · rintro rfl
      exact hne rfl
    · subst ha
      exact (hnext a rfl).settles _ (outcome?_eq_some.2 ⟨rfl, hne⟩)

theorem map {f : α → β} (h : Follows run (outcome? x)) :
    Follows (fun n => (f <$> run n : ExceptT Error Option β)) (outcome? (x.map f)) :=
  h.bind fun a _ => const (some (Except.ok (f a)))

end Follows

namespace TypeTable

variable (T : TypeTable) (R : Registry)

/-! ## The plain way -/

/-- Newtypes, followed one after the other. -/
def underlyingWithin : Nat → TypeExpr → Option (TypeId × Bool)
  | 0, _ => none
  | n + 1, t => match t.core with
    | .named key => match T.newtype? key with
      | some inner => (underlyingWithin n inner).map fun r => (r.1, t.isOptional || r.2)
      | none => some (.named key, t.isOptional)
    | u => some (u, t.isOptional)

/-- The descriptor of a type, for which its newtypes are followed. -/
def describeWithin (n : Nat) (t : TypeExpr) : ExceptT Error Option Descriptor :=
  .mk ((T.underlyingWithin n t).map fun _ => .ok (T.describe t))

mutual

/-- The members of a struct that is reached through the flattened types in `path`. -/
def membersWithin : Nat → List TypeId → Descriptor → ExceptT Error Option (List Descriptor)
  | 0, _, _ => .mk none
  | n + 1, path, d => match d.facts with
    | none => throw (.defect .walkOfEmpty)
    | some i =>
      if i.id ∈ path then throw (.endlessType i.fullName)
      else membersOfWithin n (i.id :: path) i.fullName (T.fields i.id)

/-- The members that the given fields of the struct called `owner` make. -/
def membersOfWithin : Nat → List TypeId → String → List Field →
    ExceptT Error Option (List Descriptor)
  | 0, _, _, _ => .mk none
  | _ + 1, _, _, [] => pure []
  | n + 1, path, owner, f :: rest =>
    if f.isVisible then
      match f.type with
      | none => throw (.defect (.untypedField f.label owner))
      | some t => do
        let d ← T.describeWithin n t
        if f.flattened then
          if d.hasKind .struct then do
            let here ← membersWithin n path (d.through f)
            (here ++ ·) <$> membersOfWithin n path owner rest
          else throw (.flattenedNonStruct f.label d.fullName)
        else (d.through f :: ·) <$> membersOfWithin n path owner rest
    else membersOfWithin n path owner rest

end

mutual

/-- The schema of a descriptor inside the expansion of the types in `path`. -/
def schemaWithin (policy : Policy) : Nat → List TypeId → Descriptor → ExceptT Error Option Schema
  | 0, _, _ => .mk none
  | n + 1, path, d => match d.facts with
    | none => throw (.defect .renderOfEmpty)
    | some i =>
      if R.hasTypeRule d then .mk (some (R.dataSchema T d))
      else match i.kind with
        | .slice => match T.element? i.id with
          | none => throw (.defect (.sliceWithoutElement i.fullName))
          | some item => do
            let e ← T.describeWithin n item
            Schema.array <$> schemaWithin policy n path e
        | .struct =>
          if T.fields i.id = [] then pure (.object [])
          else match d.name? with
            | some name => if policy d then objectWithin policy n path d else pure (.ref name)
            | none => objectWithin policy n path d
        | _ => .mk (some (R.dataSchema T d))

/-- The object of a struct inside the expansion of the types in `path`. -/
def objectWithin (policy : Policy) : Nat → List TypeId → Descriptor → ExceptT Error Option Schema
  | 0, _, _ => .mk none
  | n + 1, path, d => match d.facts with
    | none => throw (.defect .renderOfEmpty)
    | some i =>
      if i.id ∈ path then throw (.endlessType i.fullName)
      else do
        let ms ← T.membersWithin n [] d
        Schema.ofProperties <$> propertiesWithin policy n (i.id :: path) ms

/-- The properties that members give, in order and with repetitions. -/
def propertiesWithin (policy : Policy) : Nat → List TypeId → List Descriptor →
    ExceptT Error Option (List (String × Schema))
  | 0, _, _ => .mk none
  | _ + 1, _, [] => pure []
  | n + 1, path, m :: rest => match m.propertyName with
    | none => propertiesWithin policy n path rest
    | some name => do
      let schema ← schemaWithin policy n path m
      ((name, schema) :: ·) <$> propertiesWithin policy n path rest

end

variable {T R} {policy : Policy} {path : List TypeId}

/-! ## Newtypes -/

theorem unwraps_of_underlyingWithin {n : Nat} {t : TypeExpr} {u : TypeId × Bool}
    (h : T.underlyingWithin n t = some u) : ∃ k, T.Unwraps k t u := by
  induction n generalizing t u with
  | zero =>
    rw [underlyingWithin] at h
    cases h
  | succ n ih =>
    rw [underlyingWithin] at h
    split at h
    next key hkey =>
      split at h
      next inner hn =>
        obtain ⟨v, hv, rfl⟩ := Option.map_eq_some_iff.1 h
        obtain ⟨k, hk⟩ := ih hv
        exact ⟨k + 1, .newtype hkey hn hk⟩
      next hn =>
        cases h
        rw [← hkey]
        refine ⟨0, .bottom fun key' inner hkey' hinner => ?_⟩
        rw [hkey] at hkey'
        cases hkey'
        rw [hn] at hinner
        cases hinner
    next hno =>
      cases h
      exact ⟨0, .bottom fun key _ hkey => absurd hkey (hno key)⟩

theorem settles_of_unwraps {n : Nat} {t : TypeExpr} {u : TypeId × Bool} (h : T.Unwraps n t u) :
    Settles (fun n => T.underlyingWithin n t) u := by
  induction h with
  | @bottom t hno =>
    refine .at_once fun n => ?_
    rw [underlyingWithin]
    split
    next key hkey =>
      split
      next inner hn => exact absurd hn (hno key inner hkey)
      next => rw [hkey]
    next => rfl
  | @newtype n t inner key u hkey hn _ ih =>
    refine .of_succ (fun n => ?_) (ih.image fun r => (r.1, t.isOptional || r.2))
    rw [underlyingWithin, hkey]
    simp only [hn]

/-- **Newtypes, followed one after the other, lead to what the library takes to be behind them.** -/
theorem follows_underlyingWithin (t : TypeExpr) :
    Follows (fun n => T.underlyingWithin n t) (T.underlyingFrom [] t) where
  sound := fun _ _ h => underlyingFrom_nil_iff.2 (unwraps_of_underlyingWithin h)
  settles := fun _ h => (underlyingFrom_nil_iff.1 h).elim fun _ hu => settles_of_unwraps hu

/-- To describe a type that is not circular is a step like any other. -/
theorem follows_describe {α : Type} {t : TypeExpr} {next : Descriptor → Nat → ExceptT Error Option α}
    {x : Except Error α} (hc : T.isCircular t = false)
    (h : Follows (next (T.describe t)) (outcome? x)) :
    Follows (fun n => (T.describeWithin n t >>= fun d => next d n : ExceptT Error Option α))
      (outcome? x) := by
  obtain ⟨u, hu⟩ := Option.isSome_iff_exists.1 (Option.isNone_eq_false_iff.1 hc)
  have hdescribe : Follows (fun n => T.describeWithin n t)
      (outcome? (.ok (T.describe t) : Except Error Descriptor)) := by
    constructor
    · intro n y hy
      obtain ⟨_, _, rfl⟩ := Option.map_eq_some_iff.1 hy
      rfl
    · intro y hy
      cases hy
      exact ((follows_underlyingWithin t).settles u hu).image fun _ => Except.ok (T.describe t)
  refine hdescribe.bind (f := fun _ => x) fun d hd => ?_
  cases hd
  exact h

/-- A circular type is described within no bound. -/
theorem describeWithin_of_circular {t : TypeExpr} (hc : T.isCircular t = true) (n : Nat) :
    T.describeWithin n t = .mk none := by
  have hfollows := follows_underlyingWithin (T := T) t
  rw [Option.isNone_iff_eq_none.1 hc] at hfollows
  rw [describeWithin, hfollows.never n]
  rfl

/-! ## Flattened structs -/

theorem membersOfWithin_of_typed {owner : String} {f : Field} {rest : List Field} {t : TypeExpr}
    (hv : f.isVisible = true) (ht : f.type = some t) (n : Nat) :
    T.membersOfWithin (n + 1) path owner (f :: rest) = (do
      let d ← T.describeWithin n t
      if f.flattened then
        if d.hasKind .struct then do
          let here ← T.membersWithin n path (d.through f)
          (here ++ ·) <$> T.membersOfWithin n path owner rest
        else throw (.flattenedNonStruct f.label d.fullName)
      else (d.through f :: ·) <$> T.membersOfWithin n path owner rest) := by
  rw [membersOfWithin]
  simp only [hv, ht, if_true]

theorem follows_membersOfWithin {owner : String} {fields : List Field}
    (h : ∀ f ∈ fields, ∀ t, Follows (fun n => T.membersWithin n path ((T.describe t).through f))
      (outcome? (T.membersFrom path ((T.describe t).through f)))) :
    Follows (fun n => T.membersOfWithin n path owner fields)
      (outcome? (T.membersOf path owner fields)) := by
  induction fields with
  | nil =>
    rw [membersOf]
    refine .at_once (by rw [membersOfWithin]; rfl) fun n => ?_
    rw [membersOfWithin]
    rfl
  | cons f rest ih =>
    have hrest := ih fun g hg => h g (List.mem_cons_of_mem _ hg)
    have hzero : T.membersOfWithin 0 path owner (f :: rest) = .mk none := by rw [membersOfWithin]
    -- hidden, without a type, of a circular one, plain, and flattened without and with a struct
    rcases field_cases T f with hv | ⟨hv, ht⟩ | ⟨t, hv, ht, hc⟩ | ⟨t, hv, hf, ht, hc⟩
      | ⟨t, hf, ht, hc, hk⟩ | ⟨t, hf, ht, hk⟩
    · rw [membersOf_of_hidden hv]
      refine .of_succ hzero (fun n => ?_) hrest
      rw [membersOfWithin]
      simp [hv]
    · rw [membersOf_of_untyped hv ht]
      refine .at_once hzero fun n => ?_
      rw [membersOfWithin]
      simp [hv, ht]
      rfl
    · rw [membersOf_of_circular hv ht hc]
      refine .at_once hzero fun n => ?_
      rw [membersOfWithin_of_typed hv ht, describeWithin_of_circular hc]
      rfl
    · rw [membersOf_of_plain hv hf ht hc]
      refine .of_succ hzero (membersOfWithin_of_typed hv ht) (follows_describe hc ?_)
      simp only [hf, Bool.false_eq_true, if_false]
      exact hrest.map
    · rw [membersOf_of_nonStruct hf ht hc hk]
      refine .of_succ hzero (membersOfWithin_of_typed (isVisible_of_flattened hf) ht)
        (follows_describe hc ?_)
      have hk' : (T.describe t).hasKind .struct = false := hk
      simp only [hf, if_true, hk', Bool.false_eq_true, if_false]
      exact .const _
    · rw [membersOf_of_flattened hf ht hk]
      refine .of_succ hzero (membersOfWithin_of_typed (isVisible_of_flattened hf) ht)
        (follows_describe (not_circular_of_hasKind hk) ?_)
      have hk' : (T.describe t).hasKind .struct = true := hk
      simp only [hf, if_true, hk']
      exact (h f List.mem_cons_self t).bind fun here _ => hrest.map

/-- **The members that the library finds are those of the plain way.** -/
theorem follows_membersWithin (d : Descriptor) :
    Follows (fun n => T.membersWithin n path d) (outcome? (T.membersFrom path d)) := by
  have hzero : ∀ path, T.membersWithin 0 path d = .mk none := fun path => by rw [membersWithin]
  -- by induction on the structs of the table that are not yet on the path
  induction path using path_induction (T := T) generalizing d with
  | _ path ih =>
    rw [membersFrom]
    cases hd : d.facts with
    | none =>
      refine .at_once (hzero path) fun n => ?_
      rw [membersWithin, hd]
      rfl
    | some i =>
      by_cases hp : i.id ∈ path
      · simp only [if_pos hp]
        refine .at_once (hzero path) fun n => ?_
        rw [membersWithin, hd]
        simp only [if_pos hp]
        rfl
      · simp only [if_neg hp]
        refine .of_succ (hzero path) (fun n => ?_) (follows_membersOfWithin fun f hf t =>
          ih i.id hp (List.ne_nil_of_mem hf) _ fun path => by rw [membersWithin])
        rw [membersWithin, hd]
        simp only [if_neg hp]

/-! ## Slices -/

/-- Where slices have no end, there is no schema. -/
theorem schemaFrom_of_endless {d : Descriptor}
    (h : T.leadsOn R.hasTypeRule (T.peelArrays R d).2 = true) :
    T.schemaFrom R policy path d = .error .noEnd := by
  have ho := opens_of_leadsOn h
  obtain ⟨i, hi, _⟩ := exists_facts_of_hasKind (hasKind_of_opens ho)
  obtain ⟨_, item, hitem⟩ := (leadsOn_iff hi).1 h
  obtain ⟨hk, hrule⟩ := (opens_iff hi).1 ho
  rw [schemaFrom_eq]
  simp [siteSchema?, hi, hrule, hk, hitem, Except.bind]

/-- **A slice is an array of its element.** -/
theorem schemaFrom_of_element {d e : Descriptor} (hd : T.Describes d)
    (ho : opens R.hasTypeRule d = true) (he : T.element d = some e) :
    T.schemaFrom R policy path d = (T.schemaFrom R policy path e).map .array := by
  have hends : T.leadsOn R.hasTypeRule (T.peelArrays R d).2
      = T.leadsOn R.hasTypeRule (T.peelArrays R e).2 := leadsOn_peel_element hasTypeRule_congr hd ho he
  cases hend : T.leadsOn R.hasTypeRule (T.peelArrays R e).2 with
  | true =>
    rw [schemaFrom_of_endless hend, schemaFrom_of_endless (hends.trans hend)]
    rfl
  | false =>
    have hpeel : T.peelArrays R d = ((T.peelArrays R e).1 + 1, (T.peelArrays R e).2) :=
      peel_of_behind hasTypeRule_congr hd (.element ho he (behind_of_peel _ e)) hend
    rw [schemaFrom_eq, schemaFrom_eq, hpeel]
    cases T.siteSchema? R policy (T.peelArrays R e).2 with
    | error error => rfl
    | ok o =>
      cases o with
      | some s => rfl
      | none =>
        dsimp only [Except.bind]
        cases T.objectFrom R policy path (T.peelArrays R e).2 with
        | error error => rfl
        | ok s => rfl

theorem peel_of_no_element {stop : Descriptor → Bool} {d : Descriptor} (he : T.element d = none) :
    T.peel stop d = (0, d) := by
  rcases peel_cases (T := T) stop d with hp | ⟨i, item, _, hi, _, hitem, _⟩
  · exact hp
  · rw [element_eq_some.2 ⟨i, item, hi, hitem, rfl⟩] at he
    cases he

/-- A slice without an element is a defect. -/
theorem schemaFrom_of_no_element {d : Descriptor} {i : TypeFacts} (hi : d.facts = some i)
    (ho : opens R.hasTypeRule d = true) (he : T.element? i.id = none) :
    T.schemaFrom R policy path d = .error (.defect (.sliceWithoutElement i.fullName)) := by
  have hnone : T.element d = none := by rw [element, hi, Option.bind_some, item?, he]; rfl
  have hpeel : T.peelArrays R d = (0, d) := peel_of_no_element hnone
  obtain ⟨hk, hrule⟩ := (opens_iff hi).1 ho
  rw [schemaFrom_eq, hpeel]
  simp [siteSchema?, hi, hrule, hk, he, Except.bind]

/-- What is not opened is rendered where it stands. -/
theorem schemaFrom_of_not_opens {d : Descriptor} (ho : opens R.hasTypeRule d = false) :
    T.schemaFrom R policy path d = (T.siteSchema? R policy d).bind fun o => match o with
      | some s => .ok s
      | none => T.objectFrom R policy path d := by
  have hpeel : T.peelArrays R d = (0, d) := peel_of_not_opens (by simp [ho])
  rw [schemaFrom_eq, hpeel]
  cases T.siteSchema? R policy d with
  | error e => rfl
  | ok o =>
    cases o with
    | some s => rfl
    | none =>
      dsimp only [Except.bind]
      cases T.objectFrom R policy path d with
      | error e => rfl
      | ok s => rfl

section Opened

variable {d : Descriptor} {i : TypeFacts} (hi : d.facts = some i)
  (ho : opens R.hasTypeRule d = true)

include hi ho

theorem schemaWithin_of_no_element (he : T.element? i.id = none) (n : Nat) :
    T.schemaWithin R policy (n + 1) path d
      = throw (.defect (.sliceWithoutElement i.fullName)) := by
  obtain ⟨hk, hrule⟩ := (opens_iff hi).1 ho
  rw [schemaWithin]
  simp only [hi, hrule, Bool.false_eq_true, if_false, hk, he]

theorem schemaWithin_of_element {item : TypeExpr} (he : T.element? i.id = some item) (n : Nat) :
    T.schemaWithin R policy (n + 1) path d = (do
      let e ← T.describeWithin n item
      Schema.array <$> T.schemaWithin R policy n path e) := by
  obtain ⟨hk, hrule⟩ := (opens_iff hi).1 ho
  rw [schemaWithin]
  simp only [hi, hrule, Bool.false_eq_true, if_false, hk, he]

end Opened

/-- Where slices have no end, no bound is enough: every element is as far from it as its slice. -/
theorem schemaWithin_of_endless {d : Descriptor} (hd : T.Describes d)
    (h : T.leadsOn R.hasTypeRule (T.peelArrays R d).2 = true) (n : Nat) :
    T.schemaWithin R policy n path d = .mk none := by
  induction n generalizing d with
  | zero => rw [schemaWithin]
  | succ n ih =>
    have hhere : T.leadsOn R.hasTypeRule d = true :=
      (leadsOn_peel_iff hasTypeRule_congr hd).1 h 0 d .here
    have ho := opens_of_leadsOn hhere
    obtain ⟨i, hi, _⟩ := exists_facts_of_hasKind (hasKind_of_opens ho)
    obtain ⟨_, item, hitem⟩ := (leadsOn_iff hi).1 hhere
    rw [schemaWithin_of_element hi ho hitem]
    cases hc : T.isCircular item with
    | true =>
      rw [describeWithin_of_circular hc]
      rfl
    | false =>
      have he : T.element d = some (T.describe item) :=
        element_eq_some.2 ⟨i, item, hi, item?_eq_some.2 ⟨hitem, hc⟩, rfl⟩
      have hnext := ih (describes_describe item)
        ((leadsOn_peel_element hasTypeRule_congr hd ho he).symm.trans h)
      rw [describeWithin]
      cases T.underlyingWithin n item with
      | none => rfl
      | some u =>
        show Schema.array <$> T.schemaWithin R policy n path (T.describe item) = _
        rw [hnext]
        rfl

/-! ## Structs -/

/-- What is not opened has the schema of its site, or that of its expansion. -/
theorem schemaWithin_of_not_opens {d : Descriptor} (ho : opens R.hasTypeRule d = false) (n : Nat) :
    T.schemaWithin R policy (n + 1) path d = match T.siteSchema? R policy d with
      | .error e => throw e
      | .ok (some s) => pure s
      | .ok none => T.objectWithin R policy n path d := by
  have hdata : (ExceptT.mk (some (R.dataSchema T d)) : ExceptT Error Option Schema)
      = match (R.dataSchema T d).map some with
        | .error e => throw e
        | .ok (some s) => pure s
        | .ok none => T.objectWithin R policy n path d := by
    cases R.dataSchema T d with
    | error e => rfl
    | ok s => rfl
  rw [schemaWithin, siteSchema?]
  cases hi : d.facts with
  | none => rfl
  | some i =>
    by_cases hr : R.hasTypeRule d = true
    · simp only [if_pos hr]
      exact hdata
    · simp only [if_neg hr]
      cases hk : i.kind with
      | slice =>
        -- a slice without a rule would be opened
        have hslice := (hasKind_iff hi).2 hk
        simp [opens, hslice, hr] at ho
      | struct =>
        by_cases hf : T.fields i.id = []
        · simp only [if_pos hf]
        · simp only [if_neg hf]
          cases d.name? with
          | none => rfl
          | some name =>
            by_cases hp : policy d = true
            · simp only [if_pos hp]
            · simp only [if_neg hp]
      | _ => exact hdata

/-- What is not opened does not go on without end. -/
theorem siteSchema?_ne_noEnd {d : Descriptor} (ho : opens R.hasTypeRule d = false) :
    T.siteSchema? R policy d ≠ .error .noEnd := by
  have hfails : FailsOnly (fun e => e ≠ .noEnd) (T.siteSchema? R policy d) := by
    refine failsOnly_siteSchema? ?empty ?noRule ?endless ?noElement
    case empty => intro _ h; cases h
    case noRule => intro _ _ _ _ _ h; cases h
    case endless =>
      intro h
      rw [opens_of_leadsOn h] at ho
      cases ho
    case noElement => intro _ _ _ _ h; cases h
  exact fun h => hfails _ h rfl

/-- A descriptor that is not opened does what the renderer says if its expansion does. -/
theorem follows_of_not_opens {d : Descriptor} (ho : opens R.hasTypeRule d = false)
    (h : Follows (fun n => T.objectWithin R policy n path d)
      (outcome? (T.objectFrom R policy path d))) :
    Follows (fun n => T.schemaWithin R policy n path d)
      (outcome? (T.schemaFrom R policy path d)) := by
  rw [schemaFrom_of_not_opens ho]
  refine .of_succ (by rw [schemaWithin]; rfl) (schemaWithin_of_not_opens ho) ?_
  cases hs : T.siteSchema? R policy d with
  | error e =>
    have hends : outcome? (.error e : Except Error Schema) = some (.error e) := by
      refine outcome?_eq_some.2 ⟨rfl, fun he => ?_⟩
      cases he
      exact siteSchema?_ne_noEnd ho hs
    show Follows _ (outcome? (.error e))
    rw [hends]
    exact .const _
  | ok o =>
    cases o with
    | some s => exact .const _
    | none => exact h

/-- Where structs do what the renderer says, so does all that can be rendered: slices end in something
else, or not at all. -/
theorem follows_of_objects
    (h : ∀ d, T.Describes d → Follows (fun n => T.objectWithin R policy n path d)
      (outcome? (T.objectFrom R policy path d)))
    {d : Descriptor} (hd : T.Describes d) :
    Follows (fun n => T.schemaWithin R policy n path d)
      (outcome? (T.schemaFrom R policy path d)) := by
  cases hend : T.leadsOn R.hasTypeRule (T.peelArrays R d).2 with
  | true =>
    rw [schemaFrom_of_endless hend]
    refine ⟨fun n x hx => ?_, fun x hx => by cases hx⟩
    rw [schemaWithin_of_endless hd hend n] at hx
    cases hx
  | false =>
    obtain ⟨n, b, hbehind, hb⟩ : ∃ n b, T.Behind R.hasTypeRule n d b
        ∧ T.leadsOn R.hasTypeRule b = false := ⟨_, _, behind_of_peel _ d, hend⟩
    clear hend
    -- by induction on the slices on the way to what they hold at bottom
    induction hbehind with
    | @here d =>
      by_cases ho : opens R.hasTypeRule d = true
      · obtain ⟨i, hi, _⟩ := exists_facts_of_hasKind (hasKind_of_opens ho)
        have he := element?_of_not_leadsOn hi ho hb
        rw [schemaFrom_of_no_element hi ho he]
        refine .at_once (by rw [schemaWithin]; rfl) fun n => ?_
        rw [schemaWithin_of_no_element hi ho he]
        rfl
      · exact follows_of_not_opens (by simpa using ho) (h d hd)
    | @element n d e b ho he _ ih =>
      obtain ⟨i, item, hi, hitem, rfl⟩ := element_eq_some.1 he
      obtain ⟨hitem, hc⟩ := item?_eq_some.1 hitem
      rw [schemaFrom_of_element hd ho he]
      exact .of_succ (by rw [schemaWithin]; rfl) (schemaWithin_of_element hi ho hitem)
        (follows_describe hc (ih (describes_describe item) hb).map)

theorem follows_propertiesWithin {ms : List Descriptor}
    (h : ∀ m ∈ ms, Follows (fun n => T.schemaWithin R policy n path m)
      (outcome? (T.schemaFrom R policy path m))) :
    Follows (fun n => T.propertiesWithin R policy n path ms)
      (outcome? (T.propertiesFrom R policy path ms)) := by
  induction ms with
  | nil =>
    rw [propertiesFrom]
    refine .at_once (by rw [propertiesWithin]; rfl) fun n => ?_
    rw [propertiesWithin]
    rfl
  | cons m rest ih =>
    have hrest := ih fun g hg => h g (List.mem_cons_of_mem _ hg)
    have hzero : T.propertiesWithin R policy 0 path (m :: rest) = .mk none := by
      rw [propertiesWithin]
    rw [propertiesFrom]
    cases hn : m.propertyName with
    | none =>
      refine .of_succ hzero (fun n => ?_) hrest
      rw [propertiesWithin, hn]
    | some name =>
      refine .of_succ hzero (fun n => ?_)
        ((h m List.mem_cons_self).bind fun schema _ => hrest.map)
      rw [propertiesWithin, hn]

/-- **The object of a struct is that of the plain way.** -/
theorem follows_objectWithin {d : Descriptor} (hd : T.Describes d) :
    Follows (fun n => T.objectWithin R policy n path d)
      (outcome? (T.objectFrom R policy path d)) := by
  induction path using path_induction (T := T) generalizing d with
  | _ path ih =>
    have hzero : T.objectWithin R policy 0 path d = .mk none := by rw [objectWithin]
    cases hi : d.facts with
    | none =>
      rw [objectFrom_of_no_facts hi]
      refine .at_once hzero fun n => ?_
      rw [objectWithin, hi]
      rfl
    | some i =>
      by_cases hp : i.id ∈ path
      · rw [objectFrom_of_met hi hp]
        refine .at_once hzero fun n => ?_
        rw [objectWithin, hi]
        simp only [if_pos hp]
        rfl
      · rw [objectFrom_eq hi hp]
        refine .of_succ hzero (fun n => ?_) ((follows_membersWithin d).bind fun ms hms =>
          (follows_propertiesWithin fun m hm => ?_).map)
        · rw [objectWithin, hi]
          simp only [if_neg hp]
        · -- a struct with a member has a field, so the path grows by a type of the table
          have hfields := fields_ne_nil_of_member hi hms hm
          exact follows_of_objects (fun e he => ih i.id hp hfields he)
            (isMember_of_mem hms hm).describes

/-- **The schema of a descriptor is that of the plain way.** -/
theorem follows_schemaWithin {d : Descriptor} (hd : T.Describes d) :
    Follows (fun n => T.schemaWithin R policy n path d)
      (outcome? (T.schemaFrom R policy path d)) :=
  follows_of_objects (fun _ he => follows_objectWithin he) hd

end TypeTable

end ApiAtlas
