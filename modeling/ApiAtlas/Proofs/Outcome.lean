import Mathlib.Data.List.Forall2

/-!
# Reading an outcome backwards

Most functions of this library either give a result or stop with an error. A run of several of them
that succeeds is one whose parts all succeeded, and one that fails does so with the error of a part;
these lemmas take such a run apart. A run along a list leaves a list that corresponds to it element
by element.

Two runs of one function on inputs that are hard to tell apart are compared step by step: `Agree` is
kept by every step that keeps it.
-/

universe u

namespace ApiAtlas

variable {ε α β : Type u}

/-- A sequence of two steps succeeds exactly when both do. -/
theorem bind_eq_ok {x : Except ε α} {f : α → Except ε β} {b : β} :
    x >>= f = .ok b ↔ ∃ a, x = .ok a ∧ f a = .ok b := by
  cases x with
  | error e =>
    constructor
    · intro h; cases h
    · rintro ⟨a, h, _⟩; cases h
  | ok a =>
    constructor
    · intro h; exact ⟨a, rfl, h⟩
    · rintro ⟨a', h, hf⟩; cases h; exact hf

/-- A mapped outcome succeeds exactly when the outcome does. -/
theorem map_eq_ok {x : Except ε α} {f : α → β} {b : β} :
    x.map f = .ok b ↔ ∃ a, x = .ok a ∧ f a = b := by
  cases x with
  | error e =>
    constructor
    · intro h; cases h
    · rintro ⟨a, h, _⟩; cases h
  | ok a =>
    constructor
    · intro h; cases h; exact ⟨a, rfl, rfl⟩
    · rintro ⟨a', h, hf⟩; cases h; rw [← hf]; rfl

/-- A sequence of two steps fails as its first step does, or as its second does after it. -/
theorem bind_eq_error {x : Except ε α} {f : α → Except ε β} {e : ε} :
    x >>= f = .error e ↔ x = .error e ∨ ∃ a, x = .ok a ∧ f a = .error e := by
  cases x with
  | error e' =>
    constructor
    · intro h; cases h; exact .inl rfl
    · rintro (h | ⟨a, h, _⟩)
      · cases h; rfl
      · cases h
  | ok a =>
    constructor
    · intro h; exact .inr ⟨a, rfl, h⟩
    · rintro (h | ⟨a', h, hf⟩)
      · cases h
      · cases h; exact hf

/-- A mapped outcome fails exactly as the outcome does. -/
theorem map_eq_error {x : Except ε α} {f : α → β} {e : ε} :
    x.map f = .error e ↔ x = .error e := by
  cases x with
  | error e' =>
    constructor
    · intro h; cases h; rfl
    · intro h; cases h; rfl
  | ok a =>
    constructor
    · intro h; cases h
    · intro h; cases h

/-- Two outcomes are the same, errors apart, if each result of one is a result of the other. -/
theorem toOption_eq {x y : Except ε α} (h : ∀ a, x = .ok a ↔ y = .ok a) :
    x.toOption = y.toOption := by
  cases x with
  | ok a => rw [(h a).1 rfl]
  | error e =>
    cases y with
    | error e' => rfl
    | ok a => cases (h a).2 rfl

/-! ## Failures -/

/-- If the outcome is an error, then one of these. -/
def FailsOnly (P : ε → Prop) (x : Except ε α) : Prop := ∀ e, x = .error e → P e

namespace FailsOnly

variable {P : ε → Prop} {x : Except ε α}

theorem ok (a : α) : FailsOnly P (.ok a : Except ε α) := by
  intro e h
  cases h

theorem error {e : ε} (h : P e) : FailsOnly P (.error e : Except ε α) := by
  intro e' he
  cases he
  exact h

/-- Two steps fail only as the first does, or as the second does after a success of the first. -/
theorem bind {f : α → Except ε β} (hx : FailsOnly P x)
    (hf : ∀ a, x = .ok a → FailsOnly P (f a)) : FailsOnly P (x >>= f) := by
  intro e he
  cases x with
  | error e' => cases he; exact hx _ rfl
  | ok a => exact hf a rfl e he

theorem map {f : α → β} (hx : FailsOnly P x) : FailsOnly P (x.map f) := by
  intro e he
  cases x with
  | error e' => cases he; exact hx _ rfl
  | ok a => cases he

end FailsOnly

/-! ## Two runs -/

/-- The two outcomes are the same error, or results that are related. -/
inductive Agree {ε α β : Type u} (r : α → β → Prop) : Except ε α → Except ε β → Prop where
  | error (e : ε) : Agree r (.error e) (.error e)
  | ok {a : α} {b : β} : r a b → Agree r (.ok a) (.ok b)

namespace Agree

variable {α' β' : Type u} {r : α → α' → Prop} {s : β → β' → Prop} {x : Except ε α} {y : Except ε α'}

theorem error_left {e : ε} (h : Agree r (.error e) y) : y = .error e := by
  cases h
  rfl

theorem ok_left {a : α} (h : Agree r (.ok a) y) : ∃ b, y = .ok b ∧ r a b := by
  cases h with
  | ok hr => exact ⟨_, rfl, hr⟩

/-- Two runs of two steps agree if the steps do. -/
theorem bind {f : α → Except ε β} {g : α' → Except ε β'} (h : Agree r x y)
    (hf : ∀ a b, r a b → Agree s (f a) (g b)) : Agree s (x >>= f) (y >>= g) := by
  cases h with
  | error e => exact .error e
  | ok hr => exact hf _ _ hr

theorem map {f : α → β} {g : α' → β'} (h : Agree r x y) (hf : ∀ a b, r a b → s (f a) (g b)) :
    Agree s (x.map f) (y.map g) := by
  cases h with
  | error e => exact .error e
  | ok hr => exact .ok (hf _ _ hr)

/-- Runs whose results have the same image have the same outcome but for that. -/
theorem map_eq {f : α → β} {g : α' → β} (h : Agree (fun a b => f a = g b) x y) :
    x.map f = y.map g := by
  cases h with
  | error e => rfl
  | ok hr => exact congrArg Except.ok hr

/-- If the images are the results themselves, the runs have one outcome. -/
theorem eq {z : Except ε α} {f : α → α} (h : Agree (fun a b => f a = f b) x z)
    (hf : ∀ a, f a = a) : x = z := by
  cases h with
  | error e => rfl
  | @ok a b hr =>
    have hab : a = b := by rw [← hf a, hr, hf b]
    rw [hab]

end Agree

/-! ## Along a list -/

section Lists

variable {γ δ : Type u} {r : γ → δ → Prop} {l : List γ} {l' : List δ}

theorem forall₂_split_right {pre post : List δ} {b : δ}
    (h : List.Forall₂ r l (pre ++ b :: post)) :
    ∃ before a after, l = before ++ a :: after ∧ r a b ∧ List.Forall₂ r after post := by
  induction pre generalizing l with
  | nil =>
    obtain ⟨a, after, ha, hafter, hl⟩ := List.forall₂_cons_right_iff.1 h
    exact ⟨[], a, after, hl, ha, hafter⟩
  | cons x pre ih =>
    obtain ⟨y, rest, _, hrest, hl⟩ := List.forall₂_cons_right_iff.1 h
    obtain ⟨before, a, after, hsplit, ha, hafter⟩ := ih hrest
    exact ⟨y :: before, a, after, by rw [hl, hsplit]; rfl, ha, hafter⟩

theorem exists_of_mem_right (h : List.Forall₂ r l l') {b : δ} (hb : b ∈ l') : ∃ a ∈ l, r a b := by
  obtain ⟨pre, post, hl'⟩ := List.append_of_mem hb
  rw [hl'] at h
  obtain ⟨before, a, after, hl, ha, _⟩ := forall₂_split_right h
  exact ⟨a, by rw [hl]; exact List.mem_append_right _ List.mem_cons_self, ha⟩

theorem exists_of_mem_left (h : List.Forall₂ r l l') {a : γ} (ha : a ∈ l) : ∃ b ∈ l', r a b :=
  exists_of_mem_right (r := flip r) h.flip ha

end Lists

end ApiAtlas
