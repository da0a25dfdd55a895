import ApiAtlas.PathTemplate

/-!
# Normal forms of paths

A path is read from its front. Where `/:` and a letter or digit are next, a parameter begins, and its
name are all the letters and digits up to the next other character; it gets its braces and reading goes
on behind it. Any other character is copied (`Scan`). There is one way to read a path, and `braced` is
it (`scan_iff`).

The result has no parameter that begins with a colon. It could only have one across a place where copied
and rewritten text meet; but rewritten text begins with a slash and a brace, so a colon and what follows
it in the result are copied, and followed each other in the path (`Scan.startsParameter`). With no
parameter left to be rewritten, a normal form is its own normal form.
-/

namespace ApiAtlas.PathTemplate

variable {cs out name rest : List Char} {c : Char}

/-! ## Parameters -/

/-- A parameter begins here: a slash, a colon, and an ASCII letter or digit. -/
def StartsParameter (cs : List Char) : Prop :=
  ∃ c rest, cs = '/' :: ':' :: c :: rest ∧ c.isAlphanum = true

/-- A parameter begins somewhere. -/
def HasParameter (cs : List Char) : Prop :=
  ∃ before rest, cs = before ++ rest ∧ StartsParameter rest

/-- These letters and digits are a name, and what follows does not belong to it. -/
structure IsName (name rest : List Char) : Prop where
  nonempty : name ≠ []
  isAlphanum : ∀ c ∈ name, c.isAlphanum = true
  maximal : ∀ c ∈ rest.head?, c.isAlphanum = false

/-- Read a path from its front: parameters get braces, all other characters are copied. -/
inductive Scan : List Char → List Char → Prop where
  | done : Scan [] []
  | parameter {name rest out : List Char} : IsName name rest → Scan rest out →
      Scan ('/' :: ':' :: (name ++ rest)) ('/' :: '\x7b' :: (name ++ '\x7d' :: out))
  | copied {c : Char} {rest out : List Char} : ¬ StartsParameter (c :: rest) → Scan rest out →
      Scan (c :: rest) (c :: out)

theorem not_startsParameter (h : c ≠ '/') : ¬ StartsParameter (c :: rest) := by
  rintro ⟨d, after, heq, _⟩
  exact h (List.cons.inj heq).1

theorem hasParameter_cons :
    HasParameter (c :: rest) ↔ StartsParameter (c :: rest) ∨ HasParameter rest := by
  constructor
  · rintro ⟨before, after, heq, hstart⟩
    cases before with
    | nil =>
      rw [List.nil_append] at heq
      rw [heq]
      exact .inl hstart
    | cons d before =>
      rw [List.cons_append] at heq
      exact .inr ⟨before, after, (List.cons.inj heq).2, hstart⟩
  · rintro (hstart | ⟨before, after, rfl, hstart⟩)
    · exact ⟨[], _, rfl, hstart⟩
    · exact ⟨c :: before, after, rfl, hstart⟩

/-- A parameter does not begin where there is no slash. -/
theorem hasParameter_append {front : List Char} (h : '/' ∉ front) :
    HasParameter (front ++ cs) → HasParameter cs := by
  induction front with
  | nil => exact id
  | cons d front ih =>
    rw [List.mem_cons, not_or] at h
    rw [List.cons_append, hasParameter_cons]
    rintro (hstart | hlater)
    · exact absurd hstart (not_startsParameter fun he => h.1 he.symm)
    · exact ih h.2 hlater

/-! ## One step of the rewriting -/

theorem drop_parameterName (cs : List Char) :
    cs.drop (parameterName cs).length = cs.dropWhile Char.isAlphanum := by
  have hsplit : parameterName cs ++ cs.dropWhile Char.isAlphanum = cs :=
    List.takeWhile_append_dropWhile
  calc cs.drop (parameterName cs).length
      = (parameterName cs ++ cs.dropWhile Char.isAlphanum).drop (parameterName cs).length := by
        rw [hsplit]
    _ = cs.dropWhile Char.isAlphanum := List.drop_left

theorem append_drop_parameterName (cs : List Char) :
    parameterName cs ++ cs.drop (parameterName cs).length = cs := by
  rw [drop_parameterName]
  exact List.takeWhile_append_dropWhile

theorem IsName.parameterName_eq (h : IsName name rest) : parameterName (name ++ rest) = name := by
  rw [parameterName, List.takeWhile_append_of_pos h.isAlphanum]
  cases rest with
  | nil => simp
  | cons c rest => simp [h.maximal c rfl]

theorem isName_parameterName (h : parameterName cs ≠ []) :
    IsName (parameterName cs) (cs.drop (parameterName cs).length) where
  nonempty := h
  isAlphanum := fun _ hc => List.all_eq_true.1 List.all_takeWhile _ hc
  maximal := by
    intro c hc
    rw [drop_parameterName] at hc
    have hhead := List.head?_dropWhile_not Char.isAlphanum cs
    rw [Option.mem_def.1 hc] at hhead
    exact hhead

theorem startsParameter_iff :
    StartsParameter ('/' :: ':' :: cs) ↔ parameterName cs ≠ [] := by
  cases cs with
  | nil => simp [StartsParameter, parameterName]
  | cons c rest => by_cases hc : c.isAlphanum = true <;> simp [StartsParameter, parameterName, hc]

theorem braced_parameter (h : IsName name rest) :
    braced ('/' :: ':' :: (name ++ rest)) = '/' :: '\x7b' :: (name ++ '\x7d' :: braced rest) := by
  rw [braced, h.parameterName_eq]
  simp [h.nonempty]

theorem braced_copied (h : ¬ StartsParameter (c :: rest)) : braced (c :: rest) = c :: braced rest := by
  by_cases hcolon : ∃ after, c = '/' ∧ rest = ':' :: after
  · obtain ⟨after, rfl, rfl⟩ := hcolon
    have hname : parameterName after = [] :=
      Decidable.byContradiction fun hne => h (startsParameter_iff.2 hne)
    rw [braced]
    simp [hname]
  · rw [braced]
    intro after hc hrest
    exact hcolon ⟨after, hc, hrest⟩

/-! ## Reading is rewriting -/

theorem Scan.eq_braced (h : Scan cs out) : out = braced cs := by
  induction h with
  | done => rw [braced]
  | parameter hname _ ih => rw [braced_parameter hname, ih]
  | copied hno _ ih => rw [braced_copied hno, ih]

theorem scan_braced (cs : List Char) : Scan cs (braced cs) := by
  -- the rewriting also meets `/:` without a name, which to the reading is one more copied slash
  induction cs using braced.induct with
  | case1 =>
    rw [braced]
    exact .done
  | case2 rest name hname ih =>
    have hno : ¬ StartsParameter ('/' :: ':' :: rest) := fun h => startsParameter_iff.1 h hname
    rw [braced_copied hno]
    exact .copied hno ih
  | case3 rest name hname ih =>
    have hsplit : parameterName rest ++ rest.drop (parameterName rest).length = rest :=
      append_drop_parameterName rest
    have hstep := Scan.parameter (isName_parameterName hname) ih
    rw [← braced_parameter (isName_parameterName hname), hsplit] at hstep
    exact hstep
  | case4 c rest hno ih =>
    have hstart : ¬ StartsParameter (c :: rest) := by
      rintro ⟨d, after, heq, _⟩
      cases heq
      exact hno _ rfl rfl
    rw [braced_copied hstart]
    exact .copied hstart ih

/-- **To read a path is to rewrite it**, and there is one way to do so. -/
theorem scan_iff : Scan cs out ↔ out = braced cs :=
  ⟨Scan.eq_braced, fun h => h ▸ scan_braced cs⟩

/-! ## What is left -/

/-- What was read to a character that is no slash has been copied. -/
theorem Scan.of_cons (h : Scan cs (c :: out)) (hc : c ≠ '/') :
    ∃ rest, cs = c :: rest ∧ Scan rest out := by
  cases h with
  | parameter => exact absurd rfl hc
  | copied _ hrest => exact ⟨_, rfl, hrest⟩

/-- A parameter in the result that begins with a copied slash was there before. -/
theorem Scan.startsParameter (h : Scan rest out) (hstart : StartsParameter (c :: out)) :
    StartsParameter (c :: rest) := by
  obtain ⟨d, after, heq, hd⟩ := hstart
  cases heq
  have hslash : d ≠ '/' := fun he => absurd (he ▸ hd) (by decide)
  -- neither the colon nor what follows it is a slash, so both have been copied
  obtain ⟨rest', rfl, h'⟩ := h.of_cons (by decide)
  obtain ⟨before, rfl, _⟩ := h'.of_cons hslash
  exact ⟨d, before, rfl, hd⟩

theorem Scan.not_hasParameter (h : Scan cs out) : ¬ HasParameter out := by
  induction h with
  | done =>
    rintro ⟨before, rest, heq, c, after, rfl, _⟩
    simp at heq
  | @parameter name rest out hname _ ih =>
    have hslash : '/' ∉ '\x7b' :: (name ++ ['\x7d']) := by
      have hin : '/' ∉ name := fun hmem => absurd (hname.isAlphanum _ hmem) (by decide)
      simp [hin]
    -- between the braces there is no slash, so a parameter would have to begin behind them
    have hsplit : '\x7b' :: (name ++ '\x7d' :: out) = '\x7b' :: (name ++ ['\x7d']) ++ out := by simp
    rw [hasParameter_cons, hsplit]
    rintro (⟨c, after, heq, _⟩ | hlater)
    · cases heq
    · exact ih (hasParameter_append hslash hlater)
  | copied hno hrest ih =>
    rw [hasParameter_cons]
    rintro (hstart | hlater)
    · exact hno (hrest.startsParameter hstart)
    · exact ih hlater

theorem braced_of_not_hasParameter (h : ¬ HasParameter cs) : braced cs = cs := by
  induction cs with
  | nil => rw [braced]
  | cons c rest ih =>
    rw [hasParameter_cons, not_or] at h
    rw [braced_copied h.1, ih h.2]

/-- A path without colons has no parameters that need braces. -/
theorem not_hasParameter_of_not_mem (h : ':' ∉ cs) : ¬ HasParameter cs := by
  rintro ⟨before, rest, rfl, c, after, rfl, _⟩
  exact h (by simp)

theorem toList_normalForm (path : String) : (normalForm path).toList = braced path.toList :=
  String.toList_ofList

theorem normalForm_of_not_hasParameter {path : String} (h : ¬ HasParameter path.toList) :
    normalForm path = path := by
  rw [normalForm, braced_of_not_hasParameter h, String.ofList_toList]

theorem normalForm_of_not_mem {path : String} (h : ':' ∉ path.toList) : normalForm path = path :=
  normalForm_of_not_hasParameter (not_hasParameter_of_not_mem h)

/-- **The normal form of a path is what reading it once gives.** It has no parameter that begins with a
colon, so its own normal form is the same. The paths without such a parameter are normal forms, and no
others are. -/
theorem normalForm_exact (path : String) :
    (∀ out : String, Scan path.toList out.toList ↔ out = normalForm path)
      ∧ ¬ HasParameter (normalForm path).toList
      ∧ normalForm (normalForm path) = normalForm path
      ∧ (normalForm path = path ↔ ¬ HasParameter path.toList) := by
  have hfree : ∀ path : String, ¬ HasParameter (normalForm path).toList := by
    intro path
    rw [toList_normalForm]
    exact (scan_braced path.toList).not_hasParameter
  refine ⟨fun out => ?_, hfree path, normalForm_of_not_hasParameter (hfree path), fun h => ?_,
    normalForm_of_not_hasParameter⟩
  · rw [scan_iff, ← toList_normalForm, String.toList_inj]
  · rw [← h]
    exact hfree path

end ApiAtlas.PathTemplate
