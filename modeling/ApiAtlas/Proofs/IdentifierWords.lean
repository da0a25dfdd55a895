import ApiAtlas.Proofs.OperationIds

/-!
# The words of an identifier

Of a path only letters, digits and separators matter to its identifier. What is left of it when all other
characters are deleted is read from its front: separators are passed over, and a word is all the letters
and digits up to the next separator (`Words`). The identifier is the method and these words, each with a
capital letter in front.

A separator cuts the identifier in two (`identifier_append_separator`), and all that is to be said of
separators follows: in front, behind, and in numbers they make no difference. Words are made of ASCII
letters and digits, hence their first letter has one capital letter of its own in the tables of Unicode
as well, and it is an ASCII letter.
-/

namespace ApiAtlas.PathTemplate

variable {cs ds s w : List Char} {c : Char} {ws : List (List Char)}

/-! ## Words -/

/-- The words of a text of letters, digits and separators, in order. -/
inductive Words : List Char → List (List Char) → Prop where
  | done : Words [] []
  | separator {c : Char} {rest : List Char} {ws : List (List Char)} : isSeparator c = true →
      Words rest ws → Words (c :: rest) ws
  | word {w rest : List Char} {ws : List (List Char)} : IsName w rest → Words rest ws →
      Words (w ++ rest) (w :: ws)

/-- Where no letter or digit is next, the piece that begins is empty: a separator is next, or nothing
is. -/
theorem letters_of_words (h : Words cs ws) (hhead : ∀ c ∈ cs.head?, c.isAlphanum = false) :
    ∃ later, letters cs = [] :: later := by
  cases h with
  | done => exact ⟨[], rfl⟩
  | separator hc _ => exact ⟨_, by rw [letters_cons, if_pos hc]⟩
  | @word w rest ws hname _ =>
    cases w with
    | nil => exact absurd rfl hname.nonempty
    | cons c w =>
      have hno := hhead c rfl
      rw [hname.isAlphanum c List.mem_cons_self] at hno
      cases hno

/-- The words are the pieces between separators but for the empty ones. -/
theorem Words.eq_letters (h : Words cs ws) : ws = (letters cs).filter (· ≠ []) := by
  induction h with
  | done => rfl
  | separator hc _ ih => rw [letters_cons, if_pos hc, ih]; rfl
  | word hname hrest ih =>
    obtain ⟨later, hlater⟩ := letters_of_words hrest hname.maximal
    rw [letters_append hname.isAlphanum, ih, hlater]
    simp [hname.nonempty]

/-- Every text of letters, digits and separators has words. -/
theorem exists_words (h : ∀ c ∈ cs, isKept c = true) : ∃ ws, Words cs ws := by
  induction hn : cs.length using Nat.strongRecOn generalizing cs with
  | ind n ih =>
    cases cs with
    | nil => exact ⟨[], .done⟩
    | cons c rest =>
      have hrest : ∀ c ∈ rest, isKept c = true := fun c hc => h c (List.mem_cons_of_mem _ hc)
      by_cases hsep : isSeparator c = true
      · obtain ⟨ws, hws⟩ := ih rest.length (by simp at hn; omega) hrest rfl
        exact ⟨ws, .separator hsep hws⟩
      · have hc : c.isAlphanum = true := by simpa [isKept, hsep] using h c List.mem_cons_self
        have hname : parameterName (c :: rest) ≠ [] := by simp [parameterName, hc]
        have hsplit := append_drop_parameterName (c :: rest)
        have hshorter : ((c :: rest).drop (parameterName (c :: rest)).length).length < n := by
          have hlength := List.length_pos_iff.2 hname
          rw [List.length_drop, hn]
          simp at hn
          omega
        obtain ⟨ws, hws⟩ := ih _ hshorter (fun c hc => h c (List.mem_of_mem_drop hc)) rfl
        have hwords := Words.word (isName_parameterName hname) hws
        rw [hsplit] at hwords
        exact ⟨_, hwords⟩

/-- **A text of letters, digits and separators has one list of words.** -/
theorem words_iff (h : ∀ c ∈ cs, isKept c = true) :
    Words cs ws ↔ ws = (letters cs).filter (· ≠ []) := by
  refine ⟨Words.eq_letters, ?_⟩
  rintro rfl
  obtain ⟨vs, hvs⟩ := exists_words h
  rwa [← hvs.eq_letters]

/-! ## What an identifier is made of -/

theorem flatMap_capitalize_filter (ws : List (List Char)) :
    (ws.filter (· ≠ [])).flatMap capitalize = ws.flatMap capitalize := by
  induction ws with
  | nil => rfl
  | cons w ws ih =>
    cases w with
    | nil => simpa [capitalize] using ih
    | cons c w => simpa using ih

/-- **The identifier of a path is its words**, each with a capital letter in front. -/
theorem identifier_eq_titled (h : Words (cs.filter isKept) ws) :
    identifier cs = ws.flatMap titled := by
  have hws := h.eq_letters
  rw [letters_filter_isKept] at hws
  have htitled : ws.flatMap titled = ws.flatMap capitalize := by
    refine List.flatMap_congr fun w hw => titled_eq_capitalize ?_
    rw [hws] at hw
    exact isAlphanum_of_mem_letters (List.mem_filter.1 hw).1
  rw [htitled, hws, flatMap_capitalize_filter, identifier_eq]

theorem isAlphanum_of_mem_identifier (h : c ∈ identifier cs) : c.isAlphanum = true := by
  rw [identifier_eq] at h
  obtain ⟨w, hw, hc⟩ := List.mem_flatMap.1 h
  have hall := isAlphanum_of_mem_letters hw
  cases w with
  | nil => cases hc
  | cons d rest =>
    rcases List.mem_cons.1 hc with rfl | hc
    · exact isAlphanum_toUpper (hall d List.mem_cons_self)
    · exact hall c (List.mem_cons_of_mem _ hc)

/-- The method in lower case is its name in lower case. -/
theorem toList_lower (m : Method) : m.lower.toList = m.upper.toList.map Char.toLower := by
  cases m <;> decide

theorem isAlphanum_of_mem_lower {m : Method} (h : c ∈ m.lower.toList) : c.isAlphanum = true := by
  have hall : m.lower.toList.all Char.isAlphanum = true := by cases m <;> decide
  exact List.all_eq_true.1 hall c h

/-! ## Separators -/

/-- **A separator cuts the identifier in two.** -/
theorem identifier_append_separator (h : isSeparator c = true) :
    identifier (cs ++ c :: ds) = identifier cs ++ identifier ds := by
  rw [identifier_eq, identifier_eq, identifier_eq, letters, List.splitOnP_append_cons cs ds h,
    List.map_append, List.flatMap_append]
  rfl

/-- Separators in front make no difference. -/
theorem identifier_separators_append (h : ∀ c ∈ s, isSeparator c = true) :
    identifier (s ++ cs) = identifier cs := by
  induction s with
  | nil => rfl
  | cons c s ih =>
    have hfirst : identifier ([] ++ c :: (s ++ cs)) = identifier [] ++ identifier (s ++ cs) :=
      identifier_append_separator (h c List.mem_cons_self)
    rw [List.cons_append, ← List.nil_append (c :: (s ++ cs)), hfirst,
      ih fun c hc => h c (List.mem_cons_of_mem _ hc)]
    rfl

/-- Separators between two parts of a path cut it once, however many there are. -/
theorem identifier_append_separators (hne : s ≠ []) (h : ∀ c ∈ s, isSeparator c = true) :
    identifier (cs ++ s ++ ds) = identifier cs ++ identifier ds := by
  cases s with
  | nil => exact absurd rfl hne
  | cons c s =>
    rw [List.append_assoc, List.cons_append, identifier_append_separator (h c List.mem_cons_self),
      identifier_separators_append fun c hc => h c (List.mem_cons_of_mem _ hc)]

theorem identifier_append_of_separators (h : ∀ c ∈ s, isSeparator c = true) :
    identifier (cs ++ s) = identifier cs := by
  cases s with
  | nil => rw [List.append_nil]
  | cons c s =>
    have hcut : identifier (cs ++ c :: s ++ []) = identifier cs ++ identifier [] :=
      identifier_append_separators (List.cons_ne_nil c s) h
    rwa [List.append_nil, show identifier [] = [] from rfl, List.append_nil] at hcut

/-- The text is made of separators. -/
def IsSeparators (text : String) : Prop := ∀ c ∈ text.toList, isSeparator c = true

instance : DecidablePred IsSeparators := fun text =>
  decidable_of_iff (text.toList.all isSeparator = true) List.all_eq_true

/-- **What the identifier of an operation is.** A path and its normal form have one identifier, and so
have paths with one normal form. It is the method and the words of the path, each with a capital letter
in front, and so it is made of ASCII letters and digits. Separators in front of the path and behind
it make no difference, and neither does it matter which separators there are between two parts of it,
and how many. -/
theorem operationId_exact (m : Method) (path : String) :
    operationId m (normalForm path) = operationId m path
      ∧ (∀ other, normalForm path = normalForm other → operationId m path = operationId m other)
      ∧ (∃ ws, (∀ vs, Words (path.toList.filter isKept) vs ↔ vs = ws)
        ∧ (operationId m path).toList = m.upper.toList.map Char.toLower ++ ws.flatMap titled)
      ∧ (∀ c ∈ (operationId m path).toList, c.isAlphanum = true)
      ∧ (∀ before after, IsSeparators before → IsSeparators after →
        operationId m (before ++ path ++ after) = operationId m path)
      ∧ ∀ between between' rest, IsSeparators between → IsSeparators between' → between ≠ "" →
        between' ≠ "" →
        operationId m (path ++ between ++ rest) = operationId m (path ++ between' ++ rest) := by
  have hkept : ∀ c ∈ path.toList.filter isKept, isKept c = true := fun c hc =>
    (List.mem_filter.1 hc).2
  refine ⟨operationId_normalForm m path, fun other hsame => ?_, ⟨_, fun vs => words_iff hkept, ?_⟩,
    fun c hc => ?_, fun before after hbefore hafter => ?_,
    fun between between' rest hbetween hbetween' hne hne' => ?_⟩
  · rw [← operationId_normalForm m path, hsame, operationId_normalForm]
  · rw [operationId, String.toList_append, String.toList_ofList, toList_lower,
      identifier_eq_titled ((words_iff hkept).2 rfl)]
  · rw [operationId, String.toList_append, String.toList_ofList, List.mem_append] at hc
    exact hc.elim isAlphanum_of_mem_lower isAlphanum_of_mem_identifier
  · rw [operationId, String.toList_append, String.toList_append,
      identifier_append_of_separators hafter, identifier_separators_append hbefore, operationId]
  · have hcut : ∀ {text : String}, IsSeparators text → text ≠ "" →
        identifier (path ++ text ++ rest).toList
          = identifier path.toList ++ identifier rest.toList := by
      intro text hsep hne
      have hnil : text.toList ≠ [] := fun he => hne (String.toList_eq_nil_iff.1 he)
      rw [String.toList_append, String.toList_append, identifier_append_separators hnil hsep]
    rw [operationId, operationId, hcut hbetween hne, hcut hbetween' hne']

/-- However a user is asked for, the identifier is the same. -/
theorem operationId_exact_user :
    normalForm "/users/:id" = normalForm "/users/\x7bid\x7d"
      ∧ operationId .get "/users/:id" = operationId .get "/users/\x7bid\x7d"
      ∧ operationId .get "//users/:id/" = operationId .get "/users/:id"
      ∧ operationId .get "/users--:id" = operationId .get "/users/:id" := by
  have hexact := operationId_exact .get "/users/:id"
  have hsame : normalForm "/users/:id" = normalForm "/users/\x7bid\x7d" := by
    rw [Example.normalForm_parameter]
    exact (normalForm_of_not_mem (by decide)).symm
  refine ⟨hsame, hexact.2.1 _ hsame, hexact.2.2.2.2.1 "/" "/" (by decide) (by decide), ?_⟩
  exact (operationId_exact .get "/users").2.2.2.2.2 "--" "/" ":id" (by decide) (by decide)
    (by decide) (by decide)

end ApiAtlas.PathTemplate
