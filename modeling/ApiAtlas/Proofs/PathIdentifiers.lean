import ApiAtlas.Proofs.Letters
import ApiAtlas.Proofs.NormalForms

/-!
# What an identifier tells of a path

An identifier is made in four passes over a path, which come to one (`identifier_eq`): it is made of
the words of the path, its pieces without all that is neither an ASCII letter nor a digit
(`letters`). Separators say where a word begins and all other characters are lost, so a path, its
normal form and the path without its braces have one identifier (`identifier_braced`,
`identifier_eq_of_unbraced`).

The capital letters of an identifier say where its words begin, provided that no word has a capital
letter, or a digit in front, of its own. Words of this kind (`PlainWord`) can be read back
(`flatMap_capitalize_injective`). So of paths that are made of them, bare or in braces, the
identifier loses the braces and nothing else (`identifier_eq_iff_of_plainPath`).
-/

namespace ApiAtlas.PathTemplate

/-! ## The characters that matter -/

/-- The characters that separate the pieces of an identifier. -/
def isSeparator (c : Char) : Bool := c = '/' || c = '-' || c = '_'

/-- Separators, and ASCII letters and digits. -/
def isKept (c : Char) : Bool := isSeparator c || c.isAlphanum

theorem isAlphanum_of_isSeparator {c : Char} (h : isSeparator c = true) : c.isAlphanum = false := by
  simp only [isSeparator, Bool.or_eq_true, decide_eq_true_eq] at h
  rcases h with (rfl | rfl) | rfl
  · decide
  · decide
  · decide

/-- The pieces of a path, with their ASCII letters and digits only. -/
def letters (cs : List Char) : List (List Char) :=
  (cs.splitOnP isSeparator).map fun piece => piece.filter Char.isAlphanum

/-- A separator begins a word, a letter or digit is added to the first one, and no other character
leaves a trace. -/
theorem letters_cons (c : Char) (cs : List Char) :
    letters (c :: cs) = if isSeparator c then [] :: letters cs
      else if c.isAlphanum then (letters cs).modifyHead (c :: ·) else letters cs := by
  unfold letters
  rw [List.splitOnP_cons_eq_if_modifyHead]
  by_cases hsep : isSeparator c = true
  · simp [hsep]
  · obtain ⟨first, rest, hpieces⟩ :=
      List.exists_cons_of_ne_nil (List.splitOnP_ne_nil isSeparator cs)
    rw [if_neg hsep, if_neg hsep, hpieces]
    by_cases hc : c.isAlphanum = true
    · simp [hc]
    · simp [hc]

/-- The words are a matter of the characters that matter. -/
theorem letters_filter_isKept (cs : List Char) : letters (cs.filter isKept) = letters cs := by
  induction cs with
  | nil => rfl
  | cons c rest ih =>
    by_cases hc : isKept c = true
    · rw [List.filter_cons_of_pos hc, letters_cons, letters_cons, ih]
    · have hlost : isSeparator c = false ∧ c.isAlphanum = false := by simpa [isKept] using hc
      rw [List.filter_cons_of_neg hc, letters_cons, ih, hlost.1, hlost.2]
      simp

theorem letters_congr {cs ds : List Char} (h : cs.filter isKept = ds.filter isKept) :
    letters cs = letters ds := by
  rw [← letters_filter_isKept cs, h, letters_filter_isKept]

/-! ## One pass for four -/

/-- To write all separators as underscores, to delete what does not matter and to split at the
underscores is to split at the separators and to delete the rest. -/
theorem splitOnP_cleaned (cs : List Char) :
    (cleaned (underscored cs)).splitOnP (· = '_') = letters cs := by
  induction cs with
  | nil => rfl
  | cons c rest ih =>
    have hcons : cleaned (underscored (c :: rest))
        = if isSeparator c then '_' :: cleaned (underscored rest)
          else if c.isAlphanum then c :: cleaned (underscored rest)
          else cleaned (underscored rest) := by
      by_cases hsep : c = '/' ∨ c = '-'
      · rcases hsep with rfl | rfl <;> simp [cleaned, underscored, isSeparator]
      · have hslash : c ≠ '/' := fun h => hsep (.inl h)
        have hhyphen : c ≠ '-' := fun h => hsep (.inr h)
        by_cases hunderscore : c = '_'
        · simp [cleaned, underscored, isSeparator, hunderscore]
        · by_cases hc : c.isAlphanum = true
          · simp [cleaned, underscored, isSeparator, hslash, hhyphen, hunderscore, hc]
          · simp [cleaned, underscored, isSeparator, hslash, hhyphen, hunderscore, hc]
    rw [hcons, letters_cons]
    by_cases hsep : isSeparator c = true
    · rw [if_pos hsep, if_pos hsep, List.splitOnP_cons_eq_if_modifyHead, ih]
      simp
    · rw [if_neg hsep, if_neg hsep]
      by_cases hc : c.isAlphanum = true
      · have hunderscore : c ≠ '_' := by
          rintro rfl
          exact absurd hc (by decide)
        rw [if_pos hc, if_pos hc, List.splitOnP_cons_eq_if_modifyHead, ih]
        simp [hunderscore]
      · rw [if_neg hc, if_neg hc, ih]

/-- What is cut off in front and behind are separators. -/
theorem exists_trimmed (cs : List Char) : ∃ front back, cs = front ++ trimmed cs ++ back
    ∧ (∀ c ∈ front, c = '_') ∧ ∀ c ∈ back, c = '_' := by
  refine ⟨cs.takeWhile (· = '_'), ((cs.dropWhile (· = '_')).reverse.takeWhile (· = '_')).reverse,
    ?_, fun c hc => by simpa using List.all_eq_true.1 List.all_takeWhile c hc, fun c hc => ?_⟩
  · rw [List.append_assoc, trimmed, ← List.reverse_append, List.takeWhile_append_dropWhile,
      List.reverse_reverse, List.takeWhile_append_dropWhile]
  · simpa using List.all_eq_true.1 List.all_takeWhile c (List.mem_reverse.1 hc)

section Pieces

variable {f : List Char → List Char} (hf : f [] = [])

include hf

/-- Empty pieces come to nothing, so underscores in front make no difference. -/
theorem flatMap_splitOnP_append {front : List Char} (h : ∀ c ∈ front, c = '_') (cs : List Char) :
    ((front ++ cs).splitOnP (· = '_')).flatMap f = (cs.splitOnP (· = '_')).flatMap f := by
  induction front with
  | nil => rfl
  | cons c front ih =>
    rw [List.cons_append, List.splitOnP_cons_eq_if_modifyHead, if_pos (by simpa using h c (by simp)),
      List.flatMap_cons, hf, List.nil_append, ih fun c hc => h c (List.mem_cons_of_mem _ hc)]

/-- Nor do underscores behind. -/
theorem flatMap_splitOnP_append_right {back : List Char} (h : ∀ c ∈ back, c = '_')
    (cs : List Char) :
    ((cs ++ back).splitOnP (· = '_')).flatMap f = (cs.splitOnP (· = '_')).flatMap f := by
  cases back with
  | nil => rw [List.append_nil]
  | cons c back =>
    have hback := flatMap_splitOnP_append hf (fun c hc => h c (List.mem_cons_of_mem _ hc)) []
    rw [List.append_nil] at hback
    rw [List.splitOnP_append_cons cs back (by simpa using h c (by simp)), List.flatMap_append, hback]
    simp [hf]

theorem flatMap_splitOnP_trimmed (cs : List Char) :
    ((trimmed cs).splitOnP (· = '_')).flatMap f = (cs.splitOnP (· = '_')).flatMap f := by
  obtain ⟨front, back, hcs, hfront, hback⟩ := exists_trimmed cs
  calc ((trimmed cs).splitOnP (· = '_')).flatMap f
      = ((front ++ trimmed cs ++ back).splitOnP (· = '_')).flatMap f := by
        rw [flatMap_splitOnP_append_right hf hback, flatMap_splitOnP_append hf hfront]
    _ = (cs.splitOnP (· = '_')).flatMap f := by rw [← hcs]

end Pieces

/-- A word with its first letter in upper case, for a word in ASCII. -/
def capitalize : List Char → List Char
  | [] => []
  | c :: rest => c.toUpper :: rest

/-- Of a word in ASCII the first letter has one capital letter, which is an ASCII letter. -/
theorem titled_eq_capitalize {w : List Char} (h : ∀ c ∈ w, c.isAlphanum = true) :
    titled w = capitalize w := by
  cases w with
  | nil => rfl
  | cons c rest =>
    have hascii := toNat_lt_of_isAlphanum (h c List.mem_cons_self)
    simp [titled, capitalize, Text.uppercaseChar_of_ascii hascii]

theorem isAlphanum_of_mem_letters {cs w : List Char} (h : w ∈ letters cs) :
    ∀ c ∈ w, c.isAlphanum = true := by
  obtain ⟨piece, _, rfl⟩ := List.mem_map.1 h
  exact fun c hc => (List.mem_filter.1 hc).2

/-- **An identifier is made in one pass:** of the pieces between separators, with their letters and
digits only. -/
theorem identifier_eq (cs : List Char) : identifier cs = (letters cs).flatMap capitalize := by
  have htitled : (letters cs).map titled = (letters cs).map capitalize :=
    List.map_congr_left fun w hw => titled_eq_capitalize (isAlphanum_of_mem_letters hw)
  rw [identifier, flatMap_splitOnP_trimmed rfl, splitOnP_cleaned, List.flatMap_def, htitled,
    ← List.flatMap_def]

theorem identifier_congr {cs ds : List Char} (h : cs.filter isKept = ds.filter isKept) :
    identifier cs = identifier ds := by
  rw [identifier_eq, identifier_eq, letters_congr h]

/-! ## Braces -/

/-- Braces around a parameter and the colon before it are lost alike. -/
theorem Scan.filter_isKept {cs out : List Char} (h : Scan cs out) :
    out.filter isKept = cs.filter isKept := by
  induction h with
  | done => rfl
  | parameter _ _ ih =>
    rw [List.filter_cons_of_pos (by decide), List.filter_cons_of_neg (by decide),
      List.filter_append, List.filter_cons_of_neg (by decide), ih, ← List.filter_append,
      List.filter_cons_of_pos (by decide), List.filter_cons_of_neg (by decide)]
  | copied _ _ ih => rw [List.filter_cons, List.filter_cons, ih]

/-- **A path and its normal form have one identifier.** -/
theorem identifier_braced (cs : List Char) : identifier (braced cs) = identifier cs :=
  identifier_congr (scan_braced cs).filter_isKept

theorem operationId_normalForm (m : Method) (path : String) :
    operationId m (normalForm path) = operationId m path := by
  rw [operationId, operationId, toList_normalForm, identifier_braced]

/-- A template without the braces of its parameters. -/
def unbraced (cs : List Char) : List Char := cs.filter fun c => c ≠ '\x7b' && c ≠ '\x7d'

theorem filter_isKept_unbraced (cs : List Char) :
    (unbraced cs).filter isKept = cs.filter isKept := by
  rw [unbraced, List.filter_filter]
  refine List.filter_congr fun c _ => ?_
  by_cases hc : isKept c = true
  · have hopen : c ≠ '\x7b' := fun h => absurd (h ▸ hc) (by decide)
    have hclose : c ≠ '\x7d' := fun h => absurd (h ▸ hc) (by decide)
    simp [hc, hopen, hclose]
  · simp [hc]

/-- Paths that are the same but for braces have one identifier. -/
theorem identifier_eq_of_unbraced {cs ds : List Char} (h : unbraced cs = unbraced ds) :
    identifier cs = identifier ds := by
  refine identifier_congr ?_
  rw [← filter_isKept_unbraced cs, h, filter_isKept_unbraced]

/-! ## Words that can be read back -/

/-- A small letter, then small letters and digits. -/
def PlainWord : List Char → Prop
  | [] => False
  | c :: rest => c.isLower = true ∧ ∀ x ∈ rest, x.isLower = true ∨ x.isDigit = true

instance : DecidablePred PlainWord
  | [] => isFalse id
  | c :: rest =>
    decidable_of_iff (c.isLower = true ∧ (rest.all fun x => x.isLower || x.isDigit) = true)
      (by simp [PlainWord])

/-- A path that is made of plain words, each after a slash, once its braces are gone. -/
def PlainPath (cs : List Char) : Prop :=
  ∃ ws : List (List Char), (∀ w ∈ ws, PlainWord w) ∧ unbraced cs = ws.flatMap ('/' :: ·)

theorem PlainWord.isAlphanum {w : List Char} (h : PlainWord w) : ∀ x ∈ w, x.isAlphanum = true := by
  cases w with
  | nil => cases h
  | cons c rest =>
    obtain ⟨hc, hrest⟩ := h
    intro x hx
    rcases List.mem_cons.1 hx with rfl | hx
    · exact isAlphanum_of_isLower hc
    · exact (hrest x hx).elim isAlphanum_of_isLower isAlphanum_of_isDigit

/-! ### Capital letters -/

theorem toUpper_injective {c d : Char} (hc : c.isLower = true) (hd : d.isLower = true)
    (h : c.toUpper = d.toUpper) : c = d := by
  have hcn := toNat_toUpper hc
  have hdn := toNat_toUpper hd
  rw [h] at hcn
  exact Char.ext (UInt32.toNat_inj.1 (by omega))

/-- What follows a word is nothing, or begins with a capital letter. -/
theorem takeWhile_words {rest : List Char} {ws : List (List Char)}
    (hrest : ∀ x ∈ rest, x.isLower = true ∨ x.isDigit = true) (hws : ∀ w ∈ ws, PlainWord w) :
    (rest ++ ws.flatMap capitalize).takeWhile (fun x => !x.isUpper) = rest := by
  have hall : ∀ x ∈ rest, (!x.isUpper) = true := by
    intro x hx
    rw [isUpper_of_plain (hrest x hx)]
    rfl
  rw [List.takeWhile_append_of_pos hall]
  cases ws with
  | nil => simp
  | cons w ws =>
    have hw := hws w List.mem_cons_self
    cases w with
    | nil => cases hw
    | cons c w => simp [capitalize, isUpper_toUpper hw.1]

/-- **Plain words can be read back.** Each begins at a capital letter and goes on up to the next. -/
theorem flatMap_capitalize_injective {ws vs : List (List Char)} (hws : ∀ w ∈ ws, PlainWord w)
    (hvs : ∀ v ∈ vs, PlainWord v) (h : ws.flatMap capitalize = vs.flatMap capitalize) :
    ws = vs := by
  induction ws generalizing vs with
  | nil =>
    cases vs with
    | nil => rfl
    | cons v vs =>
      have hv := hvs v List.mem_cons_self
      cases v with
      | nil => cases hv
      | cons d v => cases h
  | cons w ws ih =>
    have hw := hws w List.mem_cons_self
    have hws' : ∀ w ∈ ws, PlainWord w := fun w hw => hws w (List.mem_cons_of_mem _ hw)
    cases w with
    | nil => cases hw
    | cons c w =>
      cases vs with
      | nil => cases h
      | cons v vs =>
        have hv := hvs v List.mem_cons_self
        have hvs' : ∀ v ∈ vs, PlainWord v := fun v hv => hvs v (List.mem_cons_of_mem _ hv)
        cases v with
        | nil => cases hv
        | cons d v =>
          rw [List.flatMap_cons, List.flatMap_cons] at h
          have hfirst : c.toUpper = d.toUpper := (List.cons.inj h).1
          have htail : w ++ ws.flatMap capitalize = v ++ vs.flatMap capitalize :=
            (List.cons.inj h).2
          have hcd := toUpper_injective hw.1 hv.1 hfirst
          have hword : w = v := by
            have hread := congrArg (List.takeWhile fun x => !x.isUpper) htail
            rwa [takeWhile_words hw.2 hws', takeWhile_words hv.2 hvs'] at hread
          rw [hcd, hword, ih hws' hvs' (List.append_cancel_left (hword ▸ htail))]

/-! ### Plain paths -/

theorem letters_append {w : List Char} (hw : ∀ x ∈ w, x.isAlphanum = true) (cs : List Char) :
    letters (w ++ cs) = (letters cs).modifyHead (w ++ ·) := by
  induction w with
  | nil =>
    cases hcs : letters cs with
    | nil => rw [List.nil_append, hcs]; rfl
    | cons first rest => rw [List.nil_append, hcs]; rfl
  | cons c w ih =>
    have hc := hw c List.mem_cons_self
    have hsep : isSeparator c = false := by
      cases h : isSeparator c with
      | false => rfl
      | true => rw [isAlphanum_of_isSeparator h] at hc; cases hc
    rw [List.cons_append, letters_cons, hsep, hc, ih fun x hx => hw x (List.mem_cons_of_mem _ hx)]
    simp only [Bool.false_eq_true, if_false, if_true]
    cases letters cs with
    | nil => rfl
    | cons first rest => rfl

/-- The words of a path that is made of words are these words. -/
theorem letters_flatMap {ws : List (List Char)} (hws : ∀ w ∈ ws, PlainWord w) :
    letters (ws.flatMap ('/' :: ·)) = [] :: ws := by
  induction ws with
  | nil => rfl
  | cons w ws ih =>
    have hslash : isSeparator '/' = true := by decide
    rw [List.flatMap_cons, List.cons_append, letters_cons, if_pos hslash,
      letters_append (hws w List.mem_cons_self).isAlphanum,
      ih fun w hw => hws w (List.mem_cons_of_mem _ hw)]
    simp

theorem identifier_of_words {cs : List Char} {ws : List (List Char)}
    (hws : ∀ w ∈ ws, PlainWord w) (h : unbraced cs = ws.flatMap ('/' :: ·)) :
    identifier cs = ws.flatMap capitalize := by
  rw [identifier_eq, letters_congr (filter_isKept_unbraced cs).symm, h, letters_flatMap hws]
  rfl

/-- **Of plain paths the identifier loses the braces and nothing else.** -/
theorem identifier_eq_iff_of_plainPath {cs ds : List Char} (hcs : PlainPath cs)
    (hds : PlainPath ds) : identifier cs = identifier ds ↔ unbraced cs = unbraced ds := by
  constructor
  · intro h
    obtain ⟨ws, hws, hcs⟩ := hcs
    obtain ⟨vs, hvs, hds⟩ := hds
    rw [identifier_of_words hws hcs, identifier_of_words hvs hds] at h
    rw [hcs, hds, flatMap_capitalize_injective hws hvs h]
  · exact identifier_eq_of_unbraced

/-! ## Methods -/

/-- No name of a method begins with the name of another one. -/
theorem eq_of_isPrefix_lower {m n : Method} (h : m.lower.toList <+: n.lower.toList) : m = n := by
  revert h
  cases m <;> cases n <;> decide

/-- **Which methods and paths share an identifier.** -/
theorem operationId_eq_iff {m n : Method} {p q : String} :
    operationId m p = operationId n q
      ↔ m = n ∧ identifier p.toList = identifier q.toList := by
  constructor
  · intro h
    have hchars : m.lower.toList ++ identifier p.toList
        = n.lower.toList ++ identifier q.toList := by
      have hboth := congrArg String.toList h
      simpa [operationId, String.toList_append] using hboth
    have hmn : m = n := by
      have hprefix : m.lower.toList <+: n.lower.toList ++ identifier q.toList :=
        ⟨identifier p.toList, hchars⟩
      rcases List.prefix_or_prefix_of_prefix hprefix (List.prefix_append _ _) with hm | hn
      · exact eq_of_isPrefix_lower hm
      · exact (eq_of_isPrefix_lower hn).symm
    subst hmn
    exact ⟨rfl, List.append_cancel_left hchars⟩
  · rintro ⟨rfl, h⟩
    rw [operationId, operationId, h]

end ApiAtlas.PathTemplate
