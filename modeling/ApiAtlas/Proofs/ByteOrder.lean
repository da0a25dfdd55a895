import Mathlib.Algebra.Group.Nat.Defs

/-!
# The order of bytes

Texts are compared by code point, and in UTF-8 this is the order of their bytes. Two texts part at a
letter, and the bytes of neither letter begin those of the other, so that all depends on the letters: of two
of them the one before the other has a smaller byte where their bytes first differ (`Below`).

A code point is written in digits to the base 64. The first byte holds the leading one and a mark that
grows with the number of digits behind it (`Layout`), hence of two code points with different numbers of
digits the first bytes differ as they should. If the numbers are the same, so are the marks, and then the
digits decide one after the other (`below_continuation`).
-/

namespace ApiAtlas.Text

open String (utf8EncodeChar)

/-- The bytes of a text in UTF-8. -/
def bytes (s : String) : List UInt8 := s.toUTF8.data.toList

/-! ## Where two lists of bytes first differ -/

/-- Neither list begins the other, and where they first differ the byte of the first one is smaller. -/
inductive Below : List UInt8 → List UInt8 → Prop where
  | here {x y : UInt8} {xs ys : List UInt8} : x < y → Below (x :: xs) (y :: ys)
  | later {x : UInt8} {xs ys : List UInt8} : Below xs ys → Below (x :: xs) (x :: ys)

namespace Below

variable {xs ys : List UInt8}

/-- What comes after the first difference is of no importance. -/
theorem append (h : Below xs ys) (s t : List UInt8) : Below (xs ++ s) (ys ++ t) := by
  induction h with
  | here hlt => exact .here hlt
  | later _ ih => exact .later ih

theorem append_left (s : List UInt8) (h : Below xs ys) : Below (s ++ xs) (s ++ ys) := by
  induction s with
  | nil => exact h
  | cons x s ih => exact .later ih

theorem lt (h : Below xs ys) : xs < ys := by
  induction h with
  | here hlt => exact .rel hlt
  | later _ ih => exact .cons ih

theorem ofNat {m n : Nat} (h : m < n) (hn : n < 256) :
    Below (.ofNat m :: xs) (.ofNat n :: ys) := by
  refine .here (UInt8.lt_iff_toNat_lt.2 ?_)
  rw [UInt8.toNat_ofNat', UInt8.toNat_ofNat']
  omega

end Below

/-! ## Letters -/

/-- The last digits of a number to the base 64, each in a byte that is marked as no first one. -/
def continuation : Nat → Nat → List UInt8
  | 0, _ => []
  | k + 1, v => continuation k (v / 64) ++ [.ofNat (v % 64 + 0x80)]

/-- The code points that are written with so many bytes behind the first one, and its mark. -/
inductive Layout : Nat → Nat → Nat → Prop where
  | one {v : Nat} : v < 0x80 → Layout 0 0 v
  | two {v : Nat} : 0x80 ≤ v → v < 0x800 → Layout 1 0xc0 v
  | three {v : Nat} : 0x800 ≤ v → v < 0x10000 → Layout 2 0xe0 v
  | four {v : Nat} : 0x10000 ≤ v → v < 0x110000 → Layout 3 0xf0 v

theorem toNat_lt (c : Char) : c.val.toNat < 0x110000 := by
  have hvalid := c.valid
  simp only [UInt32.isValidChar, Nat.isValidChar] at hvalid
  omega

/-- Every letter has one of the layouts. -/
theorem exists_layout (c : Char) : ∃ k mark, Layout k mark c.val.toNat
    ∧ utf8EncodeChar c = .ofNat (c.val.toNat / 64 ^ k + mark) :: continuation k c.val.toNat := by
  have hc := toNat_lt c
  unfold utf8EncodeChar
  generalize c.val.toNat = v at hc ⊢
  dsimp only
  split
  next h1 => exact ⟨0, 0, .one (by omega), by simp [continuation]⟩
  next h1 =>
    split
    next h2 =>
      have hdigit : v / 64 % 32 = v / 64 := Nat.mod_eq_of_lt (by omega)
      exact ⟨1, 0xc0, .two (by omega) (by omega), by simp [continuation, hdigit]⟩
    next h2 =>
      split
      next h3 =>
        have hdigit : v / 4096 % 16 = v / 4096 := Nat.mod_eq_of_lt (by omega)
        exact ⟨2, 0xe0, .three (by omega) (by omega), by simp [continuation, hdigit]⟩
      next h3 =>
        have hdigit : v / 262144 % 8 = v / 262144 := Nat.mod_eq_of_lt (by omega)
        exact ⟨3, 0xf0, .four (by omega) hc,
          by simp [continuation, hdigit, Nat.div_div_eq_div_mul]⟩

/-- The first bytes decide, or they are the same and so is all about the layouts. -/
theorem Layout.first_cases {k k' m m' v w : Nat} (hv : Layout k m v) (hw : Layout k' m' w)
    (h : v < w) : (v / 64 ^ k + m < w / 64 ^ k' + m' ∧ w / 64 ^ k' + m' < 256)
      ∨ (k = k' ∧ m = m' ∧ v / 64 ^ k = w / 64 ^ k') := by
  cases hv <;> cases hw <;> simp only [Nat.reducePow, true_and] <;> omega

/-- Where the leading digits are the same, the others decide. -/
theorem below_continuation {k v w : Nat} (h : v < w) (hsame : v / 64 ^ k = w / 64 ^ k) :
    Below (continuation k v) (continuation k w) := by
  induction k generalizing v w with
  | zero =>
    rw [Nat.pow_zero, Nat.div_one, Nat.div_one] at hsame
    omega
  | succ k ih =>
    have hdiv : ∀ u, u / 64 ^ (k + 1) = u / 64 / 64 ^ k := by
      intro u
      rw [Nat.div_div_eq_div_mul, Nat.pow_succ, Nat.mul_comm]
    rw [hdiv, hdiv] at hsame
    rw [continuation, continuation]
    by_cases hq : v / 64 = w / 64
    · -- only the last digits differ
      rw [hq]
      exact (Below.ofNat (by omega) (by omega)).append_left _
    · exact (ih (by omega) hsame).append _ _

theorem below_utf8EncodeChar {c d : Char} (h : c < d) :
    Below (utf8EncodeChar c) (utf8EncodeChar d) := by
  obtain ⟨k, m, hlayout, hc⟩ := exists_layout c
  obtain ⟨k', m', hlayout', hd⟩ := exists_layout d
  rw [hc, hd]
  rcases hlayout.first_cases hlayout' h with ⟨hlt, hbyte⟩ | ⟨rfl, rfl, hsame⟩
  · exact .ofNat hlt hbyte
  · rw [hsame]
    exact .later (below_continuation h hsame)

/-! ## Texts -/

theorem flatMap_utf8EncodeChar_lt {cs ds : List Char} (h : List.Lex (· < ·) cs ds) :
    cs.flatMap utf8EncodeChar < ds.flatMap utf8EncodeChar := by
  induction h with
  | @nil d ds =>
    obtain ⟨_, _, _, hd⟩ := exists_layout d
    rw [List.flatMap_cons, hd]
    exact List.nil_lt_cons _ _
  | rel hlt =>
    rw [List.flatMap_cons, List.flatMap_cons]
    exact ((below_utf8EncodeChar hlt).append _ _).lt
  | cons _ ih =>
    rw [List.flatMap_cons, List.flatMap_cons]
    exact List.append_left_lt ih

theorem bytes_eq (s : String) : bytes s = s.toList.flatMap utf8EncodeChar := by
  rw [bytes, String.toUTF8_eq_toByteArray, ← String.utf8Encode_toList, List.utf8Encode]
  simp

/-- **A text before another one is before it by its bytes.** -/
theorem bytes_lt {s t : String} (h : s < t) : bytes s < bytes t := by
  rw [bytes_eq, bytes_eq]
  exact flatMap_utf8EncodeChar_lt h

/-- Letters of one, two, three and four bytes. -/
example : bytes "A" < bytes "é" ∧ bytes "é" < bytes "€" ∧ bytes "€" < bytes "😀" := by
  refine ⟨bytes_lt ?_, bytes_lt ?_, bytes_lt ?_⟩ <;> decide

end ApiAtlas.Text
