import Pokerhub.Core.Double
import Pokerhub.Core.Json

/-!
# Numbers in texts

`Number(text)` and `Number.parseFloat(text)`. A text that is no number, or one that is too large for
a double, has no value here. The digits that a natural number is written with are read back as this
number (`numeral_toDigits`).
-/

namespace Pokerhub

open List

/-- The double nearest to `x`, if `x` is not too large. -/
def roundDouble (x : ℚ) : Option ℚ :=
  let unit := max (ulp x) (2 ^ (-1074 : ℤ))
  let double := roundEven (x / unit) * unit
  if |double| < 2 ^ 1024 then some double else none

/-- `e`, a sign and digits; what has no digits is no exponent. -/
def readExponent (s : Text) : ℤ × Text :=
  if s.head? = some 'e' ∨ s.head? = some 'E' then
    let negative := s.tail.head? = some '-'
    let unsigned := if negative ∨ s.tail.head? = some '+' then s.tail.tail else s.tail
    let digits := unsigned.takeWhile Char.isDigit
    if digits = [] then (0, s)
    else (if negative then -Nat.ofDigitChars 10 digits 0 else Nat.ofDigitChars 10 digits 0,
      unsigned.drop digits.length)
  else (0, s)

/-- The decimal numeral that the text starts with, and the rest of the text. -/
def readDecimal (s : Text) : Option (ℚ × Text) :=
  let whole := s.takeWhile Char.isDigit
  let rest := s.drop whole.length
  let part := if rest.head? = some '.' then rest.tail.takeWhile Char.isDigit else []
  let rest' := if rest.head? = some '.' then rest.tail.drop part.length else rest
  if whole ++ part = [] then none
  else
    let exponent := readExponent rest'
    some (Nat.ofDigitChars 10 (whole ++ part) 0 * 10 ^ (exponent.1 - part.length), exponent.2)

def readSigned (s : Text) : Option (ℚ × Text) :=
  if s.head? = some '-' then (readDecimal s.tail).map fun r => (-r.1, r.2)
  else if s.head? = some '+' then readDecimal s.tail
  else readDecimal s

/-- The base that the letter after a `0` stands for. -/
def radix (c : Char) : Option ℕ :=
  if c ∈ ['x', 'X'] then some 16
  else if c ∈ ['o', 'O'] then some 8
  else if c ∈ ['b', 'B'] then some 2
  else none

/-- A numeral with a base. -/
def readRadix (s : Text) : Option ℕ := do
  let base ← s.tail.head?.bind radix
  let digits ← s.tail.tail.mapM Json.hexDigit
  if s.head? = some '0' ∧ digits ≠ [] ∧ ∀ d ∈ digits, d < base then
    some (digits.foldl (fun n d => base * n + d) 0)
  else none

/-- The number that the text is written for, before it is rounded. -/
def numeral (text : Text) : Option ℚ :=
  let s := Json.trim text
  if s = [] then some 0
  else
    match readRadix s with
    | some n => some n
    | none => (readSigned s).bind fun r => if r.2 = [] then some r.1 else none

/-- `Number(text)`. -/
def toNumber (text : Text) : Option ℚ :=
  (numeral text).bind roundDouble

def parseFloat (text : Text) : Option ℚ :=
  (readSigned (text.dropWhile Json.isWhitespace)).bind fun r => roundDouble r.1

/-! ### Digits are read back -/

lemma trim_toDigits (n : ℕ) : Json.trim (Nat.toDigits 10 n) = Nat.toDigits 10 n := by
  obtain ⟨⟨c, rest, hfirst, hc⟩, d, rest', hlast, hd⟩ := Json.edged_digits n
  have hkeep : (Nat.toDigits 10 n).dropWhile Json.isWhitespace = Nat.toDigits 10 n := by
    rw [hfirst, dropWhile_cons_of_neg (by simp [Json.not_isWhitespace_of_isEdge hc])]
  rw [Json.trim, hkeep, hlast,
    rdropWhile_concat_neg _ _ _ (by simp [Json.not_isWhitespace_of_isEdge hd])]

lemma isDigit_of_mem_toDigits {c : Char} {n : ℕ} (h : c ∈ Nat.toDigits 10 n) : c.isDigit = true :=
  Nat.isDigit_of_mem_toDigits (by decide) (by decide) h

lemma radix_of_isDigit {c : Char} (h : c.isDigit = true) : radix c = none := by
  have hletter : ∀ d ∈ ['x', 'X', 'o', 'O', 'b', 'B'], d.isDigit = false := by simp
  have hne : ∀ d ∈ ['x', 'X', 'o', 'O', 'b', 'B'], c ≠ d := by
    rintro d hd rfl
    rw [hletter c hd] at h
    cases h
  simp only [mem_cons, not_mem_nil, or_false, forall_eq_or_imp, forall_eq] at hne
  simp [radix, hne]

lemma readRadix_toDigits (n : ℕ) : readRadix (Nat.toDigits 10 n) = none := by
  have hnone : (Nat.toDigits 10 n).tail.head?.bind radix = none := by
    rcases htail : (Nat.toDigits 10 n).tail with _ | ⟨c, rest⟩
    · rfl
    · have hc : c ∈ Nat.toDigits 10 n := mem_of_mem_tail (htail ▸ mem_cons_self)
      exact radix_of_isDigit (isDigit_of_mem_toDigits hc)
  rw [readRadix, hnone]
  rfl

lemma readDecimal_toDigits (n : ℕ) : readDecimal (Nat.toDigits 10 n) = some ((n : ℚ), []) := by
  have hall : (Nat.toDigits 10 n).takeWhile Char.isDigit = Nat.toDigits 10 n :=
    takeWhile_eq_self_iff.mpr fun c hc => isDigit_of_mem_toDigits hc
  simp [readDecimal, readExponent, hall, Nat.toDigits_ne_nil, Nat.ofDigitChars_ten_toDigits]

lemma readSigned_toDigits (n : ℕ) : readSigned (Nat.toDigits 10 n) = some ((n : ℚ), []) := by
  have hsign : ∀ c, c.isDigit = false → (Nat.toDigits 10 n).head? ≠ some c := by
    intro c hc hhead
    rw [isDigit_of_mem_toDigits (mem_of_head? hhead)] at hc
    cases hc
  rw [readSigned, if_neg (hsign '-' rfl), if_neg (hsign '+' rfl), readDecimal_toDigits]

/-- What `String` writes for a natural number is a numeral for this number. -/
theorem numeral_toDigits (n : ℕ) : numeral (Nat.toDigits 10 n) = some (n : ℚ) := by
  unfold numeral
  simp only [trim_toDigits, Nat.toDigits_ne_nil, if_false, readRadix_toDigits,
    readSigned_toDigits, Option.bind_some, if_true]

end Pokerhub
