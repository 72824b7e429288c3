import Mathlib.Algebra.Order.Ring.Int
import Mathlib.Data.List.DropRight

/-!
# JSON texts

The values that `JSON.stringify` writes, with integers as the numbers, and the parser of their
texts. In an array `undefined` is written as `null`, in an object it is left out; apart from this a
text is read back as the value it was written from (`Json.parse_stringify`). A text is on one line,
so a file with one text a line has these texts as its lines (`Json.lines_file`).
-/

/-- A text, character by character. -/
abbrev Text := List Char

inductive Json where
  | undefined
  | null
  | bool (b : Bool)
  | number (n : ℤ)
  | string (s : String)
  | array (xs : List Json)
  | object (members : List (String × Json))

namespace Json

open List

/-! ### Properties -/

/-- `x[i]`, where `x` is neither `undefined` nor `null`. -/
def index (i : ℕ) : Json → Json
  | array xs => xs.getD i undefined
  | _ => undefined

/-- `x.key`, where `x` is neither `undefined` nor `null`. -/
def get (key : String) : Json → Json
  | object members => (members.lookup key).getD undefined
  | _ => undefined

def isNullish : Json → Bool
  | undefined => true
  | null => true
  | _ => false

def truthy : Json → Bool
  | undefined => false
  | null => false
  | bool b => b
  | number n => n ≠ 0
  | string s => s ≠ ""
  | array _ => true
  | object _ => true

/-! ### Writing -/

def quotationMark : Char := Char.ofNat 34

def backslash : Char := Char.ofNat 92

/-- A character between quotation marks. -/
def escape (c : Char) : Text :=
  if c = quotationMark ∨ c = backslash then [backslash, c]
  else if c = Char.ofNat 8 then [backslash, 'b']
  else if c = Char.ofNat 9 then [backslash, 't']
  else if c = Char.ofNat 10 then [backslash, 'n']
  else if c = Char.ofNat 12 then [backslash, 'f']
  else if c = Char.ofNat 13 then [backslash, 'r']
  else if c.toNat < 32 then
    [backslash, 'u', '0', '0', (c.toNat / 16).digitChar, (c.toNat % 16).digitChar]
  else [c]

def quote (s : String) : Text :=
  quotationMark :: (s.toList.flatMap escape ++ [quotationMark])

def writeNumber (n : ℤ) : Text :=
  if n < 0 then '-' :: Nat.toDigits 10 n.natAbs else Nat.toDigits 10 n.natAbs

def commas (texts : List Text) : Text :=
  [','].intercalate texts

mutual

def stringify : Json → Text
  | undefined => ['n', 'u', 'l', 'l']
  | null => ['n', 'u', 'l', 'l']
  | bool true => ['t', 'r', 'u', 'e']
  | bool false => ['f', 'a', 'l', 's', 'e']
  | number n => writeNumber n
  | string s => quote s
  | array xs => '[' :: (commas (elementTexts xs) ++ [']'])
  | object members => '{' :: (commas (memberTexts members) ++ ['}'])

def elementTexts : List Json → List Text
  | [] => []
  | x :: xs => stringify x :: elementTexts xs

def memberTexts : List (String × Json) → List Text
  | [] => []
  | (_, undefined) :: members => memberTexts members
  | (key, value) :: members => (quote key ++ ':' :: stringify value) :: memberTexts members

end

mutual

/-- What of a value is in its text. -/
def written : Json → Json
  | undefined => null
  | null => null
  | bool b => bool b
  | number n => number n
  | string s => string s
  | array xs => array (writtenElements xs)
  | object members => object (writtenMembers members)

def writtenElements : List Json → List Json
  | [] => []
  | x :: xs => written x :: writtenElements xs

def writtenMembers : List (String × Json) → List (String × Json)
  | [] => []
  | (_, undefined) :: members => writtenMembers members
  | (key, value) :: members => (key, written value) :: writtenMembers members

end

/-! ### Reading -/

def isSpace (c : Char) : Bool :=
  c = ' ' || c = Char.ofNat 9 || c = Char.ofNat 10 || c = Char.ofNat 13

def skip (s : Text) : Text :=
  s.dropWhile isSpace

def keyword (word : Text) (value : Json) (s : Text) : Option (Json × Text) :=
  if word <+: s then some (value, s.drop word.length) else none

def hexDigit (c : Char) : Option ℕ :=
  if c.isDigit then some (c.toNat - 48)
  else if 97 ≤ c.toNat ∧ c.toNat ≤ 102 then some (c.toNat - 87)
  else if 65 ≤ c.toNat ∧ c.toNat ≤ 70 then some (c.toNat - 55)
  else none

/-- The character of a `\u` escape; a lone surrogate is none. -/
def codeUnit (a b c d : Char) : Option Char := do
  let a ← hexDigit a
  let b ← hexDigit b
  let c ← hexDigit c
  let d ← hexDigit d
  let code := 16 * (16 * (16 * a + b) + c) + d
  if 0xd800 ≤ code ∧ code < 0xe000 then none else some (Char.ofNat code)

def unescape (c : Char) : Option Char :=
  if c = quotationMark ∨ c = backslash ∨ c = '/' then some c
  else if c = 'b' then some (Char.ofNat 8)
  else if c = 't' then some (Char.ofNat 9)
  else if c = 'n' then some (Char.ofNat 10)
  else if c = 'f' then some (Char.ofNat 12)
  else if c = 'r' then some (Char.ofNat 13)
  else none

/-- The rest of a string, after its first quotation mark. -/
def readString : Text → Option (Text × Text)
  | [] => none
  | c :: s =>
    if c = quotationMark then some ([], s)
    else if c = backslash then
      match s with
      | 'u' :: a :: b :: c :: d :: s =>
        (codeUnit a b c d).bind fun x => (readString s).map fun r => (x :: r.1, r.2)
      | c :: s => (unescape c).bind fun x => (readString s).map fun r => (x :: r.1, r.2)
      | [] => none
    else if c.toNat < 32 then none
    else (readString s).map fun r => (c :: r.1, r.2)

def readNumber (s : Text) : Option (Json × Text) :=
  let negative := s.head? = some '-'
  let digits := (if negative then s.tail else s).takeWhile Char.isDigit
  let n := (Nat.ofDigitChars 10 digits 0 : ℤ)
  if digits = [] then none
  else some (number (if negative then -n else n), (if negative then s.tail else s).drop digits.length)

section Items

variable {β : Type} (item : Text → Option (β × Text)) (close : Char)

/-- Items with commas between them, up to the closing bracket. -/
def readItems : ℕ → Text → Option (List β × Text)
  | 0, _ => none
  | n + 1, s =>
    match item s with
    | none => none
    | some (x, s) =>
      match skip s with
      | [] => none
      | c :: s =>
        if c = ',' then (readItems n s).map fun r => (x :: r.1, r.2)
        else if c = close then some ([x], s)
        else none

def readList (s : Text) : Option (List β × Text) :=
  match skip s with
  | [] => none
  | c :: rest => if c = close then some ([], rest) else readItems item close (s.length + 1) s

/-- A key, a colon and an item. -/
def readMember (s : Text) : Option ((String × β) × Text) :=
  match skip s with
  | [] => none
  | c :: s =>
    if c = quotationMark then
      (readString s).bind fun key =>
        match skip key.2 with
        | [] => none
        | c :: s =>
          if c = ':' then (item s).map fun r => ((String.ofList key.1, r.1), r.2) else none
    else none

end Items

/-- A value at the start of a text, nested less than `n` times. -/
def readValue : ℕ → Text → Option (Json × Text)
  | 0, _ => none
  | n + 1, s =>
    match skip s with
    | [] => none
    | c :: s =>
      if c = 'n' then keyword ['u', 'l', 'l'] null s
      else if c = 't' then keyword ['r', 'u', 'e'] (bool true) s
      else if c = 'f' then keyword ['a', 'l', 's', 'e'] (bool false) s
      else if c = quotationMark then (readString s).map fun r => (string (String.ofList r.1), r.2)
      else if c = '[' then (readList (readValue n) ']' s).map fun r => (array r.1, r.2)
      else if c = '{' then
        (readList (readMember (readValue n)) '}' s).map fun r => (object r.1, r.2)
      else readNumber (c :: s)

def parse (s : Text) : Option Json :=
  (readValue (s.length + 1) s).bind fun r => if skip r.2 = [] then some r.1 else none

/-! ### Strings and numbers -/

lemma hexDigit_digitChar : ∀ n < 16, hexDigit (Nat.digitChar n) = some n := by
  decide

lemma codeUnit_control {c : Char} (h : c.toNat < 32) :
    codeUnit '0' '0' (c.toNat / 16).digitChar (c.toNat % 16).digitChar = some c := by
  have hzero : hexDigit '0' = some 0 := by decide
  have hcode : 16 * (16 * (16 * 0 + 0) + c.toNat / 16) + c.toNat % 16 = c.toNat := by omega
  simp only [codeUnit, hzero, hexDigit_digitChar _ (show c.toNat / 16 < 16 by omega),
    hexDigit_digitChar _ (show c.toNat % 16 < 16 by omega), Option.bind_eq_bind, Option.bind_some,
    hcode]
  rw [if_neg (by omega), Char.ofNat_toNat]

lemma readString_of_ne {c : Char} (s : Text) (hquote : c ≠ quotationMark)
    (hslash : c ≠ backslash) (hcontrol : ¬ c.toNat < 32) :
    readString (c :: s) = (readString s).map fun r => (c :: r.1, r.2) := by
  rw [readString.eq_def]
  simp only [if_neg hquote, if_neg hslash, if_neg hcontrol]

lemma readString_backslash {c x : Char} (s : Text) (hu : c ≠ 'u') (hx : unescape c = some x) :
    readString (backslash :: c :: s) = (readString s).map fun r => (x :: r.1, r.2) := by
  rw [readString.eq_def]
  simp only [show backslash ≠ quotationMark by decide, if_false, if_true]
  split
  · rename_i heq
    cases heq
    exact absurd rfl hu
  · rename_i heq
    cases heq
    rw [hx, Option.bind_some]
  · rename_i heq
    cases heq

/-- A character is read back from its escape. -/
lemma readString_escape (c : Char) (s : Text) :
    readString (escape c ++ s) = (readString s).map fun r => (c :: r.1, r.2) := by
  unfold escape
  split_ifs with hself hb ht hn hf hr hcontrol
  · refine readString_backslash s ?_ (by rw [unescape, if_pos (by tauto)])
    rintro rfl
    revert hself
    decide
  · subst hb
    exact readString_backslash s (by decide) (by decide)
  · subst ht
    exact readString_backslash s (by decide) (by decide)
  · subst hn
    exact readString_backslash s (by decide) (by decide)
  · subst hf
    exact readString_backslash s (by decide) (by decide)
  · subst hr
    exact readString_backslash s (by decide) (by decide)
  · rw [cons_append, readString.eq_def]
    simp only [show backslash ≠ quotationMark by decide, if_false, if_true, cons_append,
      nil_append, codeUnit_control hcontrol, Option.bind_some]
  · rw [not_or] at hself
    exact readString_of_ne s hself.1 hself.2 hcontrol

lemma readString_quote (cs s : Text) :
    readString (cs.flatMap escape ++ quotationMark :: s) = some (cs, s) := by
  induction cs with
  | nil =>
    rw [flatMap_nil, nil_append, readString.eq_def]
    simp only [if_true]
  | cons c cs ih =>
    rw [flatMap_cons, append_assoc, readString_escape, ih]
    rfl

/-- The text does not go on with a digit. -/
def Stops (s : Text) : Prop :=
  ∀ c ∈ s.head?, c.isDigit = false

lemma readNumber_write (n : ℤ) {s : Text} (h : Stops s) :
    readNumber (writeNumber n ++ s) = some (number n, s) := by
  have hdigits : ∀ m, (Nat.toDigits 10 m ++ s).takeWhile Char.isDigit = Nat.toDigits 10 m := by
    intro m
    rw [takeWhile_append_of_pos fun c hc =>
      Nat.isDigit_of_mem_toDigits (by decide) (by decide) hc]
    cases s with
    | nil => simp
    | cons c s => simp [h c rfl]
  unfold writeNumber
  split_ifs with hneg
  · simp only [readNumber, cons_append, head?_cons, if_true, tail_cons, hdigits,
      Nat.toDigits_ne_nil, if_false, Nat.ofDigitChars_ten_toDigits, drop_left]
    rw [Int.ofNat_natAbs_of_nonpos hneg.le, neg_neg]
  · have hhead : (Nat.toDigits 10 n.natAbs ++ s).head? ≠ some '-' := by
      cases hcs : Nat.toDigits 10 n.natAbs with
      | nil => exact absurd hcs Nat.toDigits_ne_nil
      | cons c cs =>
        rintro hc
        rw [cons_append, head?_cons, Option.some.injEq] at hc
        have hdigit := Nat.isDigit_of_mem_toDigits (b := 10) (n := n.natAbs) (c := c) (by decide)
          (by decide) (by rw [hcs]; exact mem_cons_self)
        rw [hc] at hdigit
        exact absurd hdigit (by decide)
    simp only [readNumber, if_neg hhead, hdigits,
      Nat.toDigits_ne_nil, if_false, Nat.ofDigitChars_ten_toDigits, drop_left]
    rw [Int.natAbs_of_nonneg (not_lt.mp hneg)]

/-! ### Lists -/

@[simp] lemma commas_nil : commas [] = [] := rfl

@[simp] lemma commas_singleton (text : Text) : commas [text] = text := by
  simp [commas]

@[simp] lemma commas_cons_cons (text text' : Text) (texts : List Text) :
    commas (text :: text' :: texts) = text ++ ',' :: commas (text' :: texts) := by
  simp [commas, intercalate_cons_cons]

lemma length_le_commas {text : Text} {texts : List Text} (h : text ∈ texts) :
    text.length ≤ (commas texts).length := by
  induction texts with
  | nil => cases h
  | cons text₁ texts ih =>
    cases texts with
    | nil => rw [mem_singleton.mp h, commas_singleton]
    | cons text₂ texts =>
      rw [commas_cons_cons, length_append, length_cons]
      rcases mem_cons.mp h with rfl | h
      · omega
      · have := ih h
        omega

lemma length_le_length_commas {texts : List Text} (h : ∀ text ∈ texts, text ≠ []) :
    texts.length ≤ (commas texts).length := by
  induction texts with
  | nil => exact le_rfl
  | cons text₁ texts ih =>
    have hpos := length_pos_iff.mpr (h text₁ mem_cons_self)
    cases texts with
    | nil =>
      rw [commas_singleton]
      exact hpos
    | cons text₂ texts =>
      have := ih fun text ht => h text (mem_cons_of_mem _ ht)
      rw [commas_cons_cons, length_append]
      simp only [length_cons] at this ⊢
      omega

/-- The text starts with a character that is neither space nor a closing bracket. -/
def Opens (text : Text) : Prop :=
  ∃ c rest, text = c :: rest ∧ isSpace c = false ∧ c ≠ ']' ∧ c ≠ '}'

lemma Opens.ne_nil {text : Text} (h : Opens text) : text ≠ [] := by
  obtain ⟨c, rest, rfl, -⟩ := h
  exact cons_ne_nil c rest

lemma Opens.append {text : Text} (h : Opens text) (s : Text) : Opens (text ++ s) := by
  obtain ⟨c, rest, rfl, hc⟩ := h
  exact ⟨c, rest ++ s, rfl, hc⟩

lemma Opens.commas {text : Text} (h : Opens text) (texts : List Text) :
    Opens (commas (text :: texts)) := by
  cases texts with
  | nil => rwa [commas_singleton]
  | cons text' texts =>
    rw [commas_cons_cons]
    exact h.append _

lemma skip_cons {c : Char} (h : isSpace c = false) (s : Text) : skip (c :: s) = c :: s := by
  simp [skip, h]

lemma opens_quote (s : String) : Opens (quote s) :=
  ⟨quotationMark, _, rfl, by decide, by decide, by decide⟩

section Lists

variable {β γ : Type} {item : Text → Option (β × Text)} {close : Char} {f : γ → Text} {g : γ → β}
  {xs : List γ}

lemma stops_cons {c : Char} (h : c.isDigit = false) (s : Text) : Stops (c :: s) := by
  intro _ hc
  rw [← Option.some.inj hc]
  exact h

/-- Items with commas between them are read one after another. -/
lemma readItems_commas (hspace : isSpace close = false) (hdigit : close.isDigit = false)
    (hcomma : close ≠ ',') (hne : xs ≠ [])
    (hitem : ∀ x ∈ xs, ∀ s, Stops s → item (f x ++ s) = some (g x, s)) {n : ℕ}
    (hn : xs.length ≤ n) (s : Text) :
    readItems item close n (commas (xs.map f) ++ close :: s) = some (xs.map g, s) := by
  induction xs generalizing n with
  | nil => exact absurd rfl hne
  | cons x xs ih =>
    obtain ⟨n, rfl⟩ := Nat.exists_eq_succ_of_ne_zero (show n ≠ 0 by rintro rfl; simp at hn)
    rw [length_cons, Nat.succ_le_succ_iff] at hn
    have hx := hitem x mem_cons_self
    cases xs with
    | nil =>
      simp only [map_cons, map_nil, commas_singleton, readItems, hx _ (stops_cons hdigit s),
        skip_cons hspace, if_neg hcomma, if_true]
    | cons y ys =>
      have hstops : Stops (',' :: (commas ((y :: ys).map f) ++ close :: s)) :=
        stops_cons (by decide) _
      have hrest := ih (cons_ne_nil y ys) (fun z hz => hitem z (mem_cons_of_mem x hz)) hn
      rw [map_cons] at hrest hstops ⊢
      rw [map_cons, commas_cons_cons, append_assoc, cons_append, readItems, hx _ hstops]
      simp only [skip_cons (show isSpace ',' = false by decide), if_true, hrest, Option.map_some,
        map_cons]

lemma readList_commas (hspace : isSpace close = false) (hdigit : close.isDigit = false)
    (hcomma : close ≠ ',') (hclose : close = ']' ∨ close = '}') (hopens : ∀ x ∈ xs, Opens (f x))
    (hitem : ∀ x ∈ xs, ∀ s, Stops s → item (f x ++ s) = some (g x, s)) (s : Text) :
    readList item close (commas (xs.map f) ++ close :: s) = some (xs.map g, s) := by
  cases xs with
  | nil => simp [readList, skip_cons hspace]
  | cons x xs =>
    have hfew : (x :: xs).length ≤ (commas ((x :: xs).map f) ++ close :: s).length + 1 := by
      have htexts : ((x :: xs).map f).length ≤ (commas ((x :: xs).map f)).length := by
        refine length_le_length_commas fun text htext => ?_
        obtain ⟨y, hy, rfl⟩ := mem_map.mp htext
        exact (hopens y hy).ne_nil
      rw [length_map] at htexts
      rw [length_append]
      omega
    have hitems := readItems_commas hspace hdigit hcomma (cons_ne_nil x xs) hitem hfew s
    obtain ⟨c, rest, htext, hc, hbracket, hbrace⟩ :=
      ((hopens x mem_cons_self).commas (xs.map f)).append (close :: s)
    rw [map_cons] at hitems ⊢
    rw [htext] at hitems ⊢
    have hne : c ≠ close := by
      rcases hclose with rfl | rfl
      · exact hbracket
      · exact hbrace
    rw [readList, skip_cons hc]
    simp only [if_neg hne, hitems]

end Lists

/-! ### Values -/

lemma elementTexts_eq (xs : List Json) : elementTexts xs = xs.map stringify := by
  induction xs with
  | nil => rfl
  | cons x xs ih => rw [elementTexts, ih, map_cons]

lemma writtenElements_eq (xs : List Json) : writtenElements xs = xs.map written := by
  induction xs with
  | nil => rfl
  | cons x xs ih => rw [writtenElements, ih, map_cons]

def isDefined : Json → Bool
  | undefined => false
  | _ => true

@[simp] lemma isDefined_bool (b : Bool) : isDefined (bool b) = true := rfl

@[simp] lemma isDefined_number (n : ℤ) : isDefined (number n) = true := rfl

@[simp] lemma isDefined_string (s : String) : isDefined (string s) = true := rfl

@[simp] lemma isDefined_array (xs : List Json) : isDefined (array xs) = true := rfl

@[simp] lemma isDefined_object (members : List (String × Json)) :
    isDefined (object members) = true := rfl

lemma memberTexts_eq (members : List (String × Json)) :
    memberTexts members = (members.filter (isDefined ·.2)).map fun m =>
      quote m.1 ++ ':' :: stringify m.2 := by
  induction members with
  | nil => rfl
  | cons m members ih =>
    obtain ⟨key, value⟩ := m
    cases value <;> simp [memberTexts, isDefined, ih]

lemma writtenMembers_eq (members : List (String × Json)) :
    writtenMembers members =
      (members.filter (isDefined ·.2)).map fun m => (m.1, written m.2) := by
  induction members with
  | nil => rfl
  | cons m members ih =>
    obtain ⟨key, value⟩ := m
    cases value <;> simp [writtenMembers, isDefined, ih]

lemma opens_writeNumber (n : ℤ) : Opens (writeNumber n) := by
  unfold writeNumber
  split_ifs
  · exact ⟨'-', _, rfl, by decide, by decide, by decide⟩
  · cases hcs : Nat.toDigits 10 n.natAbs with
    | nil => exact absurd hcs Nat.toDigits_ne_nil
    | cons c cs =>
      have hdigit : c.isDigit = true :=
        Nat.isDigit_of_mem_toDigits (by decide) (by decide) (hcs ▸ mem_cons_self)
      refine ⟨c, cs, rfl, ?_, ?_, ?_⟩
      · rw [← Bool.not_eq_true]
        intro hspace
        simp only [isSpace, Bool.or_eq_true, decide_eq_true_eq] at hspace
        rcases hspace with ((rfl | rfl) | rfl) | rfl <;> exact absurd hdigit (by decide)
      · rintro rfl
        exact absurd hdigit (by decide)
      · rintro rfl
        exact absurd hdigit (by decide)

lemma opens_stringify (v : Json) : Opens (stringify v) := by
  cases v with
  | undefined => exact ⟨'n', _, rfl, by decide, by decide, by decide⟩
  | null => exact ⟨'n', _, rfl, by decide, by decide, by decide⟩
  | bool b =>
    cases b
    · exact ⟨'f', _, rfl, by decide, by decide, by decide⟩
    · exact ⟨'t', _, rfl, by decide, by decide, by decide⟩
  | number n => exact opens_writeNumber n
  | string s => exact opens_quote s
  | array xs => exact ⟨'[', _, rfl, by decide, by decide, by decide⟩
  | object members => exact ⟨'{', _, rfl, by decide, by decide, by decide⟩

/-- A number is none of the other values. -/
lemma readValue_number (n : ℕ) (i : ℤ) {s : Text} (h : Stops s) :
    readValue (n + 1) (writeNumber i ++ s) = some (number i, s) := by
  obtain ⟨c, rest, htext, hspace, hbracket, hbrace⟩ := (opens_writeNumber i).append s
  have hread := readNumber_write i h
  rw [htext] at hread ⊢
  rw [readValue, skip_cons hspace]
  have hother : ∀ d, d ≠ '-' → d.isDigit = false → c ≠ d := by
    rintro d hminus hdigit rfl
    simp only [readNumber, head?_cons, Option.some.injEq, hminus, if_false,
      takeWhile_cons, hdigit] at hread
    simp at hread
  simp only [hother 'n' (by decide) (by decide), hother 't' (by decide) (by decide),
    hother 'f' (by decide) (by decide), hother quotationMark (by decide) (by decide),
    hother '[' (by decide) (by decide), hother '{' (by decide) (by decide), if_false, hread]

lemma readMember_write {item : Text → Option (Json × Text)} {m : String × Json} {s : Text}
    (h : item (stringify m.2 ++ s) = some (written m.2, s)) :
    readMember item ((quote m.1 ++ ':' :: stringify m.2) ++ s) = some ((m.1, written m.2), s) := by
  have hquote := readString_quote m.1.toList (':' :: (stringify m.2 ++ s))
  simp only [readMember, quote, cons_append, append_assoc, nil_append,
    skip_cons (show isSpace quotationMark = false by decide), if_true, hquote, Option.bind_some,
    skip_cons (show isSpace ':' = false by decide), h, Option.map_some, String.ofList_toList]

/-- The value is read back from the start of a text. -/
def ReadsBack (v : Json) : Prop :=
  ∀ n s, (stringify v).length ≤ n → Stops s → readValue n (stringify v ++ s) = some (written v, s)

/-- A text of at least one character needs some depth. -/
private lemma exists_depth {c : Char} {text : Text} {n : ℕ} (h : (c :: text).length ≤ n) :
    ∃ m, n = m + 1 ∧ text.length ≤ m := by
  obtain ⟨m, rfl⟩ := Nat.exists_eq_succ_of_ne_zero (show n ≠ 0 by rintro rfl; simp at h)
  exact ⟨m, rfl, by simpa using h⟩

lemma readsBack_array {xs : List Json} (h : ∀ x ∈ xs, ReadsBack x) : ReadsBack (array xs) := by
  intro n s hn hs
  obtain ⟨m, rfl, hm⟩ := exists_depth hn
  rw [elementTexts_eq, length_append] at hm
  have hlist := @readList_commas Json Json (readValue m) ']' stringify written xs (by decide)
    (by decide) (by decide) (Or.inl rfl) (fun x _ => opens_stringify x) ?_ s
  · simp only [stringify, written, cons_append, append_assoc, nil_append, readValue,
      skip_cons (show isSpace '[' = false by decide), show '[' ≠ 'n' by decide,
      show '[' ≠ 't' by decide, show '[' ≠ 'f' by decide, show '[' ≠ quotationMark by decide,
      if_false, if_true, elementTexts_eq, writtenElements_eq, hlist, Option.map_some]
  · intro x hx s hs
    have hle := length_le_commas (mem_map_of_mem (f := stringify) hx)
    exact h x hx m s (by omega) hs

lemma readsBack_object {members : List (String × Json)} (h : ∀ m ∈ members, ReadsBack m.2) :
    ReadsBack (object members) := by
  intro n s hn hs
  obtain ⟨k, rfl, hk⟩ := exists_depth hn
  rw [memberTexts_eq, length_append] at hk
  have hlist := @readList_commas (String × Json) (String × Json) (readMember (readValue k)) '}'
    (fun m => quote m.1 ++ ':' :: stringify m.2) (fun m => (m.1, written m.2))
    (members.filter (isDefined ·.2)) (by decide) (by decide) (by decide) (Or.inr rfl)
    (fun m _ => (opens_quote m.1).append _) ?_ s
  · simp only [stringify, written, cons_append, append_assoc, nil_append, readValue,
      skip_cons (show isSpace '{' = false by decide), show '{' ≠ 'n' by decide,
      show '{' ≠ 't' by decide, show '{' ≠ 'f' by decide, show '{' ≠ quotationMark by decide,
      show '{' ≠ '[' by decide, if_false, if_true, memberTexts_eq, writtenMembers_eq]
    rw [hlist, Option.map_some]
  · intro m hm s hs
    refine readMember_write (h m (mem_filter.mp hm).1 k s ?_ hs)
    have hle := length_le_commas
      (mem_map_of_mem (f := fun m : String × Json => quote m.1 ++ ':' :: stringify m.2) hm)
    rw [length_append, length_cons] at hle
    omega

mutual

theorem readsBack (v : Json) : ReadsBack v := by
  match v with
  | undefined | null | bool true | bool false =>
    intro n s hn _
    obtain ⟨m, rfl, -⟩ := exists_depth hn
    rfl
  | number i =>
    intro n s hn hs
    obtain ⟨n, rfl⟩ : ∃ m, n = m + 1 := by
      refine Nat.exists_eq_succ_of_ne_zero ?_
      rintro rfl
      exact (opens_stringify (number i)).ne_nil (length_eq_zero_iff.mp (Nat.le_zero.mp hn))
    exact readValue_number n i hs
  | string str =>
    intro n s hn _
    obtain ⟨m, rfl, -⟩ := exists_depth hn
    have hquote := readString_quote str.toList s
    simp only [stringify, written, quote, cons_append, append_assoc, nil_append, readValue,
      skip_cons (show isSpace quotationMark = false by decide),
      show quotationMark ≠ 'n' by decide, show quotationMark ≠ 't' by decide,
      show quotationMark ≠ 'f' by decide, if_false, if_true, hquote, Option.map_some,
      String.ofList_toList]
  | array xs => exact readsBack_array (readsBack_elements xs)
  | object members => exact readsBack_object (readsBack_members members)

theorem readsBack_elements (xs : List Json) : ∀ x ∈ xs, ReadsBack x := by
  match xs with
  | [] => exact forall_mem_nil _
  | x :: xs => exact forall_mem_cons.mpr ⟨readsBack x, readsBack_elements xs⟩

theorem readsBack_members (members : List (String × Json)) : ∀ m ∈ members, ReadsBack m.2 := by
  match members with
  | [] => exact forall_mem_nil _
  | (_, value) :: members =>
    exact forall_mem_cons.mpr ⟨readsBack value, readsBack_members members⟩

end

/-- What was written is read back. -/
theorem parse_stringify (v : Json) : parse (stringify v) = some (written v) := by
  have hend : Stops [] := fun c hc => nomatch hc
  have hread : readValue ((stringify v).length + 1) (stringify v) = some (written v, []) := by
    have h := readsBack v _ [] (Nat.le_succ _) hend
    rwa [append_nil] at h
  have hskip : skip [] = [] := rfl
  unfold parse
  rw [hread, Option.bind_some, if_pos hskip]

/-! ### Lines -/

def newline : Char := Char.ofNat 10

/-- What `trim` removes. -/
def isWhitespace (c : Char) : Bool :=
  isSpace c || c.toNat ∈ [11, 12, 160, 5760, 8232, 8233, 8239, 8287, 12288, 65279] ||
    (8192 ≤ c.toNat && c.toNat ≤ 8202)

def trim (s : Text) : Text :=
  (s.dropWhile isWhitespace).rdropWhile isWhitespace

/-- `for (const line of raw.trim().split(newline))`, without the empty lines. -/
def lines (s : Text) : List Text :=
  ((trim s).splitOn newline).filter (· ≠ [])

/-- One text a line. -/
def file (values : List Json) : Text :=
  values.flatMap fun v => stringify v ++ [newline]

/-- A character that a text may start and end with. -/
def isEdge (c : Char) : Bool :=
  c.isDigit || c ∈ ['-', 'n', 't', 'f', 'l', 'e', '[', ']', '{', '}', quotationMark]

lemma isEdge_digit {c : Char} {n : ℕ} (h : c ∈ Nat.toDigits 10 n) : isEdge c = true := by
  rw [isEdge, Nat.isDigit_of_mem_toDigits (by decide) (by decide) h, Bool.true_or]

lemma not_isWhitespace_of_isEdge {c : Char} (h : isEdge c = true) : isWhitespace c = false := by
  simp only [isEdge, Bool.or_eq_true, decide_eq_true_eq] at h
  rcases h with h | h
  · obtain ⟨hlow, hhigh⟩ : 48 ≤ c.toNat ∧ c.toNat ≤ 57 := Char.isDigit_iff_toNat.mp h
    rw [← Bool.not_eq_true]
    intro hspace
    simp only [isWhitespace, isSpace, Bool.or_eq_true, Bool.and_eq_true, decide_eq_true_eq,
      mem_cons, not_mem_nil, or_false] at hspace
    rcases hspace with (hspace | hcode) | hcode
    · rcases hspace with ((rfl | rfl) | rfl) | rfl <;> exact absurd hlow (by decide)
    · omega
    · omega
  · simp only [mem_cons, not_mem_nil, or_false] at h
    rcases h with rfl | rfl | rfl | rfl | rfl | rfl | rfl | rfl | rfl | rfl | rfl <;> decide

/-- The text starts and ends with an edge character. -/
def Edged (s : Text) : Prop :=
  (∃ c rest, s = c :: rest ∧ isEdge c = true) ∧ ∃ c rest, s = rest ++ [c] ∧ isEdge c = true

lemma edged_brackets {c d : Char} (hc : isEdge c = true) (hd : isEdge d = true) (s : Text) :
    Edged (c :: (s ++ [d])) :=
  ⟨⟨c, _, rfl, hc⟩, ⟨d, c :: s, rfl, hd⟩⟩

lemma edged_digits (n : ℕ) : Edged (Nat.toDigits 10 n) := by
  have hne : Nat.toDigits 10 n ≠ [] := Nat.toDigits_ne_nil
  refine ⟨?_, ?_⟩
  · obtain ⟨c, rest, heq⟩ := exists_cons_of_ne_nil hne
    exact ⟨c, rest, heq, isEdge_digit (heq ▸ mem_cons_self)⟩
  · exact ⟨_, _, (dropLast_append_getLast hne).symm, isEdge_digit (getLast_mem hne)⟩

lemma edged_stringify (v : Json) : Edged (stringify v) := by
  cases v with
  | undefined | null =>
    exact ⟨⟨'n', _, rfl, by decide⟩, ⟨'l', ['n', 'u', 'l'], rfl, by decide⟩⟩
  | bool b =>
    cases b
    · exact ⟨⟨'f', _, rfl, by decide⟩, ⟨'e', ['f', 'a', 'l', 's'], rfl, by decide⟩⟩
    · exact ⟨⟨'t', _, rfl, by decide⟩, ⟨'e', ['t', 'r', 'u'], rfl, by decide⟩⟩
  | number n =>
    obtain ⟨hfirst, c, rest, heq, hc⟩ := edged_digits n.natAbs
    rw [stringify, writeNumber]
    split_ifs
    · exact ⟨⟨'-', _, rfl, by decide⟩, ⟨c, '-' :: rest, by rw [heq]; rfl, hc⟩⟩
    · exact ⟨hfirst, c, rest, heq, hc⟩
  | string s => exact edged_brackets (by decide) (by decide) _
  | array xs => exact edged_brackets (by decide) (by decide) _
  | object members => exact edged_brackets (by decide) (by decide) _

lemma mem_commas {c : Char} {texts : List Text} (h : c ∈ commas texts) :
    c = ',' ∨ ∃ text ∈ texts, c ∈ text := by
  induction texts with
  | nil => cases h
  | cons text texts ih =>
    cases texts with
    | nil =>
      rw [commas_singleton] at h
      exact Or.inr ⟨text, mem_cons_self, h⟩
    | cons text' texts =>
      rw [commas_cons_cons, mem_append, mem_cons] at h
      rcases h with h | rfl | h
      · exact Or.inr ⟨text, mem_cons_self, h⟩
      · exact Or.inl rfl
      · rcases ih h with hcomma | ⟨t, ht, hc⟩
        · exact Or.inl hcomma
        · exact Or.inr ⟨t, mem_cons_of_mem _ ht, hc⟩

lemma newline_notMem_digits (n : ℕ) : newline ∉ Nat.toDigits 10 n := by
  intro h
  exact absurd (Nat.isDigit_of_mem_toDigits (by decide) (by decide) h) (by decide)

lemma newline_notMem_escape (c : Char) : newline ∉ escape c := by
  unfold escape
  split_ifs with hself hb ht hn hf hr hcontrol
  · rcases hself with rfl | rfl <;> decide
  · decide
  · decide
  · decide
  · decide
  · decide
  · have hdigit : ∀ n < 16, newline ≠ Nat.digitChar n := by decide
    simp only [mem_cons, not_mem_nil, or_false, not_or]
    exact ⟨by decide, by decide, by decide, by decide, hdigit _ (by omega), hdigit _ (by omega)⟩
  · rw [mem_singleton]
    exact fun h => hn h.symm

lemma newline_notMem_quote (s : String) : newline ∉ quote s := by
  simp only [quote, mem_cons, mem_append, mem_flatMap, not_mem_nil, or_false, not_or, not_exists,
    not_and]
  exact ⟨by decide, fun c _ => newline_notMem_escape c, by decide⟩

lemma newline_notMem_brackets {o c : Char} {texts : List Text} (ho : newline ≠ o)
    (hc : newline ≠ c) (h : ∀ text ∈ texts, newline ∉ text) :
    newline ∉ o :: (commas texts ++ [c]) := by
  intro hmem
  rcases mem_cons.mp hmem with heq | hmem
  · exact ho heq
  · rcases mem_append.mp hmem with hmem | hmem
    · rcases mem_commas hmem with heq | ⟨text, htext, hin⟩
      · exact absurd heq (by decide)
      · exact h text htext hin
    · exact hc (mem_singleton.mp hmem)

mutual

theorem newline_notMem (v : Json) : newline ∉ stringify v := by
  match v with
  | undefined | null | bool true | bool false => decide
  | number n =>
    rw [stringify, writeNumber]
    split_ifs
    · rw [mem_cons, not_or]
      exact ⟨by decide, newline_notMem_digits _⟩
    · exact newline_notMem_digits _
  | string s => exact newline_notMem_quote s
  | array xs =>
    rw [stringify, elementTexts_eq]
    exact newline_notMem_brackets (by decide) (by decide)
      (forall_mem_map.mpr (newline_notMem_elements xs))
  | object members =>
    rw [stringify, memberTexts_eq]
    refine newline_notMem_brackets (by decide) (by decide) (forall_mem_map.mpr fun m hm => ?_)
    rw [mem_append, mem_cons, not_or, not_or]
    exact ⟨newline_notMem_quote _, by decide, newline_notMem_members members m (mem_filter.mp hm).1⟩

theorem newline_notMem_elements (xs : List Json) : ∀ x ∈ xs, newline ∉ stringify x := by
  match xs with
  | [] => exact forall_mem_nil _
  | x :: xs => exact forall_mem_cons.mpr ⟨newline_notMem x, newline_notMem_elements xs⟩

theorem newline_notMem_members (members : List (String × Json)) :
    ∀ m ∈ members, newline ∉ stringify m.2 := by
  match members with
  | [] => exact forall_mem_nil _
  | (_, value) :: members =>
    exact forall_mem_cons.mpr ⟨newline_notMem value, newline_notMem_members members⟩

end

/-- Trimming a file takes away its last newline. -/
lemma trim_file (v : Json) (vs : List Json) :
    trim (file (v :: vs)) = [newline].intercalate ((v :: vs).map stringify) := by
  have hjoin : ∀ (v : Json) (vs : List Json), file (v :: vs) =
      [newline].intercalate ((v :: vs).map stringify) ++ [newline] := by
    intro v vs
    induction vs generalizing v with
    | nil => simp [file]
    | cons w ws ih =>
      have hrest := ih w
      rw [file, flatMap_cons, ← file, hrest]
      simp [intercalate_cons_cons]
  have hlast : ∀ (v : Json) (vs : List Json), ∃ c rest,
      [newline].intercalate ((v :: vs).map stringify) = rest ++ [c] ∧ isEdge c = true := by
    intro v vs
    induction vs generalizing v with
    | nil =>
      obtain ⟨-, c, rest, heq, hc⟩ := edged_stringify v
      exact ⟨c, rest, by simp [heq], hc⟩
    | cons w ws ih =>
      obtain ⟨c, rest, heq, hc⟩ := ih w
      rw [map_cons] at heq
      refine ⟨c, stringify v ++ newline :: rest, ?_, hc⟩
      simp [intercalate_cons_cons, heq]
  obtain ⟨c, rest, heq, hc⟩ := hlast v vs
  obtain ⟨⟨d, rest', heq', hd⟩, -⟩ := edged_stringify v
  have hfirst : ∃ rest'', file (v :: vs) = d :: rest'' :=
    ⟨rest' ++ newline :: file vs, by simp [file, heq']⟩
  obtain ⟨rest'', hfile⟩ := hfirst
  have hkeep : (file (v :: vs)).dropWhile isWhitespace = file (v :: vs) := by
    rw [hfile, dropWhile_cons_of_neg (by simp [not_isWhitespace_of_isEdge hd])]
  rw [trim, hkeep, hjoin, rdropWhile_concat_pos _ _ _ (by decide), heq,
    rdropWhile_concat_neg _ _ _ (by simp [not_isWhitespace_of_isEdge hc])]

/-- The lines of a file are its texts. -/
theorem lines_file (vs : List Json) : lines (file vs) = vs.map stringify := by
  cases vs with
  | nil => decide
  | cons v vs =>
    have hsplit : ([newline].intercalate ((v :: vs).map stringify)).splitOn newline =
        (v :: vs).map stringify :=
      splitOn_intercalate newline (forall_mem_map.mpr fun w _ => newline_notMem w) (by simp)
    rw [lines, trim_file, hsplit]
    refine filter_eq_self.mpr (forall_mem_map.mpr fun w _ => ?_)
    simpa using (opens_stringify w).ne_nil

/-- A text on its own is a line. -/
theorem lines_stringify (v : Json) : lines (stringify v) = [stringify v] := by
  obtain ⟨⟨d, rest', heq', hd⟩, c, rest, heq, hc⟩ := edged_stringify v
  have hkeep : (stringify v).dropWhile isWhitespace = stringify v := by
    rw [heq', dropWhile_cons_of_neg (by simp [not_isWhitespace_of_isEdge hd])]
  have htrim : trim (stringify v) = stringify v := by
    rw [trim, hkeep, heq, rdropWhile_concat_neg _ _ _ (by simp [not_isWhitespace_of_isEdge hc])]
  have hsplit : ([newline].intercalate [stringify v]).splitOn newline = [stringify v] :=
    splitOn_intercalate newline (by simpa using newline_notMem v) (by simp)
  rw [intercalate_singleton] at hsplit
  rw [lines, htrim, hsplit]
  simpa using (opens_stringify v).ne_nil

end Json
