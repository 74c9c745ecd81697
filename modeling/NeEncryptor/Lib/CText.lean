import Mathlib.Algebra.Group.Int.Defs
import Mathlib.Algebra.Group.Nat.Defs
import Mathlib.Data.List.TakeWhile

/-!
# Text as C reads it

The words of `%s`, the numbers of `%x` and the lines of `fgets`, on texts as lists of characters; a
word, a number or a line that was written is read back.
-/

namespace CText

/-- `isspace`. -/
def isSpace (c : Char) : Bool := c == ' ' || (9 ≤ c.toNat && c.toNat ≤ 13)

/-- What a function that gets the text as a C string sees of it. -/
def cString (s : List Char) : List Char := s.takeWhile fun c => c != '\x00'

/-! ## Words -/

/-- `%s` with a width: the word and the rest. -/
def scanWord (width : ℕ) (s : List Char) : Option (List Char × List Char) :=
  let s := s.dropWhile isSpace
  let word := (s.takeWhile fun c => !isSpace c).take width
  if word = [] then none else some (word, s.drop word.length)

/-- What `%s` can read: some characters without a blank. -/
structure Word (w : List Char) : Prop where
  nonempty : w ≠ []
  solid : ∀ c ∈ w, isSpace c = false

variable {s w rest : List Char} {width : ℕ}

theorem word_of_scanWord (scanned : scanWord width s = some (w, rest)) :
    Word w ∧ w.length ≤ width ∧ ∀ c ∈ w, c ∈ s := by
  unfold scanWord at scanned
  dsimp only at scanned
  split at scanned
  · cases scanned
  · rename_i nonempty
    cases scanned
    have part := List.take_sublist width ((s.dropWhile isSpace).takeWhile fun c => !isSpace c)
    refine ⟨⟨nonempty, fun c mem => ?_⟩, List.length_take_le .., fun c mem => ?_⟩
    · have solid := List.mem_takeWhile_imp (part.subset mem)
      simpa using solid
    · exact (List.dropWhile_sublist _).subset ((List.takeWhile_sublist _).subset (part.subset mem))

theorem scanWord_word (word : Word w) (fits : w.length ≤ width)
    (ends : ∀ c, rest.head? = some c → isSpace c = true) :
    scanWord width (w ++ rest) = some (w, rest) := by
  have kept : (w ++ rest).dropWhile isSpace = w ++ rest := by
    cases w with
    | nil => exact absurd rfl word.nonempty
    | cons c w => exact List.dropWhile_cons_of_neg (by simp [word.solid c List.mem_cons_self])
  have taken : (w ++ rest).takeWhile (fun c => !isSpace c) = w := by
    rw [List.takeWhile_append_of_pos fun c mem => by simp [word.solid c mem]]
    cases rest with
    | nil => rw [List.takeWhile_nil, List.append_nil]
    | cons c rest => rw [List.takeWhile_cons_of_neg (by simp [ends c rfl]), List.append_nil]
  unfold scanWord
  dsimp only
  rw [kept, taken, List.take_of_length_le fits, if_neg word.nonempty, List.drop_left]

/-- One blank before a word is skipped. -/
theorem scanWord_blank {c : Char} (blank : isSpace c = true) :
    scanWord width (c :: s) = scanWord width s := by
  rw [scanWord, List.dropWhile_cons_of_pos blank]
  rfl

/-! ## Hexadecimal numbers -/

/-- The value of a hexadecimal digit. -/
def hexValue (c : Char) : Option ℕ :=
  if c.isDigit then some (c.toNat - '0'.toNat)
  else if 'a' ≤ c ∧ c ≤ 'f' then some (c.toNat - 'a'.toNat + 10)
  else if 'A' ≤ c ∧ c ≤ 'F' then some (c.toNat - 'A'.toNat + 10)
  else none

/-- A sign, and what follows it. -/
def scanSign (s : List Char) : Bool × List Char :=
  if s.head? = some '-' then (true, s.tail)
  else if s.head? = some '+' then (false, s.tail)
  else (false, s)

/-- The digits of a number with the optional `0x`, and what follows them. -/
def scanHexDigits (s : List Char) : List ℕ × List Char :=
  let (lead, s) :=
    if s.take 2 = ['0', 'x'] ∨ s.take 2 = ['0', 'X'] then ([0], s.drop 2) else ([], s)
  (lead ++ (s.takeWhile fun c => (hexValue c).isSome).filterMap hexValue,
    s.dropWhile fun c => (hexValue c).isSome)

/-- `%x`, by way of an `unsigned long` of 64 bits. -/
def scanHex (s : List Char) : Option (ℕ × List Char) :=
  let (negative, s) := scanSign (s.dropWhile isSpace)
  let (digits, rest) := scanHexDigits s
  let v := digits.foldl (fun v d => v * 16 + d) 0
  if digits = [] then none
  else
    some ((if 2 ^ 64 ≤ v then 2 ^ 64 - 1 else if negative then 2 ^ 64 - v else v) % 2 ^ 32, rest)

/-- A digit of `%02x`. -/
def hexDigit (d : ℕ) : Char := Char.ofNat (if d < 10 then 0x30 + d else 0x57 + d)

/-- `%02x` of a byte. -/
def hexByte (b : UInt8) : List Char := [hexDigit (b.toNat / 16), hexDigit (b.toNat % 16)]

/-- What a digit is. -/
theorem hexDigit_facts : ∀ d < 16, hexValue (hexDigit d) = some d ∧
    isSpace (hexDigit d) = false ∧ hexDigit d ≠ '-' ∧ hexDigit d ≠ '+' ∧ hexDigit d ≠ 'x' ∧
      hexDigit d ≠ 'X' ∧ hexDigit d ≠ '\x00' ∧ hexDigit d ≠ '\n' := by
  decide

theorem scanHex_hexByte (b : UInt8) (ends : ∀ c, rest.head? = some c → hexValue c = none) :
    scanHex (hexByte b ++ rest) = some (b.toNat, rest) := by
  have small := b.toNat_lt
  obtain ⟨high, notBlank, notMinus, notPlus, -, -, -, -⟩ := hexDigit_facts (b.toNat / 16) (by omega)
  obtain ⟨low, -, -, -, notX, notX', -, -⟩ := hexDigit_facts (b.toNat % 16) (by omega)
  have unsigned : scanSign ((hexByte b ++ rest).dropWhile isSpace) =
      (false, hexByte b ++ rest) := by
    rw [hexByte, List.cons_append, List.dropWhile_cons_of_neg (by simp [notBlank]), scanSign]
    rw [if_neg (by simpa using notMinus), if_neg (by simpa using notPlus)]
  have stops : rest.takeWhile (fun c => (hexValue c).isSome) = [] ∧
      rest.dropWhile (fun c => (hexValue c).isSome) = rest := by
    cases rest with
    | nil => exact ⟨rfl, rfl⟩
    | cons c rest =>
      have none := ends c rfl
      exact ⟨List.takeWhile_cons_of_neg (by simp [none]),
        List.dropWhile_cons_of_neg (by simp [none])⟩
  have digits : scanHexDigits (hexByte b ++ rest) = ([b.toNat / 16, b.toNat % 16], rest) := by
    unfold scanHexDigits
    rw [hexByte, if_neg (by simp [notX, notX'])]
    simp [high, low, stops]
  have value : [b.toNat / 16, b.toNat % 16].foldl (fun v d => v * 16 + d) 0 = b.toNat := by
    simp only [List.foldl_cons, List.foldl_nil]
    omega
  unfold scanHex
  rw [unsigned]
  dsimp only
  rw [digits]
  dsimp only
  rw [value, if_neg (List.cons_ne_nil _ _), if_neg (by omega), if_neg (by decide),
    Nat.mod_eq_of_lt (by omega)]

/-! ## Lines -/

/-- The lines that `fgets` gives one after the other with a buffer for `size` characters; `acc` is
what is read of the current one. -/
def fgetsLines (size : ℕ) (acc : List Char) : List Char → List (List Char)
  | [] => if acc = [] then [] else [acc]
  | c :: cs =>
    if c = '\n' ∨ size ≤ acc.length + 1 then (acc ++ [c]) :: fgetsLines size [] cs
    else fgetsLines size (acc ++ [c]) cs

theorem fgetsLines_line {size : ℕ} {acc body : List Char} (one : '\n' ∉ body)
    (fits : acc.length + body.length + 1 ≤ size) :
    fgetsLines size acc (body ++ '\n' :: rest) =
      (acc ++ body ++ ['\n']) :: fgetsLines size [] rest := by
  induction body generalizing acc with
  | nil =>
    rw [List.nil_append, fgetsLines, if_pos (.inl rfl), List.append_nil]
  | cons c body ih =>
    rw [List.mem_cons, not_or] at one
    rw [List.length_cons] at fits
    rw [List.cons_append, fgetsLines, if_neg (by
      rintro (same | full)
      · exact one.1 same.symm
      · omega), ih one.2 (by rw [List.length_append, List.length_singleton]; omega)]
    simp

end CText
