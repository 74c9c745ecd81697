import Mathlib.Data.List.DropRight
import Mathlib.Data.Int.Order.Basic
import NeEncryptor.Lib.CText

/-!
# Numbers and fields of a text

The decimal numbers of `%d`, `strtol` and `atoi`, and the fields that `strtok_r` cuts a text into. A
number of a few digits is read as it is written, and a field without a blank is what trimming it
leaves.
-/

namespace CText

variable {s w rest : List Char}

/-! ## Decimal numbers -/

/-- The number of decimal digits. -/
def digitsValue (w : List Char) : ℕ := Nat.ofDigitChars 10 w 0

/-- `strtol` with base 10: a `long` of 64 bits and what follows it. -/
def scanLong (s : List Char) : Option (ℤ × List Char) :=
  let (negative, s) := scanSign (s.dropWhile isSpace)
  let digits := s.takeWhile Char.isDigit
  let v : ℤ := digitsValue digits
  if digits = [] then none
  else
    some (if negative then max (-2 ^ 63) (-v) else min (2 ^ 63 - 1) v, s.dropWhile Char.isDigit)

/-- `%d`: a `long` as an `int` of 32 bits. -/
def scanInt (s : List Char) : Option (ℤ × List Char) :=
  (scanLong s).map fun (v, rest) => (v.bmod (2 ^ 32), rest)

/-- `atoi`. -/
def atoi (s : List Char) : ℤ := (scanInt s).elim 0 Prod.fst

/-- A decimal number of at most `width` digits. -/
def decimal (width : ℕ) (s : List Char) : Option ℕ :=
  if s ≠ [] ∧ s.length ≤ width ∧ s.all Char.isDigit then some (digitsValue s) else none

variable {width n : ℕ}

theorem decimal_some : decimal width s = some n ↔
    s ≠ [] ∧ s.length ≤ width ∧ (∀ c ∈ s, c.isDigit = true) ∧ digitsValue s = n := by
  unfold decimal
  constructor
  · intro read
    split at read
    · rename_i good
      cases read
      exact ⟨good.1, good.2.1, List.all_eq_true.mp good.2.2, rfl⟩
    · cases read
  · rintro ⟨nonempty, short, digits, rfl⟩
    exact if_pos ⟨nonempty, short, List.all_eq_true.mpr digits⟩

theorem digitsValue_concat (c : Char) :
    digitsValue (w ++ [c]) = 10 * digitsValue w + (c.toNat - '0'.toNat) := by
  rw [digitsValue, Nat.ofDigitChars_append, Nat.ofDigitChars_cons, Nat.ofDigitChars_nil]
  rfl

theorem digitsValue_lt (digits : ∀ c ∈ w, c.isDigit = true) :
    digitsValue w < 10 ^ w.length := by
  induction w using List.reverseRecOn with
  | nil => decide
  | append_singleton w c ih =>
    have before := ih fun d mem => digits d (List.mem_append_left _ mem)
    have digit : c.toNat - '0'.toNat ≤ 9 := by
      have range := digits c (List.mem_append_right _ (List.mem_singleton_self _))
      rw [Char.isDigit, Bool.and_eq_true, decide_eq_true_eq, decide_eq_true_eq] at range
      have high : c.toNat ≤ 57 := range.2
      have zero : '0'.toNat = 48 := rfl
      omega
    rw [digitsValue_concat, List.length_append, List.length_singleton, Nat.pow_succ]
    omega

theorem isDigit_facts {c : Char} (digit : c.isDigit = true) :
    isSpace c = false ∧ c ≠ '-' ∧ c ≠ '+' := by
  rw [Char.isDigit, Bool.and_eq_true, decide_eq_true_eq, decide_eq_true_eq] at digit
  have low : 48 ≤ c.toNat := digit.1
  refine ⟨?_, ?_, ?_⟩
  · rw [isSpace, Bool.or_eq_false_iff]
    refine ⟨beq_eq_false_iff_ne.mpr ?_, by simp; omega⟩
    rintro rfl
    exact absurd low (by decide)
  · rintro rfl
    exact absurd low (by decide)
  · rintro rfl
    exact absurd low (by decide)

theorem scanLong_digits (digits : ∀ c ∈ w, c.isDigit = true) (nonempty : w ≠ [])
    (ends : ∀ c, rest.head? = some c → c.isDigit = false) (small : digitsValue w < 2 ^ 63) :
    scanLong (w ++ rest) = some (↑(digitsValue w), rest) := by
  have unsigned : scanSign ((w ++ rest).dropWhile isSpace) = (false, w ++ rest) := by
    cases w with
    | nil => exact absurd rfl nonempty
    | cons c w =>
      obtain ⟨notBlank, notMinus, notPlus⟩ := isDigit_facts (digits c List.mem_cons_self)
      rw [List.cons_append, List.dropWhile_cons_of_neg (by simp [notBlank]), scanSign]
      rw [if_neg (by simpa using notMinus), if_neg (by simpa using notPlus)]
  have stops : rest.takeWhile Char.isDigit = [] ∧ rest.dropWhile Char.isDigit = rest := by
    cases rest with
    | nil => exact ⟨rfl, rfl⟩
    | cons c rest =>
      have other := ends c rfl
      exact ⟨List.takeWhile_cons_of_neg (by simp [other]),
        List.dropWhile_cons_of_neg (by simp [other])⟩
  unfold scanLong
  rw [unsigned]
  dsimp only
  rw [List.takeWhile_append_of_pos digits, List.dropWhile_append_of_pos digits, stops.1, stops.2,
    List.append_nil, if_neg nonempty, if_neg (by decide), min_eq_right (by omega)]

theorem scanLong_decimal (read : decimal width s = some n) (short : width ≤ 18) :
    scanLong s = some (↑n, []) := by
  obtain ⟨nonempty, fits, digits, rfl⟩ := decimal_some.mp read
  have bound := digitsValue_lt digits
  have power : 10 ^ s.length ≤ 10 ^ 18 := Nat.pow_le_pow_right (by decide) (by omega)
  have scanned : scanLong (s ++ []) = some (↑(digitsValue s), []) :=
    scanLong_digits digits nonempty nofun (by omega)
  rwa [List.append_nil] at scanned

theorem scanInt_decimal (read : decimal width s = some n) (short : width ≤ 9)
    (ends : ∀ c, rest.head? = some c → c.isDigit = false) :
    scanInt (s ++ rest) = some (↑n, rest) := by
  obtain ⟨nonempty, fits, digits, rfl⟩ := decimal_some.mp read
  have bound := digitsValue_lt digits
  have power : 10 ^ s.length ≤ 10 ^ 9 := Nat.pow_le_pow_right (by decide) (by omega)
  rw [scanInt, scanLong_digits digits nonempty ends (by omega), Option.map_some]
  dsimp only
  rw [Int.bmod_eq_of_le (by omega) (by omega)]

/-! ## Fields -/

/-- A blank or a tab. -/
def isBlank (c : Char) : Bool := c == ' ' || c == '\t'

/-- The text without the blanks around it. -/
def trimBlanks (s : List Char) : List Char := (s.dropWhile isBlank).rdropWhile isBlank

/-- What `strtok_r` gives one after the other. -/
def strtok (sep : Char) (s : List Char) : List (List Char) := (s.splitOn sep).filter (· ≠ [])

theorem trimBlanks_of_solid (solid : ∀ c ∈ s, isBlank c = false) : trimBlanks s = s := by
  have front : s.dropWhile isBlank = s := by
    cases s with
    | nil => rfl
    | cons c s => exact List.dropWhile_cons_of_neg (by simp [solid c List.mem_cons_self])
  rw [trimBlanks, front, List.rdropWhile_eq_self_iff]
  intro nonempty blank
  rw [solid _ (List.getLast_mem nonempty)] at blank
  cases blank

theorem not_mem_of_mem_splitOn {sep : Char} {piece : List Char} (mem : piece ∈ s.splitOn sep) :
    sep ∉ piece := by
  induction s generalizing piece with
  | nil =>
    rw [List.splitOn_nil, List.mem_singleton] at mem
    rw [mem]
    exact List.not_mem_nil
  | cons c s ih =>
    rw [List.splitOn_cons_eq_if_modifyHead] at mem
    split at mem
    · rcases List.mem_cons.mp mem with rfl | mem
      · exact List.not_mem_nil
      · exact ih mem
    · rename_i other
      cases pieces : s.splitOn sep with
      | nil => exact absurd pieces (List.splitOn_ne_nil sep s)
      | cons head tail =>
        rw [pieces] at mem ih
        rcases List.mem_cons.mp mem with rfl | mem
        · rw [List.mem_cons, not_or]
          exact ⟨fun same => other (by simp [same]), ih List.mem_cons_self⟩
        · exact ih (List.mem_cons_of_mem _ mem)

theorem splitOn_eq_one {sep : Char} {a : List Char} (split : s.splitOn sep = [a]) :
    s = a ∧ sep ∉ s := by
  have joined : [sep].intercalate (s.splitOn sep) = s := List.intercalate_splitOn sep
  rw [split] at joined
  have same : a = s := by simpa using joined
  exact ⟨same.symm, same ▸ not_mem_of_mem_splitOn (split ▸ List.mem_singleton_self a)⟩

theorem splitOn_eq_two {sep : Char} {a b : List Char} (split : s.splitOn sep = [a, b]) :
    s = a ++ sep :: b ∧ sep ∉ a := by
  have joined : [sep].intercalate (s.splitOn sep) = s := List.intercalate_splitOn sep
  rw [split] at joined
  refine ⟨?_, not_mem_of_mem_splitOn (s := s) (split ▸ List.mem_cons_self)⟩
  simpa using joined.symm

theorem mem_intercalate {c sep : Char} {ls : List (List Char)}
    (mem : c ∈ [sep].intercalate ls) : c = sep ∨ ∃ l ∈ ls, c ∈ l := by
  induction ls with
  | nil => cases mem
  | cons l ls ih =>
    by_cases last : ls = []
    · rw [last, List.intercalate_singleton] at mem
      exact .inr ⟨l, List.mem_cons_self, mem⟩
    · rw [List.intercalate_cons_of_ne_nil last, List.append_assoc, List.mem_append,
        List.mem_append, List.mem_singleton] at mem
      rcases mem with mem | same | mem
      · exact .inr ⟨l, List.mem_cons_self, mem⟩
      · exact .inl same
      · rcases ih mem with same | ⟨l', inside, mem⟩
        · exact .inl same
        · exact .inr ⟨l', List.mem_cons_of_mem _ inside, mem⟩

theorem length_intercalate_lt {sep : Char} {ls : List (List Char)} {m : ℕ} (some_field : ls ≠ [])
    (short : ∀ l ∈ ls, l.length ≤ m) :
    ([sep].intercalate ls).length < ls.length * (m + 1) := by
  induction ls with
  | nil => exact absurd rfl some_field
  | cons l ls ih =>
    have first := short l List.mem_cons_self
    by_cases last : ls = []
    · rw [last, List.intercalate_singleton, List.length_singleton]
      omega
    · have rest := ih last fun l' mem => short l' (List.mem_cons_of_mem _ mem)
      rw [List.intercalate_cons_of_ne_nil last, List.length_append, List.length_append,
        List.length_singleton, List.length_cons, Nat.add_mul]
      omega

end CText
