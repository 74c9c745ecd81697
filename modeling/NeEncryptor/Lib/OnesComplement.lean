import Mathlib.Data.Nat.ModEq
import Mathlib.Tactic.Linarith
import NeEncryptor.Lib.Buffer

/-!
# Ones' complement sums

The checksum of the Internet protocols: the 16-bit words of a text are summed, carries out of the
top go round to the bottom, and the text is accepted when all bits of the sum are set.  Replacing
two bytes changes the sum by their word or, at an odd offset, by the word with its bytes swapped.
-/

namespace OnesComplement

open Buffer

/-- The sum of the words, the last one padded with a zero byte. -/
def wordSum : List UInt8 → ℕ
  | [] => 0
  | [a] => a.toNat * 256
  | a :: b :: rest => a.toNat * 256 + b.toNat + wordSum rest

/-- The loop that adds the carries back, for at most so many rounds. -/
def carryLoop : ℕ → ℕ → ℕ
  | 0, sum => sum
  | fuel + 1, sum => if sum / 65536 = 0 then sum else carryLoop fuel (sum % 65536 + sum / 65536)

/-- The end-around carry. -/
def endAround (sum : ℕ) : ℕ := carryLoop sum sum

/-- The text is accepted. -/
def Accepts (text : List UInt8) : Prop := endAround (wordSum text) = 65535

instance (text : List UInt8) : Decidable (Accepts text) :=
  inferInstanceAs (Decidable (endAround (wordSum text) = 65535))

/-! ### Carries -/

theorem carryLoop_spec (fuel sum : ℕ) (enough : sum ≤ fuel) :
    carryLoop fuel sum < 65536 ∧ carryLoop fuel sum ≡ sum [MOD 65535] ∧
      (carryLoop fuel sum = 0 ↔ sum = 0) := by
  induction fuel generalizing sum with
  | zero =>
    obtain rfl := Nat.le_zero.mp enough
    exact ⟨by decide, rfl, Iff.rfl⟩
  | succ fuel ih =>
    rw [carryLoop]
    split
    · exact ⟨by omega, rfl, Iff.rfl⟩
    · rename_i carry
      obtain ⟨small, same, zero⟩ := ih (sum % 65536 + sum / 65536) (by omega)
      refine ⟨small, same.trans ?_, zero.trans (by omega)⟩
      have split : sum = sum % 65536 + sum / 65536 + 65535 * (sum / 65536) := by omega
      exact ((Nat.modEq_iff_dvd' (by omega)).mpr ⟨sum / 65536, by omega⟩)

theorem endAround_lt (sum : ℕ) : endAround sum < 65536 := (carryLoop_spec sum sum le_rfl).1

theorem endAround_modEq (sum : ℕ) : endAround sum ≡ sum [MOD 65535] :=
  (carryLoop_spec sum sum le_rfl).2.1

theorem endAround_eq_zero_iff (sum : ℕ) : endAround sum = 0 ↔ sum = 0 :=
  (carryLoop_spec sum sum le_rfl).2.2

/-- All bits are set just when the sum is a positive multiple of 65535. -/
theorem accepts_iff (text : List UInt8) :
    Accepts text ↔ wordSum text ≠ 0 ∧ 65535 ∣ wordSum text := by
  have small := endAround_lt (wordSum text)
  have same := endAround_modEq (wordSum text)
  have zero := endAround_eq_zero_iff (wordSum text)
  rw [Accepts, ← Nat.modEq_zero_iff_dvd]
  unfold Nat.ModEq at same ⊢
  omega

/-! ### Sums of parts -/

theorem wordSum_cons (a : UInt8) (rest : List UInt8) :
    wordSum (a :: rest) = a.toNat * 256 + wordSum (0 :: rest) := by
  cases rest with
  | nil => simp [wordSum]
  | cons b rest => simp [wordSum, Nat.add_assoc]

theorem wordSum_append : ∀ (l r : List UInt8),
    wordSum (l ++ r) = wordSum l + wordSum (if l.length % 2 = 0 then r else 0 :: r)
  | [], r => by simp [wordSum]
  | [a], r => by
    rw [List.singleton_append, wordSum_cons]
    simp [wordSum]
  | a :: b :: l, r => by
    have parity : (a :: b :: l).length % 2 = l.length % 2 := by
      rw [List.length_cons, List.length_cons]
      omega
    rw [List.cons_append, List.cons_append, wordSum, wordSum, wordSum_append l r, parity]
    omega

theorem append_slice_two (text : List UInt8) (off : ℕ) :
    text = text.take off ++ (slice text off 2 ++ text.drop (off + 2)) := by
  rw [slice, ← List.drop_drop, List.take_append_drop, List.take_append_drop]

/-- Replacing a word of the text. -/
theorem wordSum_blit_even {text : List UInt8} {off : ℕ} {a b c d : UInt8}
    (even : off % 2 = 0) (inside : off + 2 ≤ text.length) (old : slice text off 2 = [a, b]) :
    wordSum (blit text off [c, d]) + (a.toNat * 256 + b.toNat) =
      wordSum text + (c.toNat * 256 + d.toNat) := by
  have length : (text.take off).length = off := List.length_take_of_le (by omega)
  have sum (x y : UInt8) : wordSum (text.take off ++ ([x, y] ++ text.drop (off + 2))) =
      wordSum (text.take off) + (x.toNat * 256 + y.toNat + wordSum (text.drop (off + 2))) := by
    rw [wordSum_append, length, if_pos even]
    rfl
  have before := congrArg wordSum (append_slice_two text off)
  rw [old, sum] at before
  have after : wordSum (blit text off [c, d]) = _ :=
    (congrArg wordSum (List.append_assoc ..)).trans (sum c d)
  omega

/-- Replacing two bytes of two words. -/
theorem wordSum_blit_odd {text : List UInt8} {off : ℕ} {a b c d : UInt8}
    (odd : off % 2 = 1) (inside : off + 2 ≤ text.length) (old : slice text off 2 = [a, b]) :
    wordSum (blit text off [c, d]) + (a.toNat + b.toNat * 256) =
      wordSum text + (c.toNat + d.toNat * 256) := by
  have length : (text.take off).length = off := List.length_take_of_le (by omega)
  have sum (x y : UInt8) : wordSum (text.take off ++ ([x, y] ++ text.drop (off + 2))) =
      wordSum (text.take off) +
        (x.toNat + (y.toNat * 256 + wordSum (0 :: text.drop (off + 2)))) := by
    rw [wordSum_append, length, if_neg (by omega), List.cons_append, wordSum, List.cons_append,
      List.nil_append, wordSum_cons y]
    simp
  have before := congrArg wordSum (append_slice_two text off)
  rw [old, sum] at before
  have after : wordSum (blit text off [c, d]) = _ :=
    (congrArg wordSum (List.append_assoc ..)).trans (sum c d)
  omega

/-! ### The incremental update -/

/-- The checksum after a word of the text was replaced, from the words alone. -/
def replaceWord (check old new : ℕ) : ℕ :=
  65535 - endAround ((65535 - check) + (65535 - old) + new)

theorem replaceWord_lt (check old new : ℕ) : replaceWord check old new < 65536 := by
  rw [replaceWord]
  omega

theorem replaceWord_modEq {check old : ℕ} (new : ℕ) (checkLt : check < 65536)
    (oldLt : old < 65536) : replaceWord check old new + new ≡ check + old [MOD 65535] := by
  have small := endAround_lt ((65535 - check) + (65535 - old) + new)
  have same := endAround_modEq ((65535 - check) + (65535 - old) + new)
  rw [replaceWord]
  unfold Nat.ModEq at same ⊢
  omega

variable {text text' : List UInt8} {check a b c d : ℕ}

/-- After a word was replaced, the text with the updated checksum is accepted. -/
theorem accepts_of_word (before : Accepts text) (nonzero : wordSum text' ≠ 0)
    (checkLt : check < 65536) (oldLt : a * 256 + b < 65536)
    (sums : wordSum text' + (a * 256 + b) + check = wordSum text + (c * 256 + d) +
      replaceWord check (a * 256 + b) (c * 256 + d)) : Accepts text' := by
  have update := replaceWord_modEq (c * 256 + d) checkLt oldLt
  have multiple := ((accepts_iff text).mp before).2
  refine (accepts_iff text').mpr ⟨nonzero, ?_⟩
  unfold Nat.ModEq at update
  omega

/-- Where the bytes of two words were replaced, the updated checksum fits only by chance. -/
theorem accepts_of_swapped (before : Accepts text) (nonzero : wordSum text' ≠ 0)
    (checkLt : check < 65536) (oldLt : a * 256 + b < 65536) (lower : c * 256 + d ≤ a * 256 + b)
    (sums : wordSum text' + (a + b * 256) + check = wordSum text + (c + d * 256) +
      replaceWord check (a * 256 + b) (c * 256 + d)) :
    Accepts text' ↔ 257 ∣ (a * 256 + b) - (c * 256 + d) := by
  have update := replaceWord_modEq (c * 256 + d) checkLt oldLt
  have multiple := ((accepts_iff text).mp before).2
  rw [accepts_iff]
  unfold Nat.ModEq at update
  omega

end OnesComplement
