import Mathlib
import NeEncryptor.Db.Config
import NeEncryptor.Lib.FirstBest

/-!
# The order of the policies

`config_select_crypto_policy` returns the first best of the policies that match: the least priority,
then the least wire id, then the place in the profile.
-/

namespace NeEncryptor

open FirstBest

/-- What `config_select_crypto_policy` compares. -/
def CryptoPolicy.order (cp : CryptoPolicy) : ℤ ×ₗ ℤ := toLex (cp.priority, cp.id)

/-- The policies of a profile, in its order. -/
def AppConfig.listedAt (cfg : AppConfig) (profileIdx : ℕ) : List CryptoPolicy :=
  (cfg.profiles[profileIdx]?).elim [] cfg.listed

theorem betterThan_iff (cp best : CryptoPolicy) :
    betterThan cp best = true ↔ cp.order < best.order := by
  rw [betterThan, CryptoPolicy.order, CryptoPolicy.order, Prod.Lex.toLex_lt_toLex]
  simp

/-- One round is one of the search for the least. -/
theorem selectStep_eq (t : FiveTuple) (best : Option CryptoPolicy) (cp : CryptoPolicy) :
    selectStep t best cp = if cryptoPolicyMatchPacket cp t = true then
      List.argAux (fun a b => a.order < b.order) best cp else best := by
  unfold selectStep List.argAux
  cases best with
  | none => rfl
  | some b => simp only [betterThan_iff]

theorem configSelect_eq (cfg : AppConfig) (profileIdx : ℕ) (t : FiveTuple) :
    configSelectCryptoPolicy cfg profileIdx t =
      ((cfg.listedAt profileIdx).filter fun cp => cryptoPolicyMatchPacket cp t).argmin
        CryptoPolicy.order := by
  unfold configSelectCryptoPolicy AppConfig.listedAt
  cases cfg.profiles[profileIdx]? with
  | none => rfl
  | some p =>
    have step : selectStep t = _ := funext fun best => funext fun cp => selectStep_eq t best cp
    dsimp only [Option.elim]
    rw [List.argmin, List.foldl_filter, step]

/-- Two packets get the same policy exactly where every policy that matches one of them alone comes
after one that matches both. -/
theorem configSelect_eq_iff (cfg : AppConfig) (profileIdx : ℕ) (t t' : FiveTuple) :
    configSelectCryptoPolicy cfg profileIdx t = configSelectCryptoPolicy cfg profileIdx t' ↔
      Indifferent CryptoPolicy.order (cfg.listedAt profileIdx)
        (cryptoPolicyMatchPacket · t) (cryptoPolicyMatchPacket · t') := by
  rw [configSelect_eq, configSelect_eq, argmin_filter_eq_iff]

end NeEncryptor
