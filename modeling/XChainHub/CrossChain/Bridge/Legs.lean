import XChainHub.Library.DelimitedText
import XChainHub.Library.NumberText

/-!
Source legs of bridge transfers and the round id derived from one:
deriveTransferId of cross_chain/bridge/validate.js.
-/
namespace XChainHub.CrossChain.Bridge

inductive Coin where
  | btc
  | ltc
  | doge
  deriving DecidableEq

def Coin.text : Coin → String
  | .btc => "BTC"
  | .ltc => "LTC"
  | .doge => "DOGE"

structure Leg where
  srcChain : Coin
  srcActionIndex : ℤ
  destChain : Coin
  destAddress : String
  deriving DecidableEq

/- The network a hub runs on, and the digest behind a round id. -/
structure Params where
  network : String
  sha256 : List Char → String

def intText (z : ℤ) : List Char :=
  if z < 0 then '-' :: Nat.toDigits 10 z.natAbs else Nat.toDigits 10 z.natAbs

def transferPreimage (network : String) (leg : Leg) : List Char :=
  "XBRIDGE|".toList ++ network.toList ++ '|' ::
    (leg.srcChain.text.toList ++ ':' ::
      (intText leg.srcActionIndex ++ '|' ::
        (leg.destChain.text.toList ++ ':' :: leg.destAddress.toList)))

def deriveTransferId (cfg : Params) (network : String) (leg : Leg) : String :=
  cfg.sha256 (transferPreimage network leg)

theorem coin_text_plain (c : Coin) : ':' ∉ c.text.toList := by
  cases c <;> decide

theorem coin_text_inj {c d : Coin} (same : c.text.toList = d.text.toList) : c = d := by
  cases c <;> cases d <;> first | rfl | exact absurd same (by decide)

theorem int_text_plain (z : ℤ) : '|' ∉ intText z := by
  have digits : '|' ∉ Nat.toDigits 10 z.natAbs :=
    fun member => absurd (NumberText.to_digits_plain _ '|' member) (by decide)
  unfold intText
  split
  · rw [List.mem_cons, not_or]
    exact ⟨by decide, digits⟩
  · exact digits

theorem digits_unsigned (n : ℕ) (rest : List Char) : Nat.toDigits 10 n ≠ '-' :: rest := by
  intro same
  have member : '-' ∈ Nat.toDigits 10 n := by rw [same]; exact List.mem_cons_self
  exact absurd (NumberText.to_digits_plain n '-' member) (by decide)

theorem digits_inj {a b : ℕ} (same : Nat.toDigits 10 a = Nat.toDigits 10 b) : a = b := by
  rw [← Nat.ofDigitChars_toDigits (b := 10) (n := a) (by decide) (by decide), same,
    Nat.ofDigitChars_toDigits (by decide) (by decide)]

theorem int_text_inj {y z : ℤ} (same : intText y = intText z) : y = z := by
  unfold intText at same
  split at same
  · split at same
    · have size := digits_inj (List.cons.inj same).2
      omega
    · exact absurd same.symm (digits_unsigned _ _)
  · split at same
    · exact absurd same (digits_unsigned _ _)
    · have size := digits_inj same
      omega

/-- A preimage names its source leg. -/
theorem preimage_source {network : String} {a b : Leg}
    (same : transferPreimage network a = transferPreimage network b) :
    a.srcChain = b.srcChain ∧ a.srcActionIndex = b.srcActionIndex := by
  unfold transferPreimage at same
  have body := (List.cons.inj (List.append_cancel_left same)).2
  obtain ⟨chains, rest⟩ := DelimitedText.plain_field_inj (coin_text_plain _) (coin_text_plain _) body
  obtain ⟨digits, -⟩ := DelimitedText.plain_field_inj (int_text_plain _) (int_text_plain _) rest
  exact ⟨coin_text_inj chains, int_text_inj digits⟩

/-- Under a digest without collisions a round id belongs to one source leg. -/
theorem transfer_id_source {cfg : Params} (collisionFree : Function.Injective cfg.sha256)
    {network : String} {a b : Leg}
    (same : deriveTransferId cfg network a = deriveTransferId cfg network b) :
    a.srcChain = b.srcChain ∧ a.srcActionIndex = b.srcActionIndex :=
  preimage_source (collisionFree same)

end XChainHub.CrossChain.Bridge
