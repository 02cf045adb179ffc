import WalletToolbox.Error

/-! # What survives the wire

A hop keeps the code and every structured field but the constraint of an invalid parameter.
The message of the object is the displayed text, prefix included, so each hop puts the prefix once
more in front of the message. -/

namespace WalletToolbox.Wire

variable {ρ σ ω : Type}

namespace WalletError

/-- The structured fields of an error, apart from `mustBe`. -/
structure Fields (ρ σ ω : Type) where
  parameter : Option String := none
  satoshis : Option (Int64 × Int64) := none
  key : Option String := none
  review : Option (List ρ × List σ) := none
  txid : Option String := none
  tx : Option (List UInt8) := none
  noSendChange : Option (List ω) := none
  block : Option (String × UInt32 × String) := none

def fields : WalletError ρ σ ω → Fields ρ σ ω
  | invalidParameter parameter _ => { parameter := some parameter }
  | missingParameter parameter => { parameter := some parameter }
  | insufficientFunds _ total more => { satoshis := some (total, more) }
  | invalidPublicKey _ key => { key := some key }
  | reviewActions _ reviewActionResults sendWithResults txid tx noSendChange =>
    { review := some (reviewActionResults, sendWithResults), txid, tx
      noSendChange := some noSendChange }
  | invalidMerkleRoot _ blockHash blockHeight merkleRoot txid =>
    { block := some (blockHash, blockHeight, merkleRoot), txid }
  | _ => {}

/-- `must_be` of an invalid parameter. -/
def mustBe : WalletError ρ σ ω → Option String
  | invalidParameter _ mustBe => some mustBe
  | _ => none

/-- The rebuilt error says the same as the original. -/
structure Survives (e e' : WalletError ρ σ ω) : Prop where
  code : e'.code = e.code
  fields : e'.fields = e.fields
  mustBe : e'.mustBe = e.mustBe
  display : e'.display = e.display

/-- The errors whose text does not come from a message. -/
def Messageless : WalletError ρ σ ω → Prop
  | missingParameter _ | broadcastUnavailable => True
  | _ => False

end WalletError

open WalletError

/-! ## One hop -/

theorem hop_of_messageless {e : WalletError ρ σ ω} (h : e.Messageless) : hop e = e := by
  cases e with
  | missingParameter => rfl
  | broadcastUnavailable => rfl
  | _ => exact h.elim

theorem messageless_hop {e : WalletError ρ σ ω} : (hop e).Messageless ↔ e.Messageless := by
  cases e <;> exact Iff.rfl

/-- The text in front of the message. -/
def prefixOf : WalletError ρ σ ω → String
  | .invalidParameter parameter _ =>
    "WERR_INVALID_PARAMETER: The " ++ parameter ++ " parameter must be "
  | e => e.code ++ ": "

/-- The rebuilt error displays the prefix in front of the displayed original. -/
theorem display_hop {e : WalletError ρ σ ω} (h : ¬e.Messageless) :
    (hop e).display = prefixOf e ++ e.display := by
  cases e with
  | missingParameter => exact absurd trivial h
  | broadcastUnavailable => exact absurd trivial h
  | _ => rfl

theorem prefixOf_length_pos (e : WalletError ρ σ ω) : 0 < (prefixOf e).length := by
  have hlen : ∀ a b : String, b ≠ "" → 0 < (a ++ b).length := by
    intro a b hb
    have hpos : b.length ≠ 0 := fun h => hb (String.length_eq_zero_iff.mp h)
    rw [String.length_append]
    omega
  unfold prefixOf
  split
  · exact hlen _ _ (by decide)
  · exact hlen _ _ (by decide)

theorem display_length_lt {e : WalletError ρ σ ω} (h : ¬e.Messageless) :
    e.display.length < (hop e).display.length := by
  have hpos := prefixOf_length_pos e
  rw [display_hop h, String.length_append]
  omega

/-! ## Any number of hops -/

theorem display_length_le_hops (n : Nat) {e : WalletError ρ σ ω} (h : ¬e.Messageless) :
    e.display.length ≤ (hop^[n] e).display.length := by
  induction n generalizing e with
  | zero => exact Nat.le_refl _
  | succ n ih =>
    rw [Function.iterate_succ_apply]
    exact Nat.le_trans (Nat.le_of_lt (display_length_lt h)) (ih (mt messageless_hop.mp h))

/-- An error says the same after some hops exactly when there was none, or when its text does not
come from a message. -/
theorem survives_hops_iff (n : Nat) (e : WalletError ρ σ ω) :
    Survives e (hop^[n] e) ↔ n = 0 ∨ e.Messageless := by
  constructor
  · intro h
    cases n with
    | zero => exact .inl rfl
    | succ n =>
      by_contra hnot
      have hmessage : ¬e.Messageless := fun hm => hnot (.inr hm)
      -- the first hop makes the text longer and the others do not shorten it
      have hfirst := display_length_lt hmessage
      have hrest := display_length_le_hops n (mt messageless_hop.mp hmessage)
      have hsame := congrArg String.length h.display
      rw [Function.iterate_succ_apply] at hsame
      omega
  · rintro (rfl | h)
    · exact ⟨rfl, rfl, rfl, rfl⟩
    · have hfixed : hop^[n] e = e := Function.iterate_fixed (hop_of_messageless h) n
      rw [hfixed]
      exact ⟨rfl, rfl, rfl, rfl⟩

/-- "Not active" comes back with its prefix twice. -/
theorem survives_not_notActive :
    ¬∀ (n : Nat) (e : WalletError Unit Unit Unit), Survives e (hop^[n] e) := by
  intro h
  have hsurvives := h 1 (.notActive "storage is not active")
  have hmessage : ¬(WalletError.notActive "storage is not active" :
      WalletError Unit Unit Unit).Messageless := not_false
  exact Nat.ne_of_gt (display_length_lt hmessage) (congrArg String.length hsurvives.display)

end WalletToolbox.Wire
