import Mathlib.Data.List.Basic
import Mathlib.Tactic.Common

/-! # ServiceCollection

The providers of one kind of service, in the order in which they are tried, and a cursor to the next
one.
The call history that the source keeps next to them has no influence on either. -/

namespace WalletToolbox

/-- `NamedService`. -/
structure NamedService (τ : Type) where
  name : String
  service : τ

/-- `ServiceCollection`; the cursor never points past the providers. -/
structure ServiceCollection (τ : Type) where
  services : List (NamedService τ) := []
  index : Nat := 0
  inRange : index ≠ 0 → index < services.length := by decide

namespace ServiceCollection

variable {τ : Type}

theorem index_lt (coll : ServiceCollection τ) (h : coll.services ≠ []) :
    coll.index < coll.services.length := by
  by_cases hzero : coll.index = 0
  · rw [hzero]
    exact List.length_pos_iff.mpr h
  · exact coll.inRange hzero

/-- `service_to_call`. -/
def serviceToCall (coll : ServiceCollection τ) : Option (NamedService τ) :=
  coll.services[coll.index]?

/-- `next`. -/
def next (coll : ServiceCollection τ) : ServiceCollection τ where
  services := coll.services
  index := if coll.services.isEmpty then coll.index else (coll.index + 1) % coll.services.length
  inRange := by
    split
    · exact coll.inRange
    · rename_i hne
      intro _
      exact Nat.mod_lt _ (List.length_pos_iff.mpr (by simpa using hne))

/-- `move_service_to_last`. -/
def moveServiceToLast (coll : ServiceCollection τ) (providerName : String) : ServiceCollection τ :=
  match coll.services.findIdx? (·.name == providerName) with
  | none => coll
  | some pos =>
    let services := coll.services.eraseIdx pos ++ (coll.services[pos]?).toList
    { services
      index := if services.length ≤ coll.index then 0 else coll.index
      inRange := by
        split
        · exact fun h => absurd rfl h
        · exact fun _ => Nat.lt_of_not_le ‹_› }

end ServiceCollection

end WalletToolbox
