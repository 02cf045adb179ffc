import Mathlib.Data.List.Infix
import WalletToolbox.Services
import WalletToolbox.Services.ServiceCollection

/-! # Broadcasting through one provider after another

`UntilSuccess` tries the providers from the cursor on, at most as many times as there are providers,
and stops at the first success.
A provider that could not process the request goes to the end of the list, and the cursor goes to the
next place. -/

namespace WalletToolbox

open WalletToolbox.Storage

/-- `str::contains`. -/
def textContains (text pattern : String) : Bool :=
  decide (pattern.toList <:+: text.toList)

/-- `PostBeefProvider`: the answer, and the milliseconds after which it comes. -/
structure PostBeefProvider where
  postBeef : Bytes → List String → PostBeefResult
  msecs : Bytes → List String → Nat

/-- The result of one attempt, with the soft timeout; without one the call waits for the answer. -/
def callProvider (beef : Bytes) (txids : List String) (softTimeoutMs : Nat)
    (provider : NamedService PostBeefProvider) : PostBeefResult :=
  if 0 < softTimeoutMs ∧ softTimeoutMs < provider.service.msecs beef txids then
    .timeout provider.name txids softTimeoutMs
  else provider.service.postBeef beef txids

def PostBeefResult.isSuccess (r : PostBeefResult) : Bool :=
  r.status == "success"

/-- An error text that mentions a timeout counts as one. -/
def PostBeefResult.isTimeout (r : PostBeefResult) : Bool :=
  (r.error.map (textContains · "timeout")).getD false

def PostBeefResult.allServiceError (r : PostBeefResult) : Bool :=
  r.txidResults.all (·.serviceError == some true)

/-- What a failed attempt does to the collection. -/
def afterFailure (coll : ServiceCollection PostBeefProvider)
    (provider : NamedService PostBeefProvider) (result : PostBeefResult) :
    ServiceCollection PostBeefProvider :=
  let coll :=
    if !result.isTimeout && result.allServiceError then coll.moveServiceToLast provider.name
    else coll
  coll.next

/-- The loop: the attempts, each with the name of its provider, and the collection they leave. -/
def attempts (call : NamedService PostBeefProvider → PostBeefResult) :
    Nat → ServiceCollection PostBeefProvider →
      List (String × PostBeefResult) × ServiceCollection PostBeefProvider
  | 0, coll => ([], coll)
  | turns + 1, coll =>
    match coll.serviceToCall with
    | none => ([], coll)
    | some provider =>
      let result := call provider
      if result.isSuccess then ([(provider.name, result)], coll)
      else
        let (rest, coll) := attempts call turns (afterFailure coll provider result)
        ((provider.name, result) :: rest, coll)

/-- `post_beef_until_success`. -/
def postBeefUntilSuccess (beef : Bytes) (txids : List String) (softTimeoutMs : Nat)
    (coll : ServiceCollection PostBeefProvider) :
    List PostBeefResult × ServiceCollection PostBeefProvider :=
  let (tried, coll) := attempts (callProvider beef txids softTimeoutMs) coll.services.length coll
  if tried.isEmpty then
    ([{ name := "<noservices>", status := "error"
        error := some "No postBeef services available", txidResults := [] }], coll)
  else (tried.map Prod.snd, coll)

end WalletToolbox
