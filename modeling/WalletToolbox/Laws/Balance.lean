import Mathlib.Algebra.Ring.Int.Defs
import WalletToolbox.Laws.ChangeAmounts
import WalletToolbox.Laws.Users
import WalletToolbox.Sample
import WalletToolbox.Wallet.Convenience

/-! # The balance as a sum

The operation sums what the claim on a basket says, and lists each output of the sum once.
The sum then travels in the count field of a listing, which has 32 bits, so it arrives whole exactly
when it fits there. -/

namespace WalletToolbox

open WalletToolbox.Lib WalletToolbox.Storage

/-- The user's spendable outputs in a basket, of the transactions that may be spent from. -/
def spendableIn (s : Store) (userId : Nat) (basket : String) : List Output :=
  s.outputs.find fun o =>
    o.userId == userId && o.spendable &&
      s.outputBaskets.exists? (fun b =>
        b.userId == userId && b.name == basket && o.basketId == some b.basketId) &&
      s.transactions.exists? fun t =>
        t.transactionId == o.transactionId &&
          [.completed, .unproven, .nosend, .sending].contains t.status

def fundsIn (s : Store) (userId : Nat) (basket : String) : Int :=
  ((spendableIn s userId basket).map (·.satoshis)).sum

/-! ## What the operation reads -/

section Reads

variable {s : Store} {userId : Nat} {basket : String} {o : Output}

theorem isVisible_iff {basketId : Nat} : isVisible s userId (some basketId) o =
    (o.userId == userId && o.spendable && (o.basketId == some basketId) &&
      s.transactions.exists? fun t => t.transactionId == o.transactionId &&
        [.completed, .unproven, .nosend, .sending].contains t.status) := by
  have hstatus : ((s.transactions.first fun t => t.transactionId == o.transactionId).any
      fun t => txStatusAllowed.contains t.status) = s.transactions.exists? fun t =>
        t.transactionId == o.transactionId &&
          [.completed, .unproven, .nosend, .sending].contains t.status := by
    rw [Bool.eq_iff_iff, Table.exists?_eq_true, Option.any_eq_true]
    constructor
    · rintro ⟨t, hfirst, hallowed⟩
      obtain ⟨ht, hid⟩ := Table.first_some hfirst
      exact ⟨t, ht, by rw [hid]; exact hallowed⟩
    · rintro ⟨t, ht, h⟩
      obtain ⟨hid, hallowed⟩ := Bool.and_eq_true_iff.mp h
      cases hfirst : s.transactions.first fun t => t.transactionId == o.transactionId with
      | none =>
        rw [Table.first_none.mp hfirst t ht] at hid
        cases hid
      | some t' =>
        obtain ⟨ht', hid'⟩ := Table.first_some hfirst
        have hsame : t' = t := Table.eq_of_key_eq ht' ht
          ((eq_of_beq hid').trans (eq_of_beq hid).symm)
        exact ⟨t', rfl, by rw [hsame]; exact hallowed⟩
  unfold isVisible
  rw [hstatus, Option.all_some]
  cases o.userId == userId <;> cases o.spendable <;> simp

/-- A user has one basket of a name at most. -/
theorem findBasketOutputs_eq : findBasketOutputs s userId basket = spendableIn s userId basket := by
  unfold findBasketOutputs spendableIn
  cases hbaskets : s.outputBaskets.find fun b => b.userId == userId && b.name == basket with
  | nil =>
    refine (List.filter_eq_nil_iff.mpr fun o ho hin => ?_).symm
    simp only [Bool.and_eq_true, Table.exists?_eq_true] at hin
    obtain ⟨⟨-, b, hb, hname, -⟩, -⟩ := hin
    have hmem : b ∈ s.outputBaskets.find fun b => b.userId == userId && b.name == basket :=
      Table.mem_find.mpr ⟨hb, by simpa using hname⟩
    rw [hbaskets] at hmem
    cases hmem
  | cons b rest =>
    have hb : b ∈ s.outputBaskets.find fun b => b.userId == userId && b.name == basket := by
      rw [hbaskets]
      exact List.mem_cons_self
    obtain ⟨hb, hname⟩ := Table.mem_find.mp hb
    have hbasket : ∀ o : Output, (o.basketId == some b.basketId) =
        s.outputBaskets.exists? fun b =>
          b.userId == userId && b.name == basket && o.basketId == some b.basketId := by
      intro o
      rw [Bool.eq_iff_iff, Table.exists?_eq_true]
      constructor
      · intro hin
        exact ⟨b, hb, by rw [hname, hin]; rfl⟩
      · rintro ⟨b', hb', h⟩
        simp only [Bool.and_eq_true, beq_iff_eq] at h hname
        have hsame : b' = b := s.unique.outputBaskets.eq hb' hb
          (Prod.ext (h.1.2.trans hname.2.symm) (h.1.1.trans hname.1.symm))
        exact beq_iff_eq.mpr (hsame ▸ h.2)
    refine List.filter_congr fun o _ => ?_
    rw [isVisible_iff, ← hbasket]

theorem asU64_toNat {n : Int} (hlow : 0 ≤ n) (hhigh : n < 18446744073709551616) :
    ((asU64 n).toNat : Int) = n := by
  have hmod := Int.emod_eq_of_lt hlow hhigh
  unfold asU64
  rw [hmod, UInt64.toNat_ofNat']
  omega

theorem sumNat_asU64 {os : List Output}
    (h : ∀ o ∈ os, 0 ≤ o.satoshis ∧ o.satoshis ≤ 9223372036854775807) :
    (sumNat (os.map fun o => asU64 o.satoshis) : Int) = (os.map (·.satoshis)).sum := by
  induction os with
  | nil => rfl
  | cons o os ih =>
    obtain ⟨hlow, hhigh⟩ := h o List.mem_cons_self
    have htail := ih fun o' ho' => h o' (List.mem_cons_of_mem _ ho')
    have hhead := asU64_toNat hlow (by omega)
    rw [List.map_cons, List.map_cons, sumNat_cons, List.sum_cons]
    omega

/-- The balance operation: the sum without its high half, and every output of the sum. -/
theorem handleWalletBalance_spec
    (hamounts : ∀ o ∈ spendableIn s userId basket,
      0 ≤ o.satoshis ∧ o.satoshis ≤ 9223372036854775807)
    (htotal : fundsIn s userId basket < 18446744073709551616) :
    ((handleWalletBalance s userId basket).totalOutputs : Int) =
        fundsIn s userId basket % 4294967296 ∧
      (handleWalletBalance s userId basket).outputs =
        (spendableIn s userId basket).map toBriefOutput := by
  have hsum := sumNat_asU64 hamounts
  rw [show ((spendableIn s userId basket).map (·.satoshis)).sum = fundsIn s userId basket from rfl]
    at hsum
  have hword := @sumU64_toNat ((spendableIn s userId basket).map fun o => asU64 o.satoshis)
    (by omega)
  unfold handleWalletBalance
  rw [findBasketOutputs_eq]
  refine ⟨?_, rfl⟩
  dsimp only
  rw [hword]
  omega

end Reads

/-! ## The wallet's calls -/

/-- The basket whose balance is asked for; the ids of the other operations are no baskets. -/
def askedBasket : Option ListOutputsArgs → Option String
  | none => some "default"
  | some a =>
    if a.basket = specOpWalletBalance then some "default"
    else if a.basket = specOpInvalidChange ∨ a.basket = specOpSetWalletChangeParams then none
    else some a.basket

/-- The calls return the sum, and the second lists each output of the sum once. -/
structure BalanceExact (sdk : ListingSdk) (w : Wallet) (s : Store) (userId : Nat) (basket : String)
    (args : Option ListOutputsArgs) : Prop where
  balance : ∃ r s', (w.balance sdk args).run Stmt.exec s = (.ok r, s') ∧
    (r.toNat : Int) = fundsIn s userId basket
  utxos : ∃ r s', (w.balanceAndUtxos sdk args).run Stmt.exec s = (.ok r, s') ∧
    List.Forall₂ (fun u o => (u.satoshis.toNat : Int) = o.satoshis ∧
      u.outpoint = o.txid.getD "" ++ "." ++ toString o.vout) r.utxos (spendableIn s userId basket) ∧
    r.total.toNat = (r.utxos.map (·.satoshis.toNat)).sum

section Calls

variable {sdk : ListingSdk} {w : Wallet} {s : Store} {u : User} {basket : String}
  {args : Option ListOutputsArgs}

theorem run_resolveUserScope (hu : u ∈ s.users) :
    (resolveUserScope ⟨u.identityKey, none⟩).run Stmt.exec s = (.ok u.userId, s) := by
  have hwp : Prog.wp Stmt.exec (resolveUserScope ⟨u.identityKey, none⟩)
      (fun id s' => id = u.userId ∧ s' = s) (fun _ => False) s := by
    unfold resolveUserScope
    rw [Prog.wp_bind]
    refine wp_findOrInsertUser (fun v hv => ?_) fun hnone => ?_
    · rw [userOf_eq hu] at hv
      cases hv
      exact ⟨rfl, rfl⟩
    · rw [userOf_eq hu] at hnone
      cases hnone
  obtain ⟨id, s', hrun, rfl, rfl⟩ := Prog.wp_total hwp
  exact hrun

theorem balanceArgs_of_op {a : ListOutputsArgs} (h : a.basket = specOpWalletBalance) :
    Wallet.balanceArgs (some a) = a :=
  if_neg (not_not.mpr h)

theorem balanceArgs_of_basket {a : ListOutputsArgs} (h : a.basket ≠ specOpWalletBalance) :
    Wallet.balanceArgs (some a) = { a with tags := a.tags ++ [specOpWalletBalance] } :=
  if_pos h

theorem resolve_balanceArgs (hbasket : askedBasket args = some basket) :
    ∃ tags, resolveListOutputsSpecOp (Wallet.balanceArgs args).basket (Wallet.balanceArgs args).tags =
      (some .walletBalance, basket, tags) := by
  cases args with
  | none =>
    cases hbasket
    exact ⟨[], rfl⟩
  | some a =>
    simp only [askedBasket] at hbasket
    by_cases hbalance : a.basket = specOpWalletBalance
    · rw [if_pos hbalance] at hbasket
      cases hbasket
      rw [balanceArgs_of_op hbalance]
      exact ⟨a.tags, if_pos hbalance⟩
    · rw [if_neg hbalance] at hbasket
      split_ifs at hbasket with hother
      obtain ⟨hinvalid, hchange⟩ := not_or.mp hother
      cases hbasket
      rw [balanceArgs_of_basket hbalance]
      unfold resolveListOutputsSpecOp
      rw [if_neg hbalance, if_neg hinvalid, if_neg hchange, if_pos (by simp)]
      exact ⟨_, rfl⟩

theorem includes_balanceArgs (h : ∀ a ∈ args, a.includes ≠ some .entireTransactions) :
    (Wallet.balanceArgs args).includes ≠ some .entireTransactions := by
  cases args with
  | none => exact nofun
  | some a =>
    by_cases hbalance : a.basket = specOpWalletBalance
    · rw [balanceArgs_of_op hbalance]
      exact h a rfl
    · rw [balanceArgs_of_basket hbalance]
      exact h a rfl

theorem run_listOutputs_balance (hu : u ∈ s.users) (hkey : u.identityKey = w.identityKey)
    (hbasket : askedBasket args = some basket)
    (hvalid : sdk.validateListOutputsArgs (Wallet.balanceArgs args) = .ok ())
    (hincludes : ∀ a ∈ args, a.includes ≠ some .entireTransactions) :
    (w.listOutputs sdk (Wallet.balanceArgs args)).run Stmt.exec s =
      (.ok (handleWalletBalance s u.userId basket), s) := by
  obtain ⟨tags, hresolve⟩ := resolve_balanceArgs hbasket
  have hincludes := includes_balanceArgs hincludes
  generalize Wallet.balanceArgs args = a at hvalid hresolve hincludes
  have hauth : (listOutputsAuth ⟨w.identityKey, none⟩ a).run Stmt.exec s =
      (.ok (handleWalletBalance s u.userId basket), s) := by
    unfold listOutputsAuth
    rw [← hkey, Prog.run_bind_of_ok (run_resolveUserScope hu)]
    unfold listOutputsRw
    rw [hresolve]
    rfl
  have hattach : attachBeef sdk s.toTables a (handleWalletBalance s u.userId basket) =
      .ok (handleWalletBalance s u.userId basket) :=
    if_neg fun h => hincludes h.1
  unfold Wallet.listOutputs
  rw [hvalid]
  refine (Prog.run_bind_of_ok (Prog.run_ofExcept _ _)).trans ?_
  rw [Prog.run_bind_of_ok (Prog.run_attempt _ _), hauth]
  dsimp only
  rw [Prog.run_bind_of_ok (Prog.run_ask _ _), hattach]
  rfl

/-- The balance is the sum exactly when the sum fits in the count field. -/
theorem balance_exact_iff (sdk : ListingSdk) (w : Wallet) (s : Store) (u : User) (basket : String)
    (args : Option ListOutputsArgs) (hu : u ∈ s.users) (hkey : u.identityKey = w.identityKey)
    (hbasket : askedBasket args = some basket)
    (hvalid : sdk.validateListOutputsArgs (Wallet.balanceArgs args) = .ok ())
    (hincludes : ∀ a ∈ args, a.includes ≠ some .entireTransactions)
    (hamounts : ∀ o ∈ spendableIn s u.userId basket,
      0 ≤ o.satoshis ∧ o.satoshis ≤ 9223372036854775807)
    (htotal : fundsIn s u.userId basket < 18446744073709551616) :
    BalanceExact sdk w s u.userId basket args ↔ fundsIn s u.userId basket < 4294967296 := by
  obtain ⟨hcount, houtputs⟩ := handleWalletBalance_spec hamounts htotal
  have hrun := run_listOutputs_balance (s := s) hu hkey hbasket hvalid hincludes
  have hbalance : (w.balance sdk args).run Stmt.exec s =
      (.ok (UInt64.ofNat (handleWalletBalance s u.userId basket).totalOutputs), s) := by
    unfold Wallet.balance
    rw [Prog.run_bind_of_ok hrun]
    rfl
  have hutxos : (w.balanceAndUtxos sdk args).run Stmt.exec s =
      (.ok ⟨UInt64.ofNat (handleWalletBalance s u.userId basket).totalOutputs,
        ((spendableIn s u.userId basket).map toBriefOutput).map fun o => ⟨o.satoshis, o.outpoint⟩⟩,
        s) := by
    unfold Wallet.balanceAndUtxos
    rw [Prog.run_bind_of_ok hrun, houtputs]
    rfl
  have hnonneg : 0 ≤ fundsIn s u.userId basket :=
    List.sum_nonneg fun n hn => by
      obtain ⟨o, ho, rfl⟩ := List.mem_map.mp hn
      exact (hamounts o ho).1
  have hword : ((UInt64.ofNat (handleWalletBalance s u.userId basket).totalOutputs).toNat : Int) =
      fundsIn s u.userId basket % 4294967296 := by
    rw [UInt64.toNat_ofNat']
    omega
  constructor
  · intro h
    obtain ⟨r, s', hr, hexact⟩ := h.balance
    rw [hbalance] at hr
    cases hr
    omega
  · intro hfits
    refine ⟨⟨_, _, hbalance, by omega⟩, _, _, hutxos, ?_, ?_⟩
    · rw [List.map_map, List.forall₂_map_left_iff]
      refine List.forall₂_same.mpr fun o ho => ⟨?_, rfl⟩
      exact asU64_toNat (hamounts o ho).1 (by have := (hamounts o ho).2; omega)
    · have hsum := sumNat_asU64 hamounts
      unfold sumNat at hsum
      simp only [List.map_map] at hsum ⊢
      rw [show ((spendableIn s u.userId basket).map (·.satoshis)).sum =
        fundsIn s u.userId basket from rfl] at hsum
      refine Int.ofNat.inj (Eq.trans ?_ hsum.symm)
      simp only [Int.ofNat_eq_natCast]
      omega

end Calls

/-- A store where Alice's default basket holds one coin. -/
def coinStore (satoshis : Int) : Store :=
  (Prog.run Stmt.exec (do
    let (user, _) ← findOrInsertUser Sample.alice
    let basket ← findOrInsertOutputBasket user.userId "default"
    let now ← utcNow
    let id ← Storage.exec (.insertTransaction
      { createdAt := now, updatedAt := now, userId := user.userId, provenTxId := none
        status := .completed, reference := "Y29pbg==", isOutgoing := false, satoshis
        description := "", version := some 1, lockTime := none, txid := some Sample.sourceTxid
        inputBeef := none, rawTx := none })
    Storage.exec (.insertOutput
      { createdAt := now, updatedAt := now, userId := user.userId, transactionId := id
        basketId := some basket.basketId, spendable := true, change := true
        outputDescription := none, vout := 0, satoshis, providedBy := .storage
        purpose := "change", outputType := "P2PKH", txid := some Sample.sourceTxid
        senderIdentityKey := none, derivationPrefix := some "cA==", derivationSuffix := some "cw=="
        customInstructions := none, spentBy := none, sequenceNumber := none
        spendingDescription := none, scriptLength := none, scriptOffset := none
        lockingScript := some Sample.aliceScript }))
    (Store.empty.tick 1700000000000)).2

def coinSdk : ListingSdk :=
  { Sample.sdk with
    parseBump := fun _ => Sample.unknown
    mergeBump := fun _ _ => Sample.unknown
    mergeProvenTx := fun _ _ _ => Sample.unknown
    validateListOutputsArgs := fun _ => .ok ()
    sdkErrorText := fun _ => "" }

def coinWallet : Wallet :=
  { identityKey := Sample.alice, beef := Beef.empty, returnTxidOnly := false }

theorem coinStore_user {satoshis : Int} (h : satoshis = 1000 ∨ satoshis = 4294967296) :
    ∃ u ∈ (coinStore satoshis).users, u.identityKey = Sample.alice ∧
      (spendableIn (coinStore satoshis) u.userId "default").map (·.satoshis) = [satoshis] := by
  rcases h with rfl | rfl
  · decide +kernel
  · decide +kernel

/-- A coin of a thousand satoshis is the whole balance. -/
theorem balance_exact_small :
    ∃ u ∈ (coinStore 1000).users,
      BalanceExact coinSdk coinWallet (coinStore 1000) u.userId "default" none := by
  obtain ⟨u, hu, hkey, hcoins⟩ := coinStore_user (.inl rfl)
  have hamounts : ∀ o ∈ spendableIn (coinStore 1000) u.userId "default", o.satoshis = 1000 := by
    intro o ho
    have hmem := List.mem_map_of_mem (f := (·.satoshis)) ho
    rw [hcoins] at hmem
    exact List.mem_singleton.mp hmem
  have htotal : fundsIn (coinStore 1000) u.userId "default" = 1000 := by
    rw [fundsIn, hcoins]
    rfl
  refine ⟨u, hu, (balance_exact_iff coinSdk coinWallet _ u "default" none hu hkey rfl rfl nofun ?_ ?_).mpr
    ?_⟩
  · intro o ho
    rw [hamounts o ho]
    decide
  · rw [htotal]
    decide
  · rw [htotal]
    decide

/-- A coin of 2^32 satoshis is reported as a balance of nothing. -/
theorem balance_not_exact :
    ∃ u ∈ (coinStore 4294967296).users, u.identityKey = coinWallet.identityKey ∧
      (spendableIn (coinStore 4294967296) u.userId "default").map (·.satoshis) = [4294967296] ∧
      (((coinWallet.balance coinSdk none).run Stmt.exec (coinStore 4294967296)).1.toOption = some 0) ∧
      ¬BalanceExact coinSdk coinWallet (coinStore 4294967296) u.userId "default" none := by
  obtain ⟨u, hu, hkey, hcoins⟩ := coinStore_user (.inr rfl)
  have hzero : ((coinWallet.balance coinSdk none).run Stmt.exec (coinStore 4294967296)).1.toOption =
      some 0 := by decide +kernel
  refine ⟨u, hu, hkey, hcoins, hzero, fun h => ?_⟩
  obtain ⟨r, s', hrun, hexact⟩ := h.balance
  rw [hrun] at hzero
  cases Option.some.inj hzero
  rw [fundsIn, hcoins] at hexact
  exact absurd hexact (by decide)

end WalletToolbox
