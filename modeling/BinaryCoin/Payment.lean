/-
  BinaryCoin — fees.cpp, and `create_payment` of hd_wallet_backend.cpp.

  A payment takes the smallest coins first, until they pay for the amount and
  for the fee of the transaction that spends them.  Its size is estimated
  before it is signed, with the longest scripts that signatures give.
-/
import BinaryCoin.Signature
import BinaryCoin.WalletFile

namespace BinaryCoin

open Cursor Std

/-- `std::overflow_error`, which handlers catch as the `std::runtime_error` that it is. -/
def overflowError (what : String) : Exn := ⟨.runtimeError, what⟩

structure FeeRate where
  bitsPerKvb : Int64

def FeeRate.fee (rate : FeeRate) (virtualBytes : ℕ) : Except Exn ℤ := do
  throwIf (rate.bitsPerKvb < 0) (runtimeError "Negative fee rates are invalid")
  if virtualBytes = 0 ∨ rate.bitsPerKvb = 0 then return 0
  let bits := rate.bitsPerKvb.toInt.toNat
  throwIf (virtualBytes > (2 ^ 64 - 1 - 999) / bits) (overflowError "Fee calculation overflow")
  let rounded : ℤ := (bits * virtualBytes + 999) / 1000
  throwIf (rounded > maxMoney) (overflowError "Calculated fee exceeds money range")
  return rounded

def Transaction.virtualSize (t : Transaction) : Except Exn ℕ := do return (← t.serialize).length

/-- `estimated_signed_size`: every input with a script of 75 bytes. -/
def estimatedSignedSize (t : Transaction) : Except Exn ℕ := do
  let inputs := t.inputs.map fun input => { input with scriptSig := 74 :: List.replicate 74 0 }
  return (← { t with inputs := inputs }.serialize).length

section
variable [Crypto] [KeyCrypto]

structure Available where
  outpoint : OutPoint
  coin : Coin
  key : Secp256k1Secret

namespace Available

def value (item : Available) : ℤ := item.coin.output.value

/-- The order in which coins are taken. -/
def before (left right : Available) : Bool :=
  if left.value ≠ right.value then left.value < right.value
  else (compare left.outpoint right.outpoint).isLT

def input (item : Available) : TxInput := ⟨item.outpoint, [], 0xffffffff⟩

end Available

/-- A transaction that spends the coins, not signed. -/
def unsignedPayment (chosen : List Available) (outputs : List TxOutput) : Transaction :=
  ⟨1, chosen.map Available.input, outputs, 0⟩

/-- The outputs of a payment, with the change that is known. -/
def paymentOutputs (amount : ℤ) (destinationScript changeScript : Bytes) (change : ℤ) :
    List TxOutput :=
  [⟨amount, destinationScript⟩, ⟨change, changeScript⟩]

/-- The fee that is estimated for spending the coins. -/
def estimatedFee (rate : FeeRate) (amount : ℤ) (destinationScript changeScript : Bytes)
    (chosen : List Available) : Except Exn ℤ := do
  rate.fee (← estimatedSignedSize
    (unsignedPayment chosen (paymentOutputs amount destinationScript changeScript 0)))

/-- The loop that takes coins: those taken, and their total. -/
def selectCoins (fee : List Available → Except Exn ℤ) (amount : ℤ) :
    List Available → List Available → ℤ → Except Exn (List Available × ℤ)
  | [], chosen, inputTotal => return (chosen, inputTotal)
  | item :: rest, chosen, inputTotal => do
    let chosen := chosen ++ [item]
    throwIf (inputTotal > maxMoney - item.value) (runtimeError "Selected input overflow")
    let inputTotal := inputTotal + item.value
    let estimated ← fee chosen
    if inputTotal ≥ amount ∧ inputTotal - amount ≥ estimated then return (chosen, inputTotal)
    else selectCoins fee amount rest chosen inputTotal

/-- A key as `sign_p2pk_input` takes it; `sign` is `Secp256k1Key::sign_der`. -/
def Secp256k1Secret.signer (sign : Secp256k1Secret → Hash256 → Except Exn Bytes)
    (key : Secp256k1Secret) : Secp256k1Key :=
  ⟨key.compressedPublicKey, sign key⟩

variable (sign : Secp256k1Secret → Hash256 → Except Exn Bytes)

/-- The body of the loop that signs. -/
def signInput (transaction : Transaction) (entry : Available × ℕ) : Except Exn Transaction :=
  signP2pkInput transaction entry.2 entry.1.coin.output.scriptPubkey (entry.1.key.signer sign)

namespace HdWalletBackend

/-- The loop over the coins: those that the wallet owns and that are mature. -/
def availableCoins (spendHeight : UInt64) :
    List (OutPoint × Coin) → EStateM Exn HdWalletBackend (List Available)
  | [] => return []
  | (outpoint, coin) :: rest => do
    match ← keyForScript coin.output.scriptPubkey with
    | none => availableCoins spendHeight rest
    | some key =>
      if coin.coinbase ∧ spendHeight < coin.height + coinbaseMaturity then
        availableCoins spendHeight rest
      else return ⟨outpoint, coin, key⟩ :: (← availableCoins spendHeight rest)

/-- The key that change is paid to.  The legacy key is dereferenced without a check. -/
def changeKey (w : HdWalletBackend) : Except Exn Secp256k1Secret :=
  match w.kind with
  | .hdBip32 => w.hdKey 1 0
  | .legacySingleKey => orThrow w.legacyKey (runtimeError "undefined")

/-- `create_payment` after the coins have been collected. -/
def payFrom (available : List Available) (destinationScript changeScript : Bytes) (amount : ℤ)
    (feeRate : FeeRate) : Except Exn Transaction := do
  let fee := estimatedFee feeRate amount destinationScript changeScript
  let (chosen, inputTotal) ← selectCoins fee amount
    (available.mergeSort fun left right => ¬ right.before left) [] 0
  throwIf (inputTotal < amount) (runtimeError "Insufficient mature balance")
  let reservedFee ← fee chosen
  throwIf (inputTotal < amount + reservedFee) (runtimeError "Insufficient balance after fee")
  let change := inputTotal - amount - reservedFee
  let outputs := if change = 0 then [⟨amount, destinationScript⟩]
    else paymentOutputs amount destinationScript changeScript change
  let transaction ← chosen.zipIdx.foldlM (signInput sign) (unsignedPayment chosen outputs)
  throwIf (reservedFee < (← feeRate.fee (← transaction.virtualSize)))
    (runtimeError "Reserved transaction fee was unexpectedly too small")
  return transaction

def createPayment (utxos : UtxoSet) (spendHeight : UInt64) (destinationPublicKey : Bytes)
    (amount : ℤ) (feeRate : FeeRate) : EStateM Exn HdWalletBackend Transaction := do
  throwIf (amount ≤ 0 ∨ ¬ moneyRange amount)
    (invalidArgument "Payment amount is outside money range")
  let destinationScript ← makeP2pkScript destinationPublicKey
  let changeKey ← (← get).changeKey
  let changeScript ← makeP2pkScript changeKey.compressedPublicKey
  let available ← availableCoins spendHeight utxos.toList
  payFrom sign available destinationScript changeScript amount feeRate

end HdWalletBackend

/-! ## Signing -/

variable {sign} {t t' : Transaction}

omit [Crypto] [KeyCrypto] in
theorem getElem?_setScriptSig {j : ℕ} {scriptSig : Bytes} (h : j < t.inputs.length) :
    (t.setScriptSig j scriptSig).inputs[j]? = some { t.inputs[j] with scriptSig := scriptSig } := by
  simp [Transaction.setScriptSig, h]

omit [KeyCrypto] in
/-- The input that has been signed is verified. -/
theorem signP2pkInput_verify (key : Secp256k1Key) {j : ℕ} {script : Bytes}
    (hverify : ∀ hash signature, key.signDer hash = .ok signature →
      verifyEcdsaDer hash signature key.compressedPublicKey)
    (h : signP2pkInput t j script key = .ok t') : verifyP2pkInput t' j script = .ok true := by
  simp only [signP2pkInput, except_bind_ok, throwIf_ok, except_pure_ok, not_not, ne_eq] at h
  obtain ⟨publicKey, hpublic, -, rfl, hash, hhash, signature, hsignature, scriptSig, hpush, rfl⟩ := h
  simp only [pushScriptData, except_bind_ok, throwIf_ok, except_pure_ok, exists_const] at hpush
  obtain ⟨hlength, rfl⟩ := hpush
  obtain ⟨hj, -, -⟩ := signatureHashAll_ok.1 hhash
  have hp2pk : isP2pkScript script := by
    simp only [extractP2pkPublicKey, except_bind_ok, throwIf_ok, not_not, exists_const] at hpublic
    exact hpublic.1
  have hsize : (UInt8.ofNat (signature ++ [sighashAll.toUInt8]).length).toNat =
      (signature ++ [sighashAll.toUInt8]).length :=
    UInt8.toNat_ofNat_of_lt' (by simp only [UInt8.size]; omega)
  rw [verifyP2pkInput, getElem?_setScriptSig hj]
  simp only [hp2pk, hsize, not_true, if_false, ne_eq, or_false, List.append_eq_nil_iff,
    List.cons_ne_nil, and_false, List.getLastD_concat, List.dropLast_concat]
  rw [hpublic, signatureHashAll_congr unsigned_setScriptSig, hhash]
  exact congrArg Except.ok (hverify hash signature hsignature)

/-- Some inputs have been signed: the transaction is the same but for its scripts, and each of them
    is verified, and the others as before. -/
theorem foldlM_signInput {entries : List (Available × ℕ)}
    (hverify : ∀ key hash signature, sign key hash = .ok signature →
      verifyEcdsaDer hash signature key.compressedPublicKey)
    (hnodup : (entries.map Prod.snd).Nodup) (h : entries.foldlM (signInput sign) t = .ok t') :
    t'.unsigned = t.unsigned ∧
    (∀ e ∈ entries, verifyP2pkInput t' e.2 e.1.coin.output.scriptPubkey = .ok true) ∧
    ∀ i script, i ∉ entries.map Prod.snd → verifyP2pkInput t' i script = verifyP2pkInput t i script := by
  induction entries generalizing t with
  | nil =>
    obtain rfl := except_pure_ok.1 h
    exact ⟨rfl, by simp, fun _ _ _ => rfl⟩
  | cons e es ih =>
    rw [List.foldlM_cons, except_bind_ok] at h
    obtain ⟨t₁, he, h⟩ := h
    rw [List.map_cons, List.nodup_cons] at hnodup
    obtain ⟨hunsigned, hverified, hother⟩ := ih hnodup.2 h
    have hfirst := signP2pkInput_verify (e.1.key.signer sign) (hverify e.1.key) he
    obtain ⟨scriptSig, rfl⟩ := signP2pkInput_ok he
    refine ⟨hunsigned.trans unsigned_setScriptSig, ?_, ?_⟩
    · rintro e' (_ | ⟨_, he'⟩)
      · rw [hother _ _ hnodup.1]
        exact hfirst
      · exact hverified e' he'
    · intro i script hi
      rw [List.map_cons, List.mem_cons, not_or] at hi
      rw [hother i script hi.2]
      exact verifyP2pkInput_setScriptSig hi.1

/-! ## Taking coins -/

section
variable {fee : List Available → Except Exn ℤ} {amount total total' : ℤ}
  {rest chosen chosen' : List Available}

/-- The values of some coins. -/
def sumValues (items : List Available) : ℤ := (items.map Available.value).sum

omit [Crypto] in
theorem sumValues_append (items items' : List Available) :
    sumValues (items ++ items') = sumValues items + sumValues items' := by
  rw [sumValues, List.map_append, List.sum_append]
  rfl

/-- No running total is outside of the money range. -/
def Bounded (items : List Available) : Prop := ∀ k, sumValues (items.take k) ≤ maxMoney

omit [Crypto] in
theorem Bounded.nil : Bounded [] := by
  intro k
  rw [List.take_nil]
  exact (by decide : (0 : ℤ) ≤ maxMoney)

omit [Crypto] in
theorem Bounded.snoc {item : Available} (h : Bounded chosen)
    (hlast : sumValues chosen + item.value ≤ maxMoney) : Bounded (chosen ++ [item]) := by
  intro k
  by_cases hk : k ≤ chosen.length
  · rw [List.take_append_of_le_length hk]
    exact h k
  · rw [List.take_of_length_le (by rw [List.length_append, List.length_singleton]; omega),
      sumValues_append]
    simpa [sumValues] using hlast

omit [Crypto] in
/-- What is taken is a prefix of the coins, with its total. -/
theorem selectCoins_ok (h : selectCoins fee amount rest chosen total = .ok (chosen', total'))
    (htotal : total = sumValues chosen) (hbounded : Bounded chosen) :
    (∃ taken left, rest = taken ++ left ∧ chosen' = chosen ++ taken) ∧
      total' = sumValues chosen' ∧ Bounded chosen' := by
  induction rest generalizing chosen total with
  | nil =>
    obtain ⟨rfl, rfl⟩ := Prod.mk.inj (Except.ok.inj h)
    exact ⟨⟨[], [], rfl, (List.append_nil _).symm⟩, htotal, hbounded⟩
  | cons item rest ih =>
    simp only [selectCoins, except_bind_ok, throwIf_ok, exists_const] at h
    obtain ⟨hle, estimated, -, h⟩ := h
    have hnext : total + item.value = sumValues (chosen ++ [item]) := by
      rw [sumValues_append, htotal]
      simp [sumValues]
    have hbounded' : Bounded (chosen ++ [item]) := hbounded.snoc (by rw [← htotal]; omega)
    split_ifs at h
    · obtain ⟨rfl, rfl⟩ := Prod.mk.inj (Except.ok.inj h)
      exact ⟨⟨[item], rest, rfl, rfl⟩, hnext, hbounded'⟩
    · obtain ⟨⟨taken, left, rfl, rfl⟩, htotal', hbounded''⟩ := ih h hnext hbounded'
      exact ⟨⟨item :: taken, left, rfl, by simp⟩, htotal', hbounded''⟩

end

/-! ## The coins of the wallet -/

namespace HdWalletBackend

variable {w w' : HdWalletBackend}

/-- The entries that the cache has, or gets when it is rebuilt. -/
def Caches (w : HdWalletBackend) (entries : List (Bytes × Secp256k1Secret)) : Prop :=
  w.ownedCache = some entries ∨ w.ownedCache = none ∧ w.ownedEntries = .ok entries

/-- The wallet with its cache. -/
def withCache (w : HdWalletBackend) (entries : List (Bytes × Secp256k1Secret)) : HdWalletBackend :=
  { w with ownedCache := some entries }

/-- The key for a script among the entries. -/
def findKey (entries : List (Bytes × Secp256k1Secret)) (script : Bytes) : Option Secp256k1Secret :=
  (entries.find? (·.1 = script)).map Prod.snd

theorem keyForScript_ok {script : Bytes} {key : Option Secp256k1Secret} :
    (keyForScript script).run w = .ok key w' ↔
      ∃ entries, w.Caches entries ∧ w' = w.withCache entries ∧ key = findKey entries script := by
  simp only [keyForScript, run_bind_ok, run_pure_ok, rebuildOwnedCache, run_get_ok]
  constructor
  · rintro ⟨entries, w₁, ⟨_, _, ⟨rfl, rfl⟩, h⟩, rfl, rfl⟩
    cases hcache : w.ownedCache with
    | some entries' =>
      rw [hcache] at h
      obtain ⟨rfl, rfl⟩ := run_pure_ok.1 h
      refine ⟨entries', .inl hcache, ?_, rfl⟩
      rw [withCache, ← hcache]
    | none =>
      rw [hcache] at h
      simp only [run_bind_ok, lift_run_ok, run_set_ok, run_pure_ok] at h
      obtain ⟨_, _, ⟨hentries, rfl⟩, _, _, rfl, rfl, rfl⟩ := h
      exact ⟨_, .inr ⟨hcache, hentries⟩, rfl, rfl⟩
  · rintro ⟨entries, hcaches, rfl, rfl⟩
    refine ⟨entries, w.withCache entries, ⟨w, w, ⟨rfl, rfl⟩, ?_⟩, rfl, rfl⟩
    obtain hcache | ⟨hcache, hentries⟩ := hcaches
    · rw [hcache]
      have hw : w.withCache entries = w := by rw [withCache, ← hcache]
      rw [hw]
      rfl
    · rw [hcache]
      simp only [run_bind_ok, lift_run_ok, run_set_ok, run_pure_ok]
      exact ⟨entries, w, ⟨hentries, rfl⟩, (), _, rfl, rfl, rfl⟩

theorem caches_withCache {entries entries' : List (Bytes × Secp256k1Secret)} :
    (w.withCache entries).Caches entries' ↔ entries' = entries := by
  constructor
  · rintro (h | ⟨h, -⟩)
    · exact (Option.some.inj h).symm
    · cases h
  · rintro rfl
    exact .inl rfl

/-- What the loop makes of a coin. -/
def available (entries : List (Bytes × Secp256k1Secret)) (spendHeight : UInt64)
    (entry : OutPoint × Coin) : Option Available :=
  match findKey entries entry.2.output.scriptPubkey with
  | none => none
  | some key =>
    if entry.2.coinbase ∧ spendHeight < entry.2.height + coinbaseMaturity then none
    else some ⟨entry.1, entry.2, key⟩

omit [Crypto] in
theorem available_eq_some {entries : List (Bytes × Secp256k1Secret)} {spendHeight : UInt64}
    {entry : OutPoint × Coin} {item : Available} :
    available entries spendHeight entry = some item ↔
      item.outpoint = entry.1 ∧ item.coin = entry.2 ∧
      findKey entries entry.2.output.scriptPubkey = some item.key ∧
      Spendable entry.2 spendHeight := by
  unfold available Spendable
  cases hkey : findKey entries entry.2.output.scriptPubkey with
  | none => simp
  | some key =>
    obtain ⟨outpoint, coin, key'⟩ := item
    simp only [Option.ite_none_left_eq_some, not_and, Option.some.injEq, Available.mk.injEq]
    constructor
    · rintro ⟨hmature, rfl, rfl, rfl⟩
      exact ⟨rfl, rfl, rfl, hmature⟩
    · rintro ⟨rfl, rfl, rfl, hmature⟩
      exact ⟨hmature, rfl, rfl, rfl⟩

theorem availableCoins_run {entries : List (Bytes × Secp256k1Secret)} {spendHeight : UInt64}
    {coins : List (OutPoint × Coin)} (h : w.Caches entries) : ∃ w',
    (availableCoins spendHeight coins).run w =
      .ok (coins.filterMap (available entries spendHeight)) w' := by
  induction coins generalizing w with
  | nil => exact ⟨w, rfl⟩
  | cons entry coins ih =>
    obtain ⟨outpoint, coin⟩ := entry
    obtain ⟨w', hrun⟩ := ih (caches_withCache.2 rfl : (w.withCache entries).Caches entries)
    have hkey : (keyForScript coin.output.scriptPubkey).run w =
        .ok (findKey entries coin.output.scriptPubkey) (w.withCache entries) :=
      keyForScript_ok.2 ⟨entries, h, rfl, rfl⟩
    refine ⟨w', ?_⟩
    rw [availableCoins, run_bind_of_ok hkey, List.filterMap_cons, available]
    cases findKey entries coin.output.scriptPubkey with
    | none => exact hrun
    | some key =>
      dsimp only
      split_ifs
      · exact hrun
      · rw [run_bind_of_ok hrun]
        rfl

theorem availableCoins_ok {spendHeight : UInt64} {coins : List (OutPoint × Coin)}
    {items : List Available} (h : (availableCoins spendHeight coins).run w = .ok items w') :
    ∃ entries, (coins ≠ [] → w.Caches entries) ∧
      items = coins.filterMap (available entries spendHeight) := by
  cases coins with
  | nil =>
    obtain ⟨rfl, -⟩ := run_pure_ok.1 h
    exact ⟨[], fun hne => absurd rfl hne, rfl⟩
  | cons entry coins =>
    have hfirst := h
    rw [availableCoins, run_bind_ok] at hfirst
    obtain ⟨key, w₁, hkey, -⟩ := hfirst
    obtain ⟨entries, hcaches, -, -⟩ := keyForScript_ok.1 hkey
    obtain ⟨w₂, hrun⟩ : ∃ w₂, (availableCoins spendHeight (entry :: coins)).run w =
      .ok ((entry :: coins).filterMap (available entries spendHeight)) w₂ := availableCoins_run hcaches
    obtain ⟨rfl, -⟩ := EStateM.Result.ok.inj (h.symm.trans hrun)
    exact ⟨entries, fun _ => hcaches, rfl⟩

end HdWalletBackend

/-! ## A payment is applied -/

omit [KeyCrypto] in
/-- The loop over the inputs does not throw. -/
theorem foldlM_scanInput_complete {height : UInt64} {u : UtxoSet} {entries : List (TxInput × ℕ)}
    {seen : List OutPoint} {total : ℤ}
    (hnodup : (entries.map fun e => e.1.previousOutput).Nodup)
    (hseen : ∀ e ∈ entries, e.1.previousOutput ∉ seen)
    (hcoins : ∀ e ∈ entries, ∃ coin, u[e.1.previousOutput]? = some coin ∧ Spendable coin height ∧
      verifyP2pkInput t e.2 coin.output.scriptPubkey = .ok true)
    (hbound : ∀ k, total + ((entries.take k).map fun e => u.valueAt e.1.previousOutput).sum ≤ maxMoney) :
    ∃ state, entries.foldlM (scanInput t height u) (seen, total) = .ok state := by
  induction entries generalizing seen total with
  | nil => exact ⟨_, rfl⟩
  | cons e es ih =>
    obtain ⟨coin, hcoin, hmature, hverify⟩ := hcoins e List.mem_cons_self
    rw [List.map_cons, List.nodup_cons] at hnodup
    have hvalue : u.valueAt e.1.previousOutput = coin.output.value := by
      simp [UtxoSet.valueAt, hcoin]
    have hfirst := hbound 1
    simp only [List.take_succ_cons, List.take_zero, List.map_cons, List.map_nil, List.sum_cons,
      List.sum_nil, add_zero, hvalue] at hfirst
    obtain ⟨state, hrest⟩ : ∃ state, es.foldlM (scanInput t height u)
        (e.1.previousOutput :: seen, total + coin.output.value) = .ok state := by
      refine ih hnodup.2 (fun e' he' => ?_) (fun e' he' => hcoins e' (List.mem_cons_of_mem _ he'))
        fun k => ?_
      · rw [List.mem_cons, not_or]
        refine ⟨fun heq => hnodup.1 ?_, hseen e' (List.mem_cons_of_mem _ he')⟩
        exact List.mem_map.2 ⟨e', he', heq⟩
      · have hk := hbound (k + 1)
        rwa [List.take_succ_cons, List.map_cons, List.sum_cons, hvalue, ← add_assoc] at hk
    refine ⟨state, ?_⟩
    rw [List.foldlM_cons, except_bind_ok]
    refine ⟨_, ?_, hrest⟩
    simp only [scanInput, except_bind_ok, throwIf_ok, orThrow_ok, except_pure_ok, exists_and_left,
      exists_const, not_not]
    exact ⟨hseen e List.mem_cons_self, coin, hcoin, fun hc => hmature hc.1 hc.2, true, hverify, rfl,
      by omega, rfl⟩

omit [Crypto] in
theorem unsigned_unsignedPayment (chosen : List Available) (outputs : List TxOutput) :
    (unsignedPayment chosen outputs).unsigned = unsignedPayment chosen outputs := by
  simp [Transaction.unsigned, unsignedPayment, Available.input, Function.comp_def]

/-- The outputs of a payment, without change of no value. -/
def finalOutputs (amount : ℤ) (destinationScript changeScript : Bytes) (change : ℤ) :
    List TxOutput :=
  if change = 0 then [⟨amount, destinationScript⟩]
  else paymentOutputs amount destinationScript changeScript change

namespace HdWalletBackend

variable {utxos : UtxoSet} {items : List Available} {destinationScript changeScript : Bytes}
  {amount : ℤ} {feeRate : FeeRate} {height : UInt64} {w w' : HdWalletBackend}

/-- The coins in the order in which they are taken. -/
def sortedCoins (items : List Available) : List Available :=
  items.mergeSort fun left right => ¬ right.before left

/-- **What a payment that is returned is**: some of the coins, in order, pay for the amount and the
    fee, and have been signed. -/
theorem payFrom_ok (h : payFrom sign items destinationScript changeScript amount feeRate = .ok t) :
    ∃ chosen left fee, sortedCoins items = chosen ++ left ∧ Bounded chosen ∧
      estimatedFee feeRate amount destinationScript changeScript chosen = .ok fee ∧
      amount + fee ≤ sumValues chosen ∧
      chosen.zipIdx.foldlM (signInput sign) (unsignedPayment chosen (finalOutputs amount
        destinationScript changeScript (sumValues chosen - amount - fee))) = .ok t ∧
      ∃ size minimum, t.virtualSize = .ok size ∧ feeRate.fee size = .ok minimum ∧ minimum ≤ fee := by
  simp only [payFrom, except_bind_ok, throwIf_ok, except_pure_ok, exists_const, Int.not_lt] at h
  obtain ⟨⟨chosen, total⟩, hselect, -, fee, hfee, hle, t', hsign, size, hsize, minimum, hminimum,
    hreserved, rfl⟩ := h
  obtain ⟨⟨taken, left, hsorted, rfl⟩, rfl, hbounded⟩ := selectCoins_ok hselect rfl Bounded.nil
  exact ⟨chosen, left, fee, hsorted, hbounded, hfee, hle, hsign, size, minimum, hsize, hminimum,
    hreserved⟩

/-- The wallet owns the outputs with a script. -/
def Owns (w : HdWalletBackend) (script : Bytes) : Prop :=
  ∃ w', (ownsScript script).run w = .ok true w'

theorem Caches.owns {entries : List (Bytes × Secp256k1Secret)} {script : Bytes}
    {key : Secp256k1Secret} (h : w.Caches entries) (hkey : findKey entries script = some key) :
    w.Owns script := by
  have hrun : (keyForScript script).run w = .ok (some key) (w.withCache entries) :=
    keyForScript_ok.2 ⟨entries, h, rfl, hkey.symm⟩
  refine ⟨w.withCache entries, ?_⟩
  rw [ownsScript, run_bind_of_ok hrun]
  rfl

omit [Crypto] [KeyCrypto] in
theorem map_zipIdx_fst {α β : Type} (f : α → β) (l : List α) :
    (l.zipIdx.map fun e => f e.1) = l.map f := by
  conv_rhs => rw [← List.zipIdx_map_fst 0 l, List.map_map]
  rfl

/-- The coins that a payment spends. -/
structure Spends (utxos : UtxoSet) (height : UInt64) (chosen : List Available) : Prop where
  nodup : (chosen.map Available.outpoint).Nodup
  coin : ∀ item ∈ chosen, utxos[item.outpoint]? = some item.coin ∧ Spendable item.coin height
  bounded : Bounded chosen

variable {chosen : List Available} {outputs : List TxOutput}

/-- A payment that has been signed: it is the one that was not but for its scripts, and every input
    is verified. -/
structure Signed (chosen : List Available) (outputs : List TxOutput) (t : Transaction) : Prop where
  unsigned : t.unsigned = unsignedPayment chosen outputs
  verified : ∀ e ∈ chosen.zipIdx, verifyP2pkInput t e.2 e.1.coin.output.scriptPubkey = .ok true

theorem signed_of_foldlM
    (hverify : ∀ key hash signature, sign key hash = .ok signature →
      verifyEcdsaDer hash signature key.compressedPublicKey)
    (h : chosen.zipIdx.foldlM (signInput sign) (unsignedPayment chosen outputs) = .ok t) :
    Signed chosen outputs t := by
  have hsnd : chosen.zipIdx.map Prod.snd = List.range' 0 chosen.length := List.zipIdx_map_snd 0 chosen
  obtain ⟨hunsigned, hverified, -⟩ := foldlM_signInput hverify (hsnd ▸ List.nodup_range') h
  exact ⟨hunsigned.trans (unsigned_unsignedPayment chosen outputs), hverified⟩

omit [Crypto] in
theorem previousOutputs_of_unsigned (h : t.unsigned = unsignedPayment chosen outputs) :
    t.inputs.map TxInput.previousOutput = chosen.map Available.outpoint := by
  have hinputs := congrArg (fun t => t.inputs.map TxInput.previousOutput) h
  simpa only [Transaction.unsigned, unsignedPayment, List.map_map, Function.comp_def,
    Available.input] using hinputs

theorem Signed.previousOutputs (h : Signed chosen outputs t) :
    t.inputs.map TxInput.previousOutput = chosen.map Available.outpoint :=
  previousOutputs_of_unsigned h.unsigned

theorem Signed.outputs_eq (h : Signed chosen outputs t) : t.outputs = outputs :=
  congrArg Transaction.outputs h.unsigned

omit [Crypto] in
theorem Spends.values (h : Spends utxos height chosen) :
    (chosen.map Available.outpoint).map utxos.valueAt = chosen.map Available.value := by
  rw [List.map_map]
  refine List.map_congr_left fun item hitem => ?_
  simp [UtxoSet.valueAt, (h.coin item hitem).1, Available.value]

theorem Spends.spentValue (h : Spends utxos height chosen) (hsigned : Signed chosen outputs t) :
    spentValue utxos t.inputs = sumValues chosen := by
  rw [sumValues, ← h.values, ← hsigned.previousOutputs, List.map_map]
  rfl

/-- A payment that has been signed is applied. -/
theorem Spends.applied (h : Spends utxos height chosen) (hsigned : Signed chosen outputs t)
    (hnull : utxos[(⟨zeroHashHex, 0xffffffff⟩ : OutPoint)]? = none)
    (hfree : ∀ index, (⟨t.id, index⟩ : OutPoint) ∉ utxos)
    (hst : t.Structure) (hle : t.outputValue ≤ sumValues chosen) :
    ∃ utxos', (applyTransaction t height).run utxos =
      .ok (sumValues chosen - t.outputValue) utxos' := by
  have hprevious := hsigned.previousOutputs
  have hvalues : t.inputs.map (fun input => utxos.valueAt input.previousOutput) =
      chosen.map Available.value := by
    rw [← h.values, ← hprevious, List.map_map]
    rfl
  have hentries : (t.inputs.zipIdx.map fun e => utxos.valueAt e.1.previousOutput) =
      chosen.map Available.value :=
    (map_zipIdx_fst (fun input => utxos.valueAt input.previousOutput) t.inputs).trans hvalues
  obtain ⟨state, hstate⟩ : ∃ state, t.inputs.zipIdx.foldlM (scanInput t height utxos) ([], 0) =
      .ok state := by
    refine foldlM_scanInput_complete ?_ (by simp) ?_ fun k => ?_
    · rw [map_zipIdx_fst TxInput.previousOutput, hprevious]
      exact h.nodup
    · rintro ⟨input, k⟩ he
      have hk := congrArg (·[k]?) hprevious
      simp only [List.getElem?_map, List.mem_zipIdx_iff_getElem?.1 he, Option.map_some] at hk
      obtain ⟨item, hitem, hpoint⟩ := Option.map_eq_some_iff.1 hk.symm
      obtain ⟨hcoin, hmature⟩ := h.coin item (List.mem_of_getElem? hitem)
      exact ⟨item.coin, hpoint ▸ hcoin, hmature,
        hsigned.verified (item, k) (List.mem_zipIdx_iff_getElem?.2 hitem)⟩
    · rw [List.map_take, hentries, ← List.map_take, zero_add]
      exact h.bounded k
  have hscan : scanInputs t height utxos = .ok state.2 := except_bind_ok.2 ⟨state, hstate, rfl⟩
  have hspent : state.2 = sumValues chosen :=
    (scanInputs_ok hscan).2.2.trans (h.spentValue hsigned)
  have hregular : t.isCoinbase = false := by
    rw [← Bool.not_eq_true]
    intro hcb
    obtain ⟨script, sequence, hinputs⟩ := Transaction.isCoinbase_iff.1 hcb
    have hpoint : (⟨zeroHashHex, 0xffffffff⟩ : OutPoint) ∈ chosen.map Available.outpoint := by
      rw [← hprevious, hinputs]
      exact List.mem_singleton_self _
    obtain ⟨item, hitem, hpoint⟩ := List.mem_map.1 hpoint
    have hcoin := (h.coin item hitem).1
    rw [hpoint, hnull] at hcoin
    cases hcoin
  have hchecked : t.Checked height utxos := ⟨hst, hregular, state.2, hscan, hspent ▸ hle⟩
  obtain ⟨fee, hrun⟩ := applyTransaction_checked hchecked
  have houtputs : t.OutputsFree utxos := fun n _ hmem => hfree _ (eraseInputs_mem hmem)
  obtain ⟨utxos', hadd⟩ := houtputs.run hst
  rw [run_bind_of_ok hadd] at hrun
  have happlied : (applyTransaction t height).run utxos = .ok fee utxos' := hrun
  refine ⟨utxos', ?_⟩
  rw [happlied, (applyTransaction_ok happlied).fee_eq, h.spentValue hsigned]

omit [Crypto] in
theorem outpoints_sublist (entries : List (Bytes × Secp256k1Secret)) (height : UInt64)
    (coins : List (OutPoint × Coin)) :
    ((coins.filterMap (available entries height)).map Available.outpoint).Sublist
      (coins.map Prod.fst) := by
  induction coins with
  | nil => exact .slnil
  | cons entry coins ih =>
    rw [List.filterMap_cons, List.map_cons]
    cases hitem : available entries height entry with
    | none => exact ih.cons _
    | some item =>
      rw [List.map_cons, (available_eq_some.1 hitem).1]
      exact ih.cons_cons _

omit [Crypto] [KeyCrypto] in
theorem nodup_outpoints (utxos : UtxoSet) : (utxos.toList.map Prod.fst).Nodup := by
  refine List.pairwise_map.2 ((ExtTreeMap.distinct_keys_toList (t := utxos)).imp ?_)
  intro a b hne heq
  exact hne (heq ▸ ReflCmp.compare_self)

omit [Crypto] in
/-- What is chosen of the coins of the wallet can be spent. -/
theorem spends_of_sorted {entries : List (Bytes × Secp256k1Secret)} {left : List Available}
    (hsorted : sortedCoins (utxos.toList.filterMap (available entries height)) = chosen ++ left)
    (hbounded : Bounded chosen) : Spends utxos height chosen := by
  have hperm : (chosen ++ left).Perm (utxos.toList.filterMap (available entries height)) :=
    hsorted ▸ List.mergeSort_perm _ _
  constructor
  · have hnodup := (outpoints_sublist entries height utxos.toList).nodup (nodup_outpoints utxos)
    rw [← (hperm.map Available.outpoint).nodup_iff, List.map_append] at hnodup
    exact hnodup.of_append_left
  · intro item hitem
    obtain ⟨entry, hentry, havailable⟩ :=
      List.mem_filterMap.1 (hperm.subset (List.mem_append_left left hitem))
    obtain ⟨hpoint, hcoin, -, hmature⟩ := available_eq_some.1 havailable
    rw [hpoint, hcoin]
    exact ⟨OrdMap.mem_toList.1 hentry, hmature⟩
  · exact hbounded

theorem Spends.owns {entries : List (Bytes × Secp256k1Secret)} {left : List Available}
    (hsorted : sortedCoins (utxos.toList.filterMap (available entries height)) = chosen ++ left)
    (hcaches : utxos.toList ≠ [] → w.Caches entries) :
    ∀ item ∈ chosen, w.Owns item.coin.output.scriptPubkey := by
  have hperm : (chosen ++ left).Perm (utxos.toList.filterMap (available entries height)) :=
    hsorted ▸ List.mergeSort_perm _ _
  intro item hitem
  obtain ⟨entry, hentry, havailable⟩ :=
    List.mem_filterMap.1 (hperm.subset (List.mem_append_left left hitem))
  obtain ⟨-, hcoin, hkey, -⟩ := available_eq_some.1 havailable
  rw [hcoin]
  exact (hcaches (List.ne_nil_of_mem hentry)).owns hkey

omit [Crypto] [KeyCrypto] in
theorem fee_nonneg {size : ℕ} {fee : ℤ} (h : feeRate.fee size = .ok fee) : 0 ≤ fee := by
  simp only [FeeRate.fee, except_bind_ok, throwIf_ok, exists_const] at h
  obtain ⟨-, h⟩ := h
  split_ifs at h
  · exact (except_pure_ok.1 h).le
  · simp only [except_bind_ok, throwIf_ok, exists_const, except_pure_ok] at h
    obtain ⟨-, -, rfl⟩ := h
    positivity

omit [Crypto] [KeyCrypto] in
/-- The estimate does not depend on the scripts. -/
theorem estimatedSignedSize_congr (h : t.unsigned = t'.unsigned) (outputs : List TxOutput) :
    estimatedSignedSize { t with outputs := outputs } =
      estimatedSignedSize { t' with outputs := outputs } := by
  have hmap : ∀ t : Transaction, (t.inputs.map fun input =>
      { input with scriptSig := 74 :: List.replicate 74 0 }) =
      t.unsigned.inputs.map fun input => { input with scriptSig := 74 :: List.replicate 74 0 } := by
    intro t
    rw [Transaction.unsigned, List.map_map]
    rfl
  have hversion : t.version = t'.version := by
    have hunsigned := congrArg Transaction.version h
    exact hunsigned
  have hlock : t.lockTime = t'.lockTime := by
    have hunsigned := congrArg Transaction.lockTime h
    exact hunsigned
  simp only [estimatedSignedSize, hmap t, hmap t', h, hversion, hlock]

omit [Crypto] [KeyCrypto] in
theorem finalOutputs_sum (amount : ℤ) (destinationScript changeScript : Bytes) (change : ℤ) :
    ((finalOutputs amount destinationScript changeScript change).map TxOutput.value).sum =
      amount + change := by
  unfold finalOutputs
  split_ifs with h
  · simp [h]
  · simp [paymentOutputs]

/-- **`create_payment` is sound.**  What it returns spends mature coins of the wallet, pays the
    amount and nothing but change, and is applied with the fee that was estimated. -/
theorem createPayment_sound {destinationPublicKey : Bytes}
    (hverify : ∀ key hash signature, sign key hash = .ok signature →
      verifyEcdsaDer hash signature key.compressedPublicKey)
    (hnull : utxos[(⟨zeroHashHex, 0xffffffff⟩ : OutPoint)]? = none)
    (hfree : ∀ index, (⟨t.id, index⟩ : OutPoint) ∉ utxos)
    (h : (createPayment sign utxos height destinationPublicKey amount feeRate).run w = .ok t w') :
    (t.inputs.map TxInput.previousOutput).Nodup ∧
    (∀ input ∈ t.inputs, ∃ coin, utxos[input.previousOutput]? = some coin ∧
      w.Owns coin.output.scriptPubkey ∧ Spendable coin height) ∧
    ∃ destinationScript changeKey changeScript fee,
      makeP2pkScript destinationPublicKey = .ok destinationScript ∧ w.changeKey = .ok changeKey ∧
      makeP2pkScript changeKey.compressedPublicKey = .ok changeScript ∧
      (t.outputs = [⟨amount, destinationScript⟩] ∨
        ∃ change, t.outputs = [⟨amount, destinationScript⟩, ⟨change, changeScript⟩]) ∧
      spentValue utxos t.inputs = t.outputValue + fee ∧
      (∃ size, estimatedSignedSize { t with outputs :=
        [⟨amount, destinationScript⟩, ⟨0, changeScript⟩] } = .ok size ∧ feeRate.fee size = .ok fee) ∧
      (∃ size minimum, t.virtualSize = .ok size ∧ feeRate.fee size = .ok minimum ∧ minimum ≤ fee) ∧
      ∃ utxos', (applyTransaction t height).run utxos = .ok fee utxos' := by
  simp only [createPayment, run_bind_ok, throwIf_run_ok, lift_run_ok, run_get_ok] at h
  obtain ⟨_, _, ⟨-, rfl⟩, destinationScript, _, ⟨hdestination, rfl⟩, _, _, ⟨rfl, rfl⟩, changeKey, _,
    ⟨hkey, rfl⟩, changeScript, _, ⟨hchange, rfl⟩, items, w₁, hitems, hpay, rfl⟩ := h
  obtain ⟨entries, hcaches, hitems⟩ := availableCoins_ok hitems
  obtain ⟨chosen, left, fee, hsorted, hbounded, hfee, hle, hsign, hsize⟩ := payFrom_ok hpay
  obtain rfl := hitems
  have hspends := spends_of_sorted hsorted hbounded
  have hsigned := signed_of_foldlM hverify hsign
  have houtputs := hsigned.outputs_eq
  obtain ⟨size, minimum, hsize, hminimum, hreserved⟩ := hsize
  have hst : t.Structure := by
    obtain ⟨bytes, hbytes, -⟩ := except_bind_ok.1 hsize
    exact (Transaction.serialize_ok.1 hbytes).1
  obtain ⟨estimate, hestimate, hfee⟩ := except_bind_ok.1 hfee
  have hvalue : t.outputValue + fee = sumValues chosen := by
    rw [Transaction.outputValue, houtputs, finalOutputs_sum]
    omega
  have hnonneg := fee_nonneg hfee
  refine ⟨hsigned.previousOutputs ▸ hspends.nodup, fun input hinput => ?_, destinationScript,
    changeKey, changeScript, fee, hdestination, hkey, hchange, ?_,
    (hspends.spentValue hsigned).trans hvalue.symm, ⟨estimate, ?_, hfee⟩,
    ⟨size, minimum, hsize, hminimum, hreserved⟩, ?_⟩
  · have hpoint : input.previousOutput ∈ chosen.map Available.outpoint :=
      hsigned.previousOutputs ▸ List.mem_map_of_mem hinput
    obtain ⟨item, hitem, hpoint⟩ := List.mem_map.1 hpoint
    obtain ⟨hcoin, hmature⟩ := hspends.coin item hitem
    exact ⟨item.coin, hpoint ▸ hcoin, Spends.owns hsorted hcaches item hitem, hmature⟩
  · rw [houtputs]
    unfold finalOutputs
    split_ifs
    · exact .inl rfl
    · exact .inr ⟨_, rfl⟩
  · rw [← hestimate]
    exact estimatedSignedSize_congr (hsigned.unsigned.trans (unsigned_unsignedPayment ..).symm) _
  · obtain ⟨utxos', happly⟩ := hspends.applied hsigned hnull hfree hst (by omega)
    exact ⟨utxos', happly.trans (by rw [← hvalue, add_sub_cancel_left])⟩

end HdWalletBackend

end

/-! ## Payments of the genesis key -/

open LittleEndian

/-- What payments hash: for every input the string that is signed, and then the whole.  The first one
    spends only the null outpoint, the second one input and the third one two. -/
def paymentDigests : List (ℕ × ℕ × ℕ) := [
  (0x1b5dc14a0060c5dc, 0xd85af42b403a09fadaae0c6a9a8ac3d6fa03ba844ad8d3f935e27d29adc6eaac,
    0x329e02431516a0c283239f8bcc8c85cddb51939bf9519051074e2a092fcbc834),
  (0x1385af05f51f08b8, 0xdccdef030ed055df1524df1e6c4a740a82b50518be34a1d56cb4a77daca100b,
    0x844e9c204049691cf25de45223be68a77625785c1d34ebd24480fa96fcc2dbf3),
  (0x1aa3d83d30aee920, 0x740841e71fc605d633acaa143ae72b29d83cf6351ce50876e5a7184838217183,
    0xc1577bca061a90cac6c68716826d2e0075675571b72e04d4e16ec807b9a012fd),
  (0x00c3ffb3107b22ae, 0xddca7d0b909bc14d1758bf1b5a4e4a643864fb177e8307c61eee926c09dbd458,
    0x40c4759f4df02027df8a606adde887a17eefe9bafd7b63a29a93a8aae3586c69),
  (0x130008d9e9c4e304, 0x3d5ec56bfe11b228a2f77b59a10a3aa2e2938b504e65e0ca99ad4669d2c6a43d,
    0x82a72a4afef3d3bb47514c063fc140f20f87d73b8c6c9af16c28802010f7773f),
  (0x02df25c374d24643, 0x40be37e22b1ed42828306a27c3e1c0593600fbf274bcb4ba6e585f026a4ea8b8,
    0x9b4db13b5ac6d9de3afebc7808656418e06189be961668ae338a745ec5e1f416),
  (0x10d29ad376578bd9, 0x4e374d6c9a67eb4f61fab011bdd7652289e85baad4c232fdce880c9ca6f30a98,
    0xd1eb084f05bac9ab35df7f0fcbe424ae65be64fcee192344c5408cda62b766f0)]

/-- The signature of the first payment by the genesis key. -/
def nullSignature : ℕ :=
  0x30440220517e5cb0a71159d22a7174e6ad2b6045dabbaf756b775ea91be94eba8c3ab22f02200a13711348e687b7162e32ecf8a5da929e5442b6ec3c611b6d3cbd9e82d31ca3

def paymentSignatures : List (ℕ × ℕ) := [
  (0x329e02431516a0c283239f8bcc8c85cddb51939bf9519051074e2a092fcbc834, nullSignature),
  (0xc1577bca061a90cac6c68716826d2e0075675571b72e04d4e16ec807b9a012fd,
    0x3044022046740bf9a8b832eb4b854d9559d773e5aeb4d2e046e6e7fa9f7f575718a7cde102206d1e35d46f4d9f0290748eb2bfefd21879053322bab6120fe8a3fffb38c9b6c9),
  (0x82a72a4afef3d3bb47514c063fc140f20f87d73b8c6c9af16c28802010f7773f,
    0x304402200083b70028057ef04841a480d63ecdcc58f68d2b54c8a54b395c9b666a310b40022078ec6bdcb6268d4ad06ad86691d90173c05ff40e2c00d44e3809c906e05025e6),
  (0x9b4db13b5ac6d9de3afebc7808656418e06189be961668ae338a745ec5e1f416,
    0x30440220705f93a85aae0cbc62e3705db8e241de4ac0d5f7a449ccbe8c5c26e9a6cf37ff02200cbea88d8ad75805aba0fe84e94957c93706b45b41e33a2acefbdd90815c8d3e)] ++
  sampleSignatures

/-- The library functions on the strings of the sample chain, and of the payments. -/
@[reducible] def paymentCrypto : Crypto where
  sha256 data := digestOf (digestIn (ofLe data) (fingerprint (ofLe data))
    (paymentDigests ++ sampleDigests))
  verifyEcdsaDer hash der key := decide (key = genesisPublicKey) &&
    paymentSignatures.contains (ofLe hash.bytes, ofLe der.reverse)
  validCompressedPublicKey key := key = genesisPublicKey

/-- The secret of the genesis key. -/
def genesisSecret : Hash256 := Hash256.ofBytes (List.replicate 31 0 ++ [1])

/-- The library functions on that secret; no other is valid. -/
@[reducible] def genesisKeyCrypto : KeyCrypto where
  validSecretKey secret := secret = genesisSecret
  publicKey _ := genesisPublicKey
  tweakAdd _ _ := none
  hmacSha512 _ _ := (genesisSecret, genesisSecret)
  pbkdf2 _ _ := []

section
attribute [local instance] paymentCrypto genesisKeyCrypto

/-- Signatures of the table. -/
def tableSign (_ : Secp256k1Secret) (hash : Hash256) : Except Exn Bytes := do
  let row ← orThrow (paymentSignatures.find? (·.1 = ofLe hash.bytes))
    (runtimeError "Unable to create ECDSA signature")
  return (leBytes 70 row.2).reverse

theorem tableSign_verify (key : Secp256k1Secret) (hash : Hash256) (signature : Bytes)
    (h : tableSign key hash = .ok signature) :
    verifyEcdsaDer hash signature key.compressedPublicKey := by
  have hnumbers : ∀ row ∈ paymentSignatures, ofLe (leBytes 70 row.2) = row.2 := by decide +kernel
  simp only [tableSign, except_bind_ok, orThrow_ok, except_pure_ok] at h
  obtain ⟨row, hrow, rfl⟩ := h
  have hmem := List.mem_of_find?_eq_some hrow
  have hhash : row.1 = ofLe hash.bytes := by simpa using List.find?_some hrow
  have hpair : (ofLe hash.bytes, ofLe (leBytes 70 row.2).reverse.reverse) = row := by
    rw [List.reverse_reverse, hnumbers row hmem, ← hhash]
  have hcontains : paymentSignatures.contains
      (ofLe hash.bytes, ofLe (leBytes 70 row.2).reverse.reverse) := by
    rw [hpair]
    exact List.contains_iff_mem.2 hmem
  exact Bool.and_eq_true_iff.2 ⟨decide_eq_true rfl, hcontains⟩

def genesisKey : Secp256k1Secret := ⟨genesisSecret, decide_eq_true rfl⟩

/-- A wallet with the genesis key. -/
def genesisWallet : HdWalletBackend where
  dataDirectory := ""
  walletFile := none
  legacyFile := none
  kind := .legacySingleKey
  legacyKey := some genesisKey

/-- Pays an output's whole value back to the genesis key, without a fee. -/
def payBack (outpoint : OutPoint) : EStateM.Result Exn HdWalletBackend Transaction :=
  (HdWalletBackend.createPayment tableSign ((∅ : UtxoSet).insert outpoint firstCoin) 101
    genesisPublicKey initialSubsidy ⟨0⟩).run genesisWallet

def nullSpend : Transaction where
  version := 1
  inputs := [⟨⟨zeroHashHex, 0xffffffff⟩, 71 :: (leBytes 70 nullSignature).reverse ++ [1],
    0xffffffff⟩]
  outputs := [⟨initialSubsidy, sampleScript⟩]
  lockTime := 0

/-- The transaction of a result. -/
def paid : EStateM.Result Exn HdWalletBackend Transaction → Option Transaction
  | .ok t _ => some t
  | .error _ _ => none

theorem payBack_facts : paid (payBack ⟨zeroHashHex, 0xffffffff⟩) = some nullSpend ∧
    nullSpend.id ≠ zeroHashHex := by
  decide +kernel

theorem payBack_of_paid {outpoint : OutPoint} {t : Transaction} (h : paid (payBack outpoint) = some t) :
    ∃ w', payBack outpoint = .ok t w' := by
  cases hrun : payBack outpoint with
  | ok t' w' =>
    rw [hrun] at h
    exact ⟨w', by rw [Option.some.inj h]⟩
  | error e w' =>
    rw [hrun] at h
    cases h

theorem notMem_insert {outpoint : OutPoint} {txid : Str} (h : txid ≠ outpoint.txid) (index : UInt32) :
    (⟨txid, index⟩ : OutPoint) ∉ (∅ : UtxoSet).insert outpoint firstCoin := by
  rw [ExtTreeMap.mem_insert, LawfulEqOrd.compare_eq_iff_eq]
  rintro (heq | hmem)
  · exact h (congrArg OutPoint.txid heq).symm
  · exact ExtTreeMap.not_mem_empty hmem

/-- A payment that spends only the null outpoint looks like a coinbase, and is not applied. -/
theorem createPayment_null : (∃ w', (HdWalletBackend.createPayment tableSign
      ((∅ : UtxoSet).insert ⟨zeroHashHex, 0xffffffff⟩ firstCoin) 101 genesisPublicKey initialSubsidy
      ⟨0⟩).run genesisWallet = .ok nullSpend w') ∧
    (∀ key hash signature, tableSign key hash = .ok signature → signature.length ≤ 72 ∧
      verifyEcdsaDer hash signature key.compressedPublicKey) ∧
    (∀ index, (⟨nullSpend.id, index⟩ : OutPoint) ∉
      (∅ : UtxoSet).insert ⟨zeroHashHex, 0xffffffff⟩ firstCoin) ∧
    ¬ ∃ fee utxos', (applyTransaction nullSpend 101).run
      ((∅ : UtxoSet).insert ⟨zeroHashHex, 0xffffffff⟩ firstCoin) = .ok fee utxos' := by
  refine ⟨payBack_of_paid payBack_facts.1, fun key hash signature h =>
    ⟨?_, tableSign_verify key hash signature h⟩, notMem_insert payBack_facts.2, ?_⟩
  · simp only [tableSign, except_bind_ok, except_pure_ok] at h
    obtain ⟨row, -, rfl⟩ := h
    rw [List.length_reverse, length_leBytes]
    decide
  · rintro ⟨fee, utxos', h⟩
    simp only [applyTransaction, run_bind_ok, throwIf_run_ok] at h
    obtain ⟨_, _, -, _, _, ⟨hregular, -⟩, -⟩ := h
    exact hregular (Transaction.isCoinbase_iff.2 ⟨_, _, rfl⟩)

end

end BinaryCoin
