/-
  BinaryCoin — utxo.cpp: the set of unspent outputs and what a transaction
  does to it.

  `applyTransaction` is the source's member by member, on an `EStateM` whose
  state is the set: an exception leaves the set as the source leaves it.
  `Applied` collects what a call that returns has checked and done; every
  later proof uses it and none unfolds the loops.
-/
import BinaryCoin.Block
import BinaryCoin.Lib.OrdMap
import BinaryCoin.Lib.Ledger

namespace BinaryCoin

open Cursor Std

/-- `OutPointLess`: by txid, then by index. -/
instance : Ord OutPoint := ⟨compareLex (compareOn OutPoint.txid) (compareOn OutPoint.index)⟩

instance : TransOrd OutPoint :=
  inferInstanceAs (TransCmp (compareLex (compareOn OutPoint.txid) (compareOn OutPoint.index)))

instance : LawfulEqOrd OutPoint where
  eq_of_compare {a b} h := by
    obtain ⟨ht, hi⟩ : compareOn OutPoint.txid a b = .eq ∧ compareOn OutPoint.index a b = .eq :=
      Ordering.then_eq_eq.1 h
    have h₁ : a.txid = b.txid := LawfulEqOrd.eq_of_compare ht
    have h₂ : a.index = b.index := LawfulEqOrd.eq_of_compare hi
    cases a; cases b; cases h₁; cases h₂; rfl

structure Coin where
  output : TxOutput
  height : UInt64
  coinbase : Bool
  deriving DecidableEq

abbrev UtxoSet := ExtTreeMap OutPoint Coin

/-! ## Applying transactions -/

/-- The body of the loop of `sum_outputs`. -/
def sumOutput (total : ℤ) (output : TxOutput) : Except Exn ℤ := do
  throwIf (¬ moneyRange output.value ∨ total > maxMoney - output.value)
    (runtimeError "Transaction output total outside money range")
  return total + output.value

def sumOutputs (transaction : Transaction) : Except Exn ℤ :=
  transaction.outputs.foldlM sumOutput 0

section
variable [Crypto]

/-- The body of the loop over the inputs, with the outpoints seen and the total so far. -/
def scanInput (transaction : Transaction) (spendHeight : UInt64) (utxos : UtxoSet)
    (state : List OutPoint × ℤ) (entry : TxInput × ℕ) : Except Exn (List OutPoint × ℤ) := do
  let (seenInputs, inputTotal) := state
  let outpoint := entry.1.previousOutput
  throwIf (outpoint ∈ seenInputs) (runtimeError "Duplicate transaction input")
  let coin ← orThrow utxos[outpoint]? (runtimeError "Missing or already spent transaction input")
  throwIf (coin.coinbase ∧ spendHeight < coin.height + coinbaseMaturity)
    (runtimeError "Attempt to spend immature coinbase output")
  throwIf (¬ (← verifyP2pkInput transaction entry.2 coin.output.scriptPubkey))
    (runtimeError "Transaction signature validation failed")
  throwIf (inputTotal > maxMoney - coin.output.value)
    (runtimeError "Transaction input total overflow")
  return (outpoint :: seenInputs, inputTotal + coin.output.value)

/-- The loop over the inputs: their total. -/
def scanInputs (transaction : Transaction) (spendHeight : UInt64) (utxos : UtxoSet) :
    Except Exn ℤ := do
  let (_, inputTotal) ←
    transaction.inputs.zipIdx.foldlM (scanInput transaction spendHeight utxos) ([], 0)
  return inputTotal

/-- `utxos.erase` of every input. -/
def eraseInputs (utxos : UtxoSet) (inputs : List TxInput) : UtxoSet :=
  inputs.foldl (fun utxos input => utxos.erase input.previousOutput) utxos

/-- The loops that add the outputs of a transaction or a coinbase; `what` is thrown when an
    outpoint is taken. -/
def addOutputs (what : String) (txid : Str) (height : UInt64) (coinbase : Bool) :
    List (TxOutput × ℕ) → EStateM Exn UtxoSet Unit
  | [] => pure ()
  | (output, index) :: rest => do
    let outpoint : OutPoint := ⟨txid, UInt32.ofNat index⟩
    throwIf ((← get).contains outpoint) (runtimeError what)
    modify fun utxos => utxos.insert outpoint ⟨output, height, coinbase⟩
    addOutputs what txid height coinbase rest

def applyTransaction (transaction : Transaction) (spendHeight : UInt64) : EStateM Exn UtxoSet ℤ := do
  validateTransactionStructure transaction
  throwIf transaction.isCoinbase
    (runtimeError "Coinbase cannot be applied as a regular transaction")
  let utxos ← get
  let inputTotal ← scanInputs transaction spendHeight utxos
  let outputTotal ← sumOutputs transaction
  throwIf (inputTotal < outputTotal) (runtimeError "Transaction spends more than its inputs")
  let fee := inputTotal - outputTotal
  set (eraseInputs utxos transaction.inputs)
  let transactionId ← transaction.txid
  addOutputs "Duplicate transaction output identifier" transactionId spendHeight false
    transaction.outputs.zipIdx
  return fee

/-- `add_coinbase_outputs` of chain.cpp, and the same loop in `build_utxo_set`. -/
def addCoinbaseOutputs (coinbase : Transaction) (height : UInt64) : EStateM Exn UtxoSet Unit := do
  let transactionId ← coinbase.txid
  addOutputs "Duplicate coinbase output identifier" transactionId height true coinbase.outputs.zipIdx

/-- The body of the loop of `build_utxo_set`. -/
def buildBlock (stored : StoredBlock) : EStateM Exn UtxoSet Unit := do
  match stored.block.transactions with
  | [] => throw (runtimeError "Block is missing coinbase transaction")
  | coinbase :: transactions =>
    throwIf (¬ coinbase.isCoinbase) (runtimeError "Block is missing coinbase transaction")
    forM transactions fun transaction => do
      let _ ← applyTransaction transaction stored.height
    addCoinbaseOutputs coinbase stored.height

def buildUtxoSet (blocks : List StoredBlock) : Except Exn UtxoSet :=
  match (forM blocks.tail buildBlock : EStateM Exn UtxoSet Unit).run ∅ with
  | .ok _ utxos => .ok utxos
  | .error e _ => .error e

/-! ## The set as a ledger -/

/-- An output of a coinbase may be spent from `COINBASE_MATURITY` blocks on. -/
def Spendable (coin : Coin) (spendHeight : UInt64) : Prop :=
  coin.coinbase → ¬ spendHeight < coin.height + coinbaseMaturity

/-- The outpoints and coins of the outputs that `addOutputs` adds. -/
def newCoins (txid : Str) (height : UInt64) (coinbase : Bool) (outputs : List (TxOutput × ℕ)) :
    List (OutPoint × Coin) :=
  outputs.map fun p => (⟨txid, UInt32.ofNat p.2⟩, ⟨p.1, height, coinbase⟩)

/-- What connecting a transaction does: it spends its inputs (a coinbase has none to spend) and
    creates its outputs. -/
def Transaction.batch (t : Transaction) (height : UInt64) (coinbase : Bool) :
    Ledger.Batch OutPoint Coin UInt64 where
  spends := if coinbase then [] else t.inputs.map fun input => (input.previousOutput, height)
  creates := newCoins t.id height coinbase t.outputs.zipIdx

/-- The set as a partial map. -/
def UtxoSet.lookup (utxos : UtxoSet) : OutPoint → Option Coin := fun outpoint => utxos[outpoint]?

/-- The sum of the values of all coins. -/
def UtxoSet.total (utxos : UtxoSet) : ℤ := OrdMap.total (fun coin => coin.output.value) utxos

/-- The value at an outpoint, 0 where there is no coin. -/
def UtxoSet.valueAt (utxos : UtxoSet) (outpoint : OutPoint) : ℤ :=
  (utxos[outpoint]?.map fun coin => coin.output.value).getD 0

/-- The value that the inputs spend. -/
def spentValue (utxos : UtxoSet) (inputs : List TxInput) : ℤ :=
  (inputs.map fun input => utxos.valueAt input.previousOutput).sum

/-- The sum of the outputs' values. -/
def Transaction.outputValue (t : Transaction) : ℤ := (t.outputs.map TxOutput.value).sum

omit [Crypto] in
@[simp] theorem UtxoSet.lookup_empty : UtxoSet.lookup ∅ = fun _ => none := by
  funext o; exact ExtTreeMap.getElem?_empty

omit [Crypto] in
theorem UtxoSet.lookup_insert (u : UtxoSet) (o : OutPoint) (coin : Coin) :
    UtxoSet.lookup (u.insert o coin) = Function.update u.lookup o (some coin) := by
  funext o'
  simp only [UtxoSet.lookup, OrdMap.getElem?_insert_eq, Function.update_apply]

omit [Crypto] in
theorem UtxoSet.lookup_erase (u : UtxoSet) (o : OutPoint) :
    UtxoSet.lookup (u.erase o) = Function.update u.lookup o none := by
  funext o'
  simp only [UtxoSet.lookup, OrdMap.getElem?_erase_eq, Function.update_apply]

/-! ## What the loops do -/

omit [Crypto] in
theorem sumOutputs_ok {t : Transaction} {total : ℤ} (h : sumOutputs t = .ok total) :
    total = t.outputValue ∧ (∀ o ∈ t.outputs, moneyRange o.value) := by
  suffices ∀ (outputs : List TxOutput) (start : ℤ), outputs.foldlM sumOutput start = .ok total →
      total = start + (outputs.map TxOutput.value).sum ∧ ∀ o ∈ outputs, moneyRange o.value by
    simpa [Transaction.outputValue] using this t.outputs 0 h
  intro outputs
  induction outputs with
  | nil => intro start h; cases except_pure_ok.1 h; simp
  | cons o os ih =>
    intro start h
    rw [List.foldlM_cons, except_bind_ok] at h
    obtain ⟨_, ho, hos⟩ := h
    simp only [sumOutput, except_bind_ok, throwIf_ok, except_pure_ok, exists_and_left,
      exists_const, not_or, not_not] at ho
    obtain ⟨⟨hr, -⟩, rfl⟩ := ho
    obtain ⟨rfl, hrs⟩ := ih _ hos
    exact ⟨by simp [add_assoc], List.forall_mem_cons.2 ⟨hr, hrs⟩⟩

omit [Crypto] in
/-- Values in range that add up to one in range have a sum. -/
theorem sumOutputs_eq {t : Transaction} (hrange : ∀ o ∈ t.outputs, moneyRange o.value)
    (htotal : t.outputValue ≤ maxMoney) : sumOutputs t = .ok t.outputValue := by
  suffices ∀ (outputs : List TxOutput) (start : ℤ), (∀ o ∈ outputs, moneyRange o.value) →
      start + (outputs.map TxOutput.value).sum ≤ maxMoney →
      outputs.foldlM sumOutput start = .ok (start + (outputs.map TxOutput.value).sum) by
    simpa [sumOutputs, Transaction.outputValue] using
      this t.outputs 0 hrange (by simpa [Transaction.outputValue] using htotal)
  intro outputs
  induction outputs with
  | nil => intro start _ _; simp [pure, Except.pure]
  | cons o os ih =>
    intro start hr ht
    obtain ⟨ho, hos⟩ := List.forall_mem_cons.1 hr
    rw [List.map_cons, List.sum_cons] at ht ⊢
    have hnn := sum_values_nonneg hos
    rw [List.foldlM_cons, except_bind_ok]
    refine ⟨start + o.value, ?_, by rw [ih _ hos (by omega), add_assoc]⟩
    simp only [sumOutput, except_bind_ok, throwIf_ok, except_pure_ok, exists_and_left,
      exists_const, not_or, not_not]
    exact ⟨⟨ho, by omega⟩, trivial⟩

omit [Crypto] in
theorem addOutputs_ok {what : String} {txid : Str} {height : UInt64} {coinbase : Bool}
    {outputs : List (TxOutput × ℕ)} {u u' : UtxoSet} {x : Unit}
    (h : (addOutputs what txid height coinbase outputs).run u = .ok x u') :
    Ledger.Run Spendable u.lookup
      ((newCoins txid height coinbase outputs).map fun p => .create p.1 p.2) u'.lookup ∧
    u'.total = u.total + (outputs.map fun p => p.1.value).sum := by
  induction outputs generalizing u with
  | nil =>
    obtain ⟨-, rfl⟩ := run_pure_ok.1 h
    exact ⟨.nil, by simp⟩
  | cons p rest ih =>
    obtain ⟨output, index⟩ := p
    simp only [addOutputs, run_bind_ok, run_get_ok, throwIf_run_ok, run_modify_ok] at h
    obtain ⟨_, _, ⟨rfl, rfl⟩, _, _, ⟨hfree, rfl⟩, _, _, rfl, h⟩ := h
    have hnone : u[(⟨txid, UInt32.ofNat index⟩ : OutPoint)]? = none :=
      ExtTreeMap.getElem?_eq_none fun hm => hfree (ExtTreeMap.contains_iff_mem.2 hm)
    obtain ⟨hrun, htotal⟩ := ih h
    rw [UtxoSet.lookup_insert] at hrun
    refine ⟨.cons (.create hnone) hrun, ?_⟩
    rw [htotal, UtxoSet.total, OrdMap.total_insert hnone, List.map_cons, List.sum_cons]
    simp only [UtxoSet.total]
    ring

omit [Crypto] in
/-- Outputs at outpoints that are free are added. -/
theorem addOutputs_fresh {what : String} {txid : Str} {height : UInt64} {coinbase : Bool}
    {outputs : List (TxOutput × ℕ)} {u : UtxoSet}
    (hnodup : (outputs.map fun p => UInt32.ofNat p.2).Nodup)
    (hfree : ∀ p ∈ outputs, (⟨txid, UInt32.ofNat p.2⟩ : OutPoint) ∉ u) :
    ∃ u', (addOutputs what txid height coinbase outputs).run u = .ok () u' := by
  induction outputs generalizing u with
  | nil => exact ⟨u, rfl⟩
  | cons p rest ih =>
    obtain ⟨output, index⟩ := p
    obtain ⟨hp, hrest⟩ := List.forall_mem_cons.1 hfree
    obtain ⟨hnew, hnodup⟩ := List.nodup_cons.1 hnodup
    obtain ⟨u', hu'⟩ := ih (u := u.insert ⟨txid, UInt32.ofNat index⟩ ⟨output, height, coinbase⟩)
      hnodup fun q hq hm => by
        rcases ExtTreeMap.mem_insert.1 hm with he | hm
        · have he := LawfulEqOrd.eq_of_compare he
          exact hnew (List.mem_map.2 ⟨q, hq, (OutPoint.mk.inj he).2.symm⟩)
        · exact hrest q hq hm
    simp only [addOutputs, run_bind_ok, run_get_ok, throwIf_run_ok, run_modify_ok]
    exact ⟨u', u, u, ⟨rfl, rfl⟩, (), u,
      ⟨by simpa [ExtTreeMap.contains_iff_mem] using hp, rfl⟩, (), _, rfl, hu'⟩

omit [Crypto] in
theorem eraseInputs_run {inputs : List TxInput} {u : UtxoSet} {height : UInt64}
    (hnodup : (inputs.map TxInput.previousOutput).Nodup)
    (hcoins : ∀ i ∈ inputs, ∃ coin, u[i.previousOutput]? = some coin ∧ Spendable coin height) :
    Ledger.Run Spendable u.lookup (inputs.map fun i => .spend i.previousOutput height)
      (eraseInputs u inputs).lookup ∧
    u.total = spentValue u inputs + (eraseInputs u inputs).total := by
  induction inputs generalizing u with
  | nil => exact ⟨.nil, by simp [spentValue, eraseInputs]⟩
  | cons i is ih =>
    obtain ⟨hi, his⟩ := List.nodup_cons.1 hnodup
    obtain ⟨coin, hcoin, hok⟩ := hcoins i List.mem_cons_self
    have hkeep : ∀ j ∈ is, (u.erase i.previousOutput)[j.previousOutput]? = u[j.previousOutput]? := by
      intro j hj
      rw [OrdMap.getElem?_erase_eq, if_neg]
      exact fun he => hi (he ▸ List.mem_map_of_mem hj)
    have hrest := ih his fun j hj => by
      rw [hkeep j hj]
      exact hcoins j (List.mem_cons_of_mem _ hj)
    refine ⟨.cons (.spend hcoin hok) ?_, ?_⟩
    · rw [← UtxoSet.lookup_erase]
      exact hrest.1
    · have hval : spentValue (u.erase i.previousOutput) is = spentValue u is := by
        refine congrArg List.sum (List.map_congr_left fun j hj => ?_)
        simp only [UtxoSet.valueAt, hkeep j hj]
      have hhead : u.valueAt i.previousOutput = coin.output.value := by
        simp [UtxoSet.valueAt, hcoin]
      have htot : u.total = coin.output.value + UtxoSet.total (u.erase i.previousOutput) :=
        OrdMap.total_erase hcoin
      rw [htot, hrest.2, hval]
      simp only [spentValue, List.map_cons, List.sum_cons, hhead]
      exact (add_assoc ..).symm

/-- The state of the loop over the inputs after some of them. -/
theorem foldlM_scanInput_ok {t : Transaction} {height : UInt64} {u : UtxoSet}
    {entries : List (TxInput × ℕ)} {seen seen' : List OutPoint} {total total' : ℤ}
    (h : entries.foldlM (scanInput t height u) (seen, total) = .ok (seen', total')) :
    seen' = (entries.map fun e => e.1.previousOutput).reverse ++ seen ∧
    (∀ e ∈ entries, e.1.previousOutput ∉ seen) ∧
    (entries.map fun e => e.1.previousOutput).Nodup ∧
    (∀ e ∈ entries, ∃ coin, u[e.1.previousOutput]? = some coin ∧ Spendable coin height ∧
      verifyP2pkInput t e.2 coin.output.scriptPubkey = .ok true) ∧
    total' = total + (entries.map fun e => u.valueAt e.1.previousOutput).sum := by
  induction entries generalizing seen total with
  | nil => cases except_pure_ok.1 h; simp
  | cons e es ih =>
    rw [List.foldlM_cons, except_bind_ok] at h
    obtain ⟨⟨seen₁, total₁⟩, he, hes⟩ := h
    simp only [scanInput, except_bind_ok, throwIf_ok, orThrow_ok, except_pure_ok,
      exists_and_left, exists_const, not_not, Prod.mk.injEq] at he
    obtain ⟨hnew, coin, hcoin, hmature, valid, hvalid, rfl, -, rfl, rfl⟩ := he
    obtain ⟨rfl, hseen, hnodup, hcoins, rfl⟩ := ih hes
    refine ⟨by simp, ?_, ?_, ?_, ?_⟩
    · exact List.forall_mem_cons.2
        ⟨hnew, fun j hj hm => hseen j hj (List.mem_cons_of_mem _ hm)⟩
    · refine List.nodup_cons.2 ⟨fun hm => ?_, hnodup⟩
      obtain ⟨j, hj, he⟩ := List.mem_map.1 hm
      exact hseen j hj (he ▸ List.mem_cons_self)
    · exact List.forall_mem_cons.2 ⟨⟨coin, hcoin, fun hc hlt => hmature ⟨hc, hlt⟩, hvalid⟩, hcoins⟩
    · simp [UtxoSet.valueAt, hcoin, add_assoc]

theorem scanInputs_ok {t : Transaction} {height : UInt64} {u : UtxoSet} {total : ℤ}
    (h : scanInputs t height u = .ok total) :
    (t.inputs.map TxInput.previousOutput).Nodup ∧
    (∀ e ∈ t.inputs.zipIdx, ∃ coin, u[e.1.previousOutput]? = some coin ∧ Spendable coin height ∧
      verifyP2pkInput t e.2 coin.output.scriptPubkey = .ok true) ∧
    total = spentValue u t.inputs := by
  simp only [scanInputs, except_bind_ok, except_pure_ok] at h
  obtain ⟨⟨seen, total'⟩, hs, rfl⟩ := h
  obtain ⟨-, -, hnodup, hcoins, rfl⟩ := foldlM_scanInput_ok hs
  have hfst : ∀ {β : Type} (f : TxInput → β),
      (t.inputs.zipIdx.map fun e => f e.1) = t.inputs.map f := fun f => by
    rw [← Function.comp_def, ← List.map_map, List.zipIdx_map_fst]
  refine ⟨by rwa [hfst TxInput.previousOutput] at hnodup, hcoins, ?_⟩
  rw [zero_add, hfst fun i => u.valueAt i.previousOutput]
  rfl

/-! ## What a call that returns has done -/

/-- A regular transaction was applied: what was checked, and the effect as a ledger batch and on
    the total. -/
structure Applied (t : Transaction) (height : UInt64) (u : UtxoSet) (fee : ℤ) (u' : UtxoSet) :
    Prop where
  wellFormed : t.Structure
  notCoinbase : t.isCoinbase = false
  nodup : (t.inputs.map TxInput.previousOutput).Nodup
  inputs : ∀ e ∈ t.inputs.zipIdx, ∃ coin, u[e.1.previousOutput]? = some coin ∧
    Spendable coin height ∧ verifyP2pkInput t e.2 coin.output.scriptPubkey = .ok true
  fee_eq : fee = spentValue u t.inputs - t.outputValue
  fee_nonneg : 0 ≤ fee
  run : Ledger.Run Spendable u.lookup (t.batch height false).events u'.lookup
  total : u'.total = u.total - fee

omit [Crypto] in
theorem sum_zipIdx_value (outputs : List TxOutput) :
    (outputs.zipIdx.map fun p => p.1.value).sum = (outputs.map TxOutput.value).sum := by
  have : (fun p : TxOutput × ℕ => p.1.value) = TxOutput.value ∘ Prod.fst := rfl
  rw [this, ← List.map_map, List.zipIdx_map_fst]

theorem applyTransaction_ok {t : Transaction} {height : UInt64} {u u' : UtxoSet} {fee : ℤ}
    (h : (applyTransaction t height).run u = .ok fee u') : Applied t height u fee u' := by
  simp only [applyTransaction, run_bind_ok, throwIf_run_ok, lift_run_ok, run_get_ok, run_set_ok,
    run_pure_ok] at h
  obtain ⟨_, _, ⟨hstruct, rfl⟩, _, _, ⟨hcb, rfl⟩, _, _, ⟨rfl, rfl⟩, inputTotal, _, ⟨hscan, rfl⟩,
    outputTotal, _, ⟨hsum, rfl⟩, _, _, ⟨hle, rfl⟩, _, _, rfl, txid, _, ⟨htxid, rfl⟩, _, _, hadd,
    rfl, rfl⟩ := h
  obtain ⟨hnodup, hcoins, rfl⟩ := scanInputs_ok hscan
  obtain ⟨rfl, -⟩ := sumOutputs_ok hsum
  obtain ⟨hst, rfl⟩ := Transaction.txid_ok.1 htxid
  obtain ⟨hadds, htotal⟩ := addOutputs_ok hadd
  have hspendable : ∀ i ∈ t.inputs, ∃ coin, u[i.previousOutput]? = some coin ∧
      Spendable coin height := by
    intro i hi
    obtain ⟨k, hk⟩ := List.mem_iff_getElem?.1 hi
    obtain ⟨coin, hc, hs, -⟩ := hcoins (i, k) (List.mem_zipIdx_iff_getElem?.2 hk)
    exact ⟨coin, hc, hs⟩
  obtain ⟨herase, hetotal⟩ := eraseInputs_run hnodup hspendable
  refine ⟨hst, by simpa using hcb, hnodup, hcoins, rfl, by omega, ?_, ?_⟩
  · refine Ledger.run_append.2 ⟨_, ?_, hadds⟩
    simpa [Transaction.batch, Function.comp_def] using herase
  · rw [htotal, sum_zipIdx_value, hetotal, Transaction.outputValue]
    omega

/-- The outputs of a coinbase were added. -/
structure CoinbaseAdded (t : Transaction) (height : UInt64) (u u' : UtxoSet) : Prop where
  wellFormed : t.Structure
  run : Ledger.Run Spendable u.lookup (t.batch height true).events u'.lookup
  total : u'.total = u.total + t.outputValue

theorem addCoinbaseOutputs_ok {t : Transaction} {height : UInt64} {u u' : UtxoSet} {x : Unit}
    (h : (addCoinbaseOutputs t height).run u = .ok x u') : CoinbaseAdded t height u u' := by
  simp only [addCoinbaseOutputs, run_bind_ok, lift_run_ok] at h
  obtain ⟨_, _, ⟨htxid, rfl⟩, hadd⟩ := h
  obtain ⟨hst, rfl⟩ := Transaction.txid_ok.1 htxid
  obtain ⟨hrun, htotal⟩ := addOutputs_ok hadd
  rw [sum_zipIdx_value] at htotal
  exact ⟨hst, by simpa [Ledger.Batch.events, Transaction.batch] using hrun, htotal⟩

omit [Crypto] in
/-- The outpoints of one transaction differ. -/
theorem nodup_indices {outputs : List TxOutput} (h : outputs.length ≤ maxTransactionItems) :
    (outputs.zipIdx.map fun p => UInt32.ofNat p.2).Nodup := by
  have hcomp : (fun p : TxOutput × ℕ => UInt32.ofNat p.2) = UInt32.ofNat ∘ Prod.snd := rfl
  rw [hcomp, ← List.map_map, List.zipIdx_map_snd]
  refine List.Nodup.map_on (fun i hi j hj he => ?_) List.nodup_range'
  rw [List.mem_range'_1] at hi hj
  unfold maxTransactionItems at h
  have := congrArg UInt32.toNat he
  rwa [UInt32.toNat_ofNat_of_lt' (by norm_num [UInt32.size]; omega),
    UInt32.toNat_ofNat_of_lt' (by norm_num [UInt32.size]; omega)] at this

/-- The outputs of a coinbase are added where its txid is new. -/
theorem addCoinbaseOutputs_fresh {t : Transaction} {height : UInt64} {u : UtxoSet} {txid : Str}
    (htxid : t.txid = .ok txid) (ht : t.Structure)
    (hfree : ∀ index, (⟨txid, index⟩ : OutPoint) ∉ u) :
    ∃ u', (addCoinbaseOutputs t height).run u = .ok () u' := by
  obtain ⟨u', hu'⟩ : ∃ u', (addOutputs "Duplicate coinbase output identifier" txid height true
      t.outputs.zipIdx).run u = .ok () u' :=
    addOutputs_fresh (nodup_indices ht.outputs_le) fun p _ => hfree _
  simp only [addCoinbaseOutputs, run_bind_ok, lift_run_ok]
  exact ⟨u', _, u, ⟨htxid, rfl⟩, hu'⟩

end

end BinaryCoin
