/-
  BinaryCoin — mempool.cpp: the class `TestnetMempool`.

  A list of transactions that apply, in order, on top of the chain's unspent
  outputs (`Applies`).  `revalidate` filters such a list after the chain has
  changed, through one set of unspent outputs: it is right because a
  transaction that is not retained has not touched that set
  (`applyTransaction_error`), and that holds because no output of a
  transaction that is not confirmed is among the chain's.
-/
import BinaryCoin.Activation

namespace BinaryCoin

open Cursor Std Text

/-- The object: its transactions, and the text of the file, if there is one. -/
structure TestnetMempool where
  transactions : List Transaction
  file : Option Str

abbrev MempoolM := EStateM Exn TestnetMempool

def mempoolMagic : Str := str "BINARYCOIN_TESTNET_MEMPOOL_V1"

/-- One line of the file. -/
def mempoolRecord (transaction : Transaction) : Except Exn Str := do
  return bytesToHex (← transaction.serialize)

/-- What `save` writes. -/
def mempoolText (transactions : List Transaction) : Except Exn Str := do
  let records ← transactions.mapM mempoolRecord
  return unlines (mempoolMagic :: records)

variable [Crypto]

namespace TestnetMempool

def setTransactions (transactions : List Transaction) : MempoolM Unit :=
  modify fun m => { m with transactions := transactions }

/-- The body of the loop of `load`, on a line that is not empty. -/
def loadRecord (line : Str) : MempoolM Unit := do
  let transaction ← Transaction.deserialize (← hexToBytes line)
  setTransactions ((← get).transactions ++ [transaction])

def load : MempoolM Unit := do
  setTransactions []
  match (← get).file with
  | none => pure ()
  | some text =>
    match lines text with
    | [] => throw (runtimeError "Invalid mempool file")
    | magic :: records =>
      throwIf (magic ≠ mempoolMagic) (runtimeError "Invalid mempool file")
      forM (records.filter (· ≠ [])) loadRecord

/-- The file is replaced at once, after all of it has been written. -/
def save : MempoolM Unit := do
  let text ← mempoolText (← get).transactions
  modify fun m => { m with file := some text }

def clear : MempoolM Unit := do
  setTransactions []
  save

def effectiveUtxos (transactions : List Transaction) (chainUtxos : UtxoSet) (spendHeight : UInt64) :
    Except Exn UtxoSet := do
  let ((), result) ← onCopy (applyEach spendHeight transactions) chainUtxos
  return result

def totalFees (transactions : List Transaction) (chainUtxos : UtxoSet) (spendHeight : UInt64) :
    Except Exn ℤ := do
  let (total, _) ←
    onCopy (applyTransactions "Mempool fee overflow" spendHeight 0 transactions) chainUtxos
  return total

/-- The check against one transaction of the mempool. -/
def requireOther (transaction existing : Transaction) : Except Exn Unit := do
  throwIf ((← existing.txid) = (← transaction.txid)) (runtimeError "Transaction already in mempool")

/-- The checks of `add`. -/
def checkAdd (transactions : List Transaction) (transaction : Transaction) (chainUtxos : UtxoSet)
    (spendHeight : UInt64) : Except Exn Unit := do
  throwIf transaction.isCoinbase (runtimeError "Coinbase transactions cannot enter mempool")
  forM transactions (requireOther transaction)
  let result ← effectiveUtxos transactions chainUtxos spendHeight
  let _ ← onCopy (applyTransaction transaction spendHeight) result

def add (transaction : Transaction) (chainUtxos : UtxoSet) (spendHeight : UInt64) :
    MempoolM Unit := do
  let transactions := (← get).transactions
  checkAdd transactions transaction chainUtxos spendHeight
  setTransactions (transactions ++ [transaction])
  save

/-- The loop of `revalidate` with the set `effective`: the transactions retained.  A transaction
    that throws leaves its traces in the set. -/
def retain (confirmedTxids : List Str) (spendHeight : UInt64) :
    List Transaction → UtxoSet → Except Exn (List Transaction)
  | [], _ => return []
  | transaction :: rest, effective => do
    if (← transaction.txid) ∈ confirmedTxids then retain confirmedTxids spendHeight rest effective
    else
      match (applyTransaction transaction spendHeight).run effective with
      | .ok _ effective => return transaction :: (← retain confirmedTxids spendHeight rest effective)
      | .error _ effective => retain confirmedTxids spendHeight rest effective

def revalidate (chainUtxos : UtxoSet) (spendHeight : UInt64) (confirmedTxids : List Str) :
    MempoolM Unit := do
  let retained ← retain confirmedTxids spendHeight (← get).transactions chainUtxos
  setTransactions retained
  save

end TestnetMempool

/-! ## Failed applications -/

omit [Crypto] in
theorem newline_notMem_bytesToHex (bytes : Bytes) : newline ∉ bytesToHex bytes := by
  intro h
  obtain ⟨b, -, hb⟩ := List.mem_flatMap.1 h
  revert hb
  revert b
  decide +kernel

omit [Crypto] in
theorem eraseInputs_mem {u : UtxoSet} {inputs : List TxInput} {o : OutPoint}
    (h : o ∈ eraseInputs u inputs) : o ∈ u := by
  induction inputs generalizing u with
  | nil => exact h
  | cons i is ih => exact (ExtTreeMap.mem_erase.1 (ih h)).2

/-- The checks of `apply_transaction` before its first change. -/
structure Transaction.Checked (t : Transaction) (height : UInt64) (u : UtxoSet) : Prop where
  wellFormed : t.Structure
  notCoinbase : t.isCoinbase = false
  inputs : ∃ total, scanInputs t height u = .ok total ∧ t.outputValue ≤ total

/-- No outpoint of the outputs is taken once the inputs are erased. -/
def Transaction.OutputsFree (t : Transaction) (u : UtxoSet) : Prop :=
  ∀ n < t.outputs.length, (⟨t.id, UInt32.ofNat n⟩ : OutPoint) ∉ eraseInputs u t.inputs

theorem applyTransaction_unchecked {t : Transaction} {height : UInt64} {u : UtxoSet}
    (h : ¬ t.Checked height u) : ∃ e, (applyTransaction t height).run u = .error e u := by
  by_cases hst : t.Structure
  swap
  · cases hvalid : validateTransactionStructure t with
    | ok x => exact absurd (validateTransactionStructure_ok.1 hvalid) hst
    | error e =>
      rw [applyTransaction, hvalid]
      exact ⟨e, rfl⟩
  have hvalid : validateTransactionStructure t = .ok () := validateTransactionStructure_ok.2 hst
  rw [applyTransaction, run_bind_of_ok (lift_run_ok.2 ⟨hvalid, rfl⟩)]
  by_cases hcb : t.isCoinbase
  · rw [throwIf, if_pos hcb]
    exact ⟨_, rfl⟩
  rw [run_bind_of_ok (a := ()) (throwIf_run_ok.2 ⟨hcb, rfl⟩),
    run_bind_of_ok (show (get : EStateM Exn UtxoSet UtxoSet).run u = .ok u u from rfl)]
  cases hscan : scanInputs t height u with
  | error e => exact ⟨e, rfl⟩
  | ok total =>
    have hsum := sumOutputs_eq (fun o ho => (hst.output o ho).1) hst.total
    rw [run_bind_of_ok (lift_run_ok.2 ⟨rfl, rfl⟩), run_bind_of_ok (lift_run_ok.2 ⟨hsum, rfl⟩)]
    have hlt : total < t.outputValue :=
      Int.not_le.1 fun hle => h ⟨hst, by simpa using hcb, total, hscan, hle⟩
    rw [throwIf, if_pos hlt]
    exact ⟨_, rfl⟩

/-- After the checks the inputs are erased, and only an output whose outpoint is taken can throw. -/
theorem applyTransaction_checked {t : Transaction} {height : UInt64} {u : UtxoSet}
    (h : t.Checked height u) : ∃ fee : ℤ, (applyTransaction t height).run u = (do
      addOutputs "Duplicate transaction output identifier" t.id height false t.outputs.zipIdx
      return fee : EStateM Exn UtxoSet ℤ).run (eraseInputs u t.inputs) := by
  obtain ⟨hst, hcb, total, hscan, hle⟩ := h
  have hvalid : validateTransactionStructure t = .ok () := validateTransactionStructure_ok.2 hst
  have hsum := sumOutputs_eq (fun o ho => (hst.output o ho).1) hst.total
  have hset : (set (eraseInputs u t.inputs) : EStateM Exn UtxoSet PUnit).run u =
    .ok () (eraseInputs u t.inputs) := rfl
  refine ⟨total - t.outputValue, ?_⟩
  rw [applyTransaction, run_bind_of_ok (lift_run_ok.2 ⟨hvalid, rfl⟩),
    run_bind_of_ok (a := ()) (throwIf_run_ok.2 ⟨by simp [hcb], rfl⟩),
    run_bind_of_ok (show (get : EStateM Exn UtxoSet UtxoSet).run u = .ok u u from rfl),
    run_bind_of_ok (lift_run_ok.2 ⟨hscan, rfl⟩), run_bind_of_ok (lift_run_ok.2 ⟨hsum, rfl⟩),
    run_bind_of_ok (a := ()) (throwIf_run_ok.2 ⟨Int.not_lt.2 hle, rfl⟩)]
  dsimp only
  rw [run_bind_of_ok hset, run_bind_of_ok (lift_run_ok.2 ⟨Transaction.txid_ok.2 ⟨hst, rfl⟩, rfl⟩)]

/-- It throws nothing there when they are free. -/
theorem Transaction.OutputsFree.run {t : Transaction} {height : UInt64} {u : UtxoSet}
    (hfree : t.OutputsFree u) (hst : t.Structure) :
    ∃ u', (addOutputs "Duplicate transaction output identifier" t.id height false
      t.outputs.zipIdx).run (eraseInputs u t.inputs) = .ok () u' :=
  addOutputs_fresh (nodup_indices hst.outputs_le) fun p hp =>
    hfree p.2 (List.getElem?_eq_some_iff.1 (List.mem_zipIdx_iff_getElem?.1 hp)).1

theorem applyTransaction_keeps {t : Transaction} {height : UInt64} {u u' : UtxoSet} {e : Exn}
    (hfree : t.Checked height u → t.OutputsFree u)
    (h : (applyTransaction t height).run u = .error e u') : u' = u := by
  by_cases hchecked : t.Checked height u
  · obtain ⟨fee, hrun⟩ := applyTransaction_checked hchecked
    obtain ⟨u₁, hadd⟩ := (hfree hchecked).run hchecked.wellFormed
    rw [run_bind_of_ok hadd] at hrun
    cases hrun.symm.trans h
  · obtain ⟨e', hrun⟩ := applyTransaction_unchecked hchecked
    cases hrun.symm.trans h
    rfl

/-- **A transaction whose txid names no unspent output leaves the set alone when it throws.** -/
theorem applyTransaction_error {t : Transaction} {height : UInt64} {u u' : UtxoSet} {e : Exn}
    (hfree : ∀ index, (⟨t.id, index⟩ : OutPoint) ∉ u)
    (h : (applyTransaction t height).run u = .error e u') : u' = u :=
  applyTransaction_keeps (fun _ _ _ hmem => hfree _ (eraseInputs_mem hmem)) h

/-! ## Whose outputs are in the set -/

omit [Crypto] in
theorem mem_lookup {u : UtxoSet} {o : OutPoint} : o ∈ u ↔ u.lookup o ≠ none := by
  rw [UtxoSet.lookup, ← Option.isSome_iff_ne_none, ExtTreeMap.mem_iff_isSome_getElem?]

/-- An outpoint that a transaction has added is its own. -/
theorem Applied.mem {t : Transaction} {height : UInt64} {u u' : UtxoSet} {fee : ℤ}
    (h : Applied t height u fee u') {o : OutPoint} (ho : o ∈ u') : o ∈ u ∨ o.txid = t.id := by
  by_contra hcon
  obtain ⟨hu, hne⟩ := not_or.1 hcon
  rw [mem_lookup, not_not] at hu
  obtain ⟨coin, hc⟩ := h.run.created hu (mem_lookup.1 ho)
  have hcreates : (Connection.mk t height false).batch.Creates o := Ledger.Batch.create_mem_events hc
  exact hne (Connection.creates_iff.1 hcreates).1

/-- Every unspent output of a chain is one of a transaction of the chain. -/
theorem Chain.mem_utxos {blocks : List StoredBlock} {u : UtxoSet} (h : Chain blocks u) {o : OutPoint}
    (ho : o ∈ u) : o.txid ∈ (allTransactions blocks).map Transaction.id := by
  obtain ⟨coin, hc⟩ := h.run_replay.created rfl (mem_lookup.1 ho)
  obtain ⟨b, hb, hcreates⟩ := Ledger.Batch.create_mem_flatMap hc
  obtain ⟨c, hcmem, rfl⟩ := List.mem_map.1 hb
  rw [(Connection.creates_iff.1 hcreates).1]
  exact List.mem_map_of_mem (c.mem_allTransactions h hcmem)

/-! ## Lists that apply in order -/

/-- The transactions apply one after the other to `u` at `height`, with `fees` and the set `u'`
    at the end. -/
inductive Applies (height : UInt64) : UtxoSet → List Transaction → ℤ → UtxoSet → Prop
  | nil {u : UtxoSet} : Applies height u [] 0 u
  | cons {t : Transaction} {ts : List Transaction} {u u₁ u' : UtxoSet} {fee fees : ℤ}
      (head : (applyTransaction t height).run u = .ok fee u₁) (tail : Applies height u₁ ts fees u') :
      Applies height u (t :: ts) (fee + fees) u'

namespace Applies
variable {height : UInt64} {u u' u₁ : UtxoSet} {ts ts' : List Transaction} {fees : ℤ}

theorem all (h : Applies height u ts fees u') : AppliedAll height u ts fees u' := by
  induction h with
  | nil => exact .nil
  | cons head _ ih => exact .cons (applyTransaction_ok head) ih

theorem wellFormed (h : Applies height u ts fees u') : ∀ t ∈ ts, t.Structure :=
  fun t ht => (h.all.mem t ht).1

theorem append {fees' : ℤ} (h : Applies height u ts fees u₁) (h' : Applies height u₁ ts' fees' u') :
    Applies height u (ts ++ ts') (fees + fees') u' := by
  induction h with
  | nil => rwa [zero_add]
  | cons head _ ih => rw [add_assoc]; exact .cons head (ih h')

theorem split (h : Applies height u (ts ++ ts') fees u') :
    ∃ u₁ fees₁ fees₂, Applies height u ts fees₁ u₁ ∧ Applies height u₁ ts' fees₂ u' := by
  induction ts generalizing u fees with
  | nil => exact ⟨u, 0, fees, .nil, h⟩
  | cons t ts ih =>
    cases h with
    | cons head tail =>
      obtain ⟨u₂, fees₁, fees₂, h₁, h₂⟩ := ih tail
      exact ⟨u₂, _, fees₂, .cons head h₁, h₂⟩

/-- An outpoint in the set at the end was there at the start or belongs to one of them. -/
theorem mem (h : Applies height u ts fees u') {o : OutPoint} (ho : o ∈ u') :
    o ∈ u ∨ o.txid ∈ ts.map Transaction.id := by
  induction h with
  | nil => exact .inl ho
  | cons head _ ih =>
    rcases ih ho with ho | hid
    · exact ((applyTransaction_ok head).mem ho).imp_right fun hid => by simp [hid]
    · exact .inr (List.mem_cons_of_mem _ hid)

/-- The loop over them. -/
theorem iff_applyEach : (applyEach height ts).run u = .ok () u' ↔ ∃ fees, Applies height u ts fees u' := by
  induction ts generalizing u with
  | nil =>
    constructor
    · intro h; obtain ⟨-, rfl⟩ := run_pure_ok.1 h; exact ⟨0, .nil⟩
    · rintro ⟨_, h⟩; cases h; rfl
  | cons t ts ih =>
    simp only [applyEach, List.forM_cons, run_bind_ok, run_pure_ok] at ih ⊢
    constructor
    · rintro ⟨_, u₁, ⟨fee, _, ht, -, rfl⟩, hts⟩
      obtain ⟨fees, hfees⟩ := ih.1 hts
      exact ⟨_, .cons ht hfees⟩
    · rintro ⟨_, h⟩
      cases h with
      | cons head tail => exact ⟨(), _, ⟨_, _, head, trivial, rfl⟩, ih.2 ⟨_, tail⟩⟩

/-- The loop that adds up the fees returns them where the coins are worth no more than the money
    supply. -/
theorem applyTransactions {overflow : String} {start : ℤ} (h : Applies height u ts fees u')
    (hu : NonnegCoins u) (htotal : start + u.total ≤ maxMoney) :
    (applyTransactions overflow height start ts).run u = .ok (start + fees) u' := by
  induction h generalizing start with
  | nil => rw [add_zero]; rfl
  | @cons t ts u u₁ u' fee fees head tail ih =>
    have happlied := applyTransaction_ok head
    have hnn := nonneg_of_batch happlied.wellFormed hu happlied.run
    have htot := happlied.total
    have hpos : 0 ≤ u₁.total := OrdMap.total_nonneg hnn
    simp only [BinaryCoin.applyTransactions, run_bind_ok, throwIf_run_ok]
    refine ⟨fee, u₁, head, (), u₁, ⟨by omega, rfl⟩, ?_⟩
    rw [ih hnn (by omega), add_assoc]

end Applies

/-! ## What the member functions do -/

/-- The invariant of the mempool over the chain's unspent outputs `u`: its transactions apply, and
    no two have one txid. -/
structure MempoolOk (height : UInt64) (u : UtxoSet) (ts : List Transaction) : Prop where
  applies : ∃ fees u', Applies height u ts fees u'
  nodup : (ts.map Transaction.id).Nodup

theorem MempoolOk.wellFormed {height : UInt64} {u : UtxoSet} {ts : List Transaction}
    (h : MempoolOk height u ts) : ∀ t ∈ ts, t.Structure := by
  obtain ⟨⟨_, _, happlies⟩, -⟩ := h
  exact happlies.wellFormed

namespace TestnetMempool

theorem effectiveUtxos_ok {ts : List Transaction} {u u' : UtxoSet} {height : UInt64} :
    effectiveUtxos ts u height = .ok u' ↔ ∃ fees, Applies height u ts fees u' := by
  simp only [effectiveUtxos, except_bind_ok, except_pure_ok, ← Applies.iff_applyEach]
  constructor
  · rintro ⟨⟨⟨⟩, _⟩, h, rfl⟩; exact onCopy_ok.1 h
  · intro h; exact ⟨_, onCopy_ok.2 h, rfl⟩

theorem totalFees_ok {ts : List Transaction} {u u' : UtxoSet} {height : UInt64} {fees : ℤ}
    (h : Applies height u ts fees u') (hu : NonnegCoins u) (htotal : u.total ≤ maxMoney) :
    totalFees ts u height = .ok fees := by
  have hrun : (applyTransactions "Mempool fee overflow" height 0 ts).run u = .ok fees u' := by
    simpa using h.applyTransactions hu (by omega : 0 + u.total ≤ maxMoney)
  simp only [totalFees, except_bind_ok, except_pure_ok]
  exact ⟨_, onCopy_ok.2 hrun, rfl⟩

/-- The text of a list of transactions. -/
def text (ts : List Transaction) : Str :=
  unlines (mempoolMagic :: ts.map fun t => bytesToHex t.encode)

omit [Crypto] in
theorem mempoolText_ok {ts : List Transaction} {s : Str} :
    mempoolText ts = .ok s ↔ (∀ t ∈ ts, t.Structure) ∧ s = text ts := by
  have hrecord : ∀ (t : Transaction) (r : Str), mempoolRecord t = .ok r ↔
      t.Structure ∧ r = bytesToHex t.encode := by
    intro t r
    simp only [mempoolRecord, except_bind_ok, Transaction.serialize_ok, except_pure_ok]
    constructor
    · rintro ⟨_, ⟨ht, rfl⟩, rfl⟩; exact ⟨ht, rfl⟩
    · rintro ⟨ht, rfl⟩; exact ⟨_, ⟨ht, rfl⟩, rfl⟩
  simp only [mempoolText, except_bind_ok, mapM_ok hrecord, except_pure_ok]
  constructor
  · rintro ⟨_, ⟨hts, rfl⟩, rfl⟩; exact ⟨hts, rfl⟩
  · rintro ⟨hts, rfl⟩; exact ⟨_, ⟨hts, rfl⟩, rfl⟩

omit [Crypto] in
theorem save_ok {m m' : TestnetMempool} {x : Unit} : save.run m = .ok x m' ↔
    (∀ t ∈ m.transactions, t.Structure) ∧ m' = { m with file := some (text m.transactions) } := by
  simp only [save, run_bind_ok, run_get_ok, lift_run_ok, mempoolText_ok, run_modify_ok]
  constructor
  · rintro ⟨_, _, ⟨rfl, rfl⟩, _, _, ⟨⟨hts, rfl⟩, rfl⟩, rfl⟩; exact ⟨hts, rfl⟩
  · rintro ⟨hts, rfl⟩; exact ⟨m, m, ⟨rfl, rfl⟩, _, m, ⟨⟨hts, rfl⟩, rfl⟩, rfl⟩

omit [Crypto] in
theorem setTransactions_save_ok {ts : List Transaction} {m m' : TestnetMempool} {x : Unit} :
    (do setTransactions ts; save : MempoolM Unit).run m = .ok x m' ↔
      (∀ t ∈ ts, t.Structure) ∧ m' = ⟨ts, some (text ts)⟩ := by
  simp only [run_bind_ok, setTransactions, run_modify_ok, save_ok]
  constructor
  · rintro ⟨_, _, rfl, h⟩; exact h
  · intro h; exact ⟨(), _, rfl, h⟩

/-! ### `add` -/

theorem forM_requireOther_ok {ts : List Transaction} {t : Transaction} {x : Unit}
    (ht : t.Structure) (hts : ∀ t' ∈ ts, t'.Structure) :
    forM ts (requireOther t) = .ok x ↔ t.id ∉ ts.map Transaction.id := by
  induction ts with
  | nil => simp [except_pure_ok]
  | cons t' ts ih =>
    obtain ⟨ht', hts⟩ := List.forall_mem_cons.1 hts
    have hid : t.txid = .ok t.id := Transaction.txid_ok.2 ⟨ht, rfl⟩
    have hid' : t'.txid = .ok t'.id := Transaction.txid_ok.2 ⟨ht', rfl⟩
    simp only [List.forM_cons, except_bind_ok, requireOther, hid, hid', Except.ok.injEq,
      exists_eq_left', throwIf_ok, exists_and_left, exists_const, ih hts, List.map_cons,
      List.mem_cons, not_or]
    exact and_congr_left fun _ => ne_comm

/-- **`checkAdd` accepts what keeps the invariant.** -/
theorem checkAdd_ok {ts : List Transaction} {t : Transaction} {u : UtxoSet} {height : UInt64}
    {x : Unit} (hts : MempoolOk height u ts) :
    checkAdd ts t u height = .ok x ↔ MempoolOk height u (ts ++ [t]) := by
  obtain ⟨⟨fees, u₁, happlies⟩, hnodup⟩ := hts
  have heff : effectiveUtxos ts u height = .ok u₁ := effectiveUtxos_ok.2 ⟨fees, happlies⟩
  simp only [checkAdd, except_bind_ok, throwIf_ok, except_pure_ok, heff, Except.ok.injEq,
    exists_eq_left', exists_and_left, exists_const, and_true]
  constructor
  · rintro ⟨-, _, hother, ⟨fee, u'⟩, happly⟩
    have head := onCopy_ok.1 happly
    have hst := (applyTransaction_ok head).wellFormed
    refine ⟨⟨_, u', happlies.append (.cons head .nil)⟩, ?_⟩
    rw [List.map_append, List.nodup_append]
    refine ⟨hnodup, by simp, fun a ha b hb hab => ?_⟩
    obtain rfl : b = t.id := by simpa using hb
    exact (forM_requireOther_ok hst happlies.wellFormed).1 hother (hab ▸ ha)
  · rintro ⟨⟨_, u', hall⟩, hnodup'⟩
    obtain ⟨u₂, fees₁, fees₂, h₁, h₂⟩ := hall.split
    have hu : u₂ = u₁ := by
      have := effectiveUtxos_ok.2 ⟨fees₁, h₁⟩
      rw [heff] at this
      exact (Except.ok.inj this).symm
    subst hu
    cases h₂ with
    | cons head tail =>
      have happlied := applyTransaction_ok head
      rw [List.map_append, List.nodup_append] at hnodup'
      have hid : t.id ∉ ts.map Transaction.id := fun hmem => hnodup'.2.2 _ hmem _ (by simp) rfl
      have hother := (forM_requireOther_ok (x := ()) happlied.wellFormed happlies.wellFormed).2 hid
      exact ⟨by simp [happlied.notCoinbase], (), hother, _, onCopy_ok.2 head⟩

theorem add_ok {m m' : TestnetMempool} {t : Transaction} {u : UtxoSet} {height : UInt64} {x : Unit}
    (hm : MempoolOk height u m.transactions) :
    (add t u height).run m = .ok x m' ↔ MempoolOk height u (m.transactions ++ [t]) ∧
      m' = ⟨m.transactions ++ [t], some (text (m.transactions ++ [t]))⟩ := by
  have hsave : ∀ ts : List Transaction, (do setTransactions ts; save : MempoolM Unit).run m =
      .ok x m' ↔ (∀ t ∈ ts, t.Structure) ∧ m' = ⟨ts, some (text ts)⟩ :=
    fun ts => setTransactions_save_ok
  simp only [run_bind_ok] at hsave
  simp only [add, run_bind_ok, run_get_ok, lift_run_ok]
  constructor
  · rintro ⟨_, _, ⟨rfl, rfl⟩, _, _, ⟨hcheck, rfl⟩, h⟩
    exact ⟨(checkAdd_ok hm).1 hcheck, ((hsave _).1 h).2⟩
  · rintro ⟨hok, hm'⟩
    exact ⟨m, m, ⟨rfl, rfl⟩, (), m, ⟨(checkAdd_ok hm).2 hok, rfl⟩, (hsave _).2 ⟨hok.wellFormed, hm'⟩⟩

/-- A call of `add` that throws changes nothing. -/
theorem add_error {m m' : TestnetMempool} {t : Transaction} {u : UtxoSet} {height : UInt64} {e : Exn}
    (hm : MempoolOk height u m.transactions) (h : (add t u height).run m = .error e m') : m' = m := by
  cases hcheck : checkAdd m.transactions t u height with
  | ok x =>
    have hrun := (add_ok (x := ()) hm).2 ⟨(checkAdd_ok hm).1 hcheck, rfl⟩
    rw [hrun] at h
    cases h
  | error e' =>
    simp only [add, EStateM.run_bind, EStateM.run_get, hcheck] at h
    cases h
    rfl

/-! ### `revalidate` -/

/-- The transactions of the mempool that the chain has not confirmed. -/
def unconfirmed (confirmed : List Str) (ts : List Transaction) : List Transaction :=
  ts.filter fun t => t.id ∉ confirmed

/-- **The loop retains a list that applies**: no transaction that is rejected has touched the set,
    since the outputs in the set are confirmed or those of other transactions. -/
theorem retain_ok {confirmed : List Str} {height : UInt64} {ts : List Transaction} {u : UtxoSet}
    (hwf : ∀ t ∈ ts, t.Structure) (hnodup : ((unconfirmed confirmed ts).map Transaction.id).Nodup)
    (hu : ∀ o ∈ u, o.txid ∉ (unconfirmed confirmed ts).map Transaction.id) :
    ∃ retained, retain confirmed height ts u = .ok retained ∧
      retained.Sublist (unconfirmed confirmed ts) ∧ ∃ fees u', Applies height u retained fees u' := by
  induction ts generalizing u with
  | nil => exact ⟨[], rfl, List.nil_sublist _, 0, u, .nil⟩
  | cons t ts ih =>
    obtain ⟨ht, hwf⟩ := List.forall_mem_cons.1 hwf
    have hid : t.txid = .ok t.id := Transaction.txid_ok.2 ⟨ht, rfl⟩
    simp only [retain, hid]
    by_cases hconf : t.id ∈ confirmed
    · have hskip : unconfirmed confirmed (t :: ts) = unconfirmed confirmed ts := by
        simp [unconfirmed, hconf]
      rw [hskip] at hu hnodup ⊢
      obtain ⟨retained, hrun, hsub, happlies⟩ := ih hwf hnodup hu
      exact ⟨retained, by simpa [hconf, bind, Except.bind] using hrun, hsub, happlies⟩
    · have hcons : unconfirmed confirmed (t :: ts) = t :: unconfirmed confirmed ts := by
        simp [unconfirmed, hconf]
      rw [hcons] at hu hnodup ⊢
      obtain ⟨hnew, hnodup⟩ := List.nodup_cons.1 hnodup
      simp only [List.map_cons, List.mem_cons, not_or] at hu
      cases hrun : (applyTransaction t height).run u with
      | ok fee u₁ =>
        have happlied := applyTransaction_ok hrun
        have hu₁ : ∀ o ∈ u₁, o.txid ∉ (unconfirmed confirmed ts).map Transaction.id := by
          intro o ho
          rcases happlied.mem ho with ho | ho
          · exact (hu o ho).2
          · rw [ho]
            exact hnew
        obtain ⟨retained, hret, hsub, fees, u', happlies⟩ := ih hwf hnodup hu₁
        refine ⟨t :: retained, ?_, hsub.cons_cons t, fee + fees, u', .cons hrun happlies⟩
        simp only [hconf, if_false, hret, bind, Except.bind, pure, Except.pure]
      | error e u₁ =>
        have hfree : ∀ index, (⟨t.id, index⟩ : OutPoint) ∉ u := fun index hm => (hu _ hm).1 rfl
        obtain rfl := applyTransaction_error hfree hrun
        obtain ⟨retained, hret, hsub, happlies⟩ := ih hwf hnodup fun o ho => (hu o ho).2
        exact ⟨retained, by simpa [hconf, hrun, bind, Except.bind] using hret, hsub.cons t, happlies⟩

/-- **`revalidate` after a change of the chain** returns, with a mempool that applies. -/
theorem revalidate_ok {m : TestnetMempool} {blocks : List StoredBlock} {u : UtxoSet}
    {height : UInt64} {confirmed : List Str} (hc : Chain blocks u)
    (hconf : transactionIds blocks = .ok confirmed) (hwf : ∀ t ∈ m.transactions, t.Structure)
    (hnodup : ((unconfirmed confirmed m.transactions).map Transaction.id).Nodup) :
    ∃ retained, retain confirmed height m.transactions u = .ok retained ∧
      (revalidate u height confirmed).run m = .ok () ⟨retained, some (text retained)⟩ ∧
      MempoolOk height u retained ∧ retained.Sublist (unconfirmed confirmed m.transactions) := by
  have hids := (mapM_txid_ok.1 hconf).2
  have hfree : ∀ o ∈ u, o.txid ∉ (unconfirmed confirmed m.transactions).map Transaction.id := by
    intro o ho hmem
    obtain ⟨t, ht, hid⟩ := List.mem_map.1 hmem
    have hnot : t.id ∉ confirmed := by simpa using (List.mem_filter.1 ht).2
    rw [hid, hids] at hnot
    exact hnot (hc.mem_utxos ho)
  obtain ⟨retained, hret, hsub, happlies⟩ := retain_ok hwf hnodup hfree
  have hok : MempoolOk height u retained :=
    ⟨happlies, hnodup.sublist (hsub.map _)⟩
  refine ⟨retained, hret, ?_, hok, hsub⟩
  have hsave := (setTransactions_save_ok (m := m) (x := ())).2 ⟨hok.wellFormed, rfl⟩
  simp only [revalidate, run_bind_ok, run_get_ok, lift_run_ok] at hsave ⊢
  exact ⟨m, m, ⟨rfl, rfl⟩, retained, m, ⟨hret, rfl⟩, hsave⟩

end TestnetMempool

end BinaryCoin
