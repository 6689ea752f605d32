/-
  BinaryCoin — amount.hpp and transaction.cpp: amounts, transactions and their
  wire format.

  An `Amount` is an `int64_t`; the code compares it with `MAX_MONEY` before it
  adds, so integers model it.  `Transaction.encode` is the byte string that
  `serialize` returns when it returns one (`serialize_ok`), and
  `deserialize` accepts exactly the encodings of well-formed transactions
  (`deserialize_ok`).
-/
import BinaryCoin.Hash

namespace BinaryCoin

open Cursor LittleEndian

/-! ## Amounts -/

def bitsPerBin : ℤ := 100000000
def initialSubsidy : ℤ := 50 * bitsPerBin
def maxMoney : ℤ := 21000000 * bitsPerBin
def testnetHalvingInterval : ℕ := 210000
def coinbaseMaturity : UInt64 := 100

def moneyRange (value : ℤ) : Bool := 0 ≤ value ∧ value ≤ maxMoney

/-- `INITIAL_SUBSIDY >> halvings`, and 0 from 63 halvings on. -/
def blockSubsidy (height : UInt64) : ℤ :=
  let halvings := height.toNat / testnetHalvingInterval
  if halvings ≥ 63 then 0 else initialSubsidy >>> halvings

/-! ## Transactions -/

def maxTransactionItems : ℕ := 100000
def maxScriptSize : ℕ := 10000

theorem maxTransactionItems_lt : maxTransactionItems < 2 ^ 64 := by decide
theorem maxScriptSize_lt : maxScriptSize < 2 ^ 64 := by decide

structure OutPoint where
  txid : Str
  index : UInt32
  deriving DecidableEq

structure TxInput where
  previousOutput : OutPoint
  scriptSig : Bytes
  sequence : UInt32
  deriving DecidableEq

structure TxOutput where
  value : ℤ
  scriptPubkey : Bytes
  deriving DecidableEq

structure Transaction where
  version : Int32
  inputs : List TxInput
  outputs : List TxOutput
  lockTime : UInt32
  deriving DecidableEq

/-- The body of the loop over the inputs in `validate_transaction_structure`. -/
def validateInput (input : TxInput) : Except Exn Unit := do
  throwIf (input.scriptSig.length > maxScriptSize) (runtimeError "Input script exceeds size limit")
  let _ ← displayHexToWireBytes input.previousOutput.txid

/-- The body of the loop over the outputs, with the running total. -/
def validateOutput (totalOutput : ℤ) (output : TxOutput) : Except Exn ℤ := do
  throwIf (¬ moneyRange output.value) (runtimeError "Transaction output outside money range")
  throwIf (output.scriptPubkey.length > maxScriptSize)
    (runtimeError "Output script exceeds size limit")
  throwIf (totalOutput > maxMoney - output.value) (runtimeError "Transaction output total overflow")
  return totalOutput + output.value

def validateTransactionStructure (transaction : Transaction) : Except Exn Unit := do
  throwIf (transaction.inputs = []) (runtimeError "Transaction has no inputs")
  throwIf (transaction.outputs = []) (runtimeError "Transaction has no outputs")
  throwIf (transaction.inputs.length > maxTransactionItems ∨
      transaction.outputs.length > maxTransactionItems)
    (runtimeError "Transaction item count exceeds limit")
  forM transaction.inputs validateInput
  let _ ← transaction.outputs.foldlM validateOutput 0

def serializeInput (output : Bytes) (input : TxInput) : Except Exn Bytes := do
  let previousWire ← displayHexToWireBytes input.previousOutput.txid
  let output := output ++ previousWire.bytes
  let output := appendU32Le output input.previousOutput.index
  let output := appendCompactSize output (UInt64.ofNat input.scriptSig.length)
  let output := output ++ input.scriptSig
  return appendU32Le output input.sequence

def serializeOutput (output : Bytes) (txOutput : TxOutput) : Bytes :=
  let output := appendI64Le output (Int64.ofInt txOutput.value)
  let output := appendCompactSize output (UInt64.ofNat txOutput.scriptPubkey.length)
  output ++ txOutput.scriptPubkey

def Transaction.serialize (t : Transaction) : Except Exn Bytes := do
  validateTransactionStructure t
  let output := appendI32Le [] t.version
  let output := appendCompactSize output (UInt64.ofNat t.inputs.length)
  let output ← t.inputs.foldlM serializeInput output
  let output := appendCompactSize output (UInt64.ofNat t.outputs.length)
  let output := t.outputs.foldl serializeOutput output
  return appendU32Le output t.lockTime

section
variable [Crypto]

def Transaction.rawHash (t : Transaction) : Except Exn Hash256 := do return sha256d (← t.serialize)

def Transaction.txid (t : Transaction) : Except Exn Str := do return hashToDisplayHex (← t.rawHash)

end

def Transaction.isCoinbase (t : Transaction) : Bool :=
  match t.inputs with
  | [input] => input.previousOutput.txid = zeroHashHex ∧ input.previousOutput.index = 0xffffffff
  | _ => false

def readInput : Reader TxInput := do
  let txid ← readHashHex
  let index ← readU32Le
  let scriptSig ← readSized maxScriptSize "Input script exceeds size limit"
  let sequence ← readU32Le
  return ⟨⟨txid, index⟩, scriptSig, sequence⟩

def readOutput : Reader TxOutput := do
  let value ← readI64Le
  let scriptPubkey ← readSized maxScriptSize "Output script exceeds size limit"
  return ⟨value.toInt, scriptPubkey⟩

def readTransaction : Reader Transaction := do
  let version ← readI32Le
  let inputs ← readCounted maxTransactionItems "Too many transaction inputs" readInput
  let outputs ← readCounted maxTransactionItems "Too many transaction outputs" readOutput
  let lockTime ← readU32Le
  requireEnd "Trailing data after transaction"
  return ⟨version, inputs, outputs, lockTime⟩

def Transaction.deserialize (bytes : Bytes) : Except Exn Transaction := do
  let transaction ← readTransaction.parse bytes
  validateTransactionStructure transaction
  return transaction

/-! ## Coinbases -/

/-- The loop that pushes the bytes of `absolute`, least significant first (it runs at most 8
    times on a 64-bit value). -/
def magnitudeBytes : ℕ → ℕ → Bytes
  | 0, _ => []
  | fuel + 1, absolute =>
    if absolute = 0 then [] else UInt8.ofNat absolute :: magnitudeBytes fuel (absolute / 256)

def encodeScriptNumber (value : Int64) : Bytes :=
  if value = 0 then []
  else
    let negative := value < 0
    let result := magnitudeBytes 8 value.toInt.natAbs
    let last := result.getLastD 0
    if last &&& 0x80 ≠ 0 then result ++ [if negative then 0x80 else 0]
    else if negative then result.dropLast ++ [last ||| 0x80]
    else result

def pushScriptData (data : Bytes) : Except Exn Bytes := do
  throwIf (data.length > 75)
    (invalidArgument "This milestone supports direct script pushes of at most 75 bytes")
  return UInt8.ofNat data.length :: data

/-- The text in every coinbase that the node makes. -/
def coinbaseMarker : Bytes := str "July 22 2026, BinaryCoin testnet alpha begins."

def makeTestnetCoinbase (height : UInt64) (reward : ℤ) (scriptPubkey : Bytes) :
    Except Exn Transaction := do
  throwIf (¬ moneyRange reward) (invalidArgument "Coinbase reward outside money range")
  throwIf (scriptPubkey = [] ∨ scriptPubkey.length > maxScriptSize)
    (invalidArgument "Coinbase locking script has invalid size")
  let pushedHeight ← pushScriptData (encodeScriptNumber height.toInt64)
  let pushedMarker ← pushScriptData coinbaseMarker
  return ⟨1, [⟨⟨zeroHashHex, 0xffffffff⟩, pushedHeight ++ pushedMarker, 0xffffffff⟩],
    [⟨reward, scriptPubkey⟩], 0⟩

/-! ## The structural rules -/

/-- What `validate_transaction_structure` requires. -/
structure Transaction.Structure (t : Transaction) : Prop where
  inputs_ne : t.inputs ≠ []
  outputs_ne : t.outputs ≠ []
  inputs_le : t.inputs.length ≤ maxTransactionItems
  outputs_le : t.outputs.length ≤ maxTransactionItems
  input : ∀ i ∈ t.inputs, i.scriptSig.length ≤ maxScriptSize ∧
    ∃ w, displayHexToWireBytes i.previousOutput.txid = .ok w
  output : ∀ o ∈ t.outputs, moneyRange o.value ∧ o.scriptPubkey.length ≤ maxScriptSize
  total : (t.outputs.map TxOutput.value).sum ≤ maxMoney

theorem moneyRange_iff {value : ℤ} : moneyRange value ↔ 0 ≤ value ∧ value ≤ maxMoney := by
  simp [moneyRange]

theorem sum_values_nonneg {outputs : List TxOutput} (h : ∀ o ∈ outputs, moneyRange o.value) :
    0 ≤ (outputs.map TxOutput.value).sum := by
  apply List.sum_nonneg
  simp only [List.mem_map]
  rintro _ ⟨o, ho, rfl⟩
  exact (moneyRange_iff.1 (h o ho)).1

theorem validateInput_ok {input : TxInput} {u : Unit} :
    validateInput input = .ok u ↔ input.scriptSig.length ≤ maxScriptSize ∧
      ∃ w, displayHexToWireBytes input.previousOutput.txid = .ok w := by
  simp only [validateInput, except_bind_ok, throwIf_ok, except_pure_ok, not_lt, gt_iff_lt,
    exists_and_left, exists_const, and_true]

theorem validateOutput_ok {total r : ℤ} {output : TxOutput} :
    validateOutput total output = .ok r ↔ moneyRange output.value ∧
      output.scriptPubkey.length ≤ maxScriptSize ∧ total + output.value ≤ maxMoney ∧
      total + output.value = r := by
  simp only [validateOutput, except_bind_ok, throwIf_ok, except_pure_ok, exists_and_left,
    exists_const, not_not, not_lt, gt_iff_lt,
    le_sub_iff_add_le]

theorem forM_validateInput_ok {inputs : List TxInput} {u : Unit} :
    forM inputs validateInput = .ok u ↔ ∀ i ∈ inputs, i.scriptSig.length ≤ maxScriptSize ∧
      ∃ w, displayHexToWireBytes i.previousOutput.txid = .ok w := by
  induction inputs with
  | nil => simp [except_pure_ok]
  | cons i is ih =>
    rw [List.forM_cons, except_bind_ok]
    simp only [validateInput_ok, ih, List.forall_mem_cons, exists_and_left, exists_const]

/-- The loop over the outputs: every prefix total is in range because no value is negative. -/
theorem foldlM_validateOutput_ok {outputs : List TxOutput} {total r : ℤ} :
    outputs.foldlM validateOutput total = .ok r ↔
      (∀ o ∈ outputs, moneyRange o.value ∧ o.scriptPubkey.length ≤ maxScriptSize) ∧
      (outputs ≠ [] → total + (outputs.map TxOutput.value).sum ≤ maxMoney) ∧
      total + (outputs.map TxOutput.value).sum = r := by
  induction outputs generalizing total with
  | nil => simp [except_pure_ok]
  | cons o os ih =>
    rw [List.foldlM_cons, except_bind_ok]
    simp only [validateOutput_ok, ih, List.forall_mem_cons, List.map_cons, List.sum_cons]
    constructor
    · rintro ⟨t, ⟨ho, hs, hle, rfl⟩, hos, htot, rfl⟩
      refine ⟨⟨⟨ho, hs⟩, hos⟩, fun _ => ?_, by omega⟩
      cases os with
      | nil => simpa using hle
      | cons o' os => have := htot (by simp); omega
    · rintro ⟨⟨⟨ho, hs⟩, hos⟩, htot, rfl⟩
      have hnn := sum_values_nonneg fun o h => (hos o h).1
      have := htot (by simp)
      exact ⟨_, ⟨ho, hs, by omega, rfl⟩, hos, fun _ => by omega, by omega⟩

theorem validateTransactionStructure_ok {t : Transaction} {u : Unit} :
    validateTransactionStructure t = .ok u ↔ t.Structure := by
  simp only [validateTransactionStructure, throwIf_ok, except_bind_ok,
    forM_validateInput_ok, foldlM_validateOutput_ok, except_pure_ok, not_or, not_lt, gt_iff_lt,
    zero_add, exists_and_left, exists_eq', exists_const, and_true]
  constructor
  · rintro ⟨hi, ho, ⟨hil, hol⟩, hin, hout, htot⟩
    exact ⟨hi, ho, hil, hol, hin, hout, htot ho⟩
  · rintro ⟨hi, ho, hil, hol, hin, hout, htot⟩
    exact ⟨hi, ho, ⟨hil, hol⟩, hin, hout, fun _ => htot⟩

/-! ## The wire format -/

def TxInput.encode (i : TxInput) : Bytes :=
  wireOf i.previousOutput.txid ++ leBytes 4 i.previousOutput.index.toNat ++
    (compactLength i.scriptSig ++ i.scriptSig) ++ leBytes 4 i.sequence.toNat

def TxOutput.encode (o : TxOutput) : Bytes :=
  leBytes 8 (Int64.ofInt o.value).toUInt64.toNat ++ (compactLength o.scriptPubkey ++ o.scriptPubkey)

def Transaction.encode (t : Transaction) : Bytes :=
  leBytes 4 t.version.toUInt32.toNat ++ (compactLength t.inputs ++ t.inputs.flatMap TxInput.encode) ++
    (compactLength t.outputs ++ t.outputs.flatMap TxOutput.encode) ++ leBytes 4 t.lockTime.toNat

theorem foldl_serializeOutput (output : Bytes) (outputs : List TxOutput) :
    outputs.foldl serializeOutput output = output ++ outputs.flatMap TxOutput.encode := by
  induction outputs generalizing output with
  | nil => simp
  | cons o os ih =>
    simp [ih, serializeOutput, TxOutput.encode, appendI64Le, appendU64Le, appendCompactSize,
      compactLength]

theorem serializeInput_ok {output b : Bytes} {i : TxInput} :
    serializeInput output i = .ok b ↔
      (∃ w, displayHexToWireBytes i.previousOutput.txid = .ok w) ∧ b = output ++ i.encode := by
  simp only [serializeInput, except_bind_ok, except_pure_ok]
  constructor
  · rintro ⟨w, hw, rfl⟩
    refine ⟨⟨w, hw⟩, ?_⟩
    simp [TxInput.encode, wireOf, hw, appendU32Le, appendCompactSize, compactLength]
  · rintro ⟨⟨w, hw⟩, rfl⟩
    refine ⟨w, hw, ?_⟩
    simp [TxInput.encode, wireOf, hw, appendU32Le, appendCompactSize, compactLength]

theorem foldlM_serializeInput_ok {output b : Bytes} {inputs : List TxInput} :
    inputs.foldlM serializeInput output = .ok b ↔
      (∀ i ∈ inputs, ∃ w, displayHexToWireBytes i.previousOutput.txid = .ok w) ∧
      b = output ++ inputs.flatMap TxInput.encode := by
  induction inputs generalizing output with
  | nil => rw [List.foldlM_nil, except_pure_ok]; simp [eq_comm]
  | cons i is ih =>
    rw [List.foldlM_cons, except_bind_ok]
    simp only [serializeInput_ok, ih, List.forall_mem_cons, List.flatMap_cons]
    constructor
    · rintro ⟨_, ⟨hi, rfl⟩, his, rfl⟩
      exact ⟨⟨hi, his⟩, List.append_assoc ..⟩
    · rintro ⟨⟨hi, his⟩, rfl⟩
      exact ⟨_, ⟨hi, rfl⟩, his, (List.append_assoc ..).symm⟩

/-- **What `serialize` returns**: the encoding, of exactly the transactions that obey the
    structural rules. -/
theorem Transaction.serialize_ok {t : Transaction} {b : Bytes} :
    t.serialize = .ok b ↔ t.Structure ∧ b = t.encode := by
  simp only [Transaction.serialize, except_bind_ok, validateTransactionStructure_ok,
    foldlM_serializeInput_ok, except_pure_ok, foldl_serializeOutput, exists_and_left, exists_const]
  refine and_congr_right fun h => ?_
  constructor
  · rintro ⟨_, ⟨-, rfl⟩, rfl⟩
    simp [Transaction.encode, appendU32Le, appendI32Le, appendCompactSize, compactLength]
  · rintro rfl
    refine ⟨_, ⟨fun i hi => (h.input i hi).2, rfl⟩, ?_⟩
    simp [Transaction.encode, appendU32Le, appendI32Le, appendCompactSize, compactLength]

section
variable [Crypto]

/-- The identifier that `txid` returns when it returns one. -/
def Transaction.id (t : Transaction) : Str := hashToDisplayHex (sha256d t.encode)

theorem Transaction.txid_ok {t : Transaction} {text : Str} :
    t.txid = .ok text ↔ t.Structure ∧ text = t.id := by
  simp only [Transaction.id, Transaction.txid, Transaction.rawHash, except_bind_ok, except_pure_ok,
    Transaction.serialize_ok]
  constructor
  · rintro ⟨_, ⟨_, ⟨hs, rfl⟩, rfl⟩, rfl⟩; exact ⟨hs, rfl⟩
  · rintro ⟨hs, rfl⟩; exact ⟨_, ⟨_, ⟨hs, rfl⟩, rfl⟩, rfl⟩

theorem Transaction.rawHash_ok {t : Transaction} {h : Hash256} :
    t.rawHash = .ok h ↔ t.Structure ∧ h = sha256d t.encode := by
  simp only [Transaction.rawHash, except_bind_ok, except_pure_ok, Transaction.serialize_ok]
  constructor
  · rintro ⟨_, ⟨hs, rfl⟩, rfl⟩; exact ⟨hs, rfl⟩
  · rintro ⟨hs, rfl⟩; exact ⟨_, ⟨hs, rfl⟩, rfl⟩

end

theorem readInput_decodes : Decodes readInput TxInput.encode fun i =>
    IsDisplayHex i.previousOutput.txid ∧ i.scriptSig.length ≤ maxScriptSize := by
  intro s i r
  simp only [readInput, readHashHex_decodes.bind_ok, readU32Le_decodes.bind_ok,
    (readSized_decodes maxScriptSize_lt _).bind_ok, run_pure_ok, true_and]
  constructor
  · rintro ⟨txid, _, ⟨hd, rfl⟩, index, _, rfl, script, _, ⟨hs, rfl⟩, sequence, _, rfl, rfl, rfl⟩
    exact ⟨⟨hd, hs⟩, by simp [TxInput.encode]⟩
  · rintro ⟨⟨hd, hs⟩, rfl⟩
    refine ⟨_, _, ⟨hd, ?_⟩, _, _, rfl, _, _, ⟨hs, rfl⟩, _, _, rfl, rfl, rfl⟩
    simp [TxInput.encode]

/-- The amounts that fit in 64 bits. -/
def fitsInt64 (value : ℤ) : Prop := -2 ^ 63 ≤ value ∧ value < 2 ^ 63

theorem fitsInt64_of_moneyRange {value : ℤ} (h : moneyRange value) : fitsInt64 value := by
  obtain ⟨h0, h1⟩ := moneyRange_iff.1 h
  norm_num [maxMoney, bitsPerBin] at h1
  unfold fitsInt64
  omega

theorem readOutput_decodes : Decodes readOutput TxOutput.encode fun o =>
    fitsInt64 o.value ∧ o.scriptPubkey.length ≤ maxScriptSize := by
  intro s o r
  simp only [readOutput, readI64Le_decodes.bind_ok, (readSized_decodes maxScriptSize_lt _).bind_ok,
    run_pure_ok, true_and]
  constructor
  · rintro ⟨value, _, rfl, script, _, ⟨hs, rfl⟩, rfl, rfl⟩
    refine ⟨⟨⟨Int64.le_toInt _, Int64.toInt_lt _⟩, hs⟩, ?_⟩
    simp [TxOutput.encode]
  · rintro ⟨⟨hv, hs⟩, rfl⟩
    refine ⟨Int64.ofInt o.value, _, ?_, _, _, ⟨hs, rfl⟩, ?_, rfl⟩
    · simp [TxOutput.encode]
    · rw [Int64.toInt_ofInt_of_le hv.1 hv.2]

theorem readTransaction_ok {s r : Bytes} {t : Transaction} :
    readTransaction.run s = .ok t r ↔
      ((t.inputs.length ≤ maxTransactionItems ∧ ∀ i ∈ t.inputs,
          IsDisplayHex i.previousOutput.txid ∧ i.scriptSig.length ≤ maxScriptSize) ∧
        t.outputs.length ≤ maxTransactionItems ∧ ∀ o ∈ t.outputs,
          fitsInt64 o.value ∧ o.scriptPubkey.length ≤ maxScriptSize) ∧
      s = t.encode ∧ r = [] := by
  simp only [readTransaction, readI32Le_decodes.bind_ok, readU32Le_decodes.bind_ok,
    (readCounted_decodes maxTransactionItems_lt _ readInput_decodes).bind_ok,
    (readCounted_decodes maxTransactionItems_lt _ readOutput_decodes).bind_ok, run_bind_ok, requireEnd_ok,
    run_pure_ok, true_and]
  constructor
  · rintro ⟨v, _, rfl, is, _, ⟨hi, rfl⟩, os, _, ⟨ho, rfl⟩, l, _, rfl, _, _, ⟨rfl, rfl⟩, rfl, rfl⟩
    exact ⟨⟨hi, ho⟩, by simp [Transaction.encode], rfl⟩
  · rintro ⟨⟨hi, ho⟩, rfl, rfl⟩
    refine ⟨_, _, ?_, _, _, ⟨hi, rfl⟩, _, _, ⟨ho, rfl⟩, _, [], rfl, (), [], ⟨rfl, rfl⟩, rfl, rfl⟩
    simp [Transaction.encode]

/-- Every input names a digest in the node's own spelling. -/
def Transaction.Canonical (t : Transaction) : Prop :=
  ∀ i ∈ t.inputs, IsDisplayHex i.previousOutput.txid

/-- **What `deserialize` accepts**: the encodings of the transactions that obey the structural
    rules and spell their input txids as the node does. -/
theorem Transaction.deserialize_ok {b : Bytes} {t : Transaction} :
    Transaction.deserialize b = .ok t ↔ (t.Structure ∧ t.Canonical) ∧ b = t.encode := by
  simp only [Transaction.deserialize, except_bind_ok, Reader.parse_ok, readTransaction_ok,
    validateTransactionStructure_ok, except_pure_ok, exists_and_left, exists_const]
  constructor
  · rintro ⟨t, ⟨⟨⟨-, hi⟩, -⟩, rfl, -⟩, hs, rfl⟩
    exact ⟨⟨hs, fun i h => (hi i h).1⟩, rfl⟩
  · rintro ⟨⟨hs, hc⟩, rfl⟩
    refine ⟨t, ⟨⟨⟨hs.inputs_le, fun i h => ⟨hc i h, (hs.input i h).1⟩⟩, hs.outputs_le,
      fun o h => ⟨fitsInt64_of_moneyRange (hs.output o h).1, (hs.output o h).2⟩⟩, rfl, ?_⟩, hs, rfl⟩
    exact ⟨[], rfl⟩

theorem Transaction.encode_inj {t t' : Transaction} (hs : t.Structure) (hc : t.Canonical)
    (hs' : t'.Structure) (hc' : t'.Canonical) (h : t.encode = t'.encode) : t = t' := by
  have h₁ := Transaction.deserialize_ok.2 ⟨⟨hs, hc⟩, rfl⟩
  rw [h, Transaction.deserialize_ok.2 ⟨⟨hs', hc'⟩, rfl⟩] at h₁
  cases h₁; rfl

/-- **The wire format is a bijection** between the well-formed transactions with lower-case txids
    and the byte strings that are accepted; the txid is that of the bytes. -/
theorem transaction_wire_format [Crypto] :
    (∀ t : Transaction, validateTransactionStructure t = .ok () →
      (∀ i ∈ t.inputs, ∀ c ∈ i.previousOutput.txid, IsLowerHex c) →
      ∃ b, t.serialize = .ok b ∧ Transaction.deserialize b = .ok t) ∧
    (∀ (b : Bytes) (t : Transaction), Transaction.deserialize b = .ok t → t.serialize = .ok b ∧
      t.txid = .ok (hashToDisplayHex (sha256d b))) ∧
    ∀ (b b' : Bytes) (t : Transaction), Transaction.deserialize b = .ok t →
      Transaction.deserialize b' = .ok t → b = b' := by
  refine ⟨fun t ht hlower => ?_, fun b t h => ?_, fun b b' t h h' => ?_⟩
  · have hs := validateTransactionStructure_ok.1 ht
    have hc : t.Canonical := fun i hi => by
      obtain ⟨w, hw⟩ := (hs.input i hi).2
      exact isDisplayHex_of_lower hw (hlower i hi)
    exact ⟨t.encode, Transaction.serialize_ok.2 ⟨hs, rfl⟩,
      Transaction.deserialize_ok.2 ⟨⟨hs, hc⟩, rfl⟩⟩
  · obtain ⟨⟨hs, -⟩, rfl⟩ := Transaction.deserialize_ok.1 h
    exact ⟨Transaction.serialize_ok.2 ⟨hs, rfl⟩, Transaction.txid_ok.2 ⟨hs, rfl⟩⟩
  · rw [(Transaction.deserialize_ok.1 h).2, (Transaction.deserialize_ok.1 h').2]

/-- The text of a digest, as a number. -/
def displayHash (n : ℕ) : Str := hashToDisplayHex (Hash256.ofBytes (leBytes 32 n))

/-- Two inputs, the first with a script long enough for a wide length, and three outputs. -/
def transfer : Transaction where
  version := 1
  inputs := [
    ⟨⟨displayHash 0x2cf10845810fce4b828950111a45d66e33d8649db1265f088cf4607789ae1442, 0⟩,
      List.replicate 253 0x51, 0xffffffff⟩,
    ⟨⟨displayHash 0x00007e7bc2b6d593d9bacb54cd32bacaf9a99ff86adc9ac6fbe36134fff1c372, 7⟩, [],
      0xfffffffe⟩]
  outputs := [⟨4999990000, [0x51, 0x52]⟩, ⟨10000, [0x6a, 3, 1, 2, 3]⟩, ⟨0, []⟩]
  lockTime := 500

/-- SHA-256 of the encoding, and of that digest. -/
def transferDigest : ℕ := 0x55105eb68c25ed5a533e12fed09f82aba826b5caafe3f52ae0d6b56b7e52e100

def transferDoubleDigest : ℕ := 0xcb6082f541110535d5fcbb66e6bde584b2ca180baf2eda985724c5895abff0bc

@[reducible] def transferCrypto : Crypto where
  sha256 data := Hash256.ofBytes (leBytes 32 (
    if data = transfer.encode then transferDigest
    else if ofLe data = transferDigest then transferDoubleDigest
    else 0))
  verifyEcdsaDer _ _ _ := false
  validCompressedPublicKey _ := false

attribute [local instance] transferCrypto in
theorem transaction_wire_format_transfer : ∃ b, transfer.serialize = .ok b ∧
    Transaction.deserialize b = .ok transfer ∧
    transfer.txid = .ok (displayHash transferDoubleDigest) ∧
    ∀ b', Transaction.deserialize b' = .ok transfer → b' = b := by
  obtain ⟨hencode, hdecode, hcanonical⟩ := transaction_wire_format
  have hlower : ∀ i ∈ transfer.inputs, ∀ c ∈ i.previousOutput.txid, IsLowerHex c :=
    List.forall_mem_cons.2 ⟨fun _ => (IsDisplayHex.display _).lower,
      List.forall_mem_singleton.2 fun _ => (IsDisplayHex.display _).lower⟩
  obtain ⟨b, hserialize, hread⟩ := hencode transfer (by decide +kernel) hlower
  obtain ⟨-, rfl⟩ := Transaction.deserialize_ok.1 hread
  refine ⟨_, hserialize, hread, (hdecode _ _ hread).2.trans (congrArg Except.ok ?_),
    fun b' h => hcanonical b' _ transfer h hread⟩
  -- the digest is not the encoding
  have hne : leBytes 32 transferDigest ≠ transfer.encode := by decide +kernel
  have hinner : sha256 transfer.encode = Hash256.ofBytes (leBytes 32 transferDigest) :=
    congrArg (fun n => Hash256.ofBytes (leBytes 32 n)) (if_pos rfl)
  have houter : sha256 (leBytes 32 transferDigest) =
      Hash256.ofBytes (leBytes 32 transferDoubleDigest) :=
    congrArg (fun n => Hash256.ofBytes (leBytes 32 n))
      ((if_neg hne).trans (if_pos (ofLe_leBytes (by decide +kernel))))
  rw [sha256d, hinner, Hash256.bytes_ofBytes (length_leBytes ..), houter]
  rfl

end BinaryCoin
