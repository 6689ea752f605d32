/-
  BinaryCoin — hd_wallet_backend.cpp: which payments a wallet can make.

  Coins are taken in the order of their values and none is left out again, so
  that a payment is made exactly if some of the smallest coins pay for it.
-/
import BinaryCoin.Payment
import BinaryCoin.WalletUse

namespace BinaryCoin

open Cursor Std

section
variable [Crypto] [KeyCrypto] {sign : Secp256k1Secret → Hash256 → Except Exn Bytes}
  {t t' : Transaction}

namespace HdWalletBackend

variable {utxos : UtxoSet} {items chosen : List Available} {outputs : List TxOutput}
  {destinationScript changeScript : Bytes} {amount : ℤ} {feeRate : FeeRate} {height : UInt64}
  {w w' : HdWalletBackend}

/-! ## When coins pay -/

/-- Coins that pay for the amount and for the fee of spending them. -/
def Pays (fee : List Available → Except Exn ℤ) (amount : ℤ) (chosen : List Available) : Prop :=
  ∃ f, fee chosen = .ok f ∧ amount + f ≤ sumValues chosen

/-- Some of the coins, taken in order, pay; the totals and fees on the way are defined. -/
structure PaysInOrder (fee : List Available → Except Exn ℤ) (amount : ℤ)
    (chosen taken : List Available) : Prop where
  ne_nil : taken ≠ []
  bounded : Bounded (chosen ++ taken)
  defined : ∀ earlier, earlier <+: taken → earlier ≠ [] → ∃ f, fee (chosen ++ earlier) = .ok f
  pays : Pays fee amount (chosen ++ taken)

variable {fee : List Available → Except Exn ℤ} {item : Available} {rest taken : List Available}
  {total : ℤ}

omit [Crypto] in
/-- The first coin that is taken. -/
theorem PaysInOrder.first (h : PaysInOrder fee amount chosen (item :: taken)) :
    sumValues chosen + item.value ≤ maxMoney ∧ ∃ f, fee (chosen ++ [item]) = .ok f := by
  constructor
  · have hk := h.bounded (chosen.length + 1)
    rw [List.append_cons, List.take_left' (by rw [List.length_append, List.length_singleton]),
      sumValues_append] at hk
    simpa [sumValues] using hk
  · exact h.defined [item] ⟨taken, rfl⟩ (List.cons_ne_nil _ _)

omit [Crypto] in
/-- The coins after the first, where it does not pay by itself. -/
theorem paysInOrder_cons (hpays : ¬ Pays fee amount (chosen ++ [item])) {f : ℤ}
    (hf : fee (chosen ++ [item]) = .ok f) : PaysInOrder fee amount chosen (item :: taken) ↔
      PaysInOrder fee amount (chosen ++ [item]) taken := by
  have happend : ∀ items, chosen ++ item :: items = (chosen ++ [item]) ++ items := fun items =>
    List.append_cons chosen item items
  constructor
  · intro h
    refine ⟨?_, happend taken ▸ h.bounded, fun earlier hearlier hne => ?_, happend taken ▸ h.pays⟩
    · rintro rfl
      exact hpays h.pays
    · obtain ⟨f, hf⟩ := h.defined (item :: earlier) ((List.prefix_cons_inj item).2 hearlier)
        (List.cons_ne_nil _ _)
      exact ⟨f, happend earlier ▸ hf⟩
  · intro h
    refine ⟨List.cons_ne_nil _ _, (happend taken).symm ▸ h.bounded, fun earlier hearlier hne => ?_,
      (happend taken).symm ▸ h.pays⟩
    obtain ⟨first, earlier, rfl⟩ := List.exists_cons_of_ne_nil hne
    obtain ⟨rfl, hrest⟩ := List.cons_prefix_cons.1 hearlier
    rw [happend]
    by_cases hnil : earlier = []
    · rw [hnil, List.append_nil]
      exact ⟨f, hf⟩
    · exact h.defined earlier hrest hnil

omit [Crypto] in
/-- The loop ends with coins that pay exactly if some do in order. -/
theorem selectCoins_pays (hnonneg : ∀ items f, fee items = .ok f → 0 ≤ f)
    (htotal : total = sumValues chosen) (hbounded : Bounded chosen)
    (hpays : ¬ Pays fee amount chosen) :
    (∃ chosen' total', selectCoins fee amount rest chosen total = .ok (chosen', total') ∧
      Pays fee amount chosen') ↔ ∃ taken, taken <+: rest ∧ PaysInOrder fee amount chosen taken := by
  induction rest generalizing chosen total with
  | nil =>
    constructor
    · rintro ⟨chosen', total', h, hpays'⟩
      obtain ⟨rfl, -⟩ := Prod.mk.inj (Except.ok.inj h)
      exact absurd hpays' hpays
    · rintro ⟨taken, htaken, h⟩
      exact absurd (List.prefix_nil.1 htaken) h.ne_nil
  | cons item rest ih =>
    have hstop : (∃ chosen' total', selectCoins fee amount (item :: rest) chosen total =
        .ok (chosen', total') ∧ Pays fee amount chosen') →
        total ≤ maxMoney - item.value ∧ ∃ f, fee (chosen ++ [item]) = .ok f := by
      rintro ⟨chosen', total', h, -⟩
      simp only [selectCoins, except_bind_ok, throwIf_ok, exists_const, Int.not_lt] at h
      obtain ⟨hle, f, hf, -⟩ := h
      exact ⟨hle, f, hf⟩
    have hfirst : (∃ taken, taken <+: item :: rest ∧ PaysInOrder fee amount chosen taken) →
        total ≤ maxMoney - item.value ∧ ∃ f, fee (chosen ++ [item]) = .ok f := by
      rintro ⟨taken, htaken, h⟩
      obtain ⟨first, taken, rfl⟩ := List.exists_cons_of_ne_nil h.ne_nil
      obtain ⟨rfl, -⟩ := List.cons_prefix_cons.1 htaken
      obtain ⟨hle, hf⟩ := h.first
      exact ⟨by omega, hf⟩
    by_cases hdefined : total ≤ maxMoney - item.value ∧ ∃ f, fee (chosen ++ [item]) = .ok f
    swap
    · exact ⟨fun h => absurd (hstop h) hdefined, fun h => absurd (hfirst h) hdefined⟩
    obtain ⟨hle, f, hf⟩ := hdefined
    have hsum : total + item.value = sumValues (chosen ++ [item]) := by
      rw [sumValues_append, htotal]
      simp [sumValues]
    have hbounded' : Bounded (chosen ++ [item]) := hbounded.snoc (by omega)
    have hrun : selectCoins fee amount (item :: rest) chosen total =
        if total + item.value ≥ amount ∧ total + item.value - amount ≥ f then
          .ok (chosen ++ [item], total + item.value)
        else selectCoins fee amount rest (chosen ++ [item]) (total + item.value) := by
      rw [selectCoins, throwIf, if_neg (Int.not_lt.2 hle), hf]
      rfl
    have hstops : (total + item.value ≥ amount ∧ total + item.value - amount ≥ f) ↔
        Pays fee amount (chosen ++ [item]) := by
      have hf0 := hnonneg _ _ hf
      constructor
      · exact fun h => ⟨f, hf, by omega⟩
      · rintro ⟨f', hf', hle'⟩
        obtain rfl := Except.ok.inj (hf.symm.trans hf')
        omega
    rw [hrun]
    by_cases hpays' : Pays fee amount (chosen ++ [item])
    · rw [if_pos (hstops.2 hpays')]
      refine ⟨fun _ => ⟨[item], ⟨rest, rfl⟩, List.cons_ne_nil _ _, hbounded', ?_, hpays'⟩,
        fun _ => ⟨_, _, rfl, hpays'⟩⟩
      intro earlier hearlier hne
      obtain ⟨first, earlier, rfl⟩ := List.exists_cons_of_ne_nil hne
      obtain ⟨rfl, hnil⟩ := List.cons_prefix_cons.1 hearlier
      rw [List.prefix_nil.1 hnil]
      exact ⟨f, hf⟩
    · rw [if_neg fun h => hpays' (hstops.1 h), ih hsum hbounded' hpays']
      constructor
      · rintro ⟨taken, htaken, h⟩
        exact ⟨item :: taken, (List.prefix_cons_inj item).2 htaken,
          (paysInOrder_cons hpays' hf).2 h⟩
      · rintro ⟨taken, htaken, h⟩
        obtain ⟨first, taken, rfl⟩ := List.exists_cons_of_ne_nil h.ne_nil
        obtain ⟨rfl, hrest⟩ := List.cons_prefix_cons.1 htaken
        exact ⟨taken, hrest, (paysInOrder_cons hpays' hf).1 h⟩

/-! ## Signing does not throw -/

omit [Crypto] [KeyCrypto] in
/-- The structural rules for a transaction that spends the same outputs. -/
theorem structure_of_previousOutputs (h : t.Structure)
    (hinputs : t'.inputs.map TxInput.previousOutput = t.inputs.map TxInput.previousOutput)
    (hscripts : ∀ i ∈ t'.inputs, i.scriptSig.length ≤ maxScriptSize)
    (hne : t'.outputs ≠ []) (hle : t'.outputs.length ≤ maxTransactionItems)
    (houtputs : ∀ o ∈ t'.outputs, moneyRange o.value ∧ o.scriptPubkey.length ≤ maxScriptSize)
    (htotal : (t'.outputs.map TxOutput.value).sum ≤ maxMoney) : t'.Structure := by
  have hlength : t'.inputs.length = t.inputs.length := by
    simpa only [List.length_map] using congrArg List.length hinputs
  refine ⟨?_, hne, hlength ▸ h.inputs_le, hle, fun i hi => ⟨hscripts i hi, ?_⟩, houtputs, htotal⟩
  · intro hnil
    rw [hnil, List.length_nil] at hlength
    exact h.inputs_ne (List.length_eq_zero_iff.1 hlength.symm)
  · have hmem : i.previousOutput ∈ t.inputs.map TxInput.previousOutput :=
      hinputs ▸ List.mem_map_of_mem hi
    obtain ⟨input, hinput, heq⟩ := List.mem_map.1 hmem
    exact heq ▸ (h.input input hinput).2

omit [Crypto] [KeyCrypto] in
theorem structure_forSignature (h : t.Structure) {i : ℕ} {script : Bytes}
    (hscript : script.length ≤ maxScriptSize) : (t.forSignature i script).Structure := by
  have hinputs : (t.forSignature i script).inputs.map TxInput.previousOutput =
      t.inputs.map TxInput.previousOutput := by
    apply List.ext_getElem?
    intro k
    rw [List.getElem?_map, getElem?_forSignature, List.getElem?_map, Option.map_map]
    rfl
  refine structure_of_previousOutputs h hinputs (fun input hinput => ?_) h.outputs_ne h.outputs_le
    h.output h.total
  obtain ⟨k, hk⟩ := List.getElem?_of_mem hinput
  rw [getElem?_forSignature, Option.map_eq_some_iff] at hk
  obtain ⟨original, -, rfl⟩ := hk
  dsimp only
  split_ifs
  · exact hscript
  · exact Nat.zero_le _

/-- What the wallet's key library promises: a signature for every digest, of at most 72 bytes. -/
def Signs (sign : Secp256k1Secret → Hash256 → Except Exn Bytes) : Prop :=
  ∀ key hash, ∃ signature, sign key hash = .ok signature ∧ signature.length ≤ 72

/-- The transaction has scripts of at most 75 bytes. -/
def Short (t : Transaction) : Prop := ∀ i ∈ t.inputs, i.scriptSig.length ≤ 75

/-- An output that its key can spend. -/
def Fits (item : Available) : Prop :=
  extractP2pkPublicKey item.coin.output.scriptPubkey = .ok item.key.compressedPublicKey

theorem Fits.length (h : Fits item) : item.coin.output.scriptPubkey.length = 35 := by
  simp only [Fits, extractP2pkPublicKey, except_bind_ok, throwIf_ok, not_not, exists_const] at h
  exact (of_decide_eq_true h.1).1

theorem signInput_exists (hsign : Signs sign) (hst : t.unsigned.Structure) (hfits : Fits item) {k : ℕ}
    (hk : k < t.inputs.length) : ∃ scriptSig, signInput sign t (item, k) =
      .ok (t.setScriptSig k scriptSig) ∧ scriptSig.length ≤ 75 := by
  obtain ⟨hash, hhash⟩ : ∃ hash, signatureHashAll t k item.coin.output.scriptPubkey = .ok hash := by
    rw [← signatureHashAll_congr (unsigned_unsigned (t := t))]
    refine ⟨_, signatureHashAll_ok.2 ⟨?_, structure_forSignature hst ?_, rfl⟩⟩
    · simpa only [Transaction.unsigned, List.length_map] using hk
    · rw [hfits.length]
      decide
  obtain ⟨signature, hsignature, hlength⟩ := hsign item.key hash
  have hpushed : (signature ++ [sighashAll.toUInt8]).length ≤ 73 := by
    rw [List.length_append, List.length_singleton]
    omega
  have hpush : pushScriptData (signature ++ [sighashAll.toUInt8]) =
      .ok (UInt8.ofNat (signature ++ [sighashAll.toUInt8]).length ::
        (signature ++ [sighashAll.toUInt8])) :=
    except_bind_ok.2 ⟨(), throwIf_ok.2 (by omega), rfl⟩
  refine ⟨UInt8.ofNat (signature ++ [sighashAll.toUInt8]).length ::
    (signature ++ [sighashAll.toUInt8]), ?_, by rw [List.length_cons]; omega⟩
  exact except_bind_ok.2 ⟨_, hfits, except_bind_ok.2 ⟨(), throwIf_ok.2 (not_not.2 rfl),
    except_bind_ok.2 ⟨hash, hhash, except_bind_ok.2 ⟨signature, hsignature,
      except_bind_ok.2 ⟨_, hpush, rfl⟩⟩⟩⟩⟩

omit [Crypto] [KeyCrypto] in
theorem Short.setScriptSig (h : Short t) {k : ℕ} {scriptSig : Bytes} (hs : scriptSig.length ≤ 75) :
    Short (t.setScriptSig k scriptSig) := by
  intro input hinput
  obtain ⟨j, hj⟩ := List.getElem?_of_mem hinput
  rw [Transaction.setScriptSig, List.getElem?_modify] at hj
  obtain ⟨original, horiginal, hj⟩ := Option.map_eq_some_iff.1 hj
  split_ifs at hj
  · exact hj ▸ hs
  · exact hj ▸ h original (List.mem_of_getElem? horiginal)

theorem foldlM_signInput_exists (hsign : Signs sign) {entries : List (Available × ℕ)}
    (hfits : ∀ e ∈ entries, Fits e.1 ∧ e.2 < t.inputs.length) (hst : t.unsigned.Structure)
    (hshort : Short t) : ∃ t', entries.foldlM (signInput sign) t = .ok t' ∧ Short t' ∧
      t'.unsigned = t.unsigned := by
  induction entries generalizing t with
  | nil => exact ⟨t, rfl, hshort, rfl⟩
  | cons e es ih =>
    obtain ⟨he, hes⟩ := List.forall_mem_cons.1 hfits
    obtain ⟨scriptSig, hfirst, hs⟩ := signInput_exists hsign hst he.1 he.2
    have hlength : (t.setScriptSig e.2 scriptSig).inputs.length = t.inputs.length :=
      List.length_modify _ _ _
    obtain ⟨t', hrest, hshort', hunsigned⟩ : ∃ t',
        es.foldlM (signInput sign) (t.setScriptSig e.2 scriptSig) = .ok t' ∧ Short t' ∧
          t'.unsigned = (t.setScriptSig e.2 scriptSig).unsigned := by
      refine ih ?_ ?_ (hshort.setScriptSig hs)
      · rw [hlength]
        exact hes
      · rw [unsigned_setScriptSig]
        exact hst
    refine ⟨t', ?_, hshort', hunsigned.trans unsigned_setScriptSig⟩
    rw [List.foldlM_cons, except_bind_ok]
    exact ⟨_, hfirst, hrest⟩

/-! ## The estimate is an upper bound -/

omit [Crypto] [KeyCrypto] in
theorem length_flatMap_le {α β : Type} {f g : α → List β} {l : List α}
    (h : ∀ a ∈ l, (f a).length ≤ (g a).length) : (l.flatMap f).length ≤ (l.flatMap g).length := by
  rw [List.length_flatMap, List.length_flatMap]
  exact List.sum_le_sum h

omit [Crypto] [KeyCrypto] in
theorem length_compactLength {α : Type} {as : List α} (h : as.length < 253) :
    (compactLength as).length = 1 := by
  have hlt : UInt64.ofNat as.length < 253 := by
    rw [UInt64.lt_iff_toNat_lt, UInt64.toNat_ofNat_of_lt' (by norm_num [UInt64.size]; omega)]
    exact h
  rw [compactLength, compactSize, if_pos hlt]
  rfl

omit [Crypto] [KeyCrypto] in
theorem length_encode_input (input : TxInput) {scriptSig : Bytes}
    (hle : input.scriptSig.length ≤ scriptSig.length) (hlt : scriptSig.length < 253) :
    input.encode.length ≤ ({ input with scriptSig := scriptSig } : TxInput).encode.length := by
  simp only [TxInput.encode, List.length_append, length_compactLength hlt,
    length_compactLength (Nat.lt_of_le_of_lt hle hlt), LittleEndian.length_leBytes]
  omega

omit [Crypto] [KeyCrypto] in
theorem estimatedSignedSize_ok {size : ℕ} : estimatedSignedSize t = .ok size ↔
    ({ t with inputs := t.inputs.map fun input =>
      { input with scriptSig := 74 :: List.replicate 74 0 } } : Transaction).Structure ∧
    size = ({ t with inputs := t.inputs.map fun input =>
      { input with scriptSig := 74 :: List.replicate 74 0 } } : Transaction).encode.length := by
  simp only [estimatedSignedSize, except_bind_ok, Transaction.serialize_ok, except_pure_ok]
  constructor
  · rintro ⟨_, ⟨hst, rfl⟩, rfl⟩
    exact ⟨hst, rfl⟩
  · rintro ⟨hst, rfl⟩
    exact ⟨_, ⟨hst, rfl⟩, rfl⟩

omit [Crypto] [KeyCrypto] in
theorem length_encode_finalOutputs (amount change : ℤ) (destinationScript changeScript : Bytes) :
    ((finalOutputs amount destinationScript changeScript change).flatMap TxOutput.encode).length ≤
      ((paymentOutputs amount destinationScript changeScript 0).flatMap TxOutput.encode).length := by
  unfold finalOutputs
  split_ifs <;>
    simp [paymentOutputs, TxOutput.encode, LittleEndian.length_leBytes]

/-- The inputs with the scripts that the estimate assumes. -/
def padded (t : Transaction) (outputs : List TxOutput) : Transaction :=
  { t with
    inputs := t.inputs.map fun input => { input with scriptSig := 74 :: List.replicate 74 0 }
    outputs := outputs }

omit [Crypto] [KeyCrypto] in
/-- A signed payment is no larger than estimated. -/
theorem length_encode_le (hshort : Short t) {change : ℤ}
    (houtputs : t.outputs = finalOutputs amount destinationScript changeScript change) :
    t.encode.length ≤
      (padded t (paymentOutputs amount destinationScript changeScript 0)).encode.length := by
  have hinputs : (t.inputs.flatMap TxInput.encode).length ≤
      ((t.inputs.map fun input => { input with scriptSig := 74 :: List.replicate 74 0 }).flatMap
        TxInput.encode).length := by
    rw [List.flatMap_map]
    refine length_flatMap_le fun input hinput => length_encode_input input ?_ (by simp)
    simpa using hshort input hinput
  have hcount : compactLength (t.inputs.map fun input =>
      { input with scriptSig := 74 :: List.replicate 74 0 }) = compactLength t.inputs := by
    rw [compactLength, compactLength, List.length_map]
  have hfinal : t.outputs.length ≤ 2 := by
    rw [houtputs, finalOutputs]
    split_ifs <;> simp [paymentOutputs]
  have hsize := length_encode_finalOutputs amount change destinationScript changeScript
  rw [← houtputs] at hsize
  simp only [Transaction.encode, padded, hcount, List.length_append,
    LittleEndian.length_leBytes,
    length_compactLength (show t.outputs.length < 253 by omega),
    length_compactLength (show (paymentOutputs amount destinationScript changeScript 0).length < 253
      by simp [paymentOutputs])]
  omega

omit [Crypto] [KeyCrypto] in
/-- The fee of fewer bytes. -/
theorem fee_mono {size size' : ℕ} {f : ℤ} (h : feeRate.fee size = .ok f) (hle : size' ≤ size) :
    ∃ f', feeRate.fee size' = .ok f' ∧ f' ≤ f := by
  have hnonneg := fee_nonneg h
  simp only [FeeRate.fee, except_bind_ok, throwIf_ok, exists_const] at h ⊢
  obtain ⟨hrate, h⟩ := h
  by_cases hzero : size' = 0 ∨ feeRate.bitsPerKvb = 0
  · exact ⟨0, ⟨hrate, by rw [if_pos hzero]; rfl⟩, hnonneg⟩
  · have hzero' : ¬ (size = 0 ∨ feeRate.bitsPerKvb = 0) := by
      rw [not_or] at hzero ⊢
      exact ⟨by omega, hzero.2⟩
    rw [if_neg hzero'] at h
    simp only [except_bind_ok, throwIf_ok, exists_const, except_pure_ok] at h
    obtain ⟨hsize, hround, rfl⟩ := h
    have hmul : (feeRate.bitsPerKvb.toInt.toNat : ℤ) * size' ≤
        feeRate.bitsPerKvb.toInt.toNat * size :=
      mul_le_mul_of_nonneg_left (by exact_mod_cast hle) (Int.natCast_nonneg _)
    have hfee : ((feeRate.bitsPerKvb.toInt.toNat : ℤ) * size' + 999) / 1000 ≤
        (feeRate.bitsPerKvb.toInt.toNat * size + 999) / 1000 := by omega
    refine ⟨_, ⟨hrate, ?_⟩, hfee⟩
    rw [if_neg hzero]
    simp only [except_bind_ok, throwIf_ok, exists_const, except_pure_ok]
    exact ⟨by omega, by omega, trivial⟩

/-! ## Which payments are made -/

theorem Fits.of_entry {script : Bytes} {key : Secp256k1Secret}
    (hlength : key.compressedPublicKey.length = 33)
    (h : makeP2pkScript key.compressedPublicKey = .ok script) :
    extractP2pkPublicKey script = .ok key.compressedPublicKey := by
  simp only [makeP2pkScript, except_bind_ok, throwIf_ok, except_pure_ok, exists_const, not_not] at h
  obtain ⟨hvalid, rfl⟩ := h
  have htake : ((33 :: key.compressedPublicKey ++ [opChecksig]).drop 1).take 33 =
      key.compressedPublicKey := by
    rw [List.cons_append, List.drop_succ_cons, List.drop_zero]
    exact List.take_left' hlength
  have hp2pk : isP2pkScript (33 :: key.compressedPublicKey ++ [opChecksig]) := by
    refine decide_eq_true ⟨by simp [hlength], rfl, ?_, htake.symm ▸ hvalid⟩
    rw [List.getD_eq_getElem?_getD, List.cons_append, List.getElem?_cons_succ,
      List.getElem?_append_right (by omega), hlength]
    rfl
  exact except_bind_ok.2 ⟨(), throwIf_ok.2 (not_not.2 hp2pk), congrArg Except.ok htake⟩

omit [Crypto] in
theorem not_pays_nil (hamount : 0 < amount)
    (hnonneg : ∀ items f, fee items = .ok f → 0 ≤ f) : ¬ Pays fee amount [] := by
  rintro ⟨f, hf, hle⟩
  have hf0 := hnonneg _ _ hf
  have hsum : sumValues ([] : List Available) = 0 := rfl
  omega

omit [Crypto] in
theorem estimatedFee_nonneg (items : List Available) (f : ℤ)
    (h : estimatedFee feeRate amount destinationScript changeScript items = .ok f) : 0 ≤ f := by
  obtain ⟨_, -, h⟩ := except_bind_ok.1 h
  exact fee_nonneg h

/-- The smallest coins that pay, if any do. -/
def Payable (feeRate : FeeRate) (amount : ℤ) (destinationScript changeScript : Bytes)
    (items : List Available) : Prop :=
  ∃ taken, taken <+: sortedCoins items ∧
    PaysInOrder (estimatedFee feeRate amount destinationScript changeScript) amount [] taken

/-- Coins that pay are spent by a transaction that is signed and small enough. -/
theorem payment_exists (hsign : Signs sign) (hfits : ∀ item ∈ chosen, Fits item) {f : ℤ}
    (hbounded : Bounded chosen)
    (hf : estimatedFee feeRate amount destinationScript changeScript chosen = .ok f)
    (hle : amount + f ≤ sumValues chosen) : ∃ t size minimum,
      chosen.zipIdx.foldlM (signInput sign) (unsignedPayment chosen (finalOutputs amount
        destinationScript changeScript (sumValues chosen - amount - f))) = .ok t ∧
      t.virtualSize = .ok size ∧ feeRate.fee size = .ok minimum ∧ minimum ≤ f := by
  obtain ⟨estimate, hestimate, hfee⟩ := except_bind_ok.1 hf
  have hf0 := fee_nonneg hfee
  obtain ⟨hst, hsize⟩ := estimatedSignedSize_ok.1 hestimate
  obtain ⟨hdestination, hchange⟩ : (moneyRange amount ∧ destinationScript.length ≤ maxScriptSize) ∧
      changeScript.length ≤ maxScriptSize :=
    ⟨hst.output ⟨amount, destinationScript⟩ List.mem_cons_self,
      (hst.output ⟨0, changeScript⟩ (List.mem_cons_of_mem _ List.mem_cons_self)).2⟩
  have htotal : sumValues chosen ≤ maxMoney := by
    have hk := hbounded chosen.length
    rwa [List.take_length] at hk
  -- the structural rules for every transaction that spends the coins
  have hstructure : ∀ t : Transaction, t.unsigned = unsignedPayment chosen (finalOutputs amount
      destinationScript changeScript (sumValues chosen - amount - f)) → Short t → t.Structure := by
    intro t hunsigned hshort
    have houtputs : t.outputs = finalOutputs amount destinationScript changeScript
        (sumValues chosen - amount - f) := congrArg Transaction.outputs hunsigned
    have hrange := moneyRange_iff.1 hdestination.1
    refine structure_of_previousOutputs hst ?_ (fun i hi => Nat.le_trans (hshort i hi) (by decide))
      ?_ ?_ ?_ ?_
    · rw [previousOutputs_of_unsigned hunsigned]
      simp [unsignedPayment, Available.input, Function.comp_def]
    · rw [houtputs, finalOutputs]
      split_ifs <;> simp [paymentOutputs]
    · rw [houtputs, finalOutputs]
      split_ifs <;> simp [paymentOutputs, maxTransactionItems]
    · intro o ho
      rw [houtputs, finalOutputs] at ho
      split_ifs at ho
      · obtain rfl := List.mem_singleton.1 ho
        exact hdestination
      · simp only [paymentOutputs, List.mem_cons, List.not_mem_nil, or_false] at ho
        obtain rfl | rfl := ho
        · exact hdestination
        · exact ⟨moneyRange_iff.2 (by dsimp only; omega), hchange⟩
    · rw [houtputs, finalOutputs_sum]
      omega
  have hshort : Short (unsignedPayment chosen (finalOutputs amount destinationScript changeScript
      (sumValues chosen - amount - f))) := by
    intro i hi
    obtain ⟨item, -, rfl⟩ := List.mem_map.1 hi
    exact Nat.zero_le _
  have hentries : ∀ e ∈ chosen.zipIdx, Fits e.1 ∧ e.2 < (unsignedPayment chosen (finalOutputs amount
      destinationScript changeScript (sumValues chosen - amount - f))).inputs.length := by
    rintro ⟨item, k⟩ he
    have hk := List.mem_zipIdx_iff_getElem?.1 he
    refine ⟨hfits item (List.mem_of_getElem? hk), ?_⟩
    rw [unsignedPayment, List.length_map]
    exact (List.getElem?_eq_some_iff.1 hk).1
  have hunsignedPayment := unsigned_unsignedPayment chosen (finalOutputs amount destinationScript
    changeScript (sumValues chosen - amount - f))
  obtain ⟨t, hsigned, hshort', hunsigned⟩ := foldlM_signInput_exists hsign hentries
    (hunsignedPayment.symm ▸ hstructure _ hunsignedPayment hshort) hshort
  have hst' := hstructure t (hunsigned.trans hunsignedPayment) hshort'
  have houtputs : t.outputs = finalOutputs amount destinationScript changeScript
      (sumValues chosen - amount - f) := congrArg Transaction.outputs hunsigned
  have hpadded : estimate =
      (padded t (paymentOutputs amount destinationScript changeScript 0)).encode.length := by
    have hcongr := estimatedSignedSize_congr hunsigned
      (paymentOutputs amount destinationScript changeScript 0)
    exact (estimatedSignedSize_ok.1 (hcongr.trans hestimate)).2
  obtain ⟨minimum, hminimum, hreserved⟩ := fee_mono hfee (hpadded ▸ length_encode_le hshort' houtputs)
  exact ⟨t, _, minimum, hsigned, except_bind_ok.2 ⟨_, Transaction.serialize_ok.2 ⟨hst', rfl⟩, rfl⟩,
    hminimum, hreserved⟩

/-- **`create_payment` makes a payment**, once the coins are collected, exactly if the smallest coins
    pay for it. -/
theorem payFrom_iff (hsign : Signs sign) (hamount : 0 < amount) (hfits : ∀ item ∈ items, Fits item) :
    (∃ t, payFrom sign items destinationScript changeScript amount feeRate = .ok t) ↔
      Payable feeRate amount destinationScript changeScript items := by
  have hnonneg : ∀ items f, estimatedFee feeRate amount destinationScript changeScript items = .ok f →
      0 ≤ f := estimatedFee_nonneg
  rw [Payable, ← selectCoins_pays hnonneg rfl Bounded.nil (not_pays_nil hamount hnonneg)]
  constructor
  · rintro ⟨t, h⟩
    simp only [payFrom, except_bind_ok, throwIf_ok, exists_const, Int.not_lt] at h
    obtain ⟨⟨chosen, total⟩, hselect, -, f, hf, hle, -⟩ := h
    obtain ⟨-, rfl, -⟩ := selectCoins_ok hselect rfl Bounded.nil
    exact ⟨chosen, _, hselect, f, hf, hle⟩
  · rintro ⟨chosen, total, hselect, f, hf, hle⟩
    obtain ⟨⟨taken, left, hsorted, rfl⟩, rfl, hbounded⟩ := selectCoins_ok hselect rfl Bounded.nil
    have hperm : (sortedCoins items).Perm items := List.mergeSort_perm _ _
    obtain ⟨t, size, minimum, hsigned, hsize, hminimum, hreserved⟩ := payment_exists hsign
      (fun item hitem => hfits item (hperm.subset (hsorted ▸ List.mem_append_left _ hitem)))
      hbounded hf hle
    refine ⟨t, ?_⟩
    have hf0 := hnonneg _ _ hf
    simp only [payFrom, except_bind_ok, throwIf_ok, except_pure_ok, exists_const, Int.not_lt]
    exact ⟨_, hselect, by dsimp only; omega, f, hf, hle, t, hsigned, size, hsize, minimum, hminimum,
      hreserved, rfl⟩

/-- The scripts of the wallet are those of its keys. -/
theorem makeP2pkScript_of_owned {entries : List (Bytes × Secp256k1Secret)}
    (h : w.ownedEntries = .ok entries) {entry : Bytes × Secp256k1Secret} (hentry : entry ∈ entries) :
    makeP2pkScript entry.2.compressedPublicKey = .ok entry.1 := by
  have howned : ∀ key, ownedEntry key = .ok entry →
      makeP2pkScript entry.2.compressedPublicKey = .ok entry.1 := by
    intro key hkey
    obtain ⟨script, hscript, heq⟩ := except_bind_ok.1 hkey
    obtain rfl := except_pure_ok.1 heq
    exact hscript
  have hbranch : ∀ branch limit r, w.ownedBranch branch limit = .ok r → entry ∈ r →
      makeP2pkScript entry.2.compressedPublicKey = .ok entry.1 := by
    intro branch limit r hr hmem
    obtain ⟨index, -, hindex⟩ := mem_of_mapM hr hmem
    obtain ⟨key, -, hkey⟩ := except_bind_ok.1 hindex
    exact howned key hkey
  simp only [ownedEntries, except_bind_ok, except_pure_ok] at h
  obtain ⟨receive, hreceive, change, hchange, legacy, hlegacy, rfl⟩ := h
  obtain (hentry | hentry) | hentry := (List.mem_append.1 hentry).imp_left List.mem_append.1
  · split_ifs at hreceive
    · exact hbranch 0 _ receive hreceive hentry
    · obtain rfl := Except.ok.inj hreceive
      cases hentry
  · split_ifs at hchange
    · exact hbranch 1 _ change hchange hentry
    · obtain rfl := Except.ok.inj hchange
      cases hentry
  · obtain ⟨key, -, hkey⟩ := mem_of_mapM hlegacy hentry
    exact howned key hkey

/-- A wallet that has been loaded: the entries of its cache, and its script for change. -/
structure Ready (w : HdWalletBackend) (entries : List (Bytes × Secp256k1Secret))
    (changeScript : Bytes) : Prop where
  entries_eq : w.ownedEntries = .ok entries
  cache : w.ownedCache = none ∨ w.ownedCache = some entries
  change : ∃ key, w.changeKey = .ok key ∧ makeP2pkScript key.compressedPublicKey = .ok changeScript

/-- The coins that the wallet may spend. -/
def spendable (entries : List (Bytes × Secp256k1Secret)) (height : UInt64) (utxos : UtxoSet) :
    List Available :=
  utxos.toList.filterMap (available entries height)

/-- Some of the coins pay, whichever they are. -/
def Affordable (feeRate : FeeRate) (amount : ℤ) (destinationScript changeScript : Bytes)
    (items : List Available) : Prop :=
  ∃ chosen, chosen.Nodup ∧ chosen ⊆ items ∧ sumValues chosen ≤ maxMoney ∧
    chosen.length ≤ maxTransactionItems ∧
    Pays (estimatedFee feeRate amount destinationScript changeScript) amount chosen

omit [Crypto] in
/-- The amount of a payment that is paid for is in the money range. -/
theorem Payable.moneyRange
    (h : Payable feeRate amount destinationScript changeScript items) : moneyRange amount := by
  obtain ⟨taken, -, hpays⟩ := h
  obtain ⟨f, hf, -⟩ := hpays.pays
  obtain ⟨estimate, hestimate, -⟩ := except_bind_ok.1 hf
  exact ((estimatedSignedSize_ok.1 hestimate).1.output ⟨amount, destinationScript⟩
    List.mem_cons_self).1

/-- Behind its checks, `create_payment` pays from what the wallet can spend. -/
theorem createPayment_run {entries : List (Bytes × Secp256k1Secret)} {destinationPublicKey : Bytes}
    (hready : w.Ready entries changeScript)
    (hdestination : makeP2pkScript destinationPublicKey = .ok destinationScript)
    (hcheck : ¬ (amount ≤ 0 ∨ ¬ moneyRange amount)) : ∃ w₁,
    (createPayment sign utxos height destinationPublicKey amount feeRate).run w =
      (liftM (payFrom sign (spendable entries height utxos) destinationScript changeScript amount
        feeRate) : EStateM Exn HdWalletBackend Transaction).run w₁ := by
  obtain ⟨key, hkey, hchange⟩ := hready.change
  have hcaches : w.Caches entries := hready.cache.elim (fun h => .inr ⟨h, hready.entries_eq⟩) .inl
  obtain ⟨w₁, hcoins⟩ : ∃ w₁, (availableCoins height utxos.toList).run w =
    .ok (spendable entries height utxos) w₁ := availableCoins_run hcaches
  refine ⟨w₁, ?_⟩
  rw [createPayment, run_bind_of_ok (a := ()) (throwIf_run_ok.2 ⟨hcheck, rfl⟩),
    run_bind_of_ok (lift_run_ok.2 ⟨hdestination, rfl⟩),
    run_bind_of_ok (show (get : EStateM Exn HdWalletBackend _).run w = .ok w w from rfl),
    run_bind_of_ok (lift_run_ok.2 ⟨hkey, rfl⟩), run_bind_of_ok (lift_run_ok.2 ⟨hchange, rfl⟩),
    run_bind_of_ok hcoins]

/-- **`create_payment` makes a payment** exactly if there is something to pay and the smallest coins
    pay for it. -/
theorem createPayment_iff {entries : List (Bytes × Secp256k1Secret)} {destinationPublicKey : Bytes}
    (hsign : Signs sign) (hkeys : ∀ key : Secp256k1Secret, key.compressedPublicKey.length = 33)
    (hready : w.Ready entries changeScript)
    (hdestination : makeP2pkScript destinationPublicKey = .ok destinationScript) :
    (∃ t w', (createPayment sign utxos height destinationPublicKey amount feeRate).run w =
        .ok t w') ↔ 0 < amount ∧
      Payable feeRate amount destinationScript changeScript (spendable entries height utxos) := by
  by_cases hcheck : amount ≤ 0 ∨ ¬ moneyRange amount
  · constructor
    · rintro ⟨t, w', h⟩
      simp only [createPayment, run_bind_ok, throwIf_run_ok] at h
      obtain ⟨_, _, ⟨hvalid, -⟩, -⟩ := h
      exact absurd hcheck hvalid
    · rintro ⟨hamount, hpayable⟩
      exact absurd hpayable.moneyRange (hcheck.resolve_left (Int.not_le.2 hamount))
  have hamount : 0 < amount := Int.not_le.1 fun h => hcheck (.inl h)
  have hfits : ∀ item ∈ spendable entries height utxos, Fits item := by
    intro item hitem
    obtain ⟨entry, -, hentry⟩ := List.mem_filterMap.1 hitem
    obtain ⟨-, hcoin, hfind, -⟩ := available_eq_some.1 hentry
    obtain ⟨owned, howned, hownedKey⟩ := Option.map_eq_some_iff.1 hfind
    have hscript : owned.1 = entry.2.output.scriptPubkey := by simpa using List.find?_some howned
    have hmake := makeP2pkScript_of_owned hready.entries_eq (List.mem_of_find?_eq_some howned)
    rw [hownedKey, hscript] at hmake
    rw [Fits, hcoin]
    exact Fits.of_entry (hkeys item.key) hmake
  obtain ⟨w₁, hrun⟩ : ∃ w₁,
      (createPayment sign utxos height destinationPublicKey amount feeRate).run w =
        (liftM (payFrom sign (spendable entries height utxos) destinationScript changeScript amount
          feeRate) : EStateM Exn HdWalletBackend Transaction).run w₁ :=
    createPayment_run hready hdestination hcheck
  rw [hrun, and_iff_right hamount, ← payFrom_iff hsign hamount hfits]
  simp only [lift_run_ok, exists_and_left, exists_eq', and_true]

/-- **When `create_payment` is complete**: it pays what some coins can pay for exactly if there is
    something to pay and the smallest coins can pay for it. -/
theorem createPayment_complete_iff {entries : List (Bytes × Secp256k1Secret)}
    {destinationPublicKey : Bytes} (hsign : Signs sign)
    (hkeys : ∀ key : Secp256k1Secret, key.compressedPublicKey.length = 33)
    (hready : w.Ready entries changeScript)
    (hdestination : makeP2pkScript destinationPublicKey = .ok destinationScript) :
    (Affordable feeRate amount destinationScript changeScript (spendable entries height utxos) →
      ∃ t w', (createPayment sign utxos height destinationPublicKey amount feeRate).run w =
        .ok t w') ↔
    (Affordable feeRate amount destinationScript changeScript (spendable entries height utxos) →
      0 < amount ∧
      Payable feeRate amount destinationScript changeScript (spendable entries height utxos)) := by
  rw [createPayment_iff hsign hkeys hready hdestination]

end HdWalletBackend

end

/-! ## A coin that is worth less than the fee of spending it -/

open LittleEndian

section
attribute [local instance] paymentCrypto genesisKeyCrypto

/-- Signs every digest, those of the table with their signatures. -/
def everySign (_ : Secp256k1Secret) (hash : Hash256) : Except Exn Bytes :=
  .ok (leBytes 70 (((paymentSignatures.find? (·.1 = ofLe hash.bytes)).map Prod.snd).getD 0)).reverse

theorem everySign_signs : HdWalletBackend.Signs everySign := by
  intro key hash
  refine ⟨_, rfl, ?_⟩
  rw [List.length_reverse, length_leBytes]
  decide

/-- A coin of 1 and one of 300000. -/
def dustUtxos : UtxoSet :=
  ((∅ : UtxoSet).insert ⟨firstOutput.txid, 0⟩ ⟨⟨1, sampleScript⟩, 1, false⟩).insert
    ⟨firstOutput.txid, 1⟩ ⟨⟨300000, sampleScript⟩, 1, false⟩

def genesisEntries : List (Bytes × Secp256k1Secret) :=
  [(sampleScript, genesisKey)]

theorem genesisWallet_ready : genesisWallet.Ready genesisEntries sampleScript :=
  ⟨rfl, .inl rfl, genesisKey, rfl, rfl⟩

/-- The coin of the wallet with an index and a value. -/
def coinOf (index : UInt32) (value : ℤ) : Available :=
  ⟨⟨firstOutput.txid, index⟩, ⟨⟨value, sampleScript⟩, 1, false⟩, genesisKey⟩

/-- The fee at a rate of 1000000 for paying 1000. -/
def dustFee (chosen : List Available) : Except Exn ℤ :=
  estimatedFee ⟨1000000⟩ 1000 sampleScript sampleScript chosen

/-- The outpoint and the output of a coin. -/
def Available.entry (item : Available) : OutPoint × Coin := (item.outpoint, item.coin)

theorem dust_facts :
    (HdWalletBackend.spendable genesisEntries 10 dustUtxos).map Available.entry =
      [coinOf 0 1, coinOf 1 300000].map Available.entry ∧
    dustFee [coinOf 1 300000] = .ok 214000 ∧ dustFee [coinOf 0 1, coinOf 1 300000] = .ok 330000 := by
  decide +kernel

/-- A coin is known by its outpoint and output, as there is only one key. -/
theorem available_injective : Function.Injective Available.entry := by
  rintro ⟨outpoint, coin, key⟩ ⟨outpoint', coin', key'⟩ h
  obtain ⟨rfl, rfl⟩ := Prod.mk.inj h
  have hkey : key = key' := Secp256k1Secret.ext
    ((of_decide_eq_true key.valid).trans (of_decide_eq_true key'.valid).symm)
  rw [hkey]

theorem spendable_dust : HdWalletBackend.spendable genesisEntries 10 dustUtxos =
    [coinOf 0 1, coinOf 1 300000] :=
  List.map_injective_iff.2 available_injective dust_facts.1

/-- The larger coin pays, but is taken after the smaller one, and both together do not. -/
theorem dust_notPayable : ¬ HdWalletBackend.Payable ⟨1000000⟩ 1000 sampleScript sampleScript
    (HdWalletBackend.spendable genesisEntries 10 dustUtxos) := by
  have hsorted : HdWalletBackend.sortedCoins [coinOf 0 1, coinOf 1 300000] =
      [coinOf 0 1, coinOf 1 300000] := by
    refine List.mergeSort_of_pairwise ?_
    decide
  rintro ⟨taken, htaken, hpays⟩
  rw [spendable_dust, hsorted] at htaken
  obtain ⟨first, rest, rfl⟩ := List.exists_cons_of_ne_nil hpays.ne_nil
  obtain ⟨rfl, hrest⟩ := List.cons_prefix_cons.1 htaken
  obtain ⟨f, hf, hle⟩ := hpays.pays
  have hf0 := HdWalletBackend.estimatedFee_nonneg _ _ hf
  cases rest with
  | nil =>
    have hsum : sumValues [coinOf 0 1] = 1 := by decide
    rw [List.nil_append, hsum] at hle
    omega
  | cons second rest =>
    obtain ⟨rfl, hnil⟩ := List.cons_prefix_cons.1 hrest
    rw [List.prefix_nil.1 hnil] at hf hle
    have hsum : sumValues [coinOf 0 1, coinOf 1 300000] = 300001 := by decide
    rw [List.nil_append, hsum] at hle
    obtain rfl := Except.ok.inj (hf.symm.trans dust_facts.2.2)
    omega

theorem makeP2pkScript_genesis : makeP2pkScript genesisPublicKey = .ok sampleScript := rfl

/-! ### A payment with change -/

/-- The first output, and a larger one. -/
def changeUtxos : UtxoSet :=
  ((∅ : UtxoSet).insert firstOutput firstCoin).insert ⟨firstOutput.txid, 1⟩
    ⟨⟨6000000000, sampleScript⟩, 1, false⟩

def changeCoins : List Available := [⟨firstOutput, firstCoin, genesisKey⟩, coinOf 1 6000000000]

/-- Spends both. -/
def changePayment : Transaction where
  version := 1
  inputs := [(0, 0x304402200083b70028057ef04841a480d63ecdcc58f68d2b54c8a54b395c9b666a310b40022078ec6bdcb6268d4ad06ad86691d90173c05ff40e2c00d44e3809c906e05025e6),
    (1, 0x30440220705f93a85aae0cbc62e3705db8e241de4ac0d5f7a449ccbe8c5c26e9a6cf37ff02200cbea88d8ad75805aba0fe84e94957c93706b45b41e33a2acefbdd90815c8d3e)].map
      fun row => ⟨⟨firstOutput.txid, row.1⟩, 71 :: (leBytes 70 row.2).reverse ++ [1], 0xffffffff⟩
  outputs := [⟨7000000000, sampleScript⟩, ⟨3999996700, sampleScript⟩]
  lockTime := 0

theorem changePayment_facts :
    (HdWalletBackend.spendable genesisEntries 101 changeUtxos).map Available.entry =
      changeCoins.map Available.entry ∧
    changePayment.id ≠ firstOutput.txid ∧
    changeUtxos[(⟨zeroHashHex, 0xffffffff⟩ : OutPoint)]?.isNone ∧
    estimatedSignedSize { changePayment with outputs :=
      [⟨7000000000, sampleScript⟩, ⟨0, sampleScript⟩] } = .ok 330 ∧
    (⟨10000⟩ : FeeRate).fee 330 = .ok 3300 := by
  decide +kernel

theorem payFrom_change : HdWalletBackend.payFrom tableSign changeCoins sampleScript sampleScript
    7000000000 ⟨10000⟩ = .ok changePayment := by
  have hsorted : changeCoins.mergeSort (fun left right => ¬ right.before left) = changeCoins := by
    refine List.mergeSort_of_pairwise ?_
    decide
  rw [HdWalletBackend.payFrom, hsorted]
  decide +kernel

/-- The genesis key pays from both, with change to itself. -/
theorem createPayment_sound_change : ∃ utxos',
    (applyTransaction changePayment 101).run changeUtxos = .ok 3300 utxos' := by
  obtain ⟨hspendable, hid, hnull, hsize, hrate⟩ := changePayment_facts
  have hcoins : HdWalletBackend.spendable genesisEntries 101 changeUtxos = changeCoins :=
    List.map_injective_iff.2 available_injective hspendable
  obtain ⟨w₁, hrun⟩ : ∃ w₁, (HdWalletBackend.createPayment tableSign changeUtxos 101
      genesisPublicKey 7000000000 ⟨10000⟩).run genesisWallet = .ok changePayment w₁ := by
    obtain ⟨w₁, hrun⟩ := HdWalletBackend.createPayment_run genesisWallet_ready
      makeP2pkScript_genesis (show ¬ ((7000000000 : ℤ) ≤ 0 ∨ ¬ moneyRange 7000000000) by decide)
    rw [hrun, hcoins, payFrom_change]
    exact ⟨w₁, rfl⟩
  have hfree : ∀ index, (⟨changePayment.id, index⟩ : OutPoint) ∉ changeUtxos := by
    intro index hmem
    rcases ExtTreeMap.mem_insert.1 hmem with heq | hmem
    · exact hid (congrArg OutPoint.txid (LawfulEqOrd.compare_eq_iff_eq.1 heq)).symm
    · exact notMem_insert hid index hmem
  obtain ⟨-, -, destinationScript, changeKey, changeScript, fee, hdestination, hkey, hchange, -, -,
    ⟨size, hestimate, hfee⟩, -, happly⟩ := HdWalletBackend.createPayment_sound tableSign_verify
      (Option.isNone_iff_eq_none.1 hnull) hfree hrun
  obtain rfl := Except.ok.inj (makeP2pkScript_genesis.symm.trans hdestination)
  obtain rfl : genesisKey = changeKey := Except.ok.inj hkey
  obtain rfl := Except.ok.inj (makeP2pkScript_genesis.symm.trans hchange)
  obtain rfl := Except.ok.inj (hsize.symm.trans hestimate)
  obtain rfl := Except.ok.inj (hrate.symm.trans hfee)
  exact happly

/-! ### A coin that is worth less than the fee of spending it -/

/-- A payment from the dust is not made, although the larger coin pays for it. -/
theorem createPayment_complete_dust :
    (HdWalletBackend.Affordable ⟨1000000⟩ 1000 sampleScript sampleScript
        (HdWalletBackend.spendable genesisEntries 10 dustUtxos) → ∃ t w',
      (HdWalletBackend.createPayment everySign dustUtxos 10 genesisPublicKey 1000 ⟨1000000⟩).run
        genesisWallet = .ok t w') ↔
    (HdWalletBackend.Affordable ⟨1000000⟩ 1000 sampleScript sampleScript
        (HdWalletBackend.spendable genesisEntries 10 dustUtxos) → (0 : ℤ) < 1000 ∧
      HdWalletBackend.Payable ⟨1000000⟩ 1000 sampleScript sampleScript
        (HdWalletBackend.spendable genesisEntries 10 dustUtxos)) :=
  HdWalletBackend.createPayment_complete_iff everySign_signs (fun _ => rfl) genesisWallet_ready
    makeP2pkScript_genesis

theorem createPayment_dust :
    HdWalletBackend.Affordable ⟨1000000⟩ 1000 sampleScript sampleScript
      (HdWalletBackend.spendable genesisEntries 10 dustUtxos) ∧
    ¬ ∃ t w', (HdWalletBackend.createPayment everySign dustUtxos 10 genesisPublicKey 1000
      ⟨1000000⟩).run genesisWallet = .ok t w' := by
  constructor
  · refine ⟨[coinOf 1 300000], List.nodup_singleton _, ?_, by decide, by decide, 214000,
      dust_facts.2.1, by decide⟩
    rw [spendable_dust]
    exact List.subset_cons_self _ _
  · intro h
    exact dust_notPayable ((HdWalletBackend.createPayment_iff everySign_signs (fun _ => rfl)
      genesisWallet_ready makeP2pkScript_genesis).1 h).2

end

end BinaryCoin
