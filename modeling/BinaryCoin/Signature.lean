/-
  BinaryCoin — script.cpp: what a signature commits to.

  The hash that is signed for an input covers the transaction without its
  scripts, the index of the input and the script of the output it spends.
-/
import BinaryCoin.Reorganization

namespace BinaryCoin

open LittleEndian

/-- key.hpp: the key of a wallet.  Signing may throw, and need not be a function of the hash: a key
    is taken at the moment it signs. -/
structure Secp256k1Key where
  compressedPublicKey : Bytes
  signDer : Hash256 → Except Exn Bytes

/-- A transaction without its scripts. -/
def Transaction.unsigned (t : Transaction) : Transaction :=
  { t with inputs := t.inputs.map fun input => { input with scriptSig := [] } }

def Transaction.setScriptSig (t : Transaction) (inputIndex : ℕ) (scriptSig : Bytes) : Transaction :=
  { t with inputs := t.inputs.modify inputIndex fun input => { input with scriptSig := scriptSig } }

section
variable [Crypto]

def signP2pkInput (transaction : Transaction) (inputIndex : ℕ) (previousScriptPubkey : Bytes)
    (key : Secp256k1Key) : Except Exn Transaction := do
  let expectedPublicKey ← extractP2pkPublicKey previousScriptPubkey
  throwIf (expectedPublicKey ≠ key.compressedPublicKey)
    (invalidArgument "Wallet key does not match spent P2PK output")
  let hash ← signatureHashAll transaction inputIndex previousScriptPubkey
  let signature ← key.signDer hash
  let scriptSig ← pushScriptData (signature ++ [sighashAll.toUInt8])
  return transaction.setScriptSig inputIndex scriptSig

/-- The string that is hashed for a signature. -/
def signedBytes (t : Transaction) (inputIndex : ℕ) (previousScriptPubkey : Bytes) : Bytes :=
  (t.forSignature inputIndex previousScriptPubkey).encode ++ leBytes 4 sighashAll.toNat

variable {t t' : Transaction} {i i' j : ℕ} {s s' : Bytes} {hash hash' : Hash256}

/-! ## The transaction that is signed -/

omit [Crypto] in
/-- The transaction that is signed is the unsigned one with one script. -/
theorem forSignature_eq : t.forSignature i s = t.unsigned.setScriptSig i s := rfl

omit [Crypto] in
theorem unsigned_setScriptSig : (t.setScriptSig i s).unsigned = t.unsigned := by
  simp only [Transaction.unsigned, Transaction.setScriptSig, Transaction.mk.injEq, true_and, and_true]
  apply List.ext_getElem?
  intro k
  simp only [List.getElem?_map, List.getElem?_modify]
  by_cases hk : i = k
  · simp [hk, Function.comp_def]
  · simp [hk]

omit [Crypto] in
theorem unsigned_unsigned : t.unsigned.unsigned = t.unsigned := by
  simp [Transaction.unsigned, Function.comp_def]

omit [Crypto] in
theorem unsigned_forSignature : (t.forSignature i s).unsigned = t.unsigned := by
  rw [forSignature_eq, unsigned_setScriptSig, unsigned_unsigned]

omit [Crypto] in
/-- The inputs of the transaction that is signed. -/
theorem getElem?_forSignature (k : ℕ) : (t.forSignature i s).inputs[k]? =
    t.inputs[k]?.map fun input => { input with scriptSig := if i = k then s else [] } := by
  simp only [Transaction.forSignature, List.getElem?_modify, List.getElem?_map]
  by_cases hk : i = k
  · cases t.inputs[k]? <;> simp [hk]
  · cases t.inputs[k]? <;> simp [hk]

omit [Crypto] in
/-- **The transaction that is signed tells the input, the script and the rest apart.** -/
theorem forSignature_inj (hi : i < t.inputs.length) (hs : s ≠ []) :
    t.forSignature i s = t'.forSignature i' s' ↔ i = i' ∧ s = s' ∧ t.unsigned = t'.unsigned := by
  constructor
  · intro h
    -- the script of input `i` on both sides
    have hscript := congrArg (fun t => t.inputs[i]?.map TxInput.scriptSig) h
    simp only [getElem?_forSignature, List.getElem?_eq_getElem hi, Option.map_some, if_true,
      Option.map_map, Function.comp_def] at hscript
    obtain ⟨_, -, hscript⟩ := Option.map_eq_some_iff.1 hscript.symm
    have hindex : i' = i := by
      by_contra hne
      rw [if_neg hne] at hscript
      exact hs hscript.symm
    rw [if_pos hindex] at hscript
    exact ⟨hindex.symm, hscript.symm, by rw [← unsigned_forSignature, h, unsigned_forSignature]⟩
  · rintro ⟨rfl, rfl, h⟩
    rw [forSignature_eq, forSignature_eq, h]

omit [Crypto] in
theorem Transaction.Canonical.forSignature (h : t.Canonical) : (t.forSignature i s).Canonical := by
  intro input hinput
  obtain ⟨k, hk⟩ := List.getElem?_of_mem hinput
  rw [getElem?_forSignature, Option.map_eq_some_iff] at hk
  obtain ⟨original, horiginal, rfl⟩ := hk
  exact h original (List.mem_of_getElem? horiginal)

/-! ## The hash that is signed -/

/-- **What `signature_hash_all` returns.** -/
theorem signatureHashAll_ok : signatureHashAll t i s = .ok hash ↔
    i < t.inputs.length ∧ (t.forSignature i s).Structure ∧ hash = sha256d (signedBytes t i s) := by
  simp only [signatureHashAll, except_bind_ok, throwIf_ok, Transaction.serialize_ok, except_pure_ok,
    exists_and_left, exists_const, not_le, ge_iff_le]
  constructor
  · rintro ⟨hi, _, ⟨hstructure, rfl⟩, rfl⟩
    exact ⟨hi, hstructure, rfl⟩
  · rintro ⟨hi, hstructure, rfl⟩
    exact ⟨hi, _, ⟨hstructure, rfl⟩, rfl⟩

omit [Crypto] in
theorem signedBytes_inj (hc : t.Canonical) (hc' : t'.Canonical)
    (h : (t.forSignature i s).Structure) (h' : (t'.forSignature i' s').Structure) :
    signedBytes t i s = signedBytes t' i' s' ↔ t.forSignature i s = t'.forSignature i' s' := by
  constructor
  · intro heq
    exact Transaction.encode_inj h hc.forSignature h' hc'.forSignature (List.append_cancel_right heq)
  · intro heq
    rw [signedBytes, signedBytes, heq]

/-- Scripts do not matter for the hash. -/
theorem signatureHashAll_congr (h : t.unsigned = t'.unsigned) :
    signatureHashAll t i s = signatureHashAll t' i s := by
  have hlen : t.inputs.length = t'.inputs.length := by
    simpa [Transaction.unsigned] using congrArg (fun t => t.inputs.length) h
  unfold signatureHashAll
  rw [forSignature_eq, forSignature_eq, h, hlen]

/-- Another input's script does not matter for the check of a signature. -/
theorem verifyP2pkInput_setScriptSig (hij : i ≠ j) :
    verifyP2pkInput (t.setScriptSig j s') i s = verifyP2pkInput t i s := by
  have hinput : (t.setScriptSig j s').inputs[i]? = t.inputs[i]? := by
    simp [Transaction.setScriptSig, hij.symm]
  unfold verifyP2pkInput
  rw [hinput, signatureHashAll_congr (i := i) (s := s) unsigned_setScriptSig]

theorem signP2pkInput_ok {key : Secp256k1Key} (h : signP2pkInput t j s key = .ok t') :
    ∃ scriptSig, t' = t.setScriptSig j scriptSig := by
  simp only [signP2pkInput, except_bind_ok, throwIf_ok, except_pure_ok] at h
  obtain ⟨_, -, -, -, -, -, -, -, scriptSig, -, rfl⟩ := h
  exact ⟨scriptSig, rfl⟩

/-- **A signature commits to the whole transaction and to nothing else**: the hashes of two signed
    strings that do not collide are equal exactly if the input, the script it spends and the
    transaction without its scripts are.  Signing other inputs leaves it valid. -/
theorem signature_commits (hc : t.Canonical) (hc' : t'.Canonical) (hs : s ≠ [])
    (h : signatureHashAll t i s = .ok hash) (h' : signatureHashAll t' i' s' = .ok hash')
    (hinj : Set.InjOn sha256d {signedBytes t i s, signedBytes t' i' s'}) :
    (hash = hash' ↔ i = i' ∧ s = s' ∧ t.unsigned = t'.unsigned) ∧
    (hash = hash' → t.version = t'.version ∧ t.lockTime = t'.lockTime ∧ t.outputs = t'.outputs ∧
      t.inputs.map (fun input => (input.previousOutput, input.sequence)) =
        t'.inputs.map fun input => (input.previousOutput, input.sequence)) ∧
    ∀ j script key t₁, signP2pkInput t j script key = .ok t₁ → signatureHashAll t₁ i s = .ok hash ∧
      (i ≠ j → verifyP2pkInput t₁ i s = verifyP2pkInput t i s) := by
  obtain ⟨hi, hstructure, rfl⟩ := signatureHashAll_ok.1 h
  obtain ⟨-, hstructure', rfl⟩ := signatureHashAll_ok.1 h'
  have hiff : sha256d (signedBytes t i s) = sha256d (signedBytes t' i' s') ↔
      i = i' ∧ s = s' ∧ t.unsigned = t'.unsigned := by
    rw [← forSignature_inj hi hs, ← signedBytes_inj hc hc' hstructure hstructure']
    exact hinj.eq_iff (by simp) (by simp)
  refine ⟨hiff, ?_, ?_⟩
  · intro heq
    obtain ⟨-, -, hunsigned⟩ := hiff.1 heq
    have hinputs := congrArg (fun t => t.inputs.map fun input => (input.previousOutput, input.sequence))
      hunsigned
    simp only [Transaction.unsigned, List.map_map, Function.comp_def] at hinputs
    simp only [Transaction.unsigned, Transaction.mk.injEq] at hunsigned
    exact ⟨hunsigned.1, hunsigned.2.2.2, hunsigned.2.2.1, hinputs⟩
  · intro j script key t₁ hsign
    obtain ⟨scriptSig, rfl⟩ := signP2pkInput_ok hsign
    refine ⟨?_, fun hij => verifyP2pkInput_setScriptSig hij⟩
    rw [signatureHashAll_congr unsigned_setScriptSig, h]

end

attribute [local instance] sampleCrypto

theorem sampleSpend_canonical {h : Hash256} {signature : ℕ} :
    (sampleSpend (hashToDisplayHex h) signature).Canonical := by
  intro input hinput
  obtain rfl := List.mem_singleton.1 hinput
  exact ⟨h, rfl⟩

/-- The digests that are signed in two spends. -/
theorem sampleSpend_hashes :
    signatureHashAll firstSpend 0 sampleScript =
      .ok (digestOf 0xd8017d9be24cc92c132e991e74611a46a5627f095dfcd052739bed12bfbf9aa8) ∧
    signatureHashAll secondSpend 0 sampleScript =
      .ok (digestOf 0x3617b05231dcdc125462d2396b0da048873038d6faa3897d2cd84d10e7ac8bb8) := by
  decide +kernel

/-- Two spends of outputs to one key are signed differently. -/
theorem signature_commits_sample :
    (digestOf 0xd8017d9be24cc92c132e991e74611a46a5627f095dfcd052739bed12bfbf9aa8 =
      digestOf 0x3617b05231dcdc125462d2396b0da048873038d6faa3897d2cd84d10e7ac8bb8 ↔
      0 = 0 ∧ sampleScript = sampleScript ∧ firstSpend.unsigned = secondSpend.unsigned) := by
  obtain ⟨hfirst, hsecond⟩ := sampleSpend_hashes
  have hne : sha256d (signedBytes firstSpend 0 sampleScript) ≠
      sha256d (signedBytes secondSpend 0 sampleScript) := by
    rw [← (signatureHashAll_ok.1 hfirst).2.2, ← (signatureHashAll_ok.1 hsecond).2.2]
    decide
  exact (signature_commits sampleSpend_canonical sampleSpend_canonical (by decide) hfirst hsecond
    (Set.injOn_pair.2 fun h => absurd h hne)).1

end BinaryCoin
