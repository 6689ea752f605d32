/-
  BinaryCoin — script.cpp: pay-to-public-key outputs and the signatures that
  spend them.
-/
import BinaryCoin.Transaction

namespace BinaryCoin

variable [Crypto]

def opChecksig : UInt8 := 0xac
def sighashAll : UInt32 := 1

def makeP2pkScript (compressedPublicKey : Bytes) : Except Exn Bytes := do
  throwIf (¬ validCompressedPublicKey compressedPublicKey)
    (invalidArgument "P2PK requires a valid compressed secp256k1 public key")
  return 33 :: compressedPublicKey ++ [opChecksig]

def isP2pkScript (scriptPubkey : Bytes) : Bool :=
  scriptPubkey.length = 35 ∧ scriptPubkey.headD 0 = 33 ∧ scriptPubkey.getD 34 0 = opChecksig ∧
    validCompressedPublicKey ((scriptPubkey.drop 1).take 33)

def extractP2pkPublicKey (scriptPubkey : Bytes) : Except Exn Bytes := do
  throwIf (¬ isP2pkScript scriptPubkey) (invalidArgument "Not a supported P2PK script")
  return (scriptPubkey.drop 1).take 33

/-- The transaction that is hashed for the signature of one input. -/
def Transaction.forSignature (t : Transaction) (inputIndex : ℕ) (previousScriptPubkey : Bytes) :
    Transaction :=
  { t with
    inputs := (t.inputs.map fun input => { input with scriptSig := [] }).modify inputIndex
      fun input => { input with scriptSig := previousScriptPubkey } }

def signatureHashAll (transaction : Transaction) (inputIndex : ℕ) (previousScriptPubkey : Bytes) :
    Except Exn Hash256 := do
  throwIf (inputIndex ≥ transaction.inputs.length) (outOfRange "Input index out of range")
  let bytes ← (transaction.forSignature inputIndex previousScriptPubkey).serialize
  return sha256d (appendU32Le bytes sighashAll)

def verifyP2pkInput (transaction : Transaction) (inputIndex : ℕ) (previousScriptPubkey : Bytes) :
    Except Exn Bool :=
  match transaction.inputs[inputIndex]? with
  | none => .ok false
  | some input =>
    if ¬ isP2pkScript previousScriptPubkey then .ok false
    else match input.scriptSig with
      | size :: pushed =>
        if pushed = [] ∨ size.toNat ≠ pushed.length then .ok false
        else if pushed.getLastD 0 ≠ sighashAll.toUInt8 then .ok false
        else do
          let publicKey ← extractP2pkPublicKey previousScriptPubkey
          let hash ← signatureHashAll transaction inputIndex previousScriptPubkey
          return verifyEcdsaDer hash pushed.dropLast publicKey
      | [] => .ok false

end BinaryCoin
