/-
  BinaryCoin — chain.cpp: `TestnetChain::verify_blocks`.

  The function runs over a list of blocks with a set of unspent outputs that
  it throws away.  `Chain blocks utxos` keeps it: the lists that are accepted,
  one block at a time, with the set after the last one (`verifyBlocks_iff`).
  Every property of accepted chains is proved by induction over `Chain`, one
  step being `Connects`: what a block that is connected has been checked for
  and has done to the set.
-/
import BinaryCoin.Utxo

namespace BinaryCoin

open Cursor LittleEndian

variable [Crypto]

/-! ## The checks -/

def verifyGenesis (genesis : StoredBlock) : Except Exn Unit := do
  let mismatch := runtimeError "Testnet genesis constants do not match the locked genesis block"
  throwIf (genesis.height ≠ 0) mismatch
  throwIf ((← genesis.hashHex) ≠ testnetGenesisHash) mismatch
  throwIf (genesis.block.header.merkleRoot ≠ testnetGenesisMerkle) mismatch
  throwIf (genesis.block.header.previousHash ≠ zeroHashHex) mismatch
  throwIf (genesis.block.header.bits ≠ testnetGenesisBits) mismatch
  match genesis.block.transactions with
  | [coinbase] =>
    throwIf ((← coinbase.txid) ≠ testnetGenesisTxid) mismatch
    throwIf (¬ coinbase.isCoinbase) mismatch
    throwIf ((← sumOutputs coinbase) ≠ initialSubsidy) mismatch
  | _ => throw mismatch

def verifyHeight (index : ℕ) (stored : StoredBlock) : Except Exn Unit :=
  throwIf (stored.height.toNat ≠ index) (runtimeError "Non-contiguous block height")

/-- An error text that ends with the height of the block. -/
def atHeight (what : String) (stored : StoredBlock) : Exn :=
  runtimeError (what ++ " at height " ++ toString stored.height.toNat)

def verifyProofOfWork (stored : StoredBlock) : Except Exn Unit := do
  let valid ← checkProofOfWork (← stored.block.header.rawHash) stored.block.header.bits
  throwIf (¬ valid) (atHeight "Invalid proof of work" stored)

def verifyHeader (previous stored : StoredBlock) : Except Exn Unit := do
  throwIf (stored.block.header.bits ≠ testnetBits)
    (atHeight "Unexpected testnet difficulty bits" stored)
  throwIf (stored.block.header.previousHash ≠ (← previous.hashHex))
    (atHeight "Broken previous-hash link" stored)
  throwIf (stored.block.header.time ≤ previous.block.header.time)
    (atHeight "Block timestamp did not increase" stored)

/-- The loop that applies the regular transactions of a block and adds up their fees; `overflow`
    is thrown when these leave the money range. -/
def applyTransactions (overflow : String) (height : UInt64) :
    ℤ → List Transaction → EStateM Exn UtxoSet ℤ
  | fees, [] => pure fees
  | fees, transaction :: rest => do
    let fee ← applyTransaction transaction height
    throwIf (fees > maxMoney - fee) (runtimeError overflow)
    applyTransactions overflow height (fees + fee) rest

/-- The shape and the Merkle root of a block: its coinbase and its other transactions. -/
def verifyTransactions (stored : StoredBlock) : Except Exn (Transaction × List Transaction) := do
  match stored.block.transactions with
  | [] => throw (runtimeError "Block must begin with exactly one coinbase transaction")
  | coinbase :: regular =>
    throwIf (¬ coinbase.isCoinbase)
      (runtimeError "Block must begin with exactly one coinbase transaction")
    throwIf (regular.any Transaction.isCoinbase)
      (runtimeError "Block contains more than one coinbase transaction")
    throwIf ((← merkleRootHex (coinbase :: regular)) ≠ stored.block.header.merkleRoot)
      (atHeight "Transaction Merkle root mismatch" stored)
    return (coinbase, regular)

/-- The check of the coinbase against the fees of the block. -/
def verifyCoinbase (stored : StoredBlock) (coinbase : Transaction) (fees : ℤ) : Except Exn Unit := do
  let coinbaseTotal ← sumOutputs coinbase
  let subsidy := blockSubsidy stored.height
  throwIf (subsidy > maxMoney - fees ∨ coinbaseTotal ≠ subsidy + fees)
    (atHeight "Incorrect coinbase subsidy or fee claim" stored)

/-- The body of the loop for a block above the genesis block. -/
def verifyBlock (previous : StoredBlock) (index : ℕ) (stored : StoredBlock) :
    EStateM Exn UtxoSet Unit := do
  verifyHeight index stored
  verifyProofOfWork stored
  verifyHeader previous stored
  let (coinbase, regular) ← verifyTransactions stored
  let fees ← applyTransactions "Block fee overflow" stored.height 0 regular
  verifyCoinbase stored coinbase fees
  addCoinbaseOutputs coinbase stored.height

/-- The loop from `index` on. -/
def verifyFrom : StoredBlock → ℕ → List StoredBlock → EStateM Exn UtxoSet Unit
  | _, _, [] => pure ()
  | previous, index, stored :: rest => do
    verifyBlock previous index stored
    verifyFrom stored (index + 1) rest

/-- `verify_blocks`, with the set of unspent outputs that its loop leaves. -/
def verifyUtxos (blocks : List StoredBlock) : EStateM Exn UtxoSet Unit := do
  match blocks with
  | [] => throw (runtimeError "Testnet chain has no genesis block")
  | genesis :: rest =>
    verifyGenesis genesis
    verifyHeight 0 genesis
    verifyProofOfWork genesis
    verifyFrom genesis 1 rest

def verifyBlocks (blocks : List StoredBlock) : Except Exn Unit :=
  match (verifyUtxos blocks).run ∅ with
  | .ok _ _ => .ok ()
  | .error e _ => .error e

/-! ## Accepted chains -/

/-- The accepted genesis block. -/
structure GenesisOk (genesis : StoredBlock) : Prop where
  constants : verifyGenesis genesis = .ok ()
  height : verifyHeight 0 genesis = .ok ()
  proofOfWork : verifyProofOfWork genesis = .ok ()

/-- `Chain blocks utxos`: `blocks` is accepted, and `utxos` is the set after its last block. -/
inductive Chain : List StoredBlock → UtxoSet → Prop
  | genesis {genesis : StoredBlock} (ok : GenesisOk genesis) : Chain [genesis] ∅
  | block {blocks : List StoredBlock} {previous stored : StoredBlock} {u u' : UtxoSet}
      (chain : Chain (blocks ++ [previous]) u)
      (ok : (verifyBlock previous (blocks.length + 1) stored).run u = .ok () u') :
      Chain (blocks ++ [previous, stored]) u'

theorem Chain.ne_nil {blocks : List StoredBlock} {u : UtxoSet} (h : Chain blocks u) :
    blocks ≠ [] := by
  cases h <;> simp

/-- The loop extends an accepted chain block by block. -/
theorem chain_verifyFrom {rest blocks : List StoredBlock} {previous : StoredBlock} {u u' : UtxoSet}
    {x : Unit} (hc : Chain (blocks ++ [previous]) u)
    (h : (verifyFrom previous (blocks.length + 1) rest).run u = .ok x u') :
    Chain (blocks ++ previous :: rest) u' := by
  induction rest generalizing blocks previous u with
  | nil => obtain ⟨-, rfl⟩ := run_pure_ok.1 h; exact hc
  | cons stored rest ih =>
    rw [verifyFrom, run_bind_ok] at h
    obtain ⟨_, u₁, hb, h⟩ := h
    have hc' : Chain ((blocks ++ [previous]) ++ [stored]) u₁ := by
      simpa using Chain.block hc hb
    have := ih hc' (by simpa using h)
    simpa using this

theorem verifyFrom_snoc {rest : List StoredBlock} {previous last stored : StoredBlock} {index : ℕ}
    {u u₁ u' : UtxoSet} (hl : last = (previous :: rest).getLast (by simp))
    (h : (verifyFrom previous index rest).run u = .ok () u₁)
    (hb : (verifyBlock last (index + rest.length) stored).run u₁ = .ok () u') :
    (verifyFrom previous index (rest ++ [stored])).run u = .ok () u' := by
  induction rest generalizing previous index u with
  | nil =>
    obtain ⟨-, rfl⟩ := run_pure_ok.1 h
    cases hl
    exact run_bind_ok.2 ⟨(), u', by simpa using hb, rfl⟩
  | cons b rest ih =>
    rw [verifyFrom, run_bind_ok] at h
    obtain ⟨_, u₂, hb', h⟩ := h
    refine run_bind_ok.2 ⟨(), u₂, hb', ih ?_ h ?_⟩
    · simpa using hl
    · rwa [List.length_cons, show index + (rest.length + 1) = index + 1 + rest.length by omega] at hb

theorem Chain.run {blocks : List StoredBlock} {u : UtxoSet} (h : Chain blocks u) :
    ∃ genesis rest, blocks = genesis :: rest ∧ GenesisOk genesis ∧
      (verifyFrom genesis 1 rest).run ∅ = .ok () u := by
  induction h with
  | @genesis g ok => exact ⟨g, [], rfl, ok, rfl⟩
  | @block blocks previous stored u u' _ hb ih =>
    obtain ⟨g, rest, hcons, hg, hrun⟩ := ih
    have hlast : previous = (g :: rest).getLast (by simp) := by simp [← hcons]
    refine ⟨g, rest ++ [stored], ?_, hg, verifyFrom_snoc hlast hrun ?_⟩
    · rw [← List.cons_append, ← hcons]; simp
    · have hl : rest.length = blocks.length := by
        have := congrArg List.length hcons
        simp only [List.length_append, List.length_cons, List.length_nil] at this
        omega
      rwa [hl, Nat.add_comm]

theorem verifyUtxos_ok {blocks : List StoredBlock} {u : UtxoSet} {x : Unit} :
    (verifyUtxos blocks).run ∅ = .ok x u ↔ Chain blocks u := by
  constructor
  · intro h
    cases blocks with
    | nil => simp [verifyUtxos, run_throw] at h
    | cons genesis rest =>
      simp only [verifyUtxos, run_bind_ok, lift_run_ok] at h
      obtain ⟨_, _, ⟨h₁, rfl⟩, _, _, ⟨h₂, rfl⟩, _, _, ⟨h₃, rfl⟩, h⟩ := h
      have hc : Chain ([] ++ [genesis]) ∅ := .genesis ⟨h₁, h₂, h₃⟩
      exact chain_verifyFrom hc h
  · intro h
    obtain ⟨genesis, rest, rfl, hg, hrun⟩ := h.run
    simp only [verifyUtxos, run_bind_ok, lift_run_ok]
    exact ⟨(), ∅, ⟨hg.constants, rfl⟩, (), ∅, ⟨hg.height, rfl⟩, (), ∅, ⟨hg.proofOfWork, rfl⟩, hrun⟩

/-- **What is accepted**: the lists of blocks of a `Chain`. -/
theorem verifyBlocks_iff {blocks : List StoredBlock} :
    verifyBlocks blocks = .ok () ↔ ∃ u, Chain blocks u := by
  simp only [← verifyUtxos_ok (x := ()), verifyBlocks]
  cases (verifyUtxos blocks).run ∅ <;> simp

theorem Chain.unique {blocks : List StoredBlock} {u u' : UtxoSet} (h : Chain blocks u)
    (h' : Chain blocks u') : u = u' := by
  have h₁ := (verifyUtxos_ok (x := ())).2 h
  rw [(verifyUtxos_ok (x := ())).2 h'] at h₁
  cases h₁; rfl

/-! ## What an accepted block has been checked for -/

/-- Regular transactions applied one after the other, and the sum of their fees. -/
inductive AppliedAll (height : UInt64) : UtxoSet → List Transaction → ℤ → UtxoSet → Prop
  | nil {u : UtxoSet} : AppliedAll height u [] 0 u
  | cons {t : Transaction} {ts : List Transaction} {u u₁ u' : UtxoSet} {fee fees : ℤ}
      (head : Applied t height u fee u₁) (tail : AppliedAll height u₁ ts fees u') :
      AppliedAll height u (t :: ts) (fee + fees) u'

/-- The regular part of `buildBlock`. -/
def applyEach (height : UInt64) (transactions : List Transaction) : EStateM Exn UtxoSet Unit :=
  forM transactions fun transaction => do
    let _ ← applyTransaction transaction height

theorem applyTransactions_ok {overflow : String} {height : UInt64} {ts : List Transaction}
    {start r : ℤ} {u u' : UtxoSet}
    (h : (applyTransactions overflow height start ts).run u = .ok r u') :
    AppliedAll height u ts (r - start) u' ∧ (applyEach height ts).run u = .ok () u' := by
  induction ts generalizing start u with
  | nil =>
    obtain ⟨rfl, rfl⟩ := run_pure_ok.1 h
    rw [sub_self]; exact ⟨.nil, rfl⟩
  | cons t ts ih =>
    simp only [applyTransactions, run_bind_ok, throwIf_run_ok] at h
    obtain ⟨fee, u₁, ht, _, _, ⟨-, rfl⟩, hts⟩ := h
    obtain ⟨hall, heach⟩ := ih hts
    constructor
    · have := AppliedAll.cons (applyTransaction_ok ht) hall
      rwa [show fee + (r - (start + fee)) = r - start by omega] at this
    · rw [applyEach, List.forM_cons, run_bind_ok]
      exact ⟨(), u₁, run_bind_ok.2 ⟨fee, u₁, ht, rfl⟩, heach⟩

/-- A block was connected above `previous`. -/
structure Connects (previous : StoredBlock) (index : ℕ) (stored : StoredBlock) (u u' : UtxoSet) :
    Prop where
  height : stored.height.toNat = index
  bits : stored.block.header.bits = testnetBits
  proofOfWork : ∃ h, stored.block.header.rawHash = .ok h ∧ checkProofOfWork h testnetBits = .ok true
  link : previous.hashHex = .ok stored.block.header.previousHash
  time : previous.block.header.time < stored.block.header.time
  merkle : merkleRootHex stored.block.transactions = .ok stored.block.header.merkleRoot
  body : ∃ coinbase regular fees u₁, stored.block.transactions = coinbase :: regular ∧
    coinbase.isCoinbase ∧ AppliedAll stored.height u regular fees u₁ ∧
    coinbase.outputValue = blockSubsidy stored.height + fees ∧
    CoinbaseAdded coinbase stored.height u₁ u'

theorem verifyProofOfWork_ok {stored : StoredBlock} {x : Unit} :
    verifyProofOfWork stored = .ok x ↔ ∃ h, stored.block.header.rawHash = .ok h ∧
      checkProofOfWork h stored.block.header.bits = .ok true := by
  simp [verifyProofOfWork, except_bind_ok]

theorem verifyHeader_ok {previous stored : StoredBlock} {x : Unit} :
    verifyHeader previous stored = .ok x ↔ stored.block.header.bits = testnetBits ∧
      previous.hashHex = .ok stored.block.header.previousHash ∧
      previous.block.header.time < stored.block.header.time := by
  simp only [verifyHeader, except_bind_ok, throwIf_ok, exists_and_left, exists_const, not_not,
    UInt32.not_le]
  constructor
  · rintro ⟨hb, _, hp, rfl, ht⟩; exact ⟨hb, hp, ht⟩
  · rintro ⟨hb, hp, ht⟩; exact ⟨hb, _, hp, rfl, ht⟩

theorem verifyTransactions_ok {stored : StoredBlock} {coinbase : Transaction}
    {regular : List Transaction} :
    verifyTransactions stored = .ok (coinbase, regular) ↔
      stored.block.transactions = coinbase :: regular ∧ coinbase.isCoinbase ∧
      (∀ t ∈ regular, t.isCoinbase = false) ∧
      merkleRootHex stored.block.transactions = .ok stored.block.header.merkleRoot := by
  unfold verifyTransactions
  cases htxs : stored.block.transactions with
  | nil => simp
  | cons c r =>
    simp only [except_bind_ok, throwIf_ok, except_pure_ok, exists_and_left, exists_const, not_not,
      Prod.mk.injEq, List.cons.injEq, List.any_eq_true, not_exists, not_and, Bool.not_eq_true]
    constructor
    · rintro ⟨hc, hr, _, hm, rfl, rfl, rfl⟩; exact ⟨⟨rfl, rfl⟩, by simpa using hc, hr, hm⟩
    · rintro ⟨⟨rfl, rfl⟩, hc, hr, hm⟩; exact ⟨by simpa using hc, hr, _, hm, rfl, rfl, rfl⟩

omit [Crypto] in
theorem verifyCoinbase_ok {stored : StoredBlock} {coinbase : Transaction} {fees : ℤ} {x : Unit}
    (h : verifyCoinbase stored coinbase fees = .ok x) :
    coinbase.outputValue = blockSubsidy stored.height + fees := by
  simp only [verifyCoinbase, except_bind_ok, throwIf_ok, not_or, not_not] at h
  obtain ⟨_, hs, -, h⟩ := h
  rw [← (sumOutputs_ok hs).1]; exact h

/-- **The step**: what `verify_blocks` has checked of a block that it gets past, and that
    `build_utxo_set` does the same to the set. -/
theorem verifyBlock_ok {previous stored : StoredBlock} {index : ℕ} {u u' : UtxoSet} {x : Unit}
    (h : (verifyBlock previous index stored).run u = .ok x u') :
    Connects previous index stored u u' ∧ (buildBlock stored).run u = .ok () u' := by
  simp only [verifyBlock, run_bind_ok, lift_run_ok] at h
  obtain ⟨_, _, ⟨hheight, rfl⟩, _, _, ⟨hpow, rfl⟩, _, _, ⟨hheader, rfl⟩, ⟨coinbase, regular⟩, _,
    ⟨htxs, rfl⟩, fees, u₁, happly, _, _, ⟨hcoinbase, rfl⟩, hadd⟩ := h
  obtain ⟨hbits, hlink, htime⟩ := verifyHeader_ok.1 hheader
  obtain ⟨hcons, hcb, -, hmerkle⟩ := verifyTransactions_ok.1 htxs
  obtain ⟨hall, heach⟩ := applyTransactions_ok happly
  rw [sub_zero] at hall
  constructor
  · exact {
      height := by simpa [verifyHeight] using hheight
      bits := hbits
      proofOfWork := hbits ▸ verifyProofOfWork_ok.1 hpow
      link := hlink
      time := htime
      merkle := hmerkle
      body := ⟨coinbase, regular, fees, u₁, hcons, hcb, hall, verifyCoinbase_ok hcoinbase,
        addCoinbaseOutputs_ok hadd⟩ }
  · simp only [buildBlock, hcons, run_bind_ok, throwIf_run_ok]
    exact ⟨(), u, ⟨by simp [hcb], rfl⟩, (), u₁, heach, hadd⟩

theorem buildUtxoSet_ok {blocks : List StoredBlock} {u : UtxoSet} :
    buildUtxoSet blocks = .ok u ↔
      (forM blocks.tail buildBlock : EStateM Exn UtxoSet Unit).run ∅ = .ok () u := by
  unfold buildUtxoSet
  cases (forM blocks.tail buildBlock : EStateM Exn UtxoSet Unit).run ∅ <;> simp

/-- One more block, for `build_utxo_set`. -/
theorem buildUtxoSet_snoc {blocks : List StoredBlock} {stored : StoredBlock} {u u' : UtxoSet}
    (hne : blocks ≠ []) (h : buildUtxoSet blocks = .ok u)
    (hb : (buildBlock stored).run u = .ok () u') : buildUtxoSet (blocks ++ [stored]) = .ok u' := by
  rw [buildUtxoSet_ok] at h ⊢
  rw [List.tail_append_of_ne_nil hne, List.forM_append, run_bind_ok]
  exact ⟨(), u, h, by simpa using hb⟩

/-- **`build_utxo_set` recomputes the set of `verify_blocks`.** -/
theorem Chain.build {blocks : List StoredBlock} {u : UtxoSet} (h : Chain blocks u) :
    buildUtxoSet blocks = .ok u := by
  induction h with
  | genesis _ => rfl
  | @block blocks previous stored u u' _ hb ih =>
    have := buildUtxoSet_snoc (by simp) ih (verifyBlock_ok hb).2
    simpa using this

/-! ## Induction over accepted chains -/

/-- The locked constants of the genesis block. -/
structure IsGenesis (genesis : StoredBlock) : Prop where
  height : genesis.height = 0
  hash : genesis.hashHex = .ok testnetGenesisHash
  merkleRoot : genesis.block.header.merkleRoot = testnetGenesisMerkle
  previousHash : genesis.block.header.previousHash = zeroHashHex
  bits : genesis.block.header.bits = testnetGenesisBits
  coinbase : ∃ coinbase, genesis.block.transactions = [coinbase] ∧
    coinbase.txid = .ok testnetGenesisTxid ∧ coinbase.isCoinbase ∧
    coinbase.outputValue = initialSubsidy

theorem verifyGenesis_ok {genesis : StoredBlock} {x : Unit} (h : verifyGenesis genesis = .ok x) :
    IsGenesis genesis := by
  simp only [verifyGenesis, except_bind_ok, throwIf_ok, exists_and_left, exists_const,
    not_not] at h
  obtain ⟨hheight, _, hhash, rfl, hmerkle, hprev, hbits, h⟩ := h
  refine ⟨hheight, hhash, hmerkle, hprev, hbits, ?_⟩
  split at h
  · rename_i coinbase htxs
    simp only [except_bind_ok, throwIf_ok, exists_and_left, exists_const, not_not] at h
    obtain ⟨_, htxid, rfl, hcb, _, hsum, rfl⟩ := h
    exact ⟨coinbase, htxs, htxid, hcb, (sumOutputs_ok hsum).1.symm⟩
  · cases h

theorem GenesisOk.isGenesis {genesis : StoredBlock} (h : GenesisOk genesis) : IsGenesis genesis :=
  verifyGenesis_ok h.constants

/-- To prove a property of every accepted chain: it holds of the genesis block, and connecting a
    block preserves it. -/
@[elab_as_elim]
theorem Chain.rec_connects {P : (blocks : List StoredBlock) → (u : UtxoSet) → Chain blocks u → Prop}
    (genesis : ∀ g (hg : GenesisOk g), P [g] ∅ (.genesis hg))
    (block : ∀ (blocks : List StoredBlock) (previous stored : StoredBlock) (u u' : UtxoSet)
      (hc : Chain (blocks ++ [previous]) u) (hc' : Chain (blocks ++ [previous] ++ [stored]) u'),
      Connects previous (blocks ++ [previous]).length stored u u' →
      P (blocks ++ [previous]) u hc → P (blocks ++ [previous] ++ [stored]) u' hc')
    {blocks : List StoredBlock} {u : UtxoSet} (h : Chain blocks u) : P blocks u h := by
  induction h with
  | genesis ok => exact genesis _ ok
  | @block blocks previous stored u u' hc hb ih =>
    have happ : blocks ++ [previous, stored] = blocks ++ [previous] ++ [stored] := by simp
    have hc' : Chain (blocks ++ [previous] ++ [stored]) u' := happ ▸ .block hc hb
    have := block blocks previous stored u u' hc hc' (by simpa using (verifyBlock_ok hb).1) ih
    simp only [happ]
    exact this

theorem Chain.genesis_head {blocks : List StoredBlock} {u : UtxoSet} (h : Chain blocks u) :
    ∃ genesis rest, blocks = genesis :: rest ∧ GenesisOk genesis := by
  obtain ⟨g, rest, hcons, hg, -⟩ := h.run
  exact ⟨g, rest, hcons, hg⟩

/-- A block is at the height of its position. -/
theorem Chain.height {blocks : List StoredBlock} {u : UtxoSet} (h : Chain blocks u) :
    ∀ (i : ℕ) (b : StoredBlock), blocks[i]? = some b → b.height.toNat = i := by
  induction h using Chain.rec_connects with
  | genesis g hg =>
    intro i b hb
    obtain ⟨rfl, rfl⟩ : i = 0 ∧ g = b := by
      cases i with
      | zero => exact ⟨rfl, by simpa using hb⟩
      | succ i => simp at hb
    simp [hg.isGenesis.height]
  | block bs previous stored u u' _ _ hconn ih =>
    intro i b hb
    rw [List.getElem?_append] at hb
    split_ifs at hb with hlt
    · exact ih i b hb
    · have hi : i = (bs ++ [previous]).length := by
        have := (List.getElem?_eq_some_iff.1 hb).1
        simp only [List.length_singleton] at this
        omega
      subst hi
      simp only [Nat.sub_self, List.getElem?_cons_zero, Option.some.injEq] at hb
      exact hb ▸ hconn.height

/-- Block times increase strictly. -/
theorem Chain.times {blocks : List StoredBlock} {u : UtxoSet} (h : Chain blocks u) :
    (blocks.map fun b => b.block.header.time).Pairwise (· < ·) := by
  induction h using Chain.rec_connects with
  | genesis g _ => simp
  | block bs previous stored u u' _ _ hconn ih =>
    rw [List.map_append, List.pairwise_append]
    refine ⟨ih, by simp, fun a ha b hb => ?_⟩
    obtain rfl : b = stored.block.header.time := by simpa using hb
    rw [List.map_append, List.pairwise_append] at ih
    rw [List.map_append, List.mem_append] at ha
    rcases ha with ha | ha
    · exact UInt32.lt_trans (ih.2.2 a ha _ (by simp)) hconn.time
    · obtain rfl : a = previous.block.header.time := by simpa using ha
      exact hconn.time

/-- A chain is shorter than the range of a 32-bit time. -/
theorem Chain.length_le {blocks : List StoredBlock} {u : UtxoSet} (h : Chain blocks u) :
    blocks.length ≤ 2 ^ 32 := by
  have hnodup : (blocks.map fun b => b.block.header.time.toNat).Nodup := by
    refine (List.pairwise_map.2 ((List.pairwise_map.1 h.times).imp ?_))
    intro a b hab he
    have := UInt32.lt_iff_toNat_lt.1 hab
    omega
  have hsub : (blocks.map fun b => b.block.header.time.toNat) ⊆ List.range (2 ^ 32) := by
    intro n hn
    obtain ⟨b, -, rfl⟩ := List.mem_map.1 hn
    exact List.mem_range.2 b.block.header.time.toNat_lt
  simpa only [List.length_map, List.length_range] using (hnodup.subperm hsub).length_le

/-! ## The locked genesis block -/

/-- SHA-256 as a table of digests (zeros elsewhere), input and digest read as little-endian
    numbers, with the generator of secp256k1 as the one valid public key. -/
@[reducible] def Crypto.ofTable (table : List (ℕ × ℕ)) : Crypto where
  sha256 data := Hash256.ofBytes (leBytes 32 ((table.lookup (ofLe data)).getD 0))
  verifyEcdsaDer _ _ _ := false
  validCompressedPublicKey key := key = genesisPublicKey

/-- The coinbase that `testnet_genesis_block` makes. -/
def genesisCoinbase : Transaction where
  version := 1
  inputs := [⟨⟨zeroHashHex, 0xffffffff⟩,
    0 :: UInt8.ofNat coinbaseMarker.length :: coinbaseMarker, 0xffffffff⟩]
  outputs := [⟨initialSubsidy, 33 :: genesisPublicKey ++ [opChecksig]⟩]
  lockTime := 0

def genesisStored : StoredBlock where
  height := 0
  block := ⟨⟨1, zeroHashHex, testnetGenesisMerkle, 1784699218, testnetGenesisBits, 180004⟩,
    [genesisCoinbase]⟩

/-- The SHA-256 digests behind the txid and the hash of the genesis block. -/
def genesisDigests : List (ℕ × ℕ) :=
  [(ofLe genesisCoinbase.encode,
      0xa5c3f9d70bf48f0d2611796acd1a1cef69b6b97657367657e1edc13c8b264649),
    (0xa5c3f9d70bf48f0d2611796acd1a1cef69b6b97657367657e1edc13c8b264649,
      0x2cf10845810fce4b828950111a45d66e33d8649db1265f088cf4607789ae1442),
    (ofLe genesisStored.block.header.encode,
      0x43adf7d63b8e1b8a9a5fcd6f1ee8a193f5bad1605df54b30633eb062352fa2c1),
    (0x43adf7d63b8e1b8a9a5fcd6f1ee8a193f5bad1605df54b30633eb062352fa2c1,
      0x00007e7bc2b6d593d9bacb54cd32bacaf9a99ff86adc9ac6fbe36134fff1c372)]

omit [Crypto] in
/-- The locked constants agree with each other, and the genesis block is a chain. -/
theorem genesis_accepted :
    @testnetGenesisBlock (.ofTable genesisDigests) = .ok genesisStored.block ∧
    @verifyBlocks (.ofTable genesisDigests) [genesisStored] = .ok () := by
  decide +kernel

/-- A block above the genesis block whose coinbase is the genesis coinbase again. -/
def repeatedCoinbase : StoredBlock where
  height := 1
  block := ⟨⟨1, testnetGenesisHash, testnetGenesisMerkle, 1784699219, testnetBits, 1873⟩,
    [genesisCoinbase]⟩

/-- The digests of the two blocks. -/
def repeatedDigests : List (ℕ × ℕ) :=
  (ofLe repeatedCoinbase.block.header.encode,
    0xbd10a00648c002f4912c8688f665e59b16a8bd6e0e83524c35541c62c63b3b5a) ::
  (0xbd10a00648c002f4912c8688f665e59b16a8bd6e0e83524c35541c62c63b3b5a,
    0x0000dc04bc6d1e640b38066135d0f722c8dc198ee06d36b6f93b80bc6630aa74) ::
  genesisDigests

/-- The primitives on the genesis block and the block that repeats its coinbase. -/
abbrev repeatedCrypto : Crypto := .ofTable repeatedDigests

omit [Crypto] in
theorem repeated_accepted :
    @verifyBlocks (.ofTable repeatedDigests) [genesisStored, repeatedCoinbase] = .ok () := by
  decide +kernel

end BinaryCoin
