/-
  BinaryCoin — one more block.

  `verify_blocks` runs over the whole chain each time, and what it does to the
  last block depends only on the block before and on the unspent outputs
  (`verifyBlocks_incremental`).  The miner is separate code: its blocks are
  accepted (`mined_accepted_iff`) where the tip's time leaves room for another
  second and the new coinbase is not that of an earlier block.
-/
import BinaryCoin.Mined

namespace BinaryCoin

open Cursor LittleEndian Std

section
variable [Crypto] {blocks : List StoredBlock} {stored : StoredBlock} {u u' : UtxoSet}

/-! ## The last block -/

theorem chain_snoc_iff (hne : blocks ≠ []) : Chain (blocks ++ [stored]) u' ↔
    ∃ last u, blocks.getLast? = some last ∧ Chain blocks u ∧
      (verifyBlock last blocks.length stored).run u = .ok () u' := by
  constructor
  · intro h
    generalize hall : blocks ++ [stored] = all at h
    cases h with
    | genesis =>
      have hlen := congrArg List.length hall
      have hpos := List.length_pos_of_ne_nil hne
      simp only [List.length_append, List.length_singleton] at hlen
      omega
    | @block below previous last u _ hc hrun =>
      have hsplit : blocks ++ [stored] = below ++ [previous] ++ [last] := by simpa using hall
      obtain ⟨rfl, hlast⟩ := List.append_inj' hsplit rfl
      cases hlast
      refine ⟨previous, u, by simp, hc, ?_⟩
      rw [List.length_append, List.length_singleton]
      exact hrun
  · rintro ⟨last, u, hlast, hc, hrun⟩
    obtain ⟨below, rfl⟩ := List.getLast?_eq_some_iff.1 hlast
    rw [List.length_append, List.length_singleton] at hrun
    rw [List.append_assoc, List.singleton_append]
    exact .block hc hrun

/-- **`verify_blocks` is incremental.** -/
theorem verifyBlocks_incremental :
    (∀ (blocks : List StoredBlock) (stored : StoredBlock), blocks ≠ [] →
      (verifyBlocks (blocks ++ [stored]) = .ok () ↔ verifyBlocks blocks = .ok () ∧
        ∃ last u u', blocks.getLast? = some last ∧ buildUtxoSet blocks = .ok u ∧
          (verifyBlock last blocks.length stored).run u = .ok () u')) ∧
    (∀ blocks rest : List StoredBlock, blocks ≠ [] → verifyBlocks (blocks ++ rest) = .ok () →
      verifyBlocks blocks = .ok ()) ∧
    ∀ blocks rest : List StoredBlock, rest ≠ [] → verifyBlocks (blocks ++ rest) = .ok () →
      ∃ work work', calculateChainwork blocks = .ok work ∧
        calculateChainwork (blocks ++ rest) = .ok work' ∧ work < work' := by
  refine ⟨fun blocks stored hne => ?_, fun blocks rest hne h => ?_, fun blocks rest hrest h => ?_⟩
  · rw [verifyBlocks_iff, verifyBlocks_iff]
    constructor
    · rintro ⟨u', h⟩
      obtain ⟨last, u, hlast, hc, hrun⟩ := (chain_snoc_iff hne).1 h
      exact ⟨⟨u, hc⟩, last, u, u', hlast, hc.build, hrun⟩
    · rintro ⟨⟨u, hc⟩, last, u₁, u', hlast, hbuild, hrun⟩
      cases hc.build.symm.trans hbuild
      exact ⟨u', (chain_snoc_iff hne).2 ⟨last, u, hlast, hc, hrun⟩⟩
  · obtain ⟨u, hc⟩ := verifyBlocks_iff.1 h
    exact verifyBlocks_iff.2 (hc.of_append hne)
  · obtain ⟨u, hc⟩ := verifyBlocks_iff.1 h
    have hpos := List.length_pos_of_ne_nil hrest
    have hlen : blocks.length < (blocks ++ rest).length := by
      rw [List.length_append]
      omega
    have hlt : blocks.length * testnetBlockWork < (blocks ++ rest).length * testnetBlockWork :=
      Nat.mul_lt_mul_of_pos_right hlen (by decide)
    refine ⟨blocks.length * testnetBlockWork, _, ?_, hc.work, hlt⟩
    by_cases hne : blocks = []
    · subst hne
      rw [List.length_nil, Nat.zero_mul]
      rfl
    · obtain ⟨u', hc'⟩ := hc.of_append hne
      exact hc'.work

/-! ## The miner -/

theorem mineHeader_ok {fuel : ℕ} {header mined : BlockHeader} (h : mineHeader fuel header = .ok mined) :
    mined.previousHash = header.previousHash ∧ mined.merkleRoot = header.merkleRoot ∧
    mined.bits = header.bits ∧ header.time ≤ mined.time ∧
    ∃ hash, mined.rawHash = .ok hash ∧ checkProofOfWork hash mined.bits = .ok true := by
  induction fuel generalizing header with
  | zero => cases h
  | succ fuel ih =>
    simp only [mineHeader, except_bind_ok] at h
    obtain ⟨hash, hhash, valid, hvalid, h⟩ := h
    cases valid with
    | true =>
      cases except_pure_ok.1 h
      exact ⟨rfl, rfl, rfl, UInt32.le_refl _, hash, hhash, hvalid⟩
    | false =>
      simp only [Bool.false_eq_true, if_false, except_bind_ok] at h
      obtain ⟨next, hnext, h⟩ := h
      obtain ⟨hprevious, hmerkle, hbits, htime, hpow⟩ := ih h
      unfold BlockHeader.nextCandidate at hnext
      split_ifs at hnext with hnonce hlast
      · cases hnext
        refine ⟨hprevious, hmerkle, hbits, UInt32.le_trans ?_ htime, hpow⟩
        rw [UInt32.le_iff_toNat_le, UInt32.toNat_add]
        have hlt := header.time.toNat_lt
        have hne : header.time.toNat ≠ 0xffffffff := fun heq => hlast (UInt32.toNat_inj.1 heq)
        simp only [UInt32.reduceToNat]
        omega
      · cases hnext
        exact ⟨hprevious, hmerkle, hbits, htime, hpow⟩

/-- What `mine_testnet_block` returns. -/
structure MinedBlock (height : UInt64) (previousHash : Str) (previousTime : UInt32) (script : Bytes)
    (transactions : List Transaction) (fees : ℤ) (block : Block) : Prop where
  transactions : ∃ coinbase, block.transactions = coinbase :: transactions ∧
    makeTestnetCoinbase height (blockSubsidy height + fees) script = .ok coinbase
  merkle : merkleRootHex block.transactions = .ok block.header.merkleRoot
  previousHash : block.header.previousHash = previousHash
  bits : block.header.bits = testnetBits
  proofOfWork : ∃ hash, block.header.rawHash = .ok hash ∧
    checkProofOfWork hash testnetBits = .ok true
  time : previousTime + 1 ≤ block.header.time

omit [Crypto] in
theorem le_max_u32 (a b : UInt32) : a ≤ max a b := by
  change a ≤ if a ≤ b then b else a
  split_ifs with h
  · exact h
  · exact UInt32.le_refl a

theorem mineTestnetBlock_spec {now : Int64} {height : UInt64} {previousHash : Str}
    {previousTime : UInt32} {script : Bytes} {transactions : List Transaction} {fees : ℤ} {block : Block}
    (h : mineTestnetBlock now height previousHash previousTime testnetBits script transactions fees =
      .ok block) : MinedBlock height previousHash previousTime script transactions fees block := by
  simp only [mineTestnetBlock, except_bind_ok, throwIf_ok, except_pure_ok] at h
  obtain ⟨_, -, _, -, coinbase, hc, merkle, hmerkle, header, hmine, rfl⟩ := h
  obtain ⟨hprevious, hroot, hbits, htime, hash, hhash, hpow⟩ := mineHeader_ok hmine
  have hbits : header.bits = testnetBits := hbits
  have hroot : header.merkleRoot = merkle := hroot
  have hlater : previousTime + 1 ≤ header.time := UInt32.le_trans (le_max_u32 _ _) htime
  exact {
    transactions := ⟨coinbase, rfl, hc⟩
    merkle := hroot ▸ hmerkle
    previousHash := hprevious
    bits := hbits
    proofOfWork := ⟨hash, hhash, hbits ▸ hpow⟩
    time := hlater }

omit [Crypto] in
/-- The coinbase that is mined has one output. -/
theorem makeTestnetCoinbase_outputs {height : UInt64} {reward : ℤ} {script : Bytes} {t : Transaction}
    (h : makeTestnetCoinbase height reward script = .ok t) : t.outputs = [⟨reward, script⟩] := by
  simp only [makeTestnetCoinbase, except_bind_ok, throwIf_ok, except_pure_ok] at h
  obtain ⟨_, -, _, -, _, -, _, -, rfl⟩ := h
  rfl

theorem addCoinbaseOutputs_single {t : Transaction} {output : TxOutput} (height : UInt64)
    (ht : t.Structure) (houtputs : t.outputs = [output]) :
    (∃ u', (addCoinbaseOutputs t height).run u = .ok () u') ↔ (⟨t.id, 0⟩ : OutPoint) ∉ u := by
  have htxid := Transaction.txid_ok.2 ⟨ht, rfl⟩
  simp only [addCoinbaseOutputs, run_bind_ok, lift_run_ok, htxid, houtputs, List.zipIdx_singleton,
    addOutputs, run_get_ok, throwIf_run_ok, run_modify_ok, run_pure_ok]
  constructor
  · rintro ⟨u', _, _, ⟨hid, rfl⟩, _, _, ⟨rfl, rfl⟩, _, _, ⟨hfree, rfl⟩, -⟩
    cases hid
    exact fun hmem => hfree (ExtTreeMap.contains_iff_mem.2 hmem)
  · intro hfree
    exact ⟨_, t.id, u, ⟨rfl, rfl⟩, u, u, ⟨rfl, rfl⟩, (), u,
      ⟨fun hmem => hfree (ExtTreeMap.contains_iff_mem.1 hmem), rfl⟩, (), _, rfl, trivial, rfl⟩

/-- The mined block, before its coinbase is added. -/
theorem MinedBlock.headerOk {last : StoredBlock} {lastHash : Str} {script : Bytes}
    {ts : List Transaction} {fees : ℤ} {block : Block} (hc : Chain (blocks ++ [last]) u)
    (hhash : last.hashHex = .ok lastHash) (htime : last.block.header.time ≠ 0xffffffff)
    (h : MinedBlock (last.height + 1) lastHash last.block.header.time script ts fees block) :
    HeaderOk last (blocks.length + 1) ⟨last.height + 1, block⟩ := by
  have hheight := hc.height blocks.length last (by simp)
  have hlen := hc.length_le
  rw [List.length_append, List.length_singleton] at hlen
  have hlater : last.block.header.time < block.header.time := by
    have hle := UInt32.le_iff_toNat_le.1 h.time
    have hne : last.block.header.time.toNat ≠ 0xffffffff := fun heq => htime (UInt32.toNat_inj.1 heq)
    have hlt := last.block.header.time.toNat_lt
    rw [UInt32.toNat_add] at hle
    rw [UInt32.lt_iff_toNat_lt]
    simp only [UInt32.reduceToNat] at hle
    omega
  exact {
    height := by
      rw [UInt64.toNat_add, hheight]
      simp only [UInt64.reduceToNat]
      omega
    bits := h.bits
    proofOfWork := h.proofOfWork
    link := h.previousHash ▸ hhash
    time := hlater
    merkle := h.merkle }

/-- **What is mined is accepted**, above a tip whose time is not the last one, exactly when its
    coinbase is not an earlier one again; its time is later than the tip's. -/
theorem mined_accepted_iff {last : StoredBlock} {lastHash : Str} {ts : List Transaction} {fees : ℤ}
    {u₁ : UtxoSet} {clock : Int64} {script : Bytes} {block : Block}
    (haccepted : verifyBlocks blocks = .ok ()) (hbuild : buildUtxoSet blocks = .ok u)
    (hlast : blocks.getLast? = some last) (hhash : last.hashHex = .ok lastHash)
    (htime : last.block.header.time ≠ 0xffffffff)
    (happlies : Applies (last.height + 1) u ts fees u₁)
    (hmine : mineTestnetBlock clock (last.height + 1) lastHash last.block.header.time testnetBits
      script ts fees = .ok block) :
    last.block.header.time < block.header.time ∧
    (verifyBlocks (blocks ++ [⟨last.height + 1, block⟩]) = .ok () ↔
      ∀ coinbase ∈ block.transactions.head?, (⟨coinbase.id, 0⟩ : OutPoint) ∉ u₁) := by
  obtain ⟨u₂, hc⟩ := verifyBlocks_iff.1 haccepted
  cases hc.build.symm.trans hbuild
  obtain ⟨below, rfl⟩ := List.getLast?_eq_some_iff.1 hlast
  have hmined := mineTestnetBlock_spec hmine
  have hheader := hmined.headerOk hc hhash htime
  obtain ⟨coinbase, htxs, hmake⟩ := hmined.transactions
  have houtputs := makeTestnetCoinbase_outputs hmake
  have hst : coinbase.Structure :=
    (merkleRootHex_ok.1 hmined.merkle).1 coinbase (by rw [htxs]; exact List.mem_cons_self)
  have hvalue : coinbase.outputValue = blockSubsidy (last.height + 1) + fees := by
    simp [Transaction.outputValue, houtputs]
  have hfree : (∀ c ∈ block.transactions.head?, (⟨c.id, 0⟩ : OutPoint) ∉ u₁) ↔
      (⟨coinbase.id, 0⟩ : OutPoint) ∉ u₁ := by
    rw [htxs, List.head?_cons]
    simp
  refine ⟨hheader.time, ?_⟩
  rw [hfree, ← addCoinbaseOutputs_single (last.height + 1) hst houtputs, verifyBlocks_iff]
  constructor
  · rintro ⟨u', hc'⟩
    obtain ⟨last', u₃, hlast', hc₃, hrun⟩ := (chain_snoc_iff (by simp)).1 hc'
    cases hlast.symm.trans hlast'
    obtain rfl := hc.unique hc₃
    obtain ⟨htotal, hnn⟩ := hc.total
    have hlen := hc.length_le
    have hmoney : (0 : ℤ) + u.total ≤ maxMoney := by
      rw [zero_add, htotal]
      exact subsidySum_le (by omega)
    have hloop : (applyTransactions "Block fee overflow" (last.height + 1) 0 ts).run u = .ok fees u₁ := by
      simpa using happlies.applyTransactions hnn hmoney
    simp only [verifyBlock, run_bind_ok, lift_run_ok] at hrun
    obtain ⟨_, _, ⟨-, rfl⟩, _, _, ⟨-, rfl⟩, _, _, ⟨-, rfl⟩, ⟨c, regular⟩, _, ⟨hsplit, rfl⟩, fees', u₄,
      happly, _, _, ⟨-, rfl⟩, hadd⟩ := hrun
    obtain ⟨hcons, -⟩ := verifyTransactions_ok.1 hsplit
    cases htxs.symm.trans hcons
    cases hloop.symm.trans happly
    exact ⟨u', hadd⟩
  · rintro ⟨u', hadd⟩
    have hc' := hc.connect hheader htxs (makeTestnetCoinbase_ok hmake) happlies hvalue hadd
    exact ⟨u', by simpa using hc'⟩

end

/-! ## A coinbase that is mined again -/

/-- A block at height 1 whose miner has used the coinbase of height 2. -/
def earlyBlock : StoredBlock where
  height := 1
  block := ⟨headerOf genesisTip.hash 0xe692c818d14f51eaae540c94bbc7c5019e5ac429100892329fc305e07c95d3cf
    1784699219 10800, [minedCoinbase 2]⟩

def earlyHash : ℕ := 0x00009ea811c33666752da03974b9026b1bff0bda060cea4df1d517232afdf0f5

/-- The block that is mined above it. -/
def lateBlock : Block :=
  ⟨headerOf earlyHash 0xe692c818d14f51eaae540c94bbc7c5019e5ac429100892329fc305e07c95d3cf 1784699340 0,
    [minedCoinbase 2]⟩

/-- The digests of the two blocks. -/
def earlyDigests : List (ℕ × ℕ) :=
  (ofLe (minedCoinbase 2).encode,
    0xe05fa53004569031a6f7f4f684b2859d39829faddfe812cc419dfa90a6557765) ::
  (0xe05fa53004569031a6f7f4f684b2859d39829faddfe812cc419dfa90a6557765,
    0xe692c818d14f51eaae540c94bbc7c5019e5ac429100892329fc305e07c95d3cf) ::
  (ofLe earlyBlock.block.header.encode,
    0x5bd0b4f735eccd87aa6ca252592ecda76bf4d9cc2f96df0a14e8bd558e5870a0) ::
  (0x5bd0b4f735eccd87aa6ca252592ecda76bf4d9cc2f96df0a14e8bd558e5870a0, earlyHash) ::
  (ofLe lateBlock.header.encode,
    0x249dd01762bf7e4cd07457128492710a4d1e0adfc347bbbefa6e14d1b52184f1) ::
  (0x249dd01762bf7e4cd07457128492710a4d1e0adfc347bbbefa6e14d1b52184f1,
    0x00005ac250a4d15324bf2534c5ef7a409032ec7192066350e11baa449ff9f0cc) ::
  genesisDigests

abbrev earlyCrypto : Crypto := .ofTable earlyDigests

attribute [local instance] earlyCrypto

theorem lateBlock_mined : verifyBlocks [genesisStored, earlyBlock] = .ok () ∧
    earlyBlock.hashHex = .ok (hashToDisplayHex (digestOf earlyHash)) ∧
    mineTestnetBlock 1784699340 2 (hashToDisplayHex (digestOf earlyHash)) 1784699219 testnetBits
      sampleScript [] 0 = .ok lateBlock ∧
    verifyBlocks [genesisStored, earlyBlock, ⟨2, lateBlock⟩] ≠ .ok () := by
  decide +kernel

theorem mined_accepted_iff_early : ∃ u u₁ : UtxoSet,
    genesisStored.block.header.time < earlyBlock.block.header.time ∧
    earlyBlock.block.header.time < lateBlock.header.time ∧
    (verifyBlocks ([genesisStored, earlyBlock] ++ [⟨earlyBlock.height + 1, lateBlock⟩]) = .ok () ↔
      ∀ coinbase ∈ lateBlock.transactions.head?, (⟨coinbase.id, 0⟩ : OutPoint) ∉ u₁) ∧
    buildUtxoSet [genesisStored, earlyBlock] = .ok u := by
  obtain ⟨haccepted, hhash, hmine, -⟩ := lateBlock_mined
  obtain ⟨u, hc⟩ := verifyBlocks_iff.1 haccepted
  obtain ⟨htime, hiff⟩ := mined_accepted_iff haccepted hc.build rfl hhash (by decide) .nil hmine
  exact ⟨u, u, by decide, htime, hiff, hc.build⟩

/-- The miner does not notice that the chain has its coinbase already. -/
theorem mined_not_accepted : ∃ (blocks : List StoredBlock) (last : StoredBlock) (lastHash : Str)
    (u u₁ : UtxoSet) (ts : List Transaction) (fees : ℤ) (clock : Int64) (script : Bytes)
    (block : Block), verifyBlocks blocks = .ok () ∧ buildUtxoSet blocks = .ok u ∧
    blocks.getLast? = some last ∧ last.hashHex = .ok lastHash ∧
    Applies (last.height + 1) u ts fees u₁ ∧ script ≠ [] ∧ script.length ≤ maxScriptSize ∧
    mineTestnetBlock clock (last.height + 1) lastHash last.block.header.time testnetBits script ts
      fees = .ok block ∧ verifyBlocks (blocks ++ [⟨last.height + 1, block⟩]) ≠ .ok () := by
  obtain ⟨haccepted, hhash, hmine, hnot⟩ := lateBlock_mined
  obtain ⟨u, hc⟩ := verifyBlocks_iff.1 haccepted
  exact ⟨[genesisStored, earlyBlock], earlyBlock, _, u, u, [], 0, 1784699340, sampleScript, lateBlock,
    haccepted, hc.build, rfl, hhash, .nil, by decide, by decide, hmine, hnot⟩

theorem verifyBlocks_incremental_early : ∃ work work' : ℕ,
    (∃ last u u', [genesisStored].getLast? = some last ∧ buildUtxoSet [genesisStored] = .ok u ∧
      (verifyBlock last [genesisStored].length earlyBlock).run u = .ok () u') ∧
    verifyBlocks [genesisStored] = .ok () ∧ calculateChainwork [genesisStored] = .ok work ∧
    calculateChainwork [genesisStored, earlyBlock] = .ok work' ∧ work < work' := by
  have haccepted : verifyBlocks ([genesisStored] ++ [earlyBlock]) = .ok () := lateBlock_mined.1
  obtain ⟨hsnoc, hprefix, hwork⟩ := verifyBlocks_incremental
  obtain ⟨work, work', h, h', hlt⟩ := hwork [genesisStored] [earlyBlock] (List.cons_ne_nil _ _) haccepted
  exact ⟨work, work', ((hsnoc _ _ (List.cons_ne_nil _ _)).1 haccepted).2,
    hprefix _ _ (List.cons_ne_nil _ _) haccepted, h, h', hlt⟩

end BinaryCoin
