/-
  BinaryCoin — when blocks and chains are accepted.

  The converse of `Connects`: a block whose checks hold and whose transactions
  apply extends a chain (`Chain.extend`); and an object whose store accepts
  every commit takes any chain that extends its own (`appendBlocks_run`) or has
  more work (`activateIfMoreWork_run`).
-/
import BinaryCoin.Node

namespace BinaryCoin

open Cursor Std

variable [Crypto]

omit [Crypto] in
theorem lift_ok_run {τ α : Type} {a : α} {s : τ} :
    (liftM (.ok a : Except Exn α) : EStateM Exn τ α).run s = .ok a s := rfl

/-! ## One block -/

/-- An outpoint that a coinbase has added is its own. -/
theorem CoinbaseAdded.mem {t : Transaction} {height : UInt64} {u u' : UtxoSet}
    (h : CoinbaseAdded t height u u') {o : OutPoint} (ho : o ∈ u') : o ∈ u ∨ o.txid = t.id := by
  by_contra hcon
  obtain ⟨hu, hne⟩ := not_or.1 hcon
  rw [mem_lookup, not_not] at hu
  obtain ⟨coin, hc⟩ := h.run.created hu (mem_lookup.1 ho)
  have hcreates : (Connection.mk t height true).batch.Creates o := Ledger.Batch.create_mem_events hc
  exact hne (Connection.creates_iff.1 hcreates).1

/-- A coinbase changes no outpoint but its own. -/
theorem CoinbaseAdded.frame {t : Transaction} {height : UInt64} {u u' : UtxoSet}
    (h : CoinbaseAdded t height u u') {o : OutPoint} (hid : o.txid ≠ t.id) : u'[o]? = u[o]? := by
  refine h.run.frame fun e he hk => ?_
  cases e with
  | create k c =>
    obtain rfl : k = o := hk
    have := Ledger.Batch.create_mem_events he
    exact hid (Connection.creates_iff (c := ⟨t, height, true⟩).1 this).1
  | spend k s =>
    have := Ledger.Batch.spend_mem_events he
    exact absurd (Connection.spends_iff (c := ⟨t, height, true⟩).1 this).1 (by simp)

/-- What is checked of a block before its transactions are applied. -/
structure HeaderOk (previous : StoredBlock) (index : ℕ) (stored : StoredBlock) : Prop where
  height : stored.height.toNat = index
  bits : stored.block.header.bits = testnetBits
  proofOfWork : ∃ h, stored.block.header.rawHash = .ok h ∧ checkProofOfWork h testnetBits = .ok true
  link : previous.hashHex = .ok stored.block.header.previousHash
  time : previous.block.header.time < stored.block.header.time
  merkle : merkleRootHex stored.block.transactions = .ok stored.block.header.merkleRoot

/-- **A block extends a chain** when its header is right, its regular transactions apply, and its
    coinbase claims the subsidy and the fees and adds its outputs. -/
theorem Chain.connect {blocks : List StoredBlock} {previous stored : StoredBlock}
    {u u₁ u' : UtxoSet} {coinbase : Transaction} {regular : List Transaction} {fees : ℤ}
    (hc : Chain (blocks ++ [previous]) u) (hheader : HeaderOk previous (blocks.length + 1) stored)
    (htxs : stored.block.transactions = coinbase :: regular) (hcb : coinbase.isCoinbase)
    (happlies : Applies stored.height u regular fees u₁)
    (hvalue : coinbase.outputValue = blockSubsidy stored.height + fees)
    (hadd : (addCoinbaseOutputs coinbase stored.height).run u₁ = .ok () u') :
    Chain (blocks ++ [previous, stored]) u' := by
  have hst : coinbase.Structure :=
    (merkleRootHex_ok.1 hheader.merkle).1 coinbase (by rw [htxs]; exact List.mem_cons_self)
  refine .block hc ?_
  -- the checks on the totals
  obtain ⟨htotal, hnn⟩ := hc.total
  have hlen : (blocks ++ [previous]).length - 1 < 2 ^ 64 := by
    have := hc.length_le
    omega
  have hmoney : (0 : ℤ) + u.total ≤ maxMoney := by
    rw [zero_add, htotal]
    exact subsidySum_le hlen
  have hloop : (applyTransactions "Block fee overflow" stored.height 0 regular).run u =
      .ok fees u₁ := by
    simpa using happlies.applyTransactions hnn hmoney
  have hsum := sumOutputs_eq (fun o ho => (hst.output o ho).1) hst.total
  have hcoinbase : verifyCoinbase stored coinbase fees = .ok () := by
    simp only [verifyCoinbase, except_bind_ok, throwIf_ok]
    refine ⟨_, hsum, not_or.2 ⟨?_, not_not.2 hvalue⟩⟩
    have hle : coinbase.outputValue ≤ maxMoney := hst.total
    omega
  have hregular : ∀ t ∈ regular, t.isCoinbase = false := fun t ht => (happlies.all.mem t ht).2.1
  simp only [verifyBlock, run_bind_ok, lift_run_ok]
  exact ⟨(), u, ⟨by simp [verifyHeight, hheader.height], rfl⟩, (), u,
    ⟨verifyProofOfWork_ok.2 (hheader.bits ▸ hheader.proofOfWork), rfl⟩, (), u,
    ⟨verifyHeader_ok.2 ⟨hheader.bits, hheader.link, hheader.time⟩, rfl⟩, (coinbase, regular), u,
    ⟨verifyTransactions_ok.2 ⟨htxs, hcb, hregular, hheader.merkle⟩, rfl⟩, fees, u₁, hloop, (), u₁,
    ⟨hcoinbase, rfl⟩, hadd⟩

/-- A coinbase whose identifier is new adds its outputs. -/
theorem Chain.extend {blocks : List StoredBlock} {previous stored : StoredBlock} {u u₁ : UtxoSet}
    {coinbase : Transaction} {regular : List Transaction} {fees : ℤ}
    (hc : Chain (blocks ++ [previous]) u) (hheader : HeaderOk previous (blocks.length + 1) stored)
    (htxs : stored.block.transactions = coinbase :: regular) (hcb : coinbase.isCoinbase)
    (happlies : Applies stored.height u regular fees u₁)
    (hvalue : coinbase.outputValue = blockSubsidy stored.height + fees)
    (hnew : coinbase.id ∉
      (allTransactions (blocks ++ [previous]) ++ regular).map Transaction.id) :
    ∃ u', Chain (blocks ++ [previous, stored]) u' ∧ CoinbaseAdded coinbase stored.height u₁ u' := by
  have hst : coinbase.Structure :=
    (merkleRootHex_ok.1 hheader.merkle).1 coinbase (by rw [htxs]; exact List.mem_cons_self)
  have hfresh : ∀ index, (⟨coinbase.id, index⟩ : OutPoint) ∉ u₁ := by
    intro index hmem
    rw [List.map_append, List.mem_append, not_or] at hnew
    rcases happlies.mem hmem with ho | hid
    · exact hnew.1 (hc.mem_utxos ho)
    · exact hnew.2 hid
  obtain ⟨u', hadd⟩ : ∃ u', (addCoinbaseOutputs coinbase stored.height).run u₁ = .ok () u' :=
    addCoinbaseOutputs_fresh (Transaction.txid_ok.2 ⟨hst, rfl⟩) hst hfresh
  exact ⟨u', hc.connect hheader htxs hcb happlies hvalue hadd, addCoinbaseOutputs_ok hadd⟩

/-! ## Parts of a chain -/

theorem Chain.of_append {blocks rest : List StoredBlock} {u : UtxoSet} (h : Chain (blocks ++ rest) u)
    (hne : blocks ≠ []) : ∃ u', Chain blocks u' := by
  induction rest using List.reverseRecOn generalizing u with
  | nil => exact ⟨u, by simpa using h⟩
  | append_singleton rest last ih =>
    rw [← List.append_assoc] at h
    rcases h.last_cases with ⟨g, hg, -⟩ | ⟨below, previous, stored, u₁, heq, hbelow, -⟩
    · have hlen := congrArg List.length hg
      have := List.length_pos_of_ne_nil hne
      simp only [List.length_append, List.length_singleton] at hlen
      omega
    · rw [← (List.append_inj' heq rfl).1] at hbelow
      exact ih hbelow

/-- Two blocks in a row: the second was connected above the first. -/
theorem Chain.connects_at {blocks rest : List StoredBlock} {a b : StoredBlock} {u : UtxoSet}
    (h : Chain (blocks ++ a :: b :: rest) u) : ∃ u₁ u₂, Connects a (blocks.length + 1) b u₁ u₂ := by
  have happ : blocks ++ a :: b :: rest = blocks ++ [a] ++ [b] ++ rest := by simp
  rw [happ] at h
  obtain ⟨u₂, h⟩ := h.of_append (by simp)
  rcases h.last_cases with ⟨g, hg, -⟩ | ⟨below, previous, stored, u₁, heq, -, hconn⟩
  · have hlen := congrArg List.length hg
    simp at hlen
  · obtain ⟨hbelow, hstored⟩ := List.append_inj' heq rfl
    obtain ⟨rfl, hprevious⟩ := List.append_inj' hbelow rfl
    cases hstored
    cases hprevious
    exact ⟨u₁, u₂, by simpa using hconn⟩

/-! ## The operations of the object -/

/-- A block above a chain has the next height and names the hash of the last block. -/
theorem Chain.extends_last {blocks rest : List StoredBlock} {last stored : StoredBlock} {u : UtxoSet}
    (h : Chain (blocks ++ stored :: rest) u) (hlast : blocks.getLast? = some last) :
    stored.height = last.height + 1 ∧ last.hashHex = .ok stored.block.header.previousHash := by
  obtain ⟨below, rfl⟩ := List.getLast?_eq_some_iff.1 hlast
  rw [List.append_assoc, List.singleton_append] at h
  obtain ⟨u₁, u₂, hconn⟩ := h.connects_at
  refine ⟨?_, hconn.link⟩
  have hl := h.height below.length last (by simp)
  have hlt := stored.height.toNat_lt
  have hh := hconn.height
  refine UInt64.toNat_inj.1 ?_
  rw [UInt64.toNat_add, hl]
  simp only [UInt64.reduceToNat]
  omega

namespace TestnetChain
variable {σ : Type}

/-- A store that accepts every commit of a chain. -/
def Commits (S : ChainStore σ) : Prop :=
  ∀ blocks utxos storage, blocks ≠ [] → ∃ storage', (S.commit blocks utxos).run storage = .ok () storage'

omit [Crypto] in
theorem memory_commits : Commits ChainStore.memory := fun blocks utxos _ _ =>
  ⟨some (blocks, utxos), rfl⟩

variable {S : ChainStore σ}

/-- An object that is given a chain commits it. -/
theorem verify_rebuild_save_eq {s : TestnetChain σ} {u : UtxoSet} (hc : Chain s.blocks u) :
    (do verify; rebuild; save S : ChainM σ Unit).run s =
      (onStorage (S.commit s.blocks u)).run { s with utxos := u } := by
  have hverify : verify.run s = .ok () s := verify_ok.2 ⟨verifyBlocks_iff.2 ⟨u, hc⟩, rfl⟩
  have hrebuild : rebuild.run s = .ok () { s with utxos := u } := rebuild_ok.2 ⟨u, hc.build, rfl⟩
  rw [run_bind_of_ok hverify, run_bind_of_ok hrebuild]
  rfl

theorem verify_rebuild_save_run (hS : Commits S) {s : TestnetChain σ} {u : UtxoSet}
    (hc : Chain s.blocks u) : ∃ storage, (S.commit s.blocks u).run s.storage = .ok () storage ∧
      (do verify; rebuild; save S : ChainM σ Unit).run s =
        .ok () { s with utxos := u, storage := storage } := by
  obtain ⟨storage, hcommit⟩ := hS s.blocks u s.storage hc.ne_nil
  refine ⟨storage, hcommit, ?_⟩
  rw [verify_rebuild_save_eq hc]
  exact onStorage_run_ok.2 ⟨storage, hcommit, rfl⟩

/-- Blocks above a chain link to one another. -/
theorem forM_appendBlock_run {incoming : List StoredBlock} {s : TestnetChain σ} {u : UtxoSet}
    (hne : s.blocks ≠ []) (hc : Chain (s.blocks ++ incoming) u) :
    (forM incoming appendBlock : ChainM σ Unit).run s =
      .ok () { s with blocks := s.blocks ++ incoming } := by
  induction incoming generalizing s with
  | nil => simp only [List.append_nil]; rfl
  | cons stored incoming ih =>
    have hext : Chain (s.blocks ++ stored :: incoming) u := by simpa using hc
    obtain ⟨hheight, hlink⟩ := hext.extends_last (List.getLast?_eq_some_getLast hne)
    have hback : back s.blocks = .ok (s.blocks.getLast hne) :=
      back_ok.2 (List.getLast?_eq_some_getLast hne)
    have happ : Chain ({ s with blocks := s.blocks ++ [stored] }.blocks ++ incoming) u := by
      simpa using hc
    rw [List.forM_cons, run_bind_ok]
    refine ⟨(), { s with blocks := s.blocks ++ [stored] }, ?_, ?_⟩
    · simp only [appendBlock, run_bind_ok, run_get_ok, lift_run_ok, throwIf_run_ok,
        setBlocks_run_ok]
      exact ⟨s, s, ⟨rfl, rfl⟩, _, s, ⟨hback, rfl⟩, (), s, ⟨by simp [hheight], rfl⟩,
        stored.block.header.previousHash, s, ⟨hlink, rfl⟩, (), s, ⟨by simp, rfl⟩, rfl⟩
    · rw [ih (by simp) happ]
      simp

/-- `append_blocks` commits blocks that extend the chain. -/
theorem appendBlocks_eq {incoming : List StoredBlock} {s : TestnetChain σ} {u : UtxoSet}
    (hne : s.blocks ≠ []) (hincoming : incoming ≠ []) (hc : Chain (s.blocks ++ incoming) u) :
    (appendBlocks S incoming).run s = match (S.commit (s.blocks ++ incoming) u).run s.storage with
      | .ok () storage =>
        .ok () { s with blocks := s.blocks ++ incoming, utxos := u, storage := storage }
      | .error e storage => .error e { s with storage := storage } := by
  rw [appendBlocks, if_neg hincoming, run_bind_of_ok (initializeIfEmpty_run hne), orRestore_run,
    run_bind_of_ok (forM_appendBlock_run hne hc),
    verify_rebuild_save_eq (s := { s with blocks := s.blocks ++ incoming }) hc]
  simp only [EStateM.run, onStorage]
  cases S.commit (s.blocks ++ incoming) u s.storage <;> rfl

/-- **`append_blocks` takes blocks that extend the chain.** -/
theorem appendBlocks_run (hS : Commits S) {incoming : List StoredBlock} {s : TestnetChain σ}
    {u : UtxoSet} (hne : s.blocks ≠ []) (hincoming : incoming ≠ [])
    (hc : Chain (s.blocks ++ incoming) u) :
    ∃ storage, (S.commit (s.blocks ++ incoming) u).run s.storage = .ok () storage ∧
      (appendBlocks S incoming).run s =
        .ok () { s with blocks := s.blocks ++ incoming, utxos := u, storage := storage } := by
  obtain ⟨storage, hcommit⟩ := hS (s.blocks ++ incoming) u s.storage hc.ne_nil
  refine ⟨storage, hcommit, ?_⟩
  rw [appendBlocks_eq hne hincoming hc, hcommit]

/-- The scan of two chains returns: their genesis blocks have one hash. -/
theorem commonCount_run {left right : List StoredBlock} (hl : ∀ b ∈ left, ∃ h, b.hashHex = .ok h)
    (hr : ∀ b ∈ right, ∃ h, b.hashHex = .ok h) : ∃ n, commonCount left right = .ok n := by
  induction left generalizing right with
  | nil => exact ⟨0, rfl⟩
  | cons a left ih =>
    cases right with
    | nil => exact ⟨0, rfl⟩
    | cons b right =>
      obtain ⟨⟨ha, hahash⟩, hl⟩ := List.forall_mem_cons.1 hl
      obtain ⟨⟨hb, hbhash⟩, hr⟩ := List.forall_mem_cons.1 hr
      obtain ⟨n, hn⟩ := ih hl hr
      by_cases heq : ha = hb
      · refine ⟨n + 1, ?_⟩
        simp only [commonCount, hahash, hbhash, hn, heq, bind, Except.bind, pure, Except.pure, if_true]
      · refine ⟨0, ?_⟩
        simp only [commonCount, hahash, hbhash, heq, bind, Except.bind, pure, Except.pure, if_false]

theorem commonCount_pos {left right : List StoredBlock} {u v : UtxoSet} (hl : Chain left u)
    (hr : Chain right v) : ∃ n, commonCount left right = .ok n ∧ 0 < n := by
  have hhash : ∀ {blocks : List StoredBlock} {u : UtxoSet}, Chain blocks u →
      ∀ b ∈ blocks, ∃ h, b.hashHex = .ok h := fun hc b hb => ⟨_, (hc.stored_canonical b hb).hashHex⟩
  obtain ⟨n, hn⟩ := commonCount_run (hhash hl) (hhash hr)
  refine ⟨n, hn, Nat.pos_of_ne_zero ?_⟩
  rintro rfl
  obtain ⟨g, rest, rfl, hg⟩ := hl.genesis_head
  obtain ⟨g', rest', rfl, hg'⟩ := hr.genesis_head
  exact (commonCount_ok hn).next g g' rfl rfl (hg.isGenesis.hash.trans hg'.isGenesis.hash.symm)

theorem disconnectedTransactions_run (ids : List Str) {blocks : List StoredBlock}
    (hwf : ∀ t ∈ allTransactions blocks, t.Structure) :
    ∃ ts, disconnectedTransactions ids blocks = .ok ts := by
  have hfold : ∀ transactions start : List Transaction, (∀ t ∈ transactions, t.Structure) →
      ∃ ts, transactions.foldlM (fun result transaction => do
        if (← transaction.txid) ∈ ids then return result
        return result ++ [transaction]) start = (.ok ts : Except Exn (List Transaction)) := by
    intro transactions
    induction transactions with
    | nil => exact fun start _ => ⟨start, rfl⟩
    | cons t ts ih =>
      intro start hts
      obtain ⟨ht, hts⟩ := List.forall_mem_cons.1 hts
      have hid : t.txid = .ok t.id := Transaction.txid_ok.2 ⟨ht, rfl⟩
      obtain ⟨result, hrest⟩ := ih (if t.id ∈ ids then start else start ++ [t]) hts
      refine ⟨result, ?_⟩
      rw [List.foldlM_cons, except_bind_ok]
      refine ⟨_, ?_, hrest⟩
      by_cases hmem : t.id ∈ ids <;>
        simp only [hid, hmem, bind, Except.bind, pure, Except.pure, if_true, if_false]
  refine hfold _ [] fun t ht => hwf t ?_
  obtain ⟨b, hb, htail⟩ := List.mem_flatMap.1 ht
  exact List.mem_flatMap.2 ⟨b, hb, List.mem_of_mem_tail htail⟩

/-- **`activate_if_more_work` returns** on an accepted candidate, and activates it if it is
    longer. -/
theorem activateIfMoreWork_run (hS : Commits S) {s : TestnetChain σ} (hs : s.Valid)
    {candidate : List StoredBlock} {u : UtxoSet} (hc : Chain candidate u) :
    ∃ r s', (activateIfMoreWork S candidate).run s = .ok r s' ∧
      (r.activated = true ∧ s.blocks.length < candidate.length ∧
          (∃ storage, (S.commit candidate u).run s.storage = .ok () storage ∧
            s' = { s with blocks := candidate, utxos := u, storage := storage }) ∨
        r.activated = false ∧ candidate.length ≤ s.blocks.length ∧ s' = s) := by
  obtain ⟨n, hn, hpos⟩ := commonCount_pos hs hc
  have htip := Node.tip_ok.2 (List.getLast?_eq_some_getLast hs.ne_nil)
  have hback : back candidate = .ok _ := back_ok.2 (List.getLast?_eq_some_getLast hc.ne_nil)
  have hwork := Chain.work hs
  have hle : candidate.length * testnetBlockWork ≤ s.blocks.length * testnetBlockWork ↔
      candidate.length ≤ s.blocks.length := Nat.mul_le_mul_right_iff (by decide)
  have hverify : verifyBlocks candidate = .ok () := verifyBlocks_iff.2 ⟨u, hc⟩
  have hthrow : ∀ e : Exn, (throwIf (n = 0) e : ChainM σ Unit) = pure () := fun e =>
    if_neg (Nat.ne_of_gt hpos)
  simp only [activateIfMoreWork, EStateM.run_bind, EStateM.run_get, hverify, htip, hback, hwork,
    hc.work, hn, lift_ok_run, hthrow, EStateM.run_pure, hle]
  by_cases hlen : candidate.length ≤ s.blocks.length
  · rw [if_pos hlen]
    exact ⟨_, s, rfl, .inr ⟨rfl, hlen, rfl⟩⟩
  · rw [if_neg hlen]
    have hids := Node.transactionIds_ok hc
    have hwf : ∀ t ∈ allTransactions (s.blocks.drop n), t.Structure := by
      intro t ht
      obtain ⟨b, hb, ht⟩ := List.mem_flatMap.1 ht
      exact (Chain.transaction hs t (List.mem_flatMap.2 ⟨b, List.mem_of_mem_drop hb, ht⟩)).1
    obtain ⟨ds, hds⟩ :=
      disconnectedTransactions_run ((allTransactions candidate).map Transaction.id) hwf
    obtain ⟨storage, hcommit, hsave⟩ :=
      verify_rebuild_save_run hS (s := { s with blocks := candidate }) hc
    refine ⟨{ activated := true, oldHeight := (s.blocks.getLast hs.ne_nil).height,
              newHeight := (candidate.getLast hc.ne_nil).height,
              forkHeight := UInt64.ofNat (n - 1), disconnectedBlocks := s.blocks.length - n,
              connectedBlocks := candidate.length - n,
              oldChainwork := s.blocks.length * testnetBlockWork,
              candidateChainwork := candidate.length * testnetBlockWork,
              disconnectedTransactions := ds },
      { s with blocks := candidate, utxos := u, storage := storage }, ?_,
      .inl ⟨rfl, Nat.lt_of_not_le hlen, storage, hcommit, rfl⟩⟩
    simp only [run_bind_ok, lift_run_ok, orRestore_ok, setBlocks_run_ok] at hsave ⊢
    exact ⟨_, s, ⟨hids, rfl⟩, ds, s, ⟨hds, rfl⟩, (), _, ⟨(), _, rfl, hsave⟩, rfl⟩

end TestnetChain

end BinaryCoin
