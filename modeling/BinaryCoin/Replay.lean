/-
  BinaryCoin — replaying an accepted chain as a ledger.

  `connections blocks` are the transactions in the order in which they are
  connected: block by block from height 1, the regular transactions of a block
  in order and then its coinbase.  `Chain.run_replay` says that they are a run of
  the ledger of unspent outputs, so the general facts about ledgers are facts
  about chains.
-/
import BinaryCoin.VerifyBlocks

namespace BinaryCoin

open Cursor

variable [Crypto]

/-- A transaction connected at a height, as a coinbase or not. -/
structure Connection where
  transaction : Transaction
  height : UInt64
  coinbase : Bool

def Connection.batch (c : Connection) : Ledger.Batch OutPoint Coin UInt64 :=
  c.transaction.batch c.height c.coinbase

/-- The identifier of the transaction connected. -/
def Connection.id (c : Connection) : Str := c.transaction.id

def StoredBlock.connections (stored : StoredBlock) : List Connection :=
  match stored.block.transactions with
  | [] => []
  | coinbase :: regular =>
    regular.map (⟨·, stored.height, false⟩) ++ [⟨coinbase, stored.height, true⟩]

/-- The connections of the blocks above the genesis block. -/
def connections (blocks : List StoredBlock) : List Connection :=
  blocks.tail.flatMap StoredBlock.connections

/-- The creations and spends of a chain in order. -/
def replay (blocks : List StoredBlock) : List (Ledger.Event OutPoint Coin UInt64) :=
  ((connections blocks).map Connection.batch).flatMap Ledger.Batch.events

/-! ## The ledger of a chain -/

theorem AppliedAll.run_replay {height : UInt64} {ts : List Transaction} {u u' : UtxoSet} {fees : ℤ}
    (h : AppliedAll height u ts fees u') : Ledger.Run Spendable u.lookup
      ((ts.map fun t => t.batch height false).flatMap Ledger.Batch.events) u'.lookup := by
  induction h with
  | nil => exact .nil
  | cons head _ ih => exact Ledger.run_append.2 ⟨_, head.run, ih⟩

theorem Connects.run_replay {previous stored : StoredBlock} {index : ℕ} {u u' : UtxoSet}
    (h : Connects previous index stored u u') : Ledger.Run Spendable u.lookup
      ((stored.connections.map Connection.batch).flatMap Ledger.Batch.events) u'.lookup := by
  obtain ⟨coinbase, regular, fees, u₁, htxs, -, hall, -, hadd⟩ := h.body
  simp only [StoredBlock.connections, htxs, List.map_append, List.flatMap_append, List.map_map,
    List.map_singleton, List.flatMap_singleton]
  exact Ledger.run_append.2 ⟨_, hall.run_replay, hadd.run⟩

omit [Crypto] in
theorem connections_snoc {blocks : List StoredBlock} {stored : StoredBlock} (hne : blocks ≠ []) :
    connections (blocks ++ [stored]) = connections blocks ++ stored.connections := by
  rw [connections, List.tail_append_of_ne_nil hne, List.flatMap_append, List.flatMap_singleton,
    connections]

/-- **An accepted chain is a run of the ledger** from the empty set to its set of unspent
    outputs. -/
theorem Chain.run_replay {blocks : List StoredBlock} {u : UtxoSet} (h : Chain blocks u) :
    Ledger.Run Spendable (fun _ => none) (replay blocks) u.lookup := by
  induction h using Chain.rec_connects with
  | genesis g _ => rw [UtxoSet.lookup_empty]; exact .nil
  | block blocks previous stored u u' _ _ hconn ih =>
    rw [replay, connections_snoc (by simp), List.map_append, List.flatMap_append]
    exact Ledger.run_append.2 ⟨_, ih, hconn.run_replay⟩

/-- What is known of each connection by itself. -/
structure Connection.Ok (blocks : List StoredBlock) (c : Connection) : Prop where
  wellFormed : c.transaction.Structure
  isCoinbase : c.transaction.isCoinbase = c.coinbase
  height : c.height.toNat < blocks.length
  nodup : (c.transaction.inputs.map TxInput.previousOutput).Nodup

omit [Crypto] in
theorem Transaction.isCoinbase_iff {t : Transaction} : t.isCoinbase ↔ ∃ script sequence,
    t.inputs = [⟨⟨zeroHashHex, 0xffffffff⟩, script, sequence⟩] := by
  unfold Transaction.isCoinbase
  split
  · rename_i input hi
    obtain ⟨⟨txid, index⟩, script, sequence⟩ := input
    simp only [hi, decide_eq_true_eq]
    constructor
    · rintro ⟨rfl, rfl⟩; exact ⟨script, sequence, rfl⟩
    · rintro ⟨_, _, h⟩; cases h; exact ⟨rfl, rfl⟩
  · rename_i hne
    simp only [Bool.false_eq_true, false_iff, not_exists]
    exact fun script sequence h => hne _ h

theorem AppliedAll.mem {height : UInt64} {ts : List Transaction} {u u' : UtxoSet} {fees : ℤ}
    (h : AppliedAll height u ts fees u') : ∀ t ∈ ts, t.Structure ∧ t.isCoinbase = false ∧
      (t.inputs.map TxInput.previousOutput).Nodup := by
  induction h with
  | nil => simp
  | cons head _ ih =>
    exact List.forall_mem_cons.2 ⟨⟨head.wellFormed, head.notCoinbase, head.nodup⟩, ih⟩

theorem Connects.connection {previous stored : StoredBlock} {blocks : List StoredBlock}
    {u u' : UtxoSet} (h : Connects previous blocks.length stored u u') :
    ∀ c ∈ stored.connections, c.Ok (blocks ++ [stored]) := by
  obtain ⟨coinbase, regular, fees, u₁, htxs, hcb, hall, -, hadd⟩ := h.body
  have hheight : stored.height.toNat < (blocks ++ [stored]).length := by
    rw [h.height, List.length_append, List.length_singleton]; omega
  intro c hc
  simp only [StoredBlock.connections, htxs, List.mem_append, List.mem_map, List.mem_singleton] at hc
  rcases hc with ⟨t, ht, rfl⟩ | rfl
  · obtain ⟨hst, hncb, hnodup⟩ := hall.mem t ht
    exact ⟨hst, hncb, hheight, hnodup⟩
  · obtain ⟨script, sequence, hi⟩ := Transaction.isCoinbase_iff.1 hcb
    exact ⟨hadd.wellFormed, hcb, hheight, by simp [hi]⟩

theorem Chain.connection {blocks : List StoredBlock} {u : UtxoSet} (h : Chain blocks u) :
    ∀ c ∈ connections blocks, c.Ok blocks := by
  induction h using Chain.rec_connects with
  | genesis g _ => simp [connections]
  | block blocks previous stored u u' _ _ hconn ih =>
    intro c hc
    rw [connections_snoc (by simp), List.mem_append] at hc
    rcases hc with hc | hc
    · obtain ⟨hst, hcb, hheight, hnodup⟩ := ih c hc
      exact ⟨hst, hcb, by rw [List.length_append]; omega, hnodup⟩
    · exact hconn.connection c hc

/-- The coins that a chain creates have the height of their connection, far below the range of
    heights. -/
theorem Chain.height_of_create {blocks : List StoredBlock} {u : UtxoSet} (h : Chain blocks u)
    {o : OutPoint} {coin : Coin} (hc : .create o coin ∈ replay blocks) :
    coin.height.toNat < 2 ^ 32 := by
  obtain ⟨b, hb, he⟩ := List.mem_flatMap.1 hc
  obtain ⟨c, hcmem, rfl⟩ := List.mem_map.1 hb
  have hheight : coin.height = c.height := by
    simp only [Ledger.Batch.events, Connection.batch, Transaction.batch, newCoins, List.mem_append,
      List.mem_map] at he
    rcases he with ⟨_, -, he⟩ | ⟨_, ⟨p, -, rfl⟩, he⟩
    · cases he
    · cases he; rfl
  have := (h.connection c hcmem).height
  have := h.length_le
  rw [hheight]; omega

/-- **No double spend and coinbase maturity**: on every outpoint the events of an accepted chain
    alternate, starting with a creation; no transaction names an outpoint twice; and what a
    coinbase created is spent 100 blocks later at the earliest. -/
theorem no_double_spend {blocks : List StoredBlock} (h : verifyBlocks blocks = .ok ()) :
    (∀ o, Ledger.Alternates .create (Ledger.history o (replay blocks))) ∧
    (∀ c ∈ connections blocks, c.transaction.txid = .ok c.id ∧
      (c.transaction.inputs.map TxInput.previousOutput).Nodup) ∧
    ∀ (pre mid post : List (Ledger.Event OutPoint Coin UInt64)) (o : OutPoint) (coin : Coin)
      (height : UInt64), replay blocks = pre ++ .create o coin :: (mid ++ .spend o height :: post) →
      (∀ e ∈ mid, e.key ≠ o) → coin.coinbase → coin.height.toNat + 100 ≤ height.toNat := by
  obtain ⟨u, hc⟩ := verifyBlocks_iff.1 h
  have hrun := hc.run_replay
  refine ⟨fun o => hrun.alternates o, fun c hmem => ?_, fun pre mid post o coin height he hmid hcb => ?_⟩
  · have hok := hc.connection c hmem
    exact ⟨Transaction.txid_ok.2 ⟨hok.wellFormed, rfl⟩, hok.nodup⟩
  · have hmature : Spendable coin height := by
      rw [he] at hrun
      exact hrun.allowed_of_spend hmid
    have hmem : .create o coin ∈ replay blocks := by rw [he]; simp
    have hlt := hc.height_of_create hmem
    have hge := hmature hcb
    rw [UInt64.lt_iff_toNat_lt, UInt64.toNat_add] at hge
    simp only [coinbaseMaturity, UInt64.reduceToNat] at hge
    omega

/-! ## Transaction identifiers -/

/-- The transactions of a chain, the genesis coinbase included. -/
def allTransactions (blocks : List StoredBlock) : List Transaction :=
  blocks.flatMap fun stored => stored.block.transactions

/-- The first transactions of the blocks. -/
def coinbases (blocks : List StoredBlock) : List Transaction :=
  blocks.flatMap fun stored => stored.block.transactions.take 1

omit [Crypto] in
theorem coinbases_sublist (blocks : List StoredBlock) :
    (coinbases blocks).Sublist (allTransactions blocks) := by
  induction blocks with
  | nil => exact .slnil
  | cons stored rest ih =>
    simp only [coinbases, allTransactions, List.flatMap_cons] at ih ⊢
    exact (List.take_sublist ..).append ih

/-- No two of the transactions given collide under the transaction hash. -/
def NoCollision (transactions : List Transaction) : Prop :=
  Set.InjOn sha256d {bytes | ∃ t ∈ transactions, bytes = t.encode}

theorem NoCollision.encode_eq {ts : List Transaction} (h : NoCollision ts) {t t' : Transaction}
    (ht : t ∈ ts) (ht' : t' ∈ ts) (hid : t.id = t'.id) : t.encode = t'.encode :=
  h ⟨t, ht, rfl⟩ ⟨t', ht', rfl⟩ (hashToDisplayHex_inj hid)

/-- The transactions of a block above the genesis block are those connected, in another order. -/
theorem Connects.perm {previous stored : StoredBlock} {index : ℕ} {u u' : UtxoSet}
    (h : Connects previous index stored u u') :
    (stored.connections.map Connection.transaction).Perm stored.block.transactions ∧
    (stored.connections.filter Connection.coinbase).map Connection.transaction =
      stored.block.transactions.take 1 := by
  obtain ⟨coinbase, regular, fees, u₁, htxs, -⟩ := h.body
  simp only [StoredBlock.connections, htxs, List.map_append, List.map_map, List.map_singleton,
    List.filter_append]
  have hmap : regular.map (Connection.transaction ∘ (⟨·, stored.height, false⟩)) = regular := by
    simp [Function.comp_def]
  have hfilter : (regular.map fun t => (⟨t, stored.height, false⟩ : Connection)).filter
      Connection.coinbase = [] := by simp
  rw [hmap, hfilter]
  exact ⟨List.perm_append_singleton .., rfl⟩

theorem Chain.perm {blocks : List StoredBlock} {u : UtxoSet} (h : Chain blocks u) :
    ∃ coinbase, coinbase.isCoinbase ∧ coinbase.txid = .ok testnetGenesisTxid ∧
      (coinbase :: (connections blocks).map Connection.transaction).Perm (allTransactions blocks) ∧
      coinbase :: ((connections blocks).filter Connection.coinbase).map Connection.transaction =
        coinbases blocks := by
  induction h using Chain.rec_connects with
  | genesis g hg =>
    obtain ⟨coinbase, htxs, htxid, hcb, -⟩ := hg.isGenesis.coinbase
    refine ⟨coinbase, hcb, htxid, ?_, ?_⟩ <;> simp [connections, allTransactions, coinbases, htxs]
  | block blocks previous stored u u' _ _ hconn ih =>
    obtain ⟨coinbase, hcb, htxid, hperm, hcoinbases⟩ := ih
    obtain ⟨hp, hc⟩ := hconn.perm
    refine ⟨coinbase, hcb, htxid, ?_, ?_⟩
    · rw [connections_snoc (by simp), List.map_append, ← List.cons_append]
      rw [allTransactions, List.flatMap_append, List.flatMap_singleton]
      exact hperm.append hp
    · rw [connections_snoc (by simp), List.filter_append, List.map_append, hc, ← List.cons_append,
        hcoinbases]
      simp [coinbases]

theorem Connection.mem_allTransactions {blocks : List StoredBlock} {u : UtxoSet}
    (h : Chain blocks u) {c : Connection} (hc : c ∈ connections blocks) :
    c.transaction ∈ allTransactions blocks := by
  obtain ⟨_, -, -, hperm, -⟩ := h.perm
  exact hperm.mem_iff.1 (List.mem_cons_of_mem _ (List.mem_map_of_mem hc))

omit [Crypto] in
theorem Transaction.canonical_of_isCoinbase {t : Transaction} (h : t.isCoinbase) : t.Canonical := by
  obtain ⟨script, sequence, hi⟩ := Transaction.isCoinbase_iff.1 h
  intro i him
  rw [hi, List.mem_singleton] at him
  subst him
  exact .zero

/-- What a connection creates is named by its identifier. -/
theorem Connection.creates_iff {c : Connection} {o : OutPoint} : c.batch.Creates o ↔
    o.txid = c.id ∧ ∃ n < c.transaction.outputs.length, o.index = UInt32.ofNat n := by
  simp only [Ledger.Batch.Creates, Connection.batch, Transaction.batch, newCoins, List.map_map,
    List.mem_map, Function.comp_apply]
  constructor
  · rintro ⟨⟨output, n⟩, hp, rfl⟩
    exact ⟨rfl, n, (List.getElem?_eq_some_iff.1 (List.mem_zipIdx_iff_getElem?.1 hp)).1, rfl⟩
  · rintro ⟨ht, n, hn, hi⟩
    refine ⟨(c.transaction.outputs[n], n), ?_, ?_⟩
    · exact List.mem_zipIdx_iff_getElem?.2 (List.getElem?_eq_getElem hn)
    · cases o; exact congrArg₂ OutPoint.mk ht.symm hi.symm

omit [Crypto] in
theorem Connection.spends_iff [Crypto] {c : Connection} {o : OutPoint} : c.batch.Spends o ↔
    c.coinbase = false ∧ o ∈ c.transaction.inputs.map TxInput.previousOutput := by
  simp only [Ledger.Batch.Spends, Connection.batch, Transaction.batch]
  cases c.coinbase <;> simp [Function.comp_def]

theorem Chain.canonical {blocks : List StoredBlock} {u : UtxoSet} (h : Chain blocks u) :
    ∀ c ∈ connections blocks, c.transaction.Canonical := by
  intro c hc
  have hok := h.connection c hc
  cases hcb : c.coinbase with
  | true => exact Transaction.canonical_of_isCoinbase (hok.isCoinbase.trans hcb)
  | false =>
    intro i hi
    obtain ⟨pre, post, hsplit⟩ := List.append_of_mem hc
    have hrun := h.run_replay
    rw [replay, hsplit, List.map_append, List.map_cons] at hrun
    have hspend : c.batch.Spends i.previousOutput :=
      Connection.spends_iff.2 ⟨hcb, List.mem_map_of_mem hi⟩
    obtain ⟨b, hb, hcreate⟩ := Ledger.Batch.creator_before hrun hspend
    obtain ⟨d, -, rfl⟩ := List.mem_map.1 hb
    rw [(Connection.creates_iff.1 hcreate).1]
    exact .display _

/-- Connections of one identifier connect the same transaction. -/
theorem Chain.transaction_eq {blocks : List StoredBlock} {u : UtxoSet} (h : Chain blocks u)
    (hinj : NoCollision (allTransactions blocks)) {c d : Connection} (hc : c ∈ connections blocks)
    (hd : d ∈ connections blocks) (hid : c.id = d.id) : c.transaction = d.transaction :=
  Transaction.encode_inj (h.connection c hc).wellFormed (h.canonical c hc)
    (h.connection d hd).wellFormed (h.canonical d hd)
    (hinj.encode_eq (c.mem_allTransactions h hc) (d.mem_allTransactions h hd) hid)

/-- The connections of a chain, labelled with their identifiers. -/
theorem Chain.labelled {blocks : List StoredBlock} {u : UtxoSet} (h : Chain blocks u)
    (hinj : NoCollision (allTransactions blocks)) :
    Ledger.Labelled Spendable (connections blocks) Connection.batch Connection.id where
  run := ⟨_, h.run_replay⟩
  spends c hc d hd hid o hspend := by
    have ht := h.transaction_eq hinj hc hd hid
    have hcb := (h.connection c hc).isCoinbase
    rw [ht, (h.connection d hd).isCoinbase] at hcb
    rw [Connection.spends_iff, ← hcb, ht] at hspend
    exact Connection.spends_iff.2 hspend
  creates c _ d _ o hc hd := by
    rw [← (Connection.creates_iff.1 hc).1, (Connection.creates_iff.1 hd).1]

/-- A regular connection spends something. -/
theorem Chain.spends {blocks : List StoredBlock} {u : UtxoSet} (h : Chain blocks u)
    {c : Connection} (hc : c ∈ connections blocks) (hcb : c.coinbase = false) :
    ∃ o, c.batch.Spends o := by
  obtain ⟨i, hi⟩ := List.exists_mem_of_ne_nil _ (h.connection c hc).wellFormed.inputs_ne
  exact ⟨i.previousOutput, Connection.spends_iff.2 ⟨hcb, List.mem_map_of_mem hi⟩⟩

/-- Where no two coinbases share an identifier, no two transactions do. -/
theorem Chain.nodup_of_coinbases {blocks : List StoredBlock} {u : UtxoSet} (h : Chain blocks u)
    (hinj : NoCollision (allTransactions blocks))
    (hcbs : ((coinbases blocks).map Transaction.id).Nodup) :
    ((allTransactions blocks).map Transaction.id).Nodup := by
  obtain ⟨g, hgcb, hgtxid, hperm, hcoinbases⟩ := h.perm
  rw [← hcoinbases, List.map_cons, List.nodup_cons, List.map_map] at hcbs
  rw [← (hperm.map Transaction.id).nodup_iff, List.map_cons, List.nodup_cons, List.map_map]
  refine ⟨fun hmem => ?_, ?_⟩
  · -- a connection with the identifier of the genesis coinbase connects a coinbase
    obtain ⟨c, hc, hid⟩ := List.mem_map.1 hmem
    have hgmem : g ∈ allTransactions blocks := hperm.mem_iff.1 List.mem_cons_self
    have ht : c.transaction = g := Transaction.encode_inj (h.connection c hc).wellFormed
      (h.canonical c hc) (Transaction.txid_ok.1 hgtxid).1
      (Transaction.canonical_of_isCoinbase hgcb)
      (hinj.encode_eq (c.mem_allTransactions h hc) hgmem hid)
    have hcb : c.coinbase := (h.connection c hc).isCoinbase ▸ ht ▸ hgcb
    exact hcbs.1 (List.mem_map.2 ⟨c, List.mem_filter.2 ⟨hc, hcb⟩, hid⟩)
  · have hpair := List.pairwise_filter.1 (List.pairwise_map.1 hcbs.2)
    refine List.pairwise_map.2 (List.pairwise_iff_getElem.2 fun i j hi hj hij => ?_)
    have hroot : ∀ (i j : ℕ) (c d : Connection), i < j → (connections blocks)[i]? = some c →
        (connections blocks)[j]? = some d → c.id = d.id → ∃ o, c.batch.Spends o := by
      intro i j c d hij hc hd hid
      have hcm := List.mem_of_getElem? hc
      have hdm := List.mem_of_getElem? hd
      refine h.spends hcm ?_
      by_contra hcb
      have ht := h.transaction_eq hinj hcm hdm hid
      have hdb : d.coinbase = c.coinbase := by
        rw [← (h.connection d hdm).isCoinbase, ← ht, (h.connection c hcm).isCoinbase]
      obtain ⟨hi, rfl⟩ := List.getElem?_eq_some_iff.1 hc
      obtain ⟨hj, rfl⟩ := List.getElem?_eq_some_iff.1 hd
      exact List.pairwise_iff_getElem.1 hpair i j hi hj hij (by simpa using hcb)
        (by rw [hdb]; simpa using hcb) hid
    exact (h.labelled hinj).label_inj hroot hij (List.getElem?_eq_getElem hi)
      (List.getElem?_eq_getElem hj)

/-- Between two connections of one identifier every output of the first is spent. -/
theorem Chain.spent_between {blocks : List StoredBlock} {u : UtxoSet} (h : Chain blocks u)
    (hinj : NoCollision (allTransactions blocks)) {i j : ℕ} {c d : Connection} (hij : i < j)
    (hc : (connections blocks)[i]? = some c) (hd : (connections blocks)[j]? = some d)
    (hid : c.id = d.id) {n : ℕ} (hn : n < c.transaction.outputs.length) :
    ∃ (l : ℕ) (e : Connection), i < l ∧ l < j ∧ (connections blocks)[l]? = some e ∧
      e.coinbase = false ∧
      ⟨c.id, UInt32.ofNat n⟩ ∈ e.transaction.inputs.map TxInput.previousOutput := by
  have hlab := h.labelled hinj
  have hcm := List.mem_of_getElem? hc
  have hdm := List.mem_of_getElem? hd
  have hcreate : c.batch.Creates ⟨c.id, UInt32.ofNat n⟩ := Connection.creates_iff.2 ⟨rfl, n, hn, rfl⟩
  have hcreate' : d.batch.Creates ⟨c.id, UInt32.ofNat n⟩ := by
    rw [h.transaction_eq hinj hcm hdm hid] at hn
    exact Connection.creates_iff.2 ⟨hid, n, hn, rfl⟩
  obtain ⟨l, e, hil, hlj, he, hspend⟩ := hlab.spender_between hij hc hd hcreate hcreate'
  obtain ⟨hecb, hmem⟩ := Connection.spends_iff.1 hspend
  rcases Nat.lt_or_eq_of_le hlj with hlt | rfl
  · exact ⟨l, e, hil, hlt, he, hecb, hmem⟩
  · rw [hd] at he
    cases he
    exact absurd hspend (hlab.not_spends_own hdm hcreate')

/-- **Transaction identifiers**: those of an accepted chain are pairwise different exactly when
    those of its coinbases are, and one repeats one above the genesis block only after every
    output of the earlier transaction has been spent. -/
theorem txids_unique_iff {blocks : List StoredBlock} (h : verifyBlocks blocks = .ok ())
    (hinj : NoCollision (allTransactions blocks)) :
    (∀ t ∈ allTransactions blocks, t.txid = .ok t.id) ∧
    (((allTransactions blocks).map Transaction.id).Nodup ↔
      ((coinbases blocks).map Transaction.id).Nodup) ∧
    ∀ (i j : ℕ) (c d : Connection), i < j → (connections blocks)[i]? = some c →
      (connections blocks)[j]? = some d → c.id = d.id → ∀ n < c.transaction.outputs.length,
      ∃ (l : ℕ) (e : Connection), i < l ∧ l < j ∧ (connections blocks)[l]? = some e ∧
        e.coinbase = false ∧
        ⟨c.id, UInt32.ofNat n⟩ ∈ e.transaction.inputs.map TxInput.previousOutput := by
  obtain ⟨u, hc⟩ := verifyBlocks_iff.1 h
  refine ⟨fun t ht => ?_, ⟨fun hnodup => hnodup.sublist ?_, hc.nodup_of_coinbases hinj⟩,
    fun i j c d hij hi hj hid n hn => hc.spent_between hinj hij hi hj hid hn⟩
  · obtain ⟨g, -, hgtxid, hperm, -⟩ := hc.perm
    rcases List.mem_cons.1 (hperm.mem_iff.2 ht) with rfl | hmem
    · exact Transaction.txid_ok.2 ⟨(Transaction.txid_ok.1 hgtxid).1, rfl⟩
    · obtain ⟨c, hcm, rfl⟩ := List.mem_map.1 hmem
      exact Transaction.txid_ok.2 ⟨(hc.connection c hcm).wellFormed, rfl⟩
  · exact (coinbases_sublist blocks).map _

omit [Crypto] in
theorem noCollision_repeated :
    @NoCollision (.ofTable repeatedDigests) (allTransactions [genesisStored, repeatedCoinbase]) := by
  have hsame : ∀ t ∈ allTransactions [genesisStored, repeatedCoinbase], t = genesisCoinbase := by
    decide
  rintro _ ⟨t, ht, rfl⟩ _ ⟨t', ht', rfl⟩ -
  rw [hsame t ht, hsame t' ht']

omit [Crypto] in
theorem txids_unique_iff_repeated :
    (((allTransactions [genesisStored, repeatedCoinbase]).map
        (@Transaction.id (.ofTable repeatedDigests))).Nodup ↔
      ((coinbases [genesisStored, repeatedCoinbase]).map
        (@Transaction.id (.ofTable repeatedDigests))).Nodup) :=
  (@txids_unique_iff (.ofTable repeatedDigests) _ repeated_accepted noCollision_repeated).2.1

omit [Crypto] in
/-- The genesis coinbase can be connected again: its outputs never enter the set of unspent
    outputs, and nothing ties a coinbase to its height. -/
theorem txids_repeat :
    @verifyBlocks (.ofTable repeatedDigests) [genesisStored, repeatedCoinbase] = .ok () ∧
    @NoCollision (.ofTable repeatedDigests) (allTransactions [genesisStored, repeatedCoinbase]) ∧
    (allTransactions [genesisStored, repeatedCoinbase]).map
        (@Transaction.txid (.ofTable repeatedDigests)) =
      [.ok testnetGenesisTxid, .ok testnetGenesisTxid] :=
  ⟨repeated_accepted, noCollision_repeated, by decide +kernel⟩

end BinaryCoin
