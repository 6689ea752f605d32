/-
  BinaryCoin — the hash of the last block determines the chain.

  Two headers with one hash are equal, so their Merkle roots are; by
  `Merkle.eq_or_hasSquare_of_root` the transaction lists are equal or one
  repeats a block of transactions at once, which the spending rules exclude
  (`Ledger.Labelled.no_square`); and the previous hashes are equal, so the
  argument goes on with the blocks below, down to the genesis block.
-/
import BinaryCoin.Replay

namespace BinaryCoin

open Cursor

variable [Crypto]

/-- The digests at the leaves of a block's Merkle tree. -/
def merkleLeaves (transactions : List Transaction) : List Hash256 :=
  transactions.map fun t => sha256d t.encode

/-- The strings that are hashed for the inner nodes of a block's Merkle tree. -/
def merkleStrings (transactions : List Transaction) : List Bytes :=
  (Merkle.joins merkleNode (merkleLeaves transactions)).map fun p => p.1.bytes ++ p.2.bytes

/-- All strings that are hashed to check a chain: headers, transactions, Merkle nodes. -/
def hashedStrings (blocks : List StoredBlock) : List Bytes :=
  blocks.flatMap fun stored => stored.block.header.encode ::
    (stored.block.transactions.map Transaction.encode ++ merkleStrings stored.block.transactions)

/-! ## One block -/

/-- What is known of the header and the transactions of a block in an accepted chain. -/
structure StoredBlock.Canonical (stored : StoredBlock) : Prop where
  header : stored.block.header.Canonical
  transactions : ∀ t ∈ stored.block.transactions, t.Structure ∧ t.Canonical

omit [Crypto] in
theorem testnetGenesisMerkle_isDisplayHex : IsDisplayHex testnetGenesisMerkle :=
  ⟨Hash256.ofBytes (wireOf testnetGenesisMerkle), by decide +kernel⟩

theorem Chain.transaction {blocks : List StoredBlock} {u : UtxoSet} (h : Chain blocks u) :
    ∀ t ∈ allTransactions blocks, t.Structure ∧ t.Canonical := by
  intro t ht
  obtain ⟨g, hgcb, hgtxid, hperm, -⟩ := h.perm
  rcases List.mem_cons.1 (hperm.mem_iff.2 ht) with rfl | hmem
  · exact ⟨(Transaction.txid_ok.1 hgtxid).1, Transaction.canonical_of_isCoinbase hgcb⟩
  · obtain ⟨c, hc, rfl⟩ := List.mem_map.1 hmem
    exact ⟨(h.connection c hc).wellFormed, h.canonical c hc⟩

theorem Chain.header_canonical {blocks : List StoredBlock} {u : UtxoSet} (h : Chain blocks u) :
    ∀ stored ∈ blocks, stored.block.header.Canonical := by
  induction h using Chain.rec_connects with
  | genesis g hg =>
    intro stored hs
    obtain rfl := List.mem_singleton.1 hs
    have hg := hg.isGenesis
    exact ⟨hg.previousHash ▸ .zero, hg.merkleRoot ▸ testnetGenesisMerkle_isDisplayHex⟩
  | block blocks previous stored u u' _ _ hconn ih =>
    intro s hs
    rcases List.mem_append.1 hs with hs | hs
    · exact ih s hs
    · obtain rfl := List.mem_singleton.1 hs
      obtain ⟨-, r, -, hr⟩ := merkleRootHex_ok.1 hconn.merkle
      exact ⟨BlockHeader.hashHex_isDisplayHex hconn.link, hr ▸ .display r⟩

theorem Chain.stored_canonical {blocks : List StoredBlock} {u : UtxoSet} (h : Chain blocks u) :
    ∀ stored ∈ blocks, stored.Canonical := fun stored hs =>
  ⟨h.header_canonical stored hs, fun t ht => h.transaction t (List.mem_flatMap.2 ⟨stored, hs, ht⟩)⟩

/-- A header of an accepted chain has a hash. -/
theorem StoredBlock.Canonical.hashHex {stored : StoredBlock} (h : stored.Canonical) :
    stored.hashHex = .ok (hashToDisplayHex (sha256d stored.block.header.encode)) :=
  BlockHeader.hashHex_ok.2 ⟨⟨_, h.header.serialize⟩, rfl⟩

/-- Headers with one hash are equal, where the hash has no collision. -/
theorem header_eq_of_hash {S : Set Bytes} (hinj : Set.InjOn sha256d S) {a b : StoredBlock}
    (ha : a.Canonical) (hb : b.Canonical) (haS : a.block.header.encode ∈ S)
    (hbS : b.block.header.encode ∈ S) (h : a.hashHex = b.hashHex) :
    a.block.header = b.block.header := by
  rw [ha.hashHex, hb.hashHex] at h
  exact BlockHeader.encode_inj ha.header hb.header
    (hinj haS hbS (hashToDisplayHex_inj (Except.ok.inj h)))

/-! ## No block repeats a part of its transactions at once -/

omit [Crypto] in
/-- Where a block of an accepted chain sits among the connections. -/
theorem connections_of_mem {blocks : List StoredBlock} {stored : StoredBlock}
    (hs : stored ∈ blocks.tail) : ∃ before after,
    connections blocks = before ++ stored.connections ++ after := by
  obtain ⟨l₁, l₂, hl⟩ := List.append_of_mem hs
  exact ⟨l₁.flatMap StoredBlock.connections, l₂.flatMap StoredBlock.connections,
    by simp [connections, hl]⟩

theorem Chain.connects_of_mem {blocks : List StoredBlock} {u : UtxoSet} (h : Chain blocks u) :
    ∀ stored ∈ blocks.tail, ∃ previous index u₁ u₂, Connects previous index stored u₁ u₂ := by
  induction h using Chain.rec_connects with
  | genesis g _ => simp
  | block blocks previous stored u u' _ _ hconn ih =>
    intro s hs
    rw [List.tail_append_of_ne_nil (by simp), List.mem_append] at hs
    rcases hs with hs | hs
    · exact ih s hs
    · obtain rfl := List.mem_singleton.1 hs
      exact ⟨_, _, _, _, hconn⟩

/-- **The spending rules exclude the mutated lists** that the duplicated last leaf would allow. -/
theorem Chain.no_square {blocks : List StoredBlock} {u : UtxoSet} (h : Chain blocks u)
    (hinj : NoCollision (allTransactions blocks)) {stored : StoredBlock}
    (hs : stored ∈ blocks.tail) :
    ¬ Merkle.HasSquare (stored.block.transactions.map Transaction.id) := by
  rintro ⟨pre, sq, post, hne, hsq⟩
  obtain ⟨before, after, hconns⟩ := connections_of_mem hs
  obtain ⟨_, _, _, _, hconn⟩ := h.connects_of_mem stored hs
  obtain ⟨coinbase, regular, -, -, htxs, hcb, -⟩ := hconn.body
  have hmk : stored.connections =
      regular.map (⟨·, stored.height, false⟩) ++ [⟨coinbase, stored.height, true⟩] := by
    simp only [StoredBlock.connections, htxs]
  rw [htxs, List.map_cons] at hsq
  cases pre with
  | nil =>
    -- the coinbase would occur again among the regular transactions
    obtain ⟨x, sq', rfl⟩ := List.exists_cons_of_ne_nil hne
    simp only [List.nil_append, List.cons_append, List.cons.injEq] at hsq
    obtain ⟨rfl, hreg⟩ := hsq
    obtain ⟨t, ht, hid⟩ : ∃ t ∈ regular, t.id = coinbase.id := by
      rw [← List.mem_map, hreg]; simp
    have hc : (⟨coinbase, stored.height, true⟩ : Connection) ∈ connections blocks := by
      rw [hconns, hmk]; simp
    have hd : (⟨t, stored.height, false⟩ : Connection) ∈ connections blocks := by
      rw [hconns, hmk]; simp [ht]
    have heq : t = coinbase := h.transaction_eq hinj hd hc hid
    have hncb := (h.connection _ hd).isCoinbase
    rw [heq, hcb] at hncb
    cases hncb
  | cons _ pre =>
    simp only [List.cons_append, List.cons.injEq] at hsq
    obtain ⟨-, hreg⟩ := hsq
    rw [List.append_assoc, List.append_assoc] at hreg
    obtain ⟨r₁, r₂, rfl, -, h₂⟩ := List.map_eq_append_iff.1 hreg
    obtain ⟨r₃, r₄, rfl, h₃, h₄⟩ := List.map_eq_append_iff.1 h₂
    obtain ⟨r₅, r₆, rfl, h₅, -⟩ := List.map_eq_append_iff.1 h₄
    have hmem : ∀ t ∈ r₃, (⟨t, stored.height, false⟩ : Connection) ∈ connections blocks := by
      intro t ht
      rw [hconns, hmk]; simp [ht]
    have hcut : connections blocks = (before ++ r₁.map (⟨·, stored.height, false⟩)) ++
        r₃.map (⟨·, stored.height, false⟩) ++ r₅.map (⟨·, stored.height, false⟩) ++
        (r₆.map (⟨·, stored.height, false⟩) ++ [⟨coinbase, stored.height, true⟩] ++ after) := by
      rw [hconns, hmk]; simp
    have hlabel : (r₃.map (⟨·, stored.height, false⟩)).map Connection.id =
        (r₅.map (⟨·, stored.height, false⟩)).map Connection.id := by
      simpa [Function.comp_def, Connection.id, h₃] using h₅.symm
    have hnil := (h.labelled hinj).no_square hcut hlabel fun c hc => by
      obtain ⟨t, ht, rfl⟩ := List.mem_map.1 hc
      exact h.spends (hmem t ht) rfl
    rw [List.map_eq_nil_iff] at hnil
    subst hnil
    exact hne (by simpa using h₃.symm)

/-! ## The chain below a hash -/

/-- What the hash must satisfy on one chain: its strings are in `S`, where there is no collision,
    and no transaction is serialized as two digests in a row. -/
structure Hashed (S : Set Bytes) (blocks : List StoredBlock) : Prop where
  strings : ∀ b ∈ hashedStrings blocks, b ∈ S
  leaf : ∀ t ∈ allTransactions blocks, ∀ x y, t.encode ≠ (sha256d x).bytes ++ (sha256d y).bytes

theorem Hashed.prefix {S : Set Bytes} {blocks rest : List StoredBlock}
    (h : Hashed S (blocks ++ rest)) : Hashed S blocks where
  strings b hb := h.strings b (by
    rw [hashedStrings, List.flatMap_append]; exact List.mem_append_left _ hb)
  leaf t ht := h.leaf t (by
    rw [allTransactions, List.flatMap_append]; exact List.mem_append_left _ ht)

theorem Hashed.header {S : Set Bytes} {blocks : List StoredBlock} (h : Hashed S blocks)
    {stored : StoredBlock} (hs : stored ∈ blocks) : stored.block.header.encode ∈ S :=
  h.strings _ (List.mem_flatMap.2 ⟨stored, hs, by simp⟩)

theorem Hashed.transaction {S : Set Bytes} {blocks : List StoredBlock} (h : Hashed S blocks) :
    ∀ t ∈ allTransactions blocks, t.encode ∈ S := fun t ht => by
  obtain ⟨stored, hs, hmem⟩ := List.mem_flatMap.1 ht
  exact h.strings _ (List.mem_flatMap.2 ⟨stored, hs, by simp; exact .inr (.inl ⟨t, hmem, rfl⟩)⟩)

theorem Hashed.merkle {S : Set Bytes} {blocks : List StoredBlock} (h : Hashed S blocks)
    {stored : StoredBlock} (hs : stored ∈ blocks) :
    ∀ b ∈ merkleStrings stored.block.transactions, b ∈ S := fun b hb =>
  h.strings _ (List.mem_flatMap.2 ⟨stored, hs, by simp [hb]⟩)

theorem Hashed.noCollision {S : Set Bytes} (hinj : Set.InjOn sha256d S) {blocks : List StoredBlock}
    (h : Hashed S blocks) : NoCollision (allTransactions blocks) :=
  hinj.mono (by rintro _ ⟨t, ht, rfl⟩; exact h.transaction t ht)

omit [Crypto] in
theorem bytes_append_inj {a b c d : Hash256} (h : a.bytes ++ b.bytes = c.bytes ++ d.bytes) :
    a = c ∧ b = d := by
  obtain ⟨h₁, h₂⟩ := List.append_inj h (by rw [a.size_eq, c.size_eq])
  exact ⟨Hash256.ext h₁, Hash256.ext h₂⟩

/-- The digests that are joined in a block's Merkle tree are values of the hash. -/
theorem joins_digests {transactions : List Transaction} :
    ∀ p ∈ Merkle.joins merkleNode (merkleLeaves transactions),
      (∃ x, p.1 = sha256d x) ∧ ∃ y, p.2 = sha256d y := by
  refine Merkle.forall_joinsFrom (P := fun h => ∃ x, h = sha256d x) merkleNode
    (fun a b => ⟨_, rfl⟩) fun x hx => ?_
  obtain ⟨t, -, rfl⟩ := List.mem_map.1 hx
  exact ⟨_, rfl⟩

theorem merkleLeaves_inj {S : Set Bytes} (hinj : Set.InjOn sha256d S)
    {ts ts' : List Transaction} (ht : ∀ t ∈ ts, (t.Structure ∧ t.Canonical) ∧ t.encode ∈ S)
    (ht' : ∀ t ∈ ts', (t.Structure ∧ t.Canonical) ∧ t.encode ∈ S)
    (h : merkleLeaves ts = merkleLeaves ts') : ts = ts' := by
  have hf : Set.InjOn (fun t : Transaction => sha256d t.encode)
      {t | (t.Structure ∧ t.Canonical) ∧ t.encode ∈ S} := fun t hm t' hm' he =>
    Transaction.encode_inj hm.1.1 hm.1.2 hm'.1.1 hm'.1.2 (hinj hm.2 hm'.2 he)
  exact Merkle.map_inj_of_injOn hf ht ht' h

/-- **Two blocks of accepted chains with one Merkle root have the same transactions.** -/
theorem transactions_eq_of_merkle {S : Set Bytes} (hinj : Set.InjOn sha256d S)
    {A B : List StoredBlock} {uA uB : UtxoSet} (hA : Chain A uA) (hB : Chain B uB)
    (hSA : Hashed S A) (hSB : Hashed S B) {a b : StoredBlock} (ha : a ∈ A.tail) (hb : b ∈ B.tail)
    (h : a.block.header.merkleRoot = b.block.header.merkleRoot) :
    a.block.transactions = b.block.transactions := by
  have hamem := List.mem_of_mem_tail ha
  have hbmem := List.mem_of_mem_tail hb
  obtain ⟨_, _, _, _, hca⟩ := hA.connects_of_mem a ha
  obtain ⟨_, _, _, _, hcb⟩ := hB.connects_of_mem b hb
  obtain ⟨-, r, hr, hra⟩ := merkleRootHex_ok.1 hca.merkle
  obtain ⟨-, r', hr', hrb⟩ := merkleRootHex_ok.1 hcb.merkle
  have hroot : r = r' := hashToDisplayHex_inj (by rw [← hra, h, hrb])
  have hne : ∀ {ts : List Transaction} {r : Hash256},
      Merkle.root merkleNode (merkleLeaves ts) = some r → merkleLeaves ts ≠ [] := by
    intro ts r hr he
    rw [he] at hr; cases hr
  have hjoin : ∀ p, p ∈ Merkle.joins merkleNode (merkleLeaves a.block.transactions) ∨
      p ∈ Merkle.joins merkleNode (merkleLeaves b.block.transactions) →
      p.1.bytes ++ p.2.bytes ∈ S := by
    rintro p (hp | hp)
    · exact hSA.merkle hamem _ (List.mem_map.2 ⟨p, hp, rfl⟩)
    · exact hSB.merkle hbmem _ (List.mem_map.2 ⟨p, hp, rfl⟩)
  have hta : ∀ t ∈ a.block.transactions, t ∈ allTransactions A := fun t ht =>
    List.mem_flatMap.2 ⟨a, hamem, ht⟩
  have htb : ∀ t ∈ b.block.transactions, t ∈ allTransactions B := fun t ht =>
    List.mem_flatMap.2 ⟨b, hbmem, ht⟩
  have hleaf : ∀ x ∈ merkleLeaves a.block.transactions ++ merkleLeaves b.block.transactions, ∀ p,
      p ∈ Merkle.joins merkleNode (merkleLeaves a.block.transactions) ∨
      p ∈ Merkle.joins merkleNode (merkleLeaves b.block.transactions) →
      merkleNode p.1 p.2 ≠ x := by
    intro x hx p hp he
    obtain ⟨⟨y, hy⟩, z, hz⟩ : (∃ y, p.1 = sha256d y) ∧ ∃ z, p.2 = sha256d z :=
      hp.elim (joins_digests p) (joins_digests p)
    rw [List.mem_append, merkleLeaves, merkleLeaves, List.mem_map, List.mem_map] at hx
    rcases hx with ⟨t, ht, rfl⟩ | ⟨t, ht, rfl⟩
    · have := hinj (hjoin p hp) (hSA.transaction t (hta t ht)) he
      exact hSA.leaf t (hta t ht) y z (by rw [← this, hy, hz])
    · have := hinj (hjoin p hp) (hSB.transaction t (htb t ht)) he
      exact hSB.leaf t (htb t ht) y z (by rw [← this, hy, hz])
  have hnode : Set.InjOn (fun p : Hash256 × Hash256 => merkleNode p.1 p.2)
      {p | p ∈ Merkle.joins merkleNode (merkleLeaves a.block.transactions) ∨
        p ∈ Merkle.joins merkleNode (merkleLeaves b.block.transactions)} := by
    intro p hp q hq he
    obtain ⟨h₁, h₂⟩ := bytes_append_inj (hinj (hjoin p hp) (hjoin q hq) he)
    exact Prod.ext h₁ h₂
  have hid : ∀ ts : List Transaction, Merkle.HasSquare (merkleLeaves ts) →
      Merkle.HasSquare (ts.map Transaction.id) := fun ts hsq => by
    have := hsq.map hashToDisplayHex
    rw [merkleLeaves, List.map_map] at this
    exact this
  rcases Merkle.eq_or_hasSquare_of_root merkleNode (hne hr) (hne hr') hnode hleaf
    (by rw [merkleLeaves, merkleLeaves, hr, hr', hroot]) with he | hsq | hsq
  · exact merkleLeaves_inj hinj
      (fun t ht => ⟨hA.transaction t (hta t ht), hSA.transaction t (hta t ht)⟩)
      (fun t ht => ⟨hB.transaction t (htb t ht), hSB.transaction t (htb t ht)⟩) he
  · exact absurd (hid _ hsq) (hA.no_square (hSA.noCollision hinj) ha)
  · exact absurd (hid _ hsq) (hB.no_square (hSB.noCollision hinj) hb)

/-- The last block of a chain: the genesis block, or a block connected to the chain below. -/
theorem Chain.last_cases {blocks : List StoredBlock} {u : UtxoSet} (h : Chain blocks u) :
    (∃ g, blocks = [g] ∧ GenesisOk g) ∨
    ∃ below previous stored u₁, blocks = below ++ [previous] ++ [stored] ∧
      Chain (below ++ [previous]) u₁ ∧
      Connects previous (below ++ [previous]).length stored u₁ u := by
  cases h with
  | genesis ok => exact .inl ⟨_, rfl, ok⟩
  | @block blocks previous stored u₁ _ chain ok =>
    exact .inr ⟨blocks, previous, stored, u₁, by simp, chain, by simpa using (verifyBlock_ok ok).1⟩

/-- A block above the genesis block does not have the hash of the genesis block: its time is
    later. -/
theorem Chain.hash_ne_genesis {S : Set Bytes} (hinj : Set.InjOn sha256d S)
    {below : List StoredBlock} {previous stored : StoredBlock} {u : UtxoSet}
    (h : Chain (below ++ [previous] ++ [stored]) u)
    (hS : Hashed S (below ++ [previous] ++ [stored])) :
    stored.hashHex ≠ .ok testnetGenesisHash := by
  intro he
  obtain ⟨g, rest, hcons, hg⟩ := h.genesis_head
  have hgmem : g ∈ below ++ [previous] ++ [stored] := hcons ▸ List.mem_cons_self
  have hsmem : stored ∈ below ++ [previous] ++ [stored] := by simp
  have hheader := header_eq_of_hash hinj (h.stored_canonical g hgmem)
    (h.stored_canonical stored hsmem) (hS.header hgmem) (hS.header hsmem)
    (hg.isGenesis.hash.trans he.symm)
  -- the genesis block is the first one, `stored` the last of at least two
  have htimes := h.times
  rw [hcons] at htimes
  have hlast : stored ∈ rest := by
    have : stored = (g :: rest).getLast (by simp) := by simp [← hcons]
    cases rest with
    | nil => have := congrArg List.length hcons; simp at this
    | cons x xs => rw [this, List.getLast_cons (by simp)]; exact List.getLast_mem _
  rw [List.map_cons, List.pairwise_cons] at htimes
  have hlt := htimes.1 _ (List.mem_map_of_mem hlast)
  rw [hheader] at hlt
  exact absurd hlt (UInt32.lt_irrefl _)

/-- Chains whose last blocks have one hash. -/
theorem chain_eq_of_last {S : Set Bytes} (hinj : Set.InjOn sha256d S) {A B : List StoredBlock}
    {uA uB : UtxoSet} (hA : Chain A uA) (hB : Chain B uB) (hSA : Hashed S A) (hSB : Hashed S B)
    (h : A.getLast?.map StoredBlock.hashHex = B.getLast?.map StoredBlock.hashHex) : A = B := by
  induction hA using Chain.rec_connects generalizing B uB with
  | genesis g hg =>
    rcases hB.last_cases with ⟨g', rfl, hg'⟩ | ⟨below, previous, stored, u₁, rfl, -, -⟩
    · have hheader : g.block.header = g'.block.header :=
        header_eq_of_hash hinj ((Chain.genesis hg).stored_canonical g (by simp))
          (hB.stored_canonical g' (by simp)) (hSA.header (by simp)) (hSB.header (by simp))
          (by simpa using h)
      obtain ⟨c, htxs, htxid, -⟩ := hg.isGenesis.coinbase
      obtain ⟨c', htxs', htxid', -⟩ := hg'.isGenesis.coinbase
      have hmem : c ∈ allTransactions [g] := by simp [allTransactions, htxs]
      have hmem' : c' ∈ allTransactions [g'] := by simp [allTransactions, htxs']
      have hid : c.id = c'.id := by
        rw [← (Transaction.txid_ok.1 htxid).2, (Transaction.txid_ok.1 htxid').2]
      have hc := (Chain.genesis hg).transaction c hmem
      have hc' := hB.transaction c' hmem'
      have heq : c = c' := Transaction.encode_inj hc.1 hc.2 hc'.1 hc'.2
        (hinj (hSA.transaction c hmem) (hSB.transaction c' hmem') (hashToDisplayHex_inj hid))
      have hblock : g.block = g'.block := by
        cases hb : g.block; cases hb' : g'.block
        simp only [hb, hb'] at hheader htxs htxs'
        rw [hheader, htxs, htxs', heq]
      have hheight : g.height = g'.height := by rw [hg.isGenesis.height, hg'.isGenesis.height]
      cases g; cases g'
      simp only at hblock hheight
      rw [hblock, hheight]
    · refine absurd ?_ (hB.hash_ne_genesis hinj hSB)
      have := hg.isGenesis.hash
      simp only [List.getLast?_singleton, Option.map_some, List.getLast?_append, Option.some_or,
        Option.some.injEq] at h
      rw [← h, this]
  | block below previous stored u u' hc hc' hconn ih =>
    rcases hB.last_cases with ⟨g', rfl, hg'⟩ | ⟨below', previous', stored', u₁, rfl, hB', hconn'⟩
    · refine absurd ?_ (hc'.hash_ne_genesis hinj hSA)
      have := hg'.isGenesis.hash
      simp only [List.getLast?_singleton, Option.map_some, List.getLast?_append, Option.some_or,
        Option.some.injEq] at h
      rw [h, this]
    · have hheader : stored.block.header = stored'.block.header :=
        header_eq_of_hash hinj (hc'.stored_canonical stored (by simp))
          (hB.stored_canonical stored' (by simp)) (hSA.header (by simp)) (hSB.header (by simp))
          (by simpa using h)
      have hbelow : below ++ [previous] = below' ++ [previous'] := by
        refine ih hB' hSA.prefix hSB.prefix ?_
        simp only [List.getLast?_append, List.getLast?_singleton, Option.some_or, Option.map_some]
        rw [hconn.link, hconn'.link, hheader]
      have htail : stored ∈ (below ++ [previous] ++ [stored]).tail := by
        rw [List.tail_append_of_ne_nil (by simp)]; simp
      have htail' : stored' ∈ (below' ++ [previous'] ++ [stored']).tail := by
        rw [List.tail_append_of_ne_nil (by simp)]; simp
      have htxs := transactions_eq_of_merkle hinj hc' hB hSA hSB htail htail' (by rw [hheader])
      have hheight : stored.height = stored'.height := by
        apply UInt64.toNat_inj.1
        rw [hconn.height, hconn'.height, hbelow]
      have hstored : stored = stored' := by
        obtain ⟨_, header, txs⟩ := stored
        obtain ⟨_, header', txs'⟩ := stored'
        simp only at hheader htxs hheight
        rw [hheader, htxs, hheight]
      rw [hbelow, hstored]

/-- **The tip hash commits to the whole chain**: accepted chains whose last blocks have one hash
    are equal, where the hash has no collision among the strings hashed for them and no transaction
    is serialized as two digests in a row. -/
theorem tip_hash_commits {A B : List StoredBlock} (hA : verifyBlocks A = .ok ())
    (hB : verifyBlocks B = .ok ())
    (hinj : Set.InjOn sha256d {b | b ∈ hashedStrings A ∨ b ∈ hashedStrings B})
    (hleaf : ∀ t, t ∈ allTransactions A ∨ t ∈ allTransactions B →
      ∀ x y, t.encode ≠ (sha256d x).bytes ++ (sha256d y).bytes)
    (h : A.getLast?.map StoredBlock.hashHex = B.getLast?.map StoredBlock.hashHex) : A = B := by
  obtain ⟨uA, hcA⟩ := verifyBlocks_iff.1 hA
  obtain ⟨uB, hcB⟩ := verifyBlocks_iff.1 hB
  exact chain_eq_of_last hinj hcA hcB ⟨fun b hb => .inl hb, fun t ht => hleaf t (.inl ht)⟩
    ⟨fun b hb => .inr hb, fun t ht => hleaf t (.inr ht)⟩ h

omit [Crypto] in
theorem tip_hash_commits_repeated :
    Set.InjOn (@sha256d (.ofTable repeatedDigests))
      {b | b ∈ @hashedStrings (.ofTable repeatedDigests) [genesisStored, repeatedCoinbase] ∨
        b ∈ @hashedStrings (.ofTable repeatedDigests) [genesisStored, repeatedCoinbase]} ∧
    [genesisStored, repeatedCoinbase] = [genesisStored, repeatedCoinbase] := by
  have hinj : ∀ x ∈ @hashedStrings (.ofTable repeatedDigests) [genesisStored, repeatedCoinbase],
      ∀ y ∈ @hashedStrings (.ofTable repeatedDigests) [genesisStored, repeatedCoinbase],
        @sha256d (.ofTable repeatedDigests) x = @sha256d (.ofTable repeatedDigests) y → x = y := by
    decide +kernel
  have hinj' : Set.InjOn (@sha256d (.ofTable repeatedDigests))
      {b | b ∈ @hashedStrings (.ofTable repeatedDigests) [genesisStored, repeatedCoinbase] ∨
        b ∈ @hashedStrings (.ofTable repeatedDigests) [genesisStored, repeatedCoinbase]} :=
    fun x hx y hy => hinj x (hx.elim id id) y (hy.elim id id)
  have hlength : ∀ t ∈ allTransactions [genesisStored, repeatedCoinbase], t.encode.length ≠ 64 := by
    decide +kernel
  refine ⟨hinj', @tip_hash_commits (.ofTable repeatedDigests) _ _ repeated_accepted
    repeated_accepted hinj' (fun t ht x y he => ?_) rfl⟩
  have := congrArg List.length he
  rw [List.length_append, Hash256.size_eq, Hash256.size_eq] at this
  exact hlength t (ht.elim id id) this

end BinaryCoin
