/-
  BinaryCoin — chains of blocks without regular transactions.

  `Tip.Ends.rows` accepts such blocks from the digests alone: a row gives a
  block's nonce, the digest of its coinbase and that of its header, as numbers.
  What is hashed has a number too (`coinbaseNumber`, `headerNumber`), so that a
  table of digests can be compared with the rows without any text in between.
-/
import BinaryCoin.Acceptance

namespace BinaryCoin

open Cursor LittleEndian Std

/-- A digest from the number that its bytes spell, the lowest first. -/
def digestOf (n : ℕ) : Hash256 := Hash256.ofBytes (leBytes 32 n)

theorem digestOf_bytes (n : ℕ) : (digestOf n).bytes = leBytes 32 n :=
  Hash256.bytes_ofBytes (length_leBytes ..)

theorem ofLe_digestOf {n : ℕ} (h : n < 256 ^ 32) : ofLe (digestOf n).bytes = n := by
  rw [digestOf_bytes, ofLe_leBytes h]

theorem digestOf_inj {n m : ℕ} (hn : n < 256 ^ 32) (hm : m < 256 ^ 32)
    (h : digestOf n = digestOf m) : n = m := by
  rw [← ofLe_digestOf hn, h, ofLe_digestOf hm]

/-! ## Headers -/

/-- The header of version 1 with these digests. -/
def headerOf (previous merkle : ℕ) (time nonce : UInt32) : BlockHeader :=
  ⟨1, hashToDisplayHex (digestOf previous), hashToDisplayHex (digestOf merkle), time, testnetBits, nonce⟩

/-- The number that the bytes of that header spell. -/
def headerNumber (previous merkle : ℕ) (time nonce : UInt32) : ℕ :=
  1 + 256 ^ 4 * (previous + 256 ^ 32 * (merkle + 256 ^ 32 * (time.toNat + 256 ^ 4 *
    (testnetBits.toNat + 256 ^ 4 * nonce.toNat))))

theorem headerOf_canonical (previous merkle : ℕ) (time nonce : UInt32) :
    (headerOf previous merkle time nonce).Canonical := ⟨.display _, .display _⟩

theorem headerOf_encode {previous merkle : ℕ} {time nonce : UInt32} (hp : previous < 256 ^ 32)
    (hm : merkle < 256 ^ 32) : ofLe (headerOf previous merkle time nonce).encode =
      headerNumber previous merkle time nonce := by
  have htime : time.toNat < 256 ^ 4 := time.toNat_lt
  have hnonce : nonce.toNat < 256 ^ 4 := nonce.toNat_lt
  have hbits : testnetBits.toNat < 256 ^ 4 := testnetBits.toNat_lt
  simp only [BlockHeader.encode, headerOf, wireOf_display, digestOf_bytes, ofLe_append,
    ofLe_leBytes hp, ofLe_leBytes hm, ofLe_leBytes htime, ofLe_leBytes hnonce, ofLe_leBytes hbits,
    List.length_append, length_leBytes, headerNumber]
  rw [show ofLe (leBytes 4 (Int32.toUInt32 1).toNat) = 1 from rfl]
  ring

section
variable [Crypto]

theorem headerOf_hashHex {previous merkle hash : ℕ} {time nonce : UInt32}
    (h : sha256d (headerOf previous merkle time nonce).encode = digestOf hash) :
    (headerOf previous merkle time nonce).hashHex = .ok (hashToDisplayHex (digestOf hash)) :=
  BlockHeader.hashHex_ok.2 ⟨⟨_, (headerOf_canonical ..).serialize⟩, by rw [h]⟩

/-- A block with such a header, above one whose hash is `previous`. -/
theorem headerOf_headerOk {below stored : StoredBlock} {index previous merkle hash : ℕ}
    {time nonce : UInt32} (hheader : stored.block.header = headerOf previous merkle time nonce)
    (hheight : stored.height.toNat = index)
    (hbelow : below.hashHex = .ok (hashToDisplayHex (digestOf previous)))
    (htime : below.block.header.time < time)
    (hmerkle : merkleRootHex stored.block.transactions = .ok (hashToDisplayHex (digestOf merkle)))
    (hhash : sha256d (headerOf previous merkle time nonce).encode = digestOf hash)
    (hwork : checkProofOfWork (digestOf hash) testnetBits = .ok true) :
    HeaderOk below index stored where
  height := hheight
  bits := by rw [hheader]; rfl
  proofOfWork := by
    refine ⟨digestOf hash, ?_, hwork⟩
    simp only [BlockHeader.rawHash, except_bind_ok, except_pure_ok, hheader]
    exact ⟨_, (headerOf_canonical ..).serialize, by rw [hhash]⟩
  link := by rw [hheader]; exact hbelow
  time := by rw [hheader]; exact htime
  merkle := by rw [hheader]; exact hmerkle

end

/-! ## Coinbases -/

/-- The script of the genesis output. -/
def sampleScript : Bytes := 33 :: genesisPublicKey ++ [opChecksig]

/-- The coinbase that the node makes for that script at a height below 128. -/
def minedCoinbase (height : ℕ) : Transaction where
  version := 1
  inputs := [⟨⟨zeroHashHex, 0xffffffff⟩,
    1 :: UInt8.ofNat height :: UInt8.ofNat coinbaseMarker.length :: coinbaseMarker, 0xffffffff⟩]
  outputs := [⟨initialSubsidy, sampleScript⟩]
  lockTime := 0

theorem blockSubsidy_low {height : UInt64} (h : height.toNat < 128) :
    blockSubsidy height = initialSubsidy := by
  have hzero : height.toNat / testnetHalvingInterval = 0 :=
    Nat.div_eq_of_lt (h.trans (by decide))
  simp only [blockSubsidy, hzero]
  rfl

theorem minedCoinbase_structure (height : ℕ) : (minedCoinbase height).Structure where
  inputs_ne := by simp [minedCoinbase]
  outputs_ne := by simp [minedCoinbase]
  inputs_le := show 1 ≤ maxTransactionItems by decide
  outputs_le := show 1 ≤ maxTransactionItems by decide
  input := by
    intro i hi
    obtain rfl := List.mem_singleton.1 hi
    have hlen : coinbaseMarker.length = 46 := rfl
    refine ⟨?_, _, IsDisplayHex.zero.wire.choose_spec.1⟩
    rw [List.length_cons, List.length_cons, List.length_cons, hlen]
    decide
  output := by
    intro o ho
    obtain rfl := List.mem_singleton.1 ho
    decide
  total := show initialSubsidy + 0 ≤ maxMoney by decide

theorem minedCoinbase_isCoinbase (height : ℕ) : (minedCoinbase height).isCoinbase = true := rfl

/-- The bytes of a coinbase before and after the height. -/
def coinbaseHead : Bytes :=
  leBytes 4 1 ++ [1] ++ List.replicate 32 0 ++ leBytes 4 0xffffffff ++ [49, 1]
def coinbaseTail : Bytes :=
  [UInt8.ofNat coinbaseMarker.length] ++ coinbaseMarker ++ leBytes 4 0xffffffff ++ [1] ++
    leBytes 8 5000000000 ++ [35] ++ sampleScript ++ leBytes 4 0

theorem minedCoinbase_encode (height : ℕ) :
    (minedCoinbase height).encode = coinbaseHead ++ UInt8.ofNat height :: coinbaseTail := by
  have hwire : wireOf zeroHashHex = List.replicate 32 0 := by rw [zeroHashHex_eq, wireOf_display]
  simp only [Transaction.encode, minedCoinbase, TxInput.encode, List.flatMap_cons, List.flatMap_nil,
    hwire]
  rfl

/-- The number that they spell. -/
def coinbaseNumber (height : ℕ) : ℕ :=
  ofLe coinbaseHead + 256 ^ 43 * (height + 256 * ofLe coinbaseTail)

theorem ofLe_minedCoinbase {height : ℕ} (h : height < 128) :
    ofLe (minedCoinbase height).encode = coinbaseNumber height := by
  rw [minedCoinbase_encode, ofLe_append, ofLe, UInt8.toNat_ofNat_of_lt' (by
    norm_num [UInt8.size]; omega)]
  rfl

/-! ## Rows -/

/-- The nonce of a block and the digests of its coinbase and of its header. -/
structure Mined where
  nonce : UInt32
  txid : ℕ
  hash : ℕ

/-- The end of a chain: the height, the time and the hash of its last block, and the digests of its
    transactions. -/
structure Tip where
  height : ℕ
  time : UInt32
  hash : ℕ
  seen : List ℕ

/-- The end after a block that comes one second later. -/
def Tip.next (tip : Tip) (row : Mined) : Tip :=
  ⟨tip.height + 1, tip.time + 1, row.hash, row.txid :: tip.seen⟩

/-- The block of a row. -/
def minedBlock (tip : Tip) (row : Mined) : StoredBlock where
  height := UInt64.ofNat (tip.height + 1)
  block := ⟨headerOf tip.hash row.txid (tip.time + 1) row.nonce, [minedCoinbase (tip.height + 1)]⟩

def minedBlocks : Tip → List Mined → List StoredBlock
  | _, [] => []
  | tip, row :: rows => minedBlock tip row :: minedBlocks (tip.next row) rows

theorem minedBlocks_append {tip : Tip} {rows rows' : List Mined} : minedBlocks tip (rows ++ rows') =
    minedBlocks tip rows ++ minedBlocks (rows.foldl Tip.next tip) rows' := by
  induction rows generalizing tip with
  | nil => rfl
  | cons row rows ih => rw [List.cons_append, minedBlocks, ih]; rfl

section
variable [Crypto]

/-- What makes the block of a row acceptable. -/
structure RowOk (tip : Tip) (row : Mined) : Prop where
  height : tip.height + 1 < 128
  time : tip.time < tip.time + 1
  txid : sha256d (minedCoinbase (tip.height + 1)).encode = digestOf row.txid
  txid_lt : row.txid < 256 ^ 32
  fresh : row.txid ∉ tip.seen
  hash : sha256d (headerOf tip.hash row.txid (tip.time + 1) row.nonce).encode = digestOf row.hash
  proofOfWork : checkProofOfWork (digestOf row.hash) testnetBits = .ok true

def RowsOk : Tip → List Mined → Prop
  | _, [] => True
  | tip, row :: rows => RowOk tip row ∧ RowsOk (tip.next row) rows

theorem RowsOk.take {tip : Tip} {rows : List Mined} (h : RowsOk tip rows) (n : ℕ) :
    RowsOk tip (rows.take n) := by
  induction rows generalizing tip n with
  | nil => simpa using h
  | cons row rows ih =>
    cases n with
    | zero => exact trivial
    | succ n => exact ⟨h.1, ih h.2 n⟩

/-- `tip` describes the end of the chain `blocks`. -/
structure Tip.Ends (tip : Tip) (blocks : List StoredBlock) (u : UtxoSet) : Prop where
  chain : Chain blocks u
  height : blocks.length = tip.height + 1
  last : ∃ below b, blocks = below ++ [b] ∧ b.hashHex = .ok (hashToDisplayHex (digestOf tip.hash)) ∧
    b.block.header.time = tip.time
  seen : ∀ t ∈ allTransactions blocks,
    ∃ n ∈ tip.seen, n < 256 ^ 32 ∧ t.id = hashToDisplayHex (digestOf n)

namespace Tip.Ends
variable {tip : Tip} {blocks : List StoredBlock} {u : UtxoSet}

/-- A transaction with another digest is not in the chain. -/
theorem notMem (h : tip.Ends blocks u) {n : ℕ} (hlt : n < 256 ^ 32) (hnew : n ∉ tip.seen) :
    hashToDisplayHex (digestOf n) ∉ (allTransactions blocks).map Transaction.id := by
  intro hmem
  obtain ⟨t, ht, heq⟩ := List.mem_map.1 hmem
  obtain ⟨m, hm, hmlt, hid⟩ := h.seen t ht
  rw [hid] at heq
  exact hnew (digestOf_inj hmlt hlt (hashToDisplayHex_inj heq) ▸ hm)

/-- The block of a row extends the chain, and no output is spent. -/
theorem next (h : tip.Ends blocks u) {row : Mined} (hrow : RowOk tip row) :
    ∃ u', (tip.next row).Ends (blocks ++ [minedBlock tip row]) u' ∧
      CoinbaseAdded (minedCoinbase (tip.height + 1)) (UInt64.ofNat (tip.height + 1)) u u' ∧
      ∀ o ∈ u, u'[o]? = u[o]? := by
  obtain ⟨below, b, rfl, hhash, htime⟩ := h.last
  have hid : (minedCoinbase (tip.height + 1)).id = hashToDisplayHex (digestOf row.txid) := by
    rw [← hrow.txid]; rfl
  have hnew : (minedCoinbase (tip.height + 1)).id ∉
      (allTransactions (below ++ [b])).map Transaction.id := hid ▸ h.notMem hrow.txid_lt hrow.fresh
  have hmerkle : merkleRootHex [minedCoinbase (tip.height + 1)] =
      .ok (hashToDisplayHex (digestOf row.txid)) := by
    refine merkleRootHex_ok.2 ⟨fun t ht => ?_, digestOf row.txid, ?_, rfl⟩
    · rw [List.mem_singleton.1 ht]; exact minedCoinbase_structure _
    · rw [← hrow.txid]; rfl
  have hlt := hrow.height
  have hheight : (UInt64.ofNat (tip.height + 1)).toNat = tip.height + 1 :=
    UInt64.toNat_ofNat_of_lt' (by norm_num [UInt64.size]; omega)
  have hlen := h.height
  rw [List.length_append, List.length_singleton] at hlen
  have hheader : HeaderOk b (below.length + 1) (minedBlock tip row) :=
    headerOf_headerOk rfl (by rw [hlen]; exact hheight) hhash (htime ▸ hrow.time) hmerkle hrow.hash
      hrow.proofOfWork
  have hvalue : (minedCoinbase (tip.height + 1)).outputValue =
      blockSubsidy (minedBlock tip row).height + 0 := by
    rw [minedBlock, blockSubsidy_low (by rw [hheight]; exact hlt)]
    rfl
  obtain ⟨u', hchain, hadded⟩ := h.chain.extend hheader rfl (minedCoinbase_isCoinbase _) .nil hvalue
    (by rwa [List.append_nil])
  refine ⟨u', ⟨by simpa using hchain, by simp [Tip.next]; omega, ?_, ?_⟩, hadded, ?_⟩
  · exact ⟨below ++ [b], _, rfl, headerOf_hashHex hrow.hash, rfl⟩
  · intro t ht
    rw [allTransactions, List.flatMap_append, List.mem_append] at ht
    rcases ht with ht | ht
    · obtain ⟨n, hn, hold⟩ := h.seen t ht
      exact ⟨n, List.mem_cons_of_mem _ hn, hold⟩
    · obtain rfl : t = minedCoinbase (tip.height + 1) := by simpa [minedBlock] using ht
      exact ⟨row.txid, List.mem_cons_self, hrow.txid_lt, hid⟩
  · exact fun o ho => hadded.frame fun hmem => hnew (hmem ▸ h.chain.mem_utxos ho)

/-- **Rows that are right extend the chain**, and no output is spent. -/
theorem rows {rows : List Mined} (h : tip.Ends blocks u) (hrows : RowsOk tip rows) :
    ∃ u', (rows.foldl Tip.next tip).Ends (blocks ++ minedBlocks tip rows) u' ∧
      ∀ o ∈ u, u'[o]? = u[o]? := by
  induction rows generalizing tip blocks u with
  | nil => exact ⟨u, by simpa [minedBlocks] using h, fun _ _ => rfl⟩
  | cons row rows ih =>
    obtain ⟨hrow, hrows⟩ := hrows
    obtain ⟨u₁, h₁, -, hkeep⟩ := h.next hrow
    obtain ⟨u', h', hkeep'⟩ := ih h₁ hrows
    refine ⟨u', by simpa [minedBlocks] using h', fun o ho => ?_⟩
    have hsame := hkeep o ho
    have ho₁ : o ∈ u₁ := by
      rw [mem_lookup] at ho ⊢
      rwa [UtxoSet.lookup, hsame]
    rw [hkeep' o ho₁, hsame]

end Tip.Ends

/-- Strings of different digests do not collide. -/
theorem injOn_digests {α : Type} {as : List α} {f : α → Bytes} {ns : List ℕ}
    (h : as.map (fun a => sha256d (f a)) = ns.map digestOf) (hlt : ∀ n ∈ ns, n < 256 ^ 32)
    (hnodup : ns.Nodup) : Set.InjOn sha256d {bytes | ∃ a ∈ as, bytes = f a} := by
  rintro _ ⟨a, ha, rfl⟩ _ ⟨a', ha', rfl⟩ heq
  have hdigests : (ns.map digestOf).Nodup :=
    hnodup.map_on fun n hn m hm hnm => digestOf_inj (hlt n hn) (hlt m hm) hnm
  exact congrArg f (List.inj_on_of_nodup_map (h ▸ hdigests) ha ha' heq)

/-- The digests of the headers and the transactions that rows make. -/
theorem RowsOk.digests {tip : Tip} {rows : List Mined} (h : RowsOk tip rows) :
    (minedBlocks tip rows).map (fun stored => sha256d stored.block.header.encode) =
      (rows.map Mined.hash).map digestOf ∧
    (allTransactions (minedBlocks tip rows)).map (fun t => sha256d t.encode) =
      (rows.map Mined.txid).map digestOf := by
  induction rows generalizing tip with
  | nil => exact ⟨rfl, rfl⟩
  | cons row rows ih =>
    obtain ⟨hhash, htxid⟩ := ih h.2
    exact ⟨congrArg₂ List.cons h.1.hash hhash, congrArg₂ List.cons h.1.txid htxid⟩

end

/-! ## A sample chain -/

/-- Digests of SHA-256: a fingerprint of the string, its digest and the digest of that.  First the
    coinbase and the header of each block from the genesis block on; then what the two signatures
    sign, each followed by its transaction, and a Merkle node and a header. -/
def sampleDigests : List (ℕ × ℕ × ℕ) :=
  [(0x06612931b75d790a, 0xa5c3f9d70bf48f0d2611796acd1a1cef69b6b97657367657e1edc13c8b264649,
    0x2cf10845810fce4b828950111a45d66e33d8649db1265f088cf4607789ae1442),
  (0x0716800e05aa948e, 0x43adf7d63b8e1b8a9a5fcd6f1ee8a193f5bad1605df54b30633eb062352fa2c1,
    0x00007e7bc2b6d593d9bacb54cd32bacaf9a99ff86adc9ac6fbe36134fff1c372),
  (0x1119312076790934, 0xefc1bc139817b709607b9ae6121e416ede5733c50a8020ff46b4dad87eed2d88,
    0x474e7a65b18465d6ec81e28ce7ec157d1ab3b806739863a1a27986ae5386982b),
  (0x119546de1d1465ee, 0xc7a56891d25daa4065c88ff2648140f632c3f41a566613fe0b62070115ca53c3,
    0x0000eada6cea00efa3fe159990fb4058fff42728343cb8e2d3f15a5f45b9798a),
  (0x111931a076790934, 0xe05fa53004569031a6f7f4f684b2859d39829faddfe812cc419dfa90a6557765,
    0xe692c818d14f51eaae540c94bbc7c5019e5ac429100892329fc305e07c95d3cf),
  (0x000254bee1bdc67e, 0x59be60b87cfa18bd64068a1acf4c688c271551d417d7e906a86aa71b1caa6486,
    0x000050de2807496ff2c999b4c025fd0e652ea72b04e3721d5256cd242c960dfd),
  (0x1119322076790934, 0x0b88e2f50d8343ad648a1a5d57b373ebc5742ad4315fd7af584179a50498a9d6,
    0x854cd07df60074d87383e34ee569cb601ce19070837332758b0ef48e0e0aa611),
  (0x1e6bd0c115d15f86, 0xfe89e51be229c6fda5c8448a6c7057ac5c5e61b1bfbebd21ec0c0b9f71660725,
    0x0000d3095a3e783fd0880819aaf5b695fd8ac8f2357e1cac819adeaab17b7511),
  (0x111932a076790934, 0xc0bd16f7ec8aea2807095bc3e3c5e68dbeea9bade04d27b0db0c4bd7e8bd8e59,
    0x0f30a922c7c690dc853494b3ee765c8cfe6f939356a1e3428188151c006c063f),
  (0x1e9b89539a3e2983, 0x3371e78f7d4a49dec24a0acf9c22ef6adaaaff807b2f0acfa64a721ec23fd9a8,
    0x0000d1bbcb2dbe33fa0df3ed0f99562bfae5d404b9a4c9162c4434304cc5adfb),
  (0x1119332076790934, 0xef39914b836225168b5cf6c5703e7a6ec6425a166df9007a8fb83da1c4caa0b9,
    0x1ae746ff632caaa43a452a9c7db424e290dfd1647a3a5b8a6b9a638691c19dd9),
  (0x13852ad80a355663, 0x61e5de87d126c2affb44c8d6e5915273f2315fcf91baee4e575bc47128fad63b,
    0x000010dd4ad9ec493e3227f35a8278e3a149944af8b6d3d17f8b168748aa3458),
  (0x111933a076790934, 0xf7fdc29de9cc38419bcdc64f00a188eff8ec03b3fb6a15095ba72a52c32585f5,
    0xb1b4aa320506465f0c110a06acc97e070f9c1df9e8b25bda83881085af010219),
  (0x1e8ded48a273bd48, 0x1988b517d07e08f5f181f237f1d7f58d3939703afd914a35da01e0d7cf5769ff,
    0x0000158f25f19c8d55f6c35b45451564039610556b8a239b1777d99e944a2fd3),
  (0x1119342076790934, 0x3000a103cd82cd30dd006bfd23671c9d86c820af16e1563b0f346f7ec8396f62,
    0x74d353067c6de54d24c4ff78fc666a8e6a07a813adb1852bcc12e75fad8bf291),
  (0x1523d27395101eb4, 0x8e6eefaeac883beb17fa64ffce6b2e96464c6a7ea54ab8f65d785464c427663e,
    0x000035a58b7ca93218ace9938706a033a57055377eab8a53929d8abc240241c0),
  (0x111934a076790934, 0xf366f6741b390c0c62329de22be481c4f95e6bd5598b1fc939ff2016a837a507,
    0x84dd494900e606b1f764c7ed0770ee5ca7321d0c089a612bfb2489269f434f59),
  (0x0d1301b448e76d9f, 0xcf3abcd5932c49bda59a84dbd1020b6b71483fc66855252055e88cd3c5e41e84,
    0x0000bfb311a3a5c6497d12e190fd5042d8ed5302fade0dd0902ed79b7cbe5c72),
  (0x1119352076790934, 0xf9e97bbc7fb01bd7c0c36a546e6d2e72522c51fed2ac9c929c5e92194204a5b7,
    0x0057addcd1161c58a3b7b503625e1fa9916b3785c68d8ee7763c95b74230be98),
  (0x035ebfaf646f9619, 0x5103831e3847051567ca1dd69c544e26bf361e9eba9b73c0cecc6b7b2fc8fba9,
    0x00005e929baa6ae0a4bccd3ced55e8b717170e2a5e5f644589d4ed4864e9aeee),
  (0x111935a076790934, 0x85e2f523adacd00a7c7bd0d63517931b90e060104d03e977b544618ec0a01c0c,
    0x9a15ea47997dbb69ffacc0afab864e26646d5f052bd53bf9662e17c858965ae9),
  (0x094ba87874c98a09, 0x582353ec2c2843458ce1b2147ed005717a7cefbde950b00f6c8ccc25261e69b8,
    0x0000c4cf3d47cb67e3c758a4335156c86fc0a70f4097348462fdf7f520ca2f0d),
  (0x1119362076790934, 0xe836c318b6933bc6bf4e6c9f50762a3fc50d56e2106e533f5f82bfdff517c772,
    0x4c5de37d1df8c673a95ba3975caeca0633dbcbbcff4bba0ac85bc7a1479bf2af),
  (0x1a730a08a1397689, 0x5aebd946e99ee7e88a7a23b9a0430939655b92c51b9dccdf43c9833cc60f8f10,
    0x00008aad0c313b711680f87106c0f323c1a3cd67f2ca41e1a9c31c7d13fb3784),
  (0x111936a076790934, 0x6faee6ebf2f21aef0d80f3ca697217ae0048597bbcfe1e5ca1d40e0f07a9fa90,
    0x68c8180e9f8bdc3cb2c5ad0bee17753516aa9642a9e15e4ebb6da885a83e98bc),
  (0x197f92dd9a65c545, 0x346a412d21d6bc1680ec381306e641a726907b3ff90c1840e1767b09c849d4bf,
    0x000095bb3f1d01f7eb1bfe9ddb4e040d9701899b263b185ed7ae45d9b855c056),
  (0x1119372076790934, 0x53a03fe478364c6eddba4e989097181bff11b657f3170c5a24bd3b4d94fb6104,
    0x0e22bae1f0e5acbc59a83d5110d6d6d8311b92f8acff681b9a2feefdd5ea4725),
  (0x1325b7d189f5525b, 0xb1e2002ee5866144e6c5d726ae1cc9ce54835a08d04d9e12befbd58c4eda0521,
    0x0000d0db8a128f1aaf94b43bfe1da2e63f8c77698b423ab3fca169872a272687),
  (0x111937a076790934, 0xfc8b07f7fcbd11c72917c458d7839894ce647982ca8798dbc975f6dddd350d7b,
    0xa565ec0bdb57599b6994ce53e172fbdfaca415c84d148cbc747d45f88f0ad127),
  (0x10b9e86aca683cf6, 0xa710f468410b1d3f367b3e60e59530887a7608269ed654474a14be4bc8f3ebc1,
    0x0000614ad366cf23ba8d710c6a503125c9a8194da29654a95e636af6f61e35ae),
  (0x1119382076790934, 0x3c6220becd2535a060346143f999d922390338e26230bbc9b068bd13f696435a,
    0x78f53079f5610ec173692391ba36c67c5ac3a56bb4c35c919494f09e3c133cb0),
  (0x13200b8e739614b4, 0x88499db148164f71cda277461314e37c9fa2a63b19fdf4a42aaaf413228e3371,
    0x000092fe40ae276c5812a345bd2d1609cbb46f8c2a1732e23272573651c4e0dc),
  (0x111938a076790934, 0x76edb5cef8e8e0b2bf837a11660dc23f85c3cac925b50307dbb3a331ca36ad2b,
    0x1d6d2e7ad1ca253ca7b1d76c2166ce401250ede2d36dcce12e5c28f8c37b06ac),
  (0x1498deebded63e78, 0x2bf3a5d6ea215ad52928eb3eec451f3a20f0dd078bf31ef194e9fbe8ebc1bb7e,
    0x0000d1dd1e089355abfde923659fe6770f5b57f4f752542f58109edb49d8559b),
  (0x1119392076790934, 0x134a4b849555f68cbb89ef81f0bb5995a54321b4583b1c025c6f8e0fba7c1fc1,
    0x7c604b4f6c8567c4729a1453d53da85a3be56173425e89c11193fdbb5f98a02d),
  (0x02da441efa3010cb, 0xe988c3c93fd789daf063da567f3d09e6a245ab1845d0978fbcf9103c043bdac2,
    0x00003dd50ffd9b7142c9d0273e20a6e53a00587c6602396dc12abd5c72707019),
  (0x111939a076790934, 0x8e6e36d457b4674d769eb6cd9febf9478abdc69747ad73a3dc81bb9bad78e4c4,
    0x67245bcd7ce9c76ccdec3e0174304b52c5012621b765d887a38df0f67ef7c426),
  (0x1ead070a3aea5860, 0x72a279548ac4a02e1c3fee8394c09bff295e3ddd126dbc69ad5392eafa985bff,
    0x0000138d9085f051f65f50449e11378c610175a0d2b80a32efa8795ae0ffee56),
  (0x11193a2076790934, 0x6c593482968ba4b71903dcdd104841b1c7cc36e46c9195470f2d281bfb4a4362,
    0x21d41b4d64b1f47d0b9b9a228f32ee142df197618e56e69a4569546059d1652a),
  (0x069a90fc123ab1ec, 0xe19c0a7e0985f814dc77432fceb25380231a80dcfac1541b98dc77ec61fbc8fc,
    0x0000a227e797e93cbfcc8ecf30ce4cc5979261a22eb2f910c21b2d5d9b3b7c3b),
  (0x11193aa076790934, 0xca0d631ebfd3b38e023686ece23d508e33432a707e7a02b99d384db7b860348b,
    0x615bf85505a98ca6d3b852f90d581882aa1ba9af47d5a9362d741a9f10c99a5f),
  (0x00b879d1fc38f24d, 0x99b435513a68ccc8f4fb66febc4d98c7cd9e24accc23bb9ff29a0b7865a73ad4,
    0x00005d5bb72546143a51254f1206e753ae2559c2625a05416d54682ac05af13e),
  (0x11193b2076790934, 0x9cc1876a65247ca83ae02d07079da73a37e033a5a02ba96f066a9b93b67ee18e,
    0x2af4ca4467aa23425802648ab271a5c0e5421bbffc4b78ed185c5b3b0887cfa6),
  (0x005396f709c8b627, 0x655a7bcb60cf03328ddef847eecd0ae3edda930fcb5af31c888871040db6993b,
    0x0000017ea2177b4ceddb04a0f924c8422f9e502a758e6092516fbe5c430a588e),
  (0x11193ba076790934, 0x84185b5c00231af9f1d9d5d060b906be4238c7fa07b7f1def40e3b8bde42d5c4,
    0x4d8da88b28bb85acc3e82faac08933f7eb3bc75dbf2159426f59f6af20b44f88),
  (0x07fd7ed2bdd5bcae, 0x1c5b6f8bd4b6b014b6d7672cd476ead717a41c05534764ee5f9bc635ce9b64a5,
    0x0000e4135d991c515fd976b4890000da1165e8fdd8e86ab651eb9564bfb2a4f8),
  (0x11193c2076790934, 0x73ac4e506409e8fb7bc23547c71c480cb2e7d73b38076f6057c40c699e45dd3a,
    0x260ba74595939ab4729fdba0ddff9e46ffa1f09b4ac566eaae956025962c836d),
  (0x1ea36163d18a4999, 0xd09058d1c141104b709e0643a7d2074edaec5e1f3c19a27243f860aa0cce601f,
    0x000024faaeff5d1e0431f1b614b93ea901227c59aed54c1b641ae1a160597a92),
  (0x11193ca076790934, 0xf270bfebd4308bd3e901592d7ad40a6d7a51002b612358a182c2251617da5c6a,
    0xffdbcbee5513e7303797384c198ad62f40f8d9a554d7d1a98b58e771d2001d15),
  (0x196fb1f89d22fe5f, 0x6e63fabfccdada447a6511bb17224d284ef96eb37210d4cdea480cffa9f1b0f3,
    0x000089d4c14cc11de26e18cc57a5f3bca22220ebfda96dbb322b6a1b0880ca19),
  (0x11193d2076790934, 0x7266aba4f70a8def5fa05a80ab3d90991397554bdbb38cb28a3cc6f1e25489c7,
    0x775b888d0f02bd70f8b706e75a3b7a73dc0a555f766d16f81d4dfc3bf1c3070e),
  (0x01163c19b79be28c, 0xd201d32af9a54482f5362b85f6937010830e786aca34f25f535174878639bdaf,
    0x0000f4aac2b5e2d5778fef91d63e192c9436c4ea6f92efdf0122b990b3c03b27),
  (0x11193da076790934, 0xfc41dc586b0c8f4d5acb3de0ba34c5ef7169117f100b52608b1b32bcde9fe105,
    0xd4f38db4c52673becbc6f8020ac53b7d894ce6b4ae7901f6368101d18a07113a),
  (0x194f0514120654fb, 0x8fc51df2cdcea88441e0783b1c7b306d4098a50937cb0d4ad6e956ab85aaa86e,
    0x00004d1d1001d1a0f89f4b973ee52830ff4bd65a6a6a39923f388119c2a4804d),
  (0x11193e2076790934, 0xb46c8b4c57f28ebfa5de8904fff3a6147b65b767d2f745fc0ebe7fafdfeba268,
    0x5c51db63a7743b2140c1626dadf066b73b3ba0e7d18b0eac75e4fb055484ae62),
  (0x0a7954f8bdf4e306, 0xdba697ae379d92b80d2ad429f0820ba6cb07d19446148b33b5a7699e8a022354,
    0x0000d37fb1f1b4f8151207b422efedeff72400005d0b67d326043585bb7b3f37),
  (0x11193ea076790934, 0x0c0e8812f7c156c2f9b63750f4eac929b56ef8e779e96dfbf25fd48bfc290dcf,
    0x60bcfc84adf0d4ae033e6266a5b9f9172cf1cd8f52b31e6a62fc645d0eba4b27),
  (0x08996c065faacc5b, 0xccbff97d6c688e308359212e082dd058ca6b1782b63b747dba7b795444ecba30,
    0x000092a7d8eb82b0e12e352108ae3c409d8915b04eb19d16dc5285c5ac8eda3f),
  (0x11193f2076790934, 0xd42bd71c548c6866879b6a5a0d2e1388f5c7c774ce2840883c5cfc9344978e7a,
    0x274c15820147ad324d62aaba8aac57002f9c8e9881fd1dddce4fc8971f400b3c),
  (0x16bc9ae49dc202b2, 0x8b5f3272a8654c5a3a7b5355c02bf5328084b75922b6e8eae7e5cb46a1d6dc58,
    0x0000b92f9f0410d09748b5bdc4ac328bdf91d2d46c44554d0a6ab098b7fb9c31),
  (0x11193fa076790934, 0x1dfe059922f14852d3e641bc052f5aec9eb5ca2923c59e58704a3433ca670351,
    0x9def26fd053f3b122955081b1624197d01580c24b8e11c2ac01ff986c1c75725),
  (0x1aa361f7fdda0fab, 0x86aac7e4af3d340f8efa57d2dbf1255680936f8c88884522137660758d5e447d,
    0x0000d69879017879396b00114d16b820c47b6463aebe9cf8802017d7434025fa),
  (0x1119402076790934, 0x680b5bd4be834fc9eccb8954d48de8b878bc1343b54faa53a2a51a35d8ed2428,
    0x4a3417b61e80cb5d733c912453611c446ab38513ec60b86e7741c88b43ceee7c),
  (0x13f5527ad1d4cee4, 0xb51a246216de8cf5f62c71af2470ac6e6a02282b838c6adccb3dabd921b1b6dd,
    0x0000442fbec90682e25bd408321928687ca5ce913283bc231c1c7a7cffcc7861),
  (0x111940a076790934, 0x1f44c52ea687da74fe82afc1c058bd0d4922c27ab548452cf548af8e263785e0,
    0x6b834c6487e9bc632984f7523da8df3823cb3d169054b0b1eab92f49d21ee894),
  (0x17ccf9d29c645e0c, 0x7cf9952f88b54dcd1ee9edb9768eee6760a6d45809ebd55e8b8a0b6042ecdbe4,
    0x0000132f51757430837092af60832902dd2d74799b24e3efc91c5f89f19bc953),
  (0x1119412076790934, 0xf4197532909d34879e0ec95f5ab3beb7dabf31978fa7c0f19e9e25e6a0e894b4,
    0xd3f0d81ee346a3f971d4b08153b00bd83ef7aa159838025038a3c372ba6ee6e0),
  (0x1166d62e2b090c64, 0xb87e97547e9e51b09b57ba9e1532d5ba856b6fb4bd5d84ce20d2ac15bf4c7972,
    0x0000ab8eeb0408d8564ff5bf8a956ebcb34aefe4b1cdecbe96800ed13e76a926),
  (0x111941a076790934, 0xcd9619327c577e7c4082d83061c8421901465ee08689aea96a45f94aec473d0f,
    0xa337a0a489e640f724c7255c906fcd5b93cfa7bdefe2c3936e0c19c20d9ea631),
  (0x006e5dbe28a89e5b, 0xb7c2d36640c8c07dcd7e6edced8ece4f22198b5b6d1718406509e51e1e38b102,
    0x000052869458cdb27a51dae16443ff6d2e0b25585498c0ab2a7c7db230a8dc6c),
  (0x1119422076790934, 0x491888d790537c5b6d149f3aa095b24a07e9717e717f66d3e51b360d15fdce51,
    0x3317324d370a0ea6f5aa4cfd0eda656658e4501c65a881101eb445d6c63f32a9),
  (0x145ff96ccb1472f8, 0xa777c0a2856d03baa1efd6725b95f7fc630440b8a7c2cdd7db86f9868dabeea6,
    0x00002b5ec25cceacda2c9b06a3c214ca7daf080929e30b77dce17291fe7d1789),
  (0x111942a076790934, 0x8d8d1f7e36912bba1079badffe8cd6ebfdc9a48c5085ed14a49d8eaf5b045e43,
    0x43cdabdcac813acc9c7e73839535a3ee3e856d60599995451450bd341f3b9594),
  (0x143c29540b479b69, 0x4ae3d007431eec3d3b84e231376d69102e2055bcf2b06aed8b72d13c10c96825,
    0x0000e2851369cdf345fe7f0f451fe47813bb3cc93d484022050de9d3474f4472),
  (0x1119432076790934, 0x1ddedd646f1f6345d9a8ea7dbb918d53d1c6e5f7c2d2b7d3b6830af0c0f61e55,
    0xbf53aa2fb681db530b909a4683ac0fd3e103e4bdcb73a8dba4e6c69ba280d6b8),
  (0x1167ee538c841acb, 0xf652470faa41a455cb1b52d6c9bea7d5dc1359d73881ac230b2180cc852aef16,
    0x00005f35ed20b1aaf84e6ead1639163be5bf92496ae2b4424807b90787a5ddb5),
  (0x111943a076790934, 0xf5d886bc2625131def7d99d4322d56af620a1065ec9be64e6eb3fcf4968639a3,
    0x5cc20cce5a71d381b4c6f88295df8a60aaf96adfe5e8b6de4972a0892a1439bd),
  (0x187d683c28b7746b, 0x8dba43cfe7b4ef6f351e35ba15db77e89d27dea15a0414f59742af3c0d9daac2,
    0x0000556fa6549a1b2ebedc552857b0fc5d8941fd6f42a270bfe9a6f5cb1d2d43),
  (0x1119442076790934, 0x89dce1c4ddbc0beebaf3180cc6255052f57e7328fa347ec65686d31aa971ade4,
    0x8db3497c7015fc4a5de09bc9e9141f4fa4afd3d63530044e49baffa793e9467c),
  (0x13f1a537a4dab831, 0x25ca7b09e2c1e2aaca08ba540bf48adc5e8875739df378b30e2a89d9e73d5879,
    0x0000af3b5246b4cfb968835f06c05ba32b52c1d39bbb0ca980a9a1ba21faa9fd),
  (0x111944a076790934, 0x7c733e17b1afa412d5059ca9d33ed32dc880a2beb97323a52ff054c181c8c916,
    0x2ce0d8fc9956d1f994b167ad97cdb78f88be397e6a7b5ac42104f39e98755f1c),
  (0x013d0a0803605c96, 0x64e9fce2c0839fb19b243638f2d769d3adc5e8f23460aa56a870481c8256b6af,
    0x0000a8dac21e205ddb6699deae6da29ffcf3276bba7bb15b398591a08b4b5ce7),
  (0x1119452076790934, 0x92bc3daba4e3c0ccca99f7174a67a92bf3781e9b992356282b0b1baa88e38c99,
    0x9ae6cb19a711753eed93a4fbe48d03f24020672aecde6824582e07967e42ca98),
  (0x1bc7994f35a58aa6, 0x0f383092cf0aa176386150dd1a791507236038982245758a1dc309f20b37b5b1,
    0x0000eb609bf723063fdf422a3defc9eae41048d6bb53b820215fc3c200cb9f10),
  (0x111945a076790934, 0x5a4844ebe2cb7686ac9c5d578f70b08de1304d8f9a1e84183011366746c8fb0b,
    0x31697eb8370c3feb82fe2068f30cebdd5dfa5edbe9725c6b83b06fed9034545c),
  (0x132cb24e5059b821, 0x0bbbdf46b5811874c4a8a08ead50a7b9c18f8d44bb6f050d381cdb0b05c301a2,
    0x0000e83cd709ff86582b39320003044e089a951e84b636996d9e78c2ed56aafd),
  (0x1119462076790934, 0xb1a9ddffb4cc8bb03ab063ccd53c5980158ef68c2c8fee65da0bb067aae85d7f,
    0x03682f4549200aac07514e921098f33803d73b8415997659a615db00c24afd83),
  (0x1b29ecbbe6fe657b, 0xdbe7fc2aba888c998153672fdc05237a196b1abcb54246f9bf187b803cdd7b0e,
    0x000026d858e9837b10b2723f2206ea49870e2704383fec456879ac473d31cea8),
  (0x111946a076790934, 0x7c9a308886dccac1b8dc9753bbbc142e351896e512e3b2fc052d4b9b2d00c41c,
    0xa4c6a042e65b0e2838bb760a4a5501e35afc7afbc7b48a6cb2efb91549d061e1),
  (0x037874cf36a599a0, 0x3d3f0465b5d9390c7488eb6b038e3b59eeba87f69988fea0d919b2bd9fd46212,
    0x0000cb41a839c9720dff9b4180e3ed6d1882ecc176f83110a4838651adad60e9),
  (0x1119472076790934, 0xeffba6c62c5e08b3d779cabe0953258a235e1f2c06745e2ec8b1263f256590da,
    0xa2edcc3154a99e2b5eac90f9b8be3124f5e3fe5cf05825e0d356f0c986df4c57),
  (0x044da56a0e796b90, 0x48f18d76f0caccc4aa6e19feea0dc681fafce5e172ba29fbf032b2054ea4c536,
    0x000068418169496aeda35e619afc8844178ff4d6ecf212755cf047a3aa589f19),
  (0x111947a076790934, 0xdbef6cdc71b4a2a3e6634816ca57f3f2e4f30e6cde425730a81fa6ae9c49d049,
    0x2d54c30da1128f9d5ff8f73a093de1080a9717021b408d25843f62ad23735669),
  (0x1888f20316548c51, 0x30ea4def83958ac86d233465e637d5a96b68965139c9cc35914b65e5a74b723e,
    0x000006b5d9ef581e035bbab7676e206dda406642e9da4d0a9278e7149563b5d5),
  (0x1119482076790934, 0x7bc273287a0e299e2a648f2808fa16c2339a0ad5170889818414fc91b05f35d4,
    0x7bd97f2c009f783f36c3016daac35acc50c59b4a5b7ed1352c1e447199ea663e),
  (0x12f8e8abc02cd140, 0x72306d9eb1fa09ace472c2015ebb30fc1fba2d6da85877781e2b95bead4dca5d,
    0x00007ce7abd72c2d25ecb621f3d09f3b35870a984dbd7093ff499699e91b06db),
  (0x111948a076790934, 0xc312f43652c5c9c42a896361cb2e33c422f9553265e64b1c161bf3afe014aa36,
    0x1d5d59797daa3b0d77e3d30fcd584da03b982ec51fd4da33c441709ea6040c32),
  (0x02a906e98778c645, 0x3fe4a43127d371e242735715854e88966810212a8f858423a68dc3fb670d83af,
    0x0000e2a7678eeb98b214194d323d2d163e089dd5034eed3cc511c20c54982bf3),
  (0x1119492076790934, 0xf2e84aef5073f828db64f59a2d9d21950a37a8fded670597920d3333e8a30cf0,
    0x65034c7da346c7a476b0f4afcd1b4733a39c153ca11b0dcc58d3e7bc219a75e6),
  (0x1031091238d33587, 0xf661da9d2dc7bd8d5790fe02bea76dac8e04d245ccc765c048325bccb3a559bd,
    0x000008cfbc5a22be517159dfab359737d6ff1d15b41509caab8afa3bdcac9c09),
  (0x111949a076790934, 0xc85d18d4180d0aa74d8ba3d4a89785d56dd9730f70b3fc0a38dcf9569418fef0,
    0x357521c0778334f151335841b446ea0f95a4cdf1e30805364b8ed3177488b57d),
  (0x008924de64b43962, 0x9e55e075c7898c79285f01c3d68145fc85c63c1e4077078ca0f054856b5a3cca,
    0x00009e195c4e75949b66a819f6bb53ba13bcce370a2c384e750485e03b68d48d),
  (0x11194a2076790934, 0xa3766f59d862dd3cf554bb73171227850070f5587e7591d0b6f27b5bdcc0a2b9,
    0xfb1698e1a9b51ec089f4ce7c415a6956eb81bf129ebe93219b6db6ed3b1f7cde),
  (0x0e4967acf2cfc639, 0x9506a4526ee0a754db5610e6ca6d40a0a9e91a1cc07f94337039b96de1f89253,
    0x00000a06c1c5a97d8687151b24eb010e9188bc8b9cf84c1f50b20ddb23f4d297),
  (0x11194aa076790934, 0x0a83d357a19fed3753337d6907ed3855e86606264ac3307dc3a0031b2c7037dd,
    0x4c19775a9588a1ed69e20701c2020c724edc303bfe3641d0926371a7f8dd05ed),
  (0x19cc249da66f50a7, 0xe0420ca20145199ef2e64baa5dffb78fa215607aecadf35163475cc7a4cad8db,
    0x000049e4585d446221ac470b58c6ad3ce9dbcb69947d15c36e17a1a2b66aac76),
  (0x11194b2076790934, 0x52cbceb18c5ad732da7fa6ae4af97dc816c8b73b87c23798b40b027ced60e8a6,
    0x48f262f0fc18dc33d563b2eda592bbbf94a3a455d55482db50bf20305aa60095),
  (0x0db85fd6b04f9eb6, 0x821f532de540bbb6b3dde15cbd2b9e888fc19bbba5630c28156a9c674238fd25,
    0x0000d5fe493959fd53b0ee247a8c20e9004b845c0c2b30afd202fded320a4bbf),
  (0x11194ba076790934, 0x8ff23e6a1e21213fbafdbccd6094ee2c974acdb3a6bba062e079babcac03693a,
    0x14ff048ef738d8ee02b971230040650b2b392d2846cf80a17e21354e960d0c68),
  (0x0531504d1027f2a4, 0xa518a865b61d9090a6095200fa2ea557130820b6d51ad2a456e140bc6cc2cb1c,
    0x0000a6c2caa9f06417859768924859c2d79cc5eec25aadc3cc44abb5ec288bfc),
  (0x11194c2076790934, 0xd3d758f8c0d13d19a2b287951b458bbd109cdeb3fa0fa28b0438f66a8a23711e,
    0x437d5ebb2d356b60f813e402e612261b084b51af7d49124271c7ce992e34c6b4),
  (0x094854ebc3d9932c, 0xa5788dbb45be3e8b9c2202135734ac491d2340e3e2b11e5c27dab6b88f1bb4ad,
    0x000016fa1f3062deae146b06250f24136c1506735082ced86c5726008fb7885b),
  (0x11194ca076790934, 0x4ea5db4cc91d4666c658ed0bbd84e8f6448f538bcc0aa1c99d20b453a87aa114,
    0x7670e036d609b1df482081eb6ad040a23ff202d458c4f63745e94f0a2fa1fefc),
  (0x1548a102b4ad619c, 0x934a67960cfb0bd87e8ef25473407b2797e9d652db9d5356999691614c38d885,
    0x00003ec8c591cd8466e211ce9bac7718152435b1523b71ef3a60350771fd2bdd),
  (0x11194d2076790934, 0x92f0ae7bee1fa1f14a02ae0df28ecc63333ecc2f202ff285683369ab7084d778,
    0x64fbfd17f3f87f4b9692b26b58f259a180d4d2004100a2ba44dcf4214c74bd2b),
  (0x1c17363f06e31f4a, 0x47aeea415eb4a64a8d39a50255a2a7b36bc5d5082261c005b15ec9587b231b0f,
    0x00007bd78d781f34c464722329098f5478805bb65c7270fa53648310ca74316c),
  (0x11194da076790934, 0x6e773551fb9e1e32165cfd151160a3f4da47759474649bb650e1bfff52cb5eeb,
    0x642665d0b9b8b8e7893ec4f3b0f2714629807f632b99b30e32594a464ee6de8e),
  (0x177fed52990f95c8, 0x36422031cda0fe0680026e1024862b2b54a3b6373b3d640e7722756c9994a738,
    0x000024fc93182c8385d660f16a3a49405c62753b9f0c1bc62d594e01d8dbd32a),
  (0x11194e2076790934, 0x6d3da0c2420b90aa1265866b6ab2ddcb4a524a191315bcde591cab7b07d50713,
    0x037de9eeed330ff303eb58696c3e78724a1970dfc1f3a22bd084e92e04c8eb9b),
  (0x161ccc7b61fd48ff, 0x2de78cfaa64433c33f7e5b9fe9df0a1bc84032d8ebf31782be729546cde92b1c,
    0x0000bc42d02af7a44ddd1f116bf6abbf32d67872c95accc837473b480d381d93),
  (0x11194ea076790934, 0x011624387725788ce6198ff39f0c58b5abc9d9ae65adbcd6adbdb268fae6be1b,
    0xa0cb10fadb243a9d2a20a373f5d68c818fb768e1f7b6f54ad6fc28b0cfb554e1),
  (0x08e08dbe5267ed35, 0xe047de6e813dbbb138dee1a0ce16ea8a02387e9ad6d6342c449bba26c03f34b8,
    0x000006012717b858ff3ea7e0b10a2dec5d53557abf4424e0d5ceb83a4047c07f),
  (0x11194f2076790934, 0x809c9bf1a47259569cb35f8f6f0dcbb5dac80b26c889997edf27d8d04f8f4a8f,
    0xc5c718f2ab24f3e686ed34b754835c0aa3d595fb40a1686afc82b076e4e06d19),
  (0x0d255ef2b60ca67c, 0xeaa42e11bb2c38cdc9a46a7fc976ddfab0a1312125451fb3b1158bc2fe9cab5f,
    0x0000c02f88bf265a987cd5d35702b323a782250afd74f56dbf17cc5138cc3f8a),
  (0x11194fa076790934, 0xafdd008932e3600b2add10c011a8191cbe1a9462c0408c00caf90e448838140c,
    0x9b8e185fdfd2c2245f795f28b33df34b095b5dd33e82d1272eda910bbf98b11a),
  (0x025e4b31df126b57, 0x21ba57eb8646a0dd35e4b3b05d6a92318d4367a307d118a8d33b03e6e0bf9872,
    0x000082f3e0102725222ab9cc9bd0e118d6cc2fe56bd0f2d1d0c569a252256de2),
  (0x1119502076790934, 0x5bb38f604dadad506fcda75cd7e69c1f3390d01282c3585108194feaae27c3cc,
    0x68f114e94f08d84dd3a2bf118603e61c50cd116c3f92f35c8f511e36ea8f6b94),
  (0x0a27cd343279b933, 0x4880aed3062841db71304a17aa24c4d7b149db5a250708aaee52e7dcad878798,
    0x00008cef160fc44e87289d8247ec6f6958c4ebd01325a81876e783d3f24e96dc),
  (0x111950a076790934, 0xcd4bf25db8f358b20bd287371241589d6f2d0b566a8c56c92f8223ba59d4f545,
    0xcf5ebd05336d6990437d33e22e695889577c7975f0b1c5a0035767d2d6227202),
  (0x0005a505590f2568, 0x951007c53c1be6313737fe17bdb29f510319e70c9a38bf15ef00000390bb261a,
    0x0000b8ba5efe0b006abc272aec5953110ae2c85d08c0a807ec282853e3be9649),
  (0x1119512076790934, 0x6b1045b11e88c21e46fc08e53faaf1817029f0fa31eceaac9d27845e7615caa7,
    0x20d9da1ff863968c9d3508b3dc18d5116e6ae4b8834487573f7be309903dd088),
  (0x06d4fd8553fb14cd, 0x3b30da3c24f31667ef20b74baedd7029ce39df01632893632370c002cc5403e3,
    0x00006171dba5c9a06bd2f7222aae2cf5d2d8c4d066c87b7eeb6c908e3c5cfd5d),
  (0x111951a076790934, 0xd5e5e22bbe6fee27d4ec3b2f8cba07f106d82a3921950f9d41308a3888c92f99,
    0x2a827425b71c90a5447d402fd4365b61dbd6e6700fc557801d853ac2f5e2dbdb),
  (0x028f9fdb1bc1cc44, 0x34dbb3e1cc1e1e580225b46b7edaabc931f9525c5d0764d4100ae9699b04a6c8,
    0x0000dd5cec7c549d49758301fe8abcea7b7aa36528ea7c6b31bcecc3b5b548e0),
  (0x1119522076790934, 0x94228f1570a4e6f083ef3a950d33a274df1ddca9ce127a993391f3c5da4ded05,
    0x2b29c2d66a9a5aec66f26ecd4ba06625c72c9a3ece79eff6127068b54e7bf4a7),
  (0x1bee4766ae2907a1, 0xd0b2dd4006a895fba49f3b9b155959e2dbc49e6498d64cd064105d64ac67ee68,
    0x00000d1b0e49d39279fe7297d405b03cb9df9562866722195e22d0121c1682be),
  (0x111952a076790934, 0xd82db371825cfccf02f647091a9778a82197ea92dca4310afe6a8ddb31435c54,
    0x87ea226077d6fda9ad2774c85bff52c25ec45feb22361cf1088ea813149437f3),
  (0x1e198e152f3f8b60, 0xbe6295b89829ce615c825e177b93ef7d09186c3cf00f2bcb352d2a31551942c9,
    0x000089375d4ef132d538a0bc9a313b4d8153473d8f587b170e87a61efa90afd6),
  (0x1119532076790934, 0xfb8ba1adb7bda2bb004edfe1cc4f4a541c3a75e79cf11e7c6a33dbaafac53e87,
    0xa2cafa794e3042ac8593a6c7eb56d03ff8ff40c117ff04352170193c21888080),
  (0x18d3bbbda025626d, 0xac9aabdea57e5ea1aeca1668dffd749410da0c4982056f9d84df2066f1c9dc39,
    0x00008788108dac43a74f47b1343d05f9d774092c5861cf7fe3caba029a7e0df5),
  (0x111953a076790934, 0xeb9d5152109ddfc658c881dcbc856256130b0d0cf88718484890545429f01d30,
    0xdc2529e344f55f76dd70dd55d98250da0f6d74f1325ee758260970e7aa3d4228),
  (0x140d3bb8b7ebea7f, 0x9274a3e31c44bc1ac9f5905b184a60a7ff74e87de8b38b591678051561fb34bf,
    0x00005ab8c58a4f481f802bcaf78b562b0243101709ff575277f803891901a093),
  (0x1119542076790934, 0x1cabad380181f914fc2e88c19453d375a2d3b418b973cc89e264c556a6e4fb73,
    0x0d878265320b31e6fe38b459b9e9242ffa3261ea2058d9e01bc815a86a058568),
  (0x055c436cd4c0b63c, 0xc9e9e0cec7d453f6e255b2a03714b5e67b8c1a4ddb5da97108f93c9c769d468f,
    0x000027b05495d9aca4f76bd152693f55875bdea64be8953db1b49093169ce103),
  (0x111954a076790934, 0xf5d25e049826e955dc7b9836724852b7f134da1010f9f2fc5b07ba50e3105aab,
    0xbaa9a8f47371068c5476e8434b50110cafaa087d86e7e2755a266a0de3a7dc81),
  (0x045775dda51c1120, 0xa9f36043291f2301cfd23da0810f7a4e286f29aec60174e47a06d9ce3d1b48b3,
    0x0000a5f52e0e77b15a8aabdaa4d79d38204bb971a773d11999a5dda4ff1130f0),
  (0x1119552076790934, 0xbcd259c69ee877a4f9998adca71592a8b137c69678229196736bee2ab6bb29e2,
    0xfb2332080afeb9f9431db27e60ddcee441b81d76207b0eb974804669c94383ae),
  (0x04ca9a82ec0c2535, 0x71ccdf9ac8e7b0f99f85ed211c6fbbda6f07e58c7e40a97735e6ad0192d90970,
    0x0000e713df1e1966d3fbe377f3f57bf421b9f9b586b50260e19b58f9dd2033bf),
  (0x111955a076790934, 0xdf62ea7a4b9126f29e2900c38cac1ca69427d0a29396528d500bf39769ac0cd7,
    0xa2e4f644bdbd5dc09d3eb1864dffc03b13a6f5b5be79c5b0e0356a7153734d75),
  (0x0aa4b4f97e7bde66, 0xe01baa8d4f324cd12513e410f99a5406d722b86c5fa8acaaef55cf014615b892,
    0x000062fe388464a1ab4594afe1dbb94ba5fe209613fc094059a7608fa80f4bd3),
  (0x1119562076790934, 0x4e5880be925fb2cdeeb65045fb363bdd099f184c8b6c86301a92a36d50cd570e,
    0x2728b9881d819154b526e7bb77a605ccd0b7db3131261f990ecb29f95819496c),
  (0x0bf38bf15abd8243, 0x43f5a3c72e084675d77840d9ac351ff4338448d41c088b62e65a13e6736b5d23,
    0x00006bee0c050e3e10d336053217cc42304a734280c485ab84de5d0f27d6c084),
  (0x111956a076790934, 0xe4ed95d3adcbdc92cd224650d9d28b9322b6c8e5a71b9465a5d14d6d8a1b33c6,
    0xc3d2689ca5069b14f73b8ebeebd0c46b330621cfa4ac127823bfbab818c3beac),
  (0x1f38da60bb2b2776, 0xf3cad41ff742ffba246d56ea76f9fde7d27cf5713a91646bcdb5004a11817c6b,
    0x000088b271bd18e7f45e00cdaa1087c849cfa970af214c2318aa5f3013e7d039),
  (0x1119572076790934, 0xe2487a08e04b2561b4002f90f406946dc02e06f3ee7676a07ddba15f7beb7380,
    0x780cfc77232da7bf8c5834c99e173329af25d01c8dcb8530faa13f0b04f13e2c),
  (0x06c98d37e96c2933, 0x0c8b950027e0e46137676dc74fcd86e40ca1c9a700abc85aa38e073aa11692b7,
    0x0000f6a2649822ecf9008dcd29028e234a0c0898a77901b0bca350959d5bb833),
  (0x111957a076790934, 0x60ae0230469f316cb45eb8139c7bdf419dd919cc9b8d7821e2e8e5dd13fa2559,
    0x39073d4bc3e1bf46a24cfd5ac065deb6f942ad319bd281d9a67a3f695eae78dd),
  (0x1f6909a23f8c984d, 0x9a0628bece3a52e5b98cfff3cfff34c1d0cc392849038c189f67aae1e079b749,
    0x000030500c4634fbe3c0ca62adb96592d406384e4c2e3a161f0e96f7baa672c4),
  (0x1119582076790934, 0x13c1f7a3477863361130074d705e3bc566dd2a8b0f1b585a6a7999912f72919f,
    0xf9559102469a1534c28fb224d34baf1c59631a385a6928a9639f41a9c5937440),
  (0x186f66d4ca86ff3a, 0x79c19ef23d8735763b24dce5e5efb94241e2c2bd66391c9abc9556c1a466bb03,
    0x00005846f06dd9a3f30c158db2c6f97268d5add5fdc616cfc5c61f9fe5a728e3),
  (0x111958a076790934, 0xb128d10b65e9b7e7f06869a8786cc8903041d50271692842d1cbac4c445d68cd,
    0xe83b10f5bf2cbc7f5cadfa98345f6c1b39c8a2abaa4012974b8df5acc2a4977c),
  (0x1845a99b4ae9ff14, 0xa8fbc41a906f8dceafdcf94306789a195913e03eed550c67a4f4d4b0411e61c1,
    0x00008112c692abb35984d9dd3dff89a2a2620a1c311ed16b8d30004de29ef156),
  (0x1119592076790934, 0x60caefe633b6a81cc8f4c6f845af2e9f8c70add3f518e4a82e6b32332d772d36,
    0x68c3edc820c717837017959f192b1a8d9e718442dbb3509af00b4f1854670017),
  (0x00237cba43b627e2, 0x3b397f036727aa4e19f6de1711362adc2e32007030b1d2416d525f4716679fba,
    0x0000116c05bb08d276027b8e1e70d95eed7b367a1ad357a42c41feddfafb5b2d),
  (0x111959a076790934, 0x3f5f30b0e501fd25e40ec19019ea6694de5d61ba471f499a33c2577d1be34111,
    0xc39680414291a5fc718fe1f0f97bd6aa05b3b69bc90dd22ce9222c791e19039d),
  (0x1d2040d2324c2426, 0xbc5c7ddeeacb472059cd83d17aac04458e69bf0fd85459c6c4b3acbfa381e020,
    0x00002e2318f5a21c646d70ef7841906aa822072988b475b7b838b65215d1f446),
  (0x11195a2076790934, 0x226cf6e28fec22e58b2058579285f7f3864c784f3634159f0f2871d7cc801191,
    0x67ed2b472de52bc134d42044ed4678a17b08ea162ed3257290bb5a11cd2b9b9d),
  (0x1c9d89a7488bc077, 0x08c80e3030c581b0bc30ffe800f8eb7169d85e920b81239219cd88032d8a6999,
    0x00002ef23b2bbc2ca77f6dbd4b3074a3e1aba2f18c49907c54c187394ee32ab1),
  (0x11195aa076790934, 0xb6485ff292d67d3c0abbf18bac3836a313096694241b76ec3f111a8963d5d3aa,
    0xc0116af351dc0fd755944a67414eff8c2431452004f14e71e7d1a0b131fa0a4d),
  (0x1576517d33256fa2, 0xaf677378b7fc6f314881c0d24dc1b8c98148e80515281d2439fedee737e316b3,
    0x00003052f2dcf5a0915a05eb9847cb188f38bdd391c116449c1e6c862e986ba5),
  (0x11195b2076790934, 0x0827fb05b83ff0b67eb64d13349876544c89a83629aa70a72c990c86430f5faf,
    0x2ee9af32c0635e5857a2dea777cb7ac06997ab4c2ad09fd1074f742e93ba9d18),
  (0x006cb521d07e3797, 0x15b271a40f1337c1e4e690d4b6b5b25d31b39831618b094037e46f9d699e383b,
    0x00002cd90f2ce9f7fe0befa568b415317b957806fdfc4e6bc26efddee23c0550),
  (0x11195ba076790934, 0x0d5cb6b95f79c7a30d50746b293a4bd2418ae88d57ffef23167181b755cdb906,
    0x58c20f93e7ef56ad9ab03c3e5302ffa407667745de17db1cd84d0bbc007ed764),
  (0x19909ee08d7f04c3, 0x5a50b9833d354530c06c97cc53d18a4ab6e227778b175df00586f1d87f68d0ad,
    0x000088a47e0c33dc298020da9b6e6858506480b6e18bc98c33f794d030dda710),
  (0x11195c2076790934, 0x9888c3576e39e7bb6d496fded78968d2215aed7d408f26f140f0a8f11e4f745f,
    0x30757cf5405639a202db769accd3cb7a6db5450b20113ee64f0fc37f505f9879),
  (0x168b09217b81fb59, 0x63690382ca57e22655910b58348291c0d1189661837bb454d3b6a73eb6b3d4f4,
    0x0000075932147434e5c16d589a197719d2f456558622d17733d861a082424646),
  (0x11195ca076790934, 0x21ecb60aa007b0505fefa2b67003f3c638f98819ef769055e430b4ac4ed8b758,
    0x0b2270601ba1f2bc12b65eacabeac81b1730071b9a3a599671faffed785bedfb),
  (0x193bc939ac932e60, 0x4e501044573e04e0067fb0a7fa1fb321e462b8a7bc3f29ddf9753a14e0c386d3,
    0x0000c684add2f0aeb65665e0f47ce2a134f19eb293ea5fee7cb0ce26afb5d20e),
  (0x11195d2076790934, 0x955b20254b97e1de9b0426d3d7ac17efbbbf1a0eedc44ba040cd0f403581ee59,
    0x5476d06b1f70a09a7aeb18103fafd05b50aaa5799fba207f6ce504ad38232088),
  (0x0f742c8c5bd9d335, 0xa68c786de014b3b8595dccddbfffc4582338ad2bb15e2a817b434c82bd26fb7b,
    0x0000a1c1121577f57aa5190060d6a71c855a76cf0296cefaf69840cb6b4d1e15),
  (0x11195da076790934, 0xef5047d39b5883a516946f75476698e34c7b6bcf2077157c9d57df339e609b88,
    0xc96f59000dffeb9a989dd55e164793a427bceabecf76e22f5dc9578608699be6),
  (0x131880ef5d90072a, 0xb4164a9821e47a6c83325f6a4926707d7c8dd18527fa90f940bd8da5fddcdb70,
    0x00009be785a38f11329e7527009757aabc3b366a9206b31985fd4246f7743f1c),
  (0x11195e2076790934, 0x2704e1ffc17b6b8b53b18dd692d4b3f34082ee0a191a26e7c65801e78745e23f,
    0x13fdade5c25cffbda725f7d73285e53a151b98a15a3c14030038246b8029090f),
  (0x09d993f3d617dcc9, 0xa3b0e8d4e67a992b45560e20033cff12ea784b33882fb5f38fd8e2ebac9a26bf,
    0x00005436a96ac83acc0f8a7686e1ba745134f6606bf4ad26577a5c01976db115),
  (0x11195ea076790934, 0xf298ad37c32689d878400006f5eca7f910df7be7f66b89fc6cc5dcc4c56ff05d,
    0xcd69407f581b65e4587cafb4f9562eed911acfc37aadff1e73d99f60e9d36463),
  (0x0aee5c22ad717eef, 0xa48d7360f058598dd5aac3603e70540eb6f5d8daa52e52a0ca31f24f22d0edaa,
    0x00004b94482acebceb4d74c024602dfd4f57b0eac12b58dac059d25f6f8f1fab),
  (0x11195f2076790934, 0x343f98c0a13ad3cd754ce276344c880089bdb9c8a22ae85b10587c96322ef57c,
    0x1f66dd3cff4091b5be8eecfe876ba08ba7874fcb4e4c284f364f210da2c3cb67),
  (0x186ec9ab2034e09a, 0x24a4f84a0457219ccfc1eb4a50f6df83f93fdfd58cf00dd904dbba3a3a5592d7,
    0x000000541d9c9018c8b4c7f697c1ea7e510c108e54f5fbbc4167bdd9d0c2e751),
  (0x11195fa076790934, 0x005574eaa1985dfb4e2f4628c6a71179f991c572bc74d62364017bf34b94def6,
    0x0b4eae8613de56f6bd00d5909d169deeb7bc18b64ca9f5454198234666c64279),
  (0x086d9cde5fce75b3, 0xebbae124c1ceaeb59fa3fa24f9fe468a67c67fb87d529d603d71417ebe191df0,
    0x0000085d0070ed43e58e02a120f535a709846f5ae738a54c76841dd89a4d49e7),
  (0x1119602076790934, 0xaea00a68ddb7ae997d45d2246373c4947eaff328fc684f716afcc81262a87dfa,
    0xd260fce5ce4336a127adc13cf5f112df1ab5f54e5bebf68bd241798c2a0b7eab),
  (0x18d6c885cc879bd9, 0x8666b1766648a97417bc99738643e2f2b08f5250344bc1c4500839992a6bc2ad,
    0x00001b95d270f3ef10990b9966f5e690711fd3cda3bf73107ad2a1a257ed712b),
  (0x111960a076790934, 0x1f097c1d25b2386de138f72ff42343f7e889710efaa325b18e1b45f20997bfe0,
    0x419cbfdb54ba595f028912516a2fe94649ded0944540dbc47f40ef39555a6765),
  (0x15d638ea2d1d60a2, 0x6e5c0ea668c37c9c66d1d4063fdef399dd314680c1eca2480cf69d75b2f88b05,
    0x0000ec8491e0a3e0c42569ad7ed6406dec3142473044e0d59866efc99c56e5f4),
  (0x1119612076790934, 0xe65d7e983bea42e724cc666d9f03e42602ae58b0310310b1060db6a387a89fde,
    0x5e8200b28e7191aa9febf171016c1ecb843503a635fe9c43dd4f3f76a0de7c2c),
  (0x1813109eb379e2f5, 0xd5d1bba755e3209aee5e4f96edecfb842520aba166592f00efe45643299bfc60,
    0x0000a48b1c6ad66c4b3b09e446ef0c342a64237882ab34b0d348ca11e80d05d3),
  (0x111961a076790934, 0x4b15ece05252ca45f85d28ff57c08f385c7d3546475ac5de9d186afe6ed8d59b,
    0x147ca74f38c178bee48c14ac43f42e769e9b1bd54aadf7ca81587b440a9114e2),
  (0x02cd823d40b74a27, 0x0609e20019ac4c489fddba919370b2a47ff8e640f12b84cfd97ba2a5947ce55c,
    0x0000f41be5455831e3c37778d158dc1a61be2d37c541f1bc2920350d622f5823),
  (0x1119622076790934, 0xc57fac65eef621e18545f3137106e9687838eb9ea06b1ccd71a5be3db7752515,
    0xa218d07ea5e6abffe5dd25c0df2556800511ade4081db40b22582cb50f570fa4),
  (0x10bd124c4ebd90d0, 0x637440c19668811082bfbccab00cabf9b4aa80ef2fffe8b7ac760154dfe5f195,
    0x00005ba7142f0ebc110a4513786358c8ea6e5d2508b09671192f32c770871eb6),
  (0x111962a076790934, 0xd5cfa7d062459c9fb8c26cda6d6cfd437147fdc0d9ce08bb4794aa1f491f2a29,
    0x360a573583d3c23e2df18650cec3c5c87af92c712eaba4a81feac00cb1308c57),
  (0x162eb8fd8c1161ef, 0x9c30e721489baa8c3113c584a59d9bbf205b88e4bfda942a4cf4433492e75068,
    0x0000d16c929b2f17714b3a7aee27324d640a95bc1b068473826f6e65c8df10e3),
  (0x1119632076790934, 0x7cbc7db19eb0b5180c9fc8e6269c9d146e488f9ed565e7752f88a823058f48d8,
    0xa48bbecfffdbde9c7b23ebe38098389d36a89e6aa1c19dd24c4331d91c6c03c9),
  (0x17047fbb1406b675, 0xb75abf52d197d2c5e79e21208d5ee7e75d5a3559088ad1671830482cc3f56ecd,
    0x0000c08b1a226cf16f01fcc6af1a91eb886fe8d5e8555bc4d08dc7f43f3505b1),
  (0x111963a076790934, 0x3e06af696c35f01c0656f28bea9ceed4e2e689a238e95d8c611769b34ea70a58,
    0x900d8148e8e28fda5d77a596003abf0ede7391f86e859a815a62715da0d8c212),
  (0x17cf4d0d27f7870f, 0x8faf8d9a687b0d5422a59918b99cd8414de468a4ebc7a3fa562e14dc54fdbc78,
    0x00003fe959ba6bfd3343b1350b01fb64d2f14ef265c4fa6658e9ca730eeef5bd),
  (0x16348df6258cbd7d, 0x46f33a6956ae78bb3c131f5a9d783b14dacead1c4536a8a637a7bbc9401fa5c0,
    0xd8017d9be24cc92c132e991e74611a46a5627f095dfcd052739bed12bfbf9aa8),
  (0x1ed548040659fa16, 0x2a03cfc5fff6184c47b8873089d47ab8915cd80e801820d176d5c3464a179107,
    0x11eff9a5ab8e22948d9a4f8f5109c5ac3db59940e953815ec6951480647b7da5),
  (0x098ba620484e5e4b, 0x82bd0cdf4a790101f529179a1da553e5cc4a5bebd652cb2724105f1b748b4aa8,
    0x3617b05231dcdc125462d2396b0da048873038d6faa3897d2cd84d10e7ac8bb8),
  (0x1259b078fe4a4c04, 0xe7bb9706723a26ef78daa3bf6fa55640f226a709da85ddeeb0d39d817e8c6d6a,
    0xd22243af48c1760fce5a72191b90c337fcc67c7c5102b4827884db99ddf84ff7),
  (0x12dbeeeaea22aa4c, 0x0d9a78525a81097592c60638324dd4490f6682ffcfcbe81772bb7682cb3f5ede,
    0x76232cc0f28c62ebcfd0eb8f2cc66d203f0c3c1fea37e67c05b6721913f0c25d),
  (0x0b0aeb1111653751, 0xc8c669f9918794d1b5d32cd067f050ae797780eb3b9181c84f864fca890e7e6d,
    0x0000d5e38a64b39399cadec444155cd835f8c1a6e7afb3d4813a0e2dd40656de)]

/-- The fingerprint of a string with the number `n`. -/
def fingerprint (n : ℕ) : ℕ := n % (2 ^ 61 - 1)

/-- The digest of a string with the number `n`: the string is known by its fingerprint, or is itself
    a digest of the table. -/
def digestIn (n fingerprint : ℕ) : List (ℕ × ℕ × ℕ) → ℕ
  | [] => 0
  | (key, inner, outer) :: rest =>
    bif fingerprint.beq key then inner else bif n.beq inner then outer
    else digestIn n fingerprint rest

def sampleDigest (n : ℕ) : ℕ := digestIn n (fingerprint n) sampleDigests

/-- Signatures by the genesis key: the digest that is signed, and the signature in DER. -/
def sampleSignatures : List (ℕ × ℕ) :=
  [(0xd8017d9be24cc92c132e991e74611a46a5627f095dfcd052739bed12bfbf9aa8,
    0x304402203b505308a8682161ae52aba063b6f1f93353119c82af19aceee9a4092c30a8cf02204045e3dcfd2b92c142e0a6cbca24e0fa135a26c6284ee4c546215d40dcbb6d7b),
  (0x3617b05231dcdc125462d2396b0da048873038d6faa3897d2cd84d10e7ac8bb8,
    0x30440220168287d4027478ccc93d4328936fdfdee832cd2c1b0393209fd12350c71bf40c02201c2b0ed81e62de80c7ce638398e5c4310875517d887e1ab588ad1b0131b76898)]

/-- The library functions on the strings of the sample chain. -/
@[reducible] def sampleCrypto : Crypto where
  sha256 data := digestOf (sampleDigest (ofLe data))
  verifyEcdsaDer hash der key := decide (key = genesisPublicKey) &&
    sampleSignatures.contains (ofLe hash.bytes, ofLe der.reverse)
  validCompressedPublicKey key := key = genesisPublicKey

attribute [local instance] sampleCrypto

theorem digestIn_lt {n fingerprint bound : ℕ} {table : List (ℕ × ℕ × ℕ)} (hpos : 0 < bound)
    (h : ∀ row ∈ table, row.2.1 < bound ∧ row.2.2 < bound) : digestIn n fingerprint table < bound := by
  induction table with
  | nil => exact hpos
  | cons row table ih =>
    obtain ⟨hrow, htable⟩ := List.forall_mem_cons.1 h
    rw [digestIn]
    cases fingerprint.beq row.1 with
    | true => exact hrow.1
    | false =>
      cases n.beq row.2.1 with
      | true => exact hrow.2
      | false => exact ih htable

/-- The checks of a row in numbers. -/
def sampleRowOk (tip : Tip) (row : Mined) : Bool :=
  Nat.blt (tip.height + 1) 128 && decide (tip.time < tip.time + 1) &&
  (sampleDigest (sampleDigest (coinbaseNumber (tip.height + 1)))).beq row.txid &&
  Nat.blt row.txid (256 ^ 32) && tip.seen.all (fun n => !n.beq row.txid) && Nat.blt tip.hash (256 ^ 32) &&
  (sampleDigest (sampleDigest (headerNumber tip.hash row.txid (tip.time + 1) row.nonce))).beq row.hash &&
  Nat.blt row.hash (0xffff * 256 ^ 28)

def sampleRowsOk : Tip → List Mined → Bool
  | _, [] => true
  | tip, row :: rows => sampleRowOk tip row && sampleRowsOk (tip.next row) rows

def sampleNonces : List UInt32 :=
  [126516, 6155, 289118, 61190, 5230, 31112, 8644, 1141, 4382, 37536, 135604, 7505, 43862,
    230785, 7930, 140250, 27487, 31966, 27877, 2952, 59440, 56076, 118318, 64904, 84357, 128205,
    31347, 65181, 115938, 21882, 10171, 13825, 33073, 3574, 34153, 108935, 50080, 3679, 133567,
    29881, 33502, 40550, 58181, 6463, 34936, 2400, 5962, 133464, 29502, 18137, 69630, 93732,
    10617, 21214, 54532, 5227, 30038, 33612, 22671, 128863, 136209, 16057, 94044, 181857, 462,
    83425, 3176, 103206, 102776, 37703, 115067, 81649, 81572, 89694, 44224, 98965, 102480, 29637,
    27658, 61820, 48351, 60308, 359, 38575, 3484, 373909, 14408, 262609, 37063, 46523, 147464,
    6685, 19187, 76040, 60628, 13681, 102861, 47444, 118997, 40887, 14631, 93928]

def rowsFrom : List UInt32 → List (ℕ × ℕ × ℕ) → List Mined
  | nonce :: nonces, (_, _, txid) :: (_, _, hash) :: digests =>
    ⟨nonce, txid, hash⟩ :: rowsFrom nonces digests
  | _, _ => []

def sampleRows : List Mined := rowsFrom sampleNonces (sampleDigests.drop 2)

/-- The end of the chain that has only the genesis block. -/
def genesisTip : Tip where
  height := 0
  time := 1784699218
  hash := 0x00007e7bc2b6d593d9bacb54cd32bacaf9a99ff86adc9ac6fbe36134fff1c372
  seen := [0x2cf10845810fce4b828950111a45d66e33d8649db1265f088cf4607789ae1442]

/-- The end of the chain with `n` blocks above the genesis block. -/
def sampleTip (n : ℕ) : Tip := (sampleRows.take n).foldl Tip.next genesisTip

def sampleChain (n : ℕ) : List StoredBlock :=
  genesisStored :: minedBlocks genesisTip (sampleRows.take n)

/-- The block of the sample chain at a height. -/
def sampleBlock (height : ℕ) : StoredBlock := (sampleChain 2).getD height genesisStored

/-- The digests are in range, and the rows pass their checks. -/
theorem sample_facts : (∀ row ∈ sampleDigests, row.2.1 < 256 ^ 32 ∧ row.2.2 < 256 ^ 32) ∧
    sampleRowsOk genesisTip sampleRows = true := by
  decide +kernel

/-- Hashing in numbers. -/
theorem sha256d_sample (data : Bytes) :
    sha256d data = digestOf (sampleDigest (sampleDigest (ofLe data))) := by
  have hlt : sampleDigest (ofLe data) < 256 ^ 32 := digestIn_lt (by norm_num) sample_facts.1
  have hsha : ∀ data : Bytes, sha256 data = digestOf (sampleDigest (ofLe data)) := fun _ => rfl
  rw [sha256d, hsha, hsha, ofLe_digestOf hlt]

theorem target_testnetBits : compactToTarget testnetBits = .ok (0xffff * 256 ^ 28) := rfl

theorem RowOk.of_sample {tip : Tip} {row : Mined} (h : sampleRowOk tip row) : RowOk tip row := by
  simp only [sampleRowOk, Bool.and_eq_true, Nat.blt_eq, Nat.beq_eq, decide_eq_true_eq, List.all_eq_true,
    Bool.not_eq_true'] at h
  obtain ⟨⟨⟨⟨⟨⟨⟨hheight, htime⟩, htxid⟩, hlt⟩, hfresh⟩, hprevious⟩, hhash⟩, hwork⟩ := h
  refine ⟨hheight, htime, ?_, hlt, fun hmem => ?_, ?_, ?_⟩
  · rw [sha256d_sample, ofLe_minedCoinbase hheight, htxid]
  · exact absurd (hfresh _ hmem) (by rw [Nat.beq_refl]; decide)
  · rw [sha256d_sample, headerOf_encode hprevious hlt, hhash]
  · have hle : row.hash < 256 ^ 32 := hwork.trans (by norm_num)
    simp only [checkProofOfWork, target_testnetBits, ofLe_digestOf hle, bind, Except.bind, pure,
      Except.pure, hwork.le, decide_true]

theorem RowsOk.of_sample {tip : Tip} {rows : List Mined} (h : sampleRowsOk tip rows) :
    RowsOk tip rows := by
  induction rows generalizing tip with
  | nil => exact trivial
  | cons row rows ih =>
    rw [sampleRowsOk, Bool.and_eq_true] at h
    exact ⟨.of_sample h.1, ih h.2⟩

theorem sampleRows_ok : RowsOk genesisTip sampleRows := .of_sample sample_facts.2

theorem genesisTip_ends : genesisTip.Ends [genesisStored] ∅ := by
  refine ⟨.genesis ?_, rfl, ⟨[], genesisStored, rfl, ?_, rfl⟩, ?_⟩
  · constructor <;> decide +kernel
  · decide +kernel
  · intro t ht
    obtain rfl : t = genesisCoinbase := by simpa [allTransactions, genesisStored] using ht
    exact ⟨_, List.mem_singleton.2 rfl, by norm_num, by decide +kernel⟩

/-- The output of the first block above the genesis block. -/
def firstOutput : OutPoint where
  txid := hashToDisplayHex
    (digestOf 0x474e7a65b18465d6ec81e28ce7ec157d1ab3b806739863a1a27986ae5386982b)
  index := 0

def firstCoin : Coin := ⟨⟨initialSubsidy, sampleScript⟩, 1, true⟩

/-- The coinbase of a row has the row's identifier. -/
theorem minedCoinbase_id {i : ℕ} {row : Mined} (h : sampleRows[i]? = some row) :
    (minedCoinbase (i + 1)).id = hashToDisplayHex (digestOf row.txid) := by
  have hrows : ∀ (rows : List Mined) (tip : Tip) (i : ℕ), RowsOk tip rows → rows[i]? = some row →
      sha256d (minedCoinbase (tip.height + i + 1)).encode = digestOf row.txid := by
    intro rows
    induction rows with
    | nil => intro tip i _ h; cases h
    | cons first rows ih =>
      intro tip i hok h
      cases i with
      | zero => cases h; exact hok.1.txid
      | succ i =>
        rw [← ih (tip.next first) i hok.2 h, Tip.next, Nat.add_right_comm tip.height 1 i]
        rfl
  have hid := hrows _ _ i sampleRows_ok h
  rw [show genesisTip.height = 0 from rfl, Nat.zero_add] at hid
  rw [← hid]
  rfl

theorem firstBatch : ((minedCoinbase 1).batch 1 true).events = [.create firstOutput firstCoin] := by
  obtain ⟨row, hrow, htxid⟩ : ∃ row, sampleRows[0]? = some row ∧
      row.txid = 0x474e7a65b18465d6ec81e28ce7ec157d1ab3b806739863a1a27986ae5386982b := ⟨_, rfl, rfl⟩
  have hid : (minedCoinbase 1).id = firstOutput.txid := by
    rw [minedCoinbase_id hrow, htxid]
    rfl
  simp only [Ledger.Batch.events, Transaction.batch, hid]
  rfl

theorem sampleChain_add (n k : ℕ) : sampleChain (n + k) =
    sampleChain n ++ minedBlocks (sampleTip n) ((sampleRows.drop n).take k) := by
  rw [sampleChain, List.take_add, minedBlocks_append]
  rfl

theorem sampleChain_digests (n : ℕ) :
    (sampleChain n).map (fun stored => sha256d stored.block.header.encode) =
      (genesisTip.hash :: (sampleRows.take n).map Mined.hash).map digestOf ∧
    (allTransactions (sampleChain n)).map (fun t => sha256d t.encode) =
      (genesisTip.seen ++ (sampleRows.take n).map Mined.txid).map digestOf := by
  obtain ⟨hhash, htxid⟩ := (sampleRows_ok.take n).digests
  have hgenesis : sha256d genesisStored.block.header.encode = digestOf genesisTip.hash ∧
      [sha256d genesisCoinbase.encode] = genesisTip.seen.map digestOf := by decide +kernel
  refine ⟨congrArg₂ List.cons hgenesis.1 hhash, ?_⟩
  rw [List.map_append, ← htxid, ← hgenesis.2]
  rfl

theorem sampleTransactions_nodup : (∀ id ∈ genesisTip.seen ++ sampleRows.map Mined.txid, id < 256 ^ 32) ∧
    (genesisTip.seen ++ sampleRows.map Mined.txid).Nodup := by
  decide +kernel

/-- No two transactions of the sample chains collide. -/
theorem sampleChain_noCollision (n : ℕ) : NoCollision (allTransactions (sampleChain n)) := by
  have hsub : (genesisTip.seen ++ (sampleRows.take n).map Mined.txid).Sublist
      (genesisTip.seen ++ sampleRows.map Mined.txid) :=
    ((sampleRows.take_sublist n).map _).append_left _
  exact injOn_digests (sampleChain_digests n).2
    (fun id hid => sampleTransactions_nodup.1 id (hsub.subset hid)) (sampleTransactions_nodup.2.sublist hsub)

/-- The sample chains are accepted, and the first output remains unspent. -/
theorem sampleChain_ends (n : ℕ) :
    ∃ u, (sampleTip (n + 1)).Ends (sampleChain (n + 1)) u ∧ u[firstOutput]? = some firstCoin := by
  have hrows := sampleRows_ok.take (n + 1)
  obtain ⟨row, rows, hcons⟩ : ∃ row rows, sampleRows = row :: rows := ⟨_, _, rfl⟩
  rw [sampleTip, sampleChain, hcons, List.take_succ_cons]
  rw [hcons, List.take_succ_cons] at hrows
  obtain ⟨hrow, hrows⟩ := hrows
  obtain ⟨u₁, h₁, hadded, -⟩ := genesisTip_ends.next hrow
  obtain ⟨u, h, hkeep⟩ := h₁.rows hrows
  have hcoin : u₁[firstOutput]? = some firstCoin := by
    have hrun := hadded.run
    rw [show UInt64.ofNat (genesisTip.height + 1) = 1 from rfl,
      show genesisTip.height + 1 = 1 from rfl, firstBatch] at hrun
    exact Ledger.Run.last_create [] [] hrun (by simp)
  refine ⟨u, by simpa [minedBlocks] using h, ?_⟩
  rw [hkeep _ (mem_lookup.2 (by rw [UtxoSet.lookup, hcoin]; simp)), hcoin]

end BinaryCoin
