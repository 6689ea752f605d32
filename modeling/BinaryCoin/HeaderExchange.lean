/-
  BinaryCoin — net.cpp: a download of headers from a peer that answers from its
  own chain.

  The peer finds a block of its chain with the locator of every request, and
  sends the headers above it.  The download starts at a block that the two
  chains share, and every further request names the last header received.
-/
import BinaryCoin.ChainWork
import BinaryCoin.HeaderSync
import BinaryCoin.SideBranch

namespace BinaryCoin

open Cursor Stateful

section
variable [Crypto]

/-! ## The peer -/

/-- The loop of `headers_after_locator` over the blocks above the fork; `room` is what the response
    can still take. -/
def headersFrom (stopHash : Str) : ℕ → List StoredBlock → Except Exn (List HeaderRecord)
  | 0, _ => return []
  | _ + 1, [] => return []
  | room + 1, stored :: rest => do
    let record : HeaderRecord := ⟨stored.height, stored.block.header⟩
    if stopHash ≠ zeroHashHex then
      if (← stored.hashHex) = stopHash then return [record]
    return record :: (← headersFrom stopHash room rest)

def headersAfterLocator (blocks : List StoredBlock) (request : GetHeadersRequest) :
    Except Exn (List HeaderRecord) := do
  let forkIndex ← locateForkIndex blocks request.locator
  headersFrom request.stopHash maxHeadersPerResponse (blocks.drop (forkIndex + 1))

/-- The handler of `getheaders` in `TestnetP2pServer`, after `chain.load()`: the payload of the
    `headers` message. -/
def answerGetheaders (blocks : List StoredBlock) (payload : Bytes) : Except Exn Bytes := do
  let request ← deserializeGetheaders payload
  serializeHeaders (← headersAfterLocator blocks request)

variable {peer : PeerVersion} {s s' : HeaderDownload}

/-! ## The headers of a chain -/

/-- The headers above height `i`, up to height `j`. -/
def headersBetween (blocks : List StoredBlock) (i j : ℕ) : List HeaderRecord :=
  ((blocks.take (j + 1)).drop (i + 1)).map StoredBlock.headerRecord

/-- Blocks with one hash are equal. -/
def Separate (blocks : List StoredBlock) : Prop := ∀ a ∈ blocks, ∀ b ∈ blocks, a.id = b.id → a = b

section
omit [Crypto]
variable {blocks : List StoredBlock} {b : StoredBlock} {i j : ℕ}

theorem headersBetween_self : headersBetween blocks i i = [] := by
  rw [headersBetween, List.drop_take_self, List.map_nil]

theorem headersBetween_succ (hij : i ≤ j) (hb : blocks[j + 1]? = some b) :
    headersBetween blocks i (j + 1) = headersBetween blocks i j ++ [b.headerRecord] := by
  obtain ⟨hlt, rfl⟩ := List.getElem?_eq_some_iff.1 hb
  rw [headersBetween, headersBetween, List.take_succ_eq_append_getElem hlt,
    List.drop_append_of_le_length (by rw [List.length_take]; omega), List.map_append]
  rfl

theorem headersBetween_getLast? (hij : i < j) (hb : blocks[j]? = some b) :
    (headersBetween blocks i j).getLast? = some b.headerRecord := by
  obtain ⟨j, rfl⟩ := Nat.exists_eq_add_one_of_ne_zero (Nat.ne_zero_of_lt hij)
  rw [headersBetween_succ (by omega) hb, List.getLast?_concat]

end

theorem headersFrom_all (room : ℕ) (blocks : List StoredBlock) :
    headersFrom zeroHashHex room blocks = .ok ((blocks.take room).map StoredBlock.headerRecord) := by
  induction blocks generalizing room with
  | nil => cases room <;> rfl
  | cons b rest ih =>
    cases room with
    | zero => rfl
    | succ room =>
      simp only [headersFrom, ne_eq, not_true_eq_false, if_false, ih room]
      rfl

variable {A B : List StoredBlock} {uA uB : UtxoSet} {a b : StoredBlock} {i j : ℕ}

theorem Chain.headerRecord_ok (h : Chain B uB) : ∀ b ∈ B.tail, b.headerRecord.Ok := by
  intro b hb
  obtain ⟨previous, index, u₁, u₂, hconnects⟩ := h.connects_of_mem b hb
  exact ⟨h.header_canonical b (List.mem_of_mem_tail hb), hconnects.bits, hconnects.proofOfWork⟩

theorem Chain.succ_height (h : Chain B uB) (ha : B[j]? = some a) (hb : B[j + 1]? = some b) :
    b.height = a.height + 1 := by
  have hlength := h.length_le
  have hlt := (List.getElem?_eq_some_iff.1 hb).1
  refine UInt64.toNat_inj.1 ?_
  rw [UInt64.toNat_add, h.height _ _ ha, h.height _ _ hb]
  exact (Nat.mod_eq_of_lt (by omega)).symm

theorem Chain.succ_time (h : Chain B uB) (ha : B[j]? = some a) (hb : B[j + 1]? = some b) :
    a.block.header.time < b.block.header.time := by
  obtain ⟨hi, rfl⟩ := List.getElem?_eq_some_iff.1 ha
  obtain ⟨hi', rfl⟩ := List.getElem?_eq_some_iff.1 hb
  exact List.pairwise_iff_getElem.1 (List.pairwise_map.1 h.times) _ _ hi hi' (Nat.lt_succ_self _)

theorem Chain.hashHex_id (h : Chain B uB) (hb : b ∈ B) : b.hashHex = .ok b.id :=
  (h.stored_canonical b hb).hashHex_id

/-- A block names the hash of the block below. -/
theorem Chain.previousHash (h : Chain B uB) (ha : B[j]? = some a) (hb : B[j + 1]? = some b) :
    b.block.header.previousHash = a.id :=
  (Except.ok.inj ((h.hashHex_id (List.mem_of_getElem? ha)).symm.trans (h.link ha hb))).symm

/-! ## A batch from the peer's chain -/

/-- What `version` and `status` say of a chain. -/
structure Announces (peer : PeerVersion) (blocks : List StoredBlock) : Prop where
  tip : ∃ tip, blocks.getLast? = some tip ∧ peer.bestHeight = tip.height ∧
    tip.hashHex = .ok peer.tipHash
  work : chainworkHex blocks = .ok peer.chainwork

/-- The headers of the peer's chain above height `i`, up to height `j`, have come. -/
structure Downloaded (B : List StoredBlock) (i j : ℕ) (s : HeaderDownload) : Prop where
  le : i ≤ j
  lt : j < B.length
  headers : s.headers = headersBetween B i j

omit [Crypto] in
theorem Downloaded.block (h : Downloaded B i j s) : ∃ c, B[j]? = some c :=
  ⟨_, List.getElem?_eq_getElem h.lt⟩

omit [Crypto] in
theorem Downloaded.last (h : Downloaded B i j s) (hij : i < j) (hb : B[j]? = some b) :
    s.headers.getLast? = some b.headerRecord := by
  rw [h.headers, headersBetween_getLast? hij hb]

omit [Crypto] in
theorem Downloaded.none (h : Downloaded B i i s) : s.headers.getLast? = none := by
  rw [h.headers, headersBetween_self, List.getLast?_nil]

/-- A block of the peer's chain is at one height of the other chain only. -/
theorem hashAt_unique (hA : Chain A uA) (hB : Chain B uB) (hsep : Separate (A ++ B))
    (hb : B[j]? = some b) : ∀ k, hashAt A k = .ok b.id → A[k]? = some b ∧ k = j := by
  intro k hk
  obtain ⟨a, ha, hhash⟩ := hashAt_ok.1 hk
  have hid : a.id = b.id :=
    Except.ok.inj ((hA.hashHex_id (List.mem_of_getElem? ha)).symm.trans hhash)
  obtain rfl := hsep a (List.mem_append_left _ (List.mem_of_getElem? ha)) b
    (List.mem_append_right _ (List.mem_of_getElem? hb)) hid
  exact ⟨ha, (hA.height k a ha).symm.trans (hB.height j a hb)⟩

theorem Chain.hashAt (h : Chain A uA) (ha : A[i]? = some a) : hashAt A i = .ok a.id :=
  hashAt_ok.2 ⟨a, ha, h.hashHex_id (List.mem_of_getElem? ha)⟩

theorem Chain.exists_hashAt (h : Chain A uA) : ∀ k < A.length, ∃ hash, BinaryCoin.hashAt A k = .ok hash :=
  fun _ hk => ⟨_, h.hashAt (List.getElem?_eq_getElem hk)⟩

theorem connectBatch_run (hA : Chain A uA) (hB : Chain B uB) (hsep : Separate (A ++ B))
    (hshared : A[i]? = B[i]?) (h : Downloaded B i j s) (hfork : i < j → s.forkIndex = i)
    (hb : B[j + 1]? = some b) :
    (connectBatch A b.headerRecord).run s = .ok () { s with forkIndex := i } := by
  obtain ⟨c, hc⟩ := h.block
  have hid := hB.hashHex_id (List.mem_of_getElem? hc)
  have hheight := hB.succ_height hc hb
  have hprevious := hB.previousHash hc hb
  simp only [connectBatch, run_bind_ok, run_get_ok]
  refine ⟨s, s, ⟨rfl, rfl⟩, ?_⟩
  rcases h.le.eq_or_lt with rfl | hij
  · -- the first batch follows a block of the own chain
    rw [hc] at hshared
    have hlt := (List.getElem?_eq_some_iff.1 hshared).1
    obtain ⟨hfound, -⟩ := searchBelow_run hA.exists_hashAt fun k _ hk =>
      (hashAt_unique hA hB hsep hc k hk).2
    rw [h.none]
    simp only [run_bind_ok, lift_run_ok, run_set_ok, throwIf_run_ok, orThrow_ok, not_not]
    refine ⟨some i, s, ⟨?_, rfl⟩, (), _, rfl, (), _, ⟨?_, rfl⟩, c, _, ⟨?_, rfl⟩, hheight, ?_⟩
    · show searchBelow A b.block.header.previousHash A.length = _
      rw [hprevious]
      exact hfound hlt (hA.hashAt hshared)
    · exact hlt.ne
    · exact hshared
    · rfl
  · rw [h.last hij hc]
    simp only [run_bind_ok, lift_run_ok, throwIf_run_ok, not_not]
    refine ⟨(), s, ⟨hheight, rfl⟩, c.id, s, ⟨hid, rfl⟩,
      hprevious, ?_⟩
    rw [← hfork hij]

theorem storeHeader_run (hB : Chain B uB) (hshared : A[i]? = B[i]?) (h : Downloaded B i j s)
    (hfork : s.forkIndex = i) (hb : B[j + 1]? = some b) :
    (storeHeader A b.headerRecord).run s =
      .ok () { s with headers := headersBetween B i (j + 1) } := by
  obtain ⟨c, hc⟩ := h.block
  have hid := hB.hashHex_id (List.mem_of_getElem? hc)
  have htime := UInt32.not_le.2 (hB.succ_time hc hb)
  simp only [storeHeader, run_bind_ok, run_get_ok, lift_run_ok, run_set_ok]
  refine ⟨s, s, ⟨rfl, rfl⟩, (), s, ⟨?_, rfl⟩, ?_⟩
  · rcases h.le.eq_or_lt with rfl | hij
    · rw [checkHeader, h.none]
      simp only [except_bind_ok, throwIf_ok, orThrow_ok, hfork, hshared]
      exact ⟨_, hc, htime⟩
    · rw [checkHeader, h.last hij hc]
      simp only [except_bind_ok, throwIf_ok, not_not]
      exact ⟨(), hB.succ_height hc hb, _, hid, (),
        hB.previousHash hc hb, htime⟩
  · rw [headersBetween_succ h.le hb, h.headers]

theorem storeHeaders_run (hB : Chain B uB) (hshared : A[i]? = B[i]?) (n : ℕ) (h : Downloaded B i j s)
    (hfork : s.forkIndex = i) (hn : j + n < B.length) :
    (forM (((B.drop (j + 1)).take n).map StoredBlock.headerRecord) (storeHeader A) :
      DownloadM Unit).run s = .ok () { s with headers := headersBetween B i (j + n) } := by
  induction n generalizing j s with
  | zero =>
    rw [List.take_zero, Nat.add_zero, ← h.headers]
    rfl
  | succ n ih =>
    have hlt : j + 1 < B.length := by omega
    have hb := List.getElem?_eq_getElem hlt
    have hstored := storeHeader_run hB hshared h hfork hb
    rw [List.drop_eq_getElem_cons hlt, List.take_succ_cons, List.map_cons, List.forM_cons,
      run_bind_of_ok hstored]
    have hrest := ih (s := { s with headers := headersBetween B i (j + 1) })
      ⟨by have := h.le; omega, hlt, rfl⟩ hfork (by omega)
    rw [hrest, Nat.add_right_comm, Nat.add_assoc]

/-- A block at the top of its chain is the only one with its hash. -/
theorem top_of_id (hB : Chain B uB) (hsep : Separate B) {tip : StoredBlock}
    (htip : B.getLast? = some tip) (hc : B[j]? = some b) :
    (j + 1 = B.length ↔ b.id = tip.id) ∧ b.height ≤ tip.height := by
  have hpos := List.length_pos_of_ne_nil hB.ne_nil
  have hlast : B[B.length - 1]? = some tip := by rw [← List.getLast?_eq_getElem?, htip]
  have hj := (List.getElem?_eq_some_iff.1 hc).1
  have hheight := hB.height j b hc
  have htop := hB.height _ tip hlast
  refine ⟨⟨fun hlen => ?_, fun hid => ?_⟩, ?_⟩
  · obtain rfl : j = B.length - 1 := by omega
    rw [hc] at hlast
    rw [Option.some.inj hlast]
  · obtain rfl := hsep b (List.mem_of_getElem? hc) tip (List.mem_of_getLast? htip) hid
    omega
  · rw [UInt64.le_iff_toNat_le]
    omega

/-- What follows a batch that ends at height `j`. -/
theorem afterBatch_run (hB : Chain B uB) (hsep : Separate B) (hpeer : Announces peer B)
    (h : Downloaded B i j s) (hij : i < j) (hb : B[j]? = some b) :
    (j + 1 = B.length → (afterBatch peer).run s = .ok true s) ∧
    (j + 1 < B.length → (afterBatch peer).run s =
      .ok false { s with locator := [b.id, testnetGenesisHash] }) := by
  obtain ⟨tip, htip, hbest, hhash⟩ := hpeer.tip
  have hid := hB.hashHex_id (List.mem_of_getElem? hb)
  have htipId : peer.tipHash = tip.id :=
    Except.ok.inj (hhash.symm.trans (hB.hashHex_id (List.mem_of_getLast? htip)))
  obtain ⟨htop, hle⟩ := top_of_id hB hsep htip hb
  have hbound : ¬ b.headerRecord.height > peer.bestHeight := by
    rw [hbest]
    exact UInt64.not_lt.2 hle
  simp only [afterBatch, run_bind_ok, run_get_ok, lift_run_ok, orThrow_ok, throwIf_run_ok]
  constructor
  · intro hlen
    have heq := htop.1 hlen
    obtain rfl := hsep b (List.mem_of_getElem? hb) tip (List.mem_of_getLast? htip) heq
    refine ⟨s, s, ⟨rfl, rfl⟩, b.headerRecord, s, ⟨h.last hij hb, rfl⟩, (), s, ⟨hbound, rfl⟩, b.id, s,
      ⟨hid, rfl⟩, ?_⟩
    rw [if_pos htipId.symm]
    simp only [run_bind_ok, throwIf_run_ok, run_pure_ok]
    exact ⟨(), s, ⟨not_not.2 hbest.symm, rfl⟩, trivial, rfl⟩
  · intro hlt
    refine ⟨s, s, ⟨rfl, rfl⟩, b.headerRecord, s, ⟨h.last hij hb, rfl⟩, (), s, ⟨hbound, rfl⟩, b.id, s,
      ⟨hid, rfl⟩, ?_⟩
    rw [if_neg fun heq => hlt.ne (htop.2 (heq.trans htipId))]
    rfl

/-! ## The exchange -/

/-- The answer to a request whose locator leads to height `j`. -/
theorem headersAfterLocator_run (hB : Chain B uB) {locator : List Str}
    (hlocate : locateForkIndex B locator = .ok j) :
    headersAfterLocator B ⟨locator, zeroHashHex⟩ =
        .ok (((B.drop (j + 1)).take maxHeadersPerResponse).map StoredBlock.headerRecord) ∧
      HeadersOk (((B.drop (j + 1)).take maxHeadersPerResponse).map StoredBlock.headerRecord) := by
  refine ⟨?_, ?_, fun record hrecord => ?_⟩
  · rw [headersAfterLocator, hlocate, except_ok_bind, headersFrom_all]
  · rw [List.length_map]
    exact List.length_take_le _ _
  · obtain ⟨b, hb, rfl⟩ := List.mem_map.1 hrecord
    have hdrop := List.mem_of_mem_take hb
    rw [← List.drop_tail] at hdrop
    exact hB.headerRecord_ok b (List.mem_of_mem_drop hdrop)

/-- The head of the loop, where the next request leads the peer to height `j`. -/
structure Requesting (B : List StoredBlock) (i j : ℕ) (s : HeaderDownload) : Prop where
  downloaded : Downloaded B i j s
  fork : i < j → s.forkIndex = i
  more : j + 1 < B.length
  locate : locateForkIndex B s.locator = .ok j
  ok : GetHeadersRequest.Ok ⟨s.locator, zeroHashHex⟩

/-- The locator of every request but the first. -/
theorem locate_last (hB : Chain B uB) (hsep : Separate B) (hb : B[j]? = some b) :
    locateForkIndex B [b.id, testnetGenesisHash] = .ok j ∧
      GetHeadersRequest.Ok ⟨[b.id, testnetGenesisHash], zeroHashHex⟩ := by
  have hself : Separate (B ++ B) := fun a ha c hc =>
    hsep a (by simpa using ha) c (by simpa using hc)
  obtain ⟨hfound, -⟩ := searchBelow_run hB.exists_hashAt fun k _ hk =>
    (hashAt_unique hB hB hself hb k hk).2
  have hlt := (List.getElem?_eq_some_iff.1 hb).1
  refine ⟨?_, by simp, by simp [maxLocatorSize], ?_, .zero⟩
  · rw [locateForkIndex, hfound hlt (hB.hashAt hb)]
    rfl
  · intro hash hmem
    rcases List.mem_cons.1 hmem with rfl | hmem
    · exact .display _
    · obtain rfl := List.mem_singleton.1 hmem
      exact testnetGenesisHash_isDisplayHex

/-- **A batch of the peer's chain is accepted.**  It reaches the top, or the next request goes on
    from where it ends. -/
theorem acceptBatch_run (hA : Chain A uA) (hB : Chain B uB) (hsep : Separate (A ++ B))
    (hshared : A[i]? = B[i]?) (hpeer : Announces peer B) (h : Requesting B i j s) {payload : Bytes}
    (hdecode : deserializeHeaders payload =
      .ok (((B.drop (j + 1)).take maxHeadersPerResponse).map StoredBlock.headerRecord)) :
    (B.length ≤ j + 1 + maxHeadersPerResponse → (acceptBatch peer ⟨A, payload⟩).run s =
      .ok true { s with headers := headersBetween B i (B.length - 1), forkIndex := i }) ∧
    (j + 1 + maxHeadersPerResponse < B.length → ∃ s', (acceptBatch peer ⟨A, payload⟩).run s =
      .ok false s' ∧ Requesting B i (j + maxHeadersPerResponse) s' ∧ s'.requests = s.requests) := by
  have hsepB : Separate B := fun a ha c hc =>
    hsep a (List.mem_append_right _ ha) c (List.mem_append_right _ hc)
  -- the batch ends at height `k`
  obtain ⟨n, hn⟩ : ∃ n, n = min maxHeadersPerResponse (B.length - (j + 1)) := ⟨_, rfl⟩
  have hmore := h.more
  have hpos : 0 < n := by
    have : 0 < maxHeadersPerResponse := by decide
    omega
  have hlt : j + n < B.length := by omega
  have htake : (B.drop (j + 1)).take maxHeadersPerResponse = (B.drop (j + 1)).take n := by
    rw [hn, List.take_eq_take_min, List.length_drop]
  obtain ⟨c, hc⟩ : ∃ c, B[j + n]? = some c := ⟨_, List.getElem?_eq_getElem hlt⟩
  have hb := List.getElem?_eq_getElem hmore
  have hconnect := connectBatch_run hA hB hsep hshared h.downloaded h.fork hb
  have hstore := storeHeaders_run hB hshared n (s := { s with forkIndex := i })
    ⟨h.downloaded.le, h.downloaded.lt, h.downloaded.headers⟩ rfl hlt
  have hdownloaded : Downloaded B i (j + n)
      { s with headers := headersBetween B i (j + n), forkIndex := i } :=
    ⟨by have := h.downloaded.le; omega, hlt, rfl⟩
  have hij : i < j + n := by have := h.downloaded.le; omega
  obtain ⟨htop, hbelow⟩ := afterBatch_run hB hsepB hpeer hdownloaded hij hc
  have hstart : (acceptBatch peer ⟨A, payload⟩).run s = (afterBatch peer).run
      { s with headers := headersBetween B i (j + n), forkIndex := i } := by
    have hfront : (((B.drop (j + 1)).take n).map StoredBlock.headerRecord).head? =
        some (B[j + 1].headerRecord) := by
      obtain ⟨n, rfl⟩ := Nat.exists_eq_add_one_of_ne_zero hpos.ne'
      rw [List.drop_eq_getElem_cons hmore]
      rfl
    rw [htake] at hdecode
    rw [acceptBatch, run_bind_of_ok (lift_run_ok.2 ⟨hdecode, rfl⟩), hfront,
      run_bind_of_ok (lift_run_ok.2 ⟨orThrow_ok.2 rfl, rfl⟩), run_bind_of_ok hconnect,
      run_bind_of_ok hstore]
  rw [hstart]
  constructor
  · intro hlen
    have hk : j + n = B.length - 1 := by omega
    rw [htop (by omega), hk]
  · intro hlen
    obtain rfl : n = maxHeadersPerResponse := by omega
    obtain ⟨hlocate, hok⟩ := locate_last hB hsepB hc
    exact ⟨_, hbelow (by omega), ⟨⟨hdownloaded.le, hlt, rfl⟩, fun _ => rfl, by omega, hlocate, hok⟩,
      rfl⟩

/-! ## The first request -/

/-- Two chains part once. -/
theorem exists_parting (hA : Chain A uA) (hB : Chain B uB) (hsep : Separate (A ++ B)) :
    ∃ n, 0 < n ∧ n ≤ A.length ∧ n ≤ B.length ∧ (∀ k < n, A[k]? = B[k]?) ∧
      ∀ k ≥ n, ∀ a b, A[k]? = some a → B[k]? = some b → a.id ≠ b.id := by
  obtain ⟨n, hcount, hpos⟩ := TestnetChain.commonCount_pos hA hB
  have hcommon := commonCount_ok hcount
  have hhash : ∀ {k : ℕ} {a b : StoredBlock}, A[k]? = some a → B[k]? = some b →
      (a.hashHex = b.hashHex ↔ a.id = b.id) := by
    intro k a b ha hb
    rw [hA.hashHex_id (List.mem_of_getElem? ha), hB.hashHex_id (List.mem_of_getElem? hb)]
    exact ⟨Except.ok.inj, congrArg _⟩
  refine ⟨n, hpos, hcommon.left_le, hcommon.right_le, fun k hk => ?_, fun k hk => ?_⟩
  · have ha := List.getElem?_eq_getElem (hk.trans_le hcommon.left_le)
    have hb := List.getElem?_eq_getElem (hk.trans_le hcommon.right_le)
    have hid := (hhash ha hb).1 (hcommon.hash k hk _ _ ha hb)
    rw [ha, hb, hsep _ (List.mem_append_left _ (List.mem_of_getElem? ha)) _
      (List.mem_append_right _ (List.mem_of_getElem? hb)) hid]
  · induction k, hk using Nat.le_induction with
    | base => exact fun a b ha hb hid => hcommon.next a b ha hb ((hhash ha hb).2 hid)
    | succ k hk ih =>
      intro a b ha hb hid
      obtain rfl := hsep a (List.mem_append_left _ (List.mem_of_getElem? ha)) b
        (List.mem_append_right _ (List.mem_of_getElem? hb)) hid
      have ha' := List.getElem?_eq_getElem (Nat.lt_of_succ_lt (List.getElem?_eq_some_iff.1 ha).1)
      have hb' := List.getElem?_eq_getElem (Nat.lt_of_succ_lt (List.getElem?_eq_some_iff.1 hb).1)
      exact ih _ _ ha' hb' ((hA.previousHash ha' ha).symm.trans (hB.previousHash hb' hb))

/-- The locator of a chain leads its peer to a block that both chains have. -/
theorem locator_shared (hA : Chain A uA) (hB : Chain B uB) (hsep : Separate (A ++ B)) :
    ∃ i locator, makeBlockLocator A = .ok locator ∧ (∀ k ≤ i, A[k]? = B[k]?) ∧ i < A.length ∧
      i < B.length ∧ locateForkIndex B locator = .ok i ∧
      GetHeadersRequest.Ok ⟨locator, zeroHashHex⟩ := by
  obtain ⟨n, hpos, hnA, hnB, hsame, hdiffer⟩ := exists_parting hA hB hsep
  have hlength := hA.length_le
  obtain ⟨indices, locator, hmake, hindices, hlocator, hcount⟩ := makeBlockLocator_run hA.ne_nil
    (by omega) fun stored hmem => ⟨_, hA.hashHex_id hmem⟩
  obtain ⟨i, hi, hif, hmax, -⟩ := hindices.dense (n - 1) (by omega)
  have hne : indices ≠ [] := by
    intro hnil
    rw [hnil] at hi
    cases hi
  refine ⟨i, locator, hmake, fun k hk => hsame k (by omega), by omega, by omega, ?_,
    getHeadersRequest_locator hne hlocator hcount .zero⟩
  refine locateForkIndex_run hlocator hindices.decreasing hB.exists_hashAt ?_ ?_ hi hif hmax
  · intro k m hash hk hm
    obtain ⟨a, ha, hahash⟩ := hashAt_ok.1 hk
    obtain rfl : a.id = hash :=
      Except.ok.inj ((hA.hashHex_id (List.mem_of_getElem? ha)).symm.trans hahash)
    have hsep' : Separate (B ++ A) := fun a ha b hb =>
      hsep a (List.mem_append.2 (List.mem_append.1 ha).symm) b
        (List.mem_append.2 (List.mem_append.1 hb).symm)
    obtain ⟨hb, rfl⟩ := hashAt_unique hB hA hsep' ha m hm
    refine ⟨rfl, ?_⟩
    by_contra hlt
    exact hdiffer m (by omega) a a ha hb rfl
  · intro k hk hash hhash
    obtain ⟨a, ha, hahash⟩ := hashAt_ok.1 hhash
    have hb := hsame k (by omega)
    rw [ha] at hb
    exact ⟨by omega, hashAt_ok.2 ⟨a, hb.symm, hahash⟩⟩

end

end BinaryCoin
