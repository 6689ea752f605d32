/-
  BinaryCoin — work and targets as text, and the comparisons of such texts on
  which net.cpp decides whether a peer has more work.

  The text of a number below `2 ^ 256` is the text of the digest whose bytes
  spell it, least significant first.
-/
import BinaryCoin.Activation
import BinaryCoin.Lib.Scan
import BinaryCoin.Messages
import BinaryCoin.TipHash

namespace BinaryCoin

open LittleEndian Positional Text

/-! ## The texts -/

/-- A hexadecimal digit. -/
def hexChar (d : ℕ) : UInt8 := hexDigit (UInt8.ofNat d)

/-- `std::hex` -/
def hexText (n : ℕ) : Str := if n = 0 then [48] else (Nat.digits 16 n).reverse.map hexChar

/-- The number is a `cpp_int`, which has a sign; it is written with `std::setfill('0')` and
    `std::setw(64)`. -/
def uint256ToHex (value : ℤ) : Except Exn Str := do
  throwIf (value < 0 ∨ value > uint256Maximum)
    (invalidArgument "Value is outside the unsigned 256-bit range")
  return zeroFill 64 (hexText value.toNat)

def targetToHex (bits : UInt32) : Except Exn Str := do uint256ToHex (← compactToTarget bits)

/-- `TestnetChain::chainwork_hex` -/
def chainworkHex (blocks : List StoredBlock) : Except Exn Str := do
  uint256ToHex (← calculateChainwork blocks)

/-! ## What a node tells of its chain, and asks for -/

/-- `TestnetChain::tip` of an object with these blocks. -/
def tipOf (blocks : List StoredBlock) : Except Exn StoredBlock :=
  orThrow blocks.getLast? (runtimeError "Chain is not initialized")

section
variable [Crypto]

/-- `NODE_NETWORK_SERVICE` -/
def nodeNetworkService : UInt64 := 1

/-- `local_version`, with the time and with the nonce that it has drawn. -/
def localVersion (now : Int64) (nonce : UInt64) (blocks : List StoredBlock) :
    Except Exn PeerVersion := do
  let tip ← tipOf blocks
  return {
    protocolVersion := p2pProtocolVersion
    services := nodeNetworkService
    timestamp := now
    bestHeight := tip.height
    genesisHash := testnetGenesisHash
    tipHash := ← tip.hashHex
    chainwork := ← chainworkHex blocks
    nonce := nonce
    userAgent := str "/BinaryCoinTestnetAlpha:0.1.3/" }

/-- `should_sync` of `session_loop`: for a `status` message, unless a candidate is `active`; and, with
    none, for the peer of an outbound connection. -/
def shouldSync (active : Bool) (blocks : List StoredBlock) (peer : PeerVersion) :
    Except Exn Bool := do
  if active then return false
  let tip ← tipOf blocks
  if peer.tipHash = (← tip.hashHex) then return false
  return (← chainworkHex blocks) < peer.chainwork

/-- Whether `sync_from_peer` asks the peer for headers. -/
def syncsFrom (blocks : List StoredBlock) (peer : PeerVersion) : Except Exn Bool := do
  let beforeWork ← chainworkHex blocks
  let tip ← tipOf blocks
  if peer.tipHash = (← tip.hashHex) then
    throwIf (peer.bestHeight ≠ tip.height ∨ peer.chainwork ≠ beforeWork)
      (runtimeError "Peer announced inconsistent height or chainwork for matching tip")
    return false
  return beforeWork ≤ peer.chainwork

omit [Crypto] in
/-- The work of the candidate of `sync_from_peer`. -/
def candidateWork (candidate : List StoredBlock) (peer : PeerVersion) : Except Exn Str := do
  let work ← chainworkHex candidate
  throwIf (work ≠ peer.chainwork)
    (runtimeError "Peer advertised chainwork does not match validated headers and blocks")
  return work

omit [Crypto] in
/-- The work of the candidate of `activate_candidate`, which was announced as `expected`. -/
def checkExpectedWork (full : List StoredBlock) (expected : Str) : Except Exn Unit := do
  let calculated ← chainworkHex full
  throwIf (expected ≠ [] ∧ calculated ≠ expected)
    (runtimeError "Headers-first candidate chainwork does not match announcement")

end

/-! ## Texts of 64 digits -/

theorem hexChar_increasing : Increasing 16 hexChar := by
  have h : ∀ d < 16, ∀ e < 16, (hexChar d < hexChar e ↔ d < e) ∧ (hexChar d = hexChar e → d = e) := by
    decide
  exact ⟨fun hd he => (h _ hd _ he).1, fun hd he => (h _ hd _ he).2⟩

theorem zeroFill_hexText (n : ℕ) : zeroFill 64 (hexText n) = (numeral 16 64 n).map hexChar := by
  have hzero : hexChar 0 = 48 := rfl
  rw [numeral, Nat.digitsAppend, List.reverse_append, List.reverse_replicate, List.map_append,
    List.map_replicate, hzero, zeroFill, hexText]
  split_ifs with hn
  · rw [hn, Nat.digits_zero]
    rfl
  · rw [List.length_map, List.length_reverse]

theorem uint256ToHex_of_lt {n : ℕ} (h : n < 2 ^ 256) :
    uint256ToHex n = .ok ((numeral 16 64 n).map hexChar) := by
  have hrange : ¬ ((n : ℤ) < 0 ∨ (n : ℤ) > uint256Maximum) := by
    unfold uint256Maximum
    omega
  rw [uint256ToHex, throwIf, if_neg hrange, Int.toNat_natCast, zeroFill_hexText]
  rfl

theorem uint256ToHex_ok {n : ℕ} {text : Str} :
    uint256ToHex n = .ok text ↔ n < 2 ^ 256 ∧ text = (numeral 16 64 n).map hexChar := by
  constructor
  · intro h
    have hn : n < 2 ^ 256 := by
      obtain ⟨_, hrange, -⟩ := except_bind_ok.1 h
      have hle := throwIf_ok.1 hrange
      unfold uint256Maximum at hle
      omega
    exact ⟨hn, Except.ok.inj (h.symm.trans (uint256ToHex_of_lt hn))⟩
  · rintro ⟨hn, rfl⟩
    exact uint256ToHex_of_lt hn

/-- The halves of bytes. -/
def nibbles (bytes : Bytes) : List ℕ := bytes.flatMap fun byte => [byte.toNat / 16, byte.toNat % 16]

theorem nibbles_lt (bytes : Bytes) : ∀ d ∈ nibbles bytes, d < 16 := by
  intro d hd
  obtain ⟨byte, -, hd⟩ := List.mem_flatMap.1 hd
  have hbyte := byte.toNat_lt
  rcases List.mem_pair.1 hd with rfl | rfl <;> omega

theorem length_nibbles (bytes : Bytes) : (nibbles bytes).length = 2 * bytes.length := by
  simp [nibbles, List.length_flatMap, Nat.mul_comm]

theorem hexChar_nibbles : ∀ byte : UInt8,
    [hexDigit (byte >>> 4), hexDigit (byte &&& 15)] = [byte.toNat / 16, byte.toNat % 16].map hexChar := by
  decide +kernel

theorem bytesToHex_eq (bytes : Bytes) : bytesToHex bytes = (nibbles bytes).map hexChar := by
  rw [bytesToHex, nibbles, List.map_flatMap]
  exact congrArg (fun f => List.flatMap f bytes) (funext hexChar_nibbles)

theorem value_nibbles (bytes : Bytes) : value 16 (nibbles bytes) = ofLe bytes.reverse := by
  induction bytes with
  | nil => rfl
  | cons byte bytes ih =>
    have hpow : 16 ^ (2 * bytes.length) = 256 ^ bytes.length := by rw [pow_mul]; rfl
    have hbyte : value 16 [byte.toNat / 16, byte.toNat % 16] = byte.toNat := by
      rw [value_cons, value_cons, value_nil]
      simp only [List.length_cons, List.length_nil]
      omega
    rw [nibbles, List.flatMap_cons, value_append, hbyte, List.reverse_cons, ofLe_append]
    change 16 ^ (nibbles bytes).length * byte.toNat + value 16 (nibbles bytes) = _
    rw [ih, length_nibbles, hpow, List.length_reverse, ofLe, ofLe, Nat.mul_zero, Nat.add_zero,
      Nat.add_comm]

/-- The text of a digest is the numeral of the number that its bytes spell. -/
theorem hashToDisplayHex_eq (h : Hash256) :
    hashToDisplayHex h = (numeral 16 64 (ofLe h.bytes)).map hexChar := by
  have hlen : (nibbles h.bytes.reverse).length = 64 := by
    rw [length_nibbles, List.length_reverse, h.size_eq]
  have hnumeral := numeral_value (b := 16) (by norm_num) (nibbles_lt h.bytes.reverse)
  rw [hlen, value_nibbles, List.reverse_reverse] at hnumeral
  rw [hashToDisplayHex, bytesToHex_eq, hnumeral]

theorem ofLe_hash_lt (h : Hash256) : ofLe h.bytes < 2 ^ 256 := by
  have hlt := ofLe_lt h.bytes
  rw [h.size_eq] at hlt
  exact Nat.lt_of_lt_of_eq hlt (by norm_num)

theorem uint256ToHex_ofLe (h : Hash256) : uint256ToHex (ofLe h.bytes) = .ok (hashToDisplayHex h) := by
  rw [uint256ToHex_of_lt (ofLe_hash_lt h), hashToDisplayHex_eq]

/-- The text of a number is the text of a digest. -/
theorem isDisplayHex_of_uint256 {n : ℕ} {text : Str} (h : uint256ToHex n = .ok text) :
    IsDisplayHex text := by
  obtain ⟨hn, -⟩ := uint256ToHex_ok.1 h
  have hlt : n < 256 ^ 32 := Nat.lt_of_lt_of_eq hn (by norm_num)
  have heq := uint256ToHex_ofLe ⟨leBytes 32 n, length_leBytes 32 n⟩
  rw [ofLe_leBytes hlt] at heq
  exact ⟨_, Except.ok.inj (h.symm.trans heq)⟩

theorem uint256_lt_iff {x y : ℕ} {a b : Str} (ha : uint256ToHex x = .ok a)
    (hb : uint256ToHex y = .ok b) : a < b ↔ x < y := by
  obtain ⟨hx, rfl⟩ := uint256ToHex_ok.1 ha
  obtain ⟨hy, rfl⟩ := uint256ToHex_ok.1 hb
  have hx' : x < 16 ^ 64 := Nat.lt_of_lt_of_eq hx (by norm_num)
  have hy' : y < 16 ^ 64 := Nat.lt_of_lt_of_eq hy (by norm_num)
  rw [map_lt_map_iff hexChar_increasing (by norm_num)
    ((length_numeral (by norm_num) hx').trans (length_numeral (by norm_num) hy').symm)
    (numeral_lt (by norm_num) _ _) (numeral_lt (by norm_num) _ _), value_numeral, value_numeral]

theorem uint256_le_iff {x y : ℕ} {a b : Str} (ha : uint256ToHex x = .ok a)
    (hb : uint256ToHex y = .ok b) : a ≤ b ↔ x ≤ y := by
  rw [← Nat.not_lt, ← uint256_lt_iff hb ha]
  exact Iff.rfl

theorem uint256_eq_iff {x y : ℕ} {a b : Str} (ha : uint256ToHex x = .ok a)
    (hb : uint256ToHex y = .ok b) : a = b ↔ x = y := by
  constructor
  · rintro rfl
    exact Nat.le_antisymm ((uint256_le_iff ha hb).1 (List.le_refl a))
      ((uint256_le_iff hb ha).1 (List.le_refl a))
  · rintro rfl
    exact Except.ok.inj (ha.symm.trans hb)

theorem chainworkHex_ok {blocks : List StoredBlock} {w : ℕ} {text : Str}
    (hw : calculateChainwork blocks = .ok w) :
    chainworkHex blocks = .ok text ↔ uint256ToHex w = .ok text := by
  rw [chainworkHex, hw, except_ok_bind]

theorem compactToTarget_lt {bits : UInt32} {target : ℕ} (h : compactToTarget bits = .ok target) :
    target < 2 ^ 256 := by
  simp only [compactToTarget, except_bind_ok, throwIf_ok, exists_const, except_pure_ok] at h
  obtain ⟨-, -, hrange, rfl⟩ := h
  unfold uint256Maximum at hrange
  omega

/-! ## The comparisons of work -/

section
variable [Crypto]

/-- The node's comparisons of its own work with what the peer announced are comparisons with `x`. -/
structure ComparesWork (peer : PeerVersion) (x : ℕ) : Prop where
  sync : ∀ {active blocks tip hash w}, tipOf blocks = .ok tip → tip.hashHex = .ok hash →
    calculateChainwork blocks = .ok w → w < 2 ^ 256 →
    shouldSync active blocks peer = .ok (decide (active = false ∧ peer.tipHash ≠ hash ∧ w < x))
  asks : ∀ {blocks tip hash w}, tipOf blocks = .ok tip → tip.hashHex = .ok hash →
    calculateChainwork blocks = .ok w → w < 2 ^ 256 → peer.tipHash ≠ hash →
    syncsFrom blocks peer = .ok (decide (w ≤ x))
  sameTip : ∀ {blocks tip w}, tipOf blocks = .ok tip → tip.hashHex = .ok peer.tipHash →
    calculateChainwork blocks = .ok w → w < 2 ^ 256 →
    (syncsFrom blocks peer = .ok false ↔ peer.bestHeight = tip.height ∧ w = x)
  candidate : ∀ {candidate w}, calculateChainwork candidate = .ok w → w < 2 ^ 256 →
    ((∃ text, candidateWork candidate peer = .ok text) ↔ w = x)
  expected : ∀ {full w}, calculateChainwork full = .ok w → w < 2 ^ 256 →
    (checkExpectedWork full peer.chainwork = .ok () ↔ w = x)

theorem comparesWork_of_text {peer : PeerVersion} {x : ℕ} (h : uint256ToHex x = .ok peer.chainwork) :
    ComparesWork peer x where
  sync {active blocks tip hash w} htip hhash hw hlt := by
    have hwork := (chainworkHex_ok hw).2 (uint256ToHex_of_lt hlt)
    rw [shouldSync, htip, except_ok_bind, hhash, except_ok_bind, hwork, except_ok_bind]
    cases active with
    | true => rfl
    | false =>
      by_cases heq : peer.tipHash = hash
      · simp [heq, pure, Except.pure]
      · simp [heq, pure, Except.pure, uint256_lt_iff (uint256ToHex_of_lt hlt) h]
  asks {blocks tip hash w} htip hhash hw hlt hne := by
    have hwork := (chainworkHex_ok hw).2 (uint256ToHex_of_lt hlt)
    rw [syncsFrom, hwork, except_ok_bind, htip, except_ok_bind, hhash, except_ok_bind, if_neg hne]
    simp [pure, Except.pure, uint256_le_iff (uint256ToHex_of_lt hlt) h]
  sameTip {blocks tip w} htip hhash hw hlt := by
    have hwork := (chainworkHex_ok hw).2 (uint256ToHex_of_lt hlt)
    rw [syncsFrom, hwork, except_ok_bind, htip, except_ok_bind, hhash, except_ok_bind,
      if_pos rfl]
    simp only [except_bind_ok, throwIf_ok, exists_const, except_pure_ok, not_or, not_not, and_true]
    rw [uint256_eq_iff h (uint256ToHex_of_lt hlt), eq_comm (a := x)]
  candidate {candidate w} hw hlt := by
    have hwork := (chainworkHex_ok hw).2 (uint256ToHex_of_lt hlt)
    rw [← uint256_eq_iff (uint256ToHex_of_lt hlt) h]
    simp only [candidateWork, hwork, except_bind_ok, throwIf_ok, exists_const, except_pure_ok]
    simp
  expected {full w} hw hlt := by
    have hwork := (chainworkHex_ok hw).2 (uint256ToHex_of_lt hlt)
    have hne : peer.chainwork ≠ [] := by
      rintro hnil
      obtain ⟨digest, hdigest⟩ := isDisplayHex_of_uint256 h
      have hlen := length_hashToDisplayHex digest
      rw [← hdigest, hnil] at hlen
      cases hlen
    rw [← uint256_eq_iff (uint256ToHex_of_lt hlt) h, checkExpectedWork, hwork, except_ok_bind,
      throwIf_ok]
    simp [hne]

omit [Crypto] in
/-- A version that was received carries the work that its bytes spell. -/
theorem received_work {payload : Bytes} {peer : PeerVersion}
    (h : deserializeVersion payload = .ok peer) : ∃ x < 2 ^ 256, uint256ToHex (x : ℕ) = .ok peer.chainwork := by
  obtain ⟨digest, hdigest⟩ := (deserializeVersion_ok.1 h).1.chainwork
  refine ⟨ofLe digest.bytes, ofLe_hash_lt digest, ?_⟩
  rw [hdigest]
  exact uint256ToHex_ofLe digest

theorem localVersion_ok {now : Int64} {nonce : UInt64} {blocks : List StoredBlock}
    {version : PeerVersion} (h : localVersion now nonce blocks = .ok version) :
    version.Ok ∧ chainworkHex blocks = .ok version.chainwork := by
  simp only [localVersion, except_bind_ok, except_pure_ok] at h
  obtain ⟨tip, -, hash, hhash, work, hwork, rfl⟩ := h
  obtain ⟨w, -, htext⟩ := except_bind_ok.1 hwork
  have hagent : (str "/BinaryCoinTestnetAlpha:0.1.3/").length ≤ maxUserAgentSize := by decide
  exact ⟨⟨rfl, rfl, BlockHeader.hashHex_isDisplayHex hhash, isDisplayHex_of_uint256 htext, hagent⟩,
    hwork⟩

theorem Chain.work_lt {blocks : List StoredBlock} {u : UtxoSet} (h : Chain blocks u) :
    blocks.length * testnetBlockWork < 2 ^ 256 := by
  calc blocks.length * testnetBlockWork
    _ ≤ 2 ^ 32 * testnetBlockWork := Nat.mul_le_mul_right _ h.length_le
    _ < 2 ^ 256 := by norm_num [testnetBlockWork]

/-- A node that has a chain can tell of it. -/
theorem Chain.localVersion {blocks : List StoredBlock} {u : UtxoSet} (h : Chain blocks u)
    (now : Int64) (nonce : UInt64) : ∃ version, localVersion now nonce blocks = .ok version := by
  obtain ⟨tip, htip⟩ := Option.isSome_iff_exists.1 (List.getLast?_isSome.2 h.ne_nil)
  have hhash := (h.stored_canonical tip (List.mem_of_getLast? htip)).hashHex
  have hwork := (chainworkHex_ok h.work).2 (uint256ToHex_of_lt h.work_lt)
  have htipOf : tipOf blocks = .ok tip := orThrow_ok.2 htip
  rw [BinaryCoin.localVersion, htipOf, except_ok_bind, hhash, except_ok_bind, hwork]
  exact ⟨_, rfl⟩

/-- **The texts of work and of hashes compare as numbers.**  What is sent of a chain's work arrives
    unchanged; the comparisons of a received text decide which of two chains has more work; and the
    proof of work is the comparison of the hash with the target, both as texts. -/
theorem work_texts_compare :
    (∀ x y : ℕ, x < 2 ^ 256 → y < 2 ^ 256 → ∃ a b, uint256ToHex x = .ok a ∧ uint256ToHex y = .ok b ∧
      (a < b ↔ x < y)) ∧
    (∀ (x : ℕ) text, uint256ToHex x = .ok text → ∃ wire, displayHexToWireBytes text = .ok wire ∧
      wireBytesToDisplayHex wire = text) ∧
    (∀ payload peer, deserializeVersion payload = .ok peer →
      ∃ x < 2 ^ 256, uint256ToHex (x : ℕ) = .ok peer.chainwork ∧ ComparesWork peer x) ∧
    (∀ now nonce blocks version, localVersion now nonce blocks = .ok version →
      ∃ w payload, calculateChainwork blocks = .ok w ∧ serializeVersion version = .ok payload ∧
        deserializeVersion payload = .ok version ∧ uint256ToHex w = .ok version.chainwork) ∧
    ∀ digest bits target, compactToTarget bits = .ok target → ∃ text, targetToHex bits = .ok text ∧
      checkProofOfWork digest bits = .ok (decide (hashToDisplayHex digest ≤ text)) := by
  refine ⟨?_, ?_, ?_, ?_, ?_⟩
  · intro x y hx hy
    have ha := uint256ToHex_of_lt hx
    have hb := uint256ToHex_of_lt hy
    exact ⟨_, _, ha, hb, uint256_lt_iff ha hb⟩
  · intro x text h
    exact (isDisplayHex_of_uint256 h).wire
  · intro payload peer h
    obtain ⟨x, hx, htext⟩ := received_work h
    exact ⟨x, hx, htext, comparesWork_of_text htext⟩
  · intro now nonce blocks version h
    obtain ⟨hok, hwork⟩ := localVersion_ok h
    obtain ⟨payload, hserialize, hdeserialize⟩ := version_strict.roundTrip version hok
    obtain ⟨w, hw, htext⟩ := except_bind_ok.1 hwork
    exact ⟨w, payload, hw, hserialize, hdeserialize, htext⟩
  · intro digest bits target htarget
    have htext := uint256ToHex_of_lt (compactToTarget_lt htarget)
    refine ⟨_, by rw [targetToHex, htarget, except_ok_bind, htext], ?_⟩
    rw [checkProofOfWork, htarget, except_ok_bind]
    simp only [uint256_le_iff (uint256ToHex_ofLe digest) htext]
    rfl

end

theorem work_texts_compare_genesis :
    (∃ a b, uint256ToHex (255 : ℕ) = .ok a ∧ uint256ToHex (256 : ℕ) = .ok b ∧ (a < b ↔ 255 < 256)) ∧
    (∃ w payload version, calculateChainwork [genesisStored] = .ok w ∧
      serializeVersion version = .ok payload ∧ deserializeVersion payload = .ok version ∧
      uint256ToHex w = .ok version.chainwork) ∧
    ∃ text, targetToHex testnetBits = .ok text ∧
      checkProofOfWork (Hash256.ofBytes []) testnetBits =
        .ok (decide (hashToDisplayHex (Hash256.ofBytes []) ≤ text)) := by
  have hgenesis : @GenesisOk (.ofTable genesisDigests) genesisStored := by
    refine @GenesisOk.mk (.ofTable genesisDigests) _ ?_ ?_ ?_ <;> decide +kernel
  obtain ⟨version, hversion⟩ := @Chain.localVersion (.ofTable genesisDigests) _ _
    (@Chain.genesis (.ofTable genesisDigests) _ hgenesis) 0 1
  have htarget : compactToTarget testnetBits = .ok (0xffff * 256 ^ 28) := rfl
  have hall := @work_texts_compare (.ofTable genesisDigests)
  obtain ⟨w, payload, hw, hserialize, hdeserialize, htext⟩ :=
    hall.2.2.2.1 0 1 [genesisStored] version hversion
  exact ⟨hall.1 255 256 (by norm_num) (by norm_num),
    ⟨w, payload, version, hw, hserialize, hdeserialize, htext⟩,
    hall.2.2.2.2 (Hash256.ofBytes []) testnetBits _ htarget⟩

end BinaryCoin
