/-
  BinaryCoin — net.cpp: the addresses of peers (`addrv2`).

  The encoder drops what it cannot write, the decoder skips what it does not
  know.  What the C library makes of the text of an address is `InetText`.
  The decoder indexes the payload itself in some places: there a read past the
  end is an error of its own, which it turns out never to reach.
-/
import BinaryCoin.Messages
import BinaryCoin.PeerStore

namespace BinaryCoin

open Cursor LittleEndian

/-- `AF_INET` and `AF_INET6` -/
inductive Network where
  | ipv4 | ipv6
  deriving DecidableEq

def Network.id : Network → UInt8
  | ipv4 => 1
  | ipv6 => 2

def Network.size : Network → ℕ
  | ipv4 => 4
  | ipv6 => 16

/-- The addresses as texts, which are in the C library. -/
class InetText where
  /-- `inet_pton`, where it returns 1 -/
  pton : Network → Str → Option Bytes
  pton_length : ∀ {network host address}, pton network host = some address →
    address.length = network.size
  /-- `inet_ntop`, where it does not return `nullptr` -/
  ntop : Network → Bytes → Option Str

/-- `MAX_ADDRV2_ITEMS` -/
def maxAddrv2Items : ℕ := 1000

/-- `std::string::c_str`, as far as a function that reads it gets -/
def cStr (text : Str) : Str := text.takeWhile (· ≠ 0)

/-- `std::clamp` -/
def clamp (value low high : Int64) : Int64 :=
  if value < low then low else if high < value then high else value

/-- `last_seen` as it is sent. -/
def clampedTime (lastSeen : Int64) : Int64 := clamp lastSeen 0 0xffffffff

section
variable [InetText]

/-! ## The encoder -/

structure EncodedAddress where
  record : PeerRecord
  network : Network
  address : Bytes

def encodeAddress (record : PeerRecord) : Option EncodedAddress :=
  match InetText.pton .ipv4 (cStr record.endpoint.host) with
  | some address => some ⟨record, .ipv4, address⟩
  | none =>
    match InetText.pton .ipv6 (cStr record.endpoint.host) with
    | some address => some ⟨record, .ipv6, address⟩
    | none => none

/-- The loop that collects what can be encoded. -/
def collectAddresses : List PeerRecord → List EncodedAddress → List EncodedAddress
  | [], encodable => encodable
  | record :: records, encodable =>
    match encodeAddress record with
    | none => collectAddresses records encodable
    | some encoded =>
      if (encodable ++ [encoded]).length = maxAddrv2Items then encodable ++ [encoded]
      else collectAddresses records (encodable ++ [encoded])

/-- Big-endian, unlike the other integers. -/
def portBytes (port : UInt16) : Bytes := [(port >>> 8).toUInt8, port.toUInt8]

def appendAddress (payload : Bytes) (encoded : EncodedAddress) : Bytes :=
  let payload := appendU32Le payload (clampedTime encoded.record.lastSeen).toUInt64.toUInt32
  let payload := appendCompactSize payload encoded.record.services
  let payload := appendCompactSize (payload ++ [encoded.network.id])
    (UInt64.ofNat encoded.network.size)
  payload ++ encoded.address ++ portBytes encoded.record.endpoint.port

def serializeAddrv2 (records : List PeerRecord) : Bytes :=
  let encodable := collectAddresses records []
  encodable.foldl appendAddress (appendCompactSize [] (UInt64.ofNat encodable.length))

/-! ## The decoder -/

/-- A read past the end of the payload, which the language leaves undefined. -/
def pastEnd : Exn := outOfRange "payload"

/-- `payload[offset++]` -/
def nextByte : Reader UInt8 := do
  let rest ← get
  throwIf (rest = []) pastEnd
  set rest.tail
  return rest.headD 0

/-- `offset += count` -/
def advanceBy (count : ℕ) : Reader Unit := do
  let rest ← get
  throwIf (count > rest.length) pastEnd
  set (rest.drop count)

/-- `if (payload.size() - offset < count) throw e;` -/
def requireRemaining (count : ℕ) (what : String) : Reader Unit := do
  throwIf ((← get).length < count) (runtimeError what)

/-- The network whose addresses have the size. -/
def expectedNetwork (networkId : UInt8) (addressSize : UInt64) : Option Network :=
  if networkId = 1 ∧ addressSize = 4 then some .ipv4
  else if networkId = 2 ∧ addressSize = 16 then some .ipv6
  else none

def skipAddress (addressSize : ℕ) : Reader Unit := do
  requireRemaining addressSize "Truncated addrv2 address"
  advanceBy addressSize
  requireRemaining 2 "Truncated addrv2 port"
  advanceBy 2

def readPort : Reader UInt16 := do
  requireRemaining 2 "Truncated addrv2 port"
  let high ← nextByte
  let low ← nextByte
  return high.toUInt16 <<< 8 ||| low.toUInt16

/-- What is recorded of an address. -/
def addressRecord (timestamp : UInt32) (services : UInt64) (network : Network) (address : Bytes)
    (port : UInt16) : Option PeerRecord :=
  match InetText.ntop network address with
  | none => none
  | some text =>
    if port = 0 then none
    else some ⟨⟨text, port⟩, services, Int64.ofNat timestamp.toNat, 0, 0, false⟩

/-- The body of the loop: a record, unless the address is skipped. -/
def readAddress : Reader (Option PeerRecord) := do
  let timestamp ← readU32Le
  let services ← readCompactSize
  requireRemaining 1 "Truncated addrv2 network id"
  let networkId ← nextByte
  let addressSize ← readCompactSize
  match expectedNetwork networkId addressSize with
  | none =>
    skipAddress addressSize.toNat
    return none
  | some network =>
    let address ← readBytes network.size
    let port ← readPort
    return addressRecord timestamp services network address port

def deserializeAddrv2 (payload : Bytes) : Except Exn (List PeerRecord) := Reader.parse (do
  let records ← readCounted maxAddrv2Items "Peer addrv2 count exceeds limit" readAddress
  requireEnd "Trailing bytes in addrv2 payload"
  return records.reduceOption) payload

end

/-! ## Reading an address -/

/-- An address as it is sent, of any network. -/
structure AddrEntry where
  timestamp : UInt32
  services : UInt64
  networkId : UInt8
  address : Bytes
  port : UInt16

def AddrEntry.encode (entry : AddrEntry) : Bytes :=
  leBytes 4 entry.timestamp.toNat ++ (compactSize entry.services ++
    (entry.networkId :: (compactLength entry.address ++ (entry.address ++ portBytes entry.port))))

/-- Its size can be counted. -/
def AddrEntry.Ok (entry : AddrEntry) : Prop := entry.address.length < 2 ^ 64

def AddrEntry.record [InetText] (entry : AddrEntry) : Option PeerRecord :=
  (expectedNetwork entry.networkId (UInt64.ofNat entry.address.length)).bind fun network =>
    addressRecord entry.timestamp entry.services network entry.address entry.port

section
variable {s r : Bytes} {count : ℕ} {what : String} {network : Network} {networkId : UInt8}
  {addressSize : UInt64}

theorem requireRemaining_ok {u : Unit} :
    (requireRemaining count what).run s = .ok u r ↔ count ≤ s.length ∧ s = r := by
  simp only [requireRemaining, run_bind_ok, run_get_ok, throwIf_run_ok, not_lt]
  constructor
  · rintro ⟨_, _, ⟨rfl, rfl⟩, hle, rfl⟩
    exact ⟨hle, rfl⟩
  · rintro ⟨hle, rfl⟩
    exact ⟨s, s, ⟨rfl, rfl⟩, hle, rfl⟩

theorem nextByte_ok {byte : UInt8} : nextByte.run s = .ok byte r ↔ s = byte :: r := by
  simp only [nextByte, run_bind_ok, run_get_ok, throwIf_run_ok, run_set_ok, run_pure_ok]
  constructor
  · rintro ⟨_, _, ⟨rfl, rfl⟩, _, _, ⟨hne, rfl⟩, _, _, rfl, rfl, rfl⟩
    obtain ⟨byte, rest, rfl⟩ := List.exists_cons_of_ne_nil hne
    rfl
  · rintro rfl
    exact ⟨_, _, ⟨rfl, rfl⟩, (), _, ⟨List.cons_ne_nil _ _, rfl⟩, ⟨⟩, r, rfl, rfl, rfl⟩

theorem advanceBy_ok {u : Unit} :
    (advanceBy count).run s = .ok u r ↔ count ≤ s.length ∧ r = s.drop count := by
  simp only [advanceBy, run_bind_ok, run_get_ok, throwIf_run_ok, run_set_ok, not_lt, gt_iff_lt]
  constructor
  · rintro ⟨_, _, ⟨rfl, rfl⟩, _, _, ⟨hle, rfl⟩, rfl⟩
    exact ⟨hle, rfl⟩
  · rintro ⟨hle, rfl⟩
    exact ⟨_, _, ⟨rfl, rfl⟩, (), _, ⟨hle, rfl⟩, rfl⟩

theorem portBytes_eq (high low : UInt8) :
    portBytes (high.toUInt16 <<< 8 ||| low.toUInt16) = [high, low] := by
  rw [portBytes]
  congr 1
  · apply UInt8.toBitVec_inj.1
    ext i hi
    interval_cases i <;> simp
  · congr 1
    apply UInt8.toBitVec_inj.1
    ext i hi
    interval_cases i <;> simp

theorem portBytes_read (port : UInt16) : ∃ high low, portBytes port = [high, low] ∧
    high.toUInt16 <<< 8 ||| low.toUInt16 = port := by
  refine ⟨_, _, rfl, ?_⟩
  apply UInt16.toBitVec_inj.1
  ext i hi
  interval_cases i <;> simp [-UInt16.toUInt16_toUInt8]

theorem readPort_decodes : Decodes readPort portBytes fun _ => True := by
  intro s port r
  simp only [readPort, run_bind_ok, requireRemaining_ok, nextByte_ok, run_pure_ok, true_and]
  constructor
  · rintro ⟨_, _, ⟨-, rfl⟩, high, _, rfl, low, _, rfl, rfl, rfl⟩
    rw [portBytes_eq]
    rfl
  · rintro rfl
    obtain ⟨high, low, hbytes, hport⟩ := portBytes_read port
    rw [hbytes]
    exact ⟨(), _, ⟨by simp, rfl⟩, high, _, rfl, low, _, rfl, hport, rfl⟩

theorem skipAddress_ok {u : Unit} : (skipAddress count).run s = .ok u r ↔
    ∃ address port, address.length = count ∧ s = address ++ (portBytes port ++ r) := by
  simp only [skipAddress, run_bind_ok, requireRemaining_ok, advanceBy_ok]
  constructor
  · rintro ⟨_, _, ⟨-, rfl⟩, _, _, ⟨haddress, rfl⟩, _, _, ⟨-, rfl⟩, hport, rfl⟩
    obtain ⟨high, low, rest, hrest⟩ : ∃ high low rest, s.drop count = high :: low :: rest := by
      rcases hdrop : s.drop count with - | ⟨high, - | ⟨low, rest⟩⟩
      · rw [hdrop] at hport; simp at hport
      · rw [hdrop] at hport; simp at hport
      · exact ⟨high, low, rest, rfl⟩
    refine ⟨s.take count, high.toUInt16 <<< 8 ||| low.toUInt16, List.length_take_of_le haddress, ?_⟩
    rw [portBytes_eq, hrest]
    exact (List.take_append_drop count s).symm.trans (by rw [hrest]; rfl)
  · rintro ⟨address, port, rfl, rfl⟩
    have hdrop : (address ++ (portBytes port ++ r)).drop address.length = portBytes port ++ r :=
      List.drop_left
    exact ⟨(), _, ⟨by simp, rfl⟩, (), _, ⟨by simp, rfl⟩, (), _, ⟨by rw [hdrop]; simp [portBytes], rfl⟩,
      by rw [hdrop]; simp [portBytes], by rw [hdrop]; rfl⟩

theorem expectedNetwork_some : expectedNetwork networkId addressSize = some network ↔
    networkId = network.id ∧ addressSize = UInt64.ofNat network.size := by
  unfold expectedNetwork
  cases network <;> split_ifs <;> simp_all [Network.id, Network.size]

theorem compactLength_of {address : Bytes} (h : address.length = addressSize.toNat) :
    compactLength address = compactSize addressSize ∧
      UInt64.ofNat address.length = addressSize := by
  rw [compactLength, h, UInt64.ofNat_toNat]
  exact ⟨rfl, rfl⟩

theorem Network.size_lt (network : Network) : (UInt64.ofNat network.size).toNat = network.size := by
  cases network <;> rfl

variable [InetText]

/-- **The body of the loop** reads one address. -/
theorem readAddress_ok (s : Bytes) (record : Option PeerRecord) (r : Bytes) :
    readAddress.run s = .ok record r ↔
      ∃ entry : AddrEntry, entry.Ok ∧ s = entry.encode ++ r ∧ record = entry.record := by
  simp only [readAddress, readU32Le_decodes.bind_ok, readCompactSize_decodes.bind_ok, true_and]
  constructor
  · rintro ⟨timestamp, _, rfl, services, _, rfl, h₁⟩
    obtain ⟨_, _, hremaining, h₂⟩ := run_bind_ok.1 h₁
    obtain ⟨-, rfl⟩ := requireRemaining_ok.1 hremaining
    obtain ⟨networkId, s₁, hbyte, h₃⟩ := run_bind_ok.1 h₂
    obtain rfl := nextByte_ok.1 hbyte
    obtain ⟨addressSize, s₂, ⟨-, rfl⟩, h₄⟩ := readCompactSize_decodes.bind_ok.1 h₃
    have hlt : addressSize.toNat < 2 ^ 64 := addressSize.toNat_lt
    cases hnetwork : expectedNetwork networkId addressSize with
    | none =>
      rw [hnetwork] at h₄
      obtain ⟨_, _, hskip, h₅⟩ := run_bind_ok.1 h₄
      obtain ⟨rfl, rfl⟩ := run_pure_ok.1 h₅
      obtain ⟨address, port, hlength, rfl⟩ := skipAddress_ok.1 hskip
      obtain ⟨hcompact, hsize⟩ := compactLength_of hlength
      refine ⟨⟨timestamp, services, networkId, address, port⟩, ?_, ?_, ?_⟩
      · rwa [← hlength] at hlt
      · simp [AddrEntry.encode, hcompact]
      · rw [AddrEntry.record, hsize, hnetwork]
        rfl
    | some network =>
      rw [hnetwork] at h₄
      obtain ⟨address, s₃, ⟨hlength, rfl⟩, h₅⟩ := (readBytes_decodes network.size).bind_ok.1 h₄
      obtain ⟨port, s₄, ⟨-, rfl⟩, h₆⟩ := readPort_decodes.bind_ok.1 h₅
      obtain ⟨rfl, rfl⟩ := run_pure_ok.1 h₆
      obtain ⟨-, rfl⟩ := expectedNetwork_some.1 hnetwork
      obtain ⟨hcompact, hsize⟩ := compactLength_of (hlength.trans network.size_lt.symm)
      refine ⟨⟨timestamp, services, networkId, address, port⟩, ?_, ?_, ?_⟩
      · rwa [network.size_lt, ← hlength] at hlt
      · simp [AddrEntry.encode, hcompact]
      · rw [AddrEntry.record, hsize, hnetwork]
        rfl
  · rintro ⟨⟨timestamp, services, networkId, address, port⟩, hok, rfl, rfl⟩
    have hlength : address.length = (UInt64.ofNat address.length).toNat :=
      (UInt64.toNat_ofNat_of_lt' hok).symm
    refine ⟨timestamp, _, List.append_assoc _ _ _, services, _, List.append_assoc _ _ _, ?_⟩
    refine run_bind_ok.2 ⟨(), _, requireRemaining_ok.2 ⟨?_, rfl⟩, ?_⟩
    · rw [List.cons_append, List.length_cons]
      omega
    refine run_bind_ok.2 ⟨networkId, _, nextByte_ok.2 (List.cons_append ..), ?_⟩
    refine readCompactSize_decodes.bind_ok.2 ⟨UInt64.ofNat address.length, _,
      ⟨trivial, List.append_assoc _ _ _⟩, ?_⟩
    rw [AddrEntry.record]
    cases hnetwork : expectedNetwork networkId (UInt64.ofNat address.length) with
    | none =>
      refine run_bind_ok.2 ⟨(), r, skipAddress_ok.2 ⟨address, port, hlength, ?_⟩, rfl⟩
      exact List.append_assoc _ _ _
    | some network =>
      obtain ⟨-, hsize⟩ := expectedNetwork_some.1 hnetwork
      rw [hsize, network.size_lt] at hlength
      refine (readBytes_decodes network.size).bind_ok.2 ⟨address, _,
        ⟨hlength, List.append_assoc _ _ _⟩, ?_⟩
      exact readPort_decodes.bind_ok.2 ⟨port, r, ⟨trivial, rfl⟩, rfl⟩

/-- The addresses of a message. -/
def encodeAddresses (entries : List AddrEntry) : Bytes :=
  compactLength entries ++ entries.flatMap AddrEntry.encode

/-- **What is accepted** is a list of addresses up to the limit, and nothing after it. -/
theorem deserializeAddrv2_ok {payload : Bytes} {records : List PeerRecord} :
    deserializeAddrv2 payload = .ok records ↔ ∃ entries : List AddrEntry,
      entries.length ≤ maxAddrv2Items ∧ (∀ entry ∈ entries, entry.Ok) ∧
      payload = encodeAddresses entries ∧ records = entries.filterMap AddrEntry.record := by
  have hreduce : ∀ entries : List AddrEntry, (entries.map AddrEntry.record).reduceOption =
      entries.filterMap AddrEntry.record := by
    intro entries
    rw [List.reduceOption, List.filterMap_map]
    rfl
  simp only [deserializeAddrv2, Reader.parse_ok, run_bind_ok, readCounted,
    readCompactSize_decodes.bind_ok, throwIf_run_ok, requireEnd_ok, run_pure_ok, true_and, not_lt,
    gt_iff_lt, many_ok readAddress_ok]
  constructor
  · rintro ⟨_, _, _, ⟨count, _, rfl, _, _, ⟨hle, rfl⟩, entries, hlength, hok, rfl, rfl⟩, _, _,
      ⟨rfl, rfl⟩, rfl, rfl⟩
    refine ⟨entries, hlength ▸ hle, hok, ?_, hreduce entries⟩
    rw [encodeAddresses, compactLength, hlength, UInt64.ofNat_toNat, List.append_nil]
  · rintro ⟨entries, hle, hok, rfl, rfl⟩
    have hcount := toNat_ofNat_length hle (by decide)
    exact ⟨[], _, _, ⟨UInt64.ofNat entries.length, entries.flatMap AddrEntry.encode, rfl, (), _,
      ⟨hcount.symm ▸ hle, rfl⟩, entries, hcount.symm, hok, by simp, rfl⟩, (), [], ⟨rfl, rfl⟩,
      hreduce entries, rfl⟩

end

/-! ## Errors -/

section
variable {α β : Type} {n count : ℕ} {what : String} {p : Reader α}

/-- Where `n` bytes remain, every error is one that is thrown. -/
def ThrowsFrom (n : ℕ) (p : Reader α) : Prop :=
  ∀ s : Bytes, n ≤ s.length → ∀ e r, p.run s = .error e r → e.kind = .runtimeError

theorem throwsFrom_bind {f : α → Reader β} (hp : ThrowsFrom n p) (hf : ∀ a, ThrowsFrom 0 (f a)) :
    ThrowsFrom n (p >>= f) := by
  intro s hs e r h
  rcases run_bind_error.1 h with herror | ⟨a, s₁, -, herror⟩
  · exact hp s hs e r herror
  · exact hf a s₁ (Nat.zero_le _) e r herror

theorem throwsFrom_pure (a : α) : ThrowsFrom n (pure a) := by
  intro s _ e r h
  cases h

theorem throwsFrom_throwIf {c : Prop} [Decidable c] :
    ThrowsFrom n (throwIf c (runtimeError what) : Reader Unit) := by
  intro s _ e r h
  unfold throwIf at h
  split_ifs at h
  · cases h
    rfl
  · cases h

theorem throwsFrom_get : ThrowsFrom n (get : Reader Bytes) := by
  intro s _ e r h
  cases h

theorem throwsFrom_set {s : Bytes} : ThrowsFrom n (set s : Reader PUnit) := by
  intro s _ e r h
  cases h

/-- The check of what remains is what the following reads need. -/
theorem throwsFrom_requireRemaining {f : Unit → Reader β} (hf : ThrowsFrom count (f ())) :
    ThrowsFrom n (requireRemaining count what >>= f) := by
  intro s hs e r h
  rcases run_bind_error.1 h with herror | ⟨u, s₁, hok, herror⟩
  · exact throwsFrom_bind throwsFrom_get (fun _ => throwsFrom_throwIf) s hs e r herror
  · obtain ⟨hle, rfl⟩ := requireRemaining_ok.1 hok
    exact hf s hle e r herror

theorem throwsFrom_nextByte {f : UInt8 → Reader β} (hf : ∀ byte, ThrowsFrom n (f byte)) :
    ThrowsFrom (n + 1) (nextByte >>= f) := by
  intro s hs e r h
  obtain ⟨byte, rest, rfl⟩ := List.exists_cons_of_length_pos (Nat.lt_of_lt_of_le n.succ_pos hs)
  rw [run_bind_of_ok (nextByte_ok.2 rfl)] at h
  exact hf byte rest (Nat.succ_le_succ_iff.1 hs) e r h

theorem throwsFrom_advanceBy : ThrowsFrom count (advanceBy count) := by
  intro s hs e r h
  have hok : (advanceBy count).run s = .ok () (s.drop count) := advanceBy_ok.2 ⟨hs, rfl⟩
  rw [hok] at h
  cases h

theorem throwsFrom_readBytes : ThrowsFrom n (readBytes count) :=
  throwsFrom_bind (throwsFrom_bind throwsFrom_get fun _ => throwsFrom_throwIf) fun _ =>
    throwsFrom_bind throwsFrom_get fun _ => throwsFrom_bind throwsFrom_set fun _ => throwsFrom_pure _

theorem throwsFrom_readCompactSize : ThrowsFrom n readCompactSize := by
  refine throwsFrom_bind (throwsFrom_bind throwsFrom_readBytes fun _ => throwsFrom_pure _)
    fun marker => ?_
  split_ifs
  · exact throwsFrom_pure _
  · exact throwsFrom_bind throwsFrom_readBytes fun _ => throwsFrom_bind throwsFrom_throwIf fun _ =>
      throwsFrom_pure _
  · exact throwsFrom_bind (throwsFrom_bind throwsFrom_readBytes fun _ => throwsFrom_pure _) fun _ =>
      throwsFrom_bind throwsFrom_throwIf fun _ => throwsFrom_pure _
  · exact throwsFrom_bind (throwsFrom_bind throwsFrom_readBytes fun _ => throwsFrom_pure _) fun _ =>
      throwsFrom_bind throwsFrom_throwIf fun _ => throwsFrom_pure _

theorem throwsFrom_many (hp : ThrowsFrom 0 p) (k : ℕ) : ThrowsFrom 0 (many p k) := by
  induction k with
  | zero => exact throwsFrom_pure _
  | succ k ih => exact throwsFrom_bind hp fun _ => throwsFrom_bind ih fun _ => throwsFrom_pure _

variable [InetText]

/-- The checks of one address suffice for the reads in it. -/
theorem throwsFrom_readAddress : ThrowsFrom 0 readAddress := by
  have hskip : ∀ size : ℕ, ThrowsFrom 0 (skipAddress size) := fun size =>
    throwsFrom_requireRemaining (throwsFrom_bind throwsFrom_advanceBy fun _ =>
      throwsFrom_requireRemaining throwsFrom_advanceBy)
  have hport : ThrowsFrom 0 readPort := throwsFrom_requireRemaining
    (throwsFrom_nextByte fun _ => throwsFrom_nextByte fun _ => throwsFrom_pure _)
  refine throwsFrom_bind (throwsFrom_bind throwsFrom_readBytes fun _ => throwsFrom_pure _)
    fun timestamp => throwsFrom_bind throwsFrom_readCompactSize fun services =>
    throwsFrom_requireRemaining (throwsFrom_nextByte fun networkId =>
    throwsFrom_bind throwsFrom_readCompactSize fun addressSize => ?_)
  cases expectedNetwork networkId addressSize with
  | none => exact throwsFrom_bind (hskip _) fun _ => throwsFrom_pure _
  | some network =>
    exact throwsFrom_bind throwsFrom_readBytes fun _ => throwsFrom_bind hport fun _ =>
      throwsFrom_pure _

/-- **Nothing is read past the end**: every error is thrown by a check. -/
theorem deserializeAddrv2_error {payload : Bytes} {e : Exn}
    (h : deserializeAddrv2 payload = .error e) : e.kind = .runtimeError := by
  have hthrows : ThrowsFrom 0 (do
      let records ← readCounted maxAddrv2Items "Peer addrv2 count exceeds limit" readAddress
      requireEnd "Trailing bytes in addrv2 payload"
      return records.reduceOption) := by
    refine throwsFrom_bind (throwsFrom_bind throwsFrom_readCompactSize fun count =>
      throwsFrom_bind throwsFrom_throwIf fun _ => throwsFrom_many throwsFrom_readAddress _) fun _ => ?_
    exact throwsFrom_bind (throwsFrom_bind throwsFrom_get fun _ => throwsFrom_throwIf) fun _ =>
      throwsFrom_pure _
  rw [deserializeAddrv2, Reader.parse] at h
  split at h
  · cases h
  · rename_i e' r hrun
    cases h
    exact hthrows payload (Nat.zero_le _) _ _ hrun

end

/-! ## What is carried -/

section
variable [InetText]

/-- A numeric address, as far as the library reads the text. -/
def NumericHost (host : Str) : Bool :=
  (InetText.pton .ipv4 (cStr host)).isSome || (InetText.pton .ipv6 (cStr host)).isSome

/-- The text is the one that the library gives for its address. -/
def CanonicalHost (host : Str) : Prop :=
  ∀ network address, InetText.pton network (cStr host) = some address →
    InetText.ntop network address = some host

/-- What is left of a record. -/
def carried (record : PeerRecord) : PeerRecord :=
  ⟨record.endpoint, record.services, clampedTime record.lastSeen, 0, 0, false⟩

def EncodedAddress.entry (encoded : EncodedAddress) : AddrEntry :=
  ⟨(clampedTime encoded.record.lastSeen).toUInt64.toUInt32, encoded.record.services,
    encoded.network.id, encoded.address, encoded.record.endpoint.port⟩

variable {record : PeerRecord} {encoded : EncodedAddress} {records : List PeerRecord}

omit [InetText] in
theorem clampedTime_range (lastSeen : Int64) :
    0 ≤ (clampedTime lastSeen).toInt ∧ (clampedTime lastSeen).toInt ≤ 0xffffffff := by
  have hzero : (0 : Int64).toInt = 0 := rfl
  have hmax : (0xffffffff : Int64).toInt = 0xffffffff := by decide
  unfold clampedTime clamp
  split_ifs with hlow hhigh
  · rw [hzero]
    omega
  · rw [hmax]
    omega
  · rw [Int64.lt_iff_toInt_lt] at hlow hhigh
    omega

omit [InetText] in
/-- The time is read as it was clamped. -/
theorem clampedTime_read (lastSeen : Int64) :
    Int64.ofNat (clampedTime lastSeen).toUInt64.toUInt32.toNat = clampedTime lastSeen := by
  obtain ⟨hlow, hhigh⟩ := clampedTime_range lastSeen
  have hnonneg : 0 ≤ clampedTime lastSeen := Int64.le_iff_toInt_le.2 hlow
  have hnat : (clampedTime lastSeen).toUInt64.toNat = (clampedTime lastSeen).toInt.toNat :=
    Int64.toNat_toUInt64_of_le hnonneg
  have hnarrow : (clampedTime lastSeen).toUInt64.toUInt32.toNat =
      (clampedTime lastSeen).toInt.toNat := by
    rw [UInt64.toNat_toUInt32, hnat]
    omega
  apply Int64.toInt_inj.1
  rw [hnarrow, Int64.toInt_ofNat_of_lt (by omega), Int.toNat_of_nonneg hlow]

theorem encodeAddress_some (h : encodeAddress record = some encoded) : encoded.record = record ∧
    InetText.pton encoded.network (cStr record.endpoint.host) = some encoded.address := by
  unfold encodeAddress at h
  cases h₄ : InetText.pton .ipv4 (cStr record.endpoint.host) with
  | some address =>
    rw [h₄] at h
    obtain rfl := Option.some.inj h
    exact ⟨rfl, h₄⟩
  | none =>
    rw [h₄] at h
    cases h₆ : InetText.pton .ipv6 (cStr record.endpoint.host) with
    | some address =>
      rw [h₆] at h
      obtain rfl := Option.some.inj h
      exact ⟨rfl, h₆⟩
    | none =>
      rw [h₆] at h
      cases h

theorem encodeAddress_isSome : (encodeAddress record).isSome = NumericHost record.endpoint.host := by
  unfold encodeAddress NumericHost
  cases InetText.pton .ipv4 (cStr record.endpoint.host) with
  | some address => rfl
  | none => cases InetText.pton .ipv6 (cStr record.endpoint.host) <;> rfl

/-- The records that are encoded. -/
theorem map_record_filterMap : (records.filterMap encodeAddress).map EncodedAddress.record =
    records.filter fun record => NumericHost record.endpoint.host := by
  induction records with
  | nil => rfl
  | cons record records ih =>
    rw [List.filterMap_cons, List.filter_cons, ← encodeAddress_isSome]
    cases h : encodeAddress record with
    | none => exact ih
    | some encoded =>
      obtain ⟨rfl, -⟩ := encodeAddress_some h
      exact congrArg (encoded.record :: ·) ih

/-- **The loop** takes the first addresses that can be encoded, up to the limit. -/
theorem collectAddresses_eq {encodable : List EncodedAddress}
    (h : encodable.length < maxAddrv2Items) : collectAddresses records encodable =
      encodable ++ (records.filterMap encodeAddress).take (maxAddrv2Items - encodable.length) := by
  induction records generalizing encodable with
  | nil => rw [collectAddresses, List.filterMap_nil, List.take_nil, List.append_nil]
  | cons record records ih =>
    rw [collectAddresses, List.filterMap_cons]
    cases encodeAddress record with
    | none => exact ih h
    | some encoded =>
      have hlength : (encodable ++ [encoded]).length = encodable.length + 1 := by simp
      have htake : maxAddrv2Items - encodable.length =
          maxAddrv2Items - (encodable ++ [encoded]).length + 1 := by omega
      dsimp only
      rw [htake, List.take_succ_cons]
      by_cases hfull : (encodable ++ [encoded]).length = maxAddrv2Items
      · rw [if_pos hfull, hfull, Nat.sub_self, List.take_zero]
      · rw [if_neg hfull, ih (by omega), List.append_assoc]
        rfl

omit [InetText] in
theorem appendAddress_eq {payload : Bytes} (h : encoded.address.length = encoded.network.size) :
    appendAddress payload encoded = payload ++ encoded.entry.encode := by
  simp [appendAddress, appendU32Le, appendCompactSize, AddrEntry.encode, EncodedAddress.entry,
    compactLength, h]

/-- What is sent. -/
def encodableOf (records : List PeerRecord) : List EncodedAddress :=
  (records.filterMap encodeAddress).take maxAddrv2Items

theorem encodableOf_address (h : encoded ∈ encodableOf records) :
    ∃ record ∈ records, encodeAddress record = some encoded ∧
      encoded.address.length = encoded.network.size := by
  obtain ⟨record, hmem, hencode⟩ := List.mem_filterMap.1 (List.mem_of_mem_take h)
  exact ⟨record, hmem, hencode, InetText.pton_length (encodeAddress_some hencode).2⟩

theorem serializeAddrv2_eq : serializeAddrv2 records =
    encodeAddresses ((encodableOf records).map EncodedAddress.entry) := by
  have hcollect : collectAddresses records [] = encodableOf records :=
    collectAddresses_eq (by decide)
  have hfold : ∀ (encodable : List EncodedAddress) (payload : Bytes),
      (∀ encoded ∈ encodable, encoded.address.length = encoded.network.size) →
      encodable.foldl appendAddress payload =
        payload ++ (encodable.map EncodedAddress.entry).flatMap AddrEntry.encode := by
    intro encodable
    induction encodable with
    | nil => intro payload _; simp
    | cons encoded encodable ih =>
      intro payload hsize
      obtain ⟨hfirst, hrest⟩ := List.forall_mem_cons.1 hsize
      rw [List.foldl_cons, appendAddress_eq hfirst, ih _ hrest, List.map_cons, List.flatMap_cons,
        List.append_assoc]
  have hsizes : ∀ encoded ∈ encodableOf records,
      encoded.address.length = encoded.network.size := by
    intro encoded hmem
    obtain ⟨-, -, -, hsize⟩ := encodableOf_address hmem
    exact hsize
  rw [serializeAddrv2, hcollect, hfold _ _ hsizes, encodeAddresses, compactLength, List.length_map]
  rfl

/-- **An address is read as it was encoded**, unless its port is zero. -/
theorem entry_record (hencode : encodeAddress record = some encoded)
    (hcanonical : CanonicalHost record.endpoint.host) : encoded.entry.record =
      if record.endpoint.port = 0 then none else some (carried record) := by
  obtain ⟨rfl, hpton⟩ := encodeAddress_some hencode
  have hsize : encoded.address.length = encoded.network.size := InetText.pton_length hpton
  have hnetwork : expectedNetwork encoded.network.id (UInt64.ofNat encoded.address.length) =
      some encoded.network := expectedNetwork_some.2 ⟨rfl, by rw [hsize]⟩
  simp only [AddrEntry.record, EncodedAddress.entry, hnetwork, Option.bind_some, addressRecord,
    hcanonical _ _ hpton, clampedTime_read, carried]

/-- The records that arrive: those of the first numeric hosts, up to the limit, that have a port. -/
def carriedRecords (records : List PeerRecord) : List PeerRecord :=
  (((records.filter fun record => NumericHost record.endpoint.host).take maxAddrv2Items).filter
    fun record => record.endpoint.port ≠ 0).map carried

theorem filterMap_entry (hcanonical : ∀ record ∈ records, CanonicalHost record.endpoint.host) :
    ((encodableOf records).map EncodedAddress.entry).filterMap AddrEntry.record =
      carriedRecords records := by
  have hrecord : ∀ encoded ∈ encodableOf records,
      (AddrEntry.record ∘ EncodedAddress.entry) encoded =
        if encoded.record.endpoint.port = 0 then none else some (carried encoded.record) := by
    intro encoded hmem
    obtain ⟨record, hrecord, hencode, -⟩ := encodableOf_address hmem
    obtain ⟨rfl, -⟩ := encodeAddress_some hencode
    exact entry_record hencode (hcanonical _ hrecord)
  rw [carriedRecords, ← map_record_filterMap, ← List.map_take, ← encodableOf, List.filterMap_map,
    List.filterMap_congr hrecord, ← List.filterMap_eq_filter, List.filterMap_map, List.map_filterMap]
  congr 1
  funext encoded
  by_cases hport : encoded.record.endpoint.port = 0 <;> simp [hport, Option.guard]

/-- **Addresses are exchanged** without a loss of what can be carried, and every payload is refused
    or is a list of addresses, read to its end, of which those of unknown networks are skipped. -/
theorem addrv2_exchange :
    (∀ records : List PeerRecord, (∀ record ∈ records, CanonicalHost record.endpoint.host) →
      deserializeAddrv2 (serializeAddrv2 records) = .ok (carriedRecords records)) ∧
    (∀ payload : Bytes, (∃ e, deserializeAddrv2 payload = .error e ∧ e.kind = .runtimeError) ∨
      ∃ entries : List AddrEntry, entries.length ≤ maxAddrv2Items ∧
        payload = encodeAddresses entries ∧
        deserializeAddrv2 payload = .ok (entries.filterMap AddrEntry.record)) ∧
    (∀ entry : AddrEntry, entry.networkId ≠ Network.ipv4.id → entry.networkId ≠ Network.ipv6.id →
      entry.record = none) := by
  refine ⟨fun records hcanonical => ?_, fun payload => ?_, fun entry h₄ h₆ => ?_⟩
  · rw [serializeAddrv2_eq, ← filterMap_entry hcanonical]
    refine deserializeAddrv2_ok.2 ⟨_, ?_, ?_, rfl, rfl⟩
    · rw [List.length_map]
      exact List.length_take_le _ _
    · intro entry hmem
      obtain ⟨encoded, hencoded, rfl⟩ := List.mem_map.1 hmem
      obtain ⟨-, -, -, hsize⟩ := encodableOf_address hencoded
      have hlength : encoded.entry.address.length = encoded.network.size := hsize
      rw [AddrEntry.Ok, hlength]
      cases encoded.network <;> decide
  · cases h : deserializeAddrv2 payload with
    | error e => exact .inl ⟨e, rfl, deserializeAddrv2_error h⟩
    | ok records =>
      obtain ⟨entries, hle, -, hpayload, hrecords⟩ := deserializeAddrv2_ok.1 h
      exact .inr ⟨entries, hle, hpayload, by rw [hrecords]⟩
  · have hnone : expectedNetwork entry.networkId (UInt64.ofNat entry.address.length) = none := by
      rw [expectedNetwork, if_neg fun h => h₄ h.1, if_neg fun h => h₆ h.1]
    rw [AddrEntry.record, hnone]
    rfl

end

/-- The library on two addresses. -/
@[reducible] def twoAddresses : InetText where
  pton
    | .ipv4, host => if host = str "127.0.0.1" then some [127, 0, 0, 1] else none
    | .ipv6, host => if host = str "::1" then some (List.replicate 15 0 ++ [1]) else none
  pton_length := by
    intro network host address h
    cases network <;> dsimp only at h <;> split_ifs at h <;> cases h <;> rfl
  ntop
    | .ipv4, address => if address = [127, 0, 0, 1] then some (str "127.0.0.1") else none
    | .ipv6, address => if address = List.replicate 15 0 ++ [1] then some (str "::1") else none

/-- Of four records, two arrive: one has no numeric host, and one no port. -/
def fourRecords : List PeerRecord :=
  [⟨⟨str "127.0.0.1", 18444⟩, 0xffffffffffffffff, 0x1ffffffff, 7, 3, true⟩,
    ⟨⟨str "localhost", 18444⟩, 1, 1700000000, 0, 0, true⟩,
    ⟨⟨str "::1", 0⟩, 1, 1700000000, 0, 0, false⟩, ⟨⟨str "::1", 8333⟩, 300, -1, 0, 0, false⟩]

section
attribute [local instance] twoAddresses

theorem addrv2_exchange_four : deserializeAddrv2 (serializeAddrv2 fourRecords) =
    .ok [⟨⟨str "127.0.0.1", 18444⟩, 0xffffffffffffffff, 0xffffffff, 0, 0, false⟩,
      ⟨⟨str "::1", 8333⟩, 300, 0, 0, 0, false⟩] := by
  have hcanonical : ∀ record ∈ fourRecords, CanonicalHost record.endpoint.host := by
    intro record hmem network address hpton
    have hhost : cStr record.endpoint.host = record.endpoint.host := by
      clear hpton
      revert record
      decide
    have htable : (network = .ipv4 ∧ cStr record.endpoint.host = str "127.0.0.1" ∧
        address = [127, 0, 0, 1]) ∨ (network = .ipv6 ∧ cStr record.endpoint.host = str "::1" ∧
        address = List.replicate 15 0 ++ [1]) := by
      cases network with
      | ipv4 =>
        obtain ⟨heq, hsome⟩ := Option.ite_none_right_eq_some.1 hpton
        exact .inl ⟨rfl, heq, (Option.some.inj hsome).symm⟩
      | ipv6 =>
        obtain ⟨heq, hsome⟩ := Option.ite_none_right_eq_some.1 hpton
        exact .inr ⟨rfl, heq, (Option.some.inj hsome).symm⟩
    rw [hhost] at htable
    rcases htable with ⟨rfl, heq, rfl⟩ | ⟨rfl, heq, rfl⟩ <;> rw [heq] <;> decide
  exact (addrv2_exchange.1 fourRecords hcanonical).trans (by decide)

end

end BinaryCoin
