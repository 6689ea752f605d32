/-
  BinaryCoin — bootstrap.cpp: the endpoints that a node starts with.

  A DNS seed is resolved by the C library (`NameResolver`); what it answers is
  stored unless `public_sockaddr` rejects it.  The reserved addresses are given
  as subnets, with which the tests of octets and prefixes are compared.
-/
import BinaryCoin.Addrv2
import BinaryCoin.Lib.Positional
import BinaryCoin.Lib.Subnet

namespace BinaryCoin

open Cursor Positional Text

/-! ## Addresses -/

/-- `in_addr`, in network byte order. -/
@[ext] structure InAddr where
  bytes : Bytes
  size_eq : bytes.length = 4
  deriving DecidableEq

/-- `in6_addr` -/
@[ext] structure In6Addr where
  bytes : Bytes
  size_eq : bytes.length = 16
  deriving DecidableEq

/-- An address as a number. -/
def addressNumber (bytes : Bytes) : ℕ := value 256 (bytes.map UInt8.toNat)

/-- `ntohl(address.s_addr)` -/
def InAddr.host (address : InAddr) : UInt32 := UInt32.ofNat (addressNumber address.bytes)

/-- `sockaddr`, by its `sa_family`. -/
inductive SockAddr where
  | inet (address : InAddr)
  | inet6 (address : In6Addr) (scope : UInt32)
  | other
  deriving DecidableEq

def publicIpv4 (address : InAddr) : Bool :=
  let host := address.host
  let a := (host >>> 24 &&& 0xff).toUInt8
  let b := (host >>> 16 &&& 0xff).toUInt8
  let c := (host >>> 8 &&& 0xff).toUInt8
  if a = 0 ∨ a = 10 ∨ a = 127 ∨ a ≥ 224 then false
  else if a = 100 ∧ b ≥ 64 ∧ b ≤ 127 then false
  else if a = 169 ∧ b = 254 then false
  else if a = 172 ∧ b ≥ 16 ∧ b ≤ 31 then false
  else if a = 192 ∧ b = 168 then false
  else if a = 198 ∧ (b = 18 ∨ b = 19) then false
  else if a = 192 ∧ b = 0 ∧ c = 2 then false
  else if a = 198 ∧ b = 51 ∧ c = 100 then false
  else if a = 203 ∧ b = 0 ∧ c = 113 then false
  else true

namespace In6Addr

/-- `s6_addr[index]` -/
def byte (address : In6Addr) (index : ℕ) : UInt8 := address.bytes.getD index 0

/-- `IN6_IS_ADDR_UNSPECIFIED` -/
def isUnspecified (address : In6Addr) : Bool := address.bytes = List.replicate 16 0

/-- `IN6_IS_ADDR_LOOPBACK` -/
def isLoopback (address : In6Addr) : Bool := address.bytes = List.replicate 15 0 ++ [1]

/-- `IN6_IS_ADDR_MULTICAST` -/
def isMulticast (address : In6Addr) : Bool := address.byte 0 = 0xff

/-- `IN6_IS_ADDR_LINKLOCAL` -/
def isLinkLocal (address : In6Addr) : Bool :=
  address.byte 0 = 0xfe ∧ address.byte 1 &&& 0xc0 = 0x80

end In6Addr

def publicIpv6 (address : In6Addr) : Bool :=
  if address.isUnspecified ∨ address.isLoopback ∨ address.isMulticast ∨ address.isLinkLocal then false
  else if address.byte 0 &&& 0xfe = 0xfc then false
  else if address.byte 0 = 0x20 ∧ address.byte 1 = 0x01 ∧ address.byte 2 = 0x0d ∧
      address.byte 3 = 0xb8 then false
  else true

def publicSockaddr : SockAddr → Bool
  | .inet address => publicIpv4 address
  | .inet6 address _ => publicIpv6 address
  | .other => false

/-! ## The resolver -/

/-- The functions of the C library. -/
class NameResolver where
  /-- `getaddrinfo` of a host and a service, where it returns 0: the `ai_addr` of its list -/
  getaddrinfo : Str → Str → Option (List (Option SockAddr))
  /-- `getnameinfo` with `NI_NUMERICHOST`, where it returns 0 -/
  getnameinfo : SockAddr → Option Str

section
variable [NameResolver]

/-- The body of the loop of `resolve_dns_seed`. -/
def addAnswer (port : UInt16) (endpoints : List PeerEndpoint) (current : Option SockAddr) :
    List PeerEndpoint :=
  match current with
  | none => endpoints
  | some address =>
    if ¬ publicSockaddr address then endpoints
    else match NameResolver.getnameinfo address with
      | none => endpoints
      | some numeric =>
        if (⟨numeric, port⟩ : PeerEndpoint) ∈ endpoints then endpoints
        else endpoints ++ [⟨numeric, port⟩]

def resolveDnsSeed (hostname : Str) (port : UInt16) : List PeerEndpoint :=
  if hostname = [] ∨ port = 0 then []
  else match NameResolver.getaddrinfo (cStr hostname) (decimal port.toNat) with
    | none => []
    | some addresses => addresses.foldl (addAnswer port) []

end

/-! ## The seeds -/

/-- `TESTNET_DNS_SEEDS` -/
def testnetDnsSeeds : List Str := [str "binarycoin-testnet.ezgateway.net"]

/-- `TESTNET_FIXED_SEEDS` -/
def testnetFixedSeeds : List PeerEndpoint := [⟨str "binarycoin-testnet.ezgateway.net", 26001⟩]

structure BootstrapResult where
  fixedEntriesAdded : ℕ
  dnsEntriesAdded : ℕ
  dnsNamesResolved : ℕ
  deriving DecidableEq

/-- The record of a seed. -/
def seedRecord (now : Int64) (endpoint : PeerEndpoint) : PeerRecord where
  endpoint := endpoint
  services := 1
  lastSeen := now
  lastSuccess := 0
  failures := 0
  manual := false

/-- A loop that adds records and counts those that were missing. -/
def addSeeds (now : Int64) (endpoints : List PeerEndpoint) (added : ℕ) : PeerM ℕ :=
  endpoints.foldlM (fun added endpoint => do
    if ← PeerStore.addIfMissing (seedRecord now endpoint) then return added + 1 else return added)
    added

/-- The body of the loop over the names. -/
def addDnsSeed (now : Int64) (resolver : Str → UInt16 → List PeerEndpoint) (result : BootstrapResult)
    (hostname : Str) : PeerM BootstrapResult := do
  let endpoints := resolver hostname 26001
  let added ← addSeeds now endpoints result.dnsEntriesAdded
  return { result with
    dnsEntriesAdded := added
    dnsNamesResolved :=
      if endpoints ≠ [] then result.dnsNamesResolved + 1 else result.dnsNamesResolved }

/-- `bootstrap_testnet_seeds` at the clock reading `now`. -/
def bootstrapTestnetSeeds (now : Int64) (resolver : Str → UInt16 → List PeerEndpoint) :
    PeerM BootstrapResult := do
  let fixed ← addSeeds now testnetFixedSeeds 0
  let result ← testnetDnsSeeds.foldlM (addDnsSeed now resolver) ⟨fixed, 0, 0⟩
  PeerStore.save
  return result

/-! ## Reserved addresses -/

def reservedIpv4 : List (Subnet 32) := [
  ⟨0x00000000, 8, by decide, by decide⟩,
  ⟨0x0a000000, 8, by decide, by decide⟩,
  ⟨0x7f000000, 8, by decide, by decide⟩,
  ⟨0xe0000000, 3, by decide, by decide⟩,
  ⟨0x64400000, 10, by decide, by decide⟩,
  ⟨0xa9fe0000, 16, by decide, by decide⟩,
  ⟨0xac100000, 12, by decide, by decide⟩,
  ⟨0xc0a80000, 16, by decide, by decide⟩,
  ⟨0xc6120000, 15, by decide, by decide⟩,
  ⟨0xc0000200, 24, by decide, by decide⟩,
  ⟨0xc6336400, 24, by decide, by decide⟩,
  ⟨0xcb007100, 24, by decide, by decide⟩]

/-- Unspecified, loopback, multicast, link-local, unique-local and documentation addresses. -/
def reservedIpv6 : List (Subnet 128) := [
  ⟨0, 128, by decide, by decide⟩,
  ⟨1, 128, by decide, by decide⟩,
  ⟨0xff * 2 ^ 120, 8, by decide, by decide⟩,
  ⟨0xfe80 * 2 ^ 112, 10, by decide, by decide⟩,
  ⟨0xfc * 2 ^ 120, 7, by decide, by decide⟩,
  ⟨0x20010db8 * 2 ^ 96, 32, by decide, by decide⟩]

theorem addressNumber_lt (bytes : Bytes) : addressNumber bytes < 256 ^ bytes.length := by
  have hlt : ∀ d ∈ bytes.map UInt8.toNat, d < 256 := by
    intro d hd
    obtain ⟨byte, -, rfl⟩ := List.mem_map.1 hd
    exact byte.toNat_lt
  rw [← List.length_map UInt8.toNat]
  exact value_lt (by norm_num) hlt

theorem addressNumber_cons (byte : UInt8) (bytes : Bytes) :
    addressNumber (byte :: bytes) = 256 ^ bytes.length * byte.toNat + addressNumber bytes := by
  rw [addressNumber, List.map_cons, value_cons, List.length_map]
  rfl

theorem addressNumber_append (bytes bytes' : Bytes) : addressNumber (bytes ++ bytes') =
    256 ^ bytes'.length * addressNumber bytes + addressNumber bytes' := by
  rw [addressNumber, List.map_append, value_append, List.length_map]
  rfl

theorem InAddr.host_toNat (address : InAddr) : address.host.toNat = addressNumber address.bytes := by
  have hlt := addressNumber_lt address.bytes
  rw [address.size_eq] at hlt
  exact UInt32.toNat_ofNat_of_lt' hlt

/-- The octet that is shifted to the end. -/
theorem octet_toNat (host shift : UInt32) (h : shift.toNat < 32) :
    (host >>> shift &&& 0xff).toUInt8.toNat = host.toNat / 2 ^ shift.toNat % 256 := by
  rw [UInt32.toNat_toUInt8, UInt32.toNat_and, UInt32.toNat_shiftRight, Nat.mod_eq_of_lt h,
    Nat.shiftRight_eq_div_pow]
  have hmask : (0xff : UInt32).toNat = 2 ^ 8 - 1 := rfl
  rw [hmask, Nat.and_two_pow_sub_one_eq_mod, Nat.mod_mod]

/-- The reserved addresses by their octets. -/
theorem covers_reservedIpv4 {a b c d : ℕ} (ha : a < 256) (hb : b < 256) (hc : c < 256)
    (hd : d < 256) : Subnet.Covers reservedIpv4 (a * 2 ^ 24 + b * 2 ^ 16 + c * 2 ^ 8 + d) ↔
      a = 0 ∨ a = 10 ∨ a = 127 ∨ 224 ≤ a ∨ (a = 100 ∧ 64 ≤ b ∧ b ≤ 127) ∨ (a = 169 ∧ b = 254) ∨
      (a = 172 ∧ 16 ≤ b ∧ b ≤ 31) ∨ (a = 192 ∧ b = 168) ∨ (a = 198 ∧ (b = 18 ∨ b = 19)) ∨
      (a = 192 ∧ b = 0 ∧ c = 2) ∨ (a = 198 ∧ b = 51 ∧ c = 100) ∨ (a = 203 ∧ b = 0 ∧ c = 113) := by
  simp only [reservedIpv4, Subnet.covers_cons, Subnet.covers_nil, Subnet.contains_iff, Subnet.size,
    or_false]
  refine or_congr ?_ (or_congr ?_ (or_congr ?_ (or_congr ?_ (or_congr ?_ (or_congr ?_ (or_congr ?_
    (or_congr ?_ (or_congr ?_ (or_congr ?_ (or_congr ?_ ?_))))))))))
  all_goals omega

/-- **`public_ipv4` rejects the reserved addresses** and no others. -/
theorem publicIpv4_iff {address : InAddr} :
    publicIpv4 address ↔ ¬ Subnet.Covers reservedIpv4 (addressNumber address.bytes) := by
  have hlt : address.host.toNat < 2 ^ 32 := address.host.toNat_lt
  have ha := octet_toNat address.host 24 (by decide)
  have hb := octet_toNat address.host 16 (by decide)
  have hc := octet_toNat address.host 8 (by decide)
  rw [← address.host_toNat]
  simp only [publicIpv4]
  generalize (address.host >>> 24 &&& 0xff).toUInt8 = a at ha ⊢
  generalize (address.host >>> 16 &&& 0xff).toUInt8 = b at hb ⊢
  generalize (address.host >>> 8 &&& 0xff).toUInt8 = c at hc ⊢
  generalize address.host.toNat = n at *
  change a.toNat = n / 2 ^ 24 % 256 at ha
  change b.toNat = n / 2 ^ 16 % 256 at hb
  change c.toNat = n / 2 ^ 8 % 256 at hc
  have hn : n = a.toNat * 2 ^ 24 + b.toNat * 2 ^ 16 + c.toNat * 2 ^ 8 + n % 256 := by omega
  rw [hn, covers_reservedIpv4 a.toNat_lt b.toNat_lt c.toNat_lt (Nat.mod_lt n (by norm_num))]
  simp only [Bool.if_false_left, Bool.and_eq_true, Bool.not_eq_true', decide_eq_false_iff_not,
    ← UInt8.toNat_inj, ge_iff_le, UInt8.le_iff_toNat_le, not_or, and_assoc, and_true]
  rfl

/-! ### Version 6 -/

/-- The first four bytes of an address, and what follows. -/
theorem In6Addr.number_eq (address : In6Addr) : ∃ rest < 2 ^ 96, addressNumber address.bytes =
    (address.byte 0).toNat * 2 ^ 120 + (address.byte 1).toNat * 2 ^ 112 +
      (address.byte 2).toNat * 2 ^ 104 + (address.byte 3).toNat * 2 ^ 96 + rest := by
  obtain ⟨bytes, hsize⟩ := address
  rcases bytes with _ | ⟨a, _ | ⟨b, _ | ⟨c, _ | ⟨d, rest⟩⟩⟩⟩
  iterate 4 exact absurd hsize (by simp)
  have hrest : rest.length = 12 := by simpa using hsize
  have hlt := addressNumber_lt rest
  rw [hrest] at hlt
  refine ⟨addressNumber rest, Nat.lt_of_lt_of_eq hlt (by norm_num), ?_⟩
  simp only [addressNumber_cons, List.length_cons, hrest, byte, List.getD_cons_zero,
    List.getD_cons_succ]
  ring

theorem addressNumber_inj {bytes bytes' : Bytes} (hlength : bytes.length = bytes'.length)
    (h : addressNumber bytes = addressNumber bytes') : bytes = bytes' := by
  have hdigit : ∀ bytes : Bytes, ∀ d ∈ bytes.map UInt8.toNat, d < 256 := by
    intro bytes d hd
    obtain ⟨byte, -, rfl⟩ := List.mem_map.1 hd
    exact byte.toNat_lt
  refine List.map_injective_iff.2 (fun _ _ => UInt8.toNat_inj.1) ?_
  exact value_inj (by norm_num) (by simp only [List.length_map, hlength]) (hdigit bytes)
    (hdigit bytes') h

theorem In6Addr.isUnspecified_iff {address : In6Addr} :
    address.isUnspecified ↔ addressNumber address.bytes = 0 := by
  have hzero : addressNumber (List.replicate 16 0) = 0 := by decide
  rw [isUnspecified, decide_eq_true_iff]
  constructor
  · intro h
    rw [h, hzero]
  · intro h
    exact addressNumber_inj address.size_eq (h.trans hzero.symm)

theorem In6Addr.isLoopback_iff {address : In6Addr} :
    address.isLoopback ↔ addressNumber address.bytes = 1 := by
  have hone : addressNumber (List.replicate 15 0 ++ [1]) = 1 := by decide
  rw [isLoopback, decide_eq_true_iff]
  constructor
  · intro h
    rw [h, hone]
  · intro h
    exact addressNumber_inj address.size_eq (h.trans hone.symm)

theorem masked_facts : ∀ byte : UInt8,
    (byte &&& 0xc0 = 0x80 ↔ 128 ≤ byte.toNat ∧ byte.toNat < 192) ∧
    (byte &&& 0xfe = 0xfc ↔ byte.toNat = 252 ∨ byte.toNat = 253) := by
  decide +kernel

/-- The reserved addresses by their first bytes. -/
theorem covers_reservedIpv6 {a b c d rest : ℕ} (ha : a < 256) (hb : b < 256) (hc : c < 256)
    (hd : d < 256) (hrest : rest < 2 ^ 96) : Subnet.Covers reservedIpv6
      (a * 2 ^ 120 + b * 2 ^ 112 + c * 2 ^ 104 + d * 2 ^ 96 + rest) ↔
      a * 2 ^ 120 + b * 2 ^ 112 + c * 2 ^ 104 + d * 2 ^ 96 + rest = 0 ∨
      a * 2 ^ 120 + b * 2 ^ 112 + c * 2 ^ 104 + d * 2 ^ 96 + rest = 1 ∨
      a = 255 ∨ (a = 254 ∧ 128 ≤ b ∧ b < 192) ∨ (a = 252 ∨ a = 253) ∨
      (a = 32 ∧ b = 1 ∧ c = 13 ∧ d = 184) := by
  simp only [reservedIpv6, Subnet.covers_cons, Subnet.covers_nil, Subnet.contains_iff, Subnet.size,
    or_false]
  refine or_congr ?_ (or_congr ?_ (or_congr ?_ (or_congr ?_ (or_congr ?_ ?_))))
  all_goals omega

/-- **`public_ipv6` rejects the reserved addresses** and no others. -/
theorem publicIpv6_iff {address : In6Addr} :
    publicIpv6 address ↔ ¬ Subnet.Covers reservedIpv6 (addressNumber address.bytes) := by
  obtain ⟨rest, hrest, hn⟩ := address.number_eq
  have hcovers := covers_reservedIpv6 (address.byte 0).toNat_lt (address.byte 1).toNat_lt
    (address.byte 2).toNat_lt (address.byte 3).toNat_lt hrest
  rw [← hn, ← In6Addr.isUnspecified_iff, ← In6Addr.isLoopback_iff] at hcovers
  rw [hcovers, publicIpv6]
  simp only [Bool.if_false_left, Bool.and_eq_true, Bool.not_eq_true', decide_eq_false_iff_not,
    In6Addr.isMulticast, In6Addr.isLinkLocal, decide_eq_true_eq, masked_facts]
  simp only [← UInt8.toNat_inj, not_or, and_assoc, and_true]
  rfl

/-! ## What a seed is resolved to -/

/-- The IPv4-mapped address `::ffff:a.b.c.d`. -/
def InAddr.mapped (address : InAddr) : In6Addr where
  bytes := List.replicate 10 0 ++ [0xff, 0xff] ++ address.bytes
  size_eq := by
    rw [List.length_append, address.size_eq]
    rfl

/-- No mapped address is rejected. -/
theorem publicIpv6_mapped (address : InAddr) : publicIpv6 address.mapped := by
  have hlt := addressNumber_lt address.bytes
  have hmapped : addressNumber (List.replicate 10 0 ++ [0xff, 0xff]) = 0xffff := by decide
  rw [publicIpv6_iff, InAddr.mapped, addressNumber_append, hmapped]
  rw [address.size_eq] at hlt ⊢
  simp only [reservedIpv6, Subnet.covers_cons, Subnet.covers_nil, Subnet.contains_iff, Subnet.size,
    or_false]
  omega

section
variable [NameResolver] {port : UInt16} {endpoint : PeerEndpoint} {endpoints : List PeerEndpoint}
  {hostname : Str}

/-- The endpoint of an answer that is stored. -/
structure Answers (port : UInt16) (address : SockAddr) (endpoint : PeerEndpoint) : Prop where
  accepted : publicSockaddr address
  host : NameResolver.getnameinfo address = some endpoint.host
  port : endpoint.port = port

theorem mem_addAnswer {current : Option SockAddr} : endpoint ∈ addAnswer port endpoints current ↔
    endpoint ∈ endpoints ∨ ∃ address, current = some address ∧ Answers port address endpoint := by
  cases current with
  | none =>
    constructor
    · exact .inl
    · rintro (h | ⟨address, h, -⟩)
      · exact h
      · cases h
  | some address =>
    have hone : (∃ address', some address = some address' ∧ Answers port address' endpoint) ↔
        Answers port address endpoint := by simp
    rw [hone, addAnswer]
    by_cases haccepted : publicSockaddr address
    swap
    · rw [if_pos haccepted]
      exact ⟨.inl, fun h => h.resolve_right fun h => haccepted h.accepted⟩
    rw [if_neg (not_not.2 haccepted)]
    cases hname : NameResolver.getnameinfo address with
    | none =>
      refine ⟨.inl, fun h => h.resolve_right fun h => ?_⟩
      have hhost := h.host
      rw [hname] at hhost
      cases hhost
    | some numeric =>
      have hiff : Answers port address endpoint ↔ endpoint = ⟨numeric, port⟩ := by
        constructor
        · rintro ⟨-, hhost, rfl⟩
          rw [hname] at hhost
          rw [Option.some.inj hhost]
        · rintro rfl
          exact ⟨haccepted, hname, rfl⟩
      rw [hiff]
      dsimp only
      split_ifs with hmem
      · refine ⟨.inl, ?_⟩
        rintro (h | rfl)
        · exact h
        · exact hmem
      · rw [List.mem_append, List.mem_singleton]

theorem mem_foldl_addAnswer {addresses : List (Option SockAddr)} :
    endpoint ∈ addresses.foldl (addAnswer port) endpoints ↔
      endpoint ∈ endpoints ∨ ∃ address, some address ∈ addresses ∧ Answers port address endpoint := by
  induction addresses generalizing endpoints with
  | nil => simp
  | cons current addresses ih =>
    rw [List.foldl_cons, ih, mem_addAnswer, or_assoc, ← exists_or]
    simp only [List.mem_cons, or_and_right, eq_comm]

/-- The endpoints of a seed are those of its answers that are accepted and have a name. -/
theorem mem_resolveDnsSeed : endpoint ∈ resolveDnsSeed hostname port ↔ hostname ≠ [] ∧ port ≠ 0 ∧
    ∃ addresses, NameResolver.getaddrinfo (cStr hostname) (decimal port.toNat) = some addresses ∧
      ∃ address, some address ∈ addresses ∧ Answers port address endpoint := by
  rw [resolveDnsSeed]
  by_cases hnone : hostname = [] ∨ port = 0
  · rw [if_pos hnone]
    constructor
    · intro h
      cases h
    · rintro ⟨hhostname, hport, -⟩
      exact absurd hnone (not_or.2 ⟨hhostname, hport⟩)
  · rw [if_neg hnone]
    obtain ⟨hhostname, hport⟩ := not_or.1 hnone
    cases hlookup : NameResolver.getaddrinfo (cStr hostname) (decimal port.toNat) with
    | none => simp
    | some addresses => simp [mem_foldl_addAnswer, hhostname, hport]

theorem nodup_addAnswer (h : endpoints.Nodup) (current : Option SockAddr) :
    (addAnswer port endpoints current).Nodup := by
  cases current with
  | none => exact h
  | some address =>
    rw [addAnswer]
    cases hname : NameResolver.getnameinfo address with
    | none =>
      dsimp only
      split_ifs <;> exact h
    | some numeric =>
      dsimp only
      split_ifs with haccepted hmem
      · exact h
      · refine List.nodup_append.2 ⟨h, List.nodup_singleton _, ?_⟩
        rintro a ha b hb rfl
        exact hmem (List.mem_singleton.1 hb ▸ ha)
      · exact h

/-- No endpoint is returned twice. -/
theorem nodup_resolveDnsSeed : (resolveDnsSeed hostname port).Nodup := by
  rw [resolveDnsSeed]
  split_ifs
  · exact List.nodup_nil
  · cases NameResolver.getaddrinfo (cStr hostname) (decimal port.toNat) with
    | none => exact List.nodup_nil
    | some addresses =>
      exact List.foldlRecOn addresses _ List.nodup_nil fun endpoints h current _ =>
        nodup_addAnswer h current

/-! ## Addresses in disguise -/

variable [InetText]

/-- A numeric address without its scope, which follows a `%`. -/
def unscoped (host : Str) : Str := host.takeWhile (· ≠ 37)

/-- What the text of an address is: it is read as the address that it was made from. -/
structure NumericNames : Prop where
  inet : ∀ address host, NameResolver.getnameinfo (.inet address) = some host →
    InetText.pton .ipv4 (unscoped host) = some address.bytes ∧
      InetText.pton .ipv6 (unscoped host) = none
  inet6 : ∀ address scope host, NameResolver.getnameinfo (.inet6 address scope) = some host →
    InetText.pton .ipv6 (unscoped host) = some address.bytes ∧
      InetText.pton .ipv4 (unscoped host) = none

/-- The text denotes no address that `public_ipv4` rejects, in either form, and none of those that are
    reserved. -/
structure PublicHost (host : Str) : Prop where
  ipv4 : ∀ address : InAddr, InetText.pton .ipv4 (unscoped host) = some address.bytes →
    publicIpv4 address
  mapped : ∀ address : InAddr, InetText.pton .ipv6 (unscoped host) = some address.mapped.bytes →
    publicIpv4 address
  ipv6 : ∀ address : In6Addr, InetText.pton .ipv6 (unscoped host) = some address.bytes →
    ¬ Subnet.Covers reservedIpv6 (addressNumber address.bytes)

theorem Answers.publicHost_iff (hnames : NumericNames) {address : SockAddr}
    (h : Answers port address endpoint) : PublicHost endpoint.host ↔
      ∀ (mapped : InAddr) scope, address = .inet6 mapped.mapped scope → publicIpv4 mapped := by
  obtain ⟨haccepted, hname, -⟩ := h
  cases address with
  | inet address =>
    obtain ⟨hipv4, hipv6⟩ := hnames.inet address endpoint.host hname
    refine ⟨fun _ mapped scope h => ?_, fun _ => ⟨?_, ?_, ?_⟩⟩
    · cases h
    · intro address' h
      rw [hipv4] at h
      obtain rfl := InAddr.ext (Option.some.inj h)
      exact haccepted
    · intro address' h
      rw [hipv6] at h
      cases h
    · intro address' h
      rw [hipv6] at h
      cases h
  | inet6 address scope =>
    obtain ⟨hipv6, hipv4⟩ := hnames.inet6 address scope endpoint.host hname
    constructor
    · intro h mapped scope' heq
      obtain ⟨rfl, -⟩ := SockAddr.inet6.inj heq
      exact h.mapped mapped hipv6
    · intro h
      refine ⟨?_, ?_, ?_⟩
      · intro address' hpton
        rw [hipv4] at hpton
        cases hpton
      · intro address' hpton
        rw [hipv6] at hpton
        obtain rfl := In6Addr.ext (Option.some.inj hpton)
        exact h address' scope rfl
      · intro address' hpton
        rw [hipv6] at hpton
        obtain rfl := In6Addr.ext (Option.some.inj hpton)
        exact publicIpv6_iff.1 haccepted
  | other => cases haccepted

/-- **DNS bootstrap yields no address in disguise** exactly if no answer is an IPv4-mapped address
    that `public_ipv4` rejects. -/
theorem resolve_public_iff (hnames : NumericNames) (hostname : Str) (port : UInt16) :
    (∀ endpoint ∈ resolveDnsSeed hostname port, PublicHost endpoint.host) ↔
      hostname = [] ∨ port = 0 ∨ ∀ addresses,
        NameResolver.getaddrinfo (cStr hostname) (decimal port.toNat) = some addresses →
        ∀ (mapped : InAddr) scope, some (.inet6 mapped.mapped scope) ∈ addresses →
          NameResolver.getnameinfo (.inet6 mapped.mapped scope) ≠ none → publicIpv4 mapped := by
  constructor
  · intro h
    by_cases hhostname : hostname = []
    · exact .inl hhostname
    by_cases hport : port = 0
    · exact .inr (.inl hport)
    refine .inr (.inr fun addresses hlookup mapped scope hmem hname => ?_)
    obtain ⟨host, hhost⟩ := Option.ne_none_iff_exists'.1 hname
    have hanswers : Answers port (.inet6 mapped.mapped scope) ⟨host, port⟩ :=
      ⟨publicIpv6_mapped mapped, hhost, rfl⟩
    have hpublic := h _ (mem_resolveDnsSeed.2 ⟨hhostname, hport, addresses, hlookup, _, hmem, hanswers⟩)
    exact (hanswers.publicHost_iff hnames).1 hpublic mapped scope rfl
  · intro h endpoint hendpoint
    obtain ⟨hhostname, hport, addresses, hlookup, address, hmem, hanswers⟩ :=
      mem_resolveDnsSeed.1 hendpoint
    have hmapped := (h.resolve_left hhostname).resolve_left hport addresses hlookup
    refine (hanswers.publicHost_iff hnames).2 ?_
    rintro mapped scope rfl
    refine hmapped mapped scope hmem ?_
    rw [hanswers.host]
    exact Option.some_ne_none _

end

/-! ### A mapped answer -/

/-- 10.0.0.1 -/
def privateAddress : InAddr := ⟨[10, 0, 0, 1], rfl⟩

def mappedText : Str := str "::ffff:10.0.0.1"

/-- A resolver that answers with the mapped address. -/
abbrev mappedResolver : NameResolver where
  getaddrinfo _ _ := some [some (.inet6 privateAddress.mapped 0)]
  getnameinfo address :=
    if address = .inet6 privateAddress.mapped 0 then some mappedText else none

/-- What the library makes of that address. -/
abbrev mappedInetText : InetText where
  pton network host :=
    if network = .ipv6 ∧ host = mappedText then some privateAddress.mapped.bytes else none
  pton_length := by
    intro network host address h
    split_ifs at h with hc
    rw [hc.1, ← Option.some.inj h]
    exact privateAddress.mapped.size_eq
  ntop network address :=
    if network = .ipv6 ∧ address = privateAddress.mapped.bytes then some mappedText else none

section
attribute [local instance] mappedResolver mappedInetText

theorem unscoped_mappedText : unscoped mappedText = mappedText := by decide

theorem numericNames_mapped : NumericNames := by
  constructor
  · intro address host h
    cases h
  · intro address scope host h
    have hcond : (SockAddr.inet6 address scope) = .inet6 privateAddress.mapped 0 := by
      by_contra hne
      exact Option.some_ne_none _ (h.symm.trans (if_neg hne))
    obtain ⟨rfl, rfl⟩ := SockAddr.inet6.inj hcond
    obtain rfl := Option.some.inj (h.symm.trans (if_pos rfl))
    rw [unscoped_mappedText]
    exact ⟨rfl, rfl⟩

theorem resolve_public_mapped :
    (∀ endpoint ∈ resolveDnsSeed (str "binarycoin-testnet.ezgateway.net") 26001,
      PublicHost endpoint.host) ↔
    str "binarycoin-testnet.ezgateway.net" = [] ∨ (26001 : UInt16) = 0 ∨ ∀ addresses,
      NameResolver.getaddrinfo (cStr (str "binarycoin-testnet.ezgateway.net"))
        (decimal (26001 : UInt16).toNat) = some addresses →
      ∀ (mapped : InAddr) scope, some (.inet6 mapped.mapped scope) ∈ addresses →
        NameResolver.getnameinfo (.inet6 mapped.mapped scope) ≠ none → publicIpv4 mapped :=
  resolve_public_iff numericNames_mapped _ _

/-- A private address comes through when it is written as an IPv6 address. -/
theorem resolve_mapped_private :
    resolveDnsSeed (str "binarycoin-testnet.ezgateway.net") 26001 = [⟨mappedText, 26001⟩] ∧
    InetText.pton .ipv6 (unscoped mappedText) = some privateAddress.mapped.bytes ∧
    publicIpv4 privateAddress = false ∧ ¬ PublicHost mappedText := by
  have hpton : InetText.pton .ipv6 (unscoped mappedText) = some privateAddress.mapped.bytes := by
    rw [unscoped_mappedText]
    rfl
  have hrejected : publicIpv4 privateAddress = false := by decide
  refine ⟨by decide, hpton, hrejected, fun h => ?_⟩
  have haccepted := h.mapped privateAddress hpton
  rw [hrejected] at haccepted
  cases haccepted

end

/-! ## What bootstrap adds -/

/-- Records with some endpoints are added, behind those that there are. -/
structure Seeded (seeds : Set PeerEndpoint) (before after : List PeerRecord) : Prop where
  kept : before <+: after
  added : ∀ r ∈ after, r ∈ before ∨ r.endpoint ∈ seeds
  good : PeerStore.Good before → PeerStore.Good after

section
variable {seeds : Set PeerEndpoint} {before between after : List PeerRecord} {now : Int64}
  {endpoints : List PeerEndpoint} {s : PeerStore}

theorem Seeded.refl (seeds : Set PeerEndpoint) (records : List PeerRecord) :
    Seeded seeds records records :=
  ⟨List.prefix_rfl, fun _ => .inl, id⟩

theorem Seeded.trans (h : Seeded seeds before between) (h' : Seeded seeds between after) :
    Seeded seeds before after := by
  refine ⟨h.kept.trans h'.kept, fun r hr => ?_, h'.good ∘ h.good⟩
  rcases h'.added r hr with hr | hr
  · exact h.added r hr
  · exact .inr hr

theorem seeded_checkedUpsert {r : PeerRecord} (h : r.endpoint ∈ seeds) (records : List PeerRecord) :
    Seeded seeds records (PeerStore.checkedUpsert id r records) := by
  have hgood : PeerStore.Good records → PeerStore.Good (PeerStore.checkedUpsert id r records) :=
    fun hgood => hgood.checkedUpsert fun _ => rfl
  rw [PeerStore.checkedUpsert] at hgood ⊢
  split_ifs at hgood ⊢
  · exact .refl seeds records
  rcases PeerStore.upsert_cases id r records with ⟨below, x, above, rfl, -, hupsert⟩ | ⟨-, hupsert⟩
  · rw [hupsert]
    exact .refl seeds _
  · rw [hupsert] at hgood ⊢
    refine ⟨List.prefix_append _ _, fun x hx => ?_, hgood⟩
    rcases List.mem_append.1 hx with hx | hx
    · exact .inl hx
    · exact .inr (List.mem_singleton.1 hx ▸ h)

theorem addSeeds_run (h : ∀ endpoint ∈ endpoints, endpoint ∈ seeds) (added : ℕ) :
    ∃ added' records, (addSeeds now endpoints added).run s = .ok added' { s with records := records } ∧
      Seeded seeds s.records records := by
  induction endpoints generalizing added s with
  | nil => exact ⟨added, s.records, rfl, .refl seeds s.records⟩
  | cons endpoint endpoints ih =>
    obtain ⟨hendpoint, hrest⟩ := List.forall_mem_cons.1 h
    obtain ⟨isNew, hrun⟩ := PeerStore.addIfMissing_run (seedRecord now endpoint) s
    have hfirst := seeded_checkedUpsert (r := seedRecord now endpoint) hendpoint s.records
    have hstep : (do
        if ← PeerStore.addIfMissing (seedRecord now endpoint) then return added + 1
        else return added : PeerM ℕ).run s = .ok (if isNew then added + 1 else added)
          { s with records := PeerStore.checkedUpsert id (seedRecord now endpoint) s.records } := by
      rw [run_bind_of_ok hrun]
      cases isNew <;> rfl
    obtain ⟨added', records, hloop, hseeded⟩ := @ih
      { s with records := PeerStore.checkedUpsert id (seedRecord now endpoint) s.records }
      hrest (if isNew then added + 1 else added)
    refine ⟨added', records, ?_, hfirst.trans hseeded⟩
    rw [addSeeds, List.foldlM_cons, run_bind_of_ok hstep]
    exact hloop

theorem addDnsSeeds_run {resolver : Str → UInt16 → List PeerEndpoint} {hostnames : List Str}
    (h : ∀ hostname ∈ hostnames, ∀ endpoint ∈ resolver hostname 26001, endpoint ∈ seeds)
    (result : BootstrapResult) : ∃ result' records,
      (hostnames.foldlM (addDnsSeed now resolver) result).run s =
        .ok result' { s with records := records } ∧ Seeded seeds s.records records := by
  induction hostnames generalizing result s with
  | nil => exact ⟨result, s.records, rfl, .refl seeds s.records⟩
  | cons hostname hostnames ih =>
    obtain ⟨hhostname, hrest⟩ := List.forall_mem_cons.1 h
    obtain ⟨added, records, hadd, hfirst⟩ :=
      @addSeeds_run _ now _ s hhostname result.dnsEntriesAdded
    obtain ⟨result', records', hloop, hseeded⟩ := @ih { s with records := records } hrest
      { result with
        dnsEntriesAdded := added
        dnsNamesResolved := if resolver hostname 26001 ≠ [] then result.dnsNamesResolved + 1
          else result.dnsNamesResolved }
    refine ⟨result', records', ?_, hfirst.trans hseeded⟩
    rw [List.foldlM_cons, run_bind_ok]
    exact ⟨_, _, run_bind_ok.2 ⟨added, _, hadd, rfl⟩, hloop⟩

/-- **Bootstrap adds the compiled seeds** and what the resolver returns, and writes the file. -/
theorem bootstrapTestnetSeeds_run (now : Int64) (resolver : Str → UInt16 → List PeerEndpoint)
    (s : PeerStore) : ∃ result records,
      (bootstrapTestnetSeeds now resolver).run s =
        .ok result ⟨records, some (PeerStore.text records)⟩ ∧
      Seeded {endpoint | endpoint ∈ testnetFixedSeeds ∨
        ∃ hostname ∈ testnetDnsSeeds, endpoint ∈ resolver hostname 26001} s.records records := by
  obtain ⟨fixed, records, hfixed, hfirst⟩ := @addSeeds_run
    {endpoint | endpoint ∈ testnetFixedSeeds ∨
      ∃ hostname ∈ testnetDnsSeeds, endpoint ∈ resolver hostname 26001} now testnetFixedSeeds s
    (fun _ => .inl) 0
  obtain ⟨result, records', hdns, hseeded⟩ := @addDnsSeeds_run
    {endpoint | endpoint ∈ testnetFixedSeeds ∨
      ∃ hostname ∈ testnetDnsSeeds, endpoint ∈ resolver hostname 26001} now
    { s with records := records } resolver testnetDnsSeeds
    (fun hostname hhostname endpoint hendpoint => .inr ⟨hostname, hhostname, hendpoint⟩) ⟨fixed, 0, 0⟩
  refine ⟨result, records', ?_, hfirst.trans hseeded⟩
  rw [bootstrapTestnetSeeds, run_bind_of_ok hfixed, run_bind_of_ok hdns]
  rfl

end

end BinaryCoin
