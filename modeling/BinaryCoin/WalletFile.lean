/-
  BinaryCoin — the wallet file: what `save_hd` writes is read back by `load`
  while the counters stay in the range that the reader accepts.
-/
import BinaryCoin.HdWallet
import BinaryCoin.JsonPrint
import BinaryCoin.Lib.Runs
import BinaryCoin.Mempool
import BinaryCoin.Stoul

namespace BinaryCoin

open Cursor Text Runs

/-! ## The text -/

theorem splitField_eq {name : Str} (h : 61 ∉ name) (value : Str) :
    splitField (name ++ 61 :: value) = some (name, value) := cut_append h

theorem decimal_digits (n : ℕ) : ∀ c ∈ decimal n, isDigit c = true := by
  intro c hc
  simpa [isDigit, IsDigit] using decimal_isDigit n c hc

theorem stoul_decimal_eq (n : ℕ) : stoul (decimal n) =
    if 2 ^ 64 ≤ n then .error (outOfRange "stoul") else .ok (n, (decimal n).length) := by
  have hscanned : Scanned (decimal n) [] [] (decimal n) [] :=
    ⟨by simp, by simp, .inl rfl, decimal_ne_nil n, decimal_digits n, rfl⟩
  have hvalue : signedValue [] n = n := if_neg (by simp)
  rw [hscanned.stoul, decimalValue_decimal, hvalue]
  simp

theorem stoul_decimal {n : ℕ} (h : n < 2 ^ 64) : stoul (decimal n) = .ok (n, (decimal n).length) := by
  rw [stoul_decimal_eq, if_neg (Nat.not_le.2 h)]

theorem parseU32Field_decimal {fields : List (Str × Str)} {name : String} {n : UInt32}
    (hfound : findField fields (str name) = some (decimal n.toNat)) (hn : n.toNat ≤ 1000000) :
    parseU32Field fields name = .ok n := by
  refine except_bind_ok.2 ⟨_, orThrow_ok.2 hfound, ?_⟩
  refine except_bind_ok.2 ⟨_, stoul_decimal (by omega), ?_⟩
  refine except_bind_ok.2 ⟨(), throwIf_ok.2 (by simpa using hn), ?_⟩
  rw [UInt32.ofNat_toNat]
  rfl

theorem parseU32Field_large {fields : List (Str × Str)} {name : String} {n : UInt32}
    (hfound : findField fields (str name) = some (decimal n.toNat)) (hn : 1000000 < n.toNat) :
    parseU32Field fields name = .error (runtimeError "Invalid wallet index") := by
  have hlt : n.toNat < 2 ^ 64 := lt_trans n.toNat_lt (by norm_num)
  rw [parseU32Field, hfound]
  simp only [orThrow, bind, Except.bind, stoul_decimal hlt]
  rw [throwIf, if_pos (Or.inr hn)]
  rfl

namespace HdWalletBackend

section
variable [KeyCrypto]

/-- What a wallet file says. -/
@[ext] structure Contents where
  entropy : Hash256
  nextReceive : UInt32
  nextChange : UInt32
  legacyKey : Option Secp256k1Secret

def Contents.text (c : Contents) : Str := hdText c.entropy c.nextReceive c.nextChange c.legacyKey

/-- The fields of the file, as `read_fields` orders them. -/
def Contents.fields (c : Contents) : List (Str × Str) :=
  (str "entropy", bytesToHex c.entropy.bytes) ::
    ((c.legacyKey.toList.map fun key => (str "legacy_secret", key.secretHex)) ++
    [(str "next_change", decimal c.nextChange.toNat), (str "next_receive", decimal c.nextReceive.toNat)])

theorem Contents.lines_text (c : Contents) : lines c.text =
    [hdMagic, str "entropy" ++ 61 :: bytesToHex c.entropy.bytes,
      str "next_receive" ++ 61 :: decimal c.nextReceive.toNat,
      str "next_change" ++ 61 :: decimal c.nextChange.toNat] ++
      c.legacyKey.toList.map fun key => str "legacy_secret" ++ 61 :: key.secretHex := by
  refine lines_unlines fun l hl => ?_
  have hline : ∀ {name : Str} {value : Str}, newline ∉ name → newline ∉ value →
      newline ∉ name ++ 61 :: value := by
    intro name value hname hvalue hmem
    rcases List.mem_append.1 hmem with h | h
    · exact hname h
    · rcases List.mem_cons.1 h with h | h
      · cases h
      · exact hvalue h
  rcases List.mem_append.1 hl with hl | hl
  · simp only [List.mem_cons, List.not_mem_nil, or_false] at hl
    rcases hl with rfl | rfl | rfl | rfl
    · decide
    · exact hline (by decide) (newline_notMem_bytesToHex _)
    · exact hline (by decide) (newline_notMem_decimal _)
    · exact hline (by decide) (newline_notMem_decimal _)
  · obtain ⟨key, -, rfl⟩ := List.mem_map.1 hl
    exact hline (by decide) (newline_notMem_bytesToHex _)

theorem Contents.readFields_text (c : Contents) : readFields (lines c.text).tail = c.fields := by
  rw [Contents.lines_text]
  obtain ⟨entropy, nextReceive, nextChange, legacyKey⟩ := c
  cases legacyKey with
  | none =>
    simp only [Option.toList_none, List.map_nil, List.append_nil, List.tail_cons, readFields,
      List.filterMap_cons, List.filterMap_nil, Contents.fields,
      splitField_eq (by decide : (61 : UInt8) ∉ str "entropy"),
      splitField_eq (by decide : (61 : UInt8) ∉ str "next_receive"),
      splitField_eq (by decide : (61 : UInt8) ∉ str "next_change")]
    rfl
  | some key =>
    simp only [Option.toList_some, List.map_cons, List.map_nil, List.tail_cons, readFields,
      List.cons_append, List.nil_append,
      List.filterMap_cons, List.filterMap_nil, Contents.fields,
      splitField_eq (by decide : (61 : UInt8) ∉ str "entropy"),
      splitField_eq (by decide : (61 : UInt8) ∉ str "next_receive"),
      splitField_eq (by decide : (61 : UInt8) ∉ str "legacy_secret"),
      splitField_eq (by decide : (61 : UInt8) ∉ str "next_change")]
    rfl

theorem Contents.find_entropy (c : Contents) :
    findField c.fields (str "entropy") = some (bytesToHex c.entropy.bytes) := rfl

theorem Contents.find_nextReceive (c : Contents) :
    findField c.fields (str "next_receive") = some (decimal c.nextReceive.toNat) := by
  obtain ⟨entropy, nextReceive, nextChange, _ | key⟩ := c <;> rfl

theorem Contents.find_nextChange (c : Contents) :
    findField c.fields (str "next_change") = some (decimal c.nextChange.toNat) := by
  obtain ⟨entropy, nextReceive, nextChange, _ | key⟩ := c <;> rfl

theorem Contents.find_legacy (c : Contents) :
    findField c.fields (str "legacy_secret") = c.legacyKey.map Secp256k1Secret.secretHex := by
  obtain ⟨entropy, nextReceive, nextChange, _ | key⟩ := c <;> rfl

end

variable [Crypto] [KeyCrypto]

/-! ## Saving and loading -/

/-- The master key of an entropy. -/
def masterOf (entropy : Hash256) : Except Exn HdPrivateKey :=
  bip32Master (mnemonicToSeed (entropyToMnemonic entropy))

/-- The wallet with the contents of its file, and no cache. -/
def withContents (w : HdWalletBackend) (c : Contents) (master : HdPrivateKey) : HdWalletBackend :=
  { w with
    kind := .hdBip32
    entropy := some c.entropy
    master := some master
    legacyKey := c.legacyKey
    nextReceive := c.nextReceive
    nextChange := c.nextChange
    ownedCache := none }

theorem setHdEntropy_run {entropy : Hash256} {master : HdPrivateKey}
    (h : masterOf entropy = .ok master) (w : HdWalletBackend) :
    (setHdEntropy entropy).run w = .ok () (w.withContents ⟨entropy, 1, 1, w.legacyKey⟩ master) := by
  simp only [setHdEntropy, run_bind_ok, run_modify_ok, lift_run_ok]
  exact ⟨(), _, rfl, master, _, ⟨h, rfl⟩, rfl⟩

omit [Crypto] in
theorem saveHd_run {entropy : Hash256} {master : HdPrivateKey} {w : HdWalletBackend}
    (hentropy : w.entropy = some entropy) (hmaster : w.master = some master) :
    (saveHd .done).run w = .ok ()
      { w with walletFile := some (Contents.text ⟨entropy, w.nextReceive, w.nextChange, w.legacyKey⟩) } := by
  simp only [saveHd, run_bind_ok, run_get_ok]
  refine ⟨w, w, ⟨rfl, rfl⟩, ?_⟩
  rw [hentropy, hmaster]
  rfl

theorem loadHd_run {c : Contents} {master : HdPrivateKey} (hmaster : masterOf c.entropy = .ok master)
    (hreceive : c.nextReceive.toNat ≤ 1000000) (hchange : c.nextChange.toNat ≤ 1000000)
    (w : HdWalletBackend) : (loadHd c.fields).run { w with legacyKey := none } =
      .ok () (w.withContents c master) := by
  have hset := setHdEntropy_run hmaster { w with legacyKey := none }
  rw [← Hash256.ofBytes_bytes c.entropy] at hset
  simp only [loadHd, run_bind_ok, lift_run_ok, throwIf_run_ok, orThrow_ok, run_modify_ok]
  refine ⟨_, _, ⟨c.find_entropy, rfl⟩, _, _, ⟨hexToBytes_bytesToHex _, rfl⟩, (), _,
    ⟨not_not.2 c.entropy.size_eq, rfl⟩, (), _, hset, c.nextReceive, _,
    ⟨parseU32Field_decimal c.find_nextReceive hreceive, rfl⟩, (), _, rfl, c.nextChange, _,
    ⟨parseU32Field_decimal c.find_nextChange hchange, rfl⟩, (), _, rfl, ?_⟩
  rw [Hash256.ofBytes_bytes, c.find_legacy]
  obtain ⟨entropy, nextReceive, nextChange, _ | key⟩ := c
  · rfl
  · simp only [Option.map_some, run_bind_ok, lift_run_ok, run_modify_ok]
    exact ⟨key, _, ⟨key.fromSecretHex_secretHex, rfl⟩, rfl⟩

/-- **A file is read back** while its counters are in the range of the reader. -/
theorem load_run {c : Contents} {master : HdPrivateKey} {w : HdWalletBackend}
    (hfile : w.walletFile = some c.text) (hmaster : masterOf c.entropy = .ok master)
    (hreceive : c.nextReceive.toNat ≤ 1000000) (hchange : c.nextChange.toNat ≤ 1000000) :
    load.run w = .ok () (w.withContents c master) := by
  simp only [load, run_bind_ok, run_modify_ok, run_get_ok]
  refine ⟨(), _, rfl, _, _, ⟨rfl, rfl⟩, ?_⟩
  simp only [hfile, run_bind_ok, throwIf_run_ok]
  refine ⟨(), _, ⟨?_, rfl⟩, ?_⟩
  · rw [c.lines_text]
    exact not_not.2 rfl
  · rw [c.readFields_text, ← hfile]
    exact loadHd_run hmaster hreceive hchange { w with entropy := none, master := none }

/-- A receive counter beyond the range is refused. -/
theorem load_large {c : Contents} {master : HdPrivateKey} {w : HdWalletBackend}
    (hfile : w.walletFile = some c.text) (hmaster : masterOf c.entropy = .ok master)
    (hreceive : 1000000 < c.nextReceive.toNat) :
    ∃ w', load.run w = .error (runtimeError "Invalid wallet index") w' := by
  have hset := setHdEntropy_run hmaster { w with entropy := none, master := none, legacyKey := none }
  rw [← Hash256.ofBytes_bytes c.entropy] at hset
  simp only [hfile] at hset
  refine ⟨?state, run_bind_error.2 (.inr ⟨(), _, rfl, run_bind_error.2 (.inr ⟨_, _, rfl, ?_⟩)⟩)⟩
  rotate_left
  simp only [hfile]
  refine run_bind_error.2 (.inr ⟨(), _, throwIf_run_ok.2 ⟨?_, rfl⟩, ?_⟩)
  · rw [c.lines_text]
    exact not_not.2 rfl
  rw [c.readFields_text]
  refine run_bind_error.2 (.inr ⟨_, _, lift_run_ok.2 ⟨orThrow_ok.2 c.find_entropy, rfl⟩, ?_⟩)
  refine run_bind_error.2 (.inr ⟨_, _, lift_run_ok.2 ⟨hexToBytes_bytesToHex _, rfl⟩, ?_⟩)
  refine run_bind_error.2 (.inr ⟨(), _, throwIf_run_ok.2 ⟨not_not.2 c.entropy.size_eq, rfl⟩, ?_⟩)
  refine run_bind_error.2 (.inr ⟨(), _, hset, run_bind_error.2 (.inl ?_)⟩)
  rw [parseU32Field_large c.find_nextReceive hreceive]
  rfl

/-! ## Ownership -/

def walletKey (master : HdPrivateKey) (branch index : UInt32) : Except Exn Secp256k1Secret := do
  let key ← deriveTestnetWalletKey master branch index
  key.key

omit [Crypto] in
theorem hdKey_eq {w : HdWalletBackend} {master : HdPrivateKey} (h : w.master = some master)
    (branch index : UInt32) : w.hdKey branch index = walletKey master branch index := by
  rw [hdKey, h]
  rfl

/-- Every key of the two branches below `limit` can be derived. -/
structure Derivable (entropy : Hash256) (master : HdPrivateKey) (limit : ℕ) : Prop where
  masterOf_eq : masterOf entropy = .ok master
  key : ∀ branch index : UInt32, branch = 0 ∨ branch = 1 → index.toNat < limit →
    ∃ key, walletKey master branch index = .ok key

/-- The public key of a secret is one: what secp256k1 writes, it reads. -/
def PublicKeysValid : Prop :=
  ∀ key : Secp256k1Secret, validCompressedPublicKey key.compressedPublicKey

def p2pkScript (key : Secp256k1Secret) : Bytes := 33 :: key.compressedPublicKey ++ [opChecksig]

theorem makeP2pkScript_key (hpublic : PublicKeysValid) (key : Secp256k1Secret) :
    makeP2pkScript key.compressedPublicKey = .ok (p2pkScript key) :=
  except_bind_ok.2 ⟨(), throwIf_ok.2 (not_not.2 (hpublic key)), rfl⟩

theorem ownedEntry_ok (hpublic : PublicKeysValid) (key : Secp256k1Secret) :
    ownedEntry key = .ok (p2pkScript key, key) :=
  except_bind_ok.2 ⟨_, makeP2pkScript_key hpublic key, rfl⟩

/-- The entries of a branch. -/
def BranchEntry (master : HdPrivateKey) (branch limit : UInt32) (entry : Bytes × Secp256k1Secret) :
    Prop :=
  ∃ index < limit, walletKey master branch index = .ok entry.2 ∧ entry.1 = p2pkScript entry.2

/-- The keys of a branch, all of which can be derived. -/
theorem ownedBranch_ok (hpublic : PublicKeysValid) {w : HdWalletBackend} {master : HdPrivateKey}
    (h : w.master = some master) (branch limit : UInt32)
    (hkey : ∀ index < limit, ∃ key, walletKey master branch index = .ok key) :
    ∃ entries, w.ownedBranch branch limit = .ok entries ∧
      ∀ entry, entry ∈ entries ↔ BranchEntry master branch limit entry := by
  have hprefix : ∀ n ≤ limit.toNat, ∃ entries,
      ((List.range n).mapM fun index => do ownedEntry (← w.hdKey branch (UInt32.ofNat index))) =
        .ok entries ∧
      ∀ entry, entry ∈ entries ↔ ∃ index : UInt32, index.toNat < n ∧
        walletKey master branch index = .ok entry.2 ∧ entry.1 = p2pkScript entry.2 := by
    intro n hn
    induction n with
    | zero => exact ⟨[], rfl, by simp⟩
    | succ n ih =>
      obtain ⟨entries, hentries, hmem⟩ := ih (by omega)
      have hlt : (UInt32.ofNat n).toNat = n :=
        UInt32.toNat_ofNat_of_lt' (lt_of_lt_of_le (by omega : n < limit.toNat) limit.toNat_lt.le)
      obtain ⟨key, hlast⟩ := hkey (UInt32.ofNat n) (UInt32.lt_iff_toNat_lt.2 (by omega))
      refine ⟨entries ++ [(p2pkScript key, key)], ?_, fun entry => ?_⟩
      · rw [List.range_succ, List.mapM_append, hentries]
        simp [hdKey_eq h, hlast, ownedEntry_ok hpublic, bind, Except.bind, pure, Except.pure]
      · rw [List.mem_append, hmem, List.mem_singleton]
        constructor
        · rintro (⟨index, hindex, hentry⟩ | rfl)
          · exact ⟨index, by omega, hentry⟩
          · exact ⟨UInt32.ofNat n, by omega, hlast, rfl⟩
        · rintro ⟨index, hindex, hentry, hscript⟩
          by_cases heq : index.toNat = n
          · rw [← heq, UInt32.ofNat_toNat, hentry] at hlast
            exact .inr (Prod.ext (hscript.trans (congrArg p2pkScript (Except.ok.inj hlast)))
              (Except.ok.inj hlast))
          · exact .inl ⟨index, by omega, hentry, hscript⟩
  obtain ⟨entries, hentries, hmem⟩ := hprefix _ le_rfl
  exact ⟨entries, hentries, fun entry => (hmem entry).trans
    (exists_congr fun index => and_congr_left fun _ => UInt32.lt_iff_toNat_lt.symm)⟩

/-- What the wallet owns. -/
def OwnedEntry (w : HdWalletBackend) (master : HdPrivateKey) (entry : Bytes × Secp256k1Secret) : Prop :=
  BranchEntry master 0 (w.nextReceive + lookahead) entry ∨
  BranchEntry master 1 (w.nextChange + lookahead) entry ∨
  w.legacyKey = some entry.2 ∧ entry.1 = p2pkScript entry.2

theorem ownedEntries_ok (hpublic : PublicKeysValid) {w : HdWalletBackend} {entropy : Hash256}
    {master : HdPrivateKey} {limit : ℕ} (hkind : w.kind = .hdBip32) (hmaster : w.master = some master)
    (hderivable : Derivable entropy master limit)
    (hreceive : (w.nextReceive + lookahead).toNat ≤ limit)
    (hchange : (w.nextChange + lookahead).toNat ≤ limit) :
    ∃ entries, w.ownedEntries = .ok entries ∧
      ∀ entry, entry ∈ entries ↔ w.OwnedEntry master entry := by
  obtain ⟨receive, hreceive, hmem₀⟩ := ownedBranch_ok hpublic hmaster 0 (w.nextReceive + lookahead)
    fun index hindex => hderivable.key 0 index (.inl rfl)
      (lt_of_lt_of_le (UInt32.lt_iff_toNat_lt.1 hindex) hreceive)
  obtain ⟨change, hchange, hmem₁⟩ := ownedBranch_ok hpublic hmaster 1 (w.nextChange + lookahead)
    fun index hindex => hderivable.key 1 index (.inr rfl)
      (lt_of_lt_of_le (UInt32.lt_iff_toNat_lt.1 hindex) hchange)
  have hlegacy : w.legacyKey.toList.mapM ownedEntry =
      .ok (w.legacyKey.toList.map fun key => (p2pkScript key, key)) := by
    have hentry : ∀ key entry, ownedEntry key = .ok entry ↔ True ∧ entry = (p2pkScript key, key) := by
      intro key entry
      rw [ownedEntry_ok hpublic, true_and, Except.ok.injEq, eq_comm]
    exact (mapM_ok hentry).2 ⟨fun _ _ => trivial, rfl⟩
  refine ⟨receive ++ change ++ w.legacyKey.toList.map fun key => (p2pkScript key, key), ?_,
    fun entry => ?_⟩
  · rw [ownedEntries, if_pos hkind, if_pos hkind]
    exact except_bind_ok.2 ⟨_, hreceive, except_bind_ok.2 ⟨_, hchange, except_bind_ok.2
      ⟨_, hlegacy, rfl⟩⟩⟩
  · rw [List.mem_append, List.mem_append, hmem₀, hmem₁, or_assoc, OwnedEntry]
    refine or_congr_right (or_congr_right ?_)
    rw [List.mem_map]
    constructor
    · rintro ⟨key, hkey, rfl⟩
      exact ⟨Option.mem_toList.1 hkey, rfl⟩
    · rintro ⟨hkey, hscript⟩
      exact ⟨entry.2, Option.mem_toList.2 hkey, Prod.ext hscript.symm rfl⟩

theorem rebuildOwnedCache_run {w : HdWalletBackend} {entries : List (Bytes × Secp256k1Secret)}
    (h : w.ownedEntries = .ok entries) (hcache : w.ownedCache = none ∨ w.ownedCache = some entries) :
    rebuildOwnedCache.run w = .ok entries { w with ownedCache := some entries } := by
  simp only [rebuildOwnedCache, run_bind_ok, run_get_ok]
  refine ⟨w, w, ⟨rfl, rfl⟩, ?_⟩
  rcases hcache with hcache | hcache
  · rw [hcache]
    simp only [run_bind_ok, lift_run_ok, run_set_ok, run_pure_ok]
    exact ⟨entries, w, ⟨h, rfl⟩, (), _, rfl, rfl, rfl⟩
  · rw [hcache]
    obtain ⟨⟩ := w
    subst hcache
    rfl

theorem ownsScript_run {w : HdWalletBackend} {entries : List (Bytes × Secp256k1Secret)}
    (h : w.ownedEntries = .ok entries) (hcache : w.ownedCache = none ∨ w.ownedCache = some entries)
    (script : Bytes) : (ownsScript script).run w =
      .ok (entries.any (·.1 = script)) { w with ownedCache := some entries } := by
  simp only [ownsScript, keyForScript, run_bind_ok, run_pure_ok]
  refine ⟨_, _, ⟨entries, _, rebuildOwnedCache_run h hcache, rfl, rfl⟩, ?_, rfl⟩
  rw [Option.isSome_map, List.isSome_find?]

end HdWalletBackend

end BinaryCoin
