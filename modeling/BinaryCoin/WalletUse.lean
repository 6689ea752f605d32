/-
  BinaryCoin — a data directory in use: any sequence of calls, by any number
  of wallet objects one after the other.

  `saved` is what `save_hd` wrote last, also where it threw after the file was
  replaced, and `handed` are the addresses that `get_new_address` has returned.
-/
import BinaryCoin.ZeroEntropy

namespace BinaryCoin

open Cursor Text Runs

namespace HdWalletBackend

section
variable [Crypto] [KeyCrypto]

/-- The member functions that are called, with what they draw and whether they can write. -/
inductive Call where
  /-- the constructor -/
  | construct
  | create (entropy : Hash256) (write : Write)
  | importMnemonic (phrase : Str) (write : Write)
  | upgradeLegacy (entropy : Hash256) (write : Write)
  | getNewAddress (write : Write)
  | load
  | ownsScript (script : Bytes)

/-- A call, with the address it hands out. -/
def Call.exec : Call → EStateM Exn HdWalletBackend (Option Str)
  | .construct => do
    modify fun w => ⟨w.dataDirectory, w.walletFile, w.legacyFile, .hdBip32, none, none, none, 1, 1, none⟩
    return none
  | .create entropy write => do
    let _ ← HdWalletBackend.create entropy write
    return none
  | .importMnemonic phrase write => do
    HdWalletBackend.importMnemonic phrase write
    return none
  | .upgradeLegacy entropy write => do
    let _ ← HdWalletBackend.upgradeLegacy entropy write
    return none
  | .getNewAddress write => do
    let address ← HdWalletBackend.getNewAddress write
    return some address
  | .load => do
    HdWalletBackend.load
    return none
  | .ownsScript script => do
    let _ ← HdWalletBackend.ownsScript script
    return none

/-- A call that ends with `save_hd`. -/
def Call.saves : Call → Bool
  | .create .. | .importMnemonic .. | .upgradeLegacy .. | .getNewAddress .. => true
  | _ => false

def contents (w : HdWalletBackend) : Option Contents :=
  w.entropy.map fun entropy => ⟨entropy, w.nextReceive, w.nextChange, w.legacyKey⟩

/-- A data directory in use. -/
structure Use where
  wallet : HdWalletBackend
  handed : List Str
  saved : Option Contents

def Use.step (u : Use) (call : Call) : Use :=
  match call.exec.run u.wallet with
  | .ok address w => ⟨w, u.handed ++ address.toList, if call.saves then w.contents else u.saved⟩
  -- a call that throws may have replaced the file before
  | .error _ w =>
    ⟨w, u.handed, if w.walletFile = u.wallet.walletFile then u.saved else w.contents⟩

/-- A directory without an HD wallet, and a new object. -/
def Use.fresh (dataDirectory : String) (legacyFile : Option Str) : Use :=
  ⟨⟨dataDirectory, none, legacyFile, .hdBip32, none, none, none, 1, 1, none⟩, [], none⟩

/-- What `load` promises: it returns with what was saved, and every address that was handed out is
    owned. -/
def Use.ReadsBack (u : Use) : Prop :=
  ∀ c, u.saved = some c → ∃ w, load.run u.wallet = .ok () w ∧ w.contents = some c ∧
    ∀ address ∈ u.handed, ∃ key : Secp256k1Secret,
      encodeTestnetAddress key.compressedPublicKey = .ok address ∧
      ∃ script, makeP2pkScript key.compressedPublicKey = .ok script ∧
        ∃ w', (ownsScript script).run w = .ok true w'

/-- The largest index that the reader accepts. -/
def maxIndex : ℕ := 1000000

/-- The keys up to the largest index, and those of the look-ahead, can be derived. -/
def EntropyOk (entropy : Hash256) : Prop :=
  ∃ master, Derivable entropy master (maxIndex + lookahead.toNat)

/-- The calls after which the file is still in the range of the reader. -/
def Call.Allowed (w : HdWalletBackend) : Call → Prop
  | .create entropy _ | .upgradeLegacy entropy _ => EntropyOk entropy
  | .importMnemonic phrase _ => ∀ entropy, mnemonicToEntropy phrase = .ok entropy → EntropyOk entropy
  | .getNewAddress _ => w.nextReceive.toNat < maxIndex
  | .construct | .load | .ownsScript _ => True

/-! ## The invariant -/

/-- Contents that can be read, and whose keys can be derived. -/
structure Contents.Ok (c : Contents) (master : HdPrivateKey) : Prop where
  receive : c.nextReceive.toNat ≤ maxIndex
  change : c.nextChange = 1
  derivable : Derivable c.entropy master (maxIndex + lookahead.toNat)

/-- The file holds what was saved, and the addresses were handed out before. -/
def FileOk (u : Use) : Prop :=
  match u.saved with
  | none => u.wallet.walletFile = none ∧ u.handed = []
  | some c => u.wallet.walletFile = some c.text ∧ ∃ master, c.Ok master ∧
    ∀ address ∈ u.handed, ∃ index key, index < c.nextReceive ∧ walletKey master 0 index = .ok key ∧
      encodeTestnetAddress key.compressedPublicKey = .ok address

/-- An object that is loaded. -/
structure Loaded (saved : Option Contents) (w : HdWalletBackend) (c : Contents)
    (master : HdPrivateKey) : Prop where
  contents_eq : w.contents = some c
  master_eq : w.master = some master
  kind_eq : w.kind = .hdBip32
  ok : c.Ok master
  -- what it holds is at least what is in the file
  saved : ∀ c', saved = some c' → c'.entropy = c.entropy ∧ c'.nextReceive ≤ c.nextReceive ∧
    c'.legacyKey = c.legacyKey

/-- An object is not loaded, or it holds at least what is in the file. -/
def MemoryOk (saved : Option Contents) (w : HdWalletBackend) : Prop :=
  w.entropy = none ∧ w.master = none ∨ ∃ c master, Loaded saved w c master

structure Use.Ok (u : Use) : Prop where
  file : FileOk u
  memory : MemoryOk u.saved u.wallet

/-! ## Reading back -/

theorem Contents.Ok.window {c : Contents} {master : HdPrivateKey} (h : c.Ok master) :
    (c.nextReceive + lookahead).toNat = c.nextReceive.toNat + 20 := by
  have := h.receive
  rw [UInt32.toNat_add, Nat.mod_eq_of_lt]
  · rfl
  · simp only [maxIndex, lookahead, UInt32.reduceToNat] at *
    omega

theorem Use.Ok.readsBack (hpublic : PublicKeysValid) {u : Use} (h : u.Ok) : u.ReadsBack := by
  intro c hc
  have hfile := h.file
  rw [FileOk, hc] at hfile
  obtain ⟨hfile, master, hok, hhanded⟩ := hfile
  have hchange : c.nextChange.toNat ≤ 1000000 := by
    rw [hok.change]
    decide
  refine ⟨_, load_run hfile hok.derivable.masterOf_eq hok.receive hchange, rfl, ?_⟩
  intro address haddress
  obtain ⟨index, key, hindex, hkey, hencode⟩ := hhanded address haddress
  have hreceive : (c.nextReceive + lookahead).toNat ≤ maxIndex + lookahead.toNat := by
    rw [hok.window]
    exact Nat.add_le_add_right hok.receive 20
  have hchange' : (c.nextChange + lookahead).toNat ≤ maxIndex + lookahead.toNat := by
    rw [hok.change]
    decide
  obtain ⟨entries, hentries, hmem⟩ := ownedEntries_ok hpublic (w := u.wallet.withContents c master)
    rfl rfl hok.derivable hreceive hchange'
  have howned : entries.any (·.1 = p2pkScript key) = true := by
    refine List.any_eq_true.2 ⟨(p2pkScript key, key), (hmem _).2 (.inl ⟨index, ?_, hkey, rfl⟩), by simp⟩
    rw [UInt32.lt_iff_toNat_lt] at hindex
    show index < c.nextReceive + lookahead
    rw [UInt32.lt_iff_toNat_lt, hok.window]
    omega
  have hrun := ownsScript_run hentries (.inl rfl) (p2pkScript key)
  rw [howned] at hrun
  exact ⟨key, hencode, p2pkScript key, makeP2pkScript_key hpublic key, _, hrun⟩

/-! ## What the calls preserve -/

omit [Crypto] [KeyCrypto] in
theorem throwIf_run_pos {σ : Type} {c : Prop} [Decidable c] {e : Exn} {s : σ} (h : c) :
    (throwIf c e : EStateM Exn σ Unit).run s = .error e s := by
  rw [throwIf, if_pos h]
  rfl

omit [Crypto] [KeyCrypto] in
theorem lift_error_run {σ α : Type} {x : Except Exn α} {e : Exn} (h : x = .error e) (s : σ) :
    (liftM x : EStateM Exn σ α).run s = .error e s := by
  rw [h]
  rfl

/-- A wallet with one address, of an entropy whose keys can be derived. -/
theorem loaded_first {entropy : Hash256} {master : HdPrivateKey} {legacyKey : Option Secp256k1Secret}
    (h : Derivable entropy master (maxIndex + lookahead.toNat)) (w : HdWalletBackend) :
    Loaded none (w.withContents ⟨entropy, 1, 1, legacyKey⟩ master) ⟨entropy, 1, 1, legacyKey⟩ master :=
  ⟨rfl, rfl, rfl, ⟨(by decide : (1 : UInt32).toNat ≤ maxIndex), rfl, h⟩, nofun⟩

/-- The file has been replaced by what the object holds. -/
theorem Use.Ok.written {c : Contents} {master : HdPrivateKey} (hok : c.Ok master) {handed : List Str}
    (hhanded : ∀ address ∈ handed, ∃ index key, index < c.nextReceive ∧
      walletKey master 0 index = .ok key ∧
        encodeTestnetAddress key.compressedPublicKey = .ok address) (w : HdWalletBackend) :
    Use.Ok ⟨{ w.withContents c master with walletFile := some c.text }, handed, some c⟩ where
  file := ⟨rfl, master, hok, hhanded⟩
  memory := by
    refine .inr ⟨c, master, rfl, rfl, rfl, hok, ?_⟩
    rintro c' ⟨⟩
    exact ⟨rfl, UInt32.le_refl _, rfl⟩

theorem FileOk.of_walletFile {u : Use} (h : FileOk u) {w : HdWalletBackend}
    (hfile : w.walletFile = u.wallet.walletFile) : FileOk { u with wallet := w } := by
  unfold FileOk at h ⊢
  simp only [hfile]
  exact h

/-- Nothing has been saved. -/
theorem Use.Ok.unsaved {u : Use} (h : u.Ok) (hfile : u.wallet.walletFile = none) :
    u.saved = none ∧ u.handed = [] := by
  have hfile' := h.file
  unfold FileOk at hfile'
  cases hsaved : u.saved with
  | none =>
    rw [hsaved] at hfile'
    exact ⟨rfl, hfile'.2⟩
  | some c =>
    rw [hsaved, hfile] at hfile'
    cases hfile'.1

omit [Crypto] in
/-- The three ways `save_hd` ends. -/
theorem saveHd_cases {w : HdWalletBackend} {c : Contents} {master : HdPrivateKey} (write : Write) :
    (saveHd write).run (w.withContents c master) =
      .ok () { w.withContents c master with walletFile := some c.text } ∨
    ∃ e, (saveHd write).run (w.withContents c master) = .error e (w.withContents c master) ∨
      (saveHd write).run (w.withContents c master) =
        .error e { w.withContents c master with walletFile := some c.text } := by
  cases write with
  | done => exact .inl (saveHd_run rfl rfl)
  | failed e => exact .inr ⟨e, .inl (run_bind_error.2 (.inr ⟨_, _, rfl, rfl⟩))⟩
  | unrestricted e => exact .inr ⟨e, .inr (run_bind_error.2 (.inr ⟨_, _, rfl, rfl⟩))⟩

/-- A call that throws and leaves the file. -/
theorem step_kept {u : Use} {call : Call} {e : Exn} {w : HdWalletBackend}
    (hexec : call.exec.run u.wallet = .error e w) (hfile : w.walletFile = u.wallet.walletFile) :
    u.step call = ⟨w, u.handed, u.saved⟩ := by
  rw [Use.step, hexec]
  exact congrArg (Use.mk w u.handed) (if_pos hfile)

/-- `set_hd_entropy` and `save_hd` in a directory without an HD wallet. -/
theorem step_first {u : Use} (h : u.Ok) (hfile : u.wallet.walletFile = none) {call : Call}
    (hsaves : call.saves) {w : HdWalletBackend} (hw : w.walletFile = none) {entropy : Hash256}
    {master : HdPrivateKey} (hderivable : Derivable entropy master (maxIndex + lookahead.toNat))
    (legacyKey : Option Secp256k1Secret) (write : Write)
    (hexec : call.exec.run u.wallet = (saveHd write >>= fun _ => pure none).run
      (w.withContents ⟨entropy, 1, 1, legacyKey⟩ master)) :
    (u.step call).Ok := by
  obtain ⟨hsaved, hhanded⟩ := h.unsaved hfile
  have hloaded : Loaded none (w.withContents ⟨entropy, 1, 1, legacyKey⟩ master)
      ⟨entropy, 1, 1, legacyKey⟩ master := loaded_first hderivable w
  rcases saveHd_cases write with hsave | ⟨e, hsave | hsave⟩
  · have hdone := hexec.trans (run_bind_ok.2 ⟨(), _, hsave, rfl⟩)
    rw [Use.step, hdone, hhanded]
    simp only [hsaves, if_true, Option.toList_none, List.append_nil]
    refine .written hloaded.ok ?_ w
    exact nofun
  · have hfailed := hexec.trans (run_bind_error.2 (.inl hsave))
    rw [step_kept hfailed (hw.trans hfile.symm)]
    refine ⟨?_, ?_⟩
    · rw [FileOk, hsaved]
      exact ⟨hw, hhanded⟩
    · rw [hsaved]
      exact .inr ⟨_, master, hloaded⟩
  · have hreplaced := hexec.trans (run_bind_error.2 (.inl hsave))
    rw [Use.step, hreplaced, hhanded]
    simp only [hfile, reduceCtorEq, if_false]
    refine .written hloaded.ok ?_ w
    exact nofun

omit [Crypto] in
theorem walletFile_none {w : HdWalletBackend} (h : ¬ w.walletExists = true) : w.walletFile = none := by
  rw [walletExists, Bool.or_eq_true, not_or] at h
  simpa using h.1

/-- A call that throws before it changes anything. -/
theorem step_unchanged {u : Use} (h : u.Ok) {call : Call} {e : Exn}
    (hexec : call.exec.run u.wallet = .error e u.wallet) : (u.step call).Ok := by
  rw [step_kept hexec rfl]
  exact h

theorem step_create {u : Use} (h : u.Ok) {entropy : Hash256} (hentropy : EntropyOk entropy)
    (write : Write) : (u.step (.create entropy write)).Ok := by
  by_cases hexists : u.wallet.walletExists = true
  · exact step_unchanged h (run_bind_error.2 (.inl (run_bind_error.2 (.inr ⟨_, _, rfl,
      run_bind_error.2 (.inl (throwIf_run_pos hexists))⟩))))
  · obtain ⟨master, hderivable⟩ := hentropy
    have hset := setHdEntropy_run hderivable.masterOf_eq u.wallet
    refine step_first h (walletFile_none hexists) rfl (walletFile_none hexists) hderivable
      u.wallet.legacyKey write ?_
    simp only [Call.exec, create, bind_assoc, pure_bind]
    rw [run_bind_of_ok (run_get_ok.2 ⟨rfl, rfl⟩),
      run_bind_of_ok (a := ()) (throwIf_run_ok.2 ⟨hexists, rfl⟩), run_bind_of_ok hset]

theorem step_importMnemonic {u : Use} (h : u.Ok) {phrase : Str}
    (hentropy : ∀ entropy, mnemonicToEntropy phrase = .ok entropy → EntropyOk entropy)
    (write : Write) : (u.step (.importMnemonic phrase write)).Ok := by
  by_cases hexists : u.wallet.walletExists = true
  · exact step_unchanged h (run_bind_error.2 (.inl (run_bind_error.2 (.inr ⟨_, _, rfl,
      run_bind_error.2 (.inl (throwIf_run_pos hexists))⟩))))
  · cases hphrase : mnemonicToEntropy phrase with
    | error e =>
      exact step_unchanged h (run_bind_error.2 (.inl (run_bind_error.2 (.inr ⟨_, _, rfl,
        run_bind_error.2 (.inr ⟨(), _, throwIf_run_ok.2 ⟨hexists, rfl⟩, run_bind_error.2
          (.inl (lift_error_run hphrase _))⟩)⟩))))
    | ok entropy =>
      obtain ⟨master, hderivable⟩ := hentropy entropy hphrase
      have hset := setHdEntropy_run hderivable.masterOf_eq u.wallet
      refine step_first h (walletFile_none hexists) rfl (walletFile_none hexists) hderivable
        u.wallet.legacyKey write ?_
      simp only [Call.exec, importMnemonic, bind_assoc]
      rw [run_bind_of_ok (run_get_ok.2 ⟨rfl, rfl⟩),
        run_bind_of_ok (a := ()) (throwIf_run_ok.2 ⟨hexists, rfl⟩),
        run_bind_of_ok (lift_run_ok.2 ⟨hphrase, rfl⟩), run_bind_of_ok hset]

/-- Without an HD wallet file, `load` leaves no HD wallet in memory. -/
theorem load_none {w : HdWalletBackend} (hfile : w.walletFile = none) :
    (∃ e, load.run w = .error e { w with entropy := none, master := none, legacyKey := none }) ∨
    ∃ key, load.run w = .ok () { w with
      entropy := none, master := none, legacyKey := some key, kind := .legacySingleKey,
      ownedCache := none } := by
  cases hlegacy : w.legacyFile with
  | none =>
    refine .inl ⟨runtimeError "Wallet does not exist; run wallet-create first", run_bind_error.2
      (.inr ⟨(), _, rfl, run_bind_error.2 (.inr ⟨_, _, rfl, ?_⟩)⟩)⟩
    simp only [hfile, hlegacy]
    rfl
  | some text =>
    have hload : ∀ s : HdWalletBackend, (∃ e, (loadLegacy text).run s = .error e s) ∨
        ∃ key, (loadLegacy text).run s = .ok () { s with
          legacyKey := some key, kind := .legacySingleKey, ownedCache := none } := by
      intro s
      unfold loadLegacy
      split
      · rename_i magic secretLine _ _
        by_cases hmagic : magic ≠ legacyMagic ∨ secretLine.take 7 ≠ str "secret="
        · exact .inl ⟨_, run_bind_error.2 (.inl (throwIf_run_pos hmagic))⟩
        · cases hkey : Secp256k1Secret.fromSecretHex (secretLine.drop 7) with
          | error e =>
            exact .inl ⟨e, run_bind_error.2 (.inr ⟨(), _, throwIf_run_ok.2 ⟨hmagic, rfl⟩,
              run_bind_error.2 (.inl (lift_error_run rfl _))⟩)⟩
          | ok key =>
            exact .inr ⟨key, run_bind_ok.2 ⟨(), _, throwIf_run_ok.2 ⟨hmagic, rfl⟩, run_bind_ok.2
              ⟨key, _, lift_run_ok.2 ⟨rfl, rfl⟩, rfl⟩⟩⟩
      · exact .inl ⟨_, rfl⟩
    rcases hload { w with entropy := none, master := none, legacyKey := none } with ⟨e, h⟩ | ⟨key, h⟩
    · refine .inl ⟨e, run_bind_error.2 (.inr ⟨(), _, rfl, run_bind_error.2 (.inr ⟨_, _, rfl, ?_⟩)⟩)⟩
      simp only [hfile, hlegacy] at h ⊢
      exact h
    · refine .inr ⟨key, run_bind_ok.2 ⟨(), _, rfl, run_bind_ok.2 ⟨_, _, rfl, ?_⟩⟩⟩
      simp only [hfile, hlegacy] at h ⊢
      exact h

/-- An object that holds nothing. -/
theorem Use.Ok.cleared {u : Use} (h : u.Ok) {w : HdWalletBackend}
    (hfile : w.walletFile = u.wallet.walletFile) (hentropy : w.entropy = none)
    (hmaster : w.master = none) : Use.Ok { u with wallet := w } where
  file := h.file.of_walletFile hfile
  memory := .inl ⟨hentropy, hmaster⟩

theorem step_upgradeLegacy {u : Use} (h : u.Ok) {entropy : Hash256} (hentropy : EntropyOk entropy)
    (write : Write) : (u.step (.upgradeLegacy entropy write)).Ok := by
  by_cases hfile : u.wallet.walletFile.isSome = true
  · exact step_unchanged h (run_bind_error.2 (.inl (run_bind_error.2 (.inr ⟨_, _, rfl,
      run_bind_error.2 (.inl (throwIf_run_pos hfile))⟩))))
  by_cases hlegacy : u.wallet.legacyFile.isNone = true
  · exact step_unchanged h (run_bind_error.2 (.inl (run_bind_error.2 (.inr ⟨_, _, rfl,
      run_bind_error.2 (.inr ⟨(), _, throwIf_run_ok.2 ⟨hfile, rfl⟩, run_bind_error.2
        (.inl (throwIf_run_pos hlegacy))⟩)⟩))))
  have hnone : u.wallet.walletFile = none := by simpa using hfile
  rcases load_none hnone with ⟨e, hload⟩ | ⟨key, hload⟩
  · have hexec : (Call.upgradeLegacy entropy write).exec.run u.wallet =
        .error e { u.wallet with entropy := none, master := none, legacyKey := none } :=
      run_bind_error.2 (.inl (run_bind_error.2 (.inr ⟨_, _, rfl, run_bind_error.2 (.inr
        ⟨(), _, throwIf_run_ok.2 ⟨hfile, rfl⟩, run_bind_error.2 (.inr ⟨(), _,
          throwIf_run_ok.2 ⟨hlegacy, rfl⟩, run_bind_error.2 (.inl hload)⟩)⟩)⟩)))
    rw [step_kept hexec rfl]
    exact h.cleared rfl rfl rfl
  · obtain ⟨master, hderivable⟩ := hentropy
    have hset := setHdEntropy_run hderivable.masterOf_eq { u.wallet with
      entropy := none, master := none, legacyKey := some key, kind := .legacySingleKey,
      ownedCache := none }
    refine step_first h hnone rfl hnone hderivable (some key) write ?_
    simp only [Call.exec, upgradeLegacy, bind_assoc]
    rw [run_bind_of_ok (run_get_ok.2 ⟨rfl, rfl⟩), run_bind_of_ok (a := ()) (throwIf_run_ok.2 ⟨hfile, rfl⟩),
      run_bind_of_ok (a := ()) (throwIf_run_ok.2 ⟨hlegacy, rfl⟩), run_bind_of_ok hload,
      run_bind_of_ok (run_get_ok.2 ⟨rfl, rfl⟩)]
    simp only [bind_assoc, pure_bind]
    rw [run_bind_of_ok hset, run_bind_of_ok (a := ()) (run_modify_ok.2 rfl)]
    rfl

theorem step_load {u : Use} (h : u.Ok) : (u.step .load).Ok := by
  cases hsaved : u.saved with
  | none =>
    have hfile := h.file
    rw [FileOk, hsaved] at hfile
    rcases load_none hfile.1 with ⟨e, hload⟩ | ⟨key, hload⟩
    · have hexec : Call.load.exec.run u.wallet = .error e _ := run_bind_error.2 (.inl hload)
      rw [step_kept hexec rfl]
      exact h.cleared rfl rfl rfl
    · have hexec : Call.load.exec.run u.wallet = .ok none _ := run_bind_ok.2 ⟨_, _, hload, rfl⟩
      rw [Use.step, hexec]
      simp only [Option.toList_none, List.append_nil]
      exact h.cleared rfl rfl rfl
  | some c =>
    have hfile := h.file
    rw [FileOk, hsaved] at hfile
    obtain ⟨hfile, master, hok, hhanded⟩ := hfile
    have hchange : c.nextChange.toNat ≤ 1000000 := by
      rw [hok.change]
      decide
    have hload := load_run hfile hok.derivable.masterOf_eq hok.receive hchange
    have hexec : Call.load.exec.run u.wallet = .ok none _ := run_bind_ok.2 ⟨_, _, hload, rfl⟩
    rw [Use.step, hexec]
    simp only [Option.toList_none, List.append_nil]
    refine ⟨?_, .inr ⟨c, master, rfl, rfl, rfl, hok, ?_⟩⟩
    · simp only [FileOk, Call.saves, hsaved]
      exact ⟨hfile, master, hok, hhanded⟩
    · intro c' hc'
      obtain rfl : c = c' := Option.some.inj (hsaved.symm.trans hc')
      exact ⟨rfl, UInt32.le_refl _, rfl⟩

theorem step_construct {u : Use} (h : u.Ok) : (u.step .construct).Ok := by
  have hexec : Call.construct.exec.run u.wallet = .ok none ⟨u.wallet.dataDirectory,
    u.wallet.walletFile, u.wallet.legacyFile, .hdBip32, none, none, none, 1, 1, none⟩ := rfl
  rw [Use.step, hexec]
  simp only [Option.toList_none, List.append_nil]
  exact h.cleared rfl rfl rfl

/-- `owns_script` changes the cache only. -/
theorem ownsScript_state (w : HdWalletBackend) (script : Bytes) :
    ∃ cache, (∃ e, (ownsScript script).run w = .error e { w with ownedCache := cache }) ∨
      ∃ b, (ownsScript script).run w = .ok b { w with ownedCache := cache } := by
  cases hcache : w.ownedCache with
  | some entries =>
    have hw : w = { w with ownedCache := some entries } := by rw [← hcache]
    refine ⟨some entries, .inr ⟨_, run_bind_ok.2 ⟨_, _, run_bind_ok.2 ⟨entries, _,
      run_bind_ok.2 ⟨w, w, rfl, ?_⟩, rfl⟩, rfl⟩⟩⟩
    simp only [hcache]
    exact congrArg (EStateM.Result.ok entries) hw
  | none =>
    cases hentries : w.ownedEntries with
    | error e =>
      have hw : w = { w with ownedCache := none } := by rw [← hcache]
      refine ⟨none, .inl ⟨e, run_bind_error.2 (.inl (run_bind_error.2 (.inl (run_bind_error.2
        (.inr ⟨w, w, rfl, ?_⟩)))))⟩⟩
      rw [← hw]
      simp only [hcache]
      exact run_bind_error.2 (.inl (lift_error_run hentries w))
    | ok entries =>
      exact ⟨some entries, .inr ⟨_, ownsScript_run hentries (.inl hcache) script⟩⟩

theorem step_ownsScript {u : Use} (h : u.Ok) (script : Bytes) : (u.step (.ownsScript script)).Ok := by
  have hcache : ∀ cache, Use.Ok { u with wallet := { u.wallet with ownedCache := cache } } := by
    intro cache
    refine ⟨h.file, h.memory.imp_right ?_⟩
    rintro ⟨c, master, hloaded⟩
    exact ⟨c, master, hloaded.contents_eq, hloaded.master_eq, hloaded.kind_eq, hloaded.ok,
      hloaded.saved⟩
  obtain ⟨cache, ⟨e, hrun⟩ | ⟨b, hrun⟩⟩ := ownsScript_state u.wallet script
  · have hexec : (Call.ownsScript script).exec.run u.wallet = .error e _ :=
      run_bind_error.2 (.inl hrun)
    rw [step_kept hexec rfl]
    exact hcache cache
  · have hexec : (Call.ownsScript script).exec.run u.wallet = .ok none _ :=
      run_bind_ok.2 ⟨_, _, hrun, rfl⟩
    rw [Use.step, hexec]
    simp only [Option.toList_none, List.append_nil]
    exact hcache cache

/-- A loaded object is the wallet with its contents. -/
theorem Loaded.eq_withContents {saved : Option Contents} {w : HdWalletBackend} {c : Contents}
    {master : HdPrivateKey} (h : Loaded saved w c master) (nextReceive : UInt32) :
    { w with nextReceive := nextReceive, ownedCache := none } =
      w.withContents { c with nextReceive := nextReceive } master := by
  obtain ⟨entropy, hentropy, rfl⟩ := Option.map_eq_some_iff.1 h.contents_eq
  obtain ⟨dataDirectory, walletFile, legacyFile, kind, _, _, legacyKey, _, nextChange, cache⟩ := w
  obtain rfl : kind = .hdBip32 := h.kind_eq
  have hmaster := h.master_eq
  subst hentropy hmaster
  rfl

/-- The next address of a loaded object, before it is saved. -/
theorem getNewAddress_run {w : HdWalletBackend} {master : HdPrivateKey} {key : Secp256k1Secret}
    {address : Str} (hkind : w.kind = .hdBip32) (hmaster : w.master = some master)
    (hkey : walletKey master 0 w.nextReceive = .ok key)
    (hencode : encodeTestnetAddress key.compressedPublicKey = .ok address) (write : Write) :
    (getNewAddress write).run w = (saveHd write >>= fun _ => pure address).run
      { w with nextReceive := w.nextReceive + 1, ownedCache := none } := by
  have hkey' : w.hdKey 0 w.nextReceive = .ok key := (hdKey_eq hmaster 0 _).trans hkey
  unfold getNewAddress
  rw [EStateM.run_bind, EStateM.run_get]
  show EStateM.run _ w = _
  rw [throwIf, if_neg (not_not.2 hkind), pure_bind]
  rw [run_bind_of_ok (lift_run_ok.2 ⟨hkey', rfl⟩)]
  exact run_bind_of_ok (lift_run_ok.2 ⟨hencode, rfl⟩)

theorem step_getNewAddress (hpublic : PublicKeysValid) {u : Use} (h : u.Ok)
    (hlt : u.wallet.nextReceive.toNat < maxIndex) (write : Write) :
    (u.step (.getNewAddress write)).Ok := by
  by_cases hkind : u.wallet.kind ≠ .hdBip32
  · exact step_unchanged h (run_bind_error.2 (.inl (run_bind_error.2 (.inr ⟨_, _, rfl,
      run_bind_error.2 (.inl (throwIf_run_pos hkind))⟩))))
  rcases h.memory with ⟨-, hmaster⟩ | ⟨c, master, hloaded⟩
  · have hkey : u.wallet.hdKey 0 u.wallet.nextReceive =
        .error (runtimeError "HD wallet is not loaded") := by
      rw [hdKey, hmaster]
      rfl
    exact step_unchanged h (run_bind_error.2 (.inl (run_bind_error.2 (.inr ⟨_, _, rfl,
      run_bind_error.2 (.inr ⟨(), _, throwIf_run_ok.2 ⟨hkind, rfl⟩, run_bind_error.2
        (.inl (lift_error_run hkey _))⟩)⟩))))
  obtain ⟨entropy, hentropy, rfl⟩ := Option.map_eq_some_iff.1 hloaded.contents_eq
  obtain ⟨key, hkey⟩ := hloaded.ok.derivable.key 0 u.wallet.nextReceive (.inl rfl) (by omega)
  obtain ⟨address, hencode⟩ := encodeTestnetAddress_ok (hpublic key)
  have hrun := getNewAddress_run (not_not.1 hkind) hloaded.master_eq hkey hencode write
  rw [hloaded.eq_withContents] at hrun
  -- the counter moves on by one
  have hnext : (u.wallet.nextReceive + 1).toNat = u.wallet.nextReceive.toNat + 1 := by
    rw [UInt32.toNat_add, Nat.mod_eq_of_lt]
    · rfl
    · simp only [maxIndex, UInt32.reduceToNat] at *
      omega
  have hle : u.wallet.nextReceive < u.wallet.nextReceive + 1 := by
    rw [UInt32.lt_iff_toNat_lt, hnext]
    omega
  have hok : Contents.Ok ⟨entropy, u.wallet.nextReceive + 1, u.wallet.nextChange, u.wallet.legacyKey⟩
      master := ⟨by rw [hnext]; omega, hloaded.ok.change, hloaded.ok.derivable⟩
  -- what was handed out before stays in the window
  have hhanded : ∀ address' ∈ u.handed, ∃ index key, index < u.wallet.nextReceive + 1 ∧
      walletKey master 0 index = .ok key ∧
        encodeTestnetAddress key.compressedPublicKey = .ok address' := by
    intro address' haddress'
    have hfile := h.file
    unfold FileOk at hfile
    cases hsaved : u.saved with
    | none =>
      rw [hsaved] at hfile
      rw [hfile.2] at haddress'
      cases haddress'
    | some c' =>
      rw [hsaved] at hfile
      obtain ⟨-, master', hok', hhanded⟩ := hfile
      obtain ⟨index, key', hindex, hkey', hencode'⟩ := hhanded address' haddress'
      obtain ⟨hentropy', hreceive', -⟩ := hloaded.saved c' hsaved
      have hmaster : master' = master := by
        have hmasterOf := hok'.derivable.masterOf_eq
        rw [hentropy'] at hmasterOf
        exact Except.ok.inj (hmasterOf.symm.trans hloaded.ok.derivable.masterOf_eq)
      subst hmaster
      exact ⟨index, key', UInt32.lt_trans (UInt32.lt_of_lt_of_le hindex hreceive') hle, hkey',
        hencode'⟩
  -- the object may be ahead of the file
  have hahead : ∀ file, MemoryOk u.saved { u.wallet.withContents ⟨entropy, u.wallet.nextReceive + 1,
      u.wallet.nextChange, u.wallet.legacyKey⟩ master with walletFile := file } := by
    refine fun file => .inr ⟨_, master, rfl, rfl, rfl, hok, fun c' hc' => ?_⟩
    obtain ⟨hentropy', hreceive', hlegacy'⟩ := hloaded.saved c' hc'
    exact ⟨hentropy', UInt32.le_of_lt (UInt32.lt_of_le_of_lt hreceive' hle), hlegacy'⟩
  rcases saveHd_cases write with hsave | ⟨e, hsave | hsave⟩
  · have hexec : (Call.getNewAddress write).exec.run u.wallet = .ok (some address) _ :=
      run_bind_ok.2 ⟨_, _, hrun.trans (run_bind_ok.2 ⟨(), _, hsave, rfl⟩), rfl⟩
    rw [Use.step, hexec]
    refine .written hok (fun address' haddress' => ?_) u.wallet
    rcases List.mem_append.1 haddress' with haddress' | haddress'
    · exact hhanded address' haddress'
    · obtain rfl := List.mem_singleton.1 haddress'
      exact ⟨u.wallet.nextReceive, key, hle, hkey, hencode⟩
  · have hexec : (Call.getNewAddress write).exec.run u.wallet = .error e _ :=
      run_bind_error.2 (.inl (hrun.trans (run_bind_error.2 (.inl hsave))))
    rw [step_kept hexec rfl]
    exact ⟨h.file, hahead u.wallet.walletFile⟩
  · have hexec : (Call.getNewAddress write).exec.run u.wallet = .error e _ :=
      run_bind_error.2 (.inl (hrun.trans (run_bind_error.2 (.inl hsave))))
    by_cases hsame : some (Contents.text ⟨entropy, u.wallet.nextReceive + 1, u.wallet.nextChange,
        u.wallet.legacyKey⟩) = u.wallet.walletFile
    · rw [step_kept hexec hsame]
      exact ⟨h.file.of_walletFile hsame, hahead _⟩
    · rw [Use.step, hexec]
      simp only [hsame, if_false]
      exact .written hok hhanded u.wallet

/-- What one call preserves. -/
theorem step_ok (hpublic : PublicKeysValid) {u : Use} {call : Call} (h : u.Ok)
    (hallowed : call.Allowed u.wallet) : (u.step call).Ok := by
  cases call with
  | construct => exact step_construct h
  | create entropy write => exact step_create h hallowed write
  | importMnemonic phrase write => exact step_importMnemonic h hallowed write
  | upgradeLegacy entropy write => exact step_upgradeLegacy h hallowed write
  | getNewAddress write => exact step_getNewAddress hpublic h hallowed write
  | load => exact step_load h
  | ownsScript script => exact step_ownsScript h script

theorem fresh_ok (dataDirectory : String) (legacyFile : Option Str) :
    (Use.fresh dataDirectory legacyFile).Ok :=
  ⟨⟨rfl, rfl⟩, .inl ⟨rfl, rfl⟩⟩

/-- The calls that are allowed where they are made. -/
def Use.Next (u : Use) (call : Call) (u' : Use) : Prop :=
  call.Allowed u.wallet ∧ u' = u.step call

/-- Calls that are all allowed where they are made are a run. -/
theorem Use.runs {calls : List Call} {u : Use} (h : ∀ n (hn : n < calls.length),
    calls[n].Allowed ((calls.take n).foldl Use.step u).wallet) :
    Run Use.Next u calls (calls.foldl Use.step u) := by
  induction calls generalizing u with
  | nil => exact .nil
  | cons call calls ih =>
    refine .cons ⟨h 0 (Nat.zero_lt_succ _), rfl⟩ (ih fun n hn => ?_)
    exact h (n + 1) (Nat.succ_lt_succ hn)

/-- **Every file that the wallet writes can be read back**, in every run in which `get_new_address`
    is not called at the largest index. -/
theorem reads_back (hpublic : PublicKeysValid) {dataDirectory : String} {legacyFile : Option Str}
    {calls : List Call} {u : Use} (h : Run Use.Next (Use.fresh dataDirectory legacyFile) calls u) :
    u.ReadsBack := by
  have hstep : ∀ u call u', Use.Ok u → Use.Next u call u' → Use.Ok u' := by
    rintro u call _ hu ⟨hallowed, rfl⟩
    exact step_ok hpublic hu hallowed
  exact (h.invariant hstep (fresh_ok dataDirectory legacyFile)).readsBack hpublic

/-! ## Issuing addresses -/

/-- `create` and `n` addresses. -/
def issued (entropy : Hash256) (n : ℕ) : List Call :=
  .create entropy .done :: List.replicate n (.getNewAddress .done)

/-- The directory of an entropy after its counter has reached `nextReceive`. -/
def issuedUse (dataDirectory : String) (entropy : Hash256) (master : HdPrivateKey)
    (nextReceive : UInt32) (handed : List Str) : Use :=
  let c : Contents := ⟨entropy, nextReceive, 1, none⟩
  ⟨{ (Use.fresh dataDirectory none).wallet.withContents c master with walletFile := some c.text },
    handed, some c⟩

variable {dataDirectory : String} {entropy : Hash256} {master : HdPrivateKey}

theorem create_fresh (hmaster : masterOf entropy = .ok master) :
    (create entropy .done).run (Use.fresh dataDirectory none).wallet =
      .ok (entropyToMnemonic entropy) (issuedUse dataDirectory entropy master 1 []).wallet := by
  have hset := setHdEntropy_run hmaster (Use.fresh dataDirectory none).wallet
  exact run_bind_ok.2 ⟨_, _, rfl, run_bind_ok.2 ⟨(), _, throwIf_run_ok.2 ⟨nofun, rfl⟩,
    run_bind_ok.2 ⟨_, _, hset, run_bind_ok.2 ⟨_, _, saveHd_run rfl rfl, rfl⟩⟩⟩⟩

/-- One address more. -/
theorem issuedUse_step (hpublic : PublicKeysValid) {nextReceive : UInt32} {key : Secp256k1Secret}
    (hkey : walletKey master 0 nextReceive = .ok key) (dataDirectory : String) (entropy : Hash256)
    (handed : List Str) :
    ∃ address, encodeTestnetAddress key.compressedPublicKey = .ok address ∧
      (issuedUse dataDirectory entropy master nextReceive handed).step (.getNewAddress .done) =
        issuedUse dataDirectory entropy master (nextReceive + 1) (handed ++ [address]) := by
  obtain ⟨address, hencode⟩ := encodeTestnetAddress_ok (hpublic key)
  have hrun := getNewAddress_run (w := (issuedUse dataDirectory entropy master nextReceive
    handed).wallet) rfl rfl hkey hencode .done
  have hexec : (Call.getNewAddress .done).exec.run
      (issuedUse dataDirectory entropy master nextReceive handed).wallet = .ok (some address)
        (issuedUse dataDirectory entropy master (nextReceive + 1) (handed ++ [address])).wallet :=
    run_bind_ok.2 ⟨_, _, hrun.trans (run_bind_ok.2 ⟨(), _, saveHd_run rfl rfl, rfl⟩), rfl⟩
  refine ⟨address, hencode, ?_⟩
  rw [Use.step, hexec]
  rfl

/-- The addresses that are handed out are those of the receive branch, in order. -/
theorem issued_run (hpublic : PublicKeysValid) (dataDirectory : String) {limit n : ℕ}
    (hderivable : Derivable entropy master limit) (hn : n < limit) (hlimit : limit ≤ 2 ^ 32) :
    ∃ handed, (issued entropy n).foldl Use.step (Use.fresh dataDirectory none) =
        issuedUse dataDirectory entropy master (UInt32.ofNat (n + 1)) handed ∧
      handed.length = n ∧ ∀ i address, handed[i]? = some address → ∃ key,
        walletKey master 0 (UInt32.ofNat (i + 1)) = .ok key ∧
        encodeTestnetAddress key.compressedPublicKey = .ok address := by
  induction n with
  | zero =>
    have hexec : (Call.create entropy .done).exec.run (Use.fresh dataDirectory none).wallet =
        .ok none _ := run_bind_ok.2 ⟨_, _, create_fresh hderivable.masterOf_eq, rfl⟩
    refine ⟨[], ?_, rfl, by simp⟩
    show Use.step _ _ = _
    rw [Use.step, hexec]
    rfl
  | succ n ih =>
    obtain ⟨handed, hrun, hlength, hhanded⟩ := ih (by omega)
    obtain ⟨key, hkey⟩ := hderivable.key 0 (UInt32.ofNat (n + 1)) (.inl rfl)
      (by rw [UInt32.toNat_ofNat_of_lt' (by simp only [UInt32.size]; omega)]; exact hn)
    obtain ⟨address, hencode, hstep⟩ := issuedUse_step hpublic hkey dataDirectory entropy handed
    have hnext : UInt32.ofNat (n + 1) + 1 = UInt32.ofNat (n + 1 + 1) := (UInt32.ofNat_add ..).symm
    refine ⟨handed ++ [address], ?_, by simp [hlength], fun i address' haddress' => ?_⟩
    · rw [issued, List.replicate_succ', ← List.cons_append, List.foldl_append]
      refine (congrArg (fun u => Use.step u (.getNewAddress .done)) hrun).trans ?_
      rw [hstep, hnext]
    · rw [List.getElem?_append] at haddress'
      split_ifs at haddress' with hi
      · exact hhanded i address' haddress'
      · obtain ⟨hlt, rfl⟩ := List.getElem?_eq_some_iff.1 haddress'
        have hi : i = n := by simp only [List.length_singleton] at hlt; omega
        subst hi
        refine ⟨key, hkey, ?_⟩
        simpa using hencode

end

end HdWalletBackend

/-! ## The wallet of the zero entropy -/

section Zero

attribute [local instance] zeroCrypto zeroKeyCrypto

open HdWalletBackend

/-- The file that the millionth address leaves cannot be read. -/
theorem not_readsBack :
    ¬ Use.ReadsBack ((issued zeroEntropy 1000000).foldl Use.step (Use.fresh "" none)) := by
  intro h
  obtain ⟨handed, hissued, -⟩ := issued_run zero_publicKeysValid ""
    (zero_derivable (by norm_num)) (by norm_num : 1000000 < 1000001) (by norm_num)
  rw [hissued] at h
  obtain ⟨w, hload, -⟩ := h _ rfl
  obtain ⟨w', herror⟩ := load_large (c := ⟨zeroEntropy, UInt32.ofNat (1000000 + 1), 1, none⟩)
    (w := (issuedUse "" zeroEntropy (zeroMaster) (UInt32.ofNat (1000000 + 1))
      handed).wallet) rfl masterOf_zeroEntropy (by decide)
  cases hload.symm.trans herror

/-- Two addresses are handed out; between them `restrict_permissions` throws on a new file. -/
def zeroCalls : List Call := [.create zeroEntropy .done, .getNewAddress .done,
  .getNewAddress (.unrestricted
    (runtimeError "Unable to restrict wallet permissions: Operation not permitted")),
  .getNewAddress .done, .load]

theorem reads_back_zero :
    Use.ReadsBack (zeroCalls.foldl Use.step (Use.fresh "" none)) ∧
    (zeroCalls.foldl Use.step (Use.fresh "" none)).handed.length = 2 ∧
    (zeroCalls.foldl Use.step (Use.fresh "" none)).saved.map Contents.nextReceive = some 4 := by
  refine ⟨?_, by decide +kernel, by decide +kernel⟩
  -- the counter before each of the three addresses
  have hnext : ∀ n < 4, ((zeroCalls.take n).foldl Use.step
      (Use.fresh "" none)).wallet.nextReceive.toNat < maxIndex := by
    decide +kernel
  refine reads_back zero_publicKeysValid (Use.runs fun n hn => ?_)
  match n, hn with
  | 0, _ => exact ⟨_, zero_derivable (by decide)⟩
  | 1, _ => exact hnext 1 (by decide)
  | 2, _ => exact hnext 2 (by decide)
  | 3, _ => exact hnext 3 (by decide)
  | 4, _ => trivial

end Zero

end BinaryCoin
