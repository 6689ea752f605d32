/-
  BinaryCoin — several writers of one data directory.

  The daemon's sessions, the RPC commands and the command line have objects of
  their own on one store.  The file lock covers one load or one commit of it,
  so that between the load of a chain and the commit of what was built on it
  any other writer may commit.  `Access` is one such section.
-/
import BinaryCoin.CrashPoints

namespace BinaryCoin

open Cursor Std Runs

section
variable [Crypto] {σ : Type}

namespace TestnetChain

/-- `initialize` up to its own commit, if it comes to that. -/
def initializeRead (S : ChainStore σ) : ChainM σ Bool := do
  throwIf ((← get).dataDirectory = "") (invalidArgument "Data directory must not be empty")
  onStorage S.createDirectories
  if ← onStorage S.storeExists then
    load S
    return false
  else
    let s ← get
    if S.fileExists s.legacyV3Path s.storage then
      migrateLegacy S
      return false
    else
      throwIf (S.fileExists s.legacyV2Path s.storage ∨ S.fileExists s.legacyV1Path s.storage)
        (runtimeError
          "Found an unsupported pre-v0.3 disposable chain. Use a fresh --datadir or remove the old directory.")
      setBlocks [⟨0, ← testnetGenesisBlock⟩]
      setUtxos ∅
      verify
      return true

theorem initializeChain_eq (S : ChainStore σ) :
    initializeChain S = (do if ← initializeRead S then save S : ChainM σ Unit) := by
  simp only [initializeChain, initializeRead, bind_assoc]
  refine bind_congr fun s => bind_congr fun _ => bind_congr fun _ => bind_congr fun present => ?_
  cases present with
  | true => simp
  | false =>
    simp only [Bool.false_eq_true, if_false, bind_assoc]
    refine bind_congr fun s => ?_
    split_ifs <;> simp

variable {s s' : TestnetChain (Option (List StoredBlock × UtxoSet))}

theorem load_memory_none (hs : s.storage = none) :
    ∃ e, (load .memory).run s = .error e s := by
  obtain ⟨_, _, _, _, _, _, _⟩ := s
  obtain rfl := hs
  exact ⟨_, rfl⟩

/-- The rounds of `generate` add a block each. -/
theorem generateFrom_length {clock : ℕ → Int64} {script : Bytes} {pending : List Transaction}
    {count generated : ℕ} {current u : UtxoSet} {s s' : TestnetChain σ}
    (h : (generateFrom clock script pending count generated current).run s = .ok u s') :
    s'.blocks.length = s.blocks.length + count := by
  induction count generalizing generated current s with
  | zero =>
    obtain ⟨-, rfl⟩ := run_pure_ok.1 h
    rfl
  | succ count ih =>
    obtain ⟨stored, current', last, -, -, h⟩ := generateFrom_succ_ok h
    rw [ih h, List.length_append, List.length_singleton]
    omega

/-- The number of blocks in the store. -/
def storedLength : Option (List StoredBlock × UtxoSet) → ℕ
  | none => 0
  | some (blocks, _) => blocks.length

/-- What an access leaves in the object, which had `length` blocks, and in the store that held
    `stored`: nothing new, or, where it commits, the chain of the object, which has not become
    shorter. -/
structure Leaves (stored : Option (List StoredBlock × UtxoSet)) (commits : Prop) (length : ℕ)
    (s : TestnetChain (Option (List StoredBlock × UtxoSet))) : Prop where
  valid : s.Valid
  storage : s.storage = stored ∨
    s.storage = some (s.blocks, s.utxos) ∧ commits ∧ length ≤ s.blocks.length

theorem load_leaves {x : Unit} (hstored : ∀ c, s.storage = some c → Chain c.1 c.2)
    (h : (load .memory).run s = .ok x s') : Leaves s.storage False s.blocks.length s' := by
  cases hs : s.storage with
  | none =>
    obtain ⟨e, hrun⟩ := load_memory_none hs
    cases hrun.symm.trans h
  | some c =>
    have hc := hstored c hs
    have hrun := Node.load_memory_run hs hc
    cases hrun.symm.trans h
    exact ⟨hc, .inl hs⟩

theorem load_throws {e : Exn} (hstored : ∀ c, s.storage = some c → Chain c.1 c.2)
    (h : (load .memory).run s = .error e s') : s'.storage = s.storage := by
  cases hs : s.storage with
  | none =>
    obtain ⟨e, hrun⟩ := load_memory_none hs
    cases hrun.symm.trans h
    exact hs
  | some c =>
    have hrun := Node.load_memory_run hs (hstored c hs)
    cases hrun.symm.trans h

/-- The genesis chain, in the object. -/
def setGenesis : ChainM σ Bool := do
  setBlocks [⟨0, ← testnetGenesisBlock⟩]
  setUtxos ∅
  verify
  return true

theorem initializeRead_run (hdir : s.dataDirectory ≠ "") : (initializeRead .memory).run s =
    (if s.storage.isSome then do load .memory; return false else setGenesis : ChainM _ Bool).run s := by
  have hcheck : (throwIf (s.dataDirectory = "") (invalidArgument "Data directory must not be empty") :
      ChainM _ Unit).run s = .ok () s := throwIf_run_ok.2 ⟨hdir, rfl⟩
  have hcreate : (onStorage ChainStore.memory.createDirectories : ChainM _ Unit).run s = .ok () s := rfl
  have hexists : (onStorage ChainStore.memory.storeExists : ChainM _ Bool).run s =
      .ok s.storage.isSome s := rfl
  rw [initializeRead, run_bind_of_ok (show (get : ChainM _ _).run s = .ok s s from rfl),
    run_bind_of_ok hcheck, run_bind_of_ok hcreate, run_bind_of_ok hexists]
  cases hs : s.storage with
  | some c => rfl
  | none =>
    simp only [Option.isSome_none, Bool.false_eq_true, if_false]
    rw [run_bind_of_ok (show (get : ChainM _ _).run _ = .ok _ _ from rfl)]
    simp only [ChainStore.memory, Bool.false_eq_true, if_false, or_self, throwIf]
    rfl

theorem fixesStorage_setGenesis : FixesStorage (setGenesis : ChainM σ Bool) :=
  (fixesStorage_lift _).bind fun _ => (fixesStorage_setBlocks _).bind fun _ =>
    (fixesStorage_setUtxos _).bind fun _ => fixesStorage_verify.bind fun _ => fun _ => rfl

theorem setGenesis_valid {x : Bool} {s s' : TestnetChain σ} (h : setGenesis.run s = .ok x s') :
    s'.Valid := by
  simp only [setGenesis, run_bind_ok, lift_run_ok, setBlocks_run_ok, setUtxos_run_ok, verify_ok,
    run_pure_ok] at h
  obtain ⟨_, _, ⟨-, rfl⟩, _, _, rfl, _, _, rfl, _, _, ⟨hverify, rfl⟩, -, rfl⟩ := h
  exact valid_of_build hverify rfl

theorem initializeRead_leaves {x : Bool} (hstored : ∀ c, s.storage = some c → Chain c.1 c.2)
    (h : (initializeRead .memory).run s = .ok x s') : Leaves s.storage False s.blocks.length s' := by
  have hdir : s.dataDirectory ≠ "" := by
    simp only [initializeRead, run_bind_ok, run_get_ok, throwIf_run_ok] at h
    obtain ⟨_, _, ⟨rfl, rfl⟩, _, _, ⟨hdir, rfl⟩, -⟩ := h
    exact hdir
  rw [initializeRead_run hdir] at h
  split_ifs at h with hsome
  · obtain ⟨_, s₁, hload, hpure⟩ := run_bind_ok.1 h
    obtain ⟨-, rfl⟩ := run_pure_ok.1 hpure
    exact load_leaves hstored hload
  · have hfix := fixesStorage_setGenesis s
    rw [h] at hfix
    exact ⟨setGenesis_valid h, .inl hfix⟩

theorem initializeRead_throws {e : Exn} (hstored : ∀ c, s.storage = some c → Chain c.1 c.2)
    (h : (initializeRead .memory).run s = .error e s') : s'.storage = s.storage := by
  by_cases hdir : s.dataDirectory = ""
  · rw [initializeRead, run_bind_of_ok (show (get : ChainM _ _).run s = .ok s s from rfl),
      throwIf, if_pos hdir] at h
    cases h
    rfl
  rw [initializeRead_run hdir] at h
  split_ifs at h with hsome
  · rcases run_bind_error.1 h with hload | ⟨_, _, -, hpure⟩
    · exact load_throws hstored hload
    · cases hpure
  · have hfix := fixesStorage_setGenesis s
    rw [h] at hfix
    exact hfix

/-- A chain that is committed is the object's. -/
theorem Committed.leaves {stored : Option (List StoredBlock × UtxoSet)} {commits : Prop} {length : ℕ}
    (h : s'.Committed) (hcommits : commits) (hle : length ≤ s'.blocks.length) :
    Leaves stored commits length s' :=
  ⟨h.valid, .inr ⟨h.storage, hcommits, hle⟩⟩

theorem save_leaves {x : Unit} (hs : s.Valid) (h : (save .memory).run s = .ok x s') :
    Leaves s.storage True s.blocks.length s' := by
  obtain rfl := (EStateM.Result.ok.inj (save_memory_run.symm.trans h)).2
  exact Committed.leaves ⟨hs, rfl⟩ trivial le_rfl

theorem generate_leaves {clock : ℕ → Int64} {count : UInt64} {script : Bytes}
    {pending : List Transaction} {x : Unit} (hs : s.Valid)
    (h : (generate .memory clock count script pending).run s = .ok x s') :
    Leaves s.storage True s.blocks.length s' := by
  obtain ⟨hcommitted, u, s₁, hloop, hblocks⟩ := generate_saved hs h
  refine hcommitted.leaves trivial ?_
  rw [hblocks]
  exact (Nat.le_add_right _ _).trans (generateFrom_length hloop).ge

theorem appendBlocks_leaves {incoming : List StoredBlock} {x : Unit} (hs : s.Valid)
    (h : (appendBlocks .memory incoming).run s = .ok x s') :
    Leaves s.storage (incoming ≠ []) s.blocks.length s' := by
  by_cases hnil : incoming = []
  · subst hnil
    obtain ⟨-, rfl⟩ := run_pure_ok.1 (show (pure () : ChainM _ Unit).run s = .ok x s' from h)
    exact ⟨hs, .inl rfl⟩
  · obtain ⟨hcommitted, hblocks⟩ := appendBlocks_memory hs hnil h
    refine hcommitted.leaves hnil ?_
    rw [hblocks, List.length_append]
    exact Nat.le_add_right _ _

theorem activateIfMoreWork_leaves {candidate : List StoredBlock} {r : ChainActivationResult}
    (hs : s.Valid) (h : (activateIfMoreWork .memory candidate).run s = .ok r s') :
    Leaves s.storage (s.blocks.length < candidate.length) s.blocks.length s' := by
  obtain ⟨hlen, hcommitted, hblocks⟩ | ⟨-, rfl⟩ := activateIfMoreWork_memory hs h
  · exact hcommitted.leaves hlen (hblocks ▸ hlen.le)
  · exact ⟨hs, .inl rfl⟩

end TestnetChain

/-! ## The writers -/

/-- A store and the objects on it.  `initializing` marks those whose `initialize` has found no chain
    and has still to commit the genesis chain. -/
structure Writers (ι : Type) where
  stored : Option (List StoredBlock × UtxoSet)
  objects : ι → TestnetChain (Option (List StoredBlock × UtxoSet))
  initializing : ι → Bool

/-- What one object does with the store at once. -/
inductive Access (ι : Type) where
  | load (i : ι)
  | initializeRead (i : ι)
  | commitGenesis (i : ι)
  | generate (i : ι) (clock : ℕ → Int64) (count : UInt64) (script : Bytes)
      (pending : List Transaction)
  | append (i : ι) (incoming : List StoredBlock)
  | activate (i : ι) (candidate : List StoredBlock)

namespace Access
variable {ι : Type}

def writer : Access ι → ι
  | load i | initializeRead i | commitGenesis i | generate i .. | append i _ | activate i _ => i

/-- The call up to its access to the store, which is the last thing that it does: an object that has
    a chain reads nothing.  The result tells whether the genesis chain is still to be committed. -/
def exec : Access ι → ChainM (Option (List StoredBlock × UtxoSet)) Bool
  | load _ => do
    TestnetChain.load .memory
    return false
  | initializeRead _ => TestnetChain.initializeRead .memory
  | commitGenesis _ => do
    TestnetChain.save .memory
    return false
  | generate _ clock count script pending => do
    TestnetChain.generate .memory clock count script pending
    return false
  | append _ incoming => do
    TestnetChain.appendBlocks .memory incoming
    return false
  | activate _ candidate => do
    let _ ← TestnetChain.activateIfMoreWork .memory candidate
    return false

/-- `append_blocks` and `activate_if_more_work` have restored the object when they throw; the others
    leave none to go on with. -/
def thrown : Access ι → TestnetChain (Option (List StoredBlock × UtxoSet)) →
    TestnetChain (Option (List StoredBlock × UtxoSet))
  | append .., s | activate .., s => s
  | _, s => TestnetChain.new s.dataDirectory s.storage

/-- An object first loads or initializes; the two parts of `initialize` follow each other. -/
def Ready (w : Writers ι) : Access ι → Prop
  | load i | initializeRead i => w.initializing i = false
  | commitGenesis i => w.initializing i = true
  | generate i .. | append i _ | activate i _ =>
    w.initializing i = false ∧ (w.objects i).blocks ≠ []

/-- Whether the access commits a chain if it returns. -/
def Commits (w : Writers ι) : Access ι → Prop
  | load _ | initializeRead _ => False
  | commitGenesis _ | generate .. => True
  | append _ incoming => incoming ≠ []
  | activate i candidate => (w.objects i).blocks.length < candidate.length

end Access

namespace Writers
variable {ι : Type}

/-- The store still holds what the object has read from it or put into it last: its chain, or nothing
    while `initialize` has still to commit the genesis chain.  No other writer has committed since. -/
def Current (w : Writers ι) (i : ι) : Prop :=
  if w.initializing i then w.stored = none else ∃ utxos, w.stored = some ((w.objects i).blocks, utxos)

/-- An access is fresh if it commits nothing, or its object is current. -/
def Fresh (w : Writers ι) (access : Access ι) : Prop := access.Commits w → w.Current access.writer

/-- The object of a writer, on the store as it is. -/
def view (w : Writers ι) (i : ι) : TestnetChain (Option (List StoredBlock × UtxoSet)) :=
  { w.objects i with storage := w.stored }

section
variable [DecidableEq ι]

def put (w : Writers ι) (i : ι) (s : TestnetChain (Option (List StoredBlock × UtxoSet)))
    (initializing : Bool) : Writers ι where
  stored := s.storage
  objects := Function.update w.objects i s
  initializing := Function.update w.initializing i initializing

/-- One access of any of the writers. -/
inductive Step : Writers ι → Access ι → Writers ι → Prop
  | returned {w : Writers ι} {access : Access ι} {again : Bool}
      {s : TestnetChain (Option (List StoredBlock × UtxoSet))} (hready : access.Ready w)
      (h : access.exec.run (w.view access.writer) = .ok again s) :
      Step w access (w.put access.writer s again)
  | threw {w : Writers ι} {access : Access ι} {e : Exn}
      {s : TestnetChain (Option (List StoredBlock × UtxoSet))} (hready : access.Ready w)
      (h : access.exec.run (w.view access.writer) = .error e s) :
      Step w access (w.put access.writer (access.thrown s) false)

end

/-- What is stored and what the objects hold are accepted chains. -/
structure Ok (w : Writers ι) : Prop where
  stored : ∀ c, w.stored = some c → Chain c.1 c.2
  objects : ∀ i, (w.objects i).blocks ≠ [] → (w.objects i).Valid
  initializing : ∀ i, w.initializing i = true → (w.objects i).Valid

variable {w w' : Writers ι} {access : Access ι}
  {s : TestnetChain (Option (List StoredBlock × UtxoSet))}

theorem exec_leaves (hw : w.Ok) (hready : access.Ready w) {again : Bool}
    (h : access.exec.run (w.view access.writer) = .ok again s) :
    TestnetChain.Leaves w.stored (access.Commits w) (w.objects access.writer).blocks.length s := by
  cases access with
  | load i =>
    obtain ⟨x, s₁, hrun, hpure⟩ := run_bind_ok.1 h
    obtain ⟨-, rfl⟩ := run_pure_ok.1 hpure
    exact TestnetChain.load_leaves (s := w.view i) hw.stored hrun
  | initializeRead i => exact TestnetChain.initializeRead_leaves (s := w.view i) hw.stored h
  | commitGenesis i =>
    obtain ⟨x, s₁, hrun, hpure⟩ := run_bind_ok.1 h
    obtain ⟨-, rfl⟩ := run_pure_ok.1 hpure
    exact TestnetChain.save_leaves (s := w.view i) (hw.initializing i hready) hrun
  | generate i clock count script pending =>
    obtain ⟨x, s₁, hrun, hpure⟩ := run_bind_ok.1 h
    obtain ⟨-, rfl⟩ := run_pure_ok.1 hpure
    exact TestnetChain.generate_leaves (s := w.view i) (hw.objects i hready.2) hrun
  | append i incoming =>
    obtain ⟨x, s₁, hrun, hpure⟩ := run_bind_ok.1 h
    obtain ⟨-, rfl⟩ := run_pure_ok.1 hpure
    exact TestnetChain.appendBlocks_leaves (s := w.view i) (hw.objects i hready.2) hrun
  | activate i candidate =>
    obtain ⟨r, s₁, hrun, hpure⟩ := run_bind_ok.1 h
    obtain ⟨-, rfl⟩ := run_pure_ok.1 hpure
    exact TestnetChain.activateIfMoreWork_leaves (s := w.view i) (hw.objects i hready.2) hrun

/-- An access that throws commits nothing. -/
theorem exec_throws (hw : w.Ok) (hready : access.Ready w) {e : Exn}
    (h : access.exec.run (w.view access.writer) = .error e s) : (access.thrown s).storage = w.stored ∧
      ((access.thrown s).blocks ≠ [] → (access.thrown s).Valid) := by
  have hpart : ∀ {α : Type} {x : ChainM (Option (List StoredBlock × UtxoSet)) α} {i : ι},
      (do let _ ← x; return false : ChainM _ Bool).run (w.view i) = .error e s →
      EStateM.run x (w.view i) = .error e s := by
    intro α x i h
    rcases run_bind_error.1 h with hrun | ⟨_, _, -, hpure⟩
    · exact hrun
    · cases hpure
  cases access with
  | load i =>
    have hstorage := TestnetChain.load_throws (s := w.view i) hw.stored (hpart h)
    exact ⟨hstorage, fun hne => absurd rfl hne⟩
  | initializeRead i =>
    have hstorage := TestnetChain.initializeRead_throws (s := w.view i) hw.stored h
    exact ⟨hstorage, fun hne => absurd rfl hne⟩
  | commitGenesis i => cases (TestnetChain.save_memory_run (s := w.view i)).symm.trans (hpart h)
  | generate i clock count script pending =>
    have hstorage := TestnetChain.generate_memory_error (s := w.view i) (hw.objects i hready.2)
      (hpart h)
    exact ⟨hstorage, fun hne => absurd rfl hne⟩
  | append i incoming =>
    have hvalid : (w.view i).Valid := hw.objects i hready.2
    have hrun := hpart h
    refine ⟨TestnetChain.appendBlocks_memory_error hvalid hrun, fun _ => ?_⟩
    rcases TestnetChain.appendBlocks_cases (S := .memory) hvalid incoming with
      ⟨_, hok, -⟩ | ⟨_, s₁, herror, hsame⟩
    · cases hok.symm.trans hrun
    · cases herror.symm.trans hrun
      exact hvalid.congr hsame
  | activate i candidate =>
    have hvalid : (w.view i).Valid := hw.objects i hready.2
    obtain rfl := TestnetChain.activateIfMoreWork_memory_error hvalid (hpart h)
    exact ⟨rfl, fun _ => hvalid⟩

variable [DecidableEq ι]

/-- An object that holds an accepted chain, or none, over what it has left in the store. -/
theorem Ok.put (hw : w.Ok) {i : ι} {again : Bool} (hstored : ∀ c, s.storage = some c → Chain c.1 c.2)
    (hvalid : s.blocks ≠ [] → s.Valid) (hagain : again = true → s.Valid) : (w.put i s again).Ok := by
  refine ⟨hstored, fun j hne => ?_, fun j hinit => ?_⟩
  · by_cases hj : j = i
    · subst hj
      simp only [Writers.put, Function.update_self] at hne ⊢
      exact hvalid hne
    · simp only [Writers.put, Function.update_of_ne hj] at hne ⊢
      exact hw.objects j hne
  · by_cases hj : j = i
    · subst hj
      simp only [Writers.put, Function.update_self] at hinit ⊢
      exact hagain hinit
    · simp only [Writers.put, Function.update_of_ne hj] at hinit ⊢
      exact hw.initializing j hinit

theorem Step.ok (hw : w.Ok) (h : Step w access w') : w'.Ok := by
  cases h with
  | returned hready h =>
    have hleaves := exec_leaves hw hready h
    refine hw.put (fun c hc => ?_) (fun _ => hleaves.valid) fun _ => hleaves.valid
    rcases hleaves.storage with hstorage | ⟨hstorage, -⟩
    · exact hw.stored c (hstorage ▸ hc)
    · cases hstorage.symm.trans hc
      exact hleaves.valid
  | threw hready h =>
    obtain ⟨hstorage, hvalid⟩ := exec_throws hw hready h
    exact hw.put (fun c hc => hw.stored c (hstorage ▸ hc)) hvalid nofun

omit [Crypto] [DecidableEq ι] in
/-- The store does not have more blocks than an object that is current. -/
theorem Current.length_le {i : ι} (h : w.Current i) :
    TestnetChain.storedLength w.stored ≤ (w.objects i).blocks.length := by
  rw [Current] at h
  split_ifs at h
  · rw [h]
    exact Nat.zero_le _
  · obtain ⟨utxos, hstored⟩ := h
    rw [hstored]
    exact le_rfl

/-- A fresh access leaves at least as many blocks in the store. -/
theorem Step.length_le (hw : w.Ok) (h : Step w access w') (hfresh : w.Fresh access) :
    TestnetChain.storedLength w.stored ≤ TestnetChain.storedLength w'.stored := by
  cases h with
  | @returned again s hready h =>
    have hput : (w.put access.writer s again).stored = s.storage := rfl
    rw [hput]
    rcases (exec_leaves hw hready h).storage with hstorage | ⟨hstorage, hcommits, hle⟩
    · rw [hstorage]
    · rw [hstorage]
      exact (hfresh hcommits).length_le.trans hle
  | @threw e s hready h =>
    have hput : (w.put access.writer (access.thrown s) false).stored = (access.thrown s).storage := rfl
    rw [hput, (exec_throws hw hready h).1]

/-- The work of the chain in the store. -/
def storedWork (w : Writers ι) : Except Exn ℕ :=
  match w.stored with
  | none => .ok 0
  | some (blocks, _) => calculateChainwork blocks

omit [DecidableEq ι] in
theorem Ok.storedWork (hw : w.Ok) :
    w.storedWork = .ok (TestnetChain.storedLength w.stored * testnetBlockWork) := by
  cases hs : w.stored with
  | none => simp [Writers.storedWork, hs, TestnetChain.storedLength]
  | some c =>
    simp only [Writers.storedWork, hs, TestnetChain.storedLength]
    exact (hw.stored c hs).work

/-- Writers that have yet to load, on a store with an accepted chain or none. -/
structure Starts (w : Writers ι) : Prop where
  stored : ∀ c, w.stored = some c → Chain c.1 c.2
  objects : ∀ i, (w.objects i).blocks = []
  initializing : ∀ i, w.initializing i = false

omit [DecidableEq ι] in
theorem Starts.ok (h : w.Starts) : w.Ok where
  stored := h.stored
  objects i hne := absurd (h.objects i) hne
  initializing i hinit := by
    rw [h.initializing i] at hinit
    cases hinit

/-- **No work is lost where no writer is stale.**  After any accesses of any writers, and then any that
    are fresh, the store has at least the work that it had in between. -/
theorem chainwork_never_decreases {w₀ : Writers ι} {before accesses : List (Access ι)}
    (hstart : w₀.Starts) (hbefore : Run Step w₀ before w)
    (h : Run (fun w access w' => Step w access w' ∧ w.Fresh access) w accesses w') :
    ∃ work work', w.storedWork = .ok work ∧ w'.storedWork = .ok work' ∧ work ≤ work' := by
  have hw : w.Ok := hbefore.invariant (fun _ _ _ hok hstep => hstep.ok hok) hstart.ok
  have hw' : w'.Ok := h.invariant (fun _ _ _ hok hstep => hstep.1.ok hok) hw
  have hle : TestnetChain.storedLength w.stored ≤ TestnetChain.storedLength w'.stored :=
    h.mono (I := Ok) (f := fun w : Writers ι => TestnetChain.storedLength w.stored)
      (fun _ _ _ hok hstep => ⟨hstep.1.ok hok, hstep.1.length_le hok hstep.2⟩) hw
  exact ⟨_, _, hw.storedWork, hw'.storedWork, Nat.mul_le_mul_right _ hle⟩

/-! ### What single accesses do -/

theorem Step.load {i : ι} {blocks : List StoredBlock} {u : UtxoSet} (hready : w.initializing i = false)
    (hstored : w.stored = some (blocks, u)) (hc : Chain blocks u) :
    Step w (.load i) (w.put i { w.view i with blocks := blocks, utxos := u } false) := by
  have hrun := Node.load_memory_run (s := w.view i) hstored hc
  exact .returned hready (run_bind_ok.2 ⟨_, _, hrun, rfl⟩)

theorem Step.activate {i : ι} {candidate : List StoredBlock} {u : UtxoSet}
    (hready : w.initializing i = false) (hvalid : (w.objects i).Valid) (hc : Chain candidate u)
    (hlen : (w.objects i).blocks.length < candidate.length) :
    ∃ w', Step w (.activate i candidate) w' ∧ w'.stored = some (candidate, u) ∧
      ∀ j ≠ i, w'.objects j = w.objects j ∧ w'.initializing j = w.initializing j := by
  have hview : (w.view i).Valid := hvalid
  obtain ⟨r, s, hrun, ⟨-, -, storage, hcommit, rfl⟩ | ⟨-, hle, -⟩⟩ :=
    TestnetChain.activateIfMoreWork_run TestnetChain.memory_commits hview hc
  · cases hcommit
    refine ⟨_, .returned ⟨hready, hvalid.ne_nil⟩ (run_bind_ok.2 ⟨_, _, hrun, rfl⟩), rfl, ?_⟩
    intro j hj
    exact ⟨Function.update_of_ne hj _ _, Function.update_of_ne hj _ _⟩
  · exact absurd hle (Nat.not_le.2 hlen)

theorem Step.append {i : ι} {incoming : List StoredBlock} {u : UtxoSet}
    (hready : w.initializing i = false) (hne : (w.objects i).blocks ≠ []) (hnil : incoming ≠ [])
    (hc : Chain ((w.objects i).blocks ++ incoming) u) :
    ∃ w', Step w (.append i incoming) w' ∧
      w'.stored = some ((w.objects i).blocks ++ incoming, u) := by
  obtain ⟨storage, hcommit, hrun⟩ := TestnetChain.appendBlocks_run TestnetChain.memory_commits
    (s := w.view i) hne hnil hc
  cases hcommit
  exact ⟨_, .returned ⟨hready, hne⟩ (run_bind_ok.2 ⟨_, _, hrun, rfl⟩), rfl⟩

end Writers

end

/-! ## A stale writer -/

attribute [local instance] sampleCrypto

namespace Writers

/-- Two writers, on a store with the genesis chain. -/
def sampleWriters : Writers Bool where
  stored := some ([genesisStored], ∅)
  objects _ := TestnetChain.new "data" none
  initializing _ := false

theorem sampleWriters_starts : sampleWriters.Starts := by
  refine ⟨?_, fun _ => rfl, fun _ => rfl⟩
  rintro c ⟨⟩
  exact genesisTip_ends.chain

/-- The first block of the sample chain. -/
def sampleFirst : List StoredBlock := minedBlocks genesisTip (sampleRows.take 1)

/-- Both writers load the genesis chain; one activates a chain of three blocks, and the other then
    appends one block to what it has loaded. -/
theorem sample_run : ∃ w₁ w₂ w₃ : Writers Bool,
    Run Step sampleWriters [.load true, .load false] w₁ ∧
    Step w₁ (.activate false (sampleChain 2)) w₂ ∧
    w₁.Fresh (.activate false (sampleChain 2)) ∧ Step w₂ (.append true sampleFirst) w₃ ∧
    TestnetChain.storedLength w₂.stored = 3 ∧ TestnetChain.storedLength w₃.stored = 2 := by
  obtain ⟨u₁, hends₁, -⟩ := sampleChain_ends 0
  obtain ⟨u₂, hends₂, -⟩ := sampleChain_ends 1
  have hgenesis := genesisTip_ends.chain
  have hlen : (sampleChain 2).length = 3 := by rw [hends₂.height]; decide +kernel
  let w₀ := sampleWriters.put true
    { sampleWriters.view true with blocks := [genesisStored], utxos := ∅ } false
  let w₁ := w₀.put false { w₀.view false with blocks := [genesisStored], utxos := ∅ } false
  have hload : Step sampleWriters (.load true) w₀ := .load rfl rfl hgenesis
  have hload' : Step w₀ (.load false) w₁ := .load rfl rfl hgenesis
  obtain ⟨w₂, hactivate, hstored₂, hkept⟩ := Step.activate (i := false) (w := w₁) rfl hgenesis
    hends₂.chain (by rw [hlen]; decide)
  obtain ⟨hobject, hinit⟩ := hkept true (by decide)
  have hblocks : (w₂.objects true).blocks = [genesisStored] := by rw [hobject]; rfl
  obtain ⟨w₃, happend, hstored₃⟩ : ∃ w₃, Step w₂ (.append true sampleFirst) w₃ ∧
      w₃.stored = some ((w₂.objects true).blocks ++ sampleFirst, u₁) := by
    refine Step.append (hinit.trans rfl) ?_ (by decide +kernel) ?_
    · rw [hblocks]
      exact List.cons_ne_nil _ _
    · rw [hblocks]
      exact hends₁.chain
  refine ⟨w₁, w₂, w₃, .cons hload (.single hload'), hactivate, fun _ => ⟨∅, rfl⟩, happend, ?_, ?_⟩
  · rw [hstored₂]
    exact hlen
  · rw [hstored₃, hblocks]
    exact hends₁.height

/-- The writer that activates the longer chain is current. -/
theorem chainwork_kept : ∃ w w' : Writers Bool,
    Run Step sampleWriters [.load true, .load false] w ∧
    Step w (.activate false (sampleChain 2)) w' ∧ w.Fresh (.activate false (sampleChain 2)) ∧
    w'.storedWork = .ok (3 * testnetBlockWork) ∧
    ∃ work, w.storedWork = .ok work ∧ work ≤ 3 * testnetBlockWork := by
  obtain ⟨w₁, w₂, w₃, hbefore, hactivate, hfresh, -, hlen₂, -⟩ := sample_run
  have hrun := hbefore.append (.single hactivate)
  have hok : w₂.Ok := hrun.invariant (fun _ _ _ hok hstep => hstep.ok hok) sampleWriters_starts.ok
  obtain ⟨work, work', hwork, hwork', hle⟩ :=
    chainwork_never_decreases sampleWriters_starts hbefore (.single ⟨hactivate, hfresh⟩)
  have hstored := hok.storedWork
  rw [hlen₂] at hstored
  obtain rfl := Except.ok.inj (hwork'.symm.trans hstored)
  exact ⟨w₁, w₂, hbefore, hactivate, hfresh, hstored, work, hwork, hle⟩

/-- The stale writer takes the other's blocks from the store. -/
theorem chainwork_decreases : ∃ (w₀ w w' : Writers Bool) (before : List (Access Bool))
    (access : Access Bool), w₀.Starts ∧ Run Step w₀ before w ∧ Step w access w' ∧
    ∃ work work', w.storedWork = .ok work ∧ w'.storedWork = .ok work' ∧ work' < work := by
  obtain ⟨w₁, w₂, w₃, hbefore, hactivate, -, happend, hlen₂, hlen₃⟩ := sample_run
  have hrun := hbefore.append (.single hactivate)
  have hok : w₂.Ok := hrun.invariant (fun _ _ _ hok hstep => hstep.ok hok) sampleWriters_starts.ok
  refine ⟨_, w₂, w₃, _, _, sampleWriters_starts, hrun, happend, _, _, hok.storedWork,
    (happend.ok hok).storedWork, ?_⟩
  rw [hlen₂, hlen₃]
  decide

end Writers

end BinaryCoin
