/-
  BinaryCoin — crashes of the commands that change the chain.

  The RPC command `generate`, the handler of `block` messages and a
  reorganization commit a new chain and then replace the mempool file.  A new
  process loads both and applies the one to the other; only between the two
  writes this may fail, and `restarts_iff` says when.
-/
import BinaryCoin.Restart
import BinaryCoin.SideBranch

namespace BinaryCoin

open Cursor Std Text

section
variable [Crypto]

/-! ## Reading back -/

omit [Crypto] in
theorem loadRecord_run {t : Transaction} (ht : t.Structure ∧ t.Canonical) (m : TestnetMempool) :
    (TestnetMempool.loadRecord (bytesToHex t.encode)).run m =
      .ok () { m with transactions := m.transactions ++ [t] } := by
  have hread : Transaction.deserialize t.encode = .ok t := Transaction.deserialize_ok.2 ⟨ht, rfl⟩
  simp only [TestnetMempool.loadRecord, run_bind_ok, lift_run_ok, run_get_ok,
    TestnetMempool.setTransactions, run_modify_ok]
  exact ⟨t.encode, m, ⟨hexToBytes_bytesToHex _, rfl⟩, t, m, ⟨hread, rfl⟩, m, m, ⟨rfl, rfl⟩, rfl⟩

omit [Crypto] in
/-- **`load` reads what `save` has written.** -/
theorem mempool_load_text {ts : List Transaction} (hts : ∀ t ∈ ts, t.Structure ∧ t.Canonical)
    (old : List Transaction) : TestnetMempool.load.run ⟨old, some (TestnetMempool.text ts)⟩ =
      .ok () ⟨ts, some (TestnetMempool.text ts)⟩ := by
  have hlines : lines (TestnetMempool.text ts) =
      mempoolMagic :: ts.map fun t => bytesToHex t.encode :=
    lines_records (by decide +kernel) fun _ _ => newline_notMem_bytesToHex _
  have hne : ∀ t ∈ ts, bytesToHex t.encode ≠ [] := by
    intro t _ hnil
    have hlength := congrArg List.length hnil
    simp only [length_bytesToHex, Transaction.encode, List.length_append, LittleEndian.length_leBytes,
      List.length_nil] at hlength
    omega
  have hread := forM_records
    (fun read : List Transaction => TestnetMempool.mk read (some (TestnetMempool.text ts))) hne
    fun before t after (hsplit : ts = before ++ t :: after) =>
      loadRecord_run (hts t (by simp [hsplit])) ⟨before, some (TestnetMempool.text ts)⟩
  simp only [TestnetMempool.load, TestnetMempool.setTransactions, run_bind_ok, run_modify_ok,
    run_get_ok]
  refine ⟨(), _, rfl, _, _, ⟨rfl, rfl⟩, ?_⟩
  simp only [hlines, run_bind_ok, throwIf_run_ok]
  exact ⟨(), _, ⟨by simp, rfl⟩, hread⟩

namespace TestnetChain

/-! ## What is committed -/

section
variable {σ α β : Type}

/-- `x` leaves the storage as it is, however it ends. -/
def FixesStorage (x : ChainM σ α) : Prop := ∀ s, (after (x.run s)).storage = s.storage

/-- `x` leaves the storage as it is when it throws. -/
def FixesOnThrow (x : ChainM σ α) : Prop := ∀ s e s', x.run s = .error e s' → s'.storage = s.storage

omit [Crypto] in
theorem fixesStorage_lift (x : Except Exn α) : FixesStorage (liftM x : ChainM σ α) := by
  intro s
  cases x <;> rfl

omit [Crypto] in
theorem fixesStorage_throwIf (c : Prop) [Decidable c] (e : Exn) :
    FixesStorage (throwIf c e : ChainM σ Unit) := by
  intro s
  unfold throwIf
  split_ifs <;> rfl

omit [Crypto] in
theorem FixesStorage.bind {x : ChainM σ α} {f : α → ChainM σ β} (hx : FixesStorage x)
    (hf : ∀ a, FixesStorage (f a)) : FixesStorage (x >>= f) := by
  intro s
  have hs := hx s
  rw [EStateM.run_bind]
  cases hrun : x.run s with
  | ok a s₁ =>
    rw [hrun] at hs
    exact (hf a s₁).trans hs
  | error e s₁ =>
    rw [hrun] at hs
    exact hs

omit [Crypto] in
theorem FixesStorage.forM {f : α → ChainM σ Unit} (hf : ∀ a, FixesStorage (f a)) (as : List α) :
    FixesStorage (forM as f) := by
  induction as with
  | nil => exact fun s => rfl
  | cons a as ih =>
    rw [List.forM_cons]
    exact (hf a).bind fun _ => ih

omit [Crypto] in
theorem FixesStorage.bindOnThrow {x : ChainM σ α} {f : α → ChainM σ β} (hx : FixesStorage x)
    (hf : ∀ a, FixesOnThrow (f a)) : FixesOnThrow (x >>= f) := by
  intro s e s' h
  have hs := hx s
  rw [EStateM.run_bind] at h
  cases hrun : x.run s with
  | ok a s₁ =>
    rw [hrun] at h hs
    exact (hf a s₁ e s' h).trans hs
  | error e₁ s₁ =>
    rw [hrun] at h hs
    cases h
    exact hs

omit [Crypto] in
theorem fixesStorage_get : FixesStorage (get : ChainM σ (TestnetChain σ)) := fun _ => rfl

omit [Crypto] in
theorem fixesStorage_setBlocks (blocks : List StoredBlock) :
    FixesStorage (setBlocks blocks : ChainM σ Unit) := fun _ => rfl

omit [Crypto] in
theorem fixesStorage_setUtxos (utxos : UtxoSet) :
    FixesStorage (setUtxos utxos : ChainM σ Unit) := fun _ => rfl

theorem fixesStorage_verify : FixesStorage (verify : ChainM σ Unit) :=
  fixesStorage_get.bind fun _ => fixesStorage_lift _

theorem fixesStorage_rebuild : FixesStorage (rebuild : ChainM σ Unit) :=
  fixesStorage_get.bind fun _ => (fixesStorage_lift _).bind fun _ => fixesStorage_setUtxos _

theorem fixesStorage_appendBlock (stored : StoredBlock) :
    FixesStorage (appendBlock stored : ChainM σ Unit) := by
  refine fixesStorage_get.bind fun _ => (fixesStorage_lift _).bind fun _ =>
    (fixesStorage_throwIf _ _).bind fun _ => (fixesStorage_lift _).bind fun _ =>
    (fixesStorage_throwIf _ _).bind fun _ => fixesStorage_setBlocks _

theorem fixesStorage_generateFrom (clock : ℕ → Int64) (script : Bytes) (pending : List Transaction)
    (count generated : ℕ) (current : UtxoSet) :
    FixesStorage (generateFrom clock script pending count generated current : ChainM σ UtxoSet) := by
  induction count generalizing generated current with
  | zero => exact fun s => rfl
  | succ count ih =>
    exact fixesStorage_get.bind fun _ => (fixesStorage_lift _).bind fun _ =>
      (fixesStorage_lift _).bind fun _ => (fixesStorage_lift _).bind fun _ =>
      (fixesStorage_lift _).bind fun _ => (fixesStorage_lift _).bind fun _ =>
      (fixesStorage_lift _).bind fun _ => (fixesStorage_setBlocks _).bind fun _ => ih _ _

end

/-- The store has the object's chain. -/
structure Committed (s : TestnetChain (Option (List StoredBlock × UtxoSet))) : Prop where
  valid : s.Valid
  storage : s.storage = some (s.blocks, s.utxos)

variable {s s' : TestnetChain (Option (List StoredBlock × UtxoSet))}

omit [Crypto] in
theorem save_memory_run : (save .memory).run s = .ok () { s with storage := some (s.blocks, s.utxos) } :=
  rfl

omit [Crypto] in
theorem fixesOnThrow_save : FixesOnThrow (save .memory) := by
  intro s e s' h
  rw [save_memory_run] at h
  cases h

omit [Crypto] in
/-- The store has what was saved. -/
theorem save_memory {x : Unit} (h : (save .memory).run s = .ok x s') :
    s'.storage = some (s'.blocks, s'.utxos) := by
  rw [save_memory_run] at h
  cases h
  rfl

/-- One round of `generate`: the block that it adds. -/
theorem generateFrom_succ_ok {σ : Type} {clock : ℕ → Int64} {script : Bytes}
    {pending : List Transaction} {count generated : ℕ} {current u : UtxoSet} {s s' : TestnetChain σ}
    (h : (generateFrom clock script pending (count + 1) generated current).run s = .ok u s') :
    ∃ stored current' last, stored.connections =
        (if generated = 0 then pending else []).map (⟨·, stored.height, false⟩) ++ [last] ∧
      last.coinbase = true ∧ (generateFrom clock script pending count (generated + 1) current').run
        { s with blocks := s.blocks ++ [stored] } = .ok u s' := by
  simp only [generateFrom, run_bind_ok, run_get_ok, lift_run_ok, setBlocks_run_ok] at h
  obtain ⟨_, _, ⟨rfl, rfl⟩, previous, _, ⟨-, rfl⟩, ⟨fees, u₁⟩, _, ⟨-, rfl⟩, hash, _, ⟨-, rfl⟩, block,
    _, ⟨hmine, rfl⟩, coinbase, _, ⟨-, rfl⟩, ⟨_, u₂⟩, _, ⟨-, rfl⟩, _, _, rfl, h⟩ := h
  obtain ⟨coinbase', hcons, -⟩ := mineTestnetBlock_ok hmine
  exact ⟨⟨previous.height + 1, block⟩, u₂, _, by rw [StoredBlock.connections, hcons], rfl, h⟩

/-- The blocks after the first have no transactions but their coinbases. -/
theorem generateFrom_later {σ : Type} {clock : ℕ → Int64} {script : Bytes}
    {pending : List Transaction} {count generated : ℕ} {current u : UtxoSet} {s s' : TestnetChain σ}
    (hlater : generated ≠ 0)
    (h : (generateFrom clock script pending count generated current).run s = .ok u s') :
    ∃ bs, s'.blocks = s.blocks ++ bs ∧
      ∀ c ∈ bs.flatMap StoredBlock.connections, c.coinbase = true := by
  induction count generalizing generated current s with
  | zero =>
    obtain ⟨-, rfl⟩ := run_pure_ok.1 h
    exact ⟨[], by simp, by simp⟩
  | succ count ih =>
    obtain ⟨stored, current', last, hconn, hlast, h⟩ := generateFrom_succ_ok h
    obtain ⟨bs, hbs, hcoinbase⟩ := ih (Nat.succ_ne_zero _) h
    refine ⟨stored :: bs, by simp [hbs], fun c hc => ?_⟩
    rw [if_neg hlater] at hconn
    rw [List.flatMap_cons, hconn, List.map_nil, List.nil_append, List.mem_append,
      List.mem_singleton] at hc
    rcases hc with rfl | hc
    · exact hlast
    · exact hcoinbase c hc

/-- **What `generate` connects**: the pending transactions, then coinbases only. -/
theorem generateFrom_connections {σ : Type} {clock : ℕ → Int64} {script : Bytes}
    {pending : List Transaction} {count : ℕ} {current u : UtxoSet} {s s' : TestnetChain σ}
    (hpos : 0 < count)
    (h : (generateFrom clock script pending count 0 current).run s = .ok u s') :
    ∃ bs height cs, s'.blocks = s.blocks ++ bs ∧
      bs.flatMap StoredBlock.connections = pending.map (⟨·, height, false⟩) ++ cs ∧
      ∀ c ∈ cs, c.coinbase = true := by
  obtain ⟨count, rfl⟩ := Nat.exists_eq_succ_of_ne_zero (Nat.ne_of_gt hpos)
  obtain ⟨stored, current', last, hconn, hlast, h⟩ := generateFrom_succ_ok h
  obtain ⟨bs, hbs, hcoinbase⟩ := generateFrom_later (Nat.succ_ne_zero _) h
  refine ⟨stored :: bs, stored.height, last :: bs.flatMap StoredBlock.connections, by simp [hbs], ?_,
    fun c hc => ?_⟩
  · rw [List.flatMap_cons, hconn]
    simp
  · rcases List.mem_cons.1 hc with rfl | hc
    · exact hlast
    · exact hcoinbase c hc

/-- `generate` saves what its rounds have made. -/
theorem generate_saved {clock : ℕ → Int64} {count : UInt64} {script : Bytes}
    {pending : List Transaction} {x : Unit} (hs : s.Valid)
    (h : (generate .memory clock count script pending).run s = .ok x s') :
    s'.Committed ∧ ∃ u s₁, (generateFrom clock script pending count.toNat 0 s.utxos).run s = .ok u s₁ ∧
      s'.blocks = s₁.blocks := by
  have hvalid := generate_ok (fun _ => hs) h
  simp only [generate, run_bind_ok, run_get_ok, initializeIfEmpty_run (S := .memory) hs.ne_nil,
    verify_ok, setUtxos_run_ok] at h
  obtain ⟨_, s₁, hinit, _, _, ⟨rfl, rfl⟩, current, s₂, hloop, _, _, ⟨-, rfl⟩, _, _, rfl, hsave⟩ := h
  cases hinit
  exact ⟨⟨hvalid, save_memory hsave⟩, current, s₂, hloop, (save_ok hsave).1⟩

theorem generate_memory {clock : ℕ → Int64} {count : UInt64} {script : Bytes}
    {pending : List Transaction} {x : Unit} (hs : s.Valid)
    (hpos : 0 < count.toNat)
    (h : (generate .memory clock count script pending).run s = .ok x s') :
    s'.Committed ∧ ∃ bs height cs, s'.blocks = s.blocks ++ bs ∧
      bs.flatMap StoredBlock.connections = pending.map (⟨·, height, false⟩) ++ cs ∧
      ∀ c ∈ cs, c.coinbase = true := by
  obtain ⟨hcommitted, u, s₁, hloop, hblocks⟩ := generate_saved hs h
  obtain ⟨bs, height, cs, hbs, hconn, hcs⟩ := generateFrom_connections hpos hloop
  exact ⟨hcommitted, bs, height, cs, hblocks.trans hbs, hconn, hcs⟩

theorem generate_memory_error {clock : ℕ → Int64} {count : UInt64} {script : Bytes}
    {pending : List Transaction} {e : Exn} (hs : s.Valid)
    (h : (generate .memory clock count script pending).run s = .error e s') :
    s'.storage = s.storage := by
  have hinit := initializeIfEmpty_run (S := .memory) hs.ne_nil
  rw [generate, EStateM.run_bind, hinit] at h
  have hrest : FixesOnThrow (do
      let s ← get
      let current ← generateFrom clock script pending count.toNat 0 s.utxos
      verify
      setUtxos current
      save .memory) :=
    fixesStorage_get.bindOnThrow fun _ =>
      (fixesStorage_generateFrom clock script pending _ _ _).bindOnThrow fun _ =>
      fixesStorage_verify.bindOnThrow fun _ => (fixesStorage_setUtxos _).bindOnThrow fun _ =>
      fixesOnThrow_save
  exact hrest s e s' h

theorem appendBlocks_memory {incoming : List StoredBlock} {x : Unit} (hs : s.Valid)
    (hne : incoming ≠ []) (h : (appendBlocks .memory incoming).run s = .ok x s') :
    s'.Committed ∧ s'.blocks = s.blocks ++ incoming := by
  rcases appendBlocks_cases (S := .memory) hs incoming with ⟨s₁, hrun, hvalid, hblocks⟩ | ⟨e, s₁, hrun, -⟩
  · cases hrun.symm.trans h
    refine ⟨⟨hvalid, ?_⟩, hblocks⟩
    have hc : Chain (s.blocks ++ incoming) s'.utxos := hblocks ▸ hvalid
    obtain ⟨storage, hcommit, hrun'⟩ := appendBlocks_run memory_commits hs.ne_nil hne hc
    cases hcommit
    rw [hblocks]
    exact congrArg TestnetChain.storage (EStateM.Result.ok.inj (h.symm.trans hrun')).2
  · cases hrun.symm.trans h

theorem appendBlocks_memory_error {incoming : List StoredBlock} {e : Exn} (hs : s.Valid)
    (h : (appendBlocks .memory incoming).run s = .error e s') : s'.storage = s.storage := by
  unfold appendBlocks at h
  split_ifs at h with hnil
  · cases h
  · have hinit := initializeIfEmpty_run (S := .memory) hs.ne_nil
    rw [EStateM.run_bind, hinit] at h
    have hbody : FixesOnThrow (do
        forM incoming appendBlock
        verify
        rebuild
        save .memory) :=
      (FixesStorage.forM fixesStorage_appendBlock _).bindOnThrow fun _ =>
        fixesStorage_verify.bindOnThrow fun _ => fixesStorage_rebuild.bindOnThrow fun _ =>
        fixesOnThrow_save
    dsimp only at h
    rw [orRestore_run] at h
    cases hrun : (do forM incoming appendBlock; verify; rebuild; save .memory : ChainM _ Unit).run s with
    | ok a s₁ => rw [hrun] at h; cases h
    | error e₁ s₁ =>
      rw [hrun] at h
      obtain ⟨-, rfl⟩ := EStateM.Result.error.inj h
      exact hbody s e₁ s₁ hrun

theorem activateIfMoreWork_memory {candidate : List StoredBlock} {r : ChainActivationResult}
    (hs : s.Valid) (h : (activateIfMoreWork .memory candidate).run s = .ok r s') :
    s.blocks.length < candidate.length ∧ s'.Committed ∧ s'.blocks = candidate ∨
      candidate.length ≤ s.blocks.length ∧ s' = s := by
  have hverify : verifyBlocks candidate = .ok () := by
    simp only [activateIfMoreWork, run_bind_ok, lift_run_ok] at h
    obtain ⟨_, _, ⟨hverify, -⟩, -⟩ := h
    exact hverify
  obtain ⟨u, hc⟩ := verifyBlocks_iff.1 hverify
  obtain ⟨r', s₁, hrun, ⟨-, hlen, storage, hcommit, rfl⟩ | ⟨-, hlen, rfl⟩⟩ :=
    activateIfMoreWork_run memory_commits hs hc
  · cases hrun.symm.trans h
    cases hcommit
    exact .inl ⟨hlen, ⟨hc, rfl⟩, rfl⟩
  · cases hrun.symm.trans h
    exact .inr ⟨hlen, rfl⟩

theorem activateIfMoreWork_memory_error {candidate : List StoredBlock} {e : Exn} (hs : s.Valid)
    (h : (activateIfMoreWork .memory candidate).run s = .error e s') : s' = s := by
  cases hverify : verifyBlocks candidate with
  | ok x =>
    obtain ⟨u, hc⟩ := verifyBlocks_iff.1 hverify
    obtain ⟨r', s₁, hrun, -⟩ := activateIfMoreWork_run memory_commits hs hc
    rw [hrun] at h
    cases h
  | error e₁ =>
    rw [activateIfMoreWork, EStateM.run_bind, hverify] at h
    cases h
    rfl

end TestnetChain

namespace Node
variable {σ : Type}

/-! ## The commands -/

/-- `chain.load(); mempool.load();` -/
def openStored (S : ChainStore σ) : NodeM σ Unit := do
  onChain (TestnetChain.load S)
  onMempool TestnetMempool.load

/-- `mempool.effective_utxos(chain.utxo_set(), chain.tip().height + 1)` -/
def effective : NodeM σ UtxoSet := do
  let n ← get
  TestnetMempool.effectiveUtxos n.mempool.transactions n.chain.utxos (← n.chain.spendHeight)

/-- The objects of a new process on the same files. -/
def reopened (n : Node σ) : Node σ where
  chain := TestnetChain.new n.chain.dataDirectory n.chain.storage
  mempool := ⟨[], n.mempool.file⟩

/-- A new process loads both files and applies the mempool to the chain. -/
def Restarts (S : ChainStore σ) (n : Node σ) : Prop :=
  ∃ utxos n', (do openStored S; effective : NodeM σ UtxoSet).run n.reopened = .ok utxos n'

/-- What changes the chain and then the mempool: the RPC command `generate`, a `block` message,
    the activation of a candidate. -/
inductive Command where
  | generate (clock : ℕ → Int64) (count : Int64) (script : Bytes)
  | block (stored : StoredBlock)
  | reorganize (candidate : List StoredBlock)

/-- The part of a command up to the commit of the chain: the transactions to add again at its end,
    or none where it leaves the chain and the mempool alone. -/
def Command.change (S : ChainStore σ) : Command → NodeM σ (Option (List Transaction))
  | .generate clock count script => do
    throwIf (count ≤ 0 ∨ count > 100000) (runtimeError "Block count out of range")
    onChain (TestnetChain.generate S clock count.toUInt64 script (← get).mempool.transactions)
    return some []
  | .block stored => do
    let chain := (← get).chain
    let hash ← stored.hashHex
    match ← findBlock hash chain.blocks with
    | some _ => return none
    | none =>
      let tip ← chain.tip
      if stored.height = tip.height + 1 ∧ stored.block.header.previousHash = (← tip.hashHex) then
        onChain (TestnetChain.appendBlocks S [stored])
        return some []
      else return none
  | .reorganize candidate => do
    let activation ← onChain (TestnetChain.activateIfMoreWork S candidate)
    return some activation.disconnectedTransactions

/-- What follows the change of the chain: `generate` clears the mempool, the others revalidate
    it. -/
def Command.settle : Command → NodeM σ Unit
  | .generate .. => onMempool TestnetMempool.clear
  | .block _ | .reorganize _ => revalidate

/-- The points at which a crash leaves different files behind. -/
inductive Point where
  | started
  | changed
  | settled
  | added (count : ℕ)

/-- A command up to a point. -/
def Command.upTo (S : ChainStore σ) (command : Command) : Point → NodeM σ Unit
  | .started => openStored S
  | .changed => do
    openStored S
    let _ ← command.change S
  | .settled => do
    openStored S
    match ← command.change S with
    | none => pure ()
    | some _ => command.settle
  | .added count => do
    openStored S
    match ← command.change S with
    | none => pure ()
    | some again =>
      command.settle
      addEach (again.take count)

/-! ## The files -/

/-- The files of a node hold a chain with its set of unspent outputs, and a list of transactions. -/
structure Stored (n : Node (Option (List StoredBlock × UtxoSet))) (blocks : List StoredBlock)
    (u : UtxoSet) (ts : List Transaction) : Prop where
  storage : n.chain.storage = some (blocks, u)
  chain : Chain blocks u
  file : TestnetMempool.load.run ⟨[], n.mempool.file⟩ = .ok () ⟨ts, n.mempool.file⟩

variable {n n' : Node (Option (List StoredBlock × UtxoSet))} {blocks : List StoredBlock}
  {u : UtxoSet} {ts : List Transaction}

/-- The objects after both files have been loaded. -/
def opened (n : Node σ) (blocks : List StoredBlock) (u : UtxoSet) (ts : List Transaction) : Node σ where
  chain := { TestnetChain.new n.chain.dataDirectory n.chain.storage with blocks := blocks, utxos := u }
  mempool := ⟨ts, n.mempool.file⟩

theorem load_memory_run {s : TestnetChain (Option (List StoredBlock × UtxoSet))}
    (hs : s.storage = some (blocks, u)) (hc : Chain blocks u) :
    (TestnetChain.load .memory).run s = .ok () { s with blocks := blocks, utxos := u } := by
  obtain ⟨_, _, _, _, _, _, _⟩ := s
  obtain rfl := hs
  have hverify : verifyBlocks blocks = .ok () := verifyBlocks_iff.2 ⟨u, hc⟩
  simp only [TestnetChain.load, run_bind_ok, onStorage_run_ok]
  refine ⟨true, _, ⟨_, rfl, rfl⟩, ?_⟩
  simp only [if_true, run_bind_ok, onStorageUtxos_run_ok, setBlocks_run_ok, TestnetChain.verify_ok,
    run_get_ok, lift_run_ok]
  refine ⟨blocks, _, ⟨_, _, rfl, rfl⟩, (), _, rfl, (), _, ⟨hverify, rfl⟩, _, _, ⟨rfl, rfl⟩, u, _,
    ⟨hc.build, rfl⟩, ?_⟩
  rw [if_neg (fun h => h.2 h.1), throwIf_run_ok]
  exact ⟨by simp [utxoSetsEqual_iff], rfl⟩

theorem Stored.openStored_run (h : n.Stored blocks u ts) :
    (openStored .memory).run n.reopened = .ok () (n.opened blocks u ts) := by
  simp only [openStored, run_bind_ok, onChain_run_ok, onMempool_run_ok]
  exact ⟨(), _, ⟨_, load_memory_run h.storage h.chain, rfl⟩, _, h.file, rfl⟩

/-- A new process comes up exactly when the stored mempool applies to the stored chain. -/
theorem Stored.restarts_iff (h : n.Stored blocks u ts) : Restarts .memory n ↔
    ∃ fees u', Applies (UInt64.ofNat blocks.length) u ts fees u' := by
  have hheight : (n.opened blocks u ts).chain.spendHeight = .ok (UInt64.ofNat blocks.length) :=
    spendHeight_eq (s := (n.opened blocks u ts).chain) h.chain
  simp only [Restarts, run_bind_ok, effective, run_get_ok, lift_run_ok]
  constructor
  · rintro ⟨utxos, n', _, _, hopen, _, _, ⟨rfl, rfl⟩, height, _, ⟨hh, rfl⟩, heff, rfl⟩
    rw [h.openStored_run] at hopen
    cases hopen
    cases hheight.symm.trans hh
    obtain ⟨fees, happlies⟩ := TestnetMempool.effectiveUtxos_ok.1 heff
    exact ⟨fees, _, happlies⟩
  · rintro ⟨fees, u', happlies⟩
    exact ⟨u', _, (), _, h.openStored_run, _, _, ⟨rfl, rfl⟩, _, _, ⟨hheight, rfl⟩,
      TestnetMempool.effectiveUtxos_ok.2 ⟨fees, happlies⟩, rfl⟩

end Node

end

end BinaryCoin
