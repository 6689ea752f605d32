/-
  BinaryCoin — `TestnetChain` over the durable store, from process to process.

  An operation of the object commits at most once, and what it commits is an
  accepted chain.  So wherever a node is stopped, the next one comes up.
-/
import BinaryCoin.CommitRuns
import BinaryCoin.Crash

namespace BinaryCoin

open Crash Cursor Runs Std Stateful

section
variable [Crypto]

/-! ## An operation commits at most once -/

namespace TestnetChain
variable {σ α β : Type} {S : ChainStore σ} {P : List StoredBlock → Prop} {s s' : TestnetChain σ}

/-- The chain of the object has been committed; `P` says which chains may be. -/
structure Saved (S : ChainStore σ) (P : List StoredBlock → Prop) (s s' : TestnetChain σ) : Prop where
  valid : s'.Valid
  target : P s'.blocks
  commit : (S.commit s'.blocks s'.utxos).run s.storage = .ok () s'.storage

/-- The store has been left alone, or a commit of an accepted chain has thrown. -/
def Unsaved (S : ChainStore σ) (P : List StoredBlock → Prop) (s s' : TestnetChain σ) : Prop :=
  s'.storage = s.storage ∨ ∃ blocks utxos e, Chain blocks utxos ∧ P blocks ∧
    (S.commit blocks utxos).run s.storage = .error e s'.storage

omit [Crypto] in
/-- The rule for a part that does not touch the store. -/
theorem FixesStorage.meets_bind {x : ChainM σ α} {f : α → ChainM σ β} {Q : β → TestnetChain σ → Prop}
    {F : Exn → TestnetChain σ → Prop} (hx : FixesStorage x)
    (hf : ∀ a s₁, x.run s = .ok a s₁ → s₁.storage = s.storage → Meets Q F (f a) s₁)
    (hF : ∀ e s₁, x.run s = .error e s₁ → s₁.storage = s.storage → F e s₁) :
    Meets Q F (x >>= f) s := by
  have hs := hx s
  rw [Meets, EStateM.run_bind]
  cases hrun : x.run s with
  | ok a s₁ =>
    rw [hrun] at hs
    exact hf a s₁ hrun hs
  | error e s₁ =>
    rw [hrun] at hs
    exact hF e s₁ hrun hs

theorem save_meets {s₁ : TestnetChain σ} (hvalid : s₁.Valid) (hP : P s₁.blocks)
    (hstorage : s₁.storage = s.storage) :
    Meets (fun _ s' => Saved S P s s') (fun _ s' => Unsaved S P s s') (save S) s₁ := by
  rw [Meets]
  cases hrun : (save S).run s₁ with
  | ok x s' =>
    have hsame := save_ok hrun
    refine ⟨hvalid.congr hsame, hsame.1 ▸ hP, ?_⟩
    simp only [save, run_bind_ok, run_get_ok, onStorage_run_ok] at hrun
    obtain ⟨_, _, ⟨rfl, rfl⟩, storage, hcommit, rfl⟩ := hrun
    rwa [hstorage] at hcommit
  | error e s' =>
    refine .inr ⟨s₁.blocks, s₁.utxos, e, hvalid, hP, ?_⟩
    have hcommit : (onStorage (S.commit s₁.blocks s₁.utxos)).run s₁ = .error e s' := hrun
    rw [← hstorage]
    simp only [onStorage, EStateM.run] at hcommit ⊢
    cases hstore : S.commit s₁.blocks s₁.utxos s₁.storage with
    | ok a storage =>
      rw [hstore] at hcommit
      cases hcommit
    | error e' storage =>
      rw [hstore] at hcommit
      cases hcommit
      rfl

omit [Crypto] in
theorem orRestore_meets {x : ChainM σ Unit} {Q : Unit → TestnetChain σ → Prop}
    {F : Exn → TestnetChain σ → Prop} (h : Meets Q F x s) :
    Meets Q (fun e s' => Same s s' ∧ ∃ s₁, F e s₁ ∧ s'.storage = s₁.storage) (orRestore x) s := by
  rw [Meets] at h ⊢
  rw [orRestore_run]
  cases hrun : x.run s with
  | ok a s' =>
    rw [hrun] at h
    exact h
  | error e s' =>
    rw [hrun] at h
    exact ⟨⟨rfl, rfl⟩, s', h, rfl⟩

theorem Unsaved.congr {s₁ : TestnetChain σ} (h : Unsaved S P s s₁)
    (hstorage : s'.storage = s₁.storage) : Unsaved S P s s' := by
  rw [Unsaved, hstorage]
  exact h

theorem verify_rebuild_save_meets {s₁ : TestnetChain σ} (hP : P s₁.blocks)
    (hstorage : s₁.storage = s.storage) :
    Meets (fun _ s' => Saved S P s s') (fun _ s' => Unsaved S P s s')
      (do verify; rebuild; save S : ChainM σ Unit) s₁ := by
  refine fixesStorage_verify.meets_bind ?_ fun e s₂ _ hs₂ => .inl (hs₂.trans hstorage)
  intro _ s₂ hverify hs₂
  obtain ⟨haccepted, rfl⟩ := verify_ok.1 hverify
  refine fixesStorage_rebuild.meets_bind ?_ fun e s₃ _ hs₃ => .inl (hs₃.trans hstorage)
  intro _ s₃ hrebuild hs₃
  obtain ⟨u, hu, rfl⟩ := rebuild_ok.1 hrebuild
  exact save_meets (valid_of_build haccepted hu) hP hstorage

/-- **`append_blocks`** commits the longer chain, or leaves the object as it is. -/
theorem appendBlocks_meets (hs : s.Valid) (incoming : List StoredBlock) :
    Meets (fun _ s' => s' = s ∨ Saved S (fun blocks => blocks = s.blocks ++ incoming) s s')
      (fun _ s' => Same s s' ∧ Unsaved S (fun blocks => blocks = s.blocks ++ incoming) s s')
      (appendBlocks S incoming) s := by
  unfold appendBlocks
  split_ifs with hnil
  · exact .pure (.inl rfl)
  · rw [Meets, EStateM.run_bind, initializeIfEmpty_run hs.ne_nil]
    have hbody : Meets (fun _ s' => Saved S (fun blocks => blocks = s.blocks ++ incoming) s s')
        (fun _ s' => Unsaved S (fun blocks => blocks = s.blocks ++ incoming) s s')
        (do forM incoming appendBlock; verify; rebuild; save S : ChainM σ Unit) s := by
      refine (FixesStorage.forM fixesStorage_appendBlock incoming).meets_bind ?_
        fun e s₁ _ hs₁ => .inl hs₁
      intro _ s₁ happend hs₁
      exact verify_rebuild_save_meets (forM_appendBlock_ok happend) hs₁
    refine (orRestore_meets hbody).imp (fun _ _ h => .inr h) ?_
    rintro e s' ⟨hsame, s₁, hunsaved, hstorage⟩
    exact ⟨hsame, hunsaved.congr hstorage⟩

omit [Crypto] in
theorem lift_meets_bind {x : Except Exn α} {f : α → ChainM σ β} {Q : β → TestnetChain σ → Prop}
    {F : Exn → TestnetChain σ → Prop} (hF : ∀ e, F e s)
    (hf : ∀ a, x = .ok a → Meets Q F (f a) s) : Meets Q F (liftM x >>= f) s := by
  cases x with
  | ok a => exact hf a rfl
  | error e => exact hF e

omit [Crypto] in
theorem throwIf_meets_bind {c : Prop} [Decidable c] {e : Exn} {f : Unit → ChainM σ β}
    {Q : β → TestnetChain σ → Prop} {F : Exn → TestnetChain σ → Prop} (hF : F e s)
    (hf : Meets Q F (f ()) s) : Meets Q F (throwIf c e >>= f) s := by
  by_cases hc : c
  · rw [throwIf, if_pos hc]
    exact hF
  · rw [throwIf, if_neg hc]
    exact hf

/-- **`activate_if_more_work`** commits the candidate, or leaves the object as it is. -/
theorem activateIfMoreWork_meets (candidate : List StoredBlock) :
    Meets (fun _ s' => s' = s ∨ Saved S (fun blocks => blocks = candidate) s s')
      (fun _ s' => Same s s' ∧ Unsaved S (fun blocks => blocks = candidate) s s')
      (activateIfMoreWork S candidate) s := by
  have hF : ∀ e : Exn, Same s s ∧ Unsaved S (fun blocks => blocks = candidate) s s :=
    fun _ => ⟨⟨rfl, rfl⟩, .inl rfl⟩
  refine lift_meets_bind hF fun _ _ => .get_bind ?_
  refine lift_meets_bind hF fun oldTip _ => lift_meets_bind hF fun newTip _ => ?_
  refine lift_meets_bind hF fun oldChainwork _ => lift_meets_bind hF fun candidateChainwork _ => ?_
  refine lift_meets_bind hF fun common _ => throwIf_meets_bind (hF (runtimeError "")) ?_
  dsimp only
  split_ifs with hwork
  · exact .pure (.inl rfl)
  · refine lift_meets_bind hF fun candidateTxids _ => lift_meets_bind hF fun disconnected _ => ?_
    have hbody : Meets (fun _ s' => Saved S (fun blocks => blocks = candidate) s s')
        (fun _ s' => Unsaved S (fun blocks => blocks = candidate) s s')
        (do setBlocks candidate; verify; rebuild; save S : ChainM σ Unit) s := by
      have hinner : Meets (fun _ s' => Saved S (fun blocks => blocks = candidate) s s')
          (fun _ s' => Unsaved S (fun blocks => blocks = candidate) s s')
          (do verify; rebuild; save S : ChainM σ Unit) { s with blocks := candidate } := by
        have hsame : ({ s with blocks := candidate } : TestnetChain σ).storage = s.storage := rfl
        exact verify_rebuild_save_meets rfl hsame
      exact .modify_bind hinner
    refine Meets.bind ((orRestore_meets hbody).imp (fun _ _ h => h) ?_) ?_
    · rintro e s' ⟨hsame, s₁, hunsaved, hstorage⟩
      exact ⟨hsame, hunsaved.congr hstorage⟩
    · intro _ s' hsaved
      exact .pure (.inr hsaved)

/-- The chains that `generate` makes. -/
def Generates (s : TestnetChain σ) (clock : ℕ → Int64) (count : UInt64) (script : Bytes)
    (pending : List Transaction) (blocks : List StoredBlock) : Prop :=
  ∃ u s₁, (generateFrom clock script pending count.toNat 0 s.utxos).run s = .ok u s₁ ∧
    blocks = s₁.blocks

/-- **`generate`** commits what it has mined; where it throws, the object is lost. -/
theorem generate_meets (hs : s.Valid) (clock : ℕ → Int64) (count : UInt64) (script : Bytes)
    (pending : List Transaction) :
    Meets (fun _ s' => Saved S (s.Generates clock count script pending) s s')
      (fun _ s' => Unsaved S (s.Generates clock count script pending) s s')
      (generate S clock count script pending) s := by
  have hbody : Meets (fun _ s' => Saved S (s.Generates clock count script pending) s s')
      (fun _ s' => Unsaved S (s.Generates clock count script pending) s s') (do
        let current ← generateFrom clock script pending count.toNat 0 s.utxos
        verify
        setUtxos current
        save S : ChainM σ Unit) s := by
    refine (fixesStorage_generateFrom clock script pending _ _ _).meets_bind ?_
      fun e s₁ _ hs₁ => .inl hs₁
    intro current s₁ hloop hs₁
    refine fixesStorage_verify.meets_bind ?_ fun e s₂ _ hs₂ => .inl (hs₂.trans hs₁)
    intro _ s₂ hverify hs₂
    obtain ⟨haccepted, rfl⟩ := verify_ok.1 hverify
    have hbuild := generateFrom_ok hs.ne_nil (Chain.build hs) hloop
    have hvalid : Valid { s₁ with utxos := current } := valid_of_build haccepted hbuild
    exact .modify_bind (save_meets hvalid ⟨current, s₁, hloop, rfl⟩ hs₁)
  rw [Meets, generate, EStateM.run_bind, initializeIfEmpty_run hs.ne_nil]
  exact hbody

/-- The chains that `reindex` chooses. -/
def Reindexes (S : ChainStore σ) (s : TestnetChain σ) (blocks : List StoredBlock) : Prop :=
  ∃ records s₁, (onStorage S.scanAllBlocks).run s = .ok records s₁ ∧ bestBranch records = .ok blocks

/-- **`reindex`** commits the best branch. -/
theorem reindex_meets (hscan : ∀ storage, final (S.scanAllBlocks.run storage) = storage) :
    Meets (fun _ s' => Saved S (s.Reindexes S) s s') (fun _ s' => Unsaved S (s.Reindexes S) s s')
      (reindex S) s := by
  have hfix : FixesStorage (onStorage S.scanAllBlocks) := by
    intro s
    have hs := hscan s.storage
    simp only [onStorage, EStateM.run] at hs ⊢
    cases hrun : S.scanAllBlocks s.storage with
    | ok a storage =>
      rw [hrun] at hs
      exact hs
    | error e storage =>
      rw [hrun] at hs
      exact hs
  refine hfix.meets_bind ?_ fun e s₁ _ hs₁ => .inl hs₁
  intro records s₁ hrecords hs₁
  refine lift_meets_bind (fun _ => .inl hs₁) fun best hbest => ?_
  have hinner : Meets (fun _ s' => Saved S (s.Reindexes S) s s')
      (fun _ s' => Unsaved S (s.Reindexes S) s s') (do rebuild; save S : ChainM σ Unit)
      { s₁ with blocks := best } := by
    refine fixesStorage_rebuild.meets_bind ?_ fun e s₂ _ hs₂ => .inl (hs₂.trans hs₁)
    intro _ s₂ hrebuild hs₂
    obtain ⟨u, hu, rfl⟩ := rebuild_ok.1 hrebuild
    exact save_meets (valid_of_build (bestBranch_ok hbest) hu) ⟨records, s₁, hrecords, hbest⟩ hs₁
  exact .modify_bind hinner

end TestnetChain

/-! ## The disk under the object -/

/-- The disk holds an accepted chain. -/
def Loadable (d : Disk) : Prop := ∃ g c, HoldsAt g d c ∧ Chain c.1 c.2

/-- The records under the hashes of the blocks of chains with `P` are those of the blocks. -/
def Disk.FaithfulTo (d : Disk) (P : List StoredBlock → Prop) : Prop := ∀ blocks, P blocks → d.Faithful blocks

/-- A disk is passed that can be loaded. -/
def Passing (P : List StoredBlock → Prop) (d : Disk) : Prop := d.FaithfulTo P → Loadable d

theorem Loadable.loadedFrom {d : Disk} (h : Loadable d) : ∃ c, Chain c.1 c.2 ∧ LoadedFrom d c := by
  obtain ⟨g, c, hholds, hchain⟩ := h
  exact ⟨c, hchain, hholds.loadedFrom hchain⟩

theorem durable_commit_meets {P : List StoredBlock → Prop} {s : DurableChainStore}
    {blocks : List StoredBlock} {utxos : UtxoSet} (hs : Loadable s.machine.disk)
    (hchain : Chain blocks utxos) (hP : P blocks) :
    Meets (fun _ s' => (s'.machine.disk.FaithfulTo P → ∃ g, HoldsAt g s'.machine.disk (blocks, utxos)) ∧
        Through (Passing P) s.machine s'.machine)
      (fun _ s' => Through (Passing P) s.machine s'.machine)
      (ChainStore.durable.commit blocks utxos) s := by
  obtain ⟨g, old, hholds, hold⟩ := hs
  have hspared := HoldsAt.spared g old
  rw [← hholds.nextGeneration] at hspared
  have htriple : Triple (fun d => d = s.machine.disk) (commitChain s.migratedLegacy blocks utxos)
      (fun _ d => d.FaithfulTo P → ∃ g, HoldsAt g d (blocks, utxos)) (Passing P) := by
    refine (commitChain_triple hchain hholds hspared).imp (fun _ h => h) ?_ ?_
    · intro _ d hdurable hfaithful
      exact ⟨_, (hdurable (hfaithful blocks hP)).1⟩
    · rintro d (hkept | hdurable) hfaithful
      · exact ⟨g, old, hkept, hold⟩
      · exact ⟨_, (blocks, utxos), (hdurable (hfaithful blocks hP)).1, hchain⟩
  have hmeets := htriple s.machine rfl
  rw [Meets, EStateM.run] at hmeets ⊢
  have hcommit : ChainStore.durable.commit blocks utxos s =
      DurableChainStore.onMachine (commitChain s.migratedLegacy blocks utxos) s := rfl
  rw [hcommit]
  simp only [DurableChainStore.onMachine]
  cases hrun : commitChain s.migratedLegacy blocks utxos s.machine with
  | ok a m =>
    rw [hrun] at hmeets
    exact hmeets
  | error e m =>
    rw [hrun] at hmeets
    exact hmeets

namespace TestnetChain
variable {P : List StoredBlock → Prop} {s s' : TestnetChain DurableChainStore}

def disk (s : TestnetChain DurableChainStore) : Disk := s.storage.machine.disk

/-- The disks between two states of the object. -/
def Between (R : Disk → Prop) (s s' : TestnetChain DurableChainStore) : Prop :=
  Through R s.storage.machine s'.storage.machine

theorem Unsaved.between (h : Unsaved .durable P s s') (hs : Loadable s.disk) :
    Between (Passing P) s s' := by
  rcases h with hstorage | ⟨blocks, utxos, e, hchain, hP, hcommit⟩
  · rw [Between, hstorage]
    exact .refl fun _ => hs
  · have hmeets := durable_commit_meets hs hchain hP
    rw [Meets, hcommit] at hmeets
    exact hmeets

theorem Saved.between (h : Saved .durable P s s') (hs : Loadable s.disk) : Between (Passing P) s s' ∧
    (s'.disk.FaithfulTo P → ∃ g, HoldsAt g s'.disk (s'.blocks, s'.utxos)) := by
  have hmeets := durable_commit_meets hs h.valid h.target
  rw [Meets, h.commit] at hmeets
  exact ⟨hmeets.2, hmeets.1⟩

/-- **Loading** does not change the disk; where it returns, the object has what the disk holds. -/
theorem load_meets {g : UInt64} {c : List StoredBlock × UtxoSet} (hholds : HoldsAt g s.disk c)
    (hchain : Chain c.1 c.2) :
    Meets (fun _ s' => s'.blocks = c.1 ∧ s'.utxos = c.2 ∧ s'.disk = s.disk ∧
        Between (fun d => d = s.disk) s s')
      (fun _ s' => Same s s' ∧ Between (fun d => d = s.disk) s s') (TestnetChain.load .durable) s := by
  have htriple : Triple (fun d => d = s.disk)
      (do idle; idle; idle; return (← (← contents).load) : StoreM (List StoredBlock × UtxoSet))
      (fun loaded d => loaded = c ∧ d = s.disk) (fun d => d = s.disk) := by
    have hidle : Triple (fun d => d = s.disk) idle (fun _ d => d = s.disk) (fun d => d = s.disk) :=
      .idle (fun _ h => h) fun _ h => h
    refine .bind hidle fun _ => .bind hidle fun _ => .bind hidle fun _ => .contents_bind ?_
    rintro d rfl
    rw [hholds.load]
    refine .pure ?_ fun _ h => h
    intro d h
    exact ⟨rfl, h⟩
  have hmeets := htriple s.storage.machine rfl
  rw [Meets, EStateM.run] at hmeets
  cases hrun : (do idle; idle; idle; return (← (← contents).load) :
      StoreM (List StoredBlock × UtxoSet)) s.storage.machine with
  | ok loaded m =>
    rw [hrun] at hmeets
    obtain ⟨⟨rfl, hdisk⟩, hthrough⟩ := hmeets
    have hload : DurableChainStore.load.run (s.storage, s.utxos) =
        .ok loaded.1 ({ s.storage with machine := m }, loaded.2) := by
      simp only [DurableChainStore.load, DurableChainStore.onMachine, EStateM.run, hrun]
    exact .of_ok (load_durable_run hholds.storeExists hload hchain) ⟨rfl, rfl, hdisk, hthrough⟩
  | error e m =>
    rw [hrun] at hmeets
    have hload : (onStorageUtxos ChainStore.durable.load).run s =
        .error e { s with storage := { s.storage with machine := m } } := by
      simp only [onStorageUtxos, ChainStore.durable, DurableChainStore.load,
        DurableChainStore.onMachine, EStateM.run, hrun]
    have herror : (TestnetChain.load .durable).run s =
        .error e { s with storage := { s.storage with machine := m } } := by
      have hexists : s.storage.machine.disk.storeExists = true := hholds.storeExists
      rw [TestnetChain.load, EStateM.run_bind, storeExists_run, hexists]
      dsimp only
      rw [if_pos rfl, EStateM.run_bind, hload]
    rw [Meets, herror]
    exact ⟨⟨rfl, rfl⟩, hmeets⟩

theorem createDirectories_meets : Meets (fun _ s' => Same s s' ∧ s'.disk = s.disk ∧
      Between (fun d => d = s.disk) s s')
    (fun _ s' => Same s s' ∧ Between (fun d => d = s.disk) s s')
    (onStorage ChainStore.durable.createDirectories) s := by
  have htriple : Triple (fun d => d = s.disk) idle (fun _ d => d = s.disk) (fun d => d = s.disk) :=
    .idle (fun _ h => h) fun _ h => h
  have hmeets := htriple s.storage.machine rfl
  rw [Meets, EStateM.run] at hmeets ⊢
  simp only [onStorage, ChainStore.durable, DurableChainStore.onMachine]
  cases hrun : idle s.storage.machine with
  | ok a m =>
    rw [hrun] at hmeets
    exact ⟨⟨rfl, rfl⟩, hmeets.1, hmeets.2⟩
  | error e m =>
    rw [hrun] at hmeets
    exact ⟨⟨rfl, rfl⟩, hmeets⟩

/-- **`initialize`** of a directory that holds a chain loads it. -/
theorem initializeChain_meets {g : UInt64} {c : List StoredBlock × UtxoSet} (hholds : HoldsAt g s.disk c)
    (hchain : Chain c.1 c.2) :
    Meets (fun _ s' => s'.blocks = c.1 ∧ s'.utxos = c.2 ∧ s'.disk = s.disk ∧
        Between (fun d => d = s.disk) s s')
      (fun _ s' => Same s s' ∧ Between (fun d => d = s.disk) s s') (initializeChain .durable) s := by
  refine .get_bind (throwIf_meets_bind ⟨⟨rfl, rfl⟩, .refl rfl⟩ (createDirectories_meets.bind ?_))
  rintro _ s₁ ⟨hsame, hdisk, hbetween⟩
  rw [← hdisk] at hholds
  have hexists : s₁.storage.machine.disk.storeExists = true := hholds.storeExists
  refine .ok_bind storeExists_run ?_
  rw [hexists, if_pos rfl]
  refine (load_meets hholds hchain).imp ?_ ?_
  · rintro _ s' ⟨hblocks, hutxos, hdisk', hbetween'⟩
    rw [hdisk] at hdisk' hbetween'
    exact ⟨hblocks, hutxos, hdisk', hbetween.trans hbetween'⟩
  · rintro e s' ⟨hsame', hbetween'⟩
    rw [hdisk] at hbetween'
    exact ⟨⟨hsame'.1.trans hsame.1, hsame'.2.trans hsame.2⟩, hbetween.trans hbetween'⟩

/-- Blocks that extend the chain are appended by a commit of the whole. -/
theorem appendBlocks_durable {s : TestnetChain DurableChainStore} {incoming : List StoredBlock}
    {v : UtxoSet} (hne : s.blocks ≠ []) (hincoming : incoming ≠ [])
    (hc : Chain (s.blocks ++ incoming) v) : (appendBlocks .durable incoming).run s =
      match (commitChain s.storage.migratedLegacy (s.blocks ++ incoming) v).run s.storage.machine with
      | .ok () m => .ok () { s with
          storage := { s.storage with machine := m }, blocks := s.blocks ++ incoming, utxos := v }
      | .error e m => .error e { s with storage := { s.storage with machine := m } } := by
  have hcommit : (ChainStore.durable.commit (s.blocks ++ incoming) v).run s.storage =
      (DurableChainStore.onMachine
        (commitChain s.storage.migratedLegacy (s.blocks ++ incoming) v)).run s.storage := rfl
  rw [appendBlocks_eq hne hincoming hc, hcommit]
  simp only [EStateM.run, DurableChainStore.onMachine]
  cases commitChain s.storage.migratedLegacy (s.blocks ++ incoming) v s.storage.machine <;> rfl

end TestnetChain

/-! ## From process to process -/

open TestnetChain

/-- What throws leaves the object as it was. -/
def TestnetChain.Operation.Restores : Operation → Prop
  | .generate .. => False
  | .reindex => False
  | _ => True

/-- The chains that an operation may commit. -/
def TestnetChain.Operation.Commits (s : TestnetChain DurableChainStore) (blocks : List StoredBlock) :
    Operation → Prop
  | .init => False
  | .load => False
  | .append incoming => blocks = s.blocks ++ incoming
  | .activate candidate => blocks = candidate
  | .generate clock count script pending => s.Generates clock count script pending blocks
  | .reindex => s.Reindexes .durable blocks

/-- The records under the hashes of the blocks that the operation may commit are those of the
    blocks. -/
def FaithfulFor (operation : Operation) (s : TestnetChain DurableChainStore) (d : Disk) : Prop :=
  d.FaithfulTo fun blocks => operation.Commits s blocks

/-- The object is valid, and a chain can be loaded from the disk. -/
structure Sound (s : TestnetChain DurableChainStore) : Prop where
  valid : s.Valid
  loadable : Loadable s.disk

/-- Where an operation has returned. -/
structure Returned (P : List StoredBlock → Prop) (s s' : TestnetChain DurableChainStore) : Prop where
  valid : s'.Valid
  between : Between (Passing P) s s'
  held : s'.disk.FaithfulTo P → s' = s ∨ ∃ g, HoldsAt g s'.disk (s'.blocks, s'.utxos)

section
variable {P : List StoredBlock → Prop} {s s' : TestnetChain DurableChainStore}

theorem Sound.between (hs : Sound s) (h : Between (fun d => d = s.disk) s s') :
    Between (Passing P) s s' :=
  h.imp fun _ hd _ => hd ▸ hs.loadable

theorem Sound.saved (hs : Sound s) (h : Saved .durable P s s') : Returned P s s' := by
  obtain ⟨hbetween, hheld⟩ := h.between hs.loadable
  exact ⟨h.valid, hbetween, fun hfaithful => .inr (hheld hfaithful)⟩

theorem Sound.unchanged (hs : Sound s) (h : s' = s ∨ Saved .durable P s s') : Returned P s s' := by
  rcases h with rfl | h
  · exact ⟨hs.valid, .refl fun _ => hs.loadable, fun _ => .inl rfl⟩
  · exact hs.saved h

theorem Sound.loaded {g : UInt64} {c : List StoredBlock × UtxoSet} (hs : Sound s)
    (hholds : HoldsAt g s.disk c) (hchain : Chain c.1 c.2) (h : s'.blocks = c.1 ∧ s'.utxos = c.2 ∧
      s'.disk = s.disk ∧ Between (fun d => d = s.disk) s s') : Returned P s s' := by
  obtain ⟨hblocks, hutxos, hdisk, hbetween⟩ := h
  refine ⟨?_, hs.between hbetween, fun _ => .inr ⟨g, ?_⟩⟩
  · rw [Valid, hblocks, hutxos]
    exact hchain
  · rw [hdisk, hblocks, hutxos]
    exact hholds

theorem scanAllBlocks_final (storage : DurableChainStore) :
    final (ChainStore.durable.scanAllBlocks.run storage) = storage := by
  have hrun : ChainStore.durable.scanAllBlocks storage =
      (liftM (scanAllBlocks storage.machine.disk.blockFile) : EStateM Exn DurableChainStore _)
        storage := rfl
  rw [EStateM.run, hrun]
  cases scanAllBlocks storage.machine.disk.blockFile <;> rfl

/-- **What an operation does**: where it returns, the object is valid, and it is as before or has been
    committed; and wherever it is stopped, a chain can be loaded. -/
theorem Sound.operation (hs : Sound s) (operation : Operation) :
    Meets (fun _ s' => Returned (fun blocks => operation.Commits s blocks) s s')
      (fun _ s' => (operation.Restores → Same s s') ∧
        Between (Passing fun blocks => operation.Commits s blocks) s s')
      (operation.exec .durable) s := by
  obtain ⟨g, c, hholds, hchain⟩ := hs.loadable
  cases operation with
  | init =>
    exact (initializeChain_meets hholds hchain).imp (fun _ s' h => hs.loaded hholds hchain h)
      fun _ s' h => ⟨fun _ => h.1, hs.between h.2⟩
  | load =>
    exact (load_meets hholds hchain).imp (fun _ s' h => hs.loaded hholds hchain h)
      fun _ s' h => ⟨fun _ => h.1, hs.between h.2⟩
  | append incoming =>
    exact (appendBlocks_meets hs.valid incoming).imp (fun _ s' h => hs.unchanged h)
      fun _ s' h => ⟨fun _ => h.1, h.2.between hs.loadable⟩
  | activate candidate =>
    refine Meets.bind ((activateIfMoreWork_meets candidate).imp (fun _ s' h => hs.unchanged h)
      fun _ s' h => ⟨fun _ => h.1, h.2.between hs.loadable⟩) ?_
    intro _ s' h
    exact .pure h
  | generate clock count script pending =>
    exact (generate_meets hs.valid clock count script pending).imp (fun _ s' h => hs.saved h)
      fun _ s' h => ⟨fun hrestores => hrestores.elim, h.between hs.loadable⟩
  | reindex =>
    exact (reindex_meets scanAllBlocks_final).imp (fun _ s' h => hs.saved h)
      fun _ s' h => ⟨fun hrestores => hrestores.elim, h.between hs.loadable⟩

end

/-- The disks on which a process can be stopped during an operation. -/
def StoppedOn (operation : Operation) (s : TestnetChain DurableChainStore) (d : Disk) : Prop :=
  let s' := Stateful.final ((operation.exec .durable).run s)
  d = s'.disk ∨ ∃ ds, s'.storage.machine.passed = ds ++ s.storage.machine.passed ∧ d ∈ ds

/-- What happens to a node. -/
inductive Event where
  | returned (operation : Operation)
  | threw (operation : Operation)
  | restarted (operation : Operation)

/-- A step in the life of a node.  A process that goes on after an exception has been left as it was;
    one that is stopped is followed by another, which loads from the disk. -/
inductive Life : TestnetChain DurableChainStore → Event → TestnetChain DurableChainStore → Prop
  | returned {s s' : TestnetChain DurableChainStore} {operation : Operation}
      (h : (operation.exec .durable).run s = .ok () s') (hfaithful : FaithfulFor operation s s'.disk) :
      Life s (.returned operation) s'
  | threw {s s' : TestnetChain DurableChainStore} {operation : Operation} {e : Exn}
      (hrestores : operation.Restores) (h : (operation.exec .durable).run s = .error e s')
      (hfaithful : FaithfulFor operation s s'.disk) : Life s (.threw operation) s'
  | restarted {s s' : TestnetChain DurableChainStore} {operation : Operation} {d : Disk}
      {dataDirectory : String} {fails : ℕ → Option Exn} {migrated : Bool}
      {legacyFiles : String → Option Str} (hstopped : StoppedOn operation s d)
      (hfaithful : FaithfulFor operation s d)
      (h : (TestnetChain.load .durable).run
        (.new dataDirectory ⟨.start d fails, migrated, legacyFiles⟩) = .ok () s') :
      Life s (.restarted operation) s'

section
variable {s s' : TestnetChain DurableChainStore}

theorem Sound.stopped (hs : Sound s) {operation : Operation} {d : Disk}
    (hstopped : StoppedOn operation s d) (hfaithful : FaithfulFor operation s d) : Loadable d := by
  have hbetween : Between (Passing fun blocks => operation.Commits s blocks) s
      (final ((operation.exec .durable).run s)) := by
    have hmeets := hs.operation operation
    rw [Meets] at hmeets
    cases hrun : (operation.exec .durable).run s with
    | ok x s' =>
      rw [hrun] at hmeets
      exact hmeets.between
    | error e s' =>
      rw [hrun] at hmeets
      exact hmeets.2
  obtain ⟨hdisk, ds, hds, hpassing⟩ := hbetween
  rcases hstopped with rfl | ⟨ds', hds', hd⟩
  · exact hdisk hfaithful
  · obtain rfl := List.append_cancel_right (hds.symm.trans hds')
    exact hpassing d hd hfaithful

/-- **A step in the life of a node** keeps it sound. -/
theorem Life.sound {event : Event} (h : Life s event s') (hs : Sound s) : Sound s' := by
  cases h with
  | @returned _ operation hok hfaithful =>
    have hmeets := hs.operation operation
    rw [Meets, hok] at hmeets
    rcases hmeets.held hfaithful with rfl | ⟨g, hholds⟩
    · exact hs
    · exact ⟨hmeets.valid, g, _, hholds, hmeets.valid⟩
  | @threw _ operation e hrestores herror hfaithful =>
    have hmeets := hs.operation operation
    rw [Meets, herror] at hmeets
    obtain ⟨hsame, hbetween⟩ := hmeets
    exact ⟨hs.valid.congr (hsame hrestores), hbetween.1 hfaithful⟩
  | @restarted _ operation d dataDirectory fails migrated legacyFiles hstopped hfaithful hok =>
    obtain ⟨g, c, hholds, hchain⟩ := hs.stopped hstopped hfaithful
    have hmeets := load_meets (s := .new dataDirectory ⟨.start d fails, migrated, legacyFiles⟩) hholds
      hchain
    rw [Meets, hok] at hmeets
    obtain ⟨hblocks, hutxos, hdisk, -⟩ := hmeets
    refine ⟨?_, g, c, ?_, hchain⟩
    · rw [Valid, hblocks, hutxos]
      exact hchain
    · rw [hdisk]
      exact hholds

/-- **A node always comes up again**: whatever operations have returned or thrown and wherever its
    processes have been stopped before, from any disk on which the next operation is stopped the next
    process loads an accepted chain; and where that operation returns, the object is valid, and
    unchanged or what the next process loads. -/
theorem always_restarts {events : List Event} (hs : Sound s) (hrun : Run Life s events s')
    (operation : Operation) :
    (∀ d, StoppedOn operation s' d → FaithfulFor operation s' d →
      ∃ c, Chain c.1 c.2 ∧ LoadedFrom d c) ∧
    ∀ s'', (operation.exec .durable).run s' = .ok () s'' → FaithfulFor operation s' s''.disk →
      s''.Valid ∧ (s'' = s' ∨ LoadedFrom s''.disk (s''.blocks, s''.utxos)) := by
  have hsound : Sound s' := hrun.invariant (fun _ _ _ hs h => h.sound hs) hs
  constructor
  · intro d hstopped hfaithful
    exact (hsound.stopped hstopped hfaithful).loadedFrom
  · intro s'' hok hfaithful
    have hmeets := hsound.operation operation
    rw [Meets, hok] at hmeets
    refine ⟨hmeets.valid, ?_⟩
    rcases hmeets.held hfaithful with rfl | ⟨g, hholds⟩
    · exact .inl rfl
    · exact .inr (hholds.loadedFrom hmeets.valid)

end

end

section
attribute [local instance] sampleCrypto

/-- A process on a disk, whose object has a chain. -/
def sampleProcess (m : Machine Disk Exn) (blocks : List StoredBlock) (u : UtxoSet) :
    TestnetChain DurableChainStore :=
  { TestnetChain.new "data" ⟨m, false, fun _ => none⟩ with blocks := blocks, utxos := u }

theorem sampleChain_two : sampleChain 1 ++ [sampleBlock 2] = sampleChain 2 := by
  rw [show 2 = 1 + 1 from rfl, sampleChain_add]
  rfl

variable {u v : UtxoSet} {d : Disk}

/-- The second block is appended by a commit of the longer chain. -/
theorem sampleProcess_append {m : Machine Disk Exn} (hc : Chain (sampleChain 2) v) :
    ((TestnetChain.Operation.append [sampleBlock 2]).exec .durable).run
        (sampleProcess m (sampleChain 1) u) =
      match (commitChain false (sampleChain 2) v).run m with
      | .ok () m' => .ok () (sampleProcess m' (sampleChain 2) v)
      | .error e m' => .error e (sampleProcess m' (sampleChain 1) u) := by
  have hincoming : [sampleBlock 2] ≠ [] := List.cons_ne_nil _ _
  have hrun := TestnetChain.appendBlocks_durable (s := sampleProcess m (sampleChain 1) u)
    (List.cons_ne_nil _ _) hincoming (sampleChain_two.symm ▸ hc)
  rw [show (sampleProcess m (sampleChain 1) u).blocks ++ [sampleBlock 2] = sampleChain 2 from
    sampleChain_two] at hrun
  exact hrun

theorem sampleProcess_faithful {m : Machine Disk Exn} (h : d.Faithful (sampleChain 2)) :
    FaithfulFor (.append [sampleBlock 2]) (sampleProcess m (sampleChain 1) u) d := by
  rintro blocks rfl
  exact sampleChain_two.symm ▸ h

/-- A process is stopped when the block that it appends is in the file and nothing else has been
    written; the next one loads the chain without it, and appends it again. -/
theorem always_restarts_stopped : ∃ (s s' s'' : TestnetChain DurableChainStore) (d : Disk),
    StoppedOn (.append [sampleBlock 2]) s d ∧ (∃ c, Chain c.1 c.2 ∧ LoadedFrom d c) ∧
    s'.blocks = sampleChain 1 ∧ Run Life s [.restarted (.append [sampleBlock 2])] s' ∧
    ((TestnetChain.Operation.append [sampleBlock 2]).exec .durable).run s' = .ok () s'' ∧
    s''.blocks = sampleChain 2 ∧ s''.Valid ∧ LoadedFrom s''.disk (s''.blocks, s''.utxos) := by
  obtain ⟨u, v, d₁, d₂, d₃, h⟩ := Attempt.sample_exists
  have hchain := h.first.chain
  have hchain' := h.stopped.chain
  have hfaithful : d₂.Faithful (sampleChain 2) := h.faithful.of_extends h.again.extended
  have hholds : HoldsAt emptyDisk.nextGeneration d₁ (sampleChain 1, u) := by
    refine (Ran.durable hchain h.first.ran ?_).1
    intro records hrecords record hrecord block hblock
    exact hfaithful.of_extends h.stopped.extended records hrecords record hrecord block
      (sampleChain_subset hblock)
  -- the process that is stopped
  obtain ⟨fails, hstopped⟩ : ∃ fails, StoppedOn (.append [sampleBlock 2])
      (sampleProcess (.start d₁ fails) (sampleChain 1) u) d₂ := by
    have hran := h.stopped.ran
    cases hran with
    | @stopped fails _ hd =>
      have hmachine : (final (((TestnetChain.Operation.append [sampleBlock 2]).exec .durable).run
          (sampleProcess (.start d₁ fails) (sampleChain 1) u))).storage.machine =
            final ((commitChain false (sampleChain 2) v).run (.start d₁ fails)) := by
        rw [sampleProcess_append hchain']
        cases (commitChain false (sampleChain 2) v).run (.start d₁ fails) <;> rfl
      refine ⟨fails, hd.imp (fun hd => ?_) fun hd => ⟨_, (List.append_nil _).symm, ?_⟩⟩
      · exact hd.trans (congrArg Machine.disk hmachine.symm)
      · exact hmachine.symm ▸ hd
  have hsound : Sound (sampleProcess (.start d₁ fails) (sampleChain 1) u) :=
    ⟨hchain, _, _, hholds, hchain⟩
  -- the next process
  obtain ⟨m, hload, hdisk, hfails⟩ := HoldsAt.load_run
    (s := .new "data" ⟨.start d₂ fun _ => none, false, fun _ => none⟩) (hholds.grows h.grows) hchain
    fun _ => rfl
  have hlife : Run Life (sampleProcess (.start d₁ fails) (sampleChain 1) u)
      [.restarted (.append [sampleBlock 2])] (sampleProcess m (sampleChain 1) u) :=
    .single (.restarted hstopped (sampleProcess_faithful hfaithful) hload)
  -- which appends the block
  obtain ⟨records, hwhole, hstorable⟩ := h.whole
  have hkept : Total (Whole records) (commitChain false (sampleChain 2) v) _ :=
    commitChain_kept hchain' hstorable
  obtain ⟨⟨⟩, m', hcommit, ⟨-, -, -, hfaithful', -⟩, -⟩ := hkept m (hdisk ▸ hwhole) hfails
  have hrun : ((TestnetChain.Operation.append [sampleBlock 2]).exec .durable).run
      (sampleProcess m (sampleChain 1) u) = .ok () (sampleProcess m' (sampleChain 2) v) := by
    rw [sampleProcess_append hchain', hcommit]
  obtain ⟨hvalid, hsame | hloaded⟩ := (always_restarts hsound hlife _).2 _ hrun
    (sampleProcess_faithful hfaithful')
  · have hblocks : (sampleChain 2).length = (sampleChain 1).length :=
      congrArg (fun s => s.blocks.length) hsame
    exact absurd hblocks (by decide)
  · exact ⟨_, _, _, d₂, hstopped, (always_restarts hsound .nil _).1 _ hstopped
      (sampleProcess_faithful hfaithful), rfl, hlife, hrun, rfl, hvalid, hloaded⟩

end

end BinaryCoin
