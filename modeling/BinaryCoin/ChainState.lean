/-
  BinaryCoin — the state of a `TestnetChain` object over all its operations.

  An object that holds a chain is `Valid`: its blocks are accepted by
  `verify_blocks`, and its set of unspent outputs is the one that
  `verify_blocks` ends with (hence also the one of `build_utxo_set`).  Every
  operation that returns leaves a valid object, whatever the store does; the
  one exception is `append_blocks` of no blocks, which does nothing at all, so
  that an object that has seen nothing else is still empty.
-/
import BinaryCoin.TestnetChain

namespace BinaryCoin

open Cursor Std

section
variable {σ α : Type}

theorem onStorage_run_ok {x : EStateM Exn σ α} {a : α} {s s' : TestnetChain σ} :
    (onStorage x).run s = .ok a s' ↔
      ∃ storage, x.run s.storage = .ok a storage ∧ s' = { s with storage := storage } := by
  simp only [onStorage, EStateM.run]
  cases x s.storage <;> simp [eq_comm]

theorem onStorageUtxos_run_ok {x : EStateM Exn (σ × UtxoSet) α} {a : α} {s s' : TestnetChain σ} :
    (onStorageUtxos x).run s = .ok a s' ↔ ∃ storage utxos,
      x.run (s.storage, s.utxos) = .ok a (storage, utxos) ∧
      s' = { s with storage := storage, utxos := utxos } := by
  simp only [onStorageUtxos, EStateM.run]
  cases x (s.storage, s.utxos) <;> simp [eq_comm, Prod.ext_iff]

theorem setBlocks_run_ok {blocks : List StoredBlock} {x : Unit} {s s' : TestnetChain σ} :
    (setBlocks blocks).run s = .ok x s' ↔ s' = { s with blocks := blocks } := by
  rw [setBlocks, run_modify_ok, eq_comm]

theorem setUtxos_run_ok {utxos : UtxoSet} {x : Unit} {s s' : TestnetChain σ} :
    (setUtxos utxos).run s = .ok x s' ↔ s' = { s with utxos := utxos } := by
  rw [setUtxos, run_modify_ok, eq_comm]

theorem onCopy_ok {x : EStateM Exn UtxoSet α} {u u' : UtxoSet} {a : α} :
    onCopy x u = .ok (a, u') ↔ x.run u = .ok a u' := by
  unfold onCopy
  cases x.run u <;> simp

theorem back_ok {blocks : List StoredBlock} {b : StoredBlock} :
    back blocks = .ok b ↔ blocks.getLast? = some b := orThrow_ok

theorem utxoSetsEqual_iff {left right : UtxoSet} : utxoSetsEqual left right ↔ left = right := by
  simp [utxoSetsEqual, ExtTreeMap.toList_inj]

end

variable [Crypto] {σ : Type}

/-! ## Mining -/

omit [Crypto] in
theorem makeTestnetCoinbase_ok {height : UInt64} {reward : ℤ} {script : Bytes} {t : Transaction}
    (h : makeTestnetCoinbase height reward script = .ok t) : t.isCoinbase := by
  simp only [makeTestnetCoinbase, except_bind_ok, throwIf_ok, except_pure_ok] at h
  obtain ⟨_, -, _, -, _, -, _, -, rfl⟩ := h
  rfl

/-- A mined block begins with a coinbase, before the transactions it was given. -/
theorem mineTestnetBlock_ok {now : Int64} {height : UInt64} {previousHash : Str}
    {previousTime bits : UInt32} {script : Bytes} {transactions : List Transaction} {fees : ℤ}
    {block : Block}
    (h : mineTestnetBlock now height previousHash previousTime bits script transactions fees =
      .ok block) :
    ∃ coinbase, block.transactions = coinbase :: transactions ∧ coinbase.isCoinbase := by
  simp only [mineTestnetBlock, except_bind_ok, throwIf_ok, except_pure_ok] at h
  obtain ⟨_, -, _, -, coinbase, hc, _, -, _, -, rfl⟩ := h
  exact ⟨coinbase, rfl, makeTestnetCoinbase_ok hc⟩

/-! ## The invariant -/

namespace TestnetChain

/-- The blocks are accepted, with the object's set of unspent outputs after the last of them. -/
def Valid (s : TestnetChain σ) : Prop := Chain s.blocks s.utxos

/-- The two members that are not the store. -/
def Same (s s' : TestnetChain σ) : Prop := s'.blocks = s.blocks ∧ s'.utxos = s.utxos

theorem Valid.congr {s s' : TestnetChain σ} (h : s.Valid) (he : Same s s') : s'.Valid := by
  rw [Valid, he.1, he.2]; exact h

theorem Valid.ne_nil {s : TestnetChain σ} (h : s.Valid) : s.blocks ≠ [] := Chain.ne_nil h

theorem verify_ok {s s' : TestnetChain σ} {x : Unit} :
    (verify : ChainM σ Unit).run s = .ok x s' ↔ verifyBlocks s.blocks = .ok () ∧ s = s' := by
  simp only [verify, run_bind_ok, run_get_ok, lift_run_ok]
  constructor
  · rintro ⟨_, _, ⟨rfl, rfl⟩, h⟩; exact h
  · intro h; exact ⟨s, s, ⟨rfl, rfl⟩, h⟩

theorem rebuild_ok {s s' : TestnetChain σ} {x : Unit} :
    (rebuild : ChainM σ Unit).run s = .ok x s' ↔
      ∃ u, buildUtxoSet s.blocks = .ok u ∧ s' = { s with utxos := u } := by
  simp only [rebuild, run_bind_ok, run_get_ok, lift_run_ok, setUtxos_run_ok]
  constructor
  · rintro ⟨_, _, ⟨rfl, rfl⟩, u, _, ⟨hu, rfl⟩, rfl⟩; exact ⟨u, hu, rfl⟩
  · rintro ⟨u, hu, rfl⟩; exact ⟨s, s, ⟨rfl, rfl⟩, u, s, ⟨hu, rfl⟩, rfl⟩

variable {S : ChainStore σ}

omit [Crypto] in
theorem save_ok {s s' : TestnetChain σ} {x : Unit} (h : (save S).run s = .ok x s') : Same s s' := by
  simp only [save, run_bind_ok, run_get_ok, onStorage_run_ok] at h
  obtain ⟨_, _, ⟨rfl, rfl⟩, _, -, rfl⟩ := h
  exact ⟨rfl, rfl⟩

omit [Crypto] in
theorem orRestore_run (x : ChainM σ Unit) (s : TestnetChain σ) :
    (orRestore x).run s = match x.run s with
      | .ok a s' => .ok a s'
      | .error e s' => .error e { s' with blocks := s.blocks, utxos := s.utxos } := by
  simp only [orRestore, EStateM.run_bind, EStateM.run_get]
  simp only [tryCatch, tryCatchThe, MonadExceptOf.tryCatch, EStateM.tryCatch, EStateM.run]
  cases x s <;> rfl

omit [Crypto] in
theorem orRestore_ok {x : ChainM σ Unit} {a : Unit} {s s' : TestnetChain σ} :
    (orRestore x).run s = .ok a s' ↔ x.run s = .ok a s' := by
  rw [orRestore_run]
  cases x.run s <;> simp

/-- What gives an object another chain ends so: the blocks are checked and the set is rebuilt. -/
theorem valid_of_build {s : TestnetChain σ} {u : UtxoSet} (hverify : verifyBlocks s.blocks = .ok ())
    (hu : buildUtxoSet s.blocks = .ok u) : Valid { s with utxos := u } := by
  obtain ⟨u', hc⟩ := verifyBlocks_iff.1 hverify
  have heq : u = u' := Except.ok.inj (hu.symm.trans hc.build)
  exact heq ▸ hc

theorem verify_rebuild_save {s s' : TestnetChain σ} {x : Unit}
    (h : (do verify; rebuild; save S : ChainM σ Unit).run s = .ok x s') :
    s'.Valid ∧ s'.blocks = s.blocks := by
  simp only [run_bind_ok, verify_ok, rebuild_ok] at h
  obtain ⟨_, _, ⟨hverify, rfl⟩, _, _, ⟨u, hu, rfl⟩, hsave⟩ := h
  exact ⟨(valid_of_build hverify hu).congr (save_ok hsave), (save_ok hsave).1⟩

/-! ## The operations -/

theorem migrateLegacy_ok {s s' : TestnetChain σ} {x : Unit}
    (h : (migrateLegacy S).run s = .ok x s') : s'.Valid := by
  simp only [migrateLegacy, run_bind_ok, verify_ok, rebuild_ok, run_modify_ok] at h
  obtain ⟨_, _, -, _, _, ⟨hverify, rfl⟩, _, _, ⟨u, hu, rfl⟩, _, _, rfl, hsave⟩ := h
  have hsame := save_ok hsave
  exact (valid_of_build hverify hu).congr ⟨hsame.1, hsame.2⟩

theorem load_ok {s s' : TestnetChain σ} {x : Unit} (h : (load S).run s = .ok x s') : s'.Valid := by
  simp only [load, run_bind_ok] at h
  obtain ⟨present, s₁, -, h⟩ := h
  cases present with
  | false =>
    simp only [Bool.false_eq_true, if_false, run_bind_ok] at h
    obtain ⟨_, _, -, _, _, -, h⟩ := h
    exact migrateLegacy_ok h
  | true =>
    simp only [if_true, run_bind_ok, setBlocks_run_ok, verify_ok, run_get_ok, lift_run_ok] at h
    obtain ⟨blocks, s₂, -, _, _, rfl, _, _, ⟨hverify, rfl⟩, _, _, ⟨rfl, rfl⟩, rebuilt, _,
      ⟨hu, rfl⟩, h⟩ := h
    split_ifs at h with hempty
    · simp only [run_bind_ok, setUtxos_run_ok] at h
      obtain ⟨_, _, rfl, hsave⟩ := h
      exact (valid_of_build hverify hu).congr (save_ok hsave)
    · simp only [throwIf_run_ok, not_not, utxoSetsEqual_iff] at h
      obtain ⟨heq, rfl⟩ := h
      rw [← heq] at hu
      exact valid_of_build hverify hu

theorem initializeChain_ok {s s' : TestnetChain σ} {x : Unit}
    (h : (initializeChain S).run s = .ok x s') : s'.Valid := by
  simp only [initializeChain, run_bind_ok] at h
  obtain ⟨_, _, -, _, _, -, _, _, -, present, s₁, -, h⟩ := h
  cases present with
  | true => exact load_ok h
  | false =>
    simp only [Bool.false_eq_true, if_false, run_bind_ok, run_get_ok] at h
    obtain ⟨_, _, ⟨rfl, rfl⟩, h⟩ := h
    split_ifs at h with hlegacy
    · exact migrateLegacy_ok h
    · simp only [run_bind_ok, throwIf_run_ok, lift_run_ok, setBlocks_run_ok, setUtxos_run_ok,
        verify_ok] at h
      obtain ⟨_, _, ⟨-, rfl⟩, genesis, _, ⟨-, rfl⟩, _, _, rfl, _, _, rfl, _, _, ⟨hverify, rfl⟩,
        hsave⟩ := h
      exact (valid_of_build hverify rfl).congr (save_ok hsave)

theorem considerTip_ok {byHash : ExtTreeMap Str StoredBlock} {best best' : List StoredBlock × ℤ}
    {tip : StoredBlock} (h : considerTip byHash best tip = .ok best') :
    best' = best ∨ verifyBlocks best'.1 = .ok () := by
  simp only [considerTip, except_bind_ok] at h
  obtain ⟨⟨branch, complete⟩, -, h⟩ := h
  by_cases hcomplete : complete = false
  · simp only [hcomplete, Bool.false_eq_true, not_false_eq_true, if_true] at h
    exact .inl (except_pure_ok.1 h).symm
  · simp only [hcomplete, not_true_eq_false, if_false] at h
    split at h
    · rename_i work hwork
      obtain ⟨⟨⟩, hverify, -⟩ := except_bind_ok.1 hwork
      have h := except_pure_ok.1 h
      split_ifs at h with hmore
      · exact .inr (h ▸ hverify)
      · exact .inl h.symm
    · exact .inl (except_pure_ok.1 h).symm

/-- The branch that `reindex` keeps has passed `verify_blocks`. -/
theorem bestBranch_ok {records best : List StoredBlock} (h : bestBranch records = .ok best) :
    verifyBlocks best = .ok () := by
  have hfold : ∀ (tips : List StoredBlock) (byHash : ExtTreeMap Str StoredBlock)
      (start final : List StoredBlock × ℤ), tips.foldlM (considerTip byHash) start = .ok final →
      final = start ∨ verifyBlocks final.1 = .ok () := by
    intro tips byHash
    induction tips with
    | nil => intro start final h; exact .inl (except_pure_ok.1 h).symm
    | cons tip tips ih =>
      intro start final h
      rw [List.foldlM_cons, except_bind_ok] at h
      obtain ⟨next, hnext, h⟩ := h
      rcases ih next final h with rfl | hverified
      · exact considerTip_ok hnext
      · exact .inr hverified
  simp only [bestBranch, except_bind_ok, throwIf_ok, except_pure_ok] at h
  obtain ⟨_, -, byHash, -, _, -, ⟨branch, work⟩, hbest, _, hne, rfl⟩ := h
  rcases hfold _ _ _ _ hbest with he | hverified
  · cases he; exact absurd rfl hne
  · exact hverified

theorem reindex_ok {s s' : TestnetChain σ} {x : Unit} (h : (reindex S).run s = .ok x s') :
    s'.Valid := by
  simp only [reindex, run_bind_ok, rebuild_ok, setBlocks_run_ok, lift_run_ok] at h
  obtain ⟨records, s₁, -, best, _, ⟨hbest, rfl⟩, _, _, rfl, _, _, ⟨u, hu, rfl⟩, hsave⟩ := h
  have hsame := save_ok hsave
  exact (valid_of_build (bestBranch_ok hbest) hu).congr ⟨hsame.1, hsame.2⟩

theorem appendBlocks_ok {s s' : TestnetChain σ} {incoming : List StoredBlock} {x : Unit}
    (h : (appendBlocks S incoming).run s = .ok x s') :
    (incoming = [] ∧ s' = s) ∨ s'.Valid := by
  unfold appendBlocks at h
  split_ifs at h with hnil
  · exact .inl ⟨hnil, (run_pure_ok.1 h).2.symm⟩
  · simp only [run_bind_ok, orRestore_ok] at h
    obtain ⟨_, _, -, _, s₁, -, h⟩ := h
    have h : (do verify; rebuild; save S : ChainM σ Unit).run s₁ = .ok x s' := by
      simpa only [run_bind_ok] using h
    exact .inr (verify_rebuild_save h).1

/-- **The loop of `generate` keeps its set equal to the one that `build_utxo_set` computes.** -/
theorem generateFrom_ok {clock : ℕ → Int64} {script : Bytes} {pending : List Transaction}
    {count generated : ℕ} {current u : UtxoSet} {s s' : TestnetChain σ} (hne : s.blocks ≠ [])
    (hbuild : buildUtxoSet s.blocks = .ok current)
    (h : (generateFrom clock script pending count generated current).run s = .ok u s') :
    buildUtxoSet s'.blocks = .ok u := by
  induction count generalizing generated current s with
  | zero =>
    obtain ⟨rfl, rfl⟩ := run_pure_ok.1 h
    exact hbuild
  | succ count ih =>
    simp only [generateFrom, run_bind_ok, run_get_ok, lift_run_ok, setBlocks_run_ok, orThrow_ok] at h
    obtain ⟨_, _, ⟨rfl, rfl⟩, previous, _, ⟨-, rfl⟩, ⟨fees, u₁⟩, _, ⟨happly, rfl⟩, hash, _,
      ⟨-, rfl⟩, block, _, ⟨hmine, rfl⟩, coinbase, _, ⟨hfront, rfl⟩, ⟨_, u₂⟩, _, ⟨hadd, rfl⟩, _, _,
      rfl, h⟩ := h
    obtain ⟨coinbase', hcons, hcb⟩ := mineTestnetBlock_ok hmine
    obtain rfl : coinbase' = coinbase := by simpa [hcons] using hfront
    have hblock : (buildBlock ⟨previous.height + 1, block⟩).run current = .ok () u₂ := by
      simp only [buildBlock, hcons, run_bind_ok, throwIf_run_ok]
      exact ⟨(), current, ⟨by simp [hcb], rfl⟩, (), u₁, (applyTransactions_ok (onCopy_ok.1 happly)).2,
        onCopy_ok.1 hadd⟩
    exact ih (by simp) (buildUtxoSet_snoc hne hbuild hblock) h

theorem initializeIfEmpty_cases {s s' : TestnetChain σ} {x : Unit}
    (h : (initializeIfEmpty S).run s = .ok x s') : s'.Valid ∨ s.blocks ≠ [] ∧ s' = s := by
  simp only [initializeIfEmpty, run_bind_ok, run_get_ok] at h
  obtain ⟨_, _, ⟨rfl, rfl⟩, h⟩ := h
  split_ifs at h with hnil
  · exact .inl (initializeChain_ok h)
  · exact .inr ⟨hnil, (run_pure_ok.1 h).2.symm⟩

theorem generate_ok {clock : ℕ → Int64} {count : UInt64} {script : Bytes}
    {pending : List Transaction} {s s' : TestnetChain σ} {x : Unit}
    (hs : s.blocks ≠ [] → s.Valid)
    (h : (generate S clock count script pending).run s = .ok x s') : s'.Valid := by
  simp only [generate, run_bind_ok, run_get_ok, verify_ok, setUtxos_run_ok] at h
  obtain ⟨_, s₁, hinit, _, _, ⟨rfl, rfl⟩, current, s₂, hloop, _, _, ⟨hverify, rfl⟩, _, _, rfl,
    hsave⟩ := h
  have hvalid : s₁.Valid := by
    rcases initializeIfEmpty_cases hinit with hv | ⟨hne, rfl⟩
    · exact hv
    · exact hs hne
  have hbuild := generateFrom_ok hvalid.ne_nil (Chain.build hvalid) hloop
  have hsame := save_ok hsave
  exact (valid_of_build hverify hbuild).congr ⟨hsame.1, hsame.2⟩

end TestnetChain

end BinaryCoin
