/-
  BinaryCoin — every point at which a command may crash.

  A command commits at most one chain (`Command.Commits`).  The files that it
  leaves before its commit and after its mempool has been replaced are good
  ones, so a crash does harm exactly where the old mempool does not survive on
  the new chain.
-/
import BinaryCoin.Crash

namespace BinaryCoin

open Cursor Std Text

section
variable [Crypto]

namespace Node

variable {n n' : Node (Option (List StoredBlock × UtxoSet))} {blocks : List StoredBlock}
  {u : UtxoSet} {ts : List Transaction}

/-! ## The chain that a command commits -/

/-- What `block` asks of a block that it appends. -/
structure Extends (stored : StoredBlock) (blocks : List StoredBlock) : Prop where
  hash : ∃ hash, stored.hashHex = .ok hash ∧ findBlock hash blocks = .ok none
  tip : ∃ tip tipHash, blocks.getLast? = some tip ∧ tip.hashHex = .ok tipHash ∧
    stored.height = tip.height + 1 ∧ stored.block.header.previousHash = tipHash

/-- A command commits a chain with its unspent outputs. -/
inductive Command.Commits (n : Node (Option (List StoredBlock × UtxoSet))) :
    Command → List StoredBlock → UtxoSet → Prop
  | generate {clock : ℕ → Int64} {count : Int64} {script : Bytes} {x : Unit}
      {s' : TestnetChain (Option (List StoredBlock × UtxoSet))}
      (hcount : ¬ (count ≤ 0 ∨ count > 100000))
      (hrun : (TestnetChain.generate .memory clock count.toUInt64 script
        n.mempool.transactions).run n.chain = .ok x s') :
      Commits n (.generate clock count script) s'.blocks s'.utxos
  | block {stored : StoredBlock} {v : UtxoSet} (hextends : Extends stored n.chain.blocks)
      (hchain : Chain (n.chain.blocks ++ [stored]) v) :
      Commits n (.block stored) (n.chain.blocks ++ [stored]) v
  | reorganize {candidate : List StoredBlock} {v : UtxoSet}
      (hlen : n.chain.blocks.length < candidate.length) (hchain : Chain candidate v) :
      Commits n (.reorganize candidate) candidate v

theorem Command.Commits.unique {command : Command} {blocks blocks' : List StoredBlock}
    {v v' : UtxoSet} (h : command.Commits n blocks v) (h' : command.Commits n blocks' v') :
    blocks' = blocks ∧ v' = v := by
  cases h with
  | generate _ hrun =>
    cases h' with
    | generate _ hrun' =>
      cases hrun.symm.trans hrun'
      exact ⟨rfl, rfl⟩
  | block _ hchain =>
    cases h' with
    | block _ hchain' => exact ⟨rfl, hchain'.unique hchain⟩
  | reorganize _ hchain =>
    cases h' with
    | reorganize _ hchain' => exact ⟨rfl, hchain'.unique hchain⟩

/-- What a command does before the mempool is settled. -/
inductive Changes (n : Node (Option (List StoredBlock × UtxoSet))) (command : Command) : Prop
  | commits (again : List Transaction) (chain : TestnetChain (Option (List StoredBlock × UtxoSet)))
      (hrun : (command.change .memory).run n = .ok (some again) { n with chain := chain })
      (hcommitted : chain.Committed) (h : command.Commits n chain.blocks chain.utxos)
  | keeps (result : Option (List Transaction))
      (hrun : (command.change .memory).run n = .ok result n)
      (h : ∀ blocks v, ¬ command.Commits n blocks v)
  | throws (e : Exn) (chain : TestnetChain (Option (List StoredBlock × UtxoSet)))
      (hrun : (command.change .memory).run n = .error e { n with chain := chain })
      (hstorage : chain.storage = n.chain.storage) (h : ∀ blocks v, ¬ command.Commits n blocks v)

omit [Crypto] in
theorem toUInt64_pos {count : Int64} (h : ¬ (count ≤ 0 ∨ count > 100000)) :
    0 < count.toUInt64.toNat := by
  refine Nat.pos_of_ne_zero fun hzero => h (.inl ?_)
  obtain ⟨u⟩ := count
  obtain rfl : u = 0 := UInt64.toNat_inj.1 hzero
  decide

theorem changes_generate (hn : n.chain.Committed) (clock : ℕ → Int64) (count : Int64)
    (script : Bytes) : Changes n (.generate clock count script) := by
  by_cases hcount : count ≤ 0 ∨ count > 100000
  · refine .throws (runtimeError "Block count out of range") n.chain
      (run_bind_error.2 (.inl ?_)) rfl ?_
    · rw [throwIf, if_pos hcount]
      rfl
    · intro blocks v h
      cases h with
      | generate hcount' => exact hcount' hcount
  have hpos := toUInt64_pos hcount
  cases hrun : (TestnetChain.generate .memory clock count.toUInt64 script
      n.mempool.transactions).run n.chain with
  | ok x s' =>
    refine .commits [] s' ?_ (TestnetChain.generate_memory hn.valid hpos hrun).1
      (.generate hcount hrun)
    exact run_bind_ok.2 ⟨(), n, throwIf_run_ok.2 ⟨hcount, rfl⟩, run_bind_ok.2 ⟨n, n, rfl,
      run_bind_ok.2 ⟨x, _, onChain_run_ok.2 ⟨s', hrun, rfl⟩, rfl⟩⟩⟩
  | error e s' =>
    refine .throws e s' ?_ (TestnetChain.generate_memory_error hn.valid hrun) ?_
    · exact run_bind_error.2 (.inr ⟨(), n, throwIf_run_ok.2 ⟨hcount, rfl⟩, run_bind_error.2
        (.inr ⟨n, n, rfl, run_bind_error.2 (.inl (onChain_run_error.2 ⟨s', hrun, rfl⟩))⟩)⟩)
    · intro blocks v h
      cases h with
      | generate _ hrun' => cases hrun.symm.trans hrun'

theorem changes_reorganize (hn : n.chain.Committed) (candidate : List StoredBlock) :
    Changes n (.reorganize candidate) := by
  cases hrun : (TestnetChain.activateIfMoreWork .memory candidate).run n.chain with
  | ok r s' =>
    have hchange : (Command.change .memory (.reorganize candidate)).run n =
        .ok (some r.disconnectedTransactions) { n with chain := s' } :=
      run_bind_ok.2 ⟨r, _, onChain_run_ok.2 ⟨s', hrun, rfl⟩, rfl⟩
    obtain ⟨hlen, hcommitted, hblocks⟩ | ⟨hlen, rfl⟩ :=
      TestnetChain.activateIfMoreWork_memory hn.valid hrun
    · have hvalid : Chain candidate s'.utxos := hblocks ▸ hcommitted.valid
      refine .commits _ _ hchange hcommitted ?_
      rw [hblocks]
      exact .reorganize hlen hvalid
    · refine .keeps _ hchange ?_
      intro blocks v h
      cases h with
      | reorganize hlen' => omega
  | error e s' =>
    obtain rfl := TestnetChain.activateIfMoreWork_memory_error hn.valid hrun
    refine .throws e n.chain (run_bind_error.2 (.inl (onChain_run_error.2 ⟨_, hrun, rfl⟩))) rfl ?_
    intro blocks v h
    cases h with
    | reorganize _ hchain =>
      obtain ⟨r', s₁, hrun', -⟩ :=
        TestnetChain.activateIfMoreWork_run TestnetChain.memory_commits hn.valid hchain
      cases hrun.symm.trans hrun'

/-- The handler of a block whose hash is not in the chain. -/
theorem change_block_new {stored tip : StoredBlock} {hash tipHash : Str}
    (hhash : stored.hashHex = .ok hash) (hfind : findBlock hash n.chain.blocks = .ok none)
    (htip : n.chain.blocks.getLast? = some tip) (htipHash : tip.hashHex = .ok tipHash) :
    (Command.change .memory (.block stored)).run n =
      (if stored.height = tip.height + 1 ∧ stored.block.header.previousHash = tipHash then do
        onChain (TestnetChain.appendBlocks .memory [stored])
        return some []
      else return none : NodeM _ (Option (List Transaction))).run n := by
  have htip' : n.chain.tip = .ok tip := tip_ok.2 htip
  rw [Command.change, run_bind_of_ok (show (get : NodeM _ _).run n = .ok n n from rfl),
    run_bind_of_ok (lift_run_ok.2 ⟨hhash, rfl⟩), run_bind_of_ok (lift_run_ok.2 ⟨hfind, rfl⟩)]
  dsimp only
  rw [run_bind_of_ok (lift_run_ok.2 ⟨htip', rfl⟩), run_bind_of_ok (lift_run_ok.2 ⟨htipHash, rfl⟩)]

theorem changes_block (hn : n.chain.Committed) (stored : StoredBlock) :
    Changes n (.block stored) := by
  have hne := hn.valid.ne_nil
  have htip := List.getLast?_eq_some_getLast hne
  cases hhash : stored.hashHex with
  | error e =>
    refine .throws e n.chain ?_ rfl ?_
    · refine run_bind_error.2 (.inr ⟨n, n, rfl, run_bind_error.2 (.inl ?_)⟩)
      rw [hhash]
      rfl
    · intro blocks v h
      cases h with
      | block hextends =>
        obtain ⟨hash, hhash', -⟩ := hextends.hash
        cases hhash.symm.trans hhash'
  | ok hash =>
    cases hfind : findBlock hash n.chain.blocks with
    | error e =>
      refine .throws e n.chain ?_ rfl ?_
      · refine run_bind_error.2 (.inr ⟨n, n, rfl, run_bind_error.2 (.inr ⟨hash, n,
          lift_run_ok.2 ⟨hhash, rfl⟩, run_bind_error.2 (.inl ?_)⟩)⟩)
        rw [hfind]
        rfl
      · intro blocks v h
        cases h with
        | block hextends =>
          obtain ⟨_, hhash', hnew⟩ := hextends.hash
          cases hhash.symm.trans hhash'
          cases hfind.symm.trans hnew
    | ok found =>
      cases found with
      | some known =>
        refine .keeps none ?_ ?_
        · exact run_bind_ok.2 ⟨n, n, rfl, run_bind_ok.2 ⟨hash, n, lift_run_ok.2 ⟨hhash, rfl⟩,
            run_bind_ok.2 ⟨_, n, lift_run_ok.2 ⟨hfind, rfl⟩, rfl⟩⟩⟩
        · intro blocks v h
          cases h with
          | block hextends =>
            obtain ⟨_, hhash', hnew⟩ := hextends.hash
            cases hhash.symm.trans hhash'
            cases hfind.symm.trans hnew
      | none =>
        have htipHash := (hn.valid.stored_canonical _ (List.getLast_mem hne)).hashHex
        have hchange := change_block_new hhash hfind htip htipHash
        split_ifs at hchange with hif
        · cases hrun : (TestnetChain.appendBlocks .memory [stored]).run n.chain with
          | ok x s' =>
            obtain ⟨hcommitted, hblocks⟩ :=
              TestnetChain.appendBlocks_memory hn.valid (List.cons_ne_nil _ _) hrun
            have hvalid : Chain (n.chain.blocks ++ [stored]) s'.utxos := hblocks ▸ hcommitted.valid
            refine .commits [] s' (hchange.trans ?_) hcommitted ?_
            · exact run_bind_ok.2 ⟨x, _, onChain_run_ok.2 ⟨s', hrun, rfl⟩, rfl⟩
            · rw [hblocks]
              exact .block ⟨⟨hash, hhash, hfind⟩, _, _, htip, htipHash, hif⟩ hvalid
          | error e s' =>
            refine .throws e s' (hchange.trans ?_)
              (TestnetChain.appendBlocks_memory_error hn.valid hrun) ?_
            · exact run_bind_error.2 (.inl (onChain_run_error.2 ⟨s', hrun, rfl⟩))
            · intro blocks v h
              cases h with
              | block _ hchain =>
                obtain ⟨_, -, hrun'⟩ := TestnetChain.appendBlocks_run TestnetChain.memory_commits hne
                  (List.cons_ne_nil stored []) hchain
                cases hrun.symm.trans hrun'
        · refine .keeps none hchange ?_
          intro blocks v h
          cases h with
          | block hextends =>
            obtain ⟨tip', tipHash', htip', htipHash', hif'⟩ := hextends.tip
            cases htip.symm.trans htip'
            cases htipHash.symm.trans htipHash'
            exact hif hif'

theorem changes (hn : n.chain.Committed) (command : Command) : Changes n command := by
  cases command with
  | generate clock count script => exact changes_generate hn clock count script
  | block stored => exact changes_block hn stored
  | reorganize candidate => exact changes_reorganize hn candidate

/-! ## What is left behind -/

/-- The objects and files as a run leaves them. -/
def after {σ α : Type} : EStateM.Result Exn (Node σ) α → Node σ
  | .ok _ n => n
  | .error _ n => n

/-- The files hold the chain and the mempool of the objects, which fit. -/
structure Written (n : Node (Option (List StoredBlock × UtxoSet))) : Prop where
  chain : n.chain.Committed
  mempool : MempoolOk (UInt64.ofNat n.chain.blocks.length) n.chain.utxos n.mempool.transactions
  saved : Saved n.mempool

theorem Written.restarts (h : n.Written) : Restarts .memory n := by
  obtain ⟨fees, u', happlies⟩ := h.mempool.applies
  have hcanonical := happlies.canonical h.chain.valid.utxos_canonical
  have hstored : n.Stored n.chain.blocks n.chain.utxos n.mempool.transactions := by
    refine ⟨h.chain.storage, h.chain.valid, ?_⟩
    rw [h.saved]
    exact mempool_load_text (fun t ht => ⟨h.mempool.wellFormed t ht, hcanonical t ht⟩) []
  exact hstored.restarts_iff.2 ⟨fees, u', happlies⟩

/-- The mempool is replaced by one that fits. -/
theorem settle_run (command : Command) (hn : n.chain.Committed)
    (hwf : ∀ t ∈ n.mempool.transactions, t.Structure)
    (hnodup : (n.mempool.transactions.map Transaction.id).Nodup) :
    ∃ m, command.settle.run n = .ok () { n with mempool := m } ∧ Written { n with mempool := m } := by
  have hrevalidate : ∃ m, revalidate.run n = .ok () { n with mempool := m } ∧
      Written { n with mempool := m } := by
    obtain ⟨retained, -, hrun, hok, -⟩ := revalidate_run hn.valid (spendHeight_eq hn.valid) hwf
      (hnodup.sublist (List.filter_sublist.map _))
    exact ⟨_, hrun, hn, hok, rfl⟩
  cases command with
  | generate clock count script =>
    have hclear : TestnetMempool.clear.run n.mempool =
        .ok () ⟨[], some (TestnetMempool.text [])⟩ :=
      TestnetMempool.setTransactions_save_ok.2 ⟨by simp, rfl⟩
    exact ⟨_, onMempool_run_ok.2 ⟨_, hclear, rfl⟩, hn, mempoolOk_nil, rfl⟩
  | block stored => exact hrevalidate
  | reorganize candidate => exact hrevalidate

theorem Written.addEach (h : n.Written) (ts : List Transaction) :
    ∃ n', (Node.addEach ts).run n = .ok () n' ∧ n'.Written := by
  obtain ⟨m, hrun, hok, hsaved, -⟩ := addEach_run (spendHeight_eq h.chain.valid) h.mempool ts
  exact ⟨_, hrun, h.chain, hok, hsaved h.saved⟩

/-- The objects that were opened hold what is stored. -/
theorem Stored.committed (h : n.Stored blocks u ts) : (n.opened blocks u ts).chain.Committed :=
  ⟨h.chain, h.storage⟩

/-- What is stored depends on the files alone. -/
theorem Stored.congr (h : n.Stored blocks u ts) (hstorage : n'.chain.storage = n.chain.storage)
    (hfile : n'.mempool.file = n.mempool.file) : n'.Stored blocks u ts := by
  refine ⟨hstorage.trans h.storage, h.chain, ?_⟩
  rw [hfile]
  exact h.file

/-! ## Each point -/

section
variable {command : Command} (hstored : n.Stored blocks u ts)
include hstored

theorem after_changed_run {result : Option (List Transaction)}
    (hrun : (command.change .memory).run (n.opened blocks u ts) = .ok result n') :
    after ((command.upTo .memory .changed).run n.reopened) = n' := by
  rw [Command.upTo, run_bind_of_ok hstored.openStored_run, run_bind_of_ok hrun]
  rfl

/-- A command that throws leaves nothing but what it has stored. -/
theorem after_throws {e : Exn} (p : Point) (hp : p ≠ .started)
    (hrun : (command.change .memory).run (n.opened blocks u ts) = .error e n') :
    after ((command.upTo .memory p).run n.reopened) = n' := by
  cases p with
  | started => exact absurd rfl hp
  | changed | settled | added _ =>
    rw [Command.upTo, run_bind_of_ok hstored.openStored_run, EStateM.run_bind, hrun]
    rfl

/-- A command that stops leaves nothing else. -/
theorem after_stops (p : Point) (hp : p ≠ .started)
    (hrun : (command.change .memory).run (n.opened blocks u ts) = .ok none n') :
    after ((command.upTo .memory p).run n.reopened) = n' := by
  cases p with
  | started => exact absurd rfl hp
  | changed => exact after_changed_run hstored hrun
  | settled | added _ =>
    rw [Command.upTo, run_bind_of_ok hstored.openStored_run, run_bind_of_ok hrun]
    rfl

/-- A command that goes on leaves the chain that it has changed, with a mempool that fits. -/
theorem after_settled {again : List Transaction} (p : Point) (hstarted : p ≠ .started)
    (hchanged : p ≠ .changed) (hn : n'.chain.Committed) (hmempool : n'.mempool.transactions = ts)
    (hwf : ∀ t ∈ ts, t.Structure) (hnodup : (ts.map Transaction.id).Nodup)
    (hrun : (command.change .memory).run (n.opened blocks u ts) = .ok (some again) n') :
    Written (after ((command.upTo .memory p).run n.reopened)) := by
  obtain ⟨m, hsettle, hwritten⟩ := settle_run command hn (hmempool ▸ hwf) (hmempool ▸ hnodup)
  cases p with
  | started => exact absurd rfl hstarted
  | changed => exact absurd rfl hchanged
  | settled =>
    rw [Command.upTo, run_bind_of_ok hstored.openStored_run, run_bind_of_ok hrun]
    dsimp only
    rw [hsettle]
    exact hwritten
  | added count =>
    obtain ⟨n₂, hadd, hwritten₂⟩ := hwritten.addEach (again.take count)
    rw [Command.upTo, run_bind_of_ok hstored.openStored_run, run_bind_of_ok hrun]
    dsimp only
    rw [run_bind_of_ok hsettle, hadd]
    exact hwritten₂

end

/-! ## Which crashes do harm -/

/-- A restart after a commit, with the old mempool file, needs a mempool that survives. -/
theorem Stored.survives {fees : ℤ} {u' : UtxoSet} {blocks' : List StoredBlock} {v : UtxoSet}
    (hchanged : n'.Stored blocks' v ts) (happlies : Applies (UInt64.ofNat blocks.length) u ts fees u')
    (hrestarts : Restarts .memory n') : Survives ts u v (UInt64.ofNat blocks'.length) := by
  obtain ⟨fees', v', happlies'⟩ := hchanged.restarts_iff.1 hrestarts
  exact .of_applies happlies happlies'

/-- The files of a command that has committed a chain and not yet replaced the mempool. -/
theorem Stored.changed {again : List Transaction} {command : Command}
    {chain : TestnetChain (Option (List StoredBlock × UtxoSet))} (hstored : n.Stored blocks u ts)
    (hcommitted : chain.Committed) (hrun : (command.change .memory).run (n.opened blocks u ts) =
      .ok (some again) { n.opened blocks u ts with chain := chain }) :
    (after ((command.upTo .memory .changed).run n.reopened)).Stored chain.blocks chain.utxos ts := by
  rw [after_changed_run hstored hrun]
  exact ⟨hcommitted.storage, hcommitted.valid, hstored.file⟩

/-- **Every crash is harmless exactly when the mempool survives the commit.** -/
theorem restarts_iff_survives (hstored : n.Stored blocks u ts)
    (hok : MempoolOk (UInt64.ofNat blocks.length) u ts) (command : Command)
    (hinj : ∀ blocks' v, command.Commits (n.opened blocks u ts) blocks' v →
      NoCollision (allTransactions blocks ++ allTransactions blocks')) :
    (∀ p, Restarts .memory (after ((command.upTo .memory p).run n.reopened))) ↔
      ∀ blocks' v, command.Commits (n.opened blocks u ts) blocks' v →
        Survives ts u v (UInt64.ofNat blocks'.length) := by
  have hwf := hok.wellFormed
  obtain ⟨⟨fees, u', happlies⟩, hnodup⟩ := id hok
  -- the files of before
  have hsame : ∀ n' : Node (Option (List StoredBlock × UtxoSet)),
      n'.chain.storage = n.chain.storage → n'.mempool.file = n.mempool.file →
      Restarts .memory n' := fun n' hstorage hfile =>
    (hstored.congr hstorage hfile).restarts_iff.2 ⟨fees, u', happlies⟩
  have hstarted : Restarts .memory (after ((command.upTo .memory .started).run n.reopened)) := by
    rw [Command.upTo, hstored.openStored_run]
    exact hsame _ rfl rfl
  cases changes hstored.committed command with
  | commits again chain hrun hcommitted h =>
    have hchanged := hstored.changed hcommitted hrun
    constructor
    · intro hall blocks' v hcommits
      obtain ⟨rfl, rfl⟩ := h.unique hcommits
      exact hchanged.survives happlies (hall .changed)
    · intro hsurvives p
      have houtputs := hstored.chain.sameOutputs hcommitted.valid (hinj _ _ h)
      by_cases hp : p = .started
      · exact hp ▸ hstarted
      by_cases hp' : p = .changed
      · rw [hp']
        exact hchanged.restarts_iff.2 ((survives_iff happlies houtputs).2 (hsurvives _ _ h))
      · exact (after_settled hstored p hp hp' hcommitted rfl hwf hnodup hrun).restarts
  | keeps result hrun h =>
    refine iff_of_true (fun p => ?_) fun blocks' v hcommits => absurd hcommits (h blocks' v)
    by_cases hp : p = .started
    · exact hp ▸ hstarted
    by_cases hp' : p = .changed
    · rw [hp', after_changed_run hstored hrun]
      exact hsame _ rfl rfl
    cases result with
    | none =>
      rw [after_stops hstored p hp hrun]
      exact hsame _ rfl rfl
    | some again =>
      exact (after_settled hstored p hp hp' hstored.committed rfl hwf hnodup hrun).restarts
  | throws e chain hrun hstorage h =>
    refine iff_of_true (fun p => ?_) fun blocks' v hcommits => absurd hcommits (h blocks' v)
    by_cases hp : p = .started
    · exact hp ▸ hstarted
    · rw [after_throws hstored p hp hrun]
      exact hsame _ hstorage rfl

/-- `generate` mines the whole mempool, so that only an empty one survives. -/
theorem generate_survives_iff {clock : ℕ → Int64} {count : Int64} {script : Bytes}
    {blocks' : List StoredBlock} {v : UtxoSet} (hstored : n.Stored blocks u ts)
    (hok : MempoolOk (UInt64.ofNat blocks.length) u ts)
    (h : (Command.generate clock count script).Commits (n.opened blocks u ts) blocks' v)
    (hinj : NoCollision (allTransactions blocks ++ allTransactions blocks')) :
    Survives ts u v (UInt64.ofNat blocks'.length) ↔ ts = [] := by
  obtain ⟨⟨fees, u', happlies⟩, -⟩ := id hok
  cases h with
  | @generate _ _ _ _ s' hcount hrun =>
    obtain ⟨hcommitted, bs, height, cs, hblocks, hconn, hcs⟩ :=
      TestnetChain.generate_memory hstored.committed.valid (toUInt64_pos hcount) hrun
    constructor
    · intro hsurvives
      obtain ⟨v', happlies'⟩ := hsurvives.applies happlies
        (hstored.chain.sameOutputs hcommitted.valid hinj)
      have hvalid : Chain (blocks ++ bs) s'.utxos := hblocks ▸ hcommitted.valid
      refine Applies.eq_nil_of_confirmed hstored.chain.ne_nil hvalid hconn hcs
        (hinj.mono ?_) happlies'
      rw [hblocks]
      exact List.subset_append_right _ _
    · rintro rfl
      refine ⟨fun o ho => ?_, fun o ho => by cases ho⟩
      rcases ho with ho | ⟨t, ht, -⟩
      · cases ho
      · cases ht

/-- When a command may crash anywhere: it commits no chain, or one on which the mempool `ts`, which
    applies to `u`, survives. -/
def Command.Safe (n : Node (Option (List StoredBlock × UtxoSet))) (u : UtxoSet)
    (ts : List Transaction) : Command → Prop
  | .generate clock count script =>
    ts = [] ∨ ∀ blocks v, ¬ (Command.generate clock count script).Commits n blocks v
  | .block stored => Extends stored n.chain.blocks → ∀ v, Chain (n.chain.blocks ++ [stored]) v →
    Survives ts u v (UInt64.ofNat (n.chain.blocks.length + 1))
  | .reorganize candidate => n.chain.blocks.length < candidate.length → ∀ v, Chain candidate v →
    Survives ts u v (UInt64.ofNat candidate.length)

/-- **Crash consistency of chain and mempool**: a new process comes up after a crash at every point
    of a command exactly when the command is safe. -/
theorem crash_consistent_iff (hstored : n.Stored blocks u ts)
    (hok : MempoolOk (UInt64.ofNat blocks.length) u ts) (command : Command)
    (hinj : ∀ blocks' v, command.Commits (n.opened blocks u ts) blocks' v →
      NoCollision (allTransactions blocks ++ allTransactions blocks')) :
    (∀ p, Restarts .memory (after ((command.upTo .memory p).run n.reopened))) ↔
      command.Safe (n.opened blocks u ts) u ts := by
  refine (restarts_iff_survives hstored hok command hinj).trans ?_
  cases command with
  | generate clock count script =>
    constructor
    · intro h
      by_cases hcommits : ∃ blocks' v,
          (Command.generate clock count script).Commits (n.opened blocks u ts) blocks' v
      · obtain ⟨blocks', v, hc⟩ := hcommits
        exact .inl ((generate_survives_iff hstored hok hc (hinj _ _ hc)).1 (h _ _ hc))
      · exact .inr fun blocks' v hc => hcommits ⟨blocks', v, hc⟩
    · rintro (hnil | hnone) blocks' v hc
      · exact (generate_survives_iff hstored hok hc (hinj _ _ hc)).2 hnil
      · exact absurd hc (hnone blocks' v)
  | block stored =>
    constructor
    · intro h hextends v hchain
      have hsurvives := h _ v (.block hextends hchain)
      rwa [List.length_append, List.length_singleton] at hsurvives
    · intro h blocks' v hc
      cases hc with
      | block hextends hchain =>
        rw [List.length_append, List.length_singleton]
        exact h hextends v hchain
  | reorganize candidate =>
    constructor
    · intro h hlen v hchain
      exact h _ v (.reorganize hlen hchain)
    · intro h blocks' v hc
      cases hc with
      | reorganize hlen hchain => exact h hlen v hchain

end Node

end

attribute [local instance] sampleCrypto

/-- A node with the sample chain of 100 blocks and `firstSpend` in its mempool. -/
theorem sampleNode_stored {u u' : UtxoSet} (hends : (sampleTip 100).Ends (sampleChain 100) u)
    (happlies : Applies 101 u [firstSpend] 0 u') :
    (sampleNode (sampleChain 100) u [firstSpend]).Stored (sampleChain 100) u [firstSpend] ∧
    MempoolOk (UInt64.ofNat (sampleChain 100).length) u [firstSpend] := by
  have hcanonical := happlies.canonical hends.chain.utxos_canonical
  refine ⟨⟨rfl, hends.chain, mempool_load_text
    (fun t ht => ⟨happlies.wellFormed t ht, hcanonical t ht⟩) []⟩, ?_⟩
  rw [spendFacts.length.1]
  exact ⟨⟨0, u', happlies⟩, List.nodup_singleton _⟩

/-- On the longer sample chain `firstSpend` survives, so that every crash of the reorganization is
    harmless. -/
theorem crash_consistent_spend : ∃ (n : Node (Option (List StoredBlock × UtxoSet))) (u : UtxoSet),
    n.Stored (sampleChain 100) u [firstSpend] ∧
    (Node.Command.reorganize (sampleChain 102)).Safe
      (n.opened (sampleChain 100) u [firstSpend]) u [firstSpend] ∧
    ∀ p, Node.Restarts .memory (Node.after (((Node.Command.reorganize
      (sampleChain 102)).upTo .memory p).run n.reopened)) := by
  obtain ⟨u, hends, hcoin⟩ := sampleChain_ends 99
  obtain ⟨v, hends', hcoin'⟩ := sampleChain_ends 101
  obtain ⟨-, u', happlies, -⟩ :=
    firstSpend_applies hends hcoin spendFacts.seen_100.1 spendFacts.first_ok.1
  obtain ⟨-, v', happlies', -⟩ :=
    firstSpend_applies hends' hcoin' spendFacts.seen_102.1 spendFacts.first_ok.2
  obtain ⟨hstored, hok⟩ := sampleNode_stored hends happlies
  have hsafe : (Node.Command.reorganize (sampleChain 102)).Safe
      ((sampleNode (sampleChain 100) u [firstSpend]).opened (sampleChain 100) u [firstSpend]) u
      [firstSpend] := by
    intro _ w hchain
    obtain rfl := hchain.unique hends'.chain
    rw [spendFacts.length.2]
    exact .of_applies happlies happlies'
  refine ⟨_, u, hstored, hsafe, (Node.crash_consistent_iff hstored hok _ fun blocks' w h => ?_).2 hsafe⟩
  cases h with
  | reorganize =>
    refine (sampleChain_noCollision 102).mono fun t ht => ?_
    rcases List.mem_append.1 ht with ht | ht
    · rw [sampleChain_add 100 2, allTransactions, List.flatMap_append]
      exact List.mem_append_left _ ht
    · exact ht

/-- The candidate confirms the mempool's transaction; a crash after its commit leaves the
    transaction in the mempool file. -/
theorem crash_not_consistent : ∃ (n : Node (Option (List StoredBlock × UtxoSet))) (u : UtxoSet),
    n.Stored (sampleChain 100) u [firstSpend] ∧
    MempoolOk (UInt64.ofNat (sampleChain 100).length) u [firstSpend] ∧
    ¬ Node.Restarts .memory (Node.after (((Node.Command.reorganize
      (sampleChain 100 ++ [spendingBlock])).upTo .memory .changed).run n.reopened)) := by
  obtain ⟨u, hends, hcoin⟩ := sampleChain_ends 99
  obtain ⟨v, hchain, hspent⟩ := spendingBlock_chain
  obtain ⟨hfirst, u', happlies, -⟩ :=
    firstSpend_applies hends hcoin spendFacts.seen_100.1 spendFacts.first_ok.1
  obtain ⟨hstored, hok⟩ := sampleNode_stored hends happlies
  have hcommits : (Node.Command.reorganize (sampleChain 100 ++ [spendingBlock])).Commits
      ((sampleNode (sampleChain 100) u [firstSpend]).opened (sampleChain 100) u [firstSpend])
      (sampleChain 100 ++ [spendingBlock]) v := by
    refine .reorganize ?_ hchain
    rw [List.length_append]
    exact Nat.lt_succ_self _
  refine ⟨_, u, hstored, hok, fun hrestarts => ?_⟩
  cases Node.changes hstored.committed (.reorganize (sampleChain 100 ++ [spendingBlock])) with
  | commits again chain hrun hcommitted h =>
    obtain ⟨-, hutxos⟩ := hcommits.unique h
    have happlies : Applies (UInt64.ofNat (sampleChain 100).length) u [firstSpend] 0 u' := by
      rw [spendFacts.length.1]
      exact happlies
    have hsurvives := (hstored.changed hcommitted hrun).survives happlies hrestarts
    have hcreates : firstSpend.Creates spentOutput := ⟨firstSpend_id.symm, 0, by decide, rfl⟩
    have hin : spentOutput ∈ chain.utxos := mem_iff_some.2 ⟨_, hutxos ▸ hspent⟩
    have hold := (hsurvives.present _ (.inr ⟨_, List.mem_singleton.2 rfl, hcreates⟩)).1 hin
    exact hfirst (firstSpend_id ▸ hends.chain.mem_utxos hold)
  | keeps _ _ h => exact h _ _ hcommits
  | throws _ _ _ _ h => exact h _ _ hcommits

end BinaryCoin
