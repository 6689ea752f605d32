/-
  BinaryCoin — net.cpp: `sync_from_peer` with any peer.

  A peer may answer what it likes, and may stop at any message.  Whatever it
  does, the call leaves an accepted chain that is stored, with the work of the
  old one at least, and a block under the header hash of every one that the node
  had; which of two bodies under one header hash is not said.
-/
import BinaryCoin.Crash
import BinaryCoin.NodeNetwork

namespace BinaryCoin

open Cursor Std Stateful SideBranchStore

/-- What a store holds: a chain and its unspent outputs. -/
abbrev ChainFile := Option (List StoredBlock × UtxoSet)

/-- `x` keeps `I` of the data directory, whether it returns or throws. -/
def Secures {π α : Type} (I : DataDirectory ChainFile → Prop) (x : PeerSyncM ChainFile π α) :
    Prop :=
  ∀ s, I s.directory → Ends (fun s' => I s'.directory) x s

/-! ## Rules -/

section
variable {π α β : Type} {I : DataDirectory ChainFile → Prop}

theorem secures_pure (a : α) : Secures I (pure a : PeerSyncM ChainFile π α) := fun _ h => h

theorem secures_throw (e : Exn) : Secures I (throw e : PeerSyncM ChainFile π α) := fun _ h => h

theorem secures_get : Secures I (get : PeerSyncM ChainFile π (PeerSync ChainFile π)) := fun _ h => h

theorem secures_lift (x : Except Exn α) : Secures I (liftM x : PeerSyncM ChainFile π α) := by
  intro s h
  cases x with
  | ok a => exact h
  | error e => exact h

theorem secures_throwIf {c : Prop} [Decidable c] (e : Exn) :
    Secures I (throwIf c e : PeerSyncM ChainFile π Unit) := by
  rw [throwIf]
  split_ifs
  · exact secures_throw e
  · exact secures_pure ()

theorem Secures.bind {x : PeerSyncM ChainFile π α} {f : α → PeerSyncM ChainFile π β}
    (hx : Secures I x) (hf : ∀ a, Secures I (f a)) : Secures I (x >>= f) :=
  fun s h => Ends.bind (hx s h) fun a s' _ h' => hf a s' h'

theorem secures_forM {as : List α} {f : α → PeerSyncM ChainFile π Unit}
    (hf : ∀ a, Secures I (f a)) : Secures I (forM as f) := by
  induction as with
  | nil => exact secures_pure ()
  | cons a as ih =>
    rw [List.forM_cons]
    exact (hf a).bind fun _ => ih

theorem secures_foldlM {bs : List β} {f : α → β → PeerSyncM ChainFile π α}
    (hf : ∀ a b, Secures I (f a b)) (a : α) : Secures I (bs.foldlM f a) := by
  induction bs generalizing a with
  | nil => exact secures_pure a
  | cons b bs ih =>
    rw [List.foldlM_cons]
    exact (hf a b).bind ih

/-- What does not touch the data directory. -/
theorem secures_quiet {x : PeerSyncM ChainFile π α}
    (h : ∀ s, (final (x.run s)).directory = s.directory) : Secures I x := by
  intro s hs
  show I (final (x.run s)).directory
  rw [h]
  exact hs

theorem secures_directory {x : SectionM ChainFile α} (h : ∀ d, I d → Ends I x d) :
    Secures I (inDirectory x : PeerSyncM ChainFile π α) := by
  intro s hs
  have hends : I (final (x s.directory)) := h s.directory hs
  show I (final (inDirectory x s)).directory
  rw [inDirectory]
  cases hx : x s.directory with
  | ok a d =>
    rw [hx] at hends
    exact hends
  | error e d =>
    rw [hx] at hends
    exact hends

theorem inDirectory_meets {x : SectionM ChainFile α} {s : PeerSync ChainFile π}
    (h : Meets (fun _ d => I d) (fun _ d => I d) x s.directory) :
    Meets (fun _ s' => I s'.directory) (fun _ s' => I s'.directory) (inDirectory x) s := by
  rw [Meets, EStateM.run] at h
  rw [Meets, EStateM.run, inDirectory]
  cases hx : x s.directory with
  | ok a d =>
    rw [hx] at h
    exact h
  | error e d =>
    rw [hx] at h
    exact h

theorem secures_onPeers (x : PeerM α) : Secures I (onPeers x : PeerSyncM ChainFile π α) := by
  refine secures_quiet fun s => ?_
  show (final (onPeers x s)).directory = s.directory
  rw [onPeers]
  cases x s.peers <;> rfl

theorem secures_nextMessage : Secures I (nextMessage : PeerSyncM ChainFile π Message) := by
  refine secures_quiet fun s => ?_
  have hget : (get : PeerSyncM ChainFile π (PeerSync ChainFile π)).run s = .ok s s := rfl
  rw [nextMessage, run_bind_of_ok hget]
  cases s.inbox <;> rfl

theorem secures_draw : Secures I (draw : PeerSyncM ChainFile π (Int64 × UInt64)) :=
  secures_quiet fun _ => rfl

theorem secures_chainBlocks : Secures I (chainBlocks : PeerSyncM ChainFile π (List StoredBlock)) :=
  secures_quiet fun _ => rfl

end

/-! ## Messages -/

section
variable [Crypto] {π : Type} {remote : Remote π} {I : DataDirectory ChainFile → Prop}

theorem secures_sendToPeer (command : Str) (payload : Bytes) :
    Secures I (sendToPeer remote command payload : PeerSyncM ChainFile π Unit) := by
  refine secures_quiet fun s => ?_
  rw [sendToPeer]
  cases encodeP2pFrame command payload <;> rfl

theorem secures_sendVersion (command : Str) :
    Secures I (sendVersion remote command : PeerSyncM ChainFile π Unit) := by
  refine secures_chainBlocks.bind fun blocks => secures_draw.bind fun draws => ?_
  obtain ⟨now, nonce⟩ := draws
  exact (secures_lift _).bind fun _ => (secures_lift _).bind fun _ => secures_sendToPeer _ _

theorem secures_clientHandshake :
    Secures I (clientHandshake remote : PeerSyncM ChainFile π PeerVersion) :=
  (secures_sendVersion _).bind fun _ => secures_nextMessage.bind fun _ =>
    (secures_lift _).bind fun _ => (secures_lift _).bind fun _ =>
    (secures_sendToPeer _ _).bind fun _ => secures_nextMessage.bind fun _ =>
    (secures_lift _).bind fun _ => (secures_throwIf _).bind fun _ => secures_pure _

variable [InetText]

omit [Crypto] in
theorem secures_mergeAddresses (payload : Bytes) :
    Secures I (mergeAddresses payload : PeerSyncM ChainFile π Unit) :=
  (secures_lift _).bind fun _ => (secures_forM fun _ => secures_onPeers _).bind fun _ =>
    secures_onPeers _

omit [InetText] in
/-- The chain object is as the store has it. -/
theorem secures_load (hI : ∀ d, I d → d.node.chain.Committed) : Secures I
    (inDirectory (onNode (onChain (TestnetChain.load .memory))) : PeerSyncM ChainFile π Unit) := by
  refine secures_directory fun d hd => ?_
  have hload := Node.load_memory_run (hI d hd).storage (hI d hd).valid
  have hrun : (onNode (onChain (TestnetChain.load .memory)) : SectionM ChainFile Unit).run d =
      .ok () d := onNode_run_ok.2 ⟨_, onChain_run_ok.2 ⟨_, hload, rfl⟩, rfl⟩
  rw [Ends, hrun]
  exact hd

theorem secures_handleUnrelated (hI : ∀ d, I d → d.node.chain.Committed) (message : Message) :
    Secures I (handleUnrelated remote .memory message : PeerSyncM ChainFile π Unit) := by
  rw [handleUnrelated]
  split_ifs
  · exact secures_get.bind fun _ => secures_sendToPeer _ _
  · exact secures_mergeAddresses _
  · exact (secures_throwIf _).bind fun _ => secures_sendToPeer _ _
  · exact (secures_load hI).bind fun _ => secures_sendVersion _
  · exact secures_pure ()
  · exact secures_throw _

theorem secures_receiveUntil (hI : ∀ d, I d → d.node.chain.Committed) (expected : List Str) :
    Secures I (receiveUntil remote .memory expected : PeerSyncM ChainFile π Message) := by
  rw [receiveUntil]
  generalize 10000 = attempts
  induction attempts with
  | zero => exact secures_throw _
  | succ attempts ih =>
    refine secures_nextMessage.bind fun message => ?_
    split_ifs
    · exact secures_pure message
    · exact (secures_handleUnrelated hI message).bind fun _ => ih

/-- The headers leave the data directory alone. -/
theorem secures_fetchHeaders (hI : ∀ d, I d → d.node.chain.Committed) (peer : PeerVersion)
    (rounds : ℕ) (download : HeaderDownload) :
    Secures I (fetchHeaders remote .memory peer rounds download : PeerSyncM ChainFile π _) := by
  have hround : ∀ download, Secures I
      (headersRound remote .memory peer download : PeerSyncM ChainFile π _) := by
    intro download
    refine (secures_lift _).bind fun _ => (secures_sendToPeer _ _).bind fun _ =>
      (secures_receiveUntil hI _).bind fun response => secures_chainBlocks.bind fun blocks => ?_
    cases (acceptBatch peer ⟨blocks, response.payload⟩).run
        { download with requests := download.requests + 1 } with
    | ok done download => exact secures_pure _
    | error e download => exact secures_throw e
  induction rounds generalizing download with
  | zero => exact secures_pure none
  | succ rounds ih =>
    refine (hround download).bind fun result => ?_
    obtain ⟨done, download'⟩ := result
    dsimp only
    split_ifs
    · exact secures_pure _
    · exact ih download'

end

/-! ## The store of side branches -/

section
variable [Crypto] {b : StoredBlock} {bs : List StoredBlock} {st : SideBranchStore}

theorem mem_ids_of_findBlock {hash : Str} {blocks : List StoredBlock} {stored : StoredBlock}
    (h : findBlock hash blocks = .ok (some stored)) : hash ∈ ids blocks := by
  induction blocks with
  | nil => cases h
  | cons b blocks ih =>
    obtain ⟨text, htext, h⟩ := except_bind_ok.1 h
    split_ifs at h with heq
    · rw [← heq, hashHex_eq htext]
      exact List.mem_cons_self
    · exact List.mem_cons_of_mem _ (ih h)

/-- `put` throws, or the block is there. -/
theorem put_cases (b : StoredBlock) (st : SideBranchStore) :
    (∃ e, (SideBranchStore.put b).run st = .error e st) ∨
    ∃ st', (SideBranchStore.put b).run st = .ok () st' ∧ b.id ∈ ids st'.blocks ∧
      ∀ hash ∈ ids st.blocks, hash ∈ ids st'.blocks := by
  have hget : (get : SideBranchM SideBranchStore).run st = .ok st st := rfl
  rw [SideBranchStore.put]
  cases hhash : b.hashHex with
  | error e => exact .inl ⟨e, rfl⟩
  | ok hash =>
    obtain rfl := hashHex_eq hhash
    rw [run_bind_of_ok (lift_run_ok.2 ⟨rfl, rfl⟩), run_bind_of_ok hget]
    dsimp only
    cases hfind : findBlock b.id st.blocks with
    | error e => exact .inl ⟨e, rfl⟩
    | ok found =>
      rw [run_bind_of_ok (lift_run_ok.2 ⟨rfl, rfl⟩)]
      cases found with
      | none =>
        refine .inr ⟨{ st with blocks := st.blocks ++ [b] }, rfl, ?_, fun hash hmem => ?_⟩
        · exact List.mem_map.2 ⟨b, List.mem_append_right _ (List.mem_singleton.2 rfl), rfl⟩
        · obtain ⟨b', hb', rfl⟩ := List.mem_map.1 hmem
          exact List.mem_map.2 ⟨b', List.mem_append_left _ hb', rfl⟩
      | some stored => exact .inr ⟨st, rfl, mem_ids_of_findBlock hfind, fun _ h => h⟩

theorem forM_put_cases (bs : List StoredBlock) (st : SideBranchStore) :
    (∃ e st', (forM bs SideBranchStore.put).run st = .error e st' ∧
      ∀ hash ∈ ids st.blocks, hash ∈ ids st'.blocks) ∨
    ∃ st', (forM bs SideBranchStore.put).run st = .ok () st' ∧ (∀ b ∈ bs, b.id ∈ ids st'.blocks) ∧
      ∀ hash ∈ ids st.blocks, hash ∈ ids st'.blocks := by
  induction bs generalizing st with
  | nil => exact .inr ⟨st, rfl, List.forall_mem_nil _, fun _ h => h⟩
  | cons b bs ih =>
    rw [List.forM_cons]
    rcases put_cases b st with ⟨e, hput⟩ | ⟨st₁, hput, hb, hkept⟩
    · refine .inl ⟨e, st, ?_, fun _ h => h⟩
      rw [EStateM.run_bind, hput]
    · rw [run_bind_of_ok hput]
      rcases ih st₁ with ⟨e, st', hrun, hkept'⟩ | ⟨st', hrun, hbs, hkept'⟩
      · exact .inl ⟨e, st', hrun, fun hash h => hkept' hash (hkept hash h)⟩
      · exact .inr ⟨st', hrun, List.forall_mem_cons.2 ⟨hkept' _ hb, hbs⟩,
          fun hash h => hkept' hash (hkept hash h)⟩

omit [Crypto] in
theorem final_save (st : SideBranchStore) :
    (final (SideBranchStore.save.run st)).blocks = st.blocks := by
  have hget : (get : SideBranchM SideBranchStore).run st = .ok st st := rfl
  rw [SideBranchStore.save, run_bind_of_ok hget]
  cases SideBranchStore.fileText st.blocks <;> rfl

/-- `put_many` throws without a loss, or all of the blocks are there. -/
theorem putMany_meets (bs : List StoredBlock) (st : SideBranchStore) :
    Meets
      (fun _ st' => (∀ b ∈ bs, b.id ∈ ids st'.blocks) ∧
        ∀ hash ∈ ids st.blocks, hash ∈ ids st'.blocks)
      (fun _ st' => ∀ hash ∈ ids st.blocks, hash ∈ ids st'.blocks)
      (SideBranchStore.putMany bs) st := by
  rcases forM_put_cases bs st with ⟨e, st', hrun, hkept⟩ | ⟨st', hrun, hbs, hkept⟩
  · rw [SideBranchStore.putMany, Meets, EStateM.run_bind, hrun]
    exact hkept
  · have hsave := final_save st'
    rw [SideBranchStore.putMany, Meets, run_bind_of_ok hrun]
    cases hresult : SideBranchStore.save.run st' with
    | ok x st'' =>
      rw [hresult] at hsave
      dsimp only
      rw [show st''.blocks = st'.blocks from hsave]
      exact ⟨hbs, hkept⟩
    | error e st'' =>
      rw [hresult] at hsave
      dsimp only
      rw [show st''.blocks = st'.blocks from hsave]
      exact hkept

/-- What `remove_active` takes away is active. -/
theorem removeActive_ends (active : List StoredBlock) (st : SideBranchStore) :
    Ends (fun st' => ∀ hash ∈ ids st.blocks, hash ∈ ids st'.blocks ∨ hash ∈ ids active)
      (SideBranchStore.removeActive active) st := by
  have hget : (get : SideBranchM SideBranchStore).run st = .ok st st := rfl
  rw [SideBranchStore.removeActive, Ends, run_bind_of_ok hget]
  cases hinactive : SideBranchStore.inactive active st.blocks with
  | error e => exact fun hash h => .inl h
  | ok kept =>
    have hset : (SideBranchStore.setBlocks kept).run st = .ok () { st with blocks := kept } := rfl
    rw [run_bind_of_ok (lift_run_ok.2 ⟨rfl, rfl⟩), run_bind_of_ok hset]
    intro hash hmem
    rw [final_save]
    obtain rfl := inactive_ok hinactive
    by_cases hactive : hash ∈ ids active
    · exact .inr hactive
    · obtain ⟨b, hb, rfl⟩ := List.mem_map.1 hmem
      exact .inl (List.mem_map.2 ⟨b, List.mem_filter.2 ⟨hb, by simpa using hactive⟩, rfl⟩)

end

/-! ## What no peer can take away -/

section
variable [Crypto] {d₀ d : DataDirectory ChainFile}

/-- What a call leaves of a data directory, whether it returns or throws. -/
structure Secured (d₀ d : DataDirectory ChainFile) : Prop where
  chain : d.node.chain.Committed
  work : d.node.chain.blocks = d₀.node.chain.blocks ∨
    d₀.node.chain.blocks.length < d.node.chain.blocks.length
  mempool : d.node.mempool = d₀.node.mempool ∨ d.node.Ok
  has : ∀ hash, d₀.Has hash → d.Has hash

/-- The same before a candidate is activated. -/
structure Untouched (d₀ d : DataDirectory ChainFile) : Prop where
  node : d.node = d₀.node
  branches : ∀ hash ∈ ids d₀.branches.blocks, hash ∈ ids d.branches.blocks

theorem Untouched.refl : Untouched d₀ d₀ := ⟨rfl, fun _ h => h⟩

theorem Untouched.secured (h₀ : d₀.node.chain.Committed) (h : Untouched d₀ d) : Secured d₀ d := by
  refine ⟨?_, .inl ?_, .inl ?_, fun hash hhash => ?_⟩
  · rw [h.node]
    exact h₀
  · rw [h.node]
  · rw [h.node]
  · rcases hhash with hhash | hhash
    · refine .inl ?_
      rw [h.node]
      exact hhash
    · exact .inr (h.branches hash hhash)

omit [Crypto] in
/-- A call of the store of side branches. -/
theorem onBranches_ends {α : Type} {x : SideBranchM α} {I : SideBranchStore → Prop}
    (h : Ends I x d.branches) :
    Ends (fun d' => d'.node = d.node ∧ I d'.branches) (onBranches x) d := by
  have hends : I (final (x d.branches)) := h
  show (final (onBranches x d)).node = d.node ∧ I (final (onBranches x d)).branches
  rw [onBranches]
  cases hx : x d.branches with
  | ok a st =>
    rw [hx] at hends
    exact ⟨rfl, hends⟩
  | error e st =>
    rw [hx] at hends
    exact ⟨rfl, hends⟩

omit [Crypto] in
theorem onBranches_meets {α : Type} {x : SideBranchM α} {Q : α → SideBranchStore → Prop}
    {F : Exn → SideBranchStore → Prop} (h : Meets Q F x d.branches) :
    Meets (fun a d' => d'.node = d.node ∧ Q a d'.branches)
      (fun e d' => d'.node = d.node ∧ F e d'.branches) (onBranches x) d := by
  rw [Meets, EStateM.run] at h
  rw [Meets, EStateM.run, onBranches]
  cases hx : x d.branches with
  | ok a st =>
    rw [hx] at h
    exact ⟨rfl, h⟩
  | error e st =>
    rw [hx] at h
    exact ⟨rfl, h⟩

/-- The blocks that are active are not missed. -/
theorem removeActive_secured (h : Secured d₀ d) :
    Ends (Secured d₀) (onBranches (SideBranchStore.removeActive d.node.chain.blocks)) d := by
  refine (onBranches_ends (removeActive_ends d.node.chain.blocks d.branches)).imp fun d' hd' => ?_
  obtain ⟨hnode, hkept⟩ := hd'
  refine ⟨?_, ?_, ?_, fun hash hhash => ?_⟩
  · rw [hnode]
    exact h.chain
  · rw [hnode]
    exact h.work
  · rw [hnode]
    exact h.mempool
  · rcases h.has hash hhash with hmem | hmem
    · refine .inl ?_
      rw [hnode]
      exact hmem
    · rcases hkept hash hmem with hmem | hmem
      · exact .inr hmem
      · refine .inl ?_
        rw [hnode]
        exact hmem

omit [Crypto] in
/-- A call of the chain object. -/
theorem onChain_ends {α : Type} {x : ChainM ChainFile α} {I : TestnetChain ChainFile → Prop}
    (h : Ends I x d.node.chain) :
    Ends (fun d' => d'.branches = d.branches ∧ d'.node.mempool = d.node.mempool ∧ I d'.node.chain)
      (onNode (onChain x)) d := by
  have hends : I (final (x d.node.chain)) := h
  show (final (onNode (onChain x) d)).branches = d.branches ∧
    (final (onNode (onChain x) d)).node.mempool = d.node.mempool ∧
    I (final (onNode (onChain x) d)).node.chain
  rw [onNode, onChain]
  cases hx : x d.node.chain with
  | ok a chain =>
    rw [hx] at hends
    exact ⟨rfl, rfl, hends⟩
  | error e chain =>
    rw [hx] at hends
    exact ⟨rfl, rfl, hends⟩

theorem activateIfMoreWork_ends {chain : TestnetChain ChainFile} (h : chain.Committed)
    (candidate : List StoredBlock) :
    Ends (fun c => c.Committed ∧ (chain.blocks.length < candidate.length ∧ c.blocks = candidate ∨
      c = chain)) (TestnetChain.activateIfMoreWork .memory candidate) chain := by
  rw [Ends]
  cases hrun : (TestnetChain.activateIfMoreWork .memory candidate).run chain with
  | ok r c =>
    obtain ⟨hlen, hcommitted, hblocks⟩ | ⟨-, rfl⟩ :=
      TestnetChain.activateIfMoreWork_memory h.valid hrun
    · exact ⟨hcommitted, .inl ⟨hlen, hblocks⟩⟩
    · exact ⟨h, .inr rfl⟩
  | error e c =>
    obtain rfl := TestnetChain.activateIfMoreWork_memory_error h.valid hrun
    exact ⟨h, .inr rfl⟩

variable {i : ℕ} {found : List StoredBlock}

/-- A candidate that has the active blocks up to the fork, where the others are in the store. -/
theorem activation_secured (h₀ : d₀.node.chain.Committed) (hd : Untouched d₀ d)
    (hstored : ∀ b ∈ d₀.node.chain.blocks.drop (i + 1), b.id ∈ ids d.branches.blocks) :
    Ends (Secured d₀) (onNode (onChain (TestnetChain.activateIfMoreWork .memory
      (d₀.node.chain.blocks.take (i + 1) ++ found)))) d := by
  have hcommitted : d.node.chain.Committed := by
    rw [hd.node]
    exact h₀
  refine (onChain_ends (activateIfMoreWork_ends hcommitted _)).imp fun d' hd' => ?_
  obtain ⟨hbranches, hmempool, hchain, ⟨hlt, hblocks⟩ | hsame⟩ := hd'
  · rw [hd.node] at hlt hmempool
    refine ⟨hchain, .inr ?_, .inl hmempool, fun hash hhash => ?_⟩
    · rw [hblocks]
      exact hlt
    · rcases hhash with hhash | hhash
      · obtain ⟨a, ha, rfl⟩ := List.mem_map.1 hhash
        rw [← List.take_append_drop (i + 1) d₀.node.chain.blocks] at ha
        rcases List.mem_append.1 ha with ha | ha
        · refine .inl ?_
          rw [hblocks]
          exact List.mem_map.2 ⟨a, List.mem_append_left _ ha, rfl⟩
        · refine .inr ?_
          rw [hbranches]
          exact hstored a ha
      · refine .inr ?_
        rw [hbranches]
        exact hd.branches hash hhash
  · refine Untouched.secured h₀ ⟨?_, ?_⟩
    · calc d'.node = ⟨d'.node.chain, d'.node.mempool⟩ := rfl
        _ = d.node := by rw [hsame, hmempool]
        _ = d₀.node := hd.node
    · rw [hbranches]
      exact hd.branches

theorem activateBranch_secured (h₀ : d₀.node.chain.Committed) (hd : Untouched d₀ d) :
    Meets (fun _ d' => Secured d₀ d') (fun _ d' => Secured d₀ d')
      (activateBranch .memory d₀.node.chain.blocks i
        (d₀.node.chain.blocks.take (i + 1) ++ found)) d := by
  have hrest : ∀ d, Untouched d₀ d →
      (∀ b ∈ d₀.node.chain.blocks.drop (i + 1), b.id ∈ ids d.branches.blocks) →
      Ends (Secured d₀) (do
        let activation ← onNode (onChain (TestnetChain.activateIfMoreWork .memory
          (d₀.node.chain.blocks.take (i + 1) ++ found)))
        if activation.activated then
          onBranches (SideBranchStore.removeActive (← get).node.chain.blocks)
        return activation : SectionM ChainFile ChainActivationResult) d := by
    intro d hd hstored
    refine Ends.bind (activation_secured h₀ hd hstored) fun activation d' _ hd' => ?_
    split_ifs
    · exact .get_bind (Ends.bind (removeActive_secured hd') fun _ _ _ h => h)
    · exact hd'
  by_cases hlt : i + 1 < d₀.node.chain.blocks.length
  · rw [activateBranch, if_pos hlt]
    have hput := onBranches_meets (putMany_meets (d₀.node.chain.blocks.drop (i + 1)) d.branches)
    refine Meets.bind (hput.imp (fun _ _ h => h) fun _ d' h => ?_) fun _ d' h => ?_
    · obtain ⟨hnode, hkept⟩ := h
      exact Untouched.secured h₀
        ⟨hnode.trans hd.node, fun hash h => hkept hash (hd.branches hash h)⟩
    · obtain ⟨hnode, hstored, hkept⟩ := h
      exact (hrest d' ⟨hnode.trans hd.node, fun hash h => hkept hash (hd.branches hash h)⟩
        hstored).meets fun _ h => h
  · rw [activateBranch, if_neg hlt]
    refine (hrest d hd fun b hb => ?_).meets fun _ h => h
    rw [List.drop_of_length_le (by omega)] at hb
    cases hb

end

/-! ## The call -/

section
variable [Crypto] [InetText] {π α β : Type} {remote : Remote π} {d₀ : DataDirectory ChainFile}
  {s : PeerSync ChainFile π}

omit [InetText] in
/-- Before a candidate is activated, and from there. -/
theorem Secures.then {x : PeerSyncM ChainFile π α} {f : α → PeerSyncM ChainFile π β}
    {Q : β → PeerSync ChainFile π → Prop} (hx : Secures (Untouched d₀) x)
    (h₀ : d₀.node.chain.Committed) (hs : Untouched d₀ s.directory)
    (hf : ∀ a s', Untouched d₀ s'.directory →
      Meets Q (fun _ s' => Secured d₀ s'.directory) (f a) s') :
    Meets Q (fun _ s' => Secured d₀ s'.directory) (x >>= f) s :=
  Meets.bind ((hx s hs).meets fun _ h => h.secured h₀) hf

omit [InetText] in
theorem secures_put (stored : StoredBlock) : Secures (Untouched d₀)
    (inDirectory (onBranches (SideBranchStore.put stored)) : PeerSyncM ChainFile π Unit) := by
  refine secures_directory fun d hd => ?_
  have hput : Ends (fun st' => ∀ hash ∈ ids d.branches.blocks, hash ∈ ids st'.blocks)
      (SideBranchStore.put stored) d.branches := by
    rw [Ends]
    rcases put_cases stored d.branches with ⟨e, hrun⟩ | ⟨st', hrun, -, hkept⟩
    · rw [hrun]
      exact fun _ h => h
    · rw [hrun]
      exact hkept
  refine (onBranches_ends hput).imp fun d' hd' => ?_
  exact ⟨hd'.1.trans hd.node, fun hash h => hd'.2 hash (hd.branches hash h)⟩

omit [InetText] in
theorem secures_save : Secures (Untouched d₀)
    (inDirectory (onBranches SideBranchStore.save) : PeerSyncM ChainFile π Unit) := by
  refine secures_directory fun d hd => ?_
  have hsave : Ends (fun st' => st'.blocks = d.branches.blocks) SideBranchStore.save d.branches :=
    final_save d.branches
  refine (onBranches_ends hsave).imp fun d' hd' => ⟨hd'.1.trans hd.node, ?_⟩
  rw [hd'.2]
  exact hd.branches

omit [InetText] in
theorem Untouched.committed (h₀ : d₀.node.chain.Committed) (d : DataDirectory ChainFile)
    (hd : Untouched d₀ d) : d.node.chain.Committed := by
  rw [hd.node]
  exact h₀

/-- A block that has been asked for changes nothing but the store of side branches. -/
theorem secures_receiveRequested (h₀ : d₀.node.chain.Committed) (headers : List HeaderRecord)
    (bodies : ExtTreeMap Str StoredBlock) :
    Secures (Untouched d₀) (receiveRequested remote .memory headers bodies) := by
  refine (secures_receiveUntil (Untouched.committed h₀) _).bind fun response =>
    (secures_throwIf _).bind fun _ => (secures_lift _).bind fun blocks => ?_
  cases blocks with
  | nil => exact secures_throw _
  | cons stored rest =>
    cases rest with
    | nil =>
      exact (secures_lift _).bind fun _ => (secures_lift _).bind fun _ =>
        (secures_lift _).bind fun _ => (secures_throwIf _).bind fun _ =>
        (secures_lift _).bind fun _ => (secures_lift _).bind fun _ => (secures_throwIf _).bind fun _ => (secures_put stored).bind fun _ => secures_pure _
    | cons stored' rest => exact secures_throw _

theorem secures_fetchBatch (h₀ : d₀.node.chain.Committed) (headers : List HeaderRecord)
    (bodies : ExtTreeMap Str StoredBlock) (batch : List InventoryItem) :
    Secures (Untouched d₀) (fetchBatch remote .memory headers bodies batch) :=
  (secures_lift _).bind fun _ => (secures_sendToPeer _ _).bind fun _ =>
    secures_foldlM (fun bodies _ => secures_receiveRequested h₀ headers bodies) bodies

/-- The download of a chain, whatever comes of it. -/
theorem syncCandidate_secured (h₀ : d₀.node.chain.Committed) (hs : Untouched d₀ s.directory)
    (peer : PeerVersion) (rounds : ℕ) :
    Meets (fun _ s' => Secured d₀ s'.directory) (fun _ s' => Secured d₀ s'.directory)
      (syncCandidate remote .memory peer rounds) s := by
  have hI := Untouched.committed h₀
  have hblocks : ∀ s' : PeerSync ChainFile π, Untouched d₀ s'.directory →
      s'.directory.node.chain.blocks = d₀.node.chain.blocks := by
    intro s' hs'
    rw [hs'.node]
  refine (secures_throwIf _).then h₀ hs fun _ s₁ h₁ =>
    secures_chainBlocks.then h₀ h₁ fun blocks s₂ h₂ =>
    (secures_lift _).then h₀ h₂ fun locator s₃ h₃ =>
    (secures_fetchHeaders hI peer rounds _).then h₀ h₃ fun result s₄ h₄ => ?_
  cases result with
  | none => exact h₄.secured h₀
  | some download =>
    refine .ok_bind chainBlocks_run ?_
    rw [hblocks s₄ h₄]
    refine secures_get.then h₀ h₄ fun _ s₅ h₅ => (secures_lift _).then h₀ h₅ fun reused s₆ h₆ =>
      (secures_foldlM (secures_fetchBatch h₀ download.headers) reused.bodies).then h₀ h₆
        fun bodies s₇ h₇ => secures_save.then h₀ h₇ fun _ s₈ h₈ => ?_
    -- the candidate begins with the active blocks up to the fork
    cases hcandidate : candidateChain (d₀.node.chain.blocks.take (download.forkIndex + 1))
        download.headers bodies with
    | error e => exact h₈.secured h₀
    | ok candidate =>
      obtain ⟨found, -, hfound⟩ := except_bind_ok.1 hcandidate
      obtain rfl := Except.ok.inj hfound
      refine .ok_bind (lift_run_ok.2 ⟨rfl, rfl⟩) ?_
      refine (secures_lift _).then h₀ h₈ fun work s₉ h₉ => .ok_bind chainBlocks_run ?_
      rw [hblocks s₉ h₉]
      exact Meets.bind (inDirectory_meets (activateBranch_secured h₀ h₉)) fun _ _ h => h

theorem syncChain_secured (h₀ : d₀.node.chain.Committed) (hs : Untouched d₀ s.directory)
    (before : UInt64) (beforeWork : Str) (peer : PeerVersion) (rounds : ℕ) :
    Meets (fun _ s' => Secured d₀ s'.directory) (fun _ s' => Secured d₀ s'.directory)
      (syncChain remote .memory before beforeWork peer rounds) s := by
  refine secures_chainBlocks.then h₀ hs fun blocks s₁ h₁ => (secures_lift _).then h₀ h₁
    fun work s₂ h₂ => (secures_lift _).then h₀ h₂ fun asks s₃ h₃ => ?_
  split_ifs
  · exact syncCandidate_secured h₀ h₃ peer rounds
  · exact h₃.secured h₀

omit [InetText] in
theorem Secured.replace {d : DataDirectory ChainFile} (h : Secured d₀ d) {node : Node ChainFile}
    (hchain : node.chain = d.node.chain) (hnode : node.Ok) :
    Secured d₀ { d with node := node } ∧ node.Ok := by
  refine ⟨⟨?_, ?_, .inr hnode, fun hash hhash => ?_⟩, hnode⟩
  · show node.chain.Committed
    rw [hchain]
    exact h.chain
  · show node.chain.blocks = _ ∨ _ < node.chain.blocks.length
    rw [hchain]
    exact h.work
  · rcases h.has hash hhash with hmem | hmem
    · refine .inl ?_
      show hash ∈ ids node.chain.blocks
      rw [hchain]
      exact hmem
    · exact .inr hmem

/-- The mempool applies to the chain, whatever the peer sends for its own. -/
theorem syncMempool_secured (hnode : d₀.node.Ok) (hs : Secured d₀ s.directory)
    (disconnected : List Transaction) :
    Ends (fun s' => Secured d₀ s'.directory ∧ s'.directory.node.Ok)
      (syncMempool remote .memory disconnected) s := by
  obtain ⟨chain, hold⟩ : ∃ chain, Node.Ok ⟨chain, s.directory.node.mempool⟩ := by
    rcases hs.mempool with heq | hok
    · refine ⟨d₀.node.chain, ?_⟩
      rw [heq]
      exact hnode
    · exact ⟨s.directory.node.chain, hok⟩
  obtain ⟨node, hrevalidate, hok⟩ := Node.onChain_revalidate hold hs.chain.valid
  have hfirst := hs.replace (Node.revalidate_chain hrevalidate) hok
  have hI : ∀ d, Secured d₀ d ∧ d.node.Ok → d.node.chain.Committed := fun d hd => hd.1.chain
  have hadd : ∀ ts : List Transaction, Secures (fun d => Secured d₀ d ∧ d.node.Ok)
      (inDirectory (onNode (Node.addEach ts)) : PeerSyncM ChainFile π Unit) := by
    refine fun ts => secures_directory fun d hd => ?_
    obtain ⟨node', hrun, hok', hchain⟩ := hd.2.addEach ts
    have hnode' : (onNode (Node.addEach ts)).run d = .ok () { d with node := node' } :=
      onNode_run_ok.2 ⟨node', hrun, rfl⟩
    rw [Ends, hnode']
    exact hd.1.replace hchain hok'
  have hrest : Secures (fun d => Secured d₀ d ∧ d.node.Ok) (do
      inDirectory (onNode (Node.addEach disconnected))
      sendToPeer remote (str "getmempool") []
      let response ← receiveUntil remote .memory [str "txs"]
      let transactions ← deserializeTransactions response.payload
      inDirectory (onNode (Node.addEach transactions))
      sendToPeer remote (str "bye") [] : PeerSyncM ChainFile π Unit) :=
    (hadd disconnected).bind fun _ => (secures_sendToPeer _ _).bind fun _ =>
      (secures_receiveUntil hI _).bind fun _ => (secures_lift _).bind fun transactions =>
      (hadd transactions).bind fun _ => secures_sendToPeer _ _
  have hrun : (inDirectory (onNode Node.revalidate) : PeerSyncM ChainFile π Unit).run s =
      .ok () { s with directory := { s.directory with node := node } } := onNode_run hrevalidate
  rw [syncMempool, Ends, run_bind_of_ok hrun]
  exact hrest _ hfirst

/-- **No peer can do harm to the chain.**  Whatever a peer answers to a call, and whether the call
    returns or throws, it leaves an accepted chain that is stored, and that is the old one or has
    more work; under the header hash of every block that the node had it has one; and the mempool is
    the old one or applies to the chain, which it does if the call returns. -/
theorem sync_with_anyone (remote : Remote π) (s : PeerSync ChainFile π)
    (hcommitted : s.directory.node.chain.Committed) (hnode : s.directory.node.Ok)
    (endpoint : PeerEndpoint) (rounds : ℕ) :
    Secured s.directory
      (afterSync ((syncFromPeer remote .memory endpoint rounds).run s)).directory ∧
    ∀ result s', (syncFromPeer remote .memory endpoint rounds).run s = .ok (some result) s' →
      s'.directory.node.Ok := by
  have hI := Untouched.committed hcommitted
  have hmeets : Meets (fun result s' => Secured s.directory s'.directory ∧
        (result ≠ none → s'.directory.node.Ok))
      (fun _ s' => Secured s.directory s'.directory)
      (syncFromPeer remote .memory endpoint rounds) s := by
    refine secures_chainBlocks.then hcommitted Untouched.refl fun blocks s₁ h₁ =>
      (secures_lift _).then hcommitted h₁ fun tip s₂ h₂ => (secures_lift _).then hcommitted h₂
      fun work s₃ h₃ => secures_clientHandshake.then hcommitted h₃ fun peer s₄ h₄ =>
      secures_draw.then hcommitted h₄ fun draws s₅ h₅ => (secures_onPeers _).then hcommitted h₅
      fun _ s₆ h₆ => (secures_sendToPeer _ _).then hcommitted h₆ fun _ s₇ h₇ =>
      (secures_receiveUntil hI _).then hcommitted h₇ fun response s₈ h₈ =>
      (secures_mergeAddresses _).then hcommitted h₈ fun _ s₉ h₉ => ?_
    refine Meets.bind (syncChain_secured hcommitted h₉ tip.height work peer rounds)
      fun result s' hs' => ?_
    cases result with
    | none => exact ⟨hs', fun h => absurd rfl h⟩
    | some result =>
      refine Meets.bind ((syncMempool_secured hnode hs'
        result.activation.disconnectedTransactions).meets fun _ h => h.1) fun _ s'' hs'' => ?_
      exact ⟨hs''.1, fun _ => hs''.2⟩
  rw [Meets] at hmeets
  cases hrun : (syncFromPeer remote .memory endpoint rounds).run s with
  | ok result s' =>
    rw [hrun] at hmeets
    refine ⟨hmeets.1, fun result' s'' h => ?_⟩
    cases h
    exact hmeets.2 (Option.some_ne_none _)
  | error e s' =>
    rw [hrun] at hmeets
    refine ⟨hmeets, fun result' s'' h => ?_⟩
    cases h

end

section
attribute [local instance] repeatedCrypto twoAddresses

/-- The header of a block over a body that is not the block's. -/
def forgedBody : StoredBlock :=
  ⟨1, ⟨repeatedCoinbase.block.header, [genesisCoinbase, genesisCoinbase]⟩⟩

/-- Answers like a server until it is asked for that block. -/
def forge (p : ServerSession) (request : Message) : ServerSession × List Message :=
  if request.command = str "getdata" then (p, [⟨str "block", encodeBlocks [forgedBody]⟩])
  else p.receive 0 7 request

/-- A call of a node with the genesis block, to a peer with the longer chain. -/
def forgedCall : PeerSync (Option (List StoredBlock × UtxoSet)) ServerSession :=
  ⟨chainOnly [genesisStored] ∅, ⟨[], none⟩,
    ⟨⟨[genesisStored, repeatedCoinbase], ∅, [], ⟨[], none⟩, []⟩, .version⟩, [], fun _ => (0, 5)⟩

/-- The call gets as far as the store of side branches. -/
theorem forgedCall_branches : (afterSync ((syncFromPeer forge .memory ⟨str "127.0.0.1", 18444⟩
    1).run forgedCall)).directory.branches.blocks = [forgedBody] := by
  decide +kernel

theorem sync_with_anyone_forged : Secured (chainOnly [genesisStored] ∅) (afterSync ((syncFromPeer
      forge .memory ⟨str "127.0.0.1", 18444⟩ 1).run forgedCall)).directory ∧
    (afterSync ((syncFromPeer forge .memory ⟨str "127.0.0.1", 18444⟩ 1).run
      forgedCall)).directory.branches.blocks = [forgedBody] := by
  have hgenesis : GenesisOk genesisStored := by constructor <;> decide +kernel
  have hchain : Chain [genesisStored] ∅ := .genesis hgenesis
  have hnode := networkNode_chainOnly hchain (by simp) (by simp)
  obtain ⟨hsecured, -⟩ := sync_with_anyone forge forgedCall ⟨hchain, rfl⟩ hnode.node
    ⟨str "127.0.0.1", 18444⟩ 1
  exact ⟨hsecured, forgedCall_branches⟩

end

end BinaryCoin
