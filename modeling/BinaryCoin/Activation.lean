/-
  BinaryCoin — the best-chain rule: `activate_if_more_work`.

  Whatever the candidate, the call changes the blocks and the unspent outputs
  together or not at all, and changes them only to a chain with more work
  (`Activated`).  What the call reports comes from one scan of the common
  blocks (`LastCommon`).
-/
import BinaryCoin.ChainState
import BinaryCoin.TipHash

namespace BinaryCoin

open Cursor

/-! ## Calls that leave the chain alone -/

namespace TestnetChain

section
variable {σ α β : Type}

/-- The object after a call, however it ended. -/
def after (result : EStateM.Result Exn (TestnetChain σ) α) : TestnetChain σ :=
  match result with
  | .ok _ s => s
  | .error _ s => s

/-- `x` changes neither the blocks nor the unspent outputs. -/
def Keeps (x : ChainM σ α) : Prop := ∀ s, Same s (after (x.run s))

/-- `x` does not change them when it throws. -/
def KeepsOnThrow (x : ChainM σ α) : Prop := ∀ s e s', x.run s = .error e s' → Same s s'

theorem Same.refl (s : TestnetChain σ) : Same s s := ⟨rfl, rfl⟩

theorem Same.trans {s s₁ s' : TestnetChain σ} (h : Same s s₁) (h' : Same s₁ s') : Same s s' :=
  ⟨h'.1.trans h.1, h'.2.trans h.2⟩

theorem keeps_lift (x : Except Exn α) : Keeps (liftM x : ChainM σ α) := by
  intro s
  cases x <;> exact .refl s

theorem keeps_throwIf (c : Prop) [Decidable c] (e : Exn) : Keeps (throwIf c e : ChainM σ Unit) := by
  intro s
  unfold throwIf
  split_ifs <;> exact .refl s

theorem keepsOnThrow_pure (a : α) : KeepsOnThrow (pure a : ChainM σ α) := by
  intro s e s' h
  cases h

theorem KeepsOnThrow.get_bind {f : TestnetChain σ → ChainM σ β} (hf : ∀ s, KeepsOnThrow (f s)) :
    KeepsOnThrow (get >>= f) := fun s e s' h => hf s s e s' h

/-- A call that changes nothing, then one that changes nothing when it throws. -/
theorem KeepsOnThrow.bind {x : ChainM σ α} {f : α → ChainM σ β} (hx : Keeps x)
    (hf : ∀ a, KeepsOnThrow (f a)) : KeepsOnThrow (x >>= f) := by
  intro s e s' h
  have hs := hx s
  rw [EStateM.run_bind] at h
  cases hrun : x.run s with
  | ok a s₁ =>
    rw [hrun] at h hs
    exact hs.trans (hf a s₁ e s' h)
  | error e₁ s₁ =>
    rw [hrun] at h hs
    cases h
    exact hs

/-- The handlers restore the copies; nothing is thrown after them. -/
theorem keepsOnThrow_orRestore (x : ChainM σ Unit) (b : β) :
    KeepsOnThrow (do orRestore x; return b) := by
  intro s e s' h
  rw [EStateM.run_bind, orRestore_run] at h
  cases hrun : x.run s with
  | ok a s₁ => rw [hrun] at h; cases h
  | error e₁ s₁ => rw [hrun] at h; cases h; exact ⟨rfl, rfl⟩

end

end TestnetChain

variable [Crypto]

/-! ## Chain work -/

/-- The work of one block at the fixed difficulty. -/
def testnetBlockWork : ℕ := 65538

omit [Crypto] in
theorem blockProof_testnet : blockProof testnetBits = .ok testnetBlockWork := by decide +kernel

omit [Crypto] in
theorem calculateChainwork_snoc {blocks : List StoredBlock} {stored : StoredBlock} {w p : ℕ}
    (h : calculateChainwork blocks = .ok w) (hp : blockProof stored.block.header.bits = .ok p) :
    calculateChainwork (blocks ++ [stored]) = .ok (w + p) := by
  rw [calculateChainwork, List.foldlM_append, except_bind_ok]
  refine ⟨w, h, ?_⟩
  simp only [List.foldlM_cons, List.foldlM_nil, hp]
  rfl

/-- The work of an accepted chain. -/
theorem Chain.work {blocks : List StoredBlock} {u : UtxoSet} (h : Chain blocks u) :
    calculateChainwork blocks = .ok (blocks.length * testnetBlockWork) := by
  induction h using Chain.rec_connects with
  | genesis g hg =>
    have hbits : g.block.header.bits = testnetBits := hg.isGenesis.bits
    have hnil : calculateChainwork [] = .ok 0 := rfl
    have := calculateChainwork_snoc hnil (hbits ▸ blockProof_testnet)
    simpa using this
  | block blocks previous stored u u' _ _ hconn ih =>
    rw [calculateChainwork_snoc ih (hconn.bits ▸ blockProof_testnet), ← Nat.succ_mul]
    simp

/-! ## The scan of the common blocks -/

/-- `left` and `right` have their first `n` blocks in common, by hash, and no more. -/
structure LastCommon (left right : List StoredBlock) (n : ℕ) : Prop where
  left_le : n ≤ left.length
  right_le : n ≤ right.length
  hash : ∀ i < n, ∀ a b, left[i]? = some a → right[i]? = some b → a.hashHex = b.hashHex
  next : ∀ a b, left[n]? = some a → right[n]? = some b → a.hashHex ≠ b.hashHex

theorem commonCount_ok {left right : List StoredBlock} {n : ℕ}
    (h : commonCount left right = .ok n) : LastCommon left right n := by
  induction left generalizing right n with
  | nil =>
    obtain rfl := except_pure_ok.1 h
    exact ⟨Nat.zero_le _, Nat.zero_le _, by simp, by simp⟩
  | cons a left ih =>
    cases right with
    | nil =>
      obtain rfl := except_pure_ok.1 h
      exact ⟨Nat.zero_le _, Nat.zero_le _, by simp, by simp⟩
    | cons b right =>
      simp only [commonCount, except_bind_ok] at h
      obtain ⟨ha, hahash, hb, hbhash, h⟩ := h
      split_ifs at h with heq
      · obtain ⟨m, hm, rfl⟩ : ∃ m, commonCount left right = .ok m ∧ m + 1 = n := by
          simpa only [except_bind_ok, except_pure_ok] using h
        obtain ⟨hl, hr, hhash, hnext⟩ := ih hm
        refine ⟨Nat.succ_le_succ hl, Nat.succ_le_succ hr, fun i hi x y hx hy => ?_, hnext⟩
        cases i with
        | zero =>
          cases hx; cases hy
          rw [hahash, hbhash, heq]
        | succ i => exact hhash i (Nat.lt_of_succ_lt_succ hi) x y hx hy
      · obtain rfl := except_pure_ok.1 h
        refine ⟨Nat.zero_le _, Nat.zero_le _, by simp, fun x y hx hy he => ?_⟩
        cases hx; cases hy
        rw [hahash, hbhash] at he
        exact heq (Except.ok.inj he)

/-- Where two lists with one beginning part. -/
theorem LastCommon.eq_length {common left right : List StoredBlock} {n : ℕ}
    (h : LastCommon (common ++ left) (common ++ right) n)
    (hne : ∀ a b, left.head? = some a → right.head? = some b → a.hashHex ≠ b.hashHex) :
    n = common.length := by
  rcases Nat.lt_trichotomy n common.length with hlt | heq | hgt
  · have hn : common[n]? = some common[n] := List.getElem?_eq_getElem hlt
    refine absurd rfl (h.next common[n] common[n] ?_ ?_) <;>
      rwa [List.getElem?_append_left hlt]
  · exact heq
  · have hl := h.left_le
    have hr := h.right_le
    rw [List.length_append] at hl hr
    cases left with
    | nil => simp at hl; omega
    | cons a left =>
      cases right with
      | nil => simp at hr; omega
      | cons b right => exact absurd (h.hash common.length hgt a b (by simp) (by simp)) (hne a b rfl rfl)

/-! ## The disconnected transactions -/

theorem mapM_txid_ok {transactions : List Transaction} {ids : List Str} :
    transactions.mapM Transaction.txid = .ok ids ↔
      (∀ t ∈ transactions, t.Structure) ∧ ids = transactions.map Transaction.id :=
  mapM_ok fun _ _ => Transaction.txid_ok

theorem disconnectedTransactions_ok {ids : List Str} {blocks : List StoredBlock}
    {result : List Transaction} (h : disconnectedTransactions ids blocks = .ok result) :
    result = (blocks.flatMap fun b => b.block.transactions.tail).filter fun t => t.id ∉ ids := by
  suffices ∀ (transactions start result : List Transaction),
      transactions.foldlM (fun result transaction => do
        if (← transaction.txid) ∈ ids then return result
        return result ++ [transaction]) start = .ok result →
      result = start ++ transactions.filter fun t => t.id ∉ ids from this _ [] _ h
  intro transactions
  induction transactions with
  | nil => intro start result h; obtain rfl := except_pure_ok.1 h; simp
  | cons t ts ih =>
    intro start result h
    simp only [List.foldlM_cons, except_bind_ok, Transaction.txid_ok] at h
    obtain ⟨next, ⟨_, ⟨-, rfl⟩, hnext⟩, h⟩ := h
    rw [ih next result h]
    split_ifs at hnext with hmem
    · obtain rfl := except_pure_ok.1 hnext
      simp [hmem]
    · obtain rfl := except_pure_ok.1 hnext
      simp [hmem]

/-- Above the genesis block, the transactions after the first are those that are no coinbases. -/
theorem Chain.filter_isCoinbase {blocks : List StoredBlock} {u : UtxoSet} (h : Chain blocks u) :
    ∀ stored ∈ blocks.tail, (stored.block.transactions.filter fun t => ¬ t.isCoinbase) =
      stored.block.transactions.tail := by
  intro stored hs
  obtain ⟨_, _, _, _, hconn⟩ := h.connects_of_mem stored hs
  obtain ⟨coinbase, regular, fees, u₁, htxs, hcb, happlied, -⟩ := hconn.body
  rw [htxs, List.tail_cons, List.filter_cons_of_neg (by simp [hcb]), List.filter_eq_self]
  intro t ht
  simp [(happlied.mem t ht).2.1]

theorem filter_flatMap_tail {blocks : List StoredBlock} (ids : List Str)
    (h : ∀ b ∈ blocks, (b.block.transactions.filter fun t => ¬ t.isCoinbase) =
      b.block.transactions.tail) :
    ((blocks.flatMap fun b => b.block.transactions).filter fun t =>
        ¬ t.isCoinbase ∧ t.id ∉ ids) =
      (blocks.flatMap fun b => b.block.transactions.tail).filter fun t => t.id ∉ ids := by
  induction blocks with
  | nil => rfl
  | cons b bs ih =>
    obtain ⟨hb, hbs⟩ := List.forall_mem_cons.1 h
    rw [List.flatMap_cons, List.flatMap_cons, List.filter_append, List.filter_append, ih hbs, ← hb,
      List.filter_filter]
    simp only [Bool.decide_and, Bool.and_comm]

/-! ## The call -/

/-- What a call that activates `candidate` has done, and what it reports. -/
structure Activated {σ : Type} (s : TestnetChain σ) (candidate : List StoredBlock)
    (r : ChainActivationResult) (s' : TestnetChain σ) : Prop where
  blocks : s'.blocks = candidate
  utxos : buildUtxoSet candidate = .ok s'.utxos
  verified : verifyBlocks candidate = .ok ()
  work : ∃ w w', calculateChainwork s.blocks = .ok w ∧ calculateChainwork candidate = .ok w' ∧
    w < w' ∧ r.oldChainwork = w ∧ r.candidateChainwork = w'
  /-- `n` blocks are common; the last of them gives the fork height, the blocks above it are
      counted, and their transactions are reported unless the candidate has them. -/
  fork : ∃ n, 0 < n ∧ LastCommon s.blocks candidate n ∧
    (∃ a b, s.blocks[n - 1]? = some a ∧ candidate[n - 1]? = some b ∧ a.hashHex = b.hashHex ∧
      a.height = r.forkHeight ∧ b.height = r.forkHeight) ∧
    r.disconnectedBlocks = (s.blocks.drop n).length ∧
    r.connectedBlocks = (candidate.drop n).length ∧
    r.disconnectedTransactions =
      ((s.blocks.drop n).flatMap fun b => b.block.transactions).filter fun t =>
        ¬ t.isCoinbase ∧ t.id ∉ (allTransactions candidate).map Transaction.id

namespace TestnetChain
variable {σ : Type} {S : ChainStore σ}

theorem activateIfMoreWork_keeps (candidate : List StoredBlock) :
    KeepsOnThrow (activateIfMoreWork S candidate) := by
  unfold activateIfMoreWork
  refine .bind (keeps_lift _) fun _ => .get_bind fun s => ?_
  refine .bind (keeps_lift _) fun _ => .bind (keeps_lift _) fun _ => .bind (keeps_lift _) fun _ =>
    .bind (keeps_lift _) fun _ => .bind (keeps_lift _) fun _ => .bind (keeps_throwIf _ _) fun _ => ?_
  dsimp only
  split_ifs
  · exact keepsOnThrow_pure _
  · exact .bind (keeps_lift _) fun _ => .bind (keeps_lift _) fun _ => keepsOnThrow_orRestore _ _

theorem activateIfMoreWork_ok {s s' : TestnetChain σ} (hs : s.Valid) {candidate : List StoredBlock}
    {r : ChainActivationResult} (h : (activateIfMoreWork S candidate).run s = .ok r s') :
    (r.activated = false ∧ s' = s) ∨ (r.activated = true ∧ s'.Valid ∧ Activated s candidate r s') := by
  simp only [activateIfMoreWork, run_bind_ok, lift_run_ok, run_get_ok, throwIf_run_ok] at h
  obtain ⟨_, _, ⟨hverify, rfl⟩, _, _, ⟨rfl, rfl⟩, oldTip, _, ⟨-, rfl⟩, newTip, _, ⟨-, rfl⟩, w, _,
    ⟨hw, rfl⟩, w', _, ⟨hw', rfl⟩, n, _, ⟨hn, rfl⟩, _, _, ⟨hpos, rfl⟩, h⟩ := h
  split_ifs at h with hwork
  · obtain ⟨rfl, rfl⟩ := run_pure_ok.1 h
    exact .inl ⟨rfl, rfl⟩
  · right
    simp only [run_bind_ok, lift_run_ok, orRestore_ok, setBlocks_run_ok] at h
    obtain ⟨ids, _, ⟨hids, rfl⟩, ds, _, ⟨hds, rfl⟩, _, _, ⟨_, _, rfl, hsave⟩, hr⟩ := h
    obtain ⟨rfl, rfl⟩ := run_pure_ok.1 hr
    obtain ⟨hvalid, hblocks⟩ := verify_rebuild_save (S := S) (by simpa only [run_bind_ok] using hsave)
    dsimp only at hblocks
    refine ⟨rfl, hvalid, ?_⟩
    obtain ⟨u, hcand⟩ := verifyBlocks_iff.1 hverify
    have hcommon := commonCount_ok hn
    have hlt : ∀ blocks : List StoredBlock, n ≤ blocks.length → n - 1 < blocks.length := by
      intro blocks hle
      omega
    have hfork : ∀ {blocks : List StoredBlock} {u : UtxoSet} {b : StoredBlock}, Chain blocks u →
        blocks[n - 1]? = some b → b.height = UInt64.ofNat (n - 1) := by
      intro blocks u b hc hb
      rw [← hc.height _ _ hb, UInt64.ofNat_toNat]
    have ha := List.getElem?_eq_getElem (hlt _ hcommon.left_le)
    have hb := List.getElem?_eq_getElem (hlt _ hcommon.right_le)
    exact {
      blocks := hblocks
      utxos := hblocks ▸ Chain.build hvalid
      verified := hverify
      work := ⟨w, w', hw, hw', not_le.1 hwork, rfl, rfl⟩
      fork := ⟨n, Nat.pos_of_ne_zero hpos, hcommon,
        ⟨_, _, ha, hb, hcommon.hash _ (by omega) _ _ ha hb, hfork hs ha, hfork hcand hb⟩,
        by simp, by simp, by
          dsimp only
          rw [disconnectedTransactions_ok hds, (mapM_txid_ok.1 hids).2]
          refine (filter_flatMap_tail _ fun b hb => Chain.filter_isCoinbase hs b ?_).symm
          rw [← List.drop_one]
          exact (List.drop_subset_drop_left _ (Nat.pos_of_ne_zero hpos)) hb⟩ }

theorem appendBlock_ok {stored : StoredBlock} {s s' : TestnetChain σ} {x : Unit}
    (h : (appendBlock stored).run s = .ok x s') : s'.blocks = s.blocks ++ [stored] := by
  simp only [appendBlock, run_bind_ok, run_get_ok, lift_run_ok, throwIf_run_ok,
    setBlocks_run_ok] at h
  obtain ⟨_, _, ⟨rfl, rfl⟩, last, _, ⟨-, rfl⟩, _, _, ⟨-, rfl⟩, hash, _, ⟨-, rfl⟩, _, _, ⟨-, rfl⟩,
    rfl⟩ := h
  rfl

theorem forM_appendBlock_ok {incoming : List StoredBlock} {s s' : TestnetChain σ} {x : Unit}
    (h : (forM incoming appendBlock : ChainM σ Unit).run s = .ok x s') :
    s'.blocks = s.blocks ++ incoming := by
  induction incoming generalizing s with
  | nil => obtain ⟨-, rfl⟩ := run_pure_ok.1 h; simp
  | cons stored incoming ih =>
    rw [List.forM_cons, run_bind_ok] at h
    obtain ⟨_, s₁, hs, h⟩ := h
    rw [ih h, appendBlock_ok hs, List.append_assoc]
    rfl

theorem initializeIfEmpty_run {s : TestnetChain σ} (hne : s.blocks ≠ []) :
    (initializeIfEmpty S).run s = .ok () s := by
  simp only [initializeIfEmpty, EStateM.run_bind, EStateM.run_get, hne, if_false]
  rfl

/-- `append_blocks` on an object with a chain: it appends, or throws and changes nothing. -/
theorem appendBlocks_cases {s : TestnetChain σ} (hs : s.Valid) (incoming : List StoredBlock) :
    (∃ s', (appendBlocks S incoming).run s = .ok () s' ∧ s'.Valid ∧
      s'.blocks = s.blocks ++ incoming) ∨
    ∃ e s', (appendBlocks S incoming).run s = .error e s' ∧ Same s s' := by
  unfold appendBlocks
  split_ifs with hnil
  · exact .inl ⟨s, rfl, hs, by simp [hnil]⟩
  · rw [EStateM.run_bind, initializeIfEmpty_run hs.ne_nil]
    dsimp only
    rw [orRestore_run]
    cases hrun : (do forM incoming appendBlock; verify; rebuild; save S : ChainM σ Unit).run s with
    | ok a s' =>
      rw [run_bind_ok] at hrun
      obtain ⟨_, s₁, hfor, hsave⟩ := hrun
      obtain ⟨hvalid, hblocks⟩ := verify_rebuild_save hsave
      exact .inl ⟨s', rfl, hvalid, by rw [hblocks, forM_appendBlock_ok hfor]⟩
    | error e s' => exact .inr ⟨e, _, rfl, rfl, rfl⟩

/-! ## Sequences of calls -/

/-- A call that may give the object another chain. -/
inductive Call where
  | append (incoming : List StoredBlock)
  | activate (candidate : List StoredBlock)

/-- The object after a call, whether it returned or threw. -/
def Call.run (S : ChainStore σ) (s : TestnetChain σ) : Call → TestnetChain σ
  | .append incoming => after ((appendBlocks S incoming).run s)
  | .activate candidate => after ((activateIfMoreWork S candidate).run s)

/-- One call keeps the object valid and does not shorten its chain. -/
theorem Call.run_valid {s : TestnetChain σ} (hs : s.Valid) (call : Call) :
    (call.run S s).Valid ∧ s.blocks.length ≤ (call.run S s).blocks.length := by
  cases call with
  | append incoming =>
    rcases appendBlocks_cases (S := S) hs incoming with ⟨s', hrun, hvalid, hblocks⟩ | ⟨e, s', hrun, hsame⟩
    · simp only [run, hrun, after, hvalid, hblocks, List.length_append, true_and]
      omega
    · simp only [run, hrun, after]
      exact ⟨hs.congr hsame, by rw [hsame.1]⟩
  | activate candidate =>
    simp only [run]
    cases hrun : (activateIfMoreWork S candidate).run s with
    | error e s' =>
      have hsame := activateIfMoreWork_keeps candidate s e s' hrun
      exact ⟨hs.congr hsame, by rw [after, hsame.1]⟩
    | ok r s' =>
      rcases activateIfMoreWork_ok hs hrun with ⟨-, rfl⟩ | ⟨-, hvalid, hact⟩
      · exact ⟨hs, le_rfl⟩
      · refine ⟨hvalid, ?_⟩
        obtain ⟨w, w', hw, hw', hlt, -⟩ := hact.work
        obtain ⟨u, hcand⟩ := verifyBlocks_iff.1 hact.verified
        rw [Chain.work hs, Except.ok.injEq] at hw
        rw [hcand.work, Except.ok.injEq] at hw'
        rw [after, hact.blocks]
        refine Nat.le_of_mul_le_mul_right ?_ (show 0 < testnetBlockWork by decide)
        omega

/-- What a call of `activate_if_more_work` may end with. -/
def Outcome (s : TestnetChain σ) (candidate : List StoredBlock) :
    EStateM.Result Exn (TestnetChain σ) ChainActivationResult → Prop
  | .error _ s' => Same s s'
  | .ok r s' => (r.activated = false ∧ Same s s') ∨ (r.activated = true ∧ Activated s candidate r s')

/-- **The best-chain rule.**  For every candidate, `activate_if_more_work` changes the chain
    completely (`Activated`) or not at all; and over any sequence of calls the work of the chain
    does not decrease. -/
theorem best_chain_rule {s : TestnetChain σ} (hs : s.Valid) (candidate : List StoredBlock) :
    Outcome s candidate ((activateIfMoreWork S candidate).run s) ∧
    ∀ calls : List Call, ∃ w w', calculateChainwork s.blocks = .ok w ∧
      calculateChainwork (calls.foldl (Call.run S) s).blocks = .ok w' ∧ w ≤ w' := by
  constructor
  · cases hrun : (activateIfMoreWork S candidate).run s with
    | error e s' => exact activateIfMoreWork_keeps candidate s e s' hrun
    | ok r s' =>
      rcases activateIfMoreWork_ok hs hrun with ⟨hr, rfl⟩ | ⟨hr, -, hact⟩
      · exact .inl ⟨hr, .refl _⟩
      · exact .inr ⟨hr, hact⟩
  · intro calls
    have hrun : (calls.foldl (Call.run S) s).Valid ∧
        s.blocks.length ≤ (calls.foldl (Call.run S) s).blocks.length := by
      induction calls generalizing s with
      | nil => exact ⟨hs, le_rfl⟩
      | cons call calls ih =>
        obtain ⟨hvalid, hle⟩ := call.run_valid (S := S) hs
        obtain ⟨hvalid', hle'⟩ := ih hvalid
        exact ⟨hvalid', hle.trans hle'⟩
    exact ⟨_, _, Chain.work hs, Chain.work hrun.1, Nat.mul_le_mul_right _ hrun.2⟩

/-! ## All operations -/

/-- The operations of the object. -/
inductive Operation where
  | init
  | load
  | append (incoming : List StoredBlock)
  | activate (candidate : List StoredBlock)
  | generate (clock : ℕ → Int64) (count : UInt64) (script : Bytes) (pending : List Transaction)
  | reindex

def Operation.exec (S : ChainStore σ) : Operation → ChainM σ Unit
  | .init => initializeChain S
  | .load => TestnetChain.load S
  | .append incoming => appendBlocks S incoming
  | .activate candidate => do let _ ← activateIfMoreWork S candidate
  | .generate clock count script pending => TestnetChain.generate S clock count script pending
  | .reindex => TestnetChain.reindex S

/-- The object after `operations` have returned: nothing has happened to it yet, or it is valid. -/
def Reached (operations : List Operation) (s : TestnetChain σ) : Prop :=
  ((∀ operation ∈ operations, operation = .append []) ∧ s.blocks = [] ∧ s.utxos = ∅) ∨ s.Valid

theorem Operation.exec_ok {operation : Operation} {before : List Operation}
    {s s' : TestnetChain σ} {x : Unit} (hs : Reached before s)
    (h : (operation.exec S).run s = .ok x s') : Reached (before ++ [operation]) s' := by
  cases operation with
  | init => exact .inr (initializeChain_ok h)
  | load => exact .inr (load_ok h)
  | reindex => exact .inr (reindex_ok h)
  | append incoming =>
    rcases appendBlocks_ok h with ⟨rfl, rfl⟩ | hvalid
    · refine hs.imp_left fun ⟨hops, hempty⟩ => ⟨fun operation hmem => ?_, hempty⟩
      rcases List.mem_append.1 hmem with hmem | hmem
      · exact hops operation hmem
      · exact List.mem_singleton.1 hmem
    · exact .inr hvalid
  | activate candidate =>
    simp only [exec, run_bind_ok, run_pure_ok] at h
    obtain ⟨r, _, h, -, rfl⟩ := h
    rcases hs with ⟨-, hblocks, -⟩ | hvalid
    · -- an object without blocks has no tip
      simp only [activateIfMoreWork, run_bind_ok, lift_run_ok, run_get_ok] at h
      obtain ⟨_, _, ⟨-, rfl⟩, _, _, ⟨rfl, rfl⟩, _, _, ⟨htip, -⟩, -⟩ := h
      simp [TestnetChain.tip, hblocks] at htip
    · rcases activateIfMoreWork_ok hvalid h with ⟨-, rfl⟩ | ⟨-, hvalid', -⟩
      · exact .inr hvalid
      · exact .inr hvalid'
  | generate clock count script pending =>
    refine .inr (generate_ok (fun hne => ?_) h)
    exact hs.resolve_left fun ⟨_, hnil, _⟩ => hne hnil

/-- **The invariant of the object.**  After any sequence of operations that return, the blocks are
    accepted and the set of unspent outputs is the one that `verify_blocks` ends with and
    `build_utxo_set` computes; before the first operation that does something, both are empty. -/
theorem state_invariant {operations : List Operation} {dataDirectory : String} {storage : σ}
    {s : TestnetChain σ}
    (h : (forM operations (Operation.exec S)).run (new dataDirectory storage) = .ok () s) :
    ((∀ operation ∈ operations, operation = .append []) ∧ s.blocks = [] ∧ s.utxos = ∅) ∨
    (verifyBlocks s.blocks = .ok () ∧ buildUtxoSet s.blocks = .ok s.utxos ∧
      (verifyUtxos s.blocks).run ∅ = .ok () s.utxos) := by
  have hrun : ∀ (todo done : List Operation) (s₁ : TestnetChain σ), Reached done s₁ →
      (forM todo (Operation.exec S)).run s₁ = .ok () s → Reached (done ++ todo) s := by
    intro todo
    induction todo with
    | nil =>
      intro done s₁ hs h
      obtain ⟨-, rfl⟩ := run_pure_ok.1 h
      simpa using hs
    | cons operation todo ih =>
      intro done s₁ hs h
      rw [List.forM_cons, run_bind_ok] at h
      obtain ⟨_, s₂, hop, h⟩ := h
      simpa using ih _ _ (Operation.exec_ok hs hop) h
  have hstart : Reached [] (new dataDirectory storage) := .inl ⟨by simp, rfl, rfl⟩
  refine (hrun operations [] _ hstart h).imp_right fun hvalid => ?_
  exact ⟨verifyBlocks_iff.2 ⟨_, hvalid⟩, Chain.build hvalid, verifyUtxos_ok.2 hvalid⟩

omit [Crypto] in
theorem exists_run_ok {α : Type} {x : ChainM σ α} {s : TestnetChain σ}
    (h : (match x.run s with | .ok _ _ => true | .error _ _ => false) = true) :
    ∃ a s', x.run s = .ok a s' := by
  cases hrun : x.run s with
  | ok a s' => exact ⟨a, s', rfl⟩
  | error e s' => rw [hrun] at h; cases h

omit [Crypto] in
theorem state_invariant_extended : ∃ s, (forM [Operation.init, .append [repeatedCoinbase], .load]
      (@Operation.exec (.ofTable repeatedDigests) _ .memory)).run (new "data" none) = .ok () s ∧
    ((∀ operation ∈ [Operation.init, .append [repeatedCoinbase], .load], operation = .append []) ∧
      s.blocks = [] ∧ s.utxos = ∅ ∨
    @verifyBlocks (.ofTable repeatedDigests) s.blocks = .ok () ∧
      @buildUtxoSet (.ofTable repeatedDigests) s.blocks = .ok s.utxos ∧
      (@verifyUtxos (.ofTable repeatedDigests) s.blocks).run ∅ = .ok () s.utxos) := by
  obtain ⟨⟨⟩, s, hs⟩ := exists_run_ok (x := forM [Operation.init, .append [repeatedCoinbase], .load]
    (@Operation.exec (.ofTable repeatedDigests) _ .memory)) (s := new "data" none) (by decide +kernel)
  exact ⟨s, hs, @state_invariant (.ofTable repeatedDigests) _ _ _ _ _ _ hs⟩

omit [Crypto] in
/-- An object on which only `append_blocks` of no blocks was called has no chain. -/
theorem state_still_empty : ∃ s, (forM [Operation.append []]
      (@Operation.exec (.ofTable genesisDigests) _ .memory)).run (new "data" none) = .ok () s ∧
    @verifyBlocks (.ofTable genesisDigests) s.blocks ≠ .ok () :=
  ⟨new "data" none, rfl, by decide +kernel⟩

end TestnetChain

end BinaryCoin
