/-
  BinaryCoin — a chain and its mempool, as the node, its RPC commands and the
  command line use them together.

  Every change of the chain is followed by `revalidate`, except that `generate`
  is followed by `clear`.  `Consistent` is what all of them keep.
-/
import BinaryCoin.Mempool
import BinaryCoin.Lib.Runs

namespace BinaryCoin

open Cursor Std Runs

/-- The two objects. -/
structure Node (σ : Type) where
  chain : TestnetChain σ
  mempool : TestnetMempool

abbrev NodeM (σ : Type) := EStateM Exn (Node σ)

section
variable {σ α : Type}

def onChain (x : ChainM σ α) : NodeM σ α := fun n =>
  match x n.chain with
  | .ok a chain => .ok a { n with chain := chain }
  | .error e chain => .error e { n with chain := chain }

def onMempool (x : MempoolM α) : NodeM σ α := fun n =>
  match x n.mempool with
  | .ok a mempool => .ok a { n with mempool := mempool }
  | .error e mempool => .error e { n with mempool := mempool }

theorem onChain_run_ok {x : ChainM σ α} {a : α} {n n' : Node σ} : (onChain x).run n = .ok a n' ↔
    ∃ chain, x.run n.chain = .ok a chain ∧ n' = { n with chain := chain } := by
  simp only [onChain, EStateM.run]
  cases x n.chain <;> simp [eq_comm]

theorem onChain_run_error {x : ChainM σ α} {e : Exn} {n n' : Node σ} :
    (onChain x).run n = .error e n' ↔
      ∃ chain, x.run n.chain = .error e chain ∧ n' = { n with chain := chain } := by
  simp only [onChain, EStateM.run]
  cases x n.chain <;> simp [eq_comm]

theorem onMempool_run_ok {x : MempoolM α} {a : α} {n n' : Node σ} :
    (onMempool x).run n = .ok a n' ↔
      ∃ mempool, x.run n.mempool = .ok a mempool ∧ n' = { n with mempool := mempool } := by
  simp only [onMempool, EStateM.run]
  cases x n.mempool <;> simp [eq_comm]

theorem onMempool_run_error {x : MempoolM α} {e : Exn} {n n' : Node σ} :
    (onMempool x).run n = .error e n' ↔
      ∃ mempool, x.run n.mempool = .error e mempool ∧ n' = { n with mempool := mempool } := by
  simp only [onMempool, EStateM.run]
  cases x n.mempool <;> simp [eq_comm]

end

variable [Crypto] {σ : Type}

/-- `chain.tip().height + 1` -/
def TestnetChain.spendHeight (s : TestnetChain σ) : Except Exn UInt64 := do
  return (← s.tip).height + 1

namespace Node

/-- `mempool.add(transaction, chain.utxo_set(), chain.tip().height + 1)` -/
def add (transaction : Transaction) : NodeM σ Unit := do
  let chain := (← get).chain
  onMempool (TestnetMempool.add transaction chain.utxos (← chain.spendHeight))

/-- `mempool.revalidate(chain.utxo_set(), chain.tip().height + 1, chain.confirmed_txids())` -/
def revalidate : NodeM σ Unit := do
  let chain := (← get).chain
  onMempool (TestnetMempool.revalidate chain.utxos (← chain.spendHeight)
    (← transactionIds chain.blocks))

def append (S : ChainStore σ) (incoming : List StoredBlock) : NodeM σ Unit := do
  onChain (TestnetChain.appendBlocks S incoming)
  revalidate

def activate (S : ChainStore σ) (candidate : List StoredBlock) : NodeM σ ChainActivationResult := do
  let activation ← onChain (TestnetChain.activateIfMoreWork S candidate)
  revalidate
  return activation

def generate (S : ChainStore σ) (clock : ℕ → Int64) (count : UInt64) (script : Bytes) :
    NodeM σ Unit := do
  onChain (TestnetChain.generate S clock count script (← get).mempool.transactions)
  onMempool TestnetMempool.clear

/-- What is done to a node. -/
inductive Operation where
  | add (transaction : Transaction)
  | append (incoming : List StoredBlock)
  | activate (candidate : List StoredBlock)
  | generate (clock : ℕ → Int64) (count : UInt64) (script : Bytes)

def Operation.exec (S : ChainStore σ) : Operation → NodeM σ Unit
  | .add transaction => Node.add transaction
  | .append incoming => Node.append S incoming
  | .activate candidate => do let _ ← Node.activate S candidate
  | .generate clock count script => Node.generate S clock count script

/-- One operation, which may throw; the objects on which `generate` has thrown are not used any
    more. -/
inductive Step (S : ChainStore σ) : Node σ → Operation → Node σ → Prop
  | returned {n n' : Node σ} {operation : Operation} {x : Unit}
      (h : (operation.exec S).run n = .ok x n') : Step S n operation n'
  | threw {n n' : Node σ} {operation : Operation} {e : Exn}
      (h : (operation.exec S).run n = .error e n')
      (hop : ∀ clock count script, operation ≠ .generate clock count script) :
      Step S n operation n'

/-! ## The invariant -/

/-- The transactions of the mempool apply to the chain's unspent outputs, one after the other. -/
structure Ok (n : Node σ) : Prop where
  chain : n.chain.Valid
  mempool : ∃ height, n.chain.spendHeight = .ok height ∧
    MempoolOk height n.chain.utxos n.mempool.transactions

omit [Crypto] in
theorem tip_ok {s : TestnetChain σ} {b : StoredBlock} : s.tip = .ok b ↔ s.blocks.getLast? = some b :=
  orThrow_ok

omit [Crypto] in
theorem spendHeight_ok {s : TestnetChain σ} (hne : s.blocks ≠ []) :
    s.spendHeight = .ok ((s.blocks.getLast hne).height + 1) := by
  have htip : s.tip = .ok (s.blocks.getLast hne) := tip_ok.2 (List.getLast?_eq_some_getLast hne)
  rw [TestnetChain.spendHeight, htip]
  rfl

/-- The spend height of an accepted chain is its length. -/
theorem spendHeight_eq {s : TestnetChain σ} (hc : s.Valid) :
    s.spendHeight = .ok (UInt64.ofNat s.blocks.length) := by
  have hne := Chain.ne_nil hc
  have hlen := List.length_pos_of_ne_nil hne
  have hheight := Chain.height hc (s.blocks.length - 1) (s.blocks.getLast hne)
    (by rw [← List.getLast?_eq_getElem?, List.getLast?_eq_some_getLast hne])
  have hle := Chain.length_le hc
  rw [spendHeight_ok hne]
  refine congrArg Except.ok (UInt64.toNat_inj.1 ?_)
  rw [UInt64.toNat_add, hheight, UInt64.toNat_ofNat_of_lt' (by norm_num [UInt64.size]; omega)]
  simp only [UInt64.reduceToNat]
  omega

omit [Crypto] in
theorem spendHeight_congr {s s' : TestnetChain σ} (h : s'.blocks = s.blocks) :
    s'.spendHeight = s.spendHeight := by
  rw [TestnetChain.spendHeight, TestnetChain.tip, h]
  rfl

theorem mempoolOk_nil {height : UInt64} {u : UtxoSet} : MempoolOk height u [] :=
  ⟨⟨0, u, .nil⟩, List.nodup_nil⟩

/-- `confirmed_txids` of a chain. -/
theorem transactionIds_ok {blocks : List StoredBlock} {u : UtxoSet} (h : Chain blocks u) :
    transactionIds blocks = .ok ((allTransactions blocks).map Transaction.id) :=
  mapM_txid_ok.2 ⟨fun t ht => (h.transaction t ht).1, rfl⟩

/-- The transactions of the mempool that the chain has not confirmed. -/
def remaining (n : Node σ) : List Transaction :=
  TestnetMempool.unconfirmed ((allTransactions n.chain.blocks).map Transaction.id)
    n.mempool.transactions

/-- **`revalidate` repairs the mempool** after any change of the chain: it returns. -/
theorem revalidate_run {n : Node σ} {height : UInt64} (hc : n.chain.Valid)
    (hheight : n.chain.spendHeight = .ok height)
    (hwf : ∀ t ∈ n.mempool.transactions, t.Structure)
    (hnodup : (n.remaining.map Transaction.id).Nodup) :
    ∃ retained, TestnetMempool.retain ((allTransactions n.chain.blocks).map Transaction.id)
        height n.mempool.transactions n.chain.utxos = .ok retained ∧
      revalidate.run n =
        .ok () { n with mempool := ⟨retained, some (TestnetMempool.text retained)⟩ } ∧
      MempoolOk height n.chain.utxos retained ∧ retained.Sublist n.remaining := by
  have hids := transactionIds_ok hc
  obtain ⟨retained, hret, hrun, hok, hsub⟩ := TestnetMempool.revalidate_ok hc hids hwf hnodup
  refine ⟨retained, hret, ?_, hok, hsub⟩
  simp only [revalidate, run_bind_ok, run_get_ok, lift_run_ok]
  exact ⟨n, n, ⟨rfl, rfl⟩, _, n, ⟨hheight, rfl⟩, _, n, ⟨hids, rfl⟩, onMempool_run_ok.2 ⟨_, hrun, rfl⟩⟩

/-- `revalidate` after a call of the chain object. -/
theorem onChain_revalidate {n : Node σ} (hn : n.Ok) {chain : TestnetChain σ} (hc : chain.Valid) :
    ∃ n', revalidate.run { n with chain := chain } = .ok () n' ∧ n'.Ok := by
  obtain ⟨height, -, hm⟩ := hn.mempool
  have hheight := spendHeight_ok hc.ne_nil
  obtain ⟨retained, -, hrun, hok, -⟩ := revalidate_run (n := { n with chain := chain }) hc hheight
    hm.wellFormed (hm.nodup.sublist (List.filter_sublist.map _))
  exact ⟨_, hrun, hc, _, hheight, hok⟩

theorem Ok.congr {n : Node σ} (hn : n.Ok) {chain : TestnetChain σ} (h : n.chain.Same chain) :
    Ok { n with chain := chain } := by
  obtain ⟨height, hheight, hm⟩ := hn.mempool
  refine ⟨hn.chain.congr h, height, (spendHeight_congr h.1).trans hheight, ?_⟩
  rw [h.2]
  exact hm

/-! ## One operation -/

/-- What an operation may end with. -/
def Outcome (operation : Operation) : EStateM.Result Exn (Node σ) Unit → Prop
  | .ok _ n' => n'.Ok
  | .error _ n' => (∀ clock count script, operation ≠ .generate clock count script) → n'.Ok

variable {S : ChainStore σ}

theorem add_run {n : Node σ} {height : UInt64} (hheight : n.chain.spendHeight = .ok height)
    (t : Transaction) :
    (add t).run n = (onMempool (TestnetMempool.add t n.chain.utxos height)).run n := by
  simp only [add, EStateM.run_bind, EStateM.run_get, hheight]
  rfl

/-- `add` accepts what keeps the invariant, and changes nothing when it throws. -/
theorem add_cases {n : Node σ} {height : UInt64} (hheight : n.chain.spendHeight = .ok height)
    (hm : MempoolOk height n.chain.utxos n.mempool.transactions) (t : Transaction) :
    (MempoolOk height n.chain.utxos (n.mempool.transactions ++ [t]) ∧ (add t).run n =
      .ok () { n with mempool := ⟨n.mempool.transactions ++ [t],
        some (TestnetMempool.text (n.mempool.transactions ++ [t]))⟩ }) ∨
    ¬ MempoolOk height n.chain.utxos (n.mempool.transactions ++ [t]) ∧
      ∃ e, (add t).run n = .error e n := by
  rw [add_run hheight]
  cases hadd : (onMempool (TestnetMempool.add t n.chain.utxos height)).run n with
  | ok x n' =>
    obtain ⟨mempool, h, rfl⟩ := onMempool_run_ok.1 hadd
    obtain ⟨hok, rfl⟩ := (TestnetMempool.add_ok hm).1 h
    exact .inl ⟨hok, rfl⟩
  | error e n' =>
    obtain ⟨mempool, h, rfl⟩ := onMempool_run_error.1 hadd
    obtain rfl := TestnetMempool.add_error hm h
    refine .inr ⟨fun hok => ?_, e, rfl⟩
    have hreturn := (TestnetMempool.add_ok (x := ()) hm).2 ⟨hok, rfl⟩
    rw [hreturn] at h
    cases h

theorem add_outcome {n : Node σ} (hn : n.Ok) (t : Transaction) :
    Outcome (.add t) ((add t).run n) := by
  obtain ⟨hc, height, hheight, hm⟩ := hn
  rcases add_cases hheight hm t with ⟨hok, hrun⟩ | ⟨-, e, hrun⟩
  · rw [hrun]
    exact ⟨hc, height, hheight, hok⟩
  · rw [hrun]
    exact fun _ => ⟨hc, height, hheight, hm⟩

/-- A call of the chain object that leaves it valid or unchanged, with `revalidate` after it. -/
theorem bind_revalidate_outcome {α : Type} {x : ChainM σ α} {n : Node σ} (hn : n.Ok)
    {operation : Operation} (hx : ∀ a chain, x.run n.chain = .ok a chain → chain.Valid)
    (hthrow : ∀ e chain, x.run n.chain = .error e chain → n.chain.Same chain) :
    Outcome operation ((do let _ ← onChain x; revalidate : NodeM σ Unit).run n) := by
  rw [EStateM.run_bind]
  cases hrun : (onChain x).run n with
  | ok a n₁ =>
    obtain ⟨chain, h, rfl⟩ := onChain_run_ok.1 hrun
    obtain ⟨n', hrev, hok⟩ := onChain_revalidate hn (hx a chain h)
    dsimp only
    rw [hrev]
    exact hok
  | error e n₁ =>
    obtain ⟨chain, h, rfl⟩ := onChain_run_error.1 hrun
    exact fun _ => hn.congr (hthrow e chain h)

theorem exec_outcome {n : Node σ} (hn : n.Ok) (operation : Operation) :
    Outcome operation ((operation.exec S).run n) := by
  cases operation with
  | add t => exact add_outcome hn t
  | append incoming =>
    refine bind_revalidate_outcome hn (fun a chain h => ?_) fun e chain h => ?_
    · rcases TestnetChain.appendBlocks_cases (S := S) hn.chain incoming with
        ⟨s', hrun, hvalid, -⟩ | ⟨e, s', hrun, -⟩
      · rw [hrun] at h; cases h; exact hvalid
      · rw [hrun] at h; cases h
    · rcases TestnetChain.appendBlocks_cases (S := S) hn.chain incoming with
        ⟨s', hrun, -⟩ | ⟨e, s', hrun, hsame⟩
      · rw [hrun] at h; cases h
      · rw [hrun] at h; cases h; exact hsame
  | activate candidate =>
    have hexec : (Operation.activate candidate).exec S = (do
        let _ ← onChain (TestnetChain.activateIfMoreWork S candidate); revalidate : NodeM σ Unit) := by
      simp only [Operation.exec, activate, bind_assoc, pure_bind, bind_pure_unit]
    rw [hexec]
    refine bind_revalidate_outcome hn (fun r chain h => ?_) fun e chain h => ?_
    · rcases TestnetChain.activateIfMoreWork_ok hn.chain h with ⟨-, rfl⟩ | ⟨-, hvalid, -⟩
      · exact hn.chain
      · exact hvalid
    · exact TestnetChain.activateIfMoreWork_keeps candidate _ _ _ h
  | generate clock count script =>
    cases hrun : ((Operation.generate clock count script).exec S).run n with
    | error e n' => exact fun h => absurd rfl (h clock count script)
    | ok x n' =>
      simp only [Operation.exec, generate, run_bind_ok, run_get_ok, onChain_run_ok,
        onMempool_run_ok] at hrun
      obtain ⟨_, _, ⟨rfl, rfl⟩, _, _, ⟨chain, hgen, rfl⟩, mempool, hclear, rfl⟩ := hrun
      have hvalid := TestnetChain.generate_ok (fun _ => hn.chain) hgen
      obtain ⟨-, rfl⟩ := TestnetMempool.setTransactions_save_ok.1 hclear
      exact ⟨hvalid, _, spendHeight_ok hvalid.ne_nil, mempoolOk_nil⟩

theorem Step.ok {n n' : Node σ} {operation : Operation} (hn : n.Ok) (h : Step S n operation n') :
    n'.Ok := by
  have houtcome := exec_outcome (S := S) hn operation
  cases h with
  | returned h => rw [h] at houtcome; exact houtcome
  | threw h hop => rw [h] at houtcome; exact houtcome hop

/-! ## Sequences of operations -/

/-- What the invariant is for: the mempool can be evaluated and mined. -/
structure Consistent (n : Node σ) : Prop where
  nodup : ∃ ids, n.mempool.transactions.mapM Transaction.txid = .ok ids ∧ ids.Nodup
  /-- Each transaction applies after the ones before it; `total_fees` and the loop of `generate`
      end with the same set and the same fees. -/
  fees : ∃ height fees u, n.chain.spendHeight = .ok height ∧
    Applies height n.chain.utxos n.mempool.transactions fees u ∧
    TestnetMempool.effectiveUtxos n.mempool.transactions n.chain.utxos height = .ok u ∧
    TestnetMempool.totalFees n.mempool.transactions n.chain.utxos height = .ok fees ∧
    onCopy (applyTransactions "Candidate block fee overflow" height 0 n.mempool.transactions)
      n.chain.utxos = .ok (fees, u)

theorem Ok.consistent {n : Node σ} (h : n.Ok) : n.Consistent := by
  obtain ⟨hc, height, hheight, ⟨fees, u, happlies⟩, hnodup⟩ := h
  obtain ⟨htotal, hnn⟩ := Chain.total hc
  have hlen : n.chain.blocks.length - 1 < 2 ^ 64 := by
    have := Chain.length_le hc
    omega
  have hmoney : n.chain.utxos.total ≤ maxMoney := htotal ▸ subsidySum_le hlen
  have hloop : (applyTransactions "Candidate block fee overflow" height 0
      n.mempool.transactions).run n.chain.utxos = .ok fees u := by
    simpa using happlies.applyTransactions hnn (by omega : 0 + n.chain.utxos.total ≤ maxMoney)
  exact ⟨⟨_, mapM_txid_ok.2 ⟨happlies.wellFormed, rfl⟩, hnodup⟩, height, fees, u, hheight, happlies,
    TestnetMempool.effectiveUtxos_ok.2 ⟨fees, happlies⟩,
    TestnetMempool.totalFees_ok happlies hnn hmoney, onCopy_ok.2 hloop⟩

/-- **The mempool stays valid.**  From a chain with an empty mempool, any sequence of operations
    leads to a mempool whose transactions apply in order and have different ids. -/
theorem mempool_stays_valid {n n' : Node σ} {operations : List Operation} (hc : n.chain.Valid)
    (hempty : n.mempool.transactions = []) (h : Run (Step S) n operations n') : n'.Consistent := by
  have hn : n.Ok := ⟨hc, _, spendHeight_ok hc.ne_nil, hempty ▸ mempoolOk_nil⟩
  exact (h.invariant (fun _ _ _ hs hstep => hstep.ok hs) hn).consistent

end Node

end BinaryCoin
