/-
  BinaryCoin — what is left when a call throws.

  `apply_transaction` erases the inputs before it has made sure that it can add
  the outputs, and `generate` extends the chain of the object before it has
  verified and stored it.  Both leave their argument alone exactly when nothing
  throws behind those points.
-/
import BinaryCoin.Extension
import BinaryCoin.Restart

namespace BinaryCoin

open Cursor LittleEndian Std

section
variable [Crypto]

/-! ## `apply_transaction` -/

omit [Crypto] in
/-- The loop that adds outputs touches no other transaction's. -/
theorem addOutputs_mem {what : String} {txid : Str} {height : UInt64} {coinbase : Bool}
    {outputs : List (TxOutput × ℕ)} {u u' : UtxoSet}
    (h : (∃ x, (addOutputs what txid height coinbase outputs).run u = .ok x u') ∨
      ∃ e, (addOutputs what txid height coinbase outputs).run u = .error e u') {o : OutPoint}
    (ho : o ∈ u') : o ∈ u ∨ o.txid = txid := by
  induction outputs generalizing u with
  | nil =>
    rcases h with ⟨x, h⟩ | ⟨e, h⟩
    · obtain ⟨-, rfl⟩ := run_pure_ok.1 h
      exact .inl ho
    · cases h
  | cons p rest ih =>
    obtain ⟨output, index⟩ := p
    by_cases htaken : u.contains ⟨txid, UInt32.ofNat index⟩
    · have hrun : (addOutputs what txid height coinbase ((output, index) :: rest)).run u =
          .error (runtimeError what) u := by
        rw [addOutputs, run_bind_of_ok (show (get : EStateM Exn UtxoSet UtxoSet).run u = .ok u u from rfl),
          throwIf, if_pos htaken]
        rfl
      rcases h with ⟨x, h⟩ | ⟨e, h⟩
      · cases hrun.symm.trans h
      · cases hrun.symm.trans h
        exact .inl ho
    · have hrun : (addOutputs what txid height coinbase ((output, index) :: rest)).run u =
          (addOutputs what txid height coinbase rest).run
            (u.insert ⟨txid, UInt32.ofNat index⟩ ⟨output, height, coinbase⟩) := by
        rw [addOutputs, run_bind_of_ok (show (get : EStateM Exn UtxoSet UtxoSet).run u = .ok u u from rfl),
          throwIf, if_neg htaken]
        rfl
      rw [hrun] at h
      rcases ih h with hmem | hid
      · rcases ExtTreeMap.mem_insert.1 hmem with heq | hmem
        · obtain rfl := LawfulEqOrd.eq_of_compare heq
          exact .inr rfl
        · exact .inl hmem
      · exact .inr hid

omit [Crypto] in
/-- A taken outpoint stops the loop. -/
theorem addOutputs_taken {what : String} {txid : Str} {height : UInt64} {coinbase : Bool}
    {outputs : List (TxOutput × ℕ)} {u u' : UtxoSet} {x : Unit} {p : TxOutput × ℕ}
    (hp : p ∈ outputs) (htaken : (⟨txid, UInt32.ofNat p.2⟩ : OutPoint) ∈ u) :
    (addOutputs what txid height coinbase outputs).run u ≠ .ok x u' := by
  induction outputs generalizing u with
  | nil => cases hp
  | cons q rest ih =>
    obtain ⟨output, index⟩ := q
    intro h
    simp only [addOutputs, run_bind_ok, run_get_ok, throwIf_run_ok, run_modify_ok] at h
    obtain ⟨_, _, ⟨rfl, rfl⟩, _, _, ⟨hfree, rfl⟩, _, _, rfl, h⟩ := h
    rcases List.mem_cons.1 hp with rfl | hp
    · exact hfree (ExtTreeMap.contains_iff_mem.2 htaken)
    · exact ih hp (ExtTreeMap.mem_insert.2 (.inr htaken)) h

/-- An outpoint that is taken lets a transaction throw without its inputs in the set. -/
theorem applyTransaction_loses {t : Transaction} {height : UInt64} {u : UtxoSet}
    (hother : ∀ input ∈ t.inputs, input.previousOutput.txid ≠ t.id)
    (hkeeps : ∀ e u', (applyTransaction t height).run u = .error e u' → u' = u)
    (hchecked : t.Checked height u) : t.OutputsFree u := by
  intro n hn htaken
  obtain ⟨fee, hrun⟩ := applyTransaction_checked hchecked
  have hp : (t.outputs[n], n) ∈ t.outputs.zipIdx :=
    List.mem_zipIdx_iff_getElem?.2 (List.getElem?_eq_getElem hn)
  cases hadd : (addOutputs "Duplicate transaction output identifier" t.id height false
      t.outputs.zipIdx).run (eraseInputs u t.inputs) with
  | ok x u' => exact addOutputs_taken hp htaken hadd
  | error e u' =>
    have hthrown : (applyTransaction t height).run u = .error e u' := by
      rw [hrun, EStateM.run_bind, hadd]
    obtain rfl := hkeeps e u' hthrown
    -- the first input is gone
    obtain ⟨input, hinput⟩ := List.exists_mem_of_ne_nil _ hchecked.wellFormed.inputs_ne
    obtain ⟨total, hscan, -⟩ := hchecked.inputs
    obtain ⟨k, hk⟩ := List.mem_iff_getElem?.1 hinput
    obtain ⟨coin, hcoin, -⟩ := (scanInputs_ok hscan).2.1 (input, k) (List.mem_zipIdx_iff_getElem?.2 hk)
    rcases addOutputs_mem (.inr ⟨e, hadd⟩) (mem_iff_some.2 ⟨coin, hcoin⟩) with hmem | hid
    · exact eraseInputs_notMem (List.mem_map_of_mem hinput) hmem
    · exact hother input hinput hid

/-- **When `apply_transaction` leaves the set alone**: where a transaction that passes the checks
    finds its outputs free, and, for a transaction that does not spend outputs of its own, only
    there. -/
theorem applyTransaction_keeps_iff (t : Transaction) (height : UInt64) (u : UtxoSet) :
    ((t.Checked height u → t.OutputsFree u) →
      ∀ e u', (applyTransaction t height).run u = .error e u' → u' = u) ∧
    ((∀ input ∈ t.inputs, input.previousOutput.txid ≠ t.id) →
      (∀ e u', (applyTransaction t height).run u = .error e u' → u' = u) →
      t.Checked height u → t.OutputsFree u) :=
  ⟨fun hfree _ _ h => applyTransaction_keeps hfree h, applyTransaction_loses⟩

/-! ## `generate` -/

/-- The body of the loop of `generate`, up to the point where it extends the chain. -/
def nextBlock (clock : ℕ → Int64) (script : Bytes) (pending : List Transaction) (generated : ℕ)
    (blocks : List StoredBlock) (current : UtxoSet) : Except Exn (StoredBlock × UtxoSet) := do
  let previous ← back blocks
  let height := previous.height + 1
  let transactions := if generated = 0 then pending else []
  let applied ← onCopy (applyTransactions "Candidate block fee overflow" height 0 transactions) current
  let block ← mineTestnetBlock (clock generated) height (← previous.hashHex)
    previous.block.header.time testnetBits script transactions applied.1
  let coinbase ← orThrow block.transactions.head? (outOfRange "front() of an empty vector")
  let added ← onCopy (addCoinbaseOutputs coinbase height) applied.2
  return (⟨height, block⟩, added.2)

omit [Crypto] in
theorem lift_bind_eq {τ α β : Type} (x : Except Exn α) (f : α → Except Exn β) :
    (liftM (x >>= f) : EStateM Exn τ β) = liftM x >>= fun a => liftM (f a) := by
  funext s
  cases x <;> rfl

namespace TestnetChain

variable {σ : Type} {S : ChainStore σ} {clock : ℕ → Int64} {script : Bytes}
  {pending : List Transaction} {count generated : ℕ} {current u : UtxoSet} {s s' : TestnetChain σ}

theorem generateFrom_succ : (generateFrom clock script pending (count + 1) generated current).run s =
    (do
      let next ← (nextBlock clock script pending generated s.blocks current : ChainM σ _)
      setBlocks (s.blocks ++ [next.1])
      generateFrom clock script pending count (generated + 1) next.2 : ChainM σ UtxoSet).run s := by
  rw [generateFrom, run_bind_of_ok (show (get : ChainM σ _).run s = .ok s s from rfl), nextBlock]
  simp only [lift_bind_eq, bind_assoc]
  rfl

theorem generateFrom_error {e : Exn}
    (h : nextBlock clock script pending generated s.blocks current = .error e) :
    (generateFrom clock script pending (count + 1) generated current).run s = .error e s := by
  rw [generateFrom_succ, h]
  rfl

theorem generateFrom_ok_succ {next : StoredBlock × UtxoSet}
    (h : nextBlock clock script pending generated s.blocks current = .ok next) :
    (generateFrom clock script pending (count + 1) generated current).run s =
      (generateFrom clock script pending count (generated + 1) next.2).run
        { s with blocks := s.blocks ++ [next.1] } := by
  rw [generateFrom_succ, h]
  rfl

/-- The loop only ever adds blocks. -/
theorem generateFrom_grows (clock : ℕ → Int64) (script : Bytes) (pending : List Transaction)
    (count generated : ℕ) (current : UtxoSet) (s : TestnetChain σ) : ∃ bs,
    (after ((generateFrom clock script pending count generated current).run s)).blocks =
      s.blocks ++ bs := by
  induction count generalizing generated current s with
  | zero => exact ⟨[], (List.append_nil _).symm⟩
  | succ count ih =>
    cases hnext : nextBlock clock script pending generated s.blocks current with
    | error e =>
      rw [generateFrom_error hnext]
      exact ⟨[], (List.append_nil _).symm⟩
    | ok next =>
      rw [generateFrom_ok_succ hnext]
      obtain ⟨bs, hbs⟩ := ih (generated + 1) next.2 { s with blocks := s.blocks ++ [next.1] }
      exact ⟨next.1 :: bs, by rw [hbs]; simp⟩

/-- A block that is made above a tip whose time is not the last one extends the chain. -/
theorem nextBlock_chain {blocks : List StoredBlock} {last : StoredBlock} {next : StoredBlock × UtxoSet}
    (hc : Chain blocks current) (hlast : blocks.getLast? = some last)
    (htime : last.block.header.time ≠ 0xffffffff)
    (h : nextBlock clock script pending generated blocks current = .ok next) :
    Chain (blocks ++ [next.1]) next.2 := by
  simp only [nextBlock, except_bind_ok, except_pure_ok, orThrow_ok, back_ok] at h
  obtain ⟨previous, hprevious, ⟨fees, u₁⟩, happly, hash, hhash, block, hmine, coinbase, hfront,
    ⟨_, u₂⟩, hadd, rfl⟩ := h
  cases hlast.symm.trans hprevious
  obtain ⟨below, rfl⟩ := List.getLast?_eq_some_iff.1 hlast
  have hmined := mineTestnetBlock_spec hmine
  obtain ⟨coinbase', htxs, hmake⟩ := hmined.transactions
  obtain rfl : coinbase' = coinbase := by simpa [htxs] using hfront
  have hvalue : coinbase'.outputValue = blockSubsidy (last.height + 1) + fees := by
    simp [Transaction.outputValue, makeTestnetCoinbase_outputs hmake]
  -- the pending transactions, one after the other
  have hrun := onCopy_ok.1 happly
  obtain ⟨fees', happlies⟩ := Applies.iff_applyEach.1 (applyTransactions_ok hrun).2
  obtain ⟨htotal, hnn⟩ := hc.total
  have hlen := hc.length_le
  have hmoney : (0 : ℤ) + current.total ≤ maxMoney := by
    rw [zero_add, htotal]
    exact subsidySum_le (by omega)
  have hloop : (applyTransactions "Candidate block fee overflow" (last.height + 1) 0
      (if generated = 0 then pending else [])).run current = .ok fees' u₁ := by
    simpa using happlies.applyTransactions hnn hmoney
  cases hloop.symm.trans hrun
  have hchain := hc.connect (hmined.headerOk hc hhash htime) htxs
    (makeTestnetCoinbase_ok hmake) happlies hvalue (onCopy_ok.1 hadd)
  simpa using hchain

/-- No block was mined above one with the last time. -/
def RoomForTime (start : ℕ) (blocks : List StoredBlock) : Prop :=
  ∀ i b, start ≤ i + 1 → i + 1 < blocks.length → blocks[i]? = some b →
    b.block.header.time ≠ 0xffffffff

theorem generateFrom_chain (hc : Chain s.blocks current)
    (h : (generateFrom clock script pending count generated current).run s = .ok u s')
    (htime : RoomForTime s.blocks.length s'.blocks) : Chain s'.blocks u := by
  induction count generalizing generated current s with
  | zero =>
    obtain ⟨rfl, rfl⟩ := run_pure_ok.1 h
    exact hc
  | succ count ih =>
    cases hnext : nextBlock clock script pending generated s.blocks current with
    | error e =>
      rw [generateFrom_error hnext] at h
      cases h
    | ok next =>
      rw [generateFrom_ok_succ hnext] at h
      have hpos := List.length_pos_of_ne_nil hc.ne_nil
      obtain ⟨bs, hbs⟩ := generateFrom_grows clock script pending count (generated + 1) next.2
        { s with blocks := s.blocks ++ [next.1] }
      rw [h] at hbs
      have hblocks : s'.blocks = s.blocks ++ next.1 :: bs := by simpa [after] using hbs
      have hlast := List.getLast?_eq_some_getLast hc.ne_nil
      have htip : (s.blocks.getLast hc.ne_nil).block.header.time ≠ 0xffffffff := by
        refine htime (s.blocks.length - 1) _ (by omega) ?_ ?_
        · rw [hblocks]
          simp only [List.length_append, List.length_cons]
          omega
        · rw [hblocks, List.getElem?_append_left (by omega), ← List.getLast?_eq_getElem?, hlast]
      refine ih (nextBlock_chain hc hlast htip hnext) h fun i b hi => htime i b ?_
      simp only [List.length_append, List.length_singleton] at hi
      omega

/-- In an accepted chain there is always room. -/
theorem roomForTime {blocks : List StoredBlock} (hc : Chain blocks u) (start : ℕ) :
    RoomForTime start blocks := by
  intro i b _ hlt hb
  have hnext := List.getElem?_eq_getElem hlt
  have hpair := List.pairwise_iff_getElem.1 hc.times i (i + 1) (by simpa using Nat.lt_of_succ_lt hlt)
    (by simpa using hlt) (Nat.lt_succ_self i)
  obtain ⟨hi, hget⟩ := List.getElem?_eq_some_iff.1 hb
  simp only [List.getElem_map, hget] at hpair
  intro hmax
  rw [hmax, UInt32.lt_iff_toNat_lt] at hpair
  have hle := (blocks[i + 1]).block.header.time.toNat_lt
  simp only [UInt32.reduceToNat] at hpair
  omega

/-- Nothing throws behind the first block: the others can be made, none of them above a tip with the
    last time, and the store takes the chain. -/
def Completes (S : ChainStore σ) (clock : ℕ → Int64) (script : Bytes) (pending : List Transaction)
    (count : ℕ) (s : TestnetChain σ) : Prop :=
  ∃ s₁ u storage, (generateFrom clock script pending count 0 s.utxos).run s = .ok u s₁ ∧
    RoomForTime s.blocks.length s₁.blocks ∧ (S.commit s₁.blocks u).run s₁.storage = .ok () storage

variable {count : UInt64}

theorem generate_run (hs : s.Valid) : (generate S clock count script pending).run s = (do
    let current ← generateFrom clock script pending count.toNat 0 s.utxos
    verify
    setUtxos current
    save S : ChainM σ Unit).run s := by
  rw [generate, run_bind_of_ok (initializeIfEmpty_run hs.ne_nil)]
  rfl

/-- `generate` returns exactly when nothing throws on the way. -/
theorem generate_returns_iff (hs : s.Valid) :
    (∃ s', (generate S clock count script pending).run s = .ok () s') ↔
      Completes S clock script pending count.toNat s := by
  rw [generate_run hs]
  constructor
  · rintro ⟨s', h⟩
    simp only [run_bind_ok, verify_ok, setUtxos_run_ok, save, run_get_ok, onStorage_run_ok] at h
    obtain ⟨u, s₁, hloop, _, _, ⟨hverify, rfl⟩, _, _, rfl, _, _, ⟨rfl, rfl⟩, storage, hcommit, -⟩ := h
    obtain ⟨u', hc⟩ := verifyBlocks_iff.1 hverify
    exact ⟨_, u, storage, hloop, roomForTime hc _, hcommit⟩
  · rintro ⟨s₁, u, storage, hloop, htime, hcommit⟩
    have hc := generateFrom_chain hs hloop htime
    rw [run_bind_of_ok hloop, run_bind_of_ok (verify_ok (x := ()).2 ⟨verifyBlocks_iff.2 ⟨u, hc⟩, rfl⟩),
      run_bind_of_ok (setUtxos_run_ok (x := ()).2 rfl)]
    refine ⟨{ s₁ with utxos := u, storage := storage }, ?_⟩
    simp only [save, run_bind_ok, run_get_ok, onStorage_run_ok]
    exact ⟨_, _, ⟨rfl, rfl⟩, storage, hcommit, rfl⟩

/-- What follows the loop leaves the blocks as they are. -/
theorem finish_blocks (u : UtxoSet) (s : TestnetChain σ) :
    (after ((do verify; setUtxos u; save S : ChainM σ Unit).run s)).blocks = s.blocks := by
  cases hverify : verifyBlocks s.blocks with
  | error e =>
    have hrun : (verify : ChainM σ Unit).run s = .error e s := by
      rw [verify, run_bind_of_ok (show (get : ChainM σ _).run s = .ok s s from rfl), hverify]
      rfl
    rw [EStateM.run_bind, hrun]
    rfl
  | ok x =>
    rw [run_bind_of_ok (verify_ok (x := ()).2 ⟨hverify, rfl⟩),
      run_bind_of_ok (setUtxos_run_ok (x := ()).2 rfl), save,
      run_bind_of_ok (show (get : ChainM σ _).run _ = .ok _ _ from rfl)]
    simp only [onStorage, EStateM.run]
    cases S.commit s.blocks u s.storage <;> rfl

/-- With no block to make nothing changes but the store. -/
theorem generate_none (hs : s.Valid) (hzero : count.toNat = 0) {e : Exn}
    (h : (generate S clock count script pending).run s = .error e s') : Same s s' := by
  have hc : Chain s.blocks s.utxos := hs
  rw [generate_run hs, hzero, run_bind_of_ok (show (generateFrom clock script pending 0 0
    s.utxos).run s = .ok s.utxos s from rfl),
    run_bind_of_ok (verify_ok (x := ()).2 ⟨verifyBlocks_iff.2 ⟨_, hc⟩, rfl⟩),
    run_bind_of_ok (setUtxos_run_ok (x := ()).2 rfl), save,
    run_bind_of_ok (show (get : ChainM σ _).run _ = .ok _ _ from rfl)] at h
  simp only [onStorage, EStateM.run] at h
  cases hcommit : S.commit s.blocks s.utxos s.storage with
  | ok x storage => rw [hcommit] at h; cases h
  | error e storage => rw [hcommit] at h; cases h; exact ⟨rfl, rfl⟩

/-- Behind the first block an exception leaves it in the object. -/
theorem generate_loses (hs : s.Valid) (hpos : count.toNat ≠ 0) {next : StoredBlock × UtxoSet} {e : Exn}
    (hnext : nextBlock clock script pending 0 s.blocks s.utxos = .ok next)
    (h : (generate S clock count script pending).run s = .error e s') : ¬ Same s s' := by
  obtain ⟨rounds, hrounds⟩ := Nat.exists_eq_succ_of_ne_zero hpos
  have hblocks : ∃ bs, s'.blocks = s.blocks ++ next.1 :: bs := by
    rw [generate_run hs, hrounds, EStateM.run_bind, generateFrom_ok_succ hnext] at h
    obtain ⟨bs, hbs⟩ := generateFrom_grows clock script pending rounds 1 next.2
      { s with blocks := s.blocks ++ [next.1] }
    rw [List.append_assoc, List.singleton_append] at hbs
    cases hrun : (generateFrom clock script pending rounds 1 next.2).run
        { s with blocks := s.blocks ++ [next.1] } with
    | ok u s₁ =>
      rw [hrun] at h hbs
      have hfinish := finish_blocks (S := S) u s₁
      dsimp only at h
      rw [h] at hfinish
      exact ⟨bs, hfinish.trans hbs⟩
    | error e₁ s₁ =>
      rw [hrun] at h hbs
      cases h
      exact ⟨bs, hbs⟩
  rintro ⟨hsame, -⟩
  obtain ⟨bs, hbs⟩ := hblocks
  have hlen := congrArg List.length (hbs.symm.trans hsame)
  simp only [List.length_append, List.length_cons] at hlen
  omega

/-- **When `generate` is all-or-nothing**: with no block to make, where the first block cannot be
    made, and where nothing throws behind it. -/
theorem generate_keeps_iff (hs : s.Valid) :
    (∀ e s', (generate S clock count script pending).run s = .error e s' → Same s s') ↔
      count = 0 ∨ (∃ e, nextBlock clock script pending 0 s.blocks s.utxos = .error e) ∨
        Completes S clock script pending count.toNat s := by
  have hzero : count = 0 ↔ count.toNat = 0 := UInt64.toNat_inj.symm
  rw [hzero]
  constructor
  · intro hkeeps
    by_cases hcount : count.toNat = 0
    · exact .inl hcount
    cases hnext : nextBlock clock script pending 0 s.blocks s.utxos with
    | error e => exact .inr (.inl ⟨e, rfl⟩)
    | ok next =>
      refine .inr (.inr ((generate_returns_iff hs).1 ?_))
      cases hrun : (generate S clock count script pending).run s with
      | ok x s' => exact ⟨s', rfl⟩
      | error e s' => exact absurd (hkeeps e s' hrun) (generate_loses hs hcount hnext hrun)
  · rintro (hcount | ⟨e₁, hnext⟩ | hcompletes) e s' h
    · exact generate_none hs hcount h
    · by_cases hcount : count.toNat = 0
      · exact generate_none hs hcount h
      obtain ⟨rounds, hrounds⟩ := Nat.exists_eq_succ_of_ne_zero hcount
      rw [generate_run hs, hrounds, EStateM.run_bind, generateFrom_error hnext] at h
      cases h
      exact .refl s
    · obtain ⟨s₁, hrun⟩ := (generate_returns_iff hs).2 hcompletes
      cases hrun.symm.trans h

end TestnetChain

end

/-! ## What is lost -/

section

attribute [local instance] sampleCrypto

/-- The output of the first block, beside one that bears the identifier of its spender. -/
def takenOutputs : UtxoSet :=
  ((∅ : UtxoSet).insert firstOutput firstCoin).insert ⟨firstSpend.id, 0⟩ firstCoin

/-- The spender throws before it has erased anything while its input is too young. -/
theorem applyTransaction_keeps_young : (∃ e u',
      (applyTransaction firstSpend 100).run takenOutputs = .error e u') ∧
    (∀ e u', (applyTransaction firstSpend 100).run takenOutputs = .error e u' → u' = takenOutputs) ∧
    (firstSpend.Checked 100 takenOutputs → firstSpend.OutputsFree takenOutputs) := by
  obtain ⟨hscan, hother⟩ : (scanInputs firstSpend 100 takenOutputs).isOk = false ∧
      ∀ input ∈ firstSpend.inputs, input.previousOutput.txid ≠ firstSpend.id := by
    decide +kernel
  have hyoung : ¬ firstSpend.Checked 100 takenOutputs := by
    intro hchecked
    obtain ⟨total, htotal, -⟩ := hchecked.inputs
    rw [htotal] at hscan
    cases hscan
  obtain ⟨hkeeps, hloses⟩ := applyTransaction_keeps_iff firstSpend 100 takenOutputs
  have hkept := hkeeps fun hchecked => absurd hchecked hyoung
  obtain ⟨e, hthrows⟩ := applyTransaction_unchecked hyoung
  exact ⟨⟨e, _, hthrows⟩, hkept, hloses hother hkept⟩

/-- Whether a result is an exception that leaves an output erased. -/
def erasedOnThrow (outpoint : OutPoint) : EStateM.Result Exn UtxoSet ℤ → Bool
  | .ok _ _ => false
  | .error _ u => !u.contains outpoint

/-- The spender has erased its input when it finds its output taken. -/
theorem applyTransaction_not_atomic : ∃ (t : Transaction) (height : UInt64) (u u' : UtxoSet) (e : Exn),
    (applyTransaction t height).run u = .error e u' ∧ u' ≠ u := by
  obtain ⟨htaken, hrun⟩ : takenOutputs.contains firstOutput = true ∧
      erasedOnThrow firstOutput ((applyTransaction firstSpend 101).run takenOutputs) = true := by
    decide +kernel
  cases h : (applyTransaction firstSpend 101).run takenOutputs with
  | ok fee u' => rw [h] at hrun; cases hrun
  | error e u' =>
    rw [h] at hrun
    refine ⟨_, _, _, u', e, h, ?_⟩
    rintro rfl
    rw [erasedOnThrow, htaken] at hrun
    cases hrun

end

section

/-- A block above the genesis block, at the last time there is. -/
def lastTimeBlock : StoredBlock where
  height := 1
  block := ⟨⟨1, testnetGenesisHash, testnetGenesisMerkle, 0xffffffff, testnetBits, 46736⟩,
    [genesisCoinbase]⟩

def lastTimeHash : ℕ := 0x000053355caa3b05093fd32dd8beedd4f8d7f8827481460fa01f5f087deafd87

/-- The digests of this block and of the one that is mined above it. -/
def lastTimeDigests : List (ℕ × ℕ) :=
  (ofLe lastTimeBlock.block.header.encode,
    0x08681a5758e4cb3b907638858732540c95d448867d4fb304a36a7f20cfdb39aa) ::
  (0x08681a5758e4cb3b907638858732540c95d448867d4fb304a36a7f20cfdb39aa, lastTimeHash) ::
  (ofLe (headerOf lastTimeHash 0xe692c818d14f51eaae540c94bbc7c5019e5ac429100892329fc305e07c95d3cf
      1784767124 0).encode,
    0xef36b6be5da1aec6b465f1cb5a52eb108f2294a4bac5f782af092e865a7e4a93) ::
  (0xef36b6be5da1aec6b465f1cb5a52eb108f2294a4bac5f782af092e865a7e4a93,
    0x00003df0210db4279c5b4ee8a9f358187c38b60b78eac4a53d8790d231c8118f) ::
  (ofLe (minedCoinbase 2).encode,
    0xe05fa53004569031a6f7f4f684b2859d39829faddfe812cc419dfa90a6557765) ::
  (0xe05fa53004569031a6f7f4f684b2859d39829faddfe812cc419dfa90a6557765,
    0xe692c818d14f51eaae540c94bbc7c5019e5ac429100892329fc305e07c95d3cf) ::
  genesisDigests

abbrev lastTimeCrypto : Crypto := .ofTable lastTimeDigests

attribute [local instance] lastTimeCrypto

/-- The time at which the next block is mined. -/
def lateClock : ℕ → Int64 := fun _ => 1784767124

/-- The chain that ends there. -/
def lastTimeChain (u : UtxoSet) : TestnetChain (Option (List StoredBlock × UtxoSet)) :=
  { TestnetChain.new "data" none with blocks := [genesisStored, lastTimeBlock], utxos := u }

theorem lastTimeChain_valid : ∃ u, (lastTimeChain u).Valid := by
  have haccepted : verifyBlocks [genesisStored, lastTimeBlock] = .ok () := by decide +kernel
  exact verifyBlocks_iff.1 haccepted

theorem lastTimeChain_next : ∃ u, (lastTimeChain u).Valid ∧
    ∃ next, nextBlock lateClock sampleScript [] 0 (lastTimeChain u).blocks (lastTimeChain u).utxos =
      .ok next := by
  obtain ⟨u, hvalid⟩ := lastTimeChain_valid
  refine ⟨u, hvalid, ?_⟩
  have hbuild : buildUtxoSet [genesisStored, lastTimeBlock] = .ok u := Chain.build hvalid
  have hnext : (do
      let u ← buildUtxoSet [genesisStored, lastTimeBlock]
      nextBlock lateClock sampleScript [] 0 [genesisStored, lastTimeBlock] u).isOk = true := by
    decide +kernel
  rw [hbuild] at hnext
  change (nextBlock lateClock sampleScript [] 0 [genesisStored, lastTimeBlock] u).isOk = true at hnext
  cases h : nextBlock lateClock sampleScript [] 0 [genesisStored, lastTimeBlock] u with
  | ok next => exact ⟨next, h⟩
  | error e => rw [h] at hnext; cases hnext

theorem generate_keeps_iff_lastTime : ∃ s : TestnetChain (Option (List StoredBlock × UtxoSet)),
    (∀ e s', (TestnetChain.generate .memory lateClock 1 sampleScript []).run s = .error e s' →
      TestnetChain.Same s s') ↔
    (1 : UInt64) = 0 ∨ (∃ e, nextBlock lateClock sampleScript [] 0 s.blocks s.utxos = .error e) ∨
      TestnetChain.Completes .memory lateClock sampleScript [] (1 : UInt64).toNat s := by
  obtain ⟨u, hvalid⟩ := lastTimeChain_valid
  exact ⟨lastTimeChain u, TestnetChain.generate_keeps_iff hvalid⟩

/-- The time of the new block has wrapped around, which is noticed when it is in the object. -/
theorem generate_not_atomic : ∃ (s s' : TestnetChain (Option (List StoredBlock × UtxoSet)))
    (clock : ℕ → Int64) (count : UInt64) (script : Bytes) (pending : List Transaction) (e : Exn),
    s.Valid ∧ (TestnetChain.generate .memory clock count script pending).run s = .error e s' ∧
    ¬ TestnetChain.Same s s' := by
  obtain ⟨u, hvalid, next, hnext⟩ := lastTimeChain_next
  cases hrun : (TestnetChain.generate .memory lateClock 1 sampleScript []).run (lastTimeChain u) with
  | error e s' =>
    exact ⟨_, s', _, 1, _, _, e, hvalid, hrun, TestnetChain.generate_loses hvalid (by decide) hnext hrun⟩
  | ok x s' =>
    -- the chain would have no room for the time
    obtain ⟨s₁, u₁, storage, hloop, htime, -⟩ :=
      (TestnetChain.generate_returns_iff hvalid).1 ⟨s', hrun⟩
    obtain ⟨bs, hbs⟩ := TestnetChain.generateFrom_grows lateClock sampleScript [] 0 1 next.2
      { lastTimeChain u with blocks := (lastTimeChain u).blocks ++ [next.1] }
    rw [show (1 : UInt64).toNat = 0 + 1 from rfl, TestnetChain.generateFrom_ok_succ hnext] at hloop
    rw [hloop] at hbs
    have hblocks : s₁.blocks = [genesisStored, lastTimeBlock, next.1] ++ bs := hbs
    refine absurd rfl (htime 1 lastTimeBlock (Nat.le_refl 2) ?_ ?_)
    · rw [hblocks, List.length_append]
      exact Nat.lt_of_lt_of_le (Nat.lt_succ_self 2) (Nat.le_add_right _ _)
    · rw [hblocks]
      rfl

end

end BinaryCoin
