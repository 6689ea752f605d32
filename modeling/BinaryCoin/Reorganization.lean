/-
  BinaryCoin — the mempool after a reorganization.

  `activate_candidate` and `sync_from_peer` first revalidate the mempool on
  the new chain and then add the disconnected transactions again.  Two lists
  that apply one after the other apply in the other order where they do not
  interfere (`Applies.transfer`); here that is exactly where no transaction of
  the mempool spends an output of a disconnected one.
-/
import BinaryCoin.Mined

namespace BinaryCoin

open Cursor LittleEndian Runs Std

section
variable [Crypto]

/-! ## Applying a transaction to another set -/

theorem scanInputs_congr {t : Transaction} {height : UInt64} {u v : UtxoSet}
    (h : ∀ i ∈ t.inputs, v[i.previousOutput]? = u[i.previousOutput]?) :
    scanInputs t height v = scanInputs t height u := by
  have hfold : ∀ (entries : List (TxInput × ℕ)) (state : List OutPoint × ℤ),
      (∀ e ∈ entries, v[e.1.previousOutput]? = u[e.1.previousOutput]?) →
      entries.foldlM (scanInput t height v) state = entries.foldlM (scanInput t height u) state := by
    intro entries
    induction entries with
    | nil => intro _ _; rfl
    | cons e es ih =>
      intro state he
      obtain ⟨he, hes⟩ := List.forall_mem_cons.1 he
      have hstep : scanInput t height v state e = scanInput t height u state e := by
        simp only [scanInput, he]
      simp only [List.foldlM_cons, hstep, ih _ hes]
  rw [scanInputs, scanInputs, hfold]
  intro e he
  exact h e.1 (List.fst_mem_of_mem_zipIdx he)

/-- A transaction that applies to one set applies to any other on which the scan of its inputs ends
    with the same total and its outputs are not taken. -/
theorem applyTransaction_of_scan {t : Transaction} {height height' : UInt64} {u u' v : UtxoSet}
    {fee : ℤ} (h : (applyTransaction t height).run u = .ok fee u')
    (hscan : ∀ total, scanInputs t height u = .ok total → scanInputs t height' v = .ok total)
    (hfree : t.OutputsFree v) : ∃ v', (applyTransaction t height').run v = .ok fee v' := by
  simp only [applyTransaction, run_bind_ok, throwIf_run_ok, lift_run_ok, run_get_ok, run_set_ok,
    run_pure_ok] at h ⊢
  obtain ⟨_, _, ⟨hstruct, rfl⟩, _, _, ⟨hcb, rfl⟩, _, _, ⟨rfl, rfl⟩, inputTotal, _, ⟨htotal, rfl⟩,
    outputTotal, _, ⟨hsum, rfl⟩, _, _, ⟨hle, rfl⟩, _, _, rfl, txid, _, ⟨htxid, rfl⟩, _, _, -,
    rfl, rfl⟩ := h
  obtain ⟨hst, rfl⟩ := Transaction.txid_ok.1 htxid
  obtain ⟨v', hv'⟩ := hfree.run hst
  exact ⟨v', (), v, ⟨hstruct, rfl⟩, (), v, ⟨hcb, rfl⟩, v, v, ⟨rfl, rfl⟩, inputTotal, v,
    ⟨hscan _ htotal, rfl⟩, outputTotal, v, ⟨hsum, rfl⟩, (), v, ⟨hle, rfl⟩, (),
    _, rfl, t.id, _, ⟨htxid, rfl⟩, (), v', hv', rfl, rfl⟩

/-- A transaction applies to any set that agrees on its inputs and has none of its outputs. -/
theorem applyTransaction_of_agree {t : Transaction} {height : UInt64} {u u' v : UtxoSet} {fee : ℤ}
    (h : (applyTransaction t height).run u = .ok fee u')
    (hagree : ∀ i ∈ t.inputs, v[i.previousOutput]? = u[i.previousOutput]?)
    (hfree : ∀ o ∈ v, o.txid ≠ t.id) : ∃ v', (applyTransaction t height).run v = .ok fee v' :=
  applyTransaction_of_scan h (fun _ htotal => (scanInputs_congr hagree).trans htotal)
    fun _ _ hmem => hfree _ (eraseInputs_mem hmem) rfl

theorem NoCollision.mono {ts ts' : List Transaction} (h : NoCollision ts') (hsub : ts ⊆ ts') :
    NoCollision ts := by
  refine Set.InjOn.mono ?_ h
  rintro _ ⟨t, ht, rfl⟩
  exact ⟨t, hsub ht, rfl⟩

/-- The outpoints that the transactions spend. -/
def spentOutpoints (ts : List Transaction) : List OutPoint :=
  ts.flatMap fun t => t.inputs.map TxInput.previousOutput

theorem Applied.congr {t : Transaction} {height : UInt64} {u u' v v' : UtxoSet} {fee fee' : ℤ}
    (h : Applied t height u fee u') (h' : Applied t height v fee' v') {o : OutPoint}
    (ho : v[o]? = u[o]?) : v'[o]? = u'[o]? :=
  h.run.congr h'.run ho

theorem Applied.input_mem {t : Transaction} {height : UInt64} {u u' : UtxoSet} {fee : ℤ}
    (h : Applied t height u fee u') {o : OutPoint}
    (hin : o ∈ t.inputs.map TxInput.previousOutput) : o ∈ u := by
  obtain ⟨i, hi, rfl⟩ := List.mem_map.1 hin
  obtain ⟨k, hk⟩ := List.mem_iff_getElem?.1 hi
  obtain ⟨coin, hc, -⟩ := h.inputs (i, k) (List.mem_zipIdx_iff_getElem?.2 hk)
  exact mem_lookup.2 (by rw [UtxoSet.lookup, hc]; simp)

/-- An outpoint that a transaction neither spends nor creates. -/
theorem Applied.frame {t : Transaction} {height : UInt64} {u u' : UtxoSet} {fee : ℤ}
    (h : Applied t height u fee u') {o : OutPoint} (hid : o.txid ≠ t.id)
    (hin : o ∉ t.inputs.map TxInput.previousOutput) : u'[o]? = u[o]? := by
  refine h.run.frame fun e he hk => ?_
  cases e with
  | create k c =>
    obtain rfl : k = o := hk
    have := Ledger.Batch.create_mem_events he
    exact hid (Connection.creates_iff (c := ⟨t, height, false⟩).1 this).1
  | spend k s =>
    obtain rfl : k = o := hk
    have := Ledger.Batch.spend_mem_events he
    exact hin (Connection.spends_iff (c := ⟨t, height, false⟩).1 this).2

/-- An outpoint that a transaction spends and does not create is gone. -/
theorem Applied.spent {t : Transaction} {height : UInt64} {u u' : UtxoSet} {fee : ℤ}
    (h : Applied t height u fee u') {o : OutPoint} (hid : o.txid ≠ t.id)
    (hin : o ∈ t.inputs.map TxInput.previousOutput) : o ∉ u' := by
  have hspend : Ledger.Event.spend o height ∈ (t.batch height false).events := by
    obtain ⟨i, hi, rfl⟩ := List.mem_map.1 hin
    simp only [Ledger.Batch.events, Transaction.batch, Bool.false_eq_true, if_false, List.map_map,
      List.mem_append, List.mem_map]
    exact .inl ⟨i, hi, rfl⟩
  rw [mem_lookup, not_not]
  refine h.run.gone hspend fun coin hc => ?_
  have := Ledger.Batch.create_mem_events hc
  exact hid (Connection.creates_iff (c := ⟨t, height, false⟩).1 this).1

/-! ## Lists that apply in order -/

namespace Applies
variable {height : UInt64} {u u' v : UtxoSet} {ts : List Transaction} {fees : ℤ}

/-- What a transaction of the list spends was there or is an output of the list. -/
theorem input_mem (h : Applies height u ts fees u') {o : OutPoint} (ho : o ∈ spentOutpoints ts) :
    o ∈ u ∨ o.txid ∈ ts.map Transaction.id := by
  induction h with
  | nil => cases ho
  | @cons t ts u u₁ u' fee fees head _ ih =>
    have happlied := applyTransaction_ok head
    rcases List.mem_append.1 (show o ∈ _ ++ spentOutpoints ts from ho) with ho | ho
    · exact .inl (happlied.input_mem ho)
    · rcases ih ho with ho | ho
      · exact (happlied.mem ho).imp_right fun hid => by simp [hid]
      · exact .inr (List.mem_cons_of_mem _ ho)

/-- An outpoint that they neither spend nor create. -/
theorem frame (h : Applies height u ts fees u') {o : OutPoint}
    (hid : o.txid ∉ ts.map Transaction.id) (hin : o ∉ spentOutpoints ts) : u'[o]? = u[o]? := by
  induction h with
  | nil => rfl
  | @cons t ts u u₁ u' fee fees head _ ih =>
    obtain ⟨ht, hts⟩ := not_or.1 (List.mem_cons.not.1 hid)
    obtain ⟨hi, his⟩ := not_or.1 (List.mem_append.not.1
      (show o ∉ _ ++ spentOutpoints ts from hin))
    rw [ih hts his, (applyTransaction_ok head).frame ht hi]

/-- The set after the first of them has no output of the others. -/
theorem free_tail {t : Transaction} {u₁ : UtxoSet} {fee : ℤ}
    (head : (applyTransaction t height).run u = .ok fee u₁)
    (hnew : t.id ∉ ts.map Transaction.id)
    (hfree : ∀ o ∈ u, o.txid ∉ (t :: ts).map Transaction.id) :
    ∀ o ∈ u₁, o.txid ∉ ts.map Transaction.id := by
  intro o ho hmem
  rcases (applyTransaction_ok head).mem ho with ho | hid
  · exact hfree o ho (List.mem_cons_of_mem _ hmem)
  · exact hnew (hid ▸ hmem)

/-- What they spend is gone. -/
theorem spent (h : Applies height u ts fees u') (hnodup : (ts.map Transaction.id).Nodup)
    (hfree : ∀ o ∈ u, o.txid ∉ ts.map Transaction.id) {o : OutPoint}
    (ho : o ∈ spentOutpoints ts) : o ∉ u' := by
  induction h with
  | nil => cases ho
  | @cons t ts u u₁ u' fee fees head tail ih =>
    obtain ⟨hnew, hnodup⟩ := List.nodup_cons.1 hnodup
    have happlied := applyTransaction_ok head
    rcases List.mem_append.1 (show o ∈ _ ++ spentOutpoints ts from ho) with hin | hin
    · obtain ⟨ht, hts⟩ := not_or.1 (List.mem_cons.not.1 (hfree o (happlied.input_mem hin)))
      intro hmem
      rcases tail.mem hmem with hmem | hmem
      · exact happlied.spent ht hin hmem
      · exact hts hmem
    · exact ih hnodup (free_tail head hnew hfree) hin

/-- **They apply to any set that agrees on what they spend** and has none of their outputs. -/
theorem transfer (h : Applies height u ts fees u') (hnodup : (ts.map Transaction.id).Nodup)
    (hfree : ∀ o ∈ v, o.txid ∉ ts.map Transaction.id)
    (hagree : ∀ o ∈ spentOutpoints ts, v[o]? = u[o]?) :
    ∃ v', Applies height v ts fees v' ∧ ∀ o : OutPoint, v[o]? = u[o]? → v'[o]? = u'[o]? := by
  induction h generalizing v with
  | nil => exact ⟨v, .nil, fun _ ho => ho⟩
  | @cons t ts u u₁ u' fee fees head tail ih =>
    obtain ⟨hnew, hnodup⟩ := List.nodup_cons.1 hnodup
    have hmem : ∀ o, o ∈ t.inputs.map TxInput.previousOutput ∨ o ∈ spentOutpoints ts →
        o ∈ spentOutpoints (t :: ts) := fun o ho => List.mem_append.2 ho
    obtain ⟨v₁, head'⟩ := applyTransaction_of_agree head
      (fun i hi => hagree _ (hmem _ (.inl (List.mem_map_of_mem hi))))
      fun o ho hid => hfree o ho (by simp [hid])
    have hcongr : ∀ o : OutPoint, v[o]? = u[o]? → v₁[o]? = u₁[o]? := fun o ho =>
      (applyTransaction_ok head).congr (applyTransaction_ok head') ho
    obtain ⟨v', tail', heq⟩ := ih hnodup (free_tail head' hnew hfree) fun o ho =>
      hcongr o (hagree o (hmem o (.inr ho)))
    exact ⟨v', .cons head' tail', fun o ho => heq o (hcongr o ho)⟩

/-- What they spend is named by digests, where the set's outpoints are. -/
theorem canonical (h : Applies height u ts fees u') (hu : ∀ o ∈ u, IsDisplayHex o.txid) :
    ∀ t ∈ ts, t.Canonical := by
  intro t ht i hi
  have hspent : i.previousOutput ∈ spentOutpoints ts :=
    List.mem_flatMap.2 ⟨t, ht, List.mem_map_of_mem hi⟩
  rcases h.input_mem hspent with ho | hid
  · exact hu _ ho
  · obtain ⟨t', -, he⟩ := List.mem_map.1 hid
    exact he ▸ .display _

/-- **They have different identifiers**: a second one would spend again what the first has
    spent. -/
theorem nodup (h : Applies height u ts fees u') (hu : ∀ o ∈ u, IsDisplayHex o.txid)
    (hfree : ∀ o ∈ u, o.txid ∉ ts.map Transaction.id) (hinj : NoCollision ts) :
    (ts.map Transaction.id).Nodup := by
  induction ts using List.reverseRecOn generalizing fees u' with
  | nil => exact List.nodup_nil
  | append_singleton ts t ih =>
    obtain ⟨u₁, fees₁, fees₂, h₁, h₂⟩ := h.split
    have hnodup := ih h₁ (fun o ho hmem => hfree o ho (by simp [hmem]))
      (hinj.mono fun t' ht' => List.mem_append_left _ ht')
    rw [List.map_append, List.nodup_append]
    refine ⟨hnodup, by simp, fun a ha b hb hab => ?_⟩
    obtain rfl : b = t.id := by simpa using hb
    obtain ⟨t', ht', rfl⟩ := List.mem_map.1 ha
    have hmem' : t' ∈ ts ++ [t] := List.mem_append_left _ ht'
    have hmem : t ∈ ts ++ [t] := by simp
    obtain rfl : t' = t := Transaction.encode_inj (h.wellFormed _ hmem') (h.canonical hu _ hmem')
      (h.wellFormed _ hmem) (h.canonical hu _ hmem) (hinj.encode_eq hmem' hmem hab)
    obtain ⟨i, hi⟩ := List.exists_mem_of_ne_nil _ (h.wellFormed _ hmem).inputs_ne
    cases h₂ with
    | cons head tail =>
      refine h₁.spent hnodup (fun o ho hm => hfree o ho (by simp [hm])) ?_
        ((applyTransaction_ok head).input_mem (List.mem_map_of_mem hi))
      exact List.mem_flatMap.2 ⟨t', ht', List.mem_map_of_mem hi⟩

end Applies

/-! ## The two passes -/

/-- The unspent outputs of a chain are named by the digests of its transactions. -/
theorem Chain.utxos_canonical {blocks : List StoredBlock} {u : UtxoSet} (h : Chain blocks u) :
    ∀ o ∈ u, IsDisplayHex o.txid := by
  intro o ho
  obtain ⟨t, -, he⟩ := List.mem_map.1 (h.mem_utxos ho)
  exact he ▸ .display _

namespace TestnetMempool

/-- Where all that is unconfirmed applies, all of it is retained. -/
theorem retain_all {confirmed : List Str} {height : UInt64} {ts : List Transaction}
    {u u' : UtxoSet} {fees : ℤ} (hwf : ∀ t ∈ ts, t.Structure)
    (h : Applies height u (unconfirmed confirmed ts) fees u') :
    retain confirmed height ts u = .ok (unconfirmed confirmed ts) := by
  induction ts generalizing u fees with
  | nil => rfl
  | cons t ts ih =>
    obtain ⟨ht, hwf⟩ := List.forall_mem_cons.1 hwf
    have hid : t.txid = .ok t.id := Transaction.txid_ok.2 ⟨ht, rfl⟩
    simp only [retain, hid]
    by_cases hconf : t.id ∈ confirmed
    · have hskip : unconfirmed confirmed (t :: ts) = unconfirmed confirmed ts := by
        simp [unconfirmed, hconf]
      rw [hskip] at h ⊢
      simpa [hconf, bind, Except.bind] using ih hwf h
    · have hcons : unconfirmed confirmed (t :: ts) = t :: unconfirmed confirmed ts := by
        simp [unconfirmed, hconf]
      rw [hcons] at h ⊢
      cases h with
      | cons head tail =>
        simp only [hconf, if_false, head, ih hwf tail, bind, Except.bind, pure, Except.pure]

end TestnetMempool

namespace Node
variable {σ : Type}

/-- `try { mempool.add(transaction, …) } catch (const std::exception&) {}` for each of them. -/
def addEach (transactions : List Transaction) : NodeM σ Unit :=
  forM transactions fun transaction => tryCatch (add transaction) fun _ => pure ()

/-- What `activate_candidate` and `sync_from_peer` do with the chain and the mempool. -/
def reorganize (S : ChainStore σ) (candidate : List StoredBlock) : NodeM σ ChainActivationResult := do
  let activation ← activate S candidate
  addEach activation.disconnectedTransactions
  return activation

theorem tryCatch_add_run {n : Node σ} {t : Transaction} :
    (tryCatch (add t) fun _ => pure () : NodeM σ Unit).run n = match (add t).run n with
      | .ok _ n' => .ok () n'
      | .error _ n' => .ok () n' := by
  simp only [tryCatch, tryCatchThe, MonadExceptOf.tryCatch, EStateM.tryCatch, EStateM.run]
  cases add t n <;> rfl

theorem revalidate_chain {n n' : Node σ} {x : Unit} (h : revalidate.run n = .ok x n') :
    n'.chain = n.chain := by
  simp only [revalidate, run_bind_ok, run_get_ok, lift_run_ok, onMempool_run_ok] at h
  obtain ⟨_, _, ⟨rfl, rfl⟩, _, _, ⟨-, rfl⟩, _, _, ⟨-, rfl⟩, _, -, rfl⟩ := h
  rfl

theorem addEach_chain {ts : List Transaction} {n n' : Node σ} {x : Unit}
    (h : (addEach ts).run n = .ok x n') : n'.chain = n.chain := by
  have hadd : ∀ (t : Transaction) (n : Node σ), (match (add t).run n with
      | .ok _ n' => n'
      | .error _ n' => n').chain = n.chain := by
    intro t n
    cases hheight : n.chain.spendHeight with
    | error e => simp only [add, EStateM.run_bind, EStateM.run_get, hheight]; rfl
    | ok height =>
      rw [add_run hheight]
      cases hrun : (onMempool (TestnetMempool.add t n.chain.utxos height)).run n with
      | ok x n' => obtain ⟨_, -, rfl⟩ := onMempool_run_ok.1 hrun; rfl
      | error e n' => obtain ⟨_, -, rfl⟩ := onMempool_run_error.1 hrun; rfl
  induction ts generalizing n with
  | nil => obtain ⟨-, rfl⟩ := run_pure_ok.1 h; rfl
  | cons t ts ih =>
    simp only [addEach, List.forM_cons, run_bind_ok, tryCatch_add_run] at h
    obtain ⟨_, n₁, hn₁, h⟩ := h
    rw [ih h]
    have hchain := hadd t n
    cases hrun : (add t).run n with
    | ok x n₂ => rw [hrun] at hn₁ hchain; cases hn₁; exact hchain
    | error e n₂ => rw [hrun] at hn₁ hchain; cases hn₁; exact hchain

/-- The file has what the object has. -/
def Saved (m : TestnetMempool) : Prop := m.file = some (TestnetMempool.text m.transactions)

/-- Adding several: it returns, and the mempool gains only what was given. -/
theorem addEach_run {n : Node σ} {height : UInt64} (hheight : n.chain.spendHeight = .ok height)
    (hm : MempoolOk height n.chain.utxos n.mempool.transactions) (ts : List Transaction) :
    ∃ m, (addEach ts).run n = .ok () { n with mempool := m } ∧
      MempoolOk height n.chain.utxos m.transactions ∧ (Saved n.mempool → Saved m) ∧
      (∀ t ∈ m.transactions, t ∈ n.mempool.transactions ∨ t ∈ ts) ∧
      (MempoolOk height n.chain.utxos (n.mempool.transactions ++ ts) →
        m.transactions = n.mempool.transactions ++ ts) := by
  induction ts generalizing n with
  | nil => exact ⟨n.mempool, rfl, hm, id, fun t ht => .inl ht, fun _ => by simp⟩
  | cons t ts ih =>
    rcases add_cases hheight hm t with ⟨hok, hrun⟩ | ⟨hnot, e, hrun⟩
    · obtain ⟨m, hrest, hmok, hsaved, hsub, hall⟩ :=
        ih (n := { n with mempool := ⟨n.mempool.transactions ++ [t],
          some (TestnetMempool.text (n.mempool.transactions ++ [t]))⟩ }) hheight hok
      refine ⟨m, ?_, hmok, fun _ => hsaved rfl, fun t' ht' => ?_, fun hts => ?_⟩
      · simp only [addEach, List.forM_cons, run_bind_ok, tryCatch_add_run] at hrest ⊢
        exact ⟨(), _, by rw [hrun], hrest⟩
      · rcases hsub t' ht' with hmem | hmem
        · rcases List.mem_append.1 hmem with hmem | hmem
          · exact .inl hmem
          · exact .inr (List.mem_singleton.1 hmem ▸ List.mem_cons_self)
        · exact .inr (List.mem_cons_of_mem _ hmem)
      · rw [hall (by simpa using hts)]
        simp
    · obtain ⟨m, hrest, hmok, hsaved, hsub, hall⟩ := ih hheight hm
      refine ⟨m, ?_, hmok, hsaved, fun t' ht' => (hsub t' ht').imp_right (List.mem_cons_of_mem _), fun hts => ?_⟩
      · simp only [addEach, List.forM_cons, run_bind_ok, tryCatch_add_run] at hrest ⊢
        exact ⟨(), n, by rw [hrun], hrest⟩
      · -- the list up to `t` applies as well
        refine absurd ?_ hnot
        obtain ⟨⟨fees, u', happlies⟩, hnodup⟩ := hts
        rw [← List.singleton_append, ← List.append_assoc] at happlies hnodup
        obtain ⟨u₁, fees₁, fees₂, h₁, -⟩ := happlies.split
        rw [List.map_append] at hnodup
        exact ⟨⟨fees₁, u₁, h₁⟩, (List.nodup_append.1 hnodup).1⟩

end Node

/-- Lists of which neither spends the other's outputs apply in either order. -/
theorem Applies.swap {height : UInt64} {u u' : UtxoSet} {ds ts : List Transaction} {fees : ℤ}
    (h : Applies height u (ds ++ ts) fees u') (hnodup : ((ds ++ ts).map Transaction.id).Nodup)
    (hfree : ∀ o ∈ u, o.txid ∉ (ds ++ ts).map Transaction.id)
    (hspend : ∀ o ∈ spentOutpoints ts, o.txid ∉ ds.map Transaction.id) :
    ∃ fees u', Applies height u (ts ++ ds) fees u' := by
  obtain ⟨u₁, fees₁, fees₂, hds, hts⟩ := h.split
  rw [List.map_append, List.nodup_append] at hnodup
  obtain ⟨hnds, hnts, hdisj⟩ := hnodup
  simp only [List.map_append, List.mem_append, not_or] at hfree
  have hdisj : ∀ a, a ∈ ds.map Transaction.id → a ∉ ts.map Transaction.id :=
    fun a ha hb => hdisj a ha a hb rfl
  -- no outpoint is spent by both
  have hdouble : ∀ o ∈ spentOutpoints ds, o ∉ spentOutpoints ts := by
    intro o hd ht
    have hu : o ∈ u := (hds.input_mem hd).resolve_right (hspend o ht)
    rcases hts.input_mem ht with ho | hid
    · exact hds.spent hnds (fun o ho => (hfree o ho).1) hd ho
    · exact (hfree o hu).2 hid
  obtain ⟨v, hts', hv⟩ := hts.transfer hnts (fun o ho => (hfree o ho).2) fun o ho =>
    (hds.frame (hspend o ho) fun hd => hdouble o hd ho).symm
  obtain ⟨v', hds', -⟩ := hds.transfer hnds (v := v)
    (fun o ho hid => (hts'.mem ho).elim (fun ho => (hfree o ho).1 hid) (hdisj _ hid))
    fun o ho => hts'.frame (fun hid => (hds.input_mem ho).elim
      (fun hu => (hfree o hu).2 hid) fun hd => hdisj _ hd hid) (hdouble o ho)
  exact ⟨_, v', hts'.append hds'⟩

namespace Node
variable {σ : Type}

variable {S : ChainStore σ}

/-- A reorganization that activates its candidate: the new chain, and the two passes on it. -/
theorem reorganize_ok {n n' : Node σ} {candidate : List StoredBlock} {r : ChainActivationResult}
    (hc : n.chain.Valid) (hact : r.activated = true)
    (h : (reorganize S candidate).run n = .ok r n') :
    n'.chain.Valid ∧ Activated n.chain candidate r n'.chain ∧
    ∃ n₁, revalidate.run ⟨n'.chain, n.mempool⟩ = .ok () n₁ ∧
      (addEach r.disconnectedTransactions).run n₁ = .ok () n' := by
  simp only [reorganize, activate, run_bind_ok, onChain_run_ok] at h
  obtain ⟨r', n₁, ⟨_, _, ⟨chain, hrun, rfl⟩, _, _, hrev, hr⟩, _, n₂, hadd, hr'⟩ := h
  obtain ⟨rfl, rfl⟩ := run_pure_ok.1 hr
  obtain ⟨rfl, rfl⟩ := run_pure_ok.1 hr'
  obtain rfl : n₂.chain = chain := (addEach_chain hadd).trans (revalidate_chain hrev)
  rcases TestnetChain.activateIfMoreWork_ok hc hrun with ⟨hnot, -⟩ | ⟨-, hvalid, hactivated⟩
  · rw [hnot] at hact
    cases hact
  · exact ⟨hvalid, hactivated, _, hrev, hadd⟩

/-- **A reorganization to a longer chain returns** and activates it. -/
theorem reorganize_run (hS : TestnetChain.Commits S) {n : Node σ} (hn : n.Ok)
    {candidate : List StoredBlock} {u : UtxoSet} (hc : Chain candidate u)
    (hlen : n.chain.blocks.length < candidate.length) :
    ∃ r n', (reorganize S candidate).run n = .ok r n' ∧ r.activated = true ∧
      n'.chain.blocks = candidate ∧ n'.chain.utxos = u := by
  obtain ⟨r, s', hrun, ⟨hact, -, storage, -, rfl⟩ | ⟨-, hle, -⟩⟩ :=
    TestnetChain.activateIfMoreWork_run hS hn.chain hc
  · obtain ⟨_, -, hmempool⟩ := hn.mempool
    obtain ⟨retained, -, hrev, hok, -⟩ := revalidate_run
      (n := ⟨{ n.chain with blocks := candidate, utxos := u, storage := storage }, n.mempool⟩)
      hc (spendHeight_ok hc.ne_nil) hmempool.wellFormed
      (hmempool.nodup.sublist (List.filter_sublist.map _))
    obtain ⟨m, hadd, -⟩ := addEach_run
      (n := ⟨{ n.chain with blocks := candidate, utxos := u, storage := storage }, ⟨retained, _⟩⟩)
      (spendHeight_ok hc.ne_nil) hok r.disconnectedTransactions
    refine ⟨r, ⟨{ n.chain with blocks := candidate, utxos := u, storage := storage }, m⟩, ?_, hact,
      rfl, rfl⟩
    simp only [reorganize, activate, run_bind_ok, onChain_run_ok]
    exact ⟨r, _, ⟨r, _, ⟨_, hrun, rfl⟩, (), _, hrev, rfl⟩, (), _, hadd, rfl⟩
  · omega

/-- Neither a disconnected transaction nor one that remains has an output on the new chain. -/
theorem free_of_activated {s s' : TestnetChain σ} {candidate : List StoredBlock}
    {r : ChainActivationResult} (h : Activated s candidate r s') (hc : s'.Valid)
    (m : TestnetMempool) : ∀ o ∈ s'.utxos,
      o.txid ∉ (r.disconnectedTransactions ++ remaining ⟨s', m⟩).map Transaction.id := by
  intro o ho hmem
  have hconf := hc.mem_utxos ho
  rw [List.map_append, List.mem_append] at hmem
  rcases hmem with hmem | hmem
  · obtain ⟨n, -, -, -, -, -, hds⟩ := h.fork
    obtain ⟨t, ht, hid⟩ := List.mem_map.1 hmem
    rw [hds] at ht
    have hnot := (List.mem_filter.1 ht).2
    rw [← hid, h.blocks] at hconf
    simp only [decide_eq_true_eq] at hnot
    exact hnot.2 hconf
  · obtain ⟨t, ht, hid⟩ := List.mem_map.1 hmem
    have hnot := (List.mem_filter.1 ht).2
    rw [← hid] at hconf
    simp only [decide_eq_true_eq] at hnot
    exact hnot hconf

section
variable {n n' : Node σ} {candidate : List StoredBlock} {r : ChainActivationResult}
  {left : List Transaction} {height : UInt64} {fees : ℤ} {u : UtxoSet}

/-- The two passes of a reorganization whose disconnected and remaining transactions apply to the
    new chain. -/
theorem reorganize_passes (hc : n.chain.Valid) (hwf : ∀ t ∈ n.mempool.transactions, t.Structure)
    (h : (reorganize S candidate).run n = .ok r n') (hact : r.activated = true)
    (hleft : left = remaining ⟨n'.chain, n.mempool⟩) (hheight : n'.chain.spendHeight = .ok height)
    (happlies : Applies height n'.chain.utxos (r.disconnectedTransactions ++ left) fees u)
    (hinj : NoCollision (r.disconnectedTransactions ++ left)) :
    ((r.disconnectedTransactions ++ left).map Transaction.id).Nodup ∧
    (∀ o ∈ n'.chain.utxos, o.txid ∉ (r.disconnectedTransactions ++ left).map Transaction.id) ∧
    ∃ retained, TestnetMempool.retain ((allTransactions n'.chain.blocks).map Transaction.id) height
        n.mempool.transactions n'.chain.utxos = .ok retained ∧
      MempoolOk height n'.chain.utxos retained ∧ retained.Sublist left ∧
      (∀ t ∈ n'.mempool.transactions, t ∈ retained ∨ t ∈ r.disconnectedTransactions) ∧
      (MempoolOk height n'.chain.utxos (retained ++ r.disconnectedTransactions) →
        n'.mempool.transactions = retained ++ r.disconnectedTransactions) := by
  subst hleft
  obtain ⟨hvalid, hactivated, n₁, hrev, hadd⟩ := reorganize_ok hc hact h
  have hfree := free_of_activated hactivated hvalid n.mempool
  have hnodup := happlies.nodup (Chain.utxos_canonical hvalid) hfree hinj
  obtain ⟨-, hnleft, -⟩ := List.nodup_append.1 (List.map_append ▸ hnodup)
  obtain ⟨retained, hret, hrun, hok, hsub⟩ :=
    revalidate_run (n := ⟨n'.chain, n.mempool⟩) hvalid hheight hwf hnleft
  rw [hrun] at hrev
  cases hrev
  obtain ⟨m, hrun', -, -, hfrom, hall⟩ := addEach_run (n := ⟨n'.chain, ⟨retained, _⟩⟩) hheight hok
    r.disconnectedTransactions
  have hm : n'.mempool = m := by
    rw [hrun'] at hadd
    have heq := (EStateM.Result.ok.inj hadd).2
    exact (congrArg Node.mempool heq).symm
  rw [hm]
  exact ⟨hnodup, hfree, retained, hret, hok, hsub, hfrom, hall⟩

/-- What spends an output of a disconnected transaction is not retained, and is not added again. -/
theorem not_kept_of_spends (hc : n.chain.Valid) (hwf : ∀ t ∈ n.mempool.transactions, t.Structure)
    (h : (reorganize S candidate).run n = .ok r n') (hact : r.activated = true)
    (hleft : left = remaining ⟨n'.chain, n.mempool⟩) (hheight : n'.chain.spendHeight = .ok height)
    (happlies : Applies height n'.chain.utxos (r.disconnectedTransactions ++ left) fees u)
    (hinj : NoCollision (r.disconnectedTransactions ++ left)) {t : Transaction} (ht : t ∈ left)
    {i : TxInput} (hi : i ∈ t.inputs)
    (hspend : i.previousOutput.txid ∈ r.disconnectedTransactions.map Transaction.id) :
    t ∉ n'.mempool.transactions := by
  obtain ⟨hnodup, hfree, retained, -, hok, hsub, hfrom, -⟩ :=
    reorganize_passes hc hwf h hact hleft hheight happlies hinj
  rw [List.map_append] at hnodup hfree
  obtain ⟨-, -, hdisj⟩ := List.nodup_append.1 hnodup
  intro hkept
  have hin : t ∈ retained := (hfrom t hkept).resolve_right fun hd =>
    hdisj _ (List.mem_map_of_mem hd) _ (List.mem_map_of_mem ht) rfl
  obtain ⟨⟨_, _, hretained⟩, -⟩ := hok
  rcases hretained.input_mem (List.mem_flatMap.2 ⟨t, hin, List.mem_map_of_mem hi⟩) with ho | hid
  · exact hfree _ ho (List.mem_append_left _ hspend)
  · exact hdisj _ hspend _ ((hsub.map _).subset hid) rfl

/-- **What a reorganization keeps.**  Where the disconnected transactions and then those left in
    the mempool would apply to the new chain, all of them are in the mempool afterwards exactly
    when none of the latter spends an output of a disconnected transaction. -/
theorem reorganization_keeps_iff (hc : n.chain.Valid)
    (hwf : ∀ t ∈ n.mempool.transactions, t.Structure)
    (h : (reorganize S candidate).run n = .ok r n') (hact : r.activated = true)
    (hleft : left = remaining ⟨n'.chain, n.mempool⟩) (hheight : n'.chain.spendHeight = .ok height)
    (happlies : Applies height n'.chain.utxos (r.disconnectedTransactions ++ left) fees u)
    (hinj : NoCollision (r.disconnectedTransactions ++ left)) :
    (∀ t ∈ r.disconnectedTransactions ++ left, t ∈ n'.mempool.transactions) ↔
      ∀ t ∈ left, ∀ i ∈ t.inputs,
        i.previousOutput.txid ∉ r.disconnectedTransactions.map Transaction.id := by
  constructor
  · intro hkept t ht i hi hspend
    exact not_kept_of_spends hc hwf h hact hleft hheight happlies hinj ht hi hspend
      (hkept t (List.mem_append_right _ ht))
  · obtain ⟨hnodup, hfree, retained, hret, -, -, -, hall⟩ :=
      reorganize_passes hc hwf h hact hleft hheight happlies hinj
    intro hindep t ht
    have hspend : ∀ o ∈ spentOutpoints left, o.txid ∉ r.disconnectedTransactions.map Transaction.id := by
      intro o ho
      obtain ⟨t, ht, hmem⟩ := List.mem_flatMap.1 ho
      obtain ⟨i, hi, rfl⟩ := List.mem_map.1 hmem
      exact hindep t ht i hi
    obtain ⟨fees', u', hswap⟩ := happlies.swap hnodup hfree hspend
    obtain ⟨u₁, fees₁, fees₂, happlies, -⟩ := hswap.split
    subst hleft
    obtain rfl : remaining ⟨n'.chain, n.mempool⟩ = retained :=
      Except.ok.inj ((TestnetMempool.retain_all hwf happlies).symm.trans hret)
    have hperm : ((remaining ⟨n'.chain, n.mempool⟩ ++ r.disconnectedTransactions).map
        Transaction.id).Nodup := (List.perm_append_comm.map _).nodup_iff.1 hnodup
    rw [hall ⟨⟨fees', u', hswap⟩, hperm⟩]
    exact List.perm_append_comm.subset ht

end

end Node

end

/-! ## A sample spend -/

attribute [local instance] sampleCrypto

/-- A transaction that spends output 0 of `txid`, all to the same script. -/
def sampleSpend (txid : Str) (signature : ℕ) : Transaction where
  version := 1
  inputs := [⟨⟨txid, 0⟩, 71 :: (leBytes 71 signature).reverse, 0xffffffff⟩]
  outputs := [⟨initialSubsidy, sampleScript⟩]
  lockTime := 0

/-- Spends the output of the first block. -/
def firstSpend : Transaction := sampleSpend firstOutput.txid
  0x304402203b505308a8682161ae52aba063b6f1f93353119c82af19aceee9a4092c30a8cf02204045e3dcfd2b92c142e0a6cbca24e0fa135a26c6284ee4c546215d40dcbb6d7b01

/-- The digest of `firstSpend`. -/
def firstSpendDigest : ℕ := 0x11eff9a5ab8e22948d9a4f8f5109c5ac3db59940e953815ec6951480647b7da5

/-- Spends the output of `firstSpend`. -/
def secondSpend : Transaction := sampleSpend (hashToDisplayHex (digestOf firstSpendDigest))
  0x30440220168287d4027478ccc93d4328936fdfdee832cd2c1b0393209fd12350c71bf40c02201c2b0ed81e62de80c7ce638398e5c4310875517d887e1ab588ad1b0131b7689801

def secondSpendDigest : ℕ := 0xd22243af48c1760fce5a72191b90c337fcc67c7c5102b4827884db99ddf84ff7

/-- The transaction applies, without a fee, to the set that has only `coin`. -/
def spendOk (t : Transaction) (outpoint : OutPoint) (coin : Coin) (height : UInt64) : Bool :=
  match (applyTransaction t height).run ((∅ : UtxoSet).insert outpoint coin) with
  | .ok fee _ => decide (fee = 0)
  | .error _ _ => false

/-- Then it applies to every set that has the coin and none of its own outputs. -/
theorem sampleSpend_applies {txid : Str} {signature : ℕ} {coin : Coin} {height : UInt64}
    {u : UtxoSet} (hok : spendOk (sampleSpend txid signature) ⟨txid, 0⟩ coin height)
    (hcoin : u[(⟨txid, 0⟩ : OutPoint)]? = some coin)
    (hfree : ∀ o ∈ u, o.txid ≠ (sampleSpend txid signature).id) :
    ∃ u', Applies height u [sampleSpend txid signature] 0 u' ∧
      u'[(⟨(sampleSpend txid signature).id, 0⟩ : OutPoint)]? =
        some ⟨⟨initialSubsidy, sampleScript⟩, height, false⟩ := by
  obtain ⟨v, happlies⟩ : ∃ v, Applies height ((∅ : UtxoSet).insert ⟨txid, 0⟩ coin)
      [sampleSpend txid signature] 0 v := by
    unfold spendOk at hok
    split at hok
    · next fee v hrun =>
      obtain rfl : fee = 0 := of_decide_eq_true hok
      exact ⟨v, .cons hrun .nil⟩
    · cases hok
  have hagree : ∀ o ∈ spentOutpoints [sampleSpend txid signature],
      u[o]? = ((∅ : UtxoSet).insert ⟨txid, 0⟩ coin)[o]? := by
    intro o ho
    obtain rfl : o = ⟨txid, 0⟩ := by simpa [spentOutpoints, sampleSpend] using ho
    rw [hcoin, ExtTreeMap.getElem?_insert_self]
  obtain ⟨u', h, -⟩ := happlies.transfer (by simp) (by simpa using hfree) hagree
  refine ⟨u', h, ?_⟩
  generalize (0 : ℤ) = fees at h
  cases h with
  | cons head tail =>
    cases tail
    have hrun := (applyTransaction_ok head).run
    exact Ledger.Run.last_create [.spend ⟨txid, 0⟩ height] [] hrun (by simp)

/-- A block at height 101 with `firstSpend`. -/
def spendingBlock : StoredBlock where
  height := 101
  block := ⟨headerOf (sampleTip 100).hash
    0x76232cc0f28c62ebcfd0eb8f2cc66d203f0c3c1fea37e67c05b6721913f0c25d
    ((sampleTip 100).time + 1) 322812, [minedCoinbase 101, firstSpend]⟩

theorem minedCoinbase_101 : (minedCoinbase 101).id =
    hashToDisplayHex (digestOf 0xa48bbecfffdbde9c7b23ebe38098389d36a89e6aa1c19dd24c4331d91c6c03c9) := by
  obtain ⟨row, hrow, htxid⟩ : ∃ row, sampleRows[100]? = some row ∧
      row.txid = 0xa48bbecfffdbde9c7b23ebe38098389d36a89e6aa1c19dd24c4331d91c6c03c9 := ⟨_, rfl, rfl⟩
  rw [minedCoinbase_id hrow, htxid]

/-- The output of `firstSpend`. -/
def spentOutput : OutPoint := ⟨hashToDisplayHex (digestOf firstSpendDigest), 0⟩

def spentCoin (height : UInt64) : Coin := ⟨⟨initialSubsidy, sampleScript⟩, height, false⟩

/-- What the table of digests says of the transactions and the block. -/
structure SpendFacts : Prop where
  first_id : firstSpend.id = hashToDisplayHex (digestOf firstSpendDigest)
  second_id : secondSpend.id = hashToDisplayHex (digestOf secondSpendDigest)
  first_regular : firstSpend.isCoinbase = false
  first_ok : spendOk firstSpend firstOutput firstCoin 101 ∧ spendOk firstSpend firstOutput firstCoin 103
  second_ok : spendOk secondSpend spentOutput (spentCoin 101) 102 ∧
    spendOk secondSpend spentOutput (spentCoin 103) 103
  seen_100 : firstSpendDigest ∉ (sampleTip 100).seen ∧ secondSpendDigest ∉ (sampleTip 100).seen ∧
    0xa48bbecfffdbde9c7b23ebe38098389d36a89e6aa1c19dd24c4331d91c6c03c9 ∉ (sampleTip 100).seen
  seen_102 : firstSpendDigest ∉ (sampleTip 102).seen ∧ secondSpendDigest ∉ (sampleTip 102).seen
  tip : (sampleTip 100).height = 100 ∧ (sampleTip 100).time < (sampleTip 100).time + 1
  merkle : merkleRootHex spendingBlock.block.transactions = .ok (hashToDisplayHex
    (digestOf 0x76232cc0f28c62ebcfd0eb8f2cc66d203f0c3c1fea37e67c05b6721913f0c25d))
  hash : sha256d spendingBlock.block.header.encode =
    digestOf 0x0000d5e38a64b39399cadec444155cd835f8c1a6e7afb3d4813a0e2dd40656de
  proofOfWork : checkProofOfWork
    (digestOf 0x0000d5e38a64b39399cadec444155cd835f8c1a6e7afb3d4813a0e2dd40656de) testnetBits = .ok true
  fork : ∀ b ∈ (minedBlocks (sampleTip 100) ((sampleRows.drop 100).take 2)).head?,
    spendingBlock.hashHex ≠ b.hashHex
  length : (sampleChain 100).length = 101 ∧ (sampleChain 102).length = 103

theorem spendFacts : SpendFacts := by constructor <;> decide +kernel

theorem firstSpend_id : firstSpend.id = hashToDisplayHex (digestOf firstSpendDigest) :=
  spendFacts.first_id

theorem secondSpend_id : secondSpend.id = hashToDisplayHex (digestOf secondSpendDigest) :=
  spendFacts.second_id

/-- Numbers of different digests give different identifiers. -/
theorem id_ne {t t' : Transaction} {n m : ℕ} (ht : t.id = hashToDisplayHex (digestOf n))
    (ht' : t'.id = hashToDisplayHex (digestOf m)) (hn : n < 256 ^ 32) (hm : m < 256 ^ 32)
    (hne : n ≠ m) : t.id ≠ t'.id := by
  rw [ht, ht']
  exact fun h => hne (digestOf_inj hn hm (hashToDisplayHex_inj h))

theorem spends_ne : firstSpend.id ≠ secondSpend.id :=
  id_ne firstSpend_id secondSpend_id (by decide) (by decide) (by decide)

theorem minedCoinbase_101_ne : (minedCoinbase 101).id ≠ firstSpend.id ∧
    (minedCoinbase 101).id ≠ secondSpend.id :=
  ⟨id_ne minedCoinbase_101 firstSpend_id (by decide) (by decide) (by decide),
    id_ne minedCoinbase_101 secondSpend_id (by decide) (by decide) (by decide)⟩

/-- `firstSpend` applies at the end of a sample chain that has the coin it spends. -/
theorem firstSpend_applies {n : ℕ} {height : UInt64} {u : UtxoSet}
    (hends : (sampleTip n).Ends (sampleChain n) u) (hcoin : u[firstOutput]? = some firstCoin)
    (hnew : firstSpendDigest ∉ (sampleTip n).seen)
    (hok : spendOk firstSpend firstOutput firstCoin height) :
    firstSpend.id ∉ (allTransactions (sampleChain n)).map Transaction.id ∧
    ∃ u', Applies height u [firstSpend] 0 u' ∧
      u'[(⟨firstSpend.id, 0⟩ : OutPoint)]? = some (spentCoin height) := by
  have hfirst : firstSpend.id ∉ (allTransactions (sampleChain n)).map Transaction.id :=
    firstSpend_id ▸ hends.notMem (by decide) hnew
  exact ⟨hfirst, sampleSpend_applies hok hcoin fun o ho hid => hfirst (hid ▸ hends.chain.mem_utxos ho)⟩

/-- **The spending block extends the sample chain.** -/
theorem spendingBlock_chain : ∃ u, Chain (sampleChain 100 ++ [spendingBlock]) u ∧
    u[spentOutput]? = some (spentCoin 101) := by
  obtain ⟨u, hends, hcoin⟩ := sampleChain_ends 99
  obtain ⟨hfirst, u₁, happlies, hcoin⟩ :=
    firstSpend_applies hends hcoin spendFacts.seen_100.1 spendFacts.first_ok.1
  have hcb : (minedCoinbase 101).id ∉ (allTransactions (sampleChain 100)).map Transaction.id :=
    minedCoinbase_101 ▸ hends.notMem (by decide) spendFacts.seen_100.2.2
  have hne := minedCoinbase_101_ne.1
  obtain ⟨below, b, hblocks, hhash, htime⟩ := hends.last
  have hlen := hends.height
  rw [hblocks, List.length_append, List.length_singleton, spendFacts.tip.1] at hlen
  have hlater : b.block.header.time < (sampleTip 100).time + 1 := by
    rw [htime]
    exact spendFacts.tip.2
  have hheight : spendingBlock.height.toNat = below.length + 1 := by
    rw [hlen]
    rfl
  have hheader : HeaderOk b (below.length + 1) spendingBlock :=
    headerOf_headerOk rfl hheight hhash hlater spendFacts.merkle spendFacts.hash
      spendFacts.proofOfWork
  have hvalue : (minedCoinbase 101).outputValue = blockSubsidy spendingBlock.height + 0 := by
    rw [blockSubsidy_low (by decide)]
    rfl
  rw [hblocks] at hends hfirst hcb ⊢
  obtain ⟨u', hchain, hadded⟩ := hends.chain.extend hheader rfl (minedCoinbase_isCoinbase 101)
    happlies hvalue (by
      rw [List.map_append, List.mem_append, not_or]
      exact ⟨hcb, by simpa using hne⟩)
  refine ⟨u', by simpa using hchain, ?_⟩
  have hkept : u'[spentOutput]? = u₁[spentOutput]? :=
    hadded.frame fun hid => hne (hid.symm.trans firstSpend_id.symm)
  rw [hkept, spentOutput, ← firstSpend_id]
  exact hcoin

/-- The coins that the sample chain has created are worth its subsidies, and a block that spends the
    first of them can be connected without an overflow. -/
theorem supply_conservation_spend : ∃ u u', buildUtxoSet (sampleChain 100) = .ok u ∧
    u.total = subsidySum 100 ∧ issuedSupply (sampleChain 100) = .ok u.total ∧
    Applies 101 u [firstSpend] 0 u' ∧ GuardsSilent u 101 [firstSpend] := by
  obtain ⟨u, hends, hcoin⟩ := sampleChain_ends 99
  obtain ⟨-, u', happlies, -⟩ :=
    firstSpend_applies hends hcoin spendFacts.seen_100.1 spendFacts.first_ok.1
  obtain ⟨⟨v, hbuild, htotal, hissued, hsilent⟩, -⟩ :=
    supply_conservation (verifyBlocks_iff.2 ⟨u, hends.chain⟩)
  obtain rfl : u = v := Except.ok.inj (hends.chain.build.symm.trans hbuild)
  rw [spendFacts.length.1] at htotal
  exact ⟨u, u', hbuild, htotal, hissued, happlies,
    hsilent 101 [firstSpend] (by rw [spendFacts.length.1]; rfl)⟩

/-- The events of the blocks 2 to 100, and those after the first output is spent. -/
def eventsBetween : List (Ledger.Event OutPoint Coin UInt64) :=
  (((connections (sampleChain 100)).drop 1).map Connection.batch).flatMap Ledger.Batch.events

def eventsAfter : List (Ledger.Event OutPoint Coin UInt64) :=
  [.create ⟨firstSpend.id, 0⟩ (spentCoin 101),
    .create ⟨(minedCoinbase 101).id, 0⟩ ⟨⟨initialSubsidy, sampleScript⟩, 101, true⟩]

theorem replay_spendingBlock : replay (sampleChain 100 ++ [spendingBlock]) =
    .create firstOutput firstCoin :: (eventsBetween ++ .spend firstOutput 101 :: eventsAfter) := by
  have hbelow : connections (sampleChain 100) =
      ⟨minedCoinbase 1, 1, true⟩ :: (connections (sampleChain 100)).drop 1 := rfl
  rw [replay, connections_snoc (by simp [sampleChain]), hbelow, List.map_append, List.map_cons,
    List.flatMap_append, List.flatMap_cons, Connection.batch, firstBatch]
  rfl

theorem other_keys : (∀ e ∈ eventsBetween, e.key ≠ firstOutput) ∧
    ∀ e ∈ eventsAfter, e.key ≠ firstOutput := by
  decide +kernel

/-- The first output is created and spent once, a hundred blocks later. -/
theorem no_double_spend_first :
    Ledger.Alternates .create (Ledger.history firstOutput (replay (sampleChain 100 ++ [spendingBlock]))) ∧
    Ledger.history firstOutput (replay (sampleChain 100 ++ [spendingBlock])) = [.create, .spend] ∧
    (firstSpend.inputs.map TxInput.previousOutput).Nodup ∧
    firstCoin.coinbase ∧ firstCoin.height.toNat + 100 ≤ (101 : UInt64).toNat := by
  obtain ⟨u, hchain, -⟩ := spendingBlock_chain
  obtain ⟨halternates, hconnections, hmature⟩ := no_double_spend (verifyBlocks_iff.2 ⟨u, hchain⟩)
  have hmem : ⟨firstSpend, 101, false⟩ ∈ connections (sampleChain 100 ++ [spendingBlock]) := by
    rw [connections_snoc (by simp [sampleChain])]
    exact List.mem_append_right _ List.mem_cons_self
  have hother : ∀ es : List (Ledger.Event OutPoint Coin UInt64), (∀ e ∈ es, e.key ≠ firstOutput) →
      (es.filterMap fun e => if e.key = firstOutput then some e.kind else none) = [] := fun es h =>
    List.filterMap_eq_nil_iff.2 fun e he => if_neg (h e he)
  refine ⟨halternates firstOutput, ?_, (hconnections _ hmem).2, rfl,
    hmature [] _ _ _ _ _ replay_spendingBlock other_keys.1 rfl⟩
  rw [replay_spendingBlock, Ledger.history, List.filterMap_cons, List.filterMap_append,
    hother _ other_keys.1, List.filterMap_cons, hother _ other_keys.2]
  rfl

/-- A node with `blocks` in its store and in its object. -/
def sampleNode (blocks : List StoredBlock) (u : UtxoSet) (transactions : List Transaction) :
    Node (Option (List StoredBlock × UtxoSet)) where
  chain := { TestnetChain.new "data" (some (blocks, u)) with blocks := blocks, utxos := u }
  mempool := ⟨transactions, some (TestnetMempool.text transactions)⟩

/-- The block of the sample chain at height 101. -/
def nextBlocks : List StoredBlock := minedBlocks (sampleTip 100) ((sampleRows.drop 100).take 1)

/-- `firstSpend` is added to the mempool, and remains there when the chain grows. -/
theorem Node.mempool_stays_valid_spend : ∃ n n₁ n' : Node (Option (List StoredBlock × UtxoSet)),
    n.chain.blocks = sampleChain 100 ∧ n.mempool.transactions = [] ∧
    ((Operation.add firstSpend).exec .memory).run n = .ok () n₁ ∧
    ((Operation.append nextBlocks).exec .memory).run n₁ = .ok () n' ∧
    n'.chain.blocks = sampleChain 101 ∧ n'.mempool.transactions = [firstSpend] ∧
    n'.Consistent := by
  obtain ⟨u, hends, hcoin⟩ := sampleChain_ends 99
  obtain ⟨v, hends', hcoin'⟩ := sampleChain_ends 100
  have hblocks : sampleChain 101 = sampleChain 100 ++ nextBlocks := sampleChain_add 100 1
  -- the transaction applies below the block and above it
  have hok : firstSpendDigest ∉ (sampleTip 101).seen ∧
      spendOk firstSpend firstOutput firstCoin 102 := by decide +kernel
  obtain ⟨-, u', happlies, -⟩ :=
    firstSpend_applies hends hcoin spendFacts.seen_100.1 spendFacts.first_ok.1
  obtain ⟨hnot, v', happlies', -⟩ := firstSpend_applies hends' hcoin' hok.1 hok.2
  have hwf : ∀ t ∈ [firstSpend], t.Structure := happlies.wellFormed
  have hleft : TestnetMempool.unconfirmed ((allTransactions (sampleChain 101)).map Transaction.id)
      [firstSpend] = [firstSpend] := by
    simp only [TestnetMempool.unconfirmed, List.filter_cons, List.filter_nil, hnot]
    rfl
  -- `add`
  let n := sampleNode (sampleChain 100) u []
  have hvalid : n.chain.Valid := hends.chain
  have hheight : n.chain.spendHeight = .ok 101 := by
    rw [spendHeight_eq hvalid]
    exact congrArg (fun k => Except.ok (UInt64.ofNat k)) spendFacts.length.1
  have hadd : ((Operation.add firstSpend).exec .memory).run n =
      .ok () ⟨n.chain, [firstSpend], some (TestnetMempool.text [firstSpend])⟩ :=
    ((add_cases hheight mempoolOk_nil firstSpend).resolve_right fun h =>
      h.1 ⟨⟨0, u', happlies⟩, List.nodup_singleton _⟩).2
  -- `append`
  rw [hblocks] at hends' hleft
  have hne : nextBlocks ≠ [] := List.cons_ne_nil _ _
  obtain ⟨storage, -, happend⟩ := TestnetChain.appendBlocks_run TestnetChain.memory_commits
    hvalid.ne_nil hne hends'.chain
  let chain : TestnetChain _ := { n.chain with
    blocks := sampleChain 100 ++ nextBlocks, utxos := v, storage := storage }
  have hheight' : chain.spendHeight = .ok 102 := by
    rw [spendHeight_eq (s := chain) hends'.chain]
    exact congrArg (fun k => Except.ok (UInt64.ofNat k)) hends'.height
  obtain ⟨retained, hretain, hrevalidate, -⟩ := revalidate_run
    (n := ⟨chain, [firstSpend], some (TestnetMempool.text [firstSpend])⟩) hends'.chain hheight' hwf
    (by rw [remaining, hleft]; simp)
  obtain rfl : [firstSpend] = retained := by
    have hall := TestnetMempool.retain_all hwf (hleft.symm ▸ happlies')
    rw [hleft] at hall
    exact Except.ok.inj (hall.symm.trans hretain)
  have hexec : ((Operation.append nextBlocks).exec .memory).run
      ⟨n.chain, [firstSpend], some (TestnetMempool.text [firstSpend])⟩ =
        .ok () ⟨chain, [firstSpend], some (TestnetMempool.text [firstSpend])⟩ := by
    simp only [Operation.exec, append, run_bind_ok, onChain_run_ok]
    exact ⟨(), _, ⟨chain, happend, rfl⟩, hrevalidate⟩
  exact ⟨n, _, _, rfl, rfl, hadd, hexec, hblocks.symm, rfl,
    mempool_stays_valid hvalid rfl (.cons (.returned hadd) (.single (.returned hexec)))⟩

/-- A chain replaces another one of a block less, which has a block that it does not have. -/
theorem best_chain_rule_fork : ∃ (s s' : TestnetChain (Option (List StoredBlock × UtxoSet)))
    (r : ChainActivationResult), s.blocks = sampleChain 100 ++ [spendingBlock] ∧
    (TestnetChain.activateIfMoreWork .memory (sampleChain 102)).run s = .ok r s' ∧
    Activated s (sampleChain 102) r s' ∧
    ∀ calls : List TestnetChain.Call, ∃ w w', calculateChainwork s.blocks = .ok w ∧
      calculateChainwork (calls.foldl (TestnetChain.Call.run .memory) s).blocks = .ok w' ∧ w ≤ w' := by
  have hreplaces : ∀ (s : TestnetChain (Option (List StoredBlock × UtxoSet)))
      (candidate : List StoredBlock) (u : UtxoSet), s.Valid → Chain candidate u →
      s.blocks.length < candidate.length → ∃ r s',
        (TestnetChain.activateIfMoreWork .memory candidate).run s = .ok r s' ∧
        Activated s candidate r s' ∧ ∀ calls : List TestnetChain.Call, ∃ w w',
          calculateChainwork s.blocks = .ok w ∧
          calculateChainwork (calls.foldl (TestnetChain.Call.run .memory) s).blocks = .ok w' ∧
          w ≤ w' := by
    intro s candidate u hs hc hlt
    obtain ⟨houtcome, hcalls⟩ := TestnetChain.best_chain_rule (S := .memory) hs candidate
    obtain ⟨r, s', hrun, hcases⟩ :=
      TestnetChain.activateIfMoreWork_run TestnetChain.memory_commits hs hc
    rw [hrun] at houtcome
    refine ⟨r, s', hrun, ?_, hcalls⟩
    rcases hcases with ⟨hactivated, -⟩ | ⟨-, hle, -⟩
    · rcases houtcome with ⟨hno, -⟩ | ⟨-, hactive⟩
      · cases hactivated.symm.trans hno
      · exact hactive
    · exact absurd hle (Nat.not_le_of_lt hlt)
  obtain ⟨u, hchain, -⟩ := spendingBlock_chain
  obtain ⟨v, hends, -⟩ := sampleChain_ends 101
  have hlt : (sampleChain 100 ++ [spendingBlock]).length < (sampleChain 102).length := by
    rw [spendFacts.length.2, List.length_append, spendFacts.length.1, List.length_singleton]
    decide
  obtain ⟨r, s', hrun⟩ := hreplaces (sampleNode (sampleChain 100 ++ [spendingBlock]) u []).chain
    (sampleChain 102) v hchain hends.chain hlt
  exact ⟨_, s', r, rfl, hrun⟩

/-! ## A transaction that is lost -/

/-- A reorganization from the chain with the spending block to the longer sample chain, with
    `secondSpend` in the mempool. -/
theorem sample_reorganization : ∃ (n n' : Node (Option (List StoredBlock × UtxoSet)))
    (r : ChainActivationResult) (u : UtxoSet), n.Ok ∧ n.mempool.transactions = [secondSpend] ∧
    (Node.reorganize .memory (sampleChain 102)).run n = .ok r n' ∧ r.activated = true ∧
    r.disconnectedTransactions = [firstSpend] ∧
    [secondSpend] = Node.remaining ⟨n'.chain, n.mempool⟩ ∧ n'.chain.spendHeight = .ok 103 ∧
    Applies 103 n'.chain.utxos [firstSpend, secondSpend] 0 u := by
  obtain ⟨u₁, hchain, hcoin⟩ := spendingBlock_chain
  obtain ⟨u₂, hends, hfirst⟩ := sampleChain_ends 101
  -- the state before
  have hnew : ∀ o ∈ u₁, o.txid ≠ secondSpend.id := by
    intro o ho hid
    obtain ⟨_, hends, -⟩ := sampleChain_ends 99
    have hmem := hid ▸ hchain.mem_utxos ho
    rw [allTransactions, List.flatMap_append, List.map_append, List.mem_append] at hmem
    rcases hmem with hmem | hmem
    · exact hends.notMem (by decide) spendFacts.seen_100.2.1 (secondSpend_id ▸ hmem)
    · obtain hid | hid : secondSpend.id = (minedCoinbase 101).id ∨ secondSpend.id = firstSpend.id := by
        simpa [spendingBlock] using hmem
      · exact minedCoinbase_101_ne.2 hid.symm
      · exact spends_ne hid.symm
  obtain ⟨u', hsecond, -⟩ := sampleSpend_applies spendFacts.second_ok.1 hcoin hnew
  have hn : (sampleNode (sampleChain 100 ++ [spendingBlock]) u₁ [secondSpend]).Ok := by
    have hmempool : MempoolOk 102 u₁ [secondSpend] := ⟨⟨0, u', hsecond⟩, by simp⟩
    have hheight := Node.spendHeight_eq
      (s := (sampleNode (sampleChain 100 ++ [spendingBlock]) u₁ [secondSpend]).chain) hchain
    rw [sampleNode, List.length_append, spendFacts.length.1] at hheight
    exact ⟨hchain, 102, hheight, hmempool⟩
  have hlen : (sampleChain 100 ++ [spendingBlock]).length < (sampleChain 102).length := by
    rw [List.length_append, spendFacts.length.1, spendFacts.length.2]
    decide
  obtain ⟨r, n', hrun, hact, hblocks, hutxos⟩ := Node.reorganize_run (S := .memory)
    TestnetChain.memory_commits hn hends.chain hlen
  obtain ⟨hvalid, hactivated, -⟩ := Node.reorganize_ok hn.chain hact hrun
  -- the blocks above the fork
  obtain ⟨k, -, hcommon, -, -, -, hdisconnected⟩ := hactivated.fork
  have hk : k = (sampleChain 100).length := by
    rw [sampleChain_add 100 2] at hcommon
    refine hcommon.eq_length fun a b ha hb => ?_
    obtain rfl : spendingBlock = a := by simpa using ha
    exact spendFacts.fork b hb
  obtain ⟨hnot₁, u₃, h₁, hcoin₃⟩ :=
    firstSpend_applies hends hfirst spendFacts.seen_102.1 spendFacts.first_ok.2
  have hnot₂ : secondSpend.id ∉ (allTransactions (sampleChain 102)).map Transaction.id :=
    secondSpend_id ▸ hends.notMem (by decide) spendFacts.seen_102.2
  have hcoinbase := minedCoinbase_isCoinbase 101
  have hregular := spendFacts.first_regular
  have hds : r.disconnectedTransactions = [firstSpend] := by
    rw [hdisconnected, hk]
    simp only [sampleNode, List.drop_left, List.flatMap_cons, List.flatMap_nil, List.append_nil,
      spendingBlock, List.filter_cons, List.filter_nil, hcoinbase, hregular, hnot₁]
    rfl
  have hleft : [secondSpend] = Node.remaining ⟨n'.chain, ⟨[secondSpend], none⟩⟩ := by
    simp only [Node.remaining, TestnetMempool.unconfirmed, hblocks, List.filter_cons,
      List.filter_nil, hnot₂]
    rfl
  -- both transactions on the new chain
  have hnew₃ : ∀ o ∈ u₃, o.txid ≠ secondSpend.id := by
    intro o ho hid
    rcases h₁.mem ho with ho | ho
    · exact hnot₂ (hid ▸ hends.chain.mem_utxos ho)
    · exact spends_ne ((List.mem_singleton.1 ho).symm.trans hid)
  obtain ⟨u₄, h₂, -⟩ := sampleSpend_applies spendFacts.second_ok.2 (firstSpend_id ▸ hcoin₃) hnew₃
  have hheight := Node.spendHeight_eq hvalid
  rw [hblocks, spendFacts.length.2] at hheight
  exact ⟨_, n', r, u₄, hn, rfl, hrun, hact, hds, hleft, hheight, hutxos ▸ h₁.append h₂⟩

theorem noCollision_spends : NoCollision [firstSpend, secondSpend] := by
  have hne : sha256d firstSpend.encode ≠ sha256d secondSpend.encode := fun h =>
    spends_ne (congrArg hashToDisplayHex h)
  rintro _ ⟨t, ht, rfl⟩ _ ⟨t', ht', rfl⟩ heq
  rcases List.mem_pair.1 ht with rfl | rfl <;> rcases List.mem_pair.1 ht' with rfl | rfl
  · rfl
  · exact absurd heq hne
  · exact absurd heq.symm hne
  · rfl

/-- The reorganization drops `secondSpend`, which would apply after `firstSpend`. -/
theorem reorganization_loses : ∃ (n n' : Node (Option (List StoredBlock × UtxoSet)))
    (r : ChainActivationResult) (u : UtxoSet), n.Ok ∧
    (Node.reorganize .memory (sampleChain 102)).run n = .ok r n' ∧ r.activated = true ∧
    n'.chain.spendHeight = .ok 103 ∧
    Applies 103 n'.chain.utxos
      (r.disconnectedTransactions ++ Node.remaining ⟨n'.chain, n.mempool⟩) 0 u ∧
    ∃ t ∈ Node.remaining ⟨n'.chain, n.mempool⟩, t ∉ n'.mempool.transactions := by
  obtain ⟨n, n', r, u, hn, hm, hrun, hact, hds, hleft, hheight, happlies⟩ := sample_reorganization
  obtain ⟨_, -, hmempool⟩ := hn.mempool
  have hall : r.disconnectedTransactions ++ [secondSpend] = [firstSpend, secondSpend] := by rw [hds]; rfl
  rw [← hall] at happlies
  have hnot := Node.not_kept_of_spends hn.chain hmempool.wellFormed hrun hact hleft hheight happlies
    (hall ▸ noCollision_spends) (List.mem_singleton.2 rfl) List.mem_cons_self
    (by rw [hds, List.map_singleton, firstSpend_id]; exact List.mem_singleton.2 rfl)
  exact ⟨n, n', r, u, hn, hrun, hact, hheight, hleft ▸ happlies, secondSpend,
    hleft ▸ List.mem_singleton.2 rfl, hnot⟩

theorem reorganization_keeps_iff_sample : ∃ (n n' : Node (Option (List StoredBlock × UtxoSet)))
    (r : ChainActivationResult), (Node.reorganize .memory (sampleChain 102)).run n = .ok r n' ∧
    ((∀ t ∈ r.disconnectedTransactions ++ [secondSpend], t ∈ n'.mempool.transactions) ↔
      ∀ t ∈ [secondSpend], ∀ i ∈ t.inputs,
        i.previousOutput.txid ∉ r.disconnectedTransactions.map Transaction.id) := by
  obtain ⟨n, n', r, u, hn, hm, hrun, hact, hds, hleft, hheight, happlies⟩ := sample_reorganization
  obtain ⟨_, -, hmempool⟩ := hn.mempool
  have hall : r.disconnectedTransactions ++ [secondSpend] = [firstSpend, secondSpend] := by rw [hds]; rfl
  rw [← hall] at happlies
  exact ⟨n, n', r, hrun, Node.reorganization_keeps_iff hn.chain hmempool.wellFormed hrun hact hleft
    hheight happlies (hall ▸ noCollision_spends)⟩

end BinaryCoin
