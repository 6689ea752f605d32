/-
  BinaryCoin — what a restart finds.

  A command changes the chain first and the mempool file afterwards, each by an
  atomic replacement.  A crash in between leaves the old mempool beside the new
  chain: whether it applies there depends only on the outpoints that it spends
  or creates (`survives_iff`).
-/
import BinaryCoin.Reorganization

namespace BinaryCoin

open Cursor LittleEndian Std Text

section
variable [Crypto]

/-! ## A list of transactions on another set -/

/-- An outpoint that both sets have has one output in them. -/
def SameOutputs (u v : UtxoSet) : Prop :=
  ∀ (o : OutPoint) (c c' : Coin), u[o]? = some c → v[o]? = some c' → c'.output = c.output

omit [Crypto] in
theorem spendable_of_regular {coin : Coin} {height : UInt64} (h : coin.coinbase = false) :
    Spendable coin height := by
  intro hcb
  rw [h] at hcb
  cases hcb

theorem scanInputs_of_same {t : Transaction} {height height' : UInt64} {u v : UtxoSet} {total : ℤ}
    (h : scanInputs t height u = .ok total) (hsame : SameOutputs u v)
    (hin : ∀ i ∈ t.inputs, ∃ c, v[i.previousOutput]? = some c ∧ Spendable c height') :
    scanInputs t height' v = .ok total := by
  have hfold : ∀ (entries : List (TxInput × ℕ)) (state state' : List OutPoint × ℤ),
      (∀ e ∈ entries, e.1 ∈ t.inputs) →
      entries.foldlM (scanInput t height u) state = .ok state' →
      entries.foldlM (scanInput t height' v) state = .ok state' := by
    intro entries
    induction entries with
    | nil => intro _ _ _ h; exact h
    | cons e es ih =>
      intro state state' hmem h
      obtain ⟨he, hes⟩ := List.forall_mem_cons.1 hmem
      rw [List.foldlM_cons, except_bind_ok] at h ⊢
      obtain ⟨state₁, h₁, hrest⟩ := h
      refine ⟨state₁, ?_, ih _ _ hes hrest⟩
      obtain ⟨c', hc', hmature⟩ := hin e.1 he
      simp only [scanInput, except_bind_ok, throwIf_ok, orThrow_ok, except_pure_ok, exists_and_left,
        exists_const, not_not] at h₁ ⊢
      obtain ⟨hnew, c, hc, -, valid, hvalid, hok, hle, heq⟩ := h₁
      have hout := hsame _ _ _ hc hc'
      rw [← hout] at hvalid hle heq
      refine ⟨hnew, c', hc', ?_, valid, hvalid, hok, hle, heq⟩
      rintro ⟨hcb, hlt⟩
      exact hmature hcb hlt
  simp only [scanInputs, except_bind_ok, except_pure_ok] at h ⊢
  obtain ⟨state, hs, heq⟩ := h
  exact ⟨state, hfold _ _ _ (fun e he => List.fst_mem_of_mem_zipIdx he) hs, heq⟩

/-- The outpoints of a transaction's outputs. -/
def Transaction.Creates (t : Transaction) (o : OutPoint) : Prop :=
  o.txid = t.id ∧ ∃ n < t.outputs.length, o.index = UInt32.ofNat n

/-- An outpoint that one of the transactions spends or creates. -/
def Touched (ts : List Transaction) (o : OutPoint) : Prop :=
  o ∈ spentOutpoints ts ∨ ∃ t ∈ ts, t.Creates o

theorem Transaction.creates_iff {t : Transaction} {height : UInt64} {coinbase : Bool} {o : OutPoint} :
    (t.batch height coinbase).Creates o ↔ t.Creates o :=
  Connection.creates_iff (c := ⟨t, height, coinbase⟩)

theorem Transaction.spends_iff {t : Transaction} {height : UInt64} {o : OutPoint} :
    (t.batch height false).Spends o ↔ o ∈ t.inputs.map TxInput.previousOutput :=
  (Connection.spends_iff (c := ⟨t, height, false⟩)).trans (and_iff_right rfl)

/-- What a transaction that applies leaves under an outpoint. -/
theorem Applied.created {t : Transaction} {height : UInt64} {u u' : UtxoSet} {fee : ℤ}
    (h : Applied t height u fee u') {n : ℕ} {output : TxOutput} (hn : t.outputs[n]? = some output) :
    u'[(⟨t.id, UInt32.ofNat n⟩ : OutPoint)]? = some ⟨output, height, false⟩ := by
  have hmem : (output, n) ∈ t.outputs.zipIdx := List.mem_zipIdx_iff_getElem?.2 hn
  obtain ⟨pre, post, hsplit⟩ := List.append_of_mem hmem
  have hnodup := nodup_indices h.wellFormed.outputs_le
  rw [hsplit, List.map_append, List.map_cons, List.nodup_append, List.nodup_cons] at hnodup
  have hrun := h.run
  simp only [Ledger.Batch.events, Transaction.batch, newCoins, hsplit, List.map_append, List.map_cons]
    at hrun
  rw [← List.append_assoc] at hrun
  refine Ledger.Run.last_create _ _ hrun fun e he hk => ?_
  simp only [List.mem_map] at he
  obtain ⟨_, ⟨p, hp, rfl⟩, rfl⟩ := he
  exact hnodup.2.1.1 (List.mem_map.2 ⟨p, hp, congrArg OutPoint.index hk⟩)

/-- An outpoint that a transaction creates was free, unless it spends it first. -/
theorem Applied.spends_of_mem {t : Transaction} {height : UInt64} {u u' : UtxoSet} {fee : ℤ}
    (h : Applied t height u fee u') {o : OutPoint} (ho : o ∈ u) (hc : t.Creates o) :
    o ∈ t.inputs.map TxInput.previousOutput := by
  obtain ⟨coin, hcoin⟩ := Option.ne_none_iff_exists'.1 (mem_lookup.1 ho)
  obtain ⟨v, before, after, heq, -⟩ := Ledger.Batch.Creates.split
    (show (t.batch height false).Creates o from Transaction.creates_iff.2 hc)
  obtain ⟨s, hs, -⟩ := h.run.first_spend hcoin ⟨.create o v, by rw [heq]; simp, rfl⟩
  exact Transaction.spends_iff.1 (Ledger.Batch.spend_mem_events hs)

/-- What a transaction leaves under an outpoint depends on what it does there: a set with the same
    outputs is left with the same outputs, and takes the same outpoints where it did. -/
theorem Applied.same {t : Transaction} {height height' : UInt64} {u u' v v' : UtxoSet} {fee fee' : ℤ}
    (h : Applied t height u fee u') (h' : Applied t height' v fee' v') (o : OutPoint) :
    (t.Creates o ∧ ∃ output, u'[o]? = some ⟨output, height, false⟩ ∧
        v'[o]? = some ⟨output, height', false⟩) ∨
      ¬ t.Creates o ∧ o ∈ t.inputs.map TxInput.previousOutput ∧ u'[o]? = none ∧ v'[o]? = none ∨
      ¬ t.Creates o ∧ o ∉ t.inputs.map TxInput.previousOutput ∧ u'[o]? = u[o]? ∧ v'[o]? = v[o]? := by
  by_cases hc : t.Creates o
  · left
    obtain ⟨htxid, n, hn, hindex⟩ := id hc
    obtain rfl : o = ⟨t.id, UInt32.ofNat n⟩ := by cases o; exact congrArg₂ OutPoint.mk htxid hindex
    exact ⟨hc, t.outputs[n], h.created (List.getElem?_eq_getElem hn),
      h'.created (List.getElem?_eq_getElem hn)⟩
  · right
    -- the events on `o` are spends
    have hevent : ∀ {height : UInt64}, ∀ e ∈ (t.batch height false).events, e.key = o →
        o ∈ t.inputs.map TxInput.previousOutput ∧ ∃ s, e = .spend o s := by
      intro height e he hk
      cases e with
      | create k coin =>
        obtain rfl : k = o := hk
        exact absurd (Transaction.creates_iff.1 (Ledger.Batch.create_mem_events he)) hc
      | spend k s =>
        obtain rfl : k = o := hk
        exact ⟨Transaction.spends_iff.1 (Ledger.Batch.spend_mem_events he), s, rfl⟩
    by_cases hs : o ∈ t.inputs.map TxInput.previousOutput
    · left
      have hgone : ∀ {height : UInt64} {u u' : UtxoSet} {fee : ℤ}, Applied t height u fee u' →
          u'[o]? = none := by
        intro height u u' fee h
        obtain ⟨s, before, after, heq⟩ := Ledger.Batch.Spends.split
          (show (t.batch height false).Spends o from Transaction.spends_iff.2 hs)
        refine h.run.gone (s := s) (by rw [heq.1]; simp) fun coin hcoin => ?_
        obtain ⟨-, s', hs'⟩ := hevent _ hcoin rfl
        cases hs'
      exact ⟨hc, hs, hgone h, hgone h'⟩
    · right
      exact ⟨hc, hs, h.run.frame fun e he hk => hs (hevent e he hk).1,
        h'.run.frame fun e he hk => hs (hevent e he hk).1⟩

/-- Where `ts`, which applies to `u`, stands on `v`: the outpoints that it touches are taken in `v`
    as they are in `u`, and those that it spends may be spent at `height`. -/
structure Survives (ts : List Transaction) (u v : UtxoSet) (height : UInt64) : Prop where
  present : ∀ o, Touched ts o → (o ∈ v ↔ o ∈ u)
  mature : ∀ o ∈ spentOutpoints ts, ∀ coin, v[o]? = some coin → Spendable coin height

omit [Crypto] in
theorem mem_iff_some {u : UtxoSet} {o : OutPoint} : o ∈ u ↔ ∃ coin, u[o]? = some coin := by
  rw [mem_lookup, Option.ne_none_iff_exists']
  rfl

omit [Crypto] in
theorem eraseInputs_notMem {u : UtxoSet} {inputs : List TxInput} {o : OutPoint}
    (h : o ∈ inputs.map TxInput.previousOutput) : o ∉ eraseInputs u inputs := by
  induction inputs generalizing u with
  | nil => cases h
  | cons i is ih =>
    rcases List.mem_cons.1 h with rfl | h
    · intro hmem
      have herased := eraseInputs_mem (show _ ∈ eraseInputs _ is from hmem)
      exact (ExtTreeMap.mem_erase.1 herased).1 compare_self
    · exact ih h

theorem Survives.applies {ts : List Transaction} {height height' : UInt64} {u u' v : UtxoSet}
    {fees : ℤ} (happlies : Applies height u ts fees u') (hsame : SameOutputs u v)
    (h : Survives ts u v height') : ∃ v', Applies height' v ts fees v' := by
  induction happlies generalizing v with
  | nil => exact ⟨v, .nil⟩
  | @cons t ts u u₁ u' fee fees head tail ih =>
    have happlied := applyTransaction_ok head
    have hspent : ∀ o, o ∈ t.inputs.map TxInput.previousOutput → o ∈ spentOutpoints (t :: ts) :=
      fun o ho => List.mem_append_left _ ho
    have hlater : ∀ o, Touched ts o → Touched (t :: ts) o := by
      rintro o (ho | ⟨t', ht', ho⟩)
      · exact .inl (List.mem_append_right _ ho)
      · exact .inr ⟨t', List.mem_cons_of_mem _ ht', ho⟩
    obtain ⟨v₁, head'⟩ : ∃ v₁, (applyTransaction t height').run v = .ok fee v₁ := by
      refine applyTransaction_of_scan head (fun _ htotal =>
        scanInputs_of_same htotal hsame fun i hi => ?_) fun n hn hmem => ?_
      · have ho := hspent _ (List.mem_map_of_mem hi)
        have hv := (h.present _ (.inl ho)).2 (happlied.input_mem (List.mem_map_of_mem hi))
        obtain ⟨coin, hcoin⟩ := mem_iff_some.1 hv
        exact ⟨coin, hcoin, h.mature _ ho coin hcoin⟩
      · have hc : t.Creates ⟨t.id, UInt32.ofNat n⟩ := ⟨rfl, n, hn, rfl⟩
        have hu := (h.present _ (.inr ⟨t, List.mem_cons_self, hc⟩)).1 (eraseInputs_mem hmem)
        exact eraseInputs_notMem (happlied.spends_of_mem hu hc) hmem
    have happlied' := applyTransaction_ok head'
    have hsame₁ : SameOutputs u₁ v₁ := by
      intro o c c' hc hc'
      rcases happlied.same happlied' o with ⟨-, output, hu, hv⟩ | ⟨-, -, hu, -⟩ | ⟨-, -, hu, hv⟩
      · cases hu.symm.trans hc
        cases hv.symm.trans hc'
        rfl
      · cases hu.symm.trans hc
      · exact hsame o c c' (hu ▸ hc) (hv ▸ hc')
    have hsurvives₁ : Survives ts u₁ v₁ height' := by
      refine ⟨fun o ho => ?_, fun o ho coin hcoin => ?_⟩
      · simp only [mem_iff_some]
        rcases happlied.same happlied' o with ⟨-, output, hu, hv⟩ | ⟨-, -, hu, hv⟩ | ⟨-, -, hu, hv⟩
        · simp [hu, hv]
        · simp [hu, hv]
        · rw [hu, hv]
          simpa only [mem_iff_some] using h.present o (hlater o ho)
      · rcases happlied.same happlied' o with ⟨-, output, hu, hv⟩ | ⟨-, -, hu, hv⟩ | ⟨-, -, hu, hv⟩
        · cases hv.symm.trans hcoin
          exact spendable_of_regular rfl
        · cases hv.symm.trans hcoin
        · exact h.mature o (List.mem_append_right _ ho) coin (hv ▸ hcoin)
    obtain ⟨v', tail'⟩ := ih hsame₁ hsurvives₁
    exact ⟨v', .cons head' tail'⟩

/-- What the transactions do as a ledger, at a height. -/
def eventsOf (ts : List Transaction) (height : UInt64) : List (Ledger.Event OutPoint Coin UInt64) :=
  (ts.map fun t => t.batch height false).flatMap Ledger.Batch.events

theorem Applies.run_events {ts : List Transaction} {height : UInt64} {u u' : UtxoSet} {fees : ℤ}
    (h : Applies height u ts fees u') :
    Ledger.Run Spendable u.lookup (eventsOf ts height) u'.lookup :=
  h.all.run_replay

/-- The kinds of the events on an outpoint do not depend on the height. -/
theorem history_eventsOf (ts : List Transaction) (height height' : UInt64) (o : OutPoint) :
    Ledger.history o (eventsOf ts height') = Ledger.history o (eventsOf ts height) := by
  have hbatch : ∀ t : Transaction, Ledger.history o (t.batch height' false).events =
      Ledger.history o (t.batch height false).events := by
    intro t
    simp only [Ledger.history, Ledger.Batch.events, Transaction.batch, newCoins, List.filterMap_append,
      List.filterMap_map, Bool.false_eq_true, if_false]
    rfl
  induction ts with
  | nil => rfl
  | cons t ts ih =>
    have hcons : ∀ height, Ledger.history o (eventsOf (t :: ts) height) =
        Ledger.history o (t.batch height false).events ++ Ledger.history o (eventsOf ts height) := by
      intro height
      simp only [eventsOf, Ledger.history, List.map_cons, List.flatMap_cons, List.filterMap_append]
    rw [hcons, hcons, hbatch, ih]

theorem exists_event_of_touched {ts : List Transaction} {o : OutPoint} (ho : Touched ts o)
    (height : UInt64) : ∃ e ∈ eventsOf ts height, e.key = o := by
  have hmem : ∀ t ∈ ts, ∀ e ∈ (t.batch height false).events, e ∈ eventsOf ts height :=
    fun t ht e he => List.mem_flatMap.2 ⟨_, List.mem_map_of_mem ht, he⟩
  rcases ho with ho | ⟨t, ht, ho⟩
  · obtain ⟨t, ht, ho⟩ := List.mem_flatMap.1 ho
    obtain ⟨s, before, after, heq, -⟩ := Ledger.Batch.Spends.split
      (show (t.batch height false).Spends o from Transaction.spends_iff.2 ho)
    exact ⟨.spend o s, hmem t ht _ (by rw [heq]; simp), rfl⟩
  · obtain ⟨v, before, after, heq, -⟩ := Ledger.Batch.Creates.split
      (show (t.batch height false).Creates o from Transaction.creates_iff.2 ho)
    exact ⟨.create o v, hmem t ht _ (by rw [heq]; simp), rfl⟩

/-- A list that applies to both sets finds the outpoints that it touches in both or in neither. -/
theorem Survives.of_applies {ts : List Transaction} {height height' : UInt64} {u u' v v' : UtxoSet}
    {fees fees' : ℤ} (h : Applies height u ts fees u') (h' : Applies height' v ts fees' v') :
    Survives ts u v height' where
  present o ho := by
    obtain ⟨e, he, hkey⟩ := exists_event_of_touched ho height
    obtain ⟨kind, hkind⟩ : ∃ kind, kind ∈ Ledger.history o (eventsOf ts height) :=
      ⟨e.kind, List.mem_filterMap.2 ⟨e, he, if_pos hkey⟩⟩
    have hu := h.run_events.alternates o
    have hv := h'.run_events.alternates o
    rw [history_eventsOf ts height height' o] at hv
    -- both histories begin with the same event
    cases hhist : Ledger.history o (eventsOf ts height) with
    | nil => rw [hhist] at hkind; cases hkind
    | cons first rest =>
      rw [hhist] at hu hv
      have hdue : Ledger.due (u.lookup o) = Ledger.due (v.lookup o) := hu.first.symm.trans hv.first
      rw [mem_lookup, mem_lookup]
      unfold Ledger.due at hdue
      cases hlu : u.lookup o <;> cases hlv : v.lookup o <;> simp [hlu, hlv] at hdue ⊢
  mature o ho coin hcoin := by
    obtain ⟨s, hs, hallowed⟩ := h'.run_events.first_spend hcoin
      (exists_event_of_touched (.inl ho) height')
    obtain ⟨b, hb, hmem⟩ := List.mem_flatMap.1 hs
    obtain ⟨t, -, rfl⟩ := List.mem_map.1 hb
    have hreason : s = height' := by
      simp only [Ledger.Batch.events, Transaction.batch, newCoins, List.map_map, List.mem_append,
        List.mem_map, Bool.false_eq_true, if_false] at hmem
      rcases hmem with ⟨i, -, hi⟩ | ⟨p, -, hp⟩
      · cases hi
        rfl
      · cases hp
    exact hreason ▸ hallowed

/-- **What becomes of a list on another set**: it applies there exactly when it survives. -/
theorem survives_iff {ts : List Transaction} {height height' : UInt64} {u u' v : UtxoSet} {fees : ℤ}
    (h : Applies height u ts fees u') (hsame : SameOutputs u v) :
    (∃ fees' v', Applies height' v ts fees' v') ↔ Survives ts u v height' := by
  constructor
  · rintro ⟨fees', v', h'⟩
    exact .of_applies h h'
  · intro hsurvives
    obtain ⟨v', h'⟩ := hsurvives.applies h hsame
    exact ⟨fees, v', h'⟩

/-! ## The outputs of two chains -/

/-- The output that a connection creates under an outpoint. -/
theorem output_of_create {t : Transaction} {height : UInt64} {coinbase : Bool} {o : OutPoint}
    {coin : Coin} (h : .create o coin ∈ (t.batch height coinbase).events) :
    ∃ n, t.outputs[n]? = some coin.output ∧ o = ⟨t.id, UInt32.ofNat n⟩ := by
  simp only [Ledger.Batch.events, Transaction.batch, newCoins, List.map_map, List.mem_append,
    List.mem_map] at h
  rcases h with ⟨i, -, hi⟩ | ⟨⟨output, n⟩, hmem, heq⟩
  · cases hi
  · cases heq
    exact ⟨n, List.mem_zipIdx_iff_getElem?.1 hmem, rfl⟩

theorem Chain.output {blocks : List StoredBlock} {u : UtxoSet} (h : Chain blocks u) {o : OutPoint}
    {coin : Coin} (ho : u[o]? = some coin) : ∃ t ∈ allTransactions blocks, ∃ n,
      t.outputs[n]? = some coin.output ∧ o = ⟨t.id, UInt32.ofNat n⟩ := by
  rcases h.run_replay.entry ho with hnone | hmem
  · cases hnone
  · obtain ⟨b, hb, hcreate⟩ := List.mem_flatMap.1 hmem
    obtain ⟨c, hc, rfl⟩ := List.mem_map.1 hb
    exact ⟨c.transaction, c.mem_allTransactions h hc, output_of_create hcreate⟩

/-- Two chains have the same output under an outpoint, where their transactions do not collide. -/
theorem Chain.sameOutputs {blocks blocks' : List StoredBlock} {u v : UtxoSet} (h : Chain blocks u)
    (h' : Chain blocks' v) (hinj : NoCollision (allTransactions blocks ++ allTransactions blocks')) :
    SameOutputs u v := by
  intro o c c' hc hc'
  obtain ⟨t, ht, n, hn, rfl⟩ := h.output hc
  obtain ⟨t', ht', n', hn', heq⟩ := h'.output hc'
  obtain ⟨hid, hindex⟩ := OutPoint.mk.inj heq
  obtain ⟨hst, hcan⟩ := h.transaction t ht
  obtain ⟨hst', hcan'⟩ := h'.transaction t' ht'
  obtain rfl := Transaction.encode_inj hst hcan hst' hcan'
    (hinj.encode_eq (List.mem_append_left _ ht) (List.mem_append_right _ ht') hid)
  have hmem : (c.output, n) ∈ t.outputs.zipIdx := List.mem_zipIdx_iff_getElem?.2 hn
  have hmem' : (c'.output, n') ∈ t.outputs.zipIdx := List.mem_zipIdx_iff_getElem?.2 hn'
  have hpair := List.inj_on_of_nodup_map (nodup_indices hst.outputs_le) hmem hmem' hindex
  exact (Prod.mk.inj hpair).1.symm

/-! ## A list that the chain has just confirmed -/

theorem Chain.transaction_inj {blocks : List StoredBlock} {u : UtxoSet} (h : Chain blocks u)
    (hinj : NoCollision (allTransactions blocks)) {t t' : Transaction}
    (ht : t ∈ allTransactions blocks) (ht' : t' ∈ allTransactions blocks) (hid : t.id = t'.id) :
    t = t' := by
  obtain ⟨hst, hcan⟩ := h.transaction t ht
  obtain ⟨hst', hcan'⟩ := h.transaction t' ht'
  exact Transaction.encode_inj hst hcan hst' hcan' (hinj.encode_eq ht ht' hid)

/-- The connections of a chain and of a list after it, labelled with their identifiers. -/
theorem Chain.labelled_append {blocks : List StoredBlock} {u u' : UtxoSet} {ts : List Transaction}
    {height : UInt64} {fees : ℤ} (h : Chain blocks u) (happlies : Applies height u ts fees u')
    (hconfirmed : ∀ t ∈ ts, t ∈ allTransactions blocks)
    (hinj : NoCollision (allTransactions blocks)) :
    Ledger.Labelled Spendable (connections blocks ++ ts.map (⟨·, height, false⟩))
      Connection.batch Connection.id := by
  have hof : ∀ c ∈ connections blocks ++ ts.map (⟨·, height, false⟩),
      c.transaction ∈ allTransactions blocks ∧ c.transaction.isCoinbase = c.coinbase := by
    intro c hc
    rcases List.mem_append.1 hc with hc | hc
    · exact ⟨c.mem_allTransactions h hc, (h.connection c hc).isCoinbase⟩
    · obtain ⟨t, ht, rfl⟩ := List.mem_map.1 hc
      exact ⟨hconfirmed t ht, (happlies.all.mem t ht).2.1⟩
  have heq : ∀ c ∈ connections blocks ++ ts.map (⟨·, height, false⟩),
      ∀ d ∈ connections blocks ++ ts.map (⟨·, height, false⟩), c.id = d.id →
      c.transaction = d.transaction ∧ c.coinbase = d.coinbase := by
    intro c hc d hd hid
    obtain ⟨hcmem, hccb⟩ := hof c hc
    obtain ⟨hdmem, hdcb⟩ := hof d hd
    have ht := h.transaction_inj hinj hcmem hdmem hid
    exact ⟨ht, by rw [← hccb, ← hdcb, ht]⟩
  refine ⟨⟨u'.lookup, ?_⟩, fun c hc d hd hid o hspend => ?_, fun c hc d hd o hcc hdc => ?_⟩
  · rw [List.map_append, List.flatMap_append, List.map_map]
    exact Ledger.run_append.2 ⟨_, h.run_replay, happlies.run_events⟩
  · obtain ⟨ht, hcb⟩ := heq c hc d hd hid
    rw [Connection.spends_iff] at hspend ⊢
    rwa [← ht, ← hcb]
  · rw [Connection.creates_iff] at hcc hdc
    exact hcc.1.symm.trans hdc.1

/-- **A list does not apply to a chain that has just confirmed all of it.** -/
theorem Applies.eq_nil_of_confirmed {blocks bs : List StoredBlock} {v v' : UtxoSet}
    {ts : List Transaction} {cs : List Connection} {height height' : UInt64} {fees : ℤ}
    (hne : blocks ≠ []) (hc : Chain (blocks ++ bs) v)
    (hbs : bs.flatMap StoredBlock.connections = ts.map (⟨·, height, false⟩) ++ cs)
    (hcs : ∀ c ∈ cs, c.coinbase = true) (hinj : NoCollision (allTransactions (blocks ++ bs)))
    (h : Applies height' v ts fees v') : ts = [] := by
  have hconn : connections (blocks ++ bs) =
      connections blocks ++ ts.map (⟨·, height, false⟩) ++ cs := by
    rw [connections, List.tail_append_of_ne_nil hne, List.flatMap_append, hbs, ← List.append_assoc]
    rfl
  have hconfirmed : ∀ t ∈ ts, t ∈ allTransactions (blocks ++ bs) := by
    intro t ht
    refine Connection.mem_allTransactions hc (c := ⟨t, height, false⟩) ?_
    rw [hconn]
    exact List.mem_append_left _ (List.mem_append_right _ (List.mem_map_of_mem ht))
  have hlabelled := hc.labelled_append h hconfirmed hinj
  have hsplit : connections (blocks ++ bs) ++ ts.map (⟨·, height', false⟩) = connections blocks ++
      ts.map (⟨·, height, false⟩) ++ (cs ++ ts.map (⟨·, height', false⟩) ++ []) := by
    rw [hconn]
    simp
  have hnil := hlabelled.no_repeat hsplit
    (by simp [Connection.id]) (fun c hmem o hspend => ?_) fun c hmem => ?_
  · exact List.map_eq_nil_iff.1 hnil
  · have := (Connection.spends_iff.1 hspend).1
    rw [hcs c hmem] at this
    cases this
  · obtain ⟨t, ht, rfl⟩ := List.mem_map.1 hmem
    have hst := h.wellFormed t ht
    refine ⟨⟨t.id, 0⟩, fun d hd hid => Connection.creates_iff.2 ⟨hid.symm, 0, ?_, rfl⟩⟩
    have hdt : d.transaction = t := by
      have hdmem : d.transaction ∈ allTransactions (blocks ++ bs) := by
        rcases List.mem_append.1 hd with hd | hd
        · exact d.mem_allTransactions hc hd
        · obtain ⟨t', ht', rfl⟩ := List.mem_map.1 hd
          exact hconfirmed t' ht'
      exact hc.transaction_inj hinj hdmem (hconfirmed t ht) hid
    rw [hdt]
    exact List.length_pos_of_ne_nil hst.outputs_ne

end

end BinaryCoin
