/-
  BinaryCoin — net.cpp: what a candidate is in every state of a session.

  Whatever the peer sends, and wherever a handler throws, the headers of an
  active candidate continue an accepted chain, each with its proof of work, and
  what is kept beside them belongs to them (`Grounded`).  A message that throws
  may leave headers behind, but it also adds to the score; so there are not many
  more of them than the announced height allows.
-/
import BinaryCoin.CandidateProgress

namespace BinaryCoin

open Cursor Std Runs Stateful Text

section
variable [Crypto] {σ : Type}

/-! ## Candidates -/

/-- The header of a block of the chain. -/
def StoredBlock.header (stored : StoredBlock) : HeaderRecord := ⟨stored.height, stored.block.header⟩

namespace CandidateSync

/-- An active candidate: an accepted chain, and headers that continue it. -/
structure Grounded (c : CandidateSync) : Prop where
  idle : c.active = false → c = .empty
  height_le : c.active → c.expectedHeight.toNat ≤ 1000000
  base : c.active → ∃ u, Chain c.chainPrefix u
  linked : ∀ last, c.chainPrefix.getLast? = some last → c.forkHeight = last.height ∧
    (last.header :: c.headers).IsChain HeaderRecord.Follows
  proven : ∀ record ∈ c.headers, record.Ok
  requested : ∀ hash ∈ c.pending, ∃ record ∈ c.headers, record.id = hash
  bodies : ∀ (hash : Str) (b : StoredBlock), c.blocks[hash]? = some b →
    b.id = hash ∧ ∃ record ∈ c.headers, record.id = hash

variable {c : CandidateSync} {record : HeaderRecord} {b : StoredBlock} {hash : Str}

theorem Grounded.empty : Grounded .empty := by
  refine ⟨fun _ => rfl, ?_, ?_, ?_, ?_, ?_, ?_⟩
  · intro hactive
    cases hactive
  · intro hactive
    cases hactive
  · intro last hlast
    cases hlast
  · intro record hmem
    cases hmem
  · intro hash hmem
    exact absurd hmem ExtTreeSet.not_mem_empty
  · intro hash b hfound
    rw [CandidateSync.empty, ExtTreeMap.getElem?_empty] at hfound
    cases hfound

/-- A candidate that starts on a chain. -/
theorem Grounded.start {blocks : List StoredBlock} {u : UtxoSet} {last : StoredBlock} {height : UInt64}
    {tip work : Str} (hchain : Chain blocks u) (hlast : blocks.getLast? = some last)
    (hheight : height.toNat ≤ 1000000) :
    Grounded ⟨true, height, tip, work, last.height, blocks, [], ∅, ∅⟩ := by
  refine ⟨?_, fun _ => hheight, fun _ => ⟨u, hchain⟩, ?_, ?_, ?_, ?_⟩
  · intro hactive
    cases hactive
  · intro last' hlast'
    obtain rfl := Option.some.inj (hlast.symm.trans hlast')
    exact ⟨rfl, .singleton _⟩
  · intro record hmem
    cases hmem
  · intro hash hmem
    exact absurd hmem ExtTreeSet.not_mem_empty
  · intro hash b hfound
    rw [ExtTreeMap.getElem?_empty] at hfound
    cases hfound

/-- The chain is cut where the first header connects. -/
theorem Grounded.cut (h : c.Grounded) (hactive : c.active) (hempty : c.headers = []) {i : ℕ}
    {fork : StoredBlock} (hfork : c.chainPrefix[i]? = some fork) :
    Grounded { c with forkHeight := fork.height, chainPrefix := c.chainPrefix.take (i + 1) } ∧
      (c.chainPrefix.take (i + 1)).getLast? = some fork := by
  have htop : (c.chainPrefix.take (i + 1)).getLast? = some fork := by
    rw [List.getLast?_take, if_neg (Nat.succ_ne_zero i), Nat.add_sub_cancel, hfork]
    rfl
  obtain ⟨u, hchain⟩ := h.base hactive
  have hne : c.chainPrefix.take (i + 1) ≠ [] := by
    intro hnil
    rw [hnil] at htop
    cases htop
  rw [← List.take_append_drop (i + 1) c.chainPrefix] at hchain
  refine ⟨⟨?_, h.height_le, fun _ => hchain.of_append hne, ?_, h.proven, h.requested, h.bodies⟩, htop⟩
  · intro hidle
    rw [show c.active = false from hidle] at hactive
    cases hactive
  · intro last hlast
    obtain rfl := Option.some.inj (htop.symm.trans hlast)
    refine ⟨rfl, ?_⟩
    dsimp only
    rw [hempty]
    exact .singleton _

/-- The header that the next one has to follow. -/
def top (c : CandidateSync) : Option HeaderRecord :=
  match c.headers.getLast? with
  | some record => some record
  | none => c.chainPrefix.getLast?.map StoredBlock.header

theorem Grounded.push (h : c.Grounded) (hactive : c.active)
    (hfollows : ∀ previous ∈ c.top, previous.Follows record) (hok : record.Ok) :
    Grounded { c with headers := c.headers ++ [record] } := by
  refine ⟨?_, h.height_le, h.base, ?_, ?_, ?_, ?_⟩
  · intro hidle
    rw [show c.active = false from hidle] at hactive
    cases hactive
  · intro last hlast
    obtain ⟨hheight, hchain⟩ := h.linked last hlast
    refine ⟨hheight, ?_⟩
    rw [← List.cons_append]
    refine List.isChain_append.2 ⟨hchain, .singleton _, ?_⟩
    rintro previous hprevious next hnext
    obtain rfl : record = next := Option.some.inj hnext
    refine hfollows previous ?_
    rw [List.getLast?_cons] at hprevious
    rw [top]
    cases htop : c.headers.getLast? with
    | some top =>
      rw [htop] at hprevious
      exact hprevious
    | none =>
      rw [htop] at hprevious
      rw [show c.chainPrefix.getLast? = some last from hlast]
      exact hprevious
  · intro record' hmem
    rcases List.mem_append.1 hmem with hmem | hmem
    · exact h.proven record' hmem
    · exact List.mem_singleton.1 hmem ▸ hok
  · intro hash hmem
    obtain ⟨record', hrecord, hid⟩ := h.requested hash hmem
    exact ⟨record', List.mem_append_left _ hrecord, hid⟩
  · intro hash b hfound
    obtain ⟨hid, record', hrecord, hhash⟩ := h.bodies hash b hfound
    exact ⟨hid, record', List.mem_append_left _ hrecord, hhash⟩

theorem Grounded.keep (h : c.Grounded) (hactive : c.active) (hid : b.id = hash)
    (hrecord : ∃ record ∈ c.headers, record.id = hash) {pending : ExtTreeSet Str}
    (hpending : ∀ hash ∈ pending, hash ∈ c.pending) :
    Grounded { c with blocks := c.blocks.insertIfNew hash b, pending := pending } := by
  refine ⟨?_, h.height_le, h.base, h.linked, h.proven, ?_, ?_⟩
  · intro hidle
    rw [show c.active = false from hidle] at hactive
    cases hactive
  · intro hash' hmem
    exact h.requested hash' (hpending hash' hmem)
  · intro hash' b' hfound
    dsimp only at hfound
    rw [OrdMap.getElem?_insertIfNew_eq] at hfound
    split_ifs at hfound with hnew
    · obtain rfl := Option.some.inj hfound
      obtain ⟨rfl, -⟩ := hnew
      exact ⟨hid, hrecord⟩
    · exact h.bodies hash' b' hfound

theorem Grounded.ask (h : c.Grounded) (hactive : c.active)
    (hrecord : ∃ record ∈ c.headers, record.id = hash) :
    Grounded { c with pending := c.pending.insert hash } := by
  refine ⟨?_, h.height_le, h.base, h.linked, h.proven, ?_, h.bodies⟩
  · intro hidle
    rw [show c.active = false from hidle] at hactive
    cases hactive
  · intro hash' hmem
    rcases ExtTreeSet.mem_insert.1 hmem with heq | hmem
    · exact compare_eq_iff_eq.1 heq ▸ hrecord
    · exact h.requested hash' hmem

/-! ### Heights -/

omit [Crypto] in
/-- Times grow along headers, so there are not too many for their heights. -/
theorem length_le_of_isChain [Crypto] {first : HeaderRecord} {records : List HeaderRecord}
    (h : (first :: records).IsChain HeaderRecord.Follows) :
    records.length + first.header.time.toNat < 2 ^ 32 ∧
      (first.height.toNat + records.length < 2 ^ 64 → ∀ last, (first :: records).getLast? = some last →
        last.height.toNat = first.height.toNat + records.length) := by
  induction records generalizing first with
  | nil =>
    refine ⟨by simpa using first.header.time.toNat_lt, fun _ last hlast => ?_⟩
    obtain rfl : first = last := Option.some.inj hlast
    rfl
  | cons record records ih =>
    obtain ⟨hfollows, hrest⟩ := List.isChain_cons_cons.1 h
    obtain ⟨hlength, hlast⟩ := ih hrest
    have htime := UInt32.lt_iff_toNat_lt.1 hfollows.time
    rw [List.length_cons]
    refine ⟨by omega, fun hlt last hmem => ?_⟩
    have hheight : record.height.toNat = first.height.toNat + 1 := by
      rw [hfollows.height, UInt64.toNat_add]
      exact Nat.mod_eq_of_lt (by simp only [UInt64.toNat_one]; omega)
    rw [hlast (by omega) last (by rwa [List.getLast?_cons_cons] at hmem), hheight]
    omega

/-- There are at most as many headers as the last one's height. -/
theorem Grounded.length_le (h : c.Grounded) (hactive : c.active) {last : HeaderRecord}
    (hlast : c.headers.getLast? = some last) : c.headers.length ≤ last.height.toNat := by
  obtain ⟨u, hchain⟩ := h.base hactive
  have hbase := List.getLast?_eq_some_getLast hchain.ne_nil
  obtain ⟨-, hlinked⟩ := h.linked _ hbase
  obtain ⟨hcount, hheights⟩ := length_le_of_isChain hlinked
  have hindex : c.chainPrefix[c.chainPrefix.length - 1]? =
      some (c.chainPrefix.getLast hchain.ne_nil) := by
    rw [← List.getLast?_eq_getElem?, hbase]
  have hheight := hchain.height _ _ hindex
  have hle := hchain.length_le
  have htop := hheights (by simp only [StoredBlock.header]; omega) last (by
    rw [List.getLast?_cons, hlast]
    rfl)
  omega

end CandidateSync

/-! ## What handlers leave -/

/-- The candidate of a state is one, and has at most `n` headers. -/
structure SyncState.Bounded (n : ℕ) (s : SyncState σ) : Prop where
  grounded : s.candidate.Grounded
  length_le : s.candidate.headers.length ≤ n

variable {S : ChainStore σ} {outside : Outside σ} {s s' : SyncState σ} {n k : ℕ}

theorem SyncState.Bounded.congr (h : s.Bounded n) (hcandidate : s'.candidate = s.candidate) :
    s'.Bounded n := ⟨hcandidate ▸ h.grounded, hcandidate ▸ h.length_le⟩

theorem SyncState.Bounded.mono {m : ℕ} (h : s.Bounded n) (hle : n ≤ m) : s.Bounded m :=
  ⟨h.grounded, h.length_le.trans hle⟩

theorem SyncState.Bounded.of_empty (h : s.candidate = .empty) : s.Bounded n :=
  ⟨h ▸ .empty, by rw [h]; exact Nat.zero_le n⟩

theorem inSection_ends {α : Type} {x : SectionM σ α} (h : s.Bounded n) :
    Ends (SyncState.Bounded n) (inSection outside k x) s := by
  rw [Ends, EStateM.run, inSection]
  cases x.run (outside.others k s.directory) <;> exact h.congr rfl

theorem requestHeaders_ends {locator : List Str} (h : s.Bounded n) :
    Ends (SyncState.Bounded n) (requestHeaders outside locator) s :=
  .bind (ends_lift h) fun _ _ _ h₁ => .bind (ends_lift h₁) fun _ _ _ h₂ => h₂.congr rfl

theorem requestData_ends {items : List InventoryItem} (h : s.Bounded n) :
    Ends (SyncState.Bounded n) (requestData outside k items) s :=
  .bind (ends_lift h) fun _ _ _ h₁ => .bind (ends_lift h₁) fun _ _ _ h₂ => h₂.congr rfl

theorem requestPending_ends {batch : List InventoryItem} {hashes : List Str} (h : s.Bounded n) :
    Ends (SyncState.Bounded n) (requestPending outside k batch hashes) s := by
  induction hashes generalizing k batch s with
  | nil =>
    rw [requestPending]
    split_ifs
    · exact requestData_ends h
    · exact .pure h
  | cons hash hashes ih =>
    rw [requestPending]
    split_ifs
    · exact .bind (requestData_ends h) fun _ _ _ h₁ => ih h₁
    · exact ih h

/-- An active candidate is still there, or there is none. -/
theorem activateCandidate_ends (h : s.Bounded n) :
    Ends (SyncState.Bounded n) (activateCandidate S outside k) s := by
  refine .get_bind ?_
  dsimp only
  split_ifs
  · refine .bind (ends_lift h) fun full s₁ _ h₁ => .get_bind (.bind (inSection_ends h₁) ?_)
    rintro ⟨previous, activation⟩ s₂ - -
    dsimp only
    split_ifs <;> exact .of_empty rfl
  · exact .pure h

/-- A candidate that starts does so on an accepted chain. -/
theorem startCandidateSync_ends {height : UInt64} {tip work : Str} (h : s.Bounded n) :
    Ends (SyncState.Bounded n) (startCandidateSync S outside height tip work) s := by
  refine .bind (ends_throwIf h) fun _ s₁ hguard h₁ => ?_
  obtain ⟨hheight, rfl⟩ := throwIf_run_ok.1 hguard
  refine .bind (inSection_ends h₁) fun blocks s₂ hopen h₂ => ?_
  obtain ⟨u, hchain⟩ : ∃ u, Chain blocks u := by
    rw [EStateM.run, inSection] at hopen
    split at hopen
    · next a d hrun =>
      obtain ⟨rfl, -⟩ := EStateM.Result.ok.inj hopen
      obtain ⟨rfl, hvalid, -⟩ := openChain_ok hrun
      exact ⟨_, hvalid⟩
    · cases hopen
  refine .bind (ends_lift h₂) fun last s₃ htip h₃ => ?_
  obtain ⟨hlast, rfl⟩ := lift_run_ok.1 htip
  have hstart : SyncState.Bounded n { s₂ with
      candidate := ⟨true, height, tip, work, last.height, blocks, [], ∅, ∅⟩ } :=
    ⟨.start hchain (orThrow_ok.1 hlast) (UInt64.le_iff_toNat_le.1 (UInt64.not_lt.1 hheight)),
      Nat.zero_le n⟩
  refine .bind (I := SyncState.Bounded n) hstart fun _ s₄ _ h₄ => ?_
  exact .bind (ends_lift h₄) fun locator s₅ _ h₅ => requestHeaders_ends h₅

theorem syncWith_ends (peer : PeerVersion) (h : s.Bounded n) :
    Ends (SyncState.Bounded n) (syncWith S outside peer) s := by
  refine .bind (inSection_ends h) fun blocks s₁ _ h₁ => .get_bind ?_
  refine .bind (ends_lift h₁) fun sync s₂ _ h₂ => ?_
  split_ifs
  · exact startCandidateSync_ends h₂
  · exact .pure h₂

/-! ### Bodies -/

theorem HeaderRecord.id_eq {record : HeaderRecord} {hash : Str}
    (h : record.header.hashHex = .ok hash) : record.id = hash := by
  obtain ⟨⟨bytes, hserialize⟩, rfl⟩ := BlockHeader.hashHex_ok.1 h
  rfl

theorem StoredBlock.id_eq {stored : StoredBlock} {hash : Str} (h : stored.hashHex = .ok hash) :
    stored.id = hash := by
  obtain ⟨-, rfl⟩ := BlockHeader.hashHex_ok.1 h
  rfl

theorem findBlock_id {blocks : List StoredBlock} {hash : Str} {stored : StoredBlock}
    (h : findBlock hash blocks = .ok (some stored)) : stored.id = hash := by
  induction blocks with
  | nil => cases h
  | cons b blocks ih =>
    obtain ⟨text, htext, h⟩ := except_bind_ok.1 h
    split_ifs at h with heq
    · obtain rfl : b = stored := Option.some.inj (Except.ok.inj h)
      exact (StoredBlock.id_eq htext).trans heq
    · exact ih h

theorem findHeader_mem {records : List HeaderRecord} {hash : Str} {record : HeaderRecord}
    (h : findHeader hash records = .ok (some record)) : record ∈ records ∧ record.id = hash := by
  induction records with
  | nil => cases h
  | cons first records ih =>
    obtain ⟨text, htext, h⟩ := except_bind_ok.1 h
    split_ifs at h with heq
    · obtain rfl : first = record := Option.some.inj (Except.ok.inj h)
      exact ⟨List.mem_cons_self, (HeaderRecord.id_eq htext).trans heq⟩
    · exact (ih h).imp_left (List.mem_cons_of_mem first)

/-- A state that has the headers of another one, with an active candidate. -/
structure Collecting (n : ℕ) (records : List HeaderRecord) (s : SyncState σ) : Prop
    extends s.Bounded n where
  active : s.candidate.active
  records : s.candidate.headers = records

theorem collectBody_ends {active branches : List StoredBlock} {records : List HeaderRecord}
    {record : HeaderRecord} (hmem : record ∈ records) (h : Collecting n records s) :
    Ends (Collecting n records) (collectBody active branches record) s := by
  refine .bind (ends_lift h) fun hash s₁ hhash h₁ => .get_bind ?_
  obtain ⟨htext, rfl⟩ := lift_run_ok.1 hhash
  have hrecord : ∃ record ∈ s.candidate.headers, record.id = hash :=
    ⟨record, h.records ▸ hmem, HeaderRecord.id_eq htext⟩
  have hkeep : ∀ stored : StoredBlock, stored.id = hash → Collecting n records { s with
      candidate := { s.candidate with blocks := s.candidate.blocks.insertIfNew hash stored } } := by
    intro stored hid
    exact ⟨⟨h.grounded.keep h.active hid hrecord fun _ hmem => hmem, h.length_le⟩, h.active,
      h.records⟩
  refine .bind (ends_lift h₁) fun found s₂ hlookup h₂ => ?_
  obtain ⟨hfind, rfl⟩ := lift_run_ok.1 hlookup
  cases found with
  | some stored => exact hkeep stored (findBlock_id hfind)
  | none =>
    refine .bind (ends_lift h₂) fun found s₃ hlookup h₃ => ?_
    obtain ⟨hfind, rfl⟩ := lift_run_ok.1 hlookup
    cases found with
    | some stored => exact hkeep stored (findBlock_id hfind)
    | none => exact ⟨⟨h.grounded.ask h.active hrecord, h.length_le⟩, h.active, h.records⟩

theorem collectBodies_ends {active branches : List StoredBlock}
    {records rest : List HeaderRecord} (hsub : rest ⊆ records) (h : Collecting n records s) :
    Ends (Collecting n records) (forM rest (collectBody active branches)) s := by
  induction rest generalizing s with
  | nil => exact .pure h
  | cons record rest ih =>
    obtain ⟨hmem, hrest⟩ := List.cons_subset.1 hsub
    rw [List.forM_cons]
    exact .bind (collectBody_ends hmem h) fun _ s₁ _ h₁ => ih hrest h₁

theorem requestCandidateBlocks_ends (hactive : s.candidate.active) (h : s.Bounded n) :
    Ends (SyncState.Bounded n) (requestCandidateBlocks S outside) s := by
  have hcollecting : ∀ {α : Type} {k : ℕ} {x : SectionM σ α} {s₁ : SyncState σ},
      Collecting n s.candidate.headers s₁ →
      Ends (Collecting n s.candidate.headers) (inSection outside k x) s₁ := by
    intro α k x s₁ h₁
    rw [Ends, EStateM.run, inSection]
    cases x.run (outside.others k s₁.directory) <;>
      exact ⟨h₁.toBounded.congr rfl, h₁.active, h₁.records⟩
  have hends : ∀ {α : Type} {x : SyncM σ α} {s₁ : SyncState σ},
      Ends (Collecting n s.candidate.headers) x s₁ → Ends (SyncState.Bounded n) x s₁ :=
    fun h => h.imp fun _ h => h.toBounded
  have hstart : Collecting n s.candidate.headers s := ⟨h, hactive, rfl⟩
  rw [requestCandidateBlocks]
  refine .bind (inSection_ends h) fun branches s₁ hbranches _ => ?_
  have h₁ : Collecting n s.candidate.headers s₁ := by
    have hkept := hcollecting (k := 0) (x := openBranches) hstart
    rwa [Ends, hbranches] at hkept
  refine .bind (inSection_ends h₁.toBounded) fun active s₂ hchain _ => .get_bind ?_
  have h₂ : Collecting n s.candidate.headers s₂ := by
    have hkept := hcollecting (k := 1) (x := openChain S) h₁
    rwa [Ends, hchain] at hkept
  have hsub : s₂.candidate.headers ⊆ s.candidate.headers := by
    rw [h₂.records]
    exact List.Subset.refl _
  refine .bind (hends (collectBodies_ends hsub h₂)) fun _ s₃ _ h₃ => .get_bind ?_
  split_ifs
  · exact activateCandidate_ends h₃
  · exact .get_bind (requestPending_ends h₃)

/-! ### Headers -/

/-- The header can follow, if its time is later. -/
def CandidateSync.Connects (c : CandidateSync) (record : HeaderRecord) : Prop :=
  ∀ previous ∈ c.top, record.height = previous.height + 1 ∧
    previous.header.hashHex = .ok record.header.previousHash

theorem lift_meets {α : Type} (x : Except Exn α) (h : s.Bounded n) :
    Meets (fun a s' => x = .ok a ∧ s' = s) (fun _ s' => s'.Bounded n) (liftM x : SyncM σ α) s := by
  cases x with
  | ok a => exact ⟨rfl, rfl⟩
  | error e => exact h

theorem throwIf_meets {c : Prop} [Decidable c] (e : Exn) (h : s.Bounded n) :
    Meets (fun _ s' => ¬ c ∧ s' = s) (fun _ s' => s'.Bounded n) (throwIf c e : SyncM σ Unit) s := by
  by_cases hc : c
  · rw [throwIf, if_pos hc]
    exact h
  · rw [throwIf, if_neg hc]
    exact ⟨hc, rfl⟩

/-- **The first header of a message** connects to the candidate, which may be cut for it. -/
theorem connectHeaders_meets {front : HeaderRecord} (h : s.Bounded n) (hactive : s.candidate.active) :
    Meets (fun _ s' => s'.Bounded n ∧ s'.candidate.active ∧ s'.candidate.Connects front ∧
        s'.candidate.headers = s.candidate.headers)
      (fun _ s' => s'.Bounded n) (connectHeaders front) s := by
  refine .get_bind ?_
  dsimp only
  cases hlast : s.candidate.headers.getLast? with
  | none =>
    have hempty : s.candidate.headers = [] := List.getLast?_eq_none_iff.1 hlast
    refine .bind (lift_meets _ h) fun found s₁ hfound => ?_
    obtain ⟨hsearch, rfl⟩ := hfound
    cases found with
    | none => exact h
    | some i =>
      refine .bind (lift_meets _ h) fun fork s₂ hfork => ?_
      obtain ⟨hfork, rfl⟩ := hfork
      refine .bind (throwIf_meets _ h) fun _ s₃ hheight => ?_
      obtain ⟨hheight, rfl⟩ := hheight
      rw [orThrow_ok] at hfork
      obtain ⟨hcut, htop⟩ := h.grounded.cut hactive hempty hfork
      obtain ⟨b, hb, hhash⟩ := hashAt_ok.1 (searchBelow_found hsearch).1
      obtain rfl : fork = b := Option.some.inj (hfork.symm.trans hb)
      refine ⟨⟨hcut, h.length_le⟩, hactive, ?_, rfl⟩
      rintro previous hprevious
      rw [CandidateSync.top] at hprevious
      dsimp only at hprevious
      rw [hlast, htop] at hprevious
      obtain rfl : fork.header = previous := Option.some.inj hprevious
      exact ⟨not_not.1 hheight, hhash⟩
  | some last =>
    refine .bind (throwIf_meets _ h) fun _ s₁ hheight => ?_
    obtain ⟨hheight, rfl⟩ := hheight
    refine .bind (lift_meets _ h) fun hash s₂ hhash => ?_
    obtain ⟨hhash, rfl⟩ := hhash
    refine (throwIf_meets _ h).imp (fun _ s₃ hlink => ?_) fun _ _ h => h
    obtain ⟨hlink, rfl⟩ := hlink
    refine ⟨h, hactive, ?_, rfl⟩
    rintro previous hprevious
    rw [CandidateSync.top, hlast] at hprevious
    obtain rfl : last = previous := Option.some.inj hprevious
    exact ⟨not_not.1 hheight, hhash.trans (congrArg Except.ok (not_not.1 hlink).symm)⟩

/-- A header that has been pushed follows. -/
theorem pushHeader_meets {record : HeaderRecord} (h : s.Bounded n) (hactive : s.candidate.active)
    (hok : record.Ok) (hconnects : s.candidate.headers = [] → s.candidate.Connects record) :
    Meets (fun _ s' => s'.Bounded (n + 1) ∧ s'.candidate.active ∧ s'.candidate.headers ≠ [])
      (fun _ s' => s'.Bounded (n + 1)) (pushHeader record) s := by
  have hpush : (∀ previous ∈ s.candidate.top, previous.Follows record) →
      SyncState.Bounded (n + 1) { s with
        candidate := { s.candidate with headers := s.candidate.headers ++ [record] } } := by
    intro hfollows
    refine ⟨h.grounded.push hactive hfollows hok, ?_⟩
    rw [List.length_append, List.length_singleton]
    exact Nat.succ_le_succ h.length_le
  have hsome : s.candidate.headers ++ [record] ≠ [] := by simp
  have h' := h.mono n.le_succ
  refine .get_bind ?_
  dsimp only
  cases hlast : s.candidate.headers.getLast? with
  | some last =>
    refine .bind (throwIf_meets _ h') fun _ s₁ hheight => ?_
    obtain ⟨hheight, rfl⟩ := hheight
    refine .bind (lift_meets _ h') fun hash s₂ hhash => ?_
    obtain ⟨hhash, rfl⟩ := hhash
    refine .bind (throwIf_meets _ h') fun _ s₃ hlink => ?_
    obtain ⟨hlink, rfl⟩ := hlink
    refine .bind (throwIf_meets _ h') fun _ s₄ htime => ?_
    obtain ⟨htime, rfl⟩ := htime
    refine ⟨hpush ?_, hactive, hsome⟩
    rintro previous hprevious
    rw [CandidateSync.top, hlast] at hprevious
    obtain rfl : last = previous := Option.some.inj hprevious
    exact ⟨not_not.1 hheight, hhash.trans (congrArg Except.ok (not_not.1 hlink).symm),
      UInt32.not_le.1 htime⟩
  | none =>
    have hempty : s.candidate.headers = [] := List.getLast?_eq_none_iff.1 hlast
    refine .bind (lift_meets _ h') fun last s₁ hfork => ?_
    obtain ⟨hfork, rfl⟩ := hfork
    rw [orThrow_ok] at hfork
    refine .bind (throwIf_meets _ h') fun _ s₂ htime => ?_
    obtain ⟨htime, rfl⟩ := htime
    refine ⟨hpush ?_, hactive, hsome⟩
    rintro previous hprevious
    obtain ⟨hheight, hlink⟩ := hconnects hempty previous hprevious
    rw [CandidateSync.top, hlast, hfork] at hprevious
    obtain rfl : last.header = previous := Option.some.inj hprevious
    exact ⟨hheight, hlink, UInt32.not_le.1 htime⟩

/-- Wherever the loop throws, there are not more headers than before and in the message. -/
theorem pushHeaders_meets {batch : List HeaderRecord} (h : s.Bounded n)
    (hactive : s.candidate.active) (hok : ∀ record ∈ batch, record.Ok)
    (hconnects : s.candidate.headers = [] → ∀ front ∈ batch.head?, s.candidate.Connects front) :
    Meets (fun _ s' => s'.Bounded (n + batch.length) ∧ s'.candidate.active)
      (fun _ s' => s'.Bounded (n + batch.length)) (forM batch pushHeader) s := by
  induction batch generalizing s n with
  | nil => exact .pure ⟨h, hactive⟩
  | cons record batch ih =>
    obtain ⟨hrecord, hbatch⟩ := List.forall_mem_cons.1 hok
    have hpush := pushHeader_meets h hactive hrecord fun hempty => hconnects hempty record rfl
    have hcount : n + 1 + batch.length = n + (record :: batch).length := by
      rw [List.length_cons]
      omega
    rw [List.forM_cons]
    refine .bind (hpush.imp (fun _ _ h => h) fun _ s' h' => h'.mono (by rw [← hcount]; omega)) ?_
    rintro - s₁ ⟨h₁, hactive₁, hne⟩
    rw [← hcount]
    exact ih h₁ hactive₁ hbatch fun hempty => absurd hempty hne

/-- What the loop has pushed is below the height announced, or it throws. -/
theorem afterHeaders_bounded (h : s.Bounded n) (hactive : s.candidate.active)
    (hn : 1000000 ≤ n) :
    Meets (fun _ s' => s'.Bounded 1000000) (fun _ s' => s'.Bounded n) (afterHeaders S outside) s := by
  refine .get_bind (.bind (lift_meets _ h) fun last s₁ hlast => ?_)
  obtain ⟨hlast, rfl⟩ := hlast
  rw [orThrow_ok] at hlast
  refine .bind (throwIf_meets _ h) fun _ s₂ hheight => ?_
  obtain ⟨hheight, rfl⟩ := hheight
  have hbounded : s₂.Bounded 1000000 := by
    refine ⟨h.grounded, ?_⟩
    have hlength := h.grounded.length_le hactive hlast
    have hle := UInt64.le_iff_toNat_le.1 (UInt64.not_lt.1 hheight)
    exact hlength.trans (hle.trans (h.grounded.height_le hactive))
  refine Ends.meets (.bind (ends_lift hbounded) fun hash s₃ hhash h₃ => ?_) fun s' h' => h'.mono hn
  obtain ⟨-, rfl⟩ := lift_run_ok.1 hhash
  split_ifs
  · refine .bind (ends_throwIf h₃) fun _ s₄ hsame h₄ => ?_
    obtain ⟨-, rfl⟩ := throwIf_run_ok.1 hsame
    exact requestCandidateBlocks_ends hactive h₄
  · exact requestHeaders_ends h₃

/-- **A message `headers`** that throws leaves at most its own headers behind. -/
theorem handleHeaders_bounded {payload : Bytes} (h : s.Bounded n) (hn : 1000000 ≤ n) :
    Meets (fun _ s' => s'.Bounded n) (fun _ s' => s'.Bounded (n + 2000))
      (handleHeaders S outside payload) s := by
  have hmore : ∀ s' : SyncState σ, s'.Bounded n → s'.Bounded (n + 2000) :=
    fun s' h' => h'.mono (Nat.le_add_right n 2000)
  refine .modify_bind (.get_bind ?_)
  have h₀ : SyncState.Bounded n { s with unansweredGetheaders := s.unansweredGetheaders - 1 } :=
    h.congr rfl
  revert h₀
  generalize ({ s with unansweredGetheaders := s.unansweredGetheaders - 1 } : SyncState σ) = s₀
  intro h₀
  by_cases hactive : s₀.candidate.active = true
  case neg =>
    rw [if_pos hactive]
    exact .pure h₀
  rw [if_neg (not_not.2 hactive)]
  refine .bind ((lift_meets _ h₀).imp (fun _ _ h => h) fun _ => hmore) fun batch s₁ hbatch => ?_
  obtain ⟨hdecode, rfl⟩ := hbatch
  obtain ⟨hcount, hrecords⟩ := (headers_strict.canonical _ _ hdecode).1
  refine .bind ((lift_meets _ h₀).imp (fun _ _ h => h) fun _ => hmore) fun front s₂ hfront => ?_
  obtain ⟨hfront, rfl⟩ := hfront
  rw [orThrow_ok] at hfront
  refine .bind ((connectHeaders_meets h₀ hactive).imp (fun _ _ h => h) fun _ => hmore) ?_
  rintro - s₃ ⟨h₃, hactive₃, hconnects, -⟩
  have hle : n + batch.length ≤ n + 2000 := Nat.add_le_add_left hcount n
  refine .bind ((pushHeaders_meets h₃ hactive₃ hrecords fun _ front' hfront' => ?_).imp
    (fun _ _ h => h) fun _ s' h' => h'.mono hle) ?_
  · obtain rfl := Option.some.inj (hfront.symm.trans hfront')
    exact hconnects
  rintro - s₄ ⟨h₄, hactive₄⟩
  refine .bind ((afterHeaders_bounded (h₄.mono hle) hactive₄ (by omega)).imp (fun _ _ h => h)
    fun _ _ h => h) fun _ s₅ h₅ => .pure (h₅.mono hn)

/-! ### The other handlers -/

theorem receivePending_ends {stored : StoredBlock} {hash : Str} (h : s.Bounded n)
    (hactive : s.candidate.active) (hid : stored.id = hash) :
    Ends (SyncState.Bounded n) (receivePending S outside stored hash) s := by
  refine .get_bind (.bind (ends_lift h) fun found s₁ hlookup h₁ => ?_)
  obtain ⟨hfind, rfl⟩ := lift_run_ok.1 hlookup
  refine .bind (ends_lift h₁) fun record s₂ hfound h₂ => ?_
  obtain ⟨hsome, rfl⟩ := lift_run_ok.1 hfound
  rw [orThrow_ok] at hsome
  subst hsome
  obtain ⟨hmem, hrecord⟩ := findHeader_mem hfind
  refine .bind (ends_throwIf h₂) fun _ s₃ hsame h₃ => ?_
  obtain ⟨-, rfl⟩ := throwIf_run_ok.1 hsame
  refine .bind (ends_lift h₃) fun text s₄ hsame h₄ => ?_
  obtain ⟨-, rfl⟩ := lift_run_ok.1 hsame
  refine .bind (ends_lift h₄) fun text s₅ hsame h₅ => ?_
  obtain ⟨-, rfl⟩ := lift_run_ok.1 hsame
  refine .bind (ends_throwIf h₅) fun _ s₆ hsame h₆ => ?_
  obtain ⟨-, rfl⟩ := throwIf_run_ok.1 hsame
  refine .bind (inSection_ends h₆) fun _ s₇ hput h₇ => .get_bind ?_
  have hcandidate : s₇.candidate = s.candidate := by
    rw [EStateM.run, inSection] at hput
    split at hput
    · obtain ⟨-, rfl⟩ := EStateM.Result.ok.inj hput
      rfl
    · cases hput
  have hkeep : SyncState.Bounded n { s₇ with candidate := { s₇.candidate with
      blocks := s₇.candidate.blocks.insertIfNew hash stored
      pending := s₇.candidate.pending.erase hash } } := by
    rw [hcandidate]
    exact ⟨h.grounded.keep hactive hid ⟨record, hmem, hrecord⟩ fun _ hmem =>
      ExtTreeSet.mem_of_mem_erase hmem, h.length_le⟩
  refine .bind (I := SyncState.Bounded n) hkeep fun _ s₈ _ h₈ => .get_bind ?_
  split_ifs
  · exact activateCandidate_ends h₈
  · exact .pure h₈

theorem handleBlock_ends {payload : Bytes} (h : s.Bounded n) :
    Ends (SyncState.Bounded n) (handleBlock S outside payload) s := by
  refine .bind (ends_lift h) fun blocks s₁ _ h₁ => ?_
  match blocks with
  | [] => exact .throw h₁
  | _ :: _ :: _ => exact .throw h₁
  | [stored] =>
    refine .bind (ends_lift h₁) fun hash s₂ hashes h₂ => ?_
    obtain ⟨hhash, -⟩ := lift_run_ok.1 hashes
    refine .bind (I := SyncState.Bounded n) (h₂.congr rfl) fun _ s₃ _ h₃ => .get_bind ?_
    dsimp only
    split_ifs with hpending
    · exact .bind (receivePending_ends h₃ hpending.1 (StoredBlock.id_eq hhash)) fun _ s₄ _ h₄ =>
        .pure h₄
    · refine .bind (I := SyncState.Bounded n) ?_ fun sideBranch s₄ _ h₄ => ?_
      · rw [Ends, tryCatch_section_run]
        cases (receiveBlock S stored hash).run (outside.others 0 s₃.directory) <;>
          exact h₃.congr rfl
      · cases sideBranch with
        | none => exact .pure h₄
        | some sideBranch =>
          dsimp only
          split_ifs
          · exact .bind (ends_lift h₄) fun _ s₅ _ h₅ => .pure h₅
          · exact .pure h₄

theorem handleInv_ends {payload : Bytes} (h : s.Bounded n) :
    Ends (SyncState.Bounded n) (handleInv S outside payload) s := by
  refine .bind (ends_lift h) fun items s₁ _ h₁ => ?_
  refine .bind (inSection_ends h₁) fun missing s₂ _ h₂ => ?_
  split_ifs
  · exact .bind (requestData_ends h₂) fun _ s₃ _ h₃ => .pure h₃
  · exact .pure h₂

theorem handleNotfound_ends {payload : Bytes} (h : s.Bounded n) :
    Ends (SyncState.Bounded n) (handleNotfound payload) s := by
  rw [handleNotfound]
  cases deserializeInventory payload with
  | ok items => exact h.congr rfl
  | error e => exact h

/-- **The step lemma**: only a message `headers` that throws leaves more headers behind. -/
theorem handle_bounded {message : Message} (h : s.Bounded n) (hn : 1000000 ≤ n) :
    Meets (fun _ s' => s'.Bounded n)
      (fun _ s' => s'.Bounded n ∨ message.command ∈ otherCommands ∧ s'.Bounded (n + 2000))
      (handle S outside message) s := by
  rw [handle]
  split_ifs with hheaders
  · refine (handleHeaders_bounded h hn).imp (fun _ _ h => h) fun _ s' h' => .inr ⟨?_, h'⟩
    rw [hheaders]
    decide
  · exact Ends.meets (.bind (ends_lift h) fun peer s₁ _ h₁ =>
      .bind (syncWith_ends peer h₁) fun _ s₂ _ h₂ => .pure h₂) fun _ => .inl
  · exact Ends.meets (handleInv_ends h) fun _ => .inl
  · exact Ends.meets (handleBlock_ends h) fun _ => .inl
  · exact Ends.meets (handleNotfound_ends h) fun _ => .inl
  · exact Ends.meets (ends_lift h) fun _ => .inl

end

/-! ## The score -/

section
variable {policy : NetworkPolicy} {arrival : Arrival} {s s' : SessionLoop}

/-- The score is at least what it was. -/
def AtLeast (score : ℤ) (s : SessionLoop) : Prop := score ≤ s.misbehaviorScore

theorem countMessage_score : (countMessage policy arrival s).misbehaviorScore =
    s.misbehaviorScore := by
  unfold countMessage
  dsimp only
  split_ifs <;> rfl

theorem penalize_ends {score : ℤ} {penalty : ℕ} (h : AtLeast score s) :
    Ends (AtLeast score) (penalize penalty) s := by
  show score ≤ s.misbehaviorScore + penalty
  rw [AtLeast] at h
  omega

theorem dispatch_ends {score : ℤ} {message : Message} (h : AtLeast score s) :
    Ends (AtLeast score) (dispatch arrival message) s := by
  rw [dispatch]
  split_ifs
  · cases arrival.handled with
    | done penalty => exact .bind (penalize_ends h) fun _ s₁ _ h₁ => .pure h₁
    | thrown e => exact .throw h
  · refine .bind (ends_throwIf h) fun _ s₁ _ h₁ => ?_
    exact .bind (ends_lift h₁) fun _ s₂ _ h₂ => .pure h₂
  · exact .bind (penalize_ends h) fun _ s₁ _ h₁ => .pure h₁
  · refine .get_bind ?_
    dsimp only
    split_ifs
    · exact .bind (penalize_ends h) fun _ s₁ _ h₁ => .pure h₁
    · exact h
  · exact .pure h
  · exact .pure h
  · exact .bind (penalize_ends h) fun _ s₁ _ h₁ => .pure h₁

theorem receive_ends {score : ℤ} (h : AtLeast score s) :
    Ends (AtLeast score) (receive policy arrival) s := by
  refine .bind (ends_lift h) fun readable s₁ _ h₁ => ?_
  split_ifs
  · refine .bind (ends_lift h₁) fun message s₂ _ h₂ => ?_
    have hcount : AtLeast score (countMessage policy arrival s₂) := by
      rw [AtLeast, countMessage_score]
      exact h₂
    refine .bind (I := AtLeast score) hcount fun _ s₃ _ h₃ => .get_bind ?_
    split_ifs
    · exact .pure h₃
    · exact dispatch_ends h₃
  · exact .pure h₁

theorem checkTimers_ends {score : ℤ} (h : AtLeast score s) :
    Ends (AtLeast score) (checkTimers policy arrival) s := by
  have hlast : ∀ s₁, AtLeast score s₁ → Ends (AtLeast score) (do
      if (← get).misbehaviorScore ≥ policy.threshold then return .returned
      return .continued : LoopM Exit) s₁ := by
    intro s₁ h₁
    refine .get_bind ?_
    split_ifs <;> exact .pure h₁
  refine .bind (I := AtLeast score) ?_ fun _ s₁ _ h₁ => .get_bind ?_
  · refine .get_bind ?_
    split_ifs
    · exact .bind (ends_lift h) fun _ s₁ _ h₁ => h₁
    · exact .pure h
  · dsimp only
    split_ifs
    · exact .pure h₁
    · exact .bind (ends_lift h₁) fun _ s₂ _ h₂ =>
        .bind (I := AtLeast score) h₂ fun _ s₃ _ h₃ => hlast s₃ h₃
    · exact hlast s₁ h₁

theorem catchRuntimeError_score {e : Exn} (h : catchRuntimeError policy e s = some s') :
    s'.misbehaviorScore = s.misbehaviorScore + 25 := by
  simp only [catchRuntimeError] at h
  split_ifs at h
  obtain rfl := Option.some.inj h
  rfl

/-- **The score of a session never decreases.** -/
theorem iteration_score (h : iteration policy s arrival = some s') :
    s.misbehaviorScore ≤ s'.misbehaviorScore := by
  have hbody : Ends (AtLeast s.misbehaviorScore) (loopBody policy arrival) s := by
    refine .bind (receive_ends (Int.le_refl s.misbehaviorScore)) fun exit s₁ _ h₁ => ?_
    cases exit with
    | proceed => exact checkTimers_ends h₁
    | continued => exact .pure h₁
    | returned => exact .pure h₁
  rw [Ends] at hbody
  unfold iteration at h
  split_ifs at h
  cases hrun : (loopBody policy arrival).run s with
  | ok exit s₁ =>
    rw [hrun] at h hbody
    cases exit with
    | returned => cases h
    | proceed => exact Option.some.inj h ▸ hbody
    | continued => exact Option.some.inj h ▸ hbody
  | error e s₁ =>
    rw [hrun] at h hbody
    have hscore := catchRuntimeError_score h
    have hle : s.misbehaviorScore ≤ s₁.misbehaviorScore := hbody
    omega

/-- **A handler that throws** costs 25, if the session goes on. -/
theorem iteration_thrown {message : Message} {e : Exn} (hreceived : arrival.received = some message)
    (hother : message.command ∈ otherCommands) (hthrown : arrival.handled = .thrown e)
    (h : iteration policy s arrival = some s') : s.misbehaviorScore + 25 ≤ s'.misbehaviorScore := by
  obtain ⟨hreadable, hmessage⟩ : arrival.readable = .ok true ∧ arrival.message = .ok message := by
    unfold Arrival.received at hreceived
    split at hreceived
    · next hr hm => exact ⟨hr, hm.trans (congrArg Except.ok (Option.some.inj hreceived))⟩
    · cases hreceived
  have hreceive : (receive policy arrival).run s = (do
      if (countMessage policy arrival s).messagesInWindow > policy.maxMessagesPerWindow then
        return .returned
      dispatch arrival message : LoopM Exit).run (countMessage policy arrival s) := by
    rw [receive, hreadable, hmessage]
    rfl
  have hdispatch : (dispatch arrival message).run (countMessage policy arrival s) =
      .error e (countMessage policy arrival s) := by
    rw [dispatch, if_pos hother, hthrown]
    rfl
  rw [iteration, loopBody, EStateM.run_bind, hreceive] at h
  by_cases hlimit : (countMessage policy arrival s).messagesInWindow > policy.maxMessagesPerWindow
  · rw [if_pos hlimit] at h
    split_ifs at h
    cases h
  · rw [if_neg hlimit, hdispatch] at h
    split_ifs at h
    rw [catchRuntimeError_score h, countMessage_score]

end

/-! ## Sessions -/

section
variable [Crypto] {σ : Type} {S : ChainStore σ} {policy : NetworkPolicy} {arrival : Arrival}
  {outside : Outside σ} {now : Time}

namespace SyncSession
variable {t t' : SyncSession σ}

/-- The headers of the candidate are not more than the score allows. -/
structure Limited (t : SyncSession σ) : Prop where
  grounded : t.sync.candidate.Grounded
  score_nonneg : 0 ≤ t.loop.misbehaviorScore
  length_le : (t.sync.candidate.headers.length : ℤ) ≤ 1000000 + 80 * t.loop.misbehaviorScore

theorem Starts.limited (h : Starts S now t) : t.Limited := by
  have hempty : ∀ d : DataDirectory σ, SyncState.Bounded 1000000 ⟨d, .empty, 0, [], []⟩ :=
    fun d => .of_empty rfl
  cases h with
  | inbound d => exact ⟨.empty, le_rfl, by simp [CandidateSync.empty, SessionLoop.initial]⟩
  | outbound d outside peer sync hrun =>
    have hends : Ends (SyncState.Bounded 1000000) (syncWith S outside peer) _ :=
      syncWith_ends peer (hempty d)
    rw [Ends, hrun] at hends
    have hle := hends.length_le
    refine ⟨hends.grounded, le_rfl, ?_⟩
    simp only [final, SessionLoop.initial] at hle ⊢
    omega

theorem step_limited (ht : t.Limited) (h : t.step S policy arrival outside = some t') :
    t'.Limited := by
  obtain ⟨hgrounded, hnonneg, hlength⟩ := ht
  unfold step at h
  cases hreceived : arrival.received with
  | none =>
    rw [hreceived] at h
    obtain ⟨loop, hloop, rfl⟩ := Option.map_eq_some_iff.1 h
    have hscore := iteration_score hloop
    exact ⟨hgrounded, hnonneg.trans hscore, by dsimp only; omega⟩
  | some message =>
    rw [hreceived] at h
    obtain ⟨loop, hloop, rfl⟩ := Option.map_eq_some_iff.1 h
    have hscore := iteration_score hloop
    -- the number of headers that the score allows before the message
    obtain ⟨n, hn⟩ := Int.eq_ofNat_of_zero_le
      (show 0 ≤ 1000000 + 80 * t.loop.misbehaviorScore by omega)
    have hbefore : t.sync.Bounded n := ⟨hgrounded, by omega⟩
    have hmeets : Meets (fun _ s' => s'.Bounded n)
        (fun _ s' => s'.Bounded n ∨ message.command ∈ otherCommands ∧ s'.Bounded (n + 2000))
        (handle S outside message) t.sync := handle_bounded hbefore (by omega)
    rw [Meets] at hmeets
    cases hrun : (handle S outside message).run t.sync with
    | ok penalty s' =>
      rw [hrun] at hmeets
      have hle := hmeets.length_le
      exact ⟨hmeets.grounded, hnonneg.trans hscore, by simp only [final]; omega⟩
    | error e s' =>
      rw [hrun] at hmeets hloop
      rcases hmeets with hbounded | ⟨hother, hbounded⟩
      · have hle := hbounded.length_le
        exact ⟨hbounded.grounded, hnonneg.trans hscore, by simp only [final]; omega⟩
      · have hsame : ({ arrival with handled := .thrown e } : Arrival).received = some message :=
          hreceived
        have hthrown := iteration_thrown hsame hother rfl hloop
        have hle := hbounded.length_le
        exact ⟨hbounded.grounded, hnonneg.trans hscore, by simp only [final]; omega⟩

theorem run_limited {events : List (Arrival × Outside σ)} (hstart : Starts S now t)
    (hrun : Run (fun t event t' => t.step S policy event.1 event.2 = some t') t events t') :
    t'.Limited :=
  hrun.invariant (I := Limited) (fun _ _ _ ht hstep => step_limited ht hstep) hstart.limited

/-- **What a candidate is**, in every state of a session with any peer: an accepted chain of blocks,
    and headers above it that are linked and have their proof of work; and what is kept or awaited
    beside them belongs to one of them. -/
theorem candidate_grounded {events : List (Arrival × Outside σ)} (hstart : Starts S now t)
    (hrun : Run (fun t event t' => t.step S policy event.1 event.2 = some t') t events t') :
    t'.sync.candidate.Grounded := (run_limited hstart hrun).grounded

/-- **A peer cannot fill the memory with headers**: a candidate has at most a million of them, and
    2000 more for every 25 points of the score. -/
theorem headers_limited {events : List (Arrival × Outside σ)} (hstart : Starts S now t)
    (hrun : Run (fun t event t' => t.step S policy event.1 event.2 = some t') t events t') :
    (t'.sync.candidate.headers.length : ℤ) ≤ 1000000 + 80 * t'.loop.misbehaviorScore :=
  (run_limited hstart hrun).length_le

end SyncSession

end

/-! ## A peer that repeats a header -/

namespace SyncSession

attribute [local instance] sampleCrypto

/-- The peer repeats its first header, so that the message is rejected after it; then it goes on. -/
def sampleDetour : List Message := [sampleStatus, sampleHeaders [1, 1], sampleHeaders [2], sampleBody 1]

theorem detour_facts : ((sampleSteps 1 (sampleDetour.take 2) genesisStart).any fun t =>
      t.sync.candidate.headers.length == 1 && t.loop.misbehaviorScore == 25) = true ∧
    ((sampleSteps 1 sampleDetour genesisStart).any fun t =>
      t.sync.candidate.active && t.sync.candidate.headers.length == 2 &&
      t.sync.candidate.pending.toList == [(sampleBlock 2).id] &&
      t.sync.candidate.blocks.keys == [(sampleBlock 1).id]) = true := by
  decide +kernel

/-- The candidate has two headers, one of them left by the message that was rejected, and the body of
    the first. -/
theorem candidate_grounded_detour : ∃ t, Run (fun t (event : Arrival × Outside _) t' =>
      t.step .memory samplePolicy event.1 event.2 = some t') genesisStart
      (sampleEvents 1 sampleDetour) t ∧
    t.sync.candidate.active ∧ t.sync.candidate.headers.length = 2 ∧
    t.sync.candidate.pending.toList = [(sampleBlock 2).id] ∧
    t.sync.candidate.blocks.keys = [(sampleBlock 1).id] ∧ t.sync.candidate.Grounded := by
  obtain ⟨t, hsteps, hfacts⟩ := (Option.any_eq_true _ _).1 detour_facts.2
  simp only [Bool.and_eq_true, beq_iff_eq] at hfacts
  obtain ⟨⟨⟨hactive, hheaders⟩, hpending⟩, hblocks⟩ := hfacts
  have hrun := run_of_sampleSteps hsteps
  exact ⟨t, hrun, hactive, hheaders, hpending, hblocks,
    candidate_grounded (.inbound genesisDirectory) hrun⟩

/-- The header that the rejected message has left behind costs 25. -/
theorem headers_limited_detour : ∃ t, Run (fun t (event : Arrival × Outside _) t' =>
      t.step .memory samplePolicy event.1 event.2 = some t') genesisStart
      (sampleEvents 1 (sampleDetour.take 2)) t ∧
    t.sync.candidate.headers.length = 1 ∧ t.loop.misbehaviorScore = 25 ∧
    (t.sync.candidate.headers.length : ℤ) ≤ 1000000 + 80 * t.loop.misbehaviorScore := by
  obtain ⟨t, hsteps, hfacts⟩ := (Option.any_eq_true _ _).1 detour_facts.1
  rw [Bool.and_eq_true, beq_iff_eq, beq_iff_eq] at hfacts
  have hrun := run_of_sampleSteps hsteps
  exact ⟨t, hrun, hfacts.1, hfacts.2, headers_limited (.inbound genesisDirectory) hrun⟩

end SyncSession

end BinaryCoin
