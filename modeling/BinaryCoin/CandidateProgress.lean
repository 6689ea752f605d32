/-
  BinaryCoin — net.cpp: candidates that are not abandoned.

  An active candidate waits for headers or for blocks.  Handlers change what it
  waits for in several places and may throw between them, and the loop goes on
  after most exceptions; so it keeps waiting as long as every message completes
  what it changes (`Completes`).
-/
import BinaryCoin.Candidate

namespace BinaryCoin

open Cursor Std Runs Stateful Text

section
variable [Crypto] {σ : Type}

/-! ## What is sent -/

/-- An exception of `send_all`. -/
def HangsUp (e : Exn) : Prop := ∃ sent : Sent, sent.result = .error e

omit [Crypto] in
theorem catchRuntimeError_hangsUp {e : Exn} (h : HangsUp e) (policy : NetworkPolicy)
    (s : SessionLoop) : catchRuntimeError policy e s = none := by
  obtain ⟨sent, hsent⟩ := h
  cases sent with
  | done => cases hsent
  | failed text =>
    obtain rfl := Except.error.inj hsent
    have hstarts : startsWith ("send failed: " ++ text) "send failed:" = true := by
      rw [startsWith, String.toList_append, decide_eq_true_eq]
      exact ⟨[' '] ++ text.toList, rfl⟩
    simp only [catchRuntimeError, runtimeError, hstarts]
    simp
  | closed =>
    obtain rfl := Except.error.inj hsent
    have hcontains : contains "Peer closed connection during send" "closed" = true := by decide
    simp only [catchRuntimeError, runtimeError, hcontains]
    simp

theorem sendMessage_eq {command : Str} {payload : Bytes} (hcommand : CommandOk command)
    (hlength : payload.length ≤ maxP2pPayload) (sent : Sent) :
    sendMessage sent command payload = sent.result := by
  rw [sendMessage, encodeP2pFrame_sent hcommand hlength]
  rfl

omit [Crypto] in
theorem length_compactLength_le {α : Type} (as : List α) : (compactLength as).length ≤ 9 := by
  rw [compactLength, compactSize]
  split_ifs <;> simp

omit [Crypto] in
theorem length_flatMap_le_mul {α : Type} {f : α → Bytes} {n : ℕ} {as : List α}
    (h : ∀ a ∈ as, (f a).length ≤ n) : (as.flatMap f).length ≤ n * as.length := by
  induction as with
  | nil => simp
  | cons a as ih =>
    obtain ⟨ha, has⟩ := List.forall_mem_cons.1 h
    have hrest := ih has
    rw [List.flatMap_cons, List.length_append, List.length_cons, Nat.mul_succ]
    omega

omit [Crypto] in
theorem getheaders_payload {request : GetHeadersRequest} (h : request.Ok) :
    ∃ payload, serializeGetheaders request = .ok payload ∧ payload.length ≤ maxP2pPayload := by
  obtain ⟨payload, hpayload, hread⟩ := getheaders_strict.roundTrip request h
  obtain ⟨-, rfl⟩ := deserializeGetheaders_ok.1 hread
  refine ⟨_, hpayload, ?_⟩
  have hhashes := length_flatMap_le_mul fun hash hmem => (length_wireOf (h.hashes hash hmem)).le
  have hcount := h.count
  have hcompact := length_compactLength_le request.locator
  rw [GetHeadersRequest.encode, List.length_append, List.length_append, length_wireOf h.stopHash]
  simp only [maxLocatorSize, maxP2pPayload] at *
  omega

omit [Crypto] in
theorem inventory_payload {items : List InventoryItem} (h : InventoryOk items) :
    ∃ payload, serializeInventory items = .ok payload ∧ payload.length ≤ maxP2pPayload := by
  obtain ⟨payload, hpayload, hread⟩ := inventory_strict.roundTrip items h
  obtain ⟨-, rfl⟩ := deserializeInventory_ok.1 hread
  refine ⟨_, hpayload, ?_⟩
  have hitems : (items.flatMap InventoryItem.encode).length ≤ 36 * items.length :=
    length_flatMap_le_mul fun item hmem => by
      rw [InventoryItem.encode, List.length_append, LittleEndian.length_leBytes,
        length_wireOf (h.hashes item hmem)]
  have hcount := h.count
  have hcompact := length_compactLength_le items
  rw [List.length_append]
  simp only [maxInventoryItems, maxP2pPayload] at *
  omega

end

/-! ## What a candidate knows -/

section
variable {σ : Type} {s s' : SyncState σ}

/-- What the candidate knows can be hashed. -/
structure SyncState.Known (s : SyncState σ) : Prop where
  headers : ∀ record ∈ s.candidate.headers, record.header.Canonical
  kept : ∀ b ∈ s.candidate.chainPrefix, b.Canonical
  pending : ∀ hash ∈ s.candidate.pending, IsDisplayHex hash

/-- An active candidate waits for something: all that is pending has been asked for, unless headers
    are still to come. -/
structure SyncState.Sound (s : SyncState σ) : Prop extends s.Known where
  waiting : s.candidate.active → 0 < s.unansweredGetheaders ∨
    s.candidate.pending ≠ ∅ ∧ ∀ hash ∈ s.candidate.pending, hash ∈ s.requestedBlocks

theorem SyncState.Sound.canProgress (h : s.Sound) : s.CanProgress := by
  intro hactive
  rcases h.waiting hactive with hheaders | ⟨hne, hall⟩
  · exact .inl hheaders
  · have hmem : s.candidate.pending.min hne ∈ s.candidate.pending := ExtTreeSet.min_mem
    exact .inr ⟨_, hmem, hall _ hmem⟩

/-- A state with the candidate `CandidateSync{}`. -/
theorem SyncState.Sound.of_empty (h : s.candidate = .empty) : s.Sound := by
  refine ⟨⟨?_, ?_, ?_⟩, ?_⟩ <;> rw [h]
  · intro record hmem
    cases hmem
  · intro b hmem
    cases hmem
  · intro hash hmem
    exact absurd hmem ExtTreeSet.not_mem_empty
  · intro hactive
    cases hactive

theorem SyncState.Known.congr (h : s.Known) (hcandidate : s'.candidate = s.candidate) : s'.Known :=
  ⟨hcandidate ▸ h.headers, hcandidate ▸ h.kept, hcandidate ▸ h.pending⟩

/-- What happens outside the candidate. -/
theorem SyncState.Sound.congr (h : s.Sound) (hcandidate : s'.candidate = s.candidate)
    (hheaders : s.unansweredGetheaders ≤ s'.unansweredGetheaders)
    (hblocks : ∀ hash ∈ s.requestedBlocks, hash ∈ s'.requestedBlocks) : s'.Sound := by
  refine ⟨h.toKnown.congr hcandidate, fun hactive => ?_⟩
  rw [hcandidate] at hactive ⊢
  rcases h.waiting hactive with hpos | ⟨hne, hall⟩
  · exact .inl (hpos.trans_le hheaders)
  · exact .inr ⟨hne, fun hash hmem => hblocks hash (hall hash hmem)⟩

/-- Where an exception leaves a handler, it ends the session or the state is sound. -/
def Thrown (e : Exn) (s : SyncState σ) : Prop := HangsUp e ∨ s.Sound

variable {α : Type} {Q : α → SyncState σ → Prop} {outside : Outside σ} {n : ℕ}

theorem meets_lift {x : Except Exn α} (hs : s.Sound) (hQ : ∀ a, x = .ok a → Q a s) :
    Meets Q Thrown (liftM x : SyncM σ α) s := by
  cases x with
  | ok a => exact hQ a rfl
  | error e => exact .inr hs

theorem meets_throwIf {c : Prop} [Decidable c] {e : Exn} {Q : Unit → SyncState σ → Prop}
    (hs : s.Sound) (hQ : ¬ c → Q () s) : Meets Q Thrown (throwIf c e : SyncM σ Unit) s := by
  by_cases hc : c
  · rw [throwIf, if_pos hc]
    exact .inr hs
  · rw [throwIf, if_neg hc]
    exact hQ hc

/-- What does not throw. -/
theorem meets_lift_bind {β : Type} {R : β → SyncState σ → Prop} {F : Exn → SyncState σ → Prop}
    {x : Except Exn α} {f : α → SyncM σ β} {a : α} (hx : x = .ok a) (hf : Meets R F (f a) s) :
    Meets R F (liftM x >>= f) s :=
  .ok_bind (lift_run_ok.2 ⟨hx, rfl⟩) hf

theorem meets_throwIf_bind {β : Type} {R : β → SyncState σ → Prop} {F : Exn → SyncState σ → Prop}
    {c : Prop} [Decidable c] {e : Exn} {f : Unit → SyncM σ β} (hc : ¬ c) (hf : Meets R F (f ()) s) :
    Meets R F (throwIf c e >>= f) s :=
  .ok_bind (a := ()) (throwIf_run_ok.2 ⟨hc, rfl⟩) hf

theorem meets_sent (sent : Sent) {Q : Unit → SyncState σ → Prop} (hQ : Q () s) :
    Meets Q Thrown (liftM sent.result : SyncM σ Unit) s := by
  cases hresult : sent.result with
  | ok _ => exact hQ
  | error e => exact .inl ⟨sent, hresult⟩

theorem inSection_run {x : SectionM σ α} {a : α} {d : DataDirectory σ}
    (h : x.run (outside.others n s.directory) = .ok a d) :
    (inSection outside n x).run s = .ok a { s with directory := d } := by
  rw [EStateM.run, inSection, h]

theorem inSection_meets {x : SectionM σ α} (hs : s.Sound)
    (hQ : ∀ a d, x.run (outside.others n s.directory) = .ok a d → Q a { s with directory := d }) :
    Meets Q Thrown (inSection outside n x) s := by
  cases hrun : x.run (outside.others n s.directory) with
  | ok a d => exact .of_ok (inSection_run hrun) (hQ a d hrun)
  | error e d =>
    rw [Meets, EStateM.run, inSection, hrun]
    exact .inr (hs.congr rfl le_rfl fun _ h => h)

theorem onNode_run_ok {x : NodeM σ α} {a : α} {d d' : DataDirectory σ} :
    (onNode x).run d = .ok a d' ↔ ∃ node, x.run d.node = .ok a node ∧ d' = { d with node := node } := by
  simp only [onNode, EStateM.run]
  cases x d.node <;> simp [eq_comm]

theorem onBranches_run_ok {x : SideBranchM α} {a : α} {d d' : DataDirectory σ} :
    (onBranches x).run d = .ok a d' ↔
      ∃ branches, x.run d.branches = .ok a branches ∧ d' = { d with branches := branches } := by
  simp only [onBranches, EStateM.run]
  cases x d.branches <;> simp [eq_comm]

variable [Crypto] {S : ChainStore σ}

/-- A chain that has been loaded is accepted. -/
theorem openChain_ok {blocks : List StoredBlock} {d d' : DataDirectory σ}
    (h : (openChain S).run d = .ok blocks d') :
    blocks = d'.node.chain.blocks ∧ d'.node.chain.Valid ∧ d'.branches = d.branches ∧
      d'.node.mempool = d.node.mempool := by
  simp only [openChain, run_bind_ok, onNode_run_ok, onChain_run_ok, run_modify_ok, run_get_ok,
    run_pure_ok] at h
  obtain ⟨_, _, ⟨_, ⟨chain, ⟨_, _, rfl, hload⟩, rfl⟩, rfl⟩, _, _, ⟨rfl, rfl⟩, rfl, rfl⟩ := h
  exact ⟨rfl, TestnetChain.load_ok hload, rfl, rfl⟩

theorem openBranches_ok {blocks : List StoredBlock} {d d' : DataDirectory σ}
    (h : openBranches.run d = .ok blocks d') :
    blocks = d'.branches.blocks ∧ SideBranchStore.Loads d.branches.file blocks ∧
      d'.branches.file = d.branches.file ∧ d'.node = d.node := by
  simp only [openBranches, run_bind_ok, onBranches_run_ok, run_get_ok, run_pure_ok] at h
  obtain ⟨_, _, ⟨branches, hload, rfl⟩, _, _, ⟨rfl, rfl⟩, rfl, rfl⟩ := h
  have hstart : SideBranchStore.load.run ⟨[], d.branches.file⟩ = .ok () branches := hload
  obtain ⟨-, hloads⟩ := SideBranchStore.load_good hstart
  have heq : branches = ⟨branches.blocks, d.branches.file⟩ :=
    (EStateM.Result.ok.inj (hstart.symm.trans hloads)).2
  exact ⟨rfl, hloads, by rw [heq], rfl⟩

/-! ## Requests -/

theorem requestHeaders_meets {locator : List Str} {Q : Unit → SyncState σ → Prop}
    (hok : GetHeadersRequest.Ok ⟨locator, zeroHashHex⟩)
    (hQ : Q () { s with unansweredGetheaders := s.unansweredGetheaders + 1 }) :
    Meets Q Thrown (requestHeaders outside locator) s := by
  obtain ⟨payload, hpayload, hlength⟩ := getheaders_payload hok
  have hcommand : CommandOk (str "getheaders") := validateCommand_ok.1 rfl
  refine meets_lift_bind hpayload ?_
  rw [sendMessage_eq hcommand hlength]
  refine .bind (meets_sent (Q := fun _ s' => s' = s) _ rfl) fun _ s' h => ?_
  subst h
  exact .modify hQ

theorem requestData_meets {items : List InventoryItem} {Q : Unit → SyncState σ → Prop}
    (hok : InventoryOk items)
    (hQ : Q () { s with requestedBlocks := s.requestedBlocks ++
      (items.filter fun item => item.type = .block).map InventoryItem.hash }) :
    Meets Q Thrown (requestData outside n items) s := by
  obtain ⟨payload, hpayload, hlength⟩ := inventory_payload hok
  have hcommand : CommandOk (str "getdata") := validateCommand_ok.1 rfl
  refine meets_lift_bind hpayload ?_
  rw [sendMessage_eq hcommand hlength]
  refine .bind (meets_sent (Q := fun _ s' => s' = s) _ rfl) fun _ s' h => ?_
  subst h
  exact .modify hQ

/-- **A candidate that starts** waits for headers. -/
theorem startCandidateSync_meets (hs : s.Sound) (height : UInt64) (tip work : Str) :
    Meets (fun _ s' => s'.Sound) Thrown (startCandidateSync S outside height tip work) s := by
  refine .bind (meets_throwIf (Q := fun _ s' => s' = s) hs fun _ => rfl) fun _ s₁ h => ?_
  subst h
  refine .bind (inSection_meets (Q := fun blocks s' => s'.Sound ∧ ∃ u, Chain blocks u) hs
    fun blocks d hrun => ?_) fun blocks s₂ h => ?_
  · obtain ⟨rfl, hvalid, -⟩ := openChain_ok hrun
    exact ⟨hs.congr rfl le_rfl fun _ h => h, _, hvalid⟩
  obtain ⟨hs₂, u, hchain⟩ := h
  have hne := hchain.ne_nil
  have htip : tipOf blocks = .ok (blocks.getLast hne) :=
    orThrow_ok.2 (List.getLast?_eq_some_getLast hne)
  have hcanonical := hchain.stored_canonical
  obtain ⟨indices, locator, hmake, hindices, hlocator, hcount⟩ := makeBlockLocator_run hne
    (by have := hchain.length_le; omega) fun stored hmem => ⟨_, (hcanonical stored hmem).hashHex⟩
  refine meets_lift_bind htip (.modify_bind (meets_lift_bind hmake ?_))
  refine requestHeaders_meets ?_ ?_
  · refine getHeadersRequest_locator ?_ hlocator hcount .zero
    rintro rfl
    cases hindices.head
  · exact ⟨⟨by simp, hcanonical, by simp⟩, fun _ => .inl (Nat.succ_pos _)⟩

/-! ## Messages that complete a candidate -/

/-- The hash of a header. -/
def HeaderRecord.id (record : HeaderRecord) : Str :=
  hashToDisplayHex (sha256d record.header.encode)

theorem HeaderRecord.hashHex_id {record : HeaderRecord} (h : record.header.Canonical) :
    record.header.hashHex = .ok record.id :=
  BlockHeader.hashHex_ok.2 ⟨⟨_, h.serialize⟩, rfl⟩

/-- The header `b` follows `a`. -/
structure HeaderRecord.Follows (a b : HeaderRecord) : Prop where
  height : b.height = a.height + 1
  link : a.header.hashHex = .ok b.header.previousHash
  time : a.header.time < b.header.time

namespace CandidateSync

/-- The headers of a message that continue a candidate, and the candidate with them. -/
inductive Continues (c : CandidateSync) : List HeaderRecord → CandidateSync → Prop
  /-- the first message: it starts above the last block of the chain that has the right hash -/
  | first {i : ℕ} {fork : StoredBlock} {front : HeaderRecord} {rest : List HeaderRecord}
      (hempty : c.headers = []) (hfork : c.chainPrefix[i]? = some fork)
      (hlink : fork.hashHex = .ok front.header.previousHash)
      (hlast : ∀ j b, i < j → c.chainPrefix[j]? = some b →
        b.hashHex ≠ .ok front.header.previousHash)
      (hheight : front.height = fork.height + 1)
      (htime : fork.block.header.time < front.header.time)
      (hrest : (front :: rest).IsChain HeaderRecord.Follows) : Continues c (front :: rest) { c with
        forkHeight := fork.height
        chainPrefix := c.chainPrefix.take (i + 1)
        headers := front :: rest }
  | next {previous front : HeaderRecord} {rest : List HeaderRecord}
      (hprevious : c.headers.getLast? = some previous)
      (hrest : (previous :: front :: rest).IsChain HeaderRecord.Follows) :
      Continues c (front :: rest) { c with headers := c.headers ++ front :: rest }

/-- A header whose body the node has, or that is pending. -/
def collect (active branches : List StoredBlock) (c : CandidateSync) (record : HeaderRecord) :
    CandidateSync :=
  match active.find? (fun b => b.id = record.id) <|> branches.find? (fun b => b.id = record.id) with
  | some stored => { c with blocks := c.blocks.insertIfNew record.id stored }
  | none => { c with pending := c.pending.insert record.id }

def collectAll (active branches : List StoredBlock) (c : CandidateSync) : CandidateSync :=
  c.headers.foldl (collect active branches) c

/-- With the body of a header that was pending. -/
def receive (c : CandidateSync) (stored : StoredBlock) : CandidateSync :=
  { c with
    blocks := c.blocks.insertIfNew stored.id stored
    pending := c.pending.erase stored.id }

end CandidateSync

section
variable (S : ChainStore σ) (outside : Outside σ)

/-- What the candidate has is what was announced, and its section `n` returns. -/
def Activates (n : ℕ) (c : CandidateSync) (d : DataDirectory σ) : Prop :=
  ∃ full r d', c.assemble = .ok full ∧
    (activateFull S c.forkHeight full).run (outside.others n d) = .ok r d'

/-- The files can be read when all headers are there. -/
def Collects (c : CandidateSync) (d : DataDirectory σ) : Prop :=
  ∃ branches d₁ active d₂, openBranches.run (outside.others 0 d) = .ok branches d₁ ∧
    (openChain S).run (outside.others 1 d₁) = .ok active d₂ ∧
    ((c.collectAll active branches).pending = ∅ →
      Activates S outside 2 (c.collectAll active branches) d₂)

/-- The headers of the message continue the candidate, up to the announced tip at most. -/
def HeadersComplete (s : SyncState σ) (payload : Bytes) : Prop :=
  ∃ batch c last, deserializeHeaders payload = .ok batch ∧ s.candidate.Continues batch c ∧
    c.headers.getLast? = some last ∧ last.height ≤ c.expectedHeight ∧
    (last.id = c.expectedTip → last.height = c.expectedHeight ∧ Collects S outside c s.directory)

/-- The block is the one that was asked for, and can be put into the store. -/
def BlockComplete (s : SyncState σ) (stored : StoredBlock) : Prop :=
  ∃ record d, s.candidate.headers.find? (fun record => record.id = stored.id) = some record ∧
    record.height = stored.height ∧ record.header = stored.block.header ∧
    (do let _ ← openBranches; onBranches (SideBranchStore.putMany [stored])).run
      (outside.others 0 s.directory) = .ok () d ∧
    ((s.candidate.receive stored).pending = ∅ →
      Activates S outside 1 (s.candidate.receive stored) d)

/-- No message leaves an active candidate behind half-way. -/
structure Completes (s : SyncState σ) (message : Message) : Prop where
  headers : message.command = str "headers" → s.candidate.active →
    HeadersComplete S outside s message.payload
  block : message.command = str "block" → s.candidate.active → ∀ stored,
    deserializeStoredBlocks message.payload = .ok [stored] → stored.id ∈ s.candidate.pending →
    BlockComplete S outside s stored
  notfound : message.command = str "notfound" → s.candidate.active → ∀ items,
    deserializeInventory message.payload = .ok items →
    ∀ item ∈ items, item.type = .block → item.hash ∉ s.candidate.pending

end

/-! ## The handler of headers -/

/-- The search from the top finds the last block with a hash. -/
theorem searchBelow_last {blocks : List StoredBlock} {hash : Str} {i : ℕ} {b : StoredBlock}
    (hcanonical : ∀ b ∈ blocks, b.Canonical) (hi : blocks[i]? = some b) (hb : b.hashHex = .ok hash)
    (hlast : ∀ j b', i < j → blocks[j]? = some b' → b'.hashHex ≠ .ok hash) {n : ℕ} (hin : i < n)
    (hn : n ≤ blocks.length) : searchBelow blocks hash n = .ok (some i) := by
  induction n with
  | zero => exact absurd hin (Nat.not_lt_zero i)
  | succ n ih =>
    have hget : blocks[n]? = some blocks[n] := List.getElem?_eq_getElem hn
    have hhash : hashAt blocks n = .ok blocks[n].id :=
      hashAt_ok.2 ⟨_, hget, (hcanonical _ (List.getElem_mem hn)).hashHex_id⟩
    refine except_bind_ok.2 ⟨_, hhash, ?_⟩
    rcases Nat.lt_or_ge i n with hlt | hge
    · have hne : blocks[n].id ≠ hash := by
        intro heq
        refine hlast n _ hlt hget ?_
        rw [← heq]
        exact (hcanonical _ (List.getElem_mem hn)).hashHex_id
      rw [if_neg hne]
      exact ih hlt (Nat.le_of_succ_le hn)
    · obtain rfl : i = n := by omega
      obtain rfl : blocks[i] = b := Option.some.inj (hget.symm.trans hi)
      rw [if_pos (Except.ok.inj (((hcanonical _ (List.getElem_mem hn)).hashHex_id).symm.trans hb))]
      rfl

/-- Headers that follow each other are pushed one after the other. -/
theorem pushHeaders_run {previous : HeaderRecord} {batch : List HeaderRecord}
    (hlast : s.candidate.headers.getLast? = some previous)
    (hchain : (previous :: batch).IsChain HeaderRecord.Follows) :
    (forM batch pushHeader : SyncM σ Unit).run s = .ok () { s with
      candidate := { s.candidate with headers := s.candidate.headers ++ batch } } := by
  induction batch generalizing s previous with
  | nil =>
    rw [List.append_nil]
    rfl
  | cons record batch ih =>
    obtain ⟨hfollows, hrest⟩ := List.isChain_cons_cons.1 hchain
    have hpush : (pushHeader record : SyncM σ Unit).run s = .ok () { s with
        candidate := { s.candidate with headers := s.candidate.headers ++ [record] } } := by
      simp only [pushHeader, run_bind_ok, run_get_ok]
      refine ⟨s, s, ⟨rfl, rfl⟩, ?_⟩
      rw [hlast]
      simp only [run_bind_ok, throwIf_run_ok, lift_run_ok]
      exact ⟨(), s, ⟨not_not.2 hfollows.height, rfl⟩, _, s, ⟨hfollows.link, rfl⟩, (), s,
        ⟨not_not.2 rfl, rfl⟩, (), s, ⟨UInt32.not_le.2 hfollows.time, rfl⟩, rfl⟩
    rw [List.forM_cons, run_bind_of_ok hpush, ih (by simp) hrest]
    simp

theorem CandidateSync.Continues.head {batch : List HeaderRecord} {c c' : CandidateSync}
    (h : c.Continues batch c') : ∃ front, batch.head? = some front := by
  cases h with
  | first => exact ⟨_, rfl⟩
  | next => exact ⟨_, rfl⟩

/-- What the candidate knows then. -/
theorem CandidateSync.Continues.known {batch : List HeaderRecord} {c : CandidateSync}
    (h : s.candidate.Continues batch c) (hs : s.Known)
    (hbatch : ∀ record ∈ batch, record.header.Canonical) :
    SyncState.Known { s with candidate := c } ∧ c.active = s.candidate.active := by
  cases h with
  | first =>
    exact ⟨⟨hbatch, fun b hmem => hs.kept b (List.mem_of_mem_take hmem), hs.pending⟩, rfl⟩
  | next =>
    refine ⟨⟨fun record hmem => ?_, hs.kept, hs.pending⟩, rfl⟩
    rcases List.mem_append.1 hmem with hmem | hmem
    · exact hs.headers record hmem
    · exact hbatch record hmem

/-- **A message that continues the candidate** is taken over. -/
theorem continues_run {batch : List HeaderRecord} {front : HeaderRecord} {c : CandidateSync}
    (hs : s.Known) (hfront : batch.head? = some front) (h : s.candidate.Continues batch c) :
    (do connectHeaders front; forM batch pushHeader : SyncM σ Unit).run s =
      .ok () { s with candidate := c } := by
  cases h with
  | @first i fork front' rest hempty hfork hlink hlast hheight htime hrest =>
    obtain rfl : front' = front := Option.some.inj hfront
    have hlt : i < s.candidate.chainPrefix.length := (List.getElem?_eq_some_iff.1 hfork).1
    have hsearch := searchBelow_last hs.kept hfork hlink hlast hlt le_rfl
    have hconnect : (connectHeaders front' : SyncM σ Unit).run s = .ok () { s with
        candidate := { s.candidate with
          forkHeight := fork.height
          chainPrefix := s.candidate.chainPrefix.take (i + 1) } } := by
      simp only [connectHeaders, run_bind_ok, run_get_ok]
      refine ⟨s, s, ⟨rfl, rfl⟩, ?_⟩
      rw [hempty, List.getLast?_nil]
      simp only [run_bind_ok, lift_run_ok]
      refine ⟨some i, s, ⟨hsearch, rfl⟩, ?_⟩
      simp only [run_bind_ok, lift_run_ok, throwIf_run_ok, orThrow_ok]
      exact ⟨fork, s, ⟨hfork, rfl⟩, (), s, ⟨not_not.2 hheight, rfl⟩, rfl⟩
    have hpush : (pushHeader front' : SyncM σ Unit).run { s with
        candidate := { s.candidate with
          forkHeight := fork.height
          chainPrefix := s.candidate.chainPrefix.take (i + 1) } } = .ok () { s with
        candidate := { s.candidate with
          forkHeight := fork.height
          chainPrefix := s.candidate.chainPrefix.take (i + 1)
          headers := [front'] } } := by
      have htop : (s.candidate.chainPrefix.take (i + 1)).getLast? = some fork := by
        rw [List.getLast?_take, if_neg (Nat.succ_ne_zero i), Nat.add_sub_cancel, hfork]
        rfl
      simp only [pushHeader, run_bind_ok, run_get_ok]
      refine ⟨_, _, ⟨rfl, rfl⟩, ?_⟩
      dsimp only
      rw [hempty, List.getLast?_nil]
      simp only [run_bind_ok, lift_run_ok, throwIf_run_ok, orThrow_ok]
      exact ⟨fork, _, ⟨htop, rfl⟩, (), _, ⟨UInt32.not_le.2 htime, rfl⟩, rfl⟩
    rw [run_bind_of_ok hconnect, List.forM_cons, run_bind_of_ok hpush]
    exact pushHeaders_run rfl hrest
  | @next previous front' rest hprevious hrest =>
    obtain rfl : front' = front := Option.some.inj hfront
    obtain ⟨hfollows, -⟩ := List.isChain_cons_cons.1 hrest
    have hconnect : (connectHeaders front' : SyncM σ Unit).run s = .ok () s := by
      simp only [connectHeaders, run_bind_ok, run_get_ok]
      refine ⟨s, s, ⟨rfl, rfl⟩, ?_⟩
      rw [hprevious]
      simp only [run_bind_ok, lift_run_ok, throwIf_run_ok]
      exact ⟨(), s, ⟨not_not.2 hfollows.height, rfl⟩, _, s, ⟨hfollows.link, rfl⟩, not_not.2 rfl, rfl⟩
    rw [run_bind_of_ok hconnect]
    exact pushHeaders_run hprevious hrest

/-- **A candidate that activates** is gone. -/
theorem activateCandidate_run (hactive : s.candidate.active)
    (h : Activates S outside n s.candidate s.directory) :
    ∃ s', (activateCandidate S outside n).run s = .ok () s' ∧ s'.Sound := by
  obtain ⟨full, ⟨previous, activation⟩, d, hassemble, hrun⟩ := h
  have hsection := inSection_run (s := s) hrun
  rw [activateCandidate, run_bind_of_ok (show (get : SyncM σ _).run s = .ok s s from rfl)]
  dsimp only
  rw [if_pos hactive, run_bind_of_ok (lift_run_ok.2 ⟨hassemble, rfl⟩),
    run_bind_of_ok (show (get : SyncM σ _).run s = .ok s s from rfl), run_bind_of_ok hsection]
  dsimp only
  by_cases hactivated : activation.activated = true
  · rw [if_pos hactivated]
    exact ⟨_, rfl, .of_empty rfl⟩
  · rw [if_neg hactivated]
    exact ⟨_, rfl, .of_empty rfl⟩

/-- What the loop over the headers does. -/
theorem collectBodies_run {active branches : List StoredBlock} {records : List HeaderRecord}
    (hactive : ∀ b ∈ active, b.Canonical) (hbranches : ∀ b ∈ branches, b.Canonical)
    (hrecords : ∀ record ∈ records, record.header.Canonical) :
    (forM records (collectBody active branches) : SyncM σ Unit).run s = .ok () { s with
      candidate := records.foldl (CandidateSync.collect active branches) s.candidate } := by
  induction records generalizing s with
  | nil => rfl
  | cons record records ih =>
    obtain ⟨hrecord, hrecords⟩ := List.forall_mem_cons.1 hrecords
    have hbody : (collectBody active branches record : SyncM σ Unit).run s = .ok () { s with
        candidate := s.candidate.collect active branches record } := by
      simp only [collectBody, run_bind_ok, lift_run_ok, run_get_ok]
      refine ⟨_, s, ⟨HeaderRecord.hashHex_id hrecord, rfl⟩, s, s, ⟨rfl, rfl⟩, _, s,
        ⟨findBlock_ok hactive, rfl⟩, ?_⟩
      cases hfound : active.find? fun b => b.id = record.id with
      | some stored =>
        rw [CandidateSync.collect, hfound]
        rfl
      | none =>
        simp only [run_bind_ok, lift_run_ok]
        refine ⟨_, s, ⟨findBlock_ok hbranches, rfl⟩, ?_⟩
        cases hkept : branches.find? fun b => b.id = record.id with
        | some stored =>
          rw [CandidateSync.collect, hfound, hkept]
          rfl
        | none =>
          rw [CandidateSync.collect, hfound, hkept]
          rfl
    rw [List.forM_cons, run_bind_of_ok hbody, ih hrecords]
    rfl

/-- Only `blocks` and `pending` change, and what is pending is a hash. -/
theorem collect_foldl {active branches : List StoredBlock} {records : List HeaderRecord}
    {c : CandidateSync} (hpending : ∀ hash ∈ c.pending, IsDisplayHex hash) :
    let c' := records.foldl (CandidateSync.collect active branches) c
    c'.active = c.active ∧ c'.headers = c.headers ∧ c'.chainPrefix = c.chainPrefix ∧
      ∀ hash ∈ c'.pending, IsDisplayHex hash := by
  induction records generalizing c with
  | nil => exact ⟨rfl, rfl, rfl, hpending⟩
  | cons record records ih =>
    rw [List.foldl_cons]
    have hstep : (c.collect active branches record).active = c.active ∧
        (c.collect active branches record).headers = c.headers ∧
        (c.collect active branches record).chainPrefix = c.chainPrefix ∧
        ∀ hash ∈ (c.collect active branches record).pending, IsDisplayHex hash := by
      rw [CandidateSync.collect]
      split
      · exact ⟨rfl, rfl, rfl, hpending⟩
      · refine ⟨rfl, rfl, rfl, fun hash hmem => ?_⟩
        rcases ExtTreeSet.mem_insert.1 hmem with heq | hmem
        · exact compare_eq_iff_eq.1 heq ▸ .display _
        · exact hpending hash hmem
    obtain ⟨hactive, hheaders, hkept, hhashes⟩ := ih hstep.2.2.2
    exact ⟨hactive.trans hstep.1, hheaders.trans hstep.2.1, hkept.trans hstep.2.2.1, hhashes⟩

/-- What a loop of requests leaves: all that was asked for. -/
structure Asked (s : SyncState σ) (hashes : List Str) (s' : SyncState σ) : Prop where
  candidate : s'.candidate = s.candidate
  headers : s'.unansweredGetheaders = s.unansweredGetheaders
  kept : ∀ hash ∈ s.requestedBlocks, hash ∈ s'.requestedBlocks
  asked : ∀ hash ∈ hashes, hash ∈ s'.requestedBlocks

theorem requestBatch_meets {hashes : List Str} (hcount : hashes.length ≤ maxInventoryItems)
    (hdisplay : ∀ hash ∈ hashes, IsDisplayHex hash) :
    Meets (fun _ s' => Asked s hashes s') Thrown
      (requestData outside n (hashes.map (InventoryItem.mk .block))) s := by
  refine requestData_meets ⟨by simpa using hcount, ?_⟩ ⟨rfl, rfl, ?_, ?_⟩
  · intro item hmem
    obtain ⟨hash, hhash, rfl⟩ := List.mem_map.1 hmem
    exact hdisplay hash hhash
  · intro hash hmem
    exact List.mem_append_left _ hmem
  · intro hash hmem
    refine List.mem_append_right _ (List.mem_map.2 ⟨⟨.block, hash⟩, ?_, rfl⟩)
    rw [List.mem_filter]
    exact ⟨List.mem_map_of_mem hmem, by simp⟩

/-- **All that is pending is asked for**, in messages of limited length. -/
theorem requestPending_meets {batch rest : List Str} (hcount : batch.length < maxInventoryItems)
    (hdisplay : ∀ hash ∈ batch ++ rest, IsDisplayHex hash) :
    Meets (fun _ s' => Asked s (batch ++ rest) s') Thrown
      (requestPending outside n (batch.map (InventoryItem.mk .block)) rest) s := by
  induction rest generalizing n batch s with
  | nil =>
    rw [requestPending, List.append_nil]
    rw [List.append_nil] at hdisplay
    by_cases hne : batch.map (InventoryItem.mk .block) ≠ []
    · rw [if_pos hne]
      exact requestBatch_meets hcount.le hdisplay
    · rw [if_neg hne]
      obtain rfl : batch = [] := List.map_eq_nil_iff.1 (not_not.1 hne)
      exact .pure ⟨rfl, rfl, fun _ h => h, by simp⟩
  | cons hash rest ih =>
    have hpush : batch.map (InventoryItem.mk .block) ++ [⟨.block, hash⟩] =
        (batch ++ [hash]).map (InventoryItem.mk .block) := by
      rw [List.map_append]
      rfl
    have happend : batch ++ hash :: rest = batch ++ [hash] ++ rest := by simp
    rw [requestPending, hpush, List.length_map]
    rw [happend] at hdisplay ⊢
    by_cases hfull : (batch ++ [hash]).length = maxInventoryItems
    · rw [if_pos hfull]
      refine .bind (requestBatch_meets hfull.le fun hash' hmem =>
        hdisplay hash' (List.mem_append_left _ hmem)) fun _ s₁ h₁ => ?_
      have hrest : Meets (fun _ s' => Asked s₁ ([] ++ rest) s') Thrown
          (requestPending outside (n + 1) [] rest) s₁ :=
        ih (by decide) fun hash' hmem => hdisplay hash' (List.mem_append_right _ hmem)
      refine hrest.imp (fun _ s' h' => ?_) fun _ _ h => h
      refine ⟨h'.candidate.trans h₁.candidate, h'.headers.trans h₁.headers,
        fun hash' hmem => h'.kept _ (h₁.kept _ hmem), fun hash' hmem => ?_⟩
      rcases List.mem_append.1 hmem with hmem | hmem
      · exact h'.kept _ (h₁.asked _ hmem)
      · exact h'.asked _ hmem
    · rw [if_neg hfull]
      refine ih ?_ hdisplay
      rw [List.length_append, List.length_singleton] at hfull ⊢
      omega

/-- **When all headers are there**, the rest is asked for or the candidate is activated. -/
theorem requestCandidateBlocks_meets (hs : s.Known) (hactive : s.candidate.active)
    (h : Collects S outside s.candidate s.directory) :
    Meets (fun _ s' => s'.Sound) Thrown (requestCandidateBlocks S outside) s := by
  obtain ⟨branches, d₁, active, d₂, hbranches, hchain, hactivates⟩ := h
  obtain ⟨-, hloads, -⟩ := openBranches_ok hbranches
  obtain ⟨rfl, hvalid, -⟩ := openChain_ok hchain
  have hrun := inSection_run (s := { s with directory := d₁ }) hchain
  refine .ok_bind (inSection_run hbranches) (.ok_bind hrun (.get_bind ?_))
  obtain ⟨c, hc⟩ : ∃ c, s.candidate.collectAll d₂.node.chain.blocks branches = c := ⟨_, rfl⟩
  have hcollect : (forM s.candidate.headers (collectBody d₂.node.chain.blocks branches) :
      SyncM σ Unit).run { s with directory := d₂ } =
        .ok () { s with directory := d₂, candidate := c } :=
    hc ▸ collectBodies_run hvalid.stored_canonical (fun b hb => (hloads.good.readable b hb).1)
      hs.headers
  rw [CandidateSync.collectAll] at hc
  obtain ⟨hstill, hheaders, hkept, hpending⟩ := hc ▸ collect_foldl hs.pending
  rw [CandidateSync.collectAll, hc] at hactivates
  have hknown : SyncState.Known { s with directory := d₂, candidate := c } :=
    ⟨fun record hmem => hs.headers record (hheaders ▸ hmem), fun b hmem => hs.kept b (hkept ▸ hmem),
      hpending⟩
  refine .ok_bind hcollect (.get_bind ?_)
  dsimp only
  by_cases hempty : c.pending = ∅
  · rw [if_pos (ExtTreeSet.isEmpty_iff.2 hempty)]
    obtain ⟨s', hrun', hsound⟩ := activateCandidate_run
      (s := { s with directory := d₂, candidate := c }) (hstill.trans hactive) (hactivates hempty)
    exact .of_ok hrun' hsound
  · rw [if_neg (fun h => hempty (ExtTreeSet.isEmpty_iff.1 h))]
    have hasks : Meets (fun _ s' => Asked _ ([] ++ c.pending.toList) s') Thrown
        (requestPending outside 0 [] c.pending.toList)
        { s with directory := d₂, candidate := c } :=
      requestPending_meets (by decide) fun hash hmem =>
        hpending hash (ExtTreeSet.mem_toList.1 hmem)
    refine .get_bind (hasks.imp (fun _ s' hasked => ?_) fun _ _ h => h)
    refine ⟨hknown.congr hasked.candidate, fun _ => .inr ?_⟩
    rw [hasked.candidate]
    exact ⟨hempty, fun hash hmem => hasked.asked hash (ExtTreeSet.mem_toList.2 hmem)⟩

theorem afterHeaders_meets {last : HeaderRecord} (hs : s.Known) (hactive : s.candidate.active)
    (hlast : s.candidate.headers.getLast? = some last)
    (hle : last.height ≤ s.candidate.expectedHeight)
    (htip : last.id = s.candidate.expectedTip → last.height = s.candidate.expectedHeight ∧
      Collects S outside s.candidate s.directory) :
    Meets (fun _ s' => s'.Sound) Thrown (afterHeaders S outside) s := by
  have hcanonical := hs.headers last (List.mem_of_getLast? hlast)
  have hhash := HeaderRecord.hashHex_id hcanonical
  refine .get_bind (meets_lift_bind (orThrow_ok.2 hlast) ?_)
  refine meets_throwIf_bind (UInt64.not_lt.2 hle) (meets_lift_bind hhash ?_)
  by_cases heq : last.id = s.candidate.expectedTip
  · obtain ⟨hheight, hcollects⟩ := htip heq
    rw [if_pos heq]
    exact meets_throwIf_bind (not_not.2 hheight) (requestCandidateBlocks_meets hs hactive hcollects)
  · rw [if_neg heq]
    refine requestHeaders_meets ⟨by simp, ?_, ?_, .zero⟩ ?_
    · exact (by decide : 2 ≤ maxLocatorSize)
    · intro hash hmem
      rcases List.mem_cons.1 hmem with rfl | hmem
      · exact .display _
      · rw [List.mem_singleton.1 hmem]
        exact testnetGenesisHash_isDisplayHex
    · exact ⟨hs.congr rfl, fun _ => .inl (Nat.succ_pos _)⟩

theorem handleHeaders_meets {payload : Bytes} (hs : s.Sound)
    (h : s.candidate.active → HeadersComplete S outside s payload) :
    Meets (fun _ s' => s'.Sound) Thrown (handleHeaders S outside payload) s := by
  refine .modify_bind (.get_bind ?_)
  by_cases hactive : s.candidate.active = true
  · obtain ⟨batch, c, last, hdecode, hcontinues, hlast, hle, htip⟩ := h hactive
    obtain ⟨front, hfront⟩ := hcontinues.head
    have hread : ∀ record ∈ batch, record.header.Canonical := fun record hmem =>
      ((headers_strict.canonical _ _ hdecode).1.each record hmem).canonical
    rw [if_neg (not_not.2 hactive)]
    obtain ⟨hknown, hstill⟩ := hcontinues.known hs.toKnown hread
    obtain ⟨_, s₁, hconnect, hpush⟩ := run_bind_ok.1 (continues_run
      (s := { s with unansweredGetheaders := s.unansweredGetheaders - 1 })
      (hs.toKnown.congr rfl) hfront hcontinues)
    refine meets_lift_bind hdecode (meets_lift_bind (orThrow_ok.2 hfront) ?_)
    refine .ok_bind hconnect (.ok_bind hpush ?_)
    exact .bind (afterHeaders_meets (hknown.congr rfl) (hstill.trans hactive) hlast hle htip)
      fun _ s' hs' => .pure hs'
  · rw [if_pos hactive]
    refine .pure ⟨hs.toKnown.congr rfl, fun h => absurd h hactive⟩

/-! ## The other handlers -/

theorem syncWith_meets (hs : s.Sound) (peer : PeerVersion) :
    Meets (fun _ s' => s'.Sound) Thrown (syncWith S outside peer) s := by
  refine .bind (inSection_meets (Q := fun _ s' => s'.Sound) hs fun blocks d _ =>
    hs.congr rfl le_rfl fun _ h => h) fun blocks s₁ hs₁ => .get_bind ?_
  refine .bind (meets_lift (Q := fun _ s' => s'.Sound) hs₁ fun _ _ => hs₁) fun sync s₂ hs₂ => ?_
  cases sync with
  | true => exact startCandidateSync_meets hs₂ _ _ _
  | false => exact .pure hs₂

theorem handleStatus_meets (hs : s.Sound) (payload : Bytes) :
    Meets (fun _ s' => s'.Sound) Thrown (handleStatus S outside payload) s := by
  refine .bind (meets_lift (Q := fun _ s' => s'.Sound) hs fun _ _ => hs) fun status s₁ hs₁ => ?_
  exact .bind (syncWith_meets hs₁ status) fun _ s₂ hs₂ => .pure hs₂

/-- A request changes nothing but what has been asked for. -/
theorem requestData_sound (hs : s.Sound) (items : List InventoryItem) :
    Meets (fun _ s' => s'.Sound) Thrown (requestData outside n items) s := by
  refine .bind (meets_lift (Q := fun _ s' => s'.Sound) hs fun _ _ => hs) fun payload s₁ hs₁ => ?_
  refine .bind (meets_lift (Q := fun _ s' => s'.Sound) hs₁ fun _ _ => hs₁) fun _ s₂ hs₂ => ?_
  exact .modify (hs₂.congr rfl le_rfl fun hash hmem => List.mem_append_left _ hmem)

theorem handleInv_meets (hs : s.Sound) (payload : Bytes) :
    Meets (fun _ s' => s'.Sound) Thrown (handleInv S outside payload) s := by
  refine .bind (meets_lift (Q := fun _ s' => s'.Sound) hs fun _ _ => hs) fun items s₁ hs₁ => ?_
  refine .bind (inSection_meets (Q := fun _ s' => s'.Sound) hs₁ fun missing d _ =>
    hs₁.congr rfl le_rfl fun _ h => h) fun missing s₂ hs₂ => ?_
  by_cases hne : missing ≠ []
  · rw [if_pos hne]
    exact .bind (requestData_sound hs₂ missing) fun _ s₃ hs₃ => .pure hs₃
  · rw [if_neg hne]
    exact .pure hs₂

omit [Crypto] in
theorem fulfil_sound {hashes : List Str} (hs : s.Sound)
    (hpending : s.candidate.active → ∀ hash ∈ hashes, hash ∉ s.candidate.pending) :
    SyncState.Sound { s with requestedBlocks := s.requestedBlocks.filter (· ∉ hashes) } := by
  refine ⟨hs.toKnown.congr rfl, fun hactive => ?_⟩
  rcases hs.waiting hactive with hpos | ⟨hne, hall⟩
  · exact .inl hpos
  · refine .inr ⟨hne, fun hash hmem => List.mem_filter.2 ⟨hall hash hmem, ?_⟩⟩
    rw [decide_eq_true_eq]
    exact fun h => hpending hactive hash h hmem

omit [Crypto] in
theorem handleNotfound_meets {payload : Bytes} {F : Exn → SyncState σ → Prop} (hs : s.Sound)
    (h : s.candidate.active → ∀ items, deserializeInventory payload = .ok items →
      ∀ item ∈ items, item.type = .block → item.hash ∉ s.candidate.pending) :
    Meets (fun _ s' => s'.Sound) F (handleNotfound payload : SyncM σ ℕ) s := by
  unfold handleNotfound
  cases hdecode : deserializeInventory payload with
  | error e => exact .pure hs
  | ok items =>
    refine .modify_bind (.pure (fulfil_sound hs fun hactive hash hmem => ?_))
    obtain ⟨item, hitem, rfl⟩ := List.mem_map.1 hmem
    obtain ⟨hitem, htype⟩ := List.mem_filter.1 hitem
    exact h hactive items hdecode item hitem (of_decide_eq_true htype)

theorem findHeader_ok {hash : Str} {records : List HeaderRecord}
    (h : ∀ record ∈ records, record.header.Canonical) :
    findHeader hash records = .ok (records.find? fun record => record.id = hash) := by
  induction records with
  | nil => rfl
  | cons record records ih =>
    obtain ⟨hrecord, hrecords⟩ := List.forall_mem_cons.1 h
    simp only [findHeader, HeaderRecord.hashHex_id hrecord, ih hrecords, List.find?_cons]
    by_cases hid : record.id = hash
    · simp [hid, bind, Except.bind, pure, Except.pure]
    · simp [hid, bind, Except.bind]

/-- **A body that was asked for** is one less to wait for, or the last one. -/
theorem receivePending_meets {stored : StoredBlock} (hs : s.Known) (hactive : s.candidate.active)
    (hcanonical : stored.Canonical) (hblock : BlockComplete S outside s stored)
    (hwaiting : 0 < s.unansweredGetheaders ∨
      ∀ hash ∈ s.candidate.pending, hash ≠ stored.id → hash ∈ s.requestedBlocks) :
    Meets (fun _ s' => s'.Sound) Thrown (receivePending S outside stored stored.id) s := by
  obtain ⟨record, d, hfind, hheight, hheader, hput, hactivates⟩ := hblock
  have hserialize : record.header.serialize = stored.block.header.serialize := by rw [hheader]
  refine .get_bind (meets_lift_bind (findHeader_ok hs.headers) ?_)
  refine meets_lift_bind (orThrow_ok.2 hfind) (meets_throwIf_bind (not_not.2 hheight) ?_)
  refine meets_lift_bind (hserialize.trans hcanonical.header.serialize) ?_
  refine meets_lift_bind hcanonical.header.serialize (meets_throwIf_bind (not_not.2 rfl) ?_)
  refine .ok_bind (inSection_run hput) (.get_bind (.modify_bind (.get_bind ?_)))
  show Meets (fun _ s' => s'.Sound) Thrown (if (s.candidate.receive stored).pending.isEmpty then
    activateCandidate S outside 1 else pure ())
    { s with directory := d, candidate := s.candidate.receive stored }
  by_cases hempty : (s.candidate.receive stored).pending = ∅
  · rw [if_pos (ExtTreeSet.isEmpty_iff.2 hempty)]
    obtain ⟨s', hrun, hsound⟩ := activateCandidate_run
      (s := { s with directory := d, candidate := s.candidate.receive stored }) hactive
      (hactivates hempty)
    exact .of_ok hrun hsound
  · rw [if_neg (fun h => hempty (ExtTreeSet.isEmpty_iff.1 h))]
    refine .pure ⟨⟨hs.headers, hs.kept, fun hash hmem => ?_⟩, fun _ => ?_⟩
    · exact hs.pending hash (ExtTreeSet.mem_of_mem_erase hmem)
    · refine hwaiting.imp_right fun hall => ⟨hempty, fun hash hmem => ?_⟩
      obtain ⟨hne, hmem⟩ := ExtTreeSet.mem_erase.1 hmem
      exact hall hash hmem fun heq => hne (compare_eq_iff_eq.2 heq.symm)

omit [Crypto] in
theorem tryCatch_section_run {x : SectionM σ α} :
    (tryCatch (some <$> inSection outside n x) fun _ => return none : SyncM σ (Option α)).run s =
      match x.run (outside.others n s.directory) with
      | .ok a d => .ok (some a) { s with directory := d }
      | .error _ d => .ok none { s with directory := d } := by
  simp only [tryCatch, tryCatchThe, MonadExceptOf.tryCatch, EStateM.tryCatch, Functor.map, EStateM.map,
    inSection, EStateM.run]
  cases x (outside.others n s.directory) <;> rfl

theorem handleBlock_meets {payload : Bytes} (hs : s.Sound)
    (h : s.candidate.active → ∀ stored, deserializeStoredBlocks payload = .ok [stored] →
      stored.id ∈ s.candidate.pending → BlockComplete S outside s stored) :
    Meets (fun _ s' => s'.Sound) Thrown (handleBlock S outside payload) s := by
  refine .bind (meets_lift (Q := fun blocks s' => s' = s ∧ deserializeStoredBlocks payload = .ok blocks)
    hs fun blocks hread => ⟨rfl, hread⟩) fun blocks s₁ h₁ => ?_
  obtain ⟨rfl, hread⟩ := h₁
  match blocks, hread with
  | [], _ => exact .throw (.inr hs)
  | _ :: _ :: _, _ => exact .throw (.inr hs)
  | [stored], hread =>
    have hcanonical : stored.Canonical :=
      ((deserializeStoredBlocks_ok.1 hread).1.2 stored (List.mem_singleton_self _)).2.1
    refine meets_lift_bind hcanonical.hashHex_id (.modify_bind (.get_bind ?_))
    by_cases hpending : s₁.candidate.active = true ∧ stored.id ∈ s₁.candidate.pending
    · rw [if_pos hpending]
      refine .bind (receivePending_meets (hs.toKnown.congr rfl) hpending.1 hcanonical ?_ ?_)
        fun _ s₂ hs₂ => .pure hs₂
      · exact h hpending.1 stored hread hpending.2
      · refine (hs.waiting hpending.1).imp_right fun hall hash hmem hne => ?_
        exact List.mem_filter.2 ⟨hall.2 hash hmem, by simpa using hne⟩
    · rw [if_neg hpending]
      have hsound : SyncState.Sound { s₁ with
          requestedBlocks := s₁.requestedBlocks.filter (· ∉ [stored.id]) } :=
        fulfil_sound hs fun hactive hash hmem hin =>
          hpending ⟨hactive, List.mem_singleton.1 hmem ▸ hin⟩
      refine .bind (Q := fun _ s' => s'.Sound) ?_ fun sideBranch s₂ hs₂ => ?_
      · rw [Meets, tryCatch_section_run]
        cases (receiveBlock S stored stored.id).run (outside.others 0 s₁.directory) with
        | ok a d => exact hsound.congr rfl le_rfl fun _ h => h
        | error e d => exact hsound.congr rfl le_rfl fun _ h => h
      · have hcommand : CommandOk (str "getstatus") := validateCommand_ok.1 rfl
        cases sideBranch with
        | none => exact .pure hs₂
        | some sideBranch =>
          dsimp only
          by_cases hasks : sideBranch = true ∧ ¬ s₁.candidate.active = true
          · rw [if_pos hasks, sendMessage_eq hcommand (by decide)]
            exact .bind (meets_sent (Q := fun _ s' => s'.Sound) _ hs₂) fun _ s₃ hs₃ => .pure hs₃
          · rw [if_neg hasks]
            exact .pure hs₂

/-- **The step lemma**: a handler leaves a sound state, or the session ends. -/
theorem handle_meets {message : Message} (hs : s.Sound) (h : Completes S outside s message) :
    Meets (fun _ s' => s'.Sound)
      (fun e s' => HangsUp e ∧ message.command ∈ otherCommands ∨ s'.Sound)
      (handle S outside message) s := by
  have hother : message.command ∈ otherCommands → ∀ e (s' : SyncState σ), Thrown e s' →
      HangsUp e ∧ message.command ∈ otherCommands ∨ s'.Sound := by
    intro hmem e s' hthrown
    exact hthrown.imp_left fun hhangs => ⟨hhangs, hmem⟩
  have hsame : ∀ (_ : ℕ) (s' : SyncState σ), s'.Sound → s'.Sound := fun _ _ h => h
  rw [handle]
  by_cases hheaders : message.command = str "headers"
  · rw [if_pos hheaders]
    exact (handleHeaders_meets hs (h.headers hheaders)).imp hsame
      (hother (by rw [hheaders]; decide))
  rw [if_neg hheaders]
  by_cases hstatus : message.command = str "status"
  · rw [if_pos hstatus]
    exact (handleStatus_meets hs _).imp hsame (hother (by rw [hstatus]; decide))
  rw [if_neg hstatus]
  by_cases hinv : message.command = str "inv"
  · rw [if_pos hinv]
    exact (handleInv_meets hs _).imp hsame (hother (by rw [hinv]; decide))
  rw [if_neg hinv]
  by_cases hblock : message.command = str "block"
  · rw [if_pos hblock]
    exact (handleBlock_meets hs (h.block hblock)).imp hsame (hother (by rw [hblock]; decide))
  rw [if_neg hblock]
  by_cases hnotfound : message.command = str "notfound"
  · rw [if_pos hnotfound]
    exact handleNotfound_meets hs (h.notfound hnotfound)
  · rw [if_neg hnotfound]
    cases outside.other with
    | ok penalty => exact .of_ok rfl hs
    | error e => exact .inr hs

omit [Crypto] in
/-- **An exception of `send_all` ends the session.** -/
theorem iteration_hangsUp {policy : NetworkPolicy} {loop : SessionLoop} {arrival : Arrival}
    {message : Message} {e : Exn} (hreceived : arrival.received = some message)
    (hother : message.command ∈ otherCommands) (h : HangsUp e) :
    iteration policy loop { arrival with handled := .thrown e } = none := by
  obtain ⟨hreadable, hmessage⟩ : arrival.readable = .ok true ∧ arrival.message = .ok message := by
    unfold Arrival.received at hreceived
    split at hreceived
    · next hr hm => exact ⟨hr, hm.trans (congrArg Except.ok (Option.some.inj hreceived))⟩
    · cases hreceived
  have hdispatch : ∀ s, (dispatch { arrival with handled := .thrown e } message).run s = .error e s := by
    intro s
    rw [dispatch, if_pos hother]
    rfl
  have hreceive : (receive policy { arrival with handled := .thrown e }).run loop = (do
      if (countMessage policy arrival loop).messagesInWindow > policy.maxMessagesPerWindow then
        return .returned
      dispatch { arrival with handled := .thrown e } message : LoopM Exit).run
        (countMessage policy arrival loop) := by
    rw [receive]
    dsimp only
    rw [hreadable, hmessage]
    rfl
  rw [iteration, loopBody, EStateM.run_bind, hreceive]
  by_cases hlimit :
      (countMessage policy arrival loop).messagesInWindow > policy.maxMessagesPerWindow
  · rw [if_pos hlimit]
    split_ifs <;> rfl
  · rw [if_neg hlimit, hdispatch]
    dsimp only
    rw [catchRuntimeError_hangsUp h]
    split_ifs <;> rfl

namespace SyncSession
variable {policy : NetworkPolicy} {t t' : SyncSession σ} {arrival : Arrival}

/-- What is asked of an iteration: its message, if there is one, does not leave the candidate behind
    half-way. -/
def Completing (S : ChainStore σ) (t : SyncSession σ) (arrival : Arrival) (outside : Outside σ) :
    Prop :=
  ∀ message, arrival.received = some message → Completes S outside t.sync message

theorem step_sound (hs : t.sync.Sound) (hcompleting : t.Completing S arrival outside)
    (h : t.step S policy arrival outside = some t') : t'.sync.Sound := by
  unfold step at h
  cases hreceived : arrival.received with
  | none =>
    rw [hreceived] at h
    obtain ⟨loop, -, rfl⟩ := Option.map_eq_some_iff.1 h
    exact hs
  | some message =>
    rw [hreceived] at h
    have hmeets := handle_meets hs (hcompleting message hreceived)
    rw [Meets] at hmeets
    obtain ⟨loop, hloop, rfl⟩ := Option.map_eq_some_iff.1 h
    dsimp only at hloop ⊢
    cases hrun : (handle S outside message).run t.sync with
    | ok penalty s' =>
      rw [hrun] at hmeets
      exact hmeets
    | error e s' =>
      rw [hrun] at hmeets hloop
      rcases hmeets with ⟨hhangs, hother⟩ | hsound
      · rw [handledAs, iteration_hangsUp hreceived hother hhangs] at hloop
        cases hloop
      · exact hsound

theorem Starts.sound {now : Time} (h : Starts S now t) : t.sync.Sound := by
  cases h with
  | inbound d => exact .of_empty rfl
  | outbound d outside peer sync hrun =>
    have hmeets : Meets (fun _ s' => s'.Sound) Thrown (syncWith S outside peer)
        ⟨d, .empty, 0, [], []⟩ := syncWith_meets (.of_empty rfl) peer
    rw [Meets, hrun] at hmeets
    exact hmeets

/-- **A candidate is never abandoned** along a session whose messages complete what they
    change. -/
theorem candidate_progresses {now : Time} {events : List (Arrival × Outside σ)}
    (hstart : Starts S now t)
    (hrun : Run (fun t event t' => t.step S policy event.1 event.2 = some t' ∧
      t.Completing S event.1 event.2) t events t') : t'.sync.CanProgress :=
  (hrun.invariant (I := fun t : SyncSession σ => t.sync.Sound)
    (fun _ _ _ hs hstep => step_sound hs hstep.2 hstep.1) hstart.sound).canProgress

end SyncSession

/-! ## Completing messages, as they are computed -/

instance : DecidableRel HeaderRecord.Follows := fun a b => decidable_of_iff
  (b.height = a.height + 1 ∧ a.header.hashHex = .ok b.header.previousHash ∧
    a.header.time < b.header.time)
  ⟨fun ⟨hheight, hlink, htime⟩ => ⟨hheight, hlink, htime⟩, fun h => ⟨h.height, h.link, h.time⟩⟩

/-- What a search from above finds is the last block with the hash. -/
theorem searchBelow_found {blocks : List StoredBlock} {hash : Str} {i n : ℕ}
    (h : searchBelow blocks hash n = .ok (some i)) :
    hashAt blocks i = .ok hash ∧ ∀ j, i < j → j < n → hashAt blocks j ≠ .ok hash := by
  induction n with
  | zero => cases h
  | succ n ih =>
    obtain ⟨text, htext, h⟩ := except_bind_ok.1 h
    split_ifs at h with heq
    · obtain rfl : n = i := Option.some.inj (Except.ok.inj h)
      exact ⟨heq ▸ htext, fun j hlt hle => absurd hle (by omega)⟩
    · obtain ⟨hhash, hlast⟩ := ih h
      refine ⟨hhash, fun j hlt hle hj => ?_⟩
      rcases Nat.lt_or_ge j n with hjn | hjn
      · exact hlast j hlt hjn hj
      · obtain rfl : j = n := by omega
        exact heq (Except.ok.inj (htext.symm.trans hj))

/-- The candidate that `Continues` gives. -/
def CandidateSync.continued (c : CandidateSync) : List HeaderRecord → Option CandidateSync
  | [] => none
  | front :: rest =>
    match c.headers.getLast? with
    | some previous =>
      if (previous :: front :: rest).IsChain HeaderRecord.Follows then
        some { c with headers := c.headers ++ front :: rest }
      else none
    | none =>
      match searchBelow c.chainPrefix front.header.previousHash c.chainPrefix.length with
      | .ok (some i) => c.chainPrefix[i]?.bind fun fork =>
        if front.height = fork.height + 1 ∧ fork.block.header.time < front.header.time ∧
            (front :: rest).IsChain HeaderRecord.Follows then
          some { c with
            forkHeight := fork.height
            chainPrefix := c.chainPrefix.take (i + 1)
            headers := front :: rest }
        else none
      | _ => none

theorem CandidateSync.Continues.of_continued {c c' : CandidateSync} {batch : List HeaderRecord}
    (h : c.continued batch = some c') : c.Continues batch c' := by
  match batch with
  | [] => cases h
  | front :: rest =>
    rw [continued] at h
    split at h
    · next previous hprevious =>
      split_ifs at h with hchain
      exact Option.some.inj h ▸ .next hprevious hchain
    · next hnone =>
      split at h
      · next i hsearch =>
        obtain ⟨fork, hfork, h⟩ := Option.bind_eq_some_iff.1 h
        split_ifs at h with hfront
        obtain ⟨hheight, htime, hchain⟩ := hfront
        obtain ⟨hhash, hlast⟩ := searchBelow_found hsearch
        obtain ⟨fork', hfork', hlink⟩ := hashAt_ok.1 hhash
        obtain rfl := Option.some.inj (hfork.symm.trans hfork')
        refine Option.some.inj h ▸ .first (List.getLast?_eq_none_iff.1 hnone) hfork hlink ?_ hheight
          htime hchain
        intro j b hlt hj hb
        exact hlast j hlt (List.getElem?_eq_some_iff.1 hj).1 (hashAt_ok.2 ⟨b, hj, hb⟩)
      · cases h

section
variable (S : ChainStore σ) (outside : Outside σ)

def activates (n : ℕ) (c : CandidateSync) (d : DataDirectory σ) : Bool :=
  match c.assemble with
  | .error _ => false
  | .ok full =>
    match (activateFull S c.forkHeight full).run (outside.others n d) with
    | .ok _ _ => true
    | .error _ _ => false

def collects (c : CandidateSync) (d : DataDirectory σ) : Bool :=
  match openBranches.run (outside.others 0 d) with
  | .error _ _ => false
  | .ok branches d₁ =>
    match (openChain S).run (outside.others 1 d₁) with
    | .error _ _ => false
    | .ok active d₂ => !(c.collectAll active branches).pending.isEmpty ||
      activates S outside 2 (c.collectAll active branches) d₂

def headersComplete (s : SyncState σ) (payload : Bytes) : Bool :=
  match deserializeHeaders payload with
  | .error _ => false
  | .ok batch =>
    (s.candidate.continued batch).any fun c => c.headers.getLast?.any fun last =>
      decide (last.height ≤ c.expectedHeight) && (decide (last.id ≠ c.expectedTip) ||
        decide (last.height = c.expectedHeight) && collects S outside c s.directory)

def blockComplete (s : SyncState σ) (stored : StoredBlock) : Bool :=
  (s.candidate.headers.find? fun record => record.id = stored.id).any fun record =>
    decide (record.height = stored.height ∧ record.header = stored.block.header) &&
    match (do let _ ← openBranches; onBranches (SideBranchStore.putMany [stored]) :
        SectionM σ Unit).run (outside.others 0 s.directory) with
    | .error _ _ => false
    | .ok _ d => !(s.candidate.receive stored).pending.isEmpty ||
      activates S outside 1 (s.candidate.receive stored) d

/-- Whether a message of these three kinds completes what it changes. -/
def completes (s : SyncState σ) (message : Message) : Bool :=
  if message.command = str "headers" then headersComplete S outside s message.payload
  else if message.command = str "block" then
    match deserializeStoredBlocks message.payload with
    | .ok [stored] => blockComplete S outside s stored
    | _ => true
  else decide (message.command ≠ str "notfound")

variable {S outside} {n : ℕ} {c : CandidateSync} {d : DataDirectory σ} {s : SyncState σ}
  {stored : StoredBlock} {message : Message} {payload : Bytes}

theorem Activates.of_activates (h : activates S outside n c d) : Activates S outside n c d := by
  unfold activates at h
  split at h
  · cases h
  · next full hassemble =>
    split at h
    · next r d' hrun => exact ⟨full, r, d', hassemble, hrun⟩
    · cases h

theorem Collects.of_collects (h : collects S outside c d) : Collects S outside c d := by
  unfold collects at h
  split at h
  · cases h
  · next branches d₁ hbranches =>
    split at h
    · cases h
    · next active d₂ hactive =>
      refine ⟨branches, d₁, active, d₂, hbranches, hactive, fun hempty => .of_activates ?_⟩
      rwa [ExtTreeSet.isEmpty_iff.2 hempty] at h

theorem HeadersComplete.of_headersComplete (h : headersComplete S outside s payload) :
    HeadersComplete S outside s payload := by
  unfold headersComplete at h
  split at h
  · cases h
  · next batch hdecode =>
    obtain ⟨c, hc, h⟩ := (Option.any_eq_true _ _).1 h
    obtain ⟨last, hlast, h⟩ := (Option.any_eq_true _ _).1 h
    rw [Bool.and_eq_true, Bool.or_eq_true, Bool.and_eq_true, decide_eq_true_eq, decide_eq_true_eq,
      decide_eq_true_eq] at h
    refine ⟨batch, c, last, hdecode, .of_continued hc, hlast, h.1, fun htip => ?_⟩
    exact (h.2.resolve_left (not_not.2 htip)).imp_right .of_collects

theorem BlockComplete.of_blockComplete (h : blockComplete S outside s stored) :
    BlockComplete S outside s stored := by
  obtain ⟨record, hfind, h⟩ := (Option.any_eq_true _ _).1 h
  rw [Bool.and_eq_true, decide_eq_true_eq] at h
  obtain ⟨⟨hheight, hheader⟩, h⟩ := h
  split at h
  · cases h
  · next d hput =>
    refine ⟨record, d, hfind, hheight, hheader, hput, fun hempty => .of_activates ?_⟩
    rwa [ExtTreeSet.isEmpty_iff.2 hempty] at h

theorem Completes.of_completes (h : completes S outside s message) :
    Completes S outside s message := by
  unfold completes at h
  refine ⟨fun hheaders _ => ?_, fun hblock _ stored hstored _ => ?_, fun hnotfound => ?_⟩
  · rw [if_pos hheaders] at h
    exact .of_headersComplete h
  · rw [if_neg (by rw [hblock]; decide), if_pos hblock, hstored] at h
    exact .of_blockComplete h
  · rw [if_neg (by rw [hnotfound]; decide), if_neg (by rw [hnotfound]; decide), hnotfound] at h
    cases h

end

end

/-! ## A session that downloads a chain -/

namespace SyncSession

attribute [local instance] sampleCrypto

/-- A node that has only the genesis block, and other sessions that do nothing. -/
def genesisDirectory : DataDirectory (Option (List StoredBlock × UtxoSet)) where
  node := ⟨TestnetChain.new "data" (some ([genesisStored], ∅)), [], none⟩
  branches := ⟨[], none⟩

def quietOutside : Outside (Option (List StoredBlock × UtxoSet)) where
  others _ d := d
  sent _ := .done
  hasTransaction _ := false
  other := .ok 0

def genesisStart : SyncSession (Option (List StoredBlock × UtxoSet)) :=
  ⟨.initial 0, ⟨genesisDirectory, .empty, 0, [], []⟩⟩

/-- What a peer with the sample chain of three blocks sends. -/
def sampleStatus : Message := ⟨str "status", samplePeer.encode⟩

def sampleHeaders (heights : List ℕ) : Message :=
  ⟨str "headers", UInt8.ofNat heights.length ::
    heights.flatMap fun height => (sampleBlock height).headerRecord.encode⟩

def sampleBody (height : ℕ) : Message := ⟨str "block", encodeBlocks [sampleBlock height]⟩

/-- The session after the messages, one each millisecond. -/
def sampleSteps : ℕ → List Message → SyncSession (Option (List StoredBlock × UtxoSet)) →
    Option (SyncSession (Option (List StoredBlock × UtxoSet)))
  | _, [], t => some t
  | n, message :: rest, t =>
    (t.step .memory samplePolicy (sampleArrival n (some message)) quietOutside).bind
      (sampleSteps (n + 1) rest)

def sampleEvents : ℕ → List Message → List (Arrival × Outside (Option (List StoredBlock × UtxoSet)))
  | _, [] => []
  | n, message :: rest => (sampleArrival n (some message), quietOutside) :: sampleEvents (n + 1) rest

/-- Whether every message completes what it changes. -/
def sampleCompletes : ℕ → List Message → SyncSession (Option (List StoredBlock × UtxoSet)) → Bool
  | _, [], _ => true
  | n, message :: rest, t => completes .memory quietOutside t.sync message &&
    (t.step .memory samplePolicy (sampleArrival n (some message)) quietOutside).all
      (sampleCompletes (n + 1) rest)

theorem run_of_sampleSteps {n : ℕ} {messages : List Message}
    {t t' : SyncSession (Option (List StoredBlock × UtxoSet))}
    (h : sampleSteps n messages t = some t') :
    Run (fun t (event : Arrival × Outside _) t' =>
      t.step .memory samplePolicy event.1 event.2 = some t') t (sampleEvents n messages) t' := by
  induction messages generalizing n t with
  | nil =>
    obtain rfl := Option.some.inj h
    exact .nil
  | cons message rest ih =>
    obtain ⟨t₁, hstep, hrest⟩ := Option.bind_eq_some_iff.1 h
    exact .cons hstep (ih hrest)

theorem completing_run_of_sampleSteps {n : ℕ} {messages : List Message}
    {t t' : SyncSession (Option (List StoredBlock × UtxoSet))}
    (h : sampleSteps n messages t = some t') (hcompletes : sampleCompletes n messages t) :
    Run (fun t (event : Arrival × Outside _) t' =>
      t.step .memory samplePolicy event.1 event.2 = some t' ∧
      t.Completing .memory event.1 event.2) t (sampleEvents n messages) t' := by
  induction messages generalizing n t with
  | nil =>
    obtain rfl := Option.some.inj h
    exact .nil
  | cons message rest ih =>
    obtain ⟨t₁, hstep, hrest⟩ := Option.bind_eq_some_iff.1 h
    rw [sampleCompletes, hstep, Bool.and_eq_true] at hcompletes
    refine .cons ⟨hstep, fun message' hreceived => ?_⟩ (ih hrest hcompletes.2)
    obtain rfl : message = message' := Option.some.inj hreceived
    exact .of_completes hcompletes.1

/-- The download up to the last block. -/
def sampleDownload : List Message := [sampleStatus, sampleHeaders [1], sampleHeaders [2], sampleBody 1]

theorem download_facts : sampleCompletes 1 sampleDownload genesisStart = true ∧
    ((sampleSteps 1 sampleDownload genesisStart).any fun t =>
      t.sync.candidate.active && t.sync.unansweredGetheaders == 0 &&
      sampleCompletes 5 [sampleBody 2] t && (sampleSteps 5 [sampleBody 2] t).any fun t' =>
        t'.sync.activations.map (fun activation => activation.full) == [sampleChain 2]) = true := by
  decide +kernel

/-- The candidate waits for its last block, with which it is activated. -/
theorem candidate_progresses_download : ∃ t t',
    Run (fun t (event : Arrival × Outside _) t' =>
      t.step .memory samplePolicy event.1 event.2 = some t' ∧
      t.Completing .memory event.1 event.2) genesisStart (sampleEvents 1 sampleDownload) t ∧
    t.sync.candidate.active ∧ t.sync.unansweredGetheaders = 0 ∧ t.sync.CanProgress ∧
    Run (fun t (event : Arrival × Outside _) t' =>
      t.step .memory samplePolicy event.1 event.2 = some t' ∧
      t.Completing .memory event.1 event.2) t (sampleEvents 5 [sampleBody 2]) t' ∧
    t'.sync.activations.map (fun activation => activation.full) = [sampleChain 2] := by
  obtain ⟨hcompletes, hfacts⟩ := download_facts
  obtain ⟨t, hsteps, hfacts⟩ := (Option.any_eq_true _ _).1 hfacts
  simp only [Bool.and_eq_true, beq_iff_eq] at hfacts
  obtain ⟨⟨⟨hactive, hheaders⟩, hlast⟩, hfacts⟩ := hfacts
  obtain ⟨t', hsteps', hactivated⟩ := (Option.any_eq_true _ _).1 hfacts
  have hrun := completing_run_of_sampleSteps hsteps hcompletes
  exact ⟨t, t', hrun, hactive, hheaders, candidate_progresses (.inbound genesisDirectory) hrun,
    completing_run_of_sampleSteps hsteps' hlast, beq_iff_eq.1 hactivated⟩

/-- A peer that announces one block more. -/
def announcedVersion : PeerVersion where
  protocolVersion := p2pProtocolVersion
  services := nodeNetworkService
  timestamp := 0
  bestHeight := 1
  genesisHash := testnetGenesisHash
  tipHash := hashToDisplayHex (digestOf 1)
  chainwork := zeroFill 64 (hexText (2 * testnetBlockWork))
  nonce := 1
  userAgent := []

def announcement : Message := ⟨str "status", announcedVersion.encode⟩

/-- No headers at all. -/
def noHeaders : Message := ⟨str "headers", [0]⟩

theorem announced_facts : ((sampleSteps 1 [announcement, noHeaders] genesisStart).any fun t =>
    t.sync.candidate.active && t.sync.unansweredGetheaders == 0 && t.sync.candidate.pending.isEmpty) =
      true := by
  decide +kernel

/-- **An empty list of headers** leaves the candidate active and nothing to wait for. -/
theorem candidate_abandoned : Starts .memory 0 genesisStart ∧ ∃ t,
    Run (fun t (event : Arrival × Outside _) t' =>
      t.step .memory samplePolicy event.1 event.2 = some t') genesisStart
      [(sampleArrival 1 (some announcement), quietOutside),
        (sampleArrival 2 (some noHeaders), quietOutside)] t ∧ ¬ t.sync.CanProgress := by
  refine ⟨.inbound genesisDirectory, ?_⟩
  obtain ⟨t, hsteps, hfacts⟩ := (Option.any_eq_true _ _).1 announced_facts
  simp only [Bool.and_eq_true, beq_iff_eq] at hfacts
  obtain ⟨⟨hactive, hheaders⟩, hpending⟩ := hfacts
  refine ⟨t, run_of_sampleSteps hsteps, fun h => ?_⟩
  rcases h hactive with hpos | ⟨hash, hmem, -⟩
  · omega
  · rw [ExtTreeSet.isEmpty_iff.1 hpending] at hmem
    exact ExtTreeSet.not_mem_empty hmem

end SyncSession

end BinaryCoin
