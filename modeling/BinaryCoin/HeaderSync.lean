/-
  BinaryCoin — net.cpp: the headers that `sync_from_peer` downloads.

  The loop asks for headers until the tip that the peer has announced.  What
  the peer sends, and when, is arbitrary.
-/
import BinaryCoin.Lib.Ends
import BinaryCoin.Locator
import BinaryCoin.Mined

namespace BinaryCoin

open Cursor Stateful

/-- The variables of the loop; `requests` counts the messages `getheaders`. -/
structure HeaderDownload where
  headers : List HeaderRecord
  locator : List Str
  forkIndex : ℕ
  requests : ℕ

abbrev DownloadM := EStateM Exn HeaderDownload

/-- What `receive_until` leaves: the payload, and the blocks of the object, which is loaded again
    for a `getstatus` that comes first. -/
structure HeadersResponse where
  blocks : List StoredBlock
  payload : Bytes

/-- Before the first request. -/
def HeaderDownload.empty : HeaderDownload := ⟨[], [], 0, 0⟩

section
variable [Crypto]

/-- The first header of a batch follows a block of the chain, or the headers so far. -/
def connectBatch (blocks : List StoredBlock) (front : HeaderRecord) : DownloadM Unit := do
  let s ← get
  match s.headers.getLast? with
  | none =>
    let failure := runtimeError "Peer headers do not connect to local block locator"
    let found ← searchBelow blocks front.header.previousHash blocks.length
    let forkIndex := found.getD s.forkIndex
    set { s with forkIndex := forkIndex }
    throwIf (forkIndex = blocks.length) failure
    let fork ← orThrow blocks[forkIndex]? (outOfRange "vector")
    throwIf (front.height ≠ fork.height + 1) failure
  | some previous =>
    let failure := runtimeError "Peer returned non-contiguous header batches"
    throwIf (front.height ≠ previous.height + 1) failure
    let hash ← previous.header.hashHex
    throwIf (front.header.previousHash ≠ hash) failure

/-- The checks of a header against the one before it. -/
def checkHeader (blocks : List StoredBlock) (s : HeaderDownload) (header : HeaderRecord) :
    Except Exn Unit := do
  match s.headers.getLast? with
  | some previous =>
    let failure := runtimeError "Invalid headers-first sequence"
    throwIf (header.height ≠ previous.height + 1) failure
    let hash ← previous.header.hashHex
    throwIf (header.header.previousHash ≠ hash) failure
    throwIf (header.header.time ≤ previous.header.time) failure
  | none =>
    let fork ← orThrow blocks[s.forkIndex]? (outOfRange "vector")
    throwIf (header.header.time ≤ fork.block.header.time)
      (runtimeError "Candidate header time does not increase from fork")

/-- The body of the loop over a batch. -/
def storeHeader (blocks : List StoredBlock) (header : HeaderRecord) : DownloadM Unit := do
  let s ← get
  checkHeader blocks s header
  set { s with headers := s.headers ++ [header] }

/-- What follows a batch: true at the announced tip. -/
def afterBatch (peer : PeerVersion) : DownloadM Bool := do
  let s ← get
  let last ← orThrow s.headers.getLast? (outOfRange "vector")
  throwIf (last.height > peer.bestHeight) (runtimeError "Peer headers exceed advertised height")
  let hash ← last.header.hashHex
  if hash = peer.tipHash then
    throwIf (last.height ≠ peer.bestHeight)
      (runtimeError "Peer tip height does not match final header")
    return true
  set { s with locator := [hash, testnetGenesisHash] }
  return false

/-- A response in the loop. -/
def acceptBatch (peer : PeerVersion) (response : HeadersResponse) : DownloadM Bool := do
  let batch ← deserializeHeaders response.payload
  let front ← orThrow batch.head? (runtimeError "Peer stopped headers before advertised tip")
  connectBatch response.blocks front
  forM batch (storeHeader response.blocks)
  afterBatch peer

def sendGetheaders : DownloadM Unit := do
  let s ← get
  let _ ← serializeGetheaders ⟨s.locator, zeroHashHex⟩
  set { s with requests := s.requests + 1 }

/-- The loop, up to a number of rounds: true at the announced tip, false if more rounds follow.
    `receive_until` throws, or returns a response. -/
def headerRounds (peer : PeerVersion) : (ℕ → Except Exn HeadersResponse) → ℕ → DownloadM Bool
  | _, 0 => return false
  | responses, rounds + 1 => do
    sendGetheaders
    let response ← responses 0
    if ← acceptBatch peer response then return true
    headerRounds peer (fun n => responses (n + 1)) rounds

/-- The download, where the chain had the given blocks. -/
def downloadHeaders (peer : PeerVersion) (blocks : List StoredBlock)
    (responses : ℕ → Except Exn HeadersResponse) (rounds : ℕ) : DownloadM Bool := do
  throwIf (peer.bestHeight > 1000000)
    (runtimeError "Peer testnet chain height exceeds synchronization safety limit")
  let locator ← makeBlockLocator blocks
  set (⟨[], locator, blocks.length, 0⟩ : HeaderDownload)
  headerRounds peer responses rounds

/-! ## A batch -/

variable {peer : PeerVersion} {blocks : List StoredBlock} {header front : HeaderRecord}
  {batch : List HeaderRecord} {s s' : HeaderDownload}

omit [Crypto] in
theorem ends_lift {α σ : Type} {I : σ → Prop} {x : Except Exn α} {s : σ} (h : I s) :
    Ends I (liftM x : EStateM Exn σ α) s := by
  cases x <;> exact h

omit [Crypto] in
theorem ends_throwIf {σ : Type} {I : σ → Prop} {c : Prop} [Decidable c] {e : Exn} {s : σ} (h : I s) :
    Ends I (throwIf c e : EStateM Exn σ Unit) s := by
  unfold throwIf
  split_ifs <;> exact h

/-- The requests are those of before, and at most `n` headers are added. -/
def Adds (n : ℕ) (s s' : HeaderDownload) : Prop :=
  s'.requests = s.requests ∧ s'.headers.length ≤ s.headers.length + n

omit [Crypto] in
theorem Adds.refl {n : ℕ} (s : HeaderDownload) : Adds n s s := ⟨rfl, by omega⟩

omit [Crypto] in
theorem Adds.trans {m n : ℕ} {s₁ : HeaderDownload} (h : Adds m s s₁) (h' : Adds n s₁ s') :
    Adds (m + n) s s' := ⟨h'.1.trans h.1, by have := h.2; have := h'.2; omega⟩

theorem connectBatch_ends : Ends (fun s' => s'.requests = s.requests ∧ s'.headers = s.headers)
    (connectBatch blocks front) s := by
  refine .get_bind ?_
  cases s.headers.getLast? with
  | none =>
    refine .bind (ends_lift ⟨rfl, rfl⟩) fun found s₁ hrun h₁ => ?_
    refine .bind (.set ⟨rfl, rfl⟩) fun _ s₂ hset h₂ => ?_
    refine .bind (ends_throwIf h₂) fun _ s₃ _ h₃ => ?_
    exact .bind (ends_lift h₃) fun _ s₄ _ h₄ => ends_throwIf h₄
  | some previous =>
    refine .bind (ends_throwIf ⟨rfl, rfl⟩) fun _ s₁ _ h₁ => ?_
    exact .bind (ends_lift h₁) fun _ s₂ _ h₂ => ends_throwIf h₂

theorem storeHeader_ends : Ends (Adds 1 s) (storeHeader blocks header) s := by
  refine .get_bind (.bind (ends_lift (Adds.refl s)) fun _ s₁ _ _ => .set ⟨rfl, ?_⟩)
  simp

theorem storeHeaders_ends : Ends (Adds batch.length s) (forM batch (storeHeader blocks)) s := by
  induction batch generalizing s with
  | nil => exact .pure (Adds.refl s)
  | cons header batch ih =>
    rw [List.forM_cons]
    refine .bind (storeHeader_ends.imp fun s' h => ?_) fun _ s₁ hrun _ => ?_
    · exact ⟨h.1, by have := h.2; rw [List.length_cons]; omega⟩
    · have hone : Adds 1 s s₁ := by
        have hends : Ends (Adds 1 s) (storeHeader blocks header) s := storeHeader_ends
        rw [Ends, hrun] at hends
        exact hends
      refine ih.imp fun s' h => ?_
      have hall := hone.trans h
      rwa [List.length_cons, Nat.add_comm]

/-- The heights of the headers: the last one's is at least their number, and at most `top`. -/
def Linked (top : ℕ) (s : HeaderDownload) : Prop :=
  ∀ last, s.headers.getLast? = some last →
    s.headers.length ≤ last.height.toNat ∧ last.height.toNat ≤ top

omit [Crypto] in
theorem Linked.length_le {top : ℕ} (h : Linked top s) : s.headers.length ≤ top := by
  cases hlast : s.headers.getLast? with
  | none =>
    rw [List.getLast?_eq_none_iff.1 hlast]
    exact Nat.zero_le _
  | some last =>
    obtain ⟨hlength, htop⟩ := h last hlast
    exact hlength.trans htop

theorem storeHeader_ok {u : Unit} (h : (storeHeader blocks header).run s = .ok u s') :
    s' = { s with headers := s.headers ++ [header] } ∧
      ∀ previous, s.headers.getLast? = some previous → header.height = previous.height + 1 := by
  simp only [storeHeader, run_bind_ok, run_get_ok, lift_run_ok, run_set_ok] at h
  obtain ⟨_, _, ⟨rfl, rfl⟩, _, _, ⟨hcheck, rfl⟩, rfl⟩ := h
  refine ⟨rfl, fun previous hprevious => ?_⟩
  simp only [checkHeader, hprevious, except_bind_ok, throwIf_ok, not_not] at hcheck
  obtain ⟨_, hheight, -⟩ := hcheck
  exact hheight

omit [Crypto] in
/-- One more header at the next height. -/
theorem Linked.push {top : ℕ} (h : Linked top s) (htop : top + 1 < 2 ^ 64) {previous : HeaderRecord}
    (hprevious : s.headers.getLast? = some previous) (hheight : header.height = previous.height + 1) :
    Linked (top + 1) { s with headers := s.headers ++ [header] } := by
  intro last hlast
  obtain rfl : header = last := by
    rw [List.getLast?_concat] at hlast
    exact Option.some.inj hlast
  obtain ⟨hlength, hle⟩ := h previous hprevious
  have hnat : header.height.toNat = previous.height.toNat + 1 := by
    rw [hheight, UInt64.toNat_add]
    exact Nat.mod_eq_of_lt (by simp only [UInt64.toNat_one]; omega)
  rw [List.length_append, List.length_singleton]
  omega

/-- **The rest of a batch** is linked to the header before it. -/
theorem storeHeaders_linked {top : ℕ} {u : Unit}
    (hrun : (forM batch (storeHeader blocks)).run s = .ok u s') (hne : s.headers ≠ [])
    (h : Linked top s) (htop : top + batch.length < 2 ^ 64) :
    Linked (top + batch.length) s' ∧ s'.headers = s.headers ++ batch ∧ s'.requests = s.requests := by
  induction batch generalizing s top with
  | nil =>
    obtain ⟨-, rfl⟩ := run_pure_ok.1 hrun
    exact ⟨h, by simp, rfl⟩
  | cons header batch ih =>
    rw [List.forM_cons, run_bind_ok] at hrun
    obtain ⟨_, s₁, hfirst, hrest⟩ := hrun
    obtain ⟨rfl, hheight⟩ := storeHeader_ok hfirst
    obtain ⟨previous, hprevious⟩ := Option.ne_none_iff_exists'.1
      (List.getLast?_eq_none_iff.not.2 hne)
    rw [List.length_cons] at htop
    have hone := h.push (by omega) hprevious (hheight previous hprevious)
    obtain ⟨hlinked, hheaders, hrequests⟩ := ih hrest (by simp) hone (by omega)
    refine ⟨?_, ?_, hrequests⟩
    · rwa [List.length_cons, Nat.add_comm batch.length, ← Nat.add_assoc]
    · rw [hheaders, List.append_assoc]
      rfl

/-- The first batch starts above a block of the chain. -/
theorem connectBatch_ok {u : Unit} (hrun : (connectBatch blocks front).run s = .ok u s') :
    (s'.requests = s.requests ∧ s'.headers = s.headers) ∧
      (s.headers = [] → ∃ fork ∈ blocks, front.height = fork.height + 1) := by
  have hends : Ends (fun s' => s'.requests = s.requests ∧ s'.headers = s.headers)
      (connectBatch blocks front) s := connectBatch_ends
  rw [Ends, hrun] at hends
  refine ⟨hends, fun hnil => ?_⟩
  have hlast : s.headers.getLast? = none := by rw [hnil]; rfl
  simp only [connectBatch, run_bind_ok, run_get_ok] at hrun
  obtain ⟨_, _, ⟨rfl, rfl⟩, hrun⟩ := hrun
  rw [hlast] at hrun
  simp only [run_bind_ok, lift_run_ok, run_set_ok, throwIf_run_ok, orThrow_ok, not_not] at hrun
  obtain ⟨_, _, -, _, _, -, _, _, -, fork, _, ⟨hfork, -⟩, hheight, -⟩ := hrun
  exact ⟨fork, List.mem_of_getElem? hfork, hheight⟩

/-- The last header is the tip that the peer has announced. -/
def AtTip (peer : PeerVersion) (s : HeaderDownload) : Prop :=
  ∃ last, s.headers.getLast? = some last ∧ last.header.hashHex = .ok peer.tipHash ∧
    last.height = peer.bestHeight

theorem afterBatch_ok {done : Bool} (hrun : (afterBatch peer).run s = .ok done s') :
    s'.requests = s.requests ∧ s'.headers = s.headers ∧
      (∀ last, s.headers.getLast? = some last → last.height.toNat ≤ peer.bestHeight.toNat) ∧
      (done = true ↔ AtTip peer s') := by
  simp only [afterBatch, run_bind_ok, run_get_ok, lift_run_ok, orThrow_ok, throwIf_run_ok,
    gt_iff_lt] at hrun
  obtain ⟨_, _, ⟨rfl, rfl⟩, last, _, ⟨hlast, rfl⟩, _, _, ⟨hle, rfl⟩, hash, _, ⟨hhash, rfl⟩, hrun⟩ :=
    hrun
  have hheight : ∀ last', s.headers.getLast? = some last' →
      last'.height.toNat ≤ peer.bestHeight.toNat := by
    intro last' hlast'
    obtain rfl := Option.some.inj (hlast.symm.trans hlast')
    exact UInt64.le_iff_toNat_le.1 (UInt64.not_lt.1 hle)
  split_ifs at hrun with htip
  · simp only [run_bind_ok, throwIf_run_ok, run_pure_ok] at hrun
    obtain ⟨_, _, ⟨hbest, rfl⟩, rfl, rfl⟩ := hrun
    exact ⟨rfl, rfl, hheight, iff_of_true rfl ⟨last, hlast, htip ▸ hhash, not_not.1 hbest⟩⟩
  · simp only [run_bind_ok, run_set_ok, run_pure_ok] at hrun
    obtain ⟨_, _, rfl, rfl, rfl⟩ := hrun
    refine ⟨rfl, rfl, hheight, iff_of_false Bool.false_ne_true ?_⟩
    rintro ⟨last', hlast', hhash', -⟩
    obtain rfl := Option.some.inj (hlast.symm.trans hlast')
    exact htip (Except.ok.inj (hhash.symm.trans hhash'))

/-! ## A round -/

/-- The state when a response is awaited. -/
structure Waiting (peer : PeerVersion) (s : HeaderDownload) : Prop where
  requests_le : s.requests ≤ s.headers.length + 1
  linked : Linked peer.bestHeight.toNat s

/-- The state at the head of the loop: there was a header for every request. -/
structure AtHead (peer : PeerVersion) (s : HeaderDownload) : Prop where
  requests_le : s.requests ≤ s.headers.length
  linked : Linked peer.bestHeight.toNat s

/-- What is never exceeded. -/
structure Within (peer : PeerVersion) (s : HeaderDownload) : Prop where
  requests : s.requests ≤ peer.bestHeight.toNat + 1
  headers : s.headers.length ≤ peer.bestHeight.toNat + 2000

variable {response : HeadersResponse}

omit [Crypto] in
theorem AtHead.within (h : AtHead peer s) : Within peer s := by
  have hlength := h.linked.length_le
  have hrequests := h.requests_le
  exact ⟨by omega, by omega⟩

theorem deserializeHeaders_length {payload : Bytes}
    (h : deserializeHeaders payload = .ok batch) : batch.length ≤ 2000 :=
  (headers_strict.canonical _ _ h).1.count

/-- A response does not make the list too long, whether it is accepted or not. -/
theorem acceptBatch_ends (h : Waiting peer s) : Ends (Within peer) (acceptBatch peer response) s := by
  have hlength := h.linked.length_le
  have hrequests := h.requests_le
  have hwithin : ∀ s', Adds 2000 s s' → Within peer s' := fun s' hadds =>
    ⟨by have := hadds.1; omega, by have := hadds.2; omega⟩
  have hstart : Within peer s := hwithin s (Adds.refl s)
  refine .bind (ends_lift hstart) fun batch s₁ hbatch h₁ => ?_
  obtain ⟨hdecode, rfl⟩ := lift_run_ok.1 hbatch
  have hcount := deserializeHeaders_length hdecode
  refine .bind (ends_lift hstart) fun front s₂ hfront _ => ?_
  obtain ⟨-, rfl⟩ := lift_run_ok.1 hfront
  refine .bind (connectBatch_ends.imp fun s' hsame => ?_) fun _ s₃ hconnect _ => ?_
  · exact hwithin s' ⟨hsame.1, by rw [hsame.2]; omega⟩
  obtain ⟨hsame, -⟩ := connectBatch_ok hconnect
  have hadds : ∀ s', Adds batch.length s₃ s' → Within peer s' := fun s' hadds =>
    hwithin s' ⟨hadds.1.trans hsame.1, by have := hadds.2; rw [hsame.2] at this; omega⟩
  refine .bind (storeHeaders_ends.imp hadds) fun _ s₄ hstore h₄ => ?_
  -- what follows the batch only changes the locator
  refine .get_bind (.bind (ends_lift h₄) fun last s₅ hlast h₅ => ?_)
  obtain ⟨-, rfl⟩ := lift_run_ok.1 hlast
  refine .bind (ends_throwIf h₅) fun _ s₆ hthrow h₆ => ?_
  obtain ⟨-, rfl⟩ := throwIf_run_ok.1 hthrow
  refine .bind (ends_lift h₆) fun hash s₇ hhash h₇ => ?_
  obtain ⟨-, rfl⟩ := lift_run_ok.1 hhash
  split_ifs
  · exact .bind (ends_throwIf h₇) fun _ s₈ _ h₈ => .pure h₈
  · exact .bind (.set ⟨h₇.requests, h₇.headers⟩) fun _ s₈ _ h₈ => .pure h₈

/-- The loop is left at the announced tip, and there only. -/
theorem acceptBatch_done {done : Bool} (hrun : (acceptBatch peer response).run s = .ok done s') :
    done = true ↔ AtTip peer s' := by
  simp only [acceptBatch, run_bind_ok] at hrun
  obtain ⟨_, _, -, _, _, -, _, _, -, _, _, -, hafter⟩ := hrun
  exact (afterBatch_ok hafter).2.2.2

/-- **A response that is accepted** adds at least one header. -/
theorem acceptBatch_ok {done : Bool} (h : Waiting peer s) (hpeer : peer.bestHeight.toNat ≤ 1000000)
    (hblocks : verifyBlocks response.blocks = .ok ())
    (hrun : (acceptBatch peer response).run s = .ok done s') :
    AtHead peer s' ∧ s'.requests = s.requests := by
  simp only [acceptBatch, run_bind_ok, lift_run_ok, orThrow_ok] at hrun
  obtain ⟨batch, _, ⟨hdecode, rfl⟩, front, _, ⟨hfront, rfl⟩, _, s₁, hconnect, _, s₂, hstore,
    hafter⟩ := hrun
  have hcount := deserializeHeaders_length hdecode
  obtain ⟨⟨hrequests, hheaders⟩, hfirst⟩ := connectBatch_ok hconnect
  obtain ⟨hrequests', hheaders', hlast, -⟩ := afterBatch_ok hafter
  -- the first header of all has a height above the genesis block's
  have hlinked : ∃ top, Linked top s₂ ∧ s₂.headers = s.headers ++ batch ∧
      s₂.requests = s.requests := by
    obtain ⟨rest, rfl⟩ := List.head?_eq_some_iff.1 hfront
    rw [List.length_cons] at hcount
    by_cases hnil : s.headers = []
    · obtain ⟨fork, hmem, hheight⟩ := hfirst hnil
      obtain ⟨u, hchain⟩ := verifyBlocks_iff.1 hblocks
      obtain ⟨i, hi, rfl⟩ := List.mem_iff_getElem.1 hmem
      have hfork := hchain.height i _ (List.getElem?_eq_getElem hi)
      have hbound := hchain.length_le
      have hnat : front.height.toNat = i + 1 := by
        rw [hheight, UInt64.toNat_add, hfork]
        exact Nat.mod_eq_of_lt (by simp only [UInt64.toNat_one]; omega)
      rw [List.forM_cons, run_bind_ok] at hstore
      obtain ⟨_, s₃, hone, hrest⟩ := hstore
      obtain ⟨rfl, -⟩ := storeHeader_ok hone
      have hone' : Linked (i + 1) { s₁ with headers := s₁.headers ++ [front] } := by
        intro last hmem
        rw [hheaders, hnil] at hmem ⊢
        obtain rfl : front = last := Option.some.inj hmem
        exact ⟨by rw [hnat]; simp, hnat.le⟩
      obtain ⟨hall, hsome, hsame⟩ := storeHeaders_linked hrest (by simp) hone' (by omega)
      refine ⟨_, hall, ?_, hsame.trans hrequests⟩
      rw [hsome, hheaders, List.append_assoc]
      rfl
    · have hlinked : Linked peer.bestHeight.toNat s₁ := by
        intro last hlast
        rw [hheaders] at hlast ⊢
        exact h.linked last hlast
      obtain ⟨hall, hsome, hsame⟩ := storeHeaders_linked hstore (by rwa [hheaders]) hlinked
        (by rw [List.length_cons]; omega)
      exact ⟨_, hall, by rw [hsome, hheaders], hsame.trans hrequests⟩
  obtain ⟨top, hlinked, hsome, hsame⟩ := hlinked
  refine ⟨⟨?_, fun last hmem => ?_⟩, hrequests'.trans hsame⟩
  · have hpos : 0 < batch.length := by
      obtain ⟨rest, rfl⟩ := List.head?_eq_some_iff.1 hfront
      exact Nat.succ_pos _
    have hle := h.requests_le
    rw [hrequests', hheaders', hsame, hsome, List.length_append]
    omega
  · rw [hheaders'] at hmem ⊢
    exact ⟨(hlinked last hmem).1, hlast last hmem⟩

omit [Crypto] in
theorem sendGetheaders_ok {u : Unit} (hrun : sendGetheaders.run s = .ok u s') :
    s' = { s with requests := s.requests + 1 } := by
  simp only [sendGetheaders, run_bind_ok, run_get_ok, lift_run_ok, run_set_ok] at hrun
  obtain ⟨_, _, ⟨rfl, rfl⟩, _, _, ⟨-, rfl⟩, rfl⟩ := hrun
  rfl

omit [Crypto] in
theorem AtHead.send (h : AtHead peer s) :
    Waiting peer { s with requests := s.requests + 1 } :=
  ⟨Nat.succ_le_succ h.requests_le, h.linked⟩

/-- **Every number of rounds** stays within the limits, and one round more than the announced height
    is not survived. -/
theorem headerRounds_run {responses : ℕ → Except Exn HeadersResponse} (rounds : ℕ)
    (h : AtHead peer s) (hpeer : peer.bestHeight.toNat ≤ 1000000)
    (hblocks : ∀ n response, responses n = .ok response → verifyBlocks response.blocks = .ok ()) :
    Ends (Within peer) (headerRounds peer responses rounds) s ∧
      (peer.bestHeight.toNat < s.requests + rounds →
        ∀ s', (headerRounds peer responses rounds).run s ≠ .ok false s') := by
  induction rounds generalizing s responses with
  | zero =>
    refine ⟨.pure h.within, fun hlt => ?_⟩
    have hlength := h.linked.length_le
    have hrequests := h.requests_le
    omega
  | succ rounds ih =>
    have hnext : ∀ n response, responses (n + 1) = .ok response →
        verifyBlocks response.blocks = .ok () := fun n => hblocks (n + 1)
    have hsent : Within peer { s with requests := s.requests + 1 } :=
      ⟨by have := h.requests_le; have := h.linked.length_le; dsimp only; omega, h.within.headers⟩
    constructor
    · have hsend : Ends (Within peer) sendGetheaders s :=
        .get_bind (.bind (ends_lift h.within) fun _ s₁ _ h₁ => .set hsent)
      refine .bind hsend fun _ s₁ hrun _ => ?_
      obtain rfl := sendGetheaders_ok hrun
      refine .bind (ends_lift hsent) fun response s₂ hresponse _ => ?_
      obtain ⟨hreceive, rfl⟩ := lift_run_ok.1 hresponse
      refine .bind (acceptBatch_ends h.send) fun done s₃ haccept h₃ => ?_
      cases done with
      | true => exact .pure h₃
      | false =>
        obtain ⟨hhead, -⟩ := acceptBatch_ok h.send hpeer (hblocks 0 response hreceive) haccept
        exact (ih hhead hnext).1
    · intro hlt s' hrun
      rw [headerRounds, run_bind_ok] at hrun
      obtain ⟨_, s₁, hsend, hrun⟩ := hrun
      obtain rfl := sendGetheaders_ok hsend
      obtain ⟨response, s₂, hresponse, hrun⟩ := run_bind_ok.1 hrun
      obtain ⟨hreceive, rfl⟩ := lift_run_ok.1 hresponse
      obtain ⟨done, s₃, haccept, hrun⟩ := run_bind_ok.1 hrun
      obtain ⟨hhead, hsame⟩ := acceptBatch_ok h.send hpeer (hblocks 0 response hreceive) haccept
      cases done with
      | true =>
        obtain ⟨htrue, -⟩ := run_pure_ok.1 hrun
        cases htrue
      | false =>
        refine (ih hhead hnext).2 ?_ s' hrun
        rw [hsame]
        dsimp only
        omega

/-- **The loop returns at the announced tip.** -/
theorem headerRounds_done {responses : ℕ → Except Exn HeadersResponse} {rounds : ℕ}
    (hrun : (headerRounds peer responses rounds).run s = .ok true s') : AtTip peer s' := by
  induction rounds generalizing s responses with
  | zero => cases hrun
  | succ rounds ih =>
    simp only [headerRounds, run_bind_ok] at hrun
    obtain ⟨_, s₁, -, response, s₂, -, done, s₃, haccept, hrun⟩ := hrun
    cases done with
    | true =>
      obtain ⟨-, rfl⟩ := run_pure_ok.1 hrun
      exact (acceptBatch_done haccept).1 rfl
    | false => exact ih hrun

theorem downloadHeaders_done {responses : ℕ → Except Exn HeadersResponse} {rounds : ℕ}
    (hrun : (downloadHeaders peer blocks responses rounds).run s = .ok true s') : AtTip peer s' := by
  simp only [downloadHeaders, run_bind_ok] at hrun
  obtain ⟨_, _, -, _, _, -, _, _, -, hrun⟩ := hrun
  exact headerRounds_done hrun

/-- **The download of headers ends.**  Whatever the peer has announced and sends, in any number of
    rounds at most one request more than the announced height is sent, and at most 2000 headers more
    are stored; after that many rounds the loop has returned or thrown; and where it has returned, the
    last header has the hash and the height of the announced tip. -/
theorem header_download_ends (peer : PeerVersion) (blocks : List StoredBlock)
    (responses : ℕ → Except Exn HeadersResponse)
    (hblocks : ∀ n response, responses n = .ok response → verifyBlocks response.blocks = .ok ())
    (rounds : ℕ) :
    Ends (fun s => s.requests ≤ peer.bestHeight.toNat + 1 ∧ s.requests ≤ 1000001 ∧
        s.headers.length ≤ peer.bestHeight.toNat + 2000)
      (downloadHeaders peer blocks responses rounds) .empty ∧
    (peer.bestHeight.toNat + 1 ≤ rounds → ∀ s,
      (downloadHeaders peer blocks responses rounds).run .empty ≠ .ok false s) ∧
    ∀ s, (downloadHeaders peer blocks responses rounds).run .empty = .ok true s →
      ∃ last, s.headers.getLast? = some last ∧ last.header.hashHex = .ok peer.tipHash ∧
        last.height = peer.bestHeight := by
  rw [← and_assoc]
  refine ⟨?_, fun s hrun => downloadHeaders_done hrun⟩
  by_cases hlarge : peer.bestHeight > 1000000
  · have hthrow : (downloadHeaders peer blocks responses rounds).run .empty =
        .error (runtimeError "Peer testnet chain height exceeds synchronization safety limit") .empty := by
      rw [downloadHeaders, throwIf, if_pos hlarge]
      rfl
    refine ⟨?_, fun _ s => ?_⟩
    · rw [Ends, hthrow]
      exact ⟨Nat.zero_le _, Nat.zero_le _, Nat.zero_le _⟩
    · intro h
      rw [hthrow] at h
      cases h
  · have hpeer : peer.bestHeight.toNat ≤ 1000000 :=
      UInt64.le_iff_toNat_le.1 (UInt64.not_lt.1 hlarge)
    have hguard : (throwIf (peer.bestHeight > 1000000) (runtimeError
        "Peer testnet chain height exceeds synchronization safety limit") : DownloadM Unit).run .empty =
        .ok () .empty := throwIf_run_ok.2 ⟨hlarge, rfl⟩
    have hwithin : ∀ s, Within peer s → s.requests ≤ peer.bestHeight.toNat + 1 ∧
        s.requests ≤ 1000001 ∧ s.headers.length ≤ peer.bestHeight.toNat + 2000 := fun s h =>
      ⟨h.requests, h.requests.trans (Nat.succ_le_succ hpeer), h.headers⟩
    rw [downloadHeaders]
    cases hlocator : makeBlockLocator blocks with
    | error e =>
      refine ⟨?_, fun _ s => ?_⟩
      · rw [Ends, run_bind_of_ok hguard]
        exact ⟨Nat.zero_le _, Nat.zero_le _, Nat.zero_le _⟩
      · intro h
        rw [run_bind_of_ok hguard] at h
        cases h
    | ok locator =>
      have hhead : AtHead peer ⟨[], locator, blocks.length, 0⟩ := by
        refine ⟨Nat.zero_le _, fun last hlast => ?_⟩
        cases hlast
      obtain ⟨hends, hnot⟩ := headerRounds_run rounds hhead hpeer hblocks
      refine ⟨?_, fun hrounds s => ?_⟩
      · rw [Ends, run_bind_of_ok hguard]
        exact hwithin _ hends
      · rw [run_bind_of_ok hguard]
        exact hnot (by dsimp only; omega) s

end

attribute [local instance] sampleCrypto

/-- A peer with the sample chain of three blocks. -/
def samplePeer : PeerVersion where
  protocolVersion := p2pProtocolVersion
  services := 1
  timestamp := 0
  bestHeight := 2
  genesisHash := testnetGenesisHash
  tipHash := hashToDisplayHex (digestOf (sampleTip 2).hash)
  chainwork := str "0000000000000000000000000000000000000000000000000000000000030006"
  nonce := 1
  userAgent := []

/-- It sends a header in each response, to a node that has only the genesis block. -/
def sampleResponses (n : ℕ) : Except Exn HeadersResponse :=
  .ok ⟨[genesisStored], 1 :: (sampleBlock (n + 1)).headerRecord.encode⟩

/-- The download returns after the second response. -/
theorem samplePeer_done : (match (downloadHeaders samplePeer [genesisStored] sampleResponses 3).run .empty with
    | .ok done s => done && s.headers.length == 2
    | .error _ _ => false) = true := by
  decide +kernel

theorem header_download_ends_two : ∃ s last,
    (downloadHeaders samplePeer [genesisStored] sampleResponses 3).run .empty = .ok true s ∧
    s.headers.length = 2 ∧ s.requests ≤ 3 ∧ s.headers.getLast? = some last ∧
    last.header.hashHex = .ok samplePeer.tipHash ∧ last.height = 2 := by
  have hblocks : ∀ n response, sampleResponses n = .ok response →
      verifyBlocks response.blocks = .ok () := by
    rintro n _ ⟨⟩
    exact verifyBlocks_iff.2 ⟨_, genesisTip_ends.chain⟩
  obtain ⟨hends, -, htip⟩ := header_download_ends samplePeer [genesisStored] sampleResponses hblocks 3
  have hdone := samplePeer_done
  cases hrun : (downloadHeaders samplePeer [genesisStored] sampleResponses 3).run .empty with
  | error e s =>
    rw [hrun] at hdone
    cases hdone
  | ok done s =>
    rw [hrun, Bool.and_eq_true, beq_iff_eq] at hdone
    obtain ⟨rfl, hlength⟩ := hdone
    rw [Ends, hrun] at hends
    obtain ⟨last, hlast, hhash, hheight⟩ := htip s hrun
    exact ⟨s, last, rfl, hlength, hends.1, hlast, hhash, hheight⟩

end BinaryCoin
