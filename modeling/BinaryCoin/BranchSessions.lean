/-
  BinaryCoin — net.cpp: the side-branch file that the sessions of a node share.

  A session changes the file by loading it, changing what it has loaded and
  saving that.  The block handler does so without `data_mutex_` when the block
  belongs to its candidate, and the other sections hold the mutex.  A load and a
  save are not interrupted; everything else interleaves.
-/
import BinaryCoin.Lib.Runs
import BinaryCoin.Mempool
import BinaryCoin.Mined
import BinaryCoin.SideBranch

namespace BinaryCoin

open Cursor Runs Text

section
variable [Crypto]

/-! ## Sections -/

/-- What a session does to what it has loaded, up to the save. -/
inductive BranchAction where
  | putMany (blocks : List StoredBlock)
  | removeActive (activeBlocks : List StoredBlock)

def BranchAction.exec : BranchAction → SideBranchM Unit
  | .putMany blocks => SideBranchStore.putMany blocks
  | .removeActive activeBlocks => SideBranchStore.removeActive activeBlocks

/-- The parts of `session_loop` that change the file. -/
inductive BranchSection where
  /-- a block that belongs to the candidate -/
  | candidateBody (stored : StoredBlock)
  /-- a block that extends the chain; `activeBlocks` is the chain with it -/
  | extension (activeBlocks : List StoredBlock)
  /-- another block -/
  | sideBranch (stored : StoredBlock)
  /-- `activate_candidate`; `activeBlocks` is the chain if it has been activated -/
  | activateCandidate (disconnected : List StoredBlock) (activeBlocks : Option (List StoredBlock))

namespace BranchSection

/-- Whether the section holds `data_mutex_`. -/
def locked : BranchSection → Bool
  | .candidateBody _ => false
  | _ => true

def actions : BranchSection → List BranchAction
  | .candidateBody stored => [.putMany [stored]]
  | .extension activeBlocks => [.removeActive activeBlocks]
  | .sideBranch stored => [.putMany [stored]]
  | .activateCandidate disconnected activeBlocks =>
    (if disconnected = [] then [] else [.putMany disconnected]) ++
      activeBlocks.toList.map .removeActive

end BranchSection

/-- How far a session is. -/
inductive BranchStage where
  | outside
  | entered (actions : List BranchAction)
  | loaded (blocks : List StoredBlock) (actions : List BranchAction)

/-- The file, the session that holds `data_mutex_`, and the sessions. -/
structure BranchSessions where
  file : Option Str
  holder : Option ℕ
  sessions : ℕ → BranchStage

inductive BranchEvent where
  | enter (id : ℕ) (part : BranchSection)
  | load (id : ℕ)
  | saved (id : ℕ) (action : BranchAction)
  | leave (id : ℕ)

namespace BranchSessions

/-- One uninterrupted part of a session.  An exception, also of a load or a save, leaves the section
    and the file as it was. -/
inductive Step : BranchSessions → BranchEvent → BranchSessions → Prop
  | enter {n : BranchSessions} {id : ℕ} {part : BranchSection} (hstage : n.sessions id = .outside)
      (hlock : part.locked → n.holder = none) :
      Step n (.enter id part) { n with
        holder := if part.locked then some id else n.holder
        sessions := Function.update n.sessions id (.entered part.actions) }
  | load {n : BranchSessions} {id : ℕ} {actions : List BranchAction} {s : SideBranchStore}
      (hstage : n.sessions id = .entered actions)
      (hload : SideBranchStore.load.run ⟨[], n.file⟩ = .ok () s) :
      Step n (.load id) { n with
        sessions := Function.update n.sessions id (.loaded s.blocks actions) }
  | saved {n : BranchSessions} {id : ℕ} {blocks : List StoredBlock} {action : BranchAction}
      {actions : List BranchAction} {s : SideBranchStore}
      (hstage : n.sessions id = .loaded blocks (action :: actions))
      (hsave : action.exec.run ⟨blocks, n.file⟩ = .ok () s) :
      Step n (.saved id action) { n with
        file := s.file
        sessions := Function.update n.sessions id (.loaded s.blocks actions) }
  | leave {n : BranchSessions} {id : ℕ} : Step n (.leave id) { n with
        holder := if n.holder = some id then none else n.holder
        sessions := Function.update n.sessions id .outside }

end BranchSessions

/-! ## The store -/

namespace SideBranchStore

/-- What a fresh `load` finds in the file. -/
def Loads (file : Option Str) (blocks : List StoredBlock) : Prop :=
  load.run ⟨[], file⟩ = .ok () ⟨blocks, file⟩

def ids (blocks : List StoredBlock) : List Str := blocks.map StoredBlock.id

/-- A block that can be read again. -/
def Readable (b : StoredBlock) : Prop := b.Canonical ∧ b.WithinLimits

/-- The blocks of a store. -/
structure Good (blocks : List StoredBlock) : Prop where
  readable : ∀ b ∈ blocks, Readable b
  nodup : (ids blocks).Nodup

variable {blocks blocks' bs : List StoredBlock} {b : StoredBlock} {file : Option Str}
  {s s' : SideBranchStore}

/-- The blocks after `put`. -/
def putBlock (blocks : List StoredBlock) (b : StoredBlock) : List StoredBlock :=
  if b.id ∈ ids blocks then blocks else blocks ++ [b]

theorem find?_ids {hash : Str} :
    hash ∈ ids blocks ↔ ∃ b, blocks.find? (fun b => b.id = hash) = some b := by
  rw [← Option.isSome_iff_exists, List.find?_isSome, ids, List.mem_map]
  simp

theorem put_run (hgood : Good blocks) (hb : Readable b) :
    (put b).run ⟨blocks, file⟩ = .ok () ⟨putBlock blocks b, file⟩ := by
  have hfind : findBlock b.id blocks = .ok (blocks.find? fun b' => b'.id = b.id) :=
    findBlock_ok fun b hb => (hgood.readable b hb).1
  simp only [put, run_bind_ok, lift_run_ok, run_get_ok, hb.1.hashHex_id]
  refine ⟨_, _, ⟨rfl, rfl⟩, _, _, ⟨rfl, rfl⟩, _, _, ⟨hfind, rfl⟩, ?_⟩
  rw [putBlock]
  by_cases hmem : b.id ∈ ids blocks
  · obtain ⟨found, hfound⟩ := find?_ids.1 hmem
    rw [hfound, if_pos hmem]
    rfl
  · have hnone : blocks.find? (fun b' => b'.id = b.id) = none := by
      rw [Option.eq_none_iff_forall_not_mem]
      exact fun found hfound => hmem (find?_ids.2 ⟨found, hfound⟩)
    rw [hnone, if_neg hmem]
    rfl

theorem Good.nil : Good [] := ⟨by simp, List.nodup_nil⟩

theorem Good.put (hgood : Good blocks) (hb : Readable b) : Good (putBlock blocks b) := by
  rw [putBlock]
  split_ifs with hmem
  · exact hgood
  · refine ⟨fun b' hb' => ?_, ?_⟩
    · obtain hb' | hb' := List.mem_append.1 hb'
      · exact hgood.readable b' hb'
      · exact List.mem_singleton.1 hb' ▸ hb
    · rw [ids, List.map_append, List.map_singleton]
      exact List.nodup_append.2 ⟨hgood.nodup, List.nodup_singleton _, by
        rintro x hx y hy rfl
        exact hmem (List.mem_singleton.1 hy ▸ hx)⟩

theorem mem_put {hash : Str} :
    hash ∈ ids (putBlock blocks b) ↔ hash ∈ ids blocks ∨ hash = b.id := by
  rw [putBlock]
  split_ifs with hmem
  · constructor
    · exact .inl
    · rintro (h | rfl)
      · exact h
      · exact hmem
  · simp [ids]

theorem Good.foldl (hgood : Good blocks) (hbs : ∀ b ∈ bs, Readable b) :
    Good (bs.foldl putBlock blocks) := by
  induction bs generalizing blocks with
  | nil => exact hgood
  | cons b bs ih =>
    obtain ⟨hb, hbs⟩ := List.forall_mem_cons.1 hbs
    exact ih (hgood.put hb) hbs

theorem mem_foldl {hash : Str} :
    hash ∈ ids (bs.foldl putBlock blocks) ↔ hash ∈ ids blocks ∨ hash ∈ ids bs := by
  induction bs generalizing blocks with
  | nil => simp [ids]
  | cons b bs ih =>
    rw [List.foldl_cons, ih, mem_put]
    simp only [ids, List.map_cons, List.mem_cons, or_assoc]

theorem mem_putBlock {x : StoredBlock} (h : x ∈ blocks) : x ∈ putBlock blocks b := by
  rw [putBlock]
  split_ifs
  · exact h
  · exact List.mem_append_left _ h

/-- What is in the store stays, and a block is put unless another one has its hash. -/
theorem mem_foldl_putBlock {x : StoredBlock} (h : x ∈ blocks ∨ x ∈ bs ∧
    ∀ other ∈ blocks ++ bs, other.id = x.id → other = x) : x ∈ bs.foldl putBlock blocks := by
  induction bs generalizing blocks with
  | nil => simpa using h
  | cons b bs ih =>
    rcases h with h | ⟨hmem, hclear⟩
    · exact ih (.inl (mem_putBlock h))
    rcases List.mem_cons.1 hmem with rfl | hmem
    · refine ih (.inl ?_)
      rw [putBlock]
      split_ifs with hid
      · obtain ⟨other, hother, heq⟩ := List.mem_map.1 hid
        exact hclear other (List.mem_append_left _ hother) heq ▸ hother
      · exact List.mem_append_right _ (List.mem_singleton_self x)
    · refine ih (.inr ⟨hmem, fun other hother => hclear other ?_⟩)
      rcases List.mem_append.1 hother with hother | hother
      · rw [putBlock] at hother
        split_ifs at hother
        · exact List.mem_append_left _ hother
        · rw [List.append_cons]
          exact List.mem_append_left _ hother
      · exact List.mem_append_right _ (List.mem_cons_of_mem _ hother)

/-- The blocks of a store are told apart by their hashes. -/
theorem Good.find? (hgood : Good blocks) {x : StoredBlock} (h : x ∈ blocks) :
    blocks.find? (fun b => b.id = x.id) = some x := by
  obtain ⟨found, hfound⟩ := find?_ids.1 (List.mem_map_of_mem (f := StoredBlock.id) h)
  have hid : found.id = x.id := by simpa using List.find?_some hfound
  rw [hfound, List.inj_on_of_nodup_map hgood.nodup (List.mem_of_find?_eq_some hfound) h hid]

theorem forM_put_run (hgood : Good blocks) (hbs : ∀ b ∈ bs, Readable b) :
    (forM bs put : SideBranchM Unit).run ⟨blocks, file⟩ =
      .ok () ⟨bs.foldl putBlock blocks, file⟩ := by
  induction bs generalizing blocks with
  | nil => rfl
  | cons b bs ih =>
    obtain ⟨hb, hbs⟩ := List.forall_mem_cons.1 hbs
    rw [List.forM_cons, run_bind_ok]
    exact ⟨(), _, put_run hgood hb, ih (hgood.put hb) hbs⟩

/-! ### Files -/

/-- The line of a block. -/
def recordText (b : StoredBlock) : Str := bytesToHex (encodeBlocks [b])

omit [Crypto] in
theorem record_ok {line : Str} : record b = .ok line ↔
    (b.Serializable ∧ (encodeBlocks [b]).length ≤ maxP2pPayload) ∧ line = recordText b := by
  have hone : ([b].drop 0).take 1 = [b] := rfl
  simp only [record, except_bind_ok, serializeStoredBlocks_ok, hone, List.mem_singleton, forall_eq,
    except_pure_ok]
  constructor
  · rintro ⟨_, ⟨-, hser, hle, rfl⟩, rfl⟩
    exact ⟨⟨hser, hle⟩, rfl⟩
  · rintro ⟨⟨hser, hle⟩, rfl⟩
    exact ⟨_, ⟨Nat.zero_le _, hser, hle, rfl⟩, rfl⟩

omit [Crypto] in
theorem save_ok : save.run s = .ok () s' ↔
    (∀ b ∈ s.blocks, b.Serializable ∧ (encodeBlocks [b]).length ≤ maxP2pPayload) ∧
    s' = { s with file := some (unlines (sideBranchMagic :: s.blocks.map recordText)) } := by
  have hrecords : ∀ {blocks : List StoredBlock} {lines : List Str}, blocks.mapM record = .ok lines ↔
      (∀ b ∈ blocks, b.Serializable ∧ (encodeBlocks [b]).length ≤ maxP2pPayload) ∧
      lines = blocks.map recordText := mapM_ok fun b line => record_ok
  simp only [save, fileText, run_bind_ok, run_get_ok, lift_run_ok, except_bind_ok, hrecords,
    except_pure_ok, run_modify_ok]
  constructor
  · rintro ⟨_, _, ⟨rfl, rfl⟩, _, _, ⟨⟨_, ⟨hall, rfl⟩, rfl⟩, rfl⟩, rfl⟩
    exact ⟨hall, rfl⟩
  · rintro ⟨hall, rfl⟩
    exact ⟨_, _, ⟨rfl, rfl⟩, _, _, ⟨⟨_, ⟨hall, rfl⟩, rfl⟩, rfl⟩, rfl⟩

theorem loadRecord_run (hgood : Good blocks) (hb : Readable b)
    (hle : (encodeBlocks [b]).length ≤ maxP2pPayload) :
    (loadRecord (recordText b)).run ⟨blocks, file⟩ = .ok () ⟨putBlock blocks b, file⟩ := by
  have hlength : b.encode.length ≤ maxP2pPayload := by
    simp only [encodeBlocks, List.flatMap_singleton, sized, List.length_append] at hle
    omega
  have hread : deserializeStoredBlocks (encodeBlocks [b]) = .ok [b] := by
    refine deserializeStoredBlocks_ok.2 ⟨⟨?_, fun stored hstored => ?_⟩, rfl⟩
    · exact (by decide : 1 ≤ maxBlocksPerResponse)
    · rw [List.mem_singleton.1 hstored]
      exact ⟨hlength, hb⟩
  simp only [loadRecord, run_bind_ok, lift_run_ok]
  exact ⟨_, _, ⟨hexToBytes_bytesToHex _, rfl⟩, _, _, ⟨hread, rfl⟩, put_run hgood hb⟩

theorem forM_loadRecord_run (hgood : Good blocks) (hbs : ∀ b ∈ bs, Readable b ∧
    (encodeBlocks [b]).length ≤ maxP2pPayload) :
    (forM (bs.map recordText) loadRecord : SideBranchM Unit).run ⟨blocks, file⟩ =
      .ok () ⟨bs.foldl putBlock blocks, file⟩ := by
  induction bs generalizing blocks with
  | nil => rfl
  | cons b bs ih =>
    obtain ⟨hb, hbs⟩ := List.forall_mem_cons.1 hbs
    rw [List.map_cons, List.forM_cons, run_bind_ok]
    exact ⟨(), _, loadRecord_run hgood hb.1 hb.2, ih (hgood.put hb.1) hbs⟩

/-- Blocks with different hashes are all put. -/
theorem foldl_putBlock (h : (ids (blocks ++ bs)).Nodup) :
    bs.foldl putBlock blocks = blocks ++ bs := by
  induction bs generalizing blocks with
  | nil => rw [List.foldl_nil, List.append_nil]
  | cons b bs ih =>
    have hnotMem : b.id ∉ ids blocks := by
      intro hmem
      rw [ids, List.map_append, List.nodup_append] at h
      exact h.2.2 b.id hmem b.id (by simp) rfl
    rw [List.foldl_cons, putBlock, if_neg hnotMem, ih (by simpa using h), List.append_assoc]
    rfl

/-- **What is saved is loaded again.** -/
theorem save_loads (hgood : Good blocks) (h : save.run ⟨blocks, file⟩ = .ok () s') :
    s'.blocks = blocks ∧ Loads s'.file blocks := by
  obtain ⟨hall, rfl⟩ := save_ok.1 h
  refine ⟨rfl, ?_⟩
  have hne : ∀ b ∈ blocks, recordText b ≠ [] := by
    intro b hb hnil
    have hlength := congrArg List.length hnil
    simp only [recordText, length_bytesToHex, encodeBlocks, List.flatMap_singleton, sized,
      List.length_append, StoredBlock.encode, List.length_nil, LittleEndian.length_leBytes]
      at hlength
    omega
  have hfilter : (blocks.map recordText).filter (· ≠ []) = blocks.map recordText :=
    filter_records hne
  have hlines : lines (unlines (sideBranchMagic :: blocks.map recordText)) =
      sideBranchMagic :: blocks.map recordText :=
    lines_records (by decide +kernel) fun _ _ => newline_notMem_bytesToHex _
  have hput : blocks.foldl putBlock [] = blocks := foldl_putBlock (by simpa using hgood.nodup)
  have hread : ∀ file, (forM (blocks.map recordText) loadRecord : SideBranchM Unit).run ⟨[], file⟩ =
      .ok () ⟨blocks.foldl putBlock [], file⟩ := fun file =>
    forM_loadRecord_run Good.nil fun b hb => ⟨hgood.readable b hb, (hall b hb).2⟩
  rw [hput] at hread
  simp only [Loads, load, setBlocks, run_bind_ok, run_modify_ok, run_get_ok]
  refine ⟨(), _, rfl, _, _, ⟨rfl, rfl⟩, ?_⟩
  simp only [hlines, hfilter, run_bind_ok, throwIf_run_ok]
  exact ⟨(), _, ⟨by simp, rfl⟩, hread _⟩

/-- What a record adds. -/
theorem loadRecord_good {line : Str} (hgood : Good s.blocks)
    (h : (loadRecord line).run s = .ok () s') :
    Good s'.blocks ∧ s'.file = s.file := by
  simp only [loadRecord, run_bind_ok, lift_run_ok] at h
  obtain ⟨payload, _, ⟨-, rfl⟩, decoded, _, ⟨hdecoded, rfl⟩, h⟩ := h
  split at h
  · next b =>
    obtain ⟨⟨-, hall⟩, -⟩ := deserializeStoredBlocks_ok.1 hdecoded
    have hb : Readable b := (hall b (List.mem_singleton_self b)).2
    have hput : (put b).run s = .ok () ⟨putBlock s.blocks b, s.file⟩ := put_run hgood hb
    obtain ⟨-, rfl⟩ := EStateM.Result.ok.inj (hput.symm.trans h)
    exact ⟨hgood.put hb, rfl⟩
  · cases h

theorem forM_loadRecord_good {ls : List Str} (hgood : Good s.blocks)
    (h : (forM ls loadRecord : SideBranchM Unit).run s = .ok () s') :
    Good s'.blocks ∧ s'.file = s.file := by
  induction ls generalizing s with
  | nil =>
    obtain ⟨-, rfl⟩ := run_pure_ok.1 h
    exact ⟨hgood, rfl⟩
  | cons line ls ih =>
    rw [List.forM_cons, run_bind_ok] at h
    obtain ⟨_, s₁, hline, h⟩ := h
    obtain ⟨hgood₁, hfile₁⟩ := loadRecord_good hgood hline
    obtain ⟨hgood', hfile⟩ := ih hgood₁ h
    exact ⟨hgood', hfile.trans hfile₁⟩

/-- **What has been loaded can be saved and loaded again.** -/
theorem load_good (h : load.run ⟨[], file⟩ = .ok () s) : Good s.blocks ∧ Loads file s.blocks := by
  have hloads := h
  simp only [load, setBlocks, run_bind_ok, run_modify_ok, run_get_ok] at h
  obtain ⟨_, s₁, rfl, _, _, ⟨rfl, rfl⟩, h⟩ := h
  dsimp only at h
  obtain ⟨hgood, hfile⟩ : Good s.blocks ∧ s.file = file := by
    cases file with
    | none =>
      obtain ⟨-, rfl⟩ := run_pure_ok.1 h
      exact ⟨Good.nil, rfl⟩
    | some text =>
      dsimp only at h
      split at h
      · cases h
      · simp only [run_bind_ok, throwIf_run_ok] at h
        obtain ⟨_, _, ⟨-, rfl⟩, h⟩ := h
        exact forM_loadRecord_good Good.nil h
  refine ⟨hgood, ?_⟩
  rw [Loads, hloads]
  obtain ⟨blocks, file'⟩ := s
  rw [show file' = file from hfile]

theorem Loads.unique (h : Loads file blocks) (h' : Loads file blocks') : blocks = blocks' :=
  congrArg SideBranchStore.blocks (EStateM.Result.ok.inj (h.symm.trans h')).2

theorem Loads.good (h : Loads file blocks) : Good blocks := (load_good h).1

/-! ### Changes -/

theorem hashHex_eq {hash : Str} (h : b.hashHex = .ok hash) : hash = b.id :=
  (BlockHeader.hashHex_ok.1 h).2

theorem filterAuxM_ok {active : List Str} {acc kept : List StoredBlock}
    (h : blocks.filterAuxM (fun stored => do return decide ((← stored.hashHex) ∉ active)) acc =
      .ok kept) : kept = (blocks.filter fun b => b.id ∉ active).reverse ++ acc := by
  induction blocks generalizing acc with
  | nil => exact (except_pure_ok.1 h).symm
  | cons b bs ih =>
    rw [List.filterAuxM, except_bind_ok] at h
    obtain ⟨keep, hkeep, h⟩ := h
    obtain ⟨hash, hhash, hkeep⟩ := except_bind_ok.1 hkeep
    obtain rfl := except_pure_ok.1 hkeep
    rw [ih h, hashHex_eq hhash]
    by_cases hmem : b.id ∈ active <;> simp [hmem]

theorem inactive_ok {activeBlocks : List StoredBlock}
    (h : inactive activeBlocks blocks = .ok blocks') :
    blocks' = blocks.filter fun b => b.id ∉ ids activeBlocks := by
  obtain ⟨hashes, hhashes, h⟩ := except_bind_ok.1 h
  have hids : hashes = ids activeBlocks := by
    have hok : ∀ (b : StoredBlock) (hash : Str), b.hashHex = .ok hash ↔
        (∃ bytes, b.block.header.serialize = .ok bytes) ∧ hash = b.id := fun b hash =>
      BlockHeader.hashHex_ok
    exact ((mapM_ok hok).1 hhashes).2
  subst hids
  obtain ⟨kept, hkept, h⟩ := except_bind_ok.1 h
  obtain rfl := except_pure_ok.1 h
  rw [filterAuxM_ok hkept, List.append_nil, List.reverse_reverse]

theorem mem_ids_filter {active : List Str} {hash : Str} :
    hash ∈ ids (blocks.filter fun b => b.id ∉ active) ↔ hash ∈ ids blocks ∧ hash ∉ active := by
  simp only [ids, List.mem_map, List.mem_filter, decide_eq_true_eq]
  constructor
  · rintro ⟨b, ⟨hb, hactive⟩, rfl⟩
    exact ⟨⟨b, hb, rfl⟩, hactive⟩
  · rintro ⟨⟨b, hb, rfl⟩, hactive⟩
    exact ⟨b, ⟨hb, hactive⟩, rfl⟩

theorem putMany_ok (hgood : Good blocks) (hbs : ∀ b ∈ bs, Readable b)
    (h : (putMany bs).run ⟨blocks, file⟩ = .ok () s') :
    s'.blocks = bs.foldl putBlock blocks ∧ Loads s'.file s'.blocks := by
  rw [putMany, run_bind_of_ok (forM_put_run hgood hbs)] at h
  obtain ⟨hblocks, hloads⟩ := save_loads (hgood.foldl hbs) h
  rw [hblocks]
  exact ⟨rfl, hloads⟩

theorem removeActive_ok {activeBlocks : List StoredBlock} (hgood : Good blocks)
    (h : (removeActive activeBlocks).run ⟨blocks, file⟩ = .ok () s') :
    s'.blocks = blocks.filter (fun b => b.id ∉ ids activeBlocks) ∧ Loads s'.file s'.blocks := by
  simp only [removeActive, setBlocks, run_bind_ok, lift_run_ok, run_get_ok, run_modify_ok] at h
  obtain ⟨_, _, ⟨rfl, rfl⟩, kept, _, ⟨hkept, rfl⟩, _, _, rfl, h⟩ := h
  obtain rfl := inactive_ok hkept
  have hgood' : Good (blocks.filter fun b => b.id ∉ ids activeBlocks) :=
    ⟨fun b hb => hgood.readable b (List.mem_of_mem_filter hb),
      (List.filter_sublist.map StoredBlock.id).nodup hgood.nodup⟩
  obtain ⟨hblocks, hloads⟩ := save_loads hgood' h
  rw [hblocks]
  exact ⟨rfl, hloads⟩

end SideBranchStore

open SideBranchStore

namespace BranchAction

/-- The blocks that are put. -/
def put : BranchAction → List StoredBlock
  | .putMany blocks => blocks
  | .removeActive _ => []

/-- The hashes that are removed. -/
def removed : BranchAction → List Str
  | .putMany _ => []
  | .removeActive activeBlocks => ids activeBlocks

/-- **What an action saves**: the blocks that were there and those that it puts, but for those that it
    removes. -/
theorem exec_ok {action : BranchAction} {blocks : List StoredBlock} {file : Option Str}
    {s : SideBranchStore} (hgood : Good blocks) (hput : ∀ b ∈ action.put, Readable b)
    (h : action.exec.run ⟨blocks, file⟩ = .ok () s) :
    s.blocks = (action.put.foldl putBlock blocks).filter (fun b => b.id ∉ action.removed) ∧
      Loads s.file s.blocks := by
  cases action with
  | putMany bs =>
    obtain ⟨hblocks, hloads⟩ := putMany_ok hgood hput h
    exact ⟨by simpa [put, removed] using hblocks, hloads⟩
  | removeActive activeBlocks => exact removeActive_ok hgood h

end BranchAction

/-! ## Runs -/

namespace BranchSessions

variable {n n₀ n' : BranchSessions} {event : BranchEvent} {b : StoredBlock}

/-- The blocks that are put can be read again, and none of them has the hash of another block in the
    file, or of another one that is put. -/
def Takes (n : BranchSessions) (action : BranchAction) : Prop :=
  ∀ b ∈ action.put, Readable b ∧ ∀ blocks, Loads n.file blocks →
    ∀ other ∈ blocks ++ action.put, other.id = b.id → other = b

/-- A save is fresh if the file is still what the session has loaded or saved last, and takes its
    blocks. -/
def Fresh (n : BranchSessions) : BranchEvent → Prop
  | .saved id action => (∀ blocks actions, n.sessions id = .loaded blocks actions →
      Loads n.file blocks) ∧ n.Takes action
  | _ => True

/-- A fresh load finds the block. -/
def Finds (n : BranchSessions) (b : StoredBlock) : Prop :=
  ∃ s, SideBranchStore.load.run ⟨[], n.file⟩ = .ok () s ∧ s.find b.id = .ok (some b)

/-- The hashes that a step removes. -/
def removedBy : BranchEvent → List Str
  | .saved _ action => action.removed
  | _ => []

theorem finds_iff : n.Finds b ↔ ∃ blocks, Loads n.file blocks ∧ b ∈ blocks := by
  constructor
  · rintro ⟨s, hload, hfind⟩
    obtain ⟨hgood, hloads⟩ := load_good hload
    rw [SideBranchStore.find, findBlock_ok fun b hb => (hgood.readable b hb).1] at hfind
    exact ⟨s.blocks, hloads, List.mem_of_find?_eq_some (Except.ok.inj hfind)⟩
  · rintro ⟨blocks, hloads, hmem⟩
    refine ⟨_, hloads, ?_⟩
    rw [SideBranchStore.find, findBlock_ok fun b hb => (hloads.good.readable b hb).1,
      hloads.good.find? hmem]

/-- **What a fresh save leaves**: what it has found and what it puts, but for what it removes. -/
theorem Step.saved_finds {id : ℕ} {action : BranchAction} (h : Step n (.saved id action) n')
    (hfresh : n.Fresh (.saved id action)) (hmem : n.Finds b ∨ b ∈ action.put)
    (hremoved : b.id ∉ action.removed) : n'.Finds b := by
  cases h with
  | saved hstage hsave =>
    obtain ⟨hloaded, htakes⟩ := hfresh
    have hloads := hloaded _ _ hstage
    obtain ⟨hblocks, hloads'⟩ := BranchAction.exec_ok hloads.good (fun b hb => (htakes b hb).1) hsave
    refine finds_iff.2 ⟨_, hloads', ?_⟩
    rw [hblocks]
    refine List.mem_filter.2 ⟨mem_foldl_putBlock ?_, by simpa using hremoved⟩
    rcases hmem with hfinds | hput
    · obtain ⟨blocks, hblocks, hmem⟩ := finds_iff.1 hfinds
      exact .inl (hblocks.unique hloads ▸ hmem)
    · exact .inr ⟨hput, (htakes b hput).2 _ hloads⟩

/-- **The step lemma**: a fresh step keeps what is found, but for what it removes. -/
theorem Step.keeps (h : Step n event n') (hfresh : n.Fresh event) (hfinds : n.Finds b)
    (hremoved : b.id ∉ removedBy event) : n'.Finds b := by
  cases event with
  | saved id action => exact h.saved_finds hfresh (.inl hfinds) hremoved
  | enter | load | leave => cases h; exact hfinds

/-- A session that is in a section holds the mutex, and has loaded what the file still gives. -/
structure Exclusive (n : BranchSessions) : Prop where
  holder : ∀ id, n.sessions id = .outside ∨ n.holder = some id
  loaded : ∀ id blocks actions, n.sessions id = .loaded blocks actions → Loads n.file blocks

/-- Every section that is entered holds the mutex, and every save takes its blocks. -/
def Guarded (n : BranchSessions) : BranchEvent → Prop
  | .enter _ part => part.locked
  | .saved _ action => n.Takes action
  | _ => True

theorem Exclusive.outside_of_ne {id other : ℕ} (h : n.Exclusive) (hholder : n.holder = some id)
    (hne : other ≠ id) : n.sessions other = .outside :=
  (h.holder other).resolve_right fun hother => hne (Option.some.inj (hother.symm.trans hholder))

/-- At most one session is in a section. -/
theorem exclusive_update {id : ℕ} {stage : BranchStage} {file : Option Str} {holder : Option ℕ}
    {sessions : ℕ → BranchStage} (houtside : ∀ other, other ≠ id → sessions other = .outside)
    (hholder : stage = .outside ∨ holder = some id)
    (hloaded : ∀ blocks actions, stage = .loaded blocks actions → Loads file blocks) :
    Exclusive ⟨file, holder, Function.update sessions id stage⟩ := by
  refine ⟨fun other => ?_, fun other blocks actions hother => ?_⟩
  · obtain rfl | hne := eq_or_ne other id
    · simpa using hholder
    · exact .inl ((Function.update_of_ne hne _ _).trans (houtside other hne))
  · obtain rfl | hne := eq_or_ne other id
    · exact hloaded blocks actions (by simpa using hother)
    · have hstage := (Function.update_of_ne hne _ _).symm.trans hother
      rw [houtside other hne] at hstage
      cases hstage

theorem Step.exclusive (h : Step n event n') (hguarded : n.Guarded event) (hn : n.Exclusive) :
    n'.Exclusive := by
  cases h with
  | enter hstage hlock =>
    have hfree := hlock hguarded
    exact exclusive_update
      (fun other _ => (hn.holder other).resolve_right (by rw [hfree]; exact nofun))
      (.inr (if_pos hguarded)) nofun
  | load hstage hload =>
    have hholder := (hn.holder _).resolve_left (by rw [hstage]; exact nofun)
    refine exclusive_update (fun other hne => hn.outside_of_ne hholder hne) (.inr hholder) ?_
    rintro _ _ ⟨⟩
    exact (load_good hload).2
  | saved hstage hsave =>
    have hholder := (hn.holder _).resolve_left (by rw [hstage]; exact nofun)
    refine exclusive_update (fun other hne => hn.outside_of_ne hholder hne) (.inr hholder) ?_
    rintro _ _ ⟨⟩
    exact (BranchAction.exec_ok (hn.loaded _ _ _ hstage).good (fun b hb => (hguarded b hb).1) hsave).2
  | @leave id =>
    by_cases hholder : n.holder = some id
    · exact exclusive_update (fun other hne => hn.outside_of_ne hholder hne) (.inl rfl) nofun
    · have houtside := (hn.holder id).resolve_right hholder
      have hsessions : Function.update n.sessions id .outside = n.sessions :=
        houtside ▸ Function.update_eq_self id n.sessions
      rw [if_neg hholder, hsessions]
      exact hn

/-- **The mutex makes every save fresh**: sections that hold it lose nothing. -/
theorem fresh_of_guarded {events : List BranchEvent}
    (h : Run (fun n event n' => Step n event n' ∧ n.Guarded event) n events n') (hn : n.Exclusive) :
    Run (fun n event n' => Step n event n' ∧ n.Fresh event) n events n' := by
  induction h with
  | nil => exact .nil
  | @cons n _ _ event _ head _ ih =>
    obtain ⟨hstep, hguarded⟩ := head
    refine .cons ⟨hstep, ?_⟩ (ih (hstep.exclusive hguarded hn))
    cases event with
    | saved id action => exact ⟨hn.loaded id, hguarded⟩
    | _ => trivial

end BranchSessions

end

/-! ## Two bodies at once -/

namespace BranchSessions

open SideBranchStore

attribute [local instance] sampleCrypto

/-- No file, and no session. -/
def start : BranchSessions := ⟨none, none, fun _ => .outside⟩

theorem load_none : SideBranchStore.load.run ⟨[], none⟩ = .ok () ⟨[], none⟩ := rfl

end BranchSessions

end BinaryCoin
