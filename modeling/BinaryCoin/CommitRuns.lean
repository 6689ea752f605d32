/-
  BinaryCoin — storage.cpp: commit after commit.

  The durable store is a register: whatever commits return, throw or are
  stopped, it holds the chain of the last one that has returned, or of a later
  one.  And of every commit that has returned the blocks can be found again.
-/
import BinaryCoin.CommitReturns
import BinaryCoin.Extension
import BinaryCoin.Lib.Register
import BinaryCoin.Reindex

namespace BinaryCoin

open Crash Cursor Runs Std Text

section
variable [Crypto]

/-- A commit, and whether it has returned. -/
structure Attempt where
  migrated : Bool
  blocks : List StoredBlock
  utxos : UtxoSet
  returned : Bool

namespace Attempt

def write (a : Attempt) : (List StoredBlock × UtxoSet) × Bool := ((a.blocks, a.utxos), a.returned)

/-- A commit of an accepted chain, from one disk to another. -/
structure Step (d : Disk) (a : Attempt) (d' : Disk) : Prop where
  chain : Chain a.blocks a.utxos
  ran : Ran (commitChain a.migrated a.blocks a.utxos) d (if a.returned then some () else none) d'

variable {d d' : Disk} {a : Attempt} {attempts : List Attempt}

theorem Step.extended (h : Step d a d') : Extends d d' :=
  (commitChain_extends.ran (.refl d) h.ran).1

theorem run_extends (h : Run Step d attempts d') : Extends d d' :=
  h.invariant (I := Extends d) (fun _ _ _ hd h => hd.trans h.extended) (.refl d)

/-- What is faithful at the end was so on the way. -/
theorem run_faithful (h : Run Step d attempts d')
    (hfaithful : ∀ a ∈ attempts, d'.Faithful a.blocks) :
    Run (fun d a d' => Step d a d' ∧ d'.Faithful a.blocks) d attempts d' := by
  induction h with
  | nil => exact .nil
  | cons head tail ih =>
    obtain ⟨hhead, htail⟩ := List.forall_mem_cons.1 hfaithful
    exact .cons ⟨head, hhead.of_extends (run_extends tail)⟩ (ih htail)

/-- What is known of the register is on the disk. -/
def Known (d : Disk) (value : Option (List StoredBlock × UtxoSet)) : Prop :=
  ∀ c, value = some c → ∃ g, HoldsAt g d c

theorem known_none (d : Disk) : Known d none := by
  intro c hc
  cases hc

/-- **A commit writes the register.** -/
theorem Step.write {value : Option (List StoredBlock × UtxoSet)} (hknown : Known d value)
    (h : Step d a d') (hfaithful : d'.Faithful a.blocks) :
    ∃ value', Register.Write value a.write value' ∧ Known d' value' := by
  obtain ⟨migrated, blocks, utxos, returned⟩ := a
  have hdone : ∀ g, Durable g (blocks, utxos) d' → Known d' (some (blocks, utxos)) := by
    rintro g hdurable c ⟨⟩
    exact ⟨g, (hdurable hfaithful).1⟩
  cases returned with
  | true => exact ⟨_, .done value _ _, hdone _ (Ran.durable h.chain h.ran)⟩
  | false =>
    cases value with
    | none => exact ⟨none, .lost _ _, known_none d'⟩
    | some c =>
      obtain ⟨g, hholds⟩ := hknown c rfl
      rcases hholds.interrupted h.chain h.ran with hkept | hdurable
      · refine ⟨some c, .lost _ _, ?_⟩
        rintro _ ⟨⟩
        exact ⟨g, hkept⟩
      · exact ⟨_, .done _ _ _, hdone _ hdurable⟩

/-- **The store refines the register.** -/
theorem run_write {value : Option (List StoredBlock × UtxoSet)} (h : Run Step d attempts d')
    (hfaithful : ∀ a ∈ attempts, d'.Faithful a.blocks) (hknown : Known d value) :
    ∃ value', Run Register.Write value (attempts.map write) value' ∧ Known d' value' := by
  refine (run_faithful h hfaithful).simulates ?_ hknown
  rintro d a d' value hknown ⟨hstep, hfaithful⟩
  exact hstep.write hknown hfaithful

end Attempt

/-! ## Commits, interrupted or not -/

namespace Attempt
variable {d d' : Disk} {attempts : List Attempt}

theorem run_chain (h : Run Step d attempts d') : ∀ a ∈ attempts, Chain a.blocks a.utxos := by
  induction h with
  | nil => exact List.forall_mem_nil _
  | cons head _ ih => exact List.forall_mem_cons.2 ⟨head.chain, ih⟩

/-- What the register holds at the end is loaded. -/
theorem loaded_of_known {value : Option (List StoredBlock × UtxoSet)} (hrun : Run Step d attempts d')
    (hfaithful : ∀ a ∈ attempts, d'.Faithful a.blocks) (hknown : Known d value) :
    (Known d' value ∧ ∀ a ∈ attempts, a.returned = false) ∨
      ∃ before a after, attempts = before ++ a :: after ∧ (∀ b ∈ after, b.returned = false) ∧
        LoadedFrom d' (a.blocks, a.utxos) := by
  obtain ⟨value', hwrites, hknown'⟩ := run_write hrun hfaithful hknown
  rcases Register.run_cases hwrites with ⟨rfl, hlost⟩ | ⟨before, c, returned, after, heq, rfl, hafter⟩
  · exact .inl ⟨hknown', fun a ha => hlost a.write (List.mem_map_of_mem ha)⟩
  · obtain ⟨before', rest, rfl, rfl, hrest⟩ := List.map_eq_append_iff.1 heq
    obtain ⟨a, after', rfl, hwrite, rfl⟩ := List.map_eq_cons_iff.1 hrest
    obtain ⟨g, hholds⟩ := hknown' c rfl
    obtain ⟨rfl, -⟩ : (a.blocks, a.utxos) = c ∧ a.returned = returned := Prod.ext_iff.1 hwrite
    refine .inr ⟨before', a, after', rfl, fun b hb => hafter b.write (List.mem_map_of_mem hb), ?_⟩
    exact hholds.loadedFrom (run_chain hrun a (by simp))

/-- **What is loaded after any commits**, each of which may be stopped or throw anywhere: the chain of
    the last one that has returned, or of a later one; and what was held before, or what one of them
    was to commit, when none has returned. -/
theorem loaded_after_commits (hrun : Run Step d attempts d')
    (hfaithful : ∀ a ∈ attempts, d'.Faithful a.blocks) :
    ((∃ a ∈ attempts, a.returned = true) → ∃ before a after, attempts = before ++ a :: after ∧
      (∀ b ∈ after, b.returned = false) ∧ LoadedFrom d' (a.blocks, a.utxos)) ∧
    ∀ (g : UInt64) (old : List StoredBlock × UtxoSet), HoldsAt g d old → Chain old.1 old.2 →
      (∀ a ∈ attempts, a.returned = false) →
      LoadedFrom d' old ∨ ∃ a ∈ attempts, LoadedFrom d' (a.blocks, a.utxos) := by
  constructor
  · rintro ⟨a, ha, hreturned⟩
    rcases loaded_of_known hrun hfaithful (known_none d) with ⟨-, hlost⟩ | hloaded
    · rw [hlost a ha] at hreturned
      cases hreturned
    · exact hloaded
  · intro g old hholds hchain _
    have hknown : Known d (some old) := by
      rintro _ ⟨⟩
      exact ⟨g, hholds⟩
    rcases loaded_of_known hrun hfaithful hknown with ⟨hkept, -⟩ | ⟨before, a, after, rfl, -, hloaded⟩
    · obtain ⟨g', hholds'⟩ := hkept old rfl
      exact .inl (hholds'.loadedFrom hchain)
    · exact .inr ⟨a, by simp, hloaded⟩

end Attempt

end

section
attribute [local instance] sampleCrypto

/-- A directory without files. -/
def emptyDisk : Disk := ⟨none, ∅⟩

theorem emptyDisk_whole : Whole [] emptyDisk := ⟨.inl ⟨rfl, rfl⟩, List.forall_mem_nil _⟩

theorem sampleChain_subset : sampleChain 1 ⊆ sampleChain 2 := by
  intro b hb
  rw [show 2 = 1 + 1 from rfl, sampleChain_add]
  exact List.mem_append_left _ hb

theorem sampleRecords_facts : (∀ b ∈ sampleChain 2,
      b.block.transactions.length ≤ maxStoredTransactions ∧
      (∀ t ∈ b.block.transactions, t.encode.length ≤ maxTransactionSize) ∧
      b.encode.length ≤ maxBlockRecordSize) ∧
    (∀ a ∈ sampleChain 2, ∀ b ∈ sampleChain 2, a.hashHex = b.hashHex → a = b) ∧
    ((sampleChain 1 ++ sampleChain 2 ++ sampleChain 2).map
      fun b => blockRecordHeaderSize + b.encode.length).sum < 2 ^ 64 := by
  decide +kernel

/-- The records of three commits. -/
theorem sample_storable : Storable (sampleChain 1 ++ sampleChain 2 ++ sampleChain 2) := by
  obtain ⟨u, hends, -⟩ := sampleChain_ends 1
  obtain ⟨hlimits, hinj, hroom⟩ := sampleRecords_facts
  have hmem : ∀ b ∈ sampleChain 1 ++ sampleChain 2 ++ sampleChain 2, b ∈ sampleChain 2 := by
    intro b hb
    rcases List.mem_append.1 hb with hb | hb
    · exact (List.mem_append.1 hb).elim (fun hb => sampleChain_subset hb) id
    · exact hb
  refine ⟨fun b hb => ?_, fun a ha b hb => hinj a (hmem a ha) b (hmem b hb), ?_⟩
  · obtain ⟨hcount, hsize, hrecord⟩ := hlimits b (hmem b hb)
    exact ⟨hends.chain.stored_canonical b (hmem b hb), ⟨hcount, hsize⟩, hrecord⟩
  · simpa only [recordsFile, List.length_flatMap, length_recordOf] using hroom

namespace Attempt

/-- A commit that returns, one that is stopped when its blocks are in the file, and one that
    returns. -/
structure Sample (u v : UtxoSet) (d₁ d₂ d₃ : Disk) : Prop where
  first : Step emptyDisk ⟨false, sampleChain 1, u, true⟩ d₁
  stopped : Step d₁ ⟨false, sampleChain 2, v, false⟩ d₂
  again : Step d₂ ⟨false, sampleChain 2, v, true⟩ d₃
  grows : Grows d₁ d₂
  whole : ∃ records, Whole records d₂ ∧ Storable (records ++ sampleChain 2)
  faithful : d₃.Faithful (sampleChain 2)

variable {u v : UtxoSet} {d₁ d₂ d₃ : Disk}

theorem sample_exists : ∃ u v d₁ d₂ d₃, Sample u v d₁ d₂ d₃ := by
  obtain ⟨u, hu, -⟩ := sampleChain_ends 0
  obtain ⟨v, hv, -⟩ := sampleChain_ends 1
  have hfirst : Storable ([] ++ sampleChain 1) :=
    sample_storable.sublist ((List.sublist_append_left _ _).trans (List.sublist_append_left _ _))
  have hkept : Total (Whole []) (commitChain false (sampleChain 1) u) _ := commitChain_kept hu.chain hfirst
  obtain ⟨⟨⟩, d₁, hran₁, missing₁, hsub₁, hwhole₁, -⟩ := hkept.ran emptyDisk_whole
  have hsecond : Storable ([] ++ missing₁ ++ sampleChain 2) :=
    sample_storable.sublist ((hsub₁.append_right _).trans (List.sublist_append_left _ _))
  obtain ⟨d₂, missing₂, hpassed, hgrows, hsub₂, hwhole₂, -⟩ :=
    commitChain_stopped false hv.chain hsecond hwhole₁
  have hthird : Storable ([] ++ missing₁ ++ missing₂ ++ sampleChain 2) :=
    sample_storable.sublist ((hsub₁.append hsub₂).append_right _)
  have hkept' : Total (Whole ([] ++ missing₁ ++ missing₂)) (commitChain false (sampleChain 2) v) _ :=
    commitChain_kept hv.chain hthird
  obtain ⟨⟨⟩, d₃, hran₃, -, -, -, hfaithful, -⟩ := hkept'.ran hwhole₂
  exact ⟨u, v, d₁, d₂, d₃, ⟨hu.chain, hran₁⟩, ⟨hv.chain, .stopped (.inr hpassed)⟩, ⟨hv.chain, hran₃⟩,
    hgrows, ⟨_, hwhole₂, hthird⟩, hfaithful⟩

theorem Sample.faithful_of (h : Sample u v d₁ d₂ d₃) {attempts : List Attempt}
    (hblocks : ∀ a ∈ attempts, a.blocks ⊆ sampleChain 2) : ∀ a ∈ attempts, d₃.Faithful a.blocks := by
  intro a ha records hrecords record hrecord block hblock
  exact h.faithful records hrecords record hrecord block (hblocks a ha hblock)

/-- The second commit is stopped. -/
theorem loaded_after_commits_stopped : ∃ u v d d',
    Run Step emptyDisk [⟨false, sampleChain 1, u, true⟩] d ∧
    Run Step d [⟨false, sampleChain 2, v, false⟩] d' ∧
    (∃ a ∈ ([⟨false, sampleChain 1, u, true⟩, ⟨false, sampleChain 2, v, false⟩] : List Attempt),
      LoadedFrom d' (a.blocks, a.utxos)) ∧
    (LoadedFrom d' (sampleChain 1, u) ∨
      ∃ a ∈ ([⟨false, sampleChain 2, v, false⟩] : List Attempt), LoadedFrom d' (a.blocks, a.utxos)) := by
  obtain ⟨u, v, d₁, d₂, d₃, h⟩ := sample_exists
  have hrun : Run Step emptyDisk [⟨false, sampleChain 1, u, true⟩] d₁ := .single h.first
  have hrun' : Run Step d₁ [⟨false, sampleChain 2, v, false⟩] d₂ := .single h.stopped
  have hfaithful : ∀ a ∈ ([⟨false, sampleChain 1, u, true⟩, ⟨false, sampleChain 2, v, false⟩] :
      List Attempt), d₂.Faithful a.blocks := by
    intro a ha
    refine (h.faithful_of ?_ a ha).of_extends h.again.extended
    simp [sampleChain_subset]
  refine ⟨u, v, d₁, d₂, hrun, hrun', ?_, ?_⟩
  · obtain ⟨before, a, after, hsplit, -, hloaded⟩ := (loaded_after_commits (hrun.append hrun')
      hfaithful).1 ⟨_, List.mem_cons_self, rfl⟩
    have hmem : a ∈ before ++ a :: after := List.mem_append_right _ List.mem_cons_self
    rw [← hsplit] at hmem
    exact ⟨a, hmem, hloaded⟩
  · obtain ⟨hholds, -⟩ := Ran.durable h.first.chain h.first.ran
      ((hfaithful _ List.mem_cons_self).of_extends h.stopped.extended)
    exact (loaded_after_commits hrun' fun a ha => hfaithful a (List.mem_cons_of_mem _ ha)).2 _ _ hholds
      h.first.chain (List.forall_mem_singleton.2 rfl)

end Attempt

end

/-! ## The blocks are found again -/

section
variable [Crypto]

namespace Attempt
variable {d d' : Disk} {attempts : List Attempt}

/-- **No block of a commit that has returned is lost**: whatever commits follow, the scan of the block
    file finds it, and `reindex` chooses a chain with at least the work of the one committed. -/
theorem reindexed_after_commits (hrun : Run Step d attempts d')
    (hfaithful : ∀ a ∈ attempts, d'.Faithful a.blocks) :
    ∃ records, scanAllBlocks d'.blockFile = .ok records ∧
      (∀ a ∈ attempts, a.returned = true → ∀ block ∈ a.blocks, block ∈ records) ∧
      ((∃ a ∈ attempts, a.returned = true) → ∃ best work, bestBranch records = .ok best ∧
        verifyBlocks best = .ok () ∧ calculateChainwork best = .ok work ∧
        ∀ a ∈ attempts, a.returned = true → ∃ w ≤ work, calculateChainwork a.blocks = .ok w) := by
  obtain ⟨records, hrecords, hdistinct⟩ := scanAllBlocks_ok d'.blockFile
  have hfinds : ∀ a ∈ attempts, a.returned = true → d'.Finds a.blocks := by
    intro a ha hreturned
    obtain ⟨before, after, rfl⟩ := List.append_of_mem ha
    obtain ⟨d₁, -, hrest⟩ := hrun.split
    cases hrest with
    | cons head tail =>
      have hran := head.ran
      rw [hreturned] at hran
      have hextends := run_extends tail
      have hlater := (hfaithful a ha).of_extends hextends
      exact (Ran.durable head.chain hran hlater).2.mono hextends
  have hfound : ∀ a ∈ attempts, a.returned = true → FoundChain records a.blocks := by
    intro a ha hreturned
    exact .of_accepted (hfinds a ha hreturned records hrecords)
      (verifyBlocks_iff.2 ⟨a.utxos, run_chain hrun a ha⟩)
  refine ⟨records, hrecords, fun a ha hreturned => (hfound a ha hreturned).found, ?_⟩
  rintro ⟨a, ha, hreturned⟩
  obtain ⟨best, work, hbest, hchain, hwork, hmost⟩ :=
    bestBranch_best hdistinct ⟨a.blocks, hfound a ha hreturned⟩
  exact ⟨best, work, hbest, hchain.accepted, hwork,
    fun b hb hreturned => hmost b.blocks (hfound b hb hreturned)⟩

end Attempt

end

section
attribute [local instance] sampleCrypto

namespace Attempt

/-- Of three commits the second one is stopped. -/
theorem reindexed_after_commits_stopped : ∃ u v d records best work,
    Run Step emptyDisk [⟨false, sampleChain 1, u, true⟩, ⟨false, sampleChain 2, v, false⟩,
      ⟨false, sampleChain 2, v, true⟩] d ∧
    scanAllBlocks d.blockFile = .ok records ∧ sampleChain 2 ⊆ records ∧
    bestBranch records = .ok best ∧ verifyBlocks best = .ok () ∧
    calculateChainwork best = .ok work ∧ ∃ w ≤ work, calculateChainwork (sampleChain 2) = .ok w := by
  obtain ⟨u, v, d₁, d₂, d₃, h⟩ := sample_exists
  have hrun : Run Step emptyDisk [⟨false, sampleChain 1, u, true⟩, ⟨false, sampleChain 2, v, false⟩,
      ⟨false, sampleChain 2, v, true⟩] d₃ := .cons h.first (.cons h.stopped (.single h.again))
  have hmem : (⟨false, sampleChain 2, v, true⟩ : Attempt) ∈ ([⟨false, sampleChain 1, u, true⟩,
      ⟨false, sampleChain 2, v, false⟩, ⟨false, sampleChain 2, v, true⟩] : List Attempt) := by simp
  obtain ⟨records, hrecords, hfound, hmost⟩ := reindexed_after_commits hrun (h.faithful_of (by
    simp [sampleChain_subset]))
  obtain ⟨best, work, hbest, haccepted, hwork, hall⟩ := hmost ⟨_, hmem, rfl⟩
  exact ⟨u, v, d₃, records, best, work, hrun, hrecords, hfound _ hmem rfl, hbest, haccepted, hwork,
    hall _ hmem rfl⟩

end Attempt

end

/-! ## Commits where nothing fails -/

section
variable [Crypto]

namespace Attempt

/-- **Commits where nothing fails**: on a block file of whole records all of them return, and the next
    process loads the last chain. -/
theorem commits_return {records : List StoredBlock} {attempts : List Attempt} {m : Machine Disk Exn}
    (hfails : ∀ n, m.fails n = none) (hwhole : Whole records m.disk)
    (hchains : ∀ a ∈ attempts, Chain a.blocks a.utxos)
    (hstorable : Storable (records ++ attempts.flatMap fun a => a.blocks)) :
    ∃ m', (forM attempts fun a => commitChain a.migrated a.blocks a.utxos).run m = .ok () m' ∧
      ∀ a, attempts.getLast? = some a → LoadedFrom m'.disk (a.blocks, a.utxos) ∧
        m'.disk.Finds a.blocks := by
  have htotal : Total (Whole records)
      (forM attempts fun a => commitChain a.migrated a.blocks a.utxos : StoreM Unit)
      fun _ d => ∀ a, attempts.getLast? = some a → LoadedFrom d (a.blocks, a.utxos) ∧
        d.Finds a.blocks := by
    clear hwhole hfails m
    induction attempts generalizing records with
    | nil =>
      refine .pure ?_
      intro d _ a ha
      cases ha
    | cons a attempts ih =>
      obtain ⟨hchain, hrest⟩ := List.forall_mem_cons.1 hchains
      rw [List.flatMap_cons, ← List.append_assoc] at hstorable
      rw [List.forM_cons]
      refine .bind (commitChain_kept hchain (hstorable.sublist (List.sublist_append_left _ _)))
        fun _ => .pin ?_
      rintro d ⟨missing, hsub, hwhole, -, hloaded⟩
      cases attempts with
      | nil =>
        refine .pure ?_
        rintro d' rfl a' ⟨⟩
        exact hloaded
      | cons next attempts =>
        have hsub' : (records ++ missing ++ (next :: attempts).flatMap fun a => a.blocks).Sublist
            (records ++ a.blocks ++ (next :: attempts).flatMap fun a => a.blocks) :=
          (hsub.append_left records).append_right _
        refine (ih hrest (hstorable.sublist hsub')).imp (fun d' h => h ▸ hwhole) ?_
        intro _ d' h a' ha'
        exact h a' (by rwa [List.getLast?_cons_cons] at ha')
  obtain ⟨_, m', hrun, hlast, -⟩ := htotal m hwhole hfails
  exact ⟨m', hrun, hlast⟩

end Attempt

end

section
attribute [local instance] sampleCrypto

namespace Attempt

/-- Two commits, the second of a longer chain. -/
theorem commits_return_two : ∃ u v m,
    (forM [⟨false, sampleChain 1, u, true⟩, ⟨false, sampleChain 2, v, true⟩] fun a : Attempt =>
      commitChain a.migrated a.blocks a.utxos).run (Machine.start emptyDisk fun _ => none) = .ok () m ∧
    LoadedFrom m.disk (sampleChain 2, v) ∧ m.disk.Finds (sampleChain 2) := by
  obtain ⟨u, hu, -⟩ := sampleChain_ends 0
  obtain ⟨v, hv, -⟩ := sampleChain_ends 1
  have hchains : ∀ a ∈ ([⟨false, sampleChain 1, u, true⟩, ⟨false, sampleChain 2, v, true⟩] :
      List Attempt), Chain a.blocks a.utxos :=
    List.forall_mem_cons.2 ⟨hu.chain, List.forall_mem_singleton.2 hv.chain⟩
  have hstorable : Storable (sampleChain 1 ++ (sampleChain 2 ++ [])) := by
    rw [List.append_nil]
    exact sample_storable.sublist (List.sublist_append_left _ _)
  obtain ⟨m, hrun, hlast⟩ := commits_return (m := .start emptyDisk fun _ => none)
    (fun _ => rfl) emptyDisk_whole hchains hstorable
  exact ⟨u, v, m, hrun, hlast _ rfl⟩

end Attempt

end

end BinaryCoin
