/-
  BinaryCoin — chain.cpp: `TestnetChain::reindex` on any block file.

  Whatever records the file holds, the walk back from every block ends, and the
  branch that is kept has at least the work of every chain that the records
  make.
-/
import BinaryCoin.BlockFile
import BinaryCoin.Locator
import BinaryCoin.Lib.Best

namespace BinaryCoin

open Cursor Std Best

/-- The store with the scan of its block file. -/
def withBlockFile [Crypto] {σ : Type} (S : ChainStore σ) (blockFile : σ → Option BlockFile) :
    ChainStore σ :=
  { S with scanAllBlocks := do scanAllBlocks (blockFile (← get)) }

section
variable [Crypto] {records blocks branch : List StoredBlock} {byHash : ExtTreeMap Str StoredBlock}
  {current : StoredBlock} {visited : List Str} {rounds : ℕ} {u : UtxoSet}

/-! ## The index -/

/-- The map holds the records by hash. -/
def Indexed (records : List StoredBlock) (byHash : ExtTreeMap Str StoredBlock) : Prop :=
  ∀ (hash : Str) (block : StoredBlock),
    byHash[hash]? = some block ↔ block ∈ records ∧ block.hashHex = .ok hash

theorem indexByHash_ok (h : DistinctHashes records) :
    ∃ byHash, indexByHash records = .ok byHash ∧ Indexed records byHash := by
  induction records using List.reverseRecOn with
  | nil =>
    refine ⟨∅, rfl, fun hash block => ?_⟩
    rw [ExtTreeMap.getElem?_empty]
    simp
  | append_singleton records last ih =>
    have hinit : DistinctHashes records :=
      ⟨fun b hb => h.hash b (List.mem_append_left _ hb), fun a ha b hb =>
        h.inj a (List.mem_append_left _ ha) b (List.mem_append_left _ hb)⟩
    obtain ⟨byHash, hindex, hindexed⟩ := ih hinit
    have hmem : last ∈ records ++ [last] := by simp
    obtain ⟨hash, hhash⟩ := h.hash last hmem
    refine ⟨byHash.insertIfNew hash last, ?_, fun hash' block => ?_⟩
    · rw [indexByHash, List.foldlM_append]
      refine except_bind_ok.2 ⟨byHash, hindex, ?_⟩
      rw [List.foldlM_cons]
      exact except_bind_ok.2 ⟨_, except_bind_ok.2 ⟨hash, hhash, rfl⟩, rfl⟩
    · rw [OrdMap.getElem?_insertIfNew_eq, List.mem_append, List.mem_singleton]
      split_ifs with hnew
      · obtain ⟨rfl, hnone⟩ := hnew
        constructor
        · intro heq
          obtain rfl := Option.some.inj heq
          exact ⟨.inr rfl, hhash⟩
        · rintro ⟨hold | rfl, hblock⟩
          · rw [(hindexed hash' block).2 ⟨hold, hblock⟩] at hnone
            cases hnone
          · rfl
      · rw [hindexed]
        constructor
        · rintro ⟨hold, hblock⟩
          exact ⟨.inl hold, hblock⟩
        · rintro ⟨hold | rfl, hblock⟩
          · exact ⟨hold, hblock⟩
          · obtain rfl : hash = hash' := Except.ok.inj (hhash.symm.trans hblock)
            obtain ⟨other, hother⟩ := Option.ne_none_iff_exists'.1 fun hnone => hnew ⟨rfl, hnone⟩
            obtain ⟨hold, hsame⟩ := (hindexed hash other).1 hother
            obtain rfl := h.inj other (List.mem_append_left _ hold) block hmem (hsame.trans hblock.symm)
            exact ⟨hold, hblock⟩

theorem Indexed.mem_values (h : Indexed records byHash) (hdistinct : DistinctHashes records)
    {block : StoredBlock} : block ∈ byHash.values ↔ block ∈ records := by
  rw [OrdMap.mem_values]
  constructor
  · rintro ⟨hash, hfound⟩
    exact ((h hash block).1 hfound).1
  · intro hmem
    obtain ⟨hash, hhash⟩ := hdistinct.hash block hmem
    exact ⟨hash, (h hash block).2 ⟨hmem, hhash⟩⟩

/-! ## The walk back -/

/-- **The walk** from a record ends at some branch of records. -/
theorem walkBack_total (rounds : ℕ) (visited : List Str) (hindexed : Indexed records byHash) (hdistinct : DistinctHashes records)
    (hcurrent : current ∈ records) (hbranch : ∀ b ∈ branch, b ∈ records) :
    ∃ result complete, walkBack byHash rounds visited branch current = .ok (result, complete) ∧
      ∀ b ∈ result, b ∈ records := by
  induction rounds generalizing visited branch current with
  | zero => exact ⟨branch, false, rfl, hbranch⟩
  | succ rounds ih =>
    obtain ⟨hash, hhash⟩ := hdistinct.hash current hcurrent
    have hcons : ∀ b ∈ current :: branch, b ∈ records := List.forall_mem_cons.2 ⟨hcurrent, hbranch⟩
    rw [walkBack, hhash, except_ok_bind]
    split_ifs with hvisited hgenesis
    · exact ⟨branch, false, rfl, hbranch⟩
    · exact ⟨current :: branch, true, rfl, hcons⟩
    · cases hparent : byHash[current.block.header.previousHash]? with
      | none => exact ⟨current :: branch, false, rfl, hcons⟩
      | some parent => exact ih _ ((hindexed _ _).1 hparent).1 hcons

/-- **The rounds are enough**: every one of them takes another record. -/
theorem walkBack_enough (hindexed : Indexed records byHash) (hdistinct : DistinctHashes records)
    (hcurrent : current ∈ records) (hnodup : visited.Nodup)
    (hvisited : ∀ hash ∈ visited, ∃ block, byHash[hash]? = some block)
    (hrounds : byHash.size < rounds + visited.length) (extra : ℕ) :
    walkBack byHash (rounds + extra) visited branch current =
      walkBack byHash rounds visited branch current := by
  induction rounds generalizing visited branch current with
  | zero =>
    have hle := OrdMap.length_le_size hnodup hvisited
    omega
  | succ rounds ih =>
    obtain ⟨hash, hhash⟩ := hdistinct.hash current hcurrent
    rw [Nat.succ_add, walkBack, walkBack, hhash, except_ok_bind, except_ok_bind]
    split_ifs with hseen hgenesis
    · rfl
    · rfl
    · cases hparent : byHash[current.block.header.previousHash]? with
      | none => rfl
      | some parent =>
        refine ih ((hindexed _ _).1 hparent).1 (List.nodup_cons.2 ⟨hseen, hnodup⟩) ?_ ?_
        · exact List.forall_mem_cons.2 ⟨⟨current, (hindexed _ _).2 ⟨hcurrent, hhash⟩⟩, hvisited⟩
        · rw [List.length_cons]
          omega

/-- Equal blocks of a chain are at one height. -/
theorem Chain.index_of_block (h : Chain blocks u) {i j : ℕ} {block : StoredBlock}
    (hi : blocks[i]? = some block) (hj : blocks[j]? = some block) : i = j := by
  rw [← h.height i block hi, h.height j block hj]

/-- **The walk along a chain** comes back to its genesis block. -/
theorem walkBack_chain (hindexed : Indexed records byHash) (hdistinct : DistinctHashes records)
    (hchain : Chain blocks u) (hfound : ∀ b ∈ blocks, b ∈ records) {below : List StoredBlock}
    (hblocks : blocks = below ++ current :: branch) (hrounds : below.length < rounds)
    (hvisited : ∀ hash ∈ visited, ∃ b ∈ branch, b.hashHex = .ok hash) :
    walkBack byHash rounds visited branch current = .ok (blocks, true) := by
  have hat : ∀ (before : List StoredBlock) {after : List StoredBlock} {b : StoredBlock},
      blocks = before ++ b :: after →
      b ∈ blocks ∧ blocks[before.length]? = some b := by
    rintro before after b rfl
    exact ⟨by simp, by simp⟩
  induction below using List.reverseRecOn generalizing rounds visited branch current with
  | nil =>
    obtain ⟨rounds, rfl⟩ : ∃ n, rounds = n + 1 := ⟨rounds - 1, by omega⟩
    obtain ⟨hmem, hzero⟩ := hat [] hblocks
    obtain ⟨genesis, rest, hcons, hgenesis⟩ := hchain.genesis_head
    obtain ⟨rfl, -⟩ := List.cons.inj (hcons.symm.trans hblocks)
    have hhash := hgenesis.isGenesis.hash
    have hnew : testnetGenesisHash ∉ visited := by
      intro hseen
      obtain ⟨b, hb, hbhash⟩ := hvisited _ hseen
      have hbmem : b ∈ blocks := by
        rw [hblocks]
        simp [hb]
      obtain rfl := hdistinct.inj b (hfound b hbmem) genesis (hfound genesis hmem)
        (hbhash.trans hhash.symm)
      obtain ⟨before, after, hsplit⟩ := List.append_of_mem hb
      have hlater := hat (_ :: before) (by rw [hblocks, hsplit]; rfl)
      have hindex := hchain.index_of_block hzero hlater.2
      cases hindex
    rw [walkBack, hhash, except_ok_bind, if_neg hnew, if_pos rfl, hblocks]
    rfl
  | append_singleton below parent ih =>
    obtain ⟨rounds, rfl⟩ : ∃ n, rounds = n + 1 := ⟨rounds - 1, by omega⟩
    have hparents : blocks = below ++ parent :: current :: branch := by
      rw [hblocks, List.append_assoc]
      rfl
    obtain ⟨hmem, hindex⟩ := hat _ hblocks
    obtain ⟨hparent, hparentIndex⟩ := hat _ hparents
    obtain ⟨hash, hhash⟩ := hdistinct.hash current (hfound current hmem)
    have hnew : hash ∉ visited := by
      intro hseen
      obtain ⟨b, hb, hbhash⟩ := hvisited _ hseen
      have hbmem : b ∈ blocks := by
        rw [hblocks]
        simp [hb]
      obtain rfl := hdistinct.inj b (hfound b hbmem) current (hfound current hmem)
        (hbhash.trans hhash.symm)
      obtain ⟨before, after, hsplit⟩ := List.append_of_mem hb
      rw [hsplit, ← List.cons_append, ← List.append_assoc] at hblocks
      have hlater := hat _ hblocks
      have hsame := hchain.index_of_block hindex hlater.2
      simp only [List.length_append, List.length_cons] at hsame
      omega
    have hother : hash ≠ testnetGenesisHash := by
      rintro rfl
      obtain ⟨genesis, rest, hcons, hgenesis⟩ := hchain.genesis_head
      obtain ⟨hgmem, hzero⟩ := hat [] hcons
      obtain rfl := hdistinct.inj genesis (hfound genesis hgmem) current (hfound current hmem)
        (hgenesis.isGenesis.hash.trans hhash.symm)
      have hsame := hchain.index_of_block hzero hindex
      simp at hsame
    have hlink : parent.hashHex = .ok current.block.header.previousHash := by
      refine hchain.link hparentIndex ?_
      rw [List.length_append, List.length_singleton] at hindex
      exact hindex
    have hnext : byHash[current.block.header.previousHash]? = some parent :=
      (hindexed _ _).2 ⟨hfound parent hparent, hlink⟩
    rw [walkBack, hhash, except_ok_bind, if_neg hnew, if_neg hother, hnext]
    refine ih hparents ?_ ?_
    · rw [List.length_append, List.length_singleton] at hrounds
      omega
    · refine List.forall_mem_cons.2 ⟨⟨current, by simp, hhash⟩, fun hash' hseen => ?_⟩
      obtain ⟨b, hb, hbhash⟩ := hvisited hash' hseen
      exact ⟨b, List.mem_cons_of_mem _ hb, hbhash⟩

/-! ## The choice -/

/-- The branch behind a tip and its work, where it comes from the genesis block and is valid. -/
def candidateOf (byHash : ExtTreeMap Str StoredBlock) (tip : StoredBlock) :
    Option (List StoredBlock × ℤ) :=
  match walkBack byHash (byHash.size + 1) [] [] tip with
  | .ok (branch, true) =>
    match (do verifyBlocks branch; calculateChainwork branch) with
    | .ok work => some (branch, (work : ℤ))
    | .error _ => none
  | _ => none

/-- A tip is considered as a candidate for the best branch. -/
theorem considerTip_eq (hindexed : Indexed records byHash) (hdistinct : DistinctHashes records)
    {tip : StoredBlock} (htip : tip ∈ records) (best : List StoredBlock × ℤ) :
    considerTip byHash best tip = .ok (better (candidateOf byHash) best tip) := by
  obtain ⟨branch, complete, hwalk, -⟩ := walkBack_total (byHash.size + 1) [] hindexed hdistinct htip (List.forall_mem_nil _)
  rw [considerTip, hwalk, except_ok_bind, better, candidateOf, hwalk]
  cases complete with
  | false => rfl
  | true =>
    dsimp only
    rw [if_neg (not_not.2 rfl)]
    cases (do verifyBlocks branch; calculateChainwork branch : Except Exn ℕ) with
    | error e => rfl
    | ok work => rfl

theorem foldlM_considerTip (hindexed : Indexed records byHash) (hdistinct : DistinctHashes records)
    {tips : List StoredBlock} (htips : ∀ tip ∈ tips, tip ∈ records) (best : List StoredBlock × ℤ) :
    tips.foldlM (considerTip byHash) best = .ok (pick (candidateOf byHash) best tips) := by
  induction tips generalizing best with
  | nil => rfl
  | cons tip tips ih =>
    obtain ⟨htip, htips⟩ := List.forall_mem_cons.1 htips
    rw [List.foldlM_cons, considerTip_eq hindexed hdistinct htip, except_ok_bind]
    exact ih htips _

/-- What the blocks of the file make: a chain from the genesis block on that is accepted. -/
structure FoundChain (records blocks : List StoredBlock) : Prop where
  found : ∀ block ∈ blocks, block ∈ records
  genesis : ∃ genesis, blocks.head? = some genesis ∧ genesis.hashHex = .ok testnetGenesisHash
  linked : ∀ (i : ℕ) (a b : StoredBlock), blocks[i]? = some a → blocks[i + 1]? = some b →
    a.hashHex = .ok b.block.header.previousHash
  accepted : verifyBlocks blocks = .ok ()

/-- What is accepted is linked. -/
theorem FoundChain.of_accepted (hfound : ∀ block ∈ blocks, block ∈ records)
    (haccepted : verifyBlocks blocks = .ok ()) : FoundChain records blocks := by
  obtain ⟨u, hchain⟩ := verifyBlocks_iff.1 haccepted
  obtain ⟨genesis, rest, hcons, hgenesis⟩ := hchain.genesis_head
  refine ⟨hfound, ⟨genesis, by rw [hcons]; rfl, hgenesis.isGenesis.hash⟩, ?_, haccepted⟩
  intro i a b ha hb
  exact hchain.link ha hb

/-- **A found chain is a candidate**, as the branch of its last block. -/
theorem FoundChain.candidate (hindexed : Indexed records byHash) (hdistinct : DistinctHashes records)
    (h : FoundChain records blocks) : ∃ tip ∈ records, ∃ work : ℕ,
      calculateChainwork blocks = .ok work ∧
      candidateOf byHash tip = some (blocks, (work : ℤ)) := by
  obtain ⟨u, hchain⟩ := verifyBlocks_iff.1 h.accepted
  obtain ⟨below, tip, hblocks⟩ : ∃ below tip, blocks = below ++ [tip] :=
    ⟨_, _, (List.dropLast_append_getLast hchain.ne_nil).symm⟩
  have htip : tip ∈ blocks := by
    rw [hblocks]
    simp
  have hvalues : ∀ b ∈ blocks, b ∈ byHash.values := fun b hb =>
    (hindexed.mem_values hdistinct).2 (h.found b hb)
  have hlength : below.length < byHash.size + 1 := by
    have hnodup : blocks.Nodup := by
      refine List.nodup_iff_getElem?_ne_getElem?.2 fun i j hij hj heq => ?_
      have hsame := hchain.index_of_block (List.getElem?_eq_getElem (hij.trans hj))
        (heq ▸ List.getElem?_eq_getElem (hij.trans hj))
      omega
    have hle := OrdMap.length_le_size_of_values hnodup hvalues
    rw [hblocks, List.length_append, List.length_singleton] at hle
    omega
  have hwalk : walkBack byHash (byHash.size + 1) [] [] tip = .ok (blocks, true) :=
    walkBack_chain hindexed hdistinct hchain h.found hblocks hlength (List.forall_mem_nil _)
  refine ⟨tip, h.found tip htip, _, hchain.work, ?_⟩
  rw [candidateOf, hwalk]
  dsimp only
  rw [h.accepted, except_ok_bind, hchain.work]

/-- A candidate is a found chain. -/
theorem foundChain_of_candidate (hindexed : Indexed records byHash)
    (hdistinct : DistinctHashes records) {tip : StoredBlock} (htip : tip ∈ records)
    {best : List StoredBlock × ℤ} (h : candidateOf byHash tip = some best) :
    FoundChain records best.1 ∧ ∃ work : ℕ, calculateChainwork best.1 = .ok work ∧ best.2 = work := by
  obtain ⟨branch, complete, hwalk, hbranch⟩ := walkBack_total (byHash.size + 1) [] hindexed hdistinct htip (List.forall_mem_nil _)
  rw [candidateOf, hwalk] at h
  cases complete with
  | false => cases h
  | true =>
    dsimp only at h
    cases hwork : (do verifyBlocks branch; calculateChainwork branch : Except Exn ℕ) with
    | error e =>
      rw [hwork] at h
      cases h
    | ok work =>
      rw [hwork] at h
      obtain rfl := Option.some.inj h
      obtain ⟨_, haccepted, hwork⟩ := except_bind_ok.1 hwork
      exact ⟨.of_accepted hbranch haccepted, work, hwork, rfl⟩

/-- **The best branch** is a found chain, and none has more work. -/
theorem bestBranch_best (hdistinct : DistinctHashes records) (h : ∃ blocks, FoundChain records blocks) :
    ∃ best work, bestBranch records = .ok best ∧ FoundChain records best ∧
      calculateChainwork best = .ok work ∧
      ∀ blocks, FoundChain records blocks → ∃ w ≤ work, calculateChainwork blocks = .ok w := by
  obtain ⟨blocks, hblocks⟩ := h
  obtain ⟨byHash, hindex, hindexed⟩ := indexByHash_ok hdistinct
  have hvalues : ∀ tip ∈ byHash.values, tip ∈ records := fun tip htip =>
    (hindexed.mem_values hdistinct).1 htip
  have hfold := foldlM_considerTip hindexed hdistinct hvalues ([], -1)
  have hall : ∀ blocks, FoundChain records blocks → ∃ w : ℕ, calculateChainwork blocks = .ok w ∧
      (w : ℤ) ≤ (pick (candidateOf byHash) ([], -1) byHash.values).2 := by
    intro blocks hblocks
    obtain ⟨tip, htip, w, hw, hcandidate⟩ := hblocks.candidate hindexed hdistinct
    exact ⟨w, hw, candidate_le_pick ((hindexed.mem_values hdistinct).2 htip) hcandidate⟩
  obtain ⟨w, -, hw⟩ := hall blocks hblocks
  rcases pick_cases (candidateOf byHash) ([], -1) byHash.values with
    hnone | ⟨tip, htip, hcandidate⟩
  · rw [hnone] at hw
    dsimp only at hw
    omega
  obtain ⟨hbest, work, hwork, heq⟩ := foundChain_of_candidate hindexed hdistinct (hvalues tip htip)
    hcandidate
  refine ⟨_, work, ?_, hbest, hwork, fun blocks hblocks => ?_⟩
  · have hne : (pick (candidateOf byHash) ([], -1) byHash.values).1 ≠ [] := by
      obtain ⟨u, hchain⟩ := verifyBlocks_iff.1 hbest.accepted
      exact hchain.ne_nil
    obtain ⟨genesis, hhead, hgenesis⟩ := hblocks.genesis
    have hmem : genesis ∈ records := hblocks.found genesis (List.mem_of_mem_head? hhead)
    have hstored : ¬ (byHash[testnetGenesisHash]?.isNone : Prop) := by
      rw [(hindexed _ _).2 ⟨hmem, hgenesis⟩]
      exact Bool.false_ne_true
    refine except_bind_ok.2 ⟨(), throwIf_ok.2 (List.ne_nil_of_mem hmem), ?_⟩
    refine except_bind_ok.2 ⟨byHash, hindex, except_bind_ok.2 ⟨(), throwIf_ok.2 hstored, ?_⟩⟩
    exact except_bind_ok.2 ⟨_, hfold, except_bind_ok.2 ⟨(), throwIf_ok.2 hne, rfl⟩⟩
  · obtain ⟨w, hw, hle⟩ := hall blocks hblocks
    rw [heq] at hle
    exact ⟨w, Int.ofNat_le.1 hle, hw⟩

/-- What is kept is a found chain. -/
theorem bestBranch_found (hdistinct : DistinctHashes records) {best : List StoredBlock}
    (h : bestBranch records = .ok best) : FoundChain records best := by
  obtain ⟨byHash, hindex, hindexed⟩ := indexByHash_ok hdistinct
  have hvalues : ∀ tip ∈ byHash.values, tip ∈ records := fun tip htip =>
    (hindexed.mem_values hdistinct).1 htip
  have hfold := foldlM_considerTip hindexed hdistinct hvalues ([], -1)
  simp only [bestBranch, except_bind_ok, throwIf_ok, except_pure_ok] at h
  obtain ⟨_, -, byHash', hindex', _, -, result, hresult, _, hne, rfl⟩ := h
  obtain rfl := Except.ok.inj (hindex.symm.trans hindex')
  obtain rfl := Except.ok.inj (hfold.symm.trans hresult)
  rcases pick_cases (candidateOf byHash) ([], -1) byHash.values with
    hnone | ⟨tip, htip, hcandidate⟩
  · rw [hnone] at hne
    exact absurd rfl hne
  · exact (foundChain_of_candidate hindexed hdistinct (hvalues tip htip) hcandidate).1

/-! ## The member function -/

namespace TestnetChain
variable {σ : Type} (S : ChainStore σ) (blockFile : σ → Option BlockFile) (s : TestnetChain σ)

/-- **`reindex` selects a best valid chain** among the blocks that the scan of the file finds. -/
theorem reindex_best : ∃ records, scanAllBlocks (blockFile s.storage) = .ok records ∧
    (∀ byHash, indexByHash records = .ok byHash → ∀ tip ∈ records, ∀ extra,
      walkBack byHash (byHash.size + 1 + extra) [] [] tip =
        walkBack byHash (byHash.size + 1) [] [] tip) ∧
    ((∃ blocks, FoundChain records blocks) → ∃ best utxos work, FoundChain records best ∧
      buildUtxoSet best = .ok utxos ∧ calculateChainwork best = .ok work ∧
      (∀ blocks, FoundChain records blocks → ∃ w ≤ work, calculateChainwork blocks = .ok w) ∧
      ∀ storage, (S.commit best utxos).run s.storage = .ok () storage →
        (reindex (withBlockFile S blockFile)).run s =
          .ok () { s with storage := storage, blocks := best, utxos := utxos }) ∧
    ((¬ ∃ blocks, FoundChain records blocks) →
      ∃ e s', (reindex (withBlockFile S blockFile)).run s = .error e s') := by
  obtain ⟨records, hscan, hdistinct⟩ := scanAllBlocks_ok (blockFile s.storage)
  have hstorage : ∀ found r, (withBlockFile S blockFile).scanAllBlocks.run s.storage = .ok found r ↔
      records = found ∧ s.storage = r := by
    intro found r
    simp only [withBlockFile, run_bind_ok, run_get_ok, lift_run_ok]
    constructor
    · rintro ⟨_, _, ⟨rfl, rfl⟩, hfound, rfl⟩
      exact ⟨Except.ok.inj (hscan.symm.trans hfound), rfl⟩
    · rintro ⟨rfl, rfl⟩
      exact ⟨_, _, ⟨rfl, rfl⟩, hscan, rfl⟩
  refine ⟨records, hscan, ?_, ?_, ?_⟩
  · intro byHash hindex tip htip extra
    obtain ⟨byHash', hindex', hindexed⟩ := indexByHash_ok hdistinct
    obtain rfl := Except.ok.inj (hindex.symm.trans hindex')
    exact walkBack_enough hindexed hdistinct htip List.nodup_nil (List.forall_mem_nil _)
      (Nat.lt_succ_self _) extra
  · intro hexists
    obtain ⟨best, work, hbest, hfound, hwork, hmost⟩ := bestBranch_best hdistinct hexists
    obtain ⟨u, hchain⟩ := verifyBlocks_iff.1 hfound.accepted
    refine ⟨best, u, work, hfound, hchain.build, hwork, hmost, fun storage hcommit => ?_⟩
    simp only [reindex, run_bind_ok, onStorage_run_ok, lift_run_ok, setBlocks_run_ok, rebuild_ok, save,
      run_get_ok, hstorage]
    exact ⟨records, s, ⟨s.storage, ⟨rfl, rfl⟩, rfl⟩, best, s, ⟨hbest, rfl⟩, (), _, rfl, (), _,
      ⟨u, hchain.build, rfl⟩, _, _, ⟨rfl, rfl⟩, storage, hcommit, rfl⟩
  · intro hnone
    cases hrun : (reindex (withBlockFile S blockFile)).run s with
    | error e s' => exact ⟨e, s', rfl⟩
    | ok x s' =>
      simp only [reindex, run_bind_ok, onStorage_run_ok, lift_run_ok, hstorage] at hrun
      obtain ⟨_, _, ⟨_, ⟨rfl, -⟩, -⟩, best, _, ⟨hbest, -⟩, -⟩ := hrun
      exact absurd ⟨best, bestBranch_found hdistinct hbest⟩ hnone

end TestnetChain

end

end BinaryCoin
