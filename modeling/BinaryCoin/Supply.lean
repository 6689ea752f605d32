/-
  BinaryCoin — the money supply.

  Connecting a block adds its subsidy to the total of the unspent outputs: the
  regular transactions take their fees out, and the coinbase puts subsidy and
  fees back.  The halving series stays below `MAX_MONEY`, so none of the
  overflow guards of the validation code can fire.
-/
import BinaryCoin.VerifyBlocks

namespace BinaryCoin

open Cursor

/-- `TestnetChain::issued_supply`: its loop over the blocks above the genesis block. -/
def issuedSupply (blocks : List StoredBlock) : Except Exn ℤ :=
  blocks.tail.foldlM (fun total stored => do
    let subsidy := blockSubsidy stored.height
    throwIf (total > maxMoney - subsidy) (runtimeError "Issued supply overflow")
    return total + subsidy) 0

/-! ## The halving series -/

/-- The subsidies of the blocks at heights 1 to `height`. -/
def subsidySum (height : ℕ) : ℤ := ∑ h ∈ Finset.Icc 1 height, blockSubsidy (UInt64.ofNat h)

theorem blockSubsidy_nonneg (height : UInt64) : 0 ≤ blockSubsidy height := by
  simp only [blockSubsidy]
  split_ifs
  · rfl
  · rw [Int.shiftRight_eq_div_pow]; exact Int.ediv_nonneg (by decide) (by positivity)

/-- The subsidy after `halvings` halvings, without the cut at 63. -/
def halved (halvings : ℕ) : ℤ := initialSubsidy / 2 ^ halvings

theorem blockSubsidy_le_halved (height : UInt64) :
    blockSubsidy height ≤ halved (height.toNat / testnetHalvingInterval) := by
  simp only [blockSubsidy, halved]
  split_ifs
  · exact Int.ediv_nonneg (by decide) (by positivity)
  · rw [Int.shiftRight_eq_div_pow]; simp

theorem two_mul_halved_succ (q : ℕ) : 2 * halved (q + 1) ≤ halved q := by
  have h : halved (q + 1) = halved q / 2 := by
    rw [halved, pow_succ, halved, Int.ediv_ediv_of_nonneg (by positivity)]
  omega

/-- Every interval of 210,000 blocks costs at most half of what is still allowed: the sum over
    the heights below `n`, plus two intervals at the current subsidy less the part of the interval
    that is past, never grows. -/
theorem subsidy_potential {n : ℕ} (hn : n ≤ 2 ^ 64) :
    (∑ h ∈ Finset.range n, blockSubsidy (UInt64.ofNat h)) +
      (2 * testnetHalvingInterval - (n % testnetHalvingInterval : ℕ)) *
        halved (n / testnetHalvingInterval) ≤ maxMoney := by
  induction n with
  | zero => norm_num [testnetHalvingInterval, halved, initialSubsidy, maxMoney, bitsPerBin]
  | succ n ih =>
    have hle : blockSubsidy (UInt64.ofNat n) ≤ halved (n / testnetHalvingInterval) := by
      have := blockSubsidy_le_halved (UInt64.ofNat n)
      rwa [UInt64.toNat_ofNat_of_lt' (by norm_num [UInt64.size]; omega)] at this
    have ih := ih (by omega)
    rw [Finset.sum_range_succ]
    by_cases hlast : (n + 1) % testnetHalvingInterval = 0
    · -- the last block of its interval: the next one costs half
      have hq : (n + 1) / testnetHalvingInterval = n / testnetHalvingInterval + 1 := by
        simp only [testnetHalvingInterval] at hlast ⊢; omega
      have hr : n % testnetHalvingInterval = testnetHalvingInterval - 1 := by
        simp only [testnetHalvingInterval] at hlast ⊢; omega
      have hhalf := two_mul_halved_succ (n / testnetHalvingInterval)
      rw [hr] at ih
      rw [hlast, hq]
      simp only [testnetHalvingInterval] at ih hle hhalf ⊢
      norm_num at ih ⊢
      linarith
    · have hq : (n + 1) / testnetHalvingInterval = n / testnetHalvingInterval := by
        simp only [testnetHalvingInterval] at hlast ⊢; omega
      have hr : (n + 1) % testnetHalvingInterval = n % testnetHalvingInterval + 1 := by
        simp only [testnetHalvingInterval] at hlast ⊢; omega
      rw [hq, hr, Nat.cast_succ]
      linarith

theorem halved_nonneg (q : ℕ) : 0 ≤ halved q := Int.ediv_nonneg (by decide) (by positivity)

/-- **The halving series never exceeds `MAX_MONEY`.** -/
theorem subsidySum_le {height : ℕ} (h : height < 2 ^ 64) : subsidySum height ≤ maxMoney := by
  have hpot := subsidy_potential (n := height + 1) (by omega)
  have hsub : subsidySum height ≤ ∑ h ∈ Finset.range (height + 1), blockSubsidy (UInt64.ofNat h) := by
    refine Finset.sum_le_sum_of_subset_of_nonneg (fun k hk => ?_) fun k _ _ => blockSubsidy_nonneg _
    rw [Finset.mem_Icc] at hk
    exact Finset.mem_range.2 (by omega)
  have hrest : 0 ≤ (2 * (testnetHalvingInterval : ℤ) -
      ((height + 1) % testnetHalvingInterval : ℕ)) * halved ((height + 1) / testnetHalvingInterval) := by
    refine mul_nonneg ?_ (halved_nonneg _)
    have : (height + 1) % testnetHalvingInterval < testnetHalvingInterval :=
      Nat.mod_lt _ (by decide)
    omega
  linarith

theorem subsidySum_succ {height : ℕ} :
    subsidySum (height + 1) = subsidySum height + blockSubsidy (UInt64.ofNat (height + 1)) :=
  Finset.sum_Icc_succ_top (by omega) _

/-! ## Connecting a block adds its subsidy -/

variable [Crypto]

/-- No coin has a negative value. -/
def NonnegCoins (u : UtxoSet) : Prop :=
  ∀ (o : OutPoint) (coin : Coin), u[o]? = some coin → 0 ≤ coin.output.value

/-- A batch of a well-formed transaction creates no coin of negative value. -/
theorem nonneg_of_batch {t : Transaction} {height : UInt64} {coinbase : Bool} {u u' : UtxoSet}
    (ht : t.Structure) (hu : NonnegCoins u)
    (hrun : Ledger.Run Spendable u.lookup (t.batch height coinbase).events u'.lookup) :
    NonnegCoins u' := by
  intro o coin hcoin
  have hpres := hrun.forall_entry (P := fun coin : Coin => 0 ≤ coin.output.value) fun o coin => hu o coin
  refine hpres (fun o' coin' hc => ?_) hcoin
  have hc : (o', coin') ∈ newCoins t.id height coinbase t.outputs.zipIdx := by
    simp only [Ledger.Batch.events, List.mem_append, List.mem_map] at hc
    rcases hc with ⟨_, -, he⟩ | ⟨p, hp, he⟩
    · cases he
    · cases he; exact hp
  obtain ⟨⟨output, i⟩, hmem, he⟩ := List.mem_map.1 hc
  cases he
  exact (moneyRange_iff.1 (ht.output output (List.fst_mem_of_mem_zipIdx hmem)).1).1

theorem AppliedAll.total {height : UInt64} {ts : List Transaction} {u u' : UtxoSet} {fees : ℤ}
    (h : AppliedAll height u ts fees u') :
    u'.total = u.total - fees ∧ 0 ≤ fees ∧ (NonnegCoins u → NonnegCoins u') := by
  induction h with
  | nil => exact ⟨by omega, le_rfl, id⟩
  | cons head _ ih =>
    obtain ⟨htot, hfees, hnn⟩ := ih
    have := head.total
    have := head.fee_nonneg
    exact ⟨by omega, by omega, fun hu => hnn (nonneg_of_batch head.wellFormed hu head.run)⟩

theorem Connects.total {previous stored : StoredBlock} {index : ℕ} {u u' : UtxoSet}
    (h : Connects previous index stored u u') :
    u'.total = u.total + blockSubsidy stored.height ∧ (NonnegCoins u → NonnegCoins u') := by
  obtain ⟨coinbase, regular, fees, u₁, -, -, hall, hvalue, hadd⟩ := h.body
  obtain ⟨htot, -, hnn⟩ := hall.total
  have := hadd.total
  exact ⟨by omega, fun hu => nonneg_of_batch hadd.wellFormed (hnn hu) hadd.run⟩

/-- The total of an accepted chain's coins is what its blocks were allowed to create. -/
theorem Chain.total {blocks : List StoredBlock} {u : UtxoSet} (h : Chain blocks u) :
    u.total = subsidySum (blocks.length - 1) ∧ NonnegCoins u := by
  induction h using Chain.rec_connects with
  | genesis g _ =>
    refine ⟨OrdMap.total_empty, fun o coin hcoin => ?_⟩
    rw [Std.ExtTreeMap.getElem?_empty] at hcoin
    cases hcoin
  | block blocks previous stored u u' _ _ hconn ih =>
    obtain ⟨htot, hnn⟩ := hconn.total
    refine ⟨?_, hnn ih.2⟩
    have hl : (blocks ++ [previous] ++ [stored]).length - 1 = blocks.length + 1 := by simp
    have hh : UInt64.ofNat (blocks.length + 1) = stored.height := by
      have := hconn.height
      rw [List.length_append, List.length_singleton] at this
      rw [← this, UInt64.ofNat_toNat]
    rw [htot, ih.1, hl, subsidySum_succ, hh]
    simp

theorem issuedSupply_ok {blocks : List StoredBlock} {u : UtxoSet} (h : Chain blocks u) :
    issuedSupply blocks = .ok (subsidySum (blocks.length - 1)) := by
  induction h using Chain.rec_connects with
  | genesis g _ => rfl
  | block blocks previous stored u u' hc hc' hconn ih =>
    have hh : UInt64.ofNat (blocks.length + 1) = stored.height := by
      have := hconn.height
      rw [List.length_append, List.length_singleton] at this
      rw [← this, UInt64.ofNat_toNat]
    have hlen := hc'.length_le
    have hl : (blocks ++ [previous] ++ [stored]).length - 1 = blocks.length + 1 := by simp
    have hsum : subsidySum (blocks.length + 1) ≤ maxMoney := by
      apply subsidySum_le
      simp only [List.length_append, List.length_singleton] at hlen
      omega
    rw [subsidySum_succ, hh] at hsum
    unfold issuedSupply at ih ⊢
    rw [List.tail_append_of_ne_nil (by simp), List.foldlM_append, except_bind_ok]
    refine ⟨_, ih, ?_⟩
    rw [List.foldlM_cons, except_bind_ok]
    refine ⟨_, ?_, rfl⟩
    simp only [except_bind_ok, throwIf_ok, except_pure_ok, exists_and_left, exists_const]
    rw [hl, subsidySum_succ, hh]
    simp only [List.length_append, List.length_singleton, Nat.add_sub_cancel]
    exact ⟨by omega, trivial⟩

/-! ## The overflow guards -/

/-- None of the overflow guards fires while the regular transactions of a block at `height` are
    applied to `u`: each guard, in the state in which its line is reached. -/
structure GuardsSilent (u : UtxoSet) (height : UInt64) (regular : List Transaction) : Prop where
  /-- `input_total > MAX_MONEY - coin.output.value` in `apply_transaction` -/
  inputTotal : ∀ applied t rest fees u₁, regular = applied ++ t :: rest →
    (applyTransactions "Block fee overflow" height 0 applied).run u = .ok fees u₁ →
    ∀ scanned entry pending seen total coin, t.inputs.zipIdx = scanned ++ entry :: pending →
      scanned.foldlM (scanInput t height u₁) ([], 0) = .ok (seen, total) →
      entry.1.previousOutput ∉ seen → u₁[entry.1.previousOutput]? = some coin →
      ¬ total > maxMoney - coin.output.value
  /-- `fees > MAX_MONEY - fee` in `verify_blocks` -/
  fee : ∀ applied t rest fees u₁ fee u₂, regular = applied ++ t :: rest →
    (applyTransactions "Block fee overflow" height 0 applied).run u = .ok fees u₁ →
    (applyTransaction t height).run u₁ = .ok fee u₂ → ¬ fees > maxMoney - fee
  /-- `subsidy > MAX_MONEY - fees` in `verify_blocks` -/
  coinbase : ∀ fees u₁, (applyTransactions "Block fee overflow" height 0 regular).run u = .ok fees u₁ →
    ¬ blockSubsidy height > maxMoney - fees

/-- The inputs scanned so far and the next one are distinct coins of the set. -/
theorem scanned_le_total {t : Transaction} {height : UInt64} {u : UtxoSet}
    {scanned : List (TxInput × ℕ)} {entry : TxInput × ℕ} {seen : List OutPoint} {total : ℤ}
    {coin : Coin} (hu : NonnegCoins u)
    (hs : scanned.foldlM (scanInput t height u) ([], 0) = .ok (seen, total))
    (hnew : entry.1.previousOutput ∉ seen) (hcoin : u[entry.1.previousOutput]? = some coin) :
    total + coin.output.value ≤ u.total := by
  obtain ⟨rfl, -, hnodup, -, rfl⟩ := foldlM_scanInput_ok hs
  have hkeys : (entry.1.previousOutput :: scanned.map fun e => e.1.previousOutput).Nodup :=
    List.nodup_cons.2 ⟨by simpa using hnew, hnodup⟩
  have hsum := OrdMap.sum_le_total hu hkeys
  have hval : (scanned.map fun e => u.valueAt e.1.previousOutput) =
      (scanned.map fun e => e.1.previousOutput).map fun o =>
        (u[o]?.map fun coin => coin.output.value).getD 0 := by
    rw [List.map_map]; rfl
  simp only [List.map_cons, List.sum_cons, hcoin, Option.map_some, Option.getD_some] at hsum
  rw [hval, UtxoSet.total]
  omega

theorem guardsSilent {u : UtxoSet} {height : UInt64} (hu : NonnegCoins u)
    (htotal : u.total + blockSubsidy height ≤ maxMoney) (regular : List Transaction) :
    GuardsSilent u height regular := by
  have hsub := blockSubsidy_nonneg height
  refine ⟨?_, ?_, ?_⟩
  · intro applied t rest fees u₁ _ happly scanned entry pending seen total coin _ hs hnew hcoin
    obtain ⟨htot, hfees, hnn⟩ := (applyTransactions_ok happly).1.total
    have := scanned_le_total (hnn hu) hs hnew hcoin
    omega
  · intro applied t rest fees u₁ fee u₂ _ happly ht
    obtain ⟨htot, hfees, hnn⟩ := (applyTransactions_ok happly).1.total
    have h := applyTransaction_ok ht
    have hnn₂ := OrdMap.total_nonneg (nonneg_of_batch h.wellFormed (hnn hu) h.run)
    have := h.total
    simp only [UtxoSet.total] at *
    omega
  · intro fees u₁ happly
    obtain ⟨htot, -, hnn⟩ := (applyTransactions_ok happly).1.total
    have hnn₁ := OrdMap.total_nonneg (hnn hu)
    simp only [UtxoSet.total] at *
    omega

/-- **Supply conservation**: the coins of an accepted chain are worth exactly the subsidies of its
    blocks, at most `MAX_MONEY` whatever the height, and none of the overflow guards can fire on a
    block connected to it. -/
theorem supply_conservation {blocks : List StoredBlock} (h : verifyBlocks blocks = .ok ()) :
    (∃ u, buildUtxoSet blocks = .ok u ∧ u.total = subsidySum (blocks.length - 1) ∧
      issuedSupply blocks = .ok u.total ∧
      ∀ (height : UInt64) (regular : List Transaction), height.toNat = blocks.length →
        GuardsSilent u height regular) ∧
    ∀ height : ℕ, height < 2 ^ 64 → subsidySum height ≤ maxMoney := by
  obtain ⟨u, hc⟩ := verifyBlocks_iff.1 h
  obtain ⟨htotal, hnn⟩ := hc.total
  refine ⟨⟨u, hc.build, htotal, htotal ▸ issuedSupply_ok hc, fun height regular hheight => ?_⟩,
    fun height hh => subsidySum_le hh⟩
  have hpos : 0 < blocks.length := List.length_pos_of_ne_nil hc.ne_nil
  have hlen := hc.length_le
  have hsucc := @subsidySum_succ (blocks.length - 1)
  rw [Nat.sub_add_cancel hpos, ← hheight, UInt64.ofNat_toNat, hheight] at hsucc
  have hle := @subsidySum_le blocks.length (by omega)
  exact guardsSilent hnn (by omega) regular

end BinaryCoin
