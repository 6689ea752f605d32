/-
  BinaryCoin — net.cpp: block locators.

  The first hashes of a locator are those of the last blocks; then the steps
  double.  A step is a `size_t`, but the genesis block is reached before it
  overflows, and before the locator is full.
-/
import BinaryCoin.Messages
import BinaryCoin.Reorganization

namespace BinaryCoin

section
variable [Crypto]

/-- `blocks[index].block.header.hash_hex()` -/
def hashAt (blocks : List StoredBlock) (index : ℕ) : Except Exn Str := do
  let stored ← orThrow blocks[index]? (outOfRange "vector")
  stored.hashHex

/-- `step *= 2` where the locator has more than ten hashes -/
def nextStep (size step : ℕ) : ℕ := if size > 10 then step * 2 % 2 ^ 64 else step

/-- The loop of `make_block_locator`. -/
def locatorLoop (blocks : List StoredBlock) (index step : ℕ) (locator : List Str) :
    Except Exn (List Str) :=
  match hashAt blocks index with
  | .error e => .error e
  | .ok hash =>
    if index = 0 ∨ locator.length + 1 ≥ 101 then .ok (locator ++ [hash])
    else
      locatorLoop blocks
        (if index > nextStep (locator.length + 1) step then index - nextStep (locator.length + 1) step
          else 0)
        (nextStep (locator.length + 1) step) (locator ++ [hash])
termination_by 101 - locator.length
decreasing_by
  rw [List.length_append, List.length_singleton]
  omega

def makeBlockLocator (blocks : List StoredBlock) : Except Exn (List Str) := do
  if blocks = [] then return []
  let locator ← locatorLoop blocks (blocks.length - 1) 1 []
  let genesis ← hashAt blocks 0
  if locator.getLast? ≠ some genesis then return locator ++ [genesis]
  return locator

/-- The inner loop of `locate_fork_index`, from `index` down. -/
def searchBelow (blocks : List StoredBlock) (hash : Str) : ℕ → Except Exn (Option ℕ)
  | 0 => return none
  | index + 1 => do
    if (← hashAt blocks index) = hash then return some index
    searchBelow blocks hash index

def locateForkIndex (blocks : List StoredBlock) : List Str → Except Exn ℕ
  | [] => return 0
  | hash :: locator => do
    match ← searchBelow blocks hash blocks.length with
    | some index => return index
    | none => locateForkIndex blocks locator

/-! ## The steps -/

/-- The loop before it takes `index`, `size` hashes being taken already, the first at `tip`. -/
structure Stride (tip index step size : ℕ) : Prop where
  index_le : index ≤ tip
  early : size ≤ 10 → step = 1 ∧ tip = index + size
  late : 10 ≤ size → step = 2 ^ (size - 10) ∧ tip = index + (8 + 2 ^ (size - 9))
  dense : 2 * step ≤ tip - index + 2

section
omit [Crypto]
variable {tip index step size : ℕ}

theorem Stride.init (tip : ℕ) : Stride tip tip 1 0 :=
  ⟨le_rfl, fun _ => ⟨rfl, rfl⟩, fun h => absurd h (by decide), by omega⟩

/-- A chain that fits into memory is passed in few steps. -/
theorem Stride.size_lt (h : Stride tip index step size) (htip : tip < 2 ^ 64) : size < 73 := by
  by_contra hlarge
  obtain ⟨-, hdepth⟩ := h.late (by omega)
  have hpow : 2 ^ 64 ≤ 2 ^ (size - 9) := Nat.pow_le_pow_right (by decide) (by omega)
  omega

/-- The step does not overflow, and is at most what the density allows. -/
theorem Stride.bounds (h : Stride tip index step size) (htip : tip < 2 ^ 64) :
    0 < nextStep (size + 1) step ∧ nextStep (size + 1) step ≤ tip - index + 2 ∧
      (size < 10 → nextStep (size + 1) step = 1) ∧
      (10 ≤ size → nextStep (size + 1) step = 2 ^ (size - 9)) := by
  have hdense := h.dense
  by_cases hsize : 10 ≤ size
  · obtain ⟨hstep, -⟩ := h.late hsize
    have hlt := h.size_lt htip
    have hdouble : step * 2 = 2 ^ (size - 9) := by
      rw [hstep, ← pow_succ]
      congr 1
      omega
    have hmod : step * 2 % 2 ^ 64 = 2 ^ (size - 9) := by
      rw [hdouble, Nat.mod_eq_of_lt (Nat.pow_lt_pow_right (by decide) (by omega))]
    have hnext : nextStep (size + 1) step = 2 ^ (size - 9) := by
      rw [nextStep, if_pos (by omega), hmod]
    have hpos : 0 < 2 ^ (size - 9) := Nat.two_pow_pos _
    exact ⟨by omega, by omega, fun hlt => absurd hsize (Nat.not_le.2 hlt), fun _ => hnext⟩
  · obtain ⟨hstep, -⟩ := h.early (by omega)
    have hnext : nextStep (size + 1) step = 1 := by
      rw [nextStep, if_neg (by omega), hstep]
    exact ⟨by omega, by omega, fun _ => hnext, fun hge => absurd hge hsize⟩

theorem Stride.next (h : Stride tip index step size) (htip : tip < 2 ^ 64)
    (hlt : nextStep (size + 1) step < index) :
    Stride tip (index - nextStep (size + 1) step) (nextStep (size + 1) step)
      (size + 1) := by
  obtain ⟨hpos, hle, hearly, hlate⟩ := h.bounds htip
  have hindex := h.index_le
  refine ⟨by omega, fun hsize => ?_, fun hsize => ?_, by omega⟩
  · obtain ⟨-, hdepth⟩ := h.early (by omega)
    have hone := hearly (by omega)
    exact ⟨hone, by omega⟩
  · by_cases heq : size = 9
    · obtain ⟨-, hdepth⟩ := h.early (by omega)
      have hone := hearly (by omega)
      subst heq
      exact ⟨hone, by omega⟩
    · obtain ⟨-, hdepth⟩ := h.late (by omega)
      have hstep := hlate (by omega)
      have hpow : 2 ^ (size + 1 - 9) = 2 ^ (size - 9) + 2 ^ (size - 9) := by
        rw [← Nat.two_mul, ← pow_succ']
        congr 1
        omega
      refine ⟨?_, by omega⟩
      rw [hstep]
      congr 1

/-- The indices of a locator, from `index` down: where a block is not among them, the next one
    below is at most twice as deep under the tip. -/
structure LocatorIndices (tip index : ℕ) (indices : List ℕ) : Prop where
  head : indices.head? = some index
  last : indices.getLast? = some 0
  decreasing : indices.Pairwise (· > ·)
  dense : ∀ f ≤ index, ∃ i ∈ indices, i ≤ f ∧ (∀ j ∈ indices, j ≤ f → j ≤ i) ∧
    tip - i ≤ 2 * (tip - f)

theorem LocatorIndices.genesis (tip : ℕ) : LocatorIndices tip 0 [0] := by
  refine ⟨rfl, rfl, List.pairwise_singleton _ _, fun f hf => ⟨0, by simp, Nat.zero_le f, ?_, ?_⟩⟩
  · intro j hj _
    rw [List.mem_singleton.1 hj]
  · omega

theorem LocatorIndices.cons {below : ℕ} {indices : List ℕ} (h : LocatorIndices tip below indices)
    (hlt : below < index) (hle : index ≤ tip) (hdense : tip - below ≤ 2 * (tip - index) + 2) :
    LocatorIndices tip index (index :: indices) := by
  obtain ⟨rest, rfl⟩ : ∃ rest, indices = below :: rest := by
    obtain ⟨rest, hrest⟩ := List.head?_eq_some_iff.1 h.head
    exact ⟨rest, hrest⟩
  have hbelow : ∀ j ∈ below :: rest, j ≤ below := by
    intro j hj
    rcases List.mem_cons.1 hj with rfl | hj
    · exact le_rfl
    · exact (List.rel_of_pairwise_cons h.decreasing hj).le
  refine ⟨rfl, ?_, List.pairwise_cons.2 ⟨fun j hj => (hbelow j hj).trans_lt hlt, h.decreasing⟩, ?_⟩
  · rw [List.getLast?_cons_cons]
    exact h.last
  · intro f hf
    rcases Nat.lt_or_ge f index with hfi | hfi
    swap
    · obtain rfl : f = index := le_antisymm hf hfi
      exact ⟨f, by simp, le_rfl, fun j _ hj => hj, by omega⟩
    have hskip : ∀ i, (∀ j ∈ below :: rest, j ≤ f → j ≤ i) →
        ∀ j ∈ index :: below :: rest, j ≤ f → j ≤ i := by
      intro i hi j hj hjf
      rcases List.mem_cons.1 hj with rfl | hj
      · omega
      · exact hi j hj hjf
    rcases Nat.le_total f below with hfb | hbf
    · obtain ⟨i, hmem, hif, hmax, hdepth⟩ := h.dense f hfb
      exact ⟨i, List.mem_cons_of_mem _ hmem, hif, hskip i hmax, hdepth⟩
    · exact ⟨below, by simp, hbf, hskip below fun j hj _ => hbelow j hj, by omega⟩

end

/-! ## The loop -/

variable {tip index step : ℕ} {blocks : List StoredBlock} {locator : List Str} {hash : Str}

theorem locatorLoop_zero (h : hashAt blocks 0 = .ok hash) :
    locatorLoop blocks 0 step locator = .ok (locator ++ [hash]) := by
  rw [locatorLoop, h]
  exact if_pos (Or.inl rfl)

/-- **The loop** takes the hashes of some indices, which end at the genesis block. -/
theorem locatorLoop_run (htip : tip < 2 ^ 64)
    (hhashes : ∀ i ≤ tip, ∃ hash, hashAt blocks i = .ok hash)
    (h : Stride tip index step locator.length) : ∃ indices found,
      locatorLoop blocks index step locator = .ok (locator ++ found) ∧
      LocatorIndices tip index indices ∧
      List.Forall₂ (fun i hash => hashAt blocks i = .ok hash) indices found ∧
      locator.length + found.length ≤ 101 := by
  induction index using Nat.strong_induction_on generalizing step locator with
  | _ index ih =>
    have hsize := h.size_lt htip
    have hindex := h.index_le
    obtain ⟨genesis, hgenesis⟩ := hhashes 0 (Nat.zero_le _)
    obtain ⟨hash, hhash⟩ := hhashes index h.index_le
    by_cases hzero : index = 0
    · subst hzero
      exact ⟨[0], [hash], locatorLoop_zero hhash, .genesis tip, .cons hhash .nil,
        by simp only [List.length_singleton]; omega⟩
    have hgo : ¬ (index = 0 ∨ locator.length + 1 ≥ 101) := by omega
    have hlength : (locator ++ [hash]).length = locator.length + 1 := by simp
    obtain ⟨hpos, hle, -, -⟩ := h.bounds htip
    rw [locatorLoop, hhash]
    dsimp only
    rw [if_neg hgo]
    by_cases hlt : nextStep (locator.length + 1) step < index
    · have hnext := h.next htip hlt
      rw [← hlength] at hnext hlt hle hpos ⊢
      obtain ⟨indices, found, hloop, hindices, hfound, hcount⟩ :=
        ih _ (by omega) hnext
      refine ⟨index :: indices, hash :: found, ?_, hindices.cons (by omega) hindex (by omega),
        .cons hhash hfound, ?_⟩
      · rw [if_pos hlt, hloop, List.append_assoc]
        rfl
      · rw [hlength] at hcount
        rw [List.length_cons]
        omega
    · -- the step would pass the genesis block, and is cut off there
      refine ⟨[index, 0], [hash, genesis], ?_, (LocatorIndices.genesis tip).cons (by omega) hindex
        (by omega), .cons hhash (.cons hgenesis .nil), ?_⟩
      · rw [if_neg hlt, locatorLoop_zero hgenesis, List.append_assoc]
        rfl
      · simp only [List.length_cons, List.length_nil]
        omega

omit [Crypto] in
theorem forall₂_getLast? {α β : Type} {R : α → β → Prop} {as : List α} {bs : List β} {a : α}
    (h : List.Forall₂ R as bs) (hlast : as.getLast? = some a) : ∃ b, bs.getLast? = some b ∧ R a b := by
  have hreverse := List.rel_reverse h
  rw [List.getLast?_eq_head?_reverse, List.head?_eq_some_iff] at hlast
  obtain ⟨rest, hrest⟩ := hlast
  rw [hrest] at hreverse
  obtain ⟨b, bs', hab, -, hbs⟩ := List.forall₂_cons_left_iff.1 hreverse
  exact ⟨b, by rw [List.getLast?_eq_head?_reverse, hbs]; rfl, hab⟩

/-- **A locator** starts at the tip and ends at the genesis block. -/
theorem makeBlockLocator_run (hne : blocks ≠ []) (hlength : blocks.length ≤ 2 ^ 64)
    (hhashes : ∀ stored ∈ blocks, ∃ hash, stored.hashHex = .ok hash) : ∃ indices locator,
      makeBlockLocator blocks = .ok locator ∧
      LocatorIndices (blocks.length - 1) (blocks.length - 1) indices ∧
      List.Forall₂ (fun i hash => hashAt blocks i = .ok hash) indices locator ∧
      locator.length ≤ 101 := by
  have hpos := List.length_pos_of_ne_nil hne
  have hat : ∀ i ≤ blocks.length - 1, ∃ hash, hashAt blocks i = .ok hash := by
    intro i hi
    have hlt : i < blocks.length := by omega
    obtain ⟨hash, hhash⟩ := hhashes blocks[i] (List.getElem_mem hlt)
    exact ⟨hash, except_bind_ok.2 ⟨_, orThrow_ok.2 (List.getElem?_eq_getElem hlt), hhash⟩⟩
  have hinit : Stride (blocks.length - 1) (blocks.length - 1) 1 ([] : List Str).length :=
    Stride.init (blocks.length - 1)
  obtain ⟨indices, locator, hloop, hindices, hlocator, hcount⟩ :=
    locatorLoop_run (by omega) hat hinit
  obtain ⟨genesis, hgenesis⟩ := hat 0 (Nat.zero_le _)
  have hlast : locator.getLast? = some genesis := by
    obtain ⟨hash, hsome, hhash⟩ := forall₂_getLast? hlocator hindices.last
    rw [hsome, Except.ok.inj (hhash.symm.trans hgenesis)]
  refine ⟨indices, locator, ?_, hindices, hlocator, by simpa using hcount⟩
  rw [makeBlockLocator, if_neg hne, hloop, List.nil_append]
  exact except_bind_ok.2 ⟨locator, rfl, except_bind_ok.2 ⟨genesis, hgenesis, if_neg (by simp [hlast])⟩⟩

theorem hashAt_isDisplayHex {i : ℕ} (h : hashAt blocks i = .ok hash) : IsDisplayHex hash := by
  obtain ⟨stored, -, hhash⟩ := except_bind_ok.1 h
  exact BlockHeader.hashHex_isDisplayHex hhash

/-- A request with a locator is well formed. -/
theorem getHeadersRequest_locator {indices : List ℕ} {stopHash : Str} (hne : indices ≠ [])
    (h : List.Forall₂ (fun i hash => hashAt blocks i = .ok hash) indices locator)
    (hcount : locator.length ≤ 101) (hstop : IsDisplayHex stopHash) :
    GetHeadersRequest.Ok ⟨locator, stopHash⟩ := by
  refine ⟨?_, hcount, ?_, hstop⟩
  · rintro rfl
    exact hne (List.forall₂_nil_right_iff.1 h)
  · intro hash hmem
    obtain ⟨n, hn, rfl⟩ := List.mem_iff_getElem.1 hmem
    exact hashAt_isDisplayHex (h.get (by rw [h.length_eq]; exact hn) hn)

/-- **A request with a locator** can be sent. -/
theorem serializeGetheaders_locator {indices : List ℕ} {stopHash : Str} (hne : indices ≠ [])
    (h : List.Forall₂ (fun i hash => hashAt blocks i = .ok hash) indices locator)
    (hcount : locator.length ≤ 101) (hstop : IsDisplayHex stopHash) :
    ∃ payload, serializeGetheaders ⟨locator, stopHash⟩ = .ok payload := by
  obtain ⟨payload, hpayload, -⟩ :=
    getheaders_strict.roundTrip _ (getHeadersRequest_locator hne h hcount hstop)
  exact ⟨payload, hpayload⟩

/-! ## The fork -/

variable {A B : List StoredBlock} {uA uB : UtxoSet} {S : Set Bytes}

theorem hashAt_ok {i : ℕ} : hashAt blocks i = .ok hash ↔
    ∃ stored, blocks[i]? = some stored ∧ stored.hashHex = .ok hash := by
  rw [hashAt, except_bind_ok]
  simp only [orThrow_ok]

/-- A block names the hash of the block below. -/
theorem Chain.link (h : Chain A uA) {i : ℕ} {a b : StoredBlock} (ha : A[i]? = some a)
    (hb : A[i + 1]? = some b) : a.hashHex = .ok b.block.header.previousHash := by
  obtain ⟨hi, rfl⟩ := List.getElem?_eq_some_iff.1 ha
  obtain ⟨hi', rfl⟩ := List.getElem?_eq_some_iff.1 hb
  have hsplit : A = A.take i ++ A[i] :: A[i + 1] :: A.drop (i + 1 + 1) := by
    rw [← List.drop_eq_getElem_cons hi', ← List.drop_eq_getElem_cons hi, List.take_append_drop]
  rw [hsplit] at h
  obtain ⟨u₁, u₂, hconnects⟩ := h.connects_at
  exact hconnects.link

/-- Two blocks of a chain have different headers: the times increase. -/
theorem Chain.index_of_header (h : Chain A uA) {i j : ℕ} {a b : StoredBlock} (ha : A[i]? = some a)
    (hb : A[j]? = some b) (hheader : a.block.header = b.block.header) : i = j := by
  obtain ⟨hi, rfl⟩ := List.getElem?_eq_some_iff.1 ha
  obtain ⟨hj, rfl⟩ := List.getElem?_eq_some_iff.1 hb
  have htimes := List.pairwise_iff_getElem.1 (List.pairwise_map.1 h.times)
  rcases Nat.lt_trichotomy i j with hlt | heq | hlt
  · have htime := htimes i j hi hj hlt
    rw [hheader] at htime
    exact absurd htime (UInt32.lt_irrefl _)
  · exact heq
  · have htime := htimes j i hj hi hlt
    rw [hheader] at htime
    exact absurd htime (UInt32.lt_irrefl _)

/-- The headers of a chain are among the strings without a collision. -/
def HeadersIn (S : Set Bytes) (blocks : List StoredBlock) : Prop :=
  ∀ stored ∈ blocks, stored.block.header.encode ∈ S

/-- **A hash of an accepted chain** is at one height only, in every chain. -/
theorem index_eq_of_hash (hinj : Set.InjOn sha256d S) (hA : Chain A uA) (hB : Chain B uB)
    (hSA : HeadersIn S A) (hSB : HeadersIn S B) {i j : ℕ} {a b : StoredBlock}
    (ha : A[i]? = some a) (hb : B[j]? = some b) (h : a.hashHex = b.hashHex) : i = j := by
  -- the genesis block of one chain has the hash of the other's
  have hgenesis : ∀ {C D : List StoredBlock} {uC uD : UtxoSet} {k : ℕ} {c d : StoredBlock},
      Chain C uC → Chain D uD → HeadersIn S D → C[0]? = some c → D[k]? = some d →
      c.hashHex = d.hashHex → 0 = k := by
    intro C D uC uD k c d hC hD hSD hc hd hhash
    obtain ⟨g, rest, rfl, hg⟩ := hC.genesis_head
    obtain ⟨g', rest', rfl, hg'⟩ := hD.genesis_head
    obtain rfl : g = c := Option.some.inj hc
    have hmem := List.mem_of_getElem? hd
    refine hD.index_of_header rfl hd (header_eq_of_hash hinj (hD.stored_canonical g' (by simp))
      (hD.stored_canonical d hmem) (hSD g' (by simp)) (hSD d hmem) ?_)
    rw [hg'.isGenesis.hash, ← hg.isGenesis.hash, hhash]
  induction i generalizing j a b with
  | zero => exact hgenesis hA hB hSB ha hb h
  | succ i ih =>
    cases j with
    | zero => exact absurd (hgenesis hB hA hSA hb ha h.symm) (Nat.succ_ne_zero i).symm
    | succ j =>
      have hai : i < A.length := Nat.lt_of_succ_lt (List.getElem?_eq_some_iff.1 ha).1
      have hbj : j < B.length := Nat.lt_of_succ_lt (List.getElem?_eq_some_iff.1 hb).1
      have hheader : a.block.header = b.block.header := by
        have hamem := List.mem_of_getElem? ha
        have hbmem := List.mem_of_getElem? hb
        exact header_eq_of_hash hinj (hA.stored_canonical a hamem) (hB.stored_canonical b hbmem)
          (hSA a hamem) (hSB b hbmem) h
      have hprevious : A[i].hashHex = B[j].hashHex := by
        rw [hA.link (List.getElem?_eq_getElem hai) ha, hB.link (List.getElem?_eq_getElem hbj) hb,
          hheader]
      rw [ih (List.getElem?_eq_getElem hai) (List.getElem?_eq_getElem hbj) hprevious]

/-- The inner loop, where at most one block has the hash. -/
theorem searchBelow_run {k n : ℕ} (hat : ∀ j < n, ∃ hash, hashAt B j = .ok hash)
    (hk : ∀ j < n, hashAt B j = .ok hash → j = k) :
    (k < n → hashAt B k = .ok hash → searchBelow B hash n = .ok (some k)) ∧
    ((∀ j < n, hashAt B j ≠ .ok hash) → searchBelow B hash n = .ok none) := by
  induction n with
  | zero => exact ⟨fun h => absurd h (Nat.not_lt_zero k), fun _ => rfl⟩
  | succ n ih =>
    obtain ⟨hfound, hnone⟩ := ih (fun j hj => hat j (Nat.lt_succ_of_lt hj)) fun j hj =>
      hk j (Nat.lt_succ_of_lt hj)
    obtain ⟨last, hlast⟩ := hat n n.lt_succ_self
    constructor
    · intro hlt hhash
      refine except_bind_ok.2 ⟨last, hlast, ?_⟩
      by_cases heq : last = hash
      · subst heq
        rw [if_pos rfl, hk n n.lt_succ_self hlast]
        rfl
      · have hne : k ≠ n := by
          rintro rfl
          exact heq (Except.ok.inj (hlast.symm.trans hhash))
        rw [if_neg heq]
        exact hfound (by omega) hhash
    · intro hall
      refine except_bind_ok.2 ⟨last, hlast, ?_⟩
      have hne : last ≠ hash := by
        rintro rfl
        exact hall n n.lt_succ_self hlast
      rw [if_neg hne]
      exact hnone fun j hj => hall j (Nat.lt_succ_of_lt hj)

/-- **The search for the fork** takes the first hash of the locator that is shared. -/
theorem locateForkIndex_run {f i : ℕ} {indices : List ℕ}
    (hlocator : List.Forall₂ (fun i hash => hashAt A i = .ok hash) indices locator)
    (hdecreasing : indices.Pairwise (· > ·))
    (hat : ∀ j < B.length, ∃ hash, hashAt B j = .ok hash)
    (hmatch : ∀ k j hash, hashAt A k = .ok hash → hashAt B j = .ok hash → j = k ∧ k ≤ f)
    (hshared : ∀ k ≤ f, ∀ hash, hashAt A k = .ok hash → k < B.length ∧ hashAt B k = .ok hash)
    (hi : i ∈ indices) (hif : i ≤ f) (hmax : ∀ j ∈ indices, j ≤ f → j ≤ i) :
    locateForkIndex B locator = .ok i := by
  induction hlocator with
  | nil => cases hi
  | @cons k hash indices locator hk _ ih =>
    obtain ⟨hbelow, hrest⟩ := List.pairwise_cons.1 hdecreasing
    obtain ⟨hfound, hnone⟩ := searchBelow_run hat fun j _ hj => (hmatch k j hash hk hj).1
    rw [locateForkIndex]
    by_cases hkf : k ≤ f
    · obtain ⟨hlt, hB⟩ := hshared k hkf hash hk
      obtain rfl : i = k := by
        rcases List.mem_cons.1 hi with heq | hmem
        · exact heq
        · exact absurd (hmax k List.mem_cons_self hkf) (Nat.not_le.2 (hbelow i hmem))
      exact except_bind_ok.2 ⟨some i, hfound hlt hB, rfl⟩
    · have hne : i ≠ k := by
        rintro rfl
        exact hkf hif
      refine except_bind_ok.2 ⟨none, hnone fun j _ hj => hkf (hmatch k j hash hk hj).2, ?_⟩
      exact ih hrest ((List.mem_cons.1 hi).resolve_left hne) fun j hj =>
        hmax j (List.mem_cons_of_mem _ hj)

/-- **Locators are dense enough.**  The locator of every chain is short, goes from the tip down to
    the genesis block, and doubles the depth of a fork at most; so does the fork that is found with
    it in another accepted chain. -/
theorem locator_dense :
    (∀ blocks : List StoredBlock, blocks ≠ [] → blocks.length ≤ 2 ^ 64 →
      (∀ stored ∈ blocks, ∃ hash, stored.hashHex = .ok hash) → ∃ indices locator,
        makeBlockLocator blocks = .ok locator ∧
        LocatorIndices (blocks.length - 1) (blocks.length - 1) indices ∧
        List.Forall₂ (fun i hash => hashAt blocks i = .ok hash) indices locator ∧
        locator.length ≤ 101 ∧
        ∀ stopHash, IsDisplayHex stopHash →
          ∃ payload, serializeGetheaders ⟨locator, stopHash⟩ = .ok payload) ∧
    (∀ (A B : List StoredBlock) (f : ℕ), verifyBlocks A = .ok () → verifyBlocks B = .ok () →
      Set.InjOn sha256d {b | ∃ stored ∈ A ++ B, stored.block.header.encode = b} →
      f < A.length → f < B.length →
      (∀ i a b, A[i]? = some a → B[i]? = some b → (a.hashHex = b.hashHex ↔ i ≤ f)) →
      ∃ locator i, makeBlockLocator A = .ok locator ∧ locateForkIndex B locator = .ok i ∧
        i ≤ f ∧ A.length - 1 - i ≤ 2 * (A.length - 1 - f)) := by
  refine ⟨fun blocks hne hlength hhashes => ?_, fun A B f hA hB hinj hfA hfB hexactly => ?_⟩
  · obtain ⟨indices, locator, hmake, hindices, hlocator, hcount⟩ :=
      makeBlockLocator_run hne hlength hhashes
    refine ⟨indices, locator, hmake, hindices, hlocator, hcount, fun stopHash hstop => ?_⟩
    refine serializeGetheaders_locator ?_ hlocator hcount hstop
    rintro rfl
    cases hindices.head
  · obtain ⟨uA, hA⟩ := verifyBlocks_iff.1 hA
    obtain ⟨uB, hB⟩ := verifyBlocks_iff.1 hB
    have hSA : HeadersIn {b | ∃ stored ∈ A ++ B, stored.block.header.encode = b} A :=
      fun stored hmem => ⟨stored, List.mem_append_left _ hmem, rfl⟩
    have hSB : HeadersIn {b | ∃ stored ∈ A ++ B, stored.block.header.encode = b} B :=
      fun stored hmem => ⟨stored, List.mem_append_right _ hmem, rfl⟩
    have hlength := hA.length_le
    obtain ⟨indices, locator, hmake, hindices, hlocator, -⟩ := makeBlockLocator_run hA.ne_nil
      (by omega) fun stored hmem => ⟨_, (hA.stored_canonical stored hmem).hashHex⟩
    obtain ⟨i, hi, hif, hmax, hdepth⟩ := hindices.dense f (by omega)
    refine ⟨locator, i, hmake, ?_, hif, hdepth⟩
    refine locateForkIndex_run hlocator hindices.decreasing ?_ ?_ ?_ hi hif hmax
    · intro j hj
      exact ⟨_, hashAt_ok.2 ⟨_, List.getElem?_eq_getElem hj,
        (hB.stored_canonical _ (List.getElem_mem hj)).hashHex⟩⟩
    · intro k j hash hk hj
      obtain ⟨a, ha, hahash⟩ := hashAt_ok.1 hk
      obtain ⟨b, hb, hbhash⟩ := hashAt_ok.1 hj
      obtain rfl := index_eq_of_hash hinj hA hB hSA hSB ha hb (hahash.trans hbhash.symm)
      exact ⟨rfl, (hexactly k a b ha hb).1 (hahash.trans hbhash.symm)⟩
    · intro k hkf hash hk
      obtain ⟨a, ha, hahash⟩ := hashAt_ok.1 hk
      have hkB : k < B.length := by omega
      refine ⟨hkB, hashAt_ok.2 ⟨_, List.getElem?_eq_getElem hkB, ?_⟩⟩
      rw [← (hexactly k a _ ha (List.getElem?_eq_getElem hkB)).2 hkf]
      exact hahash

end

attribute [local instance] sampleCrypto

/-- The header hashes of the longer sample chain and of the spending block are different. -/
theorem forkHeaders_inj : Set.InjOn sha256d {b | ∃ stored ∈
    sampleChain 102 ++ (sampleChain 100 ++ [spendingBlock]), stored.block.header.encode = b} := by
  let hashes : List ℕ := (genesisTip.hash :: (sampleRows.take 102).map Mined.hash) ++
    [0x0000d5e38a64b39399cadec444155cd835f8c1a6e7afb3d4813a0e2dd40656de]
  have hdistinct : (∀ n ∈ hashes, n < 256 ^ 32) ∧ hashes.Nodup := by decide +kernel
  have hdigests : (sampleChain 102 ++ [spendingBlock]).map
      (fun stored => sha256d stored.block.header.encode) = hashes.map digestOf := by
    rw [List.map_append, List.map_append, (sampleChain_digests 102).1]
    exact congrArg₂ List.append rfl (congrArg (fun digest => [digest]) spendFacts.hash)
  refine Set.InjOn.mono ?_ (injOn_digests hdigests hdistinct.1 hdistinct.2)
  rintro _ ⟨stored, hmem, rfl⟩
  refine ⟨stored, ?_, rfl⟩
  rw [sampleChain_add 100 2] at hmem ⊢
  simp only [List.mem_append] at hmem ⊢
  tauto

/-- The sample chain of 102 blocks, and the peer has the one that forks off it at height 100. -/
theorem locator_dense_fork : ∃ locator i, makeBlockLocator (sampleChain 102) = .ok locator ∧
    locateForkIndex (sampleChain 100 ++ [spendingBlock]) locator = .ok i ∧ i ≤ 100 ∧
    (sampleChain 102).length - 1 - i ≤ 2 * ((sampleChain 102).length - 1 - 100) := by
  obtain ⟨u, hends, -⟩ := sampleChain_ends 101
  obtain ⟨v, hchain, -⟩ := spendingBlock_chain
  refine locator_dense.2 _ _ 100 (verifyBlocks_iff.2 ⟨u, hends.chain⟩) (verifyBlocks_iff.2 ⟨v, hchain⟩)
    forkHeaders_inj ?_ ?_ fun i a b ha hb => ?_
  · rw [spendFacts.length.2]
    decide
  · rw [List.length_append, spendFacts.length.1]
    decide
  rw [sampleChain_add 100 2] at ha
  rcases Nat.lt_or_ge 100 i with hlt | hle
  · obtain rfl : i = 101 := by
      have hi := (List.getElem?_eq_some_iff.1 hb).1
      rw [List.length_append, spendFacts.length.1] at hi
      exact Nat.le_antisymm (Nat.lt_succ_iff.1 hi) hlt
    rw [List.getElem?_append_right (by rw [spendFacts.length.1]), spendFacts.length.1] at ha hb
    obtain rfl : spendingBlock = b := Option.some.inj hb
    refine iff_of_false (fun h => ?_) (by decide)
    exact spendFacts.fork a ha h.symm
  · have hi : i < (sampleChain 100).length := by
      rw [spendFacts.length.1]
      exact Nat.lt_succ_iff.2 hle
    rw [List.getElem?_append_left hi] at ha hb
    obtain rfl := Option.some.inj (ha.symm.trans hb)
    exact iff_of_true rfl hle

end BinaryCoin
