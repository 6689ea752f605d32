/-
  Merkle trees with the duplicated last leaf — the root of a list of digests,
  where a level of odd length repeats its last element.

  `node` is the hash of two children.  The levels are computed as the usual
  implementations compute them: pad the level, join neighbours, repeat until
  one digest is left.

  The root does not determine the list, because a list that repeats its own
  tail has the root of the shorter one.  `eq_or_hasSquare_of_root` says that
  this is the only way: of two different lists with one root, one contains two
  equal blocks in a row.
-/
import Mathlib

namespace Merkle

variable {H : Type}

/-- The neighbours that are joined; the last element is joined with itself when it has none. -/
def pairs : List H → List (H × H)
  | a :: b :: rest => (a, b) :: pairs rest
  | [a] => [(a, a)]
  | [] => []

variable (node : H → H → H)

def nextLevel (level : List H) : List H := (pairs level).map fun p => node p.1 p.2

/-- `fuel` levels at most; the root of a list of `n` digests needs fewer than `n`. -/
def rootFrom (fuel : ℕ) (level : List H) : Option H :=
  match fuel, level with
  | _, [] => none
  | _, [a] => some a
  | 0, _ :: _ :: _ => none
  | fuel + 1, a :: b :: rest => rootFrom fuel (nextLevel node (a :: b :: rest))

/-- The Merkle root (none of the empty list). -/
def root (level : List H) : Option H := rootFrom node level.length level

/-- The pairs that are hashed on the way to the root. -/
def joinsFrom (fuel : ℕ) (level : List H) : List (H × H) :=
  match fuel, level with
  | fuel + 1, a :: b :: rest =>
    pairs (a :: b :: rest) ++ joinsFrom fuel (nextLevel node (a :: b :: rest))
  | _, _ => []

def joins (level : List H) : List (H × H) := joinsFrom node level.length level

theorem length_pairs (level : List H) : (pairs level).length = (level.length + 1) / 2 := by
  fun_induction pairs level with
  | case1 a b rest ih => simp only [List.length_cons, ih]; omega
  | case2 => simp
  | case3 => simp

theorem length_nextLevel (level : List H) :
    (nextLevel node level).length = (level.length + 1) / 2 := by
  rw [nextLevel, List.length_map, length_pairs]

theorem mem_of_mem_pairs {l : List H} {p : H × H} (h : p ∈ pairs l) : p.1 ∈ l ∧ p.2 ∈ l := by
  fun_induction pairs l with
  | case1 a b rest ih =>
    rcases List.mem_cons.1 h with rfl | h
    · simp
    · obtain ⟨h₁, h₂⟩ := ih h
      simp [h₁, h₂]
  | case2 a => obtain rfl := List.mem_singleton.1 h; simp
  | case3 => cases h

/-- What holds of the elements of a list and of every hash holds of all that is joined. -/
theorem forall_joinsFrom {P : H → Prop} (hnode : ∀ a b, P (node a b)) {fuel : ℕ} {l : List H}
    (hl : ∀ x ∈ l, P x) : ∀ p ∈ joinsFrom node fuel l, P p.1 ∧ P p.2 := by
  induction fuel generalizing l with
  | zero => simp [joinsFrom]
  | succ fuel ih =>
    match l with
    | [] => simp [joinsFrom]
    | [a] => simp [joinsFrom]
    | a :: b :: rest =>
      intro p hp
      rcases List.mem_append.1 hp with hp | hp
      · obtain ⟨h₁, h₂⟩ := mem_of_mem_pairs hp
        exact ⟨hl _ h₁, hl _ h₂⟩
      · refine ih (fun x hx => ?_) p hp
        obtain ⟨q, -, rfl⟩ := List.mem_map.1 hx
        exact hnode ..

/-- `Reduces node joined d level r`: `d` levels lead from `level` to the root `r`, and all pairs
    hashed on the way are in `joined`. -/
inductive Reduces (joined : Set (H × H)) : ℕ → List H → H → Prop
  | leaf {r : H} : Reduces joined 0 [r] r
  | up {d : ℕ} {a b r : H} {rest : List H} (pairs_mem : ∀ p ∈ pairs (a :: b :: rest), p ∈ joined)
      (above : Reduces joined d (nextLevel node (a :: b :: rest)) r) :
      Reduces joined (d + 1) (a :: b :: rest) r

theorem rootFrom_reduces {fuel : ℕ} {level : List H} (hne : level ≠ [])
    (h : level.length ≤ fuel + 1) {joined : Set (H × H)}
    (hj : ∀ p ∈ joinsFrom node fuel level, p ∈ joined) :
    ∃ r d, rootFrom node fuel level = some r ∧ Reduces node joined d level r := by
  induction fuel generalizing level with
  | zero =>
    match level, hne, h with
    | [a], _, _ => exact ⟨a, 0, rfl, .leaf⟩
  | succ fuel ih =>
    match level, hne, h, hj with
    | [a], _, _, _ => exact ⟨a, 0, rfl, .leaf⟩
    | a :: b :: rest, _, h, hj =>
      have hl := length_nextLevel node (a :: b :: rest)
      simp only [List.length_cons] at h hl
      simp only [joinsFrom, List.mem_append] at hj
      obtain ⟨r, d, hr, hred⟩ := ih (by simp [nextLevel, pairs]) (by omega)
        fun p hp => hj p (.inr hp)
      exact ⟨r, d + 1, hr, .up (fun p hp => hj p (.inl hp)) hred⟩

theorem root_reduces {level : List H} (hne : level ≠ []) {joined : Set (H × H)}
    (hj : ∀ p ∈ joins node level, p ∈ joined) :
    ∃ r d, root node level = some r ∧ Reduces node joined d level r :=
  rootFrom_reduces node hne (by omega) hj

/-! ## Squares -/

/-- Two equal nonempty blocks in a row. -/
def HasSquare {α : Type} (l : List α) : Prop :=
  ∃ pre sq post, sq ≠ [] ∧ l = pre ++ sq ++ sq ++ post

/-- The elements of the pairs in order. -/
def unpair (ps : List (H × H)) : List H := ps.flatMap fun p => [p.1, p.2]

/-- A list is the elements of its pairs, or lacks the last of them. -/
theorem unpair_pairs (l : List H) : unpair (pairs l) = l ∨
    ∃ w a, l = w ++ [a] ∧ pairs l = pairs w ++ [(a, a)] ∧ unpair (pairs w) = w := by
  fun_induction pairs l with
  | case1 a b rest ih =>
    rcases ih with h | ⟨w, c, rfl, hp, hw⟩
    · exact .inl (by simp only [unpair, List.flatMap_cons] at h ⊢; simp [h])
    · refine .inr ⟨a :: b :: w, c, rfl, by simp [pairs, hp], ?_⟩
      simp only [unpair, pairs, List.flatMap_cons] at hw ⊢
      simp [hw]
  | case2 a => exact .inr ⟨[], a, rfl, rfl, rfl⟩
  | case3 => exact .inl rfl

theorem HasSquare.append_right {l : List H} (h : HasSquare l) (l' : List H) :
    HasSquare (l ++ l') := by
  obtain ⟨pre, sq, post, hne, rfl⟩ := h
  exact ⟨pre, sq, post ++ l', hne, by simp⟩

theorem HasSquare.append_left {l : List H} (h : HasSquare l) (l' : List H) :
    HasSquare (l' ++ l) := by
  obtain ⟨pre, sq, post, hne, rfl⟩ := h
  exact ⟨l' ++ pre, sq, post, hne, by simp⟩

theorem HasSquare.map {α β : Type} {l : List α} (h : HasSquare l) (f : α → β) :
    HasSquare (l.map f) := by
  obtain ⟨pre, sq, post, hne, rfl⟩ := h
  exact ⟨pre.map f, sq.map f, post.map f, by simpa using hne, by simp⟩

theorem hasSquare_pair (a : H) : HasSquare [a, a] := ⟨[], [a], [], by simp, rfl⟩

/-- A square of pairs is a square of the list, unless it needs the padding, and then the last
    two elements of its first half are equal. -/
theorem hasSquare_of_pairs {l : List H} (h : HasSquare (pairs l)) : HasSquare l := by
  obtain ⟨pre, sq, post, hne, hsq⟩ := h
  have hune : unpair sq ≠ [] := by
    obtain ⟨p, ps, rfl⟩ := List.exists_cons_of_ne_nil hne
    simp [unpair]
  have hun : unpair (pairs l) = unpair pre ++ unpair sq ++ unpair sq ++ unpair post := by
    rw [hsq]; simp [unpair]
  rcases unpair_pairs l with hl | ⟨w, a, rfl, hp, hw⟩
  · exact ⟨unpair pre, unpair sq, unpair post, hune, by rw [← hun, hl]⟩
  rcases List.eq_nil_or_concat' post with rfl | ⟨post', p, rfl⟩
  · -- the square ends in the padded pair
    obtain ⟨sq', p, rfl⟩ := (List.eq_nil_or_concat' sq).resolve_left hne
    have hend : pairs w ++ [(a, a)] = (pre ++ (sq' ++ [p]) ++ sq') ++ [p] := by
      rw [← hp, hsq]; simp
    have hlast : (a, a) = p := by simpa using (List.append_inj' hend rfl).2
    subst hlast
    have hwa : w ++ [a] = unpair pre ++ unpair sq' ++ [a, a] ++ (unpair sq' ++ [a]) := by
      have : w ++ [a] ++ [a] = (unpair pre ++ unpair sq' ++ [a, a] ++ (unpair sq' ++ [a])) ++ [a] := by
        rw [hp] at hun
        simp only [unpair, List.flatMap_append, List.flatMap_singleton] at hun hw ⊢
        rw [hw] at hun
        simpa using hun
      exact (List.append_inj' this rfl).1
    rw [hwa]
    exact ((hasSquare_pair a).append_left _).append_right _
  · have hwa : w ++ [a] = unpair pre ++ unpair sq ++ unpair sq ++ (unpair post' ++ [p.1]) := by
      have : w ++ [a] ++ [a] =
          (unpair pre ++ unpair sq ++ unpair sq ++ (unpair post' ++ [p.1])) ++ [p.2] := by
        rw [hp] at hun
        simp only [unpair, List.flatMap_append, List.flatMap_singleton] at hun hw ⊢
        rw [hw] at hun
        simpa using hun
      exact (List.append_inj' this rfl).1
    exact ⟨_, _, _, hune, hwa⟩

/-- Lists with the same pairs are equal, or one ends in the padding of the other. -/
theorem eq_or_hasSquare_of_pairs {l l' : List H} (h : pairs l = pairs l') :
    l = l' ∨ HasSquare l ∨ HasSquare l' := by
  rcases unpair_pairs l with hl | ⟨w, a, rfl, hp, hw⟩
  · rcases unpair_pairs l' with hl' | ⟨w', a', rfl, hp', hw'⟩
    · exact .inl (by rw [← hl, h, hl'])
    · refine .inr (.inl ?_)
      have : l = w' ++ [a', a'] := by
        rw [← hl, h, hp']
        simp only [unpair, List.flatMap_append, List.flatMap_singleton] at hw' ⊢
        rw [hw']
      rw [this]
      exact (hasSquare_pair a').append_left _
  · rcases unpair_pairs l' with hl' | ⟨w', a', rfl, hp', hw'⟩
    · refine .inr (.inr ?_)
      have : l' = w ++ [a, a] := by
        rw [← hl', ← h, hp]
        simp only [unpair, List.flatMap_append, List.flatMap_singleton] at hw ⊢
        rw [hw]
      rw [this]
      exact (hasSquare_pair a).append_left _
    · obtain ⟨hpw, ha⟩ := List.append_inj' (hp.symm.trans (h.trans hp')) rfl
      refine .inl ?_
      have haa : a = a' := by simpa using ha
      rw [← hw, ← hw', hpw, haa]

theorem map_inj_of_injOn {α β : Type} {f : α → β} {s : Set α} (hf : Set.InjOn f s)
    {l l' : List α} (hl : ∀ a ∈ l, a ∈ s) (hl' : ∀ a ∈ l', a ∈ s) (h : l.map f = l'.map f) :
    l = l' := by
  induction l generalizing l' with
  | nil => exact (List.map_eq_nil_iff.1 h.symm).symm
  | cons a l ih =>
    match l', h with
    | b :: l', h =>
      obtain ⟨hab, hll⟩ := List.cons.inj h
      rw [hf (hl a (by simp)) (hl' b (by simp)) hab,
        ih (fun x hx => hl x (by simp [hx])) (fun x hx => hl' x (by simp [hx])) hll]

/-- A square of the images under a function that is injective on the list. -/
theorem hasSquare_of_map {α β : Type} {f : α → β} {l : List α} {s : Set α} (hs : ∀ a ∈ l, a ∈ s)
    (hf : Set.InjOn f s) (h : HasSquare (l.map f)) : HasSquare l := by
  obtain ⟨pre, sq, post, hne, heq⟩ := h
  rw [List.append_assoc, List.append_assoc] at heq
  obtain ⟨l₁, l₂, rfl, rfl, h₂⟩ := List.map_eq_append_iff.1 heq
  obtain ⟨l₃, l₄, rfl, h₃, h₄⟩ := List.map_eq_append_iff.1 h₂
  obtain ⟨l₅, l₆, rfl, h₅, rfl⟩ := List.map_eq_append_iff.1 h₄
  obtain rfl : l₃ = l₅ := map_inj_of_injOn hf (fun a ha => hs a (by simp [ha]))
    (fun a ha => hs a (by simp [ha])) (by rw [h₃, h₅])
  refine ⟨l₁, l₃, l₆, ?_, by simp⟩
  rintro rfl
  exact hne (by simpa using h₃.symm)

/-! ## Two lists with one root -/

section
variable {node} {joined : Set (H × H)}

theorem hasSquare_of_nextLevel (hnode : Set.InjOn (fun p : H × H => node p.1 p.2) joined)
    {l : List H} (hl : ∀ p ∈ pairs l, p ∈ joined) (h : HasSquare (nextLevel node l)) : HasSquare l :=
  hasSquare_of_pairs (hasSquare_of_map hl hnode h)

/-- Lists of one depth with the same root. -/
theorem eq_or_hasSquare_of_reduces (hnode : Set.InjOn (fun p : H × H => node p.1 p.2) joined)
    {d : ℕ} {l l' : List H} {r : H} (h : Reduces node joined d l r)
    (h' : Reduces node joined d l' r) : l = l' ∨ HasSquare l ∨ HasSquare l' := by
  induction h generalizing l' with
  | leaf => cases h'; exact .inl rfl
  | up hmem _ ih =>
    cases h' with
    | up hmem' above' =>
      rcases ih above' with he | hsq | hsq
      · exact eq_or_hasSquare_of_pairs (map_inj_of_injOn hnode hmem hmem' he)
      · exact .inr (.inl (hasSquare_of_nextLevel hnode hmem hsq))
      · exact .inr (.inr (hasSquare_of_nextLevel hnode hmem' hsq))

/-- The level `k + 1` above: its elements are hashes of pairs, and its squares come from below. -/
theorem Reduces.level_above (hnode : Set.InjOn (fun p : H × H => node p.1 p.2) joined) {d k : ℕ}
    {l : List H} {r : H} (h : Reduces node joined (d + k + 1) l r) :
    ∃ l', Reduces node joined d l' r ∧ (∀ x ∈ l', ∃ p ∈ joined, node p.1 p.2 = x) ∧
      (HasSquare l' → HasSquare l) := by
  induction k generalizing l with
  | zero =>
    cases h with
    | up hmem above =>
      refine ⟨_, above, fun x hx => ?_, hasSquare_of_nextLevel hnode hmem⟩
      obtain ⟨p, hp, rfl⟩ := List.mem_map.1 hx
      exact ⟨p, hmem p hp, rfl⟩
  | succ k ih =>
    cases h with
    | up hmem above =>
      obtain ⟨l', hred, hnodes, hsq⟩ := ih above
      exact ⟨l', hred, hnodes, fun h => hasSquare_of_nextLevel hnode hmem (hsq h)⟩

/-- Of two lists whose first is less deep and holds no hash of a pair. -/
theorem hasSquare_of_deeper (hnode : Set.InjOn (fun p : H × H => node p.1 p.2) joined) {d k : ℕ}
    {l l' : List H} {r : H} (h : Reduces node joined d l r)
    (h' : Reduces node joined (d + k + 1) l' r) (hleaf : ∀ x ∈ l, ∀ p ∈ joined, node p.1 p.2 ≠ x) :
    HasSquare l ∨ HasSquare l' := by
  obtain ⟨l₁, hred, hnodes, hsq⟩ := h'.level_above hnode
  rcases eq_or_hasSquare_of_reduces hnode h hred with rfl | hl | hl
  · have hne : l ≠ [] := by cases h <;> simp
    obtain ⟨x, hx⟩ := List.exists_mem_of_ne_nil l hne
    obtain ⟨p, hp, he⟩ := hnodes x hx
    exact absurd he (hleaf x hx p hp)
  · exact .inl hl
  · exact .inr (hsq hl)

end

/-- **The root and its list**: where the hash is injective on the pairs that two lists join, and no
    element of the lists is the hash of such a pair, lists with one root are equal or one of them
    has a square. -/
theorem eq_or_hasSquare_of_root {l l' : List H} (hne : l ≠ []) (hne' : l' ≠ [])
    (hnode : Set.InjOn (fun p : H × H => node p.1 p.2) {p | p ∈ joins node l ∨ p ∈ joins node l'})
    (hleaf : ∀ x ∈ l ++ l', ∀ p, p ∈ joins node l ∨ p ∈ joins node l' → node p.1 p.2 ≠ x)
    (h : root node l = root node l') : l = l' ∨ HasSquare l ∨ HasSquare l' := by
  obtain ⟨r, d, hr, hred⟩ :=
    @root_reduces H node l hne {p | p ∈ joins node l ∨ p ∈ joins node l'} fun p hp => .inl hp
  obtain ⟨r', d', hr', hred'⟩ :=
    @root_reduces H node l' hne' {p | p ∈ joins node l ∨ p ∈ joins node l'} fun p hp => .inr hp
  obtain rfl : r = r' := by simpa [hr, hr'] using h
  rcases Nat.lt_trichotomy d d' with hlt | rfl | hlt
  · obtain ⟨k, rfl⟩ := Nat.exists_eq_add_of_lt hlt
    exact .inr (hasSquare_of_deeper hnode hred hred' fun x hx p hp => hleaf x (by simp [hx]) p hp)
  · exact eq_or_hasSquare_of_reduces hnode hred hred'
  · obtain ⟨k, rfl⟩ := Nat.exists_eq_add_of_lt hlt
    exact .inr (hasSquare_of_deeper hnode hred' hred
      fun x hx p hp => hleaf x (by simp [hx]) p hp).symm

end Merkle
