/-
  Ordered maps — the list of entries of a `Std.ExtTreeMap` after an insertion
  or a removal, and sums over the entries.
-/
import Mathlib

namespace OrdMap

open Std

variable {K V : Type} [Ord K] [TransOrd K] [LawfulEqOrd K]

theorem nodup_toList (m : ExtTreeMap K V) : m.toList.Nodup :=
  (ExtTreeMap.distinct_keys_toList (t := m)).imp fun {a b} h hab => by
    subst hab; exact h ReflCmp.compare_self

theorem mem_toList {m : ExtTreeMap K V} {k : K} {v : V} : (k, v) ∈ m.toList ↔ m[k]? = some v :=
  ExtTreeMap.mem_toList_iff_getElem?_eq_some

theorem getElem?_insert_eq (m : ExtTreeMap K V) [DecidableEq K] (k k' : K) (v : V) :
    (m.insert k v)[k']? = if k' = k then some v else m[k']? := by
  rw [ExtTreeMap.getElem?_insert]
  by_cases h : k' = k
  · subst h; simp
  · rw [if_neg h, if_neg]
    exact fun hc => h (LawfulEqOrd.eq_of_compare hc).symm

theorem getElem?_erase_eq (m : ExtTreeMap K V) [DecidableEq K] (k k' : K) :
    (m.erase k)[k']? = if k' = k then none else m[k']? := by
  rw [ExtTreeMap.getElem?_erase]
  by_cases h : k' = k
  · subst h; simp
  · rw [if_neg h, if_neg]
    exact fun hc => h (LawfulEqOrd.eq_of_compare hc).symm

theorem getElem?_insertIfNew_eq (m : ExtTreeMap K V) [DecidableEq K] (k k' : K) (v : V) :
    (m.insertIfNew k v)[k']? = if k' = k ∧ m[k]? = none then some v else m[k']? := by
  rw [ExtTreeMap.getElem?_insertIfNew]
  refine if_congr (and_congr ?_ ?_) rfl rfl
  · exact ⟨fun hc => (LawfulEqOrd.eq_of_compare hc).symm, fun h => h ▸ ReflCmp.compare_self⟩
  · rw [ExtTreeMap.mem_iff_isSome_getElem?, Option.not_isSome_iff_eq_none]

omit [LawfulEqOrd K] in
theorem values_eq (m : ExtTreeMap K V) : m.values = m.toList.map Prod.snd := by
  obtain ⟨inner⟩ := m
  induction inner with
  | mk t =>
    have hvalues : t.values = (DTreeMap.Const.toList t).map Prod.snd := by
      have hlist := DTreeMap.Internal.Impl.Const.toList_eq_toListModel_map (t := t.inner)
      have hsnd := DTreeMap.Internal.Impl.values_eq_map_snd (t := t.inner)
      rw [DTreeMap.values, DTreeMap.Const.toList, hsnd, hlist, List.map_map]
      rfl
    exact hvalues

theorem mem_values {m : ExtTreeMap K V} {v : V} : v ∈ m.values ↔ ∃ k : K, m[k]? = some v := by
  rw [values_eq, List.mem_map]
  constructor
  · rintro ⟨⟨k, v⟩, hmem, rfl⟩
    exact ⟨k, mem_toList.1 hmem⟩
  · rintro ⟨k, hk⟩
    exact ⟨(k, v), mem_toList.2 hk, rfl⟩

/-- A map has at least as many entries as there are different keys with one. -/
theorem length_le_size {m : ExtTreeMap K V} {ks : List K} (hnodup : ks.Nodup)
    (h : ∀ k ∈ ks, ∃ v, m[k]? = some v) : ks.length ≤ m.size := by
  have hsub : ks ⊆ m.keys := by
    intro k hk
    obtain ⟨v, hv⟩ := h k hk
    rw [ExtTreeMap.mem_keys, ExtTreeMap.mem_iff_isSome_getElem?, hv]
    rfl
  rw [← ExtTreeMap.length_keys]
  exact (hnodup.subperm hsub).length_le

omit [LawfulEqOrd K] in
/-- A map has at least as many entries as different values. -/
theorem length_le_size_of_values {m : ExtTreeMap K V} {vs : List V} (hnodup : vs.Nodup)
    (h : ∀ v ∈ vs, v ∈ m.values) : vs.length ≤ m.size := by
  rw [← ExtTreeMap.length_toList, ← List.length_map (f := Prod.snd), ← values_eq]
  exact (hnodup.subperm h).length_le

theorem toList_insert_perm {m : ExtTreeMap K V} [DecidableEq K] {k : K} {v : V} (h : m[k]? = none) :
    (m.insert k v).toList.Perm ((k, v) :: m.toList) := by
  refine (List.perm_ext_iff_of_nodup (nodup_toList _) ?_).2 fun p => ?_
  · refine List.nodup_cons.2 ⟨fun hm => ?_, nodup_toList m⟩
    rw [mem_toList.1 hm] at h; cases h
  · obtain ⟨k', v'⟩ := p
    rw [mem_toList, getElem?_insert_eq, List.mem_cons, mem_toList, Prod.mk.injEq]
    by_cases hk : k' = k
    · subst hk; simp [h, eq_comm]
    · simp [hk]

theorem toList_erase_perm {m : ExtTreeMap K V} [DecidableEq K] {k : K} {v : V} (h : m[k]? = some v) :
    m.toList.Perm ((k, v) :: (m.erase k).toList) := by
  refine (List.perm_ext_iff_of_nodup (nodup_toList _) ?_).2 fun p => ?_
  · refine List.nodup_cons.2 ⟨fun hm => ?_, nodup_toList _⟩
    rw [mem_toList, getElem?_erase_eq, if_pos rfl] at hm; cases hm
  · obtain ⟨k', v'⟩ := p
    rw [mem_toList, List.mem_cons, mem_toList, getElem?_erase_eq, Prod.mk.injEq]
    by_cases hk : k' = k
    · subst hk; simp [h, eq_comm]
    · simp [hk]

/-- Reading entries into a map that has none of their keys. -/
theorem foldlM_insert {E A : Type} [DecidableEq K] {g : ExtTreeMap K V → A → Except E (ExtTreeMap K V)}
    {line : K × V → A} {l : List (K × V)} (hnodup : (l.map Prod.fst).Nodup)
    (h : ∀ acc, ∀ p ∈ l, acc[p.1]? = none → g acc (line p) = .ok (acc.insert p.1 p.2))
    {acc : ExtTreeMap K V} (hnew : ∀ p ∈ l, acc[p.1]? = none) :
    ∃ m, (l.map line).foldlM g acc = Except.ok m ∧ m.toList.Perm (l ++ acc.toList) := by
  induction l generalizing acc with
  | nil => exact ⟨acc, rfl, .rfl⟩
  | cons p l ih =>
    rw [List.map_cons, List.nodup_cons] at hnodup
    have hp : acc[p.1]? = none := hnew p List.mem_cons_self
    have hrest : ∀ q ∈ l, (acc.insert p.1 p.2)[q.1]? = none := by
      intro q hq
      have hne : q.1 ≠ p.1 := fun heq => hnodup.1 (heq ▸ List.mem_map_of_mem hq)
      rw [getElem?_insert_eq, if_neg hne]
      exact hnew q (List.mem_cons_of_mem _ hq)
    obtain ⟨m, hfold, hperm⟩ := ih hnodup.2 (fun acc q hq => h acc q (List.mem_cons_of_mem _ hq)) hrest
    refine ⟨m, ?_, ?_⟩
    · rw [List.map_cons, List.foldlM_cons, h acc p List.mem_cons_self hp]
      exact hfold
    · calc m.toList.Perm (l ++ (acc.insert p.1 p.2).toList) := hperm
        _ |>.Perm (l ++ p :: acc.toList) := (toList_insert_perm hp).append_left l
        _ |>.Perm (p :: (l ++ acc.toList)) := List.perm_middle

/-- **A map is what its entries are read as.** -/
theorem foldlM_insert_toList {E A : Type} [DecidableEq K]
    {g : ExtTreeMap K V → A → Except E (ExtTreeMap K V)} {line : K × V → A} {m : ExtTreeMap K V}
    (h : ∀ acc, ∀ p ∈ m.toList, acc[p.1]? = none → g acc (line p) = .ok (acc.insert p.1 p.2)) :
    (m.toList.map line).foldlM g ∅ = Except.ok m := by
  have hnodup : (m.toList.map Prod.fst).Nodup := by
    refine List.pairwise_map.2 ((ExtTreeMap.distinct_keys_toList (t := m)).imp ?_)
    intro p q hpq heq
    exact hpq (by rw [heq]; exact ReflCmp.compare_self)
  obtain ⟨m', hfold, hperm⟩ := foldlM_insert hnodup h fun p _ => ExtTreeMap.getElem?_empty
  rw [ExtTreeMap.toList_eq_nil_iff.2 rfl, List.append_nil] at hperm
  rw [hfold, ExtTreeMap.ext_toList hperm]

/-- The sum of `f` over the values. -/
def total (f : V → ℤ) (m : ExtTreeMap K V) : ℤ := (m.toList.map fun p => f p.2).sum

variable {f : V → ℤ}

omit [LawfulEqOrd K] in
@[simp] theorem total_empty : total f (∅ : ExtTreeMap K V) = 0 := by
  rw [total, ExtTreeMap.toList_eq_nil_iff.2 rfl]; rfl

theorem total_insert {m : ExtTreeMap K V} [DecidableEq K] {k : K} {v : V} (h : m[k]? = none) :
    total f (m.insert k v) = f v + total f m := by
  simp only [total, ((toList_insert_perm h).map _).sum_eq, List.map_cons, List.sum_cons]

theorem total_erase {m : ExtTreeMap K V} [DecidableEq K] {k : K} {v : V} (h : m[k]? = some v) :
    total f m = f v + total f (m.erase k) := by
  simp only [total, ((toList_erase_perm h).map _).sum_eq, List.map_cons, List.sum_cons]

theorem total_nonneg {m : ExtTreeMap K V} (h : ∀ (k : K) (v : V), m[k]? = some v → 0 ≤ f v) :
    0 ≤ total f m := by
  refine List.sum_nonneg fun x hx => ?_
  obtain ⟨⟨k, v⟩, hp, rfl⟩ := List.mem_map.1 hx
  exact h k v (mem_toList.1 hp)

/-- The values at distinct keys of a map with no negative value add up to at most its total
    (a key without an entry counts 0). -/
theorem sum_le_total {m : ExtTreeMap K V} [DecidableEq K] {l : List K}
    (hf : ∀ (k : K) (v : V), m[k]? = some v → 0 ≤ f v) (hl : l.Nodup) :
    (l.map fun k => (m[k]?.map f).getD 0).sum ≤ total f m := by
  induction l generalizing m with
  | nil => exact total_nonneg hf
  | cons k l ih =>
    obtain ⟨hk, hl⟩ := List.nodup_cons.1 hl
    rw [List.map_cons, List.sum_cons]
    cases hm : m[k]? with
    | none => have := ih hf hl; simpa using this
    | some v =>
      have hnn : ∀ (k' : K) (v' : V), (m.erase k)[k']? = some v' → 0 ≤ f v' := fun k' v' hk' => by
        rw [getElem?_erase_eq] at hk'
        split_ifs at hk'
        exact hf k' v' hk'
      have hrest : (l.map fun k' => ((m.erase k)[k']?.map f).getD 0) =
          l.map fun k' => (m[k']?.map f).getD 0 := List.map_congr_left fun k' hk' => by
        have hne : k' ≠ k := fun he => hk (he ▸ hk')
        rw [getElem?_erase_eq, if_neg hne]
      have := ih hnn hl
      rw [hrest] at this
      rw [total_erase hm]
      simpa using this

end OrdMap
