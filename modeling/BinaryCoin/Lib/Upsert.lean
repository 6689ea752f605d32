/-
  Records with keys, merged.

  A list holds records, looked up by their keys.  A record is added by merging it
  into the first one with its key, or by appending it.  Where merging is
  commutative, associative and idempotent on records with one key, the order in
  which records are added does not matter, and adding them again changes nothing.
-/
import Mathlib.Data.List.Basic
import Mathlib.Data.List.Perm.Basic

namespace Upsert

variable {R K : Type} {key : R → K} {merge : R → R → R}

/-- The laws of a merge of records with one key. -/
structure Joins (key : R → K) (merge : R → R → R) : Prop where
  key_merge : ∀ a b, key (merge a b) = key a
  comm : ∀ a b, key a = key b → merge a b = merge b a
  assoc : ∀ a b c, merge (merge a b) c = merge a (merge b c)
  idem : ∀ a, merge a a = a

/-- A record of the key added to what is known of the key. -/
def combine (merge : R → R → R) (known : Option R) (r : R) : Option R :=
  some (known.elim r (merge · r))

theorem Joins.combine_comm (h : Joins key merge) {a b : R} (hkey : key a = key b) (known : Option R) :
    combine merge (combine merge known a) b = combine merge (combine merge known b) a := by
  cases known with
  | none => exact congrArg some (h.comm a b hkey)
  | some x =>
    refine congrArg some ?_
    show merge (merge x a) b = merge (merge x b) a
    rw [h.assoc, h.assoc, h.comm a b hkey]

section
variable [DecidableEq K]

/-- `r` merged into the first record with its key, or appended. -/
def upsert (key : R → K) (merge : R → R → R) : List R → R → List R
  | [], r => [r]
  | x :: xs, r => if key x = key r then merge x r :: xs else x :: upsert key merge xs r

/-- The first record with a key. -/
def lookup (key : R → K) (k : K) (records : List R) : Option R := records.find? (key · = k)

namespace Joins

variable {k : K} {records rs rs' : List R} {r : R}

theorem lookup_upsert (h : Joins key merge) : lookup key k (upsert key merge records r) =
    if key r = k then combine merge (lookup key k records) r else lookup key k records := by
  induction records with
  | nil =>
    by_cases hr : key r = k <;> simp [lookup, upsert, combine, hr]
  | cons x xs ih =>
    rw [upsert]
    by_cases hx : key x = key r
    · rw [if_pos hx]
      by_cases hr : key r = k
      · simp [lookup, combine, h.key_merge, hx, hr]
      · simp [lookup, h.key_merge, hx, hr]
    · rw [if_neg hx, lookup, List.find?_cons]
      by_cases hk : key x = k
      · have hr : key r ≠ k := fun hr => hx (hk.trans hr.symm)
        simp [lookup, hk, hr]
      · have hrest : lookup key k (x :: xs) = lookup key k xs := by simp [lookup, hk]
        rw [decide_eq_false hk, hrest]
        exact ih

/-- What is known of a key after a list of records: only those with the key matter. -/
theorem lookup_foldl (h : Joins key merge) :
    lookup key k (rs.foldl (upsert key merge) records) =
      (rs.filter (key · = k)).foldl (combine merge) (lookup key k records) := by
  induction rs generalizing records with
  | nil => rfl
  | cons r rs ih =>
    rw [List.foldl_cons, ih, h.lookup_upsert]
    by_cases hr : key r = k
    · rw [if_pos hr, List.filter_cons_of_pos (by simpa using hr), List.foldl_cons]
    · rw [if_neg hr, List.filter_cons_of_neg (by simpa using hr)]

/-- **The order does not matter.** -/
theorem lookup_perm (h : Joins key merge) (hperm : rs.Perm rs') :
    lookup key k (rs.foldl (upsert key merge) records) =
      lookup key k (rs'.foldl (upsert key merge) records) := by
  rw [h.lookup_foldl, h.lookup_foldl]
  refine (hperm.filter (key · = k)).foldl_eq' (fun a ha b hb known => ?_) _
  have hka : key a = k := by simpa using (List.mem_filter.1 ha).2
  have hkb : key b = k := by simpa using (List.mem_filter.1 hb).2
  exact h.combine_comm (hka.trans hkb.symm) known

/-! ## Adding again -/

/-- The records already have what `r` would add. -/
def Absorbs (key : R → K) (merge : R → R → R) (records : List R) (r : R) : Prop :=
  ∃ x, lookup key (key r) records = some x ∧ merge x r = x

theorem upsert_of_absorbs (habsorbs : Absorbs key merge records r) :
    upsert key merge records r = records := by
  obtain ⟨x, hx, hmerge⟩ := habsorbs
  induction records with
  | nil => cases hx
  | cons y ys ih =>
    rw [upsert]
    by_cases hy : key y = key r
    · have heq : y = x := by simpa [lookup, hy] using hx
      rw [if_pos hy, heq, hmerge]
    · rw [if_neg hy, ih (by simpa [lookup, hy] using hx)]

theorem absorbs_upsert_self (h : Joins key merge) :
    Absorbs key merge (upsert key merge records r) r := by
  refine ⟨_, h.lookup_upsert.trans (if_pos rfl), ?_⟩
  cases lookup key (key r) records with
  | none => exact h.idem r
  | some x =>
    have hmerge : merge (merge x r) r = merge x r := by rw [h.assoc, h.idem]
    exact hmerge

theorem Absorbs.upsert (h : Joins key merge) {s : R} (habsorbs : Absorbs key merge records s) :
    Absorbs key merge (upsert key merge records r) s := by
  obtain ⟨x, hx, hmerge⟩ := habsorbs
  rw [Absorbs, h.lookup_upsert, hx]
  by_cases hr : key r = key s
  · refine ⟨merge x r, if_pos hr, ?_⟩
    rw [h.assoc, h.comm r s hr, ← h.assoc, hmerge]
  · exact ⟨x, if_neg hr, hmerge⟩

theorem absorbs_foldl (h : Joins key merge) {s : R} (hs : Absorbs key merge records s ∨ s ∈ rs) :
    Absorbs key merge (rs.foldl (Upsert.upsert key merge) records) s := by
  induction rs generalizing records with
  | nil => exact hs.resolve_right List.not_mem_nil
  | cons r rs ih =>
    refine ih ?_
    rcases hs with hs | hs
    · exact .inl (Absorbs.upsert h hs)
    · rcases List.mem_cons.1 hs with rfl | hs
      · exact .inl h.absorbs_upsert_self
      · exact .inr hs

/-- **Adding again changes nothing.** -/
theorem foldl_foldl (h : Joins key merge) : rs.foldl (Upsert.upsert key merge)
    (rs.foldl (Upsert.upsert key merge) records) = rs.foldl (Upsert.upsert key merge) records := by
  have hall : ∀ s ∈ rs, Absorbs key merge (rs.foldl (Upsert.upsert key merge) records) s :=
    fun s hs => h.absorbs_foldl (.inr hs)
  generalize rs.foldl (Upsert.upsert key merge) records = result at hall ⊢
  induction rs with
  | nil => rfl
  | cons r rs ih =>
    obtain ⟨hr, hrs⟩ := List.forall_mem_cons.1 hall
    rw [List.foldl_cons, upsert_of_absorbs hr]
    exact ih hrs

end Joins

end

end Upsert
