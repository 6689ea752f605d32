/-
  BinaryCoin — peer_store.cpp: the order in which records are added.

  `add_or_update` merges a record into the one with its endpoint by `|`, `max`
  and `min`, so the records that are added have a least upper bound.
-/
import BinaryCoin.Lib.Upsert
import BinaryCoin.PeerStore

namespace BinaryCoin

open Upsert

theorem toNat_min (a b : UInt32) : (min a b).toNat = min a.toNat b.toNat := by
  have hmin : min a b = if a ≤ b then a else b := rfl
  have hle := @UInt32.le_iff_toNat_le a b
  rw [hmin]
  split_ifs with h
  · exact (min_eq_left (hle.1 h)).symm
  · exact (min_eq_right (le_of_not_ge fun hle' => h (hle.2 hle'))).symm

theorem PeerRecord.joins : Joins PeerRecord.endpoint PeerRecord.merge where
  key_merge _ _ := rfl
  comm a b h := by
    rw [merge, merge, PeerRecord.mk.injEq]
    refine ⟨h, UInt64.or_comm _ _, Int64.toInt_inj.1 ?_, Int64.toInt_inj.1 ?_, UInt32.toNat_inj.1 ?_,
      Bool.or_comm _ _⟩
    · rw [toInt_max, toInt_max, max_comm]
    · rw [toInt_max, toInt_max, max_comm]
    · rw [toNat_min, toNat_min, min_comm]
  assoc a b c := by
    refine (PeerRecord.mk.injEq ..).mpr ⟨rfl, UInt64.or_assoc _ _ _, Int64.toInt_inj.1 ?_,
      Int64.toInt_inj.1 ?_, UInt32.toNat_inj.1 ?_, Bool.or_assoc _ _ _⟩
    · simp only [merge, toInt_max, max_assoc]
    · simp only [merge, toInt_max, max_assoc]
    · simp only [merge, toNat_min, min_assoc]
  idem a := by
    refine (PeerRecord.mk.injEq ..).mpr ⟨rfl, UInt64.or_self, Int64.toInt_inj.1 ?_,
      Int64.toInt_inj.1 ?_, UInt32.toNat_inj.1 ?_, Bool.or_self _⟩
    · rw [toInt_max, max_self]
    · rw [toInt_max, max_self]
    · rw [toNat_min, min_self]

namespace PeerStore

/-- The record of an endpoint. -/
def recordOf (s : PeerStore) (endpoint : PeerEndpoint) : Option PeerRecord :=
  s.records.find? (·.endpoint = endpoint)

/-- A record that `add_or_update` does not skip. -/
def accepted (record : PeerRecord) : Bool :=
  validHost record.endpoint.host && decide (record.endpoint.port ≠ 0)

theorem upsert_eq (records : List PeerRecord) (incoming : PeerRecord) :
    upsert (·.merge incoming) incoming records =
      Upsert.upsert PeerRecord.endpoint PeerRecord.merge records incoming := by
  induction records with
  | nil => rfl
  | cons r rs ih =>
    rw [Upsert.upsert, ← ih]
    by_cases hr : r.endpoint = incoming.endpoint
    · simp [upsert, upsertFirst, modifyFirst, hr]
    · simp only [upsert, upsertFirst, modifyFirst, hr, decide_false, if_false]
      cases modifyFirst (·.endpoint = incoming.endpoint) (·.merge incoming) rs <;> rfl

/-- Adding records, in the terms of the library. -/
theorem forM_addOrUpdate_run (incoming : List PeerRecord) (s : PeerStore) :
    (forM incoming addOrUpdate : PeerM Unit).run s = .ok () { s with
      records := (incoming.filter accepted).foldl
        (Upsert.upsert PeerRecord.endpoint PeerRecord.merge) s.records } := by
  induction incoming generalizing s with
  | nil => rfl
  | cons r rs ih =>
    rw [List.forM_cons, run_bind_of_ok (addOrUpdate_run r s), ih, checkedUpsert]
    by_cases hr : ¬ validHost r.endpoint.host ∨ r.endpoint.port = 0
    · have hskip : accepted r = false := by
        rcases hr with hhost | hport
        · simp [accepted, hhost]
        · simp [accepted, hport]
      rw [if_pos hr, List.filter_cons_of_neg (by simp [hskip])]
    · obtain ⟨hhost, hport⟩ := PeerEndpoint.not_invalid_iff.1 hr
      have haccepted : accepted r = true := by simp [accepted, hhost, hport]
      rw [if_neg hr, List.filter_cons_of_pos haccepted, List.foldl_cons, upsert_eq]

/-- **The order in which records are added does not matter**, and adding them again changes
    nothing. -/
theorem addOrUpdate_confluent (s : PeerStore) {incoming incoming' : List PeerRecord}
    (hperm : incoming.Perm incoming') : ∃ s₁ s₂,
      (forM incoming addOrUpdate : PeerM Unit).run s = .ok () s₁ ∧
      (forM incoming' addOrUpdate : PeerM Unit).run s = .ok () s₂ ∧
      (∀ endpoint, s₁.recordOf endpoint = s₂.recordOf endpoint) ∧
      (forM incoming addOrUpdate : PeerM Unit).run s₁ = .ok () s₁ := by
  refine ⟨_, _, forM_addOrUpdate_run incoming s, forM_addOrUpdate_run incoming' s, fun endpoint => ?_,
    ?_⟩
  · exact PeerRecord.joins.lookup_perm (hperm.filter accepted)
  · rw [forM_addOrUpdate_run, PeerRecord.joins.foldl_foldl]

/-- Two records of one endpoint, and one of another, in two orders. -/
theorem addOrUpdate_confluent_three :
    let a : PeerRecord := ⟨⟨str "10.0.0.1", 26001⟩, 1, 900, 0, 3, false⟩
    let b : PeerRecord := ⟨⟨str "10.0.0.1", 26001⟩, 4, 800, 700, 1, true⟩
    let c : PeerRecord := ⟨⟨str "10.0.0.2", 26001⟩, 1, 100, 0, 0, false⟩
    ∃ s₁ s₂, (forM [a, b, c] addOrUpdate : PeerM Unit).run empty = .ok () s₁ ∧
      (forM [c, b, a] addOrUpdate : PeerM Unit).run empty = .ok () s₂ ∧
      (∀ endpoint, s₁.recordOf endpoint = s₂.recordOf endpoint) ∧
      (forM [a, b, c] addOrUpdate : PeerM Unit).run s₁ = .ok () s₁ := by
  intro a b c
  exact addOrUpdate_confluent empty (List.reverse_perm [c, b, a])

end PeerStore

end BinaryCoin
