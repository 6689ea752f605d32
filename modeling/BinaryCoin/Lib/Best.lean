/-
  The best of several candidates, where each element of a list may make one.

  A candidate replaces the best one so far where it is worth strictly more, so
  of equals the first is kept.
-/
import Mathlib

namespace Best

variable {T A W : Type} [LinearOrder W] {candidate : T → Option (A × W)} {best : A × W} {t : T}
  {ts : List T}

/-- The better one of `best` and what an element makes. -/
def better (candidate : T → Option (A × W)) (best : A × W) (t : T) : A × W :=
  match candidate t with
  | some c => if best.2 < c.2 then c else best
  | none => best

/-- The best one after the list. -/
def pick (candidate : T → Option (A × W)) (best : A × W) (ts : List T) : A × W :=
  ts.foldl (better candidate) best

theorem better_cases (candidate : T → Option (A × W)) (best : A × W) (t : T) :
    better candidate best t = best ∨ candidate t = some (better candidate best t) := by
  unfold better
  cases hc : candidate t with
  | none => exact .inl rfl
  | some c =>
    dsimp only
    split_ifs
    · exact .inr rfl
    · exact .inl rfl

theorem le_better (candidate : T → Option (A × W)) (best : A × W) (t : T) :
    best.2 ≤ (better candidate best t).2 := by
  unfold better
  cases hc : candidate t with
  | none => exact le_rfl
  | some c =>
    dsimp only
    split_ifs with hlt
    · exact hlt.le
    · exact le_rfl

theorem candidate_le_better {c : A × W} (hc : candidate t = some c) :
    c.2 ≤ (better candidate best t).2 := by
  rw [better, hc]
  dsimp only
  split_ifs with hlt
  · exact le_rfl
  · exact not_lt.1 hlt

theorem le_pick : best.2 ≤ (pick candidate best ts).2 := by
  induction ts generalizing best with
  | nil => exact le_rfl
  | cons t ts ih => exact (le_better candidate best t).trans ih

/-- **No candidate is worth more** than the one that is kept. -/
theorem candidate_le_pick {c : A × W} (ht : t ∈ ts) (hc : candidate t = some c) :
    c.2 ≤ (pick candidate best ts).2 := by
  induction ts generalizing best with
  | nil => cases ht
  | cons t' ts ih =>
    rcases List.mem_cons.1 ht with rfl | ht
    · exact (candidate_le_better hc).trans le_pick
    · exact ih ht

/-- What is kept is the first one, or a candidate. -/
theorem pick_cases (candidate : T → Option (A × W)) (best : A × W) (ts : List T) :
    pick candidate best ts = best ∨
      ∃ t ∈ ts, candidate t = some (pick candidate best ts) := by
  induction ts generalizing best with
  | nil => exact .inl rfl
  | cons t ts ih =>
    have hpick : pick candidate best (t :: ts) = pick candidate (better candidate best t) ts := rfl
    rcases ih (better candidate best t) with heq | ⟨t', ht', hc⟩
    · rw [hpick, heq]
      exact (better_cases candidate best t).imp_right fun hc => ⟨t, List.mem_cons_self, hc⟩
    · exact .inr ⟨t', List.mem_cons_of_mem _ ht', hc⟩

end Best
