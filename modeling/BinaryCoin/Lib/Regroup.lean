/-
  Digits in another base.

  A list of digits of `b` bits each, the most significant first, is a number.
  Regrouping takes in digits of one width, and gives out digits of another
  width as soon as there are enough bits.  What is left at the end are the low
  bits of the number.
-/
import BinaryCoin.Lib.Positional

namespace Regroup

/-- The number with the given digits of `b` bits, the most significant first. -/
def value (b : ℕ) (ds : List ℕ) : ℕ := Positional.value (2 ^ b) ds

variable {b f t n r x d acc bits : ℕ} {ds es out input : List ℕ}

@[simp] theorem value_nil : value b [] = 0 := rfl

theorem value_append : value b (ds ++ es) = value b ds * 2 ^ (b * es.length) + value b es := by
  rw [value, Positional.value_append, ← pow_mul, Nat.mul_comm]
  rfl

@[simp] theorem value_concat : value b (ds ++ [d]) = value b ds * 2 ^ b + d := by
  rw [value_append, List.length_singleton, Nat.mul_one]
  simp [value, Positional.value]

/-- **The digits are determined** by the number, where their number is known. -/
theorem value_inj (hb : 0 < b) (hds : ∀ d ∈ ds, d < 2 ^ b) (hes : ∀ d ∈ es, d < 2 ^ b)
    (hlength : ds.length = es.length) (h : value b ds = value b es) : ds = es :=
  Positional.value_inj (Nat.one_lt_two_pow hb.ne') hlength hds hes h

/-- The `n` digits of `t` bits of `x` above its `r` lowest bits. -/
def groups (t x n r : ℕ) : List ℕ :=
  (List.range n).map fun k => x / 2 ^ (n * t + r - (k + 1) * t) % 2 ^ t

theorem length_groups : (groups t x n r).length = n := by simp [groups]

theorem groups_lt : ∀ d ∈ groups t x n r, d < 2 ^ t := by
  intro d hd
  obtain ⟨k, -, rfl⟩ := List.mem_map.1 hd
  exact Nat.mod_lt _ (Nat.two_pow_pos t)

theorem groups_succ : groups t x (n + 1) r = groups t x n (r + t) ++ [x / 2 ^ r % 2 ^ t] := by
  rw [groups, List.range_succ, List.map_append, List.map_singleton, groups]
  congr 1
  · refine List.map_congr_left fun k _ => ?_
    have hshift : (n + 1) * t + r - (k + 1) * t = n * t + (r + t) - (k + 1) * t := by
      rw [Nat.add_one_mul n t]
      congr 1
      omega
    rw [hshift]
  · rw [Nat.add_sub_cancel_left]

/-- **The groups and the rest** are the low bits of the number. -/
theorem value_groups : value t (groups t x n r) * 2 ^ r + x % 2 ^ r = x % 2 ^ (n * t + r) := by
  induction n generalizing r with
  | zero => simp [groups]
  | succ n ih =>
    have hsplit : x % 2 ^ (r + t) = x / 2 ^ r % 2 ^ t * 2 ^ r + x % 2 ^ r := by
      rw [pow_add, Nat.mod_mul, Nat.mul_comm, Nat.add_comm]
    have hbits : (n + 1) * t + r = n * t + (r + t) := by ring
    rw [groups_succ, value_concat, hbits, ← ih, hsplit, pow_add]
    ring

/-- The state of regrouping `input` from `f` to `t` bits: an accumulator, the number of bits of it
    that are left, and the output. -/
structure Regrouped (f t : ℕ) (input : List ℕ) (acc bits : ℕ) (out : List ℕ) : Prop where
  bits_lt : bits < t
  count : input.length * f = out.length * t + bits
  digit : ∀ d ∈ out, d < 2 ^ t
  rest : value f input = value t out * 2 ^ bits + acc % 2 ^ bits

theorem Regrouped.nil (ht : 0 < t) : Regrouped f t [] 0 0 [] :=
  ⟨ht, by simp, by simp, by simp⟩

/-- **One digit more.**  Only the low `f + t - 1` bits of the accumulator are kept. -/
theorem Regrouped.step (h : Regrouped f t input acc bits out) (hf : 0 < f) (hd : d < 2 ^ f) :
    Regrouped f t (input ++ [d]) ((acc * 2 ^ f + d) % 2 ^ (f + t - 1)) ((bits + f) % t)
      (out ++ groups t ((acc * 2 ^ f + d) % 2 ^ (f + t - 1)) ((bits + f) / t) ((bits + f) % t)) := by
  have hbits := h.bits_lt
  have ht : 0 < t := by omega
  have hdiv : (bits + f) / t * t + (bits + f) % t = bits + f := Nat.div_add_mod' _ _
  have hmask : (acc * 2 ^ f + d) % 2 ^ (f + t - 1) % 2 ^ (bits + f) =
      acc % 2 ^ bits * 2 ^ f + d := by
    have hdvd : 2 ^ (bits + f) ∣ 2 ^ (f + t - 1) := pow_dvd_pow 2 (by omega)
    rw [Nat.mod_mod_of_dvd _ hdvd, pow_add, Nat.mul_comm (2 ^ bits), Nat.mod_mul,
      Nat.mul_comm acc, Nat.mul_add_mod, Nat.mod_eq_of_lt hd, Nat.mul_add_div (Nat.two_pow_pos f),
      Nat.div_eq_of_lt hd, Nat.add_zero]
    ring
  refine ⟨Nat.mod_lt _ ht, ?_, ?_, ?_⟩
  · rw [List.length_append, List.length_singleton, List.length_append, length_groups,
      Nat.add_one_mul, h.count, Nat.add_mul]
    omega
  · intro e he
    rcases List.mem_append.1 he with he | he
    · exact h.digit e he
    · exact groups_lt e he
  · have hgroups := value_groups (t := t) (x := (acc * 2 ^ f + d) % 2 ^ (f + t - 1))
      (n := (bits + f) / t) (r := (bits + f) % t)
    rw [hdiv, hmask] at hgroups
    have hpow : 2 ^ bits * 2 ^ f = 2 ^ (t * ((bits + f) / t)) * 2 ^ ((bits + f) % t) := by
      rw [← pow_add, ← pow_add, Nat.div_add_mod]
    rw [value_concat, h.rest, value_append, length_groups]
    calc (value t out * 2 ^ bits + acc % 2 ^ bits) * 2 ^ f + d
        = value t out * (2 ^ bits * 2 ^ f) + (acc % 2 ^ bits * 2 ^ f + d) := by ring
      _ = value t out * (2 ^ (t * ((bits + f) / t)) * 2 ^ ((bits + f) % t)) + _ := by
          rw [hpow, ← hgroups]
      _ = _ := by ring

/-- **Padding**: the bits that are left become one more digit. -/
theorem Regrouped.pad (h : Regrouped f t input acc bits out) :
    value t (out ++ [acc * 2 ^ (t - bits) % 2 ^ t]) = value f input * 2 ^ (t - bits) := by
  have hbits := h.bits_lt
  have hpow : 2 ^ bits * 2 ^ (t - bits) = 2 ^ t := by
    rw [← pow_add]
    congr 1
    omega
  have hlast : acc * 2 ^ (t - bits) % 2 ^ t = acc % 2 ^ bits * 2 ^ (t - bits) := by
    rw [← hpow, Nat.mul_mod_mul_right]
  rw [value_concat, hlast, h.rest, Nat.add_mul, Nat.mul_assoc, hpow]

end Regroup
