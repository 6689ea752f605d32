/-
  Subnet — blocks of addresses.  An address is a number of `width` bits, and a
  subnet holds the addresses that begin with the same `length` bits as its
  network, which is the first of them.

  `contains_iff` gives a subnet as an interval, `covers_cons` a list of them as
  a disjunction, so that tests of the parts of an address can be compared with
  subnets by arithmetic.
-/
import Mathlib

/-- The addresses that share the first `length` bits with `network`. -/
structure Subnet (width : ℕ) where
  network : ℕ
  length : ℕ
  length_le : length ≤ width
  aligned : 2 ^ (width - length) ∣ network

namespace Subnet

variable {width : ℕ}

/-- The number of its addresses. -/
def size (s : Subnet width) : ℕ := 2 ^ (width - s.length)

def Contains (s : Subnet width) (n : ℕ) : Prop := n / s.size = s.network / s.size

instance (s : Subnet width) (n : ℕ) : Decidable (s.Contains n) :=
  inferInstanceAs (Decidable (n / s.size = s.network / s.size))

theorem size_pos (s : Subnet width) : 0 < s.size := Nat.two_pow_pos _

/-- A subnet is an interval. -/
theorem contains_iff {s : Subnet width} {n : ℕ} :
    s.Contains n ↔ s.network ≤ n ∧ n < s.network + s.size := by
  obtain ⟨k, hk⟩ := s.aligned
  change s.network = s.size * k at hk
  rw [Contains, hk, Nat.mul_div_cancel_left k s.size_pos, Nat.div_eq_iff s.size_pos,
    Nat.mul_comm]
  have hpos := s.size_pos
  omega

/-- One of the subnets contains the address. -/
def Covers (subnets : List (Subnet width)) (n : ℕ) : Prop := ∃ s ∈ subnets, s.Contains n

@[simp] theorem covers_nil {n : ℕ} : ¬ Covers ([] : List (Subnet width)) n := by
  rintro ⟨s, hs, -⟩
  cases hs

@[simp] theorem covers_cons {s : Subnet width} {subnets : List (Subnet width)} {n : ℕ} :
    Covers (s :: subnets) n ↔ s.Contains n ∨ Covers subnets n := by
  simp only [Covers, List.mem_cons, exists_eq_or_imp]

end Subnet
