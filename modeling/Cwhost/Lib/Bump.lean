import Cwhost.Lib.Ranges
import Mathlib.Data.Int.Bitwise
import Mathlib.Data.Nat.Bitwise

/-!
# Bump allocation

A pointer that only goes up: each range begins at the pointer or, rounded up to a power of two,
above it, and the pointer moves to its end.

* `alignTo`, `alignTo_spec`: rounding up by masking, on integers of any size.
* `Bumped`, `Bumped.push`: ranges handed out in this way are pairwise disjoint and between the
  first pointer and the last.
-/

namespace Cwhost.Lib

/-! ## Powers of two -/

/-- `(value + alignment - 1) & -alignment`. -/
def alignTo (value alignment : Int) : Int := Int.land (value + alignment - 1) (-alignment)

theorem land_sub_one {n : Nat} (h : n ≠ 0) :
    Int.land n (n - 1) = (n &&& (n - 1) : Nat) := by
  have hsub : (n : Int) - 1 = (n - 1 : Nat) := by omega
  rw [hsub]
  rfl

/-- The usual test for a power of two. -/
theorem land_sub_one_eq_zero_iff {n : Int} (h : 0 < n) :
    Int.land n (n - 1) = 0 ↔ ∃ k : Nat, n = 2 ^ k := by
  obtain ⟨m, rfl⟩ := Int.eq_ofNat_of_zero_le h.le
  have hm : m ≠ 0 := by omega
  rw [land_sub_one hm, Int.natCast_eq_zero, Nat.and_sub_one_eq_zero_iff_isPowerOfTwo hm]
  exact exists_congr fun k => by exact_mod_cast Iff.rfl

/-- Masking with `-2 ^ k` clears the low `k` bits. -/
theorem land_neg_two_pow (v k : Nat) : Int.land v (-2 ^ k) = (v / 2 ^ k * 2 ^ k : Nat) := by
  have hpos := Nat.two_pow_pos k
  have hneg : (-2 ^ k : Int) = Int.negSucc (2 ^ k - 1) := by
    rw [Int.negSucc_eq]
    push_cast [Nat.one_le_iff_ne_zero.mpr hpos.ne']
    omega
  rw [hneg]
  show ((Nat.ldiff v (2 ^ k - 1) : Nat) : Int) = _
  refine congrArg _ (Nat.eq_of_testBit_eq fun i => ?_)
  rw [Nat.testBit_ldiff, Nat.testBit_two_pow_sub_one, Nat.testBit_mul_two_pow,
    Nat.testBit_div_two_pow]
  by_cases hi : k ≤ i
  · simp [hi]
  · simp [hi, Nat.lt_of_not_le hi]

theorem alignTo_two_pow (v k : Nat) :
    alignTo v (2 ^ k) = ((v + 2 ^ k - 1) / 2 ^ k * 2 ^ k : Nat) := by
  have hpos := Nat.two_pow_pos k
  have hsum : (v : Int) + 2 ^ k - 1 = (v + 2 ^ k - 1 : Nat) := by
    push_cast [Nat.le_add_left_of_le hpos]
    rfl
  rw [alignTo, hsum, land_neg_two_pow]

/-- **Rounding up** to a power of two: the next multiple. -/
theorem alignTo_spec (v : Nat) {a : Int} (h : 0 < a) (hpow : Int.land a (a - 1) = 0) :
    ∃ n : Nat, alignTo v a = n ∧ v ≤ n ∧ (n : Int) < v + a ∧ a ∣ n := by
  obtain ⟨k, rfl⟩ := (land_sub_one_eq_zero_iff h).mp hpow
  have hdiv := Nat.div_add_mod (v + 2 ^ k - 1) (2 ^ k)
  have hmod := Nat.mod_lt (v + 2 ^ k - 1) (Nat.two_pow_pos k)
  rw [Nat.mul_comm] at hdiv
  refine ⟨_, alignTo_two_pow v k, by omega, ?_, ?_⟩
  · have hlt : (v + 2 ^ k - 1) / 2 ^ k * 2 ^ k < v + 2 ^ k := by omega
    exact_mod_cast hlt
  · exact_mod_cast Nat.dvd_mul_left (2 ^ k) _

/-! ## Ranges handed out upwards -/

/-- Ranges from `lo` on, each beginning where those before it have ended or later; the pointer is
beyond them all. -/
structure Bumped (lo pointer : Nat) (l : List Range) : Prop where
  base : lo ≤ pointer
  within : ∀ r ∈ l, lo ≤ r.1 ∧ r.1 + r.2 ≤ pointer
  upwards : l.Pairwise fun r s => r.1 + r.2 ≤ s.1

namespace Bumped

variable {lo pointer : Nat} {l : List Range}

theorem nil (lo : Nat) : Bumped lo lo [] where
  base := Nat.le_refl lo
  within _ h := absurd h List.not_mem_nil
  upwards := List.Pairwise.nil

/-- The next range, from the pointer on. -/
theorem push (h : Bumped lo pointer l) {address : Nat} (hle : pointer ≤ address) (size : Nat) :
    Bumped lo (address + size) (l ++ [(address, size)]) where
  base := by
    have := h.base
    omega
  within r hr := by
    have hbase := h.base
    rcases List.mem_append.mp hr with hr | hr
    · have := h.within r hr
      omega
    · rw [List.mem_singleton.mp hr]
      exact ⟨hbase.trans hle, Nat.le_refl _⟩
  upwards := by
    refine List.pairwise_append.mpr ⟨h.upwards, List.pairwise_singleton _ _, fun r hr s hs => ?_⟩
    rw [List.mem_singleton.mp hs]
    exact (h.within r hr).2.trans hle

/-- No two of them share a byte. -/
theorem disjoint (h : Bumped lo pointer l) :
    l.Pairwise fun r s => ∀ x, ¬ (Has r x ∧ Has s x) :=
  h.upwards.imp fun hrs x hx => by
    have h₁ := hx.1.2
    have h₂ := hx.2.1
    omega

end Bumped

end Cwhost.Lib
