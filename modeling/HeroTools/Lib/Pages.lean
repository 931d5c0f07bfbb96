import Mathlib.Algebra.Order.Ring.Nat
import Mathlib.Tactic.NormNum

/-! Pages of `P` bytes, and the pages that a range of bytes touches. -/

namespace HeroTools
variable {P base size n : Nat}

/-- The number of pages that `size` bytes from `base` on reach into, for a positive size. -/
def pageSpan (P base size : Nat) : Nat := (base % P + size + (P - 1)) / P

theorem le_pageSpan_iff (hP : 0 < P) (hn : 0 < n) :
    n ≤ pageSpan P base size ↔ P * (n - 1) < base % P + size := by
  obtain ⟨m, rfl⟩ : ∃ m, n = m + 1 := ⟨n - 1, by omega⟩
  rw [pageSpan, Nat.le_div_iff_mul_le hP, Nat.add_mul, Nat.one_mul, Nat.add_sub_cancel,
    Nat.mul_comm]
  omega

theorem exists_byte_iff (hP : 0 < P) (j : Nat) :
    (∃ a, base ≤ a ∧ a < base + size ∧ a / P = base / P + j) ↔
      0 < size ∧ (j = 0 ∨ P * j < base % P + size) := by
  have hbase := Nat.div_add_mod base P
  constructor
  · rintro ⟨a, hle, hlt, hq⟩
    refine ⟨by omega, ?_⟩
    rcases Nat.eq_zero_or_pos j with hj | hj
    · exact .inl hj
    · right
      have ha := Nat.div_mul_le_self a P
      rw [hq, Nat.add_mul, Nat.mul_comm, Nat.mul_comm j] at ha
      omega
  · rintro ⟨hs, hj⟩
    rcases Nat.eq_zero_or_pos j with rfl | hpos
    · exact ⟨base, le_rfl, by omega, rfl⟩
    · have hend : P * j < base % P + size := hj.resolve_left hpos.ne'
      have hmod := Nat.mod_lt base hP
      have hle : P ≤ P * j := Nat.le_mul_of_pos_right P hpos
      refine ⟨P * (base / P + j), ?_, ?_, Nat.mul_div_cancel_left _ hP⟩
      · rw [Nat.mul_add]
        omega
      · rw [Nat.mul_add]
        omega

theorem pages_within_iff (hP : 0 < P) (hn : 0 < n) :
    (∀ q, base / P ≤ q → q < base / P + n →
      ∃ a, base ≤ a ∧ a < base + size ∧ a / P = q) ↔
      0 < size ∧ n ≤ pageSpan P base size := by
  rw [le_pageSpan_iff hP hn]
  constructor
  · intro h
    obtain ⟨hs, hj⟩ := (exists_byte_iff hP (n - 1)).mp
      (h (base / P + (n - 1)) (Nat.le_add_right _ _) (by omega))
    refine ⟨hs, ?_⟩
    rcases hj with hj | hj
    · rw [hj]
      omega
    · exact hj
  · rintro ⟨hs, hlast⟩ q hle hlt
    obtain ⟨j, rfl⟩ : ∃ j, q = base / P + j := ⟨q - base / P, by omega⟩
    have hj : P * j ≤ P * (n - 1) := Nat.mul_le_mul_left P (by omega)
    exact (exists_byte_iff hP j).mpr ⟨hs, .inr (by omega)⟩

end HeroTools
