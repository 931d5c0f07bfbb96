import Mathlib.Data.Nat.Bitwise
import Mathlib.Algebra.Order.Ring.Nat
import Mathlib.Data.Nat.ModEq
import Mathlib.Tactic.NormNum

/-! Arithmetic of machine words as the C sources write it: rounding up to a power of two
by a mask, and the logarithm that sizes a block. -/

namespace HeroTools

/-- `((x) + (a)-1) & ~((a)-1)` on words of `w` bits. -/
def alignUp (w x a : Nat) : Nat := (x + (a - 1)) % 2 ^ w &&& (2 ^ w - a)

theorem and_high_mask {w k x : Nat} (hk : k ≤ w) (hx : x < 2 ^ w) :
    x &&& (2 ^ w - 2 ^ k) = x / 2 ^ k * 2 ^ k := by
  apply Nat.eq_of_testBit_eq
  intro i
  have hpos : 0 < 2 ^ k := Nat.two_pow_pos k
  have hle : 2 ^ k ≤ 2 ^ w := Nat.pow_le_pow_right (by norm_num) hk
  have hmask : 2 ^ w - 2 ^ k = 2 ^ w - (2 ^ k - 1 + 1) := by omega
  rw [Nat.testBit_and, hmask, Nat.testBit_two_pow_sub_succ (by omega),
    Nat.testBit_two_pow_sub_one, Nat.testBit_mul_two_pow, Nat.testBit_div_two_pow]
  by_cases hi : k ≤ i
  · have hki : i - k + k = i := Nat.sub_add_cancel hi
    by_cases hw : i < w
    · simp [hi, hw, hki]
    · have hxi : x.testBit i = false :=
        Nat.testBit_lt_two_pow (hx.trans_le (Nat.pow_le_pow_right (by norm_num) (not_lt.mp hw)))
      simp [hi, hki, hxi]
  · have hik : i < k := not_le.mp hi
    simp [hi, hik]

theorem alignUp_two_pow {w k : Nat} (hk : k ≤ w) (x : Nat) :
    alignUp w x (2 ^ k) = (x + (2 ^ k - 1)) % 2 ^ w / 2 ^ k * 2 ^ k :=
  and_high_mask hk (Nat.mod_lt _ (Nat.two_pow_pos w))

theorem le_alignUp {w k x : Nat} (hk : k ≤ w) (hx : x + (2 ^ k - 1) < 2 ^ w) :
    x ≤ alignUp w x (2 ^ k) := by
  have hpos : 0 < 2 ^ k := Nat.two_pow_pos k
  rw [alignUp_two_pow hk, Nat.mod_eq_of_lt hx]
  have hdiv := Nat.div_add_mod' (x + (2 ^ k - 1)) (2 ^ k)
  have hmod := Nat.mod_lt (x + (2 ^ k - 1)) hpos
  omega

theorem alignUp_lt {w k : Nat} (hk : k ≤ w) (x : Nat) : alignUp w x (2 ^ k) < 2 ^ w := by
  rw [alignUp_two_pow hk]
  exact (Nat.div_mul_le_self _ _).trans_lt (Nat.mod_lt _ (Nat.two_pow_pos w))

theorem alignUp_zero {w k : Nat} (hk : k ≤ w) : alignUp w 0 (2 ^ k) = 0 := by
  have hlt : (0 + (2 ^ k - 1)) % 2 ^ w < 2 ^ k :=
    (Nat.mod_le _ _).trans_lt (by have := Nat.two_pow_pos k; omega)
  rw [alignUp_two_pow hk, Nat.div_eq_of_lt hlt, Nat.zero_mul]

theorem alignUp_4096 {w : Nat} (hw : 12 ≤ w) (x : Nat) :
    alignUp w x 4096 = (x + 4095) % 2 ^ w / 4096 * 4096 :=
  alignUp_two_pow (k := 12) hw x

/-- An address `v` moved from base `a` to base `b` on words is `f + (v - h)` just when the
two pairs of bases are equally far apart. -/
theorem rebase_iff {w v a b h f : Nat} (ha : a < w) (hle : h ≤ v) (hx : f + (v - h) < w) :
    f + (v - h) = (v + w - a + b) % w ↔ (b + h) % w = (a + f) % w := by
  obtain ⟨k, rfl⟩ := Nat.exists_eq_add_of_le hle
  rw [Nat.add_sub_cancel_left] at *
  have hmod : f + k = (h + k + w - a + b) % w ↔ f + k ≡ h + k + w - a + b [MOD w] := by
    rw [Nat.ModEq, Nat.mod_eq_of_lt hx]
  have hadd : f + k ≡ h + k + w - a + b [MOD w] ↔
      a + (f + k) ≡ a + (h + k + w - a + b) [MOD w] :=
    ⟨fun hm => hm.add_left a, Nat.ModEq.add_left_cancel' a⟩
  have hsum : a + (h + k + w - a + b) = b + h + k + w := by omega
  rw [hmod, hadd, hsum, Nat.ModEq, Nat.add_mod_right, ← Nat.add_assoc]
  exact ⟨fun hm => (Nat.ModEq.add_right_cancel' k hm).symm,
    fun hm => Nat.ModEq.add_right k hm.symm⟩

/-- `order_base_2(n)`: the least `k` with `n ≤ 2 ^ k`. -/
def orderBase2 (n : Nat) : Nat := if 1 < n then (n - 1).log2 + 1 else 0

theorem le_two_pow_orderBase2 (n : Nat) : n ≤ 2 ^ orderBase2 n := by
  unfold orderBase2
  split_ifs with h
  · have := Nat.lt_log2_self (n := n - 1)
    omega
  · simpa using h

def toInt32 (a : Nat) : Int :=
  if a % 2 ^ 32 < 2 ^ 31 then (a % 2 ^ 32 : Nat) else (a % 2 ^ 32 : Nat) - 2 ^ 32

def toUlong (a : Int) : Nat := (a % 2 ^ 64).toNat

def toLong (a : Nat) : Int :=
  if a % 2 ^ 64 < 2 ^ 63 then (a % 2 ^ 64 : Nat) else (a % 2 ^ 64 : Nat) - 2 ^ 64

theorem toInt32_of_lt {a : Nat} (h : a < 2 ^ 31) : toInt32 a = a := by
  have hm : a % 2 ^ 32 = a := Nat.mod_eq_of_lt (h.trans (by norm_num))
  rw [toInt32, hm, if_pos h]

theorem toLong_of_lt {a : Nat} (h : a < 2 ^ 63) : toLong a = a := by
  have hm : a % 2 ^ 64 = a := Nat.mod_eq_of_lt (h.trans (by norm_num))
  rw [toLong, hm, if_pos h]

theorem toUlong_natCast {a : Nat} (h : a < 2 ^ 64) : toUlong a = a := by
  unfold toUlong
  omega

end HeroTools
