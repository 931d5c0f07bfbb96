import HeroTools.Lib.DoWhile
import Mathlib.Algebra.BigOperators.Intervals
import Mathlib.Algebra.Ring.Basic
import Mathlib.Algebra.Ring.Int.Defs
import Mathlib.Tactic.Ring

/-! The dot products of `fdotp.h`: the plain one, and the one that Occamy runs on pairs of
floats. Arithmetic is that of a commutative ring. -/

namespace HeroTools.Apps
open Finset
variable {R : Type*} {K : UInt32} {p : Nat}

/-- What a kernel stores in `*c`, and the indices of the elements that it reads. -/
structure Dot (R : Type*) where
  c : R
  readA : List Nat
  readB : List Nat
deriving DecidableEq, Repr

def Dot.ReadsBelow (r : Dot R) (K : Nat) : Prop :=
  (∀ i ∈ r.readA, i < K) ∧ ∀ i ∈ r.readB, i < K

variable [CommRing R] {a b : Nat → R}

/-! ## `fdotp_naive_32b` -/

def naiveTurn (a b : Nat → R) (s : Dot R) (i : Nat) : Dot R :=
  { c := s.c + a i * b i, readA := s.readA ++ [i], readB := s.readB ++ [i] }

def fdotpNaive32b (a b : Nat → R) (K : Nat) : Dot R :=
  (List.range K).foldl (naiveTurn a b) ⟨0, [], []⟩

theorem fdotpNaive32b_eq (a b : Nat → R) (K : Nat) :
    fdotpNaive32b a b K = ⟨∑ i ∈ range K, a i * b i, List.range K, List.range K⟩ := by
  induction K with
  | zero => rfl
  | succ K ih =>
    have hlast : fdotpNaive32b a b (K + 1) = naiveTurn a b (fdotpNaive32b a b K) K := by
      rw [fdotpNaive32b, List.range_succ, List.foldl_append]
      rfl
    rw [hlast, ih, naiveTurn, sum_range_succ, List.range_succ]

def Dot.Agrees (r : Dot R) (a b : Nat → R) (K : Nat) : Prop :=
  r.c = (fdotpNaive32b a b K).c ∧ r.c = ∑ i ∈ range K, a i * b i ∧ r.ReadsBelow K

theorem Dot.agrees_iff {r : Dot R} {K : Nat} :
    r.Agrees a b K ↔ r.c = ∑ i ∈ range K, a i * b i ∧ r.ReadsBelow K := by
  rw [Dot.Agrees, fdotpNaive32b_eq, ← and_assoc, and_self_iff]

/-! ## `fdotp_simd_32b` -/

structure Pair (R : Type*) where
  lo : R
  hi : R
deriving DecidableEq, Repr

def fld (mem : Nat → R) (p : Nat) : Pair R := ⟨mem (p / 4), mem (p / 4 + 1)⟩

def fldReads (p : Nat) : List Nat := [p / 4, p / 4 + 1]

def vfmulS (x y : Pair R) : Pair R := ⟨x.lo * y.lo, x.hi * y.hi⟩

def vfmacS (d x y : Pair R) : Pair R := ⟨d.lo + x.lo * y.lo, d.hi + x.hi * y.hi⟩

def vfsumS (d x : Pair R) : Pair R := ⟨d.lo + x.lo + x.hi, d.hi⟩

/-- The registers of the assembly code. `a` and `b` count bytes from the first elements. -/
structure SimdState (R : Type*) where
  a : Nat
  b : Nat
  t0 : BitVec 32
  ft1 : Pair R
  ft2 : Pair R
  ft3 : Pair R
  ft4 : Pair R
  readA : List Nat
  readB : List Nat

/-- Up to the label: the first pair is multiplied, not accumulated. -/
def simdHead (a b : Nat → R) : SimdState R :=
  { a := 0 + 8, b := 0 + 8, t0 := 2
    ft1 := fld a 0, ft2 := fld b 0, ft3 := ⟨0, 0⟩
    ft4 := vfmulS (fld a 0) (fld b 0)
    readA := fldReads 0, readB := fldReads 0 }

/-- From the label `3:` to the branch. -/
def simdTurn (a b : Nat → R) (s : SimdState R) : SimdState R :=
  let ft1 := fld a s.a
  let ft2 := fld b s.b
  { a := s.a + 8, b := s.b + 8, t0 := s.t0 + 2
    ft1 := ft1, ft2 := ft2, ft3 := s.ft3
    ft4 := vfmacS s.ft4 ft1 ft2
    readA := s.readA ++ fldReads s.a, readB := s.readB ++ fldReads s.b }

/-- `blt t0, K, 3b` compares signed numbers. -/
def simdBranch (K : UInt32) (s : SimdState R) : Bool := s.t0.slt K.toBitVec

def simdStore (s : SimdState R) : Dot R :=
  { c := (vfsumS s.ft3 s.ft4).lo, readA := s.readA, readB := s.readB }

def fdotpSimd32b (n : Nat) (a b : Nat → R) (K : UInt32) : Option (Dot R) :=
  (doWhile (simdTurn a b) (simdBranch K) n (simdHead a b)).map simdStore

structure SimdAt (a b : Nat → R) (p : Nat) (s : SimdState R) : Prop where
  a_eq : s.a = 4 * p
  b_eq : s.b = 4 * p
  t0_eq : s.t0 = BitVec.ofNat 32 p
  ft3_eq : s.ft3 = ⟨0, 0⟩
  sum_eq : s.ft4.lo + s.ft4.hi = ∑ i ∈ range p, a i * b i
  reads_a : s.readA = List.range p
  reads_b : s.readB = List.range p

theorem simdHead_at (a b : Nat → R) : SimdAt a b 2 (simdHead a b) where
  a_eq := rfl
  b_eq := rfl
  t0_eq := rfl
  ft3_eq := rfl
  sum_eq := by simp [simdHead, vfmulS, fld, sum_range_succ]
  reads_a := rfl
  reads_b := rfl

theorem fldReads_four_mul (p : Nat) : List.range p ++ fldReads (4 * p) = List.range (p + 2) := by
  rw [fldReads, Nat.mul_div_cancel_left p (by decide), List.range_succ, List.range_succ,
    List.append_assoc]
  rfl

theorem SimdAt.turn {s : SimdState R} (h : SimdAt a b p s) :
    SimdAt a b (p + 2) (simdTurn a b s) where
  a_eq := by rw [simdTurn, h.a_eq]; rfl
  b_eq := by rw [simdTurn, h.b_eq]; rfl
  t0_eq := by rw [BitVec.ofNat_add, ← h.t0_eq]; rfl
  ft3_eq := h.ft3_eq
  sum_eq := by
    have hsum := h.sum_eq
    rw [sum_range_succ, sum_range_succ, ← hsum]
    simp only [simdTurn, vfmacS, fld, h.a_eq, h.b_eq, Nat.mul_div_cancel_left p four_pos]
    ring
  reads_a := by rw [← fldReads_four_mul, ← h.reads_a, ← h.a_eq]; rfl
  reads_b := by rw [← fldReads_four_mul, ← h.reads_b, ← h.b_eq]; rfl

theorem SimdAt.store_c {s : SimdState R} (h : SimdAt a b p s) :
    (simdStore s).c = ∑ i ∈ range p, a i * b i := by
  rw [← h.sum_eq, simdStore, vfsumS, h.ft3_eq, zero_add]

theorem SimdAt.branch {s : SimdState R} (h : SimdAt a b p s) (hp : p < 2 ^ 31) :
    simdBranch K s = true ↔ p < K.toNat ∧ K.toNat < 2 ^ 31 := by
  have hK := K.toNat_lt
  rw [simdBranch, h.t0_eq, BitVec.slt_iff_toInt_lt, BitVec.toInt_eq_toNat_cond,
    BitVec.toInt_eq_toNat_cond, BitVec.toNat_ofNat, UInt32.toNat_toBitVec]
  split_ifs <;> omega

def SimdAfter (a b : Nat → R) (P : Nat → Prop) (s : SimdState R) : Prop :=
  ∃ p, SimdAt a b p s ∧ P p

theorem SimdAfter.turn {P Q : Nat → Prop} {s : SimdState R} (h : SimdAfter a b P s)
    (hPQ : ∀ p, P p → Q (p + 2)) : SimdAfter a b Q (simdTurn a b s) := by
  obtain ⟨p, hs, hp⟩ := h
  exact ⟨p + 2, hs.turn, hPQ p hp⟩

theorem fdotpSimd32b_after {P : Nat → Prop} {n : Nat} {r : Dot R} (h4 : P 4)
    (hstep : ∀ s, SimdAfter a b P s → simdBranch K s = true → SimdAfter a b P (simdTurn a b s))
    (h : fdotpSimd32b n a b K = some r) :
    ∃ p s, SimdAt a b p s ∧ P p ∧ simdBranch K s = false ∧ simdStore s = r := by
  obtain ⟨s, hs, hr⟩ := Option.map_eq_some_iff.mp h
  obtain ⟨⟨p, hat, hp⟩, hexit⟩ :=
    doWhile_invariant (I := SimdAfter a b P) ⟨4, (simdHead_at a b).turn, h4⟩ hstep hs
  exact ⟨p, s, hat, hp, hexit, hr⟩

theorem fdotpSimd32b_agrees (heven : K.toNat % 2 = 0) (h4 : 4 ≤ K.toNat)
    (hK : K.toNat < 2 ^ 31) (a b : Nat → R) :
    ∃ n r, fdotpSimd32b n a b K = some r ∧ r.Agrees a b K.toNat := by
  have hstep : ∀ s, SimdAfter a b (fun p => p % 2 = 0 ∧ p ≤ K.toNat) s →
      simdBranch K s = true →
      SimdAfter a b (fun p => p % 2 = 0 ∧ p ≤ K.toNat) (simdTurn a b s) ∧
        4 * K.toNat - (simdTurn a b s).a < 4 * K.toNat - s.a := by
    rintro s ⟨p, hs, hpe, hpK⟩ hbranch
    have hlt := ((hs.branch (by omega)).mp hbranch).1
    refine ⟨⟨p + 2, hs.turn, by omega, by omega⟩, ?_⟩
    rw [hs.a_eq, hs.turn.a_eq]
    omega
  obtain ⟨n, s, hrun, ⟨p, hs, hpe, hpK⟩, hexit⟩ :=
    doWhile_total (fun s : SimdState R => 4 * K.toNat - s.a)
      ⟨4, (simdHead_at a b).turn, rfl, h4⟩ hstep
  have hp : p = K.toNat := by
    by_contra hne
    have hbranch := (hs.branch (K := K) (by omega)).mpr ⟨by omega, hK⟩
    exact absurd (hexit.symm.trans hbranch) Bool.false_ne_true
  refine ⟨n, simdStore s, by rw [fdotpSimd32b, hrun, Option.map_some], ?_⟩
  rw [Dot.agrees_iff, hs.store_c, hp]
  refine ⟨rfl, ?_, ?_⟩
  · intro i hi
    rw [← hp]
    exact List.mem_range.mp (hs.reads_a ▸ hi)
  · intro i hi
    rw [← hp]
    exact List.mem_range.mp (hs.reads_b ▸ hi)

theorem fdotpSimd32b_reads_past (hodd : K.toNat % 2 = 1 ∨ K.toNat ≤ 2)
    (hK : K.toNat < 2 ^ 31) {n : Nat} {r : Dot R} (h : fdotpSimd32b n a b K = some r) :
    K.toNat ∈ r.readA := by
  -- Even numbers of elements pass over an odd `K` without meeting it.
  obtain ⟨p, s, hs, ⟨-, hp⟩, hexit, rfl⟩ := fdotpSimd32b_after
    (P := fun p => p % 2 = 0 ∧ (K.toNat < p ∨ p + 1 ≤ K.toNat ∧ K.toNat % 2 = 1))
    ⟨rfl, by omega⟩ (fun s hs _ => hs.turn fun p hp => by omega) h
  rcases hp with hp | ⟨hp, -⟩
  · rw [simdStore, hs.reads_a]
    exact List.mem_range.mpr hp
  · have hbranch := (hs.branch (K := K) (by omega)).mpr ⟨hp, hK⟩
    exact absurd (hexit.symm.trans hbranch) Bool.false_ne_true

/-- From 2³¹ on, the comparison takes `K` for a negative number. -/
theorem fdotpSimd32b_four (hK : 2 ^ 31 ≤ K.toNat) {n : Nat} {r : Dot R}
    (h : fdotpSimd32b n a b K = some r) : r.c = ∑ i ∈ range 4, a i * b i := by
  have hexit : ∀ s, SimdAfter a b (· = 4) s → simdBranch K s ≠ true := by
    rintro s ⟨p, hs, rfl⟩ hbranch
    exact absurd ((hs.branch (by decide)).mp hbranch).2 (by omega)
  obtain ⟨p, s, hs, rfl, -, rfl⟩ := fdotpSimd32b_after (P := (· = 4)) rfl
    (fun s hs hbranch => absurd hbranch (hexit s hs)) h
  exact hs.store_c

/-! ## When they agree -/

/-- The kernel ends, agrees with the plain one and stays within the arrays, whatever they
hold. -/
def SimdAgrees (K : UInt32) : Prop :=
  ∀ (R : Type) [CommRing R] (a b : Nat → R),
    ∃ n r, fdotpSimd32b n a b K = some r ∧ r.Agrees a b K.toNat

def onlyAt (k : Nat) : Nat → ℤ := fun i => if i = k then 1 else 0

theorem sum_onlyAt (k n : Nat) :
    ∑ i ∈ range n, onlyAt k i * 1 = if k < n then 1 else 0 := by
  simp only [mul_one, onlyAt, sum_ite_eq', mem_range]

theorem fdotpSimd32b_agrees_iff (K : UInt32) :
    SimdAgrees K ↔ K.toNat % 2 = 0 ∧ 4 ≤ K.toNat ∧ K.toNat < 2 ^ 31 := by
  constructor
  · intro h
    obtain ⟨n, r, hr, hagree⟩ := h ℤ (onlyAt 4) fun _ => 1
    obtain ⟨hc, hreads, -⟩ := Dot.agrees_iff.mp hagree
    have hK : K.toNat < 2 ^ 31 := by
      by_contra hK
      rw [fdotpSimd32b_four (not_lt.mp hK) hr, sum_onlyAt, sum_onlyAt, if_neg (by decide),
        if_pos (by omega)] at hc
      exact absurd hc zero_ne_one
    by_contra hcond
    exact absurd (hreads _ (fdotpSimd32b_reads_past (by omega) hK hr)) (lt_irrefl _)
  · rintro ⟨heven, h4, hK⟩ R _ a b
    exact fdotpSimd32b_agrees heven h4 hK a b

theorem fdotpSimd32b_three :
    fdotpSimd32b 1 (fun _ => (1 : ℤ)) (fun _ => 1) 3 = some ⟨4, [0, 1, 2, 3], [0, 1, 2, 3]⟩ ∧
      (fdotpNaive32b (fun _ => (1 : ℤ)) (fun _ => 1) 3).c = 3 ∧ ¬ SimdAgrees 3 := by
  refine ⟨by decide, by decide, fun h => ?_⟩
  obtain ⟨n, r, hr, hagree⟩ := h ℤ (fun _ => 1) fun _ => 1
  exact absurd (hagree.2.2.1 _ (fdotpSimd32b_reads_past (.inl rfl) (by decide) hr)) (lt_irrefl _)

end HeroTools.Apps
