import HeroTools.Apps.MatvecTargets

/-! `main` of the matrix-vector program: the data that it prepares, and its comparison of the
result with one of its own. -/

namespace HeroTools.Apps
open Finset

/-! ## `main.c` -/

section
variable {R : Type} [CommRing R]

structure Prepared (a : Args) (mem : Nat → R) : Prop where
  C : ∀ k < a.n * a.d, mem (a.wP + sizeofDTYPE * k) = (k : R)
  D : ∀ j < a.n, mem (xAt a j) = if j = 0 then 1 else 0

def eTest (a : Args) (mem : Nat → R) (i : Nat) : R :=
  (List.range a.n).foldl (fun val j => val +
    mem (a.wP + sizeofDTYPE * (i * a.n + j)) * mem (a.xP + sizeofDTYPE * j)) 0

def nope [DecidableEq R] (a : Args) (mem : Nat → R) (E : Nat → Option R) : List Nat :=
  (List.range a.d).filter fun i => decide (some (eTest a mem i) ≠ E i)

theorem eTest_eq (a : Args) (mem : Nat → R) (i : Nat) : eTest a mem i = rowDot a mem i := by
  have hsum : ∀ n, (List.range n).foldl (fun val j => val +
      mem (a.wP + sizeofDTYPE * (i * a.n + j)) * mem (a.xP + sizeofDTYPE * j)) 0 =
      ∑ j ∈ range n, mem (xAt a j) * mem (wAt a i j) := by
    intro n
    induction n with
    | zero => rfl
    | succ n ih =>
      rw [List.range_succ, List.foldl_append, ih, sum_range_succ, wAt, Nat.mul_comm a.n i,
        mul_comm (mem (xAt a n))]
      rfl
  exact hsum a.n

theorem nope_eq_nil [DecidableEq R] {a : Args} {mem : Nat → R} {E : Nat → Option R}
    (h : ∀ r, E r = if r < a.d then some (rowDot a mem r) else none) : nope a mem E = [] := by
  rw [nope, List.filter_eq_nil_iff]
  intro i hi
  rw [h i, if_pos (List.mem_range.mp hi), eTest_eq]
  exact Bool.eq_false_iff.mp (decide_eq_false (not_not_intro rfl))

end

/-! ## What the kernel makes of the data -/

section
variable {R : Type} [CommRing R] {VLMAX K p : Nat} {u : VectorUnit R VLMAX} {a b : Nat → R}
  {s : RvvState R}

/-- The first element counts in lane 0, the other lanes hold nothing, and there are no more of
them in the next strip. -/
def CountsFirst (VLMAX : Nat) (b : Nat → R) (_ : Nat) (s : RvvState R) : Prop :=
  VlAllowed VLMAX (s.avl + s.vl) s.vl ∧ 0 < s.vl ∧ ∀ i < s.vl, s.v24 i = if i = 0 then b 0 else 0

theorem countsFirst_first (hV : 1 ≤ VLMAX) (hK : 1 ≤ K)
    (ha : ∀ j < K, a j = if j = 0 then 1 else 0) (u : VectorUnit R VLMAX) (v : Nat → Lanes R) :
    CountsFirst VLMAX b (u.vsetvli K) (rvvStrip u a b K (rvvStart v K)) := by
  have hle := (u.vsetvli_allowed K).le_avl
  refine ⟨?_, (u.vsetvli_allowed K).pos hV hK, fun i hi => ?_⟩
  · change VlAllowed VLMAX (K - u.vsetvli K + u.vsetvli K) (u.vsetvli K)
    rw [Nat.sub_add_cancel hle]
    exact u.vsetvli_allowed K
  · rw [rvvStrip_first (rvvStart_at v K) hi, ha i (lt_of_lt_of_le hi hle), ite_mul, one_mul,
      zero_mul]
    exact ite_congr rfl (fun hi => congrArg b hi) fun _ => rfl

theorem CountsFirst.strip (h : CountsFirst VLMAX b p s) (hV : 1 ≤ VLMAX)
    (ha : ∀ j < K, a j = if j = 0 then 1 else 0) (hat : RvvAt K p s) (hp : 0 < p)
    (havl : 0 < s.avl) :
    CountsFirst VLMAX b (p + u.vsetvli s.avl) (rvvStrip u a b K s) := by
  obtain ⟨hallowed, -, hlanes⟩ := h
  have hnext := u.vsetvli_allowed s.avl
  have hle := hnext.le_avl
  refine ⟨?_, hnext.pos hV havl, fun i hi => ?_⟩
  · change VlAllowed VLMAX (s.avl - u.vsetvli s.avl + u.vsetvli s.avl) (u.vsetvli s.avl)
    rw [Nat.sub_add_cancel hle]
    exact hnext
  · have hi : i < u.vsetvli s.avl := hi
    have hend := hat.avl_eq
    -- behind the first strip `a` holds only 0, and no lane beyond those before is used
    have hne : p + i ≠ 0 := by omega
    rw [rvvStrip_next hat hp hi, hlanes i (lt_of_lt_of_le hi (hallowed.le_of_next hnext)),
      ha (p + i) (by omega), if_neg hne, zero_mul, add_zero]

theorem fdotpRvv32b_first (hV : 1 ≤ VLMAX) (hK : 1 ≤ K)
    (ha : ∀ j < K, a j = if j = 0 then 1 else 0) (u : VectorUnit R VLMAX) (v : Nat → Lanes R)
    (b : Nat → R) : ∃ n r, fdotpRvv32b n u v a b K = some r ∧ r.Agrees a b K := by
  obtain ⟨n, s, hrun, hat, -, hvl, hlanes⟩ :=
    fdotpRvv32b_total hV hK v (countsFirst_first (b := b) hV hK ha u v)
      fun p s hat hI hp havl => hI.strip hV ha hat hp havl
  have hfirst : ∑ i ∈ range K, a i * b i = b 0 := by
    have hterm : ∀ i ∈ range K, a i * b i = if i = 0 then b 0 else 0 := by
      intro i hi
      rw [ha i (mem_range.mp hi), ite_mul, one_mul, zero_mul]
      exact ite_congr rfl (fun hi => congrArg b hi) fun _ => rfl
    rw [sum_congr rfl hterm, sum_ite_eq' (range K) 0, if_pos (mem_range.mpr hK)]
  have hreduced : ∑ i ∈ range s.vl, s.v24 i = b 0 := by
    rw [sum_congr rfl fun i hi => hlanes i (mem_range.mp hi), sum_ite_eq' (range s.vl) 0,
      if_pos (mem_range.mpr hvl)]
  refine ⟨n, rvvReduce u s, hrun, Dot.agrees_iff.mpr ⟨?_, hat.reads_a, hat.reads_b⟩⟩
  rw [rvvReduce_c hvl, hreduced, hfirst]

end

/-! ## The comparison -/

section
variable {R : Type} [CommRing R] {VLMAX : Nat} {a : Args} {mem : Nat → R}

theorem Prepared.agreesOn (hmem : Prepared a mem) (hV : 1 ≤ VLMAX) (ht : a.target = .spatz)
    (k : Calls R VLMAX) : AgreesOn a k mem := by
  intro row x w hx
  have hfirst : ∀ j < a.n, x j = if j = 0 then 1 else 0 := fun j hj =>
    (hx j hj).trans (hmem.D j hj)
  rw [ht]
  have hagree := fdotpRvv32b_first hV a.n_pos hfirst (k.unit row) (k.regs row) w
  exact fdotpRvv32b_within hV a.n_pos hagree

end

/-- On Spatz the comparison finds nothing, whatever the length of the rows: with the data of
`main`, the elements that the kernel loses do not count. -/
theorem main_prints_no_nope {R : Type} [CommRing R] [DecidableEq R] {VLMAX : Nat}
    (hV : 1 ≤ VLMAX) {a : Args} (ht : a.target = .spatz) (hd : 2 ≤ a.d) {mem : Nat → R}
    (hmem : Prepared a mem) (k : Calls R VLMAX) (l1 : Buf → Nat → R) :
    TargetComputes a k mem l1 ∧
      ∀ tr s ret, (targetMatvec a k mem).Run (matvecStart l1) tr s → s.pc = .exit ret →
        nope a mem s.xout = [] := by
  have hcomputes := targetComputes_of_agrees ⟨hd, .inl ht⟩ (hmem.agreesOn hV ht k) l1
  refine ⟨hcomputes, fun tr s ret hrun hexit => ?_⟩
  exact nope_eq_nil (hcomputes.product tr s ret hrun hexit).2

def fiveColumnsMem (p : Nat) : ℤ :=
  if p = 0x1000 then 1 else if 0x2000 ≤ p then ((p - 0x2000) / 4 : Nat) else 0

theorem five_columns_prepared : Prepared spatzFiveColumns fiveColumnsMem where
  C := by decide
  D := by decide

theorem main_prints_no_nope_five_columns :
    (¬ TargetCorrect 4 spatzFiveColumns) ∧
      TargetComputes spatzFiveColumns (greedyCalls 4) fiveColumnsMem (fun _ _ => 0) ∧
      ∀ tr s ret, (targetMatvec spatzFiveColumns (greedyCalls 4) fiveColumnsMem).Run
        (matvecStart fun _ _ => 0) tr s → s.pc = .exit ret →
          nope spatzFiveColumns fiveColumnsMem s.xout = [] := by
  refine ⟨fun h => ?_, main_prints_no_nope (by decide) rfl le_rfl five_columns_prepared _ _⟩
  have hfit : 5 ≤ 4 ∨ 4 ∣ 5 := spatz_fits_of_correct (by decide) rfl h
  exact absurd hfit (by decide)

end HeroTools.Apps
