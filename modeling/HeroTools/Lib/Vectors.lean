import Mathlib.Algebra.BigOperators.Intervals
import Mathlib.Algebra.Order.BigOperators.Group.List
import Mathlib.Algebra.Ring.Basic

/-! The part of the RISC-V vector extension that strip-mined loops use: how `vsetvli` may
choose the vector length, and the instructions on registers of lanes, of which only the first
`vl` are defined by an instruction that is tail-agnostic. -/

namespace HeroTools
open Finset

/-! ## The vector length -/

/-- What `vsetvli` may return for a request of `avl` elements. -/
def VlAllowed (VLMAX avl vl : Nat) : Prop :=
  if avl ≤ VLMAX then vl = avl
  else if avl < 2 * VLMAX then (avl + 1) / 2 ≤ vl ∧ vl ≤ VLMAX
  else vl = VLMAX

instance (VLMAX avl vl : Nat) : Decidable (VlAllowed VLMAX avl vl) := by
  unfold VlAllowed
  infer_instance

section
variable {VLMAX avl vl : Nat}

theorem VlAllowed.eq_avl (h : VlAllowed VLMAX avl vl) (ha : avl ≤ VLMAX) : vl = avl := by
  rwa [VlAllowed, if_pos ha] at h

theorem VlAllowed.le_avl (h : VlAllowed VLMAX avl vl) : vl ≤ avl := by
  unfold VlAllowed at h
  split_ifs at h <;> omega

theorem VlAllowed.pos (h : VlAllowed VLMAX avl vl) (hV : 0 < VLMAX) (ha : 0 < avl) : 0 < vl := by
  unfold VlAllowed at h
  split_ifs at h <;> omega

theorem VlAllowed.eq_of_dvd (h : VlAllowed VLMAX avl vl) (ha : 0 < avl) (hd : VLMAX ∣ avl) :
    vl = VLMAX := by
  obtain ⟨k, rfl⟩ := hd
  have hk : 0 < k := Nat.pos_of_ne_zero fun hk => by simp [hk] at ha
  unfold VlAllowed at h
  rcases Nat.lt_or_ge 1 k with hk2 | hk1
  · have hle : 2 * VLMAX ≤ VLMAX * k := by
      rw [Nat.mul_comm]
      exact Nat.mul_le_mul_left VLMAX hk2
    split_ifs at h <;> omega
  · have hk : k = 1 := by omega
    subst hk
    rw [Nat.mul_one, if_pos (Nat.le_refl _)] at h
    exact h

theorem VlAllowed.le_of_next {vl' : Nat} (h : VlAllowed VLMAX (avl + vl) vl)
    (h' : VlAllowed VLMAX avl vl') : vl' ≤ vl := by
  unfold VlAllowed at h h'
  split_ifs at h h' <;> omega

theorem vlAllowed_min (VLMAX avl : Nat) : VlAllowed VLMAX avl (min avl VLMAX) := by
  unfold VlAllowed
  split_ifs <;> omega

end

/-! ## Strips -/

structure VlChoice (VLMAX : Nat) where
  vsetvli : Nat → Nat
  vsetvli_allowed : ∀ avl, VlAllowed VLMAX avl (vsetvli avl)

namespace VlChoice
variable {VLMAX avl : Nat} (c : VlChoice VLMAX)

/-- The lengths of the strips, of which there are at most `n`. -/
def stripsWithin : Nat → Nat → List Nat
  | 0, _ => []
  | n + 1, avl => if avl = 0 then [] else c.vsetvli avl :: stripsWithin n (avl - c.vsetvli avl)

def strips (avl : Nat) : List Nat := c.stripsWithin avl avl

theorem strips_zero : c.strips 0 = [] := rfl

theorem stripsWithin_eq (hV : 1 ≤ VLMAX) {n : Nat} (hn : avl ≤ n) :
    c.stripsWithin n avl = c.strips avl := by
  induction avl using Nat.strongRecOn generalizing n with
  | ind avl ih =>
    rcases Nat.eq_zero_or_pos avl with rfl | havl
    · cases n <;> rfl
    · have hvl := (c.vsetvli_allowed avl).pos hV havl
      obtain ⟨n, rfl⟩ := Nat.exists_eq_add_one.mpr (havl.trans_le hn)
      obtain ⟨m, rfl⟩ := Nat.exists_eq_add_one.mpr havl
      rw [strips, stripsWithin, stripsWithin, if_neg havl.ne', if_neg havl.ne',
        ih _ (Nat.sub_lt havl hvl) (by omega : _ ≤ n), ih _ (Nat.sub_lt havl hvl) (by omega)]

theorem strips_of_pos (hV : 1 ≤ VLMAX) (havl : 0 < avl) :
    c.strips avl = c.vsetvli avl :: c.strips (avl - c.vsetvli avl) := by
  have hvl := (c.vsetvli_allowed avl).pos hV havl
  obtain ⟨n, rfl⟩ := Nat.exists_eq_add_one.mpr havl
  rw [strips, stripsWithin, if_neg havl.ne', c.stripsWithin_eq hV (by omega)]

theorem sum_strips (hV : 1 ≤ VLMAX) (avl : Nat) : (c.strips avl).sum = avl := by
  induction avl using Nat.strongRecOn with
  | ind avl ih =>
    rcases Nat.eq_zero_or_pos avl with rfl | havl
    · rfl
    · have hvl := (c.vsetvli_allowed avl).pos hV havl
      rw [c.strips_of_pos hV havl, List.sum_cons, ih _ (Nat.sub_lt havl hvl)]
      exact Nat.add_sub_cancel' (c.vsetvli_allowed avl).le_avl

theorem strips_pairwise (hV : 1 ≤ VLMAX) (avl : Nat) :
    (∀ vl ∈ c.strips avl, vl ≤ c.vsetvli avl) ∧ (c.strips avl).Pairwise fun vl vl' => vl' ≤ vl := by
  induction avl using Nat.strongRecOn with
  | ind avl ih =>
    rcases Nat.eq_zero_or_pos avl with rfl | havl
    · exact ⟨fun _ hvl => absurd hvl List.not_mem_nil, .nil⟩
    · have hvl := (c.vsetvli_allowed avl).pos hV havl
      obtain ⟨hle, hpair⟩ := ih _ (Nat.sub_lt havl hvl)
      have hallowed : VlAllowed VLMAX (avl - c.vsetvli avl + c.vsetvli avl) (c.vsetvli avl) := by
        rw [Nat.sub_add_cancel (c.vsetvli_allowed avl).le_avl]
        exact c.vsetvli_allowed avl
      have hnext := hallowed.le_of_next (c.vsetvli_allowed (avl - c.vsetvli avl))
      rw [c.strips_of_pos hV havl]
      refine ⟨fun vl hmem => ?_, List.pairwise_cons.mpr ⟨fun vl hmem => (hle vl hmem).trans hnext,
        hpair⟩⟩
      rcases List.mem_cons.mp hmem with rfl | hmem
      · exact le_rfl
      · exact (hle vl hmem).trans hnext

theorem eq_of_pairwise (hV : 1 ≤ VLMAX) (h : (c.strips avl).Pairwise (· ≤ ·)) :
    ∀ vl ∈ c.strips avl, vl = c.vsetvli avl := by
  intro vl hmem
  refine ((c.strips_pairwise hV avl).1 vl hmem).antisymm ?_
  rcases Nat.eq_zero_or_pos avl with rfl | havl
  · exact absurd hmem List.not_mem_nil
  · rw [c.strips_of_pos hV havl] at h hmem
    rcases List.mem_cons.mp hmem with rfl | hmem
    · exact le_rfl
    · exact (List.pairwise_cons.mp h).1 vl hmem

theorem pairwise_of_eq {L : Nat} (h : ∀ vl ∈ c.strips avl, vl = L) :
    (c.strips avl).Pairwise (· ≤ ·) :=
  List.pairwise_of_forall_mem_list fun vl hvl vl' hvl' => (h vl hvl).trans (h vl' hvl').symm |>.le

theorem dvd_of_pairwise (hV : 1 ≤ VLMAX) (h : (c.strips avl).Pairwise (· ≤ ·)) :
    c.vsetvli avl ∣ avl := by
  have hsum := c.sum_strips hV avl
  rw [List.eq_replicate_of_mem (c.eq_of_pairwise hV h), List.sum_replicate_nat] at hsum
  exact Dvd.intro_left _ hsum

theorem pairwise_of_fits (hV : 1 ≤ VLMAX) (h : avl ≤ VLMAX ∨ VLMAX ∣ avl) :
    (c.strips avl).Pairwise (· ≤ ·) := by
  rcases Nat.eq_zero_or_pos avl with rfl | havl
  · exact .nil
  rcases h with hle | hdvd
  · rw [c.strips_of_pos hV havl, (c.vsetvli_allowed avl).eq_avl hle, Nat.sub_self]
    exact List.pairwise_singleton _ _
  · refine @pairwise_of_eq _ _ c VLMAX ?_
    clear havl
    induction avl using Nat.strongRecOn with
    | ind avl ih =>
      rcases Nat.eq_zero_or_pos avl with rfl | havl
      · exact fun _ hvl => absurd hvl List.not_mem_nil
      · have hfull := (c.vsetvli_allowed avl).eq_of_dvd havl hdvd
        have hrest : VLMAX ∣ avl - VLMAX := Nat.dvd_sub hdvd (Nat.dvd_refl VLMAX)
        rw [c.strips_of_pos hV havl, hfull]
        intro vl hmem
        rcases List.mem_cons.mp hmem with rfl | hmem
        · rfl
        · exact ih _ (Nat.sub_lt havl hV) hrest vl hmem

theorem last_mul_length_lt (hV : 1 ≤ VLMAX) {done : List Nat} {vl : Nat}
    (hlast : c.strips avl = done ++ [vl]) (h : ¬ (c.strips avl).Pairwise (· ≤ ·)) :
    vl * (done.length + 1) < avl := by
  have hge := (c.strips_pairwise hV avl).2
  rw [hlast, List.pairwise_append] at hge
  have hle : ∀ vl' ∈ c.strips avl, vl ≤ vl' := by
    rw [hlast]
    intro vl' hmem
    rcases List.mem_append.mp hmem with hmem | hmem
    · exact hge.2.2 vl' hmem vl List.mem_cons_self
    · exact (List.mem_singleton.mp hmem).ge
  have hlt : ∃ vl' ∈ c.strips avl, vl < vl' := by
    by_contra hnone
    push Not at hnone
    exact h (c.pairwise_of_eq fun vl' hmem => (hnone vl' hmem).antisymm (hle vl' hmem))
  have hsum := List.sum_lt_sum (fun _ => vl) (fun vl' => vl') hle hlt
  rw [List.map_id', c.sum_strips hV, List.map_const', List.sum_replicate_nat, hlast,
    List.length_append, Nat.mul_comm] at hsum
  exact hsum

end VlChoice

/-! ## Instructions -/

abbrev Lanes (R : Type*) := Nat → R

section
variable {R : Type*} {vl i : Nat} {tail old x y d f : Lanes R} {mem : Nat → R}

def vwrite (vl : Nat) (tail f : Lanes R) : Lanes R := fun i => if i < vl then f i else tail i

theorem vwrite_of_lt (h : i < vl) : vwrite vl tail f i = f i := by
  rw [vwrite, if_pos h]

def vle (vl : Nat) (tail : Lanes R) (mem : Nat → R) (p : Nat) : Lanes R :=
  vwrite vl tail fun i => mem (p + i)

def vleReads (vl p : Nat) : List Nat := (List.range vl).map (p + ·)

theorem lt_of_mem_vleReads {p j : Nat} (h : j ∈ vleReads vl p) : j < p + vl := by
  obtain ⟨i, hi, rfl⟩ := List.mem_map.mp h
  exact Nat.add_lt_add_left (List.mem_range.mp hi) p

def vmvVI (vl : Nat) (tail : Lanes R) (v : R) : Lanes R := vwrite vl tail fun _ => v

variable [CommRing R]

def vfmulVv (vl : Nat) (tail x y : Lanes R) : Lanes R := vwrite vl tail fun i => x i * y i

def vfmaccVv (vl : Nat) (tail d x y : Lanes R) : Lanes R :=
  vwrite vl tail fun i => d i + x i * y i

/-- Lane 0 gets lane 0 of `y` and the first `vl` lanes of `x`, added in any order. -/
def vfredusumVs (vl : Nat) (tail old x y : Lanes R) : Lanes R :=
  if vl = 0 then old else vwrite 1 tail fun _ => y 0 + ∑ i ∈ range vl, x i

theorem vfredusumVs_zero (h : 0 < vl) :
    vfredusumVs vl tail old x y 0 = y 0 + ∑ i ∈ range vl, x i := by
  rw [vfredusumVs, if_neg (by omega), vwrite_of_lt Nat.one_pos]

end
end HeroTools
