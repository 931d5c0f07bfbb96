import Mathlib.Data.List.Forall2
import Mathlib.Data.Set.Disjoint
import Mathlib.Order.Interval.Set.Basic
import Mathlib.Order.Interval.Set.Disjoint
import Mathlib.Order.Interval.Set.LinearOrder
import Mathlib.Order.CompletePartialOrder
import Mathlib.Tactic.NormNum

/-! Lists of parts, each taken from a block of its own. -/

namespace HeroTools
variable {α β γ : Type*}

theorem forall₂_concat {R : α → β → Prop} {l : List α} {m : List β} {x : α} {y : β} :
    List.Forall₂ R (l ++ [x]) (m ++ [y]) ↔ List.Forall₂ R l m ∧ R x y := by
  rw [← List.forall₂_reverse_iff, List.reverse_append, List.reverse_append]
  simp only [List.reverse_cons, List.reverse_nil, List.nil_append, List.cons_append,
    List.forall₂_cons, List.forall₂_reverse_iff]
  exact and_comm

theorem pairwise_concat {R : α → α → Prop} {l : List α} {x : α} :
    (l ++ [x]).Pairwise R ↔ l.Pairwise R ∧ ∀ y ∈ l, R y x := by
  simp [List.pairwise_append]

theorem pairwise_disjoint_of_within {f : α → Set γ} {g : β → Set γ} {l : List α} {m : List β}
    (h : List.Forall₂ (fun a b => f a ⊆ g b) l m)
    (hm : m.Pairwise fun a b => Disjoint (g a) (g b)) :
    l.Pairwise fun a b => Disjoint (f a) (f b) := by
  induction h with
  | nil => exact .nil
  | @cons a b l m hab hlm ih =>
    rw [List.pairwise_cons] at hm ⊢
    refine ⟨fun c hc => ?_, ih hm.2⟩
    obtain ⟨i, hi, rfl⟩ := List.getElem_of_mem hc
    have hi' : i < m.length := hlm.length_eq ▸ hi
    have hsub : f l[i] ⊆ g m[i] := hlm.get hi hi'
    exact (hm.1 _ (List.getElem_mem hi')).mono hab hsub

/-- A part `[a, a + n)` with `a = (p + o) mod w` lies in a block at `p` that does not wrap
around just when nothing, or no more than what is left behind `o`, is taken. -/
theorem offset_part_iff {p o n k w : Nat} (hw : p + k ≤ w) (ho : o < w) :
    Set.Ico ((p + o) % w) ((p + o) % w + n) ⊆ Set.Ico p (p + k) ↔ n = 0 ∨ o + n ≤ k := by
  rcases Nat.eq_zero_or_pos n with rfl | hn
  · simp
  · rw [Set.Ico_subset_Ico_iff (by omega)]
    by_cases hlt : p + o < w
    · rw [Nat.mod_eq_of_lt hlt]
      omega
    · have hm : (p + o) % w = p + o - w := by
        rw [Nat.mod_eq_sub_mod (not_lt.mp hlt), Nat.mod_eq_of_lt (by omega)]
      rw [hm]
      omega

end HeroTools
