import Mathlib.Algebra.Order.Ring.Nat

/-! Positions in a sequence that is cut into pieces, when every piece is turned around. -/

namespace HeroTools

/-- Where position `j` goes: `ns` are the lengths of the pieces. -/
def mirror : List Nat → Nat → Nat
  | [], j => j
  | n :: ns, j => if j < n then n - 1 - j else n + mirror ns (j - n)

variable {ns pre post : List Nat} {i j n : Nat}

theorem mirror_head (hj : j < n) : mirror (n :: ns) j = n - 1 - j := if_pos hj

theorem mirror_tail (ns : List Nat) (n j : Nat) : mirror (n :: ns) (n + j) = n + mirror ns j := by
  rw [mirror, if_neg (Nat.not_lt.mpr (Nat.le_add_right n j)), Nat.add_sub_cancel_left]

theorem mirror_lt (hj : j < ns.sum) : mirror ns j < ns.sum := by
  induction ns generalizing j with
  | nil => exact hj
  | cons n ns ih =>
    rw [List.sum_cons] at hj ⊢
    rcases Nat.lt_or_ge j n with hn | hn
    · rw [mirror_head hn]
      omega
    · obtain ⟨j, rfl⟩ := Nat.exists_eq_add_of_le hn
      rw [mirror_tail]
      exact Nat.add_lt_add_left (ih (Nat.lt_of_add_lt_add_left hj)) n

theorem mirror_mirror (hj : j < ns.sum) : mirror ns (mirror ns j) = j := by
  induction ns generalizing j with
  | nil => rfl
  | cons n ns ih =>
    rw [List.sum_cons] at hj
    rcases Nat.lt_or_ge j n with hn | hn
    · rw [mirror_head hn, mirror_head (by omega)]
      omega
    · obtain ⟨j, rfl⟩ := Nat.exists_eq_add_of_le hn
      rw [mirror_tail, mirror_tail, ih (Nat.lt_of_add_lt_add_left hj)]

theorem mirror_inj (hi : i < ns.sum) (hj : j < ns.sum) (h : mirror ns i = mirror ns j) :
    i = j := by
  rw [← mirror_mirror hi, h, mirror_mirror hj]

theorem mirror_piece (hi : i < n) :
    mirror (pre ++ n :: post) (pre.sum + i) = pre.sum + (n - 1 - i) := by
  induction pre with
  | nil =>
    rw [List.nil_append, List.sum_nil, Nat.zero_add, Nat.zero_add, mirror_head hi]
  | cons m pre ih =>
    rw [List.cons_append, List.sum_cons, Nat.add_assoc, mirror_tail, ih, Nat.add_assoc]

theorem mirror_update {α : Type*} {f : Nat → α} {xs : List α} {x : α}
    (hlt : xs.length < ns.sum) (h : ∀ j y, xs[j]? = some y → f (mirror ns j) = y) :
    ∀ j y, (xs ++ [x])[j]? = some y →
      Function.update f (mirror ns xs.length) x (mirror ns j) = y := by
  intro j y hj
  rcases Nat.lt_trichotomy j xs.length with hbefore | rfl | hafter
  · rw [List.getElem?_append_left hbefore] at hj
    have hne : mirror ns j ≠ mirror ns xs.length :=
      fun he => hbefore.ne (mirror_inj (hbefore.trans hlt) hlt he)
    rw [Function.update_of_ne hne]
    exact h j y hj
  · rw [List.getElem?_concat_length] at hj
    rw [Function.update_self]
    exact Option.some.inj hj
  · have hout : (xs ++ [x])[j]? = none := by
      rw [List.getElem?_eq_none_iff, List.length_append, List.length_singleton]
      omega
    rw [hout] at hj
    cases hj

/-- What was put to the mirrored positions lies in order just when it is the same read from
either end of each piece. -/
theorem mirrored_iff {α : Type*} {f g : Nat → α} (h : ∀ j < ns.sum, f (mirror ns j) = g j) :
    (∀ j < ns.sum, f j = g j) ↔ ∀ j < ns.sum, g (mirror ns j) = g j := by
  constructor
  · intro hf j hj
    rw [← hf _ (mirror_lt hj), h j hj]
  · intro hg j hj
    rw [← hg j hj, ← h _ (mirror_lt hj), mirror_mirror hj]

end HeroTools
