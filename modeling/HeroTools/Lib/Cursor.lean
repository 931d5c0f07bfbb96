import HeroTools.Lib.Lts

/-! Reading a text from front to back: a position in it, and pieces delivered from there. -/

namespace HeroTools
variable {α : Type*} {text : List α} {p q n : Nat} {tr : List (Nat × List α)}

/-- A read at `p` delivers the elements from `p` to where the next read starts. -/
def cursor (text : List α) : Lts Nat (List α) where
  step p piece q := p ≤ q ∧ q ≤ text.length ∧ piece = (text.take q).drop p

theorem cursor_step_take (hp : p ≤ text.length) :
    (cursor text).step p ((text.drop p).take n) (p + min n (text.length - p)) := by
  refine ⟨Nat.le_add_right _ _, by omega, ?_⟩
  rw [List.drop_take, Nat.add_sub_cancel_left]
  have hlen : (text.drop p).length = text.length - p := List.length_drop
  rw [← hlen, ← List.take_take, List.take_length]

/-- However the reads are cut, the text up to the position they end at is what the earlier
text and the pieces make together. -/
theorem cursor_run_eq (h : (cursor text).Run p tr q) :
    text.take q = text.take p ++ (Lts.labels tr).flatten := by
  induction h with
  | nil => exact (List.append_nil _).symm
  | @snoc tr u v piece _ hs ih =>
    obtain ⟨hle, -, rfl⟩ := hs
    rw [Lts.labels_snoc, List.flatten_append, List.flatten_singleton, ← List.append_assoc, ← ih]
    have htake : text.take u = (text.take v).take u := by rw [List.take_take, Nat.min_eq_left hle]
    rw [htake, List.take_append_drop]

end HeroTools
