import HeroTools.Lib.Lts
import Mathlib.Data.List.Infix
import Mathlib.Data.Nat.ModEq

/-! The bounded queue that a ring buffer is for, and the arithmetic of ring indices. -/

namespace HeroTools
namespace Fifo
variable {α : Type*}

inductive Label (α : Type*)
  | put (x : α)
  | full
  | get (x : α)
  | empty

/-- A queue of at most `cap` elements: a put is refused only when it is full, a get
only when it is empty. -/
def queue (α : Type*) (cap : Nat) : Lts (List α) (Label α) where
  step q l q' := match l with
    | .put x => q.length < cap ∧ q' = q ++ [x]
    | .full => q.length = cap ∧ q' = q
    | .get x => q = x :: q'
    | .empty => q = [] ∧ q' = q

def given (ls : List (Label α)) : List α :=
  ls.filterMap fun | .put x => some x | _ => none

def returned (ls : List (Label α)) : List α :=
  ls.filterMap fun | .get x => some x | _ => none

theorem given_eq {cap : Nat} {tr : List (List α × Label α)} {q : List α}
    (h : (queue α cap).Run [] tr q) :
    given (Lts.labels tr) = returned (Lts.labels tr) ++ q := by
  induction h with
  | nil => rfl
  | @snoc tr q q' l _ hs ih =>
    rw [Lts.labels_snoc, given, returned, List.filterMap_append, List.filterMap_append,
      ← given, ← returned, ih]
    cases l with
    | put x =>
      obtain ⟨-, rfl⟩ := hs
      simp
    | full =>
      obtain ⟨-, rfl⟩ := hs
      simp
    | get x =>
      cases hs
      simp
    | empty =>
      obtain ⟨-, rfl⟩ := hs
      simp

theorem length_le {cap : Nat} {tr : List (List α × Label α)} {q : List α}
    (h : (queue α cap).Run [] tr q) : q.length ≤ cap := by
  refine h.invariant (I := fun q => q.length ≤ cap) (Nat.zero_le cap) ?_
  intro u l v hu hs
  cases l with
  | put x =>
    obtain ⟨hlt, rfl⟩ := hs
    rw [List.length_append]
    exact hlt
  | full => exact hs.2 ▸ hu
  | get x =>
    cases hs
    exact (Nat.le_succ _).trans hu
  | empty => exact hs.2 ▸ hu

end Fifo

theorem ring_index_inj {n t j k : Nat} (hj : j < n) (hk : k < n)
    (h : (t + j) % n = (t + k) % n) : j = k :=
  (Nat.ModEq.add_left_cancel' t h).eq_of_lt_of_lt hj hk

theorem ring_index_succ (n t j : Nat) : ((t + j) % n + 1) % n = (t + (j + 1)) % n := by
  rw [Nat.mod_add_mod, Nat.add_assoc]

theorem ring_index_head (n t j : Nat) : ((t + 1) % n + j) % n = (t + (j + 1)) % n := by
  rw [Nat.mod_add_mod, Nat.add_assoc, Nat.add_comm 1 j]

end HeroTools
