import Mathlib.Logic.Function.Basic
import Mathlib.Data.Nat.Basic
import Mathlib.Data.Option.Basic
import Mathlib.Data.List.Forall2

/-! Register files before and after a renaming of the registers below `n`. The registers
from `n` on are free for the renamed program. -/

namespace HeroTools.Renaming
variable {α : Type*} {σ τ : Nat → Nat} {n m d e t : Nat} {ρ ρ' ρ'' : Nat → α} {v w : α}

/-- What `ρ` holds in a register below `n`, `ρ'` holds in its new name. -/
def Agree (σ : Nat → Nat) (n : Nat) (ρ ρ' : Nat → α) : Prop := ∀ r < n, ρ' (σ r) = ρ r

/-- Register `e` keeps its name and shares it with no other. -/
def Kept (σ : Nat → Nat) (n e : Nat) : Prop := ∀ r < n, σ r = e ↔ r = e

theorem kept_id : Kept id n e := fun _ _ => Iff.rfl

theorem Agree.update_kept (h : Agree σ n ρ ρ') (he : Kept σ n e) :
    Agree σ n (Function.update ρ e v) (Function.update ρ' e v) := by
  intro r hr
  by_cases hre : r = e
  · subst hre
    rw [(he r hr).mpr rfl, Function.update_self, Function.update_self]
  · rw [Function.update_of_ne hre, Function.update_of_ne (mt (he r hr).mp hre), h r hr]

theorem Agree.update_free (h : Agree σ n ρ ρ') (ht : ∀ r < n, σ r ≠ t) :
    Agree σ n ρ (Function.update ρ' t v) :=
  fun r hr => (Function.update_of_ne (ht r hr) ..).trans (h r hr)

theorem Agree.update_renamed (h : Agree σ n ρ ρ') (ht : ∀ r < n, σ r = t ↔ r = d) :
    Agree σ n (Function.update ρ d v) (Function.update ρ' t v) := by
  intro r hr
  by_cases hrd : r = d
  · subst hrd
    rw [(ht r hr).mpr rfl, Function.update_self, Function.update_self]
  · rw [Function.update_of_ne hrd, Function.update_of_ne (mt (ht r hr).mp hrd), h r hr]

theorem Agree.comp (h : Agree σ n ρ ρ') (h' : Agree τ m ρ' ρ'') (hσ : ∀ r < n, σ r < m) :
    Agree (τ ∘ σ) n ρ ρ'' :=
  fun r hr => (h' (σ r) (hσ r hr)).trans (h r hr)

/-! ## Replacing one register -/

def replace (d t : Nat) : Nat → Nat := fun r => if r = d then t else r

theorem replace_eq_iff (ht : n ≤ t) : ∀ r < n, replace d t r = t ↔ r = d := by
  intro r hr
  unfold replace
  split_ifs with h
  · exact iff_of_true rfl h
  · exact iff_of_false (Nat.ne_of_lt (Nat.lt_of_lt_of_le hr ht)) h

theorem replace_ne (hu : n ≤ e) (hne : e ≠ t) : ∀ r < n, replace d t r ≠ e := by
  intro r hr
  unfold replace
  split_ifs
  · exact hne.symm
  · exact Nat.ne_of_lt (Nat.lt_of_lt_of_le hr hu)

theorem kept_replace (ht : n ≤ t) (he : e < n) (hne : e ≠ d) : Kept (replace d t) n e := by
  intro r _
  unfold replace
  split_ifs with h
  · subst h
    exact iff_of_false (Nat.ne_of_gt (Nat.lt_of_lt_of_le he ht)) hne.symm
  · exact Iff.rfl

/-! ## Runs that may get stuck -/

theorem rel_bind {β γ δ : Type*} {R : α → β → Prop} {S : γ → δ → Prop} {x : Option α}
    {y : Option β} {f : α → Option γ} {g : β → Option δ} (h : Option.Rel R x y)
    (hfg : ∀ a b, R a b → Option.Rel S (f a) (g b)) :
    Option.Rel S (x.bind f) (y.bind g) := by
  cases h with
  | none => exact .none
  | some hab => exact hfg _ _ hab

theorem rel_bind_same {γ δ : Type*} {S : γ → δ → Prop} {x : Option α} {f : α → Option γ}
    {g : α → Option δ} (hfg : ∀ a, Option.Rel S (f a) (g a)) :
    Option.Rel S (x.bind f) (x.bind g) := by
  cases x with
  | none => exact .none
  | some a => exact hfg a

theorem rel_getElem? {β : Type*} {R : α → β → Prop} {xs : List α} {ys : List β}
    (h : List.Forall₂ R xs ys) (i : Nat) : Option.Rel R xs[i]? ys[i]? := by
  induction h generalizing i with
  | nil => exact .none
  | cons hxy _ ih =>
    cases i with
    | zero => exact .some hxy
    | succ i => exact ih i

end HeroTools.Renaming
