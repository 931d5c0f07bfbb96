import Mathlib.Data.Finset.Basic
import Mathlib.Data.List.Nodup

/-! Resources that are acquired and released one at a time, each under a name of its own,
and the set of those that are held. -/

namespace HeroTools

inductive Action (ρ : Type*)
  | acquire (r : ρ)
  | release (r : ρ)
deriving DecidableEq, Repr

namespace Action
variable {ρ : Type*} [DecidableEq ρ] {held : Finset ρ} {r : ρ}

def on : Action ρ → ρ
  | acquire r => r
  | release r => r

def settle (held : Finset ρ) : List (Action ρ) → Finset ρ
  | [] => held
  | acquire r :: as => settle (insert r held) as
  | release r :: as => settle (held.erase r) as

def Owned (held : Finset ρ) : List (Action ρ) → Prop
  | [] => True
  | acquire r :: as => Owned (insert r held) as
  | release r :: as => r ∈ held ∧ Owned (held.erase r) as

instance Owned.decidable : (held : Finset ρ) → (as : List (Action ρ)) → Decidable (Owned held as)
  | _, [] => isTrue trivial
  | held, acquire r :: as => Owned.decidable (insert r held) as
  | held, release r :: as => @instDecidableAnd _ _ inferInstance (Owned.decidable (held.erase r) as)

@[simp] theorem settle_nil : settle held [] = held := rfl

theorem settle_append (as bs : List (Action ρ)) :
    settle held (as ++ bs) = settle (settle held as) bs := by
  induction as generalizing held with
  | nil => rfl
  | cons a as ih =>
    cases a with
    | acquire r => exact ih
    | release r => exact ih

theorem mem_settle_acquires (rs : List ρ) :
    r ∈ settle held (rs.map acquire) ↔ r ∈ held ∨ r ∈ rs := by
  induction rs generalizing held with
  | nil => simp
  | cons q rs ih =>
    show r ∈ settle (insert q held) (rs.map acquire) ↔ _
    rw [ih, Finset.mem_insert, List.mem_cons]
    tauto

theorem mem_settle_releases (rs : List ρ) :
    r ∈ settle held (rs.map release) ↔ r ∈ held ∧ r ∉ rs := by
  induction rs generalizing held with
  | nil => simp
  | cons q rs ih =>
    show r ∈ settle (held.erase q) (rs.map release) ↔ _
    rw [ih, Finset.mem_erase, List.mem_cons]
    tauto

theorem owned_releases {rs : List ρ} (hrs : rs.Nodup) :
    Owned held (rs.map release) ↔ ∀ q ∈ rs, q ∈ held := by
  induction rs generalizing held with
  | nil => simp [Owned]
  | cons q rs ih =>
    obtain ⟨hq, hrs⟩ := List.nodup_cons.mp hrs
    show q ∈ held ∧ Owned (held.erase q) (rs.map release) ↔ _
    rw [ih hrs, List.forall_mem_cons]
    have hne : ∀ p ∈ rs, p ≠ q := fun p hp heq => hq (heq ▸ hp)
    constructor
    · rintro ⟨hheld, hall⟩
      exact ⟨hheld, fun p hp => Finset.mem_of_mem_erase (hall p hp)⟩
    · rintro ⟨hheld, hall⟩
      exact ⟨hheld, fun p hp => Finset.mem_erase.mpr ⟨hne p hp, hall p hp⟩⟩

end Action
end HeroTools
