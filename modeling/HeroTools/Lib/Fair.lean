import HeroTools.Lib.Lts
import Mathlib.Order.WellFounded

/-! Infinite runs, and what comes in each of them that lets every party move. -/

namespace HeroTools
namespace Lts
variable {σ ε π γ : Type*}

structure Path (L : Lts σ ε) where
  state : Nat → σ
  label : Nat → ε
  step : ∀ n, L.step (state n) (label n) (state (n + 1))

namespace Path
variable {L : Lts σ ε} (ρ : L.Path)

def upto (n : Nat) : List (σ × ε) := (List.range n).map fun k => (ρ.state k, ρ.label k)

theorem run (n : Nat) : L.Run (ρ.state 0) (ρ.upto n) (ρ.state n) := by
  induction n with
  | zero => exact .nil
  | succ n ih =>
    rw [upto, List.range_succ, List.map_append, List.map_singleton]
    exact ih.snoc (ρ.step n)

/-- No party is needed forever without a step of its own. -/
def Fair (party : ε → π) (needed : σ → π) : Prop :=
  ∀ p n, ∃ m ≥ n, party (ρ.label m) = p ∨ needed (ρ.state m) ≠ p

variable {ρ} {I Q : σ → Prop} {party : ε → π} {needed : σ → π} [Preorder γ] {rank : σ → γ}

/-- Short of `Q`, a step of the needed party lowers the rank, and any other step lowers it or
leaves both the rank and the party that is needed. -/
def Helpful (L : Lts σ ε) (I Q : σ → Prop) (party : ε → π) (needed : σ → π) (rank : σ → γ) :
    Prop :=
  ∀ {u e v}, I u → ¬ Q u → L.step u e v →
    rank v < rank u ∨ rank v = rank u ∧ needed v = needed u ∧ party e ≠ needed u

theorem lowered (hfair : ρ.Fair party needed) (hI : ∀ n, I (ρ.state n))
    (hhelp : Helpful L I Q party needed rank) (hQ : ∀ n, ¬ Q (ρ.state n)) (n : Nat) :
    ∃ m, rank (ρ.state m) < rank (ρ.state n) := by
  by_contra hno
  have hsame : ∀ k, rank (ρ.state (n + k)) = rank (ρ.state n) ∧
      needed (ρ.state (n + k)) = needed (ρ.state n) := by
    intro k
    induction k with
    | zero => exact ⟨rfl, rfl⟩
    | succ k ih =>
      rcases hhelp (hI _) (hQ _) (ρ.step (n + k)) with hlt | ⟨hrank, hneeded, -⟩
      · exact absurd ⟨_, ih.1 ▸ hlt⟩ hno
      · exact ⟨hrank.trans ih.1, hneeded.trans ih.2⟩
  obtain ⟨m, hm, hparty⟩ := hfair (needed (ρ.state n)) n
  obtain ⟨k, rfl⟩ := Nat.exists_eq_add_of_le hm
  obtain ⟨hrank, hneeded⟩ := hsame k
  rcases hhelp (hI _) (hQ _) (ρ.step (n + k)) with hlt | ⟨-, -, hother⟩
  · exact hno ⟨_, hrank ▸ hlt⟩
  · exact hparty.elim (fun h => hother (h.trans hneeded.symm)) fun h => h hneeded

/-- With a rank that cannot be lowered forever, `Q` comes. -/
theorem eventually [WellFoundedLT γ] (hfair : ρ.Fair party needed) (hI : ∀ n, I (ρ.state n))
    (hhelp : Helpful L I Q party needed rank) : ∃ n, Q (ρ.state n) := by
  by_contra hno
  have hQ : ∀ n, ¬ Q (ρ.state n) := fun n h => hno ⟨n, h⟩
  have hne : (Set.range fun n => rank (ρ.state n)).Nonempty := ⟨_, 0, rfl⟩
  obtain ⟨-, ⟨n, rfl⟩, hmin⟩ := wellFounded_lt.has_min _ hne
  obtain ⟨m, hm⟩ := lowered hfair hI hhelp hQ n
  exact hmin _ ⟨m, rfl⟩ hm

end Path
end Lts
end HeroTools
