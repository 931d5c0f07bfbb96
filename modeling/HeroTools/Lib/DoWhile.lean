import Mathlib.Data.Nat.Basic

/-! Loops that test at the bottom, `do s = body s; while (test s);`, and the rules for their
partial and total correctness. -/

namespace HeroTools
variable {σ : Type*} {body : σ → σ} {test : σ → Bool} {I : σ → Prop} {m n : Nat} {s t u : σ}

/-- `none` when `n` turns are not enough. -/
def doWhile (body : σ → σ) (test : σ → Bool) : Nat → σ → Option σ
  | 0, _ => none
  | n + 1, s => if test (body s) then doWhile body test n (body s) else some (body s)

theorem doWhile_succ_of_test (h : test (body s) = true) :
    doWhile body test (n + 1) s = doWhile body test n (body s) := by
  rw [doWhile, if_pos h]

theorem doWhile_succ_of_not_test (h : test (body s) = false) :
    doWhile body test (n + 1) s = some (body s) := by
  rw [doWhile, h, if_neg Bool.false_ne_true]

theorem doWhile_det (hm : doWhile body test m s = some t)
    (hn : doWhile body test n s = some u) : t = u := by
  induction m generalizing n s with
  | zero => cases hm
  | succ m ih =>
    cases n with
    | zero => cases hn
    | succ n =>
      cases hs : test (body s) with
      | true =>
        rw [doWhile_succ_of_test hs] at hm hn
        exact ih hm hn
      | false =>
        rw [doWhile_succ_of_not_test hs] at hm hn
        exact Option.some.inj (hm.symm.trans hn)

theorem doWhile_invariant (h0 : I (body s))
    (hstep : ∀ s, I s → test s = true → I (body s))
    (h : doWhile body test n s = some t) : I t ∧ test t = false := by
  induction n generalizing s with
  | zero => cases h
  | succ n ih =>
    cases hs : test (body s) with
    | true =>
      rw [doWhile_succ_of_test hs] at h
      exact ih (hstep _ h0 hs) h
    | false =>
      rw [doWhile_succ_of_not_test hs] at h
      cases h
      exact ⟨h0, hs⟩

/-- A loop that has an invariant and a variant ends, when the turns that are allowed exceed the
variant after the first. -/
theorem doWhile_within (variant : σ → Nat) (h0 : I (body s))
    (hstep : ∀ s, I s → test s = true → I (body s) ∧ variant (body s) < variant s)
    (hn : variant (body s) < n) : ∃ t, doWhile body test n s = some t := by
  induction n generalizing s with
  | zero => exact absurd hn (Nat.not_lt_zero _)
  | succ n ih =>
    cases hc : test (body s) with
    | true =>
      obtain ⟨hI, hlt⟩ := hstep _ h0 hc
      rw [doWhile_succ_of_test hc]
      exact ih hI (lt_of_lt_of_le hlt (Nat.lt_succ_iff.mp hn))
    | false => exact ⟨body s, doWhile_succ_of_not_test hc⟩

theorem doWhile_total (variant : σ → Nat) (h0 : I (body s))
    (hstep : ∀ s, I s → test s = true → I (body s) ∧ variant (body s) < variant s) :
    ∃ n t, doWhile body test n s = some t ∧ I t ∧ test t = false := by
  obtain ⟨t, ht⟩ := doWhile_within variant h0 hstep (Nat.lt_succ_self _)
  exact ⟨_, t, ht, doWhile_invariant h0 (fun s hs hc => (hstep s hs hc).1) ht⟩

end HeroTools
