import Mathlib.Data.List.Basic

/-! Programs that call an environment whose answers they do not choose, their runs with all
calls and answers, and the rules for what holds of all runs. -/

namespace HeroTools
variable {C : Type} {A : C → Type} {α β : Type}

inductive Prog (A : C → Type) (α : Type)
  | ret (a : α)
  | call (c : C) (k : A c → Prog A α)

structure Answered (A : C → Type) where
  call : C
  answer : A call

namespace Prog

def bind : Prog A α → (α → Prog A β) → Prog A β
  | ret a, f => f a
  | call c k, f => call c fun x => (k x).bind f

instance : Monad (Prog A) where
  pure := ret
  bind := bind

def ask (c : C) : Prog A (A c) := call c ret

inductive Runs : Prog A α → List (Answered A) → α → Prop
  | ret (a : α) : Runs (.ret a) [] a
  | call {c : C} {k : A c → Prog A α} {x : A c} {tr : List (Answered A)} {a : α} :
      Runs (k x) tr a → Runs (.call c k) (⟨c, x⟩ :: tr) a

def exec (env : ∀ c, A c) : Prog A α → List (Answered A) × α
  | ret a => ([], a)
  | call c k => let (tr, a) := (k (env c)).exec env; (⟨c, env c⟩ :: tr, a)

theorem exec_runs (env : ∀ c, A c) (p : Prog A α) : p.Runs (p.exec env).1 (p.exec env).2 := by
  induction p with
  | ret a => exact .ret a
  | call c k ih => exact .call (ih (env c))

theorem exec_answer (env : ∀ c, A c) (p : Prog A α) :
    ∀ e ∈ (p.exec env).1, e = ⟨e.call, env e.call⟩ := by
  induction p with
  | ret a => exact fun _ he => absurd he List.not_mem_nil
  | call c k ih =>
    intro e he
    rcases List.mem_cons.mp he with rfl | he
    · rfl
    · exact ih (env c) e he

/-! ## Weakest preconditions -/

/-- Whatever is answered, as long as each answer meets `V`, the calls and the result meet `Q`. -/
def wp (V : Answered A → Prop) : Prog A α → (List (Answered A) → α → Prop) → Prop
  | ret a, Q => Q [] a
  | call c k, Q => ∀ x, V ⟨c, x⟩ → (k x).wp V fun tr a => Q (⟨c, x⟩ :: tr) a

variable {V : Answered A → Prop} {p : Prog A α} {f : α → Prog A β}

theorem wp_runs {Q : List (Answered A) → α → Prop} {tr : List (Answered A)} {a : α}
    (h : p.wp V Q) (hr : p.Runs tr a) (hV : ∀ e ∈ tr, V e) : Q tr a := by
  induction hr generalizing Q with
  | ret a => exact h
  | call _ ih =>
    obtain ⟨hx, hV⟩ := List.forall_mem_cons.mp hV
    exact ih (h _ hx) hV

theorem wp_mono {P Q : List (Answered A) → α → Prop} (h : p.wp V P)
    (hPQ : ∀ tr a, P tr a → Q tr a) : p.wp V Q := by
  induction p generalizing P Q with
  | ret a => exact hPQ _ _ h
  | call c k ih => exact fun x hx => ih x (h x hx) fun tr a => hPQ _ a

theorem wp_bind {Q : List (Answered A) → β → Prop}
    (h : p.wp V fun tr a => (f a).wp V fun tr' b => Q (tr ++ tr') b) : (p >>= f).wp V Q := by
  show (p.bind f).wp V Q
  induction p generalizing Q with
  | ret a => exact h
  | call c k ih => exact fun x hx => ih x (h x hx)

theorem wp_pure {Q : List (Answered A) → α → Prop} {a : α} (h : Q [] a) :
    (pure a : Prog A α).wp V Q := h

theorem wp_ask {c : C} {f : A c → Prog A β} {Q : List (Answered A) → β → Prop}
    (h : ∀ x, V ⟨c, x⟩ → (f x).wp V fun tr b => Q (⟨c, x⟩ :: tr) b) :
    (ask c >>= f).wp V Q := wp_bind h

end Prog
end HeroTools
