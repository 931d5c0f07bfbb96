import HeroTools.Lib.Lts

/-! Straight-line programs that share their state with an environment, and proof outlines
for them: an assertion before every operation, which the environment respects. -/

namespace HeroTools
variable {σ Op F : Type*}

/-- The calls that may be made, each a list of operations. An operation without a result
is tried again. -/
structure Straight (σ Op F : Type*) where
  body : F → List Op
  step : Op → σ → Option σ
  env : σ → σ

inductive Move (F : Type*)
  | call (f : F)
  | op
  | env
deriving DecidableEq

namespace Straight

/-- A state comes with the operations that are left of the call under way. A label shows
the state after the step. -/
def exec (S : Straight σ Op F) (s : σ × List Op) :
    Move F → Option ((Move F × σ) × (σ × List Op))
  | .call f => match s.2 with
    | [] => some ((.call f, s.1), (s.1, S.body f))
    | _ :: _ => none
  | .op => match s.2 with
    | [] => none
    | o :: ops => match S.step o s.1 with
      | some s' => some ((.op, s'), (s', ops))
      | none => some ((.op, s.1), s)
  | .env => some ((.env, S.env s.1), (S.env s.1, s.2))

def lts (S : Straight σ Op F) : Lts (σ × List Op) (Move F × σ) := .ofExec S.exec

variable {S : Straight σ Op F} {A G : σ → σ → Prop} {I P Q R : σ → Prop} {o : Op}
  {ops : List Op}

/-- Neither waiting nor the environment takes a state out of `P`, as long as the steps
meet `A`, and these steps meet `G`. -/
def Stable (S : Straight σ Op F) (A G : σ → σ → Prop) (P : σ → Prop) : Prop :=
  ∀ s s', P s → s' = s ∨ s' = S.env s → A s s' → G s s' ∧ P s'

/-- From a state in `P` all steps of the operations meet `G`, as long as they meet `A`, and
lead to a state in `Q`. -/
inductive Outline (S : Straight σ Op F) (A G : σ → σ → Prop) :
    (σ → Prop) → List Op → (σ → Prop) → Prop
  | nil {P Q : σ → Prop} (hP : S.Stable A G P) (h : ∀ s, P s → Q s) : Outline S A G P [] Q
  | cons {P R Q : σ → Prop} {o : Op} {ops : List Op} (hP : S.Stable A G P)
      (h : ∀ s s', P s → S.step o s = some s' → A s s' → G s s' ∧ R s')
      (hops : Outline S A G R ops Q) : Outline S A G P (o :: ops) Q

namespace Outline

theorem stable (h : S.Outline A G P ops Q) : S.Stable A G P := by
  cases h with
  | nil hP _ => exact hP
  | cons hP _ _ => exact hP

theorem of_false (hP : ∀ s, ¬ P s) : S.Outline A G P ops Q := by
  have hstable : S.Stable A G P := fun s _ hs => absurd hs (hP s)
  induction ops with
  | nil => exact nil hstable fun s hs => absurd hs (hP s)
  | cons o ops ih => exact cons hstable (fun s _ hs => absurd hs (hP s)) ih

theorem skip (ho : ∀ s s', S.step o s = some s' → s' = s) (h : S.Outline A G P ops Q) :
    S.Outline A G P (o :: ops) Q :=
  cons h.stable (fun s s' hs hstep hA => h.stable s s' hs (.inl (ho s s' hstep)) hA) h

end Outline

/-! ## Runs -/

def Outlined (S : Straight σ Op F) (A G : σ → σ → Prop) (I : σ → Prop) (s : σ × List Op) : Prop :=
  ∃ P, P s.1 ∧ S.Outline A G P s.2 I

theorem Outlined.step {s s' : σ × List Op} {e : Move F × σ} (h : S.Outlined A G I s)
    (hs : S.lts.step s e s') (hcall : ∀ f, e.1 ≠ .call f) (hA : A s.1 e.2) :
    G s.1 e.2 ∧ S.Outlined A G I s' := by
  obtain ⟨P, hP, hout⟩ := h
  obtain ⟨s, ops⟩ := s
  obtain ⟨m, hs⟩ := hs
  cases m with
  | call f =>
    cases ops with
    | nil =>
      obtain ⟨rfl, rfl⟩ := Prod.mk.inj (Option.some.inj hs)
      exact absurd rfl (hcall f)
    | cons o ops => cases hs
  | op =>
    cases ops with
    | nil => cases hs
    | cons o ops =>
      simp only [exec] at hs
      cases hstep : S.step o s with
      | none =>
        -- the operation waits, and the state is the same
        rw [hstep] at hs
        obtain ⟨rfl, rfl⟩ := Prod.mk.inj (Option.some.inj hs)
        exact ⟨(hout.stable _ _ hP (.inl rfl) hA).1, P, hP, hout⟩
      | some v =>
        rw [hstep] at hs
        obtain ⟨rfl, rfl⟩ := Prod.mk.inj (Option.some.inj hs)
        cases hout with
        | cons _ h hrest =>
          obtain ⟨hG, hR⟩ := h _ _ hP hstep hA
          exact ⟨hG, _, hR, hrest⟩
  | env =>
    obtain ⟨rfl, rfl⟩ := Prod.mk.inj (Option.some.inj hs)
    obtain ⟨hG, hP'⟩ := hout.stable _ _ hP (.inr rfl) hA
    exact ⟨hG, P, hP', hout⟩

theorem call_step {s s' : σ × List Op} {m : Move F} {v : σ} {f : F}
    (hs : S.lts.step s (m, v) s') (hcall : m = .call f) :
    s.2 = [] ∧ v = s.1 ∧ s' = (s.1, S.body f) := by
  obtain ⟨s, ops⟩ := s
  obtain ⟨m', hs⟩ := hs
  cases m' with
  | call g =>
    cases ops with
    | nil =>
      obtain ⟨he, rfl⟩ := Prod.mk.inj (Option.some.inj hs)
      obtain ⟨rfl, rfl⟩ := Prod.mk.inj he
      obtain rfl := Move.call.inj hcall
      exact ⟨rfl, rfl, rfl⟩
    | cons o ops => cases hs
  | op =>
    subst hcall
    simp only [exec] at hs
    split at hs
    · cases hs
    · split at hs <;> cases hs
  | env =>
    subst hcall
    cases hs

theorem Outlined.idle {s : σ} (h : S.Outlined A G I (s, [])) : I s := by
  obtain ⟨P, hP, hout⟩ := h
  cases hout with
  | nil _ hI => exact hI s hP

def CallOk (Pre : F → σ → Prop) (p : (σ × List Op) × Move F × σ) : Prop :=
  ∀ f, p.2.1 = .call f → Pre f p.1.1

section runs
variable {Pre : F → σ → Prop} {s s' : σ × List Op} {e : Move F × σ} {u : σ} {t : σ × List Op}
  {tr : List ((σ × List Op) × Move F × σ)}

theorem Outlined.step_of_callOk (hI : S.Stable A G I)
    (hbody : ∀ f, S.Outline A G (fun s => I s ∧ Pre f s) (S.body f) I) (h : S.Outlined A G I s)
    (hs : S.lts.step s e s') (hpre : CallOk Pre (s, e)) (hA : A s.1 e.2) :
    G s.1 e.2 ∧ S.Outlined A G I s' := by
  by_cases hcall : ∃ f, e.1 = .call f
  · obtain ⟨f, hf⟩ := hcall
    obtain ⟨v, rest⟩ := s
    obtain ⟨m, v'⟩ := e
    obtain ⟨rfl, rfl, rfl⟩ := call_step hs hf
    have hv : I v' := h.idle
    exact ⟨(hI v' v' hv (.inl rfl) hA).1, _, ⟨hv, hpre f hf⟩, hbody f⟩
  · exact h.step hs (fun f hf => hcall ⟨f, hf⟩) hA

theorem run_guarantee (hI : S.Stable (fun _ _ => True) G I)
    (hbody : ∀ f, S.Outline (fun _ _ => True) G (fun s => I s ∧ Pre f s) (S.body f) I)
    (h : S.lts.Run (u, []) tr t) (h0 : I u) (hcalls : ∀ p ∈ tr, CallOk Pre p) :
    ∀ p ∈ tr, G p.1.1 p.2.2 := by
  intro p hp
  obtain ⟨tr', hrun, hsub⟩ := h.exists_before hp
  have hout : S.Outlined (fun _ _ => True) G I p.1 :=
    hrun.invariant_of_cond ⟨I, h0, .nil hI fun _ hs => hs⟩
      (fun hu hc hs => (hu.step_of_callOk hI hbody hs hc trivial).2)
      fun q hq => hcalls q (hsub q hq)
  obtain ⟨v, hs⟩ := h.step_of_mem hp
  exact (hout.step_of_callOk hI hbody hs (hcalls p hp) trivial).1

/-- If a call made outside of its precondition cannot return with all steps meeting `A`,
and all steps of a run do meet it, then all calls were made in their preconditions. -/
theorem run_callOk (hdoom : ∀ f, S.Outline A (fun _ _ => True) (fun s => ¬ Pre f s) (S.body f)
      fun _ => False)
    (h : S.lts.Run (u, []) tr t) (ht : t.2 = []) (hA : ∀ p ∈ tr, A p.1.1 p.2.2) :
    ∀ p ∈ tr, CallOk Pre p := by
  have key : (∀ p ∈ tr, CallOk Pre p) ∨ S.Outlined A (fun _ _ => True) (fun _ => False) t := by
    clear ht
    induction h with
    | nil => exact .inl fun p hp => absurd hp List.not_mem_nil
    | @snoc tr v w e _ hs ih =>
      have hlast : (v, e) ∈ tr ++ [(v, e)] :=
        List.mem_append_right tr (List.mem_singleton_self (v, e))
      rcases ih fun p hp => hA p (List.mem_append_left _ hp) with hok | hout
      · by_cases hlastok : CallOk Pre (v, e)
        · refine .inl fun p hp => ?_
          rcases List.mem_append.mp hp with hp | hp
          · exact hok p hp
          · rw [List.mem_singleton.mp hp]
            exact hlastok
        · -- from here on the body of the call is outlined, up to its return
          obtain ⟨f, hf⟩ := not_forall.mp hlastok
          obtain ⟨hcall, hpre⟩ := Classical.not_imp.mp hf
          obtain ⟨-, -, rfl⟩ := call_step hs hcall
          exact .inr ⟨_, hpre, hdoom f⟩
      · refine .inr (hout.step hs (fun f hf => ?_) (hA _ hlast)).2
        obtain ⟨x, rest⟩ := v
        obtain ⟨rfl, -, -⟩ := call_step hs hf
        exact hout.idle
  obtain ⟨v, rest⟩ := t
  obtain rfl : rest = [] := ht
  exact key.resolve_right fun hout => hout.idle

end runs

end Straight
end HeroTools
