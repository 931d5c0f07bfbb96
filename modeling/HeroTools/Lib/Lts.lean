import Mathlib.Data.List.Basic
import Mathlib.Data.List.Induction

/-! Labelled transition systems. A run records, for every step, the state it was taken
in and its label, so that a condition on steps can speak about both. -/

namespace HeroTools

structure Lts (σ : Type*) (ε : Type*) where
  step : σ → ε → σ → Prop

namespace Lts
variable {σ ε τ δ : Type*}

inductive Run (L : Lts σ ε) (s : σ) : List (σ × ε) → σ → Prop
  | nil : Run L s [] s
  | snoc {tr : List (σ × ε)} {t u : σ} {e : ε} :
      Run L s tr t → L.step t e u → Run L s (tr ++ [(t, e)]) u

def labels (tr : List (σ × ε)) : List ε := tr.map Prod.snd

@[simp] theorem labels_nil : labels ([] : List (σ × ε)) = [] := rfl

@[simp] theorem labels_snoc (tr : List (σ × ε)) (t : σ) (e : ε) :
    labels (tr ++ [(t, e)]) = labels tr ++ [e] := by
  simp only [labels, List.map_append, List.map_cons, List.map_nil]

namespace Run
variable {L : Lts σ ε} {s t : σ} {tr : List (σ × ε)}

theorem cons {u : σ} {e : ε} (hs : L.step s e t) (h : L.Run t tr u) :
    L.Run s ((s, e) :: tr) u := by
  induction h with
  | nil => exact snoc nil hs
  | snoc _ he ih => exact snoc ih he

theorem invariant_of_cond {I : σ → Prop} {c : σ → ε → Prop} (h : L.Run s tr t)
    (h0 : I s) (hstep : ∀ {u e v}, I u → c u e → L.step u e v → I v)
    (hc : ∀ p ∈ tr, c p.1 p.2) : I t := by
  induction h with
  | nil => exact h0
  | @snoc tr u v e _ hs ih =>
    have hu : I u := ih fun p hp => hc p (List.mem_append_left _ hp)
    exact hstep hu (hc (u, e) (List.mem_append_right _ (List.mem_singleton_self _))) hs

theorem invariant {I : σ → Prop} (h : L.Run s tr t) (h0 : I s)
    (hstep : ∀ {u e v}, I u → L.step u e v → I v) : I t :=
  h.invariant_of_cond (c := fun _ _ => True) h0 (fun hu _ hs => hstep hu hs)
    fun _ _ => trivial

theorem exists_before {p : σ × ε} (h : L.Run s tr t) (hp : p ∈ tr) :
    ∃ tr', L.Run s tr' p.1 ∧ ∀ q ∈ tr', q ∈ tr := by
  induction h with
  | nil => exact absurd hp List.not_mem_nil
  | snoc hr _ ih =>
    rcases List.mem_append.mp hp with hp | hp
    · obtain ⟨tr', hr', hsub⟩ := ih hp
      exact ⟨tr', hr', fun q hq => List.mem_append_left _ (hsub q hq)⟩
    · rw [List.mem_singleton.mp hp]
      exact ⟨_, hr, fun q hq => List.mem_append_left _ hq⟩

theorem step_of_mem {p : σ × ε} (h : L.Run s tr t) (hp : p ∈ tr) : ∃ u, L.step p.1 p.2 u := by
  induction h with
  | nil => exact absurd hp List.not_mem_nil
  | snoc _ hs ih =>
    rcases List.mem_append.mp hp with hp | hp
    · exact ih hp
    · rw [List.mem_singleton.mp hp]
      exact ⟨_, hs⟩

/-- Exactness: when every step keeps a good state good just if it meets `c`, a run
ends in a good state just if all its steps met `c`. -/
theorem good_iff {I G : σ → Prop} {c : σ → ε → Prop} (h : L.Run s tr t)
    (hI : I s) (hG : G s) (hstep : ∀ {u e v}, I u → L.step u e v → I v)
    (hgood : ∀ {u e v}, I u → L.step u e v → (G v ↔ G u ∧ c u e)) :
    G t ↔ ∀ p ∈ tr, c p.1 p.2 := by
  induction h with
  | nil => simp [hG]
  | @snoc tr u v e hr hs ih =>
    rw [hgood (hr.invariant hI hstep) hs, ih]
    constructor
    · rintro ⟨ha, he⟩ p hp
      rcases List.mem_append.mp hp with hp | hp
      · exact ha p hp
      · rw [List.mem_singleton.mp hp]
        exact he
    · intro ha
      exact ⟨fun p hp => ha p (List.mem_append_left _ hp),
        ha (u, e) (List.mem_append_right _ (List.mem_singleton_self _))⟩

/-- Exactness for properties of steps: what holds of a step from a state in `I` just if `c`
does, holds of all steps of a run just if `c` does. -/
theorem forall_iff {I : σ → Prop} {G c : σ → ε → Prop} (h : L.Run s tr t) (hI : I s)
    (hstep : ∀ {u e v}, I u → L.step u e v → I v)
    (hiff : ∀ {u e v}, I u → L.step u e v → (G u e ↔ c u e)) :
    (∀ p ∈ tr, G p.1 p.2) ↔ ∀ p ∈ tr, c p.1 p.2 := by
  apply forall₂_congr
  intro p hp
  obtain ⟨tr', hr, -⟩ := h.exists_before hp
  obtain ⟨u, hu⟩ := h.step_of_mem hp
  exact hiff (hr.invariant hI hstep) hu

/-- Exactness for the states on the way: when a step from a good state keeps it good just if it
meets `c`, a run passes through good states only just if all its steps meet `c`. -/
theorem passes_iff {I G : σ → Prop} {c : σ → ε → Prop} (h : L.Run s tr t) (hI : I s) (hG : G s)
    (hstep : ∀ {u e v}, I u → L.step u e v → I v)
    (hgood : ∀ {u e v}, I u → G u → L.step u e v → (G v ↔ c u e)) :
    (∀ p ∈ tr, G p.1) ∧ G t ↔ ∀ p ∈ tr, c p.1 p.2 := by
  induction h with
  | nil => simp [hG]
  | @snoc tr u v e hr hs ih =>
    have hsplit {P : σ × ε → Prop} : (∀ p ∈ tr ++ [(u, e)], P p) ↔ (∀ p ∈ tr, P p) ∧ P (u, e) := by
      simp only [List.forall_mem_append, List.forall_mem_singleton]
    have hlast (hu : G u) : G v ↔ c u e := hgood (hr.invariant hI hstep) hu hs
    rw [hsplit, hsplit, ← ih]
    constructor
    · rintro ⟨hpre, hv⟩
      exact ⟨hpre, (hlast hpre.2).mp hv⟩
    · rintro ⟨hpre, hc⟩
      exact ⟨hpre, (hlast hpre.2).mpr hc⟩

theorem length_le {I : σ → Prop} {m : σ → Nat} (h : L.Run s tr t) (hI : I s)
    (hstep : ∀ {u e v}, I u → L.step u e v → I v ∧ m v < m u) : tr.length + m t ≤ m s := by
  induction h with
  | nil => exact Nat.le_of_eq (Nat.zero_add (m s))
  | @snoc tr u v e hr hs ih =>
    have hlt := (hstep (hr.invariant hI fun hu hs => (hstep hu hs).1) hs).2
    rw [List.length_append, List.length_singleton]
    omega

theorem congr {L' : Lts σ ε} {I : σ → Prop} (h : L.Run s tr t) (h0 : I s)
    (hstep : ∀ {u e v}, I u → L.step u e v → I v ∧ L'.step u e v) : L'.Run s tr t := by
  induction h with
  | nil => exact nil
  | snoc hr hs ih => exact ih.snoc (hstep (hr.invariant h0 fun hu hs => (hstep hu hs).1) hs).2

theorem exists_final {P : σ → Prop} (hgo : ∀ tr t, L.Run s tr t → P t ∨ ∃ e u, L.step t e u)
    (hends : ∃ N, ∀ tr t, L.Run s tr t → tr.length ≤ N) : ∃ tr t, L.Run s tr t ∧ P t := by
  by_contra hnone
  have hlong : ∀ n, ∃ tr t, L.Run s tr t ∧ tr.length = n := by
    intro n
    induction n with
    | zero => exact ⟨[], s, nil, rfl⟩
    | succ n ih =>
      obtain ⟨tr, t, hrun, hlen⟩ := ih
      rcases hgo tr t hrun with hP | ⟨e, u, hstep⟩
      · exact absurd ⟨tr, t, hrun, hP⟩ hnone
      · refine ⟨_, u, hrun.snoc hstep, ?_⟩
        rw [List.length_append, hlen, List.length_singleton]
  obtain ⟨N, hN⟩ := hends
  obtain ⟨tr, t, hrun, hlen⟩ := hlong (N + 1)
  have hle := hN tr t hrun
  omega

end Run

/-! ## Executable systems -/

def ofExec {α : Type*} (f : σ → α → Option (ε × σ)) : Lts σ ε where
  step s e s' := ∃ a, f s a = some (e, s')

def replay {α : Type*} (f : σ → α → Option (ε × σ)) : σ → List α → Option (List (σ × ε) × σ)
  | s, [] => some ([], s)
  | s, a :: as => (f s a).bind fun et =>
      (replay f et.2 as).map fun p => ((s, et.1) :: p.1, p.2)

theorem replay_run {α : Type*} {f : σ → α → Option (ε × σ)} {as : List α} {s t : σ}
    {tr : List (σ × ε)} (h : replay f s as = some (tr, t)) : (ofExec f).Run s tr t := by
  induction as generalizing s tr with
  | nil =>
    obtain ⟨rfl, rfl⟩ := Prod.mk.inj (Option.some.inj h)
    exact .nil
  | cons a as ih =>
    simp only [replay, Option.bind_eq_some_iff, Option.map_eq_some_iff] at h
    obtain ⟨⟨e, u⟩, he, ⟨tr', v⟩, hr, hp⟩ := h
    obtain ⟨rfl, rfl⟩ := Prod.mk.inj hp
    exact (ih hr).cons ⟨a, he⟩

/-! ## Given steps -/

/-- Exactness over the prefixes of given steps: when a step from a good state meets `r` and keeps
it good just if it meets `c`, all states are good and all steps meet `r` just if they meet `c`. -/
theorem forall_prefix_iff {α : Type*} {step : σ → α → σ} {G : σ → Prop} {r c : List α → α → Prop}
    {s : σ} (as : List α) (hG : G s) (hstep : ∀ {p a}, p ++ [a] <+: as → G (p.foldl step s) →
      (G (step (p.foldl step s) a) ∧ r p a ↔ c p a)) :
    ((∀ p, p <+: as → G (p.foldl step s)) ∧ ∀ p a, p ++ [a] <+: as → r p a) ↔
      ∀ p a, p ++ [a] <+: as → c p a := by
  constructor
  · rintro ⟨hgood, hr⟩ p a hpa
    have hp : p <+: as := (List.prefix_append p [a]).trans hpa
    have hnext := hgood _ hpa
    rw [List.foldl_append] at hnext
    exact (hstep hpa (hgood p hp)).mp ⟨hnext, hr p a hpa⟩
  · intro hc
    have hgood : ∀ p, p <+: as → G (p.foldl step s) := by
      intro p
      induction p using List.reverseRecOn with
      | nil => exact fun _ => hG
      | append_singleton p a ih =>
        intro hpa
        rw [List.foldl_append]
        have hp : p <+: as := (List.prefix_append p [a]).trans hpa
        exact ((hstep hpa (ih hp)).mpr (hc p a hpa)).1
    refine ⟨hgood, fun p a hpa => ?_⟩
    have hp : p <+: as := (List.prefix_append p [a]).trans hpa
    exact ((hstep hpa (hgood p hp)).mpr (hc p a hpa)).2

/-! ## Forward simulation -/

/-- `R` is a forward simulation of `C` by `A`: a step that `lab` hides leaves the
abstract state alone, any other is an abstract step with the label it is given. -/
structure Simulation (C : Lts σ ε) (A : Lts τ δ) (lab : ε → Option δ)
    (R : σ → τ → Prop) : Prop where
  hidden : ∀ {s e s' a}, R s a → C.step s e s' → lab e = none → R s' a
  shown : ∀ {s e s' a d}, R s a → C.step s e s' → lab e = some d →
    ∃ a', A.step a d a' ∧ R s' a'

theorem Simulation.run {C : Lts σ ε} {A : Lts τ δ} {lab : ε → Option δ}
    {R : σ → τ → Prop} (sim : Simulation C A lab R) {s s' : σ} {a : τ}
    {tr : List (σ × ε)} (hr : C.Run s tr s') (h0 : R s a) :
    ∃ atr a', A.Run a atr a' ∧ R s' a' ∧ labels atr = (labels tr).filterMap lab := by
  induction hr with
  | nil => exact ⟨[], a, .nil, h0, rfl⟩
  | @snoc tr u v e _ hs ih =>
    obtain ⟨atr, b, hb, hR, hl⟩ := ih
    cases he : lab e with
    | none =>
      refine ⟨atr, b, hb, sim.hidden hR hs he, ?_⟩
      rw [hl, labels_snoc, List.filterMap_append]
      simp [he]
    | some d =>
      obtain ⟨b', hd, hR'⟩ := sim.shown hR hs he
      refine ⟨atr ++ [(b, d)], b', hb.snoc hd, hR', ?_⟩
      rw [labels_snoc, hl, labels_snoc, List.filterMap_append]
      simp [he]

end Lts
end HeroTools
