import HeroTools.Apps.FdotpRvv
import HeroTools.Apps.MatvecExact

/-! The matrix-vector product with the dot product that `matvec.h` picks for each target, in the
place of an exact one. -/

namespace HeroTools.Apps
open Finset

/-- What the calls of the kernel find: the vector unit of the core, and what its registers hold.
Each row has a call of its own. -/
structure Calls (R : Type) (VLMAX : Nat) where
  unit : Nat → VectorUnit R VLMAX
  regs : Nat → Nat → Lanes R

section
variable {R : Type} [CommRing R] {VLMAX : Nat}

/-- `fdotp_32b`; no kernel takes more turns than there are elements. -/
def fdotp32b (target : Target) (k : Calls R VLMAX) (row : Nat) (a b : Nat → R) (n : Nat) :
    Option (Dot R) :=
  match target with
  | .occamy => fdotpSimd32b n a b (UInt32.ofNat n)
  | .spatz => fdotpRvv32b n (k.unit row) (k.regs row) a b n

def kernelCall (a : Args) (k : Calls R VLMAX) (s : State R) (i : Nat) : Option (Dot R) :=
  fdotp32b a.target k (s.I + i) (s.l1.buf .xL1)
    (fun j => s.l1.buf (.wRowL1 (s.it % 2)) (i * a.n + j)) a.n

def targetCore (a : Args) (k : Calls R VLMAX) (i : Nat) (s : State R) :
    Option (Event × State R) :=
  match s.pc with
  | .parallel todo =>
    if i ∈ todo then
      if s.I + i ≥ a.d then some (.tau, { s with pc := .parallel (todo.erase i) })
      else (kernelCall a k s i).map fun r =>
        (.kernel i,
          { s with
            pc := .parallel (todo.erase i)
            xout := Function.update s.xout (i + s.I) (some r.c) })
    else none
  | _ => none

def targetExec (a : Args) (k : Calls R VLMAX) (mem : Nat → R) (s : State R) :
    Agent → Option (Event × State R)
  | .cpu => cpu a s
  | .core i => targetCore a k i s
  | .engine c => engine mem c s

def targetMatvec (a : Args) (k : Calls R VLMAX) (mem : Nat → R) : Lts (State R) Event :=
  Lts.ofExec (targetExec a k mem)

structure TargetComputes (a : Args) (k : Calls R VLMAX) (mem : Nat → R) (l1 : Buf → Nat → R) :
    Prop where
  steps : ∀ tr s, (targetMatvec a k mem).Run (matvecStart l1) tr s →
    ∀ p ∈ tr, StepOk a mem p.1 p.2
  reads : ∀ tr s, (targetMatvec a k mem).Run (matvecStart l1) tr s →
    ∀ p ∈ tr, ∀ i r, p.2 = .kernel i → kernelCall a k p.1 i = some r → r.ReadsBelow a.n
  product : ∀ tr s ret, (targetMatvec a k mem).Run (matvecStart l1) tr s → s.pc = .exit ret →
    ret = 0 ∧ ∀ r, s.xout r = if r < a.d then some (rowDot a mem r) else none
  progress : ∀ tr s, (targetMatvec a k mem).Run (matvecStart l1) tr s →
    (∃ ret, s.pc = .exit ret) ∨ ∃ e t, (targetMatvec a k mem).step s e t
  ends : ∃ N, ∀ tr s, (targetMatvec a k mem).Run (matvecStart l1) tr s → tr.length ≤ N

end

def TargetCorrect (VLMAX : Nat) (a : Args) : Prop :=
  ∀ (R : Type) [CommRing R] (k : Calls R VLMAX) (mem : Nat → R) (l1 : Buf → Nat → R),
    TargetComputes a k mem l1

def Args.KernelFits (VLMAX : Nat) (a : Args) : Prop :=
  match a.target with
  | .occamy => a.n % 2 = 0 ∧ 4 ≤ a.n
  | .spatz => a.n ≤ VLMAX ∨ VLMAX ∣ a.n

/-! ## The kernels end -/

section
variable {R : Type} [CommRing R] {VLMAX : Nat}

theorem fdotpRvv32b_ends {K : Nat} (hV : 1 ≤ VLMAX) (hK : 1 ≤ K) (u : VectorUnit R VLMAX)
    (v : Nat → Lanes R) (a b : Nat → R) : ∃ r, fdotpRvv32b K u v a b K = some r := by
  have hless : ∀ s : RvvState R, 0 < s.avl → (rvvStrip u a b K s).avl < s.avl := fun s havl =>
    Nat.sub_lt havl ((u.vsetvli_allowed s.avl).pos hV havl)
  have hstep : ∀ s : RvvState R, True → decide (0 < s.avl) = true →
      True ∧ (rvvStrip u a b K s).avl < s.avl := fun s _ hc =>
    ⟨trivial, hless s (of_decide_eq_true hc)⟩
  obtain ⟨s, hs⟩ := doWhile_within RvvState.avl trivial hstep (hless (rvvStart v K) hK)
  exact ⟨rvvReduce u s, congrArg (Option.map (rvvReduce u)) hs⟩

theorem fdotpRvv32b_within {K : Nat} (hV : 1 ≤ VLMAX) (hK : 1 ≤ K) {u : VectorUnit R VLMAX}
    {v : Nat → Lanes R} {a b : Nat → R} {P : Dot R → Prop}
    (h : ∃ n r, fdotpRvv32b n u v a b K = some r ∧ P r) :
    ∃ r, fdotpRvv32b K u v a b K = some r ∧ P r := by
  obtain ⟨n, r, hr, hP⟩ := h
  obtain ⟨r', hr'⟩ := fdotpRvv32b_ends hV hK u v a b
  obtain rfl := fdotpRvv32b_det hr hr'
  exact ⟨r, hr', hP⟩

theorem fdotpSimd32b_ends {K : UInt32} (hK : 1 ≤ K.toNat) (hlt : K.toNat + 1 < 2 ^ 31)
    (a b : Nat → R) : ∃ r, fdotpSimd32b K.toNat a b K = some r := by
  have hstep : ∀ s, SimdAfter a b (fun p => p ≤ K.toNat + 1 ∨ p = 4) s →
      simdBranch K s = true →
      SimdAfter a b (fun p => p ≤ K.toNat + 1 ∨ p = 4) (simdTurn a b s) ∧
        K.toNat + 1 - (simdTurn a b s).a / 4 < K.toNat + 1 - s.a / 4 := by
    rintro s ⟨p, hs, hp⟩ hbranch
    have hpK := ((hs.branch (by omega)).mp hbranch).1
    refine ⟨⟨p + 2, hs.turn, .inl (by omega)⟩, ?_⟩
    rw [hs.a_eq, hs.turn.a_eq]
    omega
  have hfirst := (simdHead_at a b).turn
  have hn : K.toNat + 1 - (simdTurn a b (simdHead a b)).a / 4 < K.toNat := by
    rw [hfirst.a_eq]
    omega
  -- the variant counts the elements that the pointer has not passed
  obtain ⟨s, hs⟩ := doWhile_within (fun s : SimdState R => K.toNat + 1 - s.a / 4)
    ⟨4, hfirst, .inr rfl⟩ hstep hn
  exact ⟨simdStore s, congrArg (Option.map simdStore) hs⟩

theorem fdotpSimd32b_det {K : UInt32} {a b : Nat → R} {m n : Nat} {r r' : Dot R}
    (h : fdotpSimd32b m a b K = some r) (h' : fdotpSimd32b n a b K = some r') : r = r' := by
  obtain ⟨s, hs, rfl⟩ := Option.map_eq_some_iff.mp h
  obtain ⟨s', hs', rfl⟩ := Option.map_eq_some_iff.mp h'
  rw [doWhile_det hs hs']

theorem toNat_n (a : Args) : (UInt32.ofNat a.n).toNat = a.n := by
  have hn := n_le a
  exact UInt32.toNat_ofNat_of_lt' (by unfold UInt32.size; omega)

theorem fdotp32b_agrees {a : Args} (hV : 1 ≤ VLMAX) (hfit : a.KernelFits VLMAX)
    (k : Calls R VLMAX) (row : Nat) (x w : Nat → R) :
    ∃ r, fdotp32b a.target k row x w a.n = some r ∧ r.Agrees x w a.n := by
  unfold Args.KernelFits at hfit
  cases ht : a.target with
  | occamy =>
    rw [ht] at hfit
    obtain ⟨heven, hfour⟩ := hfit
    have hn := n_le a
    have hK := toNat_n a
    obtain ⟨r, hr⟩ := fdotpSimd32b_ends (K := UInt32.ofNat a.n) (by omega) (by omega) x w
    obtain ⟨m, r', hr', hagree⟩ := fdotpSimd32b_agrees (K := UInt32.ofNat a.n) (by omega)
      (by omega) (by omega) x w
    rw [hK] at hr hagree
    rw [fdotpSimd32b_det hr' hr] at hagree
    exact ⟨r, hr, hagree⟩
  | spatz =>
    rw [ht] at hfit
    have hagree := fdotpRvv32b_agrees hV a.n_pos hfit (k.unit row) (k.regs row) x w
    exact fdotpRvv32b_within hV a.n_pos hagree

end

/-! ## Kernels that agree -/

section
variable {R : Type} [CommRing R] {VLMAX : Nat} {a : Args} {k : Calls R VLMAX} {mem : Nat → R}
  {l1 : Buf → Nat → R}

theorem targetMatvec_eq (hV : 1 ≤ VLMAX) (hfit : a.KernelFits VLMAX) (k : Calls R VLMAX)
    (mem : Nat → R) : targetMatvec a k mem = matvec a mem := by
  have hcore : ∀ i s, targetCore a k i s = core a i s := by
    intro i s
    obtain ⟨r, hr, hagree⟩ := fdotp32b_agrees hV hfit k (s.I + i) (s.l1.buf .xL1)
      fun j => s.l1.buf (.wRowL1 (s.it % 2)) (i * a.n + j)
    have hcall : kernelCall a k s i = some r := hr
    have hvalue : r.c = kernelValue a s i := hagree.1
    cases hpc : s.pc with
    | parallel todo => simp only [targetCore, core, hpc, hcall, Option.map_some, hvalue]
    | _ => simp only [targetCore, core, hpc]
  unfold targetMatvec matvec
  congr 1
  funext s agent
  cases agent with
  | core i => exact hcore i s
  | _ => rfl

theorem computes_of_target (hV : 1 ≤ VLMAX) (hfit : a.KernelFits VLMAX)
    (h : TargetComputes a k mem l1) : Computes a mem l1 := by
  obtain ⟨hsteps, -, hproduct, hprogress, hends⟩ := h
  rw [targetMatvec_eq hV hfit] at hsteps hproduct hprogress hends
  exact ⟨hsteps, hproduct, hprogress, hends⟩

end

/-! ## Kernels that agree on the data -/

def AgreesOn (a : Args) {R : Type} [CommRing R] {VLMAX : Nat} (k : Calls R VLMAX)
    (mem : Nat → R) : Prop :=
  ∀ row x w, (∀ j < a.n, x j = mem (xAt a j)) →
    ∃ r, fdotp32b a.target k row x w a.n = some r ∧ r.Agrees x w a.n

section
variable {R : Type} [CommRing R] {VLMAX : Nat} {a : Args} {k : Calls R VLMAX} {mem : Nat → R}
  {l1 : Buf → Nat → R} {s t : State R} {e : Event}

theorem Inv.targetCore_eq (h : Inv a mem s) (hk : AgreesOn a k mem) (i : Nat) :
    targetCore a k i s = Apps.core a i s := by
  cases hpc : s.pc with
  | parallel todo =>
    obtain ⟨-, hx, -⟩ := h.phase_parallel hpc
    obtain ⟨r, hr, hagree⟩ := hk (s.I + i) _
      (fun j => s.l1.buf (.wRowL1 (s.it % 2)) (i * a.n + j)) hx.eq
    have hcall : kernelCall a k s i = some r := hr
    have hvalue : r.c = kernelValue a s i := hagree.1
    simp only [targetCore, Apps.core, hpc, hcall, Option.map_some, hvalue]
  | _ => simp only [targetCore, Apps.core, hpc]

theorem Inv.target_step_iff (h : Inv a mem s) (hk : AgreesOn a k mem) :
    (targetMatvec a k mem).step s e t ↔ (matvec a mem).step s e t := by
  apply exists_congr
  intro agent
  cases agent with
  | core i => exact Eq.congr (h.targetCore_eq hk i) rfl
  | _ => rfl

theorem targetComputes_of_agrees (hf : Fits a) (hk : AgreesOn a k mem) (l1 : Buf → Nat → R) :
    TargetComputes a k mem l1 := by
  have hcomputes := computes_of_fits hf mem l1
  -- while the invariant holds, the two programs take the same steps
  have hrun : ∀ {tr s}, (targetMatvec a k mem).Run (matvecStart l1) tr s →
      (matvec a mem).Run (matvecStart l1) tr s := fun h =>
    h.congr (inv_start a mem l1) fun hu hs => by
      have hs' := (hu.target_step_iff hk).mp hs
      exact ⟨(hu.step hf hs').inv, hs'⟩
  constructor
  · exact fun tr s h => hcomputes.steps tr s (hrun h)
  · intro tr s h p hp i r he hcall
    have hok := hcomputes.steps tr s (hrun h) p hp
    rw [he] at hok
    obtain ⟨r', hr', hagree⟩ := hk (p.1.I + i) (p.1.l1.buf .xL1)
      (fun j => p.1.l1.buf (.wRowL1 (p.1.it % 2)) (i * a.n + j)) fun j hj => (hok.2.2.2 j hj).1
    obtain rfl := Option.some.inj (hr'.symm.trans hcall)
    exact hagree.2.2
  · exact fun tr s ret h => hcomputes.product tr s ret (hrun h)
  · intro tr s h
    refine (hcomputes.progress tr s (hrun h)).imp_right ?_
    rintro ⟨e, t, hstep⟩
    exact ⟨e, t, ((run_inv hf (hrun h)).target_step_iff hk).mpr hstep⟩
  · obtain ⟨N, hN⟩ := hcomputes.ends
    exact ⟨N, fun tr s h => hN tr s (hrun h)⟩

end

/-! ## What has been stored -/

section
variable {R : Type} [CommRing R] {VLMAX : Nat} {a : Args} {k : Calls R VLMAX} {mem : Nat → R}
  {l1 : Buf → Nat → R} {s t : State R} {e : Event} {r : Nat} {v : R}

theorem cpu_xout (h : cpu a s = some (e, t)) : t.xout = s.xout := by
  unfold cpu at h
  split at h <;> (try split_ifs at h) <;>
    first | (obtain ⟨-, rfl⟩ := Prod.mk.inj (Option.some.inj h); rfl) | cases h

theorem target_step_xout (h : (targetMatvec a k mem).step s e t) :
    t.xout = s.xout ∨ ∃ i d, e = .kernel i ∧ kernelCall a k s i = some d ∧
      t.xout = Function.update s.xout (i + s.I) (some d.c) := by
  obtain ⟨agent, hexec⟩ := h
  cases agent with
  | cpu => exact .inl (cpu_xout hexec)
  | engine c =>
    simp only [targetExec, engine] at hexec
    split_ifs at hexec
    obtain ⟨-, rfl⟩ := Prod.mk.inj (Option.some.inj hexec)
    exact .inl rfl
  | core i =>
    simp only [targetExec, targetCore] at hexec
    split at hexec
    · split_ifs at hexec
      · obtain ⟨-, rfl⟩ := Prod.mk.inj (Option.some.inj hexec)
        exact .inl rfl
      · obtain ⟨d, hd, hp⟩ := Option.map_eq_some_iff.mp hexec
        obtain ⟨rfl, rfl⟩ := Prod.mk.inj hp
        exact .inr ⟨i, d, rfl, hd, rfl⟩
    · cases hexec

theorem target_stored {tr : List (State R × Event)}
    (h : (targetMatvec a k mem).Run (matvecStart l1) tr s) (hv : s.xout r = some v) :
    ∃ p ∈ tr, ∃ i d, p.2 = .kernel i ∧ kernelCall a k p.1 i = some d ∧ r = i + p.1.I ∧
      d.c = v := by
  induction h with
  | nil => cases hv
  | @snoc tr s t e _ hstep ih =>
    have hlast : (s, e) ∈ tr ++ [(s, e)] := List.mem_append_right _ (List.mem_singleton_self _)
    have hbefore (hs : s.xout r = some v) : ∃ p ∈ tr ++ [(s, e)], ∃ i d, p.2 = .kernel i ∧
        kernelCall a k p.1 i = some d ∧ r = i + p.1.I ∧ d.c = v := by
      obtain ⟨p, hp, hcall⟩ := ih hs
      exact ⟨p, List.mem_append_left _ hp, hcall⟩
    rcases target_step_xout hstep with hsame | ⟨i, d, he, hd, hxout⟩
    · exact hbefore (hsame ▸ hv)
    · rw [hxout] at hv
      by_cases hr : r = i + s.I
      · rw [hr, Function.update_self] at hv
        exact ⟨_, hlast, i, d, he, hd, hr, Option.some.inj hv⟩
      · rw [Function.update_of_ne hr] at hv
        exact hbefore hv

theorem TargetComputes.row (h : TargetComputes a k mem l1) :
    ∃ s i d, kernelCall a k s i = some d ∧ d.c = rowDot a mem 0 ∧ d.ReadsBelow a.n ∧
      ∀ j < a.n, s.l1.buf .xL1 j = mem (xAt a j) ∧
        s.l1.buf (.wRowL1 (s.it % 2)) (i * a.n + j) = mem (wAt a (s.I + i) j) := by
  obtain ⟨tr, s, hrun, ret, hexit⟩ := Lts.Run.exists_final h.progress h.ends
  have hrow : s.xout 0 = some (rowDot a mem 0) :=
    ((h.product tr s ret hrun hexit).2 0).trans (if_pos a.d_pos)
  obtain ⟨p, hp, i, d, he, hcall, -, hd⟩ := target_stored hrun hrow
  have hok := h.steps tr s hrun p hp
  rw [he] at hok
  exact ⟨p.1, i, d, hcall, hd, h.reads tr s hrun p hp i d he hcall, hok.2.2.2⟩

end

/-! ## Kernels that do not -/

def greedyCalls (VLMAX : Nat) : Calls ℤ VLMAX := ⟨fun _ => greedyUnit VLMAX, fun _ _ _ => 0⟩

section
variable {VLMAX : Nat} {a : Args}

theorem occamy_fits_of_correct (ht : a.target = .occamy) (h : TargetCorrect VLMAX a) :
    a.n % 2 = 0 ∧ 4 ≤ a.n := by
  obtain ⟨s, i, d, hcall, -, hreads, -⟩ := (h ℤ (greedyCalls VLMAX) (fun _ => 0) fun _ _ => 0).row
  rw [kernelCall, ht] at hcall
  have hn := n_le a
  have hpos := a.n_pos
  have hK := toNat_n a
  by_contra hcond
  have hpast := fdotpSimd32b_reads_past (K := UInt32.ofNat a.n) (by omega) (by omega) hcall
  rw [hK] at hpast
  exact absurd (hreads.1 _ hpast) (lt_irrefl _)

theorem spatz_fits_of_correct (hV : 1 ≤ VLMAX) (ht : a.target = .spatz)
    (h : TargetCorrect VLMAX a) : a.n ≤ VLMAX ∨ VLMAX ∣ a.n := by
  by_contra hcond
  rw [← greedy_pairwise_iff hV] at hcond
  obtain ⟨s, i, d, hcall, hsum, -, hbuf⟩ :=
    (h ℤ (greedyCalls VLMAX) (fun _ => 1) fun _ _ => 0).row
  rw [kernelCall, ht] at hcall
  have hones : ∀ j < a.n,
      s.l1.buf .xL1 j * s.l1.buf (.wRowL1 (s.it % 2)) (i * a.n + j) = 1 := by
    intro j hj
    obtain ⟨hx, hw⟩ := hbuf j hj
    rw [hx, hw, mul_one]
  obtain ⟨m, d', hd', hlost⟩ := fdotpRvv32b_loses (u := greedyUnit VLMAX) hV a.n_pos hones hcond
    fun _ _ => 0
  obtain rfl := fdotpRvv32b_det hd' hcall
  have hall : rowDot a (fun _ => (1 : ℤ)) 0 = (a.n : ℤ) := by
    rw [rowDot, sum_const, card_range, mul_one, nsmul_one]
  rw [hsum, hall] at hlost
  exact absurd hlost (lt_irrefl _)

theorem kernelFits_of_correct (hV : 1 ≤ VLMAX) (h : TargetCorrect VLMAX a) :
    a.KernelFits VLMAX := by
  unfold Args.KernelFits
  cases ht : a.target with
  | occamy => exact occamy_fits_of_correct ht h
  | spatz => exact spatz_fits_of_correct hV ht h

end

/-- With the kernels that the targets have, all runs compute the product just if the buffers of
two rows fit the cores and the kernel fits the length of the rows. -/
theorem targetMatvec_correct_iff {VLMAX : Nat} (hV : 1 ≤ VLMAX) (a : Args) :
    TargetCorrect VLMAX a ↔
      2 ≤ a.d ∧ (a.target = .spatz ∨ a.d = 2) ∧ a.KernelFits VLMAX := by
  constructor
  · intro h
    have hfit := kernelFits_of_correct hV h
    have hcomputes := computes_of_target hV hfit
      (h ℤ (greedyCalls VLMAX) (fun _ => 0) fun _ _ => 0)
    obtain ⟨htwo, htarget⟩ := fits_of_computes hcomputes
    exact ⟨htwo, htarget, hfit⟩
  · rintro ⟨htwo, htarget, hfit⟩ R _ k mem l1
    exact targetComputes_of_agrees ⟨htwo, htarget⟩
      (fun row x w _ => fdotp32b_agrees hV hfit k row x w) l1

def spatzFiveColumns : Args where
  target := .spatz
  n := 5
  d := 2
  xoutP := 0x3000
  xP := 0x1000
  wP := 0x2000
  n_pos := by decide
  d_pos := by decide
  size_ok := by decide
  xout_pos := spatzOneRow.xout_pos
  x_pos := spatzOneRow.x_pos
  w_pos := spatzOneRow.w_pos
  x_fits := by decide
  w_fits := by decide

theorem targetMatvec_correct_iff_five_columns :
    (∀ (mem : Nat → ℤ) l1, Computes spatzFiveColumns mem l1) ∧
      ¬ TargetCorrect 4 spatzFiveColumns ∧ TargetCorrect 8 spatzFiveColumns := by
  have htwo : 2 ≤ spatzFiveColumns.d := le_rfl
  refine ⟨computes_of_fits ⟨htwo, .inl rfl⟩, fun h => ?_, ?_⟩
  · have hfit : 5 ≤ 4 ∨ 4 ∣ 5 := ((targetMatvec_correct_iff (by decide) _).mp h).2.2
    exact absurd hfit (by decide)
  · have hfit : 5 ≤ 8 ∨ 8 ∣ 5 := by decide
    exact (targetMatvec_correct_iff (by decide) _).mpr ⟨htwo, .inl rfl, hfit⟩

end HeroTools.Apps
