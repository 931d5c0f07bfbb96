import HeroTools.Apps.MatvecRuns

/-! Where the matrix-vector product goes wrong: with one row, and with more than two rows on
eight cores. -/

namespace HeroTools.Apps

section
variable {R : Type} [CommRing R] {a : Args} {mem : Nat → R} {buf : Buf → Nat → R} {s : State R}
  {tr : List (State R × Event)}

theorem step_of_cpu {e : Event} {t : State R} (h : cpu a s = some (e, t)) :
    (matvec a mem).step s e t := ⟨.cpu, h⟩

theorem run_to_test (a : Args) (mem : Nat → R) (buf : Buf → Nat → R) :
    ∃ tr s u, (matvec a mem).Run (matvecStart buf) tr s ∧ s.pc = .test ∧ s.I = 0 ∧
      (u, .dma a.transferW) ∈ tr := by
  have hcheck : (matvec a mem).Run (matvecStart buf) [] (matvecStart buf) := .nil
  have hguard := hcheck.snoc (step_of_cpu (cpu_check rfl))
  have hinit := hguard.snoc (step_of_cpu (cpu_guard rfl))
  have hx := hinit.snoc (step_of_cpu rfl)
  have hw := hx.snoc (step_of_cpu rfl)
  have htest := hw.snoc (step_of_cpu rfl)
  exact ⟨_, _, _, htest, rfl, rfl, List.mem_append_right _ (List.mem_singleton_self _)⟩

theorem run_drain (h : (matvec a mem).Run (matvecStart buf) tr s) :
    ∃ tr' t, (matvec a mem).Run (matvecStart buf) tr' t ∧ t.l1.pending = [] ∧ t.pc = s.pc ∧
      t.I = s.I := by
  induction hlen : s.l1.pending.length generalizing tr s with
  | zero => exact ⟨tr, s, h, List.eq_nil_of_length_eq_zero hlen, rfl, rfl⟩
  | succ k ih =>
    have hne : s.l1.pending ≠ [] := List.ne_nil_of_length_eq_add_one hlen
    obtain ⟨c, hc⟩ := List.exists_mem_of_ne_nil _ hne
    have hrest := Engine.length_deliver mem hc
    have hstep : (matvec a mem).step s (.copy c) { s with l1 := s.l1.deliver mem c } :=
      ⟨.engine c, if_pos hc⟩
    have hk : (s.l1.deliver mem c).pending.length = k := by omega
    obtain ⟨tr', t, ht, hnil, hpc, hI⟩ := ih (h.snoc hstep) hk
    exact ⟨tr', t, ht, hnil, hpc, hI⟩

theorem cpu_fetch (hpc : s.pc = .fetch) :
    ∃ e t, cpu a s = some (e, t) ∧ t.pc = .parallel (List.range a.cores) ∧ t.I = s.I := by
  simp only [cpu, hpc]
  split_ifs
  · exact ⟨_, _, rfl, rfl, rfl⟩
  · exact ⟨_, _, rfl, rfl, rfl⟩

theorem run_to_kernel {i : Nat} (hi : i < a.cores) (hd : i < a.d) (mem : Nat → R)
    (buf : Buf → Nat → R) :
    ∃ tr s u, (matvec a mem).Run (matvecStart buf) tr s ∧ (u, .kernel i) ∈ tr := by
  obtain ⟨tr, s, -, htest, hpc, hI, -⟩ := run_to_test a mem buf
  have hwait : cpu a s = some (.tau, { s with pc := .wait }) := by
    have hlt : s.I < a.d := hI ▸ a.d_pos
    simp only [cpu, hpc, if_pos hlt]
  obtain ⟨tr, s', hrun, hnil, hpc', hI'⟩ := run_drain (htest.snoc (step_of_cpu hwait))
  have hfetch : cpu a s' = some (.tau, { s' with pc := .fetch }) := by
    simp only [cpu, hpc', if_pos hnil]
  obtain ⟨e, t, hpar, hpct, hIt⟩ := cpu_fetch (a := a) (s := { s' with pc := .fetch }) rfl
  have hrow : ¬ t.I + i ≥ a.d := by
    have hzero : t.I = 0 := hIt.trans (hI'.trans hI)
    omega
  have hkernel : ∃ v, exec a mem t (.core i) = some (.kernel i, v) := by
    simp only [exec, core, hpct, if_pos (List.mem_range.mpr hi), if_neg hrow]
    exact ⟨_, rfl⟩
  obtain ⟨v, hv⟩ := hkernel
  have hlast := ((hrun.snoc (step_of_cpu hfetch)).snoc (step_of_cpu hpar)).snoc ⟨.core i, hv⟩
  exact ⟨_, v, t, hlast, List.mem_append_right _ (List.mem_singleton_self _)⟩

/-- Two rows are fetched, be they there or not. -/
theorem not_computes_of_one_row (hd : a.d = 1) (mem : Nat → R) (buf : Buf → Nat → R) :
    ¬ Computes a mem buf := by
  intro h
  obtain ⟨tr, s, u, hrun, -, -, hmem⟩ := run_to_test a mem buf
  have hbounds : a.transferW.InBounds a := h.steps tr s hrun _ hmem
  have hn := a.n_pos
  rw [transferW_eq, Transfer.InBounds, hd] at hbounds
  dsimp only at hbounds
  unfold sizeofDTYPE at hbounds
  omega

/-- A third core looks for its row behind the end of the buffer. -/
theorem not_computes_of_third_core (hc : 2 < a.cores) (hd : 2 < a.d) (mem : Nat → R)
    (buf : Buf → Nat → R) : ¬ Computes a mem buf := by
  intro h
  obtain ⟨tr, s, u, hrun, hmem⟩ := run_to_kernel hc hd mem buf
  have hrow : (2 + 1) * a.n ≤ 2 * a.n := (h.steps tr s hrun _ hmem).1
  have hn := a.n_pos
  omega

theorem fits_of_computes (h : Computes a mem buf) : Fits a := by
  have htwo : 2 ≤ a.d := by
    by_contra hd
    have hone := a.d_pos
    exact not_computes_of_one_row (by omega) _ _ h
  refine ⟨htwo, ?_⟩
  by_contra hcond
  obtain ⟨htarget, hne⟩ := not_or.mp hcond
  have hcores : a.cores = 8 := by
    cases ht : a.target with
    | occamy => rw [Args.cores, ht, CORES]
    | spatz => exact absurd ht htarget
  exact not_computes_of_third_core (by omega) (by omega) _ _ h

end

theorem matvec_correct_iff (a : Args) :
    MatvecCorrect a ↔ 2 ≤ a.d ∧ (a.target = .spatz ∨ a.d = 2) := by
  constructor
  · intro h
    have hcomputes := h ℤ (fun _ => 0) fun _ _ => 0
    obtain ⟨htwo, htarget⟩ := fits_of_computes hcomputes
    exact ⟨htwo, htarget⟩
  · rintro ⟨htwo, htarget⟩ R _ mem buf
    exact computes_of_fits ⟨htwo, htarget⟩ mem buf

def spatzOneRow : Args where
  target := .spatz
  n := 1
  d := 1
  xoutP := 0x3000
  xP := 0x1000
  wP := 0x2000
  n_pos := by decide
  d_pos := by decide
  size_ok := by decide
  xout_pos := by decide
  x_pos := by decide
  w_pos := by decide
  x_fits := by decide
  w_fits := by decide

def occamyThreeRows : Args where
  target := .occamy
  n := 1
  d := 3
  xoutP := 0x3000
  xP := 0x1000
  wP := 0x2000
  n_pos := by decide
  d_pos := by decide
  size_ok := by decide
  xout_pos := by decide
  x_pos := by decide
  w_pos := by decide
  x_fits := by decide
  w_fits := by decide

theorem matvec_not_correct :
    spatzOneRow.transferW = ⟨.wRowL1 0, 0x2000, 8⟩ ∧ ¬ MatvecCorrect spatzOneRow ∧
      occamyThreeRows.transferNext 0 0 = ⟨.wRowL1 1, 0x2020, 2 ^ 32 - 20⟩ ∧
      ¬ MatvecCorrect occamyThreeRows :=
  ⟨by decide, fun h => not_computes_of_one_row rfl _ _ (h ℤ (fun _ => 0) fun _ _ => 0), by decide,
    fun h => not_computes_of_third_core (by decide) (by decide) _ _
      (h ℤ (fun _ => 0) fun _ _ => 0)⟩

end HeroTools.Apps
