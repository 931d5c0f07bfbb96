import HeroTools.Apps.Matvec

/-! What all runs of the matrix-vector product keep: which rows the buffers hold, which are
under way, and what has been stored. -/

namespace HeroTools.Apps
open Finset

/-! ## Transfers -/

section
variable {a : Args} {I it x : Nat}

theorem u32_eq (h : x < 2 ^ 32) : u32 x = x := by
  unfold u32
  omega

structure Fits (a : Args) : Prop where
  two_le : 2 ≤ a.d
  spatz_or : a.target = .spatz ∨ a.d = 2

theorem two_le_cores (a : Args) : 2 ≤ a.cores := by
  unfold Args.cores
  cases a.target <;> decide

theorem Fits.cores_eq (h : Fits a) (hd : 2 < a.d) : a.cores = 2 := by
  have htarget := h.spatz_or.resolve_right (by omega)
  rw [Args.cores, htarget, CORES]

theorem n_le (a : Args) : a.n ≤ 2730 := by
  have hsize : 9 * a.n ≤ 24576 := a.size_ok
  omega

theorem d_le (a : Args) : a.d ≤ 2 ^ 30 := by
  have hfits := a.w_fits
  have hd := Nat.le_mul_of_pos_left a.d a.n_pos
  unfold sizeofDTYPE at hfits
  omega

theorem rowsLeft_eq (hI : I ≤ a.d) : a.rowsLeft I = ((a.d - I : Nat) : Int) := by
  have hd := d_le a
  rw [Args.rowsLeft, Nat.cast_sub hI]
  exact Int.bmod_eq_of_le (by omega) (by omega)

theorem transferX_eq (a : Args) : a.transferX = ⟨.xL1, a.xP, 4 * a.n⟩ := by
  have hn := n_le a
  have hsize : u32 (a.n * sizeofDTYPE) = 4 * a.n := by
    unfold u32 sizeofDTYPE
    omega
  rw [Args.transferX, hsize]

theorem transferW_eq (a : Args) : a.transferW = ⟨.wRowL1 0, a.wP, 4 * (a.n * 2)⟩ := by
  have hn := n_le a
  have hsize : u32 (u32 (a.n * 2) * sizeofDTYPE) = 4 * (a.n * 2) := by
    unfold u32 sizeofDTYPE
    omega
  rw [Args.transferW, hsize]

def rows (a : Args) (I : Nat) : Nat := min (a.d - I) 2

theorem rows_le (a : Args) (I : Nat) : rows a I ≤ 2 := min_le_right _ _

theorem rows_fit (hI : I ≤ a.d) : a.n * I + a.n * rows a I ≤ a.n * a.d := by
  rw [← Nat.mul_add]
  exact Nat.mul_le_mul_left a.n (by unfold rows; omega)

theorem transferNext_eq (hc : a.cores = 2) (hI : I + 2 < a.d) :
    a.transferNext I it =
      ⟨.wRowL1 ((it + 1) % 2), wAt a (I + 2) 0, 4 * (a.n * rows a (I + 2))⟩ := by
  have hn := n_le a
  have hd := d_le a
  have hw := a.w_fits
  have hrows := rows_le a (I + 2)
  have hlt : a.n * (I + 2) < a.n * a.d := Nat.mul_lt_mul_of_pos_left hI a.n_pos
  have hcount : a.n * rows a (I + 2) ≤ a.n * 2 := Nat.mul_le_mul_left a.n hrows
  unfold sizeofDTYPE at hw
  -- nothing wraps, since `w` ends below 2^32
  have hrow : u32 (a.n * sizeofDTYPE) = 4 * a.n := by
    unfold u32 sizeofDTYPE
    omega
  have hfirst : u32 (I + a.cores) = I + 2 := by
    rw [hc]
    unfold u32
    omega
  have hoff : u32 (u32 (a.n * sizeofDTYPE) * u32 (I + a.cores)) = 4 * (a.n * (I + 2)) := by
    rw [hrow, hfirst, ← Nat.cast_mul, Nat.mul_assoc]
    exact u32_eq (by omega)
  have hmin : imin (a.rowsLeft I - a.cores) a.cores = (rows a (I + 2) : Int) := by
    rw [rowsLeft_eq (by omega), hc]
    unfold imin rows
    split_ifs <;> omega
  have hsize : u32 (u32 (a.n * u32 (imin (a.rowsLeft I - a.cores) a.cores)) * sizeofDTYPE) =
      4 * (a.n * rows a (I + 2)) := by
    have helems : u32 (a.n * (rows a (I + 2) : Nat)) = a.n * rows a (I + 2) := by
      rw [← Nat.cast_mul]
      exact u32_eq (by omega)
    rw [hmin, u32_eq (by omega), helems, ← Nat.cast_mul, Nat.mul_comm]
    exact u32_eq (by unfold sizeofDTYPE; omega)
  have hsrc : u32 (a.wP + u32 (u32 (a.n * sizeofDTYPE) * u32 (I + a.cores))) =
      wAt a (I + 2) 0 := by
    rw [hoff, ← Nat.cast_add]
    exact u32_eq (by omega)
  rw [Args.transferNext, hsrc, hsize]

theorem transferX_inBounds (a : Args) : a.transferX.InBounds a := by
  rw [transferX_eq]
  exact ⟨.inl ⟨le_rfl, le_rfl⟩, le_rfl⟩

theorem transferW_inBounds (h : Fits a) : a.transferW.InBounds a := by
  rw [transferW_eq]
  have hrows := Nat.mul_le_mul_left a.n h.two_le
  refine ⟨.inr ⟨le_rfl, ?_⟩, ?_⟩
  · exact Nat.add_le_add_left (Nat.mul_le_mul_left 4 hrows) a.wP
  · exact Nat.mul_le_mul_left 4 (Nat.mul_comm a.n 2).le

theorem transferNext_inBounds (hc : a.cores = 2) (hI : I + 2 < a.d) :
    (a.transferNext I it).InBounds a := by
  rw [transferNext_eq hc hI]
  have hfit := rows_fit (a := a) (I := I + 2) hI.le
  have hcount : a.n * rows a (I + 2) ≤ a.n * 2 := Nat.mul_le_mul_left a.n (rows_le a (I + 2))
  refine ⟨.inr ⟨?_, ?_⟩, ?_⟩
  · exact Nat.le_add_right a.wP _
  · dsimp only [wAt]
    unfold sizeofDTYPE
    omega
  · dsimp only [Args.len]
    unfold sizeofDTYPE
    omega

variable {R : Type} {l1 : Engine Buf Nat R}

theorem start_transferX (a : Args) (l1 : Engine Buf Nat R) :
    a.transferX.start l1 = l1.start .xL1 (xAt a) a.n := by
  rw [transferX_eq, Transfer.start, Nat.mul_div_cancel_left a.n (by decide)]
  rfl

theorem start_transferW (a : Args) (l1 : Engine Buf Nat R) :
    a.transferW.start l1 = l1.start (.wRowL1 0) (wAt a 0) (a.n * 2) := by
  rw [transferW_eq, Transfer.start, Nat.mul_div_cancel_left _ (by decide)]
  congr 1
  funext k
  rw [wAt, Nat.mul_zero, Nat.zero_add]

theorem start_transferNext (hc : a.cores = 2) (hI : I + 2 < a.d) (it : Nat)
    (l1 : Engine Buf Nat R) :
    (a.transferNext I it).start l1 =
      l1.start (.wRowL1 ((it + 1) % 2)) (wAt a (I + 2)) (a.n * rows a (I + 2)) := by
  rw [transferNext_eq hc hI, Transfer.start, Nat.mul_div_cancel_left _ (by decide)]
  congr 1
  funext k
  change wAt a (I + 2) 0 + sizeofDTYPE * k = wAt a (I + 2) k
  unfold wAt sizeofDTYPE
  omega

/-! ## What a run keeps -/

variable [CommRing R] {mem : Nat → R} {s t : State R} {e : Event}

def State.todo (a : Args) (s : State R) : List Nat :=
  match s.pc with
  | .parallel todo => todo
  | .next => []
  | _ => List.range a.cores

def OwesRows (a : Args) (mem : Nat → R) (s : State R) (k I : Nat) : Prop :=
  s.l1.Owes mem (.wRowL1 k) (wAt a I) (a.n * rows a I)

def HoldsRows (a : Args) (mem : Nat → R) (s : State R) (k I : Nat) : Prop :=
  s.l1.Holds mem (.wRowL1 k) (wAt a I) (a.n * rows a I)

/-- What is true of the buffers, phase by phase: during the parallel loop one buffer holds the
rows of this turn, and the other is owed those of the next. -/
def Phase (a : Args) (mem : Nat → R) (s : State R) : Prop :=
  match s.pc with
  | .check | .guard | .init | .dmaX => s.I = 0 ∧ s.l1.pending = []
  | .dmaW => s.I = 0 ∧ s.l1.Owes mem .xL1 (xAt a) a.n ∧ ∀ k, s.l1.Quiet (.wRowL1 k)
  | .test =>
    s.l1.Owes mem .xL1 (xAt a) a.n ∧ (s.I < a.d → OwesRows a mem s (s.it % 2) s.I)
  | .wait => s.I < a.d ∧ s.l1.Owes mem .xL1 (xAt a) a.n ∧ OwesRows a mem s (s.it % 2) s.I
  | .fetch =>
    s.I < a.d ∧ s.l1.pending = [] ∧ s.l1.Holds mem .xL1 (xAt a) a.n ∧
      HoldsRows a mem s (s.it % 2) s.I
  | .parallel _ | .next =>
    s.I < a.d ∧ s.l1.Holds mem .xL1 (xAt a) a.n ∧ HoldsRows a mem s (s.it % 2) s.I ∧
      (s.I + a.cores < a.d → OwesRows a mem s ((s.it + 1) % 2) (s.I + a.cores))
  | .exit ret => ret = 0 ∧ a.d ≤ s.I

def Stored (a : Args) (I : Nat) (todo : List Nat) (r : Nat) : Prop :=
  r < a.d ∧ (r < I ∨ r < I + a.cores ∧ r - I ∉ todo)

instance (a : Args) (I : Nat) (todo : List Nat) : DecidablePred (Stored a I todo) :=
  fun _ => inferInstanceAs (Decidable (_ ∧ _))

theorem stored_erase {todo : List Nat} {i r : Nat} (hnodup : todo.Nodup) (hi : i < a.cores) :
    Stored a I (todo.erase i) r ↔ Stored a I todo r ∨ r < a.d ∧ r = I + i := by
  unfold Stored
  rw [hnodup.mem_erase_iff]
  grind

theorem stored_next {r : Nat} :
    Stored a (I + a.cores) (List.range a.cores) r ↔ Stored a I [] r := by
  unfold Stored
  rw [List.mem_range]
  simp only [List.not_mem_nil, not_false_eq_true, and_true]
  omega

structure Inv (a : Args) (mem : Nat → R) (s : State R) : Prop where
  phase : Phase a mem s
  todo_nodup : (s.todo a).Nodup
  todo_lt : ∀ i ∈ s.todo a, i < a.cores
  xout_eq : ∀ r, s.xout r = if Stored a s.I (s.todo a) r then some (rowDot a mem r) else none

/-- How many steps there can be, given the state of the program. -/
def rank (a : Args) (s : State R) : Nat :=
  let turn := 2 * a.n + a.cores + 6
  match s.pc with
  | .check => a.d * turn + turn + 3 * a.n + 5
  | .guard => a.d * turn + turn + 3 * a.n + 4
  | .init => a.d * turn + turn + 3 * a.n + 3
  | .dmaX => a.d * turn + turn + 3 * a.n + 2
  | .dmaW => a.d * turn + turn + 2 * a.n + 1
  | .test => (a.d - s.I) * turn + turn
  | .wait => (a.d - s.I) * turn + 2 * a.n + a.cores + 5
  | .fetch => (a.d - s.I) * turn + 2 * a.n + a.cores + 4
  | .parallel todo => (a.d - s.I) * turn + todo.length + 3
  | .next => (a.d - s.I) * turn + 2
  | .exit _ => 0

/-- The copies that are under way are steps too. -/
def variant (a : Args) (s : State R) : Nat := s.l1.pending.length + rank a s

structure Sound (a : Args) (mem : Nat → R) (s : State R) (e : Event) (t : State R) : Prop where
  inv : Inv a mem t
  ok : StepOk a mem s e
  lt : variant a t < variant a s

/-! ### The engine -/

theorem Inv.in_parallel {todo : List Nat} (h : Inv a mem s) (hpc : s.pc = .parallel todo) :
    todo.Nodup ∧ (∀ i ∈ todo, i < a.cores) ∧
      ∀ r, s.xout r = if Stored a s.I todo r then some (rowDot a mem r) else none := by
  have htodo : s.todo a = todo := by rw [State.todo, hpc]
  exact ⟨htodo ▸ h.todo_nodup, htodo ▸ h.todo_lt, htodo ▸ h.xout_eq⟩

theorem Inv.phase_parallel {todo : List Nat} (h : Inv a mem s) (hpc : s.pc = .parallel todo) :
    s.I < a.d ∧ s.l1.Holds mem .xL1 (xAt a) a.n ∧ HoldsRows a mem s (s.it % 2) s.I ∧
      (s.I + a.cores < a.d → OwesRows a mem s ((s.it + 1) % 2) (s.I + a.cores)) := by
  have hphase := h.phase
  simp only [Phase, hpc] at hphase
  exact hphase

omit [CommRing R] in
theorem Phase.deliver {c : Copy Buf Nat} (h : Phase a mem s) (hc : c ∈ s.l1.pending) :
    Phase a mem { s with l1 := s.l1.deliver mem c } := by
  have hne : s.l1.pending ≠ [] := List.ne_nil_of_mem hc
  unfold Phase at h ⊢
  cases hpc : s.pc <;> simp only [hpc] at h ⊢
  case check => exact absurd h.2 hne
  case guard => exact absurd h.2 hne
  case init => exact absurd h.2 hne
  case dmaX => exact absurd h.2 hne
  case dmaW => exact ⟨h.1, h.2.1.deliver hc, fun k => (h.2.2 k).deliver⟩
  case test => exact ⟨h.1.deliver hc, fun hI => (h.2 hI).deliver hc⟩
  case wait => exact ⟨h.1, h.2.1.deliver hc, h.2.2.deliver hc⟩
  case fetch => exact absurd h.2.1 hne
  case parallel =>
    exact ⟨h.1, h.2.1.deliver hc, h.2.2.1.deliver hc, fun hI => (h.2.2.2 hI).deliver hc⟩
  case next =>
    exact ⟨h.1, h.2.1.deliver hc, h.2.2.1.deliver hc, fun hI => (h.2.2.2 hI).deliver hc⟩
  case exit => exact h

theorem Inv.engine {c : Copy Buf Nat} (h : Inv a mem s) (hc : c ∈ s.l1.pending) :
    Sound a mem s (.copy c) { s with l1 := s.l1.deliver mem c } where
  inv := ⟨h.phase.deliver hc, h.todo_nodup, h.todo_lt, h.xout_eq⟩
  ok := by
    intro todo hpc
    obtain ⟨-, hx, hw, -⟩ := h.phase_parallel hpc
    exact ⟨hx.quiet c hc, hw.quiet c hc⟩
  lt := by
    have hlen := Engine.length_deliver mem hc
    change (s.l1.deliver mem c).pending.length + rank a s < s.l1.pending.length + rank a s
    omega

/-! ### The cores -/

theorem Fits.lt_rows {i : Nat} (hf : Fits a) (hi : i < a.cores) (hd : I + i < a.d) :
    i < rows a I := by
  have hcores := hf.cores_eq
  have htwo := hf.two_le
  unfold rows
  omega

omit [CommRing R] in
theorem HoldsRows.row {k i j : Nat} (h : HoldsRows a mem s k I) (hi : i < rows a I) (hj : j < a.n) :
    s.l1.buf (.wRowL1 k) (i * a.n + j) = mem (wAt a (I + i) j) := by
  have hle : (i + 1) * a.n ≤ rows a I * a.n := Nat.mul_le_mul_right a.n hi
  rw [Nat.succ_mul, Nat.mul_comm (rows a I)] at hle
  rw [h.eq (i * a.n + j) (by omega)]
  congr 1
  unfold wAt
  rw [Nat.mul_add a.n, Nat.mul_comm i, Nat.add_assoc]

theorem kernelValue_eq {i : Nat} (hx : s.l1.Holds mem .xL1 (xAt a) a.n)
    (hw : HoldsRows a mem s (s.it % 2) I) (hi : i < rows a I) :
    kernelValue a s i = rowDot a mem (I + i) := by
  rw [kernelValue, fdotpNaive32b_eq, rowDot]
  change ∑ j ∈ range a.n, _ = _
  refine sum_congr rfl fun j hj => ?_
  rw [hx.eq j (mem_range.mp hj), hw.row hi (mem_range.mp hj)]

omit [CommRing R] in
theorem variant_erase {i : Nat} {todo : List Nat} (hpc : s.pc = .parallel todo) (hi : i ∈ todo)
    (xout : Nat → Option R) :
    variant a { s with pc := .parallel (todo.erase i), xout := xout } < variant a s := by
  have hlen := List.length_erase_of_mem hi
  have hpos := List.length_pos_of_mem hi
  simp only [variant, rank, hpc, hlen]
  omega

theorem Inv.skip {i : Nat} {todo : List Nat} (h : Inv a mem s) (hpc : s.pc = .parallel todo)
    (hi : i ∈ todo) (hd : a.d ≤ s.I + i) :
    Sound a mem s .tau { s with pc := .parallel (todo.erase i) } := by
  have hphase := h.phase_parallel hpc
  obtain ⟨hnodup, hlt, hxout⟩ := h.in_parallel hpc
  refine ⟨⟨hphase, hnodup.erase i, fun j hj => hlt j (List.mem_of_mem_erase hj), fun r => ?_⟩,
    trivial, ?_⟩
  · have hsame : Stored a s.I (todo.erase i) r ↔ Stored a s.I todo r := by
      rw [stored_erase hnodup (hlt i hi)]
      exact or_iff_left fun hr => by omega
    exact (hxout r).trans (if_congr hsame.symm rfl rfl)
  · exact variant_erase hpc hi s.xout

theorem Inv.kernel {i : Nat} {todo : List Nat} (h : Inv a mem s) (hf : Fits a)
    (hpc : s.pc = .parallel todo) (hi : i ∈ todo) (hd : s.I + i < a.d) :
    Sound a mem s (.kernel i)
      { s with
        pc := .parallel (todo.erase i)
        xout := Function.update s.xout (i + s.I) (some (kernelValue a s i)) } := by
  have hphase := h.phase_parallel hpc
  obtain ⟨-, hx, hw, -⟩ := h.phase_parallel hpc
  obtain ⟨hnodup, hlt, hxout⟩ := h.in_parallel hpc
  have hrow := hf.lt_rows (hlt i hi) hd
  refine ⟨⟨hphase, hnodup.erase i, fun j hj => hlt j (List.mem_of_mem_erase hj), fun r => ?_⟩,
    ⟨?_, hx.quiet, hw.quiet, fun j hj => ⟨hx.eq j hj, hw.row hrow hj⟩⟩, ?_⟩
  · have hstored := stored_erase (I := s.I) (r := r) hnodup (hlt i hi)
    by_cases hr : r = i + s.I
    · subst hr
      have hnew : Stored a s.I (todo.erase i) (i + s.I) :=
        hstored.mpr (.inr ⟨by omega, Nat.add_comm i s.I⟩)
      refine (Function.update_self _ _ _).trans ((if_pos hnew).trans ?_).symm
      rw [kernelValue_eq hx hw hrow, Nat.add_comm]
    · have hsame : Stored a s.I (todo.erase i) r ↔ Stored a s.I todo r :=
        hstored.trans (or_iff_left fun hr' => by omega)
      exact (Function.update_of_ne hr _ _).trans ((hxout r).trans (if_congr hsame.symm rfl rfl))
  · have hle := rows_le a s.I
    exact Nat.mul_le_mul_right a.n (by omega)
  · exact variant_erase hpc hi _

theorem Inv.core {i : Nat} (h : Inv a mem s) (hf : Fits a) (hstep : core a i s = some (e, t)) :
    Sound a mem s e t := by
  unfold Apps.core at hstep
  cases hpc : s.pc <;> simp only [hpc, reduceCtorEq] at hstep
  case parallel todo =>
    split_ifs at hstep with hi hd
    · cases hstep
      exact h.skip hpc hi hd
    · cases hstep
      exact h.kernel hf hpc hi (not_le.mp hd)

/-! ### The program -/

theorem Inv.sound_of_same (h : Inv a mem s) (hI : t.I = s.I) (htodo : t.todo a = s.todo a)
    (hxout : t.xout = s.xout) (hphase : Phase a mem t) (hok : StepOk a mem s e)
    (hlt : variant a t < variant a s) : Sound a mem s e t where
  inv := by
    refine ⟨hphase, ?_, ?_, ?_⟩
    · rw [htodo]
      exact h.todo_nodup
    · rw [htodo]
      exact h.todo_lt
    · rw [hI, htodo, hxout]
      exact h.xout_eq
  ok := hok
  lt := hlt

theorem Inv.fetch (h : Inv a mem s) (hf : Fits a) (hpc : s.pc = .fetch)
    (hleft : 2 < a.rowsLeft s.I) :
    Sound a mem s (.dma (a.transferNext s.I s.it))
      { s with
        pc := .parallel (List.range a.cores)
        l1 := (a.transferNext s.I s.it).start s.l1 } := by
  have hphase := h.phase
  simp only [Phase, hpc] at hphase
  obtain ⟨hI, hnil, hx, hw⟩ := hphase
  rw [rowsLeft_eq hI.le] at hleft
  have hnext : s.I + 2 < a.d := by omega
  have hc : a.cores = 2 := hf.cores_eq (by omega)
  have hother : (s.it + 1) % 2 ≠ s.it % 2 := by omega
  have hne : Buf.wRowL1 (s.it % 2) ≠ .wRowL1 ((s.it + 1) % 2) := fun heq =>
    hother (Buf.wRowL1.inj heq).symm
  rw [start_transferNext hc hnext]
  refine h.sound_of_same rfl (by simp only [State.todo, hpc]) rfl ?_
    (transferNext_inBounds hc hnext) ?_
  · refine ⟨hI, hx.start Buf.noConfusion, hw.start hne, fun _ => ?_⟩
    rw [hc]
    exact (Engine.quiet_of_nil hnil _).owes_start
  · have hcount := Nat.mul_le_mul_left a.n (rows_le a (s.I + 2))
    simp only [variant, rank, hpc, Engine.length_start, List.length_range]
    omega

theorem Inv.next (h : Inv a mem s) (hpc : s.pc = .next) :
    Sound a mem s .tau { s with pc := .test, it := s.it + 1, I := s.I + a.cores } := by
  have hphase := h.phase
  have hxout := h.xout_eq
  simp only [Phase, State.todo, hpc] at hphase hxout
  refine ⟨⟨⟨hphase.2.1.owes, hphase.2.2.2⟩, List.nodup_range, fun i => List.mem_range.mp, ?_⟩,
    trivial, ?_⟩
  · exact fun r => (hxout r).trans (if_congr stored_next.symm rfl rfl)
  · have hcores := two_le_cores a
    have hturns : a.d - (s.I + a.cores) + 1 ≤ a.d - s.I := by omega
    have hmul := Nat.mul_le_mul_right (2 * a.n + a.cores + 6) hturns
    rw [Nat.succ_mul] at hmul
    simp only [variant, rank, hpc]
    omega

theorem Inv.dmaX (h : Inv a mem s) (hpc : s.pc = .dmaX) :
    Sound a mem s (.dma a.transferX) { s with pc := .dmaW, l1 := a.transferX.start s.l1 } := by
  have hphase := h.phase
  simp only [Phase, hpc] at hphase
  obtain ⟨hI, hnil⟩ := hphase
  rw [start_transferX]
  refine h.sound_of_same rfl (by simp only [State.todo, hpc]) rfl ⟨hI, ?_, fun k => ?_⟩
    (transferX_inBounds a) ?_
  · exact (Engine.quiet_of_nil hnil _).owes_start
  · exact (Engine.quiet_of_nil hnil _).start Buf.noConfusion
  · simp only [variant, rank, hpc, Engine.length_start]
    omega

theorem Inv.dmaW (h : Inv a mem s) (hf : Fits a) (hpc : s.pc = .dmaW) :
    Sound a mem s (.dma a.transferW)
      { s with pc := .test, it := 0, I := 0, l1 := a.transferW.start s.l1 } := by
  have hphase := h.phase
  simp only [Phase, hpc] at hphase
  obtain ⟨hI, hx, hquiet⟩ := hphase
  have hrows : rows a 0 = 2 := min_eq_right hf.two_le
  rw [start_transferW]
  refine h.sound_of_same hI.symm (by simp only [State.todo, hpc]) rfl ⟨?_, fun _ => ?_⟩
    (transferW_inBounds hf) ?_
  · exact hx.start Buf.noConfusion
  · rw [OwesRows, hrows]
    exact (hquiet 0).owes_start
  · simp only [variant, rank, hpc, Engine.length_start, Nat.sub_zero]
    omega

theorem Inv.no_fetch (h : Inv a mem s) (hpc : s.pc = .fetch) (hleft : ¬ 2 < a.rowsLeft s.I) :
    Sound a mem s .tau { s with pc := .parallel (List.range a.cores) } := by
  have hphase := h.phase
  simp only [Phase, hpc] at hphase
  obtain ⟨hI, hnil, hx, hw⟩ := hphase
  rw [rowsLeft_eq hI.le] at hleft
  have hcores := two_le_cores a
  refine h.sound_of_same rfl (by simp only [State.todo, hpc]) rfl ⟨hI, hx, hw, ?_⟩ trivial ?_
  · exact fun (hmore : s.I + a.cores < a.d) => absurd hmore (by omega)
  · simp only [variant, rank, hpc, List.length_range]
    omega

theorem cpu_check (hpc : s.pc = .check) : cpu a s = some (.tau, { s with pc := .guard }) := by
  have hsize : ¬ a.n * 9 > MAX_ELEM := by
    have hle := a.size_ok
    omega
  simp only [cpu, hpc, if_neg hsize]

theorem cpu_guard (hpc : s.pc = .guard) : cpu a s = some (.tau, { s with pc := .init }) := by
  have hargs : ¬ (a.n = 0 ∨ a.d = 0 ∨ a.xoutP = 0 ∨ a.xP = 0 ∨ a.wP = 0) := by
    have hn := a.n_pos
    have hd := a.d_pos
    have hxout := a.xout_pos
    have hx := a.x_pos
    have hw := a.w_pos
    omega
  simp only [cpu, hpc, if_neg hargs]

theorem Inv.cpu (h : Inv a mem s) (hf : Fits a) (hstep : cpu a s = some (e, t)) :
    Sound a mem s e t := by
  have hphase := h.phase
  cases hpc : s.pc <;> simp only [Phase, hpc] at hphase
  case check =>
    rw [cpu_check hpc] at hstep
    cases hstep
    exact h.sound_of_same rfl (by simp only [State.todo, hpc]) rfl hphase trivial
      (by simp only [variant, rank, hpc]; omega)
  case guard =>
    rw [cpu_guard hpc] at hstep
    cases hstep
    exact h.sound_of_same rfl (by simp only [State.todo, hpc]) rfl hphase trivial
      (by simp only [variant, rank, hpc]; omega)
  all_goals simp only [Apps.cpu, hpc, reduceCtorEq] at hstep
  case init =>
    cases hstep
    exact h.sound_of_same rfl (by simp only [State.todo, hpc]) rfl hphase trivial
      (by simp only [variant, rank, hpc, fillRows]; omega)
  case dmaX =>
    cases hstep
    exact h.dmaX hpc
  case dmaW =>
    cases hstep
    exact h.dmaW hf hpc
  case test =>
    by_cases hI : s.I < a.d
    · rw [if_pos hI] at hstep
      cases hstep
      exact h.sound_of_same rfl (by simp only [State.todo, hpc]) rfl
        ⟨hI, hphase.1, hphase.2 hI⟩ trivial (by simp only [variant, rank, hpc]; omega)
    · rw [if_neg hI] at hstep
      cases hstep
      exact h.sound_of_same rfl (by simp only [State.todo, hpc]) rfl ⟨rfl, not_lt.mp hI⟩ trivial
        (by simp only [variant, rank, hpc]; omega)
  case wait =>
    split_ifs at hstep with hnil
    cases hstep
    -- no transfer is on its way, so the buffers hold what was asked for
    exact h.sound_of_same rfl (by simp only [State.todo, hpc]) rfl
      ⟨hphase.1, hnil, hphase.2.1.holds hnil, hphase.2.2.holds hnil⟩ trivial
      (by simp only [variant, rank, hpc]; omega)
  case fetch =>
    split_ifs at hstep with hleft
    · cases hstep
      exact h.fetch hf hpc hleft
    · cases hstep
      exact h.no_fetch hpc hleft
  case parallel todo =>
    split_ifs at hstep with htodo
    cases hstep
    subst htodo
    exact h.sound_of_same rfl (by simp only [State.todo, hpc]) rfl hphase trivial
      (by simp only [variant, rank, hpc, List.length_nil]; omega)
  case next =>
    cases hstep
    exact h.next hpc

theorem Inv.step (h : Inv a mem s) (hf : Fits a) (hstep : (matvec a mem).step s e t) :
    Sound a mem s e t := by
  obtain ⟨agent, hexec⟩ := hstep
  cases agent with
  | cpu => exact h.cpu hf hexec
  | core i => exact h.core hf hexec
  | engine c =>
    simp only [exec, Apps.engine] at hexec
    split_ifs at hexec with hc
    cases hexec
    exact h.engine hc

theorem inv_start (a : Args) (mem : Nat → R) (l1 : Buf → Nat → R) :
    Inv a mem (matvecStart l1) where
  phase := ⟨rfl, rfl⟩
  todo_nodup := List.nodup_range
  todo_lt := fun i => List.mem_range.mp
  xout_eq := by
    intro r
    refine (if_neg fun hr => ?_).symm
    have hr : r < a.d ∧ (r < 0 ∨ r < 0 + a.cores ∧ r - 0 ∉ List.range a.cores) := hr
    rw [List.mem_range] at hr
    omega

theorem step_of_exec (agent : Agent) (h : (exec a mem s agent).isSome) :
    ∃ e t, (matvec a mem).step s e t := by
  obtain ⟨⟨e, t⟩, het⟩ := Option.isSome_iff_exists.mp h
  exact ⟨e, t, agent, het⟩

theorem exit_or_step (a : Args) (mem : Nat → R) (s : State R) :
    (∃ ret, s.pc = .exit ret) ∨ ∃ e t, (matvec a mem).step s e t := by
  cases hpc : s.pc with
  | exit ret => exact .inl ⟨ret, rfl⟩
  | wait =>
    refine .inr ?_
    by_cases hnil : s.l1.pending = []
    · exact step_of_exec .cpu (by simp only [exec, cpu, hpc, if_pos hnil, Option.isSome_some])
    · obtain ⟨c, hc⟩ := List.exists_mem_of_ne_nil _ hnil
      exact step_of_exec (.engine c) (by simp only [exec, engine, if_pos hc, Option.isSome_some])
  | parallel todo =>
    refine .inr ?_
    by_cases hnil : todo = []
    · exact step_of_exec .cpu (by simp only [exec, cpu, hpc, if_pos hnil, Option.isSome_some])
    · obtain ⟨i, hi⟩ := List.exists_mem_of_ne_nil _ hnil
      refine step_of_exec (.core i) ?_
      simp only [exec, core, hpc, if_pos hi]
      split_ifs <;> rfl
  | fetch =>
    refine .inr (step_of_exec .cpu ?_)
    simp only [exec, cpu, hpc]
    split_ifs <;> rfl
  | _ => exact .inr (step_of_exec .cpu (by simp only [exec, cpu, hpc, Option.isSome_some]))

/-! ## Runs -/

variable {buf : Buf → Nat → R} {tr : List (State R × Event)}

theorem run_inv (hf : Fits a) (h : (matvec a mem).Run (matvecStart buf) tr s) : Inv a mem s :=
  h.invariant (inv_start a mem buf) fun hu hs => (hu.step hf hs).inv

theorem computes_of_fits (hf : Fits a) (mem : Nat → R) (buf : Buf → Nat → R) :
    Computes a mem buf where
  steps := by
    intro tr s h
    refine (h.forall_iff (c := fun _ _ => True) (inv_start a mem buf)
      (fun hu hs => (hu.step hf hs).inv) fun hu hs => ?_).mpr fun _ _ => trivial
    exact iff_true_intro (hu.step hf hs).ok
  product := by
    intro tr s ret h hpc
    have hinv := run_inv hf h
    have hphase := hinv.phase
    simp only [Phase, hpc] at hphase
    refine ⟨hphase.1, fun r => (hinv.xout_eq r).trans (if_congr ?_ rfl rfl)⟩
    exact ⟨And.left, fun hr => ⟨hr, .inl (hr.trans_le hphase.2)⟩⟩
  progress := fun tr s _ => exit_or_step a mem s
  ends := by
    refine ⟨variant a (matvecStart buf), fun tr s h => ?_⟩
    have hle := h.length_le (I := Inv a mem) (m := variant a) (inv_start a mem buf)
      fun hu hs => ⟨(hu.step hf hs).inv, (hu.step hf hs).lt⟩
    omega

end
end HeroTools.Apps
