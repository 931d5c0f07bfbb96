import HeroTools.Llvm.VisitRuns
import HeroTools.Llvm.Walk

/-! `HostPointerVisitor` keeps what a function does, exactly if no vector of pointers is
moved between host and device. -/

namespace HeroTools.Llvm
open Renaming
variable {κ ω : Type} {L : Lang κ ω} {dl : DataLayout} {c : Cursor κ ω} {f : Func κ ω}
  {i : Inst κ ω} {rest : List (Inst κ ω)} {σ : Reg → Reg} {N : Nat}

/-! ## One step of the visitor -/

theorem Func.fixed (hf : ∀ r ∈ f.regs, r < N) (hk : ∀ e ∈ f.defs, Kept σ N e) :
    ∀ b ∈ f.blocks, b.Fixed σ N := by
  intro b hb
  have hregs : ∀ r ∈ b.regs, r < N := fun r hr =>
    hf r (List.mem_append_right _ (List.mem_flatMap.mpr ⟨b, hb, hr⟩))
  have hdefs : ∀ e ∈ b.defs, Kept σ N e := fun e he =>
    hk e (List.mem_flatMap.mpr ⟨b, hb, he⟩)
  refine ⟨fun p hp => ⟨?_, ?_⟩, fun i hi => ⟨?_, ?_⟩, ?_⟩
  · exact hdefs _ (List.mem_append_left _ (List.mem_map_of_mem hp))
  · intro x hx r hr
    exact hregs r (List.mem_append_left _ (List.mem_append_left _ (List.mem_flatMap.mpr
      ⟨p, hp, List.mem_cons_of_mem _ (List.mem_flatMap.mpr ⟨x, hx, hr⟩)⟩)))
  · intro e he
    exact hdefs e (List.mem_append_right _ (List.mem_flatMap.mpr
      ⟨i, hi, Option.mem_toList.mpr he⟩))
  · intro o ho r hr
    exact hregs r (List.mem_append_left _ (List.mem_append_right _ (List.mem_flatMap.mpr
      ⟨i, hi, List.mem_append_right _ (List.mem_flatMap.mpr ⟨o, ho, hr⟩)⟩)))
  · intro o ho r hr
    exact hregs r (List.mem_append_right _ (List.mem_flatMap.mpr ⟨o, ho, hr⟩))

/-- The free registers are free, and each register is defined once. -/
structure Cursor.Tidy (c : Cursor κ ω) : Prop where
  below : ∀ r ∈ c.func.regs, r < c.next
  ssa : c.func.Ssa

theorem Func.defs_subset_regs : ∀ r ∈ f.args ++ f.defs, r ∈ f.regs := by
  intro r hr
  rcases List.mem_append.mp hr with hr | hr
  · exact List.mem_append_left _ hr
  · obtain ⟨b, hb, hr⟩ := List.mem_flatMap.mp hr
    refine List.mem_append_right _ (List.mem_flatMap.mpr ⟨b, hb, ?_⟩)
    rcases List.mem_append.mp hr with hr | hr
    · obtain ⟨p, hp, rfl⟩ := List.mem_map.mp hr
      exact List.mem_append_left _ (List.mem_append_left _ (List.mem_flatMap.mpr
        ⟨p, hp, List.mem_cons_self⟩))
    · obtain ⟨i, hi, hr⟩ := List.mem_flatMap.mp hr
      exact List.mem_append_left _ (List.mem_append_right _ (List.mem_flatMap.mpr
        ⟨i, hi, List.mem_append_left _ hr⟩))

theorem Cursor.Tidy.names_lt (h : c.Tidy) :
    ∀ r ∈ c.pre ++ (defs c.todo ++ c.post), r < c.next := by
  intro r hr
  rw [← c.names_eq] at hr
  exact h.below r (Func.defs_subset_regs r hr)

theorem nodup_replace {A B l l' : List Reg} (h : (A ++ (l ++ B)).Nodup) (hl : l'.Nodup)
    (hA : ∀ e ∈ l', e ∉ A) (hB : ∀ e ∈ l', e ∉ B) : (A ++ (l' ++ B)).Nodup := by
  simp only [List.nodup_append, List.mem_append] at h ⊢
  refine ⟨h.1, ⟨hl, h.2.1.2.1, ?_⟩, ?_⟩
  · rintro a ha b hb rfl
    exact hB a ha hb
  · rintro a ha b (hb | hb) rfl
    · exact hA a hb ha
    · exact h.2.2 a ha a (.inr hb) rfl

theorem Cursor.step_next (htodo : c.todo = i :: rest) : (c.step dl).next = c.next + 3 := by
  rw [Cursor.step_cons htodo]
  rfl

theorem Cursor.step_args (htodo : c.todo = i :: rest) : (c.step dl).args = c.args := by
  rw [Cursor.step_cons htodo]
  rfl

section Step
variable (htodo : c.todo = i :: rest) (hc : c.Tidy)
include htodo hc

theorem Cursor.Tidy.inst_lt : ∀ r ∈ i.regs, r < c.next := fun r hr =>
  hc.below r (Cursor.mem_regs.mpr (.inr (List.mem_flatMap.mpr
    ⟨i, List.mem_append_right _ (htodo ▸ List.mem_cons_self), hr⟩)))

theorem Cursor.Tidy.nodup : (c.pre ++ (i.dst.toList ++ (defs rest ++ c.post))).Nodup := by
  have hssa := hc.ssa
  unfold Func.Ssa at hssa
  rw [Cursor.names_eq, htodo] at hssa
  simpa [Llvm.defs] using hssa

theorem Cursor.Tidy.dst_unique : ∀ d ∈ i.dst, d ∉ c.pre ∧ d ∉ defs rest ++ c.post := by
  intro d hd
  have hnodup := hc.nodup htodo
  rw [hd, Option.toList_some, List.nodup_append] at hnodup
  refine ⟨fun hpre => ?_, (List.nodup_cons.mp hnodup.2.1).1⟩
  exact hnodup.2.2 d hpre d (List.mem_append_left _ (List.mem_singleton_self d)) rfl

theorem Cursor.Tidy.others_lt :
    (∀ r ∈ c.pre, r < c.next) ∧ ∀ r ∈ defs rest ++ c.post, r < c.next := by
  have hlt := hc.names_lt
  rw [htodo] at hlt
  refine ⟨fun r hr => hlt r (List.mem_append_left _ hr), fun r hr => hlt r ?_⟩
  refine List.mem_append_right _ ?_
  rcases List.mem_append.mp hr with h | h
  · exact List.mem_append_left _ (List.mem_append_right _ h)
  · exact List.mem_append_right _ h

theorem Cursor.Tidy.step_ssa : (c.step dl).func.Ssa := by
  obtain ⟨hpre, hpost⟩ := hc.others_lt htodo
  unfold Func.Ssa
  rw [Cursor.names_step htodo]
  rcases (visit_renames dl c.name c.next i).defs with ⟨-, hdefs⟩ | ⟨hnodup, hfresh⟩
  · rw [hdefs]
    exact hc.nodup htodo
  · apply nodup_replace (hc.nodup htodo) hnodup
    · exact fun e he hmem => absurd (hfresh e he).1 (Nat.not_le.mpr (hpre e hmem))
    · exact fun e he hmem => absurd (hfresh e he).1 (Nat.not_le.mpr (hpost e hmem))

theorem Cursor.Tidy.step_below : ∀ r ∈ (c.step dl).func.regs, r < (c.step dl).next := by
  have hrenames := visit_renames dl c.name c.next i
  have hinsts := hrenames.regs_lt (hc.inst_lt htodo)
  have hold : ∀ r, r ∈ c.outer ∨ r ∈ (c.done ++ c.todo).flatMap Inst.regs → r < c.next + 3 :=
    fun r hr => Nat.lt_add_right 3 (hc.below r (Cursor.mem_regs.mpr hr))
  rw [Cursor.step_next htodo, Cursor.step_cons htodo, Cursor.map_func]
  apply Func.regs_map_lt hrenames.uses_lt
  intro r hr
  rcases Cursor.mem_regs.mp hr with hr | hr
  · exact hold r (.inl hr)
  · obtain ⟨j, hj, hr⟩ := List.mem_flatMap.mp hr
    rw [List.append_assoc, List.mem_append, List.mem_append] at hj
    rcases hj with hj | hj | hj
    · exact hold r (.inr (List.mem_flatMap.mpr ⟨j, List.mem_append_left _ hj, hr⟩))
    · exact hinsts j hj r hr
    · refine hold r (.inr (List.mem_flatMap.mpr ⟨j, List.mem_append_right _ ?_, hr⟩))
      rw [htodo]
      exact List.mem_cons_of_mem _ hj

theorem Cursor.Tidy.step : (c.step dl).Tidy := ⟨hc.step_below htodo, hc.step_ssa htodo⟩

theorem Cursor.Tidy.others_fixed :
    ∀ b ∈ ({ c with todo := rest } : Cursor κ ω).func.blocks,
      b.Fixed (visit dl c.name c.next i).uses c.next := by
  apply Func.fixed
  · intro r hr
    apply hc.below
    rcases Cursor.mem_regs.mp hr with hr | hr
    · exact Cursor.mem_regs.mpr (.inl hr)
    · obtain ⟨j, hj, hr⟩ := List.mem_flatMap.mp hr
      refine Cursor.mem_regs.mpr (.inr (List.mem_flatMap.mpr ⟨j, ?_, hr⟩))
      rw [htodo]
      rcases List.mem_append.mp hj with hj | hj
      · exact List.mem_append_left _ hj
      · exact List.mem_append_right _ (List.mem_cons_of_mem _ hj)
  · intro e he
    obtain ⟨hpre, hpost⟩ := hc.others_lt htodo
    have hmem : e ∈ c.pre ++ (defs rest ++ c.post) := by
      have hnames := ({ c with todo := rest } : Cursor κ ω).names_eq
      have hmem := List.mem_append_right (Cursor.func { c with todo := rest }).args he
      rwa [hnames] at hmem
    refine (visit_renames dl c.name c.next i).kept ?_ ?_
    · rcases List.mem_append.mp hmem with h | h
      · exact hpre e h
      · exact hpost e h
    · rintro d hd rfl
      obtain ⟨hdpre, hdpost⟩ := hc.dst_unique htodo e hd
      exact (List.mem_append.mp hmem).elim hdpre hdpost

theorem Cursor.Tidy.step_blocks
    (hsim : (visit L.dl c.name c.next i).Simulates L c.next i) :
    List.Forall₂ (BlockSim L (visit L.dl c.name c.next i).uses c.next) c.func.blocks
      (c.step L.dl).func.blocks := by
  have hfixed : ∀ b ∈ ({ c with todo := rest } : Cursor κ ω).func.blocks,
      b.Fixed (visit L.dl c.name c.next i).uses c.next := hc.others_fixed htodo
  have hmap : ∀ bs : List (Block κ ω),
      (∀ b ∈ bs, b.Fixed (visit L.dl c.name c.next i).uses c.next) →
      List.Forall₂ (BlockSim L (visit L.dl c.name c.next i).uses c.next) bs
        (bs.map (Block.map (visit L.dl c.name c.next i).uses)) := fun bs hbs =>
    List.forall₂_map_right_iff.mpr (List.forall₂_same.mpr fun b hb => (hbs b hb).blockSim)
  have hblock := hfixed ⟨c.phis, c.done ++ rest, c.term⟩
    (List.mem_append_right _ List.mem_cons_self)
  rw [Cursor.step_cons htodo]
  -- only the current block changes by more than names
  refine List.rel_append (hmap c.before fun b hb => hfixed b (List.mem_append_left _ hb))
    (.cons ?_ (hmap c.after fun b hb =>
      hfixed b (List.mem_append_right _ (List.mem_cons_of_mem _ hb))))
  apply blockSim_of_insts hblock.phis hblock.term
  intro s s' h
  simp only [Cursor.map]
  rw [htodo, List.map_append, List.append_assoc, execInsts_append, execInsts_append]
  refine rel_bind (h.execInsts_map fun j hj => hblock.insts j (List.mem_append_left _ hj))
    fun s₁ s₁' h₁ => ?_
  rw [execInsts_append]
  refine rel_bind (hsim s₁ s₁' h₁) fun s₂ s₂' h₂ => ?_
  exact h₂.execInsts_map fun j hj => hblock.insts j (List.mem_append_right _ hj)

theorem Cursor.Tidy.step_enter (vals : Reg → Nat) (mem : Nat → Nat → Nat) :
    Sim (visit dl c.name c.next i).uses c.next (c.func.enter vals mem)
      ((c.step dl).func.enter vals mem) := by
  refine ⟨?_, rfl, rfl⟩
  intro r hr
  have hargs : (c.step dl).func.args = c.func.args := Cursor.step_args htodo
  unfold Func.enter
  rw [hargs]
  dsimp only
  rcases (visit_renames dl c.name c.next i).uses with huses | ⟨d, t, hd, ht, -, huses⟩
  · rw [huses]
    rfl
  -- neither name has a value yet
  · have hd_args : d ∉ c.args := fun hmem =>
      (hc.dst_unique htodo d hd).1 (List.mem_append_left _ hmem)
    have ht_args : t ∉ c.args := fun hmem =>
      absurd (hc.below t (List.mem_append_left _ hmem)) (Nat.not_lt.mpr ht)
    rw [huses]
    unfold replace
    by_cases hrd : r = d
    · rw [if_pos hrd, hrd]
      exact (if_neg ht_args).trans (if_neg hd_args).symm
    · rw [if_neg hrd]

theorem Cursor.Tidy.step_names : ∀ r < c.next,
    r ∈ (c.step dl).func.args ++ (c.step dl).func.defs →
      r ∈ c.func.args ++ c.func.defs ∧ (visit dl c.name c.next i).uses r = r := by
  intro r hr hmem
  have hunique := hc.dst_unique htodo
  have hrenames := visit_renames dl c.name c.next i
  rw [Cursor.names_step htodo] at hmem
  rw [Cursor.names_eq, htodo]
  rcases List.mem_append.mp hmem with hmem | hmem
  · refine ⟨List.mem_append_left _ hmem, hrenames.uses_eq ?_⟩
    rintro d hd rfl
    exact (hunique r hd).1 hmem
  · rcases List.mem_append.mp hmem with hmem | hmem
    · rcases hrenames.defs with ⟨huses, hdefs⟩ | ⟨-, hfresh⟩
      · rw [hdefs] at hmem
        refine ⟨List.mem_append_right _ (List.mem_append_left _ ?_), by rw [huses]; rfl⟩
        exact List.mem_append_left _ hmem
      · exact absurd hr (Nat.not_lt.mpr (hfresh r hmem).1)
    · refine ⟨List.mem_append_right _ ?_, hrenames.uses_eq ?_⟩
      · rcases List.mem_append.mp hmem with h | h
        · exact List.mem_append_left _ (List.mem_append_right _ h)
        · exact List.mem_append_right _ h
      · rintro d hd rfl
        exact (hunique r hd).2 hmem

theorem Cursor.Tidy.step_run (hsim : (visit L.dl c.name c.next i).Simulates L c.next i)
    (n : Nat) (vals : Reg → Nat) (mem : Nat → Nat → Nat) :
    Outcome.Rel (Sim (visit L.dl c.name c.next i).uses c.next)
      (run L c.func n 0 none (c.func.enter vals mem))
      (run L (c.step L.dl).func n 0 none ((c.step L.dl).func.enter vals mem)) :=
  run_sim (hc.step_blocks htodo hsim) n 0 none (hc.step_enter htodo vals mem)

end Step

/-! ## The whole function -/

/-- From the beginning of `f` on: what is left to visit is as the verifier and the support
functions ask for, and the function so far does what `f` does. -/
structure Walk (L : Lang κ ω) (f : Func κ ω) (c : Cursor κ ω) : Prop where
  tidy : c.Tidy
  name : c.name = f.name
  args : c.args = f.args
  next_le : f.fresh ≤ c.next
  pending : ∀ i ∈ c.pending, i.supported L.dl ∧ i.legal = true ∧
    i.movesPointerVector L.dl f.name = false
  sim : ∃ σ : Reg → Reg, (∀ r < f.fresh, σ r < c.next) ∧
    (∀ r < f.fresh, r ∈ c.func.args ++ c.func.defs → σ r = r) ∧
    ∀ n vals mem, Outcome.Rel (Sim σ f.fresh) (run L f n 0 none (f.enter vals mem))
      (run L c.func n 0 none (c.func.enter vals mem))

@[simp] theorem Inst.supported_replace (h : Operand κ → Operand κ) (i : Inst κ ω) :
    (i.replace h).supported dl ↔ i.supported dl := by
  cases i <;> rfl

@[simp] theorem Inst.movesPointerVector_replace (fname : String)
    (h : Operand κ → Operand κ) (i : Inst κ ω) :
    (i.replace h).movesPointerVector dl fname = i.movesPointerVector dl fname := by
  cases i with
  | cast dst op srcTy dstTy val => cases op <;> rfl
  | _ => rfl

theorem Walk.step (hL : L.dl.Hero) (htodo : c.todo = i :: rest) (h : Walk L f c) :
    Walk L f (c.step L.dl) := by
  have hmem : i ∈ c.pending := List.mem_append_left _ (htodo ▸ List.mem_cons_self)
  obtain ⟨hs, hl, hpv⟩ := h.pending i hmem
  have hlt := h.tidy.inst_lt htodo
  have hrenames := visit_renames L.dl c.name c.next i
  have hsim : (visit L.dl c.name c.next i).Simulates L c.next i := by
    refine visit_simulates hL hs hl (h.name ▸ hpv) ?_ ?_
    · exact fun d hd => hlt d (List.mem_append_left _ (Option.mem_toList.mpr hd))
    · exact fun o ho r hr =>
        hlt r (List.mem_append_right _ (List.mem_flatMap.mpr ⟨o, ho, hr⟩))
  refine ⟨h.tidy.step htodo, ?_, ?_, ?_, ?_, ?_⟩
  · rw [Cursor.step_cons htodo]
    exact h.name
  · exact (Cursor.step_args htodo).trans h.args
  · rw [Cursor.step_next htodo]
    exact Nat.le_add_right_of_le h.next_le
  · rw [Cursor.pending_step htodo]
    refine List.forall_mem_map.mpr fun j hj => ?_
    simp only [Inst.supported_replace, Inst.legal_replace, Inst.movesPointerVector_replace]
    apply h.pending
    rcases List.mem_append.mp hj with hj | hj
    · exact List.mem_append_left _ (htodo ▸ List.mem_cons_of_mem _ hj)
    · exact List.mem_append_right _ hj
  -- the new names are those so far, with the uses of this instruction replaced
  · obtain ⟨σ, hσ, hkeep, hrun⟩ := h.sim
    refine ⟨(visit L.dl c.name c.next i).uses ∘ σ, ?_, ?_, ?_⟩
    · intro r hr
      rw [Cursor.step_next htodo]
      exact hrenames.uses_lt _ (Nat.lt_add_right 3 (hσ r hr))
    · intro r hr hmem
      obtain ⟨hold, huses⟩ := h.tidy.step_names htodo r (Nat.lt_of_lt_of_le hr h.next_le) hmem
      exact (congrArg _ (hkeep r hr hold)).trans huses
    · intro n vals mem
      exact (hrun n vals mem).comp (h.tidy.step_run htodo hsim n vals mem)
        fun s s' s'' h₁ h₂ => h₁.comp h₂ hσ

theorem Walk.enter {b : Block κ ω} {bs : List (Block κ ω)} (htodo : c.todo = [])
    (hafter : c.after = b :: bs) (h : Walk L f c) : Walk L f (c.enter b bs) where
  tidy := by
    refine ⟨?_, ?_⟩
    · rw [Cursor.enter_func hafter]
      exact h.tidy.below
    · rw [Cursor.enter_func hafter]
      exact h.tidy.ssa
  name := h.name
  args := h.args
  next_le := h.next_le
  pending := by
    rw [Cursor.pending_enter htodo hafter]
    exact h.pending
  sim := by
    rw [Cursor.enter_func hafter]
    exact h.sim

theorem Walk.start {b : Block κ ω} {bs : List (Block κ ω)} (hblocks : f.blocks = b :: bs)
    (hssa : f.Ssa)
    (hf : ∀ i ∈ f.insts, i.supported L.dl ∧ i.legal = true ∧
      i.movesPointerVector L.dl f.name = false) : Walk L f (f.cursor b bs) where
  tidy := by
    refine ⟨?_, ?_⟩
    · rw [Func.cursor_func hblocks]
      exact fun r hr => Func.lt_fresh hr
    · rw [Func.cursor_func hblocks]
      exact hssa
  name := rfl
  args := rfl
  next_le := Nat.le_refl _
  pending := by
    intro i hi
    apply hf
    rw [← Func.cursor_func hblocks, Cursor.func_insts]
    exact List.mem_append_right _ hi
  sim := by
    refine ⟨id, fun r hr => hr, fun r _ _ => rfl, fun n vals mem => ?_⟩
    rw [Func.cursor_func hblocks]
    exact Outcome.rel_refl (fun s => ⟨fun r _ => rfl, rfl, rfl⟩) _

/-- The verifier accepts what the visitor makes of a function, exactly if no vector of
pointers is moved between host and device. -/
theorem visitFunc_legal_iff (hdl : dl.Hero) (hs : ∀ i ∈ f.insts, i.supported dl)
    (hl : f.legal = true) :
    (visitFunc dl f).legal = true ↔
      ∀ i ∈ f.insts, i.movesPointerVector dl f.name = false := by
  unfold Func.legal at hl ⊢
  rw [List.all_eq_true] at hl ⊢
  refine (visitFunc_forall_iff (G := fun i => i.supported dl ∧ i.legal = true)
    (P := fun i => i.movesPointerVector dl f.name = false)
    (Q := fun j => j.legal = true) ?_ ?_ ?_ ?_ fun i hi => ⟨hs i hi, hl i hi⟩).symm
  · intro σ i hi
    rwa [Inst.supported_replace, Inst.legal_replace]
  · intro σ i
    rw [Inst.movesPointerVector_replace]
  · intro σ i
    rw [Inst.legal_replace]
  · intro n i hi
    rw [← List.all_eq_true, visit_legal hdl hi.1 hi.2, Bool.not_eq_true']

/-- The same outcome with the same value, the same memories, the same accesses in the same
order, and the same values in the registers that both functions have. -/
def SameRun (L : Lang κ ω) (f f' : Func κ ω) : Prop :=
  ∀ n vals mem, Outcome.Rel
    (fun s s' => s'.mem = s.mem ∧ s'.trace = s.trace ∧
      ∀ r ∈ f.args ++ f.defs, r ∈ f'.args ++ f'.defs → s'.regs r = s.regs r)
    (runFunc L f n vals mem) (runFunc L f' n vals mem)

theorem SameRun.refl (L : Lang κ ω) (f : Func κ ω) : SameRun L f f := fun _ _ _ =>
  Outcome.rel_refl (fun _ => ⟨rfl, rfl, fun _ _ _ => rfl⟩) _

theorem visitFunc_same (hL : L.dl.Hero) (hssa : f.Ssa) (hl : f.legal = true)
    (hs : ∀ i ∈ f.insts, i.supported L.dl)
    (hpv : ∀ i ∈ f.insts, i.movesPointerVector L.dl f.name = false) :
    SameRun L f (visitFunc L.dl f) := by
  cases hblocks : f.blocks with
  | nil =>
    have hsame : visitFunc L.dl f = f := by
      unfold visitFunc
      rw [hblocks]
    rw [hsame]
    exact SameRun.refl L f
  | cons b bs =>
    have hlegal := List.all_eq_true.mp hl
    have hstart := Walk.start hblocks hssa fun i hi => ⟨hs i hi, hlegal i hi, hpv i hi⟩
    have hstep : ∀ c i rest, c.todo = i :: rest → Walk L f c → Walk L f (c.step L.dl) :=
      fun c i rest htodo h => h.step hL htodo
    have henter : ∀ c b bs, c.todo = [] → c.after = b :: bs → Walk L f c →
        Walk L f (c.enter b bs) := fun c b bs htodo hafter h => h.enter htodo hafter
    obtain ⟨c, hc, -, -, hend⟩ := visitFunc_rule hstep henter hblocks hstart
    obtain ⟨σ, -, hkeep, hrun⟩ := hc.sim
    intro n vals mem
    unfold runFunc
    rw [if_pos hl, if_pos ((visitFunc_legal_iff hL hs hl).mpr hpv), hend]
    refine (hrun n vals mem).mono fun s s' h => ⟨h.mem, h.trace, fun r hr hr' => ?_⟩
    have hlt : r < f.fresh := Func.lt_fresh (Func.defs_subset_regs r hr)
    have hreg := h.regs r hlt
    rwa [hkeep r hlt hr'] at hreg

/-- The visitor keeps what a function does, exactly if it moves no vector of pointers
between host and device. -/
theorem visitFunc_preserves_iff (L : Lang κ ω) (hL : L.dl.Hero) (f : Func κ ω) (hssa : f.Ssa)
    (hl : f.legal = true) (hs : ∀ i ∈ f.insts, i.supported L.dl) :
    SameRun L f (visitFunc L.dl f) ↔
      ∀ i ∈ f.insts, i.movesPointerVector L.dl f.name = false := by
  refine ⟨fun h => ?_, visitFunc_same hL hssa hl hs⟩
  rw [← visitFunc_legal_iff hL hs hl]
  -- no block is run: only an ill-formed function does not start
  have hrun := h 0 (fun _ => 0) fun _ _ => 0
  by_contra hill
  unfold runFunc at hrun
  rw [if_pos hl, if_neg hill] at hrun
  cases hrun

/-! ## Two functions -/

def heroLang : Lang Nat Unit := ⟨heroDl, id, fun _ _ => none⟩

def loadCastStore : Func Nat Unit where
  name := "kernel"
  args := [0]
  blocks := [{
    phis := []
    insts := [.load 1 (.float .float) 0 (.reg 0),
      .cast 2 .addrspacecast (.ptr 0) (.ptr 1) (.reg 0),
      .store (.ptr 1) (.reg 2) 0 (.reg 0)]
    term := .ret (some (.reg 1)) }]

theorem visitFunc_preserves_iff_loadCastStore :
    SameRun heroLang loadCastStore (visitFunc heroLang.dl loadCastStore) := by
  exact (visitFunc_preserves_iff heroLang heroDl_hero loadCastStore (by decide) rfl
    (by decide)).mpr (by decide)

def loadPointers : Func Nat Unit where
  name := "kernel"
  args := [0]
  blocks := [{
    phis := []
    insts := [.load 1 (.vec 2 (.ptr 1)) 0 (.reg 0)]
    term := .ret none }]

theorem visitFunc_not_preserves :
    heroLang.dl.Hero ∧ loadPointers.Ssa ∧ loadPointers.legal = true ∧
      (∀ i ∈ loadPointers.insts, i.supported heroLang.dl) ∧
      ¬ SameRun heroLang loadPointers (visitFunc heroLang.dl loadPointers) := by
  refine ⟨heroDl_hero, by decide, rfl, by decide, fun h => ?_⟩
  have hrun := h 0 (fun _ => 0) fun _ _ => 0
  have hill : (visitFunc heroLang.dl loadPointers).legal = false := rfl
  unfold runFunc at hrun
  rw [hill] at hrun
  cases hrun

end HeroTools.Llvm
