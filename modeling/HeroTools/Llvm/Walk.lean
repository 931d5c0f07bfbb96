import HeroTools.Llvm.Visit

/-! The visitor on its way through a function: a rule for what holds at the end, and what
its steps do to the lists of instructions and of registers. -/

namespace HeroTools.Llvm
open Renaming
variable {κ ω : Type} {dl : DataLayout} {c : Cursor κ ω} {f : Func κ ω} {b : Block κ ω}
  {bs : List (Block κ ω)} {i : Inst κ ω} {rest : List (Inst κ ω)} {σ : Reg → Reg} {M : Nat}

/-! ## To the end of a function -/

section Rule
variable {P : Cursor κ ω → Prop}
  (hstep : ∀ c i rest, c.todo = i :: rest → P c → P (c.step dl))
  (henter : ∀ c b bs, c.todo = [] → c.after = b :: bs → P c → P (c.enter b bs))

theorem Cursor.step_cons (h : c.todo = i :: rest) :
    c.step dl = Cursor.map (visit dl c.name c.next i).uses
      { c with
        next := c.next + 3
        done := c.done ++ (visit dl c.name c.next i).insts
        todo := rest } := by
  unfold Cursor.step
  rw [h]

include hstep in
theorem visitBlock_rule (h : P c) :
    P (visitBlock dl c) ∧ (visitBlock dl c).todo = [] ∧
      (visitBlock dl c).after.length = c.after.length := by
  unfold visitBlock
  generalize hn : c.todo.length = n
  induction n generalizing c with
  | zero => exact ⟨h, List.eq_nil_of_length_eq_zero hn, rfl⟩
  | succ n ih =>
    obtain ⟨i, rest, htodo⟩ := List.exists_cons_of_length_eq_add_one hn
    rw [Function.iterate_succ_apply]
    have hlen : (c.step dl).todo.length = n := by
      rw [htodo] at hn
      rw [Cursor.step_cons htodo]
      exact (List.length_map _).trans (Nat.succ.inj hn)
    have hafter : (c.step dl).after.length = c.after.length := by
      rw [Cursor.step_cons htodo]
      exact List.length_map _
    rw [← hafter]
    exact ih (hstep c i rest htodo h) hlen

include hstep henter in
theorem visitBlocks_rule (h : P c) :
    ∃ c' : Cursor κ ω, P c' ∧ c'.todo = [] ∧ c'.after = [] ∧
      visitBlocks dl c.after.length c = c'.func := by
  generalize hk : c.after.length = k
  induction k generalizing c with
  | zero =>
    obtain ⟨hP, htodo, hafter⟩ := visitBlock_rule hstep h
    exact ⟨_, hP, htodo, List.eq_nil_of_length_eq_zero (hafter.trans hk), rfl⟩
  | succ k ih =>
    obtain ⟨hP, htodo, hafter⟩ := visitBlock_rule hstep h
    obtain ⟨b, bs, hcons⟩ := List.exists_cons_of_length_eq_add_one (hafter.trans hk)
    have hlen : ((visitBlock dl c).enter b bs).after.length = k := by
      rw [hcons] at hafter
      exact Nat.succ.inj (hafter.trans hk)
    obtain ⟨c', hP', htodo', hafter', heq⟩ := ih (henter _ b bs htodo hcons hP) hlen
    refine ⟨c', hP', htodo', hafter', ?_⟩
    rw [visitBlocks, hcons]
    exact heq

include hstep henter in
/-- What holds at the beginning, and is kept by each instruction and each change of block,
holds at the end. -/
theorem visitFunc_rule (hf : f.blocks = b :: bs) (h : P (f.cursor b bs)) :
    ∃ c : Cursor κ ω, P c ∧ c.todo = [] ∧ c.after = [] ∧ visitFunc dl f = c.func := by
  unfold visitFunc
  rw [hf]
  exact visitBlocks_rule hstep henter h

end Rule

theorem Cursor.enter_func (hafter : c.after = b :: bs) :
    (c.enter b bs).func = c.func := by
  unfold Cursor.func
  rw [hafter]
  exact congrArg _ (List.append_assoc c.before [c.block] _)

theorem Func.cursor_func (hf : f.blocks = b :: bs) : (f.cursor b bs).func = f := by
  cases f
  subst hf
  rfl

/-! ## Instructions -/

def Cursor.visited (c : Cursor κ ω) : List (Inst κ ω) := c.before.flatMap Block.insts ++ c.done

def Cursor.pending (c : Cursor κ ω) : List (Inst κ ω) := c.todo ++ c.after.flatMap Block.insts

theorem flatMap_insts_map (σ : Reg → Reg) (bs : List (Block κ ω)) :
    (bs.map (Block.map σ)).flatMap Block.insts = (bs.flatMap Block.insts).map (Inst.map σ) := by
  rw [List.flatMap_map, List.map_flatMap]
  rfl

theorem Cursor.func_insts (c : Cursor κ ω) : c.func.insts = c.visited ++ c.pending := by
  simp [Cursor.func, Func.insts, Cursor.block, Cursor.visited, Cursor.pending]

theorem Cursor.visited_step (h : c.todo = i :: rest) :
    (c.step dl).visited = (c.visited ++ (visit dl c.name c.next i).insts).map
      (Inst.map (visit dl c.name c.next i).uses) := by
  rw [Cursor.step_cons h]
  simp [Cursor.visited, Cursor.map, flatMap_insts_map]

theorem Cursor.pending_step (h : c.todo = i :: rest) :
    (c.step dl).pending = (rest ++ c.after.flatMap Block.insts).map
      (Inst.map (visit dl c.name c.next i).uses) := by
  rw [Cursor.step_cons h]
  simp [Cursor.pending, Cursor.map, flatMap_insts_map]

theorem Cursor.visited_enter (htodo : c.todo = []) :
    (c.enter b bs).visited = c.visited := by
  simp [Cursor.enter, Cursor.visited, Cursor.block, htodo]

theorem Cursor.pending_enter (htodo : c.todo = []) (hafter : c.after = b :: bs) :
    (c.enter b bs).pending = c.pending := by
  simp [Cursor.enter, Cursor.pending, htodo, hafter]

/-- If on every instruction a visit turns `P` into `Q` for all that it inserts, the whole
pass does. The properties are about instructions up to the names of registers. -/
theorem visitFunc_forall_iff {G P Q : Inst κ ω → Prop} (hG : ∀ σ i, G i → G (i.map σ))
    (hP : ∀ σ i, P (i.map σ) ↔ P i) (hQ : ∀ σ i, Q (i.map σ) ↔ Q i)
    (hvisit : ∀ n i, G i → (P i ↔ ∀ j ∈ (visit dl f.name n i).insts, Q j))
    (hf : ∀ i ∈ f.insts, G i) :
    (∀ i ∈ f.insts, P i) ↔ ∀ j ∈ (visitFunc dl f).insts, Q j := by
  cases hblocks : f.blocks with
  | nil => simp [visitFunc, hblocks, Func.insts]
  | cons b bs =>
    let I (c : Cursor κ ω) : Prop := c.name = f.name ∧ (∀ i ∈ c.pending, G i) ∧
      ((∀ i ∈ f.insts, P i) ↔ (∀ j ∈ c.visited, Q j) ∧ ∀ i ∈ c.pending, P i)
    have hstep : ∀ c i rest, c.todo = i :: rest → I c → I (c.step dl) := by
      intro c i rest htodo ⟨hname, hGc, hiff⟩
      have hpending : c.pending = i :: (rest ++ c.after.flatMap Block.insts) := by
        unfold Cursor.pending
        rw [htodo, List.cons_append]
      rw [hpending] at hGc hiff
      have hi := hvisit c.next i (hGc i List.mem_cons_self)
      refine ⟨?_, ?_, ?_⟩
      · rw [Cursor.step_cons htodo]
        exact hname
      · rw [Cursor.pending_step htodo]
        exact List.forall_mem_map.mpr fun j hj => hG _ j (hGc j (List.mem_cons_of_mem _ hj))
      -- the instruction leaves the pending ones with `P`, what it became joins the others with `Q`
      · rw [Cursor.pending_step htodo, Cursor.visited_step htodo, hname]
        simp only [List.forall_mem_map, hP, hQ]
        rw [List.forall_mem_append, hiff, List.forall_mem_cons, hi, and_assoc]
    have henter : ∀ c b bs, c.todo = [] → c.after = b :: bs → I c → I (c.enter b bs) := by
      intro c b bs htodo hafter ⟨hname, hGc, hiff⟩
      refine ⟨hname, ?_, ?_⟩
      · rwa [Cursor.pending_enter htodo hafter]
      · rwa [Cursor.pending_enter htodo hafter, Cursor.visited_enter htodo]
    have hinsts : (f.cursor b bs).pending = f.insts := by
      rw [← (f.cursor b bs).func_insts.trans (List.nil_append _), Func.cursor_func hblocks]
    have hstart : I (f.cursor b bs) := by
      refine ⟨rfl, ?_, ?_⟩
      · rwa [hinsts]
      · rw [hinsts]
        exact (and_iff_right fun j hj => absurd hj List.not_mem_nil).symm
    obtain ⟨c, ⟨-, -, hiff⟩, htodo, hafter, hend⟩ := visitFunc_rule hstep henter hblocks hstart
    have hdone : c.pending = [] := by
      unfold Cursor.pending
      rw [htodo, hafter]
      rfl
    rw [hend, c.func_insts, hdone, List.append_nil, hiff, hdone]
    exact and_iff_left fun i hi => absurd hi List.not_mem_nil

/-! ## Registers -/

theorem defs_append (is js : List (Inst κ ω)) : defs (is ++ js) = defs is ++ defs js :=
  List.flatMap_append

theorem defs_map (σ : Reg → Reg) (is : List (Inst κ ω)) : defs (is.map (Inst.map σ)) = defs is := by
  unfold defs
  rw [List.flatMap_map]
  simp

theorem Block.defs_map (σ : Reg → Reg) (b : Block κ ω) : (b.map σ).defs = b.defs := by
  have hinsts := Llvm.defs_map σ b.insts
  unfold Llvm.defs at hinsts
  unfold Block.defs
  exact congrArg₂ _ (List.map_map ..) hinsts

theorem flatMap_defs_map (σ : Reg → Reg) (bs : List (Block κ ω)) :
    (bs.map (Block.map σ)).flatMap Block.defs = bs.flatMap Block.defs := by
  rw [List.flatMap_map]
  exact congrArg (fun g => bs.flatMap g) (funext (Block.defs_map σ))

def Cursor.pre (c : Cursor κ ω) : List Reg :=
  c.args ++ (c.before.flatMap Block.defs ++ (c.phis.map Phi.dst ++ defs c.done))

def Cursor.post (c : Cursor κ ω) : List Reg := c.after.flatMap Block.defs

theorem Cursor.names_eq (c : Cursor κ ω) :
    c.func.args ++ c.func.defs = c.pre ++ (defs c.todo ++ c.post) := by
  simp [Cursor.func, Func.defs, Cursor.block, Cursor.pre, Cursor.post, Block.defs, Llvm.defs]

theorem Cursor.names_step (h : c.todo = i :: rest) :
    (c.step dl).func.args ++ (c.step dl).func.defs =
      c.pre ++ (defs (visit dl c.name c.next i).insts ++ (defs rest ++ c.post)) := by
  rw [Cursor.names_eq, Cursor.step_cons h]
  simp [Cursor.pre, Cursor.post, Cursor.map, flatMap_defs_map, defs_map, defs_append, Phi.replace,
    Function.comp_def]

/-! ## Bounds on registers -/

theorem Operand.regs_map (σ : Reg → Reg) (o : Operand κ) : (o.map σ).regs = o.regs.map σ := by
  cases o <;> rfl

theorem flatMap_regs_map (σ : Reg → Reg) (os : List (Operand κ)) :
    (os.map (Operand.map σ)).flatMap Operand.regs = (os.flatMap Operand.regs).map σ := by
  rw [List.flatMap_map, List.map_flatMap]
  exact congrArg (fun g => os.flatMap g) (funext (Operand.regs_map σ))

theorem Inst.regs_map (σ : Reg → Reg) (i : Inst κ ω) :
    (i.map σ).regs = i.dst.toList ++ (i.operands.flatMap Operand.regs).map σ := by
  unfold Inst.regs
  rw [Inst.dst_replace, Inst.operands_replace, flatMap_regs_map]

theorem Phi.regs_map (σ : Reg → Reg) (p : Phi κ) :
    (p.map σ).regs = p.dst :: (p.incoming.flatMap fun x => x.2.regs).map σ := by
  simp [Phi.regs, Phi.replace, List.flatMap_map, List.map_flatMap, Operand.regs_map]

theorem Block.regs_map_lt (hσ : ∀ r < M, σ r < M) {b : Block κ ω} (hb : ∀ r ∈ b.regs, r < M) :
    ∀ r ∈ (b.map σ).regs, r < M := by
  have hphis : ∀ p ∈ b.phis, ∀ r ∈ p.regs, r < M := fun p hp r hr =>
    hb r (List.mem_append_left _ (List.mem_append_left _ (List.mem_flatMap.mpr ⟨p, hp, hr⟩)))
  have hinsts : ∀ i ∈ b.insts, ∀ r ∈ i.regs, r < M := fun i hi r hr =>
    hb r (List.mem_append_left _ (List.mem_append_right _ (List.mem_flatMap.mpr ⟨i, hi, hr⟩)))
  have hterm : ∀ r ∈ b.term.operands.flatMap Operand.regs, r < M := fun r hr =>
    hb r (List.mem_append_right _ hr)
  intro r hr
  rcases List.mem_append.mp hr with hr | hr
  · rcases List.mem_append.mp hr with hr | hr
    · obtain ⟨p', hp', hr⟩ := List.mem_flatMap.mp hr
      obtain ⟨p, hp, rfl⟩ := List.mem_map.mp hp'
      rw [Phi.regs_map] at hr
      rcases List.mem_cons.mp hr with rfl | hr
      · exact hphis p hp _ List.mem_cons_self
      · obtain ⟨x, hx, rfl⟩ := List.mem_map.mp hr
        exact hσ x (hphis p hp x (List.mem_cons_of_mem _ hx))
    · obtain ⟨i', hi', hr⟩ := List.mem_flatMap.mp hr
      obtain ⟨i, hi, rfl⟩ := List.mem_map.mp hi'
      rw [Inst.regs_map] at hr
      rcases List.mem_append.mp hr with hr | hr
      · exact hinsts i hi r (List.mem_append_left _ hr)
      · obtain ⟨x, hx, rfl⟩ := List.mem_map.mp hr
        exact hσ x (hinsts i hi x (List.mem_append_right _ hx))
  · change r ∈ (b.term.map σ).operands.flatMap Operand.regs at hr
    rw [Terminator.operands_replace, flatMap_regs_map] at hr
    obtain ⟨x, hx, rfl⟩ := List.mem_map.mp hr
    exact hσ x (hterm x hx)

theorem Func.regs_map_lt (hσ : ∀ r < M, σ r < M) (hf : ∀ r ∈ f.regs, r < M) :
    ∀ r ∈ (f.replace (Operand.map σ)).regs, r < M := by
  intro r hr
  rcases List.mem_append.mp hr with hr | hr
  · exact hf r (List.mem_append_left _ hr)
  · obtain ⟨b', hb', hr⟩ := List.mem_flatMap.mp hr
    obtain ⟨b, hb, rfl⟩ := List.mem_map.mp hb'
    exact Block.regs_map_lt hσ
      (fun x hx => hf x (List.mem_append_right _ (List.mem_flatMap.mpr ⟨b, hb, hx⟩))) r hr

theorem Cursor.map_func (σ : Reg → Reg) (c : Cursor κ ω) :
    (c.map σ).func = c.func.replace (Operand.map σ) := by
  simp [Cursor.func, Cursor.map, Func.replace, Cursor.block, Block.replace]

def Cursor.outer (c : Cursor κ ω) : List Reg :=
  c.args ++ c.before.flatMap Block.regs ++ c.phis.flatMap Phi.regs ++
    c.term.operands.flatMap Operand.regs ++ c.after.flatMap Block.regs

theorem Cursor.mem_regs {r : Reg} :
    r ∈ c.func.regs ↔ r ∈ c.outer ∨ r ∈ (c.done ++ c.todo).flatMap Inst.regs := by
  simp only [Cursor.func, Func.regs, Cursor.block, Block.regs, Cursor.outer, List.mem_append,
    List.flatMap_append, List.flatMap_cons]
  tauto

end HeroTools.Llvm
