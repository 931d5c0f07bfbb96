import HeroTools.Llvm.Semantics

/-! A function and the same function with renamed registers, run side by side. -/

namespace HeroTools.Llvm
open Renaming
variable {κ ω : Type} {L : Lang κ ω} {σ τ : Reg → Reg} {N M : Nat} {s s' s'' : State}

/-- Equal up to the names of the registers below `N`. -/
structure Sim (σ : Reg → Reg) (N : Nat) (s s' : State) : Prop where
  regs : Agree σ N s.regs s'.regs
  mem : s'.mem = s.mem
  trace : s'.trace = s.trace

theorem Sim.comp (h : Sim σ N s s') (h' : Sim τ M s' s'') (hσ : ∀ r < N, σ r < M) :
    Sim (τ ∘ σ) N s s'' where
  regs := h.regs.comp h'.regs hσ
  mem := h'.mem.trans h.mem
  trace := h'.trace.trans h.trace

/-! ## Operands -/

theorem Sim.val (h : Sim σ N s s') {o : Operand κ} (ho : ∀ r ∈ o.regs, r < N) :
    s'.val L (o.map σ) = s.val L o := by
  cases o with
  | reg r => exact h.regs r (ho r (List.mem_singleton_self r))
  | const c => rfl

theorem Sim.vals (h : Sim σ N s s') {os : List (Operand κ)}
    (hos : ∀ o ∈ os, ∀ r ∈ o.regs, r < N) :
    (os.map (Operand.map σ)).mapM (s'.val L) = os.mapM (s.val L) := by
  induction os with
  | nil => rfl
  | cons o os ih =>
    have htail := ih fun o ho => hos o (List.mem_cons_of_mem _ ho)
    rw [List.map_cons, List.mapM_cons, List.mapM_cons, h.val (hos o List.mem_cons_self), htail]

theorem Sim.lookup (h : Sim σ N s s') {inc : List (Nat × Operand κ)} (l : Nat)
    (hinc : ∀ x ∈ inc, ∀ r ∈ x.2.regs, r < N) :
    ((inc.map fun x => (x.1, x.2.map σ)).lookup l).bind (s'.val L) =
      (inc.lookup l).bind (s.val L) := by
  induction inc with
  | nil => rfl
  | cons x inc ih =>
    rw [List.map_cons, List.lookup_cons, List.lookup_cons]
    cases l == x.1 with
    | true => exact h.val (hinc x List.mem_cons_self)
    | false => exact ih fun y hy => hinc y (List.mem_cons_of_mem _ hy)

/-! ## Writing to registers and memory -/

theorem Sim.set_kept (h : Sim σ N s s') {e : Reg} (he : Kept σ N e) (v : Nat) :
    Sim σ N (s.set e v) (s'.set e v) := ⟨h.regs.update_kept he, h.mem, h.trace⟩

theorem Sim.set_free (h : Sim σ N s s') {t : Reg} (ht : ∀ r < N, σ r ≠ t) (v : Nat) :
    Sim σ N s (s'.set t v) := ⟨h.regs.update_free ht, h.mem, h.trace⟩

theorem Sim.set_renamed (h : Sim σ N s s') {d t : Reg} (ht : ∀ r < N, σ r = t ↔ r = d)
    (v : Nat) : Sim σ N (s.set d v) (s'.set t v) := ⟨h.regs.update_renamed ht, h.mem, h.trace⟩

theorem Sim.assign (h : Sim σ N s s') {dst : Option Reg} (hdst : ∀ e ∈ dst, Kept σ N e)
    (v : Nat) : Sim σ N (s.assign dst v) (s'.assign dst v) := by
  cases dst with
  | none => exact h
  | some e => exact h.set_kept (hdst e rfl) v

theorem Sim.load_value (h : Sim σ N s s') (dl : DataLayout) (as a n : Nat) :
    (s'.load dl as a n).1 = (s.load dl as a n).1 := by
  unfold State.load
  rw [h.mem]

theorem Sim.load (h : Sim σ N s s') (dl : DataLayout) (as a n : Nat) :
    Sim σ N (s.load dl as a n).2 (s'.load dl as a n).2 := by
  refine ⟨h.regs, h.mem, ?_⟩
  unfold State.load
  simp only [h.mem, h.trace]

theorem Sim.store (h : Sim σ N s s') (dl : DataLayout) (as a n v : Nat) :
    Sim σ N (s.store dl as a n v) (s'.store dl as a n v) := by
  refine ⟨h.regs, ?_, ?_⟩
  · unfold State.store
    simp only [h.mem]
  · unfold State.store
    simp only [h.trace]

/-! ## One instruction whose uses are renamed -/

theorem Sim.execCall (h : Sim σ N s s') {dst : Option Reg} (hdst : ∀ e ∈ dst, Kept σ N e)
    (callee : String) (vs : List Nat) :
    Option.Rel (Sim σ N) (execCall L dst callee vs s) (execCall L dst callee vs s') := by
  unfold Llvm.execCall
  split
  · dsimp only
    rw [h.load_value]
    exact .some ((h.load ..).assign hdst _)
  · exact .some (h.store ..)
  · exact .none

/-- The registers of an instruction are below `N`, and that it writes to keeps its name. -/
structure Inst.Fixed (σ : Reg → Reg) (N : Nat) (i : Inst κ ω) : Prop where
  dst : ∀ e ∈ i.dst, Kept σ N e
  operands : ∀ o ∈ i.operands, ∀ r ∈ o.regs, r < N

theorem Sim.exec_map (h : Sim σ N s s') {i : Inst κ ω} (hi : i.Fixed σ N) :
    Option.Rel (Sim σ N) (exec L i s) (exec L (i.map σ) s') := by
  have hop := hi.operands
  cases i with
  | load dst ty as ptr =>
    simp only [exec, Inst.replace, Option.bind_eq_bind]
    rw [h.val (hop ptr List.mem_cons_self)]
    refine rel_bind_same fun a => ?_
    rw [h.load_value]
    exact .some ((h.load ..).set_kept (hi.dst dst rfl) _)
  | store ty val as ptr =>
    simp only [exec, Inst.replace, Option.bind_eq_bind]
    rw [h.val (hop val List.mem_cons_self),
      h.val (hop ptr (List.mem_cons_of_mem _ List.mem_cons_self))]
    exact rel_bind_same fun v => rel_bind_same fun a => .some (h.store ..)
  | cast dst op srcTy dstTy val =>
    simp only [exec, Inst.replace, Option.bind_eq_bind]
    rw [h.val (hop val List.mem_cons_self)]
    exact rel_bind_same fun v => .some (h.set_kept (hi.dst dst rfl) _)
  | call dst callee ret params args =>
    simp only [exec, Inst.replace, Option.bind_eq_bind]
    rw [h.vals (show ∀ o ∈ args, ∀ r ∈ o.regs, r < N from hop)]
    exact rel_bind_same fun vs => h.execCall hi.dst callee vs
  | mem dst kind ass ops => exact .none
  | other dst op ops =>
    simp only [exec, Inst.replace, Option.bind_eq_bind]
    rw [h.vals (show ∀ o ∈ ops, ∀ r ∈ o.regs, r < N from hop)]
    exact rel_bind_same fun vs => rel_bind_same fun v => .some (h.assign hi.dst v)

/-! ## Blocks -/

theorem execInsts_append (is js : List (Inst κ ω)) (s : State) :
    execInsts L (is ++ js) s = (execInsts L is s).bind (execInsts L js) := by
  induction is generalizing s with
  | nil => rfl
  | cons i is ih =>
    rw [List.cons_append, execInsts, execInsts, Option.bind_assoc]
    exact congrArg _ (funext ih)

theorem Sim.execInsts_map (h : Sim σ N s s') {is : List (Inst κ ω)}
    (his : ∀ i ∈ is, i.Fixed σ N) :
    Option.Rel (Sim σ N) (execInsts L is s) (execInsts L (is.map (Inst.map σ)) s') := by
  induction is generalizing s s' with
  | nil => exact .some h
  | cons i is ih =>
    refine rel_bind (h.exec_map (his i List.mem_cons_self)) fun t t' ht => ?_
    exact ih ht fun j hj => his j (List.mem_cons_of_mem _ hj)

structure Phi.Fixed (σ : Reg → Reg) (N : Nat) (p : Phi κ) : Prop where
  dst : Kept σ N p.dst
  incoming : ∀ x ∈ p.incoming, ∀ r ∈ x.2.regs, r < N

theorem Sim.phi_values (h : Sim σ N s s') (prev : Option Nat) {phis : List (Phi κ)}
    (hphis : ∀ p ∈ phis, p.Fixed σ N) :
    (phis.map (Phi.map σ)).mapM (phiValue L prev s') = phis.mapM (phiValue L prev s) := by
  induction phis with
  | nil => rfl
  | cons p phis ih =>
    have hp : phiValue L prev s' (p.map σ) = phiValue L prev s p := by
      cases prev with
      | none => rfl
      | some l => exact h.lookup l (hphis p List.mem_cons_self).incoming
    have htail := ih fun q hq => hphis q (List.mem_cons_of_mem _ hq)
    rw [List.map_cons, List.mapM_cons, List.mapM_cons, hp, htail]

theorem Sim.set_phis (h : Sim σ N s s') {phis : List (Phi κ)}
    (hphis : ∀ p ∈ phis, p.Fixed σ N) (vs : List Nat) :
    Sim σ N ((phis.zip vs).foldl (fun s pv => s.set pv.1.dst pv.2) s)
      (((phis.map (Phi.map σ)).zip vs).foldl (fun s pv => s.set pv.1.dst pv.2) s') := by
  induction phis generalizing s s' vs with
  | nil => exact h
  | cons p phis ih =>
    cases vs with
    | nil => exact h
    | cons v vs =>
      exact ih (h.set_kept (hphis p List.mem_cons_self).dst v)
        (fun q hq => hphis q (List.mem_cons_of_mem _ hq)) vs

theorem Sim.execPhis_map (h : Sim σ N s s') (prev : Option Nat) {phis : List (Phi κ)}
    (hphis : ∀ p ∈ phis, p.Fixed σ N) :
    Option.Rel (Sim σ N) (execPhis L prev phis s)
      (execPhis L prev (phis.map (Phi.map σ)) s') := by
  simp only [execPhis, Option.bind_eq_bind]
  rw [h.phi_values prev hphis]
  exact rel_bind_same fun vs => .some (h.set_phis hphis vs)

theorem Sim.next_map (h : Sim σ N s s') {t : Terminator κ}
    (ht : ∀ o ∈ t.operands, ∀ r ∈ o.regs, r < N) : next L s' (t.map σ) = next L s t := by
  cases t with
  | ret v =>
    cases v with
    | none => rfl
    | some v =>
      have hv := h.val (L := L) (ht v List.mem_cons_self)
      simp only [next, Terminator.replace, Option.map_some, hv]
  | br l => rfl
  | condBr c l₁ l₂ =>
    have hc := h.val (L := L) (ht c List.mem_cons_self)
    simp only [next, Terminator.replace, hc]
  | switch v d cs =>
    have hv := h.val (L := L) (ht v List.mem_cons_self)
    simp only [next, Terminator.replace, hv]
  | unreachable => rfl

def BlockSim (L : Lang κ ω) (σ : Reg → Reg) (N : Nat) (b b' : Block κ ω) : Prop :=
  ∀ prev s s', Sim σ N s s' →
    Option.Rel (fun x y => x.1 = y.1 ∧ Sim σ N x.2 y.2) (execBlock L b prev s)
      (execBlock L b' prev s')

structure Block.Fixed (σ : Reg → Reg) (N : Nat) (b : Block κ ω) : Prop where
  phis : ∀ p ∈ b.phis, p.Fixed σ N
  insts : ∀ i ∈ b.insts, i.Fixed σ N
  term : ∀ o ∈ b.term.operands, ∀ r ∈ o.regs, r < N

theorem blockSim_of_insts {phis : List (Phi κ)} {t : Terminator κ} {is js : List (Inst κ ω)}
    (hphis : ∀ p ∈ phis, p.Fixed σ N) (ht : ∀ o ∈ t.operands, ∀ r ∈ o.regs, r < N)
    (hinsts : ∀ s s', Sim σ N s s' →
      Option.Rel (Sim σ N) (execInsts L is s) (execInsts L js s')) :
    BlockSim L σ N ⟨phis, is, t⟩ ⟨phis.map (Phi.map σ), js, t.map σ⟩ := by
  intro prev s s' h
  simp only [execBlock, Option.bind_eq_bind]
  refine rel_bind (h.execPhis_map prev hphis) fun s₁ s₁' h₁ => ?_
  refine rel_bind (hinsts s₁ s₁' h₁) fun s₂ s₂' h₂ => ?_
  rw [h₂.next_map ht]
  exact rel_bind_same fun nx => .some ⟨rfl, h₂⟩

theorem Block.Fixed.blockSim {b : Block κ ω} (hb : b.Fixed σ N) :
    BlockSim L σ N b (b.map σ) :=
  blockSim_of_insts hb.phis hb.term fun _ _ h => h.execInsts_map hb.insts

/-! ## Runs -/

inductive Outcome.Rel (R : State → State → Prop) : Outcome → Outcome → Prop
  | illFormed : Outcome.Rel R .illFormed .illFormed
  | stuck : Outcome.Rel R .stuck .stuck
  | returned {v s s'} : R s s' → Outcome.Rel R (.returned v s) (.returned v s')
  | running {l prev s s'} : R s s' → Outcome.Rel R (.running l prev s) (.running l prev s')

theorem Outcome.Rel.comp {R S T : State → State → Prop} {x y z : Outcome}
    (h : Outcome.Rel R x y) (h' : Outcome.Rel S y z)
    (hRST : ∀ s s' s'', R s s' → S s' s'' → T s s'') : Outcome.Rel T x z := by
  cases h with
  | illFormed => cases h'; exact .illFormed
  | stuck => cases h'; exact .stuck
  | returned hr => cases h' with | returned hs => exact .returned (hRST _ _ _ hr hs)
  | running hr => cases h' with | running hs => exact .running (hRST _ _ _ hr hs)

theorem Outcome.Rel.mono {R S : State → State → Prop} {x y : Outcome} (h : Outcome.Rel R x y)
    (hRS : ∀ s s', R s s' → S s s') : Outcome.Rel S x y := by
  cases h with
  | illFormed => exact .illFormed
  | stuck => exact .stuck
  | returned hr => exact .returned (hRS _ _ hr)
  | running hr => exact .running (hRS _ _ hr)

theorem Outcome.rel_refl {R : State → State → Prop} (hR : ∀ s, R s s) (x : Outcome) :
    Outcome.Rel R x x := by
  cases x with
  | illFormed => exact .illFormed
  | stuck => exact .stuck
  | returned v s => exact .returned (hR s)
  | running l prev s => exact .running (hR s)

theorem run_sim {f f' : Func κ ω} (hblocks : List.Forall₂ (BlockSim L σ N) f.blocks f'.blocks)
    (n l : Nat) (prev : Option Nat) (h : Sim σ N s s') :
    Outcome.Rel (Sim σ N) (run L f n l prev s) (run L f' n l prev s') := by
  induction n generalizing l prev s s' with
  | zero => exact .running h
  | succ n ih =>
    have hb : Option.Rel (fun x y => x.1 = y.1 ∧ Sim σ N x.2 y.2)
        (f.blocks[l]?.bind fun b => execBlock L b prev s)
        (f'.blocks[l]?.bind fun b => execBlock L b prev s') :=
      rel_bind (rel_getElem? hblocks l) fun b b' hbb => hbb prev s s' h
    -- the next block is the same one in both, or none
    rw [run, run]
    generalize (f.blocks[l]?.bind fun b => execBlock L b prev s) = x at hb
    generalize (f'.blocks[l]?.bind fun b => execBlock L b prev s') = y at hb
    cases hb with
    | none => exact .stuck
    | @some a b hab =>
      obtain ⟨nx, t⟩ := a
      obtain ⟨nx', t'⟩ := b
      obtain ⟨rfl, ht⟩ := hab
      cases nx with
      | ret v => exact .returned ht
      | goto l' => exact ih l' (some l) ht

end HeroTools.Llvm
