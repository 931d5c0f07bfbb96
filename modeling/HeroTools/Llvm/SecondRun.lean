import HeroTools.Llvm.IllegalCasts
import HeroTools.Llvm.SupportCalls

/-! What is left to do for `OmpHostPointerLegalizer` when it is run once more. -/

namespace HeroTools.Llvm
open Trees Rose
variable {κ ω : Type} {dl : DataLayout} {E : LowerMemIntrinsics κ ω} {f : Func κ ω}
  {i : Inst κ ω}

/-! ## Replacing nothing -/

@[simp] theorem Operand.map_id : (Operand.map id : Operand κ → Operand κ) = id := by
  funext o
  cases o <;> rfl

@[simp] theorem Operand.patch_id : (Operand.patch id : Operand κ → Operand κ) = id := by
  funext o
  cases o <;> rfl

@[simp] theorem Phi.replace_id (p : Phi κ) : p.replace id = p := by
  cases p
  simp [Phi.replace]

@[simp] theorem Terminator.replace_id (t : Terminator κ) : t.replace id = t := by
  cases t <;> simp [Terminator.replace]

@[simp] theorem Block.replace_id (b : Block κ ω) : b.replace id = b := by
  have hphis : b.phis.map (Phi.replace id) = b.phis := List.map_id'' Phi.replace_id _
  have hinsts : b.insts.map (Inst.replace id) = b.insts := List.map_id'' Inst.replace_id _
  unfold Block.replace
  rw [hphis, hinsts, Terminator.replace_id]

@[simp] theorem Func.replace_id (f : Func κ ω) : f.replace id = f := by
  have hblocks : f.blocks.map (Block.replace id) = f.blocks := List.map_id'' Block.replace_id _
  unfold Func.replace
  rw [hblocks]

theorem Cursor.map_id_func (c : Cursor κ ω) : (c.map id).func = c.func := by
  rw [Cursor.map_func, Operand.map_id, Func.replace_id]

/-! ## Instructions that a visit keeps -/

theorem visit_eq_keep {fname : String} (hi : i.rewritten dl fname = false)
    (hcast : i.hostDeviceCast dl = false) (n : Reg) : visit dl fname n i = keep i := by
  cases i with
  | load dst ty as ptr =>
    simp only [Inst.rewritten, Bool.and_eq_false_iff, Bool.not_eq_false', beq_eq_false_iff_ne]
      at hi
    unfold visit visitLoadInst
    dsimp only
    rcases hi with hname | has
    · rw [if_pos hname]
    · rw [if_pos has, ite_self]
  | store ty val as ptr =>
    have has : as ≠ dl.HostAS := beq_eq_false_iff_ne.mp hi
    unfold visit visitStoreInst
    dsimp only
    rw [if_pos has]
  | cast dst op srcTy dstTy val =>
    cases op with
    | addrspacecast =>
      have hpair : hostDevicePair dl srcTy.getPointerAddressSpace
        dstTy.getPointerAddressSpace = false := hcast
      unfold visit visitAddrSpaceCastInst
      dsimp only
      rw [hpair, Bool.not_false, if_pos rfl]
    | _ => rfl
  | _ => rfl

theorem visit_rewritten (fname : String) (n : Reg) (i : Inst κ ω) :
    ∀ j ∈ (visit dl fname n i).insts, j.rewritten dl fname = false := by
  intro j hj
  have hhost := visit_host fname n i j hj
  cases j with
  | load dst ty as ptr =>
    rw [Inst.rewritten, Bool.and_eq_false_iff, Bool.not_eq_false', beq_eq_false_iff_ne]
    by_cases has : as = dl.HostAS
    · rcases hhost (List.mem_singleton.mpr has.symm) with ⟨-, hname⟩ | ⟨x, hx, -⟩
      · exact .inl hname
      · cases hx
    · exact .inr has
  | store ty val as ptr =>
    have has : as ≠ dl.HostAS := by
      intro has
      rcases hhost (List.mem_singleton.mpr has.symm) with ⟨hload, -⟩ | ⟨x, hx, -⟩
      · exact Bool.false_ne_true hload
      · cases hx
    exact beq_eq_false_iff_ne.mpr has
  | _ => rfl

theorem visitFunc_eq_self
    (hf : ∀ i ∈ f.insts, i.rewritten dl f.name = false ∧ i.hostDeviceCast dl = false) :
    visitFunc dl f = f := by
  cases hblocks : f.blocks with
  | nil =>
    unfold visitFunc
    rw [hblocks]
  | cons b bs =>
    have hstep : ∀ (c : Cursor κ ω) i rest, c.todo = i :: rest → c.func = f →
        (c.step dl).func = f := by
      intro c i rest htodo hc
      have hmem : i ∈ f.insts := by
        rw [← hc, c.func_insts]
        apply List.mem_append_right
        unfold Cursor.pending
        rw [htodo]
        exact List.mem_cons_self
      have hname : c.name = f.name := congrArg Func.name hc
      obtain ⟨hi, hcast⟩ := hf i hmem
      have hkeep : visit dl c.name c.next i = keep i := by
        rw [hname]
        exact visit_eq_keep hi hcast c.next
      -- the instruction goes from those pending to those done
      rw [Cursor.step_cons htodo, hkeep]
      change (Cursor.map id _).func = f
      rw [Cursor.map_id_func, ← hc]
      unfold Cursor.func Cursor.block
      dsimp only [keep]
      rw [htodo, List.append_assoc, List.singleton_append]
    have henter : ∀ (c : Cursor κ ω) b bs, c.todo = [] → c.after = b :: bs → c.func = f →
        (c.enter b bs).func = f := by
      intro c b bs _ hafter hc
      rwa [Cursor.enter_func hafter]
    obtain ⟨c, hc, -, -, hend⟩ :=
      visitFunc_rule hstep henter hblocks (Func.cursor_func hblocks)
    rw [hend, hc]

/-! ## Intrinsics that are not expanded -/

theorem Func.seek_eq_none {p : Inst κ ω → Bool} (hf : ∀ i ∈ f.insts, p i = false) :
    f.seek p = none := by
  have hblocks : f.blocks.dropWhile (fun b => !b.insts.any p) = [] := by
    refine List.dropWhile_eq_nil_iff.mpr fun b hb => ?_
    rw [Bool.not_eq_true', List.any_eq_false]
    intro i hi
    rw [hf i (List.mem_flatMap.mpr ⟨b, hb, hi⟩)]
    exact Bool.false_ne_true
  unfold Func.seek
  rw [hblocks]

theorem expandMemIntrinsicUses_eq_self {F : IntrinsicId × String}
    (hf : (expansion E F.1).isSome = true → ∀ i ∈ f.insts, toExpand dl F.1 F.2 i = false) :
    expandMemIntrinsicUses E dl F.1 F.2 f = f := by
  have hfixed : expandUse E dl F.1 F.2 f = f := by
    unfold expandUse
    cases hx : expansion E F.1 with
    | none => rfl
    | some expand =>
      rw [hx] at hf
      rw [Func.seek_eq_none (hf rfl)]
  exact Function.iterate_fixed hfixed _

theorem expandIntrinsics_eq_self {intrinsics : List (IntrinsicId × String)}
    (hf : ∀ F ∈ intrinsics, (expansion E F.1).isSome = true →
      ∀ i ∈ f.insts, toExpand dl F.1 F.2 i = false) :
    expandIntrinsics E dl intrinsics f = f := by
  unfold expandIntrinsics
  induction intrinsics with
  | nil => rfl
  | cons F Fs ih =>
    rw [List.foldl_cons, expandMemIntrinsicUses_eq_self (hf F List.mem_cons_self)]
    exact ih fun F hF => hf F (List.mem_cons_of_mem _ hF)

/-! ## A function once more -/

theorem legalize_insts_left (g : κ → κ) (intrinsics : List (IntrinsicId × String)) :
    ∀ j ∈ (legalize E dl g intrinsics f).insts,
      j.rewritten dl (expandIntrinsics E dl intrinsics f).name = false ∧
        j.hostDeviceCast dl = false := by
  obtain ⟨rs, hinsts, hrs⟩ := legalize_pieces E dl g intrinsics f
  intro j hj
  rw [hinsts, List.mem_flatten] at hj
  obtain ⟨js, hjs, hj⟩ := hj
  obtain ⟨i, -, n, h, h', rfl⟩ := Visited.of_mem hrs hjs
  obtain ⟨j', hj', rfl⟩ := List.mem_map.mp hj
  have hcast : (j'.replace h').hostDeviceCast dl = j'.hostDeviceCast dl := by
    cases j' with
    | cast dst op srcTy dstTy val => cases op <;> rfl
    | _ => rfl
  rw [Inst.rewritten_replace, hcast]
  exact ⟨visit_rewritten _ n _ j' hj', visit_hostDeviceCast _ n _ j' hj'⟩

theorem legalize_name (g : κ → κ) (intrinsics : List (IntrinsicId × String)) :
    (legalize E dl g intrinsics f).name = (expandIntrinsics E dl intrinsics f).name :=
  visitFunc_name dl _

theorem legalize_expanded (hE : E.ToIntegers) (g : κ → κ)
    (intrinsics : List (IntrinsicId × String)) :
    ∀ F ∈ intrinsics, (expansion E F.1).isSome = true →
      ∀ j ∈ (legalize E dl g intrinsics f).insts, toExpand dl F.1 F.2 j = false := by
  intro F hF hsome j hj
  have hdone := (expand_all hE dl intrinsics f).2 F hF hsome
  refine Bool.eq_false_iff.mpr fun hexpand => ?_
  obtain ⟨ass, hacc, has⟩ := toExpand_iff.mp hexpand
  unfold legalize at hj
  rw [Func.replace_insts] at hj
  obtain ⟨j', hj', rfl⟩ := List.mem_map.mp hj
  rw [Inst.access_replace] at hacc
  obtain ⟨i, hi, hacc_i⟩ := (visitFunc_access_iff _ _).mp ⟨j', hj', hacc⟩
  exact Bool.eq_false_iff.mp (hdone i hi) (toExpand_iff.mpr ⟨ass, hacc_i, has⟩)

theorem expand_visit_legalize (hE : E.ToIntegers) (g : κ → κ)
    (intrinsics : List (IntrinsicId × String)) :
    visitFunc dl (expandIntrinsics E dl intrinsics (legalize E dl g intrinsics f)) =
      legalize E dl g intrinsics f := by
  have hexpand : expandIntrinsics E dl intrinsics (legalize E dl g intrinsics f) =
      legalize E dl g intrinsics f := expandIntrinsics_eq_self (legalize_expanded hE g intrinsics)
  rw [hexpand]
  apply visitFunc_eq_self
  rw [legalize_name]
  exact legalize_insts_left g intrinsics

/-! ## A module once more -/

namespace ConstModule
open ConstLabel
variable {E : LowerMemIntrinsics Const ω} {M : ConstModule ω}

theorem visited_again (hE : E.ToIntegers) :
    ((M.runOnModule E dl).expanded E dl).visited dl = M.runOnModule E dl := by
  have hfunctions : ((M.runOnModule E dl).functions.map
      (expandIntrinsics E dl M.intrinsics)).map (visitFunc dl) =
        (M.runOnModule E dl).functions := by
    unfold runOnModule Llvm.runOnModule
    dsimp only
    rw [List.map_map, List.map_map]
    exact List.map_congr_left fun f _ => expand_visit_legalize hE (M.patch E dl) M.intrinsics
  unfold visited expanded
  dsimp only
  rw [show (M.runOnModule E dl).intrinsics = M.intrinsics from rfl, hfunctions]
  rfl

/-- The search of a second run sees nothing: it looks where the first one has looked. -/
theorem patch_again (hE : E.ToIntegers) : (M.runOnModule E dl).patch E dl = id := by
  obtain ⟨ss, hpatch, hss⟩ := patch_searches E dl M
  obtain ⟨ss', hpatch', hss'⟩ := patch_searches E dl (M.runOnModule E dl)
  rw [visited_again hE] at hss'
  have hnil : ss' = [] := by
    refine hss'.eq_nil fun c hc => ?_
    obtain ⟨f', hf', hc⟩ := List.mem_flatMap.mp hc
    obtain ⟨f, hf, rfl⟩ := List.mem_map.mp hf'
    have hconsts : (legalize E dl (M.patch E dl) M.intrinsics f).consts =
        (visitFunc dl (expandIntrinsics E dl M.intrinsics f)).consts.map (M.patch E dl) :=
      consts_patch (M.patch E dl) _
    rw [hconsts] at hc
    obtain ⟨o, ho, rfl⟩ := List.mem_map.mp hc
    rw [hpatch]
    refine hss.found_eq_nil (splits dl) (searched_open dl) fun t ht => ⟨o, ?_, ht⟩
    have hvisited : visitFunc dl (expandIntrinsics E dl M.intrinsics f) ∈
        ((M.expanded E dl).visited dl).functions :=
      List.mem_map_of_mem (List.mem_map_of_mem hf)
    exact List.mem_flatMap.mpr ⟨_, hvisited, ho⟩
  rw [hpatch', hnil]
  rfl

/-- A second run of the pass leaves the module as the first one made it. -/
theorem runOnModule_idempotent (E : LowerMemIntrinsics Const ω) (hE : E.ToIntegers)
    (dl : DataLayout) (M : ConstModule ω) :
    (M.runOnModule E dl).runOnModule E dl = M.runOnModule E dl := by
  have hpatch : (M.runOnModule E dl).patch E dl = id := patch_again hE
  have hlegalize : ∀ f' ∈ (M.runOnModule E dl).functions,
      legalize E dl id M.intrinsics f' = f' := by
    intro f' hf'
    obtain ⟨f, -, rfl⟩ := List.mem_map.mp hf'
    have hagain : visitFunc dl (expandIntrinsics E dl M.intrinsics
        (legalize E dl (M.patch E dl) M.intrinsics f)) =
          legalize E dl (M.patch E dl) M.intrinsics f :=
      expand_visit_legalize hE (M.patch E dl) M.intrinsics
    unfold expandIntrinsics at hagain
    rw [legalize, hagain, Operand.patch_id, Func.replace_id]
  calc (M.runOnModule E dl).runOnModule E dl
      = { functions := (M.runOnModule E dl).functions.map (legalize E dl id M.intrinsics)
          intrinsics := M.intrinsics
          initializers := (M.runOnModule E dl).initializers.map id } := by
        rw [runOnModule, hpatch]
        rfl
    _ = M.runOnModule E dl := by
        rw [List.map_congr_left hlegalize, List.map_id, List.map_id']
        rfl

end ConstModule

/-! ## A copy in bytes -/

def number (n : Nat) : Const := node (.value (toString n)) []

def copyBytes (n : Reg) : Inst Const LoopOp → List (Inst Const LoopOp)
  | .mem _ _ [d, s] [dst, src, len] =>
    [.other (some (n + 2)) .gep [src, .reg n],
      .load (n + 3) (.int 8) s (.reg (n + 2)),
      .other (some (n + 4)) .gep [dst, .reg n],
      .store (.int 8) (.reg (n + 3)) d (.reg (n + 4)),
      .other (some (n + 1)) .add [.reg n, .const (number 1)],
      .other (some (n + 5)) .ult [.reg (n + 1), len]]
  | _ => []

def copyAsLoop (c : Cursor Const LoopOp) : Func Const LoopOp :=
  match c.todo with
  | [] => c.func
  | i :: rest =>
    let loop := c.before.length + 1 + c.after.length
    { name := c.name
      args := c.args
      blocks := c.before ++ ⟨c.phis, c.done, .br loop⟩ :: (c.after ++
        [⟨[⟨c.next, [(c.before.length, .const (number 0)), (loop, .reg (c.next + 1))]⟩],
          copyBytes c.next i, .condBr (.reg (c.next + 5)) loop (loop + 1)⟩,
          ⟨[], rest, c.term⟩]) }

theorem copyBytes_movesInteger (n : Reg) (i : Inst Const LoopOp) :
    ∀ j ∈ copyBytes n i, j.movesInteger = true := by
  unfold copyBytes
  split
  · simp [Inst.movesInteger, Ty.isIntegerTy]
  · exact fun j hj => absurd hj List.not_mem_nil

theorem copyAsLoop_lowers : LowersToIntegers copyAsLoop := by
  intro c i rest htodo
  have hname : (copyAsLoop c).name = c.name := by
    unfold copyAsLoop
    rw [htodo]
  refine ⟨hname, copyBytes c.next i, copyBytes_movesInteger c.next i, ?_⟩
  unfold copyAsLoop
  rw [htodo]
  simp only [Func.insts, Cursor.visited, List.flatMap_append, List.flatMap_cons,
    List.flatMap_nil, List.append_nil, List.append_assoc]
  apply List.Perm.append_left
  apply List.Perm.append_left
  rw [← List.append_assoc, ← List.append_assoc]
  apply List.perm_append_comm.trans
  rw [List.append_assoc]

def copyLoops : LowerMemIntrinsics Const LoopOp := ⟨copyAsLoop, copyAsLoop, copyAsLoop⟩

theorem copyLoops_to_integers : copyLoops.ToIntegers :=
  ⟨copyAsLoop_lowers, copyAsLoop_lowers, copyAsLoop_lowers⟩

def copyAndLoad : ConstModule LoopOp where
  functions := [{
    name := "kernel"
    args := [0]
    blocks := [⟨[], [.mem none (.intrinsic .memcpy "llvm.memcpy.p1.p0.i64") [1, 0]
        [.reg 0, .const (node (.value "counter") []), .const (number 4)],
      .cast 1 .addrspacecast (.ptr 1) (.ptr 0) (.const counterPtr),
      .load 2 (.float .float) 0 (.reg 1)], .ret (some (.reg 2))⟩] }]
  intrinsics := [(.memcpy, "llvm.memcpy.p1.p0.i64")]
  initializers := [node .aggregate [counterPtr]]

theorem runOnModule_idempotent_copyAndLoad :
    (copyAndLoad.runOnModule copyLoops heroDl).runOnModule copyLoops heroDl =
      copyAndLoad.runOnModule copyLoops heroDl := by
  exact ConstModule.runOnModule_idempotent copyLoops copyLoops_to_integers heroDl copyAndLoad

end HeroTools.Llvm
