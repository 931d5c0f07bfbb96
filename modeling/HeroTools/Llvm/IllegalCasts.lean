import HeroTools.Llvm.ConstantCasts
import HeroTools.Llvm.VisitRuns

/-! Which casts between host and device are left when `OmpHostPointerLegalizer` is done. -/

namespace HeroTools.Llvm
open Trees Rose
variable {ω : Type} {dl : DataLayout}

/-! ## The search for constants -/

namespace ConstLabel

/-- `handleConstExpr` goes on to the operands: of constant expressions, unless these are casts
between other address spaces. -/
def searched (dl : DataLayout) (a : ConstLabel) : Bool :=
  a.isExpr && (!a.isAddrspacecast || a.hostDevice dl)

theorem eq_cast_of_hostDevice {a : ConstLabel} (h : a.hostDevice dl = true) :
    ∃ PST PDT, a = .cast .addrspacecast PST PDT := by
  cases a with
  | cast op PST PDT =>
    cases op with
    | addrspacecast => exact ⟨PST, PDT, rfl⟩
    | _ => exact absurd h Bool.false_ne_true
  | _ => exact absurd h Bool.false_ne_true

theorem splits (dl : DataLayout) : Splits (hostDevice dl) (IPI dl) (PII dl) where
  outer a ha := by
    obtain ⟨PST, PDT, rfl⟩ := eq_cast_of_hostDevice ha
    rfl
  inner a ha := by
    obtain ⟨PST, PDT, rfl⟩ := eq_cast_of_hostDevice ha
    rfl

theorem searched_open (dl : DataLayout) :
    Open (searched dl) (hostDevice dl) (IPI dl) (PII dl) where
  self a ha := by
    unfold searched
    rw [ha]
    obtain ⟨PST, PDT, rfl⟩ := eq_cast_of_hostDevice ha
    rfl
  outer a ha := by
    obtain ⟨PST, PDT, rfl⟩ := eq_cast_of_hostDevice ha
    rfl
  inner a ha := by
    obtain ⟨PST, PDT, rfl⟩ := eq_cast_of_hostDevice ha
    rfl

theorem all_open (dl : DataLayout) :
    Open (fun _ => true) (hostDevice dl) (IPI dl) (PII dl) :=
  ⟨fun _ _ => rfl, fun _ _ => rfl, fun _ _ => rfl⟩

end ConstLabel

open ConstLabel

def hostDeviceCasts (dl : DataLayout) : Const → List Const :=
  found (fun _ => true) (hostDevice dl)

def searchedCasts (dl : DataLayout) : Const → List Const := found (searched dl) (hostDevice dl)

abbrev Searches (dl : DataLayout) : List Const → List Const → Prop :=
  Clears (IPI dl) (PII dl) (searched dl) (hostDevice dl)

theorem hostDevice_of_not_expr {a : ConstLabel} (h : a.isExpr = false) :
    a.hostDevice dl = false := by
  cases a with
  | cast op PST PDT => exact absurd h.symm Bool.false_ne_true
  | _ => rfl

theorem searches_not_expr {c : Const} (h : c.label.isExpr = false) : Searches dl [] [c] := by
  cases c with
  | node a cs =>
    refine Clears.closed (hostDevice_of_not_expr h) ?_
    unfold searched
    rw [show a.isExpr = false from h, Bool.false_and]

theorem searches_foldl {os : List Const} {w : Const → List Const}
    (hw : ∀ c, c.label.isExpr = true →
      (∃ o ∈ os, weight (hostDevice dl) c ≤ weight (hostDevice dl) o) → Searches dl (w c) [c]) :
    Searches dl (os.foldl (fun replaced op =>
      replaced ++ if (replaceAllUsesWith dl replaced op).label.isExpr then
        w (replaceAllUsesWith dl replaced op) else []) []) os := by
  refine Clears.foldl (w := fun c => if c.label.isExpr then w c else []) (splits dl)
    (searched_open dl) fun ss hss c hc => ?_
  split
  case isTrue h => exact hw _ h ⟨c, hc, weight_splitAll_le (splits dl) hss c⟩
  case isFalse h => exact searches_not_expr (Bool.not_eq_true _ ▸ h)

theorem append_ite (b : Bool) (l l' : List Const) :
    (if b then l ++ l' else l) = l ++ if b then l' else [] := by
  cases b with
  | true => rfl
  | false => exact (List.append_nil l).symm

theorem handleConstExpr_searches {n : Nat} {c : Const} (hc : c.label.isExpr = true)
    (hn : weight (hostDevice dl) c ≤ n) : Searches dl (handleConstExpr dl n c) [c] := by
  induction n generalizing c with
  | zero =>
    cases c with
    | node a cs =>
      rw [weight_node] at hn
      split at hn <;> omega
  | succ n ih =>
    cases c with
    | node a cs =>
      have ha : a.isExpr = true := hc
      have hcs : Searches dl (cs.foldl (fun replaced op =>
          replaced ++ if (replaceAllUsesWith dl replaced op).label.isExpr then
            handleConstExpr dl n (replaceAllUsesWith dl replaced op) else []) []) cs := by
        refine searches_foldl fun c hc ⟨o, ho, hle⟩ => ih hc ?_
        exact Nat.le_of_lt_succ ((hle.trans_lt (weight_lt_of_mem ho)).trans_le hn)
      rw [handleConstExpr]
      simp only [append_ite]
      change Searches dl (if a.isAddrspacecast && !a.hostDevice dl then [] else
        cs.foldl _ (if a.hostDevice dl then [node a cs] else [])) [node a cs]
      -- a cast between the two spaces is split, any other address space cast ends the search
      by_cases hpair : a.hostDevice dl = true
      · have hsearched : a.searched dl = true := (searched_open dl).self a hpair
        rw [hpair, Bool.not_true, Bool.and_false, if_neg Bool.false_ne_true, if_pos rfl]
        refine (congrArg (Searches dl · [node a cs]) ?_).mpr (hcs.self hpair hsearched)
        exact Clears.foldl_below
          (w := fun c => if c.label.isExpr then handleConstExpr dl n c else []) (fun c hc => hc) []
      · rw [Bool.not_eq_true] at hpair
        rw [hpair, if_neg Bool.false_ne_true, Bool.not_false, Bool.and_true]
        cases hcast : a.isAddrspacecast with
        | true =>
          refine Clears.closed hpair ?_
          unfold searched
          rw [hcast, hpair, Bool.not_true, Bool.or_false, Bool.and_false]
        | false =>
          refine hcs.through hpair ?_
          unfold searched
          rw [ha, hcast]
          rfl

theorem handleOperands_searches (dl : DataLayout) (os : List Const) :
    Searches dl (handleOperands dl os) os := by
  unfold handleOperands
  simp only [append_ite]
  exact searches_foldl fun c hc _ => handleConstExpr_searches hc le_rfl

/-! ## Constants of a function -/

section Consts
variable {κ : Type} {c : Cursor κ ω}

theorem flatMap_consts_map {h : Operand κ → Operand κ} {g : κ → κ}
    (hg : ∀ o, (h o).consts = o.consts.map g) (os : List (Operand κ)) :
    (os.map h).flatMap Operand.consts = (os.flatMap Operand.consts).map g := by
  rw [List.flatMap_map, List.map_flatMap]
  exact congrArg (fun k => os.flatMap k) (funext hg)

theorem Func.consts_replace {h : Operand κ → Operand κ} {g : κ → κ}
    (hg : ∀ o, (h o).consts = o.consts.map g) (f : Func κ ω) :
    (f.replace h).consts = f.consts.map g := by
  have hphi : ∀ p : Phi κ, (p.replace h).consts = p.consts.map g := by
    intro p
    unfold Phi.consts Phi.replace
    rw [List.flatMap_map, List.map_flatMap]
    exact congrArg (fun k => p.incoming.flatMap k) (funext fun x => hg x.2)
  have hinst : ∀ i : Inst κ ω, (i.replace h).consts = i.consts.map g := by
    intro i
    unfold Inst.consts
    rw [Inst.operands_replace, flatMap_consts_map hg]
  have hterm : ∀ t : Terminator κ, (t.replace h).consts = t.consts.map g := by
    intro t
    unfold Terminator.consts
    rw [Terminator.operands_replace, flatMap_consts_map hg]
  have hblock : ∀ b : Block κ ω, (b.replace h).consts = b.consts.map g := by
    intro b
    unfold Block.consts Block.replace
    simp only [List.map_append, List.flatMap_map, List.map_flatMap, hphi, hinst, hterm]
  unfold Func.consts Func.replace
  simp only [List.flatMap_map, List.map_flatMap, hblock]

theorem consts_map (σ : Reg → Reg) (f : Func κ ω) :
    (f.replace (Operand.map σ)).consts = f.consts := by
  refine (Func.consts_replace (fun o => ?_) f).trans (List.map_id _)
  cases o <;> rfl

theorem consts_patch (g : κ → κ) (f : Func κ ω) :
    (f.replace (Operand.patch g)).consts = f.consts.map g := by
  refine Func.consts_replace (fun o => ?_) f
  cases o <;> rfl

def Cursor.outerConsts (c : Cursor κ ω) : List κ :=
  c.before.flatMap Block.consts ++ c.phis.flatMap Phi.consts ++ c.term.consts ++
    c.after.flatMap Block.consts

theorem Cursor.mem_consts {x : κ} : x ∈ c.func.consts ↔
    x ∈ c.outerConsts ∨ x ∈ (c.done ++ c.todo).flatMap Inst.consts := by
  simp only [Cursor.func, Func.consts, Cursor.block, Block.consts, Cursor.outerConsts,
    List.mem_append, List.flatMap_append, List.flatMap_cons]
  tauto

theorem visit_consts (fname : String) (n : Reg) (i : Inst κ ω) (x : κ) :
    x ∈ (visit dl fname n i).insts.flatMap Inst.consts ↔ x ∈ i.consts := by
  have hkeep : x ∈ (keep i).insts.flatMap Inst.consts ↔ x ∈ i.consts := by
    simp [keep]
  cases i with
  | load dst ty as ptr =>
    unfold visit visitLoadInst
    dsimp only
    split
    · exact hkeep
    split
    · exact hkeep
    split
    all_goals simp [Inst.consts, Inst.operands, Operand.consts]
  | store ty val as ptr =>
    unfold visit visitStoreInst
    dsimp only
    split
    · exact hkeep
    split
    all_goals
      simp [Inst.consts, Inst.operands, Operand.consts]
      exact or_comm
  | cast dst op srcTy dstTy val =>
    cases op with
    | addrspacecast =>
      unfold visit visitAddrSpaceCastInst
      dsimp only
      split
      · exact hkeep
      · simp [Inst.consts, Inst.operands, Operand.consts]
    | _ => exact hkeep
  | _ => exact hkeep

theorem visitFunc_consts (f : Func κ ω) (x : κ) :
    x ∈ (visitFunc dl f).consts ↔ x ∈ f.consts := by
  cases hblocks : f.blocks with
  | nil =>
    unfold visitFunc
    rw [hblocks]
  | cons b bs =>
    have hstep : ∀ (c : Cursor κ ω) i rest, c.todo = i :: rest →
        (x ∈ c.func.consts ↔ x ∈ f.consts) → (x ∈ (c.step dl).func.consts ↔ x ∈ f.consts) := by
      intro c i rest htodo hc
      rw [← hc, Cursor.step_cons htodo, Cursor.map_func, consts_map, Cursor.mem_consts,
        Cursor.mem_consts, htodo]
      change x ∈ c.outerConsts ∨ _ ↔ _
      simp only [List.flatMap_append, List.flatMap_cons, List.mem_append, visit_consts]
      tauto
    have henter : ∀ (c : Cursor κ ω) b bs, c.todo = [] → c.after = b :: bs →
        (x ∈ c.func.consts ↔ x ∈ f.consts) → (x ∈ (c.enter b bs).func.consts ↔ x ∈ f.consts) := by
      intro c b bs _ hafter hc
      rwa [Cursor.enter_func hafter]
    have hstart : x ∈ (f.cursor b bs).func.consts ↔ x ∈ f.consts := by
      rw [Func.cursor_func hblocks]
    obtain ⟨c, hc, -, -, hend⟩ := visitFunc_rule hstep henter hblocks hstart
    rw [hend]
    exact hc

end Consts

theorem mem_operands_visited {M : ConstModule ω} {c : Const} :
    c ∈ (M.visited dl).operands ↔ c ∈ M.operands := by
  unfold ConstModule.operands ConstModule.visited
  simp only [List.mem_flatMap, List.mem_map, exists_exists_and_eq_and, visitFunc_consts]

theorem runOnModule_consts (E : LowerMemIntrinsics Const ω) (M : ConstModule ω) :
    (M.runOnModule E dl).consts =
      ((M.expanded E dl).visited dl).consts.map (M.patch E dl) := by
  have hfunc : ∀ f : Func Const ω, (legalize E dl (M.patch E dl) M.intrinsics f).consts =
      (visitFunc dl (expandIntrinsics E dl M.intrinsics f)).consts.map (M.patch E dl) :=
    fun f => consts_patch (M.patch E dl) _
  unfold ConstModule.consts ConstModule.operands
  rw [List.map_append, List.map_flatMap]
  refine congrArg₂ _ ?_ rfl
  simp only [ConstModule.runOnModule, runOnModule, ConstModule.visited, ConstModule.expanded,
    List.flatMap_map, List.map_map, hfunc, Function.comp_apply]

/-! ## Instructions -/

def Inst.hostDeviceCast {κ : Type} (dl : DataLayout) : Inst κ ω → Bool
  | .cast _ .addrspacecast srcTy dstTy _ =>
    hostDevicePair dl srcTy.getPointerAddressSpace dstTy.getPointerAddressSpace
  | _ => false

theorem visit_hostDeviceCast {κ : Type} (fname : String) (n : Reg) (i : Inst κ ω) :
    ∀ j ∈ (visit dl fname n i).insts, j.hostDeviceCast dl = false := by
  cases i with
  | load dst ty as ptr =>
    unfold visit visitLoadInst
    dsimp only
    split
    · simp [keep, Inst.hostDeviceCast]
    split
    · simp [keep, Inst.hostDeviceCast]
    split
    · split <;> simp [Inst.hostDeviceCast]
    · simp [Inst.hostDeviceCast]
  | store ty val as ptr =>
    unfold visit visitStoreInst
    dsimp only
    split
    · simp [keep, Inst.hostDeviceCast]
    split
    · split <;> simp [Inst.hostDeviceCast]
    · simp [Inst.hostDeviceCast]
  | cast dst op srcTy dstTy val =>
    cases op with
    | addrspacecast =>
      unfold visit visitAddrSpaceCastInst
      dsimp only
      split
      case isTrue h =>
        rw [Bool.not_eq_true'] at h
        simpa [keep, Inst.hostDeviceCast] using h
      case isFalse => simp [Inst.hostDeviceCast]
    | _ => simp [visit, keep, Inst.hostDeviceCast]
  | _ => simp [visit, keep, Inst.hostDeviceCast]

theorem runOnModule_hostDeviceCast {κ : Type} (E : LowerMemIntrinsics κ ω) (g : κ → κ)
    (M : Module κ ω) : ∀ f ∈ (runOnModule E dl g M).functions, ∀ i ∈ f.insts,
      i.hostDeviceCast dl = false := by
  have hreplace : ∀ (h : Operand κ → Operand κ) (i : Inst κ ω),
      (i.replace h).hostDeviceCast dl = i.hostDeviceCast dl := by
    intro h i
    cases i with
    | cast dst op srcTy dstTy val => cases op <;> rfl
    | _ => rfl
  intro f' hf' j hj
  obtain ⟨f, -, rfl⟩ := List.mem_map.mp hf'
  obtain ⟨rs, hinsts, hrs⟩ := legalize_pieces E dl g M.intrinsics f
  rw [hinsts, List.mem_flatten] at hj
  obtain ⟨js, hjs, hj⟩ := hj
  obtain ⟨i, -, n, h, h', rfl⟩ := Visited.of_mem hrs hjs
  obtain ⟨j', hj', rfl⟩ := List.mem_map.mp hj
  rw [hreplace]
  exact visit_hostDeviceCast _ n _ j' hj'

/-! ## Denotations -/

section Denote
variable {S : ConstSem} {c t : Const}

theorem denoteNode_eq (a : ConstLabel) (cs : List Const) :
    denote dl S (node a cs) = denoteNode dl S a (cs.map (denote dl S)) :=
  fold_node _ a cs

/-- `CastInst::castIsValid`, for casts. -/
def ConstLabel.valid : ConstLabel → Bool
  | .cast op PST PDT => castIsValid op PST PDT
  | _ => true

theorem isSome_of_mapM_id {vs : List (Option Nat)} (h : (vs.mapM id).isSome = true) :
    ∀ v ∈ vs, v.isSome = true := by
  induction vs with
  | nil => exact fun v hv => absurd hv List.not_mem_nil
  | cons v vs ih =>
    rw [List.mapM_cons] at h
    cases v with
    | none => cases h
    | some x =>
      refine List.forall_mem_cons.mpr ⟨rfl, ih ?_⟩
      cases hvs : vs.mapM id with
      | none =>
        rw [hvs] at h
        cases h
      | some xs => rfl

theorem denoteNode_isSome {a : ConstLabel} {vs : List (Option Nat)}
    (h : (denoteNode dl S a vs).isSome = true) :
    a.valid = true ∧ ∀ v ∈ vs, v.isSome = true := by
  unfold denoteNode at h
  split at h
  · exact ⟨rfl, fun v hv => absurd hv List.not_mem_nil⟩
  next op PST PDT v =>
    split at h
    case isTrue hvalid => exact ⟨hvalid, List.forall_mem_singleton.mpr rfl⟩
    case isFalse => cases h
  · rw [Option.isSome_map] at h
    exact ⟨rfl, isSome_of_mapM_id h⟩
  · rw [Option.isSome_map] at h
    exact ⟨rfl, isSome_of_mapM_id h⟩
  · cases h

theorem valid_of_denote (h : (denote dl S c).isSome = true) :
    ∀ a ∈ labels c, a.valid = true := by
  induction c using Rose.ind with
  | h a cs ih =>
    rw [denoteNode_eq] at h
    obtain ⟨hvalid, hcs⟩ := denoteNode_isSome h
    intro b hb
    rcases mem_labels_node.mp hb with rfl | ⟨c, hc, hb⟩
    · exact hvalid
    · exact ih c hc (hcs _ (List.mem_map_of_mem hc)) b hb

theorem denote_of_mem_found {p q : ConstLabel → Bool} (h : (denote dl S c).isSome = true)
    (ht : t ∈ found p q c) : (denote dl S t).isSome = true := by
  induction c using Rose.ind with
  | h a cs ih =>
    rcases mem_found_node.mp ht with ⟨-, rfl⟩ | ⟨-, c, hc, ht⟩
    · exact h
    · rw [denoteNode_eq] at h
      exact ih c hc ((denoteNode_isSome h).2 _ (List.mem_map_of_mem hc)) ht

def ConstLabel.ofVectors : ConstLabel → Bool
  | .cast _ PST _ => PST.isPointerVector
  | _ => false

theorem not_valid_PII {PST PDT : Ty} (h : PST.isPointerVector = true) :
    (PII dl (.cast .addrspacecast PST PDT)).valid = false := by
  cases PST with
  | vec m t =>
    cases t with
    | ptr as => rfl
    | _ => exact absurd h Bool.false_ne_true
  | _ => exact absurd h Bool.false_ne_true

theorem castIsValid_through {PST PDT : Ty} (hv : PST.isPointerVector = false)
    (hpair : hostDevicePair dl PST.getPointerAddressSpace PDT.getPointerAddressSpace = true)
    (w : Nat) : castIsValid .addrspacecast PST PDT =
      (castIsValid .ptrtoint PST (.int w) && castIsValid .inttoptr (.int w) PDT) := by
  have has : PST.getPointerAddressSpace ≠ PDT.getPointerAddressSpace := by
    have hne := dl.hostAS_ne_deviceAS
    rcases hostDevicePair_iff.mp hpair with ⟨h, h'⟩ | ⟨h, h'⟩
    · rwa [h, h']
    · rw [h, h']
      exact hne.symm
  cases hp : PST.getScalarType.isPointerTy with
  | false => simp [castIsValid, hp]
  | true =>
    have hl : PST.lanes = none := by
      have hlanes := isPointerVector_eq hp
      rw [hv] at hlanes
      simpa using hlanes.symm
    simp only [castIsValid, hp, hl, bne_iff_ne.mpr has]
    cases PDT.lanes <;> simp [Ty.getScalarType, Ty.isIntegerTy, Ty.lanes]

theorem denote_split (hdl : ∀ ty : Ty, ty.bits dl ≤ dl.allocBits ty)
    (hs : c.label.hostDevice dl = true) (hv : c.label.ofVectors = false) :
    denote dl S (split (IPI dl) (PII dl) c) = denote dl S c := by
  cases c with
  | node a cs =>
    obtain ⟨PST, PDT, rfl⟩ := eq_cast_of_hostDevice hs
    rw [split, denoteNode_eq, List.map_singleton, denoteNode_eq, denoteNode_eq]
    generalize cs.map (denote dl S) = vs
    have hvalid := castIsValid_through hv hs (dl.allocBits PDT)
    rcases vs with - | ⟨_ | v, - | ⟨w, vs⟩⟩
    case cons.some.nil =>
      simp only [PII, IPI, denoteNode, hvalid]
      cases hp : castIsValid .ptrtoint PST (.int (dl.allocBits PDT)) with
      | false => rfl
      | true =>
        simp only [Bool.true_and, if_true]
        split
        case isFalse => rfl
        case isTrue hi =>
          have hp' : PST.getScalarType.isPointerTy = true ∧ PST.lanes = none := by
            simpa [castIsValid, Ty.getScalarType, Ty.isIntegerTy, Ty.lanes] using hp
          have hi' : PDT.getScalarType.isPointerTy = true ∧ none = PDT.lanes := by
            simpa [castIsValid, Ty.getScalarType, Ty.isIntegerTy, Ty.lanes] using hi
          obtain ⟨as, rfl⟩ := eq_ptr_of_no_vector hp'.1 hp'.2
          obtain ⟨as', rfl⟩ := eq_ptr_of_no_vector hi'.1 hi'.2.symm
          exact congrArg some (castBits_through (hdl _) v)
    all_goals rfl

end Denote

/-! ## The whole pass -/

def roundTrip (dl : DataLayout) : ConstLabel → ConstLabel → Option ConstLabel
  | .cast .inttoptr (.int w) PDT, .cast .ptrtoint PST (.int w') =>
    if w = dl.allocBits PDT ∧ w' = w ∧
        hostDevicePair dl PST.getPointerAddressSpace PDT.getPointerAddressSpace = true
    then some (.cast .addrspacecast PST PDT)
    else none
  | _, _ => none

theorem roundTrip_joins (dl : DataLayout) :
    Joins (roundTrip dl) (hostDevice dl) (IPI dl) (PII dl) where
  split a ha := by
    obtain ⟨PST, PDT, rfl⟩ := eq_cast_of_hostDevice ha
    exact if_pos ⟨rfl, rfl, ha⟩
  self a b ha := by
    obtain ⟨PST, PDT, rfl⟩ := eq_cast_of_hostDevice ha
    rfl
  inner a b ha := by
    obtain ⟨PST, PDT, rfl⟩ := eq_cast_of_hostDevice ha
    rfl

namespace ConstModule

/-- No cast between host and device is left, and the constants that took the places of such
casts denote what these did. -/
structure NoIllegalCasts (S : ConstSem) (E : LowerMemIntrinsics Const ω) (dl : DataLayout)
    (M : ConstModule ω) : Prop where
  insts : ∀ f ∈ (M.runOnModule E dl).functions, ∀ i ∈ f.insts, i.hostDeviceCast dl = false
  consts : ∀ c ∈ (M.runOnModule E dl).consts, hostDeviceCasts dl c = []
  denote : ∀ c ∈ (M.expanded E dl).consts, ∀ t ∈ hostDeviceCasts dl c,
    denote dl S (M.patch E dl t) = denote dl S t

/-- The search sees each cast in some operand, and no cast is one of vectors. -/
structure Reached (dl : DataLayout) (M : ConstModule ω) : Prop where
  searched : ∀ c ∈ M.consts, ∀ t ∈ hostDeviceCasts dl c,
    ∃ o ∈ M.operands, t ∈ searchedCasts dl o
  scalar : ∀ c ∈ M.consts, ∀ t ∈ hostDeviceCasts dl c, t.label.ofVectors = false

/-- Well-formed, and without the pairs of casts that the pass makes. -/
structure Original (S : ConstSem) (dl : DataLayout) (M : ConstModule ω) : Prop where
  denote : ∀ c ∈ M.consts, (denote dl S c).isSome = true
  plain : ∀ c ∈ M.consts, Plain (roundTrip dl) c

variable {S : ConstSem} {E : LowerMemIntrinsics Const ω} {M : ConstModule ω}

theorem mem_consts_visited {c : Const} : c ∈ (M.visited dl).consts ↔ c ∈ M.consts := by
  unfold consts
  rw [List.mem_append, List.mem_append, mem_operands_visited]
  rfl

theorem patch_searches (E : LowerMemIntrinsics Const ω) (dl : DataLayout) (M : ConstModule ω) :
    ∃ ss, M.patch E dl = splitAll (IPI dl) (PII dl) ss ∧
      Searches dl ss ((M.expanded E dl).visited dl).operands :=
  ⟨_, rfl, handleOperands_searches dl _⟩

theorem consts_iff : (∀ c ∈ (M.runOnModule E dl).consts, hostDeviceCasts dl c = []) ↔
    ∀ c ∈ (M.expanded E dl).consts, hostDeviceCasts dl (M.patch E dl c) = [] := by
  rw [runOnModule_consts, List.forall_mem_map]
  simp only [mem_consts_visited]

theorem noIllegalCasts_of_reached (hdl : ∀ ty : Ty, ty.bits dl ≤ dl.allocBits ty)
    (h : (M.expanded E dl).Reached dl) : M.NoIllegalCasts S E dl := by
  obtain ⟨ss, hpatch, hss⟩ := patch_searches E dl M
  have hscalar : ∀ s ∈ ss, s.label.ofVectors = false := by
    intro s hs
    obtain ⟨o, ho, t, ht, hlabel⟩ := hss.label hs
    rw [hlabel]
    have hmem : o ∈ (M.expanded E dl).consts :=
      List.mem_append_left _ (mem_operands_visited.mp ho)
    exact h.scalar o hmem t (found_mono (fun _ _ => rfl) ht)
  refine ⟨runOnModule_hostDeviceCast E _ M.toModule, consts_iff.mpr fun c hc => ?_,
    fun c hc t ht => ?_⟩
  · rw [hpatch]
    refine hss.found_eq_nil (splits dl) (all_open dl) fun t ht => ?_
    obtain ⟨o, ho, hto⟩ := h.searched c hc t ht
    exact ⟨o, mem_operands_visited.mpr ho, hto⟩
  · rw [hpatch]
    exact fold_splitAll (fun s hs => denote_split hdl (hss.labels s hs) (hscalar s hs)) t

theorem reached_of_noIllegalCasts (hM : (M.expanded E dl).Original S dl)
    (h : M.NoIllegalCasts S E dl) : (M.expanded E dl).Reached dl := by
  obtain ⟨ss, hpatch, hss⟩ := patch_searches E dl M
  have hnil := consts_iff.mp h.consts
  rw [hpatch] at hnil
  refine ⟨fun c hc t ht => ?_, fun c hc t ht => ?_⟩
  · have hplain : ∀ o ∈ ((M.expanded E dl).visited dl).operands, Plain (roundTrip dl) o :=
      fun o ho => hM.plain o (List.mem_append_left _ (mem_operands_visited.mp ho))
    obtain ⟨o, ho, hto⟩ := hss.found_of_eq_nil (splits dl) (all_open dl) (roundTrip_joins dl)
      (hM.plain c hc) hplain (hnil c hc) t ht
    exact ⟨o, mem_operands_visited.mp ho, hto⟩
  · have htrack := track_of_found_eq_nil (splits dl) (all_open dl) hss.labels (hnil c hc) ht
    have hdenote : (denote dl S (M.patch E dl t)).isSome = true := by
      rw [h.denote c hc t ht]
      exact denote_of_mem_found (hM.denote c hc) ht
    have hself : t ∈ hostDeviceCasts dl t := mem_found_self (label_of_mem_found ht)
    have hvalid := valid_of_denote hdenote _
      (hpatch ▸ inner_mem_labels_of_track (splits dl) (all_open dl) hss.labels hself htrack)
    obtain ⟨PST, PDT, hlabel⟩ := eq_cast_of_hostDevice (label_of_mem_found ht)
    rw [hlabel] at hvalid ⊢
    refine Bool.eq_false_iff.mpr fun hv => ?_
    rw [not_valid_PII hv] at hvalid
    exact Bool.false_ne_true hvalid

/-- The pass leaves no cast between host and device and changes the meaning of none, if the
search sees all of them; and only then, unless constants of the module already look like
those that the pass makes. -/
theorem noIllegalCasts_reached (S : ConstSem) (E : LowerMemIntrinsics Const ω)
    (dl : DataLayout) (hdl : ∀ ty : Ty, ty.bits dl ≤ dl.allocBits ty) (M : ConstModule ω) :
    ((M.expanded E dl).Reached dl → M.NoIllegalCasts S E dl) ∧
      ((M.expanded E dl).Original S dl → M.NoIllegalCasts S E dl →
        (M.expanded E dl).Reached dl) :=
  ⟨noIllegalCasts_of_reached hdl, reached_of_noIllegalCasts⟩

end ConstModule

/-! ## Two modules -/

def counterPtr : Const :=
  node (.cast .addrspacecast (.ptr 0) (.ptr 1)) [node (.value "counter") []]

def zeroSem : ConstSem := ⟨fun _ => 0, fun _ _ => 0, fun _ => 0⟩

def noLoops : LowerMemIntrinsics Const Unit := ⟨Cursor.func, Cursor.func, Cursor.func⟩

def counterUsed : ConstModule Unit where
  functions := [{
    name := "kernel"
    args := []
    blocks := [⟨[], [.other (some 0) () [.const (node (.expr "getelementptr")
      [counterPtr, node (.value "i32 1") []])]], .ret none⟩] }]
  intrinsics := []
  initializers := [node .aggregate [counterPtr, counterPtr]]

theorem heroDl_bits_le (ty : Ty) : ty.bits heroDl ≤ heroDl.allocBits ty := by
  have h : heroDl.allocBits ty = ty.bits heroDl := by
    apply Ty.bits_congr
    rfl
  exact h.ge

theorem noIllegalCasts_reached_counterUsed :
    counterUsed.NoIllegalCasts zeroSem noLoops heroDl :=
  (ConstModule.noIllegalCasts_reached zeroSem noLoops heroDl heroDl_bits_le
    counterUsed).1 ⟨by decide, by decide⟩

def counterTable : ConstModule Unit where
  functions := []
  intrinsics := []
  initializers := [node .aggregate [counterPtr, counterPtr]]

theorem runOnModule_illegal_cast_left :
    (counterTable.expanded noLoops heroDl).Original zeroSem heroDl ∧
      counterPtr ∈ hostDeviceCasts heroDl counterPtr ∧
      (∃ c ∈ (counterTable.runOnModule noLoops heroDl).initializers,
        counterPtr ∈ hostDeviceCasts heroDl c) ∧
      ¬ counterTable.NoIllegalCasts zeroSem noLoops heroDl := by
  have hleft : ∃ c ∈ (counterTable.runOnModule noLoops heroDl).initializers,
      counterPtr ∈ hostDeviceCasts heroDl c := by decide
  refine ⟨⟨by decide, ?_⟩, by decide, hleft, fun h => ?_⟩
  · intro c hc
    rw [List.mem_singleton.mp hc]
    exact show ∀ x ∈ found (fun _ => true) (fun _ => true) _, _ = none by decide
  · obtain ⟨c, hc, hmem⟩ := hleft
    rw [h.consts c (List.mem_append_right _ hc)] at hmem
    exact absurd hmem List.not_mem_nil

end HeroTools.Llvm
