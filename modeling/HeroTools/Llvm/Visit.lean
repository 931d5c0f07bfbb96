import HeroTools.Llvm.Semantics

/-! What one visit does to the names of registers and to the types of casts. -/

namespace HeroTools.Llvm
open Renaming
variable {κ ω : Type} {dl : DataLayout} {n : Reg} {i : Inst κ ω}

/-! ## Host and device -/

/-- Host pointers of 64 bits, device pointers of 32, and no padding after pointers. -/
structure DataLayout.Hero (dl : DataLayout) : Prop where
  host : dl.pointerBits dl.HostAS = 64
  device : dl.pointerBits dl.DeviceAS = 32
  alloc : ∀ ty : Ty, ty.getScalarType.isPointerTy → ty.bits dl ∈ supportWidths →
    dl.allocBits ty = ty.bits dl

theorem DataLayout.hostAS_ne_deviceAS (dl : DataLayout) : dl.HostAS ≠ dl.DeviceAS := by
  unfold DataLayout.HostAS
  split_ifs with h
  · rw [h]
    exact Nat.one_ne_zero
  · exact Ne.symm h

theorem hostDevicePair_iff {a b : Nat} :
    hostDevicePair dl a b = true ↔
      a = dl.HostAS ∧ b = dl.DeviceAS ∨ a = dl.DeviceAS ∧ b = dl.HostAS := by
  unfold hostDevicePair
  rw [decide_eq_true_iff]
  omega

theorem DataLayout.Hero.pointer (hdl : dl.Hero) {as : Nat}
    (has : as = dl.HostAS ∨ as = dl.DeviceAS) : dl.allocBits (.ptr as) = dl.pointerBits as := by
  apply hdl.alloc (.ptr as) rfl
  unfold Ty.bits
  rcases has with rfl | rfl
  · rw [hdl.host]
    decide
  · rw [hdl.device]
    decide

def heroDl : DataLayout where
  programAs := 1
  pointerBits := fun as => if as = 1 then 32 else 64
  allocBits := Ty.bits ⟨1, fun as => if as = 1 then 32 else 64, fun _ => 0⟩

theorem Ty.bits_congr {dl dl' : DataLayout} (h : dl.pointerBits = dl'.pointerBits) (ty : Ty) :
    ty.bits dl = ty.bits dl' := by
  induction ty with
  | ptr as => exact congrFun h as
  | vec m t ih => exact congrArg (m * ·) ih
  | _ => rfl

theorem heroDl_hero : heroDl.Hero where
  host := rfl
  device := rfl
  alloc ty _ _ := by
    apply Ty.bits_congr
    rfl

/-! ## Types of loads and stores -/

def Ty.isScalar : Ty → Bool
  | .int _ => true
  | .float _ => true
  | .ptr _ => true
  | _ => false

def Ty.isPointerVector : Ty → Bool
  | .vec _ (.ptr _) => true
  | _ => false

/-- Integers, floating-point numbers, pointers, and vectors of these, of the sizes that the
support functions have. -/
def Ty.movable (dl : DataLayout) (ty : Ty) : Prop :=
  ty.getScalarType.isScalar = true ∧ ty.bits dl ∈ supportWidths

instance (dl : DataLayout) (ty : Ty) : Decidable (ty.movable dl) :=
  inferInstanceAs (Decidable (_ ∧ _))

theorem Ty.primitiveBits_eq (dl : DataLayout) {ty : Ty} (h : ty.getScalarType.isScalar = true) :
    ty.primitiveBits = if ty.getScalarType.isPointerTy then 0 else ty.bits dl := by
  cases ty with
  | int w => rfl
  | float k => rfl
  | ptr as => rfl
  | vec m t =>
    cases t with
    | ptr as => exact Nat.mul_zero m
    | int w => rfl
    | float k => rfl
    | _ => exact absurd h Bool.false_ne_true
  | aggregate b => exact absurd h Bool.false_ne_true
  | void => exact absurd h Bool.false_ne_true

theorem DataLayout.Hero.accessBits_eq (hdl : dl.Hero) {ty : Ty} (h : ty.movable dl) :
    accessBits dl ty = ty.bits dl := by
  have hpos : ty.bits dl ≠ 0 := by
    intro h0
    have h0' := h.2
    rw [h0] at h0'
    exact absurd h0' (by decide)
  unfold accessBits
  rw [Ty.primitiveBits_eq dl h.1]
  by_cases hp : ty.getScalarType.isPointerTy = true
  · rw [if_pos hp, if_pos rfl, hdl.alloc ty hp h.2]
  · rw [if_neg hp, if_neg hpos]

theorem castIsValid_int (dl : DataLayout) {ty : Ty} (h : ty.getScalarType.isScalar = true) :
    castIsValid (if ty.isPointerTy then .inttoptr else .bitcast) (.int (ty.bits dl)) ty =
        !ty.isPointerVector ∧
      castIsValid (if ty.isPointerTy then .ptrtoint else .bitcast) ty (.int (ty.bits dl)) =
        !ty.isPointerVector := by
  have hsame : ∀ w : Nat, (w == w) = true := fun w => beq_self_eq_true w
  cases ty with
  | int w => exact ⟨hsame w, hsame w⟩
  | float k => exact ⟨hsame k.bits, hsame k.bits⟩
  | ptr as => exact ⟨rfl, rfl⟩
  | vec m t =>
    cases t with
    | ptr as => exact ⟨rfl, rfl⟩
    | int w => exact ⟨hsame (m * w), hsame (m * w)⟩
    | float k => exact ⟨hsame (m * k.bits), hsame (m * k.bits)⟩
    | _ => exact absurd h Bool.false_ne_true
  | aggregate b => exact absurd h Bool.false_ne_true
  | void => exact absurd h Bool.false_ne_true

/-! ## Names -/

def defs (is : List (Inst κ ω)) : List Reg := is.flatMap fun i => i.dst.toList

structure Rewrite.Renames (n : Reg) (i : Inst κ ω) (r : Rewrite κ ω) : Prop where
  uses : r.uses = id ∨ ∃ d t, i.dst = some d ∧ n ≤ t ∧ t < n + 3 ∧ r.uses = replace d t
  operands : ∀ j ∈ r.insts, ∀ o ∈ j.operands,
    o ∈ i.operands ∨ ∃ x, o = .reg x ∧ n ≤ x ∧ x < n + 3
  defs : r.uses = id ∧ defs r.insts = i.dst.toList ∨
    (defs r.insts).Nodup ∧ ∀ e ∈ defs r.insts, n ≤ e ∧ e < n + 3

namespace Rewrite.Renames
variable {r : Rewrite κ ω} (h : r.Renames n i)
include h

theorem uses_lt : ∀ x < n + 3, r.uses x < n + 3 := by
  intro x hx
  rcases h.uses with huses | ⟨d, t, -, -, ht, huses⟩
  · rw [huses]
    exact hx
  · rw [huses]
    unfold replace
    split_ifs
    · exact ht
    · exact hx

theorem regs_lt (hi : ∀ x ∈ i.regs, x < n) : ∀ j ∈ r.insts, ∀ x ∈ j.regs, x < n + 3 := by
  intro j hj x hx
  rcases List.mem_append.mp hx with hx | hx
  · have hmem : x ∈ Llvm.defs r.insts := List.mem_flatMap.mpr ⟨j, hj, hx⟩
    rcases h.defs with ⟨-, hdefs⟩ | ⟨-, hfresh⟩
    · rw [hdefs] at hmem
      exact Nat.lt_add_right 3 (hi x (List.mem_append_left _ hmem))
    · exact (hfresh x hmem).2
  · obtain ⟨o, ho, hx⟩ := List.mem_flatMap.mp hx
    rcases h.operands j hj o ho with ho | ⟨y, rfl, -, hy⟩
    · exact Nat.lt_add_right 3
        (hi x (List.mem_append_right _ (List.mem_flatMap.mpr ⟨o, ho, hx⟩)))
    · rw [List.mem_singleton.mp hx]
      exact hy

theorem uses_eq {x : Reg} (hx : ∀ d ∈ i.dst, x ≠ d) : r.uses x = x := by
  rcases h.uses with huses | ⟨d, t, hd, -, -, huses⟩
  · rw [huses]
    rfl
  · rw [huses]
    exact if_neg (hx d hd)

theorem kept {e : Reg} (he : e < n) (hne : ∀ d ∈ i.dst, e ≠ d) : Kept r.uses n e := by
  rcases h.uses with huses | ⟨d, t, hd, ht, -, huses⟩
  · rw [huses]
    exact kept_id
  · rw [huses]
    exact kept_replace ht he (hne d hd)

end Rewrite.Renames

theorem keep_renames (n : Reg) (i : Inst κ ω) : (keep i).Renames n i where
  uses := .inl rfl
  operands := by
    intro j hj o ho
    rw [List.mem_singleton.mp hj] at ho
    exact .inl ho
  defs := .inl ⟨rfl, List.append_nil _⟩

theorem visitLoadInst_renames (dl : DataLayout) (fname : String) (n dst : Reg) (ty : Ty)
    (as : Nat) (ptr : Operand κ) :
    (visitLoadInst (ω := ω) dl fname n dst ty as ptr).Renames n (.load dst ty as ptr) := by
  unfold visitLoadInst
  dsimp only
  split
  · exact keep_renames n _
  split
  · exact keep_renames n _
  split
  · refine ⟨.inr ⟨dst, n + 2, rfl, Nat.le_add_right n 2, Nat.lt_succ_self _, rfl⟩, ?_, ?_⟩
    · simp [Inst.operands]
    · simp [Llvm.defs, Inst.dst]
  · refine ⟨.inr ⟨dst, n + 1, rfl, Nat.le_add_right n 1, ?_, rfl⟩, ?_, ?_⟩
    · exact Nat.add_lt_add_left (by decide) n
    · simp [Inst.operands]
    · simp [Llvm.defs, Inst.dst]

theorem visitStoreInst_renames (dl : DataLayout) (n : Reg) (ty : Ty) (val : Operand κ)
    (as : Nat) (ptr : Operand κ) :
    (visitStoreInst (ω := ω) dl n ty val as ptr).Renames n (.store ty val as ptr) := by
  unfold visitStoreInst
  dsimp only
  split
  · exact keep_renames n _
  split
  · refine ⟨.inl rfl, ?_, ?_⟩
    · simp [Inst.operands]
    · simp [Llvm.defs, Inst.dst]
  · refine ⟨.inl rfl, ?_, ?_⟩
    · simp [Inst.operands]
    · simp [Llvm.defs, Inst.dst]

theorem visitAddrSpaceCastInst_renames (dl : DataLayout) (n dst : Reg) (srcTy dstTy : Ty)
    (val : Operand κ) :
    (visitAddrSpaceCastInst (ω := ω) dl n dst srcTy dstTy val).Renames n
      (.cast dst .addrspacecast srcTy dstTy val) := by
  unfold visitAddrSpaceCastInst
  dsimp only
  split
  · exact keep_renames n _
  · refine ⟨.inr ⟨dst, n + 1, rfl, Nat.le_add_right n 1, ?_, rfl⟩, ?_, ?_⟩
    · exact Nat.add_lt_add_left (by decide) n
    · simp [Inst.operands]
    · simp [Llvm.defs, Inst.dst]

theorem visit_renames (dl : DataLayout) (fname : String) (n : Reg) (i : Inst κ ω) :
    (visit dl fname n i).Renames n i := by
  unfold visit
  split
  · apply visitLoadInst_renames
  · apply visitStoreInst_renames
  · apply visitAddrSpaceCastInst_renames
  · exact keep_renames n i

/-! ## Casts -/

def Inst.supported (dl : DataLayout) : Inst κ ω → Prop
  | .load _ ty _ _ => ty.movable dl
  | .store ty _ _ _ => ty.movable dl
  | _ => True

instance (dl : DataLayout) : (i : Inst κ ω) → Decidable (i.supported dl)
  | .load _ ty _ _ => inferInstanceAs (Decidable (ty.movable dl))
  | .store ty _ _ _ => inferInstanceAs (Decidable (ty.movable dl))
  | .cast .. => .isTrue trivial
  | .call .. => .isTrue trivial
  | .mem .. => .isTrue trivial
  | .other .. => .isTrue trivial

/-- A vector of pointers is loaded or stored through a host pointer, or is cast between
host and device. -/
def Inst.movesPointerVector (dl : DataLayout) (fname : String) : Inst κ ω → Bool
  | .load _ ty as _ => !supportFunction fname && as == dl.HostAS && ty.isPointerVector
  | .store ty _ as _ => as == dl.HostAS && ty.isPointerVector
  | .cast _ .addrspacecast srcTy dstTy _ =>
    hostDevicePair dl srcTy.getPointerAddressSpace dstTy.getPointerAddressSpace &&
      srcTy.isPointerVector
  | _ => false

@[simp] theorem castIsValid_ptrtoint (as w : Nat) :
    castIsValid .ptrtoint (.ptr as) (.int w) = true := rfl

theorem visitLoadInst_legal (hdl : dl.Hero) {ty : Ty} (hty : ty.movable dl) (fname : String)
    (n dst : Reg) (as : Nat) (ptr : Operand κ) :
    (visitLoadInst (ω := ω) dl fname n dst ty as ptr).insts.all Inst.legal =
      !(Inst.load (ω := ω) dst ty as ptr).movesPointerVector dl fname := by
  unfold visitLoadInst Inst.movesPointerVector
  dsimp only
  split
  case isTrue hf => rw [hf]; rfl
  case isFalse hf =>
    rw [Bool.not_eq_true] at hf
    split
    case isTrue has => rw [beq_false_of_ne has, Bool.and_false]; rfl
    case isFalse has =>
      rw [not_not] at has
      subst has
      rw [hf, beq_self_eq_true, hdl.accessBits_eq hty]
      have hcast := (castIsValid_int dl hty.1).1
      split
      case isTrue => simp [Inst.legal, hcast]
      case isFalse hint =>
        rw [not_not] at hint
        rw [hint]
        rfl

theorem visitStoreInst_legal (hdl : dl.Hero) {ty : Ty} (hty : ty.movable dl) (fname : String)
    (n : Reg) (val : Operand κ) (as : Nat) (ptr : Operand κ) :
    (visitStoreInst (ω := ω) dl n ty val as ptr).insts.all Inst.legal =
      !(Inst.store (ω := ω) ty val as ptr).movesPointerVector dl fname := by
  unfold visitStoreInst Inst.movesPointerVector
  dsimp only
  split
  case isTrue has => rw [beq_false_of_ne has]; rfl
  case isFalse has =>
    rw [not_not] at has
    subst has
    rw [beq_self_eq_true, hdl.accessBits_eq hty]
    have hcast := (castIsValid_int dl hty.1).2
    split
    case isTrue => simp [Inst.legal, hcast]
    case isFalse hint =>
      rw [not_not] at hint
      rw [hint]
      rfl

theorem isPointerVector_eq {ty : Ty} (h : ty.getScalarType.isPointerTy = true) :
    ty.isPointerVector = !(ty.lanes == none) := by
  cases ty with
  | vec m t =>
    cases t with
    | ptr as => rfl
    | _ => exact absurd h Bool.false_ne_true
  | ptr as => rfl
  | _ => exact absurd h Bool.false_ne_true

theorem visitAddrSpaceCastInst_legal {srcTy dstTy : Ty} (fname : String) (n dst : Reg)
    (val : Operand κ) (hl : castIsValid .addrspacecast srcTy dstTy = true) :
    (visitAddrSpaceCastInst (ω := ω) dl n dst srcTy dstTy val).insts.all Inst.legal =
      !(Inst.cast (ω := ω) dst .addrspacecast srcTy dstTy val).movesPointerVector dl
        fname := by
  unfold visitAddrSpaceCastInst Inst.movesPointerVector
  dsimp only
  split
  case isTrue hpair =>
    rw [Bool.not_eq_true'] at hpair
    rw [hpair]
    simpa [keep, Inst.legal] using hl
  case isFalse hpair =>
    rw [Bool.not_eq_true', Bool.not_eq_false] at hpair
    simp only [castIsValid, Bool.and_eq_true, beq_iff_eq] at hl
    obtain ⟨⟨⟨hsrc, hdst⟩, -⟩, hlanes⟩ := hl
    rw [hpair, Bool.true_and, isPointerVector_eq hsrc]
    have hint : ∀ w, (Ty.int w).getScalarType.isIntegerTy = true := fun _ => rfl
    have hone : ∀ w, (Ty.int w).lanes = none := fun _ => rfl
    simp only [List.all_cons, List.all_nil, Inst.legal, castIsValid, hsrc, hdst, hint, hone,
      hlanes, Bool.true_and, Bool.and_true, Bool.not_not]
    cases dstTy.lanes with
    | none => rfl
    | some m => rfl

theorem visit_legal (hdl : dl.Hero) (hs : i.supported dl) (hl : i.legal = true)
    (fname : String) (n : Reg) :
    (visit dl fname n i).insts.all Inst.legal = !i.movesPointerVector dl fname := by
  cases i with
  | load dst ty as ptr => exact visitLoadInst_legal hdl hs ..
  | store ty val as ptr => exact visitStoreInst_legal hdl hs ..
  | cast dst op srcTy dstTy val =>
    cases op with
    | addrspacecast => exact visitAddrSpaceCastInst_legal _ _ _ _ hl
    | _ => exact (Bool.and_true _).trans hl
  | _ => rfl

end HeroTools.Llvm
