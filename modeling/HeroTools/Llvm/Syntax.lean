import Mathlib.Data.List.Basic

/-! The part of LLVM's intermediate representation that `OmpHostPointerLegalizer` reads and
writes. Constants and the instructions it passes over are parameters. -/

namespace HeroTools.Llvm

inductive FloatKind
  | half
  | bfloat
  | float
  | double
  | x86Fp80
  | fp128
  | ppcFp128
deriving DecidableEq, Repr

def FloatKind.bits : FloatKind → Nat
  | .half => 16
  | .bfloat => 16
  | .float => 32
  | .double => 64
  | .x86Fp80 => 80
  | .fp128 => 128
  | .ppcFp128 => 128

/-- First-class types; of an aggregate only the size matters here. -/
inductive Ty
  | int (w : Nat)
  | float (k : FloatKind)
  | ptr (as : Nat)
  | vec (n : Nat) (elt : Ty)
  | aggregate (bits : Nat)
  | void
deriving DecidableEq, Repr

/-- `DataLayout`: `getProgramAddressSpace`, the width of the pointers of each address
space, and `getTypeAllocSizeInBits`. -/
structure DataLayout where
  programAs : Nat
  pointerBits : Nat → Nat
  allocBits : Ty → Nat

def Ty.bits (dl : DataLayout) : Ty → Nat
  | .int w => w
  | .float k => k.bits
  | .ptr as => dl.pointerBits as
  | .vec n t => n * t.bits dl
  | .aggregate b => b
  | .void => 0

/-- `getPrimitiveSizeInBits`: 0 for pointers, for vectors of them and for aggregates. -/
def Ty.primitiveBits : Ty → Nat
  | .int w => w
  | .float k => k.bits
  | .vec n t => n * t.primitiveBits
  | .ptr _ => 0
  | .aggregate _ => 0
  | .void => 0

def Ty.isPointerTy : Ty → Bool
  | .ptr _ => true
  | _ => false

def Ty.isIntegerTy : Ty → Bool
  | .int _ => true
  | _ => false

def Ty.getPointerAddressSpace : Ty → Nat
  | .ptr as => as
  | .vec _ t => t.getPointerAddressSpace
  | _ => 0

def Ty.getScalarType : Ty → Ty
  | .vec _ t => t
  | t => t

def Ty.lanes : Ty → Option Nat
  | .vec n _ => some n
  | _ => none

def Ty.singleValue : Ty → Bool
  | .aggregate _ => false
  | .void => false
  | _ => true

/-! ## Instructions -/

abbrev Reg := Nat

inductive Operand (κ : Type)
  | reg (r : Reg)
  | const (c : κ)
deriving DecidableEq, Repr

inductive CastOp
  | addrspacecast
  | ptrtoint
  | inttoptr
  | bitcast
deriving DecidableEq, Repr

/-- `CastInst::castIsValid`: a bit cast takes no pointer from or to anything else. -/
def castIsValid : CastOp → Ty → Ty → Bool
  | .ptrtoint, s, d =>
    s.getScalarType.isPointerTy && d.getScalarType.isIntegerTy && s.lanes == d.lanes
  | .inttoptr, s, d =>
    s.getScalarType.isIntegerTy && d.getScalarType.isPointerTy && s.lanes == d.lanes
  | .addrspacecast, s, d =>
    s.getScalarType.isPointerTy && d.getScalarType.isPointerTy &&
      s.getPointerAddressSpace != d.getPointerAddressSpace && s.lanes == d.lanes
  | .bitcast, s, d =>
    s.singleValue && d.singleValue &&
      (s.getScalarType.isPointerTy == d.getScalarType.isPointerTy) &&
      if s.getScalarType.isPointerTy then
        (s.getPointerAddressSpace == d.getPointerAddressSpace) &&
          s.lanes.getD 1 == d.lanes.getD 1
      else s.primitiveBits == d.primitiveBits

/-- Memory intrinsics; `memcpy`, `memmove` and `memset` are those of the pass. -/
inductive IntrinsicId
  | memcpy
  | memmove
  | memset
  | memcpyInline
  | memsetInline
  | memcpyElementUnorderedAtomic
  | memmoveElementUnorderedAtomic
  | memsetElementUnorderedAtomic
  | maskedLoad
  | maskedStore
  | maskedGather
  | maskedScatter
deriving DecidableEq, Repr

/-- Instructions besides load and store that access memory through a pointer operand. The
name of an intrinsic is that of one overload. -/
inductive MemKind
  | atomicrmw
  | cmpxchg
  | vaArg
  | intrinsic (id : IntrinsicId) (fn : String)
deriving DecidableEq, Repr

inductive Inst (κ ω : Type)
  | load (dst : Reg) (ty : Ty) (as : Nat) (ptr : Operand κ)
  | store (ty : Ty) (val : Operand κ) (as : Nat) (ptr : Operand κ)
  | cast (dst : Reg) (op : CastOp) (srcTy dstTy : Ty) (val : Operand κ)
  | call (dst : Option Reg) (callee : String) (ret : Ty) (params : List Ty)
      (args : List (Operand κ))
  | mem (dst : Option Reg) (kind : MemKind) (ass : List Nat) (ops : List (Operand κ))
  | other (dst : Option Reg) (op : ω) (ops : List (Operand κ))

structure Phi (κ : Type) where
  dst : Reg
  incoming : List (Nat × Operand κ)

inductive Terminator (κ : Type)
  | ret (val : Option (Operand κ))
  | br (target : Nat)
  | condBr (cond : Operand κ) (ifTrue ifFalse : Nat)
  | switch (val : Operand κ) (default : Nat) (cases : List (Nat × Nat))
  | unreachable

structure Block (κ ω : Type) where
  phis : List (Phi κ)
  insts : List (Inst κ ω)
  term : Terminator κ

/-- A function; its blocks are numbered, the first one is entered. -/
structure Func (κ ω : Type) where
  name : String
  args : List Reg
  blocks : List (Block κ ω)

variable {κ ω : Type}

def Func.insts (f : Func κ ω) : List (Inst κ ω) := f.blocks.flatMap Block.insts

def Inst.legal : Inst κ ω → Bool
  | .cast _ op srcTy dstTy _ => castIsValid op srcTy dstTy
  | _ => true

def Func.legal (f : Func κ ω) : Bool := f.insts.all Inst.legal

/-! ## Registers -/

def Inst.dst : Inst κ ω → Option Reg
  | .load d _ _ _ => some d
  | .store _ _ _ _ => none
  | .cast d _ _ _ _ => some d
  | .call d _ _ _ _ => d
  | .mem d _ _ _ => d
  | .other d _ _ => d

def Inst.operands : Inst κ ω → List (Operand κ)
  | .load _ _ _ p => [p]
  | .store _ v _ p => [v, p]
  | .cast _ _ _ _ v => [v]
  | .call _ _ _ _ args => args
  | .mem _ _ _ ops => ops
  | .other _ _ ops => ops

def Terminator.operands : Terminator κ → List (Operand κ)
  | .ret v => v.toList
  | .br _ => []
  | .condBr c _ _ => [c]
  | .switch v _ _ => [v]
  | .unreachable => []

def Operand.regs : Operand κ → List Reg
  | .reg r => [r]
  | .const _ => []

def Inst.regs (i : Inst κ ω) : List Reg := i.dst.toList ++ i.operands.flatMap Operand.regs

def Phi.regs (p : Phi κ) : List Reg := p.dst :: p.incoming.flatMap fun x => x.2.regs

def Block.regs (b : Block κ ω) : List Reg :=
  b.phis.flatMap Phi.regs ++ b.insts.flatMap Inst.regs ++ b.term.operands.flatMap Operand.regs

def Func.regs (f : Func κ ω) : List Reg := f.args ++ f.blocks.flatMap Block.regs

def Block.defs (b : Block κ ω) : List Reg :=
  b.phis.map Phi.dst ++ b.insts.flatMap fun i => i.dst.toList

def Func.defs (f : Func κ ω) : List Reg := f.blocks.flatMap Block.defs

def Func.Ssa (f : Func κ ω) : Prop := (f.args ++ f.defs).Nodup

instance (f : Func κ ω) : Decidable f.Ssa := inferInstanceAs (Decidable (List.Nodup _))

def Func.fresh (f : Func κ ω) : Reg := f.regs.foldr (fun r n => max (r + 1) n) 0

theorem lt_foldr_max {r : Reg} {rs : List Reg} (h : r ∈ rs) :
    r < rs.foldr (fun r n => max (r + 1) n) 0 := by
  induction rs with
  | nil => exact absurd h List.not_mem_nil
  | cons a rs ih =>
    rw [List.foldr_cons]
    rcases List.mem_cons.mp h with rfl | h
    · exact Nat.lt_of_lt_of_le (Nat.lt_succ_self _) (Nat.le_max_left _ _)
    · exact Nat.lt_of_lt_of_le (ih h) (Nat.le_max_right _ _)

theorem Func.lt_fresh {f : Func κ ω} {r : Reg} (h : r ∈ f.regs) : r < f.fresh := lt_foldr_max h

/-! ## Replacing registers -/

def Operand.map (σ : Reg → Reg) : Operand κ → Operand κ
  | .reg r => .reg (σ r)
  | .const c => .const c

@[simp] theorem Operand.map_reg (σ : Reg → Reg) (r : Reg) :
    (Operand.reg r : Operand κ).map σ = .reg (σ r) := rfl

def Operand.patch (g : κ → κ) : Operand κ → Operand κ
  | .reg r => .reg r
  | .const c => .const (g c)

def Inst.replace (h : Operand κ → Operand κ) : Inst κ ω → Inst κ ω
  | .load d ty as p => .load d ty as (h p)
  | .store ty v as p => .store ty (h v) as (h p)
  | .cast d op s t v => .cast d op s t (h v)
  | .call d c r ps args => .call d c r ps (args.map h)
  | .mem d k ass ops => .mem d k ass (ops.map h)
  | .other d op ops => .other d op (ops.map h)

def Phi.replace (h : Operand κ → Operand κ) (p : Phi κ) : Phi κ :=
  { p with incoming := p.incoming.map fun x => (x.1, h x.2) }

def Terminator.replace (h : Operand κ → Operand κ) : Terminator κ → Terminator κ
  | .ret v => .ret (v.map h)
  | .br l => .br l
  | .condBr c t f => .condBr (h c) t f
  | .switch v d cs => .switch (h v) d cs
  | .unreachable => .unreachable

def Block.replace (h : Operand κ → Operand κ) (b : Block κ ω) : Block κ ω where
  phis := b.phis.map (Phi.replace h)
  insts := b.insts.map (Inst.replace h)
  term := b.term.replace h

def Func.replace (h : Operand κ → Operand κ) (f : Func κ ω) : Func κ ω :=
  { f with blocks := f.blocks.map (Block.replace h) }

abbrev Inst.map (σ : Reg → Reg) : Inst κ ω → Inst κ ω := Inst.replace (Operand.map σ)

abbrev Phi.map (σ : Reg → Reg) : Phi κ → Phi κ := Phi.replace (Operand.map σ)

abbrev Terminator.map (σ : Reg → Reg) : Terminator κ → Terminator κ :=
  Terminator.replace (Operand.map σ)

abbrev Block.map (σ : Reg → Reg) : Block κ ω → Block κ ω := Block.replace (Operand.map σ)

@[simp] theorem Inst.legal_replace (h : Operand κ → Operand κ) (i : Inst κ ω) :
    (i.replace h).legal = i.legal := by
  cases i <;> rfl

@[simp] theorem Inst.dst_replace (h : Operand κ → Operand κ) (i : Inst κ ω) :
    (i.replace h).dst = i.dst := by
  cases i <;> rfl

theorem Inst.operands_replace (h : Operand κ → Operand κ) (i : Inst κ ω) :
    (i.replace h).operands = i.operands.map h := by
  cases i <;> rfl

theorem Terminator.operands_replace (h : Operand κ → Operand κ) (t : Terminator κ) :
    (t.replace h).operands = t.operands.map h := by
  cases t with
  | ret v => cases v <;> rfl
  | _ => rfl

end HeroTools.Llvm
