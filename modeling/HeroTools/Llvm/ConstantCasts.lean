import HeroTools.Lib.Trees
import HeroTools.Llvm.Pieces
import HeroTools.Llvm.Semantics

/-! `handleConstExpr` of `OmpHostPointerLegalizer.cpp`: constants with casts between host
and device. -/

namespace HeroTools.Llvm
open Trees
variable {ω : Type} {dl : DataLayout}

/-! ## Constants -/

/-- A value is a global, a number, null and the like; an expression is one that is no cast. -/
inductive ConstLabel
  | value (name : String)
  | cast (op : CastOp) (srcTy dstTy : Ty)
  | expr (name : String)
  | aggregate
deriving DecidableEq, Repr

/-- Constants are uniqued: equal ones are the same. -/
abbrev Const := Rose ConstLabel

namespace ConstLabel

def isExpr : ConstLabel → Bool
  | .cast _ _ _ => true
  | .expr _ => true
  | _ => false

def isAddrspacecast : ConstLabel → Bool
  | .cast .addrspacecast _ _ => true
  | _ => false

def hostDevice (dl : DataLayout) : ConstLabel → Bool
  | .cast .addrspacecast PST PDT =>
    hostDevicePair dl PST.getPointerAddressSpace PDT.getPointerAddressSpace
  | _ => false

def IPI (dl : DataLayout) : ConstLabel → ConstLabel
  | .cast _ _ PDT => .cast .inttoptr (.int (dl.allocBits PDT)) PDT
  | a => a

def PII (dl : DataLayout) : ConstLabel → ConstLabel
  | .cast _ PST PDT => .cast .ptrtoint PST (.int (dl.allocBits PDT))
  | a => a

end ConstLabel

/-- The constants `replaced` were replaced, one after the other, wherever they were used. -/
def replaceAllUsesWith (dl : DataLayout) (replaced : List Const) (C : Const) : Const :=
  splitAll (ConstLabel.IPI dl) (ConstLabel.PII dl) replaced C

/-- The constants that are replaced, in order. An operand is read after those before it are
done. -/
def handleConstExpr (dl : DataLayout) : Nat → Const → List Const
  | 0, _ => []
  | n + 1, CE =>
    -- a cast between other address spaces: its operand is not looked at
    if CE.label.isAddrspacecast && !CE.label.hostDevice dl then []
    else CE.children.foldl
      (fun replaced op =>
        let NCE := replaceAllUsesWith dl replaced op
        if NCE.label.isExpr then replaced ++ handleConstExpr dl n NCE else replaced)
      (if CE.label.hostDevice dl then [CE] else [])

/-- The loop over the operands `os` of all instructions. -/
def handleOperands (dl : DataLayout) (os : List Const) : List Const :=
  os.foldl
    (fun replaced op =>
      let CE := replaceAllUsesWith dl replaced op
      if CE.label.isExpr then
        replaced ++ handleConstExpr dl (weight (ConstLabel.hostDevice dl) CE) CE
      else replaced)
    []

/-! ## Operands -/

section Consts
variable {κ : Type}

def Operand.consts : Operand κ → List κ
  | .reg _ => []
  | .const c => [c]

def Inst.consts (i : Inst κ ω) : List κ := i.operands.flatMap Operand.consts

def Phi.consts (p : Phi κ) : List κ := p.incoming.flatMap fun x => x.2.consts

def Terminator.consts (t : Terminator κ) : List κ := t.operands.flatMap Operand.consts

def Block.consts (b : Block κ ω) : List κ :=
  b.phis.flatMap Phi.consts ++ b.insts.flatMap Inst.consts ++ b.term.consts

def Func.consts (f : Func κ ω) : List κ := f.blocks.flatMap Block.consts

end Consts

/-! ## What constants denote -/

/-- The bits of values, and what the other constants make of those of their operands. -/
structure ConstSem where
  value : String → Nat
  expr : String → List Nat → Nat
  aggregate : List Nat → Nat

def denoteNode (dl : DataLayout) (S : ConstSem) : ConstLabel → List (Option Nat) → Option Nat
  | .value x, [] => some (S.value x)
  | .cast op PST PDT, [some v] =>
    if castIsValid op PST PDT then some (castBits dl op PST PDT v) else none
  | .expr e, vs => (vs.mapM id).map (S.expr e)
  | .aggregate, vs => (vs.mapM id).map S.aggregate
  | _, _ => none

/-- An ill-formed constant denotes nothing. -/
def denote (dl : DataLayout) (S : ConstSem) : Const → Option Nat := fold (denoteNode dl S)

/-! ## Modules -/

structure ConstModule (ω : Type) extends Module Const ω where
  initializers : List Const

namespace ConstModule

def operands (M : ConstModule ω) : List Const := M.functions.flatMap Func.consts

def consts (M : ConstModule ω) : List Const := M.operands ++ M.initializers

def expanded (E : LowerMemIntrinsics Const ω) (dl : DataLayout) (M : ConstModule ω) :
    ConstModule ω where
  functions := M.functions.map (expandIntrinsics E dl M.intrinsics)
  intrinsics := M.intrinsics
  initializers := M.initializers

def visited (dl : DataLayout) (M : ConstModule ω) : ConstModule ω where
  functions := M.functions.map (visitFunc dl)
  intrinsics := M.intrinsics
  initializers := M.initializers

def patch (E : LowerMemIntrinsics Const ω) (dl : DataLayout) (M : ConstModule ω) :
    Const → Const :=
  replaceAllUsesWith dl (handleOperands dl ((M.expanded E dl).visited dl).operands)

def runOnModule (E : LowerMemIntrinsics Const ω) (dl : DataLayout) (M : ConstModule ω) :
    ConstModule ω where
  toModule := Llvm.runOnModule E dl (M.patch E dl) M.toModule
  initializers := M.initializers.map (M.patch E dl)

end ConstModule

end HeroTools.Llvm
