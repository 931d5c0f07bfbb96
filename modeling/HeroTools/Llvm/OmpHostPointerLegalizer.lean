import HeroTools.Llvm.HostPointerVisitor

/-! The module pass `OmpHostPointerLegalizer`: memory intrinsics, then instructions, then
constants. -/

namespace HeroTools.Llvm
variable {κ ω : Type}

structure Module (κ ω : Type) where
  functions : List (Func κ ω)
  intrinsics : List (IntrinsicId × String)

/-- `LowerMemIntrinsics` of LLVM: given a function and the intrinsic in front of the cursor,
the function with a loop in the place of the intrinsic. -/
structure LowerMemIntrinsics (κ ω : Type) where
  expandMemCpyAsLoop : Cursor κ ω → Func κ ω
  expandMemMoveAsLoop : Cursor κ ω → Func κ ω
  expandMemSetAsLoop : Cursor κ ω → Func κ ω

/-! ## Users of an intrinsic -/

def Inst.isCallOf (IID : IntrinsicId) (fn : String) : Inst κ ω → Bool
  | .mem _ kind _ _ => kind == .intrinsic IID fn
  | _ => false

def Inst.addressSpaces : Inst κ ω → List Nat
  | .load _ _ as _ => [as]
  | .store _ _ as _ => [as]
  | .mem _ _ ass _ => ass
  | _ => []

def Func.seek (p : Inst κ ω → Bool) (f : Func κ ω) : Option (Cursor κ ω) :=
  match f.blocks.dropWhile fun b => !b.insts.any p with
  | [] => none
  | b :: bs => some {
      name := f.name
      args := f.args
      next := f.fresh
      before := f.blocks.takeWhile fun b => !b.insts.any p
      phis := b.phis
      done := b.insts.takeWhile fun i => !p i
      todo := b.insts.dropWhile fun i => !p i
      term := b.term
      after := bs }

/-- The `switch` of `expandMemIntrinsicUses`: how a use is expanded, if it is. -/
def expansion (E : LowerMemIntrinsics κ ω) : IntrinsicId → Option (Cursor κ ω → Func κ ω)
  | .memcpy => some E.expandMemCpyAsLoop
  | .memmove => some E.expandMemMoveAsLoop
  | .memset => some E.expandMemSetAsLoop
  | _ => none

/-- A use is left as it is when all its pointers are device pointers. -/
def toExpand (dl : DataLayout) (IID : IntrinsicId) (fn : String) (i : Inst κ ω) : Bool :=
  i.isCallOf IID fn && !i.addressSpaces.all (· == dl.DeviceAS)

/-- One use in a function; the uses are independent of each other, the first one is taken. -/
def expandUse (E : LowerMemIntrinsics κ ω) (dl : DataLayout) (IID : IntrinsicId) (fn : String)
    (f : Func κ ω) : Func κ ω :=
  match expansion E IID, f.seek (toExpand dl IID fn) with
  | some expand, some c => expand c
  | _, _ => f

def expandMemIntrinsicUses (E : LowerMemIntrinsics κ ω) (dl : DataLayout) (IID : IntrinsicId)
    (fn : String) (f : Func κ ω) : Func κ ω :=
  (expandUse E dl IID fn)^[f.insts.countP (Inst.isCallOf IID fn)] f

/-! ## The pass -/

/-- What happens to one function. A constant expression that is replaced is replaced
everywhere, so the last phase is one map `g` on constants. -/
def legalize (E : LowerMemIntrinsics κ ω) (dl : DataLayout) (g : κ → κ)
    (intrinsics : List (IntrinsicId × String)) (f : Func κ ω) : Func κ ω :=
  (visitFunc dl (intrinsics.foldl (fun f F => expandMemIntrinsicUses E dl F.1 F.2 f) f)).replace
    (Operand.patch g)

def runOnModule (E : LowerMemIntrinsics κ ω) (dl : DataLayout) (g : κ → κ) (M : Module κ ω) :
    Module κ ω where
  functions := M.functions.map (legalize E dl g M.intrinsics)
  intrinsics := M.intrinsics

end HeroTools.Llvm
