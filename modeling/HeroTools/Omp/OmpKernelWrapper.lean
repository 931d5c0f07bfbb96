import HeroTools.Omp.Functions

/-! `wrapOmpKernels` and `wrapOmpOutlinedFuncs` of `OmpKernelWrapper.cpp`. -/

namespace HeroTools.Omp
open Llvm
variable {ω : Type} (U : UniqueNames) (dl : DataLayout)

def OMP_WRAPPER_PREFIX : String := "__wrapper_omp"

def OMP_WRAPPED_PREFIX : String := "__wrapped_omp"

/-! ## Arguments out of a buffer -/

/-- The parameters of types `tys`, from the `i`-th on, are loaded from a buffer whose elements
are of type `elt`. Registers from `r` on are free, three for each parameter. -/
def derefBuffer (elt : Ty) (as : Nat) (arg : Value) (r : Nat) : Nat → List Ty → List (Instr ω)
  | _, [] => []
  | i, ty :: tys =>
    .gep (r + 3 * i) elt as arg (.const (.int 32 i)) ::
      .bitcast (r + 3 * i + 1) (.data ty as) (.reg (r + 3 * i)) ::
      .load (r + 3 * i + 2) ty as (.reg (r + 3 * i + 1)) ::
      derefBuffer elt as arg r (i + 1) tys

def derefArgs (r n : Nat) : List Value := (List.range n).map fun i => .reg (r + 3 * i + 2)

/-! ## Kernels -/

def rawArgTy : Ty := .int 64

def kernelWrapperTy : FunctionType := ⟨.void, [rawArgTy], false, by decide⟩

/-- Register 0 holds the argument, register 1 the same as a host pointer. -/
def kernelWrapperBody (kernel : Fn) : List (Instr ω) :=
  .inttoptr 1 (.reg 0) dl.HostAS ::
    (derefBuffer rawArgTy dl.HostAS (.reg 1) 2 0 kernel.ty.params ++
      [.call none (.const (.fn kernel)) (derefArgs 2 kernel.ty.params.length), .ret])

def getOmpOffloadEntries (M : Module ω) : List Nat :=
  (List.range M.globals.length).filter fun e =>
    (M.globals[e]?).any fun G => startswith G.name ".omp_offloading.entry."

def getOmpOffloadFunction (offloadingEntry : Global) : Option Fn :=
  offloadingEntry.init.head?.bind Const.target

/-- `handleOperandChange`: the cast of the old kernel becomes one of the new one, wherever it
is used. -/
def setOmpOffloadFunction (offloadingEntry : Global) (newKernel : Fn) (M : Module ω) : Module ω :=
  match offloadingEntry.init with
  | .cast ty c :: _ => M.map (Const.replace (.cast ty c) (getPointerCast newKernel ty))
  | _ => M

def wrapKernel (M : Module ω) (entry : Global) (kernel : Fn) : Module ω :=
  let (M, wrapper) := M.create U kernelWrapperTy (OMP_WRAPPER_PREFIX ++ M.name kernel)
    (kernelWrapperBody dl kernel)
  let M := setOmpOffloadFunction entry wrapper M
  -- the kernel gives its name up before the wrapper asks for it
  let oldName := M.name kernel
  let M := M.setName U kernel (OMP_WRAPPED_PREFIX ++ oldName)
  M.setName U wrapper oldName

def wrapEntry (M : Module ω) (e : Nat) : Module ω :=
  match M.globals[e]? with
  | none => M
  | some entry =>
    match getOmpOffloadFunction entry with
    | none => M
    | some kernel => wrapKernel U dl M entry kernel

def wrapOmpKernels (M : Module ω) : Module ω := (getOmpOffloadEntries M).foldl (wrapEntry U dl) M

/-! ## Outlined functions -/

/-- An `i8**`; no type says what its pointers point to. -/
def argTy : Ty := .ptr dl.DeviceAS

def thdTy : Ty := .ptr dl.DeviceAS

def outlinedWrapperTy : FunctionType :=
  ⟨.void, [thdTy dl, thdTy dl, argTy dl], false, (by decide : 3 < 2 ^ 27)⟩

/-- Registers 0 and 1 hold the two thread ids, register 2 the buffer. -/
def outlinedWrapperBody (kernel : Fn) : List (Instr ω) :=
  derefBuffer (argTy dl) dl.DeviceAS (.reg 2) 3 0 (kernel.ty.params.drop 2) ++
    [.call none (.const (.fn kernel))
      ([.reg 0, .reg 1] ++ derefArgs 3 (kernel.ty.params.drop 2).length), .ret]

def Instr.uses (kfc : Fn) : Instr ω → Nat
  | .call _ callee args => (callee :: args).count (.const (.fn kfc))
  | _ => 0

/-- The calls by function and place, each once for every use. -/
def getKMPForkCalls (M : Module ω) : List (Fn × Nat) :=
  match M.getFunction "__kmpc_fork_call" with
  | none => []
  | some kfc => M.functions.flatMap fun f => (M.body f).zipIdx.flatMap fun i =>
    List.replicate (i.1.uses kfc) (f, i.2)

/-- A cast of `f` to the type of an operand that is itself a cast of a function. -/
def Value.pointerCast (casts : Casts) (f : Fn) : Value → Value
  | .reg r => match casts.lookup r with
    | some (ty, _) => .const (getPointerCast f ty)
    | none => .reg r
  | .const (.fn k) => .const (getPointerCast f (.function k.ty))
  | .const (.cast ty _) => .const (getPointerCast f ty)
  | v => v

def outlinedWrapper (M : Module ω) (kernel : Fn) : Module ω × Fn :=
  let funcName := OMP_WRAPPER_PREFIX ++ M.name kernel
  match M.getFunction funcName with
  | some wrapper => (M, wrapper)
  | none => M.create U (outlinedWrapperTy dl) funcName (outlinedWrapperBody dl kernel)

/-- A call needs three arguments, or the third one could not be read. -/
def wrapForkCall (M : Module ω) (CAI : Fn × Nat) : Option (Module ω) := do
  let i ← M.instr CAI
  let arg ← i.args[2]?
  let casts := casts (M.body CAI.1)
  match (arg.stripPointerCasts casts).target with
  | none => some M
  | some kernel =>
    let (M, wrapper) := outlinedWrapper U dl M kernel
    some (M.setArgOperand CAI 2 (arg.pointerCast casts wrapper))

/-- The list of uses that `getKMPForkCalls` goes through has no order of its own: `calls` are
the calls in some order. -/
def wrapOmpOutlinedFuncs (calls : List (Fn × Nat)) (M : Module ω) : Option (Module ω) :=
  calls.foldlM (wrapForkCall U dl) M

end HeroTools.Omp
