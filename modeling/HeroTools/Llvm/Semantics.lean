import HeroTools.Llvm.HostPointerVisitor
import Mathlib.Algebra.Order.Ring.Nat

/-! What the instructions of `Syntax` do: bit patterns in registers, one byte memory for
each address space, and a trace of all accesses. -/

namespace HeroTools.Llvm
variable {κ ω : Type}

/-- The data layout, the bits of constants, and the instructions that do not touch memory. -/
structure Lang (κ ω : Type) where
  dl : DataLayout
  const : κ → Nat
  other : ω → List Nat → Option Nat

inductive AccessKind
  | read
  | write
deriving DecidableEq, Repr

structure Access where
  kind : AccessKind
  as : Nat
  addr : Nat
  bytes : Nat
  value : Nat
deriving DecidableEq, Repr

structure State where
  regs : Reg → Option Nat
  mem : Nat → Nat → Nat
  trace : List Access

/-! ## Memory -/

def readLe (m : Nat → Nat) (w a : Nat) : Nat → Nat
  | 0 => 0
  | n + 1 => readLe m w a n + m ((a + n) % 2 ^ w) % 256 * 256 ^ n

def writeLe (m : Nat → Nat) (w a v : Nat) : Nat → Nat → Nat
  | 0 => m
  | n + 1 => Function.update (writeLe m w a v n) ((a + n) % 2 ^ w) (v / 256 ^ n % 256)

def State.load (dl : DataLayout) (s : State) (as a N : Nat) : Nat × State :=
  let a := a % 2 ^ dl.pointerBits as
  let n := (N + 7) / 8
  let v := readLe (s.mem as) (dl.pointerBits as) a n % 2 ^ N
  (v, { s with trace := s.trace ++ [⟨.read, as, a, n, v⟩] })

def State.store (dl : DataLayout) (s : State) (as a N v : Nat) : State :=
  let a := a % 2 ^ dl.pointerBits as
  let n := (N + 7) / 8
  let v := v % 2 ^ N
  { s with
    mem := Function.update s.mem as (writeLe (s.mem as) (dl.pointerBits as) a v n)
    trace := s.trace ++ [⟨.write, as, a, n, v⟩] }

/-! ## Instructions -/

def State.val (L : Lang κ ω) (s : State) : Operand κ → Option Nat
  | .reg r => s.regs r
  | .const c => some (L.const c)

def State.set (s : State) (r : Reg) (v : Nat) : State :=
  { s with regs := Function.update s.regs r (some v) }

def State.assign (s : State) (dst : Option Reg) (v : Nat) : State :=
  match dst with
  | none => s
  | some r => s.set r v

def castLanes (src dst : Nat) : Nat → Nat → Nat
  | 0, _ => 0
  | n + 1, v => v % 2 ^ src % 2 ^ dst + 2 ^ dst * castLanes src dst n (v / 2 ^ src)

/-- A bit cast keeps the bits; the other casts cut them off or fill them up with zeros, in
each element of a vector. -/
def castBits (dl : DataLayout) : CastOp → Ty → Ty → Nat → Nat
  | .bitcast, src, _, v => v % 2 ^ src.bits dl
  | _, .vec n src, .vec _ dst, v => castLanes (src.bits dl) (dst.bits dl) n v
  | _, src, dst, v => v % 2 ^ src.bits dl % 2 ^ dst.bits dl

inductive Support
  | load (N : Nat)
  | store (N : Nat)
deriving DecidableEq, Repr

def supportWidths : List Nat := [8, 16, 32, 64]

def support (callee : String) : Option Support :=
  supportWidths.findSome? fun N =>
    if callee = loadName N then some (.load N)
    else if callee = storeName N then some (.store N)
    else none

/-- A call of a support function; no other function is known here. -/
def execCall (L : Lang κ ω) (dst : Option Reg) (callee : String) (vs : List Nat) (s : State) :
    Option State :=
  match support callee, vs with
  | some (.load N), [a] =>
    let (v, s) := s.load L.dl L.dl.HostAS a N
    some (s.assign dst v)
  | some (.store N), [a, v] => some (s.store L.dl L.dl.HostAS a N v)
  | _, _ => none

def exec (L : Lang κ ω) : Inst κ ω → State → Option State
  | .load dst ty as ptr, s => do
    let a ← s.val L ptr
    let (v, s) := s.load L.dl as a (ty.bits L.dl)
    some (s.set dst v)
  | .store ty val as ptr, s => do
    let v ← s.val L val
    let a ← s.val L ptr
    some (s.store L.dl as a (ty.bits L.dl) v)
  | .cast dst op srcTy dstTy val, s => do
    let v ← s.val L val
    some (s.set dst (castBits L.dl op srcTy dstTy v))
  | .call dst callee _ _ args, s => do
    let vs ← args.mapM (s.val L)
    execCall L dst callee vs s
  | .mem _ _ _ _, _ => none
  | .other dst op ops, s => do
    let vs ← ops.mapM (s.val L)
    let v ← L.other op vs
    some (s.assign dst v)

def execInsts (L : Lang κ ω) : List (Inst κ ω) → State → Option State
  | [], s => some s
  | i :: is, s => (exec L i s).bind (execInsts L is)

/-! ## Blocks and runs -/

def phiValue (L : Lang κ ω) (prev : Option Nat) (s : State) (p : Phi κ) : Option Nat := do
  let l ← prev
  let v ← p.incoming.lookup l
  s.val L v

def execPhis (L : Lang κ ω) (prev : Option Nat) (phis : List (Phi κ)) (s : State) :
    Option State := do
  let vs ← phis.mapM (phiValue L prev s)
  some ((phis.zip vs).foldl (fun s pv => s.set pv.1.dst pv.2) s)

inductive Next
  | ret (v : Option Nat)
  | goto (l : Nat)
deriving DecidableEq, Repr

def next (L : Lang κ ω) (s : State) : Terminator κ → Option Next
  | .ret none => some (.ret none)
  | .ret (some v) => (s.val L v).map fun x => .ret (some x)
  | .br l => some (.goto l)
  | .condBr c t f => (s.val L c).map fun x => .goto (if x % 2 = 1 then t else f)
  | .switch v d cs => (s.val L v).map fun x => .goto ((cs.lookup x).getD d)
  | .unreachable => none

def execBlock (L : Lang κ ω) (b : Block κ ω) (prev : Option Nat) (s : State) :
    Option (Next × State) := do
  let s ← execPhis L prev b.phis s
  let s ← execInsts L b.insts s
  let nx ← next L s b.term
  some (nx, s)

inductive Outcome
  | illFormed
  | stuck
  | returned (v : Option Nat) (s : State)
  | running (l : Nat) (prev : Option Nat) (s : State)

def run (L : Lang κ ω) (f : Func κ ω) : Nat → Nat → Option Nat → State → Outcome
  | 0, l, prev, s => .running l prev s
  | n + 1, l, prev, s =>
    match f.blocks[l]?.bind fun b => execBlock L b prev s with
    | none => .stuck
    | some (.ret v, s) => .returned v s
    | some (.goto l', s) => run L f n l' (some l) s

def Func.enter (f : Func κ ω) (vals : Reg → Nat) (mem : Nat → Nat → Nat) : State where
  regs := fun r => if r ∈ f.args then some (vals r) else none
  mem := mem
  trace := []

/-- A function that the verifier rejects is not run. -/
def runFunc (L : Lang κ ω) (f : Func κ ω) (n : Nat) (vals : Reg → Nat)
    (mem : Nat → Nat → Nat) : Outcome :=
  if f.legal then run L f n 0 none (f.enter vals mem) else .illFormed

end HeroTools.Llvm
