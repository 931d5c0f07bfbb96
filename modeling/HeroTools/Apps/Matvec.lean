import HeroTools.Apps.Fdotp
import HeroTools.Lib.Dma
import HeroTools.Lib.Lts

/-! The matrix-vector product of `matvec.h`: rows are fetched by DMA into one of two buffers
while the cores work on the rows in the other. -/

namespace HeroTools.Apps
open Finset

/-! ## `matvec.h` -/

inductive Target
  | occamy
  | spatz
deriving DecidableEq, Repr

def CORES : Target → Nat
  | .occamy => 8
  | .spatz => 2

abbrev sizeofDTYPE : Nat := 4
abbrev MAX_ELEM : Nat := (128 - 32) * 1024 / sizeofDTYPE

def imin (a b : Int) : Int := if a < b then a else b

def u32 (x : Int) : Nat := (x % 2 ^ 32).toNat

/-- The arguments, and what a caller promises: the size is accepted, and the arrays lie
within the 32-bit addresses of the device, none of them at 0. -/
structure Args where
  target : Target
  n : Nat
  d : Nat
  xoutP : Nat
  xP : Nat
  wP : Nat
  n_pos : 1 ≤ n
  d_pos : 1 ≤ d
  size_ok : 9 * n ≤ MAX_ELEM
  xout_pos : 1 ≤ xoutP
  x_pos : 1 ≤ xP
  w_pos : 1 ≤ wP
  x_fits : xP + sizeofDTYPE * n ≤ 2 ^ 32
  w_fits : wP + sizeofDTYPE * (n * d) ≤ 2 ^ 32

/-- The buffers of the L1 memory, each from its own `snrt_l1alloc`. -/
inductive Buf
  | xL1
  | wRowL1 (k : Nat)
deriving DecidableEq, Repr

/-- A call of `hero_dma_1d_async`: the source address and the size are in bytes. -/
structure Transfer where
  dst : Buf
  src : Nat
  size : Nat
deriving DecidableEq, Repr

inductive Pc
  | check
  | guard
  | init
  | dmaX
  | dmaW
  | test
  | wait
  | fetch
  | parallel (todo : List Nat)
  | next
  | exit (ret : Int)
deriving DecidableEq, Repr

/-- `I` and `it` of the outer loop, the buffers with the transfers that are under way, and
what has been stored in `xout`. -/
structure State (R : Type) where
  pc : Pc
  I : Nat
  it : Nat
  l1 : Engine Buf Nat R
  xout : Nat → Option R

inductive Event
  | tau
  | dma (t : Transfer)
  | copy (c : Copy Buf Nat)
  | kernel (i : Nat)
deriving DecidableEq, Repr

namespace Args

def cores (a : Args) : Nat := CORES a.target

def len (a : Args) : Buf → Nat
  | .xL1 => a.n
  | .wRowL1 _ => 2 * a.n

def rowsLeft (a : Args) (I : Nat) : Int := (a.d - I : Int).bmod (2 ^ 32)

/-- The transfers: `x`, two rows of `w`, and the rows of the next turn. -/
def transferX (a : Args) : Transfer :=
  { dst := .xL1, src := a.xP, size := u32 (a.n * sizeofDTYPE) }

def transferW (a : Args) : Transfer :=
  { dst := .wRowL1 0, src := a.wP, size := u32 (u32 (a.n * 2) * sizeofDTYPE) }

def transferNext (a : Args) (I it : Nat) : Transfer :=
  { dst := .wRowL1 ((it + 1) % 2)
    src := u32 (a.wP + u32 (u32 (a.n * sizeofDTYPE) * u32 (I + a.cores)))
    size := u32 (u32 (a.n * u32 (imin (a.rowsLeft I - a.cores) a.cores)) * sizeofDTYPE) }

end Args

section
variable {R : Type}

def Transfer.start (t : Transfer) (l1 : Engine Buf Nat R) : Engine Buf Nat R :=
  l1.start t.dst (fun k => t.src + sizeofDTYPE * k) (t.size / sizeofDTYPE)

variable [CommRing R]

def fillRows (a : Args) (l1 : Engine Buf Nat R) : Engine Buf Nat R :=
  { l1 with buf := fun b k =>
      if k < a.n then
        if b = .wRowL1 1 then (k : R)
        else if b = .wRowL1 0 then ((k % 2 : Nat) : R)
        else l1.buf b k
      else l1.buf b k }

/-- The core that runs the program. The parallel loop ends when all its iterations have. -/
def cpu (a : Args) (s : State R) : Option (Event × State R) :=
  match s.pc with
  | .check => some (.tau, { s with pc := if a.n * 9 > MAX_ELEM then .exit (-1) else .guard })
  | .guard =>
    some (.tau, { s with pc :=
      if a.n = 0 ∨ a.d = 0 ∨ a.xoutP = 0 ∨ a.xP = 0 ∨ a.wP = 0 then .exit 0 else .init })
  | .init => some (.tau, { s with pc := .dmaX, l1 := fillRows a s.l1 })
  | .dmaX =>
    some (.dma a.transferX, { s with pc := .dmaW, l1 := a.transferX.start s.l1 })
  | .dmaW =>
    some (.dma a.transferW,
      { s with pc := .test, it := 0, I := 0, l1 := a.transferW.start s.l1 })
  | .test => some (.tau, { s with pc := if s.I < a.d then .wait else .exit 0 })
  | .wait => if s.l1.pending = [] then some (.tau, { s with pc := .fetch }) else none
  | .fetch =>
    if 2 < a.rowsLeft s.I then
      some (.dma (a.transferNext s.I s.it),
        { s with
          pc := .parallel (List.range a.cores)
          l1 := (a.transferNext s.I s.it).start s.l1 })
    else some (.tau, { s with pc := .parallel (List.range a.cores) })
  | .parallel todo => if todo = [] then some (.tau, { s with pc := .next }) else none
  | .next => some (.tau, { s with pc := .test, it := s.it + 1, I := s.I + a.cores })
  | .exit _ => none

/-- `fdotp_32b`, taken as exact: what core `i` computes from the buffers. -/
def kernelValue (a : Args) (s : State R) (i : Nat) : R :=
  (fdotpNaive32b (s.l1.buf .xL1) (fun j => s.l1.buf (.wRowL1 (s.it % 2)) (i * a.n + j)) a.n).c

def core (a : Args) (i : Nat) (s : State R) : Option (Event × State R) :=
  match s.pc with
  | .parallel todo =>
    if i ∈ todo then
      if s.I + i ≥ a.d then some (.tau, { s with pc := .parallel (todo.erase i) })
      else
        some (.kernel i,
          { s with
            pc := .parallel (todo.erase i)
            xout := Function.update s.xout (i + s.I) (some (kernelValue a s i)) })
    else none
  | _ => none

def engine (mem : Nat → R) (c : Copy Buf Nat) (s : State R) : Option (Event × State R) :=
  if c ∈ s.l1.pending then some (.copy c, { s with l1 := s.l1.deliver mem c }) else none

inductive Agent
  | cpu
  | core (i : Nat)
  | engine (c : Copy Buf Nat)

def exec (a : Args) (mem : Nat → R) (s : State R) : Agent → Option (Event × State R)
  | .cpu => cpu a s
  | .core i => core a i s
  | .engine c => engine mem c s

/-- All interleavings of the program, the iterations of its parallel loop and the engine, over
a memory that holds the element at each address. -/
def matvec (a : Args) (mem : Nat → R) : Lts (State R) Event := Lts.ofExec (exec a mem)

def matvecStart (l1 : Buf → Nat → R) : State R where
  pc := .check
  I := 0
  it := 0
  l1 := ⟨l1, []⟩
  xout := fun _ => none

/-! ## What it is for -/

def xAt (a : Args) (k : Nat) : Nat := a.xP + sizeofDTYPE * k

def wAt (a : Args) (r k : Nat) : Nat := a.wP + sizeofDTYPE * (a.n * r + k)

def rowDot (a : Args) (mem : Nat → R) (r : Nat) : R :=
  ∑ j ∈ range a.n, mem (xAt a j) * mem (wAt a r j)

def Transfer.InBounds (a : Args) (t : Transfer) : Prop :=
  (a.xP ≤ t.src ∧ t.src + t.size ≤ a.xP + sizeofDTYPE * a.n ∨
    a.wP ≤ t.src ∧ t.src + t.size ≤ a.wP + sizeofDTYPE * (a.n * a.d)) ∧
  t.size ≤ sizeofDTYPE * a.len t.dst

/-- What a step has to respect: transfers stay within the arrays and the buffers, none writes
what the parallel loop reads, and a kernel finds `x` and its row in the buffers, with nothing
more to come. -/
def StepOk (a : Args) (mem : Nat → R) (s : State R) : Event → Prop
  | .tau => True
  | .dma t => t.InBounds a
  | .copy c => ∀ todo, s.pc = .parallel todo → c.dst ≠ .xL1 ∧ c.dst ≠ .wRowL1 (s.it % 2)
  | .kernel i =>
    (i + 1) * a.n ≤ a.len (.wRowL1 (s.it % 2)) ∧
      s.l1.Quiet .xL1 ∧ s.l1.Quiet (.wRowL1 (s.it % 2)) ∧
      ∀ j < a.n, s.l1.buf .xL1 j = mem (xAt a j) ∧
        s.l1.buf (.wRowL1 (s.it % 2)) (i * a.n + j) = mem (wAt a (s.I + i) j)

/-- All runs respect this, come to an end, and leave the product in `xout`. -/
structure Computes (a : Args) (mem : Nat → R) (l1 : Buf → Nat → R) : Prop where
  steps : ∀ tr s, (matvec a mem).Run (matvecStart l1) tr s → ∀ p ∈ tr, StepOk a mem p.1 p.2
  product : ∀ tr s ret, (matvec a mem).Run (matvecStart l1) tr s → s.pc = .exit ret →
    ret = 0 ∧ ∀ r, s.xout r = if r < a.d then some (rowDot a mem r) else none
  progress : ∀ tr s, (matvec a mem).Run (matvecStart l1) tr s →
    (∃ ret, s.pc = .exit ret) ∨ ∃ e t, (matvec a mem).step s e t
  ends : ∃ N, ∀ tr s, (matvec a mem).Run (matvecStart l1) tr s → tr.length ≤ N

end

def MatvecCorrect (a : Args) : Prop :=
  ∀ (R : Type) [CommRing R] (mem : Nat → R) (l1 : Buf → Nat → R), Computes a mem l1

end HeroTools.Apps
