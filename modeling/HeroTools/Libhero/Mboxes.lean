import HeroTools.Ringbuf.InMemory
import Mathlib.Data.Set.Disjoint
import Mathlib.Order.CompletePartialOrder
import Mathlib.Order.Interval.Set.Basic

/-! `hero_dev_alloc_mboxes` and `hero_dev_free_mboxes`: three mailboxes in six blocks of the L2
heap, and what the host and the device do with them in between. -/

namespace HeroTools.Libhero.Mboxes
open HeroTools Ringbuf

/-! ## The heap -/

structure Block where
  addr : Nat
  size : Nat
deriving DecidableEq, Repr

def Block.bytes (c : Block) : Set Nat := Set.Ico c.addr (c.addr + c.size)

/-- `o1heap`, which keeps its own records in the memory it manages, next to the blocks in
use. These are apart, and large enough; what is written to them leaves the heap in order, and no
call changes what they hold. -/
structure O1HeapMem where
  Heap : (Nat → UInt8) → List Block → Prop
  allocate : (Nat → UInt8) → Nat → Nat × (Nat → UInt8)
  free : (Nat → UInt8) → Nat → Nat → UInt8
  apart : ∀ {mem cs}, Heap mem cs → cs.Pairwise fun c d => Disjoint c.bytes d.bytes
  bound : ∀ {mem cs}, Heap mem cs → ∀ c ∈ cs, c.addr + c.size ≤ 2 ^ 64
  written : ∀ {mem mem' cs}, Heap mem cs →
    (∀ x, (∀ c ∈ cs, x ∉ c.bytes) → mem' x = mem x) → Heap mem' cs
  allocated : ∀ {mem cs} n, Heap mem cs → (allocate mem n).1 ≠ 0 →
    ∃ k, n ≤ k ∧ Heap (allocate mem n).2 (⟨(allocate mem n).1, k⟩ :: cs)
  allocate_keeps : ∀ {mem cs} n, Heap mem cs → ∀ c ∈ cs, ∀ x ∈ c.bytes,
    (allocate mem n).2 x = mem x
  freed : ∀ {mem cs c}, Heap mem cs → c ∈ cs → Heap (free mem c.addr) (cs.erase c)
  free_keeps : ∀ {mem cs c}, Heap mem cs → c ∈ cs → ∀ d ∈ cs.erase c, ∀ x ∈ d.bytes,
    free mem c.addr x = mem x

structure Bases where
  startVirt : Nat
  startPhy : Nat
  virt_lt : startVirt < 2 ^ 64
  phy_lt : startPhy < 2 ^ 64

/-- The bytes of L2 go by their host addresses; a device address names the byte that is as
far from `l2_heap_start_phy`. -/
def Bases.xlat (b : Bases) : View → Nat → Nat
  | .host, vAddr => vAddr
  | .device, pAddr => (pAddr + 2 ^ 64 - b.startPhy + b.startVirt) % 2 ^ 64

def Bases.pAddr (b : Bases) (result : Nat) : Nat :=
  (result + 2 ^ 64 - b.startVirt + b.startPhy) % 2 ^ 64

variable (H : O1HeapMem) (b : Bases)

def heroDevL2Malloc (mem : Nat → UInt8) (sizeB : Nat) : Nat × Nat × (Nat → UInt8) :=
  let (result, mem) := H.allocate mem sizeB
  (result, b.pAddr result, mem)

def heroDevL2Free (mem : Nat → UInt8) (vAddr : Nat) : Nat → UInt8 := H.free mem vAddr

/-! ## `hero_api.c` -/

inductive Mailbox
  | h2aMbox
  | a2hMbox
  | rbMbox
deriving DecidableEq, Repr

def each {α : Type*} (h2a a2h rb : α) : Mailbox → α
  | .h2aMbox => h2a
  | .a2hMbox => a2h
  | .rbMbox => rb

/-- `dev->mboxes.x_mbox` and `dev->mboxes.x_mbox_mem.p_addr`. -/
structure Ptr where
  mbox : Nat
  pAddr : Nat
deriving DecidableEq, Repr

def Ptr.side (p : Ptr) : View → Nat
  | .host => p.mbox
  | .device => p.pAddr

/-- `sizeof(struct ring_buf)` and `sizeof(uint32_t)*16`. -/
abbrev RING_BUF_SIZE : Nat := 32
abbrev DATA_SIZE : Nat := 64

structure Made where
  ptr : Ptr
  allocated : List Nat
  mem : Nat → UInt8

def madeMbox (mem : Nat → UInt8) : Made :=
  let (mbox, pAddr, mem) := heroDevL2Malloc H b mem RING_BUF_SIZE
  let (dataV, dataP, mem) := heroDevL2Malloc H b mem DATA_SIZE
  let mem := storeLe mem (mbox + 24) 8 dataP
  let mem := storeLe mem (mbox + 16) 8 dataV
  ⟨⟨mbox, pAddr⟩, [mbox, dataV], mem⟩

/-- The header is written also where its allocation has failed: `none`, a fault. -/
def allocMbox (mem : Nat → UInt8) : Option Made :=
  let made := madeMbox H b mem
  if made.ptr.mbox = 0 then none else some made

structure Opened where
  mboxes : Mailbox → Ptr
  allocated : List Nat
  mem : Nat → UInt8

abbrev ENOMEM : Int := 12

/-- With what it returns. The three pointers are looked at after they were written through, and
are compared to 0 as unsigned numbers. -/
def heroDevAllocMboxes (mem : Nat → UInt8) : Option (Int × Opened) :=
  (allocMbox H b mem).bind fun h2a =>
    (allocMbox H b h2a.mem).bind fun a2h =>
      (allocMbox H b a2h.mem).map fun rb =>
        let mboxes := each h2a.ptr a2h.ptr rb.ptr
        let allocated := h2a.allocated ++ a2h.allocated ++ rb.allocated
        if a2h.ptr.mbox < 0 ∨ h2a.ptr.mbox < 0 ∨ rb.ptr.mbox < 0 then
          (ENOMEM, ⟨mboxes, allocated, rb.mem⟩)
        else
          let mem := memRbInit rb.mem a2h.ptr.mbox 16 4
          let mem := memRbInit mem h2a.ptr.mbox 16 4
          let mem := memRbInit mem rb.ptr.mbox 16 4
          (0, ⟨mboxes, allocated, mem⟩)

def freeMbox (mem : Nat → UInt8) (p : Ptr) : List Nat × (Nat → UInt8) :=
  let dataV := loadLe mem (p.mbox + 16) 8
  let mem := heroDevL2Free H mem dataV
  let mem := heroDevL2Free H mem p.mbox
  ([dataV, p.mbox], mem)

def heroDevFreeMboxes (mboxes : Mailbox → Ptr) (mem : Nat → UInt8) :
    List Nat × (Nat → UInt8) :=
  let (h2a, mem) := freeMbox H mem (mboxes .h2aMbox)
  let (a2h, mem) := freeMbox H mem (mboxes .a2hMbox)
  let (rb, mem) := freeMbox H mem (mboxes .rbMbox)
  (h2a ++ a2h ++ rb, mem)

/-! ## Puts and gets -/

structure L2 where
  mem : Nat → UInt8
  prod : Mailbox → PutPc
  cons : Mailbox → GetPc

def L2.cell (s : L2) (m : Mailbox) : Cell := ⟨s.mem, s.prod m, s.cons m⟩

def L2.set (s : L2) (m : Mailbox) (c : Cell) : L2 :=
  ⟨c.mem, Function.update s.prod m c.prod, Function.update s.cons m c.cons⟩

def L2.start (mem : Nat → UInt8) : L2 := ⟨mem, fun _ => .idle, fun _ => .idle⟩

structure Done where
  mbox : Mailbox
  act : Act
  event : Event
  after : L2

def exec (mboxes : Mailbox → Ptr) (s : L2) (i : Mailbox × Act) : Option (Done × L2) :=
  (memExec b.xlat (mboxes i.1).side (s.cell i.1) i.2).map fun ec =>
    (⟨i.1, i.2, ec.1, s.set i.1 ec.2⟩, s.set i.1 ec.2)

/-- Host and device put to and get from the three mailboxes, one put and one get on each at
a time, and the loads and stores of all of them interleaved. -/
def mailboxes (mboxes : Mailbox → Ptr) : Lts L2 Done := .ofExec (exec b mboxes)

def ring (mboxes : Mailbox → Ptr) (mem : Nat → UInt8) (m : Mailbox) : RingBuf :=
  loadRing mem (mboxes m).mbox

def own (r : Opened) (m : Mailbox) : Act → Set Nat
  | .producer =>
    Set.Ico (r.mboxes m).mbox ((r.mboxes m).mbox + 4) ∪
      Set.Ico (ring r.mboxes r.mem m).dataV ((ring r.mboxes r.mem m).dataV + DATA_SIZE)
  | .consumer => Set.Ico ((r.mboxes m).mbox + 8) ((r.mboxes m).mbox + 12)
  | _ => ∅

def labelOf (m : Mailbox) (d : Done) : Option (Fifo.Label (List UInt8)) :=
  if d.mbox = m then label d.event else none

end HeroTools.Libhero.Mboxes
