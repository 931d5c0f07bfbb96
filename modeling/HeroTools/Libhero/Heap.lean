import HeroTools.Driver.Mmap

/-! The heaps of the device memories: opening a device places them and creates their
managers, and allocation translates addresses by the bases it finds. -/

namespace HeroTools.Libhero
open Driver

/-- `o1heap`: an instance only ever gives out addresses of the arena it was made for. -/
structure O1Heap where
  Instance : Type
  init : Nat → Nat → Option Instance
  allocate : Instance → Nat → Nat × Instance
  free : Instance → Nat → Instance
  base : Instance → Nat
  size : Instance → Nat
  arena_init : ∀ {b n i}, init b n = some i → base i = b ∧ size i = n
  arena_allocate : ∀ i n, base (allocate i n).2 = base i ∧ size (allocate i n).2 = size i
  arena_free : ∀ i p, base (free i p) = base i ∧ size (free i p) = size i
  allocate_mem : ∀ i n, (allocate i n).1 ≠ 0 →
    base i ≤ (allocate i n).1 ∧ (allocate i n).1 < base i + size i

abbrev O1HEAP_ALIGNMENT : Nat := 32

/-- A device memory as `hero_dev_mmap` finds it: what the driver says of it, and where it
was mapped. -/
structure Region where
  virt : Nat
  phys : Nat
  size : Nat
deriving DecidableEq, Repr

def Region.remap (r : Region) : Remap := ⟨r.virt, r.phys >>> PAGE_SHIFT, pageAlign r.size⟩

/-- `l2_heap_manager`, `l2_heap_start_phy`, `l2_heap_start_virt` and `l2_heap_size`, or the
same for L3. The region that the manager was created on is ghost. -/
structure Heap (H : O1Heap) where
  manager : Option H.Instance
  startPhy : Nat
  startVirt : Nat
  size : Nat
  home : Region

inductive Level
  | l2
  | l3
deriving DecidableEq, Repr

structure Process (H : O1Heap) where
  heap : Level → Heap H
  maps : List Remap

variable {H : O1Heap}

/-! ## `hero_api.c` -/

def Heap.init (h : Heap H) (r : Region) : Int × Heap H :=
  match h.manager with
  | some _ => (0, h)
  | none =>
    if h.startPhy = 0 ∨ h.size = 0 then (-1, h)
    else match H.init h.startVirt h.size with
      | none => (-ENOMEM, h)
      | some i => (0, { h with manager := some i, home := r })

def Heap.malloc (h : Heap H) (sizeB : Nat) : Option (Nat × Nat × Heap H) :=
  h.manager.map fun i =>
    let (result, i') := H.allocate i sizeB
    (result, (result + 2 ^ 64 - h.startVirt + h.startPhy) % 2 ^ 64,
      { h with manager := some i' })

def Heap.free (h : Heap H) (vAddr : Nat) : Option (Heap H) :=
  h.manager.map fun i => { h with manager := some (H.free i vAddr) }

def Process.set (s : Process H) (l : Level) (h : Heap H) : Process H :=
  { s with heap := Function.update s.heap l h }

def heroDevL2Malloc (s : Process H) (sizeB : Nat) : Option (Nat × Nat × Process H) :=
  ((s.heap .l2).malloc sizeB).map fun (v, p, h) => (v, p, s.set .l2 h)

def heroDevL3Malloc (s : Process H) (sizeB : Nat) : Option (Nat × Nat × Process H) :=
  ((s.heap .l3).malloc sizeB).map fun (v, p, h) => (v, p, s.set .l3 h)

def heroDevL2Free (s : Process H) (vAddr : Nat) : Option (Process H) :=
  ((s.heap .l2).free vAddr).map (s.set .l2)

def heroDevL3Free (s : Process H) (vAddr : Nat) : Option (Process H) :=
  ((s.heap .l3).free vAddr).map (s.set .l3)

/-! ## `spatz_cluster.c`, `safety_island.c`, `snitch_cluster.c` -/

def Heap.place (h : Heap H) (r : Region) : Heap H :=
  { h with
    startPhy := (r.phys + alignUp 64 (r.size / 2) O1HEAP_ALIGNMENT) % 2 ^ 64
    startVirt := (r.virt + alignUp 64 (r.size / 2) O1HEAP_ALIGNMENT) % 2 ^ 64
    size := r.size / 2 }

def Process.openHeap (s : Process H) (l : Level) (r : Region) : Int × Process H :=
  let (err, h) := ((s.heap l).place r).init r
  (err, s.set l h)

/-- `hero_dev_mmap`: the mappings of the other regions come first; unless one of them
fails, both heaps are placed and their managers created. -/
def heroDevMmap (s : Process H) (others : List Remap) (mems : Option (Region × Region)) :
    Int × Process H :=
  match mems with
  | none => (-1, { s with maps := s.maps ++ others })
  | some (l2, l3) =>
    let s := { s with maps := s.maps ++ (others ++ [l2.remap, l3.remap]) }
    let (err, s) := s.openHeap .l2 l2
    if err ≠ 0 then (err, s) else s.openHeap .l3 l3

/-- `hero_dev_munmap` frees what it is given (the mailboxes, on Occamy) and closes the
device, whose mappings stay. -/
def heroDevMunmap (s : Process H) : List Nat → Option (Process H)
  | [] => some s
  | v :: vs => (heroDevL2Free s v).bind fun s => heroDevMunmap s vs

/-! ## Processes -/

inductive ApiCall
  | mmap (others : List Remap) (mems : Option (Region × Region))
  | munmap (freed : List Nat)
  | malloc (l : Level) (sizeB : Nat)
  | free (l : Level) (vAddr : Nat)

def heroDevMalloc (s : Process H) : Level → Nat → Option (Nat × Nat × Process H)
  | .l2 => heroDevL2Malloc s
  | .l3 => heroDevL3Malloc s

def heroDevFree (s : Process H) : Level → Nat → Option (Process H)
  | .l2 => heroDevL2Free s
  | .l3 => heroDevL3Free s

structure Region.Valid (r : Region) : Prop where
  virt_le : r.virt + pageAlign r.size ≤ 2 ^ 64
  phys_le : r.phys + r.size ≤ 2 ^ 64

def AreasApart (m m' : Remap) : Prop :=
  Disjoint (Set.Ico m.addr (m.addr + m.size)) (Set.Ico m'.addr (m'.addr + m'.size))

/-- One thread of calls; the kernel maps at fresh addresses, and a call that follows a null
manager does not return. -/
def process (H : O1Heap) : Lts (Process H) ApiCall where
  step s c s' := match c with
    | .mmap others mems => s' = (heroDevMmap s others mems).2 ∧ s'.maps.Pairwise AreasApart ∧
        ∀ l2 l3, mems = some (l2, l3) → l2.Valid ∧ l3.Valid
    | .munmap freed => heroDevMunmap s freed = some s'
    | .malloc l sizeB => ∃ v p, heroDevMalloc s l sizeB = some (v, p, s')
    | .free l vAddr => heroDevFree s l vAddr = some s'

def Process.start : Process H where
  heap := fun _ => ⟨none, 0, 0, 0, ⟨0, 0, 0⟩⟩
  maps := []

def Process.backing (s : Process H) (v : Nat) : Option Nat :=
  s.maps.findSome? fun m => m.backing v

/-- A successful allocation stores what backs the address it returns. -/
def MallocRight (s : Process H) : ApiCall → Prop
  | .malloc l sizeB => ∀ v p s', heroDevMalloc s l sizeB = some (v, p, s') → v ≠ 0 →
      s.backing v = some p
  | _ => True

/-- The bases are as far apart as the address and the first page of the mapping that the
manager was created on. -/
def Heap.AtHome (h : Heap H) : Prop :=
  (h.startPhy + h.home.virt) % 2 ^ 64 =
    (h.startVirt + h.home.phys / PAGE_SIZE * PAGE_SIZE) % 2 ^ 64

def BasesKept (s : Process H) : ApiCall → Prop
  | .malloc l sizeB => ∀ v p s', heroDevMalloc s l sizeB = some (v, p, s') → v ≠ 0 →
      (s.heap l).AtHome
  | _ => True

end HeroTools.Libhero
