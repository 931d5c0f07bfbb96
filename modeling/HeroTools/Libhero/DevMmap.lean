import HeroTools.Lib.Calls
import HeroTools.Libhero.Arena

/-! `hero_dev_mmap` of the three back ends, over every outcome of the calls that it makes. -/

namespace HeroTools.Libhero.DevMmap
open Driver

structure SubDev where
  vAddr : Nat
  pAddr : Nat
  size : Nat
  alias_ : String
  next : Nat
deriving DecidableEq, Repr

inductive Tail
  | localMemsTail
  | l2MemsTail
deriving DecidableEq, Repr

inductive Call
  | openDev
  | ioctlMemInfos (deviceFd : Int) (mmapId : Nat)
  | mmap (deviceFd : Int) (mmapId length : Nat)
  | malloc (tail : Tail)
  | heapInit (l : Level) (arena : Region)

/-- A file descriptor, a size and a base, an address, what a new node happens to hold, and the
result of `hero_dev_l2_init` or `hero_dev_l3_init`. -/
abbrev Answer : Call → Type
  | .openDev => Int
  | .ioctlMemInfos _ _ => Option (Nat × Nat)
  | .mmap _ _ _ => Option Nat
  | .malloc _ => Option SubDev
  | .heapInit _ _ => Int

abbrev Event := Answered Answer

/-- There is nothing behind a negative descriptor, no mapping is empty, and the heap is created
by the code in `hero_api.c`. -/
def Valid : Event → Prop
  | ⟨.openDev, _⟩ => True
  | ⟨.ioctlMemInfos deviceFd _, r⟩ => deviceFd < 0 → r = none
  | ⟨.mmap deviceFd _ length, r⟩ => deviceFd < 0 ∨ length = 0 → r = none
  | ⟨.malloc _, _⟩ => True
  | ⟨.heapInit _ arena, r⟩ => ∃ (H : O1Heap) (h : Heap H) (home : Region),
      h.startPhy = arena.phys ∧ h.startVirt = arena.virt ∧ h.size = arena.size ∧
        r = (h.init home).1

def Ok : Event → Prop
  | ⟨.openDev, deviceFd⟩ => 0 ≤ deviceFd
  | ⟨.ioctlMemInfos _ _, r⟩ => r.isSome
  | ⟨.mmap _ _ _, r⟩ => r.isSome
  | ⟨.malloc _, r⟩ => r.isSome
  | ⟨.heapInit _ _, r⟩ => r = 0

instance : DecidablePred Ok
  | ⟨.openDev, deviceFd⟩ => Int.decLe 0 deviceFd
  | ⟨.ioctlMemInfos _ _, r⟩ => inferInstanceAs (Decidable (r.isSome = true))
  | ⟨.mmap _ _ _, r⟩ => inferInstanceAs (Decidable (r.isSome = true))
  | ⟨.malloc _, r⟩ => inferInstanceAs (Decidable (r.isSome = true))
  | ⟨.heapInit _ _, r⟩ => Int.instDecidableEq r 0

/-- A call whose result decides over what `hero_dev_mmap` returns: all but the lookups. -/
def Checked : Event → Prop
  | ⟨.ioctlMemInfos _ _, _⟩ => False
  | _ => True

def sysOpen : Prog Answer Int := Prog.ask (A := Answer) Call.openDev

def ioctlMemInfos (deviceFd : Int) (mmapId : Nat) : Prog Answer (Option (Nat × Nat)) :=
  Prog.ask (A := Answer) (Call.ioctlMemInfos deviceFd mmapId)

def mmap (deviceFd : Int) (mmapId length : Nat) : Prog Answer (Option Nat) :=
  Prog.ask (A := Answer) (Call.mmap deviceFd mmapId length)

def malloc (tail : Tail) : Prog Answer (Option SubDev) := Prog.ask (A := Answer) (Call.malloc tail)

def heapInit (l : Level) (arena : Region) : Prog Answer Int :=
  Prog.ask (A := Answer) (Call.heapInit l arena)

/-! ## `driver.h` -/

abbrev EIO : Int := 5

/-- `u` is what `*size_b` and `*p_addr` hold before. -/
def driverLookupMem (deviceFd : Int) (mmapId : Nat) (u : Nat × Nat) :
    Prog Answer (Int × Nat × Nat) := do
  match ← ioctlMemInfos deviceFd mmapId with
  | none => pure (-1, u)
  | some chunk => pure (0, chunk)

def driverMmap (deviceFd : Int) (mmapId length : Nat) : Prog Answer (Int × Nat) := do
  match ← mmap deviceFd mmapId length with
  | none => pure (- EIO, 0)
  | some res => pure (0, res)

def driverLookupMmap (deviceFd : Int) (mmapId : Nat) : Prog Answer (Int × Nat) := do
  let (_, phyLen, _) ← driverLookupMem deviceFd mmapId (0, 0)
  driverMmap deviceFd mmapId phyLen

/-! ## `spatz_cluster.c`, `safety_island.c`, `snitch_cluster.c` -/

abbrev SOC_CTRL_MMAP_ID : Nat := 0
abbrev L3_MMAP_ID : Nat := 2
abbrev MBOXES_MMAP_ID : Nat := 3
abbrev CTRL_REGS_MMAP_ID : Nat := 5
abbrev L2_INTL_0_MMAP_ID : Nat := 10
abbrev L2_CONT_0_MMAP_ID : Nat := 11
abbrev L2_INTL_1_MMAP_ID : Nat := 12
abbrev L2_CONT_1_MMAP_ID : Nat := 13
abbrev IDMA_MMAP_ID : Nat := 20
abbrev SAFETY_ISLAND_MMAP_ID : Nat := 100
abbrev SPATZ_CLUSTER_MMAP_ID : Nat := 300
abbrev QUADRANT_CTRL_MMAP_ID : Nat := 3
abbrev CLINT_MMAP_ID : Nat := 5
abbrev SCRATCHPAD_WIDE_MMAP_ID : Nat := 10
abbrev SNITCH_CLUSTER_MMAP_ID : Nat := 100

structure Uninit where
  cluster : Nat × Nat
  l2 : Nat × Nat
  l3 : Nat × Nat

/-- The pointers to the mapped regions, by the numbers of these; what has been put in the two
lists of `dev`; and where the heaps are. -/
structure Opened where
  ptr : Nat → Nat
  localMems : Option SubDev
  globalMems : Option SubDev
  l2Heap : Option Region
  l3Heap : Option Region

def Opened.noneYet (ptr : Nat → Nat) : Opened := ⟨ptr, none, none, none, none⟩

/-- The regions of a back end, its memories among them, and what OpenMP is given. -/
structure BackEnd where
  ids : List Nat
  cluster : Nat
  l2 : Nat
  clusterSize : Nat → Nat
  clusterAlias : String
  global : Nat
  globalAlias : String

def lookupMmaps (deviceFd : Int) : List Nat → (Nat → Nat) → Prog Answer (Option (Nat → Nat))
  | [], ptr => pure (some ptr)
  | id :: ids, ptr => do
    let (err, res) ← driverLookupMmap deviceFd id
    if err ≠ 0 then pure none
    else lookupMmaps deviceFd ids (Function.update ptr id res)

def SubDev.fill (d : SubDev) (vAddr pAddr size : Nat) (alias_ : String) : SubDev :=
  { d with vAddr := vAddr, pAddr := 0xFFFFFFFF &&& pAddr, size := size % 2 ^ 32,
           alias_ := alias_ }

def memAt (vAddr : Nat) (chunk : Nat × Nat) : Region := ⟨vAddr, chunk.2, chunk.1⟩

/-- The two Carfield back ends, which differ in their regions. -/
def carfieldHeroDevMmap (b : BackEnd) (u : Uninit) : Prog Answer (Int × Opened) := do
  let deviceFd ← sysOpen
  match ← lookupMmaps deviceFd b.ids fun _ => 0 with
  | none => pure (-1, .noneYet fun _ => 0)
  | some ptr =>
    let dev := Opened.noneYet ptr
    let localMemsTail ← malloc .localMemsTail
    let (_, cluster) ← driverLookupMem deviceFd b.cluster u.cluster
    match localMemsTail with
    | none => pure (-1, dev)
    | some d =>
      -- `next` is left as it is
      let d := d.fill (ptr b.cluster) cluster.2 (b.clusterSize cluster.1) b.clusterAlias
      let dev := { dev with localMems := some d }
      let (_, l2) ← driverLookupMem deviceFd b.l2 u.l2
      match ← malloc .l2MemsTail with
      | none => pure (-1, dev)
      | some d =>
        let d := { d.fill (ptr b.l2) l2.2 (l2.1 / 2) b.globalAlias with next := 0 }
        let l2Heap := (memAt (ptr b.l2) l2).arena O1HEAP_ALIGNMENT
        let dev := { dev with globalMems := some d, l2Heap := some l2Heap }
        let err ← heapInit .l2 l2Heap
        if err ≠ 0 then pure (err, dev)
        else
          let (_, l3) ← driverLookupMem deviceFd L3_MMAP_ID u.l3
          let l3Heap := (memAt (ptr L3_MMAP_ID) l3).arena O1HEAP_ALIGNMENT
          let err ← heapInit .l3 l3Heap
          pure (err, { dev with l3Heap := some l3Heap })

/-- The cluster's size is replaced by a constant. -/
def spatzCluster : BackEnd where
  ids := [SOC_CTRL_MMAP_ID, MBOXES_MMAP_ID, CTRL_REGS_MMAP_ID, L2_INTL_0_MMAP_ID,
    L2_CONT_0_MMAP_ID, L2_INTL_1_MMAP_ID, L2_CONT_1_MMAP_ID, L3_MMAP_ID, IDMA_MMAP_ID,
    SPATZ_CLUSTER_MMAP_ID]
  cluster := SPATZ_CLUSTER_MMAP_ID
  l2 := L2_INTL_0_MMAP_ID
  clusterSize _ := 0x20000
  clusterAlias := "l1_safety_island"
  global := L2_INTL_0_MMAP_ID
  globalAlias := "l2_intl_0"

def safetyIsland : BackEnd where
  ids := [SOC_CTRL_MMAP_ID, CTRL_REGS_MMAP_ID, L2_INTL_0_MMAP_ID, L2_CONT_0_MMAP_ID,
    L2_INTL_1_MMAP_ID, L2_CONT_1_MMAP_ID, L3_MMAP_ID, IDMA_MMAP_ID, SAFETY_ISLAND_MMAP_ID]
  cluster := SAFETY_ISLAND_MMAP_ID
  l2 := L2_INTL_0_MMAP_ID
  clusterSize size := size
  clusterAlias := "l1_safety_island"
  global := L2_INTL_0_MMAP_ID
  globalAlias := "l2_intl_0"

def snitchCluster : BackEnd where
  ids := [SNITCH_CLUSTER_MMAP_ID, QUADRANT_CTRL_MMAP_ID, SOC_CTRL_MMAP_ID, L3_MMAP_ID,
    SCRATCHPAD_WIDE_MMAP_ID, CLINT_MMAP_ID]
  cluster := SNITCH_CLUSTER_MMAP_ID
  l2 := SCRATCHPAD_WIDE_MMAP_ID
  clusterSize size := size
  clusterAlias := "l1_snitch_cluster"
  global := L3_MMAP_ID
  globalAlias := "l3"

def intOr (a b : Int) : Int := (BitVec.ofInt 32 a ||| BitVec.ofInt 32 b).toInt

def orLookupMmaps (deviceFd : Int) : List Nat → Int → (Nat → Nat) →
    Prog Answer (Int × (Nat → Nat))
  | [], err, ptr => pure (err, ptr)
  | id :: ids, err, ptr => do
    let (e, res) ← driverLookupMmap deviceFd id
    orLookupMmaps deviceFd ids (intOr err e) (Function.update ptr id res)

def occamyHeroDevMmap (b : BackEnd) (u : Uninit) : Prog Answer (Int × Opened) := do
  let deviceFd ← sysOpen
  if ¬ 0 < deviceFd then pure (-1, .noneYet fun _ => 0)
  else
    let (err, ptr) ← orLookupMmaps deviceFd b.ids 0 fun _ => 0
    let dev := Opened.noneYet ptr
    if err ≠ 0 then pure (-1, dev)
    else
      let localMemsTail ← malloc .localMemsTail
      let (_, cluster) ← driverLookupMem deviceFd b.cluster u.cluster
      match localMemsTail with
      | none => pure (-1, dev)
      | some d =>
        let d := d.fill (ptr b.cluster) cluster.2 (b.clusterSize cluster.1) b.clusterAlias
        let dev := { dev with localMems := some d }
        let (_, l2) ← driverLookupMem deviceFd b.l2 u.l2
        let l2Heap := (memAt (ptr b.l2) l2).arena O1HEAP_ALIGNMENT
        let dev := { dev with l2Heap := some l2Heap }
        let err ← heapInit .l2 l2Heap
        if err ≠ 0 then pure (err, dev)
        else
          let (_, l3) ← driverLookupMem deviceFd L3_MMAP_ID u.l3
          let l3Heap := (memAt (ptr L3_MMAP_ID) l3).arena O1HEAP_ALIGNMENT
          let dev := { dev with l3Heap := some l3Heap }
          let err ← heapInit .l3 l3Heap
          if err ≠ 0 then pure (err, dev)
          else
            match ← malloc .l2MemsTail with
            | none => pure (-1, dev)
            | some d =>
              let d := { d.fill (ptr L3_MMAP_ID) l3.2 (l3.1 / 2) b.globalAlias with next := 0 }
              pure (err, { dev with globalMems := some d })

inductive Target
  | spatzCluster
  | safetyIsland
  | snitchCluster
deriving DecidableEq, Repr

def Target.backEnd : Target → BackEnd
  | spatzCluster => DevMmap.spatzCluster
  | safetyIsland => DevMmap.safetyIsland
  | snitchCluster => DevMmap.snitchCluster

def heroDevMmap : Target → Uninit → Prog Answer (Int × Opened)
  | .spatzCluster => carfieldHeroDevMmap DevMmap.spatzCluster
  | .safetyIsland => carfieldHeroDevMmap DevMmap.safetyIsland
  | .snitchCluster => occamyHeroDevMmap DevMmap.snitchCluster

end HeroTools.Libhero.DevMmap
