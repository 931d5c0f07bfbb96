import HeroTools.Lib.Words
import Mathlib.Data.List.Basic

/-! The data of the Carfield and Occamy kernel modules: regions, DMA buffers, IOMMU
regions, and what the kernel has handed to the driver. -/

namespace HeroTools.Driver

abbrev PAGE_SHIFT : Nat := 12
abbrev PAGE_SIZE : Nat := 4096

theorem shiftRight_page (x : Nat) : x >>> PAGE_SHIFT = x / PAGE_SIZE :=
  Nat.shiftRight_eq_div_pow x 12

abbrev ENOMEM : Int := 12
abbrev EFAULT : Int := 14
abbrev EINVAL : Int := 22

structure SharedMem where
  pbase : Nat
  vbase : Nat
  size : Nat
deriving DecidableEq, Repr

/-- `struct card_ioctl_arg`, the same as the library's `struct driver_ioctl_arg`. -/
structure CardIoctlArg where
  size : Nat
  resultPhysAddr : Nat
  resultVirtAddr : Nat
  mmapId : Int
deriving DecidableEq, Repr

/-- `struct hero_iommu_region`, less its never written `pages`. -/
structure HeroIommuRegion where
  userAddr : Nat
  length : Nat
  iova : Nat
deriving DecidableEq, Repr

/-! ## The two boards -/

inductive Board
  | carfield
  | occamy
deriving DecidableEq, Repr

inductive CarfieldMem
  | idmaMem
  | socCtrlMem
  | mboxesMem
  | ctrlRegsMem
  | gpioMem
  | l2Intl0Mem
  | l2Cont0Mem
  | l2Intl1Mem
  | l2Cont1Mem
  | safetyIslandMem
  | integerClusterMem
  | spatzClusterMem
  | l3Mem
  | pcieAxiBarMem
deriving DecidableEq, Repr

inductive OccamyMem
  | socCtrlMem
  | quadrantCtrlMem
  | clintMem
  | snitchClusterMem
  | spmWideMem
  | l3Mem
  | pcieAxiBarMem
deriving DecidableEq, Repr

def Board.Mem : Board → Type
  | .carfield => CarfieldMem
  | .occamy => OccamyMem

def Board.pcieAxiBarMem : (b : Board) → b.Mem
  | .carfield => CarfieldMem.pcieAxiBarMem
  | .occamy => OccamyMem.pcieAxiBarMem

/-! ## Selectors: `carfield_driver.h` and `occamy_driver.h` -/

/-- What a page offset names in `card_mmap`: a region, or the latest DMA buffer. -/
inductive Target (M : Type)
  | region (m : M)
  | dmaBufs
deriving DecidableEq, Repr

namespace Carfield
open CarfieldMem

@[match_pattern] abbrev SOC_CTRL_MMAP_ID : Nat := 0
@[match_pattern] abbrev DMA_BUFS_MMAP_ID : Nat := 1
@[match_pattern] abbrev L3_MMAP_ID : Nat := 2
@[match_pattern] abbrev MBOXES_MMAP_ID : Nat := 3
@[match_pattern] abbrev CTRL_REGS_MMAP_ID : Nat := 5
@[match_pattern] abbrev L2_INTL_0_MMAP_ID : Nat := 10
@[match_pattern] abbrev L2_CONT_0_MMAP_ID : Nat := 11
@[match_pattern] abbrev L2_INTL_1_MMAP_ID : Nat := 12
@[match_pattern] abbrev L2_CONT_1_MMAP_ID : Nat := 13
@[match_pattern] abbrev IDMA_MMAP_ID : Nat := 20
@[match_pattern] abbrev SAFETY_ISLAND_MMAP_ID : Nat := 100
@[match_pattern] abbrev INTEGER_CLUSTER_MMAP_ID : Nat := 200
@[match_pattern] abbrev SPATZ_CLUSTER_MMAP_ID : Nat := 300

def mmapTarget : Nat → Option (Target CarfieldMem)
  | SOC_CTRL_MMAP_ID => some (.region socCtrlMem)
  | MBOXES_MMAP_ID => some (.region mboxesMem)
  | L3_MMAP_ID => some (.region l3Mem)
  | CTRL_REGS_MMAP_ID => some (.region ctrlRegsMem)
  | L2_INTL_0_MMAP_ID => some (.region l2Intl0Mem)
  | L2_CONT_0_MMAP_ID => some (.region l2Cont0Mem)
  | L2_INTL_1_MMAP_ID => some (.region l2Intl1Mem)
  | L2_CONT_1_MMAP_ID => some (.region l2Cont1Mem)
  | SPATZ_CLUSTER_MMAP_ID => some (.region spatzClusterMem)
  | INTEGER_CLUSTER_MMAP_ID => some (.region integerClusterMem)
  | SAFETY_ISLAND_MMAP_ID => some (.region safetyIslandMem)
  | IDMA_MMAP_ID => some (.region idmaMem)
  | DMA_BUFS_MMAP_ID => some .dmaBufs
  | _ => none

def ptrToDevdataRegion : Int → Option CarfieldMem
  | .ofNat SOC_CTRL_MMAP_ID => some socCtrlMem
  | .ofNat MBOXES_MMAP_ID => some mboxesMem
  | .ofNat L3_MMAP_ID => some l3Mem
  | .ofNat CTRL_REGS_MMAP_ID => some ctrlRegsMem
  | .ofNat L2_INTL_0_MMAP_ID => some l2Intl0Mem
  | .ofNat L2_CONT_0_MMAP_ID => some l2Cont0Mem
  | .ofNat L2_INTL_1_MMAP_ID => some l2Intl1Mem
  | .ofNat L2_CONT_1_MMAP_ID => some l2Cont1Mem
  | .ofNat IDMA_MMAP_ID => some idmaMem
  | .ofNat SAFETY_ISLAND_MMAP_ID => some safetyIslandMem
  | .ofNat INTEGER_CLUSTER_MMAP_ID => some integerClusterMem
  | .ofNat SPATZ_CLUSTER_MMAP_ID => some spatzClusterMem
  | _ => none

end Carfield

namespace Occamy
open OccamyMem

@[match_pattern] abbrev SOC_CTRL_MMAP_ID : Nat := 0
@[match_pattern] abbrev DMA_BUFS_MMAP_ID : Nat := 1
@[match_pattern] abbrev L3_MMAP_ID : Nat := 2
@[match_pattern] abbrev QUADRANT_CTRL_MMAP_ID : Nat := 3
@[match_pattern] abbrev CLINT_MMAP_ID : Nat := 5
@[match_pattern] abbrev SNITCH_CLUSTER_MMAP_ID : Nat := 100
@[match_pattern] abbrev SCRATCHPAD_WIDE_MMAP_ID : Nat := 10

def mmapTarget : Nat → Option (Target OccamyMem)
  | SOC_CTRL_MMAP_ID => some (.region socCtrlMem)
  | QUADRANT_CTRL_MMAP_ID => some (.region quadrantCtrlMem)
  | CLINT_MMAP_ID => some (.region clintMem)
  | SNITCH_CLUSTER_MMAP_ID => some (.region snitchClusterMem)
  | SCRATCHPAD_WIDE_MMAP_ID => some (.region spmWideMem)
  | L3_MMAP_ID => some (.region l3Mem)
  | DMA_BUFS_MMAP_ID => some .dmaBufs
  | _ => none

def ptrToDevdataRegion : Int → Option OccamyMem
  | .ofNat SOC_CTRL_MMAP_ID => some socCtrlMem
  | .ofNat QUADRANT_CTRL_MMAP_ID => some quadrantCtrlMem
  | .ofNat CLINT_MMAP_ID => some clintMem
  | .ofNat SNITCH_CLUSTER_MMAP_ID => some snitchClusterMem
  | .ofNat SCRATCHPAD_WIDE_MMAP_ID => some spmWideMem
  | .ofNat L3_MMAP_ID => some l3Mem
  | _ => none

end Occamy

def Board.mmapTarget : (b : Board) → Nat → Option (Target b.Mem)
  | .carfield => Carfield.mmapTarget
  | .occamy => Occamy.mmapTarget

def Board.ptrToDevdataRegion : (b : Board) → Int → Option b.Mem
  | .carfield => Carfield.ptrToDevdataRegion
  | .occamy => Occamy.ptrToDevdataRegion

/-! ## Commands -/

inductive Command
  | dmaAlloc
  | memInfos
  | iommuMap
deriving DecidableEq, Repr

/-- `_IOWR(type, nr, size)` for an argument of 8 bytes, the size of the pointer type the
Carfield header names. -/
def iowr (type nr : Nat) : Nat := 3 <<< 30 ||| 8 <<< 16 ||| type <<< 8 ||| nr

def Board.ioctlDmaAlloc : Board → Nat
  | .carfield => iowr 'C'.toNat 1
  | .occamy => 0

def Board.ioctlMemInfos : Board → Nat
  | .carfield => iowr 'C'.toNat 2
  | .occamy => 1

def Board.ioctlIommuMap : Board → Option Nat
  | .carfield => some (iowr 'C'.toNat 3)
  | .occamy => none

def Board.command (b : Board) (cmd : Nat) : Option Command :=
  if cmd = b.ioctlDmaAlloc then some .dmaAlloc
  else if some cmd = b.ioctlIommuMap then some .iommuMap
  else if cmd = b.ioctlMemInfos then some .memInfos
  else none

@[simp] theorem Board.command_dmaAlloc (b : Board) :
    b.command b.ioctlDmaAlloc = some .dmaAlloc := if_pos rfl

@[simp] theorem Board.command_memInfos (b : Board) :
    b.command b.ioctlMemInfos = some .memInfos := by cases b <;> decide

@[simp] theorem Board.command_iommuMap :
    Board.carfield.command (iowr 'C'.toNat 3) = some .iommuMap := by decide

/-! ## State -/

/-- The translations of an IOMMU domain, from I/O page to physical page. -/
abbrev IommuDomain := Nat → Option Nat

def IommuDomain.translate (d : IommuDomain) (iova : Nat) : Option Nat :=
  (d (iova / PAGE_SIZE)).map fun f => f * PAGE_SIZE + iova % PAGE_SIZE

structure PageBlock where
  virt : Nat
  phys : Nat
  order : Nat
deriving DecidableEq, Repr

def PageBlock.bytes (p : PageBlock) : Nat := PAGE_SIZE * 2 ^ p.order

/-- The private data of one device, and the pages the driver holds for it. The last two
fields exist on Carfield only; nothing of Occamy reads or writes them. -/
structure State (b : Board) where
  mem : b.Mem → SharedMem
  testHead : List SharedMem
  blocks : List PageBlock
  pinned : List Nat
  iommuRegionList : List HeroIommuRegion
  iommuDomain : IommuDomain

def State.probed {b : Board} (mem : b.Mem → SharedMem) : State b where
  mem := mem
  testHead := []
  blocks := []
  pinned := []
  iommuRegionList := []
  iommuDomain := fun _ => none

end HeroTools.Driver
