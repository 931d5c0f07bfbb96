import HeroTools.Lib.Outline
import Mathlib.Logic.Function.Basic

/-! The Carfield back ends of `libhero`: how the Safety Island and the Spatz cluster are
isolated, reset and started through their registers. -/

namespace HeroTools.Libhero

/-- The mapped regions whose registers the functions write, under the names of the
pointers to them. -/
inductive IoRegion
  | carSocCtrl
  | carMboxes
  | carSafetyIsland
  | carSpatzCluster
deriving DecidableEq, Repr

abbrev Reg := IoRegion × Nat

/-- The registers of a clock domain. Only the Safety Island fetches from addresses that
its registers hold. -/
structure Domain where
  rst : Reg
  isolate : Reg
  isolateStatus : Reg
  clkEn : Reg
  fetchEnable : Option Reg
  bootAddr : List Reg
  nodup : ([rst, isolate, isolateStatus, clkEn] ++ (fetchEnable.toList ++ bootAddr)).Nodup

/-- The registers, and which of them have been written since the last reset. -/
structure Hw where
  val : Reg → Nat
  written : List Reg

namespace Hw

def writew (d : Domain) (value : Nat) (r : Reg) (s : Hw) : Hw where
  val := Function.update s.val r value
  written := if r = d.rst then [] else r :: s.written

def follow (d : Domain) (s : Hw) : Hw :=
  { s with val := Function.update s.val d.isolateStatus (s.val d.isolate) }

end Hw

/-- What the functions do to registers: `poll` is `while (readw(r) != value);`, and `delay`
the loop that counts to 16. -/
inductive RegOp
  | writew (value : Nat) (r : Reg)
  | poll (r : Reg) (value : Nat)
  | fence
  | delay

def RegOp.step (d : Domain) : RegOp → Hw → Option Hw
  | writew value r, s => some (s.writew d value r)
  | poll r value, s => if s.val r = value then some s else none
  | fence, s => some s
  | delay, s => some s

/-- One caller, and hardware in which the status may follow at any time. -/
def device (d : Domain) {F : Type} (body : F → List RegOp) : Straight Hw RegOp F where
  body := body
  step := RegOp.step d
  env := Hw.follow d

def setIsolate (d : Domain) (status : Nat) : List RegOp :=
  [.writew status d.isolate, .fence, .poll d.isolateStatus status]

/-! ## `safety_island.c` -/

namespace SafetyIsland

abbrev RST : Reg := (.carSocCtrl, 0x28)
abbrev ISOLATE : Reg := (.carSocCtrl, 0x40)
abbrev ISOLATE_STATUS : Reg := (.carSocCtrl, 0x58)
abbrev CLK_EN : Reg := (.carSocCtrl, 0x70)
abbrev BOOT_ADDR : Reg := (.carSocCtrl, 0xcc)
abbrev FETCH_ENABLE : Reg := (.carSocCtrl, 0xb8)
abbrev SAFETY_ISLAND_BOOT_ADDR : Reg := (.carSafetyIsland, 0x00200000 + 0x0)

def domain : Domain where
  rst := RST
  isolate := ISOLATE
  isolateStatus := ISOLATE_STATUS
  clkEn := CLK_EN
  fetchEnable := some FETCH_ENABLE
  bootAddr := [BOOT_ADDR, SAFETY_ISLAND_BOOT_ADDR]
  nodup := by decide

def carSetIsolate (status : Nat) : List RegOp := setIsolate domain status

def heroDevReset : List RegOp :=
  carSetIsolate 1 ++ (
  .writew 0 FETCH_ENABLE :: .fence ::
  .writew 0 CLK_EN :: .fence ::
  .writew 1 RST :: .fence :: .delay ::
  .writew 0 RST :: .fence ::
  .writew 1 CLK_EN :: .fence ::
  carSetIsolate 0)

def heroDevExeStart : List RegOp :=
  carSetIsolate 1 ++ (
  .writew 0 CLK_EN :: .fence ::
  .writew 1 RST :: .fence :: .delay ::
  .writew 0 RST :: .fence ::
  .writew 1 CLK_EN :: .fence ::
  (carSetIsolate 0 ++ [
  .writew 0x60010080 BOOT_ADDR,
  .writew 0x60010080 SAFETY_ISLAND_BOOT_ADDR, .fence,
  .writew 1 FETCH_ENABLE]))

inductive Call
  | heroDevReset
  | heroDevExeStart
deriving DecidableEq, Repr

def Call.body : Call → List RegOp
  | .heroDevReset => SafetyIsland.heroDevReset
  | .heroDevExeStart => SafetyIsland.heroDevExeStart

def island : Straight Hw RegOp Call := device domain Call.body

end SafetyIsland

/-! ## `spatz_cluster.c` -/

namespace SpatzCluster

abbrev RST : Reg := (.carSocCtrl, 0x34)
abbrev ISOLATE : Reg := (.carSocCtrl, 0x4c)
abbrev ISOLATE_STATUS : Reg := (.carSocCtrl, 0x64)
abbrev CLK_EN : Reg := (.carSocCtrl, 0x7c)
abbrev PERIPHERAL_CLUSTER_BOOT_CONTROL : Reg := (.carSpatzCluster, 0x20000 + 0x58)
abbrev HOST_2_SPATZ_0_INT_SND_SET : Reg := (.carMboxes, 0x204)
abbrev HOST_2_SPATZ_0_INT_SND_CLR : Reg := (.carMboxes, 0x208)
abbrev HOST_2_SPATZ_0_INT_SND_EN : Reg := (.carMboxes, 0x20c)
abbrev HOST_2_SPATZ_0_INT_RCV_CLR : Reg := (.carMboxes, 0x248)
abbrev HOST_2_SPATZ_1_INT_SND_SET : Reg := (.carMboxes, 0x304)
abbrev HOST_2_SPATZ_1_INT_SND_CLR : Reg := (.carMboxes, 0x308)
abbrev HOST_2_SPATZ_1_INT_SND_EN : Reg := (.carMboxes, 0x30c)
abbrev HOST_2_SPATZ_1_INT_RCV_CLR : Reg := (.carMboxes, 0x348)

def domain : Domain where
  rst := RST
  isolate := ISOLATE
  isolateStatus := ISOLATE_STATUS
  clkEn := CLK_EN
  fetchEnable := none
  bootAddr := []
  nodup := by decide

def carSetIsolate (status : Nat) : List RegOp := setIsolate domain status

def heroDevReset : List RegOp :=
  carSetIsolate 1 ++ (.fence ::
  .writew 0 CLK_EN :: .fence ::
  .writew 0 HOST_2_SPATZ_0_INT_SND_EN ::
  .writew 1 HOST_2_SPATZ_0_INT_SND_CLR ::
  .writew 1 HOST_2_SPATZ_0_INT_RCV_CLR ::
  .writew 0 HOST_2_SPATZ_1_INT_SND_EN ::
  .writew 1 HOST_2_SPATZ_1_INT_SND_CLR ::
  .writew 1 HOST_2_SPATZ_1_INT_RCV_CLR ::
  .writew 1 RST :: .fence :: .delay ::
  .writew 0 RST :: .fence ::
  .writew 1 CLK_EN :: .fence ::
  carSetIsolate 0)

def heroDevExeStart : List RegOp :=
  carSetIsolate 1 ++ (
  .writew 0 CLK_EN :: .fence ::
  .writew 1 RST :: .fence :: .delay ::
  .writew 0 RST :: .fence ::
  .writew 1 CLK_EN :: .fence ::
  (carSetIsolate 0 ++ [
  .writew 0x78000000 PERIPHERAL_CLUSTER_BOOT_CONTROL, .fence,
  .writew 1 HOST_2_SPATZ_0_INT_SND_EN,
  .writew 1 HOST_2_SPATZ_0_INT_SND_SET,
  .writew 1 HOST_2_SPATZ_1_INT_SND_EN,
  .writew 1 HOST_2_SPATZ_1_INT_SND_SET]))

/-- `close` at its end touches no register. -/
def heroDevMunmap : List RegOp :=
  carSetIsolate 1 ++ (
  .writew 0 CLK_EN :: .fence ::
  .writew 1 RST :: .fence :: .delay ::
  .writew 0 RST :: .fence ::
  .writew 1 CLK_EN :: .fence ::
  carSetIsolate 0)

inductive Call
  | heroDevReset
  | heroDevExeStart
  | heroDevMunmap
deriving DecidableEq, Repr

def Call.body : Call → List RegOp
  | .heroDevReset => SpatzCluster.heroDevReset
  | .heroDevExeStart => SpatzCluster.heroDevExeStart
  | .heroDevMunmap => SpatzCluster.heroDevMunmap

def cluster : Straight Hw RegOp Call := device domain Call.body

end SpatzCluster

/-! ## The law of the registers -/

/-- A domain under reset is isolated and has no clock. -/
def Sound (d : Domain) (s : Hw) : Prop :=
  s.val d.rst = 1 → s.val d.isolateStatus = 1 ∧ s.val d.clkEn = 0

structure Lawful (d : Domain) (s s' : Hw) : Prop where
  sound : Sound d s'
  released : s.val d.isolate ≠ 0 ∧ s'.val d.isolate = 0 ∨
    s.val d.isolateStatus ≠ 0 ∧ s'.val d.isolateStatus = 0 →
      s'.val d.rst = 0 ∧ s'.val d.clkEn = 1
  fetch_off : ∀ r ∈ d.fetchEnable, s.val d.rst = 1 → s'.val d.rst = 0 → s'.val r = 0
  booted : ∀ r ∈ d.fetchEnable, s.val r ≠ 1 → s'.val r = 1 → ∀ b ∈ d.bootAddr, b ∈ s.written

def FetchOff (d : Domain) (s : Hw) : Prop := ∀ r ∈ d.fetchEnable, s.val r = 0

end HeroTools.Libhero
