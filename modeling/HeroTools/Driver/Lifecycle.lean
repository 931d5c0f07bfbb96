import HeroTools.Lib.Ledger
import HeroTools.Lib.Lts

/-! The life cycle of the Carfield module: `card_platform_driver_init`, the probes and
removes of its devices, and `card_platform_driver_cleanup`. -/

namespace HeroTools.Driver.Lifecycle
open HeroTools

abbrev CARFIELD_GPIO_N_IRQS : Nat := 4

abbrev Errno := {e : Int // e < 0}

def ENOMEM : Errno := ⟨-12, by decide⟩
def EEXIST : Errno := ⟨-17, by decide⟩

abbrev Result := Except Errno Unit

abbrev Device := Nat

inductive PlatformDriver
  | cardPlatformDriver
  | spatzPlatformDriver
deriving DecidableEq, Repr

/-! ## Resources -/

/-- What a probe acquires that is not `devm`-managed. -/
inductive Kind
  | irq (i : Nat)
  | iommuDomain
  | iommuAttachment
  | cdev
  | device
deriving DecidableEq, Repr

/-- Probes are counted, and a resource is named after the probe whose private data hold
it. The `device` of a probe has the name `cardev-%d`, of which the class keeps one only, so
that `device_destroy` finds it by its number. -/
structure Resource where
  probe : Nat
  kind : Kind
deriving DecidableEq, Repr

/-! ## Probe -/

/-- How the kernel answers the calls of one probe. -/
structure ProbeCalls where
  devmKzallocDevData : Bool
  devmKzallocBuffer : Bool
  ofIrqGet : Nat → Bool
  requestIrq : Nat → Bool
  gpioMem : Bool
  socCtrlMem : Bool
  ofFindSpatz : Bool
  iommuPresent : Bool
  iommuDomainAlloc : Bool
  iommuAttachDevice : Result
  cdevAdd : Result
  deviceCreate : Result

/-- The loop over the GPIO interrupts. A request that fails is only logged. -/
def requestIrqs (n : Nat) (o : ProbeCalls) : List (Action Resource) :=
  (((List.range CARFIELD_GPIO_N_IRQS).filter o.requestIrq).map fun i => ⟨n, .irq i⟩).map
    .acquire

/-- The block for kernels from 6.5.0 on: `since65` is the condition
`LINUX_VERSION_CODE >= KERNEL_VERSION(6,5,0)`. -/
def getIommu (since65 : Bool) (n : Nat) (o : ProbeCalls) : List (Action Resource) × Result :=
  if since65 && o.iommuPresent then
    if o.iommuDomainAlloc then
      match o.iommuAttachDevice with
      | .error e => ([.acquire ⟨n, .iommuDomain⟩, .release ⟨n, .iommuDomain⟩], .error e)
      | .ok () => ([.acquire ⟨n, .iommuDomain⟩, .acquire ⟨n, .iommuAttachment⟩], .ok ())
    else ([], .error ENOMEM)
  else ([], .ok ())

def addChardev (n : Nat) (o : ProbeCalls) : List (Action Resource) × Result :=
  match o.cdevAdd with
  | .error e => ([], .error e)
  | .ok () =>
    match o.deviceCreate with
    | .error e => ([.acquire ⟨n, .cdev⟩, .release ⟨n, .cdev⟩], .error e)
    | .ok () => ([.acquire ⟨n, .cdev⟩, .acquire ⟨n, .device⟩], .ok ())

/-- The pointers that the probe follows without a check: the descriptors of the
interrupts, the registers it writes, the Spatz device. -/
def ProbeCalls.pointers (o : ProbeCalls) : Bool :=
  (List.range CARFIELD_GPIO_N_IRQS).all o.ofIrqGet && o.gpioMem && o.socCtrlMem &&
    o.ofFindSpatz

/-- `none` when the probe faults on a missing pointer. The interrupts are requested on every
platform: the preprocessor takes both names in `HERO_PLATFORM == NATIVE` for 0. -/
def cardPlatformDriverProbe (since65 : Bool) (n : Nat) (o : ProbeCalls) :
    Option (List (Action Resource) × Result) :=
  if !o.devmKzallocDevData then some ([], .error ENOMEM)
  else if !o.devmKzallocBuffer then some ([], .error ENOMEM)
  else if !o.pointers then none
  else
    let irqs := requestIrqs n o
    let iommu := getIommu since65 n o
    match iommu.2 with
    | .error e => some (irqs ++ iommu.1, .error e)
    | .ok () =>
      let chardev := addChardev n o
      some (irqs ++ iommu.1 ++ chardev.1, chardev.2)

/-! ## Remove -/

/-- The check of `spatz_dev` never fails: it is the address of a member of the device. -/
def cardPlatformDriverRemove (since65 : Bool) (n : Nat) : List (Action Resource) :=
  (if since65 then
    [.release ⟨n, .iommuAttachment⟩, .release ⟨n, .iommuDomain⟩]
  else []) ++ [.release ⟨n, .device⟩, .release ⟨n, .cdev⟩]

/-! ## The module -/

structure InitCalls where
  allocChrdevRegion : Result
  classCreate : Result
  registerSpatz : Bool
  registerCard : Bool

/-- What the kernel holds for the module. `bound` has the devices that are bound, the
latest first, each with the number of its probe. -/
structure Module where
  loaded : Bool
  chrdevRegion : Bool
  classCard : Bool
  drivers : Finset PlatformDriver
  totalDevices : Int
  bound : List (Device × Nat)
  held : Finset Resource
  probes : Nat
deriving DecidableEq

def Module.unloaded : Module where
  loaded := false
  chrdevRegion := false
  classCard := false
  drivers := ∅
  totalDevices := 0
  bound := []
  held := ∅
  probes := 0

/-- The kernel refuses a driver whose name is registered. -/
def platformDriverRegister (drivers : Finset PlatformDriver) (d : PlatformDriver) (ok : Bool) :
    Finset PlatformDriver :=
  if ok then insert d drivers else drivers

def classCreate (classCard : Bool) (answer : Result) : Result :=
  if classCard then .error EEXIST else answer

def cardPlatformDriverInit (s : Module) (o : InitCalls) : Module × Result :=
  match o.allocChrdevRegion with
  | .error e => (s, .error e)
  | .ok () =>
    match classCreate s.classCard o.classCreate with
    | .error e => ({ s with chrdevRegion := false }, .error e)
    | .ok () =>
      ({ s with
          loaded := true
          chrdevRegion := true
          classCard := true
          drivers := platformDriverRegister
            (platformDriverRegister s.drivers .spatzPlatformDriver o.registerSpatz)
            .cardPlatformDriver o.registerCard }, .ok ())

def removes (since65 : Bool) (bound : List (Device × Nat)) : List (Action Resource) :=
  bound.flatMap fun p => cardPlatformDriverRemove since65 p.2

/-- `registerSpatz` is the kernel's answer to the call on the Spatz driver, which
registers it once more. -/
def cardPlatformDriverCleanup (since65 : Bool) (s : Module) (registerSpatz : Bool) : Module :=
  { s with
    loaded := false
    chrdevRegion := false
    classCard := false
    drivers := platformDriverRegister (s.drivers.erase .cardPlatformDriver)
      .spatzPlatformDriver registerSpatz
    totalDevices := s.totalDevices - s.bound.length
    bound := []
    held := Action.settle s.held (removes since65 s.bound) }

/-! ## Runs -/

inductive Event
  | init (o : InitCalls)
  | probe (d : Device) (o : ProbeCalls)
  | remove (d : Device)
  | exit (registerSpatz : Bool)

/-- A step as its observer sees it: what was called, which resources it acquired and
released, what it returned and the state it left. -/
structure Report where
  event : Event
  actions : List (Action Resource)
  ret : Result
  after : Module

def Module.probed (s : Module) (d : Device) (actions : List (Action Resource)) :
    Result → Module
  | .error _ => { s with
      held := Action.settle s.held actions
      probes := s.probes + 1 }
  | .ok () => { s with
      held := Action.settle s.held actions
      probes := s.probes + 1
      bound := (d, s.probes) :: s.bound
      totalDevices := s.totalDevices + 1 }

def Module.removed (s : Module) (p : Device × Nat) (actions : List (Action Resource)) : Module :=
  { s with
    held := Action.settle s.held actions
    bound := s.bound.erase p
    totalDevices := s.totalDevices - 1 }

def execProbe (since65 : Bool) (s : Module) (d : Device) (o : ProbeCalls) :
    Option (List (Action Resource) × Result × Module) :=
  if .cardPlatformDriver ∈ s.drivers ∧ d ∉ s.bound.map Prod.fst then
    (cardPlatformDriverProbe since65 s.probes o).map fun p =>
      (p.1, p.2, s.probed d p.1 p.2)
  else none

def execRemove (since65 : Bool) (s : Module) (d : Device) :
    Option (List (Action Resource) × Result × Module) :=
  (s.bound.find? fun p => p.1 == d).map fun p =>
    let actions := cardPlatformDriverRemove since65 p.2
    (actions, .ok (), s.removed p actions)

def execEvent (since65 : Bool) (s : Module) :
    Event → Option (List (Action Resource) × Result × Module)
  | .init o =>
    if s.loaded then none
    else
      let p := cardPlatformDriverInit s o
      some ([], p.2, p.1)
  | .probe d o => execProbe since65 s d o
  | .remove d => execRemove since65 s d
  | .exit ok =>
    if s.loaded then
      some (removes since65 s.bound, .ok (), cardPlatformDriverCleanup since65 s ok)
    else none

def exec (since65 : Bool) (s : Module) (e : Event) : Option (Report × Module) :=
  (execEvent since65 s e).map fun p => (⟨e, p.1, p.2.1, p.2.2⟩, p.2.2)

def lifecycle (since65 : Bool) : Lts Module Report := .ofExec (exec since65)

end HeroTools.Driver.Lifecycle
