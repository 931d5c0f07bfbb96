import HeroTools.Driver.Lifecycle

/-! The life cycle of the Occamy module, with the numbers and names that its devices get and
the files that are open on them. -/

namespace HeroTools.Driver.OccamyLifecycle
open HeroTools
open Lifecycle (Errno Result Device ENOMEM EEXIST)

/-! ## The kernel -/

abbrev DevT := BitVec 32

/-- A platform device and its `id`, which is -1 for all that come from a device tree. -/
structure Pdev where
  dev : Device
  id : BitVec 32
deriving DecidableEq, Repr

/-- What `device_create` has added to the class. The name `occamydev-%d` shows the `id`. -/
structure Node where
  id : BitVec 32
  devNum : DevT
deriving DecidableEq, Repr

structure Bound where
  pdev : Pdev
  probe : Nat
  devNum : DevT
deriving DecidableEq, Repr

/-- What the kernel holds for the module, the latest first. A `cdev` comes with the probe
whose private data have it, a file with the one whose data it was opened on. -/
structure Kernel where
  loaded : Bool
  deviceNumBase : DevT
  driver : Bool
  cdevs : List (DevT × Nat)
  nodes : List Node
  totalDevices : Int
  bound : List Bound
  files : List Nat
  probes : Nat
deriving DecidableEq

def Kernel.unloaded : Kernel where
  loaded := false
  deviceNumBase := 0
  driver := false
  cdevs := []
  nodes := []
  totalDevices := 0
  bound := []
  files := []
  probes := 0

namespace Kernel
variable (s : Kernel)

def cdevAdd (devNum : DevT) (probe : Nat) : Kernel :=
  { s with cdevs := (devNum, probe) :: s.cdevs }

def cdevDel (devNum : DevT) : Kernel :=
  { s with cdevs := s.cdevs.eraseP fun c => c.1 = devNum }

/-- The class keeps one device of a name. -/
def deviceCreate (devNum : DevT) (id : BitVec 32) : Result → Except Errno Kernel
  | .error e => .error e
  | .ok () =>
    if s.nodes.any fun node => node.id = id then .error EEXIST
    else .ok { s with nodes := ⟨id, devNum⟩ :: s.nodes }

def deviceDestroy (devNum : DevT) : Kernel :=
  { s with nodes := s.nodes.eraseP fun node => node.devNum = devNum }

def lookup (devNum : DevT) : Option Nat :=
  (s.cdevs.find? fun c => c.1 = devNum).map Prod.snd

end Kernel

/-! ## `occamy_driver.c` -/

structure ProbeCalls where
  devmKzallocDevData : Bool
  devmKzallocBuffer : Bool
  dmaSetMaskAndCoherent : Result
  cdevAdd : Result
  deviceCreate : Result

def cardPlatformDriverProbe (s : Kernel) (pdev : Pdev) (probe : Nat) (o : ProbeCalls) :
    Kernel × Result :=
  if !o.devmKzallocDevData then (s, .error ENOMEM)
  else if !o.devmKzallocBuffer then (s, .error ENOMEM)
  else
    let devNum := s.deviceNumBase + pdev.id
    match o.dmaSetMaskAndCoherent with
    | .error e => (s, .error e)
    | .ok () =>
      match o.cdevAdd with
      | .error e => (s, .error e)
      | .ok () =>
        let added := s.cdevAdd devNum probe
        match added.deviceCreate devNum pdev.id o.deviceCreate with
        | .error e => (added.cdevDel devNum, .error e)
        | .ok s => ({ s with totalDevices := s.totalDevices + 1 }, .ok ())

def cardPlatformDriverRemove (s : Kernel) (devNum : DevT) : Kernel :=
  let s := (s.deviceDestroy devNum).cdevDel devNum
  { s with totalDevices := s.totalDevices - 1 }

structure InitCalls where
  allocChrdevRegion : Except Errno DevT
  classCreate : Result
  platformDriverRegister : Bool

/-- Whether the driver has been registered is not looked at. -/
def cardPlatformDriverInit (s : Kernel) (o : InitCalls) : Kernel × Result :=
  match o.allocChrdevRegion with
  | .error e => (s, .error e)
  | .ok base =>
    match o.classCreate with
    | .error e => (s, .error e)
    | .ok () =>
      ({ s with
          loaded := true
          deviceNumBase := base
          driver := o.platformDriverRegister }, .ok ())

/-! ## `occamy_fops.c` -/

abbrev RDWR : Nat := 0x11
abbrev RDONLY : Nat := 0x01
abbrev WRONLY : Nat := 0x10
abbrev PDATA_PERM : Nat := RDWR
abbrev FMODE_READ : Nat := 0x1
abbrev FMODE_WRITE : Nat := 0x2

def EPERM : Errno := ⟨-1, by decide⟩

def checkPermission (devPerm accMode : Nat) : Result :=
  if devPerm = RDWR then .ok ()
  else if devPerm = RDONLY ∧ accMode &&& FMODE_READ ≠ 0 ∧ accMode &&& FMODE_WRITE = 0 then
    .ok ()
  else if devPerm = WRONLY ∧ accMode &&& FMODE_WRITE ≠ 0 ∧ accMode &&& FMODE_READ = 0 then
    .ok ()
  else .error EPERM

def cardOpen (s : Kernel) (probe : Nat) (fMode : Nat) : Kernel × Result :=
  match checkPermission PDATA_PERM fMode with
  | .error e => (s, .error e)
  | .ok () => ({ s with files := probe :: s.files }, .ok ())

/-! ## Runs -/

inductive Event
  | init (o : InitCalls)
  | probe (pdev : Pdev) (o : ProbeCalls)
  | remove (dev : Device)
  | exit
  | cardOpen (devNum : DevT) (fMode : Nat)
  | cardRelease (probe : Nat)

structure Report where
  event : Event
  ret : Result
  after : Kernel

def Kernel.unbind (s : Kernel) (b : Bound) : Kernel :=
  { cardPlatformDriverRemove s b.devNum with bound := s.bound.erase b }

/-- The driver core counts the probes, and binds the device if the probe returns 0. -/
def Kernel.probed (s : Kernel) (pdev : Pdev) (o : ProbeCalls) : Kernel × Result :=
  let p := cardPlatformDriverProbe s pdev s.probes o
  match p.2 with
  | .error e => ({ p.1 with probes := s.probes + 1 }, .error e)
  | .ok () => ({ p.1 with
      probes := s.probes + 1
      bound := ⟨pdev, s.probes, s.deviceNumBase + pdev.id⟩ :: s.bound }, .ok ())

/-- Unregistering the driver removes its devices, the latest first. -/
def cardPlatformDriverCleanup (s : Kernel) : Kernel :=
  { s.bound.foldl Kernel.unbind s with
    loaded := false
    driver := false }

def Kernel.device (s : Kernel) (dev : Device) : Option Bound :=
  s.bound.find? fun b => b.pdev.dev = dev

/-- A file keeps the module loaded, but not its device bound. -/
def execEvent (s : Kernel) : Event → Option (Kernel × Result)
  | .init o => if s.loaded then none else some (cardPlatformDriverInit s o)
  | .probe pdev o =>
    if s.driver ∧ pdev.dev ∉ s.bound.map (·.pdev.dev) then some (s.probed pdev o) else none
  | .remove dev => (s.device dev).map fun b => (s.unbind b, .ok ())
  | .exit =>
    if s.loaded ∧ s.files = [] then some (cardPlatformDriverCleanup s, .ok ()) else none
  | .cardOpen devNum fMode => (s.lookup devNum).map fun probe => cardOpen s probe fMode
  | .cardRelease probe =>
    if probe ∈ s.files then some ({ s with files := s.files.erase probe }, .ok ()) else none

def exec (s : Kernel) (e : Event) : Option (Report × Kernel) :=
  (execEvent s e).map fun p => (⟨e, p.2, p.1⟩, p.1)

def lifecycle : Lts Kernel Report := .ofExec exec

/-! ## What the kernel holds -/

/-- Every device that is bound has a `cdev` and a node of its own, and there are no others. -/
structure WellFormed (s : Kernel) : Prop where
  ids : (s.bound.map fun b => b.pdev.id).Nodup
  numbers : ∀ b ∈ s.bound, b.devNum = s.deviceNumBase + b.pdev.id
  cdevs : s.cdevs = s.bound.map fun b => (b.devNum, b.probe)
  nodes : s.nodes = s.bound.map fun b => ⟨b.pdev.id, b.devNum⟩
  total : s.totalDevices = s.bound.length
  probes : (s.bound.map fun b => b.probe).Nodup
  probes_lt : ∀ b ∈ s.bound, b.probe < s.probes
  unloaded : s.loaded = false → s.bound = [] ∧ s.driver = false ∧ s.files = []

theorem WellFormed.start : WellFormed .unloaded where
  ids := .nil
  numbers := fun _ hb => absurd hb List.not_mem_nil
  cdevs := rfl
  nodes := rfl
  total := rfl
  probes := .nil
  probes_lt := fun _ hb => absurd hb List.not_mem_nil
  unloaded := fun _ => ⟨rfl, rfl, rfl⟩

section
variable {α β : Type} [DecidableEq α] {f : α → β} {p : β → Bool} {l : List α} {a : α}

theorem eraseP_map_eq (h : ∀ b ∈ l, p (f b) = true ↔ b = a) :
    (l.map f).eraseP p = (l.erase a).map f := by
  rw [List.eraseP_map, List.erase_eq_eraseP']
  congr 1
  induction l with
  | nil => rfl
  | cons b l ih =>
    have hb : (p ∘ f) b = (b == a) := by
      rw [Bool.eq_iff_iff, beq_iff_eq]
      exact h b List.mem_cons_self
    have hl := ih fun c hc => h c (List.mem_cons_of_mem b hc)
    rw [List.eraseP_cons, List.eraseP_cons, hb, hl]

theorem find?_map_eq (ha : a ∈ l) (h : ∀ b ∈ l, p (f b) = true ↔ b = a) :
    (l.map f).find? p = some (f a) := by
  induction l with
  | nil => exact absurd ha List.not_mem_nil
  | cons b l ih =>
    by_cases hb : b = a
    · rw [List.map_cons, List.find?_cons_of_pos ((h b List.mem_cons_self).mpr hb), hb]
    · have hne : ¬ p (f b) = true := fun hp => hb ((h b List.mem_cons_self).mp hp)
      rw [List.map_cons, List.find?_cons_of_neg hne]
      exact ih ((List.mem_cons.mp ha).resolve_left (Ne.symm hb)) fun c hc =>
        h c (List.mem_cons_of_mem b hc)

end

section
variable {s s' : Kernel} {b c : Bound}

namespace WellFormed

theorem id_inj (h : WellFormed s) (hb : b ∈ s.bound) (hc : c ∈ s.bound)
    (hid : b.pdev.id = c.pdev.id) : b = c := List.inj_on_of_nodup_map h.ids hb hc hid

theorem devNum_iff (h : WellFormed s) (hb : b ∈ s.bound) (hc : c ∈ s.bound) :
    c.devNum = b.devNum ↔ c = b := by
  constructor
  · intro hnum
    rw [h.numbers b hb, h.numbers c hc] at hnum
    exact h.id_inj hc hb ((BitVec.add_right_inj _).mp hnum)
  · rintro rfl
    rfl

theorem lookup_eq (h : WellFormed s) (hb : b ∈ s.bound) : s.lookup b.devNum = some b.probe := by
  have hfound := find?_map_eq (f := fun b : Bound => (b.devNum, b.probe))
    (p := fun c => decide (c.1 = b.devNum)) hb fun c hc => by
      rw [decide_eq_true_iff]
      exact h.devNum_iff hb hc
  rw [Kernel.lookup, h.cdevs, hfound, Option.map_some]

theorem mem_of_lookup {devNum : DevT} {n : Nat} (h : WellFormed s)
    (hn : s.lookup devNum = some n) : ∃ b ∈ s.bound, b.devNum = devNum ∧ b.probe = n := by
  obtain ⟨c, hfind, hprobe⟩ := Option.map_eq_some_iff.mp hn
  have hmem := List.mem_of_find?_eq_some hfind
  rw [h.cdevs] at hmem
  obtain ⟨b, hb, hcb⟩ := List.mem_map.mp hmem
  have hnum := List.find?_some hfind
  rw [decide_eq_true_iff, ← hcb] at hnum
  rw [← hcb] at hprobe
  exact ⟨b, hb, hnum, hprobe⟩

theorem unbind (h : WellFormed s) (hb : b ∈ s.bound) : WellFormed (s.unbind b) := by
  have hsub : ∀ c ∈ s.bound.erase b, c ∈ s.bound := fun c hc => List.mem_of_mem_erase hc
  refine ⟨?_, fun c hc => h.numbers c (hsub c hc), ?_, ?_, ?_, ?_,
    fun c hc => h.probes_lt c (hsub c hc), fun hload => ?_⟩
  · exact h.ids.sublist ((List.erase_sublist).map _)
  · show s.cdevs.eraseP _ = _
    rw [h.cdevs]
    refine eraseP_map_eq fun c hc => ?_
    rw [decide_eq_true_iff]
    exact h.devNum_iff hb hc
  · show s.nodes.eraseP _ = _
    rw [h.nodes]
    refine eraseP_map_eq fun c hc => ?_
    rw [decide_eq_true_iff]
    exact h.devNum_iff hb hc
  · show s.totalDevices - 1 = ((s.bound.erase b).length : Int)
    have hpos : 0 < s.bound.length := List.length_pos_of_mem hb
    rw [h.total, List.length_erase_of_mem hb]
    omega
  · exact h.probes.sublist ((List.erase_sublist).map _)
  · have hnil := (h.unloaded hload).1
    rw [hnil] at hb
    exact absurd hb List.not_mem_nil

end WellFormed
theorem cdevDel_add (s : Kernel) (devNum : DevT) (probe : Nat) :
    (s.cdevAdd devNum probe).cdevDel devNum = s := by
  have hfirst : ((devNum, probe) :: s.cdevs).eraseP (fun c => c.1 = devNum) = s.cdevs :=
    List.eraseP_cons_of_pos (decide_eq_true rfl)
  rw [Kernel.cdevDel, Kernel.cdevAdd, hfirst]

theorem deviceCreate_cases (s : Kernel) (devNum : DevT) (id : BitVec 32) (answer : Result) :
    (∃ e, s.deviceCreate devNum id answer = .error e) ∨
      (∀ node ∈ s.nodes, node.id ≠ id) ∧
        s.deviceCreate devNum id answer = .ok { s with nodes := ⟨id, devNum⟩ :: s.nodes } := by
  cases answer with
  | error e => exact .inl ⟨e, rfl⟩
  | ok u =>
    by_cases hid : s.nodes.any (fun node => node.id = id) = true
    · exact .inl ⟨EEXIST, if_pos hid⟩
    · refine .inr ⟨fun node hnode heq => hid ?_, if_neg hid⟩
      exact List.any_eq_true.mpr ⟨node, hnode, decide_eq_true heq⟩

theorem cardPlatformDriverProbe_cases (s : Kernel) (pdev : Pdev) (n : Nat) (o : ProbeCalls) :
    (∃ e, cardPlatformDriverProbe s pdev n o = (s, .error e)) ∨
      (∀ node ∈ s.nodes, node.id ≠ pdev.id) ∧ cardPlatformDriverProbe s pdev n o =
        ({ s with
            cdevs := (s.deviceNumBase + pdev.id, n) :: s.cdevs
            nodes := ⟨pdev.id, s.deviceNumBase + pdev.id⟩ :: s.nodes
            totalDevices := s.totalDevices + 1 }, .ok ()) := by
  unfold cardPlatformDriverProbe
  by_cases hdata : o.devmKzallocDevData = true
  · by_cases hbuffer : o.devmKzallocBuffer = true
    · simp only [hdata, hbuffer, Bool.not_true, Bool.false_eq_true, if_false]
      cases hmask : o.dmaSetMaskAndCoherent with
      | error e => exact .inl ⟨e, rfl⟩
      | ok u =>
        cases hadd : o.cdevAdd with
        | error e => exact .inl ⟨e, rfl⟩
        | ok v =>
          obtain ⟨e, he⟩ | ⟨hnew, hcreate⟩ := deviceCreate_cases
            (s.cdevAdd (s.deviceNumBase + pdev.id) n) (s.deviceNumBase + pdev.id) pdev.id
            o.deviceCreate
          · simp only [he, cdevDel_add]
            exact .inl ⟨e, rfl⟩
          · simp only [hcreate]
            exact .inr ⟨hnew, rfl⟩
    · simp only [hdata, hbuffer, Bool.not_true, Bool.not_false, Bool.false_eq_true, if_false,
        if_true]
      exact .inl ⟨ENOMEM, rfl⟩
  · simp only [hdata, Bool.not_false, if_true]
    exact .inl ⟨ENOMEM, rfl⟩

theorem probed_cases (s : Kernel) (pdev : Pdev) (o : ProbeCalls) :
    (∃ e, s.probed pdev o = ({ s with probes := s.probes + 1 }, .error e)) ∨
      (∀ node ∈ s.nodes, node.id ≠ pdev.id) ∧ s.probed pdev o =
        ({ s with
            cdevs := (s.deviceNumBase + pdev.id, s.probes) :: s.cdevs
            nodes := ⟨pdev.id, s.deviceNumBase + pdev.id⟩ :: s.nodes
            totalDevices := s.totalDevices + 1
            probes := s.probes + 1
            bound := ⟨pdev, s.probes, s.deviceNumBase + pdev.id⟩ :: s.bound }, .ok ()) := by
  unfold Kernel.probed
  obtain ⟨e, he⟩ | ⟨hnew, hok⟩ := cardPlatformDriverProbe_cases s pdev s.probes o
  · rw [he]
    exact .inl ⟨e, rfl⟩
  · rw [hok]
    exact .inr ⟨hnew, rfl⟩

namespace WellFormed

theorem probed (h : WellFormed s) (hload : s.loaded = true) (pdev : Pdev) (o : ProbeCalls) :
    WellFormed (s.probed pdev o).1 := by
  have hlt : ∀ b ∈ s.bound, b.probe < s.probes + 1 := fun b hb =>
    (h.probes_lt b hb).trans (Nat.lt_succ_self _)
  obtain ⟨e, he⟩ | ⟨hnew, hok⟩ := probed_cases s pdev o
  · rw [he]
    exact ⟨h.ids, h.numbers, h.cdevs, h.nodes, h.total, h.probes, hlt, h.unloaded⟩
  · rw [hok]
    have hid : pdev.id ∉ s.bound.map fun b => b.pdev.id := by
      intro hmem
      obtain ⟨b, hb, hbid⟩ := List.mem_map.mp hmem
      have hnode : (⟨b.pdev.id, b.devNum⟩ : Node) ∈ s.nodes := by
        rw [h.nodes]
        exact List.mem_map_of_mem hb
      exact hnew _ hnode hbid
    have hprobe : s.probes ∉ s.bound.map fun b => b.probe := by
      intro hmem
      obtain ⟨b, hb, hbn⟩ := List.mem_map.mp hmem
      exact (h.probes_lt b hb).ne hbn
    refine ⟨List.nodup_cons.mpr ⟨hid, h.ids⟩, List.forall_mem_cons.mpr ⟨rfl, h.numbers⟩, ?_, ?_, ?_,
      List.nodup_cons.mpr ⟨hprobe, h.probes⟩,
      List.forall_mem_cons.mpr ⟨Nat.lt_succ_self _, hlt⟩, fun hunl => ?_⟩
    · rw [h.cdevs]
      rfl
    · rw [h.nodes]
      rfl
    · show s.totalDevices + 1 = ((s.bound.length + 1 : Nat) : Int)
      rw [h.total]
      rfl
    · rw [show s.loaded = false from hunl] at hload
      exact absurd hload Bool.false_ne_true

theorem unbind_all (l : List Bound) (h : WellFormed s) (hl : s.bound = l) :
    WellFormed (l.foldl Kernel.unbind s) ∧ (l.foldl Kernel.unbind s).bound = [] ∧
      (l.foldl Kernel.unbind s).files = s.files := by
  induction l generalizing s with
  | nil => exact ⟨h, hl, rfl⟩
  | cons b l ih =>
    have hb : b ∈ s.bound := hl ▸ List.mem_cons_self
    refine ih (h.unbind hb) ?_
    show s.bound.erase b = l
    rw [hl, List.erase_cons_head]

theorem cleanup (h : WellFormed s) (hfiles : s.files = []) :
    WellFormed (cardPlatformDriverCleanup s) := by
  obtain ⟨hwf, hnil, hsame⟩ := h.unbind_all s.bound rfl
  exact ⟨hwf.ids, hwf.numbers, hwf.cdevs, hwf.nodes, hwf.total, hwf.probes, hwf.probes_lt,
    fun _ => ⟨hnil, rfl, hsame.trans hfiles⟩⟩

theorem init (h : WellFormed s) (hload : s.loaded = false) (o : InitCalls) :
    WellFormed (cardPlatformDriverInit s o).1 := by
  obtain ⟨hnil, -⟩ := h.unloaded hload
  unfold cardPlatformDriverInit
  cases o.allocChrdevRegion with
  | error e => exact h
  | ok base =>
    cases o.classCreate with
    | error e => exact h
    | ok u =>
      refine ⟨h.ids, ?_, h.cdevs, h.nodes, h.total, h.probes, h.probes_lt, fun hload => ?_⟩
      · intro b hb
        rw [show s.bound = [] from hnil] at hb
        exact absurd hb List.not_mem_nil
      · cases hload

theorem loaded_of_mem (h : WellFormed s) (hb : b ∈ s.bound) : s.loaded = true := by
  by_contra hload
  rw [(h.unloaded (Bool.not_eq_true _ ▸ hload)).1] at hb
  exact absurd hb List.not_mem_nil

theorem opened {devNum : DevT} {n fMode : Nat} (h : WellFormed s)
    (hn : s.lookup devNum = some n) : WellFormed (cardOpen s n fMode).1 := by
  obtain ⟨b, hb, -, -⟩ := h.mem_of_lookup hn
  refine ⟨h.ids, h.numbers, h.cdevs, h.nodes, h.total, h.probes, h.probes_lt, fun hload => ?_⟩
  exact absurd ((h.loaded_of_mem hb).symm.trans hload) Bool.true_eq_false.mp

end WellFormed

/-! ## Every run -/

variable {r : Report}

theorem step_event (hstep : lifecycle.step s r s') :
    execEvent s r.event = some (s', r.ret) ∧ r.after = s' := by
  obtain ⟨e, h⟩ := hstep
  obtain ⟨p, hp, h⟩ := Option.map_eq_some_iff.mp h
  obtain ⟨rfl, rfl⟩ := Prod.mk.inj h
  exact ⟨hp, rfl⟩

theorem step_wellFormed (h : WellFormed s) (hstep : lifecycle.step s r s') : WellFormed s' := by
  obtain ⟨he, -⟩ := step_event hstep
  cases hr : r.event with
  | init o =>
    rw [hr, execEvent] at he
    split_ifs at he with hload
    obtain rfl := (Prod.mk.inj (Option.some.inj he)).1
    exact h.init (Bool.not_eq_true _ ▸ hload) o
  | probe pdev o =>
    rw [hr, execEvent] at he
    split_ifs at he with hdriver
    obtain rfl := (Prod.mk.inj (Option.some.inj he)).1
    -- there is no driver to be probed when the module is not loaded
    refine h.probed ?_ pdev o
    by_contra hload
    have hoff := (h.unloaded (Bool.not_eq_true _ ▸ hload)).2.1
    exact absurd (hdriver.1.symm.trans hoff) Bool.true_eq_false.mp
  | remove dev =>
    rw [hr] at he
    obtain ⟨b, hb, he⟩ := Option.map_eq_some_iff.mp he
    obtain rfl := (Prod.mk.inj he).1
    exact h.unbind (List.mem_of_find?_eq_some hb)
  | exit =>
    rw [hr, execEvent] at he
    split_ifs at he with hload
    obtain rfl := (Prod.mk.inj (Option.some.inj he)).1
    exact h.cleanup hload.2
  | cardOpen devNum fMode =>
    rw [hr] at he
    obtain ⟨n, hn, he⟩ := Option.map_eq_some_iff.mp he
    rw [show s' = (cardOpen s n fMode).1 from (congrArg Prod.fst he).symm]
    exact h.opened hn
  | cardRelease n =>
    rw [hr, execEvent] at he
    split_ifs at he with hmem
    obtain rfl := (Prod.mk.inj (Option.some.inj he)).1
    refine ⟨h.ids, h.numbers, h.cdevs, h.nodes, h.total, h.probes, h.probes_lt, fun hload => ?_⟩
    rw [(h.unloaded hload).2.2] at hmem
    exact absurd hmem List.not_mem_nil

theorem run_wellFormed {tr : List (Kernel × Report)} (h : lifecycle.Run .unloaded tr s) :
    WellFormed s := h.invariant WellFormed.start fun hu hstep => step_wellFormed hu hstep

structure Tidy (s : Kernel) : Prop where
  ids : (s.bound.map fun b => b.pdev.id).Nodup
  opens : ∀ b ∈ s.bound, s.lookup (s.deviceNumBase + b.pdev.id) = some b.probe
  only : ∀ devNum n, s.lookup devNum = some n →
    ∃ b ∈ s.bound, s.deviceNumBase + b.pdev.id = devNum ∧ b.probe = n
  cdevs : s.cdevs = s.bound.map fun b => (s.deviceNumBase + b.pdev.id, b.probe)
  nodes : s.nodes = s.bound.map fun b => ⟨b.pdev.id, s.deviceNumBase + b.pdev.id⟩
  total : s.totalDevices = s.bound.length
  unloaded : s.loaded = false → s.bound = [] ∧ s.nodes = [] ∧ s.cdevs = [] ∧ s.files = []

theorem WellFormed.tidy (h : WellFormed s) : Tidy s where
  ids := h.ids
  opens := fun b hb => h.numbers b hb ▸ h.lookup_eq hb
  only := by
    intro devNum n hn
    obtain ⟨b, hb, hnum, hprobe⟩ := h.mem_of_lookup hn
    exact ⟨b, hb, (h.numbers b hb).symm.trans hnum, hprobe⟩
  cdevs := h.cdevs.trans (List.map_congr_left fun b hb => by rw [h.numbers b hb])
  nodes := h.nodes.trans (List.map_congr_left fun b hb => by rw [h.numbers b hb])
  total := h.total
  unloaded := by
    intro hload
    obtain ⟨hbound, -, hfiles⟩ := h.unloaded hload
    refine ⟨hbound, ?_, ?_, hfiles⟩
    · rw [h.nodes, hbound, List.map_nil]
    · rw [h.cdevs, hbound, List.map_nil]

theorem init_failed {o : InitCalls} {e : Errno}
    (h : (cardPlatformDriverInit s o).2 = .error e) :
    (cardPlatformDriverInit s o).1 = s := by
  unfold cardPlatformDriverInit at h ⊢
  cases hbase : o.allocChrdevRegion with
  | error e => rfl
  | ok base =>
    cases hclass : o.classCreate with
    | error e => rfl
    | ok u =>
      rw [hbase, hclass] at h
      cases h

theorem step_failed (hstep : lifecycle.step s r s') {e : Errno} (hret : r.ret = .error e) :
    { s' with probes := s.probes } = s := by
  obtain ⟨he, -⟩ := step_event hstep
  rw [hret] at he
  cases hr : r.event with
  | init o =>
    rw [hr, execEvent] at he
    split_ifs at he
    have hp := Option.some.inj he
    have hs : s' = s := by
      rw [← init_failed (congrArg Prod.snd hp), hp]
    rw [hs]
  | probe pdev o =>
    rw [hr, execEvent] at he
    split_ifs at he
    have hp := Option.some.inj he
    obtain ⟨e', hfail⟩ | ⟨-, hok⟩ := probed_cases s pdev o
    · rw [← (Prod.mk.inj (hp.symm.trans hfail)).1.symm]
    · cases (Prod.mk.inj (hp.symm.trans hok)).2
  | remove dev =>
    rw [hr] at he
    obtain ⟨b, -, he⟩ := Option.map_eq_some_iff.mp he
    cases (Prod.mk.inj he).2
  | exit =>
    rw [hr, execEvent] at he
    split_ifs at he
    cases (Prod.mk.inj (Option.some.inj he)).2
  | cardOpen devNum fMode =>
    rw [hr] at he
    obtain ⟨n, -, he⟩ := Option.map_eq_some_iff.mp he
    cases (Prod.mk.inj he).2
  | cardRelease n =>
    rw [hr, execEvent] at he
    split_ifs at he
    cases (Prod.mk.inj (Option.some.inj he)).2

/-- In every run each device that is bound has a number, a node and a `cdev` of its own, an open
of its number reaches its data, what fails leaves nothing, and nothing is left after the exit. -/
theorem occamy_lifecycle_tidy {tr : List (Kernel × Report)} (h : lifecycle.Run .unloaded tr s) :
    Tidy s ∧ ∀ p ∈ tr, ∀ e, p.2.ret = .error e → { p.2.after with probes := p.1.probes } = p.1 := by
  refine ⟨(run_wellFormed h).tidy, fun p hp e hret => ?_⟩
  obtain ⟨u, hu⟩ := h.step_of_mem hp
  rw [(step_event hu).2]
  exact step_failed hu hret

def ProbeCalls.granted : ProbeCalls := ⟨true, true, .ok (), .ok (), .ok ()⟩

def oneCycle : Option (List (Kernel × Report) × Kernel) :=
  Lts.replay exec .unloaded [.init ⟨.ok 0xff00000, .ok (), true⟩, .probe ⟨0, -1⟩ .granted,
    .probe ⟨1, -1⟩ .granted, .cardOpen 0xfefffff 3, .cardRelease 0, .exit]

theorem occamy_lifecycle_tidy_oneCycle : ∃ tr s, lifecycle.Run .unloaded tr s ∧
    tr.length = 6 ∧ s.probes = 2 ∧ s.loaded = false ∧ Tidy s := by
  have hrun := Lts.replay_run (show oneCycle = some _ from rfl)
  exact ⟨_, _, hrun, rfl, rfl, rfl, (occamy_lifecycle_tidy hrun).1⟩

/-! ## Open files -/

def Live (s : Kernel) : Prop := ∀ n ∈ s.files, ∃ b ∈ s.bound, b.probe = n

def Unused (s : Kernel) (r : Report) : Prop :=
  ∀ dev, r.event = .remove dev → ∀ b ∈ s.device dev, b.probe ∉ s.files

theorem live_unbind_iff (h : WellFormed s) (hlive : Live s) (hb : b ∈ s.bound) :
    Live (s.unbind b) ↔ b.probe ∉ s.files := by
  constructor
  · intro hafter hmem
    obtain ⟨c, hc, hprobe⟩ := hafter b.probe hmem
    have hcb : c = b := List.inj_on_of_nodup_map h.probes (List.mem_of_mem_erase hc) hb hprobe
    have hnodup : s.bound.Nodup := h.ids.of_map _
    rw [hcb] at hc
    exact (hnodup.not_mem_erase hc)
  · intro hunused n hn
    obtain ⟨c, hc, hprobe⟩ := hlive n hn
    refine ⟨c, (List.mem_erase_of_ne ?_).mpr hc, hprobe⟩
    rintro rfl
    exact hunused (hprobe ▸ hn)

theorem Live.mono (hlive : Live s) (hbound : s.bound ⊆ s'.bound) (hfiles : s'.files ⊆ s.files) :
    Live s' := by
  intro n hn
  obtain ⟨b, hb, hprobe⟩ := hlive n (hfiles hn)
  exact ⟨b, hbound hb, hprobe⟩

theorem init_same (s : Kernel) (o : InitCalls) : (cardPlatformDriverInit s o).1.bound = s.bound ∧
    (cardPlatformDriverInit s o).1.files = s.files := by
  unfold cardPlatformDriverInit
  cases o.allocChrdevRegion with
  | error e => exact ⟨rfl, rfl⟩
  | ok base =>
    cases o.classCreate with
    | error e => exact ⟨rfl, rfl⟩
    | ok u => exact ⟨rfl, rfl⟩

theorem probed_more (s : Kernel) (pdev : Pdev) (o : ProbeCalls) :
    s.bound ⊆ (s.probed pdev o).1.bound ∧ (s.probed pdev o).1.files = s.files := by
  obtain ⟨e, he⟩ | ⟨-, hok⟩ := probed_cases s pdev o
  · rw [he]
    exact ⟨List.Subset.refl _, rfl⟩
  · rw [hok]
    exact ⟨List.subset_cons_self _ _, rfl⟩

theorem live_step_iff (h : WellFormed s) (hlive : Live s) (hstep : lifecycle.step s r s') :
    Live s' ↔ Unused s r := by
  obtain ⟨he, -⟩ := step_event hstep
  have hother (hr : ∀ dev, r.event ≠ .remove dev) (hs' : Live s') : Live s' ↔ Unused s r :=
    ⟨fun _ dev hdev => absurd hdev (hr dev), fun _ => hs'⟩
  cases hr : r.event with
  | init o =>
    refine hother (fun dev hdev => by cases hr.symm.trans hdev) ?_
    rw [hr, execEvent] at he
    split_ifs at he
    obtain rfl := congrArg Prod.fst (Option.some.inj he)
    obtain ⟨hbound, hfiles⟩ := init_same s o
    exact hlive.mono (hbound ▸ List.Subset.refl _) (hfiles ▸ List.Subset.refl _)
  | probe pdev o =>
    refine hother (fun dev hdev => by cases hr.symm.trans hdev) ?_
    rw [hr, execEvent] at he
    split_ifs at he
    obtain rfl := congrArg Prod.fst (Option.some.inj he)
    obtain ⟨hbound, hfiles⟩ := probed_more s pdev o
    exact hlive.mono hbound (hfiles ▸ List.Subset.refl _)
  | remove dev =>
    rw [hr] at he
    obtain ⟨b, hb, he⟩ := Option.map_eq_some_iff.mp he
    obtain rfl := (Prod.mk.inj he).1
    -- the private data goes, whoever has it open
    rw [live_unbind_iff h hlive (List.mem_of_find?_eq_some hb)]
    constructor
    · intro hunused dev' hdev c hc
      obtain rfl := Event.remove.inj (hr.symm.trans hdev)
      obtain rfl := Option.some.inj (hb.symm.trans hc)
      exact hunused
    · exact fun hunused => hunused dev hr b hb
  | exit =>
    refine hother (fun dev hdev => by cases hr.symm.trans hdev) ?_
    rw [hr, execEvent] at he
    split_ifs at he with hexit
    obtain rfl := congrArg Prod.fst (Option.some.inj he)
    -- the module cannot be unloaded while a file is open
    have hfiles : (cardPlatformDriverCleanup s).files = [] :=
      (h.unbind_all s.bound rfl).2.2.trans hexit.2
    intro n hn
    rw [hfiles] at hn
    exact absurd hn List.not_mem_nil
  | cardOpen devNum fMode =>
    refine hother (fun dev hdev => by cases hr.symm.trans hdev) ?_
    rw [hr] at he
    obtain ⟨n, hn, he⟩ := Option.map_eq_some_iff.mp he
    obtain ⟨b, hb, -, hprobe⟩ := h.mem_of_lookup hn
    obtain rfl : (cardOpen s n fMode).1 = s' := congrArg Prod.fst he
    exact List.forall_mem_cons.mpr ⟨⟨b, hb, hprobe⟩, hlive⟩
  | cardRelease n =>
    refine hother (fun dev hdev => by cases hr.symm.trans hdev) ?_
    rw [hr, execEvent] at he
    split_ifs at he
    obtain rfl := congrArg Prod.fst (Option.some.inj he)
    exact hlive.mono (List.Subset.refl _) List.erase_subset

/-- The exit of the module waits for the files to be closed, but the removal of a device does
not: the files stay on live data just if none is open on a device that is removed. -/
theorem files_live_iff {tr : List (Kernel × Report)} (h : lifecycle.Run .unloaded tr s) :
    (∀ p ∈ tr, Live p.1) ∧ Live s ↔ ∀ p ∈ tr, Unused p.1 p.2 := by
  have hstart : Live .unloaded := fun n hn => absurd hn List.not_mem_nil
  exact h.passes_iff WellFormed.start hstart step_wellFormed live_step_iff

def removedOpen : Option (List (Kernel × Report) × Kernel) :=
  Lts.replay exec .unloaded [.init ⟨.ok 0xff00000, .ok (), true⟩, .probe ⟨0, -1⟩ .granted,
    .cardOpen 0xfefffff 3, .remove 0]

theorem files_live_iff_removedOpen : ∃ tr s, lifecycle.Run .unloaded tr s ∧ s.files = [0] ∧
    s.bound = [] ∧ ¬ ∀ p ∈ tr, Unused p.1 p.2 := by
  have hrun := Lts.replay_run (show removedOpen = some _ from rfl)
  refine ⟨_, _, hrun, rfl, rfl, fun hunused => ?_⟩
  obtain ⟨b, hb, -⟩ := ((files_live_iff hrun).mpr hunused).2 0 List.mem_cons_self
  exact absurd hb List.not_mem_nil

end

end HeroTools.Driver.OccamyLifecycle
