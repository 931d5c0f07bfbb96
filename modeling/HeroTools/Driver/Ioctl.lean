import HeroTools.Driver.Defs

/-! `card_ioctl` of the two drivers and `hero_iommu_region_add`, with the outcome of every
kernel call they make as an input. -/

namespace HeroTools.Driver

inductive Gup
  | err (errno : Nat)
  | pages (frames : List Nat)
deriving DecidableEq, Repr

/-- The outcomes of the kernel calls made inside one request. `iommuMap i` is whether the
`i`-th `iommu_map` finds the memory it needs, `nullFrame` the page number that
`page_to_phys(NULL)` yields. -/
structure Env where
  copyFromUser : Bool
  copyToUser : Bool
  getFreePages : Option (Nat × Nat)
  kmallocNode : Bool
  kmallocData : Bool
  kcalloc : Bool
  gup : Gup
  iommuMap : Nat → Bool
  nullFrame : Nat

def Env.sound : Env where
  copyFromUser := true
  copyToUser := true
  getFreePages := some (0x10000, 0x10000)
  kmallocNode := true
  kmallocData := true
  kcalloc := true
  gup := .pages [7, 8]
  iommuMap := fun _ => true
  nullFrame := 0

/-- The failed allocation through which a null pointer is followed: the array of pages, or
a list node and its data. -/
inductive Fault
  | pages
  | node
deriving DecidableEq, Repr

inductive Outcome (σ : Type)
  | fault (f : Fault)
  | ret (r : Int) (arg : Option CardIoctlArg) (s : σ)

variable {b : Board}

/-! ## `hero_iommu.c` -/

/-- `iommu_map` of one page: it fails, and changes nothing, when the address is not
page-aligned or is mapped already. -/
def iommuMap (ok : Bool) (d : IommuDomain) (iova frame : Nat) : Int × IommuDomain :=
  if iova % PAGE_SIZE ≠ 0 then (-EINVAL, d)
  else if (d (iova / PAGE_SIZE)).isSome then (-EINVAL, d)
  else if ok then (0, Function.update d (iova / PAGE_SIZE) (some frame))
  else (-ENOMEM, d)

def getUserPagesFast (g : Gup) (nrPages : Int) : Int × List Nat :=
  match g with
  | .err e => (-(e + 1 : Int), [])
  | .pages fs => ((fs.take nrPages.toNat).length, fs.take nrPages.toNat)

def pinPages (env : Env) (nrPages : Nat) : Int × List Nat :=
  getUserPagesFast env.gup (toInt32 nrPages)

def mapPages (env : Env) (frames : List Nat) (iova : Nat) (d : IommuDomain) :
    Nat → IommuDomain
  | 0 => d
  | i + 1 =>
    (iommuMap (env.iommuMap i) (mapPages env frames iova d i)
      ((iova + PAGE_SIZE * i) % 2 ^ 64) (frames.getD i env.nullFrame)).2

def heroIommuRegionAdd (env : Env) (s : State b) (userAddr iova length : Nat) :
    Except Fault (Int × State b) :=
  let nrPages := length >>> PAGE_SHIFT
  let pin := pinPages env nrPages
  -- the pages are written to the array, which is not checked
  if !env.kcalloc && !pin.2.isEmpty then .error .pages
  -- an error code compares as a huge number
  else if toUlong pin.1 < nrPages ∨ nrPages = 0 then
    .ok (-1, { s with pinned := s.pinned ++ pin.2 })
  else if !env.kcalloc then .error .pages
  else if !env.kmallocNode || !env.kmallocData then .error .node
  else
    .ok (toInt32 nrPages,
      { s with
        pinned := s.pinned ++ pin.2
        iommuDomain := mapPages env pin.2 iova s.iommuDomain nrPages
        iommuRegionList := s.iommuRegionList ++ [⟨userAddr, length, userAddr⟩] })

/-! ## What a call of `hero_iommu_region_add` does -/

def Rejected (env : Env) (length : Nat) : Prop :=
  toUlong (pinPages env (length >>> PAGE_SHIFT)).1 < length >>> PAGE_SHIFT ∨
    length >>> PAGE_SHIFT = 0

instance (env : Env) (length : Nat) : Decidable (Rejected env length) :=
  inferInstanceAs (Decidable (_ ∨ _))

def pagesPinned (env : Env) (s : State b) (length : Nat) : State b :=
  { s with pinned := s.pinned ++ (pinPages env (length >>> PAGE_SHIFT)).2 }

def regionAdded (env : Env) (s : State b) (userAddr iova length : Nat) : State b :=
  { pagesPinned env s length with
    iommuDomain :=
      mapPages env (pinPages env (length >>> PAGE_SHIFT)).2 iova s.iommuDomain
        (length >>> PAGE_SHIFT)
    iommuRegionList := s.iommuRegionList ++ [⟨userAddr, length, userAddr⟩] }

section RegionAdd
variable {env : Env} {s : State b} {userAddr iova length : Nat}

theorem pagesPinned_of_nil (h : (pinPages env (length >>> PAGE_SHIFT)).2 = []) :
    pagesPinned env s length = s := by
  unfold pagesPinned
  rw [h, List.append_nil]

theorem region_add_no_array_eq (hk : env.kcalloc = false) :
    heroIommuRegionAdd env s userAddr iova length =
      if Rejected env length ∧ (pinPages env (length >>> PAGE_SHIFT)).2 = [] then .ok (-1, s)
      else .error .pages := by
  unfold heroIommuRegionAdd
  simp only [hk, Bool.not_false, Bool.true_and, if_true]
  cases hp : (pinPages env (length >>> PAGE_SHIFT)).2 with
  | cons f fs => exact (if_neg fun h => List.cons_ne_nil f fs h.2).symm
  | nil =>
    simp only [List.isEmpty_nil, Bool.not_true, Bool.false_eq_true, if_false, List.append_nil,
      and_true]
    rfl

theorem region_add_no_array (hk : env.kcalloc = false) :
    heroIommuRegionAdd env s userAddr iova length = .error .pages ∨
      heroIommuRegionAdd env s userAddr iova length = .ok (-1, s) := by
  rw [region_add_no_array_eq hk]
  split_ifs
  · exact .inr rfl
  · exact .inl rfl

theorem region_add_rejected (hk : env.kcalloc = true) (hr : Rejected env length) :
    heroIommuRegionAdd env s userAddr iova length =
      .ok (-1, pagesPinned env s length) := by
  unfold heroIommuRegionAdd
  simp only [hk, Bool.not_true, Bool.false_and, Bool.false_eq_true, if_false]
  exact if_pos hr

theorem region_add_accepted (hk : env.kcalloc = true) (hr : ¬ Rejected env length) :
    heroIommuRegionAdd env s userAddr iova length =
      if env.kmallocNode ∧ env.kmallocData then
        .ok (toInt32 (length >>> PAGE_SHIFT), regionAdded env s userAddr iova length)
      else .error .node := by
  unfold heroIommuRegionAdd
  simp only [hk, Bool.not_true, Bool.false_and, Bool.false_eq_true, if_false]
  refine (if_neg hr).trans ?_
  cases env.kmallocNode <;> cases env.kmallocData <;> rfl

end RegionAdd

/-! ## `carfield_fops.c`, `occamy_fops.c` -/

def ALIGN (x a : Nat) : Nat := alignUp 64 x a

def dmaOrder (size : Nat) : Nat := orderBase2 (ALIGN size PAGE_SIZE / PAGE_SIZE)

/-- What is added to the address of a buffer on a PCIe host:
`0xffffffff & pcie_axi_bar_mem.pbase - 0x40000000`, or nothing. -/
def pcieOffset (s : State b) : Nat :=
  let pbase := (s.mem b.pcieAxiBarMem).pbase
  if pbase ≠ 0 then 0xffffffff &&& (pbase + 2 ^ 64 - 0x40000000) % 2 ^ 64 else 0

def sendBack (env : Env) (arg : CardIoctlArg) (s : State b) : Outcome (State b) :=
  if env.copyToUser then .ret 0 (some arg) s else .ret (-EFAULT) none s

theorem ret_of_sendBack {env : Env} {arg : CardIoctlArg} {a : Option CardIoctlArg}
    {s s' : State b} {r : Int} (h : sendBack env arg s = .ret r a s') :
    s' = s ∧ (r = 0 ∧ a = some arg ∨ r = -EFAULT ∧ a = none) := by
  unfold sendBack at h
  split_ifs at h
  · obtain ⟨rfl, rfl, rfl⟩ := h
    exact ⟨rfl, .inl ⟨rfl, rfl⟩⟩
  · obtain ⟨rfl, rfl, rfl⟩ := h
    exact ⟨rfl, .inr ⟨rfl, rfl⟩⟩

def ioctlDmaAlloc (env : Env) (arg : CardIoctlArg) (s : State b) : Outcome (State b) :=
  match env.getFreePages with
  | none => .ret (-ENOMEM) none s
  | some (virt, phys) =>
    let arg := { arg with
      resultVirtAddr := virt
      resultPhysAddr := (phys + pcieOffset s) % 2 ^ 64 }
    -- the list node is filled in without a check
    if !env.kmallocNode || !env.kmallocData then .fault .node
    else
      sendBack env arg
        { s with
          blocks := s.blocks ++ [⟨virt, phys, dmaOrder arg.size⟩]
          testHead := s.testHead ++
            [⟨arg.resultPhysAddr, arg.resultVirtAddr, arg.size⟩] }

def iovaOf (userAddr : Nat) : Nat := 0x80000000 + userAddr % 0x40000000

def ioctlIommuMap (env : Env) (arg : CardIoctlArg) (s : State b) : Outcome (State b) :=
  let arg := { arg with resultPhysAddr := iovaOf arg.resultVirtAddr }
  match heroIommuRegionAdd env s arg.resultVirtAddr arg.resultPhysAddr arg.size with
  | .error f => .fault f
  | .ok (err, s) => if err < 0 then .ret err none s else sendBack env arg s

def ioctlMemInfos (env : Env) (arg : CardIoctlArg) (s : State b) : Outcome (State b) :=
  match b.ptrToDevdataRegion arg.mmapId with
  | none => .ret (-1) none s
  | some m =>
    sendBack env
      { arg with size := (s.mem m).size, resultPhysAddr := (s.mem m).pbase } s

def cardIoctl (env : Env) (cmd : Nat) (arg : CardIoctlArg) (s : State b) :
    Outcome (State b) :=
  if !env.copyFromUser then .ret (-EFAULT) none s
  else
    match b.command cmd with
    | some .dmaAlloc => ioctlDmaAlloc env arg s
    | some .iommuMap => ioctlIommuMap env arg s
    | some .memInfos => ioctlMemInfos env arg s
    | none => .ret (-1) none s

end HeroTools.Driver
