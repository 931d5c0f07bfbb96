import HeroTools.Driver.Defs
import HeroTools.Lib.Lts
import Mathlib.Logic.Function.Basic

/-! `probe_node` and the probes of the two platform drivers: which regions of a device are
mapped, for every device tree. -/

namespace HeroTools.Driver

structure Resource where
  start : Nat
  end_ : Nat
deriving DecidableEq, Repr

def resourceSize (r : Resource) : Nat := (r.end_ + 1 + 2 ^ 64 - r.start) % 2 ^ 64

/-- A pointer to I/O memory: null, an error, or where a resource has been mapped. -/
inductive Vbase
  | null
  | err
  | mapped (r : Resource)
deriving DecidableEq, Repr

/-- `struct shared_mem`, with what its pointer points to. -/
structure Desc where
  vbase : Vbase
  pbase : Nat
  size : Nat
deriving DecidableEq, Repr

def Desc.zero : Desc := ⟨.null, 0, 0⟩

/-- What a call of `probe_node` meets: its node, if there is one; the phandle to a reserved
memory and what its lookup gives; what the lookup of `reg` gives, or what `tmp_res` holds
without; whether the two can be mapped; and the first word there. -/
structure Node where
  present : Bool
  memoryRegion : Option (Option Resource)
  tmpRes : Resource
  l3Maps : Bool
  maps : Bool
  firstWord : Nat
deriving DecidableEq, Repr

def Board.l3Mem : (b : Board) → b.Mem
  | .carfield => CarfieldMem.l3Mem
  | .occamy => OccamyMem.l3Mem

instance (b : Board) : DecidableEq b.Mem := match b with
  | .carfield => inferInstanceAs (DecidableEq CarfieldMem)
  | .occamy => inferInstanceAs (DecidableEq OccamyMem)

/-- The device data during the probe, and the pointers through which it has read or written so
far. -/
structure Probed (b : Board) where
  mem : b.Mem → Desc
  accesses : List (Vbase × Nat)
  halted : Bool

variable {b : Board}

def Probed.set (s : Probed b) (m : b.Mem) (d : Desc) : Probed b :=
  { s with mem := Function.update s.mem m d }

/-! ## `carfield_driver.c`, `occamy_driver.c` -/

/-- An error is an error pointer, never null. -/
def devmIoremapResource (r : Resource) (maps : Bool) : Vbase :=
  if maps then .mapped r else .err

/-- The part for the reserved L3 memory, and whether it goes to `probe_node_error`. -/
def probeMemoryRegion (n : Node) (s : Probed b) : Bool × Probed b :=
  match n.memoryRegion with
  | none => (false, s)
  | some none => (true, s)
  | some (some tmpMemRes) =>
    if (s.mem b.l3Mem).pbase = 0 then
      let vbase := devmIoremapResource tmpMemRes n.l3Maps
      let s := s.set b.l3Mem { s.mem b.l3Mem with vbase := vbase }
      if vbase = .null then (true, s)
      else (false, s.set b.l3Mem ⟨vbase, tmpMemRes.start, resourceSize tmpMemRes⟩)
    else (false, s)

/-- The part for `reg`, whose lookup is not checked. -/
def probeReg (n : Node) (result : b.Mem) (s : Probed b) : Probed b :=
  let vbase := devmIoremapResource n.tmpRes n.maps
  if vbase = .err then s.set result { s.mem result with vbase := vbase }
  else
    let s := s.set result ⟨vbase, n.tmpRes.start, resourceSize n.tmpRes⟩
    let s := { s with accesses := s.accesses ++ [(vbase, 0), (vbase, 0)] }
    if n.firstWord = 0xbadcab1e then s.set result .zero else s

def probeNode (n : Node) (result : b.Mem) (s : Probed b) : Probed b :=
  if n.present then
    let (error, s) := probeMemoryRegion n s
    if error then s.set result .zero else probeReg n result s
  else s.set result .zero

inductive ProbeStep (b : Board)
  | probeNode (result : b.Mem) (name : String)
  | requestIrqs
  | iowrite (m : b.Mem) (offsets : List Nat)
  | findSpatzDev

/-- What a probe meets: the nodes, whether each GPIO interrupt has a descriptor, and whether
there is a device for the Spatz node. -/
structure Tree where
  node : String → Node
  irqDesc : Nat → Bool
  spatzDev : Bool

abbrev CARFIELD_GPIO_N_IRQS : Nat := 4
abbrev ISOLATE_BEGIN_OFFSET : Nat := 15 * 4
abbrev ISOLATE_END_OFFSET : Nat := 20 * 4

/-- A null descriptor or device is used without a check, and the probe ends there. -/
def probeStep (t : Tree) (s : Probed b) (p : ProbeStep b) : Probed b :=
  if s.halted then s
  else match p with
    | .probeNode result name => probeNode (t.node name) result s
    | .requestIrqs =>
      { s with halted := (List.range CARFIELD_GPIO_N_IRQS).any fun i => !t.irqDesc i }
    | .iowrite m offsets =>
      { s with accesses := s.accesses ++ offsets.map fun i => ((s.mem m).vbase, i) }
    | .findSpatzDev => { s with halted := !t.spatzDev }

open CarfieldMem in
/-- No macro has the value `NATIVE`, so that `HERO_PLATFORM == NATIVE` is `0 == 0`. -/
def Carfield.cardPlatformDriverProbe : List (ProbeStep .carfield) :=
  [.probeNode socCtrlMem "soc-ctrl", .probeNode mboxesMem "mboxes",
    .probeNode idmaMem "idma", .probeNode pcieAxiBarMem "pcie-axi-bar-mem",
    .probeNode ctrlRegsMem "ctrl-regs", .probeNode gpioMem "gpio",
    .requestIrqs, .iowrite gpioMem [0x04, 0x34],
    .iowrite socCtrlMem (List.range' ISOLATE_BEGIN_OFFSET
      ((ISOLATE_END_OFFSET - ISOLATE_BEGIN_OFFSET) / 4) 4),
    .probeNode safetyIslandMem "safety-island",
    .probeNode integerClusterMem "integer-cluster",
    .probeNode spatzClusterMem "spatz-cluster", .findSpatzDev,
    .probeNode l2Intl0Mem "l2-intl-0", .probeNode l2Cont0Mem "l2-cont-0",
    .probeNode l2Intl1Mem "l2-intl-1", .probeNode l2Cont1Mem "l2-cont-1",
    .probeNode l3Mem "l3-buffer"]

open OccamyMem in
def Occamy.cardPlatformDriverProbe : List (ProbeStep .occamy) :=
  [.probeNode socCtrlMem "soc-control", .probeNode quadrantCtrlMem "quadrant-control",
    .probeNode clintMem "clint", .probeNode snitchClusterMem "snitch-cluster",
    .probeNode spmWideMem "spm-wide", .probeNode pcieAxiBarMem "pcie-axi-bar-mem"]

def Board.cardPlatformDriverProbe : (b : Board) → List (ProbeStep b)
  | .carfield => Carfield.cardPlatformDriverProbe
  | .occamy => Occamy.cardPlatformDriverProbe

def Probed.start : Probed b := ⟨fun _ => .zero, [], false⟩

def probe (t : Tree) (steps : List (ProbeStep b)) : Probed b := steps.foldl (probeStep t) .start

/-! ## Valid device data -/

def Vbase.IsMapped (v : Vbase) : Prop := ∃ r, v = .mapped r

def Desc.Valid (d : Desc) : Prop := d = .zero ∨ ∃ r, d = ⟨.mapped r, r.start, resourceSize r⟩

structure Probed.Valid (s : Probed b) : Prop where
  mem : ∀ m, (s.mem m).Valid
  accesses : ∀ a ∈ s.accesses, a.1.IsMapped

def Node.reserved (n : Node) : Option Resource := if n.present then n.memoryRegion.join else none

def ProbeStep.reserved (t : Tree) : ProbeStep b → Option Resource
  | .probeNode _ name => (t.node name).reserved
  | _ => none

/-- A missing node does not take a memory away that a phandle has led to. -/
def KeepsL3 (t : Tree) (before : List (ProbeStep b)) : ProbeStep b → Prop
  | .probeNode result name => (probe t before).halted = false →
      (t.node name).present = false → (∃ p ∈ before, p.reserved t ≠ none) →
        (probe t (before ++ [.probeNode result name])).mem b.l3Mem = (probe t before).mem b.l3Mem
  | _ => True

/-- In every state of the probe the data are valid, and every step keeps L3. -/
def ProbeSafe (t : Tree) (steps : List (ProbeStep b)) : Prop :=
  (∀ p, p <+: steps → (probe t p).Valid) ∧ ∀ p e, p ++ [e] <+: steps → KeepsL3 t p e

/-! ## Device trees that are good enough -/

def ProbeStep.runs (t : Tree) : ProbeStep b → Bool
  | .requestIrqs => (List.range CARFIELD_GPIO_N_IRQS).all t.irqDesc
  | .findSpatzDev => t.spatzDev
  | _ => true

/-- The node is there and its phandle leads somewhere if it has one; its region is mapped and
there in hardware. -/
def Node.works (n : Node) : Bool :=
  n.present && n.memoryRegion != some none && n.maps && n.firstWord != 0xbadcab1e

/-- No phandle has led to a memory whose address is its base, which must not be 0. -/
def NoL3 (t : Tree) (before : List (ProbeStep b)) : Prop :=
  ∀ p ∈ before, ∀ r ∈ p.reserved t, r.start = 0

/-- What a node needs can be mapped: the reserved memory, when L3 is not known, and the region.
A missing node is not the one for L3 after a phandle has led there. -/
def NodeMaps (t : Tree) (before : List (ProbeStep b)) (n : Node) (result : b.Mem) : Prop :=
  if n.present then n.memoryRegion = some none ∨ n.maps = true ∧
    (n.reserved ≠ none → NoL3 t before → result = b.l3Mem ∨ n.l3Maps = true)
  else result = b.l3Mem → ∀ p ∈ before, p.reserved t = none

/-- What is written has a node that works, and has been looked for. -/
def StepMaps (t : Tree) (before : List (ProbeStep b)) (p : ProbeStep b) : Prop :=
  (∀ q ∈ before, q.runs t = true) → match p with
    | .probeNode result name => NodeMaps t before (t.node name) result
    | .iowrite m offsets => offsets = [] ∨
        ∃ name, .probeNode m name ∈ before ∧ (t.node name).works = true
    | .requestIrqs => True
    | .findSpatzDev => True

/-! ## One node -/

theorem devmIoremapResource_valid_iff (r : Resource) (maps : Bool) :
    (Desc.mk (devmIoremapResource r maps) r.start (resourceSize r)).Valid ↔ maps = true := by
  cases maps with
  | true => exact iff_of_true (.inr ⟨r, rfl⟩) rfl
  | false =>
    refine iff_of_false ?_ Bool.false_ne_true
    rintro (heq | ⟨r', heq⟩)
    · cases heq
    · cases heq

theorem not_valid_err (d : Desc) : ¬ ({ d with vbase := .err } : Desc).Valid := by
  rintro (heq | ⟨r, heq⟩)
  · cases heq
  · cases heq

section
variable {s : Probed b} {m m' result : b.Mem} {d : Desc} {n : Node}

@[simp] theorem set_mem_self : (s.set m d).mem m = d := Function.update_self ..

theorem set_mem_ne (h : m' ≠ m) : (s.set m d).mem m' = s.mem m' := Function.update_of_ne h ..

structure ValidBut (result : b.Mem) (s : Probed b) : Prop where
  mem : ∀ m, m ≠ result → (s.mem m).Valid
  accesses : ∀ a ∈ s.accesses, a.1.IsMapped

theorem set_valid_iff : (s.set m d).Valid ↔ d.Valid ∧ ValidBut m s := by
  constructor
  · intro h
    refine ⟨?_, fun m' hm => ?_, h.accesses⟩
    · simpa only [set_mem_self] using h.mem m
    · simpa only [set_mem_ne hm] using h.mem m'
  · rintro ⟨hd, hmem, haccesses⟩
    refine ⟨fun m' => ?_, haccesses⟩
    by_cases hm : m' = m
    · subst hm
      rwa [set_mem_self]
    · rw [set_mem_ne hm]
      exact hmem m' hm

theorem Probed.Valid.but (h : s.Valid) (m : b.Mem) : ValidBut m s :=
  ⟨fun m' _ => h.mem m', h.accesses⟩

theorem validBut_set_iff (h : ValidBut m s) :
    ValidBut result (s.set m d) ↔ result = m ∨ d.Valid := by
  constructor
  · intro hbut
    by_cases hm : result = m
    · exact .inl hm
    · have hd := hbut.mem m (Ne.symm hm)
      rw [set_mem_self] at hd
      exact .inr hd
  · rintro (rfl | hd)
    · exact ⟨fun m' hm => (set_mem_ne hm).symm ▸ h.mem m' hm, h.accesses⟩
    · exact (set_valid_iff.mpr ⟨hd, h⟩).but result

theorem set_zero_valid (h : s.Valid) (m : b.Mem) : (s.set m .zero).Valid :=
  set_valid_iff.mpr ⟨.inl rfl, h.but m⟩

theorem probeReg_err (h : n.maps = false) :
    probeReg n result s = s.set result { s.mem result with vbase := .err } := by
  rw [probeReg, h]
  rfl

theorem probeReg_mapped (h : n.maps = true) : ∃ d : Desc, d.Valid ∧
    (probeReg n result s).mem = (s.set result d).mem ∧
    (probeReg n result s).accesses =
      s.accesses ++ [(.mapped n.tmpRes, 0), (.mapped n.tmpRes, 0)] := by
  rw [probeReg, h]
  by_cases hbad : n.firstWord = 0xbadcab1e
  · refine ⟨.zero, .inl rfl, ?_, ?_⟩
    · simp [devmIoremapResource, Probed.set, hbad]
    · simp [devmIoremapResource, Probed.set, hbad]
  · refine ⟨_, (devmIoremapResource_valid_iff n.tmpRes true).mpr rfl, ?_, ?_⟩
    · simp [devmIoremapResource, Probed.set, hbad]
    · simp [devmIoremapResource, Probed.set, hbad]

theorem probeReg_valid_iff : (probeReg n result s).Valid ↔ n.maps = true ∧ ValidBut result s := by
  cases hmaps : n.maps with
  | false =>
    rw [probeReg_err hmaps, set_valid_iff]
    exact iff_of_false (fun h => not_valid_err _ h.1) fun h => Bool.false_ne_true h.1
  | true =>
    obtain ⟨d, hd, hmem, haccesses⟩ := @probeReg_mapped _ s result n hmaps
    constructor
    · intro h
      refine ⟨rfl, fun m hm => ?_, fun a ha => h.accesses a ?_⟩
      · have hm' := h.mem m
        rwa [hmem, set_mem_ne hm] at hm'
      · rw [haccesses]
        exact List.mem_append_left _ ha
    · rintro ⟨-, hbut⟩
      have hset := set_valid_iff.mpr ⟨hd, hbut⟩
      refine ⟨fun m => ?_, fun a ha => ?_⟩
      · rw [hmem]
        exact hset.mem m
      · rw [haccesses] at ha
        rcases List.mem_append.mp ha with ha | ha
        · exact hbut.accesses a ha
        · have heq : a = (.mapped n.tmpRes, 0) := by simpa using ha
          rw [heq]
          exact ⟨_, rfl⟩

theorem probeMemoryRegion_spec (h : s.Valid) (n : Node) (result : b.Mem) :
    n.memoryRegion = some none ∧ probeMemoryRegion n s = (true, s) ∨
      n.memoryRegion ≠ some none ∧ (probeMemoryRegion n s).1 = false ∧
        (ValidBut result (probeMemoryRegion n s).2 ↔
          (n.memoryRegion.join ≠ none → (s.mem b.l3Mem).pbase = 0 →
            result = b.l3Mem ∨ n.l3Maps = true)) := by
  cases hregion : n.memoryRegion with
  | none =>
    rw [probeMemoryRegion, hregion]
    exact .inr ⟨nofun, rfl, iff_of_true (h.but result) fun hr => absurd rfl hr⟩
  | some region =>
    cases region with
    | none =>
      rw [probeMemoryRegion, hregion]
      exact .inl ⟨rfl, rfl⟩
    | some r =>
      refine .inr ⟨nofun, ?_⟩
      -- L3 is only filled in while it has no base
      by_cases hbase : (s.mem b.l3Mem).pbase = 0
      · have hnull : devmIoremapResource r n.l3Maps ≠ .null := by
          cases n.l3Maps <;> exact nofun
        have hopen : ValidBut b.l3Mem (s.set b.l3Mem
            { s.mem b.l3Mem with vbase := devmIoremapResource r n.l3Maps }) :=
          (validBut_set_iff (h.but _)).mpr (.inl rfl)
        have hset := (@validBut_set_iff _ _ _ result _ hopen).trans
          (or_congr_right (devmIoremapResource_valid_iff r n.l3Maps))
        have hregion : probeMemoryRegion n s = (false, (s.set b.l3Mem
            { s.mem b.l3Mem with vbase := devmIoremapResource r n.l3Maps }).set b.l3Mem
              ⟨devmIoremapResource r n.l3Maps, r.start, resourceSize r⟩) := by
          simp only [probeMemoryRegion, hregion, if_pos hbase, if_neg hnull]
        rw [hregion]
        exact ⟨rfl, hset.trans ⟨fun hr _ _ => hr, fun hr => hr nofun hbase⟩⟩
      · have hregion : probeMemoryRegion n s = (false, s) := by
          simp only [probeMemoryRegion, hregion, if_neg hbase]
        rw [hregion]
        exact ⟨rfl, iff_of_true (h.but result) fun _ hz => absurd hz hbase⟩

theorem probeNode_present_iff (h : s.Valid) (hn : n.present = true) :
    (probeNode n result s).Valid ↔ n.memoryRegion = some none ∨ n.maps = true ∧
      (n.reserved ≠ none → (s.mem b.l3Mem).pbase = 0 → result = b.l3Mem ∨ n.l3Maps = true) := by
  rw [probeNode, Node.reserved, if_pos hn, if_pos hn]
  obtain ⟨hregion, hspec⟩ | ⟨hregion, herror, hbut⟩ := probeMemoryRegion_spec h n result
  · rw [hspec]
    exact iff_of_true (set_zero_valid h result) (.inl hregion)
  · rw [or_iff_right hregion, ← hbut, ← probeReg_valid_iff]
    simp only [herror]
    rfl

theorem probeNode_absent (hn : n.present = false) :
    probeNode n result s = s.set result .zero := by
  rw [probeNode, hn]
  rfl

/-! ## What a node leaves alone -/

theorem probeMemoryRegion_ne (n : Node) (s : Probed b) (hm : m ≠ b.l3Mem) :
    (probeMemoryRegion n s).2.mem m = s.mem m := by
  unfold probeMemoryRegion
  split
  · rfl
  · rfl
  · dsimp only
    split_ifs
    · exact set_mem_ne hm
    · exact (set_mem_ne hm).trans (set_mem_ne hm)
    · rfl

theorem probeMemoryRegion_halted (n : Node) (s : Probed b) :
    (probeMemoryRegion n s).2.halted = s.halted := by
  unfold probeMemoryRegion
  split
  · rfl
  · rfl
  · dsimp only
    split_ifs <;> rfl

theorem probeReg_ne (n : Node) (s : Probed b) (hm : m ≠ result) :
    (probeReg n result s).mem m = s.mem m := by
  unfold probeReg
  dsimp only
  split_ifs
  · exact set_mem_ne hm
  · exact (set_mem_ne hm).trans (set_mem_ne hm)
  · exact set_mem_ne hm

theorem probeReg_halted (n : Node) (result : b.Mem) (s : Probed b) :
    (probeReg n result s).halted = s.halted := by
  unfold probeReg
  dsimp only
  split_ifs <;> rfl

theorem probeNode_ne (n : Node) (s : Probed b) (hm : m ≠ result) (hl3 : m ≠ b.l3Mem) :
    (probeNode n result s).mem m = s.mem m := by
  unfold probeNode
  dsimp only
  split_ifs
  · exact (set_mem_ne hm).trans (probeMemoryRegion_ne n s hl3)
  · exact (probeReg_ne n _ hm).trans (probeMemoryRegion_ne n s hl3)
  · exact set_mem_ne hm

theorem probeNode_halted (n : Node) (result : b.Mem) (s : Probed b) :
    (probeNode n result s).halted = s.halted := by
  unfold probeNode
  dsimp only
  split_ifs
  · exact probeMemoryRegion_halted n s
  · exact (probeReg_halted n result _).trans (probeMemoryRegion_halted n s)
  · rfl

/-! ## What a node fills in -/

theorem probeMemoryRegion_error (n : Node) (s : Probed b) :
    (probeMemoryRegion n s).1 = (n.memoryRegion == some none) := by
  unfold probeMemoryRegion
  split
  next hregion => rw [hregion]; rfl
  next hregion => rw [hregion]; rfl
  next r hregion =>
    have hnull : devmIoremapResource r n.l3Maps ≠ .null := by
      unfold devmIoremapResource
      split <;> exact nofun
    rw [hregion]
    dsimp only
    rw [if_neg hnull]
    split_ifs <;> rfl

theorem probeReg_self (hmaps : n.maps = true) (hword : n.firstWord ≠ 0xbadcab1e) :
    (probeReg n result s).mem result =
      ⟨.mapped n.tmpRes, n.tmpRes.start, resourceSize n.tmpRes⟩ := by
  unfold probeReg devmIoremapResource
  rw [hmaps, if_pos rfl, if_neg nofun, if_neg hword]
  exact set_mem_self

theorem not_isMapped_zero : ¬ Desc.zero.vbase.IsMapped := fun ⟨_, hr⟩ => nomatch hr

theorem probeReg_isMapped : ((probeReg n result s).mem result).vbase.IsMapped ↔
    n.maps = true ∧ n.firstWord ≠ 0xbadcab1e := by
  cases hmaps : n.maps with
  | false =>
    rw [probeReg_err hmaps, set_mem_self]
    exact iff_of_false (fun ⟨_, hr⟩ => nomatch hr) fun h => nomatch h.1
  | true =>
    by_cases hword : n.firstWord = 0xbadcab1e
    · have hzero : (probeReg n result s).mem result = .zero := by
        unfold probeReg devmIoremapResource
        rw [hmaps, if_pos rfl, if_neg nofun, if_pos hword]
        exact set_mem_self
      rw [hzero]
      exact iff_of_false not_isMapped_zero fun h => h.2 hword
    · rw [probeReg_self hmaps hword]
      exact iff_of_true ⟨_, rfl⟩ ⟨rfl, hword⟩

theorem probeNode_isMapped (n : Node) (result : b.Mem) (s : Probed b) :
    ((probeNode n result s).mem result).vbase.IsMapped ↔ n.works = true := by
  unfold probeNode Node.works
  dsimp only
  rw [probeMemoryRegion_error]
  cases n.present with
  | false => simp [not_isMapped_zero]
  | true =>
    cases hregion : n.memoryRegion == some none with
    | true => simp [not_isMapped_zero, bne, hregion]
    | false => simp [probeReg_isMapped, bne, hregion]

theorem probeNode_l3 (n : Node) (s : Probed b) (hresult : result ≠ b.l3Mem) :
    (probeNode n result s).mem b.l3Mem = match n.reserved with
      | some r => if (s.mem b.l3Mem).pbase = 0 then
          ⟨devmIoremapResource r n.l3Maps, r.start, resourceSize r⟩ else s.mem b.l3Mem
      | none => s.mem b.l3Mem := by
  have hregion : (probeMemoryRegion n s).2.mem b.l3Mem = match n.memoryRegion.join with
      | some r => if (s.mem b.l3Mem).pbase = 0 then
          ⟨devmIoremapResource r n.l3Maps, r.start, resourceSize r⟩ else s.mem b.l3Mem
      | none => s.mem b.l3Mem := by
    unfold probeMemoryRegion
    rcases n.memoryRegion with _ | _ | r
    · rfl
    · rfl
    · have hnull : devmIoremapResource r n.l3Maps ≠ .null := by
        cases n.l3Maps <;> exact nofun
      simp only [Option.join_some, if_neg hnull]
      split
      · exact set_mem_self
      · rfl
  unfold probeNode Node.reserved
  cases n.present with
  | false => exact set_mem_ne hresult.symm
  | true =>
    dsimp only
    rw [if_pos rfl, if_pos rfl, ← hregion]
    split
    · exact set_mem_ne hresult.symm
    · exact probeReg_ne n _ hresult.symm

end

/-! ## Whole probes -/

def ProbeStep.result? : ProbeStep b → Option b.Mem
  | .probeNode result _ => some result
  | _ => none

def ProbeStep.sparesL3 : ProbeStep b → Prop
  | .probeNode result _ => result ≠ b.l3Mem
  | _ => True

instance (p : ProbeStep b) : Decidable p.sparesL3 := match p with
  | .probeNode result _ => inferInstanceAs (Decidable (result ≠ b.l3Mem))
  | .requestIrqs => .isTrue trivial
  | .iowrite _ _ => .isTrue trivial
  | .findSpatzDev => .isTrue trivial

structure Ordered (steps : List (ProbeStep b)) : Prop where
  nodup : (steps.filterMap ProbeStep.result?).Nodup
  l3_last : ∀ p ∈ steps.dropLast, p.sparesL3
  l3_unwritten : ∀ p ∈ steps, ∀ offsets, p ≠ .iowrite b.l3Mem offsets

theorem cardPlatformDriverProbe_ordered (b : Board) : Ordered b.cardPlatformDriverProbe := by
  refine ⟨?_, ?_, fun p hp offsets => ?_⟩
  · cases b <;> decide
  · cases b <;> decide
  · rintro rfl
    cases b with
    | carfield =>
      simp only [Board.cardPlatformDriverProbe, Carfield.cardPlatformDriverProbe,
        List.mem_cons, List.not_mem_nil, or_false, reduceCtorEq, false_or] at hp
      rcases hp with hp | hp
      · cases hp
      · cases hp
    | occamy => simp [Board.cardPlatformDriverProbe, Occamy.cardPlatformDriverProbe] at hp

section
variable (t : Tree) {s : Probed b} {p : ProbeStep b} {before : List (ProbeStep b)}

theorem probe_concat (before : List (ProbeStep b)) (p : ProbeStep b) :
    probe t (before ++ [p]) = probeStep t (probe t before) p := List.foldl_append

theorem probeStep_node {result : b.Mem} {name : String} (hs : s.halted = false) :
    probeStep t s (.probeNode result name) = probeNode (t.node name) result s :=
  if_neg (Bool.eq_false_iff.mp hs)

theorem probeStep_halted (hs : s.halted = true) : probeStep t s p = s := if_pos hs

theorem probeStep_ne (s : Probed b) {m : b.Mem}
    (hp : ∀ result name, p = .probeNode result name → m ≠ result) (hl3 : m ≠ b.l3Mem) :
    (probeStep t s p).mem m = s.mem m := by
  unfold probeStep
  split
  · rfl
  · cases p with
    | probeNode result name => exact probeNode_ne _ s (hp result name rfl) hl3
    | _ => rfl

theorem probeStep_halted_iff (s : Probed b) (p : ProbeStep b) :
    (probeStep t s p).halted = false ↔ s.halted = false ∧ p.runs t = true := by
  cases hs : s.halted with
  | true =>
    rw [probeStep_halted t hs, hs]
    exact iff_of_false nofun fun h => nomatch h.1
  | false =>
    have hgo : ¬ s.halted = true := Bool.eq_false_iff.mp hs
    rw [and_iff_right rfl]
    cases p with
    | probeNode result name =>
      rw [probeStep, if_neg hgo]
      exact iff_of_true ((probeNode_halted ..).trans hs) rfl
    | requestIrqs =>
      rw [probeStep, if_neg hgo]
      simp [ProbeStep.runs]
    | iowrite m offsets =>
      rw [probeStep, if_neg hgo]
      exact iff_of_true hs rfl
    | findSpatzDev =>
      rw [probeStep, if_neg hgo]
      simp [ProbeStep.runs]

theorem probe_halted_iff (before : List (ProbeStep b)) :
    (probe t before).halted = false ↔ ∀ p ∈ before, p.runs t = true := by
  induction before using List.reverseRecOn with
  | nil => exact iff_of_true rfl fun _ hp => absurd hp List.not_mem_nil
  | append_singleton before p ih =>
    rw [probe_concat, probeStep_halted_iff, ih, List.forall_mem_append, List.forall_mem_singleton]

theorem noL3_concat (before : List (ProbeStep b)) (p : ProbeStep b) :
    NoL3 t (before ++ [p]) ↔ NoL3 t before ∧ ∀ r ∈ p.reserved t, r.start = 0 := by
  rw [NoL3, List.forall_mem_append, List.forall_mem_singleton, NoL3]

/-- L3 is the descriptor of nothing until a phandle leads there, and has no base until one leads
to a memory that is not at address 0. -/
theorem probe_l3 (hruns : ∀ p ∈ before, p.runs t = true) (hspares : ∀ p ∈ before, p.sparesL3) :
    (((probe t before).mem b.l3Mem).pbase = 0 ↔ NoL3 t before) ∧
      ((∃ p ∈ before, p.reserved t ≠ none) → (probe t before).mem b.l3Mem ≠ .zero) := by
  induction before using List.reverseRecOn with
  | nil =>
    exact ⟨iff_of_true rfl fun _ hp => absurd hp List.not_mem_nil,
      fun ⟨_, hp, _⟩ => absurd hp List.not_mem_nil⟩
  | append_singleton before p ih =>
    rw [List.forall_mem_append, List.forall_mem_singleton] at hruns hspares
    obtain ⟨hbase, hzero⟩ := ih hruns.1 hspares.1
    have hrun := (probe_halted_iff t before).mpr hruns.1
    have hsame (hr : p.reserved t = none)
        (hl3 : (probeStep t (probe t before) p).mem b.l3Mem = (probe t before).mem b.l3Mem) :
        (((probe t (before ++ [p])).mem b.l3Mem).pbase = 0 ↔ NoL3 t (before ++ [p])) ∧
          ((∃ q ∈ before ++ [p], q.reserved t ≠ none) →
            (probe t (before ++ [p])).mem b.l3Mem ≠ .zero) := by
      rw [probe_concat, hl3, noL3_concat, hbase, hr]
      refine ⟨(and_iff_left fun r hr => nomatch hr).symm, fun ⟨q, hq, hqr⟩ => ?_⟩
      rcases List.mem_append.mp hq with hq | hq
      · exact hzero ⟨q, hq, hqr⟩
      · rw [List.mem_singleton.mp hq] at hqr
        exact absurd hr hqr
    cases p with
    | probeNode result name =>
      have hl3 := probeNode_l3 (t.node name) (probe t before) hspares.2
      rw [← probeStep_node t hrun] at hl3
      cases hr : (t.node name).reserved with
      | none =>
        rw [hr] at hl3
        exact hsame hr hl3
      | some r =>
        rw [hr] at hl3
        have hrp : (ProbeStep.probeNode result name).reserved t = some r := hr
        rw [probe_concat, hl3, noL3_concat, hrp]
        dsimp only
        -- the first memory that is not at address 0 is the one that stays
        split
        next hz =>
          refine ⟨?_, fun _ heq => ?_⟩
          · exact ⟨fun h0 => ⟨hbase.mp hz, fun r' hr' => Option.some.inj hr' ▸ h0⟩,
              fun h0 => h0.2 r rfl⟩
          · have hvbase := congrArg Desc.vbase heq
            dsimp only at hvbase
            cases hmaps : (t.node name).l3Maps <;> rw [hmaps] at hvbase <;> cases hvbase
        next hz =>
          refine ⟨iff_of_false hz fun h0 => hz (hbase.mpr h0.1), fun _ heq => hz ?_⟩
          rw [heq]
          rfl
    | requestIrqs => exact hsame rfl (by rw [probeStep, if_neg (Bool.eq_false_iff.mp hrun)])
    | iowrite m offsets => exact hsame rfl (by rw [probeStep, if_neg (Bool.eq_false_iff.mp hrun)])
    | findSpatzDev => exact hsame rfl (by rw [probeStep, if_neg (Bool.eq_false_iff.mp hrun)])

theorem probe_isMapped_iff (hruns : ∀ p ∈ before, p.runs t = true)
    (hnodup : (before.filterMap ProbeStep.result?).Nodup) {m : b.Mem} (hm : m ≠ b.l3Mem) :
    ((probe t before).mem m).vbase.IsMapped ↔
      ∃ name, .probeNode m name ∈ before ∧ (t.node name).works = true := by
  induction before using List.reverseRecOn with
  | nil =>
    exact iff_of_false not_isMapped_zero fun ⟨_, hmem, _⟩ => absurd hmem List.not_mem_nil
  | append_singleton before p ih =>
    rw [List.forall_mem_append, List.forall_mem_singleton] at hruns
    rw [List.filterMap_append, List.nodup_append] at hnodup
    obtain ⟨hnodup, -, hnew⟩ := hnodup
    have hrun := (probe_halted_iff t before).mpr hruns.1
    by_cases hp : ∃ name, p = .probeNode m name
    · obtain ⟨name, rfl⟩ := hp
      rw [probe_concat, probeStep_node t hrun, probeNode_isMapped]
      constructor
      · exact fun hworks => ⟨name, List.mem_append_right _ List.mem_cons_self, hworks⟩
      · rintro ⟨name', hmem, hworks⟩
        rcases List.mem_append.mp hmem with hmem | hmem
        -- it has not been looked for before
        · exact absurd rfl (hnew m (List.mem_filterMap.mpr ⟨_, hmem, rfl⟩) m
            (List.mem_singleton_self _))
        · cases List.mem_singleton.mp hmem
          exact hworks
    · have hne : ∀ result name, p = .probeNode result name → m ≠ result := by
        rintro result name rfl rfl
        exact hp ⟨name, rfl⟩
      rw [probe_concat, probeStep_ne t _ hne hm, ih hruns.1 hnodup]
      refine exists_congr fun name => and_congr_left fun _ => ?_
      rw [List.mem_append, List.mem_singleton]
      exact (or_iff_left fun heq => hp ⟨name, heq.symm⟩).symm

theorem keepsL3_absent_iff (hruns : ∀ p ∈ before, p.runs t = true)
    (hspares : ∀ p ∈ before, p.sparesL3) {result : b.Mem} {name : String}
    (hn : (t.node name).present = false) :
    KeepsL3 t before (.probeNode result name) ↔
      (result = b.l3Mem → ∀ p ∈ before, p.reserved t = none) := by
  have hrun := (probe_halted_iff t before).mpr hruns
  have hstep : probe t (before ++ [.probeNode result name]) =
      (probe t before).set result .zero := by
    rw [probe_concat, probeStep_node t hrun, probeNode_absent hn]
  simp only [KeepsL3, hstep]
  constructor
  · rintro hkeep rfl
    by_contra hfound
    push Not at hfound
    have hzero := hkeep hrun hn hfound
    rw [set_mem_self] at hzero
    exact (probe_l3 t hruns hspares).2 hfound hzero.symm
  · rintro hmissing - - ⟨p, hp, hfound⟩
    exact set_mem_ne fun heq => hfound (hmissing heq.symm p hp)

theorem iowrite_valid_iff (h : s.Valid) (m : b.Mem) (offsets : List Nat) :
    ({ s with accesses := s.accesses ++ offsets.map fun i => ((s.mem m).vbase, i) } :
      Probed b).Valid ↔ offsets = [] ∨ (s.mem m).vbase.IsMapped := by
  constructor
  · intro hv
    cases offsets with
    | nil => exact .inl rfl
    | cons i offsets =>
      exact .inr (hv.accesses _ (List.mem_append_right _ List.mem_cons_self))
  · intro hmapped
    refine ⟨h.mem, fun a ha => ?_⟩
    rcases List.mem_append.mp ha with ha | ha
    · exact h.accesses a ha
    · obtain ⟨i, hi, rfl⟩ := List.mem_map.mp ha
      exact hmapped.resolve_left (List.ne_nil_of_mem hi)

theorem Ordered.of_prefix {steps : List (ProbeStep b)} (hsteps : Ordered steps)
    (hp : before ++ [p] <+: steps) :
    (∀ q ∈ before, q.sparesL3) ∧ (before.filterMap ProbeStep.result?).Nodup := by
  obtain ⟨after, rfl⟩ := hp
  have hne : [p] ++ after ≠ [] := List.cons_ne_nil p after
  have hnodup := hsteps.nodup
  rw [List.append_assoc, List.filterMap_append, List.nodup_append] at hnodup
  refine ⟨fun q hq => hsteps.l3_last q ?_, hnodup.1⟩
  rw [List.append_assoc, List.dropLast_append_of_ne_nil hne]
  exact List.mem_append_left _ hq

theorem probeStep_valid_iff {steps : List (ProbeStep b)} (hsteps : Ordered steps)
    (hp : before ++ [p] <+: steps) (h : (probe t before).Valid) :
    (probeStep t (probe t before) p).Valid ∧ KeepsL3 t before p ↔ StepMaps t before p := by
  obtain ⟨hspares, hnodup⟩ := hsteps.of_prefix hp
  unfold StepMaps
  by_cases hruns : ∀ q ∈ before, q.runs t = true
  · have hrun := (probe_halted_iff t before).mpr hruns
    have hgo : ¬ (probe t before).halted = true := Bool.eq_false_iff.mp hrun
    rw [forall_prop_of_true hruns]
    cases p with
    | probeNode result name =>
      change _ ↔ NodeMaps t before (t.node name) result
      cases hn : (t.node name).present with
      | true =>
        rw [probeStep_node t hrun, NodeMaps, if_pos hn, ← (probe_l3 t hruns hspares).1]
        refine (and_iff_left fun _ hn' _ => ?_).trans (probeNode_present_iff h hn)
        rw [hn] at hn'
        cases hn'
      | false =>
        -- a node that is not there clears its region, which must not be an L3 that was found
        rw [keepsL3_absent_iff t hruns hspares hn, probeStep_node t hrun, probeNode_absent hn,
          NodeMaps, hn, if_neg Bool.false_ne_true]
        exact and_iff_right (set_zero_valid h result)
    | requestIrqs =>
      rw [probeStep, if_neg hgo]
      exact iff_of_true ⟨⟨h.mem, h.accesses⟩, trivial⟩ trivial
    | iowrite m offsets =>
      have hm : m ≠ b.l3Mem := by
        rintro rfl
        exact hsteps.l3_unwritten _ (hp.subset (by simp)) offsets rfl
      change _ ↔ offsets = [] ∨ _
      rw [probeStep, if_neg hgo, ← probe_isMapped_iff t hruns hnodup hm]
      exact (and_iff_left trivial).trans (iowrite_valid_iff h m offsets)
    | findSpatzDev =>
      rw [probeStep, if_neg hgo]
      exact iff_of_true ⟨⟨h.mem, h.accesses⟩, trivial⟩ trivial
  · -- after a fault nothing happens
    have hhalted : (probe t before).halted = true :=
      (Bool.not_eq_false _).mp fun hrun => hruns ((probe_halted_iff t before).mp hrun)
    rw [probeStep_halted t hhalted]
    refine iff_of_true ⟨h, ?_⟩ fun hruns' => absurd hruns' hruns
    cases p with
    | probeNode result name => exact fun hrun => nomatch hrun.symm.trans hhalted
    | _ => trivial

end

/-- On both boards the device data stay valid all through the probe just when the device tree
gives each step what it needs. -/
theorem cardPlatformDriverProbe_safe_iff (t : Tree) (b : Board) :
    ProbeSafe t b.cardPlatformDriverProbe ↔
      ∀ p e, p ++ [e] <+: b.cardPlatformDriverProbe → StepMaps t p e :=
  Lts.forall_prefix_iff _ ⟨fun _ => .inl rfl, nofun⟩ fun hp h =>
    probeStep_valid_iff t (cardPlatformDriverProbe_ordered b) hp h

theorem cardPlatformDriverProbe_not_safe :
    ¬ ProbeSafe ⟨fun _ => ⟨true, none, ⟨0x20000000, 0x20000fff⟩, true, false, 0⟩, fun _ => true,
      true⟩ Board.carfield.cardPlatformDriverProbe := by
  rintro ⟨hvalid, -⟩
  have hfirst := (hvalid [.probeNode CarfieldMem.socCtrlMem "soc-ctrl"] ⟨_, rfl⟩).mem
    CarfieldMem.socCtrlMem
  exact not_valid_err .zero hfirst

end HeroTools.Driver
