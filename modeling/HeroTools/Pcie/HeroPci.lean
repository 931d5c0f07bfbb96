import HeroTools.Lib.Lts
import HeroTools.Pcie.HeroPcieDts

/-! The boards of the PCIe driver: what a probe builds from the device tree of a board, and what
is left of it once the board has gone. -/

namespace HeroTools.Pcie

/-! ## `hero_pcie_dts.c` -/

structure HeroPci where
  dtbBlob : Bool
  ovcsId : Int
  populated : Bool
deriving DecidableEq, Repr

/-- Whether a device has a node, and how the kernel answers the calls of one probe.
`of_overlay_fdt_apply` may store an id, which is positive if there is a changeset;
`of_platform_default_populate` makes devices of the new nodes, without a node of those at the
root, and may fail after it has made some. -/
structure ProbeCalls where
  ofNode : Bool
  pcimEnableDevice : Int
  devmKzalloc : Bool
  bar : Bar
  ioremap : Bool
  kzalloc : Bool
  dtbMap : Int → UInt8
  ofOverlayFdtApply : Int × Option Int
  ofPlatformDefaultPopulate : Int × Nat

inductive Held
  | window
  | dtbBlob
  | devices (n : Nat)
  | overlay (id : Int)
deriving DecidableEq, Repr

/-- With the private data comes what is held then, and whether the copy of the device tree has
left the window and the blob. -/
structure Probed where
  ret : Int
  data : HeroPci
  held : List Held
  overrun : Bool

/-- The errors of the overlay and of its devices are only logged. -/
def heroPciProbe (o : ProbeCalls) : Probed :=
  let data : HeroPci := ⟨false, -1, false⟩
  if o.pcimEnableDevice ≠ 0 then ⟨o.pcimEnableDevice, data, [], false⟩
  else if !o.devmKzalloc then ⟨-ENOMEM, data, [], false⟩
  else
    let d := barReadDtb o.bar o.ioremap o.kzalloc o.dtbMap
    let data := { data with dtbBlob := d.blob.isSome }
    let held : List Held :=
      (if d.mapped then [.window] else []) ++ if d.blob.isSome then [.dtbBlob] else []
    let overrun := !(d.reads ++ d.writes).all fun i => 0 ≤ i ∧ i < DTB_MAP_SIZE
    if d.ret ≠ 0 then ⟨d.ret, data, held, overrun⟩
    else
      let data : HeroPci := { data with ovcsId := o.ofOverlayFdtApply.2.getD data.ovcsId }
      let overlay : List Held := if data.ovcsId > 0 then [.overlay data.ovcsId] else []
      let (ret, n) := o.ofPlatformDefaultPopulate
      let data := { data with populated := ret = 0 }
      let devices : List Held := if n = 0 then [] else [.devices n]
      ⟨0, data, held ++ overlay ++ devices, overrun⟩

structure Board where
  slot : Nat
  ofNode : Bool
  data : HeroPci
  held : List Held
deriving DecidableEq, Repr

def kfree (held : List Held) : List Held := held.filter (· ≠ .dtbBlob)

def Held.isDevices : Held → Bool
  | .devices _ => true
  | _ => false

/-- Without a node the kernel finds nothing to depopulate. -/
def ofPlatformDepopulate (ofNode : Bool) (held : List Held) : List Held :=
  if ofNode then held.filter (!·.isDevices) else held

/-- What is still held afterwards. The kernel may refuse to remove the overlay. -/
def heroPciRemove (b : Board) (ofOverlayRemove : Int) : List Held :=
  let held := if b.data.dtbBlob then kfree b.held else b.held
  let held := if b.data.populated then ofPlatformDepopulate b.ofNode held else held
  if b.data.ovcsId > 0 ∧ ofOverlayRemove = 0 then held.filter (· ≠ .overlay b.data.ovcsId)
  else held

/-! ## Runs -/

/-- `left` has what no board holds any more, and has not been released. After an overrun nothing
is known of the memory. -/
structure Driver where
  registered : Bool
  bound : List Board
  left : List Held
  overrun : Bool
deriving DecidableEq, Repr

def Driver.unloaded : Driver := ⟨false, [], [], false⟩

inductive Event
  | init (pciRegisterDriver : Int)
  | probe (slot : Nat) (o : ProbeCalls)
  | remove (slot : Nat) (ofOverlayRemove : Int)
  | exit (ofOverlayRemove : Nat → Int)

def Driver.board (s : Driver) (slot : Nat) : Option Board := s.bound.find? fun b => b.slot = slot

def Driver.probed (s : Driver) (slot : Nat) (ofNode : Bool) (p : Probed) : Driver :=
  let s := { s with overrun := p.overrun }
  if p.ret = 0 then { s with bound := ⟨slot, ofNode, p.data, p.held⟩ :: s.bound }
  else { s with left := p.held ++ s.left }

/-- Unregistering the driver removes its boards. -/
def execEvent (s : Driver) (e : Event) : Option Driver :=
  if s.overrun then none
  else match e with
    | .init pciRegisterDriver =>
      if s.registered then none else some { s with registered := pciRegisterDriver = 0 }
    | .probe slot o =>
      if s.registered ∧ slot ∉ s.bound.map Board.slot then
        some (s.probed slot o.ofNode (heroPciProbe o))
      else none
    | .remove slot ofOverlayRemove => (s.board slot).map fun b =>
      { s with bound := s.bound.erase b, left := heroPciRemove b ofOverlayRemove ++ s.left }
    | .exit ofOverlayRemove =>
      if s.registered then
        some { s with
          registered := false
          bound := []
          left :=
            s.bound.flatMap (fun b => heroPciRemove b (ofOverlayRemove b.slot)) ++ s.left }
      else none

def exec (s : Driver) (e : Event) : Option (Event × Driver) := (execEvent s e).map fun t => (e, t)

def boards : Lts Driver Event := .ofExec exec

def ProbeCalls.Maps (o : ProbeCalls) : Prop :=
  (o.pcimEnableDevice = 0 ∧ o.devmKzalloc = true) ∧
    o.bar.start ≠ 0 ∧ o.bar.flags &&& IORESOURCE_MEM ≠ 0 ∧ o.ioremap = true

def ProbeCalls.Copies (o : ProbeCalls) : Prop :=
  be32ToCpu (ioread32 o.dtbMap 0) = 0xd00dfeed ∧ o.kzalloc = true ∧
    dtbSizeField o.dtbMap ≤ DTB_MAP_SIZE

/-- The devices have been made all, of a node, or not at all, and the kernel lets go of the
overlay. -/
def Removable (b : Board) (ofOverlayRemove : Int) : Prop :=
  (∀ n, .devices n ∈ b.held → b.data.populated = true ∧ b.ofNode = true) ∧
    ∀ id, .overlay id ∈ b.held → ofOverlayRemove = 0

def Clean (s : Driver) : Event → Prop
  | .init _ => True
  | .probe _ o => o.Maps → o.Copies
  | .remove slot ofOverlayRemove => ∀ b ∈ s.board slot, Removable b ofOverlayRemove
  | .exit ofOverlayRemove => ∀ b ∈ s.bound, Removable b (ofOverlayRemove b.slot)

/-! ## One board -/

structure Board.Ledger (b : Board) : Prop where
  dtbBlob : b.data.dtbBlob = true ∧ .dtbBlob ∈ b.held
  window : .window ∉ b.held
  overlay : ∀ id, .overlay id ∈ b.held → id = b.data.ovcsId ∧ id > 0

theorem barReadDtb_cases (bar : Bar) (ioremap kzalloc : Bool) (dtbMap : Int → UInt8) :
    ((barReadDtb bar ioremap kzalloc dtbMap).ret = 0 ∧
        (barReadDtb bar ioremap kzalloc dtbMap).blob.isSome = true ∧
        (barReadDtb bar ioremap kzalloc dtbMap).mapped = false ∨
      (barReadDtb bar ioremap kzalloc dtbMap).ret < 0 ∧
        (barReadDtb bar ioremap kzalloc dtbMap).blob.isSome = false) ∧
    ((barReadDtb bar ioremap kzalloc dtbMap).mapped = true ↔
      (bar.start ≠ 0 ∧ bar.flags &&& IORESOURCE_MEM ≠ 0 ∧ ioremap = true) ∧
        (be32ToCpu (ioread32 dtbMap 0) ≠ 0xd00dfeed ∨ kzalloc = false)) := by
  unfold barReadDtb
  by_cases hstart : bar.start = 0
  · simp [hstart, EINVAL]
  by_cases hflags : bar.flags &&& IORESOURCE_MEM = 0
  · simp [hstart, hflags, EINVAL]
  cases ioremap with
  | false => simp [hstart, hflags, ENOMEM]
  | true =>
    by_cases hmagic : be32ToCpu (ioread32 dtbMap 0) = 0xd00dfeed
    · cases kzalloc with
      | false => simp [hstart, hflags, hmagic, ENOMEM]
      | true => simp [hstart, hflags, hmagic]
    · simp [hstart, hflags, hmagic, EINVAL]

theorem barReadDtb_inside_iff (bar : Bar) (ioremap kzalloc : Bool) (dtbMap : Int → UInt8) :
    (∀ i ∈ (barReadDtb bar ioremap kzalloc dtbMap).reads ++
      (barReadDtb bar ioremap kzalloc dtbMap).writes, 0 ≤ i ∧ i < DTB_MAP_SIZE) ↔
      (bar.start ≠ 0 ∧ bar.flags &&& IORESOURCE_MEM ≠ 0 ∧ ioremap = true) →
        be32ToCpu (ioread32 dtbMap 0) = 0xd00dfeed → kzalloc = true →
          dtbSizeField dtbMap ≤ DTB_MAP_SIZE := by
  have hheader : ∀ i ∈ ([0, 1, 2, 3, 4, 5, 6, 7] : List Int), 0 ≤ i ∧ i < DTB_MAP_SIZE := by decide
  unfold barReadDtb
  by_cases hstart : bar.start = 0
  · simp [hstart]
  by_cases hflags : bar.flags &&& IORESOURCE_MEM = 0
  · simp [hstart, hflags]
  cases ioremap with
  | false => simp [hstart, hflags]
  | true =>
    by_cases hmagic : be32ToCpu (ioread32 dtbMap 0) = 0xd00dfeed
    · cases kzalloc with
      | false =>
        simp only [hstart, hflags, hmagic, ne_eq, not_true_eq_false, if_false, Bool.not_true,
          Bool.not_false, Bool.false_eq_true, if_true, List.append_nil, false_imp_iff, imp_true_iff,
          iff_true]
        exact hheader
      | true =>
        obtain ⟨hreads, hwrites⟩ := copyDtb_offsets dtbMap (dtbSizeField dtbMap)
        simp only [hstart, hflags, hmagic, ne_eq, not_true_eq_false, not_false_eq_true, if_false,
          Bool.not_true, Bool.false_eq_true, and_self, true_imp_iff, List.forall_mem_append]
        rw [← dtbSizeField, hreads, hwrites, copyDtb_inside_iff]
        exact ⟨fun h => h.2, fun h => ⟨⟨hheader, h⟩, h⟩⟩
    · simp only [hstart, hflags, hmagic, ne_eq, not_false_eq_true, if_false, if_true, Bool.not_true,
        Bool.false_eq_true, List.append_nil, false_imp_iff, imp_true_iff, iff_true]
      exact fun i hi => hheader i (List.mem_append_left [4, 5, 6, 7] hi)

section
variable {o : ProbeCalls}

theorem heroPciProbe_of_not_enabled
    (h : ¬ (o.pcimEnableDevice = 0 ∧ o.devmKzalloc = true)) :
    (heroPciProbe o).ret ≠ 0 ∧ (heroPciProbe o).held = [] ∧
      (heroPciProbe o).overrun = false := by
  unfold heroPciProbe
  by_cases henable : o.pcimEnableDevice = 0
  · have hdata : o.devmKzalloc = false := by simpa [henable] using h
    rw [if_neg (not_not.mpr henable), hdata]
    exact ⟨by simp [ENOMEM], rfl, rfl⟩
  · rw [if_pos henable]
    exact ⟨henable, rfl, rfl⟩

theorem heroPciProbe_enabled (h : o.pcimEnableDevice = 0 ∧ o.devmKzalloc = true) :
    let d := barReadDtb o.bar o.ioremap o.kzalloc o.dtbMap
    (heroPciProbe o).ret = d.ret ∧
      (heroPciProbe o).overrun = !(d.reads ++ d.writes).all (fun i => 0 ≤ i ∧ i < DTB_MAP_SIZE) ∧
      (d.ret ≠ 0 → (heroPciProbe o).held = if d.mapped then [.window] else []) := by
  intro d
  unfold heroPciProbe
  rw [if_neg (not_not.mpr h.1), h.2]
  dsimp only
  rw [if_neg (by decide : ¬ (!true) = true)]
  by_cases hret : d.ret = 0
  · rw [if_neg (not_not.mpr hret)]
    exact ⟨hret.symm, rfl, fun hne => absurd hret hne⟩
  · rw [if_pos hret]
    obtain ⟨⟨hz, -⟩ | ⟨-, hblob⟩, -⟩ := barReadDtb_cases o.bar o.ioremap o.kzalloc o.dtbMap
    · exact absurd hz hret
    · refine ⟨rfl, rfl, fun _ => ?_⟩
      rw [hblob, if_neg Bool.false_ne_true, List.append_nil]

/-- A probe leaves nothing behind just when it copies a short enough tree or maps nothing. -/
theorem heroPciProbe_clean_iff (o : ProbeCalls) :
    ((heroPciProbe o).ret ≠ 0 → (heroPciProbe o).held = []) ∧
      (heroPciProbe o).overrun = false ↔ (o.Maps → o.Copies) := by
  have hlogic : ∀ {A B C : Prop} (k : Bool), ¬ (A ∧ (¬ B ∨ k = false)) ∧ (A → B → k = true → C) ↔
      (A → B ∧ k = true ∧ C) := by
    intro A B C k
    cases k <;> by_cases hB : B <;> simp [hB]
  by_cases henabled : o.pcimEnableDevice = 0 ∧ o.devmKzalloc = true
  · obtain ⟨hret, hoverrun, hheld⟩ := heroPciProbe_enabled henabled
    obtain ⟨hcases, hmapped⟩ := barReadDtb_cases o.bar o.ioremap o.kzalloc o.dtbMap
    have hinside := barReadDtb_inside_iff o.bar o.ioremap o.kzalloc o.dtbMap
    have hleft : ((heroPciProbe o).ret ≠ 0 → (heroPciProbe o).held = []) ↔
        ¬ (barReadDtb o.bar o.ioremap o.kzalloc o.dtbMap).mapped = true := by
      rw [hret]
      rcases hcases with ⟨hz, -, hunmapped⟩ | ⟨hneg, -⟩
      · rw [hunmapped]
        exact iff_of_true (fun hne => absurd hz hne) Bool.false_ne_true
      · rw [forall_prop_of_true hneg.ne, hheld hneg.ne, ite_eq_right_iff]
        exact ⟨fun h hm => absurd (h hm) (List.cons_ne_nil _ _), fun h hm => absurd hm h⟩
    have hover : (heroPciProbe o).overrun = false ↔
        ∀ i ∈ (barReadDtb o.bar o.ioremap o.kzalloc o.dtbMap).reads ++
          (barReadDtb o.bar o.ioremap o.kzalloc o.dtbMap).writes,
            0 ≤ i ∧ i < DTB_MAP_SIZE := by
      rw [hoverrun, Bool.not_eq_false', List.all_eq_true]
      simp only [decide_eq_true_eq]
    rw [hleft, hover, hinside, hmapped, ProbeCalls.Maps, ProbeCalls.Copies, and_iff_right henabled]
    exact hlogic o.kzalloc
  · obtain ⟨-, hheld, hoverrun⟩ := heroPciProbe_of_not_enabled henabled
    exact iff_of_true ⟨fun _ => hheld, hoverrun⟩ fun h => absurd h.1 henabled

theorem heroPciProbe_bound (h : (heroPciProbe o).ret = 0) :
    (heroPciProbe o).data.dtbBlob = true ∧ (heroPciProbe o).held = [.dtbBlob] ++
      (if (heroPciProbe o).data.ovcsId > 0 then [.overlay (heroPciProbe o).data.ovcsId]
        else []) ++
      if o.ofPlatformDefaultPopulate.2 = 0 then []
        else [.devices o.ofPlatformDefaultPopulate.2] := by
  have henabled : o.pcimEnableDevice = 0 ∧ o.devmKzalloc = true := by
    by_contra hne
    exact (heroPciProbe_of_not_enabled hne).1 h
  obtain ⟨hret, -⟩ := heroPciProbe_enabled henabled
  rw [h] at hret
  obtain ⟨⟨-, hblob, hunmapped⟩ | ⟨hneg, -⟩, -⟩ :=
    barReadDtb_cases o.bar o.ioremap o.kzalloc o.dtbMap
  · unfold heroPciProbe
    rw [if_neg (not_not.mpr henabled.1), henabled.2]
    dsimp only
    rw [if_neg (by decide : ¬ (!true) = true), if_neg (not_not.mpr hret.symm), hblob, hunmapped]
    exact ⟨rfl, rfl⟩
  · exact absurd hret.symm hneg.ne

theorem heroPciProbe_ledger (h : (heroPciProbe o).ret = 0) (slot : Nat) (ofNode : Bool) :
    (Board.mk slot ofNode (heroPciProbe o).data (heroPciProbe o).held).Ledger := by
  obtain ⟨hblob, hheld⟩ := heroPciProbe_bound h
  have hmem : ∀ g : Held, g ∈ (heroPciProbe o).held ↔ g = .dtbBlob ∨
      (g = .overlay (heroPciProbe o).data.ovcsId ∧ (heroPciProbe o).data.ovcsId > 0) ∨
      (g = .devices o.ofPlatformDefaultPopulate.2 ∧ o.ofPlatformDefaultPopulate.2 ≠ 0) := by
    intro g
    rw [hheld, List.mem_append, List.mem_append, List.mem_singleton, or_assoc]
    refine or_congr_right (or_congr ?_ ?_)
    · split_ifs with hpos <;> simp [hpos]
    · split_ifs with hzero <;> simp [hzero]
  refine ⟨⟨hblob, (hmem _).mpr (.inl rfl)⟩, fun hwindow => ?_, fun id hid => ?_⟩
  · rcases (hmem _).mp hwindow with heq | ⟨heq, -⟩ | ⟨heq, -⟩ <;> cases heq
  · rcases (hmem _).mp hid with heq | ⟨heq, hpos⟩ | ⟨heq, -⟩
    · cases heq
    · cases heq
      exact ⟨rfl, hpos⟩
    · cases heq

theorem mem_heroPciRemove {b : Board} (hb : b.Ledger) {answer : Int} {h : Held} :
    h ∈ heroPciRemove b answer ↔ h ∈ b.held ∧ match h with
      | .window => True
      | .dtbBlob => False
      | .devices _ => ¬ (b.data.populated = true ∧ b.ofNode = true)
      | .overlay _ => answer ≠ 0 := by
  obtain ⟨⟨hblob, -⟩, -, hoverlay⟩ := hb
  have hfreed : h ∈ kfree b.held ↔ h ∈ b.held ∧ h ≠ .dtbBlob := by simp [kfree]
  have hdepopulated : h ∈ (if b.data.populated then ofPlatformDepopulate b.ofNode (kfree b.held)
      else kfree b.held) ↔ (h ∈ b.held ∧ h ≠ .dtbBlob) ∧
        (b.data.populated = true → b.ofNode = true → h.isDevices = false) := by
    unfold ofPlatformDepopulate
    cases b.data.populated <;> cases b.ofNode <;> simp [hfreed]
  unfold heroPciRemove
  rw [hblob]
  dsimp only
  rw [if_pos rfl]
  by_cases hremoved : b.data.ovcsId > 0 ∧ answer = 0
  · rw [if_pos hremoved, List.mem_filter, hdepopulated]
    cases h with
    | overlay id =>
      refine iff_of_false ?_ fun hkept => hkept.2 hremoved.2
      rintro ⟨⟨⟨hid, -⟩, -⟩, hne⟩
      exact of_decide_eq_true hne (congrArg Held.overlay (hoverlay id hid).1)
    | window | dtbBlob | devices => simp [Held.isDevices]
  · rw [if_neg hremoved, hdepopulated]
    cases h with
    | overlay id =>
      simp only [ne_eq, reduceCtorEq, not_false_eq_true, and_true, Held.isDevices, implies_true]
      refine (and_iff_left_of_imp fun hid => ?_).symm
      obtain ⟨heq, hpos⟩ := hoverlay id hid
      exact fun hz => hremoved ⟨heq ▸ hpos, hz⟩
    | window | dtbBlob | devices => simp [Held.isDevices]

theorem heroPciRemove_eq_nil_iff {b : Board} (hb : b.Ledger) (answer : Int) :
    heroPciRemove b answer = [] ↔ Removable b answer := by
  rw [List.eq_nil_iff_forall_not_mem]
  simp only [mem_heroPciRemove hb]
  constructor
  · intro h
    refine ⟨fun n hn => ?_, fun id hid => ?_⟩
    · exact not_not.mp (not_and.mp (h (.devices n)) hn)
    · exact not_not.mp (not_and.mp (h (.overlay id)) hid)
  · rintro ⟨hdevices, hoverlay⟩ h ⟨hmem, hkept⟩
    cases h with
    | window => exact hb.window hmem
    | dtbBlob => exact hkept
    | devices n => exact hkept (hdevices n hmem)
    | overlay id => exact hkept (hoverlay id hmem)

end

/-! ## Runs -/

variable {s t : Driver} {e : Event}

theorem step_event (h : boards.step s e t) : execEvent s e = some t := by
  obtain ⟨a, h⟩ := h
  obtain ⟨u, hu, h⟩ := Option.map_eq_some_iff.mp h
  obtain ⟨rfl, rfl⟩ := Prod.mk.inj h
  exact hu

theorem step_cases (h : boards.step s e t) : s.overrun = false ∧
    ((∃ answer, e = .init answer ∧ s.registered = false ∧
        t = { s with registered := answer = 0 }) ∨
      (∃ slot o, e = .probe slot o ∧ s.registered = true ∧ slot ∉ s.bound.map Board.slot ∧
        t = s.probed slot o.ofNode (heroPciProbe o)) ∨
      (∃ slot answer b, e = .remove slot answer ∧ s.board slot = some b ∧
        t = { s with bound := s.bound.erase b, left := heroPciRemove b answer ++ s.left }) ∨
      ∃ answer, e = .exit answer ∧ t = { s with
        registered := false
        bound := []
        left := s.bound.flatMap (fun b => heroPciRemove b (answer b.slot)) ++ s.left }) := by
  have hstep := step_event h
  unfold execEvent at hstep
  by_cases hoverrun : s.overrun = true
  · rw [if_pos hoverrun] at hstep
    cases hstep
  rw [if_neg hoverrun] at hstep
  refine ⟨Bool.not_eq_true _ ▸ hoverrun, ?_⟩
  cases e with
  | init answer =>
    dsimp only at hstep
    split_ifs at hstep with hreg
    exact .inl ⟨answer, rfl, Bool.not_eq_true _ ▸ hreg, (Option.some.inj hstep).symm⟩
  | probe slot o =>
    dsimp only at hstep
    split_ifs at hstep with hready
    exact .inr (.inl ⟨slot, o, rfl, hready.1, hready.2, (Option.some.inj hstep).symm⟩)
  | remove slot answer =>
    obtain ⟨b, hb, rfl⟩ := Option.map_eq_some_iff.mp hstep
    exact .inr (.inr (.inl ⟨slot, answer, b, rfl, hb, rfl⟩))
  | exit answer =>
    dsimp only at hstep
    split_ifs at hstep
    exact .inr (.inr (.inr ⟨answer, rfl, (Option.some.inj hstep).symm⟩))

structure WellFormed (s : Driver) : Prop where
  slots : (s.bound.map Board.slot).Nodup
  ledgers : ∀ b ∈ s.bound, b.Ledger
  unloaded : s.registered = false → s.bound = []

theorem WellFormed.step (hs : WellFormed s) (h : boards.step s e t) : WellFormed t := by
  obtain ⟨-, ⟨answer, -, hreg, rfl⟩ | ⟨slot, o, -, hreg, hfree, rfl⟩ |
    ⟨slot, answer, b, -, hb, rfl⟩ | ⟨answer, -, rfl⟩⟩ := step_cases h
  · exact ⟨hs.slots, hs.ledgers, fun _ => hs.unloaded hreg⟩
  · by_cases hret : (heroPciProbe o).ret = 0
    · simp only [Driver.probed, hret, if_true]
      refine ⟨List.nodup_cons.mpr ⟨hfree, hs.slots⟩,
        List.forall_mem_cons.mpr ⟨heroPciProbe_ledger hret slot _, hs.ledgers⟩, fun hunreg => ?_⟩
      exact absurd (hreg.symm.trans hunreg) Bool.true_eq_false.mp
    · simp only [Driver.probed, hret, if_false]
      exact ⟨hs.slots, hs.ledgers, hs.unloaded⟩
  · refine ⟨hs.slots.sublist (List.erase_sublist.map _),
      fun c hc => hs.ledgers c (List.mem_of_mem_erase hc), fun hreg => ?_⟩
    have hmem := List.mem_of_find?_eq_some hb
    rw [hs.unloaded hreg] at hmem
    exact absurd hmem List.not_mem_nil
  · exact ⟨List.nodup_nil, fun _ hb => absurd hb List.not_mem_nil, fun _ => rfl⟩

def Released (s : Driver) : Prop := s.left = [] ∧ s.overrun = false

theorem released_step_iff (hs : WellFormed s) (h : boards.step s e t) :
    Released t ↔ Released s ∧ Clean s e := by
  obtain ⟨hoverrun, ⟨answer, rfl, -, rfl⟩ | ⟨slot, o, rfl, -, -, rfl⟩ |
    ⟨slot, answer, b, rfl, hb, rfl⟩ | ⟨answer, rfl, rfl⟩⟩ := step_cases h
  · exact (and_iff_left trivial).symm
  · rw [Clean, ← heroPciProbe_clean_iff, Released, Released, Driver.probed]
    by_cases hret : (heroPciProbe o).ret = 0
    · simp [hret, hoverrun]
    · simp [hret, hoverrun]
      tauto
  · have hledger := hs.ledgers b (List.mem_of_find?_eq_some hb)
    rw [Clean, hb, Released, Released, List.append_eq_nil_iff, heroPciRemove_eq_nil_iff hledger]
    simp only [Option.mem_some_iff, forall_eq', hoverrun, and_true]
    exact and_comm
  · rw [Clean, Released, Released, List.append_eq_nil_iff, List.flatMap_eq_nil_iff]
    simp only [hoverrun, and_true]
    rw [and_comm]
    exact and_congr_right fun _ => forall₂_congr fun b hb =>
      heroPciRemove_eq_nil_iff (hs.ledgers b hb) _

/-- Over every run, all that is mapped, allocated or added to the device tree for a board is
released again and nothing is copied out of or into other memory just if every probe that maps
the window copies a tree that fits it, and no board is removed whose devices could be made in
part only or without a node, or whose overlay the kernel keeps. -/
theorem hero_pci_releases_iff {tr : List (Driver × Event)} (h : boards.Run .unloaded tr s) :
    (Released s ↔ ∀ p ∈ tr, Clean p.1 p.2) ∧ WellFormed s := by
  have hstart : WellFormed .unloaded :=
    ⟨List.nodup_nil, fun _ hb => absurd hb List.not_mem_nil, fun _ => rfl⟩
  have hinv : WellFormed s := h.invariant hstart fun hu hstep => hu.step hstep
  have hreleased : Released s ↔ ∀ p ∈ tr, Clean p.1 p.2 :=
    h.good_iff (G := Released) hstart ⟨rfl, rfl⟩ (fun hu hstep => hu.step hstep)
      fun hu hstep => released_step_iff hu hstep
  exact ⟨hreleased, hinv⟩

def smallTree (k : Int) : UInt8 :=
  if k = 0 then 0xd0 else if k = 1 then 0x0d else if k = 2 then 0xfe else if k = 3 then 0xed
    else if k = 7 then 8 else 0

theorem board_bar_ends : 0x100000000 + 0x100000000 ≤ 2 ^ 64 := by norm_num

def boardCalls (populate : Int) : ProbeCalls where
  ofNode := true
  pcimEnableDevice := 0
  devmKzalloc := true
  bar := ⟨0x100000000, IORESOURCE_MEM, 0x100000000, board_bar_ends⟩
  ioremap := true
  kzalloc := true
  dtbMap := smallTree
  ofOverlayFdtApply := (0, some 1)
  ofPlatformDefaultPopulate := (populate, 2)

theorem hero_pci_releases_iff_two_boards : ∃ tr s, boards.Run .unloaded tr s ∧
    s = ⟨true, [], [.devices 2], false⟩ ∧ ¬ ∀ p ∈ tr, Clean p.1 p.2 := by
  have hall : (Lts.replay exec .unloaded [.init 0, .probe 0 (boardCalls 0),
      .probe 1 (boardCalls (-22)), .remove 0 0, .remove 1 0]).map Prod.snd =
        some ⟨true, [], [.devices 2], false⟩ := by
    decide +kernel
  obtain ⟨⟨tr, s⟩, hr, rfl⟩ := Option.map_eq_some_iff.mp hall
  have hrun := Lts.replay_run hr
  refine ⟨tr, _, hrun, rfl, fun hclean => ?_⟩
  have hreleased := (hero_pci_releases_iff hrun).1.mpr hclean
  cases hreleased.1

end HeroTools.Pcie
