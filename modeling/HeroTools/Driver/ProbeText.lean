import HeroTools.Driver.ProbeNode
import HeroTools.Lib.Words

/-! The information text that the probes of the two platform drivers print for `card_read`. -/

namespace HeroTools.Driver
variable {b : Board}

abbrev PDATA_SIZE : Nat := 2048

/-! ## Formats -/

/-- `%px`: a pointer is printed with all its digits. -/
def px (x : Nat) : List Char :=
  (List.range 16).map fun i => (x / 16 ^ (15 - i) % 16).digitChar

/-- `%x`: an `unsigned int`, so that of a longer argument the lower half is printed. -/
def hex (x : Nat) : List Char := Nat.toDigits 16 (x % 2 ^ 32)

def dec (x : Nat) : List Char :=
  let i := toInt32 x
  if i < 0 then '-' :: Nat.toDigits 10 i.natAbs else Nat.toDigits 10 i.natAbs

theorem length_px (x : Nat) : (px x).length = 16 := by
  rw [px, List.length_map, List.length_range]

theorem length_hex_le (x : Nat) : (hex x).length ≤ 8 := by
  have hlt : x % 2 ^ 32 < 16 ^ 8 := (Nat.mod_lt x (Nat.two_pow_pos 32)).trans_eq (by norm_num)
  exact (Nat.length_toDigits_le_iff (by norm_num) (by norm_num)).mpr hlt

theorem length_dec_le (x : Nat) : (dec x).length ≤ 11 := by
  have hdigits : (Nat.toDigits 10 (toInt32 x).natAbs).length ≤ 10 := by
    apply (Nat.length_toDigits_le_iff (by norm_num) (by norm_num)).mpr
    unfold toInt32
    split_ifs <;> omega
  unfold dec
  dsimp only
  split_ifs
  · exact Nat.succ_le_succ hdigits
  · exact hdigits.trans (Nat.le_succ 10)

theorem length_dec_le_one {x : Nat} (hx : x ≤ 1) : (dec x).length = 1 := by
  rcases Nat.le_one_iff_eq_zero_or_eq_one.mp hx with rfl | rfl
  · decide
  · decide

/-! ## Reading digits -/

def digit (c : Char) : Nat := if c.isDigit then c.toNat - '0'.toNat else c.toNat - 'a'.toNat + 10

def digitsValue (cs : List Char) : Nat := cs.foldl (fun n c => 16 * n + digit c) 0

theorem digitsValue_append (cs : List Char) {d : Nat} (hd : d < 16) :
    digitsValue (cs ++ [d.digitChar]) = 16 * digitsValue cs + d := by
  have hdigit : ∀ d < 16, digit d.digitChar = d := by decide
  rw [digitsValue, List.foldl_append, List.foldl_cons, List.foldl_nil, hdigit d hd]
  rfl

theorem digitsValue_toDigits (x : Nat) : digitsValue (Nat.toDigits 16 x) = x := by
  induction x using Nat.strongRecOn with
  | ind x ih =>
    rcases Nat.lt_or_ge x 16 with hx | hx
    · rw [Nat.toDigits_of_lt_base hx]
      exact (digitsValue_append [] hx).trans (Nat.zero_add x)
    · have hlast : x % 16 < 16 := Nat.mod_lt x (by norm_num)
      rw [Nat.toDigits_of_base_le (by norm_num) hx, digitsValue_append _ hlast,
        ih (x / 16) (by omega)]
      exact Nat.div_add_mod x 16

theorem digitsValue_hex (x : Nat) : digitsValue (hex x) = x % 2 ^ 32 := digitsValue_toDigits _

theorem digitsValue_range (n x : Nat) :
    digitsValue ((List.range n).map fun i => (x / 16 ^ (n - 1 - i) % 16).digitChar) =
      x % 16 ^ n := by
  induction n generalizing x with
  | zero => rw [Nat.pow_zero, Nat.mod_one]; rfl
  | succ n ih =>
    have hinit : ∀ i ∈ List.range n, (x / 16 ^ (n + 1 - 1 - i) % 16).digitChar =
        (x / 16 / 16 ^ (n - 1 - i) % 16).digitChar := by
      intro i hi
      have hexp : n + 1 - 1 - i = n - 1 - i + 1 := by
        have := List.mem_range.mp hi
        omega
      rw [hexp, Nat.div_div_eq_div_mul, Nat.pow_succ, Nat.mul_comm 16]
    have hlast : x / 16 ^ (n + 1 - 1 - n) % 16 = x % 16 := by
      rw [Nat.add_sub_cancel, Nat.sub_self, Nat.pow_zero, Nat.div_one]
    rw [List.range_succ, List.map_append, List.map_singleton, hlast,
      digitsValue_append _ (Nat.mod_lt x (by norm_num)), List.map_congr_left hinit, ih (x / 16),
      Nat.pow_succ, Nat.mul_comm (16 ^ n), Nat.mod_mul, Nat.add_comm]

theorem digitsValue_px (x : Nat) : digitsValue (px x) = x % 2 ^ 64 := by
  have hdigits := digitsValue_range 16 x
  norm_num at hdigits ⊢
  exact hdigits

/-! ## Lines -/

/-- A line about a reserved memory, under the name of the node that a phandle led to, or about
the region of a node that the probe looks for. -/
inductive InfoLine
  | reserved (name : List Char) (pbase size : Nat)
  | region (name : String) (pbase size : Nat)
deriving DecidableEq, Repr

/-- "%s: %px size = %x\n" -/
def infoLine (name : List Char) (pbase size : Nat) : List Char :=
  name ++ ": ".toList ++ px pbase ++ " size = ".toList ++ hex size ++ ['\n']

def InfoLine.text : InfoLine → List Char
  | .reserved name pbase size => infoLine name pbase size
  | .region name pbase size => infoLine name.toList pbase size

theorem length_infoLine (name : List Char) (pbase size : Nat) :
    (infoLine name pbase size).length = name.length + 27 + (hex size).length := by
  have hcolon : ": ".toList.length = 2 := rfl
  have hsize : " size = ".toList.length = 8 := rfl
  simp only [infoLine, List.length_append, length_px, hcolon, hsize, List.length_singleton]
  omega

/-- The base and the size that a line about `name` shows. -/
def readLine (name line : List Char) : Nat × Nat :=
  let values := line.drop (name ++ ": ".toList).length
  (digitsValue (values.take 16),
    digitsValue ((values.drop (16 + " size = ".toList.length)).dropLast))

theorem read_infoLine (name : List Char) (pbase size : Nat) :
    readLine name (infoLine name pbase size) = (pbase % 2 ^ 64, size % 2 ^ 32) := by
  have hvalues : (infoLine name pbase size).drop (name ++ ": ".toList).length =
      px pbase ++ (" size = ".toList ++ (hex size ++ ['\n'])) := by
    have hline : infoLine name pbase size =
        (name ++ ": ".toList) ++ (px pbase ++ (" size = ".toList ++ (hex size ++ ['\n']))) := by
      simp only [infoLine, List.append_assoc]
    rw [hline, List.drop_left]
  have hbase : (px pbase ++ (" size = ".toList ++ (hex size ++ ['\n']))).take 16 = px pbase := by
    rw [← length_px pbase, List.take_left]
  have hsize : (px pbase ++ (" size = ".toList ++ (hex size ++ ['\n']))).drop
      (16 + " size = ".toList.length) = hex size ++ ['\n'] := by
    rw [← List.append_assoc, ← length_px pbase, ← List.length_append, List.drop_left]
  unfold readLine
  dsimp only
  rw [hvalues, hbase, hsize, List.dropLast_concat, digitsValue_px, digitsValue_hex]

/-! ## `carfield_driver.c`, `occamy_driver.c` -/

/-- What the text takes from a device tree besides: the name of the node that the phandle of a
node leads to, and the number of cores that the node of the cluster tells. Whether the literal
`"snitch-cluster"` has one address is up to the compiler. -/
structure InfoTree extends Tree where
  regionName : String → List Char
  computeCores : Option Nat
  oneLiteral : Bool

/-- The device data and what has been printed to `buffer`. -/
structure Info (b : Board) where
  dev : Probed b
  lines : List InfoLine
  nCores : Nat
  nClusters : Nat
  nQuadrants : Nat

def reservedLines (t : InfoTree) (name : String) (s : Probed b) : List InfoLine :=
  match (t.node name).memoryRegion with
  | some (some tmpMemRes) =>
    if (s.mem b.l3Mem).pbase = 0 ∧
        devmIoremapResource tmpMemRes (t.node name).l3Maps ≠ .null then
      [.reserved (t.regionName name) tmpMemRes.start (resourceSize tmpMemRes)]
    else []
  | _ => []

/-- What `probe_node` prints, and whether it gets to the region's own line. -/
def printNode (t : InfoTree) (result : b.Mem) (name : String) (s : Probed b) :
    List InfoLine × Bool :=
  let n := t.node name
  if n.present then
    let (error, s') := probeMemoryRegion n s
    if error || devmIoremapResource n.tmpRes n.maps = .err then
      (reservedLines t name s, false)
    else
      let d := (probeReg n result s').mem result
      (reservedLines t name s ++ [.region name d.pbase d.size], true)
  else ([], false)

def readSnitchCluster (t : InfoTree) (i : Info b) : Info b :=
  { i with
    nCores := t.computeCores.getD i.nCores
    nClusters := i.nClusters + 1
    nQuadrants := i.nQuadrants + 1 }

def countsClusters (t : InfoTree) (b : Board) (name : String) : Bool :=
  b == .occamy && t.oneLiteral && name == "snitch-cluster"

def infoStep (t : InfoTree) (i : Info b) (p : ProbeStep b) : Info b :=
  let i' := { i with dev := probeStep t.toTree i.dev p }
  match p with
  | .probeNode result name =>
    if i.dev.halted then i'
    else
      let (lines, mapped) := printNode t result name i.dev
      let i' := { i' with lines := i.lines ++ lines }
      if mapped && countsClusters t b name then readSnitchCluster t i' else i'
  | _ => i'

def Info.start : Info b := ⟨.start, [], 0, 0, 0⟩

def info (t : InfoTree) (steps : List (ProbeStep b)) : Info b := steps.foldl (infoStep t) .start

def detailsTitle : List Char := "(n_cores, n_clusters, n_quadrants) = ".toList

/-- "(n_cores, n_clusters, n_quadrants) = (%i, %i, %i)\n" -/
def Info.details (i : Info b) : List Char :=
  detailsTitle ++ ['('] ++ dec i.nCores ++ [',', ' '] ++ dec i.nClusters ++ [',', ' '] ++
    dec i.nQuadrants ++ [')', '\n']

def information : (b : Board) → InfoTree → List Char
  | .carfield, t => (info t Carfield.cardPlatformDriverProbe).lines.flatMap InfoLine.text
  | .occamy, t =>
    let i := info t Occamy.cardPlatformDriverProbe
    i.lines.flatMap InfoLine.text ++ i.details

/-! ## How long the text gets -/

section
variable {t : InfoTree} {N : Nat} {result : b.Mem} {name : String}

def Info.text (i : Info b) : List Char := i.lines.flatMap InfoLine.text

def ProbeStep.room (N : Nat) : ProbeStep b → Nat
  | .probeNode _ name => N + 35 + (name.length + 35)
  | _ => 0

theorem length_infoLine_le (name : List Char) (pbase size : Nat) :
    (infoLine name pbase size).length ≤ name.length + 35 := by
  have hhex := length_hex_le size
  rw [length_infoLine]
  omega

theorem length_reservedLines_le (hN : (t.regionName name).length ≤ N) (s : Probed b) :
    ((reservedLines t name s).flatMap InfoLine.text).length ≤ N + 35 := by
  unfold reservedLines
  split
  next r _ =>
    split
    · have hline := length_infoLine_le (t.regionName name) r.start (resourceSize r)
      rw [List.flatMap_singleton]
      exact hline.trans (Nat.add_le_add_right hN 35)
    · exact Nat.zero_le _
  · exact Nat.zero_le _

theorem length_printNode_le (hN : (t.regionName name).length ≤ N) (s : Probed b) :
    ((printNode t result name s).1.flatMap InfoLine.text).length ≤
      N + 35 + (name.length + 35) := by
  have hreserved := length_reservedLines_le hN s
  unfold printNode
  dsimp only
  split
  · split
    · exact hreserved.trans (Nat.le_add_right _ _)
    · rw [List.flatMap_append, List.length_append, List.flatMap_singleton]
      exact Nat.add_le_add hreserved (length_infoLine_le _ _ _)
  · exact Nat.zero_le _

theorem info_concat (t : InfoTree) (steps : List (ProbeStep b)) (p : ProbeStep b) :
    info t (steps ++ [p]) = infoStep t (info t steps) p := List.foldl_append

def stepLines (t : InfoTree) (s : Probed b) : ProbeStep b → List InfoLine
  | .probeNode result name => if s.halted then [] else (printNode t result name s).1
  | _ => []

theorem infoStep_dev (t : InfoTree) (i : Info b) (p : ProbeStep b) :
    (infoStep t i p).dev = probeStep t.toTree i.dev p := by
  cases p with
  | probeNode result name =>
    unfold infoStep
    dsimp only
    split_ifs <;> rfl
  | _ => rfl

theorem infoStep_lines (t : InfoTree) (i : Info b) (p : ProbeStep b) :
    (infoStep t i p).lines = i.lines ++ stepLines t i.dev p := by
  cases p with
  | probeNode result name =>
    unfold infoStep stepLines
    dsimp only
    by_cases hhalted : i.dev.halted = true
    · rw [if_pos hhalted, if_pos hhalted, List.append_nil]
    · rw [if_neg hhalted, if_neg hhalted]
      split_ifs <;> rfl
  | _ => exact (List.append_nil _).symm

theorem info_dev (t : InfoTree) (steps : List (ProbeStep b)) :
    (info t steps).dev = probe t.toTree steps := by
  induction steps using List.reverseRecOn with
  | nil => rfl
  | append_singleton steps p ih =>
    rw [info_concat, infoStep_dev, ih, probe, probe, List.foldl_append]
    rfl

theorem length_text_le (hN : ∀ name, (t.regionName name).length ≤ N)
    (steps : List (ProbeStep b)) :
    (info t steps).text.length ≤ (steps.map (ProbeStep.room N)).sum := by
  induction steps using List.reverseRecOn with
  | nil => exact Nat.zero_le _
  | append_singleton steps p ih =>
    have hstep : ((stepLines t (info t steps).dev p).flatMap InfoLine.text).length ≤ p.room N := by
      cases p with
      | probeNode result name =>
        by_cases hhalted : (info t steps).dev.halted = true
        · rw [stepLines, if_pos hhalted]
          exact Nat.zero_le _
        · rw [stepLines, if_neg hhalted]
          exact length_printNode_le (hN name) _
      | _ => exact Nat.zero_le _
    rw [info_concat, Info.text, infoStep_lines, List.flatMap_append, List.length_append,
      List.map_append, List.sum_append, List.map_singleton, List.sum_singleton]
    exact Nat.add_le_add ih hstep

def ProbeStep.names (name : String) : ProbeStep b → Bool
  | .probeNode _ name' => name' == name
  | _ => false

theorem infoStep_clusters (t : InfoTree) (i : Info b) (p : ProbeStep b) :
    (infoStep t i p).nClusters = i.nClusters ∧ (infoStep t i p).nQuadrants = i.nQuadrants ∨
      p.names "snitch-cluster" = true ∧ (infoStep t i p).nClusters = i.nClusters + 1 ∧
        (infoStep t i p).nQuadrants = i.nQuadrants + 1 := by
  cases p with
  | probeNode result name =>
    unfold infoStep
    dsimp only
    split_ifs with hhalted hcounts
    · exact .inl ⟨rfl, rfl⟩
    · simp only [countsClusters, Bool.and_eq_true] at hcounts
      exact .inr ⟨hcounts.2.2, rfl, rfl⟩
    · exact .inl ⟨rfl, rfl⟩
  | _ => exact .inl ⟨rfl, rfl⟩

theorem nClusters_le (t : InfoTree) (steps : List (ProbeStep b)) :
    (info t steps).nClusters ≤ steps.countP (ProbeStep.names "snitch-cluster") ∧
      (info t steps).nQuadrants ≤ steps.countP (ProbeStep.names "snitch-cluster") := by
  induction steps using List.reverseRecOn with
  | nil => exact ⟨Nat.le_refl 0, Nat.le_refl 0⟩
  | append_singleton steps p ih =>
    rw [info_concat, List.countP_append, List.countP_singleton]
    rcases infoStep_clusters t (info t steps) p with ⟨hc, hq⟩ | ⟨hname, hc, hq⟩
    · rw [hc, hq]
      exact ⟨ih.1.trans (Nat.le_add_right _ _), ih.2.trans (Nat.le_add_right _ _)⟩
    · rw [hc, hq, if_pos hname]
      exact ⟨Nat.add_le_add_right ih.1 1, Nat.add_le_add_right ih.2 1⟩

theorem length_details {i : Info b} (hclusters : i.nClusters ≤ 1)
    (hquadrants : i.nQuadrants ≤ 1) : i.details.length = (dec i.nCores).length + 46 := by
  have htitle : detailsTitle.length = 37 := by decide +kernel
  simp only [Info.details, List.length_append, List.length_cons, List.length_nil, htitle,
    length_dec_le_one hclusters, length_dec_le_one hquadrants]
  omega

def ProbeStep.isProbeNode : ProbeStep b → Bool
  | .probeNode _ _ => true
  | _ => false

theorem sum_room (N : Nat) (steps : List (ProbeStep b)) :
    (steps.map (ProbeStep.room N)).sum =
      N * steps.countP ProbeStep.isProbeNode + (steps.map (ProbeStep.room 0)).sum := by
  induction steps with
  | nil => rfl
  | cons p steps ih =>
    rw [List.map_cons, List.sum_cons, ih, List.countP_cons, List.map_cons, List.sum_cons]
    cases p with
    | probeNode result name =>
      simp only [ProbeStep.room, ProbeStep.isProbeNode, if_true, Nat.mul_add]
      omega
    | _ => simp [ProbeStep.room, ProbeStep.isProbeNode]

theorem carfield_room (N : Nat) :
    (Carfield.cardPlatformDriverProbe.map (ProbeStep.room N)).sum = N * 14 + 1113 := by
  have hsteps : Carfield.cardPlatformDriverProbe.countP ProbeStep.isProbeNode = 14 ∧
      (Carfield.cardPlatformDriverProbe.map (ProbeStep.room 0)).sum = 1113 := by decide
  rw [sum_room, hsteps.1, hsteps.2]

theorem occamy_room (N : Nat) :
    (Occamy.cardPlatformDriverProbe.map (ProbeStep.room N)).sum = N * 6 + 490 := by
  have hsteps : Occamy.cardPlatformDriverProbe.countP ProbeStep.isProbeNode = 6 ∧
      (Occamy.cardPlatformDriverProbe.map (ProbeStep.room 0)).sum = 490 := by decide
  rw [sum_room, hsteps.1, hsteps.2]

end

/-! ## Device trees with long lines -/

def nodeNames : List String :=
  ["soc-ctrl", "mboxes", "idma", "pcie-axi-bar-mem", "ctrl-regs", "gpio", "safety-island",
    "integer-cluster", "spatz-cluster", "l2-intl-0", "l2-cont-0", "l2-intl-1", "l2-cont-1",
    "l3-buffer", "soc-control", "quadrant-control", "clint", "snitch-cluster", "spm-wide"]

def manyCores : Nat := 0x80000000

def longLines (N : Nat) : InfoTree where
  node name :=
    { present := true
      memoryRegion := some (some ⟨0, 2 ^ 31 - 1⟩)
      tmpRes := ⟨2 ^ 32 * (nodeNames.idxOf name + 1),
        2 ^ 32 * (nodeNames.idxOf name + 1) + 2 ^ 31 - 1⟩
      l3Maps := false
      maps := true
      firstWord := 0 }
  irqDesc _ := true
  spatzDev := true
  regionName _ := List.replicate N 'm'
  computeCores := some manyCores
  oneLiteral := true

theorem resourceSize_long (base : Nat) : resourceSize ⟨base, base + 2 ^ 31 - 1⟩ = 2 ^ 31 := by
  unfold resourceSize
  dsimp only
  omega

section
variable {N : Nat} {result : b.Mem} {name : String} {s : Probed b}

theorem length_hex_long : (hex (2 ^ 31)).length = 8 := by decide

theorem longLines_memoryRegion (N : Nat) (name : String)
    (hbase : (s.mem b.l3Mem).pbase = 0) :
    (probeMemoryRegion ((longLines N).node name) s).1 = false ∧
      ((probeMemoryRegion ((longLines N).node name) s).2.mem b.l3Mem).pbase = 0 := by
  simp [probeMemoryRegion, longLines, hbase, devmIoremapResource]

theorem longLines_printNode (N : Nat) (result : b.Mem) (name : String)
    (hbase : (s.mem b.l3Mem).pbase = 0) :
    ((printNode (longLines N) result name s).1.flatMap InfoLine.text).length =
      N + 35 + (name.length + 35) ∧ (printNode (longLines N) result name s).2 = true := by
  have hreserved : reservedLines (longLines N) name s =
      [.reserved (List.replicate N 'm') 0 (2 ^ 31)] := by
    have hcond : (s.mem b.l3Mem).pbase = 0 ∧
        devmIoremapResource ⟨0, 2 ^ 31 - 1⟩ false ≠ .null := ⟨hbase, nofun⟩
    exact (if_pos hcond).trans rfl
  obtain ⟨herror, -⟩ := longLines_memoryRegion N name hbase
  have hword : ((longLines N).node name).firstWord ≠ 0xbadcab1e := by
    show 0 ≠ 0xbadcab1e
    decide
  have hregion := @probeReg_self b (probeMemoryRegion ((longLines N).node name) s).2 result
    ((longLines N).node name) rfl hword
  have hsize : resourceSize ((longLines N).node name).tmpRes = 2 ^ 31 := resourceSize_long _
  have hmapped : ¬ (false || decide (devmIoremapResource ((longLines N).node name).tmpRes
      ((longLines N).node name).maps = .err)) = true := by
    show ¬ decide (Vbase.mapped ((longLines N).node name).tmpRes = .err) = true
    simp
  have hpresent : ((longLines N).node name).present = true := rfl
  unfold printNode
  dsimp only
  rw [if_pos hpresent, herror, if_neg hmapped, hreserved, hregion, hsize]
  refine ⟨?_, rfl⟩
  simp only [List.singleton_append, List.flatMap_cons, List.flatMap_nil, List.append_nil,
    List.length_append, InfoLine.text, length_infoLine, length_hex_long, List.length_replicate,
    String.length_toList]

theorem longLines_step (hbase : (s.mem b.l3Mem).pbase = 0) (hhalted : s.halted = false)
    (p : ProbeStep b) (hp : ∀ result name, p = .probeNode result name → result ≠ b.l3Mem) :
    ((probeStep (longLines N).toTree s p).mem b.l3Mem).pbase = 0 ∧
      (probeStep (longLines N).toTree s p).halted = false := by
  have hrun : ¬ s.halted = true := Bool.eq_false_iff.mp hhalted
  cases p with
  | probeNode result name =>
    obtain ⟨herror, hl3⟩ := longLines_memoryRegion N name hbase
    have hpresent : ((longLines N).node name).present = true := rfl
    rw [probeStep, if_neg hrun]
    refine ⟨?_, (probeNode_halted _ result s).trans hhalted⟩
    rw [probeNode, if_pos hpresent]
    dsimp only
    rw [herror, if_neg Bool.false_ne_true, probeReg_ne _ _ (hp result name rfl).symm]
    exact hl3
  | requestIrqs =>
    rw [probeStep, if_neg hrun]
    exact ⟨hbase, rfl⟩
  | iowrite m offsets =>
    rw [probeStep, if_neg hrun]
    exact ⟨hbase, hhalted⟩
  | findSpatzDev =>
    rw [probeStep, if_neg hrun]
    exact ⟨hbase, rfl⟩

theorem longLines_run {steps : List (ProbeStep b)} (hsteps : ∀ p ∈ steps, p.sparesL3) :
    ((info (longLines N) steps).dev.mem b.l3Mem).pbase = 0 ∧
      (info (longLines N) steps).dev.halted = false := by
  induction steps using List.reverseRecOn with
  | nil => exact ⟨rfl, rfl⟩
  | append_singleton steps p ih =>
    obtain ⟨hsteps, hp⟩ := List.forall_mem_append.mp hsteps
    obtain ⟨hbase, hhalted⟩ := ih hsteps
    rw [info_concat, infoStep_dev]
    apply longLines_step hbase hhalted p
    rintro result name rfl
    exact hp _ (List.mem_singleton_self _)

theorem longLines_text {steps : List (ProbeStep b)} (hsteps : ∀ p ∈ steps, p.sparesL3)
    (p : ProbeStep b) : (info (longLines N) (steps ++ [p])).text.length =
      ((steps ++ [p]).map (ProbeStep.room N)).sum := by
  have hconcat : ∀ (steps : List (ProbeStep b)) (p : ProbeStep b),
      (∀ p ∈ steps, p.sparesL3) → (info (longLines N) (steps ++ [p])).text.length =
        (info (longLines N) steps).text.length + p.room N := by
    intro steps p hsteps
    obtain ⟨hbase, hhalted⟩ := longLines_run (N := N) hsteps
    have hrun : ¬ (info (longLines N) steps).dev.halted = true := Bool.eq_false_iff.mp hhalted
    rw [info_concat, Info.text, infoStep_lines, List.flatMap_append, List.length_append]
    cases p with
    | probeNode result name =>
      rw [stepLines, if_neg hrun, (longLines_printNode N result name hbase).1]
      rfl
    | _ => rfl
  rw [hconcat steps p hsteps, List.map_append, List.sum_append, List.map_singleton,
    List.sum_singleton]
  congr 1
  induction steps using List.reverseRecOn with
  | nil => rfl
  | append_singleton steps q ih =>
    have hsteps := (List.forall_mem_append.mp hsteps).1
    rw [hconcat steps q hsteps, ih hsteps, List.map_append, List.sum_append, List.map_singleton,
      List.sum_singleton]

theorem longLines_cores {steps : List (ProbeStep .occamy)} (hsteps : ∀ p ∈ steps, p.sparesL3) :
    (info (longLines N) steps).nCores =
      if steps.any (ProbeStep.names "snitch-cluster") then manyCores else 0 := by
  induction steps using List.reverseRecOn with
  | nil => rfl
  | append_singleton steps p ih =>
    have hold := (List.forall_mem_append.mp hsteps).1
    obtain ⟨hbase, hhalted⟩ := longLines_run (N := N) hold
    have hrun : ¬ (info (longLines N) steps).dev.halted = true := Bool.eq_false_iff.mp hhalted
    rw [info_concat, List.any_append]
    cases p with
    | probeNode result name =>
      have hmapped := (longLines_printNode N result name hbase).2
      have hcores : (infoStep (longLines N) (info (longLines N) steps)
          (.probeNode result name)).nCores =
          if name == "snitch-cluster" then manyCores else (info (longLines N) steps).nCores := by
        unfold infoStep
        dsimp only
        rw [if_neg hrun, hmapped]
        change (if (name == "snitch-cluster") = true then _ else _ : Info .occamy).nCores = _
        split <;> rfl
      have hany : [ProbeStep.probeNode result name].any (ProbeStep.names "snitch-cluster") =
          (name == "snitch-cluster") := Bool.or_false _
      rw [hcores, hany, ih hold]
      cases name == "snitch-cluster" with
      | true => rw [Bool.or_true, if_pos rfl, if_pos rfl]
      | false => rw [Bool.or_false, if_neg Bool.false_ne_true]
    | _ => exact (ih hold).trans (congrArg (if · = true then _ else _) (Bool.or_false _).symm)

end

/-! ## The buffer -/

def Board.longestName : Board → Nat
  | .carfield => 66
  | .occamy => 250

theorem carfield_information_le {t : InfoTree} {N : Nat}
    (hN : ∀ name, (t.regionName name).length ≤ N) :
    (information .carfield t).length ≤ N * 14 + 1113 := by
  have htext := length_text_le hN Carfield.cardPlatformDriverProbe
  rwa [carfield_room] at htext

theorem occamy_information_le {t : InfoTree} {N : Nat}
    (hN : ∀ name, (t.regionName name).length ≤ N) :
    (information .occamy t).length ≤ N * 6 + 547 := by
  have htext := length_text_le hN Occamy.cardPlatformDriverProbe
  rw [occamy_room] at htext
  have hone : Occamy.cardPlatformDriverProbe.countP (ProbeStep.names "snitch-cluster") = 1 := by
    decide
  have hclusters := nClusters_le t Occamy.cardPlatformDriverProbe
  rw [hone] at hclusters
  have hdetails := length_details hclusters.1 hclusters.2
  have hcores := length_dec_le (info t Occamy.cardPlatformDriverProbe).nCores
  change ((info t Occamy.cardPlatformDriverProbe).text ++ _).length ≤ _
  rw [List.length_append, hdetails]
  omega

theorem carfield_longLines (N : Nat) :
    (information .carfield (longLines N)).length = N * 14 + 1113 := by
  obtain ⟨steps, hsteps, hspares⟩ : ∃ steps, Carfield.cardPlatformDriverProbe =
      steps ++ [.probeNode CarfieldMem.l3Mem "l3-buffer"] ∧ ∀ p ∈ steps, p.sparesL3 := by
    refine ⟨Carfield.cardPlatformDriverProbe.dropLast, ?_, ?_⟩
    · rfl
    · decide
  have htext := longLines_text (N := N) hspares (.probeNode CarfieldMem.l3Mem "l3-buffer")
  rw [← hsteps, carfield_room] at htext
  exact htext

theorem occamy_longLines (N : Nat) :
    (information .occamy (longLines N)).length = N * 6 + 547 := by
  have hspares : ∀ p ∈ Occamy.cardPlatformDriverProbe, p.sparesL3 := by decide
  have htext := @longLines_text _ N Occamy.cardPlatformDriverProbe.dropLast
    (fun p hp => hspares p (List.dropLast_subset _ hp))
    (.probeNode OccamyMem.pcieAxiBarMem "pcie-axi-bar-mem")
  have hcores := longLines_cores (N := N) hspares
  have hone : Occamy.cardPlatformDriverProbe.countP (ProbeStep.names "snitch-cluster") = 1 := by
    decide
  have hclusters := nClusters_le (longLines N) Occamy.cardPlatformDriverProbe
  rw [hone] at hclusters
  have hdec : (dec manyCores).length = 11 := by decide
  change ((info (longLines N) Occamy.cardPlatformDriverProbe).text ++ _).length = _
  rw [List.length_append, length_details hclusters.1 hclusters.2, hcores]
  change (info (longLines N) Occamy.cardPlatformDriverProbe).text.length =
    (Occamy.cardPlatformDriverProbe.map (ProbeStep.room N)).sum at htext
  rw [htext, occamy_room, if_pos (by decide), hdec]

/-- The text of the probe, with the null that ends it, fits into the buffer for every device
tree just when no reserved memory has a longer name. -/
theorem information_fits_iff (b : Board) (N : Nat) :
    (∀ t : InfoTree, (∀ name, (t.regionName name).length ≤ N) →
      (information b t).length < PDATA_SIZE) ↔ N ≤ b.longestName := by
  have hlong : ∀ name, ((longLines N).regionName name).length ≤ N := fun _ =>
    (List.length_replicate ..).le
  cases b with
  | carfield =>
    constructor
    · intro h
      have hlt := h (longLines N) hlong
      rw [carfield_longLines] at hlt
      simp only [PDATA_SIZE, Board.longestName] at hlt ⊢
      omega
    · intro hN t ht
      have hle := carfield_information_le ht
      simp only [PDATA_SIZE, Board.longestName] at hN ⊢
      omega
  | occamy =>
    constructor
    · intro h
      have hlt := h (longLines N) hlong
      rw [occamy_longLines] at hlt
      simp only [PDATA_SIZE, Board.longestName] at hlt ⊢
      omega
    · intro hN t ht
      have hle := occamy_information_le ht
      simp only [PDATA_SIZE, Board.longestName] at hN ⊢
      omega

/-! ## What the text tells -/

def Node.found (n : Node) : Bool := n.present && n.memoryRegion != some none && n.maps

def InfoLine.told (line : InfoLine) : Option (String × Nat × Nat) := match line with
  | .region name _ _ => some (name, readLine name.toList line.text)
  | .reserved _ _ _ => none

theorem InfoLine.told_region (name : String) (pbase size : Nat) :
    (InfoLine.region name pbase size).told = some (name, pbase % 2 ^ 64, size % 2 ^ 32) :=
  congrArg (fun shown => some (name, shown)) (read_infoLine name.toList pbase size)

/-- What the device data have for a region that was found, as far as it can be printed. -/
def ProbeStep.holds (t : InfoTree) (s : Probed b) : ProbeStep b → Option (String × Nat × Nat)
  | .probeNode result name =>
    if (t.node name).found then
      some (name, (s.mem result).pbase % 2 ^ 64, (s.mem result).size % 2 ^ 32)
    else none
  | _ => none

section
variable {t : InfoTree} {result : b.Mem} {name : String} {s : Probed b}

theorem reservedLines_told (t : InfoTree) (name : String) (s : Probed b) :
    (reservedLines t name s).filterMap InfoLine.told = [] := by
  unfold reservedLines
  split
  · split_ifs <;> rfl
  · rfl

theorem printNode_told (t : InfoTree) (result : b.Mem) (name : String) (s : Probed b) :
    (printNode t result name s).1.filterMap InfoLine.told =
      ((ProbeStep.probeNode result name).holds t (probeNode (t.node name) result s)).toList := by
  unfold printNode ProbeStep.holds Node.found
  dsimp only
  cases hpresent : (t.node name).present with
  | false =>
    rw [if_neg Bool.false_ne_true, Bool.false_and, Bool.false_and, if_neg Bool.false_ne_true]
    rfl
  | true =>
    have herror := probeMemoryRegion_error (t.node name) s
    rw [if_pos rfl, herror, probeNode, if_pos hpresent]
    dsimp only
    rw [herror]
    cases hregion : (t.node name).memoryRegion == some none with
    | true =>
      -- the lookup of the reserved memory fails, and with it the node
      rw [Bool.true_or, if_pos rfl, reservedLines_told, bne, hregion]
      rfl
    | false =>
      rw [Bool.false_or, bne, hregion]
      cases hmaps : (t.node name).maps with
      | false =>
        have herr : decide (devmIoremapResource (t.node name).tmpRes false = .err) = true :=
          decide_eq_true rfl
        rw [if_pos herr, reservedLines_told]
        rfl
      | true =>
        have hmapped :
            ¬ decide (devmIoremapResource (t.node name).tmpRes true = .err) = true := by
          rw [decide_eq_true_iff, devmIoremapResource, if_pos rfl]
          simp
        rw [if_neg hmapped, List.filterMap_append, reservedLines_told, List.nil_append,
          List.filterMap_cons, InfoLine.told_region]
        rfl

theorem holds_congr {s' : Probed b} {p : ProbeStep b}
    (hp : ∀ result name, p = .probeNode result name → s'.mem result = s.mem result) :
    p.holds t s' = p.holds t s := by
  cases p with
  | probeNode result name => rw [ProbeStep.holds, ProbeStep.holds, hp result name rfl]
  | _ => rfl

end

theorem info_told (t : InfoTree) {steps : List (ProbeStep b)}
    (hnodup : (steps.filterMap ProbeStep.result?).Nodup)
    (hl3 : ∀ p ∈ steps.dropLast, p.sparesL3) (hrun : (info t steps).dev.halted = false) :
    (info t steps).lines.filterMap InfoLine.told =
      steps.filterMap (ProbeStep.holds t (info t steps).dev) := by
  induction steps using List.reverseRecOn with
  | nil => rfl
  | append_singleton steps p ih =>
    rw [List.dropLast_concat] at hl3
    rw [List.filterMap_append, List.nodup_append] at hnodup
    obtain ⟨hnodup, -, hnew⟩ := hnodup
    rw [info_concat, infoStep_dev] at hrun
    -- a fault is never undone
    have hbefore : (info t steps).dev.halted = false := by
      by_contra hhalted
      rw [probeStep_halted t.toTree (Bool.not_eq_false _ ▸ hhalted)] at hrun
      exact hhalted hrun
    have hold := ih hnodup (fun q hq => hl3 q (List.dropLast_subset _ hq)) hbefore
    rw [info_concat, infoStep_lines, infoStep_dev, List.filterMap_append, List.filterMap_append,
      hold]
    -- the last step has a region of its own and, if it is not the last of all, spares L3
    have hkeep : ∀ q ∈ steps, q.holds t (probeStep t.toTree (info t steps).dev p) =
        q.holds t (info t steps).dev := by
      intro q hq
      apply holds_congr
      rintro result name rfl
      refine probeStep_ne _ _ ?_ (hl3 _ hq)
      rintro result' name' rfl
      exact hnew result (List.mem_filterMap.mpr ⟨_, hq, rfl⟩) result' (List.mem_singleton_self _)
    rw [List.filterMap_congr hkeep]
    congr 1
    cases p with
    | probeNode result name =>
      rw [stepLines, if_neg (Bool.eq_false_iff.mp hbefore), printNode_told,
        probeStep_node t.toTree hbefore]
      rw [List.filterMap_cons, List.filterMap_nil]
      split
      next hnone => rw [hnone]; rfl
      next hsome => rw [hsome]; rfl
    | _ => rfl

def Board.details : (b : Board) → Info b → List Char
  | .carfield, _ => []
  | .occamy, i => i.details

/-- On both boards, each line of the text about a region of its own node shows the base and the
lower half of the size that the device data have when the probe is done, and each region that was
found has one. -/
theorem information_tells (b : Board) (t : InfoTree)
    (hrun : (probe t.toTree b.cardPlatformDriverProbe).halted = false) :
    information b t = (info t b.cardPlatformDriverProbe).lines.flatMap InfoLine.text ++
        b.details (info t b.cardPlatformDriverProbe) ∧
      (info t b.cardPlatformDriverProbe).lines.filterMap InfoLine.told =
        b.cardPlatformDriverProbe.filterMap
          (ProbeStep.holds t (probe t.toTree b.cardPlatformDriverProbe)) := by
  constructor
  · cases b with
    | carfield => exact (List.append_nil _).symm
    | occamy => rfl
  · have hdev := info_dev t b.cardPlatformDriverProbe
    have hordered := cardPlatformDriverProbe_ordered b
    rw [← hdev] at hrun ⊢
    exact info_told t hordered.nodup hordered.l3_last hrun

def smallBoard : InfoTree where
  node name :=
    { present := name != "clint"
      memoryRegion :=
        if name = "snitch-cluster" then some (some ⟨0xc0000000, 0xcfffffff⟩) else none
      tmpRes := ⟨0x1000 * (nodeNames.idxOf name + 1),
        0x1000 * (nodeNames.idxOf name + 1) + 0xfff⟩
      l3Maps := true
      maps := true
      firstWord := if name = "spm-wide" then 0xbadcab1e else 0 }
  irqDesc _ := true
  spatzDev := true
  regionName _ := "l3".toList
  computeCores := some 9
  oneLiteral := true

theorem information_tells_smallBoard :
    information .occamy smallBoard =
        (info smallBoard Occamy.cardPlatformDriverProbe).lines.flatMap InfoLine.text ++
          Board.occamy.details (info smallBoard Occamy.cardPlatformDriverProbe) ∧
      (info smallBoard Occamy.cardPlatformDriverProbe).lines.filterMap InfoLine.told =
        Occamy.cardPlatformDriverProbe.filterMap (ProbeStep.holds smallBoard
          (probe smallBoard.toTree Occamy.cardPlatformDriverProbe)) :=
  information_tells .occamy smallBoard (by decide)

end HeroTools.Driver
