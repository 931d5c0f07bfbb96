import HeroTools.Lib.LittleEndian
import HeroTools.Lib.Words

/-! `bar_read_dtb` of `hero_pcie_dts.c`: the device tree of a PCIe board, copied out of a
window on one of its BARs. -/

namespace HeroTools.Pcie

abbrev DTB_OFFSET : Nat := 0xD0000000
abbrev DTB_MAP_SIZE : Nat := 1024 * 10
abbrev IORESOURCE_MEM : Nat := 0x200
abbrev ENOMEM : Int := 12
abbrev EINVAL : Int := 22

/-- A BAR as the PCI core knows it, which ends inside the address space. -/
structure Bar where
  start : Nat
  flags : Nat
  len : Nat
  ends : start + len ≤ 2 ^ 64

def be32ToCpu (v : Nat) : Nat := leValue (fun k => leByte v (3 - k)) 4

def ioread32 (map : Int → UInt8) (off : Nat) : Nat := leValue (fun k => map (off + k : Nat)) 4

/-- What the loop has stored in the blob, and the offsets that it has read and written at. -/
structure Copy where
  blob : Int → UInt8
  reads : List Int
  writes : List Int

/-- The first turns of the loop. Its counter is an `int`, compared as an unsigned one. -/
def copyDtb (dtbMap : Int → UInt8) : Nat → Copy
  | 0 => ⟨fun _ => 0, [], []⟩
  | n + 1 =>
    let c := copyDtb dtbMap n
    let i := toInt32 n
    ⟨Function.update c.blob i (dtbMap i), c.reads ++ [i], c.writes ++ [i]⟩

/-- What a call returns and has put in `*ret_dtb_blob` and `*ret_dtb_size`, where it has
mapped a window and whether it is still mapped, and the offsets of all accesses to the
window and to the blob. -/
structure DtbOutcome where
  ret : Int
  blob : Option (Int → UInt8)
  dtbSize : Option Nat
  window : Option Nat
  mapped : Bool
  reads : List Int
  writes : List Int

/-- The result of `pci_resource_len` is not used. -/
def barReadDtb (bar : Bar) (ioremap kzalloc : Bool) (dtbMap : Int → UInt8) : DtbOutcome :=
  if bar.start = 0 then ⟨-EINVAL, none, none, none, false, [], []⟩
  else if bar.flags &&& IORESOURCE_MEM = 0 then ⟨-EINVAL, none, none, none, false, [], []⟩
  else if !ioremap then ⟨-ENOMEM, none, none, none, false, [], []⟩
  else
    let window := some ((bar.start + DTB_OFFSET) % 2 ^ 64)
    let dtbMagic := be32ToCpu (ioread32 dtbMap 0)
    -- the two errors from here on leave the window mapped
    if dtbMagic ≠ 0xd00dfeed then ⟨-EINVAL, none, none, window, true, [0, 1, 2, 3], []⟩
    else
      let dtbSize := be32ToCpu (ioread32 dtbMap 4)
      let reads := [0, 1, 2, 3, 4, 5, 6, 7]
      if !kzalloc then ⟨-ENOMEM, none, none, window, true, reads, []⟩
      else
        let c := copyDtb dtbMap dtbSize
        ⟨0, some c.blob, some dtbSize, window, false, reads ++ c.reads, c.writes⟩

def dtbSizeField (dtbMap : Int → UInt8) : Nat := be32ToCpu (ioread32 dtbMap 4)

/-- An error leaves nothing behind, a success a copy as long as the header says, and every
access lies inside the window or the blob, and the window inside the BAR. -/
structure DtbSafe (bar : Bar) (dtbMap : Int → UInt8) (o : DtbOutcome) : Prop where
  result : o.ret < 0 ∧ o.mapped = false ∧ o.blob = none ∨
    o.ret = 0 ∧ o.dtbSize = some (dtbSizeField dtbMap) ∧
      dtbSizeField dtbMap ≤ DTB_MAP_SIZE ∧ ∃ blob, o.blob = some blob ∧
        ∀ k < dtbSizeField dtbMap, blob k = dtbMap k
  reads : ∀ i ∈ o.reads, 0 ≤ i ∧ i < DTB_MAP_SIZE
  writes : ∀ i ∈ o.writes, 0 ≤ i ∧ i < DTB_MAP_SIZE
  window : ∀ w ∈ o.window, bar.start ≤ w ∧ w + DTB_MAP_SIZE ≤ bar.start + bar.len

/-- No window is mapped, or it fits the BAR, it begins with a device tree no longer than
it is, and there is memory for the copy. -/
def DtbFits (bar : Bar) (ioremap kzalloc : Bool) (dtbMap : Int → UInt8) : Prop :=
  bar.start = 0 ∨ bar.flags &&& IORESOURCE_MEM = 0 ∨ ioremap = false ∨
    DTB_OFFSET + DTB_MAP_SIZE ≤ bar.len ∧ be32ToCpu (ioread32 dtbMap 0) = 0xd00dfeed ∧
      kzalloc = true ∧ dtbSizeField dtbMap ≤ DTB_MAP_SIZE

/-! ## The loop -/

section
variable {dtbMap : Int → UInt8} {bar : Bar} {ioremap kzalloc : Bool}

theorem copyDtb_offsets (dtbMap : Int → UInt8) (n : Nat) :
    (copyDtb dtbMap n).reads = (List.range n).map toInt32 ∧
      (copyDtb dtbMap n).writes = (List.range n).map toInt32 := by
  induction n with
  | zero => exact ⟨rfl, rfl⟩
  | succ n ih =>
    obtain ⟨hreads, hwrites⟩ := ih
    rw [List.range_succ, List.map_append, List.map_singleton, ← hreads]
    refine ⟨rfl, ?_⟩
    rw [hreads, ← hwrites]
    rfl

theorem copyDtb_blob {n k : Nat} (hn : n ≤ 2 ^ 31) (hk : k < n) :
    (copyDtb dtbMap n).blob k = dtbMap k := by
  induction n with
  | zero => exact absurd hk (Nat.not_lt_zero k)
  | succ n ih =>
    have hi : toInt32 n = n := toInt32_of_lt hn
    show Function.update (copyDtb dtbMap n).blob (toInt32 n) (dtbMap (toInt32 n)) k = _
    rw [hi]
    rcases Nat.lt_succ_iff_lt_or_eq.mp hk with hlt | rfl
    · have hne : (k : Int) ≠ n := by
        intro heq
        exact hlt.ne (Int.ofNat_inj.mp heq)
      rw [Function.update_of_ne hne]
      exact ih (Nat.le_of_succ_le hn) hlt
    · exact Function.update_self ..

theorem copyDtb_inside_iff (n : Nat) :
    (∀ i ∈ (List.range n).map toInt32, 0 ≤ i ∧ i < DTB_MAP_SIZE) ↔ n ≤ DTB_MAP_SIZE := by
  constructor
  · intro h
    by_contra hgt
    have hmem : toInt32 DTB_MAP_SIZE ∈ (List.range n).map toInt32 :=
      List.mem_map_of_mem (List.mem_range.mpr (not_le.mp hgt))
    have hend : toInt32 DTB_MAP_SIZE = DTB_MAP_SIZE := toInt32_of_lt (by norm_num)
    have hlt := (h _ hmem).2
    rw [hend] at hlt
    exact absurd hlt (lt_irrefl _)
  · intro hle i hi
    obtain ⟨k, hk, rfl⟩ := List.mem_map.mp hi
    have hlt : k < DTB_MAP_SIZE := (List.mem_range.mp hk).trans_le hle
    rw [toInt32_of_lt (hlt.trans (by norm_num))]
    exact ⟨Int.natCast_nonneg k, Int.ofNat_lt.mpr hlt⟩

/-! ## The call -/

theorem window_inside_iff (bar : Bar) :
    (bar.start ≤ (bar.start + DTB_OFFSET) % 2 ^ 64 ∧
      (bar.start + DTB_OFFSET) % 2 ^ 64 + DTB_MAP_SIZE ≤ bar.start + bar.len) ↔
        DTB_OFFSET + DTB_MAP_SIZE ≤ bar.len := by
  have hends := bar.ends
  simp only [DTB_OFFSET, DTB_MAP_SIZE]
  constructor
  · rintro ⟨hlo, hhi⟩
    omega
  · intro hlen
    rw [Nat.mod_eq_of_lt (by omega)]
    omega

theorem not_dtbSafe_of_mapped {o : DtbOutcome} (h : o.mapped = true) (hret : o.ret < 0) :
    ¬ DtbSafe bar dtbMap o := by
  intro hs
  rcases hs.result with ⟨-, hm, -⟩ | ⟨hz, -⟩
  · rw [h] at hm
    cases hm
  · exact absurd hz hret.ne

theorem dtbSafe_copied_iff (c : Copy) (w : Nat)
    (hc : c = copyDtb dtbMap (dtbSizeField dtbMap)) :
    DtbSafe bar dtbMap ⟨0, some c.blob, some (dtbSizeField dtbMap), some w, false,
        [0, 1, 2, 3, 4, 5, 6, 7] ++ c.reads, c.writes⟩ ↔
      (bar.start ≤ w ∧ w + DTB_MAP_SIZE ≤ bar.start + bar.len) ∧
        dtbSizeField dtbMap ≤ DTB_MAP_SIZE := by
  obtain ⟨hreads, hwrites⟩ := copyDtb_offsets dtbMap (dtbSizeField dtbMap)
  rw [← hc] at hreads hwrites
  constructor
  · intro h
    refine ⟨h.window w rfl, (copyDtb_inside_iff _).mp ?_⟩
    rw [← hwrites]
    exact h.writes
  · rintro ⟨hwindow, hle⟩
    have hinside := (copyDtb_inside_iff _).mpr hle
    refine ⟨.inr ⟨rfl, rfl, hle, c.blob, rfl, fun k hk => ?_⟩, ?_, ?_, ?_⟩
    · rw [hc]
      exact copyDtb_blob (hle.trans (by norm_num)) hk
    · intro i hi
      rcases List.mem_append.mp hi with hi | hi
      · have hheader : ∀ j ∈ ([0, 1, 2, 3, 4, 5, 6, 7] : List Int), 0 ≤ j ∧ j < DTB_MAP_SIZE := by
          decide
        exact hheader i hi
      · exact hinside i (hreads ▸ hi)
    · exact fun i hi => hinside i (hwrites ▸ hi)
    · intro w' hw'
      obtain rfl : w = w' := Option.some.inj hw'
      exact hwindow

theorem dtbSafe_unmapped {ret : Int} (h : ret < 0) :
    DtbSafe bar dtbMap ⟨ret, none, none, none, false, [], []⟩ where
  result := .inl ⟨h, rfl, rfl⟩
  reads := fun _ hi => absurd hi List.not_mem_nil
  writes := fun _ hi => absurd hi List.not_mem_nil
  window := fun _ hw => nomatch hw

end

theorem barReadDtb_safe_iff (bar : Bar) (ioremap kzalloc : Bool) (dtbMap : Int → UInt8) :
    DtbSafe bar dtbMap (barReadDtb bar ioremap kzalloc dtbMap) ↔
      DtbFits bar ioremap kzalloc dtbMap := by
  unfold barReadDtb DtbFits
  by_cases hstart : bar.start = 0
  · rw [if_pos hstart]
    exact iff_of_true (dtbSafe_unmapped (by norm_num)) (.inl hstart)
  rw [if_neg hstart]
  by_cases hflags : bar.flags &&& IORESOURCE_MEM = 0
  · rw [if_pos hflags]
    exact iff_of_true (dtbSafe_unmapped (by norm_num)) (.inr (.inl hflags))
  rw [if_neg hflags]
  cases ioremap with
  | false => exact iff_of_true (dtbSafe_unmapped (by norm_num)) (.inr (.inr (.inl rfl)))
  | true =>
    simp only [hstart, hflags, Bool.not_true, Bool.false_eq_true, if_false, false_or, reduceCtorEq]
    by_cases hmagic : be32ToCpu (ioread32 dtbMap 0) = 0xd00dfeed
    · rw [if_neg (not_not.mpr hmagic)]
      cases kzalloc with
      | false =>
        refine iff_of_false (not_dtbSafe_of_mapped rfl (by norm_num)) ?_
        rintro ⟨-, -, hk, -⟩
        cases hk
      | true =>
        refine (dtbSafe_copied_iff _ _ rfl).trans ?_
        rw [window_inside_iff]
        simp only [hmagic, true_and]
    · rw [if_pos hmagic]
      exact iff_of_false (not_dtbSafe_of_mapped rfl (by norm_num)) fun h => hmagic h.2.1

theorem barReadDtb_not_safe :
    ¬ DtbSafe ⟨0x100000000, IORESOURCE_MEM, 0x100000000, by decide⟩ (fun _ => 0)
      (barReadDtb ⟨0x100000000, IORESOURCE_MEM, 0x100000000, by decide⟩ true true
        fun _ => 0) :=
  not_dtbSafe_of_mapped rfl (by decide)

end HeroTools.Pcie
