import HeroTools.Libhero.HeapRuns
import Mathlib.Order.CompletePartialOrder

/-! Where the heap of a device memory lies in it: above the half that is left to OpenMP, and
whether it ends before the memory does. -/

namespace HeroTools.Libhero
open Driver

/-- `o1heap`: a block that it returns ends inside the arena. -/
structure O1HeapBlocks extends O1Heap where
  allocate_le : ∀ i n, (allocate i n).1 ≠ 0 → (allocate i n).1 + n ≤ base i + size i

/-! ## Regions -/

namespace Region

/-- `x_heap_start_virt`, `x_heap_start_phy` and `x_heap_size`, for heaps that are aligned
to `a`. -/
def arena (a : Nat) (r : Region) : Region :=
  ⟨(r.virt + alignUp 64 (r.size / 2) a) % 2 ^ 64, (r.phys + alignUp 64 (r.size / 2) a) % 2 ^ 64,
    r.size / 2⟩

def lower (r : Region) : Region := ⟨r.virt, r.phys, r.size / 2⟩

def virts (r : Region) : Set Nat := Set.Ico r.virt (r.virt + r.size)

def physs (r : Region) : Set Nat := Set.Ico r.phys (r.phys + r.size)

structure Above (r c : Region) : Prop where
  virts_subset : c.virts ⊆ r.virts
  physs_subset : c.physs ⊆ r.physs
  virts_disjoint : Disjoint r.lower.virts c.virts
  physs_disjoint : Disjoint r.lower.physs c.physs

structure InSpace (r : Region) : Prop where
  virt_le : r.virt + r.size ≤ 2 ^ 64
  phys_le : r.phys + r.size ≤ 2 ^ 64

/-- Half of the size, once rounded up, leaves room for the other half. -/
def HalfFits (a : Nat) (r : Region) : Prop := alignUp 64 (r.size / 2) a ≤ r.size - r.size / 2

instance (a : Nat) (r : Region) : Decidable (r.HalfFits a) := Nat.decLe _ _

end Region

/-! ## Calls -/

def Heap.placeAt {H : O1Heap} (a : Nat) (h : Heap H) (r : Region) : Heap H :=
  { h with
    startPhy := (r.arena a).phys
    startVirt := (r.arena a).virt
    size := (r.arena a).size }

inductive HeapCall
  | mmap (r : Region)
  | malloc (sizeB : Nat)
  | free (vAddr : Nat)

def heapCalls (H : O1Heap) (a : Nat) : Lts (Heap H) HeapCall where
  step h c h' := match c with
    | .mmap r => h' = ((h.placeAt a r).init r).2
    | .malloc sizeB => ∃ v p, h.malloc sizeB = some (v, p, h')
    | .free vAddr => h.free vAddr = some h'

/-- A later `hero_dev_mmap` leaves the manager where it is: it does not move the bases apart. -/
def KeepsBases {H : O1Heap} (h : Heap H) : HeapCall → Prop
  | .mmap r => (h.startPhy + r.virt) % 2 ^ 64 = (h.startVirt + r.phys) % 2 ^ 64
  | _ => True

/-- A block is where the memory of the heap is, by both of its addresses. -/
def BlockAbove {H : O1Heap} (r : Region) (h : Heap H) : HeapCall → Prop
  | .malloc sizeB => ∀ v p h', h.malloc sizeB = some (v, p, h') → v ≠ 0 →
      r.Above ⟨v, p, sizeB⟩
  | _ => True

/-- The arena is a part of the upper half, and so is each block that the calls return. -/
structure HeapAbove {H : O1Heap} (a : Nat) (r : Region) (tr : List (Heap H × HeapCall)) :
    Prop where
  arena : r.Above (r.arena a)
  blocks : ∀ e ∈ tr, BlockAbove r e.1 e.2

/-! ## The arena -/

variable {k : Nat} {r : Region}

theorem half_le_alignUp (hk : k < 64) (hr : r.InSpace) :
    r.size / 2 ≤ alignUp 64 (r.size / 2) (2 ^ k) := by
  have hsize := hr.phys_le
  have hpow : 2 ^ k ≤ 2 ^ 63 := Nat.pow_le_pow_right (by norm_num) (Nat.le_of_lt_succ hk)
  exact le_alignUp hk.le (by omega)

theorem arena_inside_iff {base size up : Nat} (hbase : base + size ≤ 2 ^ 64)
    (hlo : size / 2 ≤ up) (hlt : up < 2 ^ 64) (hup : size / 2 = 0 → up = 0) :
    (Set.Ico ((base + up) % 2 ^ 64) ((base + up) % 2 ^ 64 + size / 2) ⊆ Set.Ico base (base + size) ∧
      Disjoint (Set.Ico base (base + size / 2))
        (Set.Ico ((base + up) % 2 ^ 64) ((base + up) % 2 ^ 64 + size / 2))) ↔
      up ≤ size - size / 2 := by
  constructor
  · rintro ⟨hsub, -⟩
    rcases Nat.eq_zero_or_pos (size / 2) with hz | hpos
    · rw [hup hz]
      exact Nat.zero_le _
    · -- the first byte is not before the region, the last one not behind it
      have hfirst := hsub (a := (base + up) % 2 ^ 64) ⟨le_rfl, by omega⟩
      have hlast := hsub (a := (base + up) % 2 ^ 64 + size / 2 - 1) ⟨by omega, by omega⟩
      have hge := hfirst.1
      have hle := hlast.2
      omega
  · intro hle
    constructor
    · rintro x ⟨hx, hx'⟩
      constructor <;> omega
    · rw [Set.disjoint_left]
      rintro x ⟨-, hx⟩ ⟨hx', hx''⟩
      omega

theorem arena_above_iff (hk : k < 64) (hr : r.InSpace) :
    r.Above (r.arena (2 ^ k)) ↔ r.HalfFits (2 ^ k) := by
  have hlo := half_le_alignUp hk hr
  have hlt := alignUp_lt hk.le (r.size / 2)
  have hup : r.size / 2 = 0 → alignUp 64 (r.size / 2) (2 ^ k) = 0 := by
    intro hz
    rw [hz, alignUp_zero hk.le]
  have hvirt := arena_inside_iff hr.virt_le hlo hlt hup
  have hphys := arena_inside_iff hr.phys_le hlo hlt hup
  constructor
  · rintro ⟨-, hsub, -, hdisj⟩
    exact hphys.mp ⟨hsub, hdisj⟩
  · intro h
    obtain ⟨hvsub, hvdisj⟩ := hvirt.mpr h
    obtain ⟨hpsub, hpdisj⟩ := hphys.mpr h
    exact ⟨hvsub, hpsub, hvdisj, hpdisj⟩

/-! ## Blocks -/

/-- The manager is the one that was created at the opening, and the bases are as far apart
as the two addresses of the region. -/
structure PlacedOn {H : O1Heap} (a : Nat) (r : Region) (h : Heap H) : Prop where
  virt_lt : h.startVirt < 2 ^ 64
  bases : (h.startPhy + r.virt) % 2 ^ 64 = (h.startVirt + r.phys) % 2 ^ 64
  manager : ∃ i, h.manager = some i ∧ H.base i = (r.arena a).virt ∧ H.size i = (r.arena a).size

section
variable {H : O1Heap} {a : Nat} {h h' : Heap H}

theorem placedOn_init (hnone : h.manager = none) (hinit : (h.placeAt a r).init r = (0, h')) :
    PlacedOn a r h' := by
  have hplaced : (h.placeAt a r).manager = none := hnone
  unfold Heap.init at hinit
  rw [hplaced] at hinit
  simp only at hinit
  split_ifs at hinit
  · exact absurd (congrArg Prod.fst hinit) (by norm_num)
  · cases hi : H.init (h.placeAt a r).startVirt (h.placeAt a r).size with
    | none =>
      rw [hi] at hinit
      exact absurd (congrArg Prod.fst hinit) (show (-ENOMEM : Int) ≠ 0 by decide)
    | some i =>
      rw [hi] at hinit
      obtain ⟨-, rfl⟩ := Prod.mk.inj hinit
      refine ⟨Nat.mod_lt _ (Nat.two_pow_pos 64), ?_, i, rfl, H.arena_init hi⟩
      simp only [Heap.placeAt, Region.arena]
      omega

theorem placedOn_mmap {r' : Region} (hh : PlacedOn a r h) (hk : KeepsBases h (.mmap r')) :
    PlacedOn a r ((h.placeAt a r').init r').2 := by
  obtain ⟨hlt, hbases, i, hi, harena⟩ := hh
  have hplaced : (h.placeAt a r').manager = some i := hi
  unfold Heap.init
  rw [hplaced]
  refine ⟨Nat.mod_lt _ (Nat.two_pow_pos 64), ?_, i, hplaced, harena⟩
  unfold KeepsBases at hk
  simp only [Heap.placeAt, Region.arena] at hk ⊢
  omega

theorem malloc_some {v p sizeB : Nat} (hm : h.malloc sizeB = some (v, p, h')) :
    ∃ i, h.manager = some i ∧ (H.allocate i sizeB).1 = v ∧
      (v + 2 ^ 64 - h.startVirt + h.startPhy) % 2 ^ 64 = p ∧
      { h with manager := some (H.allocate i sizeB).2 } = h' := by
  obtain ⟨i, hi, heq⟩ := Option.map_eq_some_iff.mp hm
  obtain ⟨rfl, rfl, rfl⟩ := by simpa only [Prod.mk.injEq] using heq
  exact ⟨i, hi, rfl, rfl, rfl⟩

theorem placedOn_step {c : HeapCall} (hh : PlacedOn a r h) (hk : KeepsBases h c)
    (hstep : (heapCalls H a).step h c h') : PlacedOn a r h' := by
  cases c with
  | mmap r' =>
    obtain rfl := hstep
    exact placedOn_mmap hh hk
  | malloc sizeB =>
    obtain ⟨v, p, hm⟩ := hstep
    obtain ⟨i, hi, -, -, rfl⟩ := malloc_some hm
    obtain ⟨hlt, hbases, j, hj, hbase, hsize⟩ := hh
    obtain rfl := Option.some.inj (hi.symm.trans hj)
    obtain ⟨hbase', hsize'⟩ := H.arena_allocate i sizeB
    exact ⟨hlt, hbases, _, rfl, hbase'.trans hbase, hsize'.trans hsize⟩
  | free vAddr =>
    obtain ⟨i, hi, rfl⟩ := Option.map_eq_some_iff.mp hstep
    obtain ⟨hlt, hbases, j, hj, hbase, hsize⟩ := hh
    obtain rfl := Option.some.inj (hi.symm.trans hj)
    obtain ⟨hbase', hsize'⟩ := H.arena_free i vAddr
    exact ⟨hlt, hbases, _, rfl, hbase'.trans hbase, hsize'.trans hsize⟩

end

theorem above_of_subset {c d : Region} (h : r.Above d) (hvirt : c.virts ⊆ d.virts)
    (hphys : c.physs ⊆ d.physs) : r.Above c :=
  ⟨hvirt.trans h.virts_subset, hphys.trans h.physs_subset, h.virts_disjoint.mono_right hvirt,
    h.physs_disjoint.mono_right hphys⟩

theorem blockAbove_of_placedOn {H : O1HeapBlocks} {h : Heap H.toO1Heap} {c : HeapCall}
    (hk : k < 64) (hr : r.InSpace) (hfits : r.HalfFits (2 ^ k)) (hh : PlacedOn (2 ^ k) r h) :
    BlockAbove r h c := by
  cases c with
  | mmap => trivial
  | free => trivial
  | malloc sizeB =>
    intro v p h' hm hv
    obtain ⟨i, hi, rfl, rfl, -⟩ := malloc_some hm
    obtain ⟨hlt, hbases, j, hj, hbase, hsize⟩ := hh
    obtain rfl := Option.some.inj (hi.symm.trans hj)
    have hge := (H.allocate_mem i sizeB hv).1
    have hlt' := (H.allocate_mem i sizeB hv).2
    have hle := H.allocate_le i sizeB hv
    generalize (H.allocate i sizeB).1 = v at hge hlt' hle ⊢
    rw [hbase] at hge hlt' hle
    rw [hsize] at hlt' hle
    have hlo := half_le_alignUp hk hr
    have hvirt := hr.virt_le
    have hphys := hr.phys_le
    unfold Region.HalfFits at hfits
    simp only [Region.arena] at hge hlt' hle
    -- the stored address is as far from the physical base as the returned one from the mapping
    have hp := (rebase_iff (f := r.phys) (h := r.virt) (v := v) hlt (by omega) (by omega)).mpr
      hbases
    rw [← hp]
    have habove := (arena_above_iff hk hr).mpr hfits
    refine above_of_subset habove ?_ ?_
    · rintro x ⟨hx, hx'⟩
      simp only [Region.arena, Region.virts, Set.mem_Ico] at hx hx' ⊢
      omega
    · rintro x ⟨hx, hx'⟩
      simp only [Region.arena, Region.physs, Set.mem_Ico] at hx hx' ⊢
      omega

/-- The arena is where it should be just when the rounded half leaves it room, and with it each
block of every run in which the later opens keep the bases. -/
theorem heap_above {H : O1HeapBlocks} {h₀ h h' : Heap H.toO1Heap}
    {tr : List (Heap H.toO1Heap × HeapCall)} (hk : k < 64) (hr : r.InSpace)
    (hnone : h₀.manager = none) (hinit : (h₀.placeAt (2 ^ k) r).init r = (0, h))
    (hrun : (heapCalls H.toO1Heap (2 ^ k)).Run h tr h') :
    (HeapAbove (2 ^ k) r tr → r.HalfFits (2 ^ k)) ∧
      (r.HalfFits (2 ^ k) ∧ (∀ e ∈ tr, KeepsBases e.1 e.2) → HeapAbove (2 ^ k) r tr) := by
  refine ⟨fun h => (arena_above_iff hk hr).mp h.arena, ?_⟩
  rintro ⟨hfits, hkeeps⟩
  refine ⟨(arena_above_iff hk hr).mpr hfits, fun e he => ?_⟩
  obtain ⟨tr', hr', hsub⟩ := hrun.exists_before he
  have hplaced : PlacedOn (2 ^ k) r e.1 :=
    hr'.invariant_of_cond (placedOn_init hnone hinit) placedOn_step
      fun q hq => hkeeps q (hsub q hq)
  exact blockAbove_of_placedOn hk hr hfits hplaced

def bumpBlocks : O1HeapBlocks where
  toO1Heap := bump
  allocate_le := by
    intro i n h
    simp only [bump] at h ⊢
    split_ifs at h ⊢ with hroom
    · exact hroom.le
    · exact absurd rfl h

def l2 : Region := ⟨0x10000000, 0x78000000, 0x10000⟩

def unplaced : Heap bump := ⟨none, 0, 0, 0, l2⟩

theorem heap_above_l2 : ∃ h tr h', (heapCalls bump O1HEAP_ALIGNMENT).Run h tr h' ∧
    (∃ e ∈ tr, ∃ v p h'', Heap.malloc e.1 64 = some (v, p, h'') ∧ v ≠ 0) ∧
    HeapAbove O1HEAP_ALIGNMENT l2 tr := by
  obtain ⟨h, v, p, t, hinit, hm, hv, hkeeps⟩ : ∃ h v p t,
      (unplaced.placeAt O1HEAP_ALIGNMENT l2).init l2 = (0, h) ∧ h.malloc 64 = some (v, p, t) ∧
        v ≠ 0 ∧ KeepsBases t (.mmap l2) := ⟨_, _, _, _, rfl, rfl, by decide, rfl⟩
  have hmalloc : (heapCalls bump O1HEAP_ALIGNMENT).step h (.malloc 64) t := ⟨v, p, hm⟩
  have hrun : (heapCalls bump O1HEAP_ALIGNMENT).Run h [(h, .malloc 64), (t, .mmap l2)] _ :=
    (Lts.Run.nil.snoc hmalloc).snoc rfl
  refine ⟨h, _, _, hrun, ⟨_, List.mem_cons_self, v, p, t, hm, hv⟩, ?_⟩
  have halign : O1HEAP_ALIGNMENT = 2 ^ 5 := by norm_num
  have hfits : l2.HalfFits O1HEAP_ALIGNMENT := by decide
  rw [halign] at hinit hrun hfits ⊢
  refine (heap_above (H := bumpBlocks) (by norm_num) ⟨by decide, by decide⟩ rfl hinit hrun).2
    ⟨hfits, ?_⟩
  exact List.forall_mem_cons.mpr ⟨trivial, List.forall_mem_singleton.mpr hkeeps⟩

theorem heap_not_above :
    let r : Region := ⟨0x10000000, 0x78000000, 0x10010⟩
    ((unplaced.placeAt O1HEAP_ALIGNMENT r).init r).1 = 0 ∧
      ¬ HeapAbove (H := bump) O1HEAP_ALIGNMENT r [] := by
  refine ⟨rfl, fun h => ?_⟩
  have hlast := h.arena.virts_subset (a := 0x10010027) ⟨by decide, by decide⟩
  exact absurd hlast.2 (by norm_num)

end HeroTools.Libhero
