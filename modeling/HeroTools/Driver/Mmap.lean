import HeroTools.Driver.DmaBuffers
import HeroTools.Lib.Pages

/-! `card_mmap` of the two drivers, and which physical pages it lets a process reach. -/

namespace HeroTools.Driver
variable {b : Board} {s : State b}

/-- The fields of a `struct vm_area_struct` that are read; the kernel rounds both ends to
pages and passes no empty area. -/
structure Vma where
  vmStart : Nat
  vmEnd : Nat
  vmPgoff : Nat
  start_lt_end : vmStart < vmEnd
  page_multiple : PAGE_SIZE ∣ vmEnd - vmStart

def pageAlign (length : Nat) : Nat := (length + 4095) / 4096 * 4096

theorem le_pageAlign (length : Nat) : length ≤ pageAlign length := by
  unfold pageAlign
  omega

structure Remap where
  addr : Nat
  pfn : Nat
  size : Nat
deriving DecidableEq, Repr

def Remap.backing (m : Remap) (a : Nat) : Option Nat :=
  if m.addr ≤ a ∧ a < m.addr + m.size then some (m.pfn * PAGE_SIZE + (a - m.addr)) else none

def Remap.range (m : Remap) : Set Nat :=
  Set.Ico (m.pfn * PAGE_SIZE) (m.pfn * PAGE_SIZE + m.size)

/-- The kernel's part in one `mmap`: what the words that follow an empty `test_head` give
when they are read as a list entry, if they can be read, and what `remap_pfn_range`
returns. -/
structure MmapEnv where
  stray : Option SharedMem
  remapPfnRange : Remap → Int

inductive MmapOutcome
  | fault
  | ret (r : Int) (handed : Option Remap)
deriving DecidableEq, Repr

/-- `list_last_entry(&cardev_data->test_head, struct k_list, list)->data`: without an entry
it is read from what surrounds the list head. -/
def listLastEntry (env : MmapEnv) (s : State b) : Option SharedMem :=
  s.testHead.getLast?.or env.stray

def cardMmap (env : MmapEnv) (vma : Vma) (s : State b) : MmapOutcome :=
  match b.mmapTarget vma.vmPgoff with
  | none => .ret (-EINVAL) none
  | some target =>
    let mem := match target with
      | .region m => some (s.mem m)
      | .dmaBufs => listLastEntry env s
    match mem with
    | none => .fault
    | some r =>
      let vsize := vma.vmEnd - vma.vmStart
      -- `vsize > r.size` is reported, but nothing is returned for it
      let m : Remap := ⟨vma.vmStart, r.pbase >>> PAGE_SHIFT, vsize⟩
      .ret (env.remapPfnRange m) (some m)

/-! ## Safety -/

def selected (s : State b) (vmPgoff : Nat) : Option SharedMem :=
  (b.mmapTarget vmPgoff).bind fun
    | .region m => some (s.mem m)
    | .dmaBufs => s.testHead.getLast?

def SharedMem.HasPage (r : SharedMem) (q : Nat) : Prop :=
  ∃ a, r.pbase ≤ a ∧ a < r.pbase + r.size ∧ a / PAGE_SIZE = q

/-- The request is refused, or all pages handed over are pages of what it selects. -/
def MmapSafe (s : State b) (vma : Vma) : MmapOutcome → Prop
  | .fault => False
  | .ret r none => r ≠ 0
  | .ret r (some m) => r ≠ 0 ∨ ∃ mem, selected s vma.vmPgoff = some mem ∧
      ∀ q, m.pfn ≤ q → q < m.pfn + m.size / PAGE_SIZE → mem.HasPage q

/-- What the driver would have to check: the page offset is unknown, or it selects memory
that is there and has as many pages as the request. An entry read beside an empty list is
no such memory; there only a failure of `remap_pfn_range` helps. -/
def MmapOk (env : MmapEnv) (vma : Vma) (s : State b) : Prop :=
  let vsize := vma.vmEnd - vma.vmStart
  let refused r :=
    env.remapPfnRange ⟨vma.vmStart, r.pbase >>> PAGE_SHIFT, vsize⟩ ≠ 0
  match b.mmapTarget vma.vmPgoff, selected s vma.vmPgoff with
  | none, _ => True
  | some _, some r =>
    refused r ∨ 0 < r.size ∧ vsize ≤ PAGE_SIZE * pageSpan PAGE_SIZE r.pbase r.size
  | some _, none => ∃ r, env.stray = some r ∧ refused r

theorem pages_of_vma (vma : Vma) (k : Nat) :
    (vma.vmEnd - vma.vmStart) / PAGE_SIZE ≤ k ↔
      vma.vmEnd - vma.vmStart ≤ PAGE_SIZE * k := by
  obtain ⟨n, hn⟩ := vma.page_multiple
  rw [hn, Nat.mul_div_cancel_left _ (by norm_num)]
  exact (Nat.mul_le_mul_left_iff (by norm_num)).symm

theorem handed_pages_iff (vma : Vma) (r : SharedMem) :
    (∀ q, r.pbase >>> PAGE_SHIFT ≤ q →
      q < r.pbase >>> PAGE_SHIFT + (vma.vmEnd - vma.vmStart) / PAGE_SIZE → r.HasPage q) ↔
      0 < r.size ∧
        vma.vmEnd - vma.vmStart ≤ PAGE_SIZE * pageSpan PAGE_SIZE r.pbase r.size := by
  obtain ⟨n, hn⟩ := vma.page_multiple
  have hpos : 0 < (vma.vmEnd - vma.vmStart) / PAGE_SIZE := by
    have hlt := vma.start_lt_end
    rw [hn, Nat.mul_div_cancel_left _ (by norm_num)]
    by_contra h0
    obtain rfl : n = 0 := by omega
    omega
  rw [shiftRight_page, ← pages_of_vma]
  exact pages_within_iff (by norm_num) hpos

theorem mmapSafe_handed_iff {vma : Vma} {r : SharedMem}
    (hr : selected s vma.vmPgoff = some r) (ret : Int) :
    MmapSafe s vma (.ret ret
      (some ⟨vma.vmStart, r.pbase >>> PAGE_SHIFT, vma.vmEnd - vma.vmStart⟩)) ↔
      ret ≠ 0 ∨ 0 < r.size ∧
        vma.vmEnd - vma.vmStart ≤ PAGE_SIZE * pageSpan PAGE_SIZE r.pbase r.size := by
  simp only [MmapSafe, hr, Option.some.injEq, exists_eq_left', handed_pages_iff]

/-- A selector that names nothing is safe; any other request is safe just when the check
that `card_mmap` leaves out would let it pass. -/
theorem cardMmap_safe_iff (env : MmapEnv) (vma : Vma) (s : State b) :
    MmapSafe s vma (cardMmap env vma s) ↔ MmapOk env vma s := by
  unfold cardMmap MmapOk
  cases ht : b.mmapTarget vma.vmPgoff with
  | none => simp [MmapSafe]
  | some target =>
    cases target with
    | region m =>
      have hr : selected s vma.vmPgoff = some (s.mem m) := by simp [selected, ht]
      simp only [hr]
      exact mmapSafe_handed_iff hr _
    | dmaBufs =>
      cases hl : s.testHead.getLast? with
      | some r =>
        have hr : selected s vma.vmPgoff = some r := by simp [selected, ht, hl]
        simp only [hr, listLastEntry, hl, Option.some_or]
        exact mmapSafe_handed_iff hr _
      | none =>
        have hr : selected s vma.vmPgoff = none := by simp [selected, ht, hl]
        simp only [hr, listLastEntry, hl, Option.none_or]
        cases env.stray with
        | none => simp [MmapSafe]
        | some r => simp [MmapSafe, hr]

def Vma.pages (off n : Nat) : Vma where
  vmStart := PAGE_SIZE
  vmEnd := PAGE_SIZE + PAGE_SIZE * (n + 1)
  vmPgoff := off
  start_lt_end := Nat.lt_add_of_pos_right (Nat.mul_pos (by norm_num) n.succ_pos)
  page_multiple := ⟨n + 1, Nat.add_sub_cancel_left ..⟩

theorem cardMmap_not_safe :
    let s : State .carfield := .probed fun
      | .l3Mem => ⟨0x80000000, 0, 0x1000⟩
      | _ => ⟨0, 0, 0⟩
    let env : MmapEnv := ⟨some ⟨0x20000, 0, 0x1000⟩, fun _ => 0⟩
    (device .carfield).Run s [] s ∧
    ¬ MmapSafe s (.pages 2 1) (cardMmap env (.pages 2 1) s) ∧
    ¬ MmapSafe s (.pages 0 0) (cardMmap env (.pages 0 0) s) ∧
    ¬ MmapSafe s (.pages 1 0) (cardMmap env (.pages 1 0) s) ∧
    cardMmap { env with stray := none } (.pages 1 0) s = .fault := by
  refine ⟨.nil, ?_, ?_, ?_, rfl⟩
  · rintro (h | ⟨r, hr, h⟩)
    · exact h rfl
    · obtain rfl := Option.some.inj hr
      obtain ⟨a, -, hlt, hq⟩ := h 0x80001 (by decide) (by decide)
      have : a < 0x80000000 + 0x1000 := hlt
      simp only [PAGE_SIZE] at hq
      omega
  · rintro (h | ⟨r, hr, h⟩)
    · exact h rfl
    · obtain rfl := Option.some.inj hr
      obtain ⟨a, -, hlt, -⟩ := h 0 (by decide) (by decide)
      exact Nat.not_lt_zero a hlt
  · rintro (h | ⟨r, hr, -⟩)
    · exact h rfl
    · cases hr

end HeroTools.Driver
