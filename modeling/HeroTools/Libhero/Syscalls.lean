import HeroTools.Driver.Mmap

/-! The system calls on the device file as a process sees them. -/

namespace HeroTools.Libhero
open Driver
variable {b : Board}

abbrev DMA_BUFS_MMAP_ID : Nat := 1

theorem mmapTarget_dmaBufs (b : Board) :
    b.mmapTarget DMA_BUFS_MMAP_ID = some .dmaBufs := by
  cases b <;> rfl

/-- What the C library's `ioctl` returns for a system call that returned `r`. -/
def libcIoctl (r : Int) : Int := if r < 0 then -1 else r

theorem libcIoctl_eq_zero_iff {r : Int} : libcIoctl r = 0 ↔ r = 0 := by
  unfold libcIoctl
  split_ifs with hr
  · exact iff_of_false (by decide) hr.ne
  · rfl

def area (addr length pgoff : Nat) (h : 0 < length) : Vma where
  vmStart := addr
  vmEnd := addr + pageAlign length
  vmPgoff := pgoff
  start_lt_end := Nat.lt_add_of_pos_right (h.trans_le (le_pageAlign length))
  page_multiple := by
    rw [Nat.add_sub_cancel_left]
    exact Nat.dvd_mul_left ..

/-- `mmap` at an address of the kernel's choice, if there is room: an area of no bytes is
refused before the driver is asked. -/
def sysMmap (place : Option Nat) (env : MmapEnv) (length pgoff : Nat) (s : State b) :
    MmapOutcome :=
  if h : 0 < length then
    match place with
    | none => .ret (-ENOMEM) none
    | some addr => cardMmap env (area addr length pgoff h) s
  else .ret (-EINVAL) none

theorem cardMmap_selected {env : MmapEnv} {vma : Vma} {s : State b} {r : SharedMem}
    (h : selected s vma.vmPgoff = some r) :
    cardMmap env vma s =
      let map : Remap := ⟨vma.vmStart, r.pbase >>> PAGE_SHIFT, vma.vmEnd - vma.vmStart⟩
      .ret (env.remapPfnRange map) (some map) := by
  obtain ⟨target, ht, hr⟩ := Option.bind_eq_some_iff.mp h
  unfold cardMmap
  rw [ht]
  cases target with
  | region m =>
    obtain rfl := Option.some.inj hr
    rfl
  | dmaBufs =>
    have hlast : listLastEntry env s = some r := by
      rw [listLastEntry, show s.testHead.getLast? = some r from hr, Option.some_or]
    simp only [hlast]

theorem backing_area {addr base length k : Nat} (hk : k < pageAlign length) :
    Remap.backing ⟨addr, base >>> PAGE_SHIFT, pageAlign length⟩ (addr + k) =
      some (base / PAGE_SIZE * PAGE_SIZE + k) := by
  rw [Remap.backing, if_pos ⟨Nat.le_add_right _ _, Nat.add_lt_add_left hk _⟩,
    Nat.add_sub_cancel_left, shiftRight_page]

end HeroTools.Libhero
