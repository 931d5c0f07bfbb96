import HeroTools.Libhero.HostMalloc
import HeroTools.Libhero.Lookup

/-! `hero_host_l3_malloc` with nobody between its two system calls: what it leaves behind
when it fails, and how much of the buffer is mapped when it does not. -/

namespace HeroTools.Libhero
open Driver
variable {b : Board} {env : Env} {place : Option Nat} {menv : MmapEnv} {sizeB : Nat}
  {chunk : CardIoctlArg} {s : State b}

/-- The address returned, what is mapped there, and the driver's state; nothing when the
driver follows a null pointer. -/
def heroHostL3Malloc (env : Env) (place : Option Nat) (menv : MmapEnv) (sizeB : Nat)
    (chunk : CardIoctlArg) (s : State b) : Option (Nat × Option Remap × State b) :=
  match cardIoctl env b.ioctlDmaAlloc { chunk with size := chunkSize sizeB } s with
  | .fault _ => none
  | .ret err _ s' =>
    if libcIoctl err ≠ 0 then some (0, none, s')
    else
      match driverMmap place menv DMA_BUFS_MMAP_ID sizeB s' with
      | .fault => none
      | .ret _ res map => some (res, map, s')

/-- 0 is returned and no buffer is left behind, or all the bytes asked for are mapped inside
of the new buffer. -/
def Delivers (sizeB : Nat) (s : State b) : Option (Nat × Option Remap × State b) → Prop
  | none => False
  | some (v, map, s') => v = 0 ∧ s'.blocks.length ≤ s.blocks.length ∨
      v ≠ 0 ∧ ∃ buf m, s'.blocks = s.blocks ++ [buf] ∧ map = some m ∧ sizeB ≤ buf.bytes ∧
        ∀ k < sizeB, ∃ a ∈ buf.range, m.backing (v + k) = some a

/-- No pages are given, or everything that follows succeeds too, for at least one byte and
no more than fit behind the offset that the driver adds. -/
def AllocOk (env : Env) (place : Option Nat) (menv : MmapEnv) (sizeB : Nat) (s : State b) :
    Prop :=
  ¬ env.copyFromUser ∨ env.getFreePages = none ∨
    ∃ virt phys addr, env.getFreePages = some (virt, phys) ∧ place = some addr ∧
      env.kmallocNode ∧ env.kmallocData ∧ env.copyToUser ∧
      menv.remapPfnRange
        ⟨addr, ((phys + pcieOffset s) % 2 ^ 64) >>> PAGE_SHIFT, pageAlign sizeB⟩ = 0 ∧
      0 < sizeB ∧ pcieOffset s / PAGE_SIZE * PAGE_SIZE + sizeB ≤
        PAGE_SIZE * 2 ^ dmaOrder (chunkSize sizeB)

/-! ## The mapping of a new buffer -/

theorem page_of_offset {phys off : Nat} (hal : PAGE_SIZE ∣ phys) :
    (phys + off) % 2 ^ 64 / PAGE_SIZE * PAGE_SIZE =
      (phys + off / PAGE_SIZE * PAGE_SIZE) % 2 ^ 64 := by
  obtain ⟨q, rfl⟩ := hal
  simp only [PAGE_SIZE]
  omega

theorem mapped_inside_iff (addr : Nat) {phys off bytes : Nat} (hal : PAGE_SIZE ∣ phys)
    (hle : phys + bytes ≤ 2 ^ 64) (hoff : off < 2 ^ 64) (hpos : 0 < sizeB) :
    (∀ k < sizeB, ∃ a ∈ Set.Ico phys (phys + bytes),
      Remap.backing ⟨addr, ((phys + off) % 2 ^ 64) >>> PAGE_SHIFT, pageAlign sizeB⟩ (addr + k) =
        some a) ↔ off / PAGE_SIZE * PAGE_SIZE + sizeB ≤ bytes := by
  have hback {k : Nat} (hk : k < sizeB) :
      Remap.backing ⟨addr, ((phys + off) % 2 ^ 64) >>> PAGE_SHIFT, pageAlign sizeB⟩ (addr + k) =
        some ((phys + off) % 2 ^ 64 / PAGE_SIZE * PAGE_SIZE + k) :=
    backing_area (hk.trans_le (le_pageAlign sizeB))
  have hpart := offset_part_iff (n := sizeB) hle
    (show off / PAGE_SIZE * PAGE_SIZE < 2 ^ 64 from (Nat.div_mul_le_self _ _).trans_lt hoff)
  rw [Set.Ico_subset_Ico_iff (by omega), ← page_of_offset hal, or_iff_right hpos.ne'] at hpart
  rw [← hpart]
  generalize (phys + off) % 2 ^ 64 / PAGE_SIZE * PAGE_SIZE = base at hback ⊢
  constructor
  · intro h
    obtain ⟨a, ha, h0⟩ := h 0 hpos
    obtain ⟨c, hc, hlast⟩ := h (sizeB - 1) (by omega)
    rw [hback hpos] at h0
    rw [hback (by omega)] at hlast
    obtain rfl := Option.some.inj h0
    obtain rfl := Option.some.inj hlast
    rw [Set.mem_Ico] at ha hc
    omega
  · rintro ⟨hlow, hhigh⟩ k hk
    refine ⟨_, Set.mem_Ico.mpr ⟨?_, ?_⟩, hback hk⟩
    · exact Nat.le_add_right_of_le hlow
    · omega

theorem driverMmap_new_buffer (p : PageBlock) (length size : Nat) (hpos : 0 < size) :
    driverMmap place menv DMA_BUFS_MMAP_ID size (bufferAdded s p length) =
      match place with
      | none => .ret (- EIO) 0 none
      | some addr =>
        let map : Remap := ⟨addr, recordedPbase s p >>> PAGE_SHIFT, pageAlign size⟩
        if menv.remapPfnRange map = 0 then .ret 0 addr (some map) else .ret (- EIO) 0 none := by
  have hsel : selected (bufferAdded s p length) DMA_BUFS_MMAP_ID =
      some ⟨recordedPbase s p, p.virt, length⟩ := by
    rw [selected, mmapTarget_dmaBufs]
    exact List.getLast?_concat
  exact driverMmap_selected (by decide) hsel hpos

/-! ## The call -/

/-- What the page allocator and the kernel's choice of an address are known to give. -/
structure KernelSound (env : Env) (place : Option Nat) (order : Nat) : Prop where
  aligned : ∀ virt phys, env.getFreePages = some (virt, phys) → PAGE_SIZE ∣ phys
  end_le : ∀ virt phys, env.getFreePages = some (virt, phys) →
    phys + PAGE_SIZE * 2 ^ order ≤ 2 ^ 64
  place_ne : place ≠ some 0

theorem ioctl_alloc_chunk (size : Nat) :
    cardIoctl env b.ioctlDmaAlloc { chunk with size := size } s =
      if ¬ env.copyFromUser then .ret (-EFAULT) none s
      else match env.getFreePages with
        | none => .ret (-ENOMEM) none s
        | some (virt, phys) =>
          let p : PageBlock := ⟨virt, phys, dmaOrder size⟩
          if env.kmallocNode ∧ env.kmallocData then
            sendBack env ⟨size, recordedPbase s p, virt, chunk.mmapId⟩ (bufferAdded s p size)
          else .fault .node := by
  rw [cardIoctl_dmaAlloc]
  cases env.copyFromUser with
  | false => rfl
  | true =>
    rw [if_pos rfl, if_neg (by decide), ioctlDmaAlloc]
    rcases env.getFreePages with _ | ⟨virt, phys⟩
    · rfl
    · cases env.kmallocNode <;> cases env.kmallocData <;> rfl

theorem not_delivers_leak {p : PageBlock} {length : Nat} :
    ¬ Delivers sizeB s (some (0, none, bufferAdded s p length)) := by
  rintro (⟨-, hle⟩ | ⟨h0, -⟩)
  · have hlen : (s.blocks ++ [p]).length ≤ s.blocks.length := hle
    rw [List.length_append, List.length_singleton] at hlen
    omega
  · exact h0 rfl

theorem delivers_mapped_iff {p : PageBlock} {addr length : Nat} (hal : PAGE_SIZE ∣ p.phys)
    (hle : p.phys + p.bytes ≤ 2 ^ 64) (haddr : addr ≠ 0) (hpos : 0 < sizeB) :
    Delivers sizeB s (some (addr,
        some ⟨addr, recordedPbase s p >>> PAGE_SHIFT, pageAlign sizeB⟩,
        bufferAdded s p length)) ↔
      pcieOffset s / PAGE_SIZE * PAGE_SIZE + sizeB ≤ p.bytes := by
  have hin := mapped_inside_iff addr hal hle (pcieOffset_lt s) hpos
  constructor
  · rintro (⟨h0, -⟩ | ⟨-, buf, m, hbuf, hm, -, hback⟩)
    · exact absurd h0 haddr
    · obtain rfl : p = buf := by
        have hblocks : s.blocks ++ [p] = s.blocks ++ [buf] := hbuf
        simpa using hblocks
      obtain rfl := Option.some.inj hm
      exact hin.mp hback
  · intro hfit
    exact .inr ⟨haddr, p, _, rfl, rfl, by omega, hin.mpr hfit⟩

/-- Once the pages are given a call goes wrong in every way but success. -/
theorem host_l3_malloc_alone_iff
    (hk : KernelSound env place (dmaOrder (chunkSize sizeB))) :
    Delivers sizeB s (heroHostL3Malloc env place menv sizeB chunk s) ↔
      AllocOk env place menv sizeB s := by
  unfold heroHostL3Malloc AllocOk
  rw [ioctl_alloc_chunk]
  cases hc : env.copyFromUser with
  | false => exact iff_of_true (.inl ⟨rfl, le_rfl⟩) (.inl (by decide))
  | true =>
  rw [if_neg (by decide)]
  rcases hg : env.getFreePages with _ | ⟨virt, phys⟩
  · exact iff_of_true (.inl ⟨rfl, le_rfl⟩) (.inr (.inl rfl))
  simp only [not_true_eq_false, reduceCtorEq, false_or, Option.some.injEq, Prod.mk.injEq]
  by_cases hm : env.kmallocNode ∧ env.kmallocData
  swap
  · rw [if_neg hm]
    refine iff_of_false id ?_
    rintro ⟨_, _, _, -, -, hnode, hdata, -⟩
    exact hm ⟨hnode, hdata⟩
  rw [if_pos hm, sendBack]
  cases hto : env.copyToUser with
  | false =>
    -- the driver keeps the pages, the caller gets no address
    refine iff_of_false not_delivers_leak ?_
    rintro ⟨_, _, _, -, -, -, -, hcopy, -⟩
    exact absurd hcopy (by decide)
  | true =>
  simp only [if_true, libcIoctl_eq_zero_iff, ne_eq, not_true_eq_false, if_false]
  rcases Nat.eq_zero_or_pos sizeB with rfl | hpos
  · -- the kernel refuses to map nothing, and the page that was allocated for it stays
    refine iff_of_false not_delivers_leak ?_
    rintro ⟨_, _, _, -, -, -, -, -, -, h0, -⟩
    exact lt_irrefl 0 h0
  rw [driverMmap_new_buffer _ _ _ hpos]
  cases hplace : place with
  | none =>
    refine iff_of_false not_delivers_leak ?_
    rintro ⟨_, _, _, -, h, -⟩
    exact Option.some_ne_none _ h.symm
  | some addr =>
    have haddr : addr ≠ 0 := by
      rintro rfl
      exact hk.place_ne hplace
    simp only
    split_ifs with hremap
    · refine (delivers_mapped_iff (hk.aligned virt phys hg) (hk.end_le virt phys hg) haddr
        hpos).trans ⟨fun hfit => ?_, ?_⟩
      · exact ⟨virt, phys, addr, ⟨rfl, rfl⟩, rfl, hm.1, hm.2, trivial, hremap, hpos, hfit⟩
      · rintro ⟨_, _, _, -, -, -, -, -, -, -, hfit⟩
        exact hfit
    · refine iff_of_false not_delivers_leak ?_
      rintro ⟨_, _, addr', ⟨rfl, rfl⟩, haddr', -, -, -, h, -⟩
      obtain rfl := Option.some.inj haddr'
      exact hremap h

theorem kernelSound_sound {order : Nat} (h : order < 32) :
    KernelSound Env.sound (some 0x40000000) order where
  aligned := by
    rintro virt phys hg
    obtain ⟨-, rfl⟩ := Prod.mk.inj (Option.some.inj hg)
    decide
  end_le := by
    rintro virt phys hg
    obtain ⟨-, rfl⟩ := Prod.mk.inj (Option.some.inj hg)
    have hpow : 2 ^ order ≤ 2 ^ 32 := Nat.pow_le_pow_right (by norm_num) h.le
    simp only [PAGE_SIZE]
    omega
  place_ne := by decide

theorem host_l3_malloc_alone_iff_page :
    let s : State .carfield := .probed fun _ => ⟨0, 0, 0⟩
    Delivers 4096 s
        (heroHostL3Malloc Env.sound (some 0x40000000) ⟨none, fun _ => 0⟩ 4096 ⟨0, 0, 0, 0⟩ s) ↔
      AllocOk Env.sound (some 0x40000000) ⟨none, fun _ => 0⟩ 4096 s :=
  host_l3_malloc_alone_iff (kernelSound_sound (by decide))

theorem host_l3_malloc_alone_not :
    let s : State .carfield := .probed fun _ => ⟨0, 0, 0⟩
    let menv : MmapEnv := ⟨none, fun _ => 0⟩
    let malloc place sizeB := heroHostL3Malloc Env.sound place menv sizeB ⟨0, 0, 0, 0⟩ s
    ¬ Delivers 0 s (malloc (some 0x40000000) 0) ∧ ¬ Delivers 4096 s (malloc none 4096) ∧
      ¬ Delivers (2 ^ 32 - 1) s (malloc (some 0x40000000) (2 ^ 32 - 1)) := by
  intro s menv malloc
  refine ⟨not_delivers_leak, not_delivers_leak, ?_⟩
  rintro (⟨h0, -⟩ | ⟨-, buf, m, hbuf, -, hle, -⟩)
  · exact absurd h0 (by decide)
  · have hchunk : chunkSize (2 ^ 32 - 1) = 0 := chunkSize_of_gt (by norm_num) (by norm_num)
    obtain rfl : (⟨0x10000, 0x10000, dmaOrder (chunkSize (2 ^ 32 - 1))⟩ : PageBlock) = buf :=
      List.singleton_inj.mp (List.append_cancel_left hbuf)
    rw [hchunk] at hle
    exact absurd hle (by decide)

end HeroTools.Libhero
