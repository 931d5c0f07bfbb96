import HeroTools.Libhero.Syscalls

/-! `driver_lookup_mmap`: when the address that it returns leads to the region that the
driver describes. -/

namespace HeroTools.Libhero
open Driver
variable {b : Board} {env : Env} {menv : MmapEnv} {place : Option Nat} {mmapId : Int}
  {chunk : CardIoctlArg} {s : State b}

abbrev EIO : Int := 5

/-- `mmap_id * getpagesize()` is an `int`, and what the driver gets of it is a page number. -/
def pageOffset (mmapId : Int) : Nat :=
  toUlong (toInt32 (toUlong (mmapId * PAGE_SIZE))) >>> PAGE_SHIFT

/-! ## `driver.h` -/

def driverLookupMem (env : Env) (mmapId : Int) (chunk : CardIoctlArg) (s : State b) :
    Int × Option (Nat × Nat) :=
  match cardIoctl env b.ioctlMemInfos { chunk with mmapId := mmapId } s with
  | .fault _ => (-1, none)
  | .ret err arg _ =>
    if err = 0 then (0, arg.map fun a => (a.size, a.resultPhysAddr)) else (libcIoctl err, none)

inductive DriverMmap
  | fault
  | ret (err : Int) (res : Nat) (map : Option Remap)
deriving DecidableEq, Repr

def driverMmap (place : Option Nat) (menv : MmapEnv) (mmapId : Int) (length : Nat)
    (s : State b) : DriverMmap :=
  match sysMmap place menv length (pageOffset mmapId) s with
  | .fault => .fault
  | .ret r map =>
    if r = 0 then .ret 0 ((map.map Remap.addr).getD 0) map
    else .ret (- EIO) 0 none

/-- The error of `driver_lookup_mem` is dropped; the length is then 0 still. -/
def driverLookupMmap (env : Env) (place : Option Nat) (menv : MmapEnv) (mmapId : Int)
    (chunk : CardIoctlArg) (s : State b) : DriverMmap :=
  let phyLen := ((driverLookupMem env mmapId chunk s).2.map Prod.fst).getD 0
  driverMmap place menv mmapId phyLen s

/-! ## The two switches -/

theorem mmapTarget_of_region {id : Int} {m : b.Mem} (h : b.ptrToDevdataRegion id = some m) :
    ∃ n : Nat, id = n ∧ n ≤ 300 ∧ b.mmapTarget n = some (.region m) := by
  cases b with
  | carfield =>
    simp only [Board.ptrToDevdataRegion, Carfield.ptrToDevdataRegion] at h
    split at h <;> cases h <;> exact ⟨_, rfl, by decide, rfl⟩
  | occamy =>
    simp only [Board.ptrToDevdataRegion, Occamy.ptrToDevdataRegion] at h
    split at h <;> cases h <;> exact ⟨_, rfl, by decide, rfl⟩

theorem region_of_mmapTarget {n : Nat} {m : b.Mem} (h : b.mmapTarget n = some (.region m)) :
    b.ptrToDevdataRegion n = some m := by
  cases b with
  | carfield =>
    simp only [Board.mmapTarget, Carfield.mmapTarget] at h
    split at h <;> cases h <;> rfl
  | occamy =>
    simp only [Board.mmapTarget, Occamy.mmapTarget] at h
    split at h <;> cases h <;> rfl

theorem dmaBufs_of_mmapTarget {n : Nat} (h : b.mmapTarget n = some .dmaBufs) :
    n = DMA_BUFS_MMAP_ID := by
  cases b with
  | carfield =>
    simp only [Board.mmapTarget, Carfield.mmapTarget] at h
    split at h <;> first | rfl | cases h
  | occamy =>
    simp only [Board.mmapTarget, Occamy.mmapTarget] at h
    split at h <;> first | rfl | cases h

/-- The two switches name the same regions by the same numbers, but for the buffers. -/
theorem mmapTarget_eq (b : Board) {n : Nat} (h : n ≠ DMA_BUFS_MMAP_ID) :
    b.mmapTarget n = (b.ptrToDevdataRegion n).map .region := by
  cases hr : b.ptrToDevdataRegion n with
  | some m =>
    obtain ⟨k, hk, -, ht⟩ := mmapTarget_of_region hr
    obtain rfl := Int.ofNat.inj hk
    exact ht
  | none =>
    cases ht : b.mmapTarget n with
    | none => rfl
    | some target =>
      cases target with
      | region m =>
        rw [region_of_mmapTarget ht] at hr
        cases hr
      | dmaBufs => exact absurd (dmaBufs_of_mmapTarget ht) h

theorem pageOffset_natCast {n : Nat} (h : n ≤ 300) : pageOffset n = n := by
  have hlt : n * PAGE_SIZE < 2 ^ 31 := by
    simp only [PAGE_SIZE]
    omega
  have hmul : (n : Int) * (PAGE_SIZE : Nat) = ((n * PAGE_SIZE : Nat) : Int) :=
    (Nat.cast_mul ..).symm
  rw [pageOffset, hmul, toUlong_natCast (hlt.trans (by norm_num)), toInt32_of_lt hlt,
    toUlong_natCast (hlt.trans (by norm_num)), shiftRight_page]
  exact Nat.mul_div_cancel n (by norm_num)

/-! ## What a lookup finds -/

def memInfos (s : State b) (mmapId : Int) : Option (Nat × Nat) :=
  (b.ptrToDevdataRegion mmapId).map fun m => ((s.mem m).size, (s.mem m).pbase)

theorem driverLookupMem_eq : driverLookupMem env mmapId chunk s =
    if env.copyFromUser ∧ env.copyToUser ∧ (memInfos s mmapId).isSome then
      (0, memInfos s mmapId)
    else (-1, none) := by
  unfold driverLookupMem cardIoctl memInfos
  rw [Board.command_memInfos]
  cases env.copyFromUser with
  | false => rfl
  | true =>
    simp only [Bool.not_true, Bool.false_eq_true, if_false, ioctlMemInfos]
    cases b.ptrToDevdataRegion mmapId with
    | none =>
      rw [if_neg (by simp)]
      rfl
    | some m =>
      simp only [sendBack]
      cases env.copyToUser <;> rfl

structure MapsRegion (env : Env) (place : Option Nat) (menv : MmapEnv) (mmapId : Int)
    (s : State b) (size pbase addr : Nat) : Prop where
  infos : memInfos s mmapId = some (size, pbase)
  size_pos : 0 < size
  copies : env.copyFromUser ∧ env.copyToUser
  placed : place = some addr
  remapped : menv.remapPfnRange ⟨addr, pbase >>> PAGE_SHIFT, pageAlign size⟩ = 0

/-- An address is returned for what is reported only, and leads there byte by byte; for
anything else there is an error. -/
def LooksUp (env : Env) (place : Option Nat) (menv : MmapEnv) (mmapId : Int)
    (chunk : CardIoctlArg) (s : State b) : Prop :=
  match driverLookupMmap env place menv mmapId chunk s with
  | .fault => False
  | .ret err v map => err ≠ 0 ∨ ∃ size pbase m, memInfos s mmapId = some (size, pbase) ∧
      0 < size ∧ map = some m ∧ ∀ k < size, m.backing (v + k) = some (pbase + k)

theorem driverMmap_zero (place : Option Nat) (menv : MmapEnv) (mmapId : Int) (s : State b) :
    driverMmap place menv mmapId 0 s = .ret (- EIO) 0 none := rfl

theorem driverMmap_selected {n : Nat} (hn : n ≤ 300) {r : SharedMem}
    (hr : selected s n = some r) {length : Nat} (hpos : 0 < length) :
    driverMmap place menv n length s =
      match place with
      | none => .ret (- EIO) 0 none
      | some addr =>
        let map : Remap := ⟨addr, r.pbase >>> PAGE_SHIFT, pageAlign length⟩
        if menv.remapPfnRange map = 0 then .ret 0 addr (some map) else .ret (- EIO) 0 none := by
  unfold driverMmap sysMmap
  rw [pageOffset_natCast hn, dif_pos hpos]
  cases place with
  | none => rfl
  | some addr =>
    simp only
    rw [cardMmap_selected (show selected s (area addr length n hpos).vmPgoff = some r from hr)]
    simp only [area, Nat.add_sub_cancel_left]
    rfl

theorem driverLookupMmap_cases (env : Env) (place : Option Nat) (menv : MmapEnv)
    (mmapId : Int) (chunk : CardIoctlArg) (s : State b) :
    (∃ size pbase addr, MapsRegion env place menv mmapId s size pbase addr ∧
      driverLookupMmap env place menv mmapId chunk s =
        .ret 0 addr (some ⟨addr, pbase >>> PAGE_SHIFT, pageAlign size⟩)) ∨
    (∀ size pbase addr, ¬ MapsRegion env place menv mmapId s size pbase addr) ∧
      driverLookupMmap env place menv mmapId chunk s = .ret (- EIO) 0 none := by
  unfold driverLookupMmap
  rw [driverLookupMem_eq]
  split_ifs with hcalls
  swap
  · -- the length stays 0, for which the kernel makes no area
    refine .inr ⟨fun size pbase addr h => hcalls ⟨h.copies.1, h.copies.2, ?_⟩, rfl⟩
    rw [h.infos]
    rfl
  obtain ⟨hfrom, hto, hsome⟩ := hcalls
  obtain ⟨⟨size, pbase⟩, hinfo⟩ := Option.isSome_iff_exists.mp hsome
  have hsame {size' pbase' addr : Nat}
      (h : MapsRegion env place menv mmapId s size' pbase' addr) : size' = size ∧ pbase' = pbase :=
    Prod.mk.inj (Option.some.inj (h.infos.symm.trans hinfo))
  obtain ⟨m, hm, hmem⟩ := Option.map_eq_some_iff.mp hinfo
  obtain ⟨rfl, rfl⟩ := Prod.mk.inj hmem
  rw [hinfo]
  simp only [Option.map_some, Option.getD_some]
  -- a region without a size is reported, but cannot be mapped
  by_cases hsize : (s.mem m).size = 0
  · rw [hsize]
    refine .inr ⟨fun size' pbase' addr h => ?_, driverMmap_zero place menv mmapId s⟩
    have hpos := h.size_pos
    rw [(hsame h).1, hsize] at hpos
    exact absurd hpos (lt_irrefl 0)
  have hpos := Nat.pos_of_ne_zero hsize
  obtain ⟨n, rfl, hn, ht⟩ := mmapTarget_of_region hm
  have hsel : selected s n = some (s.mem m) := by
    rw [selected, ht]
    rfl
  rw [driverMmap_selected hn hsel hpos]
  cases place with
  | none => exact .inr ⟨fun size' pbase' addr h => Option.some_ne_none _ h.placed.symm, rfl⟩
  | some addr =>
    simp only
    split_ifs with hremap
    · exact .inl ⟨_, _, addr, ⟨hinfo, hpos, ⟨hfrom, hto⟩, rfl, hremap⟩, rfl⟩
    · refine .inr ⟨fun size' pbase' addr' h => hremap ?_, rfl⟩
      have hr := h.remapped
      rw [(hsame h).1, (hsame h).2, ← Option.some.inj h.placed] at hr
      exact hr

theorem backed_iff_dvd {addr pbase size : Nat} (hpos : 0 < size) :
    (∀ k < size, Remap.backing ⟨addr, pbase >>> PAGE_SHIFT, pageAlign size⟩ (addr + k) =
      some (pbase + k)) ↔ PAGE_SIZE ∣ pbase := by
  have hle := le_pageAlign size
  constructor
  · intro h
    have h0 := h 0 hpos
    rw [backing_area (hpos.trans_le hle), Nat.add_zero, Nat.add_zero] at h0
    exact Dvd.intro_left _ (Option.some.inj h0)
  · intro hdvd k hk
    rw [backing_area (hk.trans_le hle), Nat.div_mul_cancel hdvd]

theorem looksUp_iff : LooksUp env place menv mmapId chunk s ↔
    ∀ size pbase addr, MapsRegion env place menv mmapId s size pbase addr →
      PAGE_SIZE ∣ pbase := by
  unfold LooksUp
  rcases driverLookupMmap_cases env place menv mmapId chunk s with
    ⟨size, pbase, addr, hmap, heq⟩ | ⟨hnone, heq⟩
  · rw [heq]
    constructor
    · rintro (h0 | ⟨size', pbase', m, hinfo, hpos, hm, hback⟩) size'' pbase'' addr' h
      · exact absurd rfl h0
      · obtain ⟨rfl, rfl⟩ := Prod.mk.inj (Option.some.inj (hmap.infos.symm.trans hinfo))
        obtain ⟨rfl, rfl⟩ := Prod.mk.inj (Option.some.inj (h.infos.symm.trans hinfo))
        obtain rfl := Option.some.inj hm
        exact (backed_iff_dvd hpos).mp hback
    · intro h
      exact .inr ⟨size, pbase, _, hmap.infos, hmap.size_pos, rfl,
        (backed_iff_dvd hmap.size_pos).mpr (h size pbase addr hmap)⟩
  · rw [heq]
    exact iff_of_true (.inl (by decide)) fun size pbase addr h => absurd h (hnone size pbase addr)

/-- The switches agree, so a lookup goes wrong only where the page that is mapped begins
before the region does. -/
theorem driverLookupMmap_backed_iff (env : Env) (place : Option Nat) (menv : MmapEnv)
    (mmapId : Int) (chunk : CardIoctlArg) (s : State b) :
    (∀ n, n ≠ DMA_BUFS_MMAP_ID →
      b.mmapTarget n = (b.ptrToDevdataRegion n).map .region) ∧
    (LooksUp env place menv mmapId chunk s ↔
      ∀ size pbase addr, MapsRegion env place menv mmapId s size pbase addr →
        PAGE_SIZE ∣ pbase) :=
  ⟨fun _ h => mmapTarget_eq b h, looksUp_iff⟩

theorem driverLookupMmap_not_backed :
    let s : State .carfield := .probed fun
      | .l3Mem => ⟨0x80000800, 0, 0x1000⟩
      | _ => ⟨0, 0, 0⟩
    ¬ LooksUp Env.sound (some 0x10000) ⟨none, fun _ => 0⟩ 2 ⟨0, 0, 0, 0⟩ s := by
  intro s h
  have hmaps : MapsRegion Env.sound (some 0x10000) ⟨none, fun _ => 0⟩ 2 s 0x1000 0x80000800
      0x10000 := ⟨rfl, by norm_num, ⟨rfl, rfl⟩, rfl, rfl⟩
  have hdvd := looksUp_iff.mp h _ _ _ hmaps
  exact absurd hdvd (by decide)

end HeroTools.Libhero
