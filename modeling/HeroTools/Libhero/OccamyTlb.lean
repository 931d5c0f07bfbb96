import HeroTools.Lib.LittleEndian

/-! The transparent TLBs of an Occamy quadrant: what a sequence of `occamy_tlb_write` leaves
in the registers, and which addresses the entries translate. -/

namespace HeroTools.Libhero

/-! ## `snitch_cluster.h` -/

abbrev QCTL_TLB_NARROW_REG_OFFSET : Nat := 0x0800
abbrev QCTL_TLB_WIDE_REG_OFFSET : Nat := 0x1000
abbrev QCTL_TLB_REG_STRIDE : Nat := 0x20

inductive TlbBank
  | narrow
  | wide
deriving DecidableEq, Repr

def TlbBank.offset : TlbBank → Nat
  | .narrow => QCTL_TLB_NARROW_REG_OFFSET
  | .wide => QCTL_TLB_WIDE_REG_OFFSET

/-- Where an entry starts, from `occ_quad_ctrl`. The product is one of 32-bit numbers. -/
def TlbBank.entry (bank : TlbBank) (idx : Nat) : Nat :=
  bank.offset + QCTL_TLB_REG_STRIDE * idx % 2 ^ 32

/-! ## `snitch_cluster.c` -/

/-- The registers, byte by byte from `occ_quad_ctrl`. -/
abbrev QuadCtrl := Nat → UInt8

def writew (value : UInt32) (off : Nat) (regs : QuadCtrl) : QuadCtrl :=
  storeLe regs off 4 value.toNat

def tlbWriteBank (bank : TlbBank) (idx : UInt32) (first last base : UInt64) (flags : UInt32)
    (regs : QuadCtrl) : QuadCtrl :=
  let entry := bank.entry idx.toNat
  let regs := writew first.toUInt32 (entry + 0x00) regs
  let regs := writew (first >>> 32).toUInt32 (entry + 0x04) regs
  let regs := writew last.toUInt32 (entry + 0x08) regs
  let regs := writew (last >>> 32).toUInt32 (entry + 0x0c) regs
  let regs := writew base.toUInt32 (entry + 0x10) regs
  let regs := writew (base >>> 32).toUInt32 (entry + 0x14) regs
  writew flags (entry + 0x18) regs

def occamyTlbWrite (idx : UInt32) (addrBegin addrEnd : UInt64) (flags : UInt32)
    (regs : QuadCtrl) : QuadCtrl :=
  let pageNumBase := addrBegin >>> 12
  let pageNumFirst := addrBegin >>> 12
  let pageNumLast := addrEnd >>> 12
  tlbWriteBank .wide idx pageNumFirst pageNumLast pageNumBase flags
    (tlbWriteBank .narrow idx pageNumFirst pageNumLast pageNumBase flags regs)

/-- A call. From 64 on, the entries of the narrow bank would lie in the wide one. -/
structure TlbCall where
  idx : UInt32
  addrBegin : UInt64
  addrEnd : UInt64
  flags : UInt32
  idx_lt : idx.toNat < 64

def TlbCall.run (regs : QuadCtrl) (c : TlbCall) : QuadCtrl :=
  occamyTlbWrite c.idx c.addrBegin c.addrEnd c.flags regs

/-! ## What the hardware makes of an entry -/

structure TlbEntry where
  first : Nat
  last : Nat
  base : Nat
  flags : Nat
deriving DecidableEq, Repr

def tlbWord64 (regs : QuadCtrl) (off : Nat) : Nat :=
  loadLe regs (off + 4) 4 <<< 32 ||| loadLe regs off 4

def tlbDecode (bank : TlbBank) (idx : Nat) (regs : QuadCtrl) : TlbEntry where
  first := tlbWord64 regs (bank.entry idx + 0x00)
  last := tlbWord64 regs (bank.entry idx + 0x08)
  base := tlbWord64 regs (bank.entry idx + 0x10)
  flags := loadLe regs (bank.entry idx + 0x18) 4

/-- Pages from `first` to `last` go to the pages from `base` on. -/
def TlbEntry.translate (e : TlbEntry) (addr : Nat) : Option Nat :=
  if e.first ≤ addr >>> 12 ∧ addr >>> 12 ≤ e.last then
    some ((e.base + (addr >>> 12 - e.first)) <<< 12 + addr % 2 ^ 12)
  else none

def TlbCall.entry (c : TlbCall) : TlbEntry where
  first := (c.addrBegin >>> 12).toNat
  last := (c.addrEnd >>> 12).toNat
  base := (c.addrBegin >>> 12).toNat
  flags := c.flags.toNat

/-! ## One bank -/

section
variable {bank bank' : TlbBank} {idx j k : Nat} {regs regs' : QuadCtrl}

theorem writew_halves (v : UInt64) (off : Nat) (regs : QuadCtrl) :
    writew (v >>> 32).toUInt32 (off + 4) (writew v.toUInt32 off regs) =
      storeLe regs off 8 v.toNat := by
  have hhigh : (v >>> 32).toUInt32.toNat = v.toNat / 256 ^ 4 % 256 ^ 4 := by
    rw [UInt64.toNat_toUInt32, UInt64.toNat_shiftRight]
    exact congrArg (· % 2 ^ 32) (Nat.shiftRight_eq_div_pow v.toNat 32)
  have hlow : v.toUInt32.toNat = v.toNat % 256 ^ 4 := v.toNat_toUInt32
  rw [writew, writew, hhigh, hlow, storeLe_mod, storeLe_mod, store_storeLe]

theorem tlbWord64_eq (regs : QuadCtrl) (off : Nat) :
    tlbWord64 regs off = loadLe regs off 8 := by
  have hlow : loadLe regs off 4 < 2 ^ 32 := loadLe_lt regs off 4
  rw [tlbWord64, ← Nat.shiftLeft_add_eq_or_of_lt hlow, Nat.shiftLeft_eq, loadLe_add regs off 4 4,
    Nat.add_comm, Nat.mul_comm]
  rfl

theorem tlbWriteBank_eq (bank : TlbBank) (idx : UInt32) (first last base : UInt64)
    (flags : UInt32) (regs : QuadCtrl) :
    tlbWriteBank bank idx first last base flags regs =
      storeLe (storeLe (storeLe (storeLe regs (bank.entry idx.toNat) 8 first.toNat)
        (bank.entry idx.toNat + 0x08) 8 last.toNat)
        (bank.entry idx.toNat + 0x10) 8 base.toNat)
        (bank.entry idx.toNat + 0x18) 4 flags.toNat := by
  rw [← writew_halves, ← writew_halves, ← writew_halves]
  rfl

theorem tlbWriteBank_outside {idx : UInt32} {first last base : UInt64} {flags : UInt32} {x : Nat}
    (h : x < bank.entry idx.toNat ∨ bank.entry idx.toNat + 0x1c ≤ x) :
    tlbWriteBank bank idx first last base flags regs x = regs x := by
  rw [tlbWriteBank_eq, storeLe_outside (by omega), storeLe_outside (by omega),
    storeLe_outside (by omega), storeLe_outside (by omega)]

theorem tlbDecode_write_bank (bank : TlbBank) (idx : UInt32) (first last base : UInt64)
    (flags : UInt32) (regs : QuadCtrl) :
    tlbDecode bank idx.toNat (tlbWriteBank bank idx first last base flags regs) =
      ⟨first.toNat, last.toNat, base.toNat, flags.toNat⟩ := by
  have hword (v : UInt64) : v.toNat % 256 ^ 8 = v.toNat := Nat.mod_eq_of_lt v.toNat_lt
  have hflags : flags.toNat % 256 ^ 4 = flags.toNat := Nat.mod_eq_of_lt flags.toNat_lt
  rw [tlbDecode, tlbWriteBank_eq, TlbEntry.mk.injEq]
  simp only [tlbWord64_eq]
  refine ⟨?_, ?_, ?_, ?_⟩
  · rw [load_storeLe_of_disjoint (by omega), load_storeLe_of_disjoint (by omega),
      load_storeLe_of_disjoint (by omega), Nat.add_zero, load_storeLe, hword]
  · rw [load_storeLe_of_disjoint (by omega), load_storeLe_of_disjoint (by omega),
      load_storeLe, hword]
  · rw [load_storeLe_of_disjoint (by omega), load_storeLe, hword]
  · rw [load_storeLe, hflags]

theorem tlbDecode_congr
    (h : ∀ k < 0x20, regs (bank.entry idx + k) = regs' (bank.entry idx + k)) :
    tlbDecode bank idx regs = tlbDecode bank idx regs' := by
  have hload (o w : Nat) (ho : o + w ≤ 0x20) :
      loadLe regs (bank.entry idx + o) w = loadLe regs' (bank.entry idx + o) w := by
    refine leValue_congr fun k hk => ?_
    rw [Nat.add_assoc]
    exact h (o + k) (by omega)
  rw [tlbDecode, tlbDecode]
  simp only [tlbWord64_eq]
  rw [hload 0x00 8 (by decide), hload 0x08 8 (by decide), hload 0x10 8 (by decide),
    hload 0x18 4 (by decide)]

/-- Entries do not overlap, neither within a bank nor across the banks. -/
theorem TlbBank.entry_disjoint (hi : idx < 64) (hj : j < 64) (h : bank ≠ bank' ∨ idx ≠ j) :
    bank.entry idx + QCTL_TLB_REG_STRIDE ≤ bank'.entry j ∨
      bank'.entry j + QCTL_TLB_REG_STRIDE ≤ bank.entry idx := by
  have hne : bank = bank' → idx ≠ j := fun hb => h.resolve_left (not_not_intro hb)
  cases bank <;> cases bank' <;> simp only [TlbBank.entry, TlbBank.offset] <;> grind

theorem tlbWriteBank_other {c : UInt32} {first last base : UInt64} {flags : UInt32}
    (hi : idx < 64) (hc : c.toNat < 64) (h : bank ≠ bank' ∨ idx ≠ c.toNat) (hk : k < 0x20) :
    tlbWriteBank bank' c first last base flags regs (bank.entry idx + k) =
      regs (bank.entry idx + k) := by
  apply tlbWriteBank_outside
  have hdisj := TlbBank.entry_disjoint hi hc h
  unfold QCTL_TLB_REG_STRIDE at hdisj
  omega

/-! ## Calls -/

theorem TlbCall.decode_run (c : TlbCall) (bank : TlbBank) (regs : QuadCtrl) :
    tlbDecode bank c.idx.toNat (c.run regs) = c.entry := by
  cases bank with
  | narrow =>
    have hnarrow : tlbDecode .narrow c.idx.toNat (tlbWriteBank .narrow c.idx
        (c.addrBegin >>> 12) (c.addrEnd >>> 12) (c.addrBegin >>> 12) c.flags regs) = c.entry :=
      tlbDecode_write_bank .narrow c.idx _ _ _ c.flags regs
    rw [← hnarrow]
    refine tlbDecode_congr fun k hk => ?_
    exact tlbWriteBank_other c.idx_lt c.idx_lt (.inl (by decide)) hk
  | wide => exact tlbDecode_write_bank .wide c.idx _ _ _ c.flags _

theorem TlbCall.run_other {c : TlbCall} (hi : idx < 64) (h : c.idx.toNat ≠ idx) (hk : k < 0x20) :
    c.run regs (bank.entry idx + k) = regs (bank.entry idx + k) := by
  rw [TlbCall.run, occamyTlbWrite, tlbWriteBank_other hi c.idx_lt (.inr h.symm) hk,
    tlbWriteBank_other hi c.idx_lt (.inr h.symm) hk]

theorem foldl_run_other {calls : List TlbCall} (hi : idx < 64)
    (h : ∀ c ∈ calls, c.idx.toNat ≠ idx) (hk : k < 0x20) :
    calls.foldl TlbCall.run regs (bank.entry idx + k) = regs (bank.entry idx + k) := by
  induction calls generalizing regs with
  | nil => rfl
  | cons c calls ih =>
    rw [List.foldl_cons, ih fun d hd => h d (List.mem_cons_of_mem c hd),
      TlbCall.run_other hi (h c List.mem_cons_self) hk]

theorem tlbDecode_foldl (pre : List TlbCall) {post : List TlbCall} {c : TlbCall}
    (h : ∀ d ∈ post, d.idx.toNat ≠ c.idx.toNat) (bank : TlbBank) (regs : QuadCtrl) :
    tlbDecode bank c.idx.toNat ((pre ++ c :: post).foldl TlbCall.run regs) = c.entry := by
  rw [List.foldl_append, List.foldl_cons, ← c.decode_run bank (pre.foldl TlbCall.run regs)]
  exact tlbDecode_congr fun k hk => foldl_run_other c.idx_lt h hk

theorem TlbEntry.translate_of_base_eq {e : TlbEntry} (h : e.base = e.first) (addr : Nat) :
    e.translate addr =
      if e.first ≤ addr >>> 12 ∧ addr >>> 12 ≤ e.last then some addr else none := by
  unfold TlbEntry.translate
  split_ifs with hpage
  · rw [h, Nat.add_sub_cancel' hpage.1, Nat.shiftLeft_eq, Nat.shiftRight_eq_div_pow,
      Nat.div_add_mod']
  · rfl

/-- After any calls and in both banks, an entry holds what the last call for it was to set,
so that it leaves exactly the addresses of those pages as they are; an entry without a call
holds what it held. -/
theorem occamyTlbWrite_runs (calls : List TlbCall) (regs : QuadCtrl) (bank : TlbBank) (idx : Nat)
    (hi : idx < 64) :
    (∀ (pre : List TlbCall) (c : TlbCall) (post : List TlbCall), calls = pre ++ c :: post →
      c.idx.toNat = idx → (∀ d ∈ post, d.idx.toNat ≠ idx) →
      tlbDecode bank idx (calls.foldl TlbCall.run regs) =
          ⟨(c.addrBegin >>> 12).toNat, (c.addrEnd >>> 12).toNat, (c.addrBegin >>> 12).toNat,
            c.flags.toNat⟩ ∧
        ∀ addr : UInt64, (tlbDecode bank idx (calls.foldl TlbCall.run regs)).translate addr.toNat =
          if c.addrBegin >>> 12 ≤ addr >>> 12 ∧ addr >>> 12 ≤ c.addrEnd >>> 12 then
            some addr.toNat
          else none) ∧
      ((∀ c ∈ calls, c.idx.toNat ≠ idx) → ∀ k < QCTL_TLB_REG_STRIDE,
        calls.foldl TlbCall.run regs (bank.entry idx + k) = regs (bank.entry idx + k)) := by
  refine ⟨?_, fun h k hk => foldl_run_other hi h hk⟩
  rintro pre c post rfl rfl hpost
  have hdecode := tlbDecode_foldl pre hpost bank regs
  refine ⟨hdecode, fun addr => ?_⟩
  rw [hdecode, TlbEntry.translate_of_base_eq rfl]
  rfl

def heroDevInitTlb : List TlbCall :=
  [⟨0, 0x01000000, 0x0101ffff, 0x3, by decide⟩, ⟨1, 0x02000000, 0x02000fff, 0x3, by decide⟩,
    ⟨2, 0x04000000, 0x040fffff, 0x1, by decide⟩, ⟨3, 0x10000000, 0x105fffff, 0x1, by decide⟩,
    ⟨4, 0xC0000000, 0xffffffff, 0x1, by decide⟩, ⟨5, 0x71000000, 0x71100000, 0x1, by decide⟩]

theorem occamyTlbWrite_runs_hbm :
    tlbDecode .wide 4 (heroDevInitTlb.foldl TlbCall.run fun _ => 0) =
      ⟨0xC0000, 0xfffff, 0xC0000, 0x1⟩ := by
  have h := occamyTlbWrite_runs heroDevInitTlb (fun _ => 0) .wide 4 (by decide)
  have hbm := h.1 (heroDevInitTlb.take 4) ⟨4, 0xC0000000, 0xffffffff, 0x1, by decide⟩
    (heroDevInitTlb.drop 5) rfl rfl (by decide)
  rw [hbm.1]
  decide

end
end HeroTools.Libhero
