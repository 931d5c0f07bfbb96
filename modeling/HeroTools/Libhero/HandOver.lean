import HeroTools.Libhero.ExchangeWords
import HeroTools.Libhero.OccamyTlb

/-! `hero_dev_init` of `snitch_cluster.c` hands the mailboxes over: a cluster that follows the
scratch register finds them, through its TLBs and with 32-bit addresses. -/

namespace HeroTools.Libhero.Occamy
open HeroTools Ringbuf Lts Mboxes

/-! ## `snitch_cluster.h` -/

abbrev QCTL_TLB_WIDE_ENABLE_OFFSET : Nat := 0x18
abbrev QCTL_TLB_NARROW_ENABLE_OFFSET : Nat := 0x1c

def enableOffset : TlbBank → Nat
  | .narrow => QCTL_TLB_NARROW_ENABLE_OFFSET
  | .wide => QCTL_TLB_WIDE_ENABLE_OFFSET

def l3Layout : Mailbox → Nat := each 8 4 0

/-! ## `snitch_cluster.c` -/

/-- L2 and L3 by host addresses, the registers from `occ_soc_ctrl` and `occ_quad_ctrl`. -/
structure State where
  l2 : Nat → UInt8
  l3 : Nat → UInt8
  socCtrl : Nat → UInt8
  quadCtrl : QuadCtrl

def storeWords (mem : Nat → UInt8) (a : Nat) (ws : List (Nat × Nat)) : Nat → UInt8 :=
  ws.foldl (fun mem w => storeLe mem (a + w.1) 4 w.2) mem

section
variable (H H' : O1HeapMem) (b b' : Bases)

def heroDevL3Malloc (mem : Nat → UInt8) (sizeB : Nat) : Nat × Nat × (Nat → UInt8) :=
  let (result, mem) := H'.allocate mem sizeB
  (result, b'.pAddr result, mem)

/-- With the mailboxes comes `mbox_ptrs`, where the layout is. -/
def heroDevInit (s : State) : Option (Opened × Nat × State) :=
  (heroDevAllocMboxes H b s.l2).bind fun (_, r) =>
    let (mboxPtrs, mboxPtrsPhy, l3) := heroDevL3Malloc H' b' s.l3 16
    (occamyHeroDevInit H b s.l2 (mboxPtrs, mboxPtrsPhy) b'.startPhy).map fun i =>
      (r, mboxPtrs,
        { l2 := r.mem
          l3 := storeWords l3 mboxPtrs i.layout
          socCtrl := storeWords s.socCtrl 0 i.regs
          quadCtrl := writew 1 QCTL_TLB_NARROW_ENABLE_OFFSET
            (writew 1 QCTL_TLB_WIDE_ENABLE_OFFSET
              (heroDevInitTlb.foldl TlbCall.run s.quadCtrl)) })

end

/-! ## What the cluster finds -/

def Window (c : TlbCall) (addr : Nat) : Prop :=
  c.entry.first ≤ addr >>> 12 ∧ addr >>> 12 ≤ c.entry.last

instance (c : TlbCall) (addr : Nat) : Decidable (Window c addr) :=
  inferInstanceAs (Decidable (_ ∧ _))

theorem spmWide_idx_lt : UInt32.toNat 5 < 64 := by decide

theorem hbm_idx_lt : UInt32.toNat 4 < 64 := by decide

def spmWide : TlbCall := ⟨5, 0x71000000, 0x71100000, 0x1, spmWide_idx_lt⟩
def hbm : TlbCall := ⟨4, 0xC0000000, 0xffffffff, 0x1, hbm_idx_lt⟩

section
variable (s : State) (bank : TlbBank) (bus : Nat → UInt8)

/-- Through the first entry that has the page, when the bank is enabled. The cluster's
addresses have 32 bits. -/
def translate (addr : Nat) : Option Nat :=
  if loadLe s.quadCtrl (enableOffset bank) 4 = 1 then
    (List.range heroDevInitTlb.length).findSome? fun idx =>
      (tlbDecode bank idx s.quadCtrl).translate (addr % 2 ^ 32)
  else none

def loadByte (addr : Nat) : Option UInt8 := (translate s bank addr).map bus

def loadWord (addr : Nat) : Option Nat :=
  if ∀ k < 4, (loadByte s bank bus (addr + k)).isSome then
    some (leValue (fun k => (loadByte s bank bus (addr + k)).getD 0) 4)
  else none

/-- The pointer to a mailbox, from the layout that the scratch register points to. -/
def findMbox (m : Mailbox) : Option Nat :=
  loadWord s bank bus (loadLe s.socCtrl SCTL_SCRATCH_2_REG_OFFSET 4 + l3Layout m)

/-- The bus shows L2 in the window of the wide scratchpad and L3 in the one of the HBM. -/
structure Wired (b b' : Bases) : Prop where
  l2 : ∀ p, Window spmWide p → bus p = s.l2 (b.xlat .device p)
  l3 : ∀ p, Window hbm p → bus p = s.l3 (b'.xlat .device p)

/-- Where the heaps put the layout and the mailboxes, the TLBs have windows. -/
structure InWindows (b' : Bases) (r : Opened) (mboxPtrs : Nat) : Prop where
  layout : ∀ k < 16, Window hbm (b'.pAddr mboxPtrs + k)
  header : ∀ m, ∀ k < RING_BUF_SIZE, Window spmWide ((r.mboxes m).pAddr + k)
  data : ∀ m, ∀ k < DATA_SIZE, Window spmWide ((ring r.mboxes r.mem m).dataP + k)

end

/-- The cluster finds the mailboxes and reads from them what the host has written there. -/
structure HandedOver (s : State) (bank : TlbBank) (bus : Nat → UInt8) (r : Opened) : Prop where
  found : ∀ m, findMbox s bank bus m = some (r.mboxes m).pAddr
  header : ∀ m, ∀ k < RING_BUF_SIZE, loadByte s bank bus ((r.mboxes m).pAddr + k) =
    some (s.l2 ((r.mboxes m).mbox + k))
  data : ∀ m, ∀ k < DATA_SIZE, loadByte s bank bus ((ring r.mboxes r.mem m).dataP + k) =
    some (s.l2 ((ring r.mboxes r.mem m).dataV + k))

/-! ## Translation -/

theorem decode_init {c : TlbCall} (hc : c ∈ heroDevInitTlb) (bank : TlbBank)
    (regs : QuadCtrl) :
    tlbDecode bank c.idx.toNat (writew 1 QCTL_TLB_NARROW_ENABLE_OFFSET
      (writew 1 QCTL_TLB_WIDE_ENABLE_OFFSET (heroDevInitTlb.foldl TlbCall.run regs))) =
        c.entry := by
  have hdistinct : heroDevInitTlb.Pairwise fun c d => d.idx.toNat ≠ c.idx.toNat := by decide
  obtain ⟨pre, post, hsplit⟩ := List.append_of_mem hc
  rw [hsplit, List.pairwise_append, List.pairwise_cons] at hdistinct
  have hentries := tlbDecode_foldl pre (c := c) hdistinct.2.1.1 bank regs
  rw [← hsplit] at hentries
  rw [← hentries]
  refine tlbDecode_congr fun k _ => ?_
  have hlow : 0x800 ≤ bank.entry c.idx.toNat := by
    cases bank
    · exact Nat.le_add_right _ _
    · exact Nat.le_add_right_of_le (by decide)
  have hnarrow : QCTL_TLB_NARROW_ENABLE_OFFSET + 4 ≤ bank.entry c.idx.toNat + k :=
    (show _ ≤ 0x800 by decide).trans (Nat.le_add_right_of_le hlow)
  have hwide : QCTL_TLB_WIDE_ENABLE_OFFSET + 4 ≤ bank.entry c.idx.toNat + k :=
    (show _ ≤ 0x800 by decide).trans (Nat.le_add_right_of_le hlow)
  unfold writew
  rw [storeLe_outside (.inr hnarrow), storeLe_outside (.inr hwide)]

theorem enabled_init (bank : TlbBank) (regs : QuadCtrl) :
    loadLe (writew 1 QCTL_TLB_NARROW_ENABLE_OFFSET (writew 1 QCTL_TLB_WIDE_ENABLE_OFFSET regs))
      (enableOffset bank) 4 = 1 := by
  unfold writew
  cases bank with
  | narrow => exact load_storeLe ..
  | wide =>
    rw [load_storeLe_of_disjoint (.inl (by decide))]
    exact load_storeLe ..

theorem hbm_mem : hbm ∈ heroDevInitTlb := List.mem_of_getElem? (i := 4) rfl

theorem spmWideMem : spmWide ∈ heroDevInitTlb := List.mem_of_getElem? (i := 5) rfl

theorem entry_translate (c : TlbCall) (addr : Nat) :
    c.entry.translate addr = if Window c addr then some addr else none :=
  TlbEntry.translate_of_base_eq rfl addr

section
variable {H H' : O1HeapMem} {b b' : Bases} {s s' : State} {r : Opened} {mboxPtrs : Nat}

theorem heroDevInit_some
    (h : heroDevInit H H' b b' s = some (r, mboxPtrs, s')) :
    heroDevAllocMboxes H b s.l2 = some (0, r) ∧ mboxPtrs = (H'.allocate s.l3 16).1 ∧
      mboxPtrs ≠ 0 ∧ s' =
        { l2 := r.mem
          l3 := storeWords (H'.allocate s.l3 16).2 mboxPtrs
            [(8, (r.mboxes .h2aMbox).pAddr % 2 ^ 32), (4, (r.mboxes .a2hMbox).pAddr % 2 ^ 32),
              (0, (r.mboxes .rbMbox).pAddr % 2 ^ 32), (12, b'.startPhy % 2 ^ 32)]
          socCtrl := storeWords s.socCtrl 0
            [(SCTL_SCRATCH_2_REG_OFFSET, b'.pAddr mboxPtrs % 2 ^ 32)]
          quadCtrl := writew 1 QCTL_TLB_NARROW_ENABLE_OFFSET
            (writew 1 QCTL_TLB_WIDE_ENABLE_OFFSET
              (heroDevInitTlb.foldl TlbCall.run s.quadCtrl)) } := by
  obtain ⟨⟨ret, r'⟩, hr, h⟩ := Option.bind_eq_some_iff.mp h
  obtain rfl := heroDevAllocMboxes_ret hr
  obtain ⟨i, hi, h⟩ := Option.map_eq_some_iff.mp h
  unfold occamyHeroDevInit at hi
  rw [hr, Option.bind_some] at hi
  simp only at hi h
  split_ifs at hi with hnull
  obtain rfl := Option.some.inj hi
  obtain ⟨hr', h⟩ := Prod.mk.inj h
  obtain ⟨rfl, rfl⟩ := Prod.mk.inj h
  subst hr'
  exact ⟨hr, rfl, hnull, rfl⟩

/-- Both TLBs leave the addresses in the windows as they are, cut to 32 bits, and have no
others. -/
theorem translate_eq (h : heroDevInit H H' b b' s = some (r, mboxPtrs, s')) (bank : TlbBank)
    (addr : Nat) : translate s' bank addr =
      if ∃ c ∈ heroDevInitTlb, Window c (addr % 2 ^ 32) then some (addr % 2 ^ 32)
      else none := by
  obtain ⟨-, -, -, rfl⟩ := heroDevInit_some h
  have hidx : List.range heroDevInitTlb.length = heroDevInitTlb.map (·.idx.toNat) := by
    decide
  unfold translate
  rw [if_pos (enabled_init bank _), hidx, List.findSome?_map]
  simp only [Function.comp_def]
  have hentries : ∀ cs : List TlbCall, (∀ c ∈ cs, c ∈ heroDevInitTlb) →
      (cs.findSome? fun c => (tlbDecode bank c.idx.toNat
        (writew 1 QCTL_TLB_NARROW_ENABLE_OFFSET (writew 1 QCTL_TLB_WIDE_ENABLE_OFFSET
          (heroDevInitTlb.foldl TlbCall.run s.quadCtrl)))).translate (addr % 2 ^ 32)) =
        if ∃ c ∈ cs, Window c (addr % 2 ^ 32) then some (addr % 2 ^ 32) else none := by
    intro cs
    induction cs with
    | nil => simp
    | cons c cs ih =>
      intro hcs
      rw [List.findSome?_cons, decode_init (hcs c List.mem_cons_self), entry_translate]
      by_cases hc : Window c (addr % 2 ^ 32)
      · rw [if_pos hc, if_pos ⟨c, List.mem_cons_self, hc⟩]
      · rw [if_neg hc, ih fun d hd => hcs d (List.mem_cons_of_mem c hd)]
        have hiff : (∃ d ∈ c :: cs, Window d (addr % 2 ^ 32)) ↔
            ∃ d ∈ cs, Window d (addr % 2 ^ 32) := by
          rw [List.exists_mem_cons_iff, or_iff_right hc]
        simp only [hiff]
  exact hentries heroDevInitTlb fun c hc => hc

theorem Window.lt {c : TlbCall} (hc : c ∈ heroDevInitTlb) {addr : Nat} (h : Window c addr) :
    addr < 2 ^ 32 := by
  have hlast : ∀ c ∈ heroDevInitTlb, c.entry.last < 2 ^ 20 := by decide
  have hpage := h.2.trans_lt (hlast c hc)
  rw [Nat.shiftRight_eq_div_pow] at hpage
  omega

theorem translate_window (h : heroDevInit H H' b b' s = some (r, mboxPtrs, s'))
    (bank : TlbBank) {c : TlbCall} (hc : c ∈ heroDevInitTlb) {addr : Nat}
    (haddr : Window c addr) : translate s' bank addr = some addr := by
  have hmod : addr % 2 ^ 32 = addr := Nat.mod_eq_of_lt (haddr.lt hc)
  rw [translate_eq h, hmod, if_pos ⟨c, hc, haddr⟩]

/-! ## The pointers -/

theorem loadWord_eq {bank : TlbBank} {bus : Nat → UInt8} {a : Nat} {f : Nat → UInt8}
    (h : ∀ k < 4, loadByte s bank bus (a + k) = some (f k)) :
    loadWord s bank bus a = some (leValue f 4) := by
  have hsome : ∀ k < 4, (loadByte s bank bus (a + k)).isSome := fun k hk => by
    rw [h k hk]
    rfl
  rw [loadWord, if_pos hsome]
  refine congrArg some (leValue_congr fun k hk => ?_)
  rw [h k hk, Option.getD_some]

theorem load_layout (mem : Nat → UInt8) (a : Nat) (p : Mailbox → Nat) (heap : Nat)
    (hp : ∀ m, p m < 2 ^ 32) (m : Mailbox) :
    loadLe (storeWords mem a [(8, p .h2aMbox), (4, p .a2hMbox), (0, p .rbMbox), (12, heap)])
      (a + l3Layout m) 4 = p m := by
  have hword : ∀ mem x, loadLe (storeLe mem x 4 (p m)) x 4 = p m := fun mem x =>
    (load_storeLe mem x 4 (p m)).trans (Nat.mod_eq_of_lt (hp m))
  simp only [storeWords, List.foldl_cons, List.foldl_nil]
  cases m with
  | h2aMbox =>
    show loadLe _ (a + 8) 4 = _
    rw [load_storeLe_of_disjoint (by omega), load_storeLe_of_disjoint (by omega),
      load_storeLe_of_disjoint (by omega), hword]
  | a2hMbox =>
    show loadLe _ (a + 4) 4 = _
    rw [load_storeLe_of_disjoint (by omega), load_storeLe_of_disjoint (by omega), hword]
  | rbMbox =>
    show loadLe _ (a + 0) 4 = _
    rw [load_storeLe_of_disjoint (by omega), hword]

theorem loadByte_block (h : heroDevInit H H' b b' s = some (r, mboxPtrs, s')) (bank : TlbBank)
    {c : TlbCall} (hc : c ∈ heroDevInitTlb) {bus mem : Nat → UInt8} {bases : Bases} {v k : Nat}
    (hbus : ∀ p, Window c p → bus p = mem (bases.xlat .device p))
    (hin : Window c (bases.pAddr v + k)) (hv : v + k < 2 ^ 64) :
    loadByte s' bank bus (bases.pAddr v + k) = some (mem (v + k)) := by
  have hxlat := xlat_pAddr bases hv
  rw [Nat.mod_eq_of_lt ((hin.lt hc).trans (by norm_num))] at hxlat
  rw [loadByte, translate_window h bank hc hin, Option.map_some, hbus _ hin, hxlat]

theorem findMbox_eq {cs' : List Block} (hheap' : H'.Heap s.l3 cs')
    (h : heroDevInit H H' b b' s = some (r, mboxPtrs, s')) (hin : InWindows b' r mboxPtrs)
    {bus : Nat → UInt8} (hbus : Wired s' bus b b') (bank : TlbBank) (m : Mailbox) :
    findMbox s' bank bus m = some (r.mboxes m).pAddr := by
  obtain ⟨-, hptr, hnull, hs'⟩ := heroDevInit_some h
  obtain ⟨n, hn, hheap₂⟩ := H'.allocated 16 hheap' (hptr ▸ hnull)
  have hbound : mboxPtrs + n ≤ 2 ^ 64 := by
    have hbound := H'.bound hheap₂ _ List.mem_cons_self
    rwa [← hptr] at hbound
  have hphy : b'.pAddr mboxPtrs < 2 ^ 32 := by
    have hlt := (hin.layout 0 (Nat.succ_pos 15)).lt hbm_mem
    rwa [Nat.add_zero] at hlt
  -- neither the register nor a word of the layout cuts its address off
  have hscratch : loadLe s'.socCtrl SCTL_SCRATCH_2_REG_OFFSET 4 = b'.pAddr mboxPtrs := by
    have hregs : s'.socCtrl =
        storeLe s.socCtrl SCTL_SCRATCH_2_REG_OFFSET 4 (b'.pAddr mboxPtrs % 2 ^ 32) := by
      rw [hs']
      simp only [storeWords, List.foldl_cons, List.foldl_nil, Nat.zero_add]
    rw [hregs, load_storeLe, Nat.mod_eq_of_lt hphy]
    exact Nat.mod_eq_of_lt hphy
  have hoffset : l3Layout m + 4 ≤ 16 := by
    cases m <;> decide
  have hword : loadWord s' bank bus (b'.pAddr mboxPtrs + l3Layout m) =
      some (loadLe s'.l3 (mboxPtrs + l3Layout m) 4) := by
    refine loadWord_eq fun k hk => ?_
    rw [Nat.add_assoc, Nat.add_assoc]
    exact loadByte_block h bank hbm_mem hbus.l3 (hin.layout _ (by omega)) (by omega)
  have hlt : (r.mboxes m).pAddr < 2 ^ 32 := by
    have hlt := (hin.header m 0 (Nat.succ_pos 31)).lt spmWideMem
    rwa [Nat.add_zero] at hlt
  have hlayout : loadLe s'.l3 (mboxPtrs + l3Layout m) 4 = (r.mboxes m).pAddr % 2 ^ 32 := by
    rw [hs']
    exact load_layout _ mboxPtrs (fun m => (r.mboxes m).pAddr % 2 ^ 32) _
      (fun m => Nat.mod_lt _ (Nat.two_pow_pos 32)) m
  rw [findMbox, hscratch, hword, hlayout, Nat.mod_eq_of_lt hlt]

/-- Whatever else the bus shows, and for any calls of the host and any puts and gets of the
cluster through the pointers that it finds. -/
theorem heroDevInit_hands_over {cs cs' : List Block} (hheap : H.Heap s.l2 cs)
    (hheap' : H'.Heap s.l3 cs') (h : heroDevInit H H' b b' s = some (r, mboxPtrs, s'))
    (hok : ∀ a ∈ r.allocated, a ≠ 0) (hin : InWindows b' r mboxPtrs) {bus : Nat → UInt8}
    (hbus : Wired s' bus b b') (bank : TlbBank) :
    HandedOver s' bank bus r ∧
      ∀ ptrs : Mailbox → Nat, (∀ m, findMbox s' bank bus m = some (ptrs m)) →
        ∀ (calls : List Mboxes.Call) (buf : Nat → UInt32) (tr : List (Exchange × Mboxes.Move))
          (e : Exchange),
          (exchange b fun m => ⟨(r.mboxes m).mbox, ptrs m⟩).Run (.start s'.l2 buf calls) tr e →
            Exchanged calls tr e := by
  obtain ⟨halloc, -, -, hs'⟩ := heroDevInit_some h
  obtain ⟨block, hready⟩ := heroDevAllocMboxes_spec hheap halloc hok
  have hl2 : s'.l2 = r.mem := by rw [hs']
  have hfound := findMbox_eq hheap' h hin hbus bank
  refine ⟨⟨hfound, fun m k hk => ?_, fun m k hk => ?_⟩, fun ptrs hptrs calls buf tr e hrun => ?_⟩
  · have hbound := hready.bound (.header m)
    rw [hready.header] at hbound
    have hwin := hin.header m k hk
    rw [hready.pAddr] at hwin ⊢
    exact loadByte_block h bank spmWideMem hbus.l2 hwin
      ((Nat.add_lt_add_left hk _).trans_le hbound)
  · have hbound := hready.bound (.data m)
    have hwin := hin.data m k hk
    rw [hready.ring_init] at hwin ⊢
    exact loadByte_block h bank spmWideMem hbus.l2 hwin
      ((Nat.add_lt_add_left hk _).trans_le hbound)
  · have hsame : (fun m => (⟨(r.mboxes m).mbox, ptrs m⟩ : Ptr)) = r.mboxes := by
      funext m
      rw [← Option.some.inj ((hfound m).symm.trans (hptrs m))]
    rw [hsame, hl2] at hrun
    exact hready.exchanged hrun

end

/-! ## A cluster that is handed over -/

theorem startVirt_lt : 4096 < 2 ^ 64 := by norm_num

theorem l2_startPhy_lt : 0x71000000 < 2 ^ 64 := by norm_num

theorem l3_startPhy_lt : 0xC0000000 < 2 ^ 64 := by norm_num

def l2Bases : Bases := ⟨4096, 0x71000000, startVirt_lt, l2_startPhy_lt⟩
def l3Bases : Bases := ⟨4096, 0xC0000000, startVirt_lt, l3_startPhy_lt⟩

def freshState : State where
  l2 := storeLe (fun _ => 0) 4096 8 4160
  l3 := storeLe (fun _ => 0) 4096 8 4160
  socCtrl := fun _ => 0
  quadCtrl := fun _ => 0

def initExec : Option (Opened × Nat × State) :=
  heroDevInit splittingHeap splittingHeap l2Bases l3Bases freshState

def busOf (s : State) (p : Nat) : UInt8 :=
  if Window spmWide p then s.l2 (l2Bases.xlat .device p) else s.l3 (l3Bases.xlat .device p)

theorem wired_busOf (s : State) : Wired s (busOf s) l2Bases l3Bases := by
  refine ⟨fun p hp => if_pos hp, fun p hp => if_neg fun hspm => ?_⟩
  have hlast := hspm.2
  have hfirst := hp.1
  exact absurd (hfirst.trans hlast) (by decide)

theorem heroDevInit_hands_over_fresh : ∃ r mboxPtrs s',
    heroDevInit splittingHeap splittingHeap l2Bases l3Bases freshState =
      some (r, mboxPtrs, s') ∧ HandedOver s' .wide (busOf s') r := by
  have hexec : initExec.map (fun p => (p.1.allocated, p.2.1)) =
      some ([4192, 4256, 4384, 4448, 4576, 4640], 4192) := by
    decide +kernel
  have hwindows : initExec.map (fun p => decide (
      (∀ k < 16, Window hbm (l3Bases.pAddr p.2.1 + k)) ∧
      ∀ m ∈ [Mailbox.h2aMbox, .a2hMbox, .rbMbox],
        (∀ k < RING_BUF_SIZE, Window spmWide ((p.1.mboxes m).pAddr + k)) ∧
        ∀ k < DATA_SIZE, Window spmWide ((ring p.1.mboxes p.1.mem m).dataP + k))) =
      some true := by
    decide +kernel
  obtain ⟨⟨r, mboxPtrs, s'⟩, hinit, hp⟩ := Option.map_eq_some_iff.mp hexec
  obtain ⟨hallocated, -⟩ := Prod.mk.inj hp
  rw [hinit, Option.map_some] at hwindows
  obtain ⟨hlayout, hmboxes⟩ := of_decide_eq_true (Option.some.inj hwindows)
  have hok : ∀ a ∈ r.allocated, a ≠ 0 := by
    rw [show r.allocated = _ from hallocated]
    decide
  have hheap : splittingHeap.Heap (storeLe (fun _ => 0) 4096 8 4160) [] :=
    splitOff_empty (by norm_num) (by norm_num)
  have hin : InWindows l3Bases r mboxPtrs := by
    have hall : ∀ m, m ∈ [Mailbox.h2aMbox, .a2hMbox, .rbMbox] := by
      intro m
      cases m <;> decide
    exact ⟨hlayout, fun m => (hmboxes m (hall m)).1, fun m => (hmboxes m (hall m)).2⟩
  have hover := @heroDevInit_hands_over splittingHeap splittingHeap l2Bases l3Bases
    freshState s' r mboxPtrs [] [] hheap hheap hinit hok hin (busOf s') (wired_busOf s') .wide
  exact ⟨r, mboxPtrs, s', hinit, hover.1⟩

end HeroTools.Libhero.Occamy
