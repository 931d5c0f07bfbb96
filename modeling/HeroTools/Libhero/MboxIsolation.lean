import HeroTools.Lib.Words
import HeroTools.Libhero.Mboxes
import Mathlib.Data.List.Perm.Lattice

/-! The three mailboxes are apart: from the six blocks that they are made of, over every run
of puts and gets, to the six blocks that are given back. -/

namespace HeroTools.Libhero.Mboxes
open HeroTools Ringbuf

/-! ## The six blocks -/

inductive Part
  | header (m : Mailbox)
  | data (m : Mailbox)
deriving DecidableEq, Repr

def Part.size : Part → Nat
  | header _ => RING_BUF_SIZE
  | data _ => DATA_SIZE

def Part.block (hd dt : Mailbox → Block) : Part → Block
  | header m => hd m
  | data m => dt m

theorem Part.size_pos (p : Part) : 0 < p.size := by
  cases p with
  | header m => exact Nat.succ_pos 31
  | data m => exact Nat.succ_pos 63

def parts : List Part :=
  [.data .rbMbox, .header .rbMbox, .data .a2hMbox, .header .a2hMbox, .data .h2aMbox,
    .header .h2aMbox]

theorem mem_parts (p : Part) : p ∈ parts := by
  obtain m | m := p <;> cases m <;> decide

variable {H : O1HeapMem} {b : Bases} {cs : List Block} {block : Part → Block}
  {mboxes : Mailbox → Ptr} {mem mem' : Nat → UInt8}

theorem pAddr_lt (b : Bases) (v : Nat) : b.pAddr v < 2 ^ 64 := Nat.mod_lt _ (Nat.two_pow_pos 64)

theorem xlat_pAddr (b : Bases) {v k : Nat} (h : v + k < 2 ^ 64) :
    b.xlat .device ((b.pAddr v + k) % 2 ^ 64) = v + k := by
  have hvirt := b.virt_lt
  have hphy := b.phy_lt
  show ((b.pAddr v + k) % 2 ^ 64 + 2 ^ 64 - b.startPhy + b.startVirt) % 2 ^ 64 = v + k
  unfold Bases.pAddr
  omega

structure Laid (H : O1HeapMem) (b : Bases) (cs : List Block) (block : Part → Block)
    (mboxes : Mailbox → Ptr) (mem : Nat → UInt8) : Prop where
  heap : H.Heap mem (parts.map block ++ cs)
  size : ∀ p : Part, p.size ≤ (block p).size
  header : ∀ m, (block (.header m)).addr = (mboxes m).mbox
  pAddr : ∀ m, (mboxes m).pAddr = b.pAddr (mboxes m).mbox

namespace Laid

theorem disjoint (h : Laid H b cs block mboxes mem) {p q : Part} (hpq : p ≠ q) :
    Disjoint (block p).bytes (block q).bytes := by
  have hapart := (List.pairwise_append.mp (H.apart h.heap)).1
  rw [List.pairwise_map] at hapart
  have hsymm : Std.Symm fun p q => Disjoint (block p).bytes (block q).bytes :=
    ⟨fun _ _ hd => hd.symm⟩
  exact hapart.forall (mem_parts p) (mem_parts q) hpq

theorem bound (h : Laid H b cs block mboxes mem) (p : Part) : (block p).addr + p.size ≤ 2 ^ 64 := by
  have hmem : block p ∈ parts.map block ++ cs :=
    List.mem_append_left _ (List.mem_map_of_mem (mem_parts p))
  exact (Nat.add_le_add_left (h.size p) _).trans (H.bound h.heap _ hmem)

theorem mem_block (h : Laid H b cs block mboxes mem) (p : Part) {x : Nat}
    (hx : (block p).addr ≤ x) (hlt : x < (block p).addr + p.size) : x ∈ (block p).bytes :=
  ⟨hx, hlt.trans_le (Nat.add_le_add_left (h.size p) _)⟩

theorem written (h : Laid H b cs block mboxes mem)
    (hmem : ∀ x, (∀ p, x ∉ (block p).bytes) → mem' x = mem x) :
    Laid H b cs block mboxes mem' := by
  refine ⟨H.written h.heap fun x hx => hmem x fun p => ?_, h.size, h.header, h.pAddr⟩
  exact hx _ (List.mem_append_left _ (List.mem_map_of_mem (mem_parts p)))

theorem ring_eq (h : Laid H b cs block mboxes mem) {m : Mailbox}
    (hmem : ∀ x ∈ (block (.header m)).bytes, mem' x = mem x) :
    ring mboxes mem' m = ring mboxes mem m := by
  apply loadRing_congr
  intro x hx hlt
  rw [← h.header] at hx hlt
  exact hmem x (h.mem_block (.header m) hx hlt)

end Laid

/-! ## Allocation -/

structure MadeOf (b : Bases) (mem : Nat → UInt8) (p : Ptr) (hd dt : Block) : Prop where
  header : hd.addr = p.mbox
  pAddr : p.pAddr = b.pAddr p.mbox
  header_size : RING_BUF_SIZE ≤ hd.size
  data_size : DATA_SIZE ≤ dt.size
  dataV : (loadRing mem p.mbox).dataV = dt.addr
  dataP : (loadRing mem p.mbox).dataP = b.pAddr dt.addr

theorem MadeOf.keep {p : Ptr} {hd dt : Block} (h : MadeOf b mem p hd dt)
    (hmem : ∀ x ∈ hd.bytes, mem' x = mem x) : MadeOf b mem' p hd dt := by
  have hring : loadRing mem' p.mbox = loadRing mem p.mbox := by
    apply loadRing_congr
    intro x hx hlt
    rw [← h.header] at hx hlt
    exact hmem x ⟨hx, hlt.trans_le (Nat.add_le_add_left h.header_size _)⟩
  exact ⟨h.header, h.pAddr, h.header_size, h.data_size, hring ▸ h.dataV, hring ▸ h.dataP⟩

theorem allocMbox_some {d : Made} (h : allocMbox H b mem = some d) :
    d.ptr.mbox ≠ 0 ∧ madeMbox H b mem = d := by
  simp only [allocMbox] at h
  split_ifs at h with hmbox
  obtain rfl := Option.some.inj h
  exact ⟨hmbox, rfl⟩

theorem allocMbox_spec {d : Made} (hheap : H.Heap mem cs) (h : allocMbox H b mem = some d)
    (hok : ∀ a ∈ d.allocated, a ≠ 0) :
    ∃ hd dt, MadeOf b d.mem d.ptr hd dt ∧ H.Heap d.mem (dt :: hd :: cs) ∧
      d.allocated = [hd.addr, dt.addr] ∧ ∀ c ∈ cs, ∀ x ∈ c.bytes, d.mem x = mem x := by
  have hkeep := H.allocate_keeps RING_BUF_SIZE hheap
  have hheader := H.allocated RING_BUF_SIZE hheap
  rcases hhd : H.allocate mem RING_BUF_SIZE with ⟨mbox, mem₁⟩
  rcases hdt : H.allocate mem₁ DATA_SIZE with ⟨dataV, mem₂⟩
  rw [hhd] at hkeep hheader
  obtain ⟨hmbox, rfl⟩ := allocMbox_some h
  simp only [madeMbox, heroDevL2Malloc, hhd, hdt] at hmbox hok ⊢
  obtain ⟨k, hk, hheap₁⟩ := hheader hmbox
  have hkeep' := H.allocate_keeps DATA_SIZE hheap₁
  have hdata := H.allocated DATA_SIZE hheap₁
  rw [hdt] at hkeep' hdata
  obtain ⟨n, hn, hheap₂⟩ := hdata (hok _ (List.mem_cons_of_mem _ List.mem_cons_self))
  have hdata_v : dataV < 2 ^ 64 := by
    have hbound : dataV + n ≤ 2 ^ 64 := H.bound hheap₂ _ List.mem_cons_self
    exact (Nat.lt_add_of_pos_right ((by norm_num : 0 < DATA_SIZE).trans_le hn)).trans_le hbound
  -- the two pointers are written inside the header's block
  have hmem : ∀ x, x < mbox ∨ mbox + k ≤ x →
      storeLe (storeLe mem₂ (mbox + 24) 8 (b.pAddr dataV)) (mbox + 16) 8 dataV x =
        mem₂ x := by
    intro x hx
    have hsize : 32 ≤ k := hk
    rw [storeLe_outside (by omega), storeLe_outside (by omega)]
  refine ⟨⟨mbox, k⟩, ⟨dataV, n⟩, ⟨rfl, rfl, hk, hn, ?_, ?_⟩, ?_, rfl, ?_⟩
  · rw [loadRing_store_dataV hdata_v]
  · rw [loadRing_store_dataV hdata_v, loadRing_store_dataP (pAddr_lt b dataV)]
  · refine H.written hheap₂ fun x hx => hmem x ?_
    have hout : ¬ (mbox ≤ x ∧ x < mbox + k) := hx _ (List.mem_cons_of_mem _ List.mem_cons_self)
    omega
  · intro c hc x hx
    have hdisj : Disjoint (Block.bytes ⟨mbox, k⟩) c.bytes :=
      List.rel_of_pairwise_cons (H.apart hheap₁) hc
    have hout : ¬ (mbox ≤ x ∧ x < mbox + k) := fun hin => Set.disjoint_left.mp hdisj hin hx
    exact (hmem x (by omega)).trans
      ((hkeep' c (List.mem_cons_of_mem _ hc) x hx).trans (hkeep c hc x hx))

theorem Laid.rbInit_outside (h : Laid H b cs block mboxes mem) (m : Mailbox) {x : Nat}
    (hx : x ∉ (block (.header m)).bytes) :
    memRbInit mem (mboxes m).mbox 16 4 x = mem x := by
  apply memRbInit_outside
  by_contra hin
  have hheader := h.header m
  have hlt : x < (block (.header m)).addr + 32 := by omega
  exact hx (h.mem_block (.header m) (by omega) hlt)

theorem Laid.rbInit (h : Laid H b cs block mboxes mem) (m : Mailbox) :
    Laid H b cs block mboxes (memRbInit mem (mboxes m).mbox 16 4) :=
  h.written fun _ hx => h.rbInit_outside m (hx _)

theorem Laid.ring_rbInit (h : Laid H b cs block mboxes mem) (m m' : Mailbox) :
    ring mboxes (memRbInit mem (mboxes m).mbox 16 4) m' =
      if m' = m then Ringbuf.rbInit (ring mboxes mem m) 16 4 else ring mboxes mem m' := by
  split
  · rename_i heq
    rw [heq]
    exact loadRing_rbInit (by norm_num) (by norm_num)
  · rename_i hne
    refine h.ring_eq fun x hx => h.rbInit_outside m ?_
    exact Set.disjoint_left.mp (h.disjoint fun heq => hne (Part.header.inj heq)) hx

theorem Laid.rb_inits (h : Laid H b cs block mboxes mem)
    (hmem : mem' = memRbInit (memRbInit (memRbInit mem (mboxes .a2hMbox).mbox 16 4)
      (mboxes .h2aMbox).mbox 16 4) (mboxes .rbMbox).mbox 16 4) :
    Laid H b cs block mboxes mem' ∧
      ∀ m, ring mboxes mem' m = Ringbuf.rbInit (ring mboxes mem m) 16 4 := by
  have h₁ := h.rbInit .a2hMbox
  have h₂ := h₁.rbInit .h2aMbox
  subst hmem
  refine ⟨h₂.rbInit .rbMbox, fun m => ?_⟩
  simp only [h₂.ring_rbInit, h₁.ring_rbInit, h.ring_rbInit]
  cases m <;> rfl

structure Ready (H : O1HeapMem) (b : Bases) (cs : List Block) (block : Part → Block)
    (r : Opened) : Prop extends Laid H b cs block r.mboxes r.mem where
  ring_init : ∀ m, ring r.mboxes r.mem m =
    ⟨0, 16, 0, 4, (block (.data m)).addr, b.pAddr (block (.data m)).addr⟩
  allocated : r.allocated = [Mailbox.h2aMbox, .a2hMbox, .rbMbox].flatMap fun m =>
    [(block (.header m)).addr, (block (.data m)).addr]

/-- No pointer is below 0, so the check lets every one pass. -/
theorem heroDevAllocMboxes_passes (h2a a2h rb : Made) (failed passed : Int × Opened) :
    (if a2h.ptr.mbox < 0 ∨ h2a.ptr.mbox < 0 ∨ rb.ptr.mbox < 0 then failed else passed) =
      passed := by
  simp only [Nat.not_lt_zero, or_self, if_false]

/-- A failed allocation is never reported. -/
theorem heroDevAllocMboxes_ret {ret : Int} {r : Opened}
    (hr : heroDevAllocMboxes H b mem = some (ret, r)) : ret = 0 := by
  obtain ⟨h2a, -, hr⟩ := Option.bind_eq_some_iff.mp hr
  obtain ⟨a2h, -, hr⟩ := Option.bind_eq_some_iff.mp hr
  obtain ⟨rb, -, hr⟩ := Option.map_eq_some_iff.mp hr
  exact (Prod.mk.inj ((heroDevAllocMboxes_passes h2a a2h rb _ _).symm.trans hr)).1.symm

theorem heroDevAllocMboxes_spec {r : Opened} (hheap : H.Heap mem cs)
    (hr : heroDevAllocMboxes H b mem = some (0, r)) (hok : ∀ a ∈ r.allocated, a ≠ 0) :
    ∃ block, Ready H b cs block r := by
  obtain ⟨h2a, hh2a, hr⟩ := Option.bind_eq_some_iff.mp hr
  obtain ⟨a2h, ha2h, hr⟩ := Option.bind_eq_some_iff.mp hr
  obtain ⟨rb, hrb, hr⟩ := Option.map_eq_some_iff.mp hr
  obtain rfl := (Prod.mk.inj ((heroDevAllocMboxes_passes h2a a2h rb _ _).symm.trans hr)).2
  simp only [List.forall_mem_append] at hok
  obtain ⟨⟨hok₁, hok₂⟩, hok₃⟩ := hok
  obtain ⟨hd₁, dt₁, hmade₁, hheap₁, hall₁, -⟩ := allocMbox_spec hheap hh2a hok₁
  obtain ⟨hd₂, dt₂, hmade₂, hheap₂, hall₂, hkeep₂⟩ := allocMbox_spec hheap₁ ha2h hok₂
  obtain ⟨hd₃, dt₃, hmade₃, hheap₃, hall₃, hkeep₃⟩ := allocMbox_spec hheap₂ hrb hok₃
  -- later allocations leave the mailboxes made before as they are
  have hmade₂ : MadeOf b rb.mem a2h.ptr hd₂ dt₂ := hmade₂.keep (hkeep₃ hd₂ (by simp))
  have hmade₁ : MadeOf b rb.mem h2a.ptr hd₁ dt₁ := (hmade₁.keep (hkeep₂ hd₁ (by simp))).keep
    (hkeep₃ hd₁ (by simp))
  let block := Part.block (each hd₁ hd₂ hd₃) (each dt₁ dt₂ dt₃)
  let mboxes := each h2a.ptr a2h.ptr rb.ptr
  have hmade : ∀ m, MadeOf b rb.mem (mboxes m) (block (.header m)) (block (.data m)) := by
    intro m
    cases m
    · exact hmade₁
    · exact hmade₂
    · exact hmade₃
  have hlaid : Laid H b cs block mboxes rb.mem := by
    refine ⟨hheap₃, fun p => ?_, fun m => (hmade m).header, fun m => (hmade m).pAddr⟩
    cases p with
    | header m => exact (hmade m).header_size
    | data m => exact (hmade m).data_size
  obtain ⟨hready, hring⟩ := hlaid.rb_inits rfl
  refine ⟨block, hready, fun m => (hring m).trans ?_, ?_⟩
  · rw [Ringbuf.rbInit, ring, (hmade m).dataV, (hmade m).dataP]
  · show h2a.allocated ++ a2h.allocated ++ rb.allocated = _
    rw [hall₁, hall₂, hall₃]
    rfl

/-! ## Both views of a mailbox -/

namespace Ready
variable {r : Opened} (hr : Ready H b cs block r) (m : Mailbox)
include hr

theorem loc_eq {k : Nat} (hk : k < DATA_SIZE) :
    loc b.xlat (ring r.mboxes r.mem m) k = (block (.data m)).addr + k := by
  have hbound : (block (.data m)).addr + DATA_SIZE ≤ 2 ^ 64 := hr.bound (.data m)
  rw [loc, hr.ring_init]
  exact xlat_pAddr b ((Nat.add_lt_add_left hk _).trans_le hbound)

theorem fits : Fits b.xlat (ring r.mboxes r.mem m) 16 4 where
  size_pos := by norm_num
  size_lt := by norm_num
  elementSize_lt := by norm_num
  bytes_le := by norm_num
  same := by
    intro k hk
    have hbound : (block (.data m)).addr + DATA_SIZE ≤ 2 ^ 64 := hr.bound (.data m)
    have hlt : (block (.data m)).addr + k < 2 ^ 64 := (Nat.add_lt_add_left hk _).trans_le hbound
    refine Eq.trans ?_ (hr.loc_eq m hk).symm
    rw [hr.ring_init]
    exact Nat.mod_eq_of_lt hlt
  inj := by
    intro j hj k hk h
    have hjk := (hr.loc_eq m hj).symm.trans (h.trans (hr.loc_eq m hk))
    exact Nat.add_left_cancel hjk

theorem placed :
    Placed b.xlat (r.mboxes m).side (ring r.mboxes r.mem m) (16 * 4) (r.mboxes m).mbox where
  header := by
    intro v
    cases v with
    | host => rfl
    | device =>
      have hbound : (block (.header m)).addr + RING_BUF_SIZE ≤ 2 ^ 64 := hr.bound (.header m)
      have hlt : (r.mboxes m).mbox + 0 < 2 ^ 64 := by
        rw [← hr.header]
        exact (Nat.add_lt_add_left (by norm_num) _).trans_le hbound
      have hback := xlat_pAddr b hlt
      rwa [Nat.add_zero, Nat.add_zero, Nat.mod_eq_of_lt (pAddr_lt b _), ← hr.pAddr] at hback
  apart := by
    intro k hk
    rw [hr.loc_eq m hk, ← hr.header]
    by_contra hin
    have hdata := hr.mem_block (.data m) (Nat.le_add_right _ k) (Nat.add_lt_add_left hk _)
    have hlt : (block (.data m)).addr + k < (block (.header m)).addr + RING_BUF_SIZE :=
      Nat.lt_of_not_le fun hle => hin (.inr hle)
    have hheader := hr.mem_block (.header m) (Nat.le_of_not_lt fun hlt => hin (.inl hlt)) hlt
    exact Set.disjoint_left.mp (hr.disjoint (p := .data m) (q := .header m) nofun) hdata hheader

theorem mayChange_subset (act : Act) :
    mayChange b.xlat (ring r.mboxes r.mem m) (16 * 4) (r.mboxes m).mbox act ⊆ own r m act := by
  intro x hx
  cases act with
  | producer =>
    rcases hx with hx | ⟨k, hk, rfl⟩
    · exact .inl hx
    · have hdata : (ring r.mboxes r.mem m).dataV = (block (.data m)).addr := by
        rw [hr.ring_init]
      rw [hr.loc_eq m hk, ← hdata]
      exact .inr ⟨Nat.le_add_right _ k, Nat.add_lt_add_left hk _⟩
  | consumer => exact hx
  | rbDevicePut el => exact hx
  | rbHostPut el => exact hx
  | rbHostGet el => exact hx
  | rbDeviceGet el => exact hx

theorem own_subset (act : Act) :
    own r m act ⊆ (block (.header m)).bytes ∪ (block (.data m)).bytes := by
  have hheader := hr.header m
  intro x hx
  cases act with
  | producer =>
    rcases hx with ⟨hle, hlt⟩ | ⟨hle, hlt⟩
    · refine .inl (hr.mem_block (.header m) (by omega) ?_)
      show x < (block (.header m)).addr + 32
      omega
    · rw [hr.ring_init] at hle hlt
      exact .inr (hr.mem_block (.data m) hle hlt)
  | consumer =>
    obtain ⟨hle, hlt⟩ := hx
    refine .inl (hr.mem_block (.header m) (by omega) ?_)
    show x < (block (.header m)).addr + 32
    omega
  | rbDevicePut el => exact hx.elim
  | rbHostPut el => exact hx.elim
  | rbHostGet el => exact hx.elim
  | rbDeviceGet el => exact hx.elim

theorem not_mem_own {m : Mailbox} {m' : Mailbox} (hne : m' ≠ m) (act : Act) {x : Nat}
    (hx : x ∈ (block (.header m')).bytes ∪ (block (.data m')).bytes) : x ∉ own r m act := by
  intro hown
  have hapart : ∀ p q : Part, p ≠ q → x ∈ (block p).bytes → x ∉ (block q).bytes :=
    fun p q hpq => fun hp hq => Set.disjoint_left.mp (hr.disjoint hpq) hp hq
  rcases hx with hx | hx <;> rcases hr.own_subset m act hown with hin | hin
  · exact hapart (.header m') (.header m) (fun h => hne (Part.header.inj h)) hx hin
  · exact hapart (.header m') (.data m) nofun hx hin
  · exact hapart (.data m') (.header m) nofun hx hin
  · exact hapart (.data m') (.data m) (fun h => hne (Part.data.inj h)) hx hin

end Ready

/-! ## Runs -/

@[simp] theorem cell_set_self (s : L2) (m : Mailbox) (c : Cell) : (s.set m c).cell m = c := by
  simp [L2.set, L2.cell]

theorem cell_set_ne (s : L2) {m m' : Mailbox} (h : m' ≠ m) (c : Cell) :
    (s.set m c).cell m' = { s.cell m' with mem := c.mem } := by
  simp [L2.set, L2.cell, h]

def Queued (b : Bases) (r : Opened) (s : L2) (m : Mailbox) (q : List (List UInt8)) : Prop :=
  Rel b.xlat (ring r.mboxes r.mem m) 16 4 ((s.cell m).sys (r.mboxes m).mbox) q

structure Apart (H : O1HeapMem) (b : Bases) (cs : List Block) (block : Part → Block) (r : Opened)
    (s : L2) : Prop where
  laid : Laid H b cs block r.mboxes s.mem
  queued : ∀ m, ∃ q, Queued b r s m q

variable {r : Opened} {s s' : L2} {d : Done} {q : List (List UInt8)}

theorem Ready.start (hr : Ready H b cs block r) (m : Mailbox) :
    Queued b r (.start r.mem) m [] := by
  have hinit : rbInit (ring r.mboxes r.mem m) 16 4 = ring r.mboxes r.mem m := by
    rw [hr.ring_init, rbInit]
  have hrel := rel_start (hr.fits m) r.mem
  rwa [hinit] at hrel

theorem Ready.step (hr : Ready H b cs block r) (hs : Apart H b cs block r s)
    (h : (mailboxes b r.mboxes).step s d s') : d.after = s' ∧
      (∀ x ∉ own r d.mbox d.act, s'.mem x = s.mem x) ∧
      (∀ q, Queued b r s d.mbox q → Follows b.xlat (ring r.mboxes r.mem d.mbox) 16 4 q d.event
        ((s'.cell d.mbox).sys (r.mboxes d.mbox).mbox)) ∧
      ∀ m ≠ d.mbox, ∀ q, Queued b r s m q → Queued b r s' m q := by
  obtain ⟨⟨m, act⟩, h⟩ := h
  obtain ⟨⟨e, c⟩, hexec, hp⟩ := Option.map_eq_some_iff.mp h
  obtain ⟨rfl, rfl⟩ := Prod.mk.inj hp
  obtain ⟨q₀, hq₀⟩ := hs.queued m
  have hframe : ∀ x ∉ own r m act, c.mem x = s.mem x := by
    intro x hx
    exact (memExec_follows (hr.fits m) (hr.placed m) hq₀ hexec).2 x
      fun hin => hx (hr.mayChange_subset m act hin)
  refine ⟨rfl, hframe, fun q hq => ?_, fun m' hne q hq => ?_⟩
  · rw [cell_set_self]
    exact (memExec_follows (hr.fits m) (hr.placed m) hq hexec).1
  · have hkeep : ∀ x ∈ (block (.header m')).bytes ∪ (block (.data m')).bytes,
        c.mem x = s.mem x := fun x hx => hframe x (hr.not_mem_own hne act hx)
    have hring : loadRing c.mem (r.mboxes m').mbox = loadRing s.mem (r.mboxes m').mbox :=
      hs.laid.ring_eq fun x hx => hkeep x (.inl hx)
    have hagree : Agree b.xlat (ring r.mboxes r.mem m') (16 * 4) s.mem c.mem := by
      intro k hk
      rw [hr.loc_eq m' hk]
      exact hkeep _ (.inr (hr.mem_block (.data m') (Nat.le_add_right _ k)
        (Nat.add_lt_add_left hk _)))
    have hrel := Rel.agree hq hagree
    rw [Queued, cell_set_ne s hne]
    show Rel _ _ 16 4 ⟨loadRing c.mem _, c.mem, s.prod m', s.cons m'⟩ q
    rw [hring]
    exact hrel

theorem exists_queued {m : Mailbox} {e : Event} {t : Sys Nat}
    (h : Follows b.xlat (ring r.mboxes r.mem m) 16 4 q e t) :
    ∃ q', Rel b.xlat (ring r.mboxes r.mem m) 16 4 t q' := by
  unfold Follows at h
  split at h
  · exact ⟨q, h⟩
  · obtain ⟨q', -, hrel⟩ := h
    exact ⟨q', hrel⟩

theorem Ready.step_apart (hr : Ready H b cs block r) (hs : Apart H b cs block r s)
    (h : (mailboxes b r.mboxes).step s d s') : Apart H b cs block r s' := by
  obtain ⟨-, hframe, hfollows, hothers⟩ := hr.step hs h
  refine ⟨hs.laid.written fun x hx => hframe x fun hin => ?_, fun m => ?_⟩
  · exact (hr.own_subset d.mbox d.act hin).elim (hx _) (hx _)
  · obtain ⟨q, hq⟩ := hs.queued m
    by_cases hm : m = d.mbox
    · subst hm
      exact exists_queued (hfollows q hq)
    · exact ⟨q, hothers m hm q hq⟩

theorem Ready.simulation (hr : Ready H b cs block r) (m : Mailbox) :
    Lts.Simulation (mailboxes b r.mboxes) (Fifo.queue (List UInt8) 15) (labelOf m)
      fun s q => Apart H b cs block r s ∧ Queued b r s m q where
  hidden := by
    rintro s d s' q ⟨hs, hq⟩ h hlabel
    refine ⟨hr.step_apart hs h, ?_⟩
    obtain ⟨-, -, hfollows, hothers⟩ := hr.step hs h
    by_cases hm : m = d.mbox
    · subst hm
      have hfol := hfollows q hq
      rw [labelOf, if_pos rfl] at hlabel
      rwa [Follows, hlabel] at hfol
    · exact hothers m hm q hq
  shown := by
    rintro s d s' q l ⟨hs, hq⟩ h hlabel
    obtain ⟨-, -, hfollows, -⟩ := hr.step hs h
    unfold labelOf at hlabel
    split at hlabel
    · rename_i hm
      subst hm
      have hfol := hfollows q hq
      rw [Follows, hlabel] at hfol
      obtain ⟨q', hstep, hrel⟩ := hfol
      exact ⟨q', hstep, hr.step_apart hs h, hrel⟩
    · cases hlabel

/-! ## Giving the blocks back -/

def freeAll (H : O1HeapMem) (mem : Nat → UInt8) (fs : List Block) : Nat → UInt8 :=
  fs.foldl (fun mem c => H.free mem c.addr) mem

theorem freeAll_spec {fs : List Block} (hheap : H.Heap mem cs) (hnodup : fs.Nodup)
    (hsub : ∀ c ∈ fs, c ∈ cs) :
    H.Heap (freeAll H mem fs) (cs.diff fs) ∧
      ∀ c ∈ cs.diff fs, ∀ x ∈ c.bytes, freeAll H mem fs x = mem x := by
  induction fs generalizing mem cs with
  | nil => exact ⟨hheap, fun _ _ _ _ => rfl⟩
  | cons f fs ih =>
    obtain ⟨hf, hnodup⟩ := List.nodup_cons.mp hnodup
    obtain ⟨hmem, hsub⟩ := List.forall_mem_cons.mp hsub
    have hleft : ∀ c ∈ fs, c ∈ cs.erase f := by
      intro c hc
      have hne : c ≠ f := fun heq => hf (heq ▸ hc)
      exact (List.mem_erase_of_ne hne).mpr (hsub c hc)
    rw [List.diff_cons]
    obtain ⟨hheap', hkeep⟩ := ih (H.freed hheap hmem) hnodup hleft
    refine ⟨hheap', fun c hc x hx => (hkeep c hc x hx).trans ?_⟩
    exact H.free_keeps hheap hmem c (List.diff_subset _ _ hc) x hx

theorem append_diff_self (fs cs : List Block) : (fs ++ cs).diff fs = cs := by
  induction fs with
  | nil => rfl
  | cons f fs ih => rw [List.cons_append, List.diff_cons, List.erase_cons_head, ih]

namespace Laid
variable (h : Laid H b cs block mboxes mem)
include h

theorem addr_inj {p q : Part} (heq : (block p).addr = (block q).addr) : p = q := by
  by_contra hne
  have hmem : ∀ p, (block p).addr ∈ (block p).bytes :=
    fun p => h.mem_block p le_rfl (Nat.lt_add_of_pos_right p.size_pos)
  exact Set.disjoint_left.mp (h.disjoint hne) (hmem p) (heq ▸ hmem q)

theorem free_parts (ps : List Part) (hps : ps.Nodup) :
    H.Heap (freeAll H mem (ps.map block)) ((parts.map block ++ cs).diff (ps.map block)) ∧
      ∀ m, .header m ∉ ps →
        ring mboxes (freeAll H mem (ps.map block)) m = ring mboxes mem m := by
  have hlive : ∀ p, block p ∈ parts.map block ++ cs :=
    fun p => List.mem_append_left _ (List.mem_map_of_mem (mem_parts p))
  have hinj : Function.Injective block := fun p q heq => h.addr_inj (congrArg _ heq)
  obtain ⟨hheap, hkeep⟩ := freeAll_spec h.heap (hps.map hinj) fun c hc => by
    obtain ⟨p, -, rfl⟩ := List.mem_map.mp hc
    exact hlive p
  refine ⟨hheap, fun m hm => h.ring_eq (hkeep _ ?_)⟩
  refine List.mem_diff_of_mem (hlive _) fun hmem => hm ?_
  obtain ⟨p, hp, heq⟩ := List.mem_map.mp hmem
  exact hinj heq ▸ hp

end Laid

def givenBack : List Part :=
  [.data .h2aMbox, .header .h2aMbox, .data .a2hMbox, .header .a2hMbox, .data .rbMbox,
    .header .rbMbox]

theorem freeMbox_eq {p : Ptr} {hd dt : Block} (hhd : hd.addr = p.mbox)
    (hdt : (loadRing mem p.mbox).dataV = dt.addr) :
    freeMbox H mem p = ([dt.addr, hd.addr], freeAll H mem [dt, hd]) := by
  have hload : loadLe mem (p.mbox + 16) 8 = dt.addr := hdt
  simp only [freeMbox, heroDevL2Free, hload, hhd, freeAll, List.foldl_cons, List.foldl_nil]

theorem heroDevFreeMboxes_eq (h : Laid H b cs block mboxes mem)
    (hdata : ∀ m, (ring mboxes mem m).dataV = (block (.data m)).addr) :
    heroDevFreeMboxes H mboxes mem =
      (givenBack.map fun p => (block p).addr, freeAll H mem (givenBack.map block)) := by
  have hring : ∀ (ps : List Part) m, ps.Nodup → .header m ∉ ps →
      (ring mboxes (freeAll H mem (ps.map block)) m).dataV = (block (.data m)).addr := by
    intro ps m hps hm
    rw [(h.free_parts ps hps).2 m hm, hdata]
  have h₁ := freeMbox_eq (H := H) (h.header .h2aMbox) (hdata .h2aMbox)
  have h₂ := freeMbox_eq (H := H) (h.header .a2hMbox)
    (hring [.data .h2aMbox, .header .h2aMbox] .a2hMbox (by decide) (by decide))
  have h₃ := freeMbox_eq (H := H) (h.header .rbMbox)
    (hring [.data .h2aMbox, .header .h2aMbox, .data .a2hMbox, .header .a2hMbox] .rbMbox
      (by decide) (by decide))
  have happend : ∀ fs gs : List Block,
      freeAll H (freeAll H mem fs) gs = freeAll H mem (fs ++ gs) :=
    fun fs gs => List.foldl_append.symm
  simp only [List.map_cons, List.map_nil] at h₂ h₃
  simp only [heroDevFreeMboxes, h₁, h₂, happend, List.cons_append, List.nil_append, h₃,
    givenBack, List.map_cons, List.map_nil]

theorem Ready.give_back (hr : Ready H b cs block r) (hs : Apart H b cs block r s) :
    (heroDevFreeMboxes H r.mboxes s.mem).1.Perm r.allocated ∧ r.allocated.Nodup ∧
      H.Heap (heroDevFreeMboxes H r.mboxes s.mem).2 cs := by
  have hdata : ∀ m, (ring r.mboxes s.mem m).dataV = (block (.data m)).addr := by
    intro m
    obtain ⟨q, hq⟩ := hs.queued m
    refine hq.holds.dataV_eq.trans ?_
    rw [hr.ring_init]
  have hall : givenBack.Perm [.header .h2aMbox, .data .h2aMbox, .header .a2hMbox,
    .data .a2hMbox, .header .rbMbox, .data .rbMbox] := by decide
  have hallocated : r.allocated = [Part.header .h2aMbox, .data .h2aMbox, .header .a2hMbox,
      .data .a2hMbox, .header .rbMbox, .data .rbMbox].map fun p => (block p).addr :=
    hr.allocated
  have hinj : Function.Injective fun p => (block p).addr := fun p q heq => hr.addr_inj heq
  have hheap := (hs.laid.free_parts givenBack (by decide)).1
  have hparts : givenBack.Perm parts := by decide
  rw [(hparts.map block).diff_left, append_diff_self] at hheap
  rw [heroDevFreeMboxes_eq hs.laid hdata, hallocated]
  refine ⟨?_, List.Nodup.map hinj (by decide), hheap⟩
  exact hall.map fun p => (block p).addr

/-- Over every run of puts and gets on the three mailboxes, each step changes bytes of its own
mailbox only, the headers keep all but `head` and `tail`, each mailbox is a queue of 15 words by
itself, and the six blocks that were allocated are the ones that are freed. -/
theorem mailbox_isolation {tr : List (L2 × Done)} (hheap : H.Heap mem cs)
    (hr : heroDevAllocMboxes H b mem = some (0, r)) (hok : ∀ a ∈ r.allocated, a ≠ 0)
    (h : (mailboxes b r.mboxes).Run (.start r.mem) tr s) :
    (∀ p ∈ tr, ∀ x, p.2.after.mem x ≠ p.1.mem x → x ∈ own r p.2.mbox p.2.act) ∧
      (∀ m, ∃ head tail, ring r.mboxes s.mem m =
        { ring r.mboxes r.mem m with head := head, tail := tail }) ∧
      (∀ m, ∃ qtr q, (Fifo.queue (List UInt8) 15).Run [] qtr q ∧ (∀ x ∈ q, x.length = 4) ∧
        Lts.labels qtr = (Lts.labels tr).filterMap (labelOf m)) ∧
      (heroDevFreeMboxes H r.mboxes s.mem).1.Perm r.allocated ∧ r.allocated.Nodup ∧
      H.Heap (heroDevFreeMboxes H r.mboxes s.mem).2 cs := by
  obtain ⟨block, hready⟩ := heroDevAllocMboxes_spec hheap hr hok
  have hstart : Apart H b cs block r (.start r.mem) :=
    ⟨hready.toLaid, fun m => ⟨[], hready.start m⟩⟩
  have hs : Apart H b cs block r s :=
    h.invariant hstart fun hu hstep => hready.step_apart hu hstep
  refine ⟨fun p hp x hx => ?_, fun m => ?_, fun m => ?_, hready.give_back hs⟩
  -- the step is one from a reachable state
  · obtain ⟨tr', hbefore, -⟩ := h.exists_before hp
    obtain ⟨u, hu⟩ := h.step_of_mem hp
    have happ := hbefore.invariant hstart fun hu hstep => hready.step_apart hu hstep
    obtain ⟨hafter, hframe, -⟩ := hready.step happ hu
    by_contra hout
    rw [hafter] at hx
    exact hx (hframe x hout)
  · obtain ⟨q, hq⟩ := hs.queued m
    refine ⟨(ring r.mboxes s.mem m).head, (ring r.mboxes s.mem m).tail, ?_⟩
    have hinit := hready.ring_init m
    -- the invariant fixes all fields but the two indices
    have hsize : (ring r.mboxes s.mem m).size = (ring r.mboxes r.mem m).size :=
      hq.holds.size_eq.trans (by rw [hinit])
    have hes : (ring r.mboxes s.mem m).elementSize = (ring r.mboxes r.mem m).elementSize :=
      hq.holds.elementSize_eq.trans (by rw [hinit])
    show _ = RingBuf.mk _ (ring r.mboxes r.mem m).size _ (ring r.mboxes r.mem m).elementSize
      (ring r.mboxes r.mem m).dataV (ring r.mboxes r.mem m).dataP
    rw [← hsize, ← hes, ← hq.holds.dataV_eq, ← hq.holds.dataP_eq]
    rfl
  · obtain ⟨qtr, q, hrun, ⟨-, hq⟩, hlabels⟩ :=
      (hready.simulation m).run h ⟨hstart, hready.start m⟩
    refine ⟨qtr, q, hrun, fun x hx => ?_, hlabels⟩
    obtain ⟨j, hj⟩ := List.mem_iff_getElem?.mp hx
    rw [hq.holds.stored j x hj, bytes, List.length_map, List.length_range]

/-! ## A heap that splits fragments off -/

def top (mem : Nat → UInt8) : Nat := loadLe mem 4096 8

/-- Each block lies in a fragment of a power of two of bytes, behind 32 bytes of its own. -/
def splitOff (mem : Nat → UInt8) (n : Nat) : Nat × (Nat → UInt8) :=
  if top mem + 2 ^ orderBase2 (n + 32) ≤ 8192 then
    (top mem + 32, storeLe mem 4096 8 (top mem + 2 ^ orderBase2 (n + 32)))
  else (0, mem)

structure SplitOff (mem : Nat → UInt8) (cs : List Block) : Prop where
  top_ge : 4104 ≤ top mem
  top_le : top mem ≤ 8192
  within : ∀ c ∈ cs, 4104 ≤ c.addr ∧ c.addr + c.size ≤ top mem
  apart : cs.Pairwise fun c d => Disjoint c.bytes d.bytes

theorem SplitOff.outside {mem : Nat → UInt8} {cs : List Block} (h : SplitOff mem cs) {c : Block}
    (hc : c ∈ cs) {x : Nat} (hx : x ∈ c.bytes) : 4096 + 8 ≤ x := (h.within c hc).1.trans hx.1

theorem SplitOff.written {mem mem' : Nat → UInt8} {cs : List Block} (h : SplitOff mem cs)
    (hmem : ∀ x, (∀ c ∈ cs, x ∉ c.bytes) → mem' x = mem x) : SplitOff mem' cs := by
  have htop : top mem' = top mem := by
    refine loadLe_congr fun x _ hlt => hmem x fun c hc hx => ?_
    exact absurd (h.outside hc hx) (Nat.not_le.mpr hlt)
  constructor
  · rw [htop]
    exact h.top_ge
  · rw [htop]
    exact h.top_le
  · rw [htop]
    exact h.within
  · exact h.apart

theorem SplitOff.allocated {mem : Nat → UInt8} {cs : List Block} (n : Nat) (h : SplitOff mem cs)
    (hok : (splitOff mem n).1 ≠ 0) :
    ∃ k, n ≤ k ∧ SplitOff (splitOff mem n).2 (⟨(splitOff mem n).1, k⟩ :: cs) := by
  unfold splitOff at hok ⊢
  split at hok
  · rename_i hfit
    rw [if_pos hfit]
    have hpow : n + 32 ≤ 2 ^ orderBase2 (n + 32) := le_two_pow_orderBase2 (n + 32)
    have hge := h.top_ge
    generalize 2 ^ orderBase2 (n + 32) = frag at *
    have htop : top (storeLe mem 4096 8 (top mem + frag)) = top mem + frag := by
      rw [top, load_storeLe]
      exact Nat.mod_eq_of_lt (hfit.trans_lt (by norm_num))
    show ∃ k, n ≤ k ∧ SplitOff (storeLe mem 4096 8 (top mem + frag)) (⟨top mem + 32, k⟩ :: cs)
    -- the block is what its fragment has left
    refine ⟨frag - 32, by omega, ?_, ?_, ?_, ?_⟩
    · rw [htop]
      omega
    · rw [htop]
      exact hfit
    · rw [htop]
      intro c hc
      rcases List.mem_cons.mp hc with rfl | hc
      · show 4104 ≤ top mem + 32 ∧ top mem + 32 + (frag - 32) ≤ top mem + frag
        omega
      · have hc := h.within c hc
        omega
    · refine List.pairwise_cons.mpr ⟨fun c hc => ?_, h.apart⟩
      have hc := h.within c hc
      refine Set.disjoint_left.mpr fun x hx hxc => ?_
      have hnew : top mem + 32 ≤ x := hx.1
      have hold : x < c.addr + c.size := hxc.2
      omega
  · exact absurd rfl hok

theorem SplitOff.allocate_keeps {mem : Nat → UInt8} {cs : List Block} (n : Nat)
    (h : SplitOff mem cs) {c : Block} (hc : c ∈ cs) {x : Nat} (hx : x ∈ c.bytes) :
    (splitOff mem n).2 x = mem x := by
  unfold splitOff
  split
  · exact storeLe_outside (.inr (h.outside hc hx))
  · rfl

/-- It does not use again what is freed. -/
def splittingHeap : O1HeapMem where
  Heap := SplitOff
  allocate := splitOff
  free := fun mem _ => mem
  apart := fun h => h.apart
  bound := by
    intro mem cs h c hc
    exact (h.within c hc).2.trans (h.top_le.trans (by norm_num))
  written := fun h hmem => h.written hmem
  allocated := fun n h hok => h.allocated n hok
  allocate_keeps := fun n h _ hc _ hx => h.allocate_keeps n hc hx
  freed := fun h _ => ⟨h.top_ge, h.top_le, fun d hd => h.within d (List.mem_of_mem_erase hd),
    h.apart.sublist List.erase_sublist⟩
  free_keeps := fun _ _ _ _ _ _ => rfl

def someBases : Bases := ⟨4096, 0x78000000, by norm_num, by norm_num⟩

def oneWord : List (Mailbox × Act) :=
  (.h2aMbox, .rbHostPut fun _ => 7) :: .replicate 11 (.h2aMbox, .producer) ++
    (.h2aMbox, .rbDeviceGet fun _ => 0) :: .replicate 12 (.h2aMbox, .consumer)

def oneWordExec : Option (Opened × List (L2 × Done) × L2) :=
  (heroDevAllocMboxes splittingHeap someBases
    (storeLe (fun _ => 0) 4096 8 4160)).bind fun (_, r) =>
      (Lts.replay (exec someBases r.mboxes) (.start r.mem) oneWord).map fun p => (r, p)

theorem mailbox_isolation_oneWord : ∃ r tr s,
    heroDevAllocMboxes splittingHeap someBases (storeLe (fun _ => 0) 4096 8 4160) =
        some (0, r) ∧
      (mailboxes someBases r.mboxes).Run (.start r.mem) tr s ∧
      (Lts.labels tr).getLast?.map Done.event = some (.getOk [7, 7, 7, 7]) ∧
      (heroDevFreeMboxes splittingHeap r.mboxes s.mem).1.Perm
        [4192, 4256, 4384, 4448, 4576, 4640] := by
  have hexec : oneWordExec.map (fun p =>
      (p.1.allocated, (Lts.labels p.2.1).getLast?.map Done.event)) =
      some ([4192, 4256, 4384, 4448, 4576, 4640], some (.getOk [7, 7, 7, 7])) := by
    decide +kernel
  obtain ⟨⟨r, tr, s⟩, hr, hp⟩ := Option.map_eq_some_iff.mp hexec
  obtain ⟨hallocated, hlast⟩ := Prod.mk.inj hp
  obtain ⟨⟨ret, r⟩, halloc, hr⟩ := Option.bind_eq_some_iff.mp hr
  obtain rfl := heroDevAllocMboxes_ret halloc
  obtain ⟨p, hreplay, hp⟩ := Option.map_eq_some_iff.mp hr
  obtain ⟨rfl, rfl⟩ := Prod.mk.inj hp
  have hrun := Lts.replay_run hreplay
  have htop : top (storeLe (fun _ => 0) 4096 8 4160) = 4160 := by
    rw [top, load_storeLe]
    norm_num
  have hheap : SplitOff (storeLe (fun _ => 0) 4096 8 4160) [] :=
    ⟨by rw [htop]; norm_num, by rw [htop]; norm_num, List.forall_mem_nil _, .nil⟩
  have hok : ∀ a ∈ r.allocated, a ≠ 0 := by
    rw [show r.allocated = _ from hallocated]
    decide
  obtain ⟨-, -, -, hperm, -⟩ := mailbox_isolation (H := splittingHeap) hheap halloc hok hrun
  rw [show r.allocated = _ from hallocated] at hperm
  exact ⟨r, tr, s, halloc, hrun, hlast, hperm⟩

end HeroTools.Libhero.Mboxes
