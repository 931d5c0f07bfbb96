import HeroTools.Libhero.Syscalls

/-! `hero_host_l3_malloc`: two system calls of one client, between which other clients make
theirs. -/

namespace HeroTools.Libhero
open Driver
variable {b : Board} {ι : Type*}

def chunkSize (sizeB : Nat) : Nat := alignUp 32 sizeB 0x1000

/-- A client between two calls, or in one: it has its buffer and is to map it. The index
of its entry in the buffer list and the block it was given are ghost. -/
inductive Phase
  | idle
  | mapping (sizeB pAddr own : Nat) (buf : PageBlock)

/-- A call that returned `v_addr ≠ 0`, with the block its own ioctl was given and the
mapping its own mmap made. -/
structure Call where
  sizeB : Nat
  pAddr : Nat
  vAddr : Nat
  buf : PageBlock
  remap : Remap

structure Clients (b : Board) (ι : Type*) where
  dev : State b
  phase : ι → Phase
  done : List Call

/-- The system calls. `chunk` is what the uninitialised argument held, `vma` the area that
the kernel passes to the driver, or none. -/
inductive Syscall (ι : Type*)
  | ioctl (c : ι) (sizeB : Nat) (chunk : CardIoctlArg) (env : Env)
  | mmap (c : ι) (env : MmapEnv) (vma : Option Vma)

def allocRequest (b : Board) (sizeB : Nat) (chunk : CardIoctlArg) (env : Env) : Request where
  env := env
  cmd := b.ioctlDmaAlloc
  arg := { chunk with size := chunkSize sizeB }

def AreaFor (vma : Vma) (sizeB : Nat) : Prop :=
  vma.vmPgoff = DMA_BUFS_MMAP_ID ∧ vma.vmEnd - vma.vmStart = pageAlign sizeB ∧
    vma.vmStart ≠ 0

def clients (b : Board) (ι : Type*) [DecidableEq ι] : Lts (Clients b ι) (Syscall ι) where
  step s e s' := match e with
    | .ioctl c sizeB chunk env =>
      let q := allocRequest b sizeB chunk env
      s.phase c = .idle ∧ sizeB < 2 ^ 32 ∧
      (∀ p, q.Given b p → p.Free s.dev ∧ PAGE_SIZE ∣ p.phys) ∧
      ∃ err a dev, cardIoctl q.env q.cmd q.arg s.dev = .ret err a dev ∧
        (err ≠ 0 ∧ s' = { s with dev := dev } ∨
          err = 0 ∧ ∃ arg buf, a = some arg ∧ dev.blocks.getLast? = some buf ∧
            s' = { s with
              dev := dev
              phase := Function.update s.phase c
                (.mapping sizeB arg.resultPhysAddr s.dev.testHead.length buf) })
    | .mmap c env vma =>
      ∃ sizeB pAddr own buf, s.phase c = .mapping sizeB pAddr own buf ∧
        match vma with
        | none => s' = { s with phase := Function.update s.phase c .idle }
        | some vma => AreaFor vma sizeB ∧ ∃ r m, cardMmap env vma s.dev = .ret r (some m) ∧
            s' = { s with
              phase := Function.update s.phase c .idle
              done := if r = 0 then s.done ++ [⟨sizeB, pAddr, vma.vmStart, buf, m⟩]
                else s.done }

def Clients.start (mem : b.Mem → SharedMem) : Clients b ι where
  dev := .probed mem
  phase := fun _ => .idle
  done := []

/-! ## What a call is to deliver -/

/-- The bytes asked for are backed by the bytes at `*p_addr`, all of the mapping by the
block that this very call was given. -/
def Call.Ok (d : Call) : Prop :=
  (∀ k < d.sizeB, d.remap.backing (d.vAddr + k) = some (d.pAddr + k)) ∧
    d.remap.range ⊆ d.buf.range

def Clients.Ok (s : Clients b ι) : Prop :=
  (∀ d ∈ s.done, d.Ok) ∧ s.done.Pairwise fun d d' => Disjoint d.remap.range d'.remap.range

/-- When a client gets its mapping, no buffer was added after its own, and its size did not
wrap around in `ALIGN_UP`. -/
def Unbroken (s : Clients b ι) : Syscall ι → Prop
  | .ioctl .. => True
  | .mmap c env vma => ∀ sizeB pAddr own buf vma' m,
      s.phase c = .mapping sizeB pAddr own buf → vma = some vma' →
      cardMmap env vma' s.dev = .ret 0 (some m) →
      s.dev.testHead.length = own + 1 ∧ sizeB ≤ 2 ^ 32 - 4096

/-! ## Sizes -/

theorem chunkSize_of_le {sizeB : Nat} (h : sizeB ≤ 2 ^ 32 - 4096) :
    chunkSize sizeB = pageAlign sizeB := by
  rw [chunkSize, alignUp_4096 (by norm_num), Nat.mod_eq_of_lt (by omega), pageAlign]

theorem chunkSize_of_gt {sizeB : Nat} (h : 2 ^ 32 - 4096 < sizeB) (hlt : sizeB < 2 ^ 32) :
    chunkSize sizeB = 0 := by
  have hdiv : (sizeB + 4095) % 2 ^ 32 / 4096 = 0 := by omega
  rw [chunkSize, alignUp_4096 (by norm_num), hdiv, Nat.zero_mul]

theorem pageAlign_le_block_iff {sizeB : Nat} (hlt : sizeB < 2 ^ 32) :
    pageAlign sizeB ≤ PAGE_SIZE * 2 ^ dmaOrder (chunkSize sizeB) ↔
      sizeB ≤ 2 ^ 32 - 4096 := by
  constructor
  · intro h
    by_contra hgt
    rw [chunkSize_of_gt (not_le.mp hgt) hlt, pageAlign] at h
    have h0 : PAGE_SIZE * 2 ^ dmaOrder 0 = 4096 := rfl
    rw [h0] at h
    omega
  · intro h
    rw [chunkSize_of_le h]
    exact fits_block_of_no_offset (by rw [pageAlign]; omega)

/-! ## The invariant -/

structure Pending (dev : State b) (sizeB pAddr own : Nat) (buf : PageBlock) : Prop where
  at_own : dev.blocks[own]? = some buf
  phys : pAddr = buf.phys
  order : buf.order = dmaOrder (chunkSize sizeB)
  lt : sizeB < 2 ^ 32

/-- Without a BAR the list records the blocks themselves; every block is at most one
call's. -/
structure Inv (s : Clients b ι) : Prop where
  no_bar : pcieOffset s.dev = 0
  apart : BlocksApart s.dev
  aligned : ∀ p ∈ s.dev.blocks, PAGE_SIZE ∣ p.phys
  recorded : s.dev.testHead.map SharedMem.pbase = s.dev.blocks.map PageBlock.phys
  pending : ∀ {c sizeB pAddr own buf}, s.phase c = .mapping sizeB pAddr own buf →
    Pending s.dev sizeB pAddr own buf
  pending_apart : ∀ {c sizeB pAddr own buf c' sizeB' pAddr' own' buf'}, c ≠ c' →
    s.phase c = .mapping sizeB pAddr own buf →
    s.phase c' = .mapping sizeB' pAddr' own' buf' → Disjoint buf.range buf'.range
  done_mem : ∀ d ∈ s.done, d.buf ∈ s.dev.blocks
  done_pending : ∀ d ∈ s.done, ∀ {c sizeB pAddr own buf},
    s.phase c = .mapping sizeB pAddr own buf → Disjoint d.buf.range buf.range
  done_apart : s.done.Pairwise fun d d' => Disjoint d.buf.range d'.buf.range

theorem inv_start {mem : b.Mem → SharedMem} (h : (mem b.pcieAxiBarMem).pbase = 0) :
    Inv (Clients.start mem : Clients b ι) where
  no_bar := by simp [pcieOffset, Clients.start, State.probed, h]
  apart := .nil
  aligned := fun _ hp => absurd hp List.not_mem_nil
  recorded := rfl
  pending := fun h => nomatch h
  pending_apart := fun _ h => nomatch h
  done_mem := fun _ hd => absurd hd List.not_mem_nil
  done_pending := fun _ hd => absurd hd List.not_mem_nil
  done_apart := .nil

section Step
variable {s s' : Clients b ι}

theorem recordedPbase_of_free {dev : State b} {p : PageBlock} (h : pcieOffset dev = 0)
    (hfree : p.Free dev) : recordedPbase dev p = p.phys := by
  rw [recordedPbase, h, Nat.add_zero, Nat.mod_eq_of_lt]
  exact Nat.lt_of_lt_of_le (Nat.lt_add_of_pos_right p.bytes_pos) hfree.1

theorem inv_bufferAdded {p : PageBlock} {size : Nat} (h : Inv s) (hfree : p.Free s.dev)
    (hal : PAGE_SIZE ∣ p.phys) : Inv { s with dev := bufferAdded s.dev p size } where
  no_bar := h.no_bar
  apart := pairwise_concat.mpr ⟨h.apart, hfree.2⟩
  aligned := by
    intro q hq
    rcases List.mem_append.mp hq with hq | hq
    · exact h.aligned q hq
    · obtain rfl := List.mem_singleton.mp hq
      exact hal
  recorded := by
    simp [bufferAdded, h.recorded, recordedPbase_of_free h.no_bar hfree]
  pending := by
    intro c sizeB pAddr own buf hc
    have hp := h.pending hc
    have hown : (s.dev.blocks ++ [p])[own]? = s.dev.blocks[own]? :=
      List.getElem?_append_left (List.getElem?_eq_some_iff.mp hp.at_own).1
    exact ⟨hown.trans hp.at_own, hp.phys, hp.order, hp.lt⟩
  pending_apart := h.pending_apart
  done_mem := fun d hd => List.mem_append_left _ (h.done_mem d hd)
  done_pending := h.done_pending
  done_apart := h.done_apart

theorem Inv.pending_mem {c : ι} {sizeB pAddr own : Nat} {buf : PageBlock} (h : Inv s)
    (hc : s.phase c = .mapping sizeB pAddr own buf) : buf ∈ s.dev.blocks :=
  List.mem_of_getElem? (h.pending hc).at_own

theorem cardMmap_latest {env : MmapEnv} {vma : Vma} {sizeB : Nat} {r : Int} {m : Remap}
    (h : Inv s) (hne : s.dev.blocks ≠ []) (harea : AreaFor vma sizeB)
    (hm : cardMmap env vma s.dev = .ret r (some m)) :
    ∃ q, s.dev.blocks.getLast? = some q ∧ m.addr = vma.vmStart ∧
      m.pfn * PAGE_SIZE = q.phys ∧ m.size = pageAlign sizeB := by
  unfold cardMmap at hm
  rw [harea.1, mmapTarget_dmaBufs] at hm
  simp only at hm
  obtain ⟨q, hq⟩ : ∃ q, s.dev.blocks.getLast? = some q := ⟨_, List.getLast?_eq_some_getLast hne⟩
  have hlast : (s.dev.testHead.map SharedMem.pbase).getLast? = some q.phys := by
    rw [h.recorded, List.getLast?_map, hq, Option.map_some]
  rw [List.getLast?_map, Option.map_eq_some_iff] at hlast
  obtain ⟨e, he, hphys⟩ := hlast
  rw [listLastEntry, he, Option.some_or] at hm
  obtain ⟨-, rfl⟩ := hm
  refine ⟨q, hq, rfl, ?_, harea.2.1⟩
  have hal : PAGE_SIZE ∣ q.phys := h.aligned q (List.mem_of_getLast? hq)
  rw [← hphys] at hal ⊢
  rw [shiftRight_page]
  exact Nat.div_mul_cancel hal

theorem call_ok_iff {c : ι} {sizeB pAddr own : Nat} {buf : PageBlock} {env : MmapEnv}
    {vma : Vma} {r : Int} {m : Remap} (h : Inv s)
    (hc : s.phase c = .mapping sizeB pAddr own buf) (harea : AreaFor vma sizeB)
    (hm : cardMmap env vma s.dev = .ret r (some m)) :
    Call.Ok ⟨sizeB, pAddr, vma.vmStart, buf, m⟩ ↔
      s.dev.testHead.length = own + 1 ∧ sizeB ≤ 2 ^ 32 - 4096 := by
  have hp := h.pending hc
  obtain ⟨q, hq, haddr, hpfn, hsize⟩ :=
    cardMmap_latest h (List.ne_nil_of_mem (h.pending_mem hc)) harea hm
  have hlen : s.dev.testHead.length = s.dev.blocks.length := by
    simpa using congrArg List.length h.recorded
  have hpos : 0 < pageAlign sizeB := by
    have := vma.start_lt_end
    have := harea.2.1
    omega
  have hrange : m.range ⊆ buf.range ↔ buf.phys ≤ q.phys ∧
      q.phys + pageAlign sizeB ≤ buf.phys + buf.bytes := by
    rw [Remap.range, hpfn, hsize]
    exact Set.Ico_subset_Ico_iff (by omega)
  have hfit : pageAlign sizeB ≤ buf.bytes ↔ sizeB ≤ 2 ^ 32 - 4096 := by
    rw [PageBlock.bytes, hp.order]
    exact pageAlign_le_block_iff hp.lt
  show (∀ k < sizeB, m.backing (vma.vmStart + k) = some (pAddr + k)) ∧ m.range ⊆ buf.range ↔ _
  rw [hrange, hp.phys, ← hfit, hlen]
  constructor
  · rintro ⟨hback, hsub⟩
    have hsz : 0 < sizeB := by
      unfold pageAlign at hpos
      omega
    -- the first byte tells whose block was mapped
    have h0 : q.phys = buf.phys := by
      have := hback 0 hsz
      rw [Remap.backing, haddr, hsize, hpfn, if_pos (by omega)] at this
      have := Option.some.inj this
      omega
    rw [List.getLast?_eq_getElem?] at hq
    have hidx := h.apart.index_eq hq hp.at_own h0
    have := (List.getElem?_eq_some_iff.mp hp.at_own).1
    omega
  · rintro ⟨hown, hle⟩
    have hq' : q = buf := by
      rw [List.getLast?_eq_getElem?, hown, Nat.add_sub_cancel, hp.at_own] at hq
      exact (Option.some.inj hq).symm
    subst hq'
    refine ⟨fun k hk => ?_, le_rfl, by omega⟩
    have := le_pageAlign sizeB
    rw [Remap.backing, haddr, hsize, hpfn, if_pos (by omega), Nat.add_sub_cancel_left]

theorem ok_iff (h : Inv s) : s.Ok ↔ ∀ d ∈ s.done, d.Ok := by
  refine ⟨And.left, fun hd => ⟨hd, ?_⟩⟩
  refine h.done_apart.imp_of_mem ?_
  intro d d' hm hm' hdisj
  exact hdisj.mono (hd d hm).2 (hd d' hm').2

variable [DecidableEq ι]

theorem ioctl_step {c : ι} {sizeB : Nat} {chunk : CardIoctlArg} {env : Env}
    (h : (clients b ι).step s (.ioctl c sizeB chunk env) s') :
    s' = s ∨ ∃ p : PageBlock, p.Free s.dev ∧ PAGE_SIZE ∣ p.phys ∧
      p.order = dmaOrder (chunkSize sizeB) ∧ sizeB < 2 ^ 32 ∧
      let dev := bufferAdded s.dev p (chunkSize sizeB)
      (s' = { s with dev := dev } ∨ s' = { s with
        dev := dev
        phase := Function.update s.phase c
          (.mapping sizeB (recordedPbase s.dev p) s.dev.testHead.length p) }) := by
  obtain ⟨-, hlt, hfree, err, a, dev, hret, hs'⟩ := h
  have hret' := (cardIoctl_dmaAlloc env _ s.dev).symm.trans hret
  cases hc : env.copyFromUser with
  | false =>
    simp only [hc, Bool.false_eq_true, if_false] at hret'
    obtain ⟨rfl, rfl, rfl⟩ := hret'
    rcases hs' with ⟨-, rfl⟩ | ⟨h0, -⟩
    · exact .inl rfl
    · exact absurd h0 (by decide)
  | true =>
    simp only [hc, if_true] at hret'
    rcases ioctlDmaAlloc_cases hret' with ⟨-, rfl, rfl⟩ | ⟨p, hg, ho, rfl, hr⟩
    · rcases hs' with ⟨-, rfl⟩ | ⟨h0, -⟩
      · exact .inl rfl
      · exact absurd h0 (by decide)
    · have hp := hfree p ⟨hc, Board.command_dmaAlloc b, hg, ho⟩
      refine .inr ⟨p, hp.1, hp.2, ho, hlt, ?_⟩
      rcases hs' with ⟨-, rfl⟩ | ⟨-, arg, buf, rfl, hbuf, rfl⟩
      · exact .inl rfl
      · have hlast : (s.dev.blocks ++ [p]).getLast? = some buf := hbuf
        obtain rfl : p = buf := by simpa using hlast
        rcases hr with ⟨-, ha⟩ | ⟨-, ha⟩
        · obtain rfl := Option.some.inj ha
          exact .inr rfl
        · cases ha

theorem inv_phase {c : ι} {ph : Phase} (h : Inv s)
    (hph : ∀ {sizeB pAddr own buf}, ph = .mapping sizeB pAddr own buf →
      Pending s.dev sizeB pAddr own buf ∧ (∀ d ∈ s.done, Disjoint d.buf.range buf.range) ∧
      ∀ {c' sizeB' pAddr' own' buf'}, c ≠ c' →
        s.phase c' = .mapping sizeB' pAddr' own' buf' → Disjoint buf.range buf'.range) :
    Inv { s with phase := Function.update s.phase c ph } := by
  have hself : Function.update s.phase c ph c = ph := Function.update_self ..
  have hother {c' : ι} (hne : c' ≠ c) : Function.update s.phase c ph c' = s.phase c' :=
    Function.update_of_ne hne ..
  refine ⟨h.no_bar, h.apart, h.aligned, h.recorded, ?_, ?_, h.done_mem, ?_, h.done_apart⟩
  · intro c' sizeB pAddr own buf hc
    by_cases hcc : c' = c
    · subst hcc
      exact (hph (hself.symm.trans hc)).1
    · exact h.pending ((hother hcc).symm.trans hc)
  · intro c₁ sizeB pAddr own buf c₂ sizeB' pAddr' own' buf' hne h₁ h₂
    by_cases hc₁ : c₁ = c
    · subst hc₁
      exact (hph (hself.symm.trans h₁)).2.2 hne ((hother hne.symm).symm.trans h₂)
    -- two other clients are as far apart as before
    · by_cases hc₂ : c₂ = c
      · subst hc₂
        exact ((hph (hself.symm.trans h₂)).2.2 hne.symm ((hother hc₁).symm.trans h₁)).symm
      · exact h.pending_apart hne ((hother hc₁).symm.trans h₁) ((hother hc₂).symm.trans h₂)
  · intro d hd c' sizeB pAddr own buf hc
    by_cases hcc : c' = c
    · subst hcc
      exact (hph (hself.symm.trans hc)).2.1 d hd
    · exact h.done_pending d hd ((hother hcc).symm.trans hc)

theorem inv_idle {c : ι} (h : Inv s) :
    Inv { s with phase := Function.update s.phase c .idle } :=
  inv_phase h fun hph => nomatch hph

theorem mmap_step {c : ι} {env : MmapEnv} {vma : Option Vma}
    (h : (clients b ι).step s (.mmap c env vma) s') :
    (∀ vma' m, vma = some vma' → cardMmap env vma' s.dev ≠ .ret 0 (some m)) ∧
        s' = { s with phase := Function.update s.phase c .idle } ∨
    ∃ sizeB pAddr own buf vma' m, s.phase c = .mapping sizeB pAddr own buf ∧
      vma = some vma' ∧ AreaFor vma' sizeB ∧ cardMmap env vma' s.dev = .ret 0 (some m) ∧
      s' = { s with
        phase := Function.update s.phase c .idle
        done := s.done ++ [⟨sizeB, pAddr, vma'.vmStart, buf, m⟩] } := by
  obtain ⟨sizeB, pAddr, own, buf, hc, h⟩ := h
  cases vma with
  | none => exact .inl ⟨fun _ _ hv => (nomatch hv), h⟩
  | some vma =>
    obtain ⟨harea, r, m, hm, rfl⟩ := h
    by_cases hr : r = 0
    · subst hr
      exact .inr ⟨sizeB, pAddr, own, buf, vma, m, hc, rfl, harea, hm, rfl⟩
    · left
      refine ⟨?_, by rw [if_neg hr]⟩
      rintro vma' m' hv hm'
      obtain rfl := Option.some.inj hv
      rw [hm] at hm'
      exact hr (MmapOutcome.ret.inj hm').1

theorem inv_ioctl {c : ι} {sizeB : Nat} {chunk : CardIoctlArg} {env : Env} (h : Inv s)
    (hs : (clients b ι).step s (.ioctl c sizeB chunk env) s') : Inv s' := by
  rcases ioctl_step hs with rfl | ⟨p, hfree, hal, hord, hlt, hs'⟩
  · exact h
  rcases hs' with rfl | rfl
  · exact inv_bufferAdded h hfree hal
  · have hphys := recordedPbase_of_free h.no_bar hfree
    have hlen : s.dev.testHead.length = s.dev.blocks.length := by
      simpa using congrArg List.length h.recorded
    apply inv_phase (inv_bufferAdded h hfree hal)
    rintro sizeB' pAddr own buf hph
    obtain ⟨rfl, rfl, rfl, rfl⟩ := Phase.mapping.inj hph
    refine ⟨⟨?_, hphys, hord, hlt⟩, fun d hd => hfree.2 _ (h.done_mem d hd),
      fun _ hc' => (hfree.2 _ (h.pending_mem hc')).symm⟩
    rw [hlen]
    exact List.getElem?_concat_length

theorem inv_mmap {c : ι} {env : MmapEnv} {vma : Option Vma} (h : Inv s)
    (hs : (clients b ι).step s (.mmap c env vma) s') : Inv s' := by
  rcases mmap_step hs with ⟨-, rfl⟩ | ⟨sizeB, pAddr, own, buf, vma, m, hc, -, -, -, rfl⟩
  · exact inv_idle h
  · have hi := inv_idle (c := c) h
    refine ⟨hi.no_bar, hi.apart, hi.aligned, hi.recorded, hi.pending, hi.pending_apart, ?_, ?_,
      pairwise_concat.mpr ⟨h.done_apart, fun d hd => h.done_pending d hd hc⟩⟩
    · intro d hd
      rcases List.mem_append.mp hd with hd | hd
      · exact h.done_mem d hd
      · rw [List.mem_singleton.mp hd]
        exact h.pending_mem hc
    · intro d hd c' sizeB' pAddr' own' buf' hc'
      rcases List.mem_append.mp hd with hd | hd
      · exact hi.done_pending d hd hc'
      · rw [List.mem_singleton.mp hd]
        have hne : c ≠ c' := by
          rintro rfl
          exact nomatch (Function.update_self ..).symm.trans hc'
        exact h.pending_apart hne hc ((Function.update_of_ne hne.symm ..).symm.trans hc')

theorem inv_step {e : Syscall ι} (h : Inv s) (hs : (clients b ι).step s e s') : Inv s' := by
  cases e with
  | ioctl => exact inv_ioctl h hs
  | mmap => exact inv_mmap h hs

theorem ok_step {e : Syscall ι} (h : Inv s) (hs : (clients b ι).step s e s') :
    s'.Ok ↔ s.Ok ∧ Unbroken s e := by
  rw [ok_iff (inv_step h hs), ok_iff h]
  cases e with
  | ioctl c sizeB chunk env =>
    rw [Unbroken, and_true]
    rcases ioctl_step hs with rfl | ⟨p, -, -, -, -, rfl | rfl⟩ <;> exact Iff.rfl
  | mmap c env vma =>
    rcases mmap_step hs with ⟨hfail, rfl⟩ |
      ⟨sizeB, pAddr, own, buf, vma, m, hc, rfl, harea, hm, rfl⟩
    · refine (and_iff_left ?_).symm
      intro _ _ _ _ vma' m _ hv hm
      exact absurd hm (hfail vma' m hv)
    · have hu : Unbroken s (.mmap c env (some vma)) ↔
          s.dev.testHead.length = own + 1 ∧ sizeB ≤ 2 ^ 32 - 4096 := by
        constructor
        · exact fun hu => hu _ _ _ _ _ _ hc rfl hm
        · intro hl sizeB' pAddr' own' buf' vma' m' hc' _ _
          obtain ⟨rfl, rfl, rfl, rfl⟩ := Phase.mapping.inj (hc.symm.trans hc')
          exact hl
      rw [hu, ← call_ok_iff h hc harea hm]
      simp only [List.forall_mem_append, List.forall_mem_singleton]

/-! ## Runs -/

def Syscall.allocPage (c : ι) (phys : Nat) : Syscall ι :=
  .ioctl c 4096 ⟨0, 0, 0, 0⟩ { Env.sound with getFreePages := some (phys, phys) }

def Clients.pageGiven (s : Clients b ι) (c : ι) (phys : Nat) : Clients b ι :=
  let p : PageBlock := ⟨phys, phys, 0⟩
  { s with
    dev := bufferAdded s.dev p 4096
    phase := Function.update s.phase c
      (.mapping 4096 (recordedPbase s.dev p) s.dev.testHead.length p) }

theorem allocPage_step {c : ι} {phys : Nat} (hc : s.phase c = .idle)
    (hfree : PageBlock.Free s.dev ⟨phys, phys, 0⟩) (hal : PAGE_SIZE ∣ phys) :
    (clients b ι).step s (.allocPage c phys) (s.pageGiven c phys) := by
  refine ⟨hc, by norm_num, fun p hp => ?_, _, _, _, cardIoctl_alloc s.dev phys 4096,
    .inr ⟨rfl, _, ⟨phys, phys, 0⟩, rfl, ?_, rfl⟩⟩
  · have hp' := alloc_given hp
    obtain rfl : p = ⟨phys, phys, 0⟩ := hp'
    exact ⟨hfree, hal⟩
  · exact List.getLast?_concat

def Syscall.mapPage (c : ι) : Syscall ι := .mmap c ⟨none, fun _ => 0⟩ (some (.pages 1 0))

theorem mapPage_step {c : ι} {pAddr own : Nat} {buf : PageBlock} {e : SharedMem}
    (hc : s.phase c = .mapping 4096 pAddr own buf) (he : s.dev.testHead.getLast? = some e) :
    (clients b ι).step s (.mapPage c) { s with
      phase := Function.update s.phase c .idle
      done := s.done ++
        [⟨4096, pAddr, 4096, buf, ⟨4096, e.pbase >>> PAGE_SHIFT, 4096⟩⟩] } := by
  refine ⟨4096, pAddr, own, buf, hc, ⟨rfl, rfl, by decide⟩, 0, _, ?_, rfl⟩
  unfold cardMmap
  rw [show (Vma.pages 1 0).vmPgoff = DMA_BUFS_MMAP_ID from rfl, mmapTarget_dmaBufs]
  simp only [listLastEntry, he, Option.some_or]
  rfl

end Step

/-- Whatever the interleaving, all calls got their own buffers just when none was broken
into. -/
theorem host_l3_malloc_ok_iff [DecidableEq ι] {mem : b.Mem → SharedMem}
    {tr : List (Clients b ι × Syscall ι)} {s : Clients b ι}
    (hbar : (mem b.pcieAxiBarMem).pbase = 0)
    (h : (clients b ι).Run (.start mem) tr s) :
    s.Ok ↔ ∀ e ∈ tr, Unbroken e.1 e.2 :=
  h.good_iff (inv_start hbar) ⟨fun _ hd => absurd hd List.not_mem_nil, .nil⟩ inv_step ok_step

theorem host_l3_malloc_ok_iff_alone :
    ∃ tr s, (clients .carfield Unit).Run (.start fun _ => ⟨0, 0, 0⟩) tr s ∧
      s.done.map Call.pAddr = [0x10000] ∧ (s.Ok ↔ ∀ e ∈ tr, Unbroken e.1 e.2) := by
  have hfree : PageBlock.Free (Clients.start fun _ => ⟨0, 0, 0⟩ : Clients .carfield Unit).dev
      ⟨0x10000, 0x10000, 0⟩ := ⟨by decide, fun _ hq => absurd hq List.not_mem_nil⟩
  have hrun := Lts.Run.nil.snoc (allocPage_step (c := ()) rfl hfree (by decide))
    |>.snoc (mapPage_step (c := ()) rfl rfl)
  exact ⟨_, _, hrun, rfl, host_l3_malloc_ok_iff rfl hrun⟩

theorem host_l3_malloc_not_ok :
    ∃ tr s, (clients .carfield Bool).Run (.start fun _ => ⟨0, 0, 0⟩) tr s ∧
      s.done.map (fun d => (d.pAddr, d.remap.pfn)) = [(0x10000, 0x20), (0x20000, 0x20)] ∧
      ¬ s.Ok := by
  let s₀ : Clients .carfield Bool := .start fun _ => ⟨0, 0, 0⟩
  let s₁ := s₀.pageGiven true 0x10000
  have hfree₀ : PageBlock.Free s₀.dev ⟨0x10000, 0x10000, 0⟩ :=
    ⟨by decide, fun _ hq => absurd hq List.not_mem_nil⟩
  have hfree₁ : PageBlock.Free s₁.dev ⟨0x20000, 0x20000, 0⟩ := by
    refine ⟨by decide, fun q hq => ?_⟩
    obtain rfl : q = ⟨0x10000, 0x10000, 0⟩ := List.mem_singleton.mp hq
    exact Set.Ico_disjoint_Ico.mpr (by decide)
  have hrun := Lts.Run.nil.snoc (allocPage_step (c := true) rfl hfree₀ (by decide))
    |>.snoc (allocPage_step (c := false) rfl hfree₁ (by decide))
    |>.snoc (mapPage_step (c := true) rfl rfl)
    |>.snoc (mapPage_step (c := false) rfl rfl)
  refine ⟨_, _, hrun, by decide, ?_⟩
  rintro ⟨hd, -⟩
  obtain ⟨hback, -⟩ := hd _ (List.mem_append_left _ (List.mem_singleton_self _))
  exact absurd (hback 0 (by norm_num)) (by decide)

end HeroTools.Libhero
