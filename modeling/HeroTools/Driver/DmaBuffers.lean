import HeroTools.Driver.Ioctl
import HeroTools.Lib.Lts
import HeroTools.Lib.Parts

/-! A device that serves requests, and whether its buffer list records memory that the
page allocator gave it. -/

namespace HeroTools.Driver
variable {b : Board} {env : Env} {arg : CardIoctlArg} {s s' : State b}

/-- One `ioctl` system call, with what the kernel does inside it. -/
structure Request where
  env : Env
  cmd : Nat
  arg : CardIoctlArg

def SharedMem.range (r : SharedMem) : Set Nat := Set.Ico r.pbase (r.pbase + r.size)

def PageBlock.range (p : PageBlock) : Set Nat := Set.Ico p.phys (p.phys + p.bytes)

theorem PageBlock.bytes_pos (p : PageBlock) : 0 < p.bytes :=
  Nat.mul_pos (by norm_num) (Nat.two_pow_pos _)

def PageBlock.Free (s : State b) (p : PageBlock) : Prop :=
  p.phys + p.bytes ≤ 2 ^ 64 ∧ ∀ q ∈ s.blocks, Disjoint q.range p.range

def Request.Given (b : Board) (q : Request) (p : PageBlock) : Prop :=
  q.env.copyFromUser ∧ b.command q.cmd = some .dmaAlloc ∧
    q.env.getFreePages = some (p.virt, p.phys) ∧ p.order = dmaOrder q.arg.size

def device (b : Board) : Lts (State b) Request where
  step s q s' := (∀ p, q.Given b p → p.Free s) ∧
    ∃ r arg, cardIoctl q.env q.cmd q.arg s = .ret r arg s'

/-! ## What a request does to the buffer list -/

def recordedPbase (s : State b) (p : PageBlock) : Nat := (p.phys + pcieOffset s) % 2 ^ 64

def bufferAdded (s : State b) (p : PageBlock) (size : Nat) : State b :=
  { s with
    blocks := s.blocks ++ [p]
    testHead := s.testHead ++ [⟨recordedPbase s p, p.virt, size⟩] }

theorem ioctlDmaAlloc_cases {r : Int} {a : Option CardIoctlArg}
    (h : ioctlDmaAlloc env arg s = .ret r a s') :
    env.getFreePages = none ∧ r = -ENOMEM ∧ s' = s ∨
    ∃ p : PageBlock, env.getFreePages = some (p.virt, p.phys) ∧
      p.order = dmaOrder arg.size ∧ s' = bufferAdded s p arg.size ∧
      (r = 0 ∧ a = some ⟨arg.size, recordedPbase s p, p.virt, arg.mmapId⟩ ∨
        r = -EFAULT ∧ a = none) := by
  unfold ioctlDmaAlloc at h
  rcases hg : env.getFreePages with _ | ⟨virt, phys⟩
  · rw [hg] at h
    obtain ⟨rfl, -, rfl⟩ := h
    exact .inl ⟨rfl, rfl, rfl⟩
  · rw [hg] at h
    simp only at h
    split_ifs at h
    obtain ⟨rfl, hr⟩ := ret_of_sendBack h
    exact .inr ⟨⟨virt, phys, dmaOrder arg.size⟩, rfl, rfl, rfl, hr⟩

theorem ioctlIommuMap_frame {r : Int} {a : Option CardIoctlArg}
    (h : ioctlIommuMap env arg s = .ret r a s') :
    s'.testHead = s.testHead ∧ s'.blocks = s.blocks ∧ s'.mem = s.mem := by
  unfold ioctlIommuMap at h
  simp only at h
  split at h
  · cases h
  · next err t hadd =>
    have ht : t.testHead = s.testHead ∧ t.blocks = s.blocks ∧ t.mem = s.mem := by
      unfold heroIommuRegionAdd at hadd
      simp only at hadd
      split_ifs at hadd <;> cases hadd <;> exact ⟨rfl, rfl, rfl⟩
    split_ifs at h
    · obtain ⟨-, -, rfl⟩ := h
      exact ht
    · obtain ⟨rfl, -⟩ := ret_of_sendBack h
      exact ht

theorem ioctlMemInfos_frame {r : Int} {a : Option CardIoctlArg}
    (h : ioctlMemInfos env arg s = .ret r a s') : s' = s := by
  unfold ioctlMemInfos at h
  split at h
  · obtain ⟨-, -, rfl⟩ := h
    rfl
  · exact (ret_of_sendBack h).1

theorem cardIoctl_dmaAlloc (env : Env) (arg : CardIoctlArg) (s : State b) :
    cardIoctl env b.ioctlDmaAlloc arg s =
      if env.copyFromUser then ioctlDmaAlloc env arg s else .ret (-EFAULT) none s := by
  unfold cardIoctl
  rw [Board.command_dmaAlloc]
  cases env.copyFromUser <;> rfl

theorem deviceStep {q : Request} (h : (device b).step s q s') :
    (∃ p, q.Given b p ∧ p.Free s ∧ s' = bufferAdded s p q.arg.size) ∨
    (∀ p, ¬ q.Given b p) ∧ s'.testHead = s.testHead ∧ s'.blocks = s.blocks ∧
      s'.mem = s.mem := by
  obtain ⟨hfree, r, a, hret⟩ := h
  unfold cardIoctl at hret
  cases hc : q.env.copyFromUser with
  | false =>
    simp only [hc, Bool.not_false, if_true] at hret
    obtain ⟨-, -, rfl⟩ := hret
    exact .inr ⟨fun p hp => by simp [Request.Given, hc] at hp, rfl, rfl, rfl⟩
  | true =>
    simp only [hc, Bool.not_true, Bool.false_eq_true, if_false] at hret
    rcases hcmd : b.command q.cmd with _ | _ | _ | _ <;> rw [hcmd] at hret
    · obtain ⟨-, -, rfl⟩ := hret
      exact .inr ⟨fun p hp => by simp [Request.Given, hcmd] at hp, rfl, rfl, rfl⟩
    · rcases ioctlDmaAlloc_cases hret with ⟨hg, -, rfl⟩ | ⟨p, hg, ho, rfl, -⟩
      · exact .inr ⟨fun p hp => by simp [Request.Given, hg] at hp, rfl, rfl, rfl⟩
      · have hp : q.Given b p := ⟨hc, hcmd, hg, ho⟩
        exact .inl ⟨p, hp, hfree p hp, rfl⟩
    · obtain rfl := ioctlMemInfos_frame hret
      exact .inr ⟨fun p hp => by simp [Request.Given, hcmd] at hp, rfl, rfl, rfl⟩
    · exact .inr ⟨fun p hp => by simp [Request.Given, hcmd] at hp, ioctlIommuMap_frame hret⟩

def Request.alloc (b : Board) (phys size : Nat) : Request where
  env := { Env.sound with getFreePages := some (phys, phys) }
  cmd := b.ioctlDmaAlloc
  arg := ⟨size, 0, 0, 0⟩

theorem alloc_given {phys size : Nat} {p : PageBlock} (h : (Request.alloc b phys size).Given b p) :
    p = ⟨phys, phys, dmaOrder size⟩ := by
  obtain ⟨virt, phys', order⟩ := p
  obtain ⟨-, -, hg, ho⟩ := h
  obtain ⟨rfl, rfl⟩ := Prod.mk.inj (Option.some.inj hg)
  obtain rfl : order = dmaOrder size := ho
  rfl

theorem cardIoctl_alloc (s : State b) (phys size : Nat) :
    let q := Request.alloc b phys size
    let p : PageBlock := ⟨phys, phys, dmaOrder size⟩
    cardIoctl q.env q.cmd q.arg s =
      .ret 0 (some ⟨size, recordedPbase s p, phys, 0⟩) (bufferAdded s p size) := by
  intro q p
  rw [show q.cmd = b.ioctlDmaAlloc from rfl, cardIoctl_dmaAlloc]
  rfl

theorem device_alloc {phys size : Nat}
    (h : PageBlock.Free s ⟨phys, phys, dmaOrder size⟩) :
    (device b).step s (.alloc b phys size)
      (bufferAdded s ⟨phys, phys, dmaOrder size⟩ size) :=
  ⟨fun _ hp => alloc_given hp ▸ h, _, _, cardIoctl_alloc s phys size⟩

/-! ## The buffer list over a run -/

/-- Every recorded range lies in its own block, and no two of them meet. -/
def BuffersOk (s : State b) : Prop :=
  List.Forall₂ (fun r p => SharedMem.range r ⊆ PageBlock.range p) s.testHead s.blocks ∧
    s.testHead.Pairwise fun r q => Disjoint r.range q.range

def BlocksApart (s : State b) : Prop :=
  s.blocks.Pairwise fun p q => Disjoint p.range q.range

/-- What is recorded, offset included, stays within the pages asked for. -/
def Fits (s : State b) (q : Request) : Prop :=
  ∀ p, q.Given b p → q.arg.size = 0 ∨ pcieOffset s + q.arg.size ≤ p.bytes

theorem PageBlock.phys_mem_range (p : PageBlock) : p.phys ∈ p.range :=
  ⟨le_rfl, Nat.lt_add_of_pos_right p.bytes_pos⟩

theorem BlocksApart.index_eq {i j : Nat} {p q : PageBlock} (h : BlocksApart s)
    (hi : s.blocks[i]? = some p) (hj : s.blocks[j]? = some q) (hpq : p.phys = q.phys) :
    i = j := by
  obtain ⟨hi', rfl⟩ := List.getElem?_eq_some_iff.mp hi
  obtain ⟨hj', rfl⟩ := List.getElem?_eq_some_iff.mp hj
  have happart := List.pairwise_iff_getElem.mp h
  have hmem : (s.blocks[i]).phys ∈ (s.blocks[j]).range := hpq ▸ PageBlock.phys_mem_range _
  rcases Nat.lt_trichotomy i j with hlt | heq | hlt
  · have hne := Set.disjoint_left.mp (happart i j hi' hj' hlt) (PageBlock.phys_mem_range _)
    exact absurd hmem hne
  · exact heq
  · have hne := Set.disjoint_right.mp (happart j i hj' hi' hlt) (PageBlock.phys_mem_range _)
    exact absurd hmem hne

theorem pcieOffset_lt (s : State b) : pcieOffset s < 2 ^ 64 := by
  unfold pcieOffset
  simp only
  split_ifs
  · exact Nat.and_le_left.trans_lt (by norm_num)
  · norm_num

theorem recorded_range_iff {p : PageBlock} (hp : p.Free s) (size : Nat) :
    SharedMem.range ⟨recordedPbase s p, p.virt, size⟩ ⊆ p.range ↔
      size = 0 ∨ pcieOffset s + size ≤ p.bytes :=
  offset_part_iff hp.1 (pcieOffset_lt s)

theorem buffersOk_iff (h : BlocksApart s) :
    BuffersOk s ↔
      List.Forall₂ (fun r p => SharedMem.range r ⊆ PageBlock.range p) s.testHead s.blocks :=
  ⟨And.left, fun hw => ⟨hw, pairwise_disjoint_of_within hw h⟩⟩

theorem blocksApart_step {q : Request} (hb : BlocksApart s) (h : (device b).step s q s') :
    BlocksApart s' := by
  rcases deviceStep h with ⟨p, -, hfree, rfl⟩ | ⟨-, -, hblocks, -⟩
  · exact pairwise_concat.mpr ⟨hb, hfree.2⟩
  · unfold BlocksApart
    rw [hblocks]
    exact hb

theorem buffersOk_step {q : Request} (hb : BlocksApart s) (h : (device b).step s q s') :
    BuffersOk s' ↔ BuffersOk s ∧ Fits s q := by
  rw [buffersOk_iff hb, buffersOk_iff (blocksApart_step hb h)]
  rcases deviceStep h with ⟨p, hgiven, hfree, rfl⟩ | ⟨hnone, hhead, hblocks, -⟩
  · have hfits : Fits s q ↔ q.arg.size = 0 ∨ pcieOffset s + q.arg.size ≤ p.bytes := by
      constructor
      · exact fun hq => hq p hgiven
      · intro hs p' hp'
        have : p'.bytes = p.bytes := by
          rw [PageBlock.bytes, PageBlock.bytes, hp'.2.2.2, hgiven.2.2.2]
        rw [this]
        exact hs
    rw [hfits, ← recorded_range_iff hfree]
    exact forall₂_concat
  · rw [hhead, hblocks]
    exact ⟨fun hw => ⟨hw, fun p hp => absurd hp (hnone p)⟩, And.left⟩

/-- Over any requests, the buffer list is right just when every recorded buffer fitted. -/
theorem buffers_ok_iff {mem : b.Mem → SharedMem} {tr : List (State b × Request)}
    (h : (device b).Run (.probed mem) tr s) :
    BuffersOk s ↔ ∀ e ∈ tr, Fits e.1 e.2 :=
  h.good_iff (I := BlocksApart) .nil ⟨.nil, .nil⟩ blocksApart_step buffersOk_step

theorem first_block_free {mem : b.Mem → SharedMem} (size : Nat)
    (h : 0x10000 + PAGE_SIZE * 2 ^ dmaOrder size ≤ 2 ^ 64) :
    PageBlock.Free (State.probed mem) ⟨0x10000, 0x10000, dmaOrder size⟩ :=
  ⟨h, fun _ hq => absurd hq List.not_mem_nil⟩

theorem buffers_ok_iff_three_pages :
    let s : State .carfield := .probed fun _ => ⟨0, 0, 0⟩
    BuffersOk (bufferAdded s ⟨0x10000, 0x10000, dmaOrder 0x3000⟩ 0x3000) ↔
      ∀ e ∈ [(s, Request.alloc .carfield 0x10000 0x3000)], Fits e.1 e.2 :=
  buffers_ok_iff (.snoc .nil (device_alloc (first_block_free _ (by decide))))

theorem buffers_not_ok :
    (∃ tr s, (device .carfield).Run (.probed fun _ => ⟨0, 0, 0⟩) tr s ∧ ¬ BuffersOk s) ∧
    ∃ tr s, (device .occamy).Run (.probed fun _ => ⟨0x50000000, 0, 0x1000⟩) tr s ∧
      ¬ BuffersOk s := by
  refine ⟨⟨_, _, .snoc .nil (device_alloc (first_block_free (2 ^ 64 - 1) ?_)), ?_⟩,
    ⟨_, _, .snoc .nil (device_alloc (first_block_free 0x1000 ?_)), ?_⟩⟩
  · decide
  · rintro ⟨hw, -⟩
    have h := (recorded_range_iff (first_block_free _ (by decide)) _).mp (forall₂_concat.mp hw).2
    exact absurd h (by decide)
  · decide
  · rintro ⟨hw, -⟩
    have h := (recorded_range_iff (first_block_free _ (by decide)) _).mp (forall₂_concat.mp hw).2
    exact absurd h (by decide)

/-! ## What fits -/

theorem fits_block_of_no_offset {size : Nat} (h : size ≤ 2 ^ 64 - 4096) :
    size ≤ PAGE_SIZE * 2 ^ dmaOrder size := by
  have hal : ALIGN size PAGE_SIZE = (size + 4095) / 4096 * 4096 := by
    rw [ALIGN, alignUp_4096 (by norm_num), Nat.mod_eq_of_lt (by omega)]
  have hle := le_two_pow_orderBase2 (ALIGN size PAGE_SIZE / PAGE_SIZE)
  rw [← dmaOrder, hal, Nat.mul_div_cancel _ (by norm_num)] at hle
  have hmul := Nat.mul_le_mul_left 4096 hle
  show size ≤ 4096 * 2 ^ dmaOrder size
  omega

theorem dmaOrder_of_wrap {size : Nat} (h : 2 ^ 64 - 4096 < size) (hlt : size < 2 ^ 64) :
    dmaOrder size = 0 := by
  have hdiv : (size + 4095) % 2 ^ 64 / 4096 = 0 := by omega
  have hal : ALIGN size PAGE_SIZE = 0 := by
    rw [ALIGN, alignUp_4096 (by norm_num), hdiv, Nat.zero_mul]
  rw [dmaOrder, hal]
  rfl

theorem fits_iff_of_no_offset {q : Request} (h0 : pcieOffset s = 0) (hsz : q.arg.size < 2 ^ 64)
    {p : PageBlock} (hp : q.Given b p) : Fits s q ↔ q.arg.size ≤ 2 ^ 64 - 4096 := by
  constructor
  · intro hf
    by_contra hgt
    have hb : p.bytes = 4096 := by
      rw [PageBlock.bytes, hp.2.2.2, dmaOrder_of_wrap (not_le.mp hgt) hsz]
      norm_num
    rcases hf p hp with h | h <;> omega
  · intro hle p' hp'
    right
    rw [h0, Nat.zero_add, PageBlock.bytes, hp'.2.2.2]
    exact fits_block_of_no_offset hle

end HeroTools.Driver
