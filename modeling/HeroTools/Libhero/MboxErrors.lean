import HeroTools.Libhero.MboxIsolation

/-! What `hero_dev_alloc_mboxes` and the three `hero_dev_init` make of allocations that fail. -/

namespace HeroTools.Libhero.Mboxes
open HeroTools Ringbuf

section
variable (H : O1HeapMem) (b : Bases)

/-! ## `hero_dev_init` -/

/-- What a back end writes after the mailboxes are there: its registers, and on Occamy the words
of a `struct l3_layout`, by their offsets. -/
structure Init where
  ret : Int
  regs : List (Nat × Nat)
  layout : List (Nat × Nat)

/-- Of the Spatz and of the Safety Island back end. The result of the call is not used. -/
def carfieldHeroDevInit (mem : Nat → UInt8) : Option Init :=
  (heroDevAllocMboxes H b mem).map fun (_, r) =>
    { ret := 0
      regs := [(0x0, (r.mboxes .h2aMbox).pAddr % 2 ^ 32),
        (0x4, (r.mboxes .a2hMbox).pAddr % 2 ^ 32)]
      layout := [] }

abbrev SCTL_SCRATCH_2_REG_OFFSET : Nat := 0x1c

/-- `l3` is what `hero_dev_l3_malloc` returns and stores for the layout. -/
def occamyHeroDevInit (mem : Nat → UInt8) (l3 : Nat × Nat) (l3HeapStartPhy : Nat) :
    Option Init :=
  (heroDevAllocMboxes H b mem).bind fun (_, r) =>
    if l3.1 = 0 then none
    else some
      { ret := 0
        regs := [(SCTL_SCRATCH_2_REG_OFFSET, l3.2 % 2 ^ 32)]
        layout := [(8, (r.mboxes .h2aMbox).pAddr % 2 ^ 32),
          (4, (r.mboxes .a2hMbox).pAddr % 2 ^ 32), (0, (r.mboxes .rbMbox).pAddr % 2 ^ 32),
          (12, l3HeapStartPhy % 2 ^ 32)] }

def Reported (i : Option Init) : Prop := ∃ j, i = some j ∧ j.ret ≠ 0

/-- The call returns 0 with three mailboxes on their own blocks, or it returns `ENOMEM`, with
none of the blocks left, and `hero_dev_init` does not return 0. -/
def AllocSettled (cs : List Block) (mem : Nat → UInt8) : Prop :=
  ∃ ret r, heroDevAllocMboxes H b mem = some (ret, r) ∧
    (ret = 0 ∧ (∃ block, Ready H b cs block r ∧ ∀ p, (block p).addr ≠ 0) ∨
      ret = ENOMEM ∧ H.Heap r.mem cs ∧ Reported (carfieldHeroDevInit H b mem) ∧
        ∀ l3 phy, Reported (occamyHeroDevInit H b mem l3 phy))

/-- What the calls for `n` mailboxes return, each on the heap that those before it leave. -/
def l2Mallocs : Nat → (Nat → UInt8) → List Nat
  | 0, _ => []
  | n + 1, mem => (madeMbox H b mem).allocated ++ l2Mallocs n (madeMbox H b mem).mem

end

/-! ## Where the allocations fail -/

variable {H : O1HeapMem} {b : Bases} {cs : List Block} {mem : Nat → UInt8}

theorem allocMbox_cases (n : Nat) (mem : Nat → UInt8) :
    (∃ d, allocMbox H b mem = some d ∧
        l2Mallocs H b (n + 1) mem = d.allocated ++ l2Mallocs H b n d.mem) ∨
      allocMbox H b mem = none ∧ 0 ∈ l2Mallocs H b (n + 1) mem := by
  simp only [allocMbox, l2Mallocs]
  split_ifs with hmbox
  · refine .inr ⟨rfl, List.mem_append_left _ ?_⟩
    rw [← hmbox]
    exact List.mem_cons_self
  · exact .inl ⟨_, rfl, rfl⟩

theorem heroDevAllocMboxes_cases (H : O1HeapMem) (b : Bases) (mem : Nat → UInt8) :
    (∃ r, heroDevAllocMboxes H b mem = some (0, r) ∧ r.allocated = l2Mallocs H b 3 mem) ∨
      heroDevAllocMboxes H b mem = none ∧ 0 ∈ l2Mallocs H b 3 mem := by
  unfold heroDevAllocMboxes
  obtain ⟨h2a, hh2a, hcalls⟩ | ⟨hfault, hcalls⟩ := allocMbox_cases (H := H) (b := b) 2 mem
  · rw [hh2a, Option.bind_some]
    obtain ⟨a2h, ha2h, hcalls'⟩ | ⟨hfault, hcalls'⟩ :=
      allocMbox_cases (H := H) (b := b) 1 h2a.mem
    · rw [ha2h, Option.bind_some]
      obtain ⟨rb, hrb, hcalls''⟩ | ⟨hfault, hcalls''⟩ :=
        allocMbox_cases (H := H) (b := b) 0 a2h.mem
      · rw [hrb]
        refine .inl ⟨_, congrArg some (heroDevAllocMboxes_passes h2a a2h rb _ _), ?_⟩
        rw [hcalls.trans (congrArg _ (hcalls'.trans (congrArg _ hcalls''))), l2Mallocs,
          List.append_nil]
        exact List.append_assoc ..
      · rw [hfault]
        refine .inr ⟨rfl, ?_⟩
        rw [hcalls.trans (congrArg _ hcalls')]
        exact List.mem_append_right _ (List.mem_append_right _ hcalls'')
    · rw [hfault]
      refine .inr ⟨rfl, ?_⟩
      rw [hcalls]
      exact List.mem_append_right _ hcalls'
  · rw [hfault]
    exact .inr ⟨rfl, hcalls⟩

theorem Ready.allocated_ne_zero {block : Part → Block} {r : Opened} (hr : Ready H b cs block r) :
    (∀ a ∈ r.allocated, a ≠ 0) ↔ ∀ p, (block p).addr ≠ 0 := by
  rw [hr.allocated]
  constructor
  · intro h p
    apply h
    obtain m | m := p <;> cases m <;> simp
  · intro h a ha
    obtain ⟨m, -, ha⟩ := List.mem_flatMap.mp ha
    rcases List.mem_cons.mp ha with rfl | ha
    · exact h _
    · rw [List.mem_singleton.mp ha]
      exact h _

/-- The six allocations are settled just when none of them fails. -/
theorem heroDevAllocMboxes_settled_iff (hheap : H.Heap mem cs) :
    AllocSettled H b cs mem ↔ ∀ a ∈ l2Mallocs H b 3 mem, a ≠ 0 := by
  unfold AllocSettled
  obtain ⟨r, hr, hcalls⟩ | ⟨hfault, hcalls⟩ := heroDevAllocMboxes_cases H b mem
  · rw [hr, ← hcalls]
    constructor
    · rintro ⟨ret, r', heq, ⟨-, block, hready, hne⟩ | ⟨hret, -⟩⟩
      · obtain ⟨-, rfl⟩ := Prod.mk.inj (Option.some.inj heq)
        exact hready.allocated_ne_zero.mpr hne
      · obtain ⟨rfl, -⟩ := Prod.mk.inj (Option.some.inj heq)
        exact absurd hret (by decide)
    · intro hok
      obtain ⟨block, hready⟩ := heroDevAllocMboxes_spec hheap hr hok
      exact ⟨0, r, rfl, .inl ⟨rfl, block, hready, hready.allocated_ne_zero.mp hok⟩⟩
  · rw [hfault]
    refine iff_of_false ?_ fun h => h 0 hcalls rfl
    rintro ⟨ret, r, heq, -⟩
    cases heq

theorem top_store {n : Nat} (h : n ≤ 8192) : top (storeLe (fun _ => 0) 4096 8 n) = n := by
  rw [top, load_storeLe]
  exact Nat.mod_eq_of_lt (h.trans_lt (by norm_num))

theorem splitOff_empty {n : Nat} (hlo : 4104 ≤ n) (hhi : n ≤ 8192) :
    SplitOff (storeLe (fun _ => 0) 4096 8 n) [] := by
  refine ⟨?_, ?_, List.forall_mem_nil _, .nil⟩
  · rwa [top_store hhi]
  · rwa [top_store hhi]

theorem heroDevAllocMboxes_settled_iff_empty :
    AllocSettled splittingHeap someBases [] (storeLe (fun _ => 0) 4096 8 4160) ↔
      ∀ a ∈ l2Mallocs splittingHeap someBases 3 (storeLe (fun _ => 0) 4096 8 4160), a ≠ 0 :=
  heroDevAllocMboxes_settled_iff (splitOff_empty (by norm_num) (by norm_num))

theorem heroDevAllocMboxes_not_settled :
    splittingHeap.Heap (storeLe (fun _ => 0) 4096 8 8192) [] ∧
      ¬ AllocSettled splittingHeap someBases [] (storeLe (fun _ => 0) 4096 8 8192) := by
  refine ⟨splitOff_empty (by norm_num) (by norm_num), ?_⟩
  have hnull : (madeMbox splittingHeap someBases
      (storeLe (fun _ => 0) 4096 8 8192)).ptr.mbox = 0 := by
    have hpos : 0 < 2 ^ orderBase2 (RING_BUF_SIZE + 32) := Nat.two_pow_pos _
    show (splitOff (storeLe (fun _ => 0) 4096 8 8192) RING_BUF_SIZE).1 = 0
    rw [splitOff, top_store le_rfl, if_neg (by omega)]
  rintro ⟨ret, r, hr, -⟩
  rw [heroDevAllocMboxes, allocMbox, if_pos hnull] at hr
  cases hr

end HeroTools.Libhero.Mboxes
