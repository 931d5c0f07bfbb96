import HeroTools.Libhero.Heap
import HeroTools.Lib.Lts

/-! When the physical address that an allocation stores is the one behind the address it
returns: over any calls of a process. -/

namespace HeroTools.Libhero
open Driver
variable {H : O1Heap}

/-! ## The invariant -/

structure HeapInv (maps : List Remap) (h : Heap H) : Prop where
  virt_lt : h.startVirt < 2 ^ 64
  phy_lt : h.startPhy < 2 ^ 64
  base : ∀ {i}, h.manager = some i →
    H.base i = h.home.virt + alignUp 64 (h.home.size / 2) O1HEAP_ALIGNMENT
  size : ∀ {i}, h.manager = some i → H.size i = h.home.size / 2
  valid : h.manager ≠ none → h.home.Valid
  mapped : h.manager ≠ none → h.home.remap ∈ maps

structure ProcessInv (s : Process H) : Prop where
  heap : ∀ l, HeapInv s.maps (s.heap l)
  apart : s.maps.Pairwise AreasApart

theorem backing_of_mem {s : Process H} {m : Remap} {v : Nat}
    (h : s.maps.Pairwise AreasApart) (hm : m ∈ s.maps) (hlo : m.addr ≤ v)
    (hhi : v < m.addr + m.size) : s.backing v = some (m.pfn * PAGE_SIZE + (v - m.addr)) := by
  have hself : m.backing v = some (m.pfn * PAGE_SIZE + (v - m.addr)) := if_pos ⟨hlo, hhi⟩
  unfold Process.backing
  generalize s.maps = maps at h hm
  induction maps with
  | nil => exact absurd hm List.not_mem_nil
  | cons m' maps ih =>
    rw [List.pairwise_cons] at h
    rw [List.findSome?_cons]
    rcases List.mem_cons.mp hm with rfl | hm
    · rw [hself]
    · have hnone : m'.backing v = none := by
        apply if_neg
        rintro hv
        exact Set.disjoint_left.mp (h.1 m hm) hv ⟨hlo, hhi⟩
      rw [hnone]
      exact ih h.2 hm

theorem arena_le {size : Nat} (h : size ≤ 2 ^ 64) :
    alignUp 64 (size / 2) O1HEAP_ALIGNMENT + size / 2 ≤ pageAlign size := by
  have hup : alignUp 64 (size / 2) 32 = (size / 2 + 31) % 2 ^ 64 / 32 * 32 :=
    alignUp_two_pow (k := 5) (by norm_num) _
  rw [hup, pageAlign]
  omega

theorem pageAlign_add_le {phys size : Nat} (h : phys + size ≤ 2 ^ 64) :
    phys / PAGE_SIZE * PAGE_SIZE + pageAlign size ≤ 2 ^ 64 := by
  simp only [pageAlign, PAGE_SIZE]
  omega

theorem heroDevMalloc_eq (s : Process H) (l : Level) (sizeB : Nat) :
    heroDevMalloc s l sizeB =
      ((s.heap l).malloc sizeB).map fun (v, p, h) => (v, p, s.set l h) := by
  cases l <;> rfl

theorem heroDevMalloc_some {s s' : Process H} {l : Level} {sizeB v p : Nat}
    (hm : heroDevMalloc s l sizeB = some (v, p, s')) :
    ∃ i, (s.heap l).manager = some i ∧ (H.allocate i sizeB).1 = v ∧
      (v + 2 ^ 64 - (s.heap l).startVirt + (s.heap l).startPhy) % 2 ^ 64 = p ∧
      s.set l { s.heap l with manager := some (H.allocate i sizeB).2 } = s' := by
  rw [heroDevMalloc_eq, Heap.malloc, Option.map_map, Option.map_eq_some_iff] at hm
  obtain ⟨i, hi, heq⟩ := hm
  obtain ⟨rfl, rfl, rfl⟩ := by simpa only [Function.comp_apply, Prod.mk.injEq] using heq
  exact ⟨i, hi, rfl, rfl, rfl⟩

theorem malloc_right_iff {s s' : Process H} {l : Level} {sizeB v p : Nat} (h : ProcessInv s)
    (hm : heroDevMalloc s l sizeB = some (v, p, s')) (hv : v ≠ 0) :
    s.backing v = some p ↔ (s.heap l).AtHome := by
  obtain ⟨hheap, hapart⟩ := h
  have hh := hheap l
  obtain ⟨i, hi, rfl, rfl, -⟩ := heroDevMalloc_some hm
  obtain ⟨hlo, hhi⟩ := H.allocate_mem i sizeB hv
  generalize (H.allocate i sizeB).1 = v at hlo hhi ⊢
  rw [hh.base hi] at hlo hhi
  rw [hh.size hi] at hhi
  have hvalid := hh.valid (by rw [hi]; exact Option.some_ne_none i)
  have harena := arena_le (Nat.le_of_add_left_le hvalid.phys_le)
  have hpage := pageAlign_add_le hvalid.phys_le
  have hvirt := hvalid.virt_le
  have hlo' : (s.heap l).home.virt ≤ v := by omega
  have hlt : (s.heap l).home.phys / PAGE_SIZE * PAGE_SIZE + (v - (s.heap l).home.virt) <
      2 ^ 64 := by omega
  have hbacking := backing_of_mem (v := v) hapart
    (hh.mapped (by rw [hi]; exact Option.some_ne_none i)) hlo'
    (show v < (s.heap l).home.virt + pageAlign (s.heap l).home.size by omega)
  have hpfn : (s.heap l).home.remap.pfn = (s.heap l).home.phys / PAGE_SIZE :=
    shiftRight_page _
  -- what is stored is the address moved by the bases, what backs it is moved by the pages
  rw [hbacking, Option.some.injEq, hpfn]
  exact rebase_iff hh.virt_lt hlo' hlt

/-! ## Runs -/

theorem heapInv_mono {maps maps' : List Remap} {h : Heap H} (hh : HeapInv maps h)
    (hsub : maps ⊆ maps') : HeapInv maps' h :=
  { hh with mapped := fun hm => hsub (hh.mapped hm) }

theorem heapInv_open {maps : List Remap} {h : Heap H} {r : Region} (hh : HeapInv maps h)
    (hr : r.Valid) (hmem : r.remap ∈ maps) : HeapInv maps ((h.place r).init r).2 := by
  have hlt (x : Nat) : x % 2 ^ 64 < 2 ^ 64 := Nat.mod_lt _ (Nat.two_pow_pos 64)
  have hplaced : HeapInv maps (h.place r) :=
    ⟨hlt _, hlt _, hh.base, hh.size, hh.valid, hh.mapped⟩
  unfold Heap.init
  cases hm : (h.place r).manager with
  | some i => exact hplaced
  | none =>
    simp only
    split_ifs with h0
    · exact hplaced
    · cases hi : H.init (h.place r).startVirt (h.place r).size with
      | none => exact hplaced
      | some i =>
        obtain ⟨hbase, hsize⟩ := H.arena_init hi
        have hstart : (h.place r).startVirt =
            r.virt + alignUp 64 (r.size / 2) O1HEAP_ALIGNMENT := by
          have := arena_le (Nat.le_of_add_left_le hr.phys_le)
          have := hr.virt_le
          have hpos : 0 < r.size / 2 := Nat.pos_of_ne_zero fun hz => h0 (.inr hz)
          exact Nat.mod_eq_of_lt (by omega)
        refine ⟨hplaced.virt_lt, hplaced.phy_lt, ?_, ?_, fun _ => hr, fun _ => hmem⟩
        · rintro j hj
          obtain rfl := Option.some.inj hj
          exact hbase.trans hstart
        · rintro j hj
          obtain rfl := Option.some.inj hj
          exact hsize

theorem heapInv_set {s : Process H} {l : Level} {h : Heap H} (hs : ProcessInv s)
    (hh : HeapInv s.maps h) : ProcessInv (s.set l h) := by
  refine ⟨fun l' => ?_, hs.apart⟩
  by_cases hl : l' = l
  · subst hl
    show HeapInv s.maps (Function.update s.heap l' h l')
    rw [Function.update_self]
    exact hh
  · show HeapInv s.maps (Function.update s.heap l h l')
    rw [Function.update_of_ne hl]
    exact hs.heap l'

theorem processInv_open {s : Process H} {l : Level} {r : Region} (hs : ProcessInv s)
    (hr : r.Valid) (hmem : r.remap ∈ s.maps) : ProcessInv (s.openHeap l r).2 :=
  heapInv_set hs (heapInv_open (hs.heap l) hr hmem)

theorem processInv_mmap {s : Process H} {others : List Remap} {mems : Option (Region × Region)}
    (hs : ProcessInv s) (hapart : (heroDevMmap s others mems).2.maps.Pairwise AreasApart)
    (hv : ∀ l2 l3, mems = some (l2, l3) → l2.Valid ∧ l3.Valid) :
    ProcessInv (heroDevMmap s others mems).2 := by
  cases mems with
  | none => exact ⟨fun l => heapInv_mono (hs.heap l) (List.subset_append_left _ _), hapart⟩
  | some mems =>
    obtain ⟨l2, l3⟩ := mems
    obtain ⟨h2, h3⟩ := hv l2 l3 rfl
    unfold heroDevMmap at hapart ⊢
    simp only at hapart ⊢
    have hmapped : ProcessInv { s with maps := s.maps ++ (others ++ [l2.remap, l3.remap]) } := by
      refine ⟨fun l => heapInv_mono (hs.heap l) (List.subset_append_left _ _), ?_⟩
      split_ifs at hapart <;> exact hapart
    have hopen := processInv_open (l := .l2) hmapped h2 (by simp)
    split_ifs
    · exact hopen
    · exact processInv_open hopen h3 (by simp [Process.openHeap, Process.set])

theorem heapInv_manager {maps : List Remap} {h : Heap H} {i j : H.Instance}
    (hh : HeapInv maps h) (hi : h.manager = some i)
    (hj : H.base j = H.base i ∧ H.size j = H.size i) :
    HeapInv maps { h with manager := some j } := by
  have hne : h.manager ≠ none := by
    rw [hi]
    exact Option.some_ne_none i
  refine ⟨hh.virt_lt, hh.phy_lt, ?_, ?_, fun _ => hh.valid hne, fun _ => hh.mapped hne⟩
  · rintro k hk
    obtain rfl := Option.some.inj hk
    exact hj.1.trans (hh.base hi)
  · rintro k hk
    obtain rfl := Option.some.inj hk
    exact hj.2.trans (hh.size hi)

theorem processInv_malloc {s s' : Process H} {l : Level} {sizeB v p : Nat} (hs : ProcessInv s)
    (hm : heroDevMalloc s l sizeB = some (v, p, s')) : ProcessInv s' := by
  obtain ⟨i, hi, -, -, rfl⟩ := heroDevMalloc_some hm
  exact heapInv_set hs (heapInv_manager (hs.heap l) hi (H.arena_allocate i sizeB))

theorem heroDevFree_eq (s : Process H) (l : Level) (vAddr : Nat) :
    heroDevFree s l vAddr = ((s.heap l).free vAddr).map (s.set l) := by
  cases l <;> rfl

theorem processInv_free {s s' : Process H} {l : Level} {v : Nat} (hs : ProcessInv s)
    (hf : heroDevFree s l v = some s') : ProcessInv s' := by
  rw [heroDevFree_eq, Heap.free, Option.map_map, Option.map_eq_some_iff] at hf
  obtain ⟨i, hi, rfl⟩ := hf
  exact heapInv_set hs (heapInv_manager (hs.heap l) hi (H.arena_free i v))

theorem processInv_munmap {s s' : Process H} {freed : List Nat} (hs : ProcessInv s)
    (hf : heroDevMunmap s freed = some s') : ProcessInv s' := by
  induction freed generalizing s with
  | nil =>
    obtain rfl := Option.some.inj hf
    exact hs
  | cons v vs ih =>
    obtain ⟨t, ht, hf⟩ := Option.bind_eq_some_iff.mp hf
    exact ih (processInv_free (l := .l2) hs ht) hf

theorem processInv_step {s s' : Process H} {c : ApiCall} (hs : ProcessInv s)
    (h : (process H).step s c s') : ProcessInv s' := by
  cases c with
  | mmap others mems =>
    obtain ⟨rfl, hapart, hv⟩ := h
    exact processInv_mmap hs hapart hv
  | munmap freed => exact processInv_munmap hs h
  | malloc l sizeB =>
    obtain ⟨v, p, hm⟩ := h
    exact processInv_malloc hs hm
  | free l v => exact processInv_free hs h

theorem processInv_start : ProcessInv (Process.start : Process H) :=
  ⟨fun _ => ⟨by norm_num [Process.start], by norm_num [Process.start], fun h => (nomatch h),
    fun h => (nomatch h), fun h => absurd rfl h, fun h => absurd rfl h⟩, .nil⟩

/-! ## When the bases stay at home -/

/-- Placing the heap on `r` does not move an existing manager's bases apart; a manager
still to be created is on a page boundary. -/
def Heap.Keeps (h : Heap H) (r : Region) : Prop :=
  if h.manager.isSome then
    (h.startPhy + r.virt) % 2 ^ 64 = (h.startVirt + r.phys) % 2 ^ 64
  else PAGE_SIZE ∣ r.phys

def OpenKeeps (s : Process H) : ApiCall → Prop
  | .mmap _ (some (l2, l3)) => (s.heap .l2).Keeps l2 ∧ (s.heap .l3).Keeps l3
  | _ => True

def Heap.Sound (h : Heap H) : Prop := h.manager.isSome → h.AtHome

theorem sound_open {h : Heap H} {r : Region} (hh : h.Sound) (hk : h.Keeps r) :
    ((h.place r).init r).2.Sound := by
  unfold Heap.Keeps at hk
  unfold Heap.init
  cases hm : h.manager with
  | some i =>
    -- the manager keeps its home, so the bases must have moved together
    have hhome : h.AtHome := hh (by rw [hm]; rfl)
    rw [hm, Option.isSome_some, if_pos rfl] at hk
    intro _
    have hplace : (h.place r).manager = some i := hm
    rw [hplace]
    unfold Heap.AtHome Heap.place at *
    simp only at *
    omega
  | none =>
    rw [hm, Option.isSome_none, if_neg Bool.false_ne_true] at hk
    have hplace : (h.place r).manager = none := hm
    rw [hplace]
    simp only
    split_ifs
    · exact fun hsome => absurd hsome (by rw [hplace]; exact Bool.false_ne_true)
    · cases H.init (h.place r).startVirt (h.place r).size with
      | none => exact fun hsome => absurd hsome (by rw [hplace]; exact Bool.false_ne_true)
      | some i =>
        -- the home is the region just placed, which begins at a page
        intro _
        unfold Heap.AtHome Heap.place
        rw [Nat.div_mul_cancel hk]
        simp only
        omega

theorem sound_set {s : Process H} {l : Level} {h : Heap H} (hs : ∀ l, (s.heap l).Sound)
    (hh : h.Sound) : ∀ l', ((s.set l h).heap l').Sound := by
  intro l'
  unfold Process.set
  by_cases hl : l' = l
  · subst hl
    simpa only [Function.update_self] using hh
  · simpa only [Function.update_of_ne hl] using hs l'

theorem sound_free {s s' : Process H} {l : Level} {v : Nat} (hs : ∀ l, (s.heap l).Sound)
    (hf : heroDevFree s l v = some s') : ∀ l', (s'.heap l').Sound := by
  rw [heroDevFree_eq, Heap.free, Option.map_map, Option.map_eq_some_iff] at hf
  obtain ⟨i, hi, rfl⟩ := hf
  exact sound_set hs fun _ => hs l (by rw [hi]; rfl)

theorem sound_step {s s' : Process H} {c : ApiCall} (hs : ∀ l, (s.heap l).Sound)
    (hk : OpenKeeps s c) (h : (process H).step s c s') : ∀ l, (s'.heap l).Sound := by
  cases c with
  | mmap others mems =>
    obtain ⟨rfl, -, -⟩ := h
    cases mems with
    | none => exact hs
    | some mems =>
      obtain ⟨l2, l3⟩ := mems
      have hopen := sound_set (l := .l2) hs (sound_open (hs .l2) hk.1)
      unfold heroDevMmap Process.openHeap
      simp only
      split_ifs
      · exact hopen
      · exact sound_set hopen (sound_open (hs .l3) hk.2)
  | munmap freed =>
    have hf : heroDevMunmap s freed = some s' := h
    clear h hk
    induction freed generalizing s with
    | nil =>
      obtain rfl := Option.some.inj hf
      exact hs
    | cons v vs ih =>
      obtain ⟨t, ht, hf⟩ := Option.bind_eq_some_iff.mp hf
      exact ih (sound_free (l := .l2) hs ht) hf
  | malloc l sizeB =>
    obtain ⟨v, p, hm⟩ := h
    obtain ⟨i, hi, -, -, rfl⟩ := heroDevMalloc_some hm
    exact sound_set hs fun _ => hs l (by rw [hi]; rfl)
  | free l v => exact sound_free hs h

theorem at_home_of_opens {tr : List (Process H × ApiCall)} {s : Process H}
    (h : (process H).Run .start tr s) (hk : ∀ e ∈ tr, OpenKeeps e.1 e.2) (l : Level) :
    (s.heap l).Sound :=
  h.invariant_of_cond (I := fun s => ∀ l, (s.heap l).Sound) (fun _ hm => nomatch hm) sound_step
    hk l

/-! ## Allocations -/

theorem mallocs_right_iff {tr : List (Process H × ApiCall)} {s : Process H}
    (h : (process H).Run .start tr s) :
    (∀ e ∈ tr, MallocRight e.1 e.2) ↔ ∀ e ∈ tr, BasesKept e.1 e.2 := by
  refine forall₂_congr fun e he => ?_
  obtain ⟨tr', hr, -⟩ := h.exists_before he
  have hinv : ProcessInv e.1 := hr.invariant processInv_start processInv_step
  obtain ⟨u, c⟩ := e
  cases c with
  | malloc l sizeB =>
    refine forall_congr' fun v => forall_congr' fun p => forall_congr' fun u' => ?_
    exact forall₂_congr fun hm hv => malloc_right_iff hinv hm hv
  | mmap => exact Iff.rfl
  | munmap => exact Iff.rfl
  | free => exact Iff.rfl

theorem bases_kept_of_opens {tr : List (Process H × ApiCall)} {s : Process H}
    (h : (process H).Run .start tr s) (hk : ∀ e ∈ tr, OpenKeeps e.1 e.2) :
    ∀ e ∈ tr, BasesKept e.1 e.2 := by
  intro e he
  obtain ⟨tr', hr, hsub⟩ := h.exists_before he
  have hsound := at_home_of_opens hr fun q hq => hk q (hsub q hq)
  obtain ⟨u, c⟩ := e
  cases c with
  | malloc l sizeB =>
    intro v p u' hm _
    apply hsound l
    obtain ⟨i, hi, -⟩ := heroDevMalloc_some hm
    rw [hi]
    rfl
  | mmap => trivial
  | munmap => trivial
  | free => trivial

/-- The allocations of a run are right just when each finds the bases at home, and they do
when every open keeps the bases of a heap that has its manager. -/
theorem hero_dev_mallocs_right {tr : List (Process H × ApiCall)} {s : Process H}
    (h : (process H).Run .start tr s) :
    ((∀ e ∈ tr, MallocRight e.1 e.2) ↔ ∀ e ∈ tr, BasesKept e.1 e.2) ∧
      ((∀ e ∈ tr, OpenKeeps e.1 e.2) → ∀ e ∈ tr, MallocRight e.1 e.2) :=
  ⟨mallocs_right_iff h, fun hk => (mallocs_right_iff h).mpr (bases_kept_of_opens h hk)⟩

/-! ## Two processes -/

structure Bump where
  base : Nat
  size : Nat
  next : Nat
  base_le : base ≤ next

def bump : O1Heap where
  Instance := Bump
  init b n := if n < 0x400 then none else some ⟨b, n, b + 0x400, Nat.le_add_right _ _⟩
  allocate i n :=
    if i.next + n < i.base + i.size then
      (i.next, ⟨i.base, i.size, i.next + n, i.base_le.trans (Nat.le_add_right _ _)⟩)
    else (0, i)
  free i _ := i
  base := Bump.base
  size := Bump.size
  arena_init := by
    intro b n i h
    split_ifs at h
    obtain rfl := Option.some.inj h
    exact ⟨rfl, rfl⟩
  arena_allocate := by
    intro i n
    split_ifs <;> exact ⟨rfl, rfl⟩
  arena_free := fun _ _ => ⟨rfl, rfl⟩
  allocate_mem := by
    intro i n h
    split_ifs at h ⊢ with hroom
    · exact ⟨i.base_le, Nat.lt_of_le_of_lt (Nat.le_add_right _ _) hroom⟩
    · exact absurd rfl h

theorem areasApart_of_le {m m' : Remap} (h : m.addr + m.size ≤ m'.addr) : AreasApart m m' :=
  Set.disjoint_left.mpr fun _ ha hb => absurd (ha.2.trans_le h) (not_lt.mpr hb.1)

def memsAt (virt : Nat) : Region × Region :=
  (⟨virt, 0x78000000, 0x10000⟩, ⟨virt + 0x10000, 0x80000000, 0x10000⟩)

def opened (s : Process bump) (virt : Nat) : Process bump :=
  (heroDevMmap s [] (some (memsAt virt))).2

theorem open_step {s : Process bump} {virt : Nat} (hv : virt < 2 ^ 32)
    (h : (opened s virt).maps.Pairwise AreasApart) :
    (process bump).step s (.mmap [] (some (memsAt virt))) (opened s virt) := by
  refine ⟨rfl, h, ?_⟩
  rintro l2 l3 heq
  obtain ⟨rfl, rfl⟩ := Prod.mk.inj (Option.some.inj heq)
  have hle {x : Nat} (hx : x < 2 ^ 33) : x + pageAlign 0x10000 ≤ 2 ^ 64 := by
    have hpage : pageAlign 0x10000 = 0x10000 := rfl
    omega
  exact ⟨⟨hle (show virt < 2 ^ 33 by omega), by norm_num⟩,
    ⟨hle (show virt + 0x10000 < 2 ^ 33 by omega), by norm_num⟩⟩

theorem malloc_step {s s' : Process H} {l : Level} {sizeB v p : Nat}
    (h : heroDevMalloc s l sizeB = some (v, p, s')) :
    (process H).step s (.malloc l sizeB) s' := ⟨v, p, h⟩

theorem pairwise_apart {maps : List Remap}
    (h : maps.Pairwise fun m m' => m.addr + m.size ≤ m'.addr) : maps.Pairwise AreasApart :=
  h.imp areasApart_of_le

theorem opened_once_apart : (opened .start 0x10000000).maps.Pairwise AreasApart :=
  pairwise_apart (by decide)

theorem opened_once_keeps : OpenKeeps (H := bump) .start (.mmap [] (some (memsAt 0x10000000))) :=
  ⟨(if_neg Bool.false_ne_true).mpr ⟨0x78000, rfl⟩, (if_neg Bool.false_ne_true).mpr ⟨0x80000, rfl⟩⟩

theorem hero_dev_mallocs_right_once :
    ∃ tr s, (process bump).Run .start tr s ∧
      (∃ e ∈ tr, ∃ v p s', heroDevMalloc e.1 .l2 64 = some (v, p, s') ∧ v ≠ 0) ∧
      (∀ e ∈ tr, OpenKeeps e.1 e.2) ∧ ∀ e ∈ tr, MallocRight e.1 e.2 := by
  obtain ⟨p, t, hm⟩ : ∃ p t,
      heroDevMalloc (opened .start 0x10000000) .l2 64 = some (0x10008400, p, t) := ⟨_, _, rfl⟩
  have hrun := Lts.Run.nil.snoc (open_step (by norm_num) opened_once_apart)
    |>.snoc (malloc_step hm)
  have hkeeps : ∀ e ∈ [(Process.start, ApiCall.mmap [] (some (memsAt 0x10000000))),
      (opened .start 0x10000000, .malloc .l2 64)], OpenKeeps e.1 e.2 :=
    List.forall_mem_cons.mpr ⟨opened_once_keeps, List.forall_mem_singleton.mpr trivial⟩
  exact ⟨_, _, hrun, ⟨_, List.mem_cons_of_mem _ (List.mem_singleton_self _), _, _, _, hm,
    by norm_num⟩, hkeeps, (hero_dev_mallocs_right hrun).2 hkeeps⟩

theorem hero_dev_mallocs_not_right :
    ∃ tr s, (process bump).Run .start tr s ∧ ¬ ∀ e ∈ tr, MallocRight e.1 e.2 := by
  let t := opened (opened .start 0x10000000) 0x20000000
  have htwice : t.maps.Pairwise AreasApart := pairwise_apart (by decide)
  obtain ⟨p, t', hm, hne⟩ : ∃ p t', heroDevMalloc t .l2 64 = some (0x10008400, p, t') ∧
      t.backing 0x10008400 ≠ some p := ⟨_, _, rfl, by decide⟩
  have hrun := Lts.Run.nil.snoc (open_step (by norm_num) opened_once_apart)
    |>.snoc (open_step (by norm_num) htwice) |>.snoc (malloc_step hm)
  refine ⟨_, _, hrun, fun h => hne ?_⟩
  exact h _ (List.mem_append_right _ (List.mem_singleton_self _)) _ _ _ hm (by norm_num)

end HeroTools.Libhero
