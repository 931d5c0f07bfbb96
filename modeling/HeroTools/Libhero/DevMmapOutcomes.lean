import HeroTools.Libhero.DevMmap
import HeroTools.Libhero.HeapRuns

/-! What `hero_dev_mmap` reports of the calls that fail, and which values it uses. -/

namespace HeroTools.Libhero.DevMmap
open Driver

/-! ## Outcomes -/

def lookupOf (id : Nat) : Event → Option (Option (Nat × Nat))
  | ⟨.ioctlMemInfos _ mmapId, a⟩ => if mmapId = id then some a else none
  | _ => none

def lastLookup (tr : List Event) (id : Nat) : Option (Option (Nat × Nat)) :=
  tr.reverse.findSome? (lookupOf id)

/-- Every call has succeeded, the sizes and bases are what lookups have found, and the two lists
end after the memories that OpenMP is to have. -/
structure Done (b : BackEnd) (tr : List Event) (o : Opened) : Prop where
  ok : ∀ e ∈ tr, Ok e
  lengths : ∀ fd id len v, ⟨.mmap fd id len, v⟩ ∈ tr →
    ∃ phys, ⟨.ioctlMemInfos fd id, some (len, phys)⟩ ∈ tr
  mapped : ∀ id ∈ b.ids, ∃ fd len, ⟨.mmap fd id len, some (o.ptr id)⟩ ∈ tr
  localMems : ∃ size phys, lastLookup tr b.cluster = some (some (size, phys)) ∧
    o.localMems = some ⟨o.ptr b.cluster, phys, size, b.clusterAlias, 0⟩
  globalMems : ∃ size phys, lastLookup tr b.global = some (some (size, phys)) ∧
    o.globalMems = some ⟨o.ptr b.global, phys, size / 2, b.globalAlias, 0⟩
  l2Heap : ∃ l2, lastLookup tr b.l2 = some (some l2) ∧
    o.l2Heap = some ((memAt (o.ptr b.l2) l2).arena O1HEAP_ALIGNMENT)
  l3Heap : ∃ l3, lastLookup tr L3_MMAP_ID = some (some l3) ∧
    o.l3Heap = some ((memAt (o.ptr L3_MMAP_ID) l3).arena O1HEAP_ALIGNMENT)

structure Reported (b : BackEnd) (tr : List Event) (r : Int × Opened) : Prop where
  done : r.1 = 0 → Done b tr r.2
  failed : (∃ e ∈ tr, ¬ Ok e) → r.1 ≠ 0

/-- The list nodes have room for what the driver says of the two memories, and the size of the
cluster is the one that the back end takes it for. -/
structure Fits (b : BackEnd) (tr : List Event) : Prop where
  cluster : ∀ size phys, lastLookup tr b.cluster = some (some (size, phys)) →
    phys < 2 ^ 32 ∧ b.clusterSize size % 2 ^ 32 = size
  global : ∀ size phys, lastLookup tr b.global = some (some (size, phys)) →
    phys < 2 ^ 32 ∧ size / 2 < 2 ^ 32

/-- A call fails that is looked at, or none fails, the fresh node of `local_mems` happens to
end the list, and the nodes have room. -/
def Noticed (b : BackEnd) (tr : List Event) : Prop :=
  (∃ e ∈ tr, Checked e ∧ ¬ Ok e) ∨
    (∀ e ∈ tr, Ok e) ∧ (∀ d, ⟨.malloc .localMemsTail, some d⟩ ∈ tr → d.next = 0) ∧ Fits b tr

/-! ## What the code does -/

/-- A lookup was made, and `chunk` is what the last one found, or anything if it failed. -/
def Sought (tr : List Event) (id : Nat) (chunk : Nat × Nat) : Prop :=
  ∃ a u, lastLookup tr id = some a ∧ chunk = Option.getD a u

def Lengths (tr : List Event) : Prop := ∀ fd id len v, ⟨.mmap fd id len, v⟩ ∈ tr →
  ∃ a, ⟨.ioctlMemInfos fd id, a⟩ ∈ tr ∧ (Option.getD a (0, 0)).1 = len

structure Filled (b : BackEnd) (tr : List Event) (o : Opened) : Prop where
  lengths : Lengths tr
  mapped : ∀ id ∈ b.ids, ∃ fd len, ⟨.mmap fd id len, some (o.ptr id)⟩ ∈ tr
  localMems : ∃ chunk d, Sought tr b.cluster chunk ∧
    o.localMems = some ⟨o.ptr b.cluster, 0xFFFFFFFF &&& chunk.2,
      b.clusterSize chunk.1 % 2 ^ 32, b.clusterAlias, SubDev.next d⟩ ∧
    ∀ d', ⟨.malloc .localMemsTail, some d'⟩ ∈ tr ↔ d' = d
  globalMems : ∃ chunk, Sought tr b.global chunk ∧
    o.globalMems = some ⟨o.ptr b.global, 0xFFFFFFFF &&& chunk.2, chunk.1 / 2 % 2 ^ 32,
      b.globalAlias, 0⟩
  l2Heap : ∃ chunk, Sought tr b.l2 chunk ∧
    o.l2Heap = some ((memAt (o.ptr b.l2) chunk).arena O1HEAP_ALIGNMENT)
  l3Heap : ∃ chunk, Sought tr L3_MMAP_ID chunk ∧
    o.l3Heap = some ((memAt (o.ptr L3_MMAP_ID) chunk).arena O1HEAP_ALIGNMENT)

structure MmapSpec (b : BackEnd) (tr : List Event) (r : Int × Opened) : Prop where
  passed : r.1 = 0 → (∀ e ∈ tr, Checked e → Ok e) ∧ Filled b tr r.2
  refused : r.1 ≠ 0 → (∃ e ∈ tr, Checked e ∧ ¬ Ok e) ∨
    ∃ deviceFd, tr = [⟨.openDev, deviceFd⟩] ∧ 0 ≤ deviceFd

theorem lastLookup_mem {tr : List Event} {id : Nat} {a : Option (Nat × Nat)}
    (h : lastLookup tr id = some a) : ∃ fd, ⟨.ioctlMemInfos fd id, a⟩ ∈ tr := by
  obtain ⟨e, he, hlookup⟩ := List.exists_of_findSome?_eq_some h
  have he := List.mem_reverse.mp he
  unfold lookupOf at hlookup
  split at hlookup
  · next fd mmapId a' =>
    obtain ⟨rfl, heq⟩ := Option.ite_none_right_eq_some.mp hlookup
    obtain rfl := Option.some.inj heq
    exact ⟨_, he⟩
  · cases hlookup

theorem Sought.found {tr : List Event} {id : Nat} {chunk : Nat × Nat} (h : Sought tr id chunk)
    (hok : ∀ e ∈ tr, Ok e) : lastLookup tr id = some (some chunk) := by
  obtain ⟨a, u, hlast, rfl⟩ := h
  obtain ⟨fd, hmem⟩ := lastLookup_mem hlast
  obtain ⟨c, rfl⟩ := Option.isSome_iff_exists.mp (hok _ hmem)
  exact hlast

theorem and_all_ones (phys : Nat) : 0xFFFFFFFF &&& phys = phys % 2 ^ 32 := by
  rw [Nat.and_comm]
  exact Nat.and_two_pow_sub_one_eq_mod phys 32

theorem node_eq_iff {v phys size size' next : Nat} {alias_ : String} :
    (⟨v, 0xFFFFFFFF &&& phys, size' % 2 ^ 32, alias_, next⟩ : SubDev) =
      ⟨v, phys, size, alias_, 0⟩ ↔ phys < 2 ^ 32 ∧ size' % 2 ^ 32 = size ∧ next = 0 := by
  rw [and_all_ones]
  simp only [SubDev.mk.injEq, true_and]
  omega

theorem Filled.done_iff {b : BackEnd} {tr : List Event} {o : Opened} (h : Filled b tr o)
    (hok : ∀ e ∈ tr, Ok e) : Done b tr o ↔
      (∀ d, ⟨.malloc .localMemsTail, some d⟩ ∈ tr → SubDev.next d = 0) ∧ Fits b tr := by
  obtain ⟨⟨size, phys⟩, d, hc, hlocal, hd⟩ := h.localMems
  obtain ⟨⟨size', phys'⟩, hg, hglobal⟩ := h.globalMems
  obtain ⟨l2, hl2, hheap2⟩ := h.l2Heap
  obtain ⟨l3, hl3, hheap3⟩ := h.l3Heap
  have hc := hc.found hok
  have hg := hg.found hok
  have hnode : (∀ d, ⟨.malloc .localMemsTail, some d⟩ ∈ tr → SubDev.next d = 0) ↔ d.next = 0 :=
    ⟨fun h => h d ((hd d).mpr rfl), fun h d' hd' => (hd d').mp hd' ▸ h⟩
  rw [hnode]
  constructor
  · intro hdone
    obtain ⟨s, p, hlast, hend⟩ := hdone.localMems
    obtain ⟨s', p', hlast', hend'⟩ := hdone.globalMems
    cases hc.symm.trans hlast
    cases hg.symm.trans hlast'
    obtain ⟨hphys, hsize, hnext⟩ := node_eq_iff.mp (Option.some.inj (hlocal.symm.trans hend))
    obtain ⟨hphys', hsize', -⟩ := node_eq_iff.mp (Option.some.inj (hglobal.symm.trans hend'))
    refine ⟨hnext, fun s p hl => ?_, fun s p hl => ?_⟩
    · cases hc.symm.trans hl
      exact ⟨hphys, hsize⟩
    · cases hg.symm.trans hl
      exact ⟨hphys', hsize' ▸ Nat.mod_lt _ (Nat.two_pow_pos 32)⟩
  · rintro ⟨hnext, hfits⟩
    obtain ⟨hphys, hsize⟩ := hfits.cluster _ _ hc
    obtain ⟨hphys', hsize'⟩ := hfits.global _ _ hg
    refine ⟨hok, fun fd id len v hmap => ?_, h.mapped, ⟨size, phys, hc, ?_⟩,
      ⟨size', phys', hg, ?_⟩, ⟨l2, hl2.found hok, hheap2⟩, ⟨l3, hl3.found hok, hheap3⟩⟩
    · obtain ⟨a, ha, rfl⟩ := h.lengths fd id len v hmap
      obtain ⟨chunk, rfl⟩ := Option.isSome_iff_exists.mp (hok _ ha)
      exact ⟨chunk.2, ha⟩
    · exact hlocal.trans (congrArg some (node_eq_iff.mpr ⟨hphys, hsize, hnext⟩))
    · exact hglobal.trans (congrArg some (node_eq_iff.mpr ⟨hphys', Nat.mod_eq_of_lt hsize', rfl⟩))

/-- What follows from the description of the code: failures are noticed but for lookups that
are made again, the end of the first list and what has no room in the nodes. -/
theorem MmapSpec.reported_iff {b : BackEnd} {tr : List Event} {r : Int × Opened}
    (h : MmapSpec b tr r) : Reported b tr r ↔ Noticed b tr := by
  constructor
  · intro hr
    by_cases hret : r.1 = 0
    · obtain ⟨-, hfilled⟩ := h.passed hret
      have hdone := hr.done hret
      exact .inr ⟨hdone.ok, (hfilled.done_iff hdone.ok).mp hdone⟩
    · rcases h.refused hret with hfailed | ⟨fd, rfl, hfd⟩
      · exact .inl hfailed
      · refine .inr ⟨fun e he => ?_, fun d hd => ?_, nofun, nofun⟩
        · rw [List.mem_singleton.mp he]
          exact hfd
        · cases List.mem_singleton.mp hd
  · rintro (⟨e, he, hchecked, hfailed⟩ | ⟨hok, hends⟩)
    · have hret : r.1 ≠ 0 := fun hret => hfailed ((h.passed hret).1 e he hchecked)
      exact ⟨fun hz => absurd hz hret, fun _ => hret⟩
    · refine ⟨fun hret => ((h.passed hret).2.done_iff hok).mpr hends, ?_⟩
      rintro ⟨e, he, hfailed⟩
      exact absurd (hok e he) hfailed

/-! ## Lookups -/

theorem driverLookupMem_wp (deviceFd : Int) (mmapId : Nat) (u : Nat × Nat) :
    (driverLookupMem deviceFd mmapId u).wp Valid fun tr r =>
      ∃ a, tr = [⟨.ioctlMemInfos deviceFd mmapId, a⟩] ∧ r.2 = Option.getD a u := by
  refine Prog.wp_ask fun a _ => ?_
  cases a with
  | none => exact ⟨none, rfl, rfl⟩
  | some chunk => exact ⟨some chunk, rfl, rfl⟩

theorem driverLookupMmap_wp (deviceFd : Int) (mmapId : Nat) :
    (driverLookupMmap deviceFd mmapId).wp Valid fun tr r =>
      ∃ a m, tr = [⟨.ioctlMemInfos deviceFd mmapId, a⟩,
          ⟨.mmap deviceFd mmapId (Option.getD a (0, 0)).1, m⟩] ∧
        r = (if Option.isSome m then 0 else - EIO, Option.getD m 0) ∧
        (deviceFd < 0 → m = none) := by
  refine Prog.wp_bind (Prog.wp_mono (driverLookupMem_wp _ _ _) ?_)
  rintro _ ⟨err, chunk⟩ ⟨a, rfl, rfl⟩
  refine Prog.wp_ask fun m hm => ?_
  cases m with
  | none => exact ⟨a, none, rfl, rfl, fun _ => rfl⟩
  | some res => exact ⟨a, some res, rfl, rfl, fun hfd => hm (.inl hfd)⟩

structure Looked (deviceFd : Int) (ids : List Nat) (tr : List Event) (ptr : Nat → Nat) :
    Prop where
  fd_nonneg : ids ≠ [] → 0 ≤ deviceFd
  ok : ∀ e ∈ tr, Checked e → Ok e
  lengths : Lengths tr
  mapped : ∀ id ∈ ids, ∃ len, ⟨.mmap deviceFd id len, some (ptr id)⟩ ∈ tr

def NoMalloc (tr : List Event) : Prop := ∀ t d, ⟨.malloc t, d⟩ ∉ tr

theorem Lengths.append {tr tr' : List Event} (h : Lengths tr) (h' : Lengths tr') :
    Lengths (tr ++ tr') := by
  intro fd id len v hmem
  rcases List.mem_append.mp hmem with hmem | hmem
  · obtain ⟨a, ha, hlen⟩ := h fd id len v hmem
    exact ⟨a, List.mem_append_left _ ha, hlen⟩
  · obtain ⟨a, ha, hlen⟩ := h' fd id len v hmem
    exact ⟨a, List.mem_append_right _ ha, hlen⟩

section
variable {deviceFd : Int} {id : Nat} {a : Option (Nat × Nat)} {m : Option Nat}

def lookedUp (deviceFd : Int) (id : Nat) (a : Option (Nat × Nat)) (m : Option Nat) :
    List Event :=
  [⟨.ioctlMemInfos deviceFd id, a⟩, ⟨.mmap deviceFd id (a.getD (0, 0)).1, m⟩]

theorem lengths_lookedUp : Lengths (lookedUp deviceFd id a m) := by
  intro fd id' len v hmem
  rcases List.mem_cons.mp hmem with heq | hmem
  · cases heq
  · cases List.mem_singleton.mp hmem
    exact ⟨a, List.mem_cons_self, rfl⟩

theorem noMalloc_lookedUp : NoMalloc (lookedUp deviceFd id a m) := by
  intro t d hmem
  rcases List.mem_cons.mp hmem with heq | hmem
  · cases heq
  · cases List.mem_singleton.mp hmem

theorem checked_lookedUp (hm : m.isSome) : ∀ e ∈ lookedUp deviceFd id a m, Checked e → Ok e := by
  intro e he hc
  rcases List.mem_cons.mp he with rfl | he
  · exact hc.elim
  · rw [List.mem_singleton.mp he]
    exact hm

end

theorem looked_nil (deviceFd : Int) (ptr : Nat → Nat) : Looked deviceFd [] [] ptr where
  fd_nonneg h := absurd rfl h
  ok _ he := absurd he List.not_mem_nil
  lengths _ _ _ _ he := absurd he List.not_mem_nil
  mapped _ hi := absurd hi List.not_mem_nil

theorem looked_cons {deviceFd : Int} {id : Nat} {ids : List Nat} {a : Option (Nat × Nat)}
    {res : Nat} {tr : List Event} {ptr : Nat → Nat} (hfd : 0 ≤ deviceFd)
    (h : Looked deviceFd ids tr ptr) (hid : id ∉ ids → ptr id = res) :
    Looked deviceFd (id :: ids) (lookedUp deviceFd id a (some res) ++ tr) ptr := by
  refine ⟨fun _ => hfd, fun e he => ?_, lengths_lookedUp.append h.lengths, fun i hi => ?_⟩
  · rcases List.mem_append.mp he with he | he
    · exact checked_lookedUp rfl e he
    · exact h.ok e he
  · by_cases hmem : i ∈ ids
    · obtain ⟨len, hlen⟩ := h.mapped i hmem
      exact ⟨len, List.mem_append_right _ hlen⟩
    · obtain rfl : i = id := (List.mem_cons.mp hi).resolve_right hmem
      rw [hid hmem]
      exact ⟨_, List.mem_append_left _ (List.mem_cons_of_mem _ (List.mem_singleton_self _))⟩

theorem NoMalloc.append {tr tr' : List Event} (h : NoMalloc tr) (h' : NoMalloc tr') :
    NoMalloc (tr ++ tr') := by
  intro t d hmem
  rcases List.mem_append.mp hmem with hmem | hmem
  · exact h t d hmem
  · exact h' t d hmem

theorem mmap_mem {deviceFd : Int} {id : Nat} {a : Option (Nat × Nat)} {m : Option Nat}
    (tr : List Event) : ⟨.mmap deviceFd id (a.getD (0, 0)).1, m⟩ ∈
      lookedUp deviceFd id a m ++ tr :=
  List.mem_append_left _ (List.mem_cons_of_mem _ (List.mem_singleton_self _))

theorem lookupMmaps_wp (deviceFd : Int) (ids : List Nat) (ptr : Nat → Nat) :
    (lookupMmaps deviceFd ids ptr).wp Valid fun tr r => NoMalloc tr ∧
      match r with
      | none => ∃ e ∈ tr, Checked e ∧ ¬ Ok e
      | some ptr' => Looked deviceFd ids tr ptr' ∧ ∀ i, i ∉ ids → ptr' i = ptr i := by
  induction ids generalizing ptr with
  | nil =>
    exact Prog.wp_pure ⟨fun _ _ => List.not_mem_nil, looked_nil deviceFd ptr, fun _ _ => rfl⟩
  | cons id ids ih =>
    refine Prog.wp_bind (Prog.wp_mono (driverLookupMmap_wp _ _) ?_)
    rintro _ _ ⟨a, m, rfl, rfl, hfd⟩
    cases m with
    | none =>
      refine Prog.wp_pure ⟨noMalloc_lookedUp.append fun _ _ => List.not_mem_nil, ?_⟩
      exact ⟨_, mmap_mem [], trivial, nofun⟩
    | some res =>
      refine Prog.wp_mono (ih (Function.update ptr id res)) ?_
      rintro tr r ⟨hno, hr⟩
      refine ⟨noMalloc_lookedUp.append hno, ?_⟩
      cases r with
      | none =>
        obtain ⟨e, he, hfailed⟩ := hr
        exact ⟨e, List.mem_append_right _ he, hfailed⟩
      | some ptr' =>
        obtain ⟨hlooked, hptr⟩ := hr
        refine ⟨looked_cons (not_lt.mp fun h => nomatch hfd h) hlooked fun hid => ?_,
          fun i hi => ?_⟩
        · rw [hptr id hid, Function.update_self]
        · rw [hptr i (List.not_mem_of_not_mem_cons hi),
            Function.update_of_ne (List.ne_of_not_mem_cons hi)]

theorem intOr_eq_zero {a b : Int} (ha : a = 0 ∨ a = - EIO) (hb : b = 0 ∨ b = - EIO) :
    (intOr a b = 0 ∨ intOr a b = - EIO) ∧ (intOr a b = 0 ↔ a = 0 ∧ b = 0) := by
  rcases ha with rfl | rfl <;> rcases hb with rfl | rfl <;> decide

theorem orLookupMmaps_wp (deviceFd : Int) (ids : List Nat) {err : Int} (ptr : Nat → Nat)
    (herr : err = 0 ∨ err = - EIO) :
    (orLookupMmaps deviceFd ids err ptr).wp Valid fun tr r => NoMalloc tr ∧
      (r.1 = 0 → err = 0 ∧ Looked deviceFd ids tr r.2 ∧ ∀ i, i ∉ ids → r.2 i = ptr i) ∧
      (r.1 ≠ 0 → err ≠ 0 ∨ ∃ e ∈ tr, Checked e ∧ ¬ Ok e) := by
  induction ids generalizing err ptr with
  | nil =>
    exact Prog.wp_pure ⟨fun _ _ => List.not_mem_nil, fun hz =>
      ⟨hz, looked_nil deviceFd ptr, fun _ _ => rfl⟩, .inl⟩
  | cons id ids ih =>
    refine Prog.wp_bind (Prog.wp_mono (driverLookupMmap_wp _ _) ?_)
    rintro _ _ ⟨a, m, rfl, rfl, hfd⟩
    have he : (if m.isSome then 0 else - EIO) = 0 ∨ (if m.isSome then 0 else - EIO) = - EIO := by
      split_ifs
      · exact .inl rfl
      · exact .inr rfl
    obtain ⟨hor, hzero⟩ := intOr_eq_zero herr he
    refine Prog.wp_mono (ih (Function.update ptr id (m.getD 0)) hor) ?_
    rintro tr ⟨err', ptr'⟩ ⟨hno, hdone, hfailed⟩
    refine ⟨noMalloc_lookedUp.append hno, fun hz => ?_, fun hne => ?_⟩
    · obtain ⟨hz, hlooked, hptr⟩ := hdone hz
      obtain ⟨herr, hm⟩ := hzero.mp hz
      cases m with
      | none => exact absurd hm (by decide)
      | some res =>
        refine ⟨herr, looked_cons (not_lt.mp fun h => nomatch hfd h) hlooked fun hid => ?_,
          fun i hi => ?_⟩
        · rw [hptr id hid, Function.update_self]
          rfl
        · rw [hptr i (List.not_mem_of_not_mem_cons hi),
            Function.update_of_ne (List.ne_of_not_mem_cons hi)]
    · rcases hfailed hne with hor | ⟨e, he, hfailed⟩
      · cases m with
        | none => exact .inr ⟨_, mmap_mem tr, trivial, nofun⟩
        | some res => exact .inl fun herr => hor (hzero.mpr ⟨herr, rfl⟩)
      · exact .inr ⟨e, List.mem_append_right _ he, hfailed⟩

/-! ## The three functions -/

section
variable {b : BackEnd} {u : Uninit} {tr tl : List Event} {r : Int × Opened}

theorem MmapSpec.of_failed {e : Event} (hret : r.1 ≠ 0) (he : e ∈ tr) (hchecked : Checked e)
    (hfailed : ¬ Ok e) : MmapSpec b tr r :=
  ⟨fun hz => absurd hz hret, fun _ => .inl ⟨e, he, hchecked, hfailed⟩⟩

/-- The calls after the mappings: the memories are looked up again, one node is for
`local_mems`, and nothing else is mapped. -/
structure Rest (b : BackEnd) (tl : List Event) (o : Opened) : Prop where
  ok : ∀ e ∈ tl, Checked e → Ok e
  no_mmap : ∀ fd id len v, ⟨.mmap fd id len, v⟩ ∉ tl
  localMems : ∃ chunk d, Sought tl b.cluster chunk ∧
    o.localMems = some ⟨o.ptr b.cluster, 0xFFFFFFFF &&& chunk.2,
      b.clusterSize chunk.1 % 2 ^ 32, b.clusterAlias, SubDev.next d⟩ ∧
    ∀ d', ⟨.malloc .localMemsTail, some d'⟩ ∈ tl ↔ d' = d
  globalMems : ∃ chunk, Sought tl b.global chunk ∧
    o.globalMems = some ⟨o.ptr b.global, 0xFFFFFFFF &&& chunk.2, chunk.1 / 2 % 2 ^ 32,
      b.globalAlias, 0⟩
  l2Heap : ∃ chunk, Sought tl b.l2 chunk ∧
    o.l2Heap = some ((memAt (o.ptr b.l2) chunk).arena O1HEAP_ALIGNMENT)
  l3Heap : ∃ chunk, Sought tl L3_MMAP_ID chunk ∧
    o.l3Heap = some ((memAt (o.ptr L3_MMAP_ID) chunk).arena O1HEAP_ALIGNMENT)

theorem Sought.append {id : Nat} {chunk : Nat × Nat} (h : Sought tl id chunk) (tr : List Event) :
    Sought (tr ++ tl) id chunk := by
  obtain ⟨a, u, hlast, hchunk⟩ := h
  refine ⟨a, u, ?_, hchunk⟩
  unfold lastLookup at hlast ⊢
  rw [List.reverse_append, List.findSome?_append, hlast, Option.some_or]

theorem MmapSpec.of_done {fd : Int} {o : Opened} (hids : b.ids ≠ [])
    (hlooked : Looked fd b.ids tr o.ptr) (hno : NoMalloc tr) (hrest : Rest b tl o) :
    MmapSpec b (⟨.openDev, fd⟩ :: (tr ++ tl)) (0, o) := by
  have hsub : ∀ e ∈ tl, e ∈ (⟨.openDev, fd⟩ : Event) :: (tr ++ tl) :=
    fun e he => List.mem_cons_of_mem _ (List.mem_append_right _ he)
  refine ⟨fun _ => ⟨fun e he hc => ?_, ?_⟩, fun hne => absurd rfl hne⟩
  · rcases List.mem_cons.mp he with rfl | he
    · exact hlooked.fd_nonneg hids
    · exact (List.mem_append.mp he).elim (fun he => hlooked.ok e he hc) fun he => hrest.ok e he hc
  · obtain ⟨c, d, hc, hlocal, hd⟩ := hrest.localMems
    obtain ⟨g, hg, hglobal⟩ := hrest.globalMems
    obtain ⟨l2, hl2, hheap2⟩ := hrest.l2Heap
    obtain ⟨l3, hl3, hheap3⟩ := hrest.l3Heap
    refine ⟨?_, fun id hid => ?_, ⟨c, d, hc.append (_ :: tr), hlocal, fun d' => ?_⟩,
      ⟨g, hg.append (_ :: tr), hglobal⟩, ⟨l2, hl2.append (_ :: tr), hheap2⟩,
      ⟨l3, hl3.append (_ :: tr), hheap3⟩⟩
    · intro fd' id len v hmem
      rcases List.mem_cons.mp hmem with heq | hmem
      · cases heq
      · have hmem := (List.mem_append.mp hmem).resolve_right (hrest.no_mmap fd' id len v)
        obtain ⟨a, ha, hlen⟩ := hlooked.lengths fd' id len v hmem
        exact ⟨a, List.mem_cons_of_mem _ (List.mem_append_left _ ha), hlen⟩
    · obtain ⟨len, hmem⟩ := hlooked.mapped id hid
      exact ⟨fd, len, List.mem_cons_of_mem _ (List.mem_append_left _ hmem)⟩
    · refine ⟨fun hmem => (hd d').mp ?_, fun heq => hsub _ ((hd d').mpr heq)⟩
      rcases List.mem_cons.mp hmem with heq | hmem
      · cases heq
      · exact (List.mem_append.mp hmem).resolve_left (hno _ _)

theorem minus_one_ne_zero : (-1 : Int) ≠ 0 := by decide

@[simp] theorem lookupOf_ioctl (id mmapId : Nat) (fd : Int)
    (a : Answer (.ioctlMemInfos fd mmapId)) :
    lookupOf id ⟨.ioctlMemInfos fd mmapId, a⟩ = if mmapId = id then some a else none := rfl

@[simp] theorem lookupOf_malloc (id : Nat) (t : Tail) (a : Answer (.malloc t)) :
    lookupOf id ⟨.malloc t, a⟩ = none := rfl

@[simp] theorem lookupOf_heapInit (id : Nat) (l : Level) (arena : Region)
    (a : Answer (.heapInit l arena)) : lookupOf id ⟨.heapInit l arena, a⟩ = none := rfl

structure BackEnd.Distinct (b : BackEnd) : Prop where
  cluster_l2 : b.cluster ≠ b.l2
  cluster_l3 : b.cluster ≠ L3_MMAP_ID
  l2_l3 : b.l2 ≠ L3_MMAP_ID

theorem carfieldHeroDevMmap_wp (b : BackEnd) (u : Uninit) (hids : b.ids ≠ [])
    (hb : b.Distinct) (hglobal : b.global = b.l2) :
    (carfieldHeroDevMmap b u).wp Valid (MmapSpec b) := by
  refine Prog.wp_ask fun fd _ => ?_
  refine Prog.wp_bind (Prog.wp_mono (lookupMmaps_wp fd b.ids _) ?_)
  rintro tr r ⟨hno, hr⟩
  cases r with
  | none =>
    -- the first lookup that fails is the last
    obtain ⟨e, he, hchecked, hfailed⟩ := hr
    exact .of_failed minus_one_ne_zero (List.mem_cons_of_mem _ (List.mem_append_left _ he))
      hchecked hfailed
  | some ptr =>
    obtain ⟨hlooked, -⟩ := hr
    refine Prog.wp_ask fun d _ => ?_
    refine Prog.wp_bind (Prog.wp_mono (driverLookupMem_wp _ _ _) ?_)
    rintro _ ⟨_, cluster⟩ ⟨c, rfl, rfl⟩
    cases d with
    | none =>
      exact .of_failed (e := ⟨.malloc .localMemsTail, none⟩) minus_one_ne_zero (by simp) trivial
        nofun
    | some d =>
      refine Prog.wp_bind (Prog.wp_mono (driverLookupMem_wp _ _ _) ?_)
      rintro _ ⟨_, l2⟩ ⟨a2, rfl, rfl⟩
      refine Prog.wp_ask fun d2 _ => ?_
      cases d2 with
      | none =>
        exact .of_failed (e := ⟨.malloc .l2MemsTail, none⟩) minus_one_ne_zero (by simp) trivial
          nofun
      | some d2 =>
        refine Prog.wp_ask fun err _ => ?_
        split_ifs with herr
        · exact .of_failed (e := ⟨.heapInit .l2 _, err⟩) herr (by simp) trivial herr
        · refine Prog.wp_bind (Prog.wp_mono (driverLookupMem_wp _ _ _) ?_)
          rintro _ ⟨_, l3⟩ ⟨a3, rfl, rfl⟩
          refine Prog.wp_ask fun err' _ => ?_
          by_cases herr' : err' = 0
          · subst herr'
            refine .of_done hids hlooked hno ⟨?_, ?_, ⟨_, d, ⟨c, u.cluster, ?_, rfl⟩, rfl, ?_⟩,
              ⟨_, ⟨a2, u.l2, ?_, rfl⟩, ?_⟩, ⟨_, ⟨a2, u.l2, ?_, rfl⟩, rfl⟩,
              ⟨_, ⟨a3, u.l3, ?_, rfl⟩, rfl⟩⟩
            · have herr : err = 0 := not_not.mp herr
              simp [Checked, Ok, herr]
            · simp
            · simp [lastLookup, List.findSome?_cons, hb.cluster_l2.symm, hb.cluster_l3.symm]
            · simp
            · simp [hglobal, lastLookup, List.findSome?_cons, hb.l2_l3.symm]
            · rw [hglobal]
              rfl
            · simp [lastLookup, List.findSome?_cons, hb.l2_l3.symm]
            · simp [lastLookup, List.findSome?_cons]
          · exact .of_failed (e := ⟨.heapInit .l3 _, err'⟩) herr' (by simp) trivial herr'

theorem occamyHeroDevMmap_wp (b : BackEnd) (u : Uninit) (hids : b.ids ≠ [])
    (hb : b.Distinct) (hglobal : b.global = L3_MMAP_ID) :
    (occamyHeroDevMmap b u).wp Valid (MmapSpec b) := by
  refine Prog.wp_ask fun fd _ => ?_
  split_ifs with hfd
  · refine Prog.wp_bind (Prog.wp_mono (orLookupMmaps_wp fd b.ids _ (.inl rfl)) ?_)
    rintro tr ⟨err, ptr⟩ ⟨hno, hdone, hfailed⟩
    simp only
    split_ifs with herr
    -- all lookups are made, and their results are joined by `or`
    · obtain ⟨e, he, hchecked, hbad⟩ := (hfailed herr).resolve_left fun h => h rfl
      exact .of_failed minus_one_ne_zero (List.mem_cons_of_mem _ (List.mem_append_left _ he))
        hchecked hbad
    · obtain ⟨-, hlooked, -⟩ := hdone (not_not.mp herr)
      refine Prog.wp_ask fun d _ => ?_
      refine Prog.wp_bind (Prog.wp_mono (driverLookupMem_wp _ _ _) ?_)
      rintro _ ⟨_, cluster⟩ ⟨c, rfl, rfl⟩
      cases d with
      | none =>
        exact .of_failed (e := ⟨.malloc .localMemsTail, none⟩) minus_one_ne_zero (by simp)
          trivial nofun
      | some d =>
        refine Prog.wp_bind (Prog.wp_mono (driverLookupMem_wp _ _ _) ?_)
        rintro _ ⟨_, l2⟩ ⟨a2, rfl, rfl⟩
        refine Prog.wp_ask fun err _ => ?_
        split_ifs with herr
        · exact .of_failed (e := ⟨.heapInit .l2 _, err⟩) herr (by simp) trivial herr
        · refine Prog.wp_bind (Prog.wp_mono (driverLookupMem_wp _ _ _) ?_)
          rintro _ ⟨_, l3⟩ ⟨a3, rfl, rfl⟩
          refine Prog.wp_ask fun err' _ => ?_
          split_ifs with herr'
          · exact .of_failed (e := ⟨.heapInit .l3 _, err'⟩) herr' (by simp) trivial herr'
          · refine Prog.wp_ask fun d3 _ => ?_
            cases d3 with
            | none =>
              exact .of_failed (e := ⟨.malloc .l2MemsTail, none⟩) minus_one_ne_zero (by simp)
                trivial nofun
            | some d3 =>
              obtain rfl : err = 0 := not_not.mp herr
              obtain rfl : err' = 0 := not_not.mp herr'
              refine .of_done hids hlooked hno ⟨?_, ?_,
                ⟨_, d, ⟨c, u.cluster, ?_, rfl⟩, rfl, ?_⟩, ⟨_, ⟨a3, u.l3, ?_, rfl⟩, ?_⟩,
                ⟨_, ⟨a2, u.l2, ?_, rfl⟩, rfl⟩, ⟨_, ⟨a3, u.l3, ?_, rfl⟩, rfl⟩⟩
              · simp [Checked, Ok]
              · simp
              · simp [lastLookup, List.findSome?_cons, hb.cluster_l2.symm, hb.cluster_l3.symm]
              · simp
              · simp [hglobal, lastLookup, List.findSome?_cons]
              · rw [hglobal]
                rfl
              · simp [lastLookup, List.findSome?_cons, hb.l2_l3.symm]
              · simp [lastLookup, List.findSome?_cons]
  · -- descriptor 0 is refused, though it is a good one
    refine ⟨fun hz => absurd hz minus_one_ne_zero, fun _ => ?_⟩
    rcases lt_or_ge fd 0 with hneg | hge
    · exact .inl ⟨_, List.mem_cons_self, trivial, not_le.mpr hneg⟩
    · exact .inr ⟨fd, rfl, hge⟩

end

theorem heroDevMmap_wp (t : Target) (u : Uninit) :
    (heroDevMmap t u).wp Valid (MmapSpec t.backEnd) := by
  cases t with
  | spatzCluster => exact carfieldHeroDevMmap_wp _ u nofun ⟨nofun, nofun, nofun⟩ rfl
  | safetyIsland => exact carfieldHeroDevMmap_wp _ u nofun ⟨nofun, nofun, nofun⟩ rfl
  | snitchCluster => exact occamyHeroDevMmap_wp _ u nofun ⟨nofun, nofun, nofun⟩ rfl

/-- Over every outcome of its calls, `hero_dev_mmap` reports them all just when a call that is
looked at fails, or none fails, the first list happens to end and the nodes have room. -/
theorem heroDevMmap_reported_iff {t : Target} {u : Uninit} {tr : List Event}
    {r : Int × Opened} (h : (heroDevMmap t u).Runs tr r) (hvalid : ∀ e ∈ tr, Valid e) :
    Reported t.backEnd tr r ↔ Noticed t.backEnd tr :=
  (Prog.wp_runs (heroDevMmap_wp t u) h hvalid).reported_iff

/-! ## A device where all goes well -/

def goodEnv (next : Nat) : ∀ c, Answer c
  | .openDev => (3 : Int)
  | .ioctlMemInfos fd _ => if fd < 0 then none else some (0x20000, 0x78000000)
  | .mmap fd id length => if fd < 0 ∨ length = 0 then none else some (0x10000000 * (id + 1))
  | .malloc _ => some ⟨next, next, next, "", next⟩
  | .heapInit _ _ => (0 : Int)

theorem goodEnv_valid (next : Nat) (c : Call) : Valid ⟨c, goodEnv next c⟩ := by
  cases c with
  | openDev => trivial
  | ioctlMemInfos fd id => exact fun hfd => if_pos hfd
  | mmap fd id length => exact fun h => if_pos h
  | malloc tail => trivial
  | heapInit l arena =>
    -- the manager is there already
    exact ⟨bump, ⟨some ⟨0, 0, 0, le_rfl⟩, arena.phys, arena.virt, arena.size, arena⟩, arena, rfl,
      rfl, rfl, rfl⟩

def goodRun (next : Nat) (t : Target) : List Event × Int × Opened :=
  (heroDevMmap t ⟨(0, 0), (0, 0), (0, 0)⟩).exec (goodEnv next)

theorem goodRun_runs (next : Nat) (t : Target) :
    (heroDevMmap t ⟨(0, 0), (0, 0), (0, 0)⟩).Runs (goodRun next t).1 (goodRun next t).2 :=
  Prog.exec_runs ..

theorem goodRun_valid (next : Nat) (t : Target) : ∀ e ∈ (goodRun next t).1, Valid e := by
  intro e he
  rw [Prog.exec_answer _ _ e he]
  exact goodEnv_valid next e.call

theorem goodRun_noticed : Noticed spatzCluster (goodRun 0 .spatzCluster).1 := by
  have hanswer : ∀ e ∈ (goodRun 0 .spatzCluster).1, e.answer = goodEnv 0 e.call := by
    rintro ⟨c, a⟩ he
    exact eq_of_heq (Answered.mk.inj (Prog.exec_answer _ _ _ he)).2
  have hfound {id size phys : Nat}
      (h : lastLookup (goodRun 0 .spatzCluster).1 id = some (some (size, phys))) :
      size = 0x20000 ∧ phys = 0x78000000 := by
    obtain ⟨fd, hmem⟩ := lastLookup_mem h
    obtain ⟨-, heq⟩ := Option.ite_none_left_eq_some.mp (hanswer _ hmem).symm
    exact ⟨(Prod.mk.inj (Option.some.inj heq)).1.symm, (Prod.mk.inj (Option.some.inj heq)).2.symm⟩
  refine .inr ⟨by decide, fun d hd => ?_, fun size phys h => ?_, fun size phys h => ?_⟩
  · exact congrArg SubDev.next (Option.some.inj (hanswer _ hd))
  · obtain ⟨rfl, rfl⟩ := hfound h
    decide
  · obtain ⟨rfl, rfl⟩ := hfound h
    decide

theorem heroDevMmap_reported_iff_good :
    Reported spatzCluster (goodRun 0 .spatzCluster).1 (goodRun 0 .spatzCluster).2 :=
  (heroDevMmap_reported_iff (goodRun_runs 0 .spatzCluster)
    (goodRun_valid 0 .spatzCluster)).mpr goodRun_noticed

theorem heroDevMmap_not_reported :
    ∃ tr r, (heroDevMmap .spatzCluster ⟨(0, 0), (0, 0), (0, 0)⟩).Runs tr r ∧
      (∀ e ∈ tr, Valid e) ∧ ¬ Reported spatzCluster tr r := by
  refine ⟨_, _, goodRun_runs 1 .spatzCluster, goodRun_valid 1 .spatzCluster, fun h => ?_⟩
  obtain ⟨size, phys, -, hlocal⟩ := (h.done rfl).localMems
  have hnext : ((goodRun 1 .spatzCluster).2.2.localMems.map SubDev.next) = some 1 := rfl
  rw [hlocal] at hnext
  cases hnext

end HeroTools.Libhero.DevMmap
