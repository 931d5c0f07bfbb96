import HeroTools.Driver.IommuAttach

/-! The I/O address ranges that a sequence of successful IOCTL_IOMMU_MAP requests hands
out, and the list that is kept of them. -/

namespace HeroTools.Driver

/-- What a successful request was given, and the placement of its user's pages. -/
structure Mapping where
  iova : Nat
  length : Nat
  userAddr : Nat
  page : Nat → Nat

structure MapRequest where
  env : Env
  arg : CardIoctlArg
  page : Nat → Nat

def Mapping.range (m : Mapping) : Set Nat := Set.Ico m.iova (m.iova + m.length)

def MapRequest.mapping (q : MapRequest) : Mapping where
  iova := iovaOf q.arg.resultVirtAddr
  length := q.arg.size
  userAddr := q.arg.resultVirtAddr
  page := q.page

/-- The kernel pins the user's pages from the first one on, or fails. A page that can be pinned is
not that of a null `struct page`. -/
structure MapRequest.Backed (q : MapRequest) : Prop where
  pins : ∀ fs, q.env.gup = .pages fs → ∃ k, fs = userFrames q.page q.arg.resultVirtAddr k
  null_ne : ∀ w, q.page w ≠ q.env.nullFrame

/-- Successful requests for whole pages; the mappings they were given are ghost. -/
def iommuMaps : Lts (State .carfield × List Mapping) MapRequest where
  step s q s' := PAGE_SIZE ∣ q.arg.resultVirtAddr ∧ PAGE_SIZE ∣ q.arg.size ∧ q.Backed ∧
    ∃ a, cardIoctl q.env (iowr 'C'.toNat 3) q.arg s.1 = .ret 0 (some a) s'.1 ∧
      s'.2 = s.2 ++ [⟨a.resultPhysAddr, q.arg.size, q.arg.resultVirtAddr, q.page⟩]

/-- Ranges apart and inside the window, every user's bytes behind its range, and one list
entry for each range. -/
structure RegionsOk (s : State .carfield × List Mapping) : Prop where
  apart : s.2.Pairwise fun m m' => Disjoint m.range m'.range
  window : ∀ m ∈ s.2, m.range ⊆ Set.Ico 0x80000000 0xC0000000
  mapped : ∀ m ∈ s.2, Maps s.1.iommuDomain m.iova m.length m.page m.userAddr
  listed : List.Forall₂ (fun r m => r.iova = m.iova ∧ r.length = m.length)
    s.1.iommuRegionList s.2

/-- The `i`-th page of the user has an I/O page of the same number. This is free, the user's page
was pinned, and `iommu_map` has the memory it needs; or it leads to the user's page already. -/
def PageOk (s : State .carfield × List Mapping) (q : MapRequest) (i : Nat) : Prop :=
  let p := q.arg.resultVirtAddr / PAGE_SIZE + i
  s.1.iommuDomain p = some (q.page p) ∨
    s.1.iommuDomain p = none ∧ (∃ fs, q.env.gup = .pages fs) ∧ q.env.iommuMap i = true

/-- The user's range already lies in the window and meets none that is listed, and all of its
pages can be mapped. -/
structure Placed (s : State .carfield × List Mapping) (q : MapRequest) : Prop where
  low : 0x80000000 ≤ q.arg.resultVirtAddr
  high : q.arg.resultVirtAddr + q.arg.size ≤ 0xC0000000
  apart : ∀ r ∈ s.1.iommuRegionList, Disjoint (Set.Ico r.userAddr (r.userAddr + r.length))
    (Set.Ico q.arg.resultVirtAddr (q.arg.resultVirtAddr + q.arg.size))
  pages : ∀ i < q.arg.size / PAGE_SIZE, PageOk s q i

variable {s s' : State .carfield × List Mapping} {q : MapRequest} {m : Mapping} {p : Nat}

/-! ## What a request does -/

def MapRequest.frames (q : MapRequest) : List Nat :=
  (pinPages q.env (q.arg.size >>> PAGE_SHIFT)).2

structure Served (s : State .carfield × List Mapping) (q : MapRequest)
    (s' : State .carfield × List Mapping) : Prop where
  addr_dvd : PAGE_SIZE ∣ q.arg.resultVirtAddr
  size_dvd : PAGE_SIZE ∣ q.arg.size
  backed : q.Backed
  size_pos : 0 < q.arg.size
  accepted : ¬ Rejected q.env q.arg.size
  eq : s' = (afterMap q.env s.1 q.arg, s.2 ++ [q.mapping])

theorem served_of_step (h : iommuMaps.step s q s') : Served s q s' := by
  obtain ⟨hv, hl, hbacked, a, hret, hms⟩ := h
  obtain ⟨-, hr, -, rfl, hs⟩ := cardIoctl_iommuMap_ok_iff.mp hret
  refine ⟨hv, hl, hbacked, ?_, hr, Prod.ext hs hms⟩
  by_contra h0
  rw [Nat.eq_zero_of_not_pos h0] at hr
  exact hr (.inr rfl)

theorem page_mem_range (hi : PAGE_SIZE ∣ m.iova) (hl : PAGE_SIZE ∣ m.length) :
    PAGE_SIZE * p ∈ m.range ↔
      m.iova / PAGE_SIZE ≤ p ∧ p < m.iova / PAGE_SIZE + m.length / PAGE_SIZE := by
  obtain ⟨x, hx⟩ := hi
  obtain ⟨n, hn⟩ := hl
  have hpos : 0 < PAGE_SIZE := by norm_num
  rw [Mapping.range, Set.mem_Ico, hx, hn, ← Nat.mul_add, Nat.mul_div_cancel_left _ hpos,
    Nat.mul_div_cancel_left _ hpos]
  exact and_congr (Nat.mul_le_mul_left_iff hpos) (Nat.mul_lt_mul_left hpos)

section Served
variable (h : Served s q s')
include h

theorem Served.iova_dvd : PAGE_SIZE ∣ q.mapping.iova :=
  Nat.dvd_of_mod_eq_zero ((iovaOf_mod _).trans (Nat.mod_eq_zero_of_dvd h.addr_dvd))

theorem Served.frame_eq_iff {i : Nat} (hi : i < q.arg.size / PAGE_SIZE) :
    q.frames.getD i q.env.nullFrame = q.page (q.arg.resultVirtAddr / PAGE_SIZE + i) ↔
      ∃ fs, q.env.gup = .pages fs := by
  rw [← shiftRight_page] at hi
  unfold MapRequest.frames
  cases hg : q.env.gup with
  | err e =>
    rw [failed_frames hg, List.getD_nil]
    exact iff_of_false (h.backed.null_ne _).symm nofun
  | pages fs =>
    refine iff_of_true ?_ ⟨fs, rfl⟩
    obtain ⟨k, rfl⟩ := h.backed.pins fs hg
    have hmem := frame_mem hg h.accepted hi
    have hlen := h.accepted
    rw [rejected_pages_iff hg, not_or, not_lt] at hlen
    have hlt := hi.trans_le hlen.1
    rw [List.getD_eq_getElem _ _ hlt]
    simp only [pinPages, hg, getUserPagesFast, userFrames, List.getElem_take,
      List.getElem_map, List.getElem_range]

section Window
variable (hw : q.mapping.range ⊆ Set.Ico 0x80000000 0xC0000000)
include hw

theorem Served.end_le : q.mapping.iova + q.arg.size ≤ 0xC0000000 :=
  ((Set.Ico_subset_Ico_iff (Nat.lt_add_of_pos_right h.size_pos)).mp hw).2

theorem Served.domain_apply (p : Nat) : (afterMap q.env s.1 q.arg).iommuDomain p =
    (s.1.iommuDomain p).or
      (if q.mapping.iova / PAGE_SIZE ≤ p ∧ p < q.mapping.iova / PAGE_SIZE + q.arg.size / PAGE_SIZE ∧
          q.env.iommuMap (p - q.mapping.iova / PAGE_SIZE) then
        some (q.frames.getD (p - q.mapping.iova / PAGE_SIZE) q.env.nullFrame) else none) := by
  have hend := h.end_le hw
  have hpages := Nat.mul_div_cancel' h.size_dvd
  rw [← shiftRight_page q.arg.size] at hpages ⊢
  refine mapPages_apply h.iova_dvd (le_trans ?_ (by norm_num : 0xC0000000 ≤ 2 ^ 64))
  rw [hpages]
  exact hend

theorem Served.domain_of_not_mem (hp : PAGE_SIZE * p ∉ q.mapping.range) :
    (afterMap q.env s.1 q.arg).iommuDomain p = s.1.iommuDomain p := by
  rw [page_mem_range h.iova_dvd h.size_dvd] at hp
  rw [h.domain_apply hw, if_neg fun hn => hp ⟨hn.1, hn.2.1⟩, Option.or_none]

theorem Served.maps_iff (hi : PAGE_SIZE ∣ m.iova) (hu : PAGE_SIZE ∣ m.userAddr)
    (hl : PAGE_SIZE ∣ m.length) (hdisj : Disjoint m.range q.mapping.range) :
    Maps (afterMap q.env s.1 q.arg).iommuDomain m.iova m.length m.page m.userAddr ↔
      Maps s.1.iommuDomain m.iova m.length m.page m.userAddr := by
  rw [maps_iff_pages hi hu hl, maps_iff_pages hi hu hl]
  refine forall₂_congr fun i hi' => ?_
  have hmem : PAGE_SIZE * (m.iova / PAGE_SIZE + i) ∈ m.range :=
    (page_mem_range hi hl).mpr ⟨Nat.le_add_right _ _, by omega⟩
  rw [h.domain_of_not_mem hw (Set.disjoint_left.mp hdisj hmem)]

theorem Served.maps_new_iff (hv : q.arg.resultVirtAddr = q.mapping.iova) :
    Maps (afterMap q.env s.1 q.arg).iommuDomain q.mapping.iova q.mapping.length q.mapping.page
        q.mapping.userAddr ↔
      ∀ i < q.arg.size / PAGE_SIZE, PageOk s q i := by
  refine (maps_iff_pages h.iova_dvd h.addr_dvd h.size_dvd).trans (forall₂_congr fun i hi => ?_)
  have hframe := h.frame_eq_iff hi
  unfold PageOk
  rw [h.domain_apply hw, Nat.add_sub_cancel_left, ← hv]
  change _ = some (q.page (q.arg.resultVirtAddr / PAGE_SIZE + i)) ↔ _
  dsimp only
  cases s.1.iommuDomain (q.arg.resultVirtAddr / PAGE_SIZE + i) with
  | some f => simp
  | none =>
    cases q.env.iommuMap i with
    | false => simp
    | true => simpa [hi] using hframe

end Window
end Served

/-! ## The invariant -/

structure RegionsInv (s : State .carfield × List Mapping) : Prop where
  recorded : s.1.iommuRegionList = s.2.map fun m => ⟨m.userAddr, m.length, m.userAddr⟩
  iova_dvd : ∀ m ∈ s.2, PAGE_SIZE ∣ m.iova
  addr_dvd : ∀ m ∈ s.2, PAGE_SIZE ∣ m.userAddr
  length_dvd : ∀ m ∈ s.2, PAGE_SIZE ∣ m.length

theorem regionsInv_attached (ok : CarfieldMem → Nat → Bool) (mem : CarfieldMem → SharedMem) :
    RegionsInv (.attached ok mem, []) :=
  ⟨rfl, fun _ hm => absurd hm List.not_mem_nil, fun _ hm => absurd hm List.not_mem_nil,
    fun _ hm => absurd hm List.not_mem_nil⟩

theorem regionsInv_step (hi : RegionsInv s) (hs : iommuMaps.step s q s') : RegionsInv s' := by
  have h := served_of_step hs
  obtain rfl := h.eq
  refine ⟨?_, ?_, ?_, ?_⟩
  · simp [afterMap, regionAdded, hi.recorded, MapRequest.mapping]
  · exact List.forall_mem_append.mpr ⟨hi.iova_dvd, List.forall_mem_singleton.mpr h.iova_dvd⟩
  · exact List.forall_mem_append.mpr ⟨hi.addr_dvd, List.forall_mem_singleton.mpr h.addr_dvd⟩
  · exact List.forall_mem_append.mpr ⟨hi.length_dvd, List.forall_mem_singleton.mpr h.size_dvd⟩

theorem listed_iff (hi : RegionsInv s) :
    List.Forall₂ (fun r m => HeroIommuRegion.iova r = Mapping.iova m ∧ r.length = m.length)
      s.1.iommuRegionList s.2 ↔ ∀ m ∈ s.2, m.userAddr = m.iova := by
  rw [hi.recorded, List.forall₂_map_left_iff, List.forall₂_same]
  simp only [and_true]

theorem iovaOf_eq_iff {v : Nat} : v = iovaOf v ↔ 0x80000000 ≤ v ∧ v < 0xC0000000 := by
  unfold iovaOf
  omega

/-! ## Runs -/

theorem mapped_step (hi : RegionsInv s) (h : Served s q s')
    (hw : q.mapping.range ⊆ Set.Ico 0x80000000 0xC0000000)
    (hv : q.arg.resultVirtAddr = q.mapping.iova)
    (hdisj : ∀ m ∈ s.2, Disjoint m.range q.mapping.range) :
    (∀ m ∈ s.2 ++ [q.mapping],
      Maps (afterMap q.env s.1 q.arg).iommuDomain m.iova m.length m.page m.userAddr) ↔
    (∀ m ∈ s.2, Maps s.1.iommuDomain m.iova m.length m.page m.userAddr) ∧
      ∀ i < q.arg.size / PAGE_SIZE, PageOk s q i := by
  rw [List.forall_mem_append, List.forall_mem_singleton]
  refine and_congr (forall₂_congr fun m hm => ?_) (h.maps_new_iff hw hv)
  exact h.maps_iff hw (hi.iova_dvd m hm) (hi.addr_dvd m hm) (hi.length_dvd m hm) (hdisj m hm)

theorem listed_apart_iff (hi : RegionsInv s) (heq : ∀ m ∈ s.2, m.userAddr = m.iova)
    (x : Set Nat) :
    (∀ r ∈ s.1.iommuRegionList,
      Disjoint (Set.Ico r.userAddr (r.userAddr + r.length)) x) ↔
      ∀ m ∈ s.2, Disjoint m.range x := by
  rw [hi.recorded, List.forall_mem_map]
  refine forall₂_congr fun m hm => ?_
  rw [Mapping.range, ← heq m hm]

theorem regionsOk_step (hi : RegionsInv s) (hs : iommuMaps.step s q s') :
    RegionsOk s' ↔ RegionsOk s ∧ Placed s q := by
  have hi' := regionsInv_step hi hs
  have h := served_of_step hs
  obtain rfl := h.eq
  constructor
  · rintro ⟨hapart, hwin, hmap, hlist⟩
    obtain ⟨hapart, hdisj⟩ := pairwise_concat.mp hapart
    obtain ⟨hwin, hwin'⟩ := List.forall_mem_append.mp hwin
    have hw := hwin' _ (List.mem_singleton_self _)
    obtain ⟨heq, heq'⟩ := List.forall_mem_append.mp ((listed_iff hi').mp hlist)
    have hv : q.arg.resultVirtAddr = q.mapping.iova := heq' _ (List.mem_singleton_self _)
    obtain ⟨hmap, hpages⟩ := (mapped_step hi h hw hv hdisj).mp hmap
    -- the new entry is right, so the user's range is the I/O range, which lies in the window
    refine ⟨⟨hapart, hwin, hmap, (listed_iff hi).mpr heq⟩, (iovaOf_eq_iff.mp hv).1, ?_, ?_,
      hpages⟩
    · rw [hv]
      exact h.end_le hw
    · rw [listed_apart_iff hi heq, hv]
      exact hdisj
  · rintro ⟨⟨hapart, hwin, hmap, hlist⟩, hlow, hend, hdisj, hpages⟩
    have heq := (listed_iff hi).mp hlist
    have hsize := h.size_pos
    have hv : q.arg.resultVirtAddr = q.mapping.iova := iovaOf_eq_iff.mpr ⟨hlow, by omega⟩
    rw [listed_apart_iff hi heq, hv] at hdisj
    have hw : q.mapping.range ⊆ Set.Ico 0x80000000 0xC0000000 := by
      rw [hv] at hlow hend
      exact Set.Ico_subset_Ico hlow hend
    refine ⟨pairwise_concat.mpr ⟨hapart, hdisj⟩, ?_,
      (mapped_step hi h hw hv hdisj).mpr ⟨hmap, hpages⟩, (listed_iff hi').mpr ?_⟩
    · exact List.forall_mem_append.mpr ⟨hwin, List.forall_mem_singleton.mpr hw⟩
    · exact List.forall_mem_append.mpr ⟨heq, List.forall_mem_singleton.mpr hv⟩

/-- Whatever the probe has mapped and whatever is requested, the ranges handed out are right just
when every user's range was placed in the window already, on pages that can be mapped. -/
theorem iommu_regions_ok_iff {ok : CarfieldMem → Nat → Bool} {mem : CarfieldMem → SharedMem}
    {tr : List ((State .carfield × List Mapping) × MapRequest)}
    (h : iommuMaps.Run (.attached ok mem, []) tr s) :
    RegionsOk s ↔ ∀ e ∈ tr, Placed e.1 e.2 := by
  refine h.good_iff (regionsInv_attached ok mem) ⟨.nil, ?_, ?_, .nil⟩ regionsInv_step
    regionsOk_step
  · exact fun _ hm => absurd hm List.not_mem_nil
  · exact fun _ hm => absurd hm List.not_mem_nil

def MapRequest.pages (w n f : Nat) : MapRequest where
  env := .pinning (fun x => x - w + f) (PAGE_SIZE * w) n
  arg := ⟨PAGE_SIZE * n, 0, PAGE_SIZE * w, 0⟩
  page := fun x => x - w + f

theorem pages_step {w n f : Nat} (h0 : 0 < n) (hn : n < 2 ^ 31) (hf : 0 < f) :
    let q := MapRequest.pages w n f
    iommuMaps.step s q (afterMap q.env s.1 q.arg, s.2 ++ [q.mapping]) := by
  have hdiv : (PAGE_SIZE * n) >>> PAGE_SHIFT = n := by
    rw [shiftRight_page]
    exact Nat.mul_div_cancel_left n (by norm_num)
  have hpin : PinsAll (MapRequest.pages w n f).env (MapRequest.pages w n f).page
      (MapRequest.pages w n f).arg := by
    show Gup.pages _ = Gup.pages (userFrames _ _ ((PAGE_SIZE * n) >>> PAGE_SHIFT))
    rw [hdiv]
    rfl
  refine ⟨Nat.dvd_mul_right _ _, Nat.dvd_mul_right _ _, ⟨fun fs hfs => ⟨n, ?_⟩, fun x => ?_⟩, _,
    (cardIoctl_iommuMap_iff hpin).mpr ⟨⟨rfl, rfl, rfl, rfl, rfl⟩, ?_, ?_, rfl, rfl⟩, rfl⟩
  · exact (Gup.pages.inj hfs).symm
  · exact (Nat.add_pos_right _ hf).ne'
  · exact hdiv.symm ▸ h0
  · exact hdiv.symm ▸ hn

theorem iommu_regions_ok_iff_two_pages : ∃ tr s,
    iommuMaps.Run (.attached (fun _ _ => true) socCtrlOnly, []) tr s ∧ tr.length = 1 ∧
      s.2.map Mapping.range = [Set.Ico 0x80000000 0x80002000] ∧ RegionsOk s := by
  have hrun := (Lts.Run.nil (L := iommuMaps)
    (s := (State.attached (fun _ _ => true) socCtrlOnly, []))).snoc
      (pages_step (w := 0x80000) (n := 2) (f := 7) (by norm_num) (by norm_num) (by norm_num))
  have hfree : ∀ i < 2, probeIommu (fun _ _ => true) socCtrlOnly (0x80000 + i) = none := by
    intro i hi
    by_contra hne
    obtain ⟨f, hf⟩ := Option.ne_none_iff_exists'.mp hne
    obtain ⟨-, m, -, hm⟩ := attach_self hf
    cases m <;> simp only [SharedMem.range, socCtrlOnly, Set.mem_Ico, PAGE_SIZE] at hm <;>
      omega
  refine ⟨_, _, hrun, rfl, rfl, (iommu_regions_ok_iff hrun).mpr ?_⟩
  refine List.forall_mem_singleton.mpr ⟨?_, ?_, fun r hr => absurd hr List.not_mem_nil, ?_⟩
  · norm_num [MapRequest.pages]
  · norm_num [MapRequest.pages]
  · exact fun i hi => .inr ⟨hfree i hi, ⟨_, rfl⟩, rfl⟩

theorem iommu_regions_not_ok :
    ∃ tr s, iommuMaps.Run (.attached (fun _ _ => true) fun _ => ⟨0, 0, 0⟩, []) tr s ∧
      s.2.map Mapping.iova = [0x80400000, 0x80400000] ∧
      s.1.iommuRegionList.map HeroIommuRegion.iova = [0x400000, 0x400000] ∧ ¬ RegionsOk s := by
  refine ⟨_, _, .snoc (.snoc .nil (pages_step (w := 0x400) (n := 1) (f := 7) ?_ ?_ ?_))
    (pages_step (w := 0x400) (n := 1) (f := 8) ?_ ?_ ?_), rfl, rfl, ?_⟩
  iterate 6 norm_num
  intro h
  have hdisj := (pairwise_concat.mp h.apart).2 _ (List.mem_singleton_self _)
  have hmem : 0x80400000 ∈ Set.Ico 0x80400000 (0x80400000 + 4096) :=
    Set.left_mem_Ico.mpr (by norm_num)
  exact Set.disjoint_left.mp hdisj hmem hmem

end HeroTools.Driver
