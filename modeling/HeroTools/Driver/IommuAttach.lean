import HeroTools.Driver.DmaBuffers
import HeroTools.Driver.RegionAdd

/-! The IOMMU domain that the probe of `carfield_driver.c` attaches the Spatz cluster to, and
what the cluster can reach through it while requests are served. -/

namespace HeroTools.Driver
variable {env : Env} {frames : List Nat} {d : IommuDomain} {iova n p f : Nat}
  {mem : CarfieldMem → SharedMem} {ok : CarfieldMem → Nat → Bool} {s s' : State .carfield}
  {q : Request}

/-! ## The probe -/

/-- `iommu_map` of a range: when a page cannot be mapped, those before it are unmapped. -/
def iommuMapRange (ok : Nat → Bool) (d : IommuDomain) (iova paddr size : Nat) : IommuDomain :=
  if PAGE_SIZE ∣ iova ∧ PAGE_SIZE ∣ paddr ∧ PAGE_SIZE ∣ size ∧
      ∀ i < size / PAGE_SIZE, ok i = true ∧ d (iova / PAGE_SIZE + i) = none then
    fun p =>
      if iova / PAGE_SIZE ≤ p ∧ p < iova / PAGE_SIZE + size / PAGE_SIZE then
        some (paddr / PAGE_SIZE + (p - iova / PAGE_SIZE))
      else d p
  else d

open CarfieldMem in
/-- The regions that the probe maps, in this order; each result overwrites the one before. -/
def attachedMems : List CarfieldMem :=
  [l2Intl0Mem, l2Cont0Mem, spatzClusterMem, socCtrlMem, mboxesMem, pcieAxiBarMem,
    ctrlRegsMem, l3Mem]

def attach (ok : CarfieldMem → Nat → Bool) (mem : CarfieldMem → SharedMem)
    (mems : List CarfieldMem) : IommuDomain :=
  mems.foldl (fun d m => iommuMapRange (ok m) d (mem m).pbase (mem m).pbase (mem m).size)
    fun _ => none

def probeIommu (ok : CarfieldMem → Nat → Bool) (mem : CarfieldMem → SharedMem) : IommuDomain :=
  attach ok mem attachedMems

def State.attached (ok : CarfieldMem → Nat → Bool) (mem : CarfieldMem → SharedMem) :
    State .carfield :=
  { @State.probed .carfield mem with iommuDomain := probeIommu ok mem }

theorem iommuMapRange_page (ok : Nat → Bool) (d : IommuDomain) (iova frame : Nat) :
    iommuMapRange ok d iova (PAGE_SIZE * frame) PAGE_SIZE =
      (iommuMap (ok 0) d iova frame).2 := by
  have hone : PAGE_SIZE / PAGE_SIZE = 1 := Nat.div_self (by norm_num)
  have hframe : PAGE_SIZE * frame / PAGE_SIZE = frame := Nat.mul_div_cancel_left _ (by norm_num)
  have hcond : (PAGE_SIZE ∣ iova ∧ PAGE_SIZE ∣ PAGE_SIZE * frame ∧ PAGE_SIZE ∣ PAGE_SIZE ∧
      ∀ i < 1, ok i = true ∧ d (iova / PAGE_SIZE + i) = none) ↔
      PAGE_SIZE ∣ iova ∧ ok 0 = true ∧ d (iova / PAGE_SIZE) = none := by
    simp
  funext p
  unfold iommuMapRange
  rw [hone, hframe, if_congr hcond rfl rfl]
  by_cases hal : PAGE_SIZE ∣ iova
  · rw [iommuMap_apply (Nat.mod_eq_zero_of_dvd hal)]
    by_cases hp : p = iova / PAGE_SIZE
    · subst hp
      cases hd : d (iova / PAGE_SIZE) <;> cases ok 0 <;> simp [hal, hd]
    · have hout : ¬ (iova / PAGE_SIZE ≤ p ∧ p < iova / PAGE_SIZE + 1) := by omega
      rw [if_neg (show ¬ (p = iova / PAGE_SIZE ∧ ok 0 = true) from fun h => hp h.1),
        Option.or_none]
      split_ifs
      · exact if_neg hout
      · rfl
  · have hmod : iova % PAGE_SIZE ≠ 0 := fun h => hal (Nat.dvd_of_mod_eq_zero h)
    rw [if_neg fun h => hal h.1, iommuMap, if_pos hmod]

theorem iommuMapRange_self {ok : Nat → Bool} {base size : Nat}
    (h : iommuMapRange ok d base base size p = some f) :
    d p = some f ∨ f = p ∧ PAGE_SIZE * p ∈ Set.Ico base (base + size) := by
  unfold iommuMapRange at h
  split at h
  case isFalse => exact .inl h
  case isTrue hcond =>
    obtain ⟨⟨b, rfl⟩, -, ⟨n, rfl⟩, -⟩ := hcond
    have hdiv : ∀ x, PAGE_SIZE * x / PAGE_SIZE = x := fun x =>
      Nat.mul_div_cancel_left x (by norm_num)
    rw [hdiv, hdiv] at h
    dsimp only at h
    split at h
    case isFalse => exact .inl h
    case isTrue hp =>
      have hf : b + (p - b) = f := Option.some.inj h
      refine .inr ⟨by omega, ?_⟩
      rw [← Nat.mul_add]
      exact ⟨Nat.mul_le_mul_left _ hp.1, Nat.mul_lt_mul_of_pos_left hp.2 (by norm_num)⟩

theorem attach_concat (ok : CarfieldMem → Nat → Bool) (mem : CarfieldMem → SharedMem)
    (mems : List CarfieldMem) (m : CarfieldMem) : attach ok mem (mems ++ [m]) =
      iommuMapRange (ok m) (attach ok mem mems) (mem m).pbase (mem m).pbase (mem m).size :=
  List.foldl_append

theorem attach_self {mems : List CarfieldMem} (h : attach ok mem mems p = some f) :
    f = p ∧ ∃ m ∈ mems, PAGE_SIZE * p ∈ (mem m).range := by
  induction mems using List.reverseRecOn with
  | nil => cases h
  | append_singleton mems m ih =>
    rw [attach_concat] at h
    rcases iommuMapRange_self h with h | ⟨hf, hp⟩
    · obtain ⟨hf, m', hm', hp⟩ := ih h
      exact ⟨hf, m', List.mem_append_left _ hm', hp⟩
    · exact ⟨hf, m, List.mem_append_right _ (List.mem_singleton_self m), hp⟩

/-- The regions are whole pages and apart, and no `iommu_map` of theirs runs out of memory. -/
structure Mappable (ok : CarfieldMem → Nat → Bool) (mem : CarfieldMem → SharedMem) : Prop where
  pages : ∀ m ∈ attachedMems, PAGE_SIZE ∣ (mem m).pbase ∧ PAGE_SIZE ∣ (mem m).size
  apart : attachedMems.Pairwise fun m m' => Disjoint (mem m).range (mem m').range
  ok : ∀ m ∈ attachedMems, ∀ i < (mem m).size / PAGE_SIZE, ok m i = true

theorem page_mem_region {m : SharedMem} (hb : PAGE_SIZE ∣ m.pbase) (hs : PAGE_SIZE ∣ m.size) :
    PAGE_SIZE * p ∈ m.range ↔
      m.pbase / PAGE_SIZE ≤ p ∧ p < m.pbase / PAGE_SIZE + m.size / PAGE_SIZE := by
  obtain ⟨b, hb⟩ := hb
  obtain ⟨n, hn⟩ := hs
  have hpos : 0 < PAGE_SIZE := by norm_num
  rw [SharedMem.range, Set.mem_Ico, hb, hn, ← Nat.mul_add, Nat.mul_div_cancel_left _ hpos,
    Nat.mul_div_cancel_left _ hpos]
  exact and_congr (Nat.mul_le_mul_left_iff hpos) (Nat.mul_lt_mul_left hpos)

theorem iommuMapRange_free {ok : Nat → Bool} {m : SharedMem} (hb : PAGE_SIZE ∣ m.pbase)
    (hs : PAGE_SIZE ∣ m.size) (hok : ∀ i < m.size / PAGE_SIZE, ok i = true)
    (hfree : ∀ p, PAGE_SIZE * p ∈ m.range → d p = none) (p : Nat) :
    (PAGE_SIZE * p ∈ m.range → iommuMapRange ok d m.pbase m.pbase m.size p = some p) ∧
      (PAGE_SIZE * p ∉ m.range → iommuMapRange ok d m.pbase m.pbase m.size p = d p) := by
  have hpages : ∀ i < m.size / PAGE_SIZE, ok i = true ∧ d (m.pbase / PAGE_SIZE + i) = none :=
    fun i hi => ⟨hok i hi, hfree _ ((page_mem_region hb hs).mpr
      ⟨Nat.le_add_right _ _, Nat.add_lt_add_left hi _⟩)⟩
  unfold iommuMapRange
  rw [if_pos ⟨hb, hb, hs, hpages⟩, page_mem_region hb hs]
  constructor
  · intro hp
    rw [if_pos hp, Nat.add_sub_cancel' hp.1]
  · exact fun hp => if_neg hp

theorem Mappable.attach_page (h : Mappable ok mem) {mems : List CarfieldMem}
    (hsub : mems ⊆ attachedMems)
    (hapart : mems.Pairwise fun m m' => Disjoint (mem m).range (mem m').range) :
    ∀ m ∈ mems, ∀ p, PAGE_SIZE * p ∈ (mem m).range → attach ok mem mems p = some p := by
  induction mems using List.reverseRecOn with
  | nil => exact fun m hm => absurd hm List.not_mem_nil
  | append_singleton mems m ih =>
    obtain ⟨hapart, hnew⟩ := pairwise_concat.mp hapart
    have hold := ih (fun x hx => hsub (List.mem_append_left _ hx)) hapart
    have hm : m ∈ attachedMems := hsub (List.mem_append_right _ (List.mem_singleton_self m))
    obtain ⟨hbase, hsize⟩ := h.pages m hm
    have hfree : ∀ p, PAGE_SIZE * p ∈ (mem m).range → attach ok mem mems p = none := by
      intro p hp
      by_contra hsome
      obtain ⟨f, hf⟩ := Option.ne_none_iff_exists'.mp hsome
      obtain ⟨-, m', hm', hp'⟩ := attach_self hf
      exact Set.disjoint_left.mp (hnew m' hm') hp' hp
    have hrange := iommuMapRange_free hbase hsize (h.ok m hm) hfree
    intro m' hm' p hp
    rw [attach_concat]
    rcases List.mem_append.mp hm' with hm' | hm'
    · rw [(hrange p).2 (Set.disjoint_left.mp (hnew m' hm') hp)]
      exact hold m' hm' p hp
    · rw [List.mem_singleton.mp hm'] at hp
      exact (hrange p).1 hp

theorem Mappable.translate (h : Mappable ok mem) {m : CarfieldMem} (hm : m ∈ attachedMems)
    {a : Nat} (ha : a ∈ (mem m).range) : (probeIommu ok mem).translate a = some a := by
  obtain ⟨hbase, hsize⟩ := h.pages m hm
  have hpage : PAGE_SIZE * (a / PAGE_SIZE) ∈ (mem m).range := by
    obtain ⟨b, hb⟩ := hbase
    obtain ⟨n, hn⟩ := hsize
    rw [SharedMem.range, Set.mem_Ico, hb, hn] at ha ⊢
    simp only [PAGE_SIZE] at ha ⊢
    omega
  have hself : probeIommu ok mem (a / PAGE_SIZE) = some (a / PAGE_SIZE) :=
    h.attach_page (List.Subset.refl _) h.apart m hm _ hpage
  rw [IommuDomain.translate, hself, Option.map_some, Nat.mul_comm, Nat.div_add_mod]

/-! ## The loop over the pages -/

def ioPage (iova i : Nat) : Nat := (iova + PAGE_SIZE * i) % 2 ^ 64 / PAGE_SIZE

theorem mapPages_succ (hal : PAGE_SIZE ∣ iova) (env : Env) (frames : List Nat) (d : IommuDomain)
    (i p : Nat) : mapPages env frames iova d (i + 1) p =
      (mapPages env frames iova d i p).or
        (if p = ioPage iova i ∧ env.iommuMap i then
          some (frames.getD i env.nullFrame) else none) := by
  have hmod : (iova + PAGE_SIZE * i) % 2 ^ 64 % PAGE_SIZE = 0 := by
    rw [Nat.mod_mod_of_dvd _ (by norm_num), Nat.add_mul_mod_self_left]
    exact Nat.mod_eq_zero_of_dvd hal
  exact iommuMap_apply hmod

theorem mapPages_cases (env : Env) (frames : List Nat) (iova : Nat) (d : IommuDomain) (n p : Nat) :
    mapPages env frames iova d n p = d p ∨
      d p = none ∧ ∃ i < n, PAGE_SIZE ∣ iova ∧ env.iommuMap i = true ∧ p = ioPage iova i ∧
        mapPages env frames iova d n p = some (frames.getD i env.nullFrame) := by
  by_cases hal : PAGE_SIZE ∣ iova
  · induction n with
    | zero => exact .inl rfl
    | succ n ih =>
      rw [mapPages_succ hal]
      rcases ih with ih | ⟨hd, i, hi, -, hok, hp, heq⟩
      · rw [ih]
        cases hd : d p with
        | some g => exact .inl rfl
        | none =>
          rw [Option.none_or]
          split_ifs with hp
          · exact .inr ⟨rfl, n, n.lt_succ_self, hal, hp.2, hp.1, rfl⟩
          · exact .inl rfl
      · rw [heq]
        exact .inr ⟨hd, i, hi.trans n.lt_succ_self, hal, hok, hp, rfl⟩
  · exact .inl (congrFun (mapPages_of_not_dvd hal) p)

theorem mapPages_isSome {i : Nat} (hi : i < n) (hal : PAGE_SIZE ∣ iova)
    (hok : env.iommuMap i = true) :
    (mapPages env frames iova d n (ioPage iova i)).isSome = true := by
  induction n with
  | zero => exact absurd hi (Nat.not_lt_zero i)
  | succ n ih =>
    rw [mapPages_succ hal, Option.isSome_or]
    rcases Nat.lt_succ_iff_lt_or_eq.mp hi with hlt | rfl
    · rw [ih hlt, Bool.true_or]
    · rw [if_pos ⟨rfl, hok⟩, Option.isSome_some, Bool.or_true]

/-! ## One request -/

/-- The request adds a region: its pages are pinned, or `get_user_pages_fast` failed with an
error that the comparison does not see. -/
def Request.AddsRegion (q : Request) : Prop :=
  q.env.copyFromUser = true ∧ Board.carfield.command q.cmd = some .iommuMap ∧
    ¬ Rejected q.env q.arg.size

theorem ioctlIommuMap_domain {env : Env} {arg : CardIoctlArg} {r : Int}
    {a : Option CardIoctlArg} (h : ioctlIommuMap env arg s = .ret r a s') :
    Rejected env arg.size ∧ s'.iommuDomain = s.iommuDomain ∧ s.pinned ⊆ s'.pinned ∨
      ¬ Rejected env arg.size ∧
        s'.pinned = s.pinned ++ (pinPages env (arg.size >>> PAGE_SHIFT)).2 ∧
        s'.iommuDomain = mapPages env (pinPages env (arg.size >>> PAGE_SHIFT)).2
          (iovaOf arg.resultVirtAddr) s.iommuDomain (arg.size >>> PAGE_SHIFT) := by
  unfold ioctlIommuMap at h
  dsimp only at h
  -- whatever is copied back, the state is that after the call
  have hret : ∃ err, heroIommuRegionAdd env s arg.resultVirtAddr
      (iovaOf arg.resultVirtAddr) arg.size = .ok (err, s') := by
    split at h
    · cases h
    next err t hadd =>
      split at h
      · obtain ⟨-, -, rfl⟩ := h
        exact ⟨_, hadd⟩
      · obtain ⟨rfl, -⟩ := ret_of_sendBack h
        exact ⟨err, hadd⟩
  obtain ⟨err, hadd⟩ := hret
  cases hk : env.kcalloc with
  | false =>
    rw [region_add_no_array_eq hk] at hadd
    split at hadd
    case isTrue hr =>
      obtain ⟨-, rfl⟩ := Prod.mk.inj (Except.ok.inj hadd)
      exact .inl ⟨hr.1, rfl, List.Subset.refl _⟩
    case isFalse => cases hadd
  | true =>
    by_cases hr : Rejected env arg.size
    · rw [region_add_rejected hk hr] at hadd
      obtain ⟨-, rfl⟩ := Prod.mk.inj (Except.ok.inj hadd)
      exact .inl ⟨hr, rfl, List.subset_append_left _ _⟩
    · rw [region_add_accepted hk hr] at hadd
      split at hadd
      · obtain ⟨-, rfl⟩ := Prod.mk.inj (Except.ok.inj hadd)
        exact .inr ⟨hr, rfl, rfl⟩
      · cases hadd

theorem device_domain (h : (device .carfield).step s q s') :
    ¬ q.AddsRegion ∧ s'.iommuDomain = s.iommuDomain ∧ s.pinned ⊆ s'.pinned ∨
      q.AddsRegion ∧ s'.pinned = s.pinned ++ (pinPages q.env (q.arg.size >>> PAGE_SHIFT)).2 ∧
        s'.iommuDomain = mapPages q.env (pinPages q.env (q.arg.size >>> PAGE_SHIFT)).2
          (iovaOf q.arg.resultVirtAddr) s.iommuDomain (q.arg.size >>> PAGE_SHIFT) := by
  obtain ⟨-, r, a, hret⟩ := h
  unfold cardIoctl at hret
  unfold Request.AddsRegion
  cases hc : q.env.copyFromUser with
  | false =>
    rw [hc] at hret
    obtain ⟨-, -, rfl⟩ := hret
    exact .inl ⟨fun h => Bool.false_ne_true h.1, rfl, List.Subset.refl _⟩
  | true =>
    rw [hc, Bool.not_true, if_neg Bool.false_ne_true] at hret
    -- the other commands touch neither the domain nor the pinned pages
    have hother (hne : Board.carfield.command q.cmd ≠ some .iommuMap)
        (hdomain : s'.iommuDomain = s.iommuDomain) (hpinned : s'.pinned = s.pinned) :
        ¬ (true = true ∧ Board.carfield.command q.cmd = some .iommuMap ∧
          ¬ Rejected q.env q.arg.size) ∧
        s'.iommuDomain = s.iommuDomain ∧ s.pinned ⊆ s'.pinned := by
      refine ⟨fun h => hne h.2.1, hdomain, ?_⟩
      rw [hpinned]
      exact List.Subset.refl _
    cases hcmd : Board.carfield.command q.cmd with
    | none =>
      rw [hcmd] at hret hother
      obtain ⟨-, -, rfl⟩ := hret
      exact .inl (hother (Option.some_ne_none _).symm rfl rfl)
    | some command =>
      rw [hcmd] at hret hother
      cases command with
      | dmaAlloc =>
        have hne : some Command.dmaAlloc ≠ some .iommuMap := by decide
        rcases ioctlDmaAlloc_cases hret with ⟨-, -, rfl⟩ | ⟨b, -, -, rfl, -⟩
        · exact .inl (hother hne rfl rfl)
        · exact .inl (hother hne rfl rfl)
      | memInfos =>
        obtain rfl := ioctlMemInfos_frame hret
        exact .inl (hother (by decide) rfl rfl)
      | iommuMap =>
        rcases ioctlIommuMap_domain hret with ⟨hr, hdomain, hpinned⟩ | ⟨hr, hpinned, hdomain⟩
        · exact .inl ⟨fun h => h.2.2 hr, hdomain, hpinned⟩
        · exact .inr ⟨⟨rfl, rfl, hr⟩, hpinned, hdomain⟩

/-! ## What the cluster can reach -/

/-- The regions of the device are translated as the probe has left them, and whatever else is
translated leads to a page that is pinned. -/
structure Shielded (ok : CarfieldMem → Nat → Bool) (mem : CarfieldMem → SharedMem)
    (s : State .carfield) : Prop where
  kept : ∀ p f, probeIommu ok mem p = some f → s.iommuDomain p = some f
  pinned : ∀ p f, s.iommuDomain p = some f → probeIommu ok mem p = some f ∨ f ∈ s.pinned

/-- `get_user_pages_fast` has failed, the request is served all the same, and one of its pages
is free: it becomes that of a null `struct page`, which nobody has pinned. -/
def Request.MapsNull (q : Request) (s : State .carfield) : Prop :=
  q.AddsRegion ∧ (∃ e, q.env.gup = .err e) ∧ PAGE_SIZE ∣ q.arg.resultVirtAddr ∧
    q.env.nullFrame ∉ s.pinned ∧ ∃ i < q.arg.size >>> PAGE_SHIFT, q.env.iommuMap i = true ∧
      s.iommuDomain (ioPage (iovaOf q.arg.resultVirtAddr) i) = none

theorem kept_step (h : (device .carfield).step s q s')
    (hs : ∀ p f, probeIommu ok mem p = some f → s.iommuDomain p = some f) :
    ∀ p f, probeIommu ok mem p = some f → s'.iommuDomain p = some f := by
  intro p f hp
  have hpf := hs p f hp
  rcases device_domain h with ⟨-, hdomain, -⟩ | ⟨-, -, hdomain⟩
  · rw [hdomain, hpf]
  · rw [hdomain]
    rcases mapPages_cases q.env (pinPages q.env (q.arg.size >>> PAGE_SHIFT)).2
      (iovaOf q.arg.resultVirtAddr) s.iommuDomain (q.arg.size >>> PAGE_SHIFT) p with
      heq | ⟨hnone, -⟩
    · rw [heq, hpf]
    · rw [hpf] at hnone
      cases hnone

theorem frame_mem {fs : List Nat} {length i : Nat} (hg : env.gup = .pages fs)
    (hr : ¬ Rejected env length) (hi : i < length >>> PAGE_SHIFT) :
    (pinPages env (length >>> PAGE_SHIFT)).2.getD i env.nullFrame ∈
      (pinPages env (length >>> PAGE_SHIFT)).2 := by
  rw [rejected_pages_iff hg, not_or, not_lt] at hr
  have hlt : i < (pinPages env (length >>> PAGE_SHIFT)).2.length := hi.trans_le hr.1
  rw [List.getD_eq_getElem _ _ hlt]
  exact List.getElem_mem hlt

theorem failed_frames {e : Nat} (hg : env.gup = .err e) (nrPages : Nat) :
    (pinPages env nrPages).2 = [] := by
  rw [pinPages, hg]
  rfl

theorem mapsNull_iff {e : Nat} (hadds : q.AddsRegion) (hg : q.env.gup = .err e) :
    q.MapsNull s ↔ q.env.nullFrame ∉ s.pinned ∧ ∃ p, s.iommuDomain p = none ∧
      mapPages q.env [] (iovaOf q.arg.resultVirtAddr) s.iommuDomain
        (q.arg.size >>> PAGE_SHIFT) p = some q.env.nullFrame := by
  constructor
  · rintro ⟨-, -, hal, hnull, i, hi, hok, hfree⟩
    have hal' : PAGE_SIZE ∣ iovaOf q.arg.resultVirtAddr :=
      Nat.dvd_of_mod_eq_zero ((iovaOf_mod _).trans (Nat.mod_eq_zero_of_dvd hal))
    have hsome := @mapPages_isSome q.env [] s.iommuDomain _ _ i hi hal' hok
    refine ⟨hnull, ioPage (iovaOf q.arg.resultVirtAddr) i, hfree, ?_⟩
    rcases mapPages_cases q.env [] (iovaOf q.arg.resultVirtAddr) s.iommuDomain
      (q.arg.size >>> PAGE_SHIFT) (ioPage (iovaOf q.arg.resultVirtAddr) i) with
      heq | ⟨-, j, -, -, -, -, heq⟩
    · rw [heq, hfree] at hsome
      cases hsome
    · exact heq
  · rintro ⟨hnull, p, hfree, hmap⟩
    rcases mapPages_cases q.env [] (iovaOf q.arg.resultVirtAddr) s.iommuDomain
      (q.arg.size >>> PAGE_SHIFT) p with heq | ⟨-, i, hi, hal, hok, hpage, -⟩
    · rw [hmap, hfree] at heq
      cases heq
    · have hal' : PAGE_SIZE ∣ q.arg.resultVirtAddr :=
        Nat.dvd_of_mod_eq_zero ((iovaOf_mod _).symm.trans (Nat.mod_eq_zero_of_dvd hal))
      exact ⟨hadds, ⟨e, hg⟩, hal', hnull, i, hi, hok, hpage ▸ hfree⟩

theorem added_frame {fs : List Nat} {length : Nat}
    (h : mapPages env fs iova d length p = some f) :
    d p = some f ∨ d p = none ∧ ∃ i < length, f = fs.getD i env.nullFrame := by
  rcases mapPages_cases env fs iova d length p with heq | ⟨hfree, i, hi, -, -, -, heq⟩
  · exact .inl (heq ▸ h)
  · exact .inr ⟨hfree, i, hi, Option.some.inj (h.symm.trans heq)⟩

theorem shielded_step (h : (device .carfield).step s q s') (hs : Shielded ok mem s) :
    Shielded ok mem s' ↔ ¬ q.MapsNull s := by
  have hkept : ∀ p f, probeIommu ok mem p = some f → s'.iommuDomain p = some f :=
    kept_step h hs.kept
  rcases device_domain h with ⟨hadds, hdomain, hsub⟩ | ⟨hadds, hpinned, hdomain⟩
  · refine iff_of_true ⟨hkept, fun p f hp => ?_⟩ fun hnull => hadds hnull.1
    rw [hdomain] at hp
    exact (hs.pinned p f hp).imp_right (@hsub f)
  have hold : ∀ p f, s.iommuDomain p = some f →
      probeIommu ok mem p = some f ∨ f ∈ s'.pinned := by
    intro p f hp
    rw [hpinned]
    exact (hs.pinned p f hp).imp_right (List.mem_append_left _)
  cases hg : q.env.gup with
  | pages fs =>
    refine iff_of_true ⟨hkept, fun p f hp => ?_⟩ fun hnull => ?_
    · rw [hdomain] at hp
      -- a frame that was added has just been pinned
      rcases added_frame hp with hp | ⟨-, i, hi, rfl⟩
      · exact hold p f hp
      · rw [hpinned]
        exact .inr (List.mem_append_right _ (frame_mem hg hadds.2.2 hi))
    · obtain ⟨e, he⟩ := hnull.2.1
      rw [hg] at he
      cases he
  | err e =>
    -- nothing was pinned, so what is mapped are null pages
    rw [failed_frames hg] at hpinned hdomain
    rw [List.append_nil] at hpinned
    rw [mapsNull_iff hadds hg, ← hdomain]
    constructor
    · rintro hs' ⟨hnull, p, hfree, hmap⟩
      rcases hs'.pinned _ _ hmap with hself | hmem
      · rw [hs.kept _ _ hself] at hfree
        cases hfree
      · rw [hpinned] at hmem
        exact hnull hmem
    · intro hnull
      refine ⟨hkept, fun p f hp => ?_⟩
      rw [hdomain] at hp
      rcases added_frame hp with hold' | ⟨hfree, i, -, rfl⟩
      · exact hold p f hold'
      · by_contra hout
        rw [hpinned] at hout
        exact hnull ⟨fun hmem => hout (.inr hmem), p, hfree, hdomain ▸ hp⟩

/-- Whatever is requested, the cluster reaches its own regions at their own addresses and
otherwise only pages that are pinned, just when no failed request maps a null page. -/
theorem device_shielded_iff (ok : CarfieldMem → Nat → Bool) (mem : CarfieldMem → SharedMem)
    {tr : List (State .carfield × Request)}
    (h : (device .carfield).Run (.attached ok mem) tr s) :
    (∀ p f, probeIommu ok mem p = some f →
        f = p ∧ ∃ m ∈ attachedMems, PAGE_SIZE * p ∈ (mem m).range) ∧
      (∀ p f, probeIommu ok mem p = some f → s.iommuDomain p = some f) ∧
      (Mappable ok mem → ∀ m ∈ attachedMems, ∀ a ∈ (mem m).range,
        s.iommuDomain.translate a = some a) ∧
      ((∀ x ∈ tr, Shielded ok mem x.1) ∧ Shielded ok mem s ↔ ∀ x ∈ tr, ¬ x.2.MapsNull x.1) := by
  have hkept : ∀ p f, probeIommu ok mem p = some f → s.iommuDomain p = some f :=
    h.invariant (I := fun s => ∀ p f, probeIommu ok mem p = some f →
      s.iommuDomain p = some f) (fun _ _ h => h) fun hs hstep => kept_step hstep hs
  refine ⟨fun p f hp => attach_self hp, hkept, fun hm m hmem a ha => ?_, ?_⟩
  · have ha := hm.translate hmem ha
    obtain ⟨f, hf, hfa⟩ := Option.map_eq_some_iff.mp ha
    rw [IommuDomain.translate, hkept _ _ hf, Option.map_some, hfa]
  · exact h.passes_iff (I := fun _ => True) trivial ⟨fun _ _ h => h, fun _ _ h => .inl h⟩
      (fun _ _ => trivial) fun _ hs hstep => shielded_step hstep hs

def onePageRequest (gup : Gup) : Request where
  env := { Env.sound with gup := gup, nullFrame := 3 }
  cmd := iowr 'C'.toNat 3
  arg := ⟨PAGE_SIZE, 0, 0x400000, 0⟩

theorem one_page_step (s : State .carfield) (gup : Gup)
    (hr : ¬ Rejected (onePageRequest gup).env PAGE_SIZE) :
    (device .carfield).step s (onePageRequest gup)
      (afterMap (onePageRequest gup).env s (onePageRequest gup).arg) := by
  have hpages : 0 ≤ toInt32 (PAGE_SIZE >>> PAGE_SHIFT) := by decide
  refine ⟨fun p hp => ?_, 0, _, cardIoctl_iommuMap_ok_iff.mpr
    ⟨⟨rfl, rfl, rfl, rfl, rfl⟩, hr, hpages, rfl, rfl⟩⟩
  have hcmd : Board.carfield.command (iowr 'C'.toNat 3) = some .dmaAlloc := hp.2.1
  exact absurd hcmd (by decide)

def socCtrlOnly : CarfieldMem → SharedMem
  | .socCtrlMem => ⟨0x20000000, 0, 0x1000⟩
  | _ => ⟨0, 0, 0⟩

theorem socCtrlOnly_mappable : Mappable (fun _ _ => true) socCtrlOnly where
  pages := by decide
  apart := by
    have hempty : ∀ m, m ≠ CarfieldMem.socCtrlMem → (socCtrlOnly m).range = ∅ := by
      intro m hm
      cases m
      case socCtrlMem => exact absurd rfl hm
      all_goals exact Set.Ico_self 0
    have hne : attachedMems.Pairwise (· ≠ ·) := by decide
    refine hne.imp fun {m m'} hmm' => ?_
    by_cases hm : m = .socCtrlMem
    · rw [hempty m' fun hm' => hmm' (hm.trans hm'.symm)]
      exact Set.disjoint_empty _
    · rw [hempty m hm]
      exact Set.empty_disjoint _
  ok := fun _ _ _ _ => rfl

theorem device_shielded_iff_one_page :
    ∃ tr s, (device .carfield).Run (.attached (fun _ _ => true) socCtrlOnly) tr s ∧
      tr.length = 2 ∧ s.iommuDomain.translate 0x20000004 = some 0x20000004 ∧
      Shielded (fun _ _ => true) socCtrlOnly s := by
  have hrun := (Lts.Run.nil (L := device .carfield)
    (s := State.attached (fun _ _ => true) socCtrlOnly)).snoc
      (one_page_step _ (.pages [7]) (by decide)) |>.snoc (one_page_step _ (.err 13) (by decide))
  have hsafe := device_shielded_iff (fun _ _ => true) socCtrlOnly hrun
  refine ⟨_, _, hrun, rfl, ?_, (hsafe.2.2.2.mpr ?_).2⟩
  · exact hsafe.2.2.1 socCtrlOnly_mappable .socCtrlMem (by decide) _
      ⟨by decide, by decide⟩
  · intro x hx
    rcases List.mem_pair.mp hx with rfl | rfl
    · rintro ⟨-, ⟨e, he⟩, -⟩
      cases he
    · rintro ⟨-, -, -, -, i, hi, -, hfree⟩
      let d := probeIommu (fun _ _ => true) socCtrlOnly
      have hsome := @mapPages_isSome (onePageRequest (.pages [7])).env [7] d
        (iovaOf 0x400000) 1 i hi (by decide) rfl
      have hnone : mapPages (onePageRequest (.pages [7])).env [7] (iovaOf 0x400000) d 1
        (ioPage (iovaOf 0x400000) i) = none := hfree
      rw [hnone] at hsome
      cases hsome

end HeroTools.Driver
