import HeroTools.Driver.RegionAdd
import HeroTools.Libhero.Syscalls

/-! `hero_iommu_map_virt_to_phys`: when the device sees the user's bytes at the address
asked for. -/

namespace HeroTools.Libhero
open Driver
variable {env : Env} {sizeB vAddr pAddr : Nat} {mmapId : Int} {s s' : State .carfield}
  {page : Nat → Nat}

def mapVirtToPhysChunk (sizeB vAddr pAddr : Nat) (mmapId : Int) : CardIoctlArg where
  size := sizeB
  resultPhysAddr := pAddr
  resultVirtAddr := vAddr
  mmapId := mmapId

def heroIommuMapVirtToPhys (env : Env) (sizeB vAddr pAddr : Nat) (mmapId : Int)
    (s : State .carfield) : Except Fault (Int × State .carfield) :=
  match cardIoctl env (iowr 'C'.toNat 3) (mapVirtToPhysChunk sizeB vAddr pAddr mmapId)
    s with
  | .fault f => .error f
  | .ret r _ s' => .ok (libcIoctl r, s')

/-- Whenever 0 is returned, the device sees the user's bytes from `p_addr` on. -/
def MapsRequested (env : Env) (sizeB vAddr pAddr : Nat) (mmapId : Int)
    (s : State .carfield) (page : Nat → Nat) : Prop :=
  ∀ s', heroIommuMapVirtToPhys env sizeB vAddr pAddr mmapId s = .ok (0, s') →
    Maps s'.iommuDomain pAddr sizeB page vAddr

/-- The request is turned away, or it asks for the address that the driver derives from
`v_addr`, all the user's pages are pinned, and no `iommu_map` runs out of memory. -/
def MapVirtToPhysOk (env : Env) (sizeB vAddr pAddr : Nat) (page : Nat → Nat) : Prop :=
  ¬ CallsSucceed env ∨ (∃ fs, env.gup = .pages fs ∧ fs.length < sizeB / PAGE_SIZE) ∨
    pAddr = iovaOf vAddr ∧ ∀ i < sizeB / PAGE_SIZE, env.iommuMap i ∧
      (pinPages env (sizeB / PAGE_SIZE)).2.getD i env.nullFrame = page (vAddr / PAGE_SIZE + i)

theorem virt_to_phys_success_iff :
    heroIommuMapVirtToPhys env sizeB vAddr pAddr mmapId s = .ok (0, s') ↔
      CallsSucceed env ∧ ¬ Rejected env sizeB ∧ 0 ≤ toInt32 (sizeB >>> PAGE_SHIFT) ∧
        s' = afterMap env s (mapVirtToPhysChunk sizeB vAddr pAddr mmapId) := by
  constructor
  · intro heq
    unfold heroIommuMapVirtToPhys at heq
    split at heq
    · cases heq
    · next r o t hret =>
      obtain ⟨hr, rfl⟩ := Prod.mk.inj (Except.ok.inj heq)
      obtain rfl := libcIoctl_eq_zero_iff.mp hr
      obtain ⟨a, rfl⟩ := iommuMap_sends_back hret
      obtain ⟨hcalls, hrej, hnn, -, rfl⟩ := cardIoctl_iommuMap_ok_iff.mp hret
      exact ⟨hcalls, hrej, hnn, rfl⟩
  · rintro ⟨hcalls, hrej, hnn, rfl⟩
    have hret : cardIoctl env (iowr 'C'.toNat 3)
        (mapVirtToPhysChunk sizeB vAddr pAddr mmapId) s =
        .ret 0 (some { mapVirtToPhysChunk sizeB vAddr pAddr mmapId with
          resultPhysAddr := iovaOf vAddr })
          (afterMap env s (mapVirtToPhysChunk sizeB vAddr pAddr mmapId)) :=
      cardIoctl_iommuMap_ok_iff.mpr ⟨hcalls, hrej, hnn, rfl, rfl⟩
    rw [heroIommuMapVirtToPhys, hret]
    rfl

section WholePages
variable (hv : PAGE_SIZE ∣ vAddr) (hp : PAGE_SIZE ∣ pAddr) (hl : PAGE_SIZE ∣ sizeB)
  (hpos : 0 < sizeB) (hlt : sizeB < 2 ^ 32)
  (hfree : ∀ k < sizeB, s.iommuDomain.translate (pAddr + k) = none)
include hv hp hl hpos hlt hfree

/-- The pages are mapped from `iovaOf vAddr` on, so the window asked for, which was free,
is that one or holds a page without a translation. -/
theorem afterMap_maps_requested_iff (mmapId : Int) :
    Maps (afterMap env s (mapVirtToPhysChunk sizeB vAddr pAddr mmapId)).iommuDomain
        pAddr sizeB page vAddr ↔
      pAddr = iovaOf vAddr ∧ ∀ i < sizeB / PAGE_SIZE, env.iommuMap i ∧
        (pinPages env (sizeB / PAGE_SIZE)).2.getD i env.nullFrame =
          page (vAddr / PAGE_SIZE + i) := by
  have hn := pages_lt_of_size hlt
  have hpages := IommuDomain.free_pages hfree
  have hi : PAGE_SIZE ∣ iovaOf vAddr :=
    Nat.dvd_of_mod_eq_zero ((iovaOf_mod _).trans (Nat.mod_eq_zero_of_dvd hv))
  have hpage (i : Nat) (hin : i < sizeB / PAGE_SIZE) :
      (afterMap env s (mapVirtToPhysChunk sizeB vAddr pAddr mmapId)).iommuDomain
          (pAddr / PAGE_SIZE + i) =
        if iovaOf vAddr / PAGE_SIZE ≤ pAddr / PAGE_SIZE + i ∧
            pAddr / PAGE_SIZE + i < iovaOf vAddr / PAGE_SIZE + sizeB >>> PAGE_SHIFT ∧
            env.iommuMap (pAddr / PAGE_SIZE + i - iovaOf vAddr / PAGE_SIZE) then
          some ((pinPages env (sizeB >>> PAGE_SHIFT)).2.getD
            (pAddr / PAGE_SIZE + i - iovaOf vAddr / PAGE_SIZE) env.nullFrame)
        else none := by
    have hal : PAGE_SIZE ∣
        (mapVirtToPhysChunk sizeB vAddr pAddr mmapId).resultVirtAddr := hv
    have hsz : (mapVirtToPhysChunk sizeB vAddr pAddr mmapId).size >>> PAGE_SHIFT <
        2 ^ 31 := hn
    refine (afterMap_apply hsz hal (pAddr / PAGE_SIZE + i)).trans ?_
    rw [hpages i hin]
    exact Option.none_or
  rw [maps_iff_pages hp hv hl]
  simp only [shiftRight_page] at hpage
  constructor
  · intro h
    have hsome : 0 < sizeB / PAGE_SIZE := Nat.div_pos (Nat.le_of_dvd hpos hl) (by norm_num)
    have hin (i : Nat) (hi' : i < sizeB / PAGE_SIZE) :=
      Option.ite_none_right_eq_some.mp ((hpage i hi').symm.trans (h i hi'))
    -- the first page and the last one pin the window down
    have hfirst := (hin 0 hsome).1.1
    have hlast := (hin (sizeB / PAGE_SIZE - 1) (by omega)).1.2.1
    have hq : pAddr / PAGE_SIZE = iovaOf vAddr / PAGE_SIZE := by omega
    have heq : pAddr = iovaOf vAddr := by
      rw [← Nat.div_mul_cancel hp, hq, Nat.div_mul_cancel hi]
    refine ⟨heq, fun i hi' => ?_⟩
    obtain ⟨⟨-, -, hok⟩, hframe⟩ := hin i hi'
    rw [hq, Nat.add_sub_cancel_left] at hok hframe
    exact ⟨hok, Option.some.inj hframe⟩
  · rintro ⟨heq, h⟩ i hi'
    refine (hpage i hi').trans ?_
    rw [heq, Nat.add_sub_cancel_left, if_pos ⟨Nat.le_add_right _ _, by omega, (h i hi').1⟩,
      (h i hi').2]

/-- A success means that the requested address translates to the user's bytes just when it
is the address that the driver would have chosen anyway. -/
theorem heroIommuMapVirtToPhys_maps_iff
    (herr : ∀ errno, env.gup = .err errno → errno < 2 ^ 31) :
    MapsRequested env sizeB vAddr pAddr mmapId s page ↔
      MapVirtToPhysOk env sizeB vAddr pAddr page := by
  have hsome : sizeB >>> PAGE_SHIFT ≠ 0 := by
    rw [shiftRight_page]
    exact (Nat.div_pos (Nat.le_of_dvd hpos hl) (by norm_num)).ne'
  have hn := pages_lt_of_size hlt
  have hrej : Rejected env sizeB ↔
      ∃ fs, env.gup = .pages fs ∧ fs.length < sizeB / PAGE_SIZE := by
    cases hg : env.gup with
    | err errno =>
      rw [rejected_err_iff (hlt.trans (by norm_num)) hg (herr errno hg)]
      exact iff_of_false hsome (by simp)
    | pages fs =>
      rw [rejected_pages_iff hg, or_iff_left hsome, pinPages, hg, toInt32_of_lt hn,
        shiftRight_page, getUserPagesFast, Int.toNat_natCast, List.length_take]
      constructor
      · exact fun h => ⟨fs, rfl, by omega⟩
      · rintro ⟨fs', heq, h⟩
        obtain rfl := Gup.pages.inj heq
        omega
  unfold MapVirtToPhysOk
  rw [← hrej, ← afterMap_maps_requested_iff hv hp hl hpos hlt hfree mmapId]
  have hnn : 0 ≤ toInt32 (sizeB >>> PAGE_SHIFT) := by
    rw [toInt32_of_lt hn]
    exact Int.natCast_nonneg _
  constructor
  · intro h
    by_cases hcalls : CallsSucceed env
    · by_cases hr : Rejected env sizeB
      · exact .inr (.inl hr)
      · exact .inr (.inr (h _ (virt_to_phys_success_iff.mpr ⟨hcalls, hr, hnn, rfl⟩)))
    · exact .inl hcalls
  · intro h s' hret
    obtain ⟨hcalls, hr, -, rfl⟩ := virt_to_phys_success_iff.mp hret
    exact (h.resolve_left (not_not.mpr hcalls)).resolve_left hr

end WholePages

theorem heroIommuMapVirtToPhys_maps_two_pages :
    MapsRequested (.pinning id 0x400000 2) 0x2000 0x400000 0x80400000 0
      (.probed fun _ => ⟨0, 0, 0⟩) id := by
  have hok : MapVirtToPhysOk (.pinning id 0x400000 2) 0x2000 0x400000 0x80400000 id := by
    refine .inr (.inr ⟨by decide, fun i hi => ⟨rfl, ?_⟩⟩)
    have hi : i < 2 := hi
    match i with
    | 0 => rfl
    | 1 => rfl
  exact (heroIommuMapVirtToPhys_maps_iff (by decide) (by decide) (by decide) (by norm_num)
    (by norm_num) (fun _ _ => rfl) fun _ h => by cases h).mpr hok

theorem heroIommuMapVirtToPhys_not_maps :
    ¬ MapsRequested (.pinning id 0x400000 2) 0x2000 0x400000 0x90000000 0
      (.probed fun _ => ⟨0, 0, 0⟩) id := by
  intro h
  have hmaps := h _ rfl 0 (by norm_num)
  exact absurd hmaps (by decide)

end HeroTools.Libhero
