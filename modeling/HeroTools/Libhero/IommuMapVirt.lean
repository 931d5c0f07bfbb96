import HeroTools.Driver.IommuMap

/-! `hero_iommu_map_virt`: when the device sees the user's bytes at the address returned. -/

namespace HeroTools.Libhero
open Driver
variable {env : Env} {sizeB vAddr iova : Nat} {mmapId : Int} {s s' : State .carfield}
  {page : Nat → Nat}

def mapVirtChunk (sizeB vAddr : Nat) (mmapId : Int) : CardIoctlArg where
  size := sizeB
  resultPhysAddr := 0
  resultVirtAddr := vAddr
  mmapId := mmapId

def heroIommuMapVirt (env : Env) (sizeB vAddr : Nat) (mmapId : Int)
    (s : State .carfield) : Except Fault (Nat × State .carfield) :=
  match cardIoctl env (iowr 'C'.toNat 3) (mapVirtChunk sizeB vAddr mmapId) s with
  | .fault f => .error f
  | .ret err arg s' =>
    .ok (if err = 0 then (arg.map CardIoctlArg.resultPhysAddr).getD 0 else 0, s')

theorem map_virt_success_iff (h : PinsAll env page (mapVirtChunk sizeB vAddr mmapId)) :
    heroIommuMapVirt env sizeB vAddr mmapId s = .ok (iova, s') ∧ iova ≠ 0 ↔
      CallsSucceed env ∧ 0 < sizeB >>> PAGE_SHIFT ∧ sizeB >>> PAGE_SHIFT < 2 ^ 31 ∧
        iova = iovaOf vAddr ∧ s' = afterMap env s (mapVirtChunk sizeB vAddr mmapId) := by
  constructor
  · rintro ⟨heq, hne⟩
    unfold heroIommuMapVirt at heq
    split at heq
    · cases heq
    · next err arg t hret =>
      obtain ⟨rfl, rfl⟩ := Prod.mk.inj (Except.ok.inj heq)
      by_cases herr : err = 0
      · subst herr
        cases arg with
        | none => exact absurd rfl hne
        | some a =>
          obtain ⟨hcalls, hpos, hlt, rfl, rfl⟩ := (cardIoctl_iommuMap_iff h).mp hret
          exact ⟨hcalls, hpos, hlt, rfl, rfl⟩
      · exact absurd (if_neg herr) hne
  · rintro ⟨hcalls, hpos, hlt, rfl, rfl⟩
    have hret := (cardIoctl_iommuMap_iff (s := s) h).mpr ⟨hcalls, hpos, hlt, rfl, rfl⟩
    refine ⟨?_, by unfold iovaOf; omega⟩
    unfold heroIommuMapVirt
    rw [hret]
    rfl

/-- Whenever an address is returned, the device sees the user's bytes there. -/
def MapsUser (env : Env) (sizeB vAddr : Nat) (mmapId : Int) (s : State .carfield)
    (page : Nat → Nat) : Prop :=
  ∀ iova s', heroIommuMapVirt env sizeB vAddr mmapId s = .ok (iova, s') → iova ≠ 0 →
    Maps s'.iommuDomain iova sizeB page vAddr

/-- The request is turned away, or it is for whole pages at a page boundary and no
`iommu_map` runs out of memory. -/
def MapVirtOk (env : Env) (sizeB vAddr : Nat) : Prop :=
  sizeB < PAGE_SIZE ∨ ¬ CallsSucceed env ∨
    PAGE_SIZE ∣ vAddr ∧ PAGE_SIZE ∣ sizeB ∧ ∀ i < sizeB / PAGE_SIZE, env.iommuMap i

theorem not_maps_of_not_dvd (arg : CardIoctlArg) (h : ¬ PAGE_SIZE ∣ arg.resultVirtAddr)
    (hpos : 0 < arg.size)
    (hfree : s.iommuDomain.translate (iovaOf arg.resultVirtAddr) = none) :
    ¬ Maps (afterMap env s arg).iommuDomain (iovaOf arg.resultVirtAddr) arg.size page
      arg.resultVirtAddr := by
  intro hmaps
  have hdvd : ¬ PAGE_SIZE ∣ iovaOf arg.resultVirtAddr := by
    rw [Nat.dvd_iff_mod_eq_zero, iovaOf_mod, ← Nat.dvd_iff_mod_eq_zero]
    exact h
  have hsame : (afterMap env s arg).iommuDomain = s.iommuDomain := mapPages_of_not_dvd hdvd
  have h0 := hmaps 0 hpos
  rw [hsame, Nat.add_zero, hfree] at h0
  cases h0

theorem dvd_of_maps {arg : CardIoctlArg} (h : PinsAll env page arg)
    (hn : arg.size >>> PAGE_SHIFT < 2 ^ 31) (hal : PAGE_SIZE ∣ arg.resultVirtAddr)
    (hfree : ∀ k < arg.size,
      s.iommuDomain.translate (iovaOf arg.resultVirtAddr + k) = none)
    (hmaps : Maps (afterMap env s arg).iommuDomain (iovaOf arg.resultVirtAddr) arg.size page
      arg.resultVirtAddr) : PAGE_SIZE ∣ arg.size := by
  by_contra hl
  -- the first byte behind the last whole page has no translation
  have hk : PAGE_SIZE * (arg.size / PAGE_SIZE) < arg.size :=
    lt_of_le_of_ne (Nat.mul_div_le _ _) fun heq => hl ⟨_, heq.symm⟩
  have hnone := IommuDomain.translate_eq_none.mp (hfree _ hk)
  rw [Nat.add_mul_div_left _ _ (by norm_num)] at hnone
  have hlast := hmaps _ hk
  rw [IommuDomain.translate, Nat.add_mul_div_left _ _ (by norm_num), afterMap_page h hn hal,
    hnone, shiftRight_page, if_neg (by omega)] at hlast
  cases hlast

theorem mapsUser_iff_maps (hpin : PinsAll env page (mapVirtChunk sizeB vAddr mmapId))
    (hcalls : CallsSucceed env) (hpos : 0 < sizeB >>> PAGE_SHIFT)
    (hn : sizeB >>> PAGE_SHIFT < 2 ^ 31) :
    MapsUser env sizeB vAddr mmapId s page ↔
      Maps (afterMap env s (mapVirtChunk sizeB vAddr mmapId)).iommuDomain
        (iovaOf vAddr) sizeB page vAddr := by
  have hok := (map_virt_success_iff (s := s) hpin).mpr ⟨hcalls, hpos, hn, rfl, rfl⟩
  constructor
  · exact fun h => h _ _ hok.1 hok.2
  · intro h iova s' heq hne
    obtain ⟨-, -, -, rfl, rfl⟩ := (map_virt_success_iff hpin).mp ⟨heq, hne⟩
    exact h

theorem mapsUser_of_turned_away (hpin : PinsAll env page (mapVirtChunk sizeB vAddr mmapId))
    (h : ¬ CallsSucceed env ∨ sizeB >>> PAGE_SHIFT = 0) :
    MapsUser env sizeB vAddr mmapId s page := by
  intro iova s' heq hne
  obtain ⟨hcalls, hpos, -⟩ := (map_virt_success_iff hpin).mp ⟨heq, hne⟩
  rcases h with h | h
  · exact absurd hcalls h
  · exact absurd h (Nat.ne_of_gt hpos)

theorem heroIommuMapVirt_maps_iff (hpos : 0 < sizeB) (hlt : sizeB < 2 ^ 32)
    (hpin : PinsAll env page (mapVirtChunk sizeB vAddr mmapId))
    (hfree : ∀ k < sizeB, s.iommuDomain.translate (iovaOf vAddr + k) = none) :
    MapsUser env sizeB vAddr mmapId s page ↔ MapVirtOk env sizeB vAddr := by
  have hn := pages_lt_of_size hlt
  have hpage := IommuDomain.free_pages hfree
  unfold MapVirtOk
  by_cases hcalls : CallsSucceed env
  swap
  · exact iff_of_true (mapsUser_of_turned_away hpin (.inl hcalls)) (.inr (.inl hcalls))
  by_cases hsz : sizeB < PAGE_SIZE
  · refine iff_of_true (mapsUser_of_turned_away hpin (.inr ?_)) (.inl hsz)
    rw [shiftRight_page, Nat.div_eq_of_lt hsz]
  have hsome : 0 < sizeB >>> PAGE_SHIFT := by
    rw [shiftRight_page]
    exact Nat.div_pos (not_lt.mp hsz) (by norm_num)
  rw [mapsUser_iff_maps hpin hcalls hsome hn]
  simp only [hsz, hcalls, not_true_eq_false, false_or]
  constructor
  · intro h
    have hal : PAGE_SIZE ∣ vAddr := by
      by_contra hal
      exact not_maps_of_not_dvd (mapVirtChunk sizeB vAddr mmapId) hal hpos
        (hfree 0 hpos) h
    have hl : PAGE_SIZE ∣ sizeB := dvd_of_maps hpin hn hal hfree h
    exact ⟨hal, hl, (afterMap_maps_iff hpin hn hal hl hpage).mp h⟩
  · rintro ⟨hal, hl, hok⟩
    exact (afterMap_maps_iff hpin hn hal hl hpage).mpr hok

theorem heroIommuMapVirt_maps_two_pages :
    MapsUser (.pinning id 0x400000 2) 0x2000 0x400000 0 (.probed fun _ => ⟨0, 0, 0⟩) id ↔
      MapVirtOk (.pinning id 0x400000 2) 0x2000 0x400000 :=
  heroIommuMapVirt_maps_iff (by norm_num) (by norm_num) rfl fun _ _ => rfl

theorem heroIommuMapVirt_not_maps :
    let s : State .carfield := .probed fun _ => ⟨0, 0, 0⟩
    ¬ MapsUser (.pinning id 0x400010 1) 0x1000 0x400010 0 s id ∧
    ¬ MapsUser (.pinning id 0x400000 1) 0x1800 0x400000 0 s id := by
  intro s
  have hcalls (v : Nat) : CallsSucceed (.pinning id v 1) := ⟨rfl, rfl, rfl, rfl, rfl⟩
  constructor
  · intro h
    have hpin : PinsAll (.pinning id 0x400010 1) id (mapVirtChunk 0x1000 0x400010 0) := rfl
    have hok := (map_virt_success_iff (s := s) hpin).mpr
      ⟨hcalls 0x400010, by decide, by decide, rfl, rfl⟩
    exact not_maps_of_not_dvd _ (by decide) (by decide) rfl (h _ _ hok.1 hok.2)
  · intro h
    have hpin : PinsAll (.pinning id 0x400000 1) id (mapVirtChunk 0x1800 0x400000 0) := rfl
    have hok := (map_virt_success_iff (s := s) hpin).mpr
      ⟨hcalls 0x400000, by decide, by decide, rfl, rfl⟩
    have hdvd := dvd_of_maps hpin (by decide) (by decide) (fun _ _ => rfl) (h _ _ hok.1 hok.2)
    exact absurd hdvd (by decide)

end HeroTools.Libhero
