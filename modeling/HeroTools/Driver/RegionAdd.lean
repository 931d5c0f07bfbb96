import HeroTools.Driver.IommuMap

/-! `hero_iommu_region_add`: when the value that it returns tells whether the user's pages
are mapped. -/

namespace HeroTools.Driver
variable {b : Board} {env : Env} {s : State b} {frames : List Nat} {d : IommuDomain}
  {userAddr iova length n p : Nat}

def mapResult (env : Env) (frames : List Nat) (iova : Nat) (d : IommuDomain) (i : Nat) : Int :=
  (iommuMap (env.iommuMap i) (mapPages env frames iova d i)
    ((iova + PAGE_SIZE * i) % 2 ^ 64) (frames.getD i env.nullFrame)).1

/-- Every page of the request is pinned and mapped; without an array for the pages none
is. -/
structure AllMapped (env : Env) (s : State b) (iova length : Nat) : Prop where
  some_page : 0 < length >>> PAGE_SHIFT
  array : env.kcalloc
  pinned : (pinPages env (length >>> PAGE_SHIFT)).2.length = length >>> PAGE_SHIFT
  mapped : ∀ i < length >>> PAGE_SHIFT,
    mapResult env (pinPages env (length >>> PAGE_SHIFT)).2 iova s.iommuDomain i = 0

/-- A value that is not negative is returned only for pages that are all mapped, and in
every other case a negative one is. -/
structure ReportsTruly (env : Env) (s : State b) (userAddr iova length : Nat) : Prop where
  only_if : ∀ r s', heroIommuRegionAdd env s userAddr iova length = .ok (r, s') → 0 ≤ r →
    AllMapped env s iova length
  otherwise : ¬ AllMapped env s iova length →
    ∃ r s', heroIommuRegionAdd env s userAddr iova length = .ok (r, s') ∧ r < 0

theorem reportsTruly_iff : ReportsTruly env s userAddr iova length ↔
    AllMapped env s iova length ∨
      ∃ r s', heroIommuRegionAdd env s userAddr iova length = .ok (r, s') ∧ r < 0 := by
  constructor
  · intro h
    by_cases ha : AllMapped env s iova length
    · exact .inl ha
    · exact .inr (h.otherwise ha)
  · intro h
    refine ⟨fun r s' hret hr => ?_, fun ha => h.resolve_left ha⟩
    refine h.resolve_right ?_
    rintro ⟨r', t, hret', hneg⟩
    rw [hret] at hret'
    obtain ⟨rfl, -⟩ := Prod.mk.inj (Except.ok.inj hret')
    omega

/-- What the code would have to check. `get_user_pages_fast` gives no error, unless its
callers are told so by an `int` that overflows; and once it has pinned all of the pages
every one of them can be mapped. -/
def RegionAddOk (env : Env) (s : State b) (iova length : Nat) : Prop :=
  let nrPages := length >>> PAGE_SHIFT
  nrPages = 0 ∨ match env.gup with
    | .err _ => env.kcalloc ∧ env.kmallocNode ∧ env.kmallocData ∧ toInt32 nrPages < 0
    | .pages _ =>
      let pages := (pinPages env nrPages).2
      if pages.length < nrPages then env.kcalloc ∨ pages = []
      else env.kcalloc ∧ PAGE_SIZE ∣ iova ∧ ∀ i < nrPages, env.iommuMap i ∧
        s.iommuDomain ((iova + PAGE_SIZE * i) % 2 ^ 64 / PAGE_SIZE) = none

/-! ## The results of the loop -/

theorem iommuMap_of_ne {ok : Bool} {addr frame : Nat} (h : p ≠ addr / PAGE_SIZE) :
    (iommuMap ok d addr frame).2 p = d p := by
  unfold iommuMap
  split_ifs
  · rfl
  · rfl
  · exact Function.update_of_ne h ..
  · rfl

theorem mapPages_of_ne (h : ∀ j < n, p ≠ (iova + PAGE_SIZE * j) % 2 ^ 64 / PAGE_SIZE) :
    mapPages env frames iova d n p = d p := by
  induction n with
  | zero => rfl
  | succ i ih =>
    rw [mapPages, iommuMap_of_ne (h i i.lt_succ_self)]
    exact ih fun j hj => h j (hj.trans i.lt_succ_self)

theorem ioPage_ne (hal : PAGE_SIZE ∣ iova) {i j : Nat} (hj : j < i) (hi : i < 2 ^ 52) :
    (iova + PAGE_SIZE * i) % 2 ^ 64 / PAGE_SIZE ≠ (iova + PAGE_SIZE * j) % 2 ^ 64 / PAGE_SIZE := by
  obtain ⟨q, rfl⟩ := hal
  simp only [PAGE_SIZE]
  omega

theorem iommuMap_eq_zero_iff {ok : Bool} {addr frame : Nat} :
    (iommuMap ok d addr frame).1 = 0 ↔
      addr % PAGE_SIZE = 0 ∧ d (addr / PAGE_SIZE) = none ∧ ok := by
  unfold iommuMap
  by_cases hal : addr % PAGE_SIZE = 0
  · cases hd : d (addr / PAGE_SIZE) <;> cases ok <;> simp [hal]
  · simp [hal]

theorem mapResult_eq_zero_iff {i : Nat} (hi : i < 2 ^ 52) :
    mapResult env frames iova d i = 0 ↔
      PAGE_SIZE ∣ iova ∧ env.iommuMap i ∧
        d ((iova + PAGE_SIZE * i) % 2 ^ 64 / PAGE_SIZE) = none := by
  have hmod : (iova + PAGE_SIZE * i) % 2 ^ 64 % PAGE_SIZE = iova % PAGE_SIZE := by
    rw [Nat.mod_mod_of_dvd _ (by norm_num), Nat.add_mul_mod_self_left]
  rw [mapResult, iommuMap_eq_zero_iff, hmod, ← Nat.dvd_iff_mod_eq_zero]
  refine and_congr_right fun hal => ?_
  rw [mapPages_of_ne fun j hj => ioPage_ne hal hj hi]
  exact and_comm

/-! ## The value returned -/

section Returned
variable (hlen : length < 2 ^ 64)
include hlen

theorem nrPages_lt : length >>> PAGE_SHIFT < 2 ^ 52 := by
  rw [shiftRight_page]
  simp only [PAGE_SIZE]
  omega

/-- An error is a large `unsigned long`, so it passes the comparison. -/
theorem rejected_err_iff {errno : Nat} (hg : env.gup = .err errno) (he : errno < 2 ^ 31) :
    Rejected env length ↔ length >>> PAGE_SHIFT = 0 := by
  have hlt := nrPages_lt hlen
  have hpin : (pinPages env (length >>> PAGE_SHIFT)).1 = -(errno + 1 : Int) := by
    rw [pinPages, hg, getUserPagesFast]
  rw [Rejected, hpin, toUlong]
  omega

omit hlen in
theorem pinPages_count {fs : List Nat} (hg : env.gup = .pages fs) :
    (pinPages env n).1 = ((pinPages env n).2.length : Nat) := by
  rw [pinPages, hg]
  rfl

omit hlen in
theorem pinned_le {fs : List Nat} (hg : env.gup = .pages fs) :
    (pinPages env n).2.length ≤ min n (2 ^ 31) := by
  rw [pinPages, hg]
  show (fs.take (toInt32 n).toNat).length ≤ min n (2 ^ 31)
  rw [List.length_take]
  unfold toInt32
  split_ifs <;> omega

omit hlen in
theorem pinned_full {fs : List Nat} (hg : env.gup = .pages fs)
    (hpin : (pinPages env n).2.length = n) : n < 2 ^ 31 := by
  rw [pinPages, hg] at hpin
  have hlen : (fs.take (toInt32 n).toNat).length = n := hpin
  rw [List.length_take] at hlen
  unfold toInt32 at hlen
  split_ifs at hlen <;> omega

omit hlen in
theorem rejected_pages_iff {fs : List Nat} (hg : env.gup = .pages fs) :
    Rejected env length ↔
      (pinPages env (length >>> PAGE_SHIFT)).2.length < length >>> PAGE_SHIFT ∨
        length >>> PAGE_SHIFT = 0 := by
  have hle := pinned_le (n := length >>> PAGE_SHIFT) hg
  rw [Rejected, pinPages_count hg, toUlong_natCast (by omega)]

end Returned

theorem returns_negative_iff :
    (∃ r s', heroIommuRegionAdd env s userAddr iova length = .ok (r, s') ∧ r < 0) ↔
      Rejected env length ∧ (env.kcalloc ∨ (pinPages env (length >>> PAGE_SHIFT)).2 = []) ∨
      ¬ Rejected env length ∧ env.kcalloc ∧ env.kmallocNode ∧ env.kmallocData ∧
        toInt32 (length >>> PAGE_SHIFT) < 0 := by
  cases hk : env.kcalloc with
  | false =>
    rw [region_add_no_array_eq hk]
    split_ifs with h
    · simp [h]
    · simp [h]
  | true =>
    by_cases hr : Rejected env length
    · rw [region_add_rejected hk hr]
      simp [hr]
    · rw [region_add_accepted hk hr]
      by_cases hm : env.kmallocNode ∧ env.kmallocData
      · rw [if_pos hm]
        simp [hr, hm]
      · rw [if_neg hm]
        simp only [hr, false_and, not_false_eq_true, true_and, false_or, reduceCtorEq, false_and,
          exists_false, false_iff]
        exact fun h => hm ⟨h.1, h.2.1⟩

theorem allMapped_iff (hlen : length < 2 ^ 64) : AllMapped env s iova length ↔
    0 < length >>> PAGE_SHIFT ∧ env.kcalloc ∧
      (pinPages env (length >>> PAGE_SHIFT)).2.length = length >>> PAGE_SHIFT ∧
      PAGE_SIZE ∣ iova ∧ ∀ i < length >>> PAGE_SHIFT, env.iommuMap i ∧
        s.iommuDomain ((iova + PAGE_SIZE * i) % 2 ^ 64 / PAGE_SIZE) = none := by
  have hlt := nrPages_lt hlen
  have hmap (i : Nat) (hi : i < length >>> PAGE_SHIFT) :
      mapResult env (pinPages env (length >>> PAGE_SHIFT)).2 iova s.iommuDomain i = 0 ↔ _ :=
    mapResult_eq_zero_iff (hi.trans hlt)
  constructor
  · rintro ⟨hpos, hk, hpin, hm⟩
    have hal := ((hmap 0 hpos).mp (hm 0 hpos)).1
    exact ⟨hpos, hk, hpin, hal, fun i hi => ((hmap i hi).mp (hm i hi)).2⟩
  · rintro ⟨hpos, hk, hpin, hal, hm⟩
    exact ⟨hpos, hk, hpin, fun i hi => (hmap i hi).mpr ⟨hal, hm i hi⟩⟩

/-- The value returned can be trusted just when the checks that the code leaves out would
have passed. -/
theorem heroIommuRegionAdd_reports_iff (hlen : length < 2 ^ 64)
    (herr : ∀ errno, env.gup = .err errno → errno < 2 ^ 31) :
    ReportsTruly env s userAddr iova length ↔ RegionAddOk env s iova length := by
  rw [reportsTruly_iff, returns_negative_iff, allMapped_iff hlen, RegionAddOk]
  cases hg : env.gup with
  | err errno =>
    have hpin : (pinPages env (length >>> PAGE_SHIFT)).2 = [] := by
      rw [pinPages, hg, getUserPagesFast]
    rw [rejected_err_iff hlen hg (herr errno hg), hpin]
    simp only [List.length_nil, or_true, and_true]
    constructor
    · rintro (⟨hpos, -, h0, -⟩ | h0 | ⟨-, h⟩)
      · exact absurd h0 hpos.ne
      · exact .inl h0
      · exact .inr h
    · rintro (h0 | h)
      · exact .inr (.inl h0)
      · by_cases h0 : length >>> PAGE_SHIFT = 0
        · exact .inr (.inl h0)
        · exact .inr (.inr ⟨h0, h⟩)
  | pages fs =>
    have hle := pinned_le (n := length >>> PAGE_SHIFT) hg
    rw [rejected_pages_iff hg]
    by_cases h0 : length >>> PAGE_SHIFT = 0
    · refine iff_of_true (.inr (.inl ⟨.inr h0, .inr ?_⟩)) (.inl h0)
      rw [← List.length_eq_zero_iff]
      omega
    simp only [h0, or_false, false_or]
    split_ifs with hshort
    · -- too few pages: the request is rejected, if there is an array for those
      constructor
      · rintro (⟨-, -, hpin, -⟩ | ⟨-, h⟩ | ⟨hlong, -⟩)
        · exact absurd hpin hshort.ne
        · exact h
        · exact absurd hshort hlong
      · exact fun h => .inr (.inl ⟨hshort, h⟩)
    -- all pages are pinned, and their number is what is returned
    · have hpin : (pinPages env (length >>> PAGE_SHIFT)).2.length = length >>> PAGE_SHIFT := by
        omega
      have hnn : ¬ toInt32 (length >>> PAGE_SHIFT) < 0 := by
        have hfull := pinned_full hg hpin
        rw [toInt32_of_lt hfull]
        exact not_lt.mpr (Int.natCast_nonneg _)
      constructor
      · rintro (⟨-, hk, -, h⟩ | ⟨hs, -⟩ | ⟨-, -, -, -, hneg⟩)
        · exact ⟨hk, h⟩
        · exact absurd hs hshort
        · exact absurd hneg hnn
      · rintro ⟨hk, h⟩
        exact .inl ⟨Nat.pos_of_ne_zero h0, hk, hpin, h⟩

theorem heroIommuRegionAdd_reports_two_pages :
    let s : State .carfield := .probed fun _ => ⟨0, 0, 0⟩
    ReportsTruly Env.sound s 0x400000 0x80400000 0x2000 ↔
      RegionAddOk Env.sound s 0x80400000 0x2000 :=
  heroIommuRegionAdd_reports_iff (by norm_num) fun _ h => nomatch h

theorem heroIommuRegionAdd_not_reports :
    let s : State .carfield := .probed fun _ => ⟨0, 0, 0⟩
    let unpinned : Env := { Env.sound with gup := .err 13 }
    let unmapped : Env := { Env.sound with iommuMap := fun i => i == 0 }
    ¬ ReportsTruly unpinned s 0x400000 0x80400000 0x2000 ∧
      ¬ ReportsTruly unmapped s 0x400000 0x80400000 0x2000 := by
  intro s unpinned unmapped
  constructor
  · intro h
    have hall := h.only_if 2 _ rfl (by norm_num)
    exact absurd hall.pinned (by decide)
  · intro h
    have hall := h.only_if 2 _ rfl (by norm_num)
    exact absurd (hall.mapped 1 (by decide)) (by decide)

end HeroTools.Driver
