import HeroTools.Driver.Ioctl
import HeroTools.Lib.Lts
import HeroTools.Lib.Parts

/-! IOCTL_IOMMU_MAP: what `hero_iommu_region_add` does to the translations, and what a
sequence of successful requests leaves behind. -/

namespace HeroTools.Driver
variable {env : Env} {frames : List Nat} {iova n p : Nat} {d : IommuDomain}

/-! ## The loop over the pages -/

theorem mapPages_of_not_dvd (h : ¬ PAGE_SIZE ∣ iova) : mapPages env frames iova d n = d := by
  induction n with
  | zero => rfl
  | succ i ih =>
    have hne : (iova + PAGE_SIZE * i) % 2 ^ 64 % PAGE_SIZE ≠ 0 := by
      rw [Nat.mod_mod_of_dvd _ (by norm_num), Nat.add_mul_mod_self_left]
      exact fun h0 => h (Nat.dvd_of_mod_eq_zero h0)
    rw [mapPages, ih, iommuMap, if_pos hne]

theorem iommuMap_apply {ok : Bool} {addr frame : Nat} (h : addr % PAGE_SIZE = 0) :
    (iommuMap ok d addr frame).2 p =
      (d p).or (if p = addr / PAGE_SIZE ∧ ok then some frame else none) := by
  unfold iommuMap
  rw [if_neg (not_not.mpr h)]
  by_cases hp : p = addr / PAGE_SIZE
  · subst hp
    cases hd : d (addr / PAGE_SIZE) <;> cases ok <;> simp [hd]
  · rw [if_neg (show ¬ (p = addr / PAGE_SIZE ∧ _) from fun h => hp h.1), Option.or_none]
    split_ifs
    · rfl
    · exact Function.update_of_ne hp ..
    · rfl

theorem mapPages_apply (hal : PAGE_SIZE ∣ iova) (hle : iova + PAGE_SIZE * n ≤ 2 ^ 64) :
    mapPages env frames iova d n p =
      (d p).or (if iova / PAGE_SIZE ≤ p ∧ p < iova / PAGE_SIZE + n ∧
          env.iommuMap (p - iova / PAGE_SIZE) then
        some (frames.getD (p - iova / PAGE_SIZE) env.nullFrame) else none) := by
  obtain ⟨q, rfl⟩ := hal
  have hq : PAGE_SIZE * q / PAGE_SIZE = q := Nat.mul_div_cancel_left q (by norm_num)
  rw [hq]
  induction n with
  | zero =>
    rw [if_neg (by omega), Option.or_none]
    rfl
  | succ i ih =>
    have hlt : PAGE_SIZE * q + PAGE_SIZE * i < 2 ^ 64 := by
      simp only [PAGE_SIZE] at hle ⊢
      omega
    have haddr : PAGE_SIZE * q + PAGE_SIZE * i = PAGE_SIZE * (q + i) := (Nat.mul_add ..).symm
    rw [mapPages, Nat.mod_eq_of_lt hlt, haddr,
      iommuMap_apply (Nat.mul_mod_right PAGE_SIZE (q + i)),
      Nat.mul_div_cancel_left _ (by norm_num), ih (by simp only [PAGE_SIZE] at hle ⊢; omega)]
    cases d p with
    | some f => rfl
    | none =>
      simp only [Option.none_or]
      by_cases hp : p = q + i
      · subst hp
        simp only [Nat.add_sub_cancel_left]
        rw [if_neg (by omega), Option.none_or]
        congr 1
        simp
      · rw [if_neg (show ¬ (p = q + i ∧ _) from fun h => hp h.1), Option.or_none]
        have hiff : p < q + (i + 1) ↔ p < q + i := by omega
        simp only [hiff]

theorem IommuDomain.translate_eq_none {a : Nat} :
    d.translate a = none ↔ d (a / PAGE_SIZE) = none := Option.map_eq_none_iff

/-! ## Pages of a user -/

def physOf (page : Nat → Nat) (a : Nat) : Nat := page (a / PAGE_SIZE) * PAGE_SIZE + a % PAGE_SIZE

def userFrames (page : Nat → Nat) (a n : Nat) : List Nat :=
  (List.range n).map fun i => page (a / PAGE_SIZE + i)

@[simp] theorem userFrames_length (page : Nat → Nat) (a n : Nat) :
    (userFrames page a n).length = n := by
  rw [userFrames, List.length_map, List.length_range]

theorem userFrames_getD (page : Nat → Nat) (a : Nat) {i n : Nat} (h : i < n) (x : Nat) :
    (userFrames page a n).getD i x = page (a / PAGE_SIZE + i) := by
  simp [userFrames, h]

section Request
variable {s s' : State .carfield} {arg a : CardIoctlArg} {page : Nat → Nat}

theorem iovaOf_mod (v : Nat) : iovaOf v % PAGE_SIZE = v % PAGE_SIZE := by
  simp only [iovaOf, PAGE_SIZE]
  omega

/-- `get_user_pages_fast` pins every page it is asked for. -/
def PinsAll (env : Env) (page : Nat → Nat) (arg : CardIoctlArg) : Prop :=
  env.gup = .pages (userFrames page arg.resultVirtAddr (arg.size >>> PAGE_SHIFT))

def Env.pinning (page : Nat → Nat) (userAddr n : Nat) : Env :=
  { Env.sound with gup := .pages (userFrames page userAddr n) }

theorem pages_lt_of_size {size : Nat} (h : size < 2 ^ 32) : size >>> PAGE_SHIFT < 2 ^ 31 := by
  rw [shiftRight_page]
  simp only [PAGE_SIZE]
  omega

theorem pinPages_of_pinsAll (h : PinsAll env page arg) (hn : arg.size >>> PAGE_SHIFT < 2 ^ 31) :
    pinPages env (arg.size >>> PAGE_SHIFT) = (((arg.size >>> PAGE_SHIFT : Nat) : Int),
      userFrames page arg.resultVirtAddr (arg.size >>> PAGE_SHIFT)) := by
  rw [pinPages, h, toInt32_of_lt hn, getUserPagesFast, Int.toNat_natCast,
    List.take_of_length_le (userFrames_length ..).le, userFrames_length]

theorem rejected_iff (h : PinsAll env page arg) :
    Rejected env arg.size ↔
      arg.size >>> PAGE_SHIFT = 0 ∨ 2 ^ 31 ≤ arg.size >>> PAGE_SHIFT := by
  unfold Rejected
  by_cases hn : arg.size >>> PAGE_SHIFT < 2 ^ 31
  · rw [pinPages_of_pinsAll h hn, toUlong_natCast (hn.trans (by norm_num))]
    omega
  · have hlt : (toInt32 (arg.size >>> PAGE_SHIFT)).toNat < 2 ^ 31 := by
      unfold toInt32
      split_ifs <;> omega
    have hpin : (pinPages env (arg.size >>> PAGE_SHIFT)).1 =
        ((toInt32 (arg.size >>> PAGE_SHIFT)).toNat : Nat) := by
      rw [pinPages, h, getUserPagesFast, List.length_take, userFrames_length, min_eq_left]
      omega
    rw [hpin, toUlong_natCast (hlt.trans (by norm_num))]
    omega

def CallsSucceed (env : Env) : Prop :=
  env.copyFromUser ∧ env.kcalloc ∧ env.kmallocNode ∧ env.kmallocData ∧ env.copyToUser

theorem cardIoctl_iommuMap (env : Env) (arg : CardIoctlArg) (s : State .carfield) :
    cardIoctl env (iowr 'C'.toNat 3) arg s =
      if env.copyFromUser then ioctlIommuMap env arg s else .ret (-EFAULT) none s := by
  unfold cardIoctl
  rw [Board.command_iommuMap]
  cases env.copyFromUser <;> rfl

theorem cardIoctl_iommuMap_ok_iff :
    cardIoctl env (iowr 'C'.toNat 3) arg s = .ret 0 (some a) s' ↔
      CallsSucceed env ∧ ¬ Rejected env arg.size ∧ 0 ≤ toInt32 (arg.size >>> PAGE_SHIFT) ∧
        a = { arg with resultPhysAddr := iovaOf arg.resultVirtAddr } ∧
        s' = regionAdded env s arg.resultVirtAddr (iovaOf arg.resultVirtAddr) arg.size := by
  rw [cardIoctl_iommuMap]
  unfold CallsSucceed ioctlIommuMap
  cases hc : env.copyFromUser with
  | false => simp
  | true =>
  cases hk : env.kcalloc with
  | false =>
    rcases region_add_no_array (s := s) hk with hadd | hadd <;> simp only [if_true] <;>
      rw [hadd] <;> simp
  | true =>
  by_cases hr : Rejected env arg.size
  · simp only [if_true, region_add_rejected hk hr]
    constructor
    · intro heq
      cases heq
    · rintro ⟨-, hn, -⟩
      exact absurd hr hn
  -- the pages are pinned, mapped and counted; only the list nodes and the copy may fail
  · simp only [if_true, region_add_accepted hk hr]
    by_cases hm : env.kmallocNode ∧ env.kmallocData
    · rw [if_pos hm]
      by_cases hneg : toInt32 (arg.size >>> PAGE_SHIFT) < 0
      · simp only [if_pos hneg]
        constructor
        · intro heq
          exact absurd (Outcome.ret.inj heq).1 hneg.ne
        · rintro ⟨-, -, hnn, -⟩
          omega
      · simp only [if_neg hneg, sendBack]
        cases env.copyToUser with
        | false => simp
        | true =>
          simp only [if_true, Outcome.ret.injEq, true_and, Option.some.injEq, and_true]
          constructor
          · rintro ⟨rfl, rfl⟩
            exact ⟨hm, hr, not_lt.mp hneg, rfl, rfl⟩
          · rintro ⟨-, -, -, rfl, rfl⟩
            exact ⟨rfl, rfl⟩
    · rw [if_neg hm]
      constructor
      · intro heq
        cases heq
      · rintro ⟨⟨-, -, hnode, hdata, -⟩, -⟩
        exact absurd ⟨hnode, hdata⟩ hm

theorem iommuMap_sends_back {o : Option CardIoctlArg}
    (h : cardIoctl env (iowr 'C'.toNat 3) arg s = .ret 0 o s') : ∃ a, o = some a := by
  rw [cardIoctl_iommuMap] at h
  split_ifs at h
  · unfold ioctlIommuMap at h
    simp only at h
    split at h
    · cases h
    · next err t hadd =>
      split_ifs at h with hneg
      · exact absurd (Outcome.ret.inj h).1 hneg.ne
      · rcases (ret_of_sendBack h).2 with ⟨-, ho⟩ | ⟨h0, -⟩
        · exact ⟨_, ho⟩
        · exact absurd h0 (by decide)
  · exact absurd (Outcome.ret.inj h).1 (by decide)

theorem cardIoctl_iommuMap_iff (h : PinsAll env page arg) :
    cardIoctl env (iowr 'C'.toNat 3) arg s = .ret 0 (some a) s' ↔
      CallsSucceed env ∧ 0 < arg.size >>> PAGE_SHIFT ∧ arg.size >>> PAGE_SHIFT < 2 ^ 31 ∧
        a = { arg with resultPhysAddr := iovaOf arg.resultVirtAddr } ∧
        s' = regionAdded env s arg.resultVirtAddr (iovaOf arg.resultVirtAddr) arg.size := by
  rw [cardIoctl_iommuMap_ok_iff, rejected_iff h]
  refine and_congr_right fun _ => ?_
  constructor
  · rintro ⟨hr, -, heq⟩
    rw [not_or, not_le] at hr
    exact ⟨Nat.pos_of_ne_zero hr.1, hr.2, heq⟩
  · rintro ⟨hpos, hlt, heq⟩
    refine ⟨?_, ?_, heq⟩
    · rw [not_or, not_le]
      exact ⟨hpos.ne', hlt⟩
    · rw [toInt32_of_lt hlt]
      exact Int.natCast_nonneg _

/-! ## The translations of one request -/

def afterMap (env : Env) (s : State .carfield) (arg : CardIoctlArg) : State .carfield :=
  regionAdded env s arg.resultVirtAddr (iovaOf arg.resultVirtAddr) arg.size

theorem afterMap_apply (hn : arg.size >>> PAGE_SHIFT < 2 ^ 31)
    (hal : PAGE_SIZE ∣ arg.resultVirtAddr) (p : Nat) :
    let q := iovaOf arg.resultVirtAddr / PAGE_SIZE
    (afterMap env s arg).iommuDomain p =
      (s.iommuDomain p).or
        (if q ≤ p ∧ p < q + arg.size >>> PAGE_SHIFT ∧ env.iommuMap (p - q) then
          some ((pinPages env (arg.size >>> PAGE_SHIFT)).2.getD (p - q) env.nullFrame)
        else none) := by
  have hal' : PAGE_SIZE ∣ iovaOf arg.resultVirtAddr :=
    Nat.dvd_of_mod_eq_zero ((iovaOf_mod _).trans (Nat.mod_eq_zero_of_dvd hal))
  have hle : iovaOf arg.resultVirtAddr + PAGE_SIZE * (arg.size >>> PAGE_SHIFT) ≤ 2 ^ 64 := by
    have := Nat.mod_lt arg.resultVirtAddr (show 0 < 0x40000000 by norm_num)
    simp only [iovaOf, PAGE_SIZE]
    omega
  exact mapPages_apply hal' hle

theorem afterMap_page (h : PinsAll env page arg) (hn : arg.size >>> PAGE_SHIFT < 2 ^ 31)
    (hal : PAGE_SIZE ∣ arg.resultVirtAddr) (p : Nat) :
    let q := iovaOf arg.resultVirtAddr / PAGE_SIZE
    (afterMap env s arg).iommuDomain p =
      (s.iommuDomain p).or
        (if q ≤ p ∧ p < q + arg.size >>> PAGE_SHIFT ∧ env.iommuMap (p - q) then
          some (page (arg.resultVirtAddr / PAGE_SIZE + (p - q))) else none) := by
  intro q
  refine (afterMap_apply hn hal p).trans ?_
  rw [pinPages_of_pinsAll h hn]
  congr 1
  split_ifs with hp
  · rw [userFrames_getD page _ (by omega)]
  · rfl

theorem IommuDomain.free_pages {length : Nat} (h : ∀ k < length, d.translate (iova + k) = none) :
    ∀ i < length / PAGE_SIZE, d (iova / PAGE_SIZE + i) = none := by
  intro i hi
  have hk : PAGE_SIZE * i < length := by
    have := Nat.mul_div_le length PAGE_SIZE
    have := Nat.mul_lt_mul_of_pos_left hi (show 0 < PAGE_SIZE by norm_num)
    omega
  have hnone := IommuDomain.translate_eq_none.mp (h _ hk)
  rwa [Nat.add_mul_div_left _ _ (by norm_num)] at hnone

/-- Bytes that translate to the bytes of a user, from `iova` on. -/
def Maps (d : IommuDomain) (iova length : Nat) (page : Nat → Nat) (userAddr : Nat) : Prop :=
  ∀ k < length, d.translate (iova + k) = some (physOf page (userAddr + k))

theorem maps_iff_pages {length v : Nat} (hi : PAGE_SIZE ∣ iova) (hv : PAGE_SIZE ∣ v)
    (hl : PAGE_SIZE ∣ length) :
    Maps d iova length page v ↔
      ∀ i < length / PAGE_SIZE, d (iova / PAGE_SIZE + i) = some (page (v / PAGE_SIZE + i)) := by
  obtain ⟨q, rfl⟩ := hi
  obtain ⟨w, rfl⟩ := hv
  obtain ⟨n, rfl⟩ := hl
  have hpos : 0 < PAGE_SIZE := by norm_num
  have hdiv (x k : Nat) : (PAGE_SIZE * x + k) / PAGE_SIZE = x + k / PAGE_SIZE := by
    rw [Nat.mul_add_div hpos]
  simp only [Maps, IommuDomain.translate, physOf, hdiv, Nat.mul_add_mod,
    Nat.mul_div_cancel_left _ hpos]
  constructor
  · intro h i hin
    have hk := h (PAGE_SIZE * i) (Nat.mul_lt_mul_of_pos_left hin hpos)
    rw [Nat.mul_div_cancel_left _ hpos, Option.map_eq_some_iff] at hk
    obtain ⟨f, hf, heq⟩ := hk
    rw [hf]
    have := Nat.eq_of_mul_eq_mul_right hpos (Nat.add_right_cancel heq)
    rw [this]
  · intro h k hk
    rw [h (k / PAGE_SIZE) (Nat.div_lt_of_lt_mul hk)]
    rfl

theorem afterMap_maps_iff (h : PinsAll env page arg)
    (hn : arg.size >>> PAGE_SHIFT < 2 ^ 31) (hal : PAGE_SIZE ∣ arg.resultVirtAddr)
    (hl : PAGE_SIZE ∣ arg.size)
    (hfree : ∀ i < arg.size / PAGE_SIZE,
      s.iommuDomain (iovaOf arg.resultVirtAddr / PAGE_SIZE + i) = none) :
    Maps (afterMap env s arg).iommuDomain (iovaOf arg.resultVirtAddr) arg.size page
        arg.resultVirtAddr ↔
      ∀ i < arg.size / PAGE_SIZE, env.iommuMap i := by
  have hal' : PAGE_SIZE ∣ iovaOf arg.resultVirtAddr :=
    Nat.dvd_of_mod_eq_zero ((iovaOf_mod _).trans (Nat.mod_eq_zero_of_dvd hal))
  rw [maps_iff_pages hal' hal hl]
  refine forall₂_congr fun i hi => ?_
  rw [afterMap_page h hn hal, hfree i hi, Option.none_or, shiftRight_page,
    Nat.add_sub_cancel_left]
  cases env.iommuMap i <;> simp [hi]

end Request

end HeroTools.Driver
