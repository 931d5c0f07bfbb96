import HeroTools.Ringbuf.InMemory

/-! How far a put and a get are from their ends: a put that finds room and a get that finds
an element come closer with every step of their own. -/

namespace HeroTools.Ringbuf

/-! ## Steps to go -/

def putLeft (es : Nat) : PutPc → Nat
  | .idle => 2 * es + 4
  | .loadHead _ _ => 2 * es + 3
  | .loadTail _ _ _ => 2 * es + 2
  | .copy _ _ _ i => 2 * (es - i) + 1
  | .storeByte _ _ _ i _ => 2 * (es - i)

def getLeft (es : Nat) : GetPc → Nat
  | .idle => 2 * es + 5
  | .loadTail _ _ => 2 * es + 4
  | .loadHead _ _ _ => 2 * es + 3
  | .copy _ _ i => 2 * (es - i) + 2
  | .loadByte _ _ i _ => 2 * (es - i) + 1
  | .storeTail _ _ _ => 1

theorem putLeft_le (es : Nat) (pc : PutPc) : putLeft es pc ≤ 2 * es + 4 := by
  cases pc <;> simp only [putLeft] <;> omega

theorem getLeft_le (es : Nat) (pc : GetPc) : getLeft es pc ≤ 2 * es + 5 := by
  cases pc <;> simp only [getLeft] <;> omega

section
variable {Loc : Type*} {xlat : View → Nat → Loc} {rb : RingBuf} {size es : Nat} {s s' : Sys Loc}
  {q : List (List UInt8)} {e : Event}

theorem put_progress [DecidableEq Loc] (hf : Fits xlat rb size es) (h : Rel xlat rb size es s q)
    (hroom : q.length + 1 < size) (hs : putStep xlat s = some (e, s')) :
    (∃ bs, e = .putOk bs) ∨ label e = none ∧ putLeft es s'.prod < putLeft es s.prod := by
  have hput := h.prod
  unfold putStep at hs
  cases hp : s.prod with
  | idle => simp [hp] at hs
  | loadHead v el =>
    simp only [hp] at hs
    obtain ⟨rfl, rfl⟩ := Prod.mk.inj (Option.some.inj hs)
    exact .inr ⟨rfl, Nat.lt_succ_self _⟩
  | loadTail v el nh =>
    rw [hp] at hput
    have hnh : nh = s.rb.next s.rb.head := hput
    have hfree : nh ≠ s.rb.tail := by
      rw [hnh]
      exact fun hfull => hroom.ne ((h.holds.nextHead_eq_tail hf).mp hfull)
    simp only [hp, if_neg hfree] at hs
    obtain ⟨rfl, rfl⟩ := Prod.mk.inj (Option.some.inj hs)
    exact .inr ⟨rfl, Nat.lt_succ_self _⟩
  | copy v el nh i =>
    simp only [hp, h.holds.elementSize_eq] at hs
    split at hs <;> obtain ⟨rfl, rfl⟩ := Prod.mk.inj (Option.some.inj hs)
    · exact .inr ⟨rfl, Nat.lt_succ_self _⟩
    · exact .inl ⟨_, rfl⟩
  | storeByte v el nh i hd =>
    rw [hp] at hput
    obtain ⟨-, -, hi, -⟩ := hput
    simp only [hp] at hs
    obtain ⟨rfl, rfl⟩ := Prod.mk.inj (Option.some.inj hs)
    refine .inr ⟨rfl, ?_⟩
    simp only [putLeft]
    omega

theorem get_progress (h : Rel xlat rb size es s q) (hq : q ≠ [])
    (hs : getStep xlat s = some (e, s')) :
    (∃ bs, e = .getOk bs) ∨ label e = none ∧ getLeft es s'.cons < getLeft es s.cons := by
  have hget := h.cons
  unfold getStep at hs
  cases hg : s.cons with
  | idle => simp [hg] at hs
  | loadTail v el =>
    simp only [hg] at hs
    obtain ⟨rfl, rfl⟩ := Prod.mk.inj (Option.some.inj hs)
    exact .inr ⟨rfl, Nat.lt_succ_self _⟩
  | loadHead v el t =>
    rw [hg] at hget
    have ht : t = s.rb.tail := hget
    have hne : t ≠ s.rb.head := fun hempty => hq (h.holds.tail_eq_head.mp (ht ▸ hempty))
    simp only [hg, if_neg hne] at hs
    obtain ⟨rfl, rfl⟩ := Prod.mk.inj (Option.some.inj hs)
    exact .inr ⟨rfl, Nat.lt_succ_self _⟩
  | copy v el i =>
    simp only [hg] at hs
    split at hs <;> obtain ⟨rfl, rfl⟩ := Prod.mk.inj (Option.some.inj hs)
    · exact .inr ⟨rfl, Nat.lt_succ_self _⟩
    · refine .inr ⟨rfl, ?_⟩
      simp only [getLeft]
      omega
  | loadByte v el i t =>
    rw [hg] at hget
    obtain ⟨-, hi, -⟩ := hget
    simp only [hg] at hs
    obtain ⟨rfl, rfl⟩ := Prod.mk.inj (Option.some.inj hs)
    refine .inr ⟨rfl, ?_⟩
    simp only [getLeft]
    omega
  | storeTail v el t =>
    simp only [hg] at hs
    obtain ⟨rfl, rfl⟩ := Prod.mk.inj (Option.some.inj hs)
    exact .inl ⟨_, rfl⟩

end

/-! ## The number of elements -/

def RingBuf.count (r : RingBuf) : Nat := (r.head + r.size - r.tail) % r.size

theorem Holds.count {Loc : Type*} {xlat : View → Nat → Loc} {rb r : RingBuf} {size es : Nat}
    {mem : Loc → UInt8} {q : List (List UInt8)} (h : Holds xlat rb size es r mem q) :
    r.count = q.length := by
  have htail := h.tail_lt
  have hroom := h.room
  rw [RingBuf.count, h.size_eq, h.head_eq]
  rcases Nat.lt_or_ge (r.tail + q.length) size with hlt | hge
  · rw [Nat.mod_eq_of_lt hlt, Nat.mod_eq_sub_mod (by omega), Nat.mod_eq_of_lt (by omega)]
    omega
  · have hwrap : (r.tail + q.length) % size = r.tail + q.length - size := by
      rw [Nat.mod_eq_sub_mod hge, Nat.mod_eq_of_lt (by omega)]
    rw [hwrap, Nat.mod_eq_of_lt (by omega)]
    omega

/-! ## Steps in memory -/

section
variable {xlat : View → Nat → Nat} {ptr : View → Nat} {rb : RingBuf} {n a : Nat} {s s' : Cell}
  {e : Event}

theorem memPutStep_sys (hp : Placed xlat ptr rb n a)
    (hs : memPutStep xlat ptr s = some (e, s')) :
    ∃ t, putStep xlat (s.sys a) = some (e, t) ∧ t.prod = s'.prod ∧ t.cons = s'.cons := by
  obtain ⟨mem, prod, cons⟩ := s
  cases prod with
  | idle => cases hs
  | loadHead v el =>
    simp only [memPutStep, hp.ring_eq] at hs
    obtain ⟨rfl, rfl⟩ := Prod.mk.inj (Option.some.inj hs)
    exact ⟨_, rfl, rfl, rfl⟩
  | loadTail v el nh =>
    simp only [memPutStep, hp.ring_eq] at hs
    split at hs <;> obtain ⟨rfl, rfl⟩ := Prod.mk.inj (Option.some.inj hs)
    case isTrue hfull => exact ⟨_, if_pos hfull, rfl, rfl⟩
    case isFalse hfree => exact ⟨_, if_neg hfree, rfl, rfl⟩
  | copy v el nh i =>
    simp only [memPutStep, hp.ring_eq] at hs
    split at hs <;> obtain ⟨rfl, rfl⟩ := Prod.mk.inj (Option.some.inj hs)
    case isTrue hlt => exact ⟨_, if_pos hlt, rfl, rfl⟩
    case isFalse hge => exact ⟨_, if_neg hge, rfl, rfl⟩
  | storeByte v el nh i hd =>
    simp only [memPutStep, hp.ring_eq] at hs
    obtain ⟨rfl, rfl⟩ := Prod.mk.inj (Option.some.inj hs)
    exact ⟨_, rfl, rfl, rfl⟩

theorem memGetStep_sys (hp : Placed xlat ptr rb n a)
    (hs : memGetStep xlat ptr s = some (e, s')) :
    ∃ t, getStep xlat (s.sys a) = some (e, t) ∧ t.prod = s'.prod ∧ t.cons = s'.cons := by
  obtain ⟨mem, prod, cons⟩ := s
  cases cons with
  | idle => cases hs
  | loadTail v el =>
    simp only [memGetStep, hp.ring_eq] at hs
    obtain ⟨rfl, rfl⟩ := Prod.mk.inj (Option.some.inj hs)
    exact ⟨_, rfl, rfl, rfl⟩
  | loadHead v el t =>
    simp only [memGetStep, hp.ring_eq] at hs
    split at hs <;> obtain ⟨rfl, rfl⟩ := Prod.mk.inj (Option.some.inj hs)
    case isTrue hempty => exact ⟨_, if_pos hempty, rfl, rfl⟩
    case isFalse hne => exact ⟨_, if_neg hne, rfl, rfl⟩
  | copy v el i =>
    simp only [memGetStep, hp.ring_eq] at hs
    split at hs <;> obtain ⟨rfl, rfl⟩ := Prod.mk.inj (Option.some.inj hs)
    case isTrue hlt => exact ⟨_, if_pos hlt, rfl, rfl⟩
    case isFalse hge => exact ⟨_, if_neg hge, rfl, rfl⟩
  | loadByte v el i t =>
    simp only [memGetStep, hp.ring_eq] at hs
    obtain ⟨rfl, rfl⟩ := Prod.mk.inj (Option.some.inj hs)
    exact ⟨_, rfl, rfl, rfl⟩
  | storeTail v el t =>
    simp only [memGetStep, hp.ring_eq] at hs
    obtain ⟨rfl, rfl⟩ := Prod.mk.inj (Option.some.inj hs)
    exact ⟨_, rfl, rfl, rfl⟩

theorem memPutCall_sys {v : View} {el : Buf} (a : Nat)
    (hs : memPutCall v el s = some (e, s')) :
    ∃ t, putCall v el (s.sys a) = some (e, t) ∧ t.prod = s'.prod ∧ t.cons = s'.cons := by
  obtain ⟨mem, prod, cons⟩ := s
  cases prod <;> cases hs
  exact ⟨_, rfl, rfl, rfl⟩

theorem memGetCall_sys {v : View} {el : Buf} (a : Nat)
    (hs : memGetCall v el s = some (e, s')) :
    ∃ t, getCall v el (s.sys a) = some (e, t) ∧ t.prod = s'.prod ∧ t.cons = s'.cons := by
  obtain ⟨mem, prod, cons⟩ := s
  cases cons <;> cases hs
  exact ⟨_, rfl, rfl, rfl⟩

theorem memExec_sys (hp : Placed xlat ptr rb n a) {act : Act}
    (hs : memExec xlat ptr s act = some (e, s')) :
    ∃ t, exec xlat (s.sys a) act = some (e, t) ∧ t.prod = s'.prod ∧ t.cons = s'.cons := by
  cases act with
  | rbDevicePut el => exact memPutCall_sys a hs
  | rbHostPut el => exact memPutCall_sys a hs
  | rbHostGet el => exact memGetCall_sys a hs
  | rbDeviceGet el => exact memGetCall_sys a hs
  | producer => exact memPutStep_sys hp hs
  | consumer => exact memGetStep_sys hp hs

end

end HeroTools.Ringbuf
