import HeroTools.Lib.Lts

/-! The handler of the GPIO interrupts of Carfield, which shares its interrupts with other
drivers: it leaves every first entry to them and acknowledges the pin at the second. -/

namespace HeroTools.Driver.GpioIrq
open HeroTools

/-! ## `carfield_driver.c` -/

abbrev CARFIELD_GPIO_FIRST_IRQ : Nat := 19

inductive IrqReturn
  | IRQ_NONE
  | IRQ_HANDLED
deriving DecidableEq, Repr

/-- The flags of the interrupts, and the register 0x00 of the GPIO, whose bits are cleared by
writing them. -/
structure Gpio where
  alreadyEntered : Nat → Bool
  pending : BitVec 32

def Gpio.probed : Gpio := ⟨fun _ => false, 0⟩

/-- `desc` has the hardware interrupts of those that have a descriptor. `none` where the flags
are left behind, a missing descriptor is followed or `BIT` shifts too far. -/
def carfieldHandleIrq (desc : Nat → Option Nat) (s : Gpio) (irq : Nat) :
    Option (IrqReturn × Gpio) :=
  if 64 ≤ irq then none
  -- the first of two entries only sets the flag
  else if !s.alreadyEntered irq then
    some (.IRQ_NONE, { s with alreadyEntered := Function.update s.alreadyEntered irq true })
  else
    (desc irq).bind fun hwIrq =>
      if CARFIELD_GPIO_FIRST_IRQ ≤ hwIrq ∧ hwIrq - CARFIELD_GPIO_FIRST_IRQ < 64 then
        some (.IRQ_HANDLED,
          { alreadyEntered := Function.update s.alreadyEntered irq false
            pending := s.pending &&& ~~~(1#32 <<< (hwIrq - CARFIELD_GPIO_FIRST_IRQ)) })
      else none

/-! ## Runs -/

inductive Event
  | rise (pin : Nat)
  | enter (irq : Nat)

inductive Label
  | rise (pin : Nat)
  | entered (irq : Nat) (ret : IrqReturn)
deriving DecidableEq, Repr

def exec (desc : Nat → Option Nat) (s : Gpio) : Event → Option (Label × Gpio)
  | .rise pin => some (.rise pin, { s with pending := s.pending ||| 1#32 <<< pin })
  | .enter irq => (carfieldHandleIrq desc s irq).map fun r => (.entered irq r.1, r.2)

def gpio (desc : Nat → Option Nat) : Lts Gpio Label := .ofExec (exec desc)

def returns (irq : Nat) (ls : List Label) : List IrqReturn :=
  ls.filterMap fun
    | .rise _ => none
    | .entered i ret => if i = irq then some ret else none

theorem returns_append (irq : Nat) (ls ls' : List Label) :
    returns irq (ls ++ ls') = returns irq ls ++ returns irq ls' := List.filterMap_append ..

@[simp] theorem returns_rise (irq pin : Nat) : returns irq [.rise pin] = [] := rfl

theorem returns_entered_self (irq : Nat) (ret : IrqReturn) :
    returns irq [.entered irq ret] = [ret] := List.filterMap_cons_some (if_pos rfl)

theorem returns_entered_ne {irq i : Nat} (ret : IrqReturn) (h : i ≠ irq) :
    returns irq [.entered i ret] = [] := List.filterMap_cons_none (if_neg h)

def turn (n : Nat) : IrqReturn := if n % 2 = 0 then .IRQ_NONE else .IRQ_HANDLED

variable {desc : Nat → Option Nat} {s t : Gpio} {l : Label} {irq pin : Nat}

theorem step_cases (h : (gpio desc).step s l t) :
    (∃ pin, l = .rise pin ∧ t = { s with pending := s.pending ||| 1#32 <<< pin }) ∨
    (∃ irq, l = .entered irq .IRQ_NONE ∧ s.alreadyEntered irq = false ∧
      t = { s with alreadyEntered := Function.update s.alreadyEntered irq true }) ∨
    ∃ irq pin, l = .entered irq .IRQ_HANDLED ∧ s.alreadyEntered irq = true ∧
      desc irq = some (CARFIELD_GPIO_FIRST_IRQ + pin) ∧
      t = ⟨Function.update s.alreadyEntered irq false, s.pending &&& ~~~(1#32 <<< pin)⟩ := by
  obtain ⟨e, h⟩ := h
  cases e with
  | rise pin =>
    obtain ⟨rfl, rfl⟩ := Prod.mk.inj (Option.some.inj h)
    exact .inl ⟨pin, rfl, rfl⟩
  | enter irq =>
    obtain ⟨r, hr, h⟩ := Option.map_eq_some_iff.mp h
    obtain ⟨rfl, rfl⟩ := Prod.mk.inj h
    unfold carfieldHandleIrq at hr
    split_ifs at hr with hirq hentered
    · obtain rfl := Option.some.inj hr
      exact .inr (.inl ⟨irq, rfl, by simpa using hentered, rfl⟩)
    · obtain ⟨hwIrq, hdesc, hr⟩ := Option.bind_eq_some_iff.mp hr
      split_ifs at hr with hpin
      obtain rfl := Option.some.inj hr
      have hw : CARFIELD_GPIO_FIRST_IRQ + (hwIrq - CARFIELD_GPIO_FIRST_IRQ) = hwIrq :=
        Nat.add_sub_cancel' hpin.1
      exact .inr (.inr ⟨irq, hwIrq - CARFIELD_GPIO_FIRST_IRQ, rfl, by simpa using hentered,
        hw.symm ▸ hdesc, rfl⟩)

theorem step_flags (h : (gpio desc).step s l t) :
    (∃ pin, l = .rise pin ∧ t.alreadyEntered = s.alreadyEntered) ∨
    ∃ irq, l = .entered irq (if s.alreadyEntered irq then .IRQ_HANDLED else .IRQ_NONE) ∧
      t.alreadyEntered = Function.update s.alreadyEntered irq (!s.alreadyEntered irq) := by
  obtain ⟨pin, rfl, rfl⟩ | ⟨irq, rfl, hflag, rfl⟩ | ⟨irq, pin, rfl, hflag, -, rfl⟩ := step_cases h
  · exact .inl ⟨pin, rfl, rfl⟩
  · refine .inr ⟨irq, ?_, ?_⟩
    · rw [hflag, if_neg Bool.false_ne_true]
    · rw [hflag, Bool.not_false]
  · refine .inr ⟨irq, ?_, ?_⟩
    · rw [hflag, if_pos rfl]
    · rw [hflag, Bool.not_true]

/-- The flag tells whether the number of entries is odd. -/
structure Turns (irq : Nat) (s : Gpio) (rets : List IrqReturn) : Prop where
  flag : s.alreadyEntered irq = (rets.length % 2 == 1)
  rets : rets = (List.range rets.length).map turn

theorem Turns.ret {rets : List IrqReturn} (h : Turns irq s rets) :
    (if s.alreadyEntered irq then IrqReturn.IRQ_HANDLED else .IRQ_NONE) = turn rets.length := by
  rw [h.flag, turn]
  rcases Nat.mod_two_eq_zero_or_one rets.length with hmod | hmod
  · simp [hmod]
  · simp [hmod]

theorem Turns.concat {rets : List IrqReturn} (h : Turns irq s rets)
    (hflag : t.alreadyEntered irq = !s.alreadyEntered irq) :
    Turns irq t (rets ++ [turn rets.length]) := by
  constructor
  · rw [hflag, h.flag, List.length_append, List.length_singleton]
    rcases Nat.mod_two_eq_zero_or_one rets.length with hmod | hmod
    · simp [hmod, Nat.add_mod]
    · simp [hmod, Nat.add_mod]
  · rw [List.length_append, List.length_singleton, List.range_succ, List.map_append, ← h.rets,
      List.map_singleton]

theorem run_turns {tr : List (Gpio × Label)} (h : (gpio desc).Run .probed tr s) (irq : Nat) :
    Turns irq s (returns irq (Lts.labels tr)) := by
  induction h with
  | nil => exact ⟨rfl, rfl⟩
  | @snoc tr u v l _ hs ih =>
    rw [Lts.labels_snoc, returns_append]
    obtain ⟨pin, rfl, hflags⟩ | ⟨i, rfl, hflags⟩ := step_flags hs
    · rw [returns_rise, List.append_nil]
      exact ⟨hflags ▸ ih.flag, ih.rets⟩
    · by_cases hi : i = irq
      · subst hi
        rw [returns_entered_self, ih.ret]
        exact ih.concat (by rw [hflags, Function.update_self])
      · rw [returns_entered_ne _ hi, List.append_nil]
        refine ⟨?_, ih.rets⟩
        rw [hflags, Function.update_of_ne (Ne.symm hi)]
        exact ih.flag

/-! ## The pins -/

def Unhandled (desc : Nat → Option Nat) (pin : Nat) (ls : List Label) : Prop :=
  ∃ pre post, ls = pre ++ .rise pin :: post ∧
    ∀ irq, .entered irq .IRQ_HANDLED ∈ post → desc irq ≠ some (CARFIELD_GPIO_FIRST_IRQ + pin)

theorem unhandled_concat_rise (ls : List Label) (pin : Nat) :
    Unhandled desc pin (ls ++ [.rise pin]) :=
  ⟨ls, [], rfl, fun _ h => absurd h List.not_mem_nil⟩

theorem unhandled_concat_iff {ls : List Label} (hl : l ≠ .rise pin) :
    Unhandled desc pin (ls ++ [l]) ↔ Unhandled desc pin ls ∧
      ∀ irq, l = .entered irq .IRQ_HANDLED → desc irq ≠ some (CARFIELD_GPIO_FIRST_IRQ + pin) := by
  constructor
  · rintro ⟨pre, post, hsplit, hpost⟩
    cases post using List.reverseRecOn with
    | nil =>
      have hlast := List.append_inj' hsplit rfl
      exact absurd (List.singleton_inj.mp hlast.2) hl
    | append_singleton post l' =>
      rw [← List.cons_append, ← List.append_assoc] at hsplit
      obtain ⟨rfl, hlast⟩ := List.append_inj' hsplit rfl
      obtain rfl := List.singleton_inj.mp hlast
      refine ⟨⟨pre, post, rfl, fun irq h => hpost irq (List.mem_append_left _ h)⟩, ?_⟩
      rintro irq rfl
      exact hpost irq (List.mem_append_right _ (List.mem_singleton_self _))
  · rintro ⟨⟨pre, post, rfl, hpost⟩, hlast⟩
    refine ⟨pre, post ++ [l], by simp, fun irq h => ?_⟩
    rcases List.mem_append.mp h with h | h
    · exact hpost irq h
    · exact hlast irq (List.mem_singleton.mp h).symm

theorem bit_getLsbD (p : Nat) (hpin : pin < 32) :
    (1#32 <<< p).getLsbD pin = decide (p = pin) := by
  rw [BitVec.getLsbD_shiftLeft, BitVec.getLsbD_one, Bool.eq_iff_iff, decide_eq_true_iff]
  simp only [hpin, decide_true, Bool.true_and, Bool.and_eq_true, Bool.not_eq_true',
    decide_eq_false_iff_not, decide_eq_true_eq, Nat.not_lt]
  omega

theorem run_pending {tr : List (Gpio × Label)} (h : (gpio desc).Run .probed tr s)
    (hpin : pin < 32) : s.pending.getLsbD pin = true ↔ Unhandled desc pin (Lts.labels tr) := by
  induction h with
  | nil =>
    constructor
    · intro hbit
      simp [Gpio.probed] at hbit
    · rintro ⟨pre, post, hsplit, -⟩
      cases pre <;> cases hsplit
  | @snoc tr u v l _ hs ih =>
    rw [Lts.labels_snoc]
    obtain ⟨p, rfl, rfl⟩ | ⟨irq, rfl, -, rfl⟩ | ⟨irq, p, rfl, -, hdesc, rfl⟩ := step_cases hs
    · by_cases hp : p = pin
      · subst hp
        refine iff_of_true ?_ (unhandled_concat_rise _ p)
        rw [BitVec.getLsbD_or, bit_getLsbD p hpin, decide_eq_true rfl, Bool.or_true]
      · rw [unhandled_concat_iff fun h => hp (Label.rise.inj h), ← ih, BitVec.getLsbD_or,
          bit_getLsbD p hpin, decide_eq_false hp, Bool.or_false]
        simp
    · rw [unhandled_concat_iff (by simp), ← ih]
      simp
    · rw [unhandled_concat_iff (by simp), ← ih, BitVec.getLsbD_and, BitVec.getLsbD_not,
        bit_getLsbD p hpin, decide_eq_true hpin, Bool.true_and]
      by_cases hp : p = pin
      · subst hp
        simp [hdesc]
      · simp [hp, hdesc]

/-! ## Every run -/

theorem handled_of_two {rets post : List IrqReturn} {k n : Nat}
    (h : rets ++ post = (List.range n).map turn) (hk : rets.length = k) (hpost : 2 ≤ post.length) :
    .IRQ_HANDLED ∈ post := by
  have hget : ∀ i < post.length, post[i]? = some (turn (k + i)) := by
    intro i hi
    have hat : (rets ++ post)[k + i]? = post[i]? := by
      rw [List.getElem?_append_right (by omega), ← hk, Nat.add_sub_cancel_left]
    have hn : k + i < n := by
      have hlen := congrArg List.length h
      rw [List.length_append, List.length_map, List.length_range] at hlen
      omega
    rw [← hat, h, List.getElem?_map, List.getElem?_range hn, Option.map_some]
  rcases Nat.mod_two_eq_zero_or_one k with hmod | hmod
  · have hodd : turn (k + 1) = .IRQ_HANDLED := if_neg (by omega)
    exact hodd ▸ List.mem_of_getElem? (hget 1 (by omega))
  · have hodd : turn (k + 0) = .IRQ_HANDLED := if_neg (by omega)
    exact hodd ▸ List.mem_of_getElem? (hget 0 (by omega))

theorem mem_of_mem_returns {ls : List Label} {ret : IrqReturn} (h : ret ∈ returns irq ls) :
    .entered irq ret ∈ ls := by
  obtain ⟨l, hl, hret⟩ := List.mem_filterMap.mp h
  cases l with
  | rise pin => cases hret
  | entered i r =>
    obtain ⟨rfl, hr⟩ := Option.ite_none_right_eq_some.mp hret
    exact Option.some.inj hr ▸ hl

theorem Unhandled.not_handled {pre post : List Label} (h : Unhandled desc pin (pre ++ post))
    (hrise : .rise pin ∉ post) (hdesc : desc irq = some (CARFIELD_GPIO_FIRST_IRQ + pin)) :
    .entered irq .IRQ_HANDLED ∉ post := by
  obtain ⟨pre', post', hsplit, hpost'⟩ := h
  intro hmem
  rcases List.append_eq_append_iff.mp hsplit with ⟨as, -, rfl⟩ | ⟨bs, -, hbs⟩
  · exact hrise (List.mem_append_right as List.mem_cons_self)
  · cases bs with
    | nil =>
      rw [List.nil_append] at hbs
      exact hrise (hbs ▸ List.mem_cons_self)
    | cons b bs =>
      obtain ⟨-, rfl⟩ := List.cons.inj hbs
      exact hpost' irq (List.mem_append_right bs hmem) hdesc

/-- What one interrupt has returned, and which pins are still pending, in every run: the entries
of an interrupt are handled in turns, a pin stays pending until an interrupt of its own is
handled, and two entries after its last rise are enough for that. -/
theorem carfieldHandleIrq_turns {tr : List (Gpio × Label)}
    (h : (gpio desc).Run .probed tr s) :
    (∀ irq, ∃ n, returns irq (Lts.labels tr) = (List.range n).map turn) ∧
    ∀ pin < 32, (s.pending.getLsbD pin = true ↔ Unhandled desc pin (Lts.labels tr)) ∧
      ∀ irq pre post, desc irq = some (CARFIELD_GPIO_FIRST_IRQ + pin) →
        Lts.labels tr = pre ++ post → .rise pin ∉ post → 2 ≤ (returns irq post).length →
          s.pending.getLsbD pin = false := by
  refine ⟨fun irq => ⟨_, (run_turns h irq).rets⟩, fun pin hpin => ⟨run_pending h hpin, ?_⟩⟩
  intro irq pre post hdesc hsplit hrise htwo
  rw [Bool.eq_false_iff, Ne, run_pending h hpin, hsplit]
  intro hunhandled
  have hrets := (run_turns h irq).rets
  rw [hsplit, returns_append] at hrets
  have hhandled : IrqReturn.IRQ_HANDLED ∈ returns irq post := handled_of_two hrets rfl htwo
  exact hunhandled.not_handled hrise hdesc (mem_of_mem_returns hhandled)

def fourPins (irq : Nat) : Option Nat := if 40 ≤ irq ∧ irq < 44 then some (irq - 21) else none

theorem carfieldHandleIrq_turns_shared : ∃ tr s, (gpio fourPins).Run .probed tr s ∧
    returns 42 (Lts.labels tr) = [.IRQ_NONE, .IRQ_HANDLED, .IRQ_NONE, .IRQ_HANDLED] ∧
      s.pending.getLsbD 2 = false := by
  have hrun := Lts.replay_run (show Lts.replay (exec fourPins) .probed
    [.enter 42, .rise 2, .enter 42, .rise 2, .enter 42, .enter 42] = some _ from rfl)
  refine ⟨_, _, hrun, rfl, ?_⟩
  exact ((carfieldHandleIrq_turns hrun).2 2 (by decide)).2 42 [.entered 42 .IRQ_NONE, .rise 2,
    .entered 42 .IRQ_HANDLED, .rise 2] [.entered 42 .IRQ_NONE, .entered 42 .IRQ_HANDLED] rfl rfl
    (by decide) (by decide)

end HeroTools.Driver.GpioIrq
