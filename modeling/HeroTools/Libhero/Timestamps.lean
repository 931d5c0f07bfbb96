import Mathlib.Data.UInt
import Mathlib.Algebra.BigOperators.Group.List.Basic
import Mathlib.Data.List.Basic
import Mathlib.Tactic.Abel

/-! The timestamps that `libhero` records and prints, with the differences between them. -/

namespace HeroTools.Libhero

/-! ## Differences -/

section
variable {G : Type*} [AddCommGroup G]

/-- From each element to the next one, and zero for the last. -/
def differences : List G → List G
  | [] => []
  | [_] => [0]
  | a :: b :: l => (b - a) :: differences (b :: l)

theorem sum_differences (a : G) (l : List G) :
    (differences (a :: l)).sum = (a :: l).getLast (List.cons_ne_nil a l) - a := by
  induction l generalizing a with
  | nil => simp [differences]
  | cons b l ih =>
    rw [differences, List.sum_cons, ih b, List.getLast_cons_cons]
    abel

theorem sum_differences_map {α : Type*} (f : α → G) {l : List α} (h : l ≠ []) :
    (differences (l.map f)).sum = f (l.getLast h) - f (l.head h) := by
  cases l with
  | nil => exact absurd rfl h
  | cons a l =>
    have hlast : (List.map f (a :: l)).getLast (List.cons_ne_nil _ _) = f ((a :: l).getLast h) :=
      List.getLast_map _
    rw [List.map_cons, sum_differences, List.head_cons, ← hlast]
    rfl

end

/-! ## `hero_api.c` -/

abbrev MAX_TIMESTAMPS : Nat := 1024
abbrev NS_PER_SECOND : Int := 1000000000

inductive TimestampMode
  | cycle
  | timespec
deriving DecidableEq, Repr

/-- `struct timespec`, also for differences: two `long`s. -/
@[ext]
structure Timespec where
  tvSec : Int
  tvNsec : Int
deriving DecidableEq, Repr

def long (x : Int) : Int := x.bmod (2 ^ 64)

def IsLong (x : Int) : Prop := - 2 ^ 63 ≤ x ∧ x < 2 ^ 63

instance : DecidablePred IsLong := fun _ => inferInstanceAs (Decidable (_ ∧ _))

structure HeroTimestamp where
  timespec : Timespec
  cycle : UInt64
  strInfo : Vector UInt8 32
  strFunc : Vector UInt8 32
  tvSec_isLong : IsLong timespec.tvSec
  tvNsec_nonneg : 0 ≤ timespec.tvNsec
  tvNsec_lt : timespec.tvNsec < NS_PER_SECOND

def subTimespec (t1 t2 : Timespec) : Timespec :=
  let tvNsec := long (t2.tvNsec - t1.tvNsec)
  let tvSec := long (t2.tvSec - t1.tvSec)
  if 0 < tvSec ∧ tvNsec < 0 then ⟨long (tvSec - 1), long (tvNsec + NS_PER_SECOND)⟩
  else if tvSec < 0 ∧ 0 < tvNsec then ⟨long (tvSec + 1), long (tvNsec - NS_PER_SECOND)⟩
  else ⟨tvSec, tvNsec⟩

/-- `t` holds what the clock of the mode says, and the texts of the caller. -/
def heroAddTimestamp (stamps : List HeroTimestamp) (t : HeroTimestamp) : List HeroTimestamp :=
  if stamps.length ≥ MAX_TIMESTAMPS then stamps else stamps ++ [t]

structure Row (δ : Type) where
  stamp : HeroTimestamp
  diff : δ

def heroPrintCycles : List HeroTimestamp → List (Row UInt64)
  | [] => []
  | [t] => [⟨t, 0⟩]
  | t :: t' :: ts => ⟨t, t'.cycle - t.cycle⟩ :: heroPrintCycles (t' :: ts)

/-- The loop in mode 1: `diff` keeps its value where there is no next record. -/
def printTimespecs (diff : Timespec) : List HeroTimestamp → List (Row Timespec)
  | [] => []
  | [t] => [⟨t, diff⟩]
  | t :: t' :: ts =>
    ⟨t, subTimespec t.timespec t'.timespec⟩ ::
      printTimespecs (subTimespec t.timespec t'.timespec) (t' :: ts)

def heroPrintTimespecs (stamps : List HeroTimestamp) : List (Row Timespec) :=
  printTimespecs ⟨0, 0⟩ stamps

theorem foldl_heroAddTimestamp (ts : List HeroTimestamp) :
    ts.foldl heroAddTimestamp [] = ts.take MAX_TIMESTAMPS := by
  induction ts using List.reverseRecOn with
  | nil => rfl
  | append_singleton ts t ih =>
    rw [List.foldl_append, ih, List.foldl_cons, List.foldl_nil, heroAddTimestamp,
      List.length_take]
    split_ifs with hfull
    · rw [List.take_append_of_le_length (by omega)]
    · rw [List.take_of_length_le (by omega), List.take_of_length_le (by simp; omega)]

/-! ## `sub_timespec` -/

section
variable {x : Int} {a b t t' : HeroTimestamp} {stamps ts : List HeroTimestamp}

theorem long_isLong (x : Int) : IsLong (long x) := by
  have hlow : - ((2 ^ 64 : Nat) / 2 : Int) ≤ x.bmod (2 ^ 64) := Int.le_bmod (by decide)
  have hhigh : x.bmod (2 ^ 64) < ((2 ^ 64 : Nat) + 1) / 2 := Int.bmod_lt (by decide)
  exact ⟨hlow, hhigh⟩

theorem long_eq_self_iff : long x = x ↔ IsLong x := by
  constructor
  · intro h
    rw [← h]
    exact long_isLong x
  · exact fun h => Int.bmod_eq_of_le h.1 h.2

theorem long_eq_self (h : IsLong x) : long x = x := long_eq_self_iff.mpr h

def Timespec.nanoseconds (d : Timespec) : Int := d.tvSec * NS_PER_SECOND + d.tvNsec

def HeroTimestamp.nanoseconds (t : HeroTimestamp) : Int := t.timespec.nanoseconds

def Row.nanoseconds (r : Row Timespec) : Int := r.diff.nanoseconds

/-- Seconds and nanoseconds are on the same side of zero, less than a second of the latter. -/
def Timespec.Normal (d : Timespec) : Prop :=
  |d.tvNsec| < NS_PER_SECOND ∧ ¬ (0 < d.tvSec ∧ d.tvNsec < 0) ∧
    ¬ (d.tvSec < 0 ∧ 0 < d.tvNsec)

theorem normal_iff {d : Timespec} :
    d.Normal ↔ - 1000000000 < d.tvNsec ∧ d.tvNsec < 1000000000 ∧
      ¬ (0 < d.tvSec ∧ d.tvNsec < 0) ∧ ¬ (d.tvSec < 0 ∧ 0 < d.tvNsec) := by
  rw [Timespec.Normal, abs_lt, and_assoc]

theorem subTimespec_spec (a b : HeroTimestamp) :
    (subTimespec a.timespec b.timespec).Normal ∧
      (subTimespec a.timespec b.timespec).nanoseconds =
        long (b.timespec.tvSec - a.timespec.tvSec) * NS_PER_SECOND +
          (b.timespec.tvNsec - a.timespec.tvNsec) := by
  have ha := a.tvNsec_nonneg
  have ha' : a.timespec.tvNsec < 1000000000 := a.tvNsec_lt
  have hb := b.tvNsec_nonneg
  have hb' : b.timespec.tvNsec < 1000000000 := b.tvNsec_lt
  -- only the difference of the seconds may wrap
  have hsmall {x : Int} (hx : - 2000000000 < x) (hx' : x < 2000000000) : long x = x :=
    long_eq_self ⟨by omega, by omega⟩
  have hnsec := hsmall (x := b.timespec.tvNsec - a.timespec.tvNsec) (by omega) (by omega)
  have hsec := long_isLong (b.timespec.tvSec - a.timespec.tvSec)
  simp only [subTimespec, hnsec, normal_iff, Timespec.nanoseconds, NS_PER_SECOND]
  generalize long (b.timespec.tvSec - a.timespec.tvSec) = s at hsec ⊢
  obtain ⟨hlow, hhigh⟩ := hsec
  split_ifs with hborrow hcarry
  · rw [long_eq_self (x := s - 1) ⟨by omega, by omega⟩, hsmall (by omega) (by omega)]
    constructor <;> (dsimp only; omega)
  · rw [long_eq_self (x := s + 1) ⟨by omega, by omega⟩, hsmall (by omega) (by omega)]
    constructor <;> (dsimp only; omega)
  · exact ⟨by dsimp only; omega, rfl⟩

/-- The seconds of every difference fit their type. Times that are not negative always do. -/
def SecondsFit (stamps : List HeroTimestamp) : Prop :=
  stamps.IsChain fun a b => IsLong (b.timespec.tvSec - a.timespec.tvSec)

def LastTwoEqual (stamps : List HeroTimestamp) : Prop :=
  ∀ a b, [a, b] <:+ stamps → a.timespec = b.timespec

theorem lastTwoEqual_cons (t : HeroTimestamp) (h : 2 ≤ ts.length) :
    LastTwoEqual (t :: ts) ↔ LastTwoEqual ts := by
  have hsuffix (a b : HeroTimestamp) : [a, b] <:+ t :: ts ↔ [a, b] <:+ ts := by
    rw [List.suffix_cons_iff]
    refine or_iff_right fun heq => ?_
    have hlen := congrArg List.length heq
    simp only [List.length_cons, List.length_nil] at hlen
    omega
  simp only [LastTwoEqual, hsuffix]

theorem lastTwoEqual_pair : LastTwoEqual [t, t'] ↔ t.timespec = t'.timespec := by
  constructor
  · exact fun h => h t t' (List.suffix_refl _)
  · intro h a b hab
    cases hab.eq_of_length rfl
    exact h

theorem secondsFit_cons_cons (t t' : HeroTimestamp) (ts : List HeroTimestamp) :
    SecondsFit (t :: t' :: ts) ↔
      IsLong (t'.timespec.tvSec - t.timespec.tvSec) ∧ SecondsFit (t' :: ts) :=
  List.isChain_cons_cons

theorem secondsFit_singleton (t : HeroTimestamp) : SecondsFit [t] := List.IsChain.singleton t

theorem secondsFit_of_nonneg (h : ∀ t ∈ stamps, 0 ≤ t.timespec.tvSec) : SecondsFit stamps := by
  have hlong (t t' : HeroTimestamp) (ht : t ∈ stamps) (ht' : t' ∈ stamps) :
      IsLong (t'.timespec.tvSec - t.timespec.tvSec) := by
    have hsec := t.tvSec_isLong.2
    have hsec' := t'.tvSec_isLong.2
    have hnonneg := h t ht
    have hnonneg' := h t' ht'
    exact ⟨by omega, by omega⟩
  exact (List.pairwise_iff_forall_sublist.mpr fun {a b} hab =>
    hlong a b (hab.subset (by simp)) (hab.subset (by simp))).isChain

theorem subTimespec_exact_iff (a b : HeroTimestamp) :
    (subTimespec a.timespec b.timespec).nanoseconds =
        b.timespec.nanoseconds - a.timespec.nanoseconds ↔
      IsLong (b.timespec.tvSec - a.timespec.tvSec) := by
  rw [← long_eq_self_iff, (subTimespec_spec a b).2, Timespec.nanoseconds, Timespec.nanoseconds]
  unfold NS_PER_SECOND
  constructor <;> intro h <;> omega

theorem nanoseconds_eq_iff :
    a.timespec.nanoseconds = b.timespec.nanoseconds ↔ a.timespec = b.timespec := by
  constructor
  · intro h
    have ha := a.tvNsec_nonneg
    have ha' := a.tvNsec_lt
    have hb := b.tvNsec_nonneg
    have hb' := b.tvNsec_lt
    unfold Timespec.nanoseconds at h
    unfold NS_PER_SECOND at h ha' hb'
    have hsec : a.timespec.tvSec = b.timespec.tvSec := by omega
    have hnsec : a.timespec.tvNsec = b.timespec.tvNsec := by omega
    exact Timespec.ext hsec hnsec
  · exact fun h => congrArg Timespec.nanoseconds h

/-! ## `hero_print_timestamp` -/

/-- From two records on, the rows are right just if no difference overflows and the last row,
which repeats the one before it, has nothing to repeat. -/
theorem printTimespecs_cons_cons (d : Timespec) (t t' : HeroTimestamp)
    (ts : List HeroTimestamp) :
    (printTimespecs d (t :: t' :: ts)).map Row.nanoseconds =
        differences ((t :: t' :: ts).map HeroTimestamp.nanoseconds) ↔
      SecondsFit (t :: t' :: ts) ∧ LastTwoEqual (t :: t' :: ts) := by
  induction ts generalizing d t t' with
  | nil =>
    have hrows : (printTimespecs d [t, t']).map Row.nanoseconds =
      [(subTimespec t.timespec t'.timespec).nanoseconds,
        (subTimespec t.timespec t'.timespec).nanoseconds] := rfl
    have hdiffs : differences ([t, t'].map HeroTimestamp.nanoseconds) =
      [t'.timespec.nanoseconds - t.timespec.nanoseconds, 0] := rfl
    rw [hrows, hdiffs, List.cons.injEq, List.cons.injEq, and_iff_left rfl, secondsFit_cons_cons,
      and_iff_left (secondsFit_singleton t'), lastTwoEqual_pair, subTimespec_exact_iff]
    refine and_congr_right fun hfit => ?_
    rw [(subTimespec_exact_iff t t').mpr hfit, sub_eq_zero, eq_comm, nanoseconds_eq_iff]
  | cons t'' ts ih =>
    have hrows : (printTimespecs d (t :: t' :: t'' :: ts)).map Row.nanoseconds =
      (subTimespec t.timespec t'.timespec).nanoseconds ::
        (printTimespecs (subTimespec t.timespec t'.timespec) (t' :: t'' :: ts)).map
          Row.nanoseconds := rfl
    have hdiffs : differences ((t :: t' :: t'' :: ts).map HeroTimestamp.nanoseconds) =
      (t'.timespec.nanoseconds - t.timespec.nanoseconds) ::
        differences ((t' :: t'' :: ts).map HeroTimestamp.nanoseconds) := rfl
    have hlen : 2 ≤ (t' :: t'' :: ts).length := Nat.le_add_left 2 _
    rw [hrows, hdiffs, List.cons.injEq, ih, subTimespec_exact_iff, lastTwoEqual_cons t hlen,
      secondsFit_cons_cons t t' (t'' :: ts), and_assoc]

theorem heroPrintTimespecs_exact_iff (stamps : List HeroTimestamp) :
    (heroPrintTimespecs stamps).map Row.nanoseconds =
        differences (stamps.map HeroTimestamp.nanoseconds) ↔
      SecondsFit stamps ∧ LastTwoEqual stamps := by
  have hshort (h : stamps.length ≤ 1) : LastTwoEqual stamps := fun a b hab => by
    have hle := hab.length_le
    simp only [List.length_cons, List.length_nil] at hle
    omega
  rcases stamps with - | ⟨t, - | ⟨t', ts⟩⟩
  · exact iff_of_true rfl ⟨List.IsChain.nil, hshort (Nat.zero_le 1)⟩
  · exact iff_of_true rfl ⟨secondsFit_singleton t, hshort le_rfl⟩
  · exact printTimespecs_cons_cons _ t t' ts

theorem printTimespecs_stamps (d : Timespec) (stamps : List HeroTimestamp) :
    (printTimespecs d stamps).map Row.stamp = stamps := by
  fun_induction printTimespecs d stamps with
  | case1 => rfl
  | case2 => rfl
  | case3 d t t' ts ih => rw [List.map_cons, ih]

theorem printTimespecs_normal {d : Timespec} (hd : d.Normal) (stamps : List HeroTimestamp) :
    ∀ r ∈ printTimespecs d stamps, r.diff.Normal := by
  fun_induction printTimespecs d stamps with
  | case1 => exact fun r hr => absurd hr List.not_mem_nil
  | case2 d t =>
    intro r hr
    rw [List.mem_singleton.mp hr]
    exact hd
  | case3 d t t' ts ih =>
    have hnormal := (subTimespec_spec t t').1
    intro r hr
    rcases List.mem_cons.mp hr with rfl | hr
    · exact hnormal
    · exact ih hnormal r hr

theorem heroPrintCycles_stamps (stamps : List HeroTimestamp) :
    (heroPrintCycles stamps).map Row.stamp = stamps := by
  fun_induction heroPrintCycles stamps with
  | case1 => rfl
  | case2 => rfl
  | case3 t t' ts ih => rw [List.map_cons, ih]

theorem heroPrintCycles_exact (stamps : List HeroTimestamp) :
    (heroPrintCycles stamps).map Row.diff = differences (stamps.map HeroTimestamp.cycle) := by
  fun_induction heroPrintCycles stamps with
  | case1 => rfl
  | case2 => rfl
  | case3 t t' ts ih =>
    rw [List.map_cons, ih]
    rfl

/-- There is a row for every record, with the difference to the next record, and zero for the
last; together they make what lies between the first record and the last, and times are
normal. -/
def PrintsExactly : TimestampMode → List HeroTimestamp → Prop
  | .cycle, stamps =>
    (heroPrintCycles stamps).map Row.stamp = stamps ∧
      (heroPrintCycles stamps).map Row.diff = differences (stamps.map HeroTimestamp.cycle) ∧
      ∀ h : stamps ≠ [], ((heroPrintCycles stamps).map Row.diff).sum =
        (stamps.getLast h).cycle - (stamps.head h).cycle
  | .timespec, stamps =>
    (heroPrintTimespecs stamps).map Row.stamp = stamps ∧
      (heroPrintTimespecs stamps).map Row.nanoseconds =
        differences (stamps.map HeroTimestamp.nanoseconds) ∧
      (∀ h : stamps ≠ [], ((heroPrintTimespecs stamps).map Row.nanoseconds).sum =
        (stamps.getLast h).nanoseconds - (stamps.head h).nanoseconds) ∧
      ∀ r ∈ heroPrintTimespecs stamps, r.diff.Normal

theorem hero_print_timestamp_exact_iff (mode : TimestampMode) (stamps : List HeroTimestamp) :
    PrintsExactly mode stamps ↔
      (mode = .timespec → SecondsFit stamps ∧ LastTwoEqual stamps) := by
  cases mode with
  | cycle =>
    refine iff_of_true ⟨heroPrintCycles_stamps stamps, heroPrintCycles_exact stamps, ?_⟩ ?_
    · intro h
      rw [heroPrintCycles_exact, sum_differences_map _ h]
    · exact fun h => TimestampMode.noConfusion h
  | timespec =>
    rw [← heroPrintTimespecs_exact_iff]
    constructor
    · exact fun h _ => h.2.1
    · intro h
      have hdiffs := h rfl
      have hzero : Timespec.Normal ⟨0, 0⟩ := normal_iff.mpr (by decide)
      refine ⟨printTimespecs_stamps _ stamps, hdiffs, ?_, printTimespecs_normal hzero stamps⟩
      intro hne
      rw [hdiffs, sum_differences_map _ hne]

def oneTwoSeconds : List HeroTimestamp :=
  [⟨⟨1, 0⟩, 0, .replicate 32 0, .replicate 32 0, by decide, by decide, by decide⟩,
    ⟨⟨2, 0⟩, 0, .replicate 32 0, .replicate 32 0, by decide, by decide, by decide⟩]

theorem hero_print_timestamp_repeats :
    (heroPrintTimespecs oneTwoSeconds).map Row.diff = [⟨1, 0⟩, ⟨1, 0⟩] ∧
      ¬ PrintsExactly .timespec oneTwoSeconds := by
  refine ⟨by decide, fun h => ?_⟩
  have hdiffs := h.2.1
  have hrepeat : (heroPrintTimespecs oneTwoSeconds).map Row.nanoseconds =
      [1000000000, 1000000000] := by decide
  have hexact : differences (oneTwoSeconds.map HeroTimestamp.nanoseconds) =
      [1000000000, 0] := by decide
  rw [hrepeat, hexact] at hdiffs
  exact absurd hdiffs (by decide)

end
end HeroTools.Libhero
