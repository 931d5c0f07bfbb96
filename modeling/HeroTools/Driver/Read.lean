import HeroTools.Driver.Defs
import HeroTools.Lib.Cursor

/-! `card_read`: the information text of a device, read through its file. The text of the
function is the same in `carfield_fops.c` and `occamy_fops.c`. -/

namespace HeroTools.Driver

/-- What `card_read` uses of `struct cardev_private_data`: the kernel's bytes around
`buffer`, and how many of them the probe has printed the text to. -/
structure CardevPrivateData where
  buffer : Int → UInt8
  bufferSize : Nat

def CardevPrivateData.bytes (dev : CardevPrivateData) (pos : Int) (n : Nat) : List UInt8 :=
  (List.range n).map fun k : Nat => dev.buffer (pos + k)

def CardevPrivateData.text (dev : CardevPrivateData) : List UInt8 :=
  dev.bytes 0 dev.bufferSize

/-- One call of the kernel's `copy_to_user` for `n` bytes: of how many the source is read,
and how many arrive. No user buffer is as long as half of the address space, so that such
a request is refused before anything is read. -/
structure CopyToUser where
  reads : Nat → Nat
  copied : Nat → Nat
  copied_le : ∀ n, copied n ≤ reads n
  reads_le : ∀ n, reads n ≤ n
  refuses : ∀ n, 2 ^ 63 ≤ n → reads n = 0

/-- What a call returns, the position it leaves, which bytes after `buffer` it has read,
and what it has stored in the user's buffer. -/
structure ReadOutcome where
  ret : Int
  fPos : Int
  reads : List Int
  copied : List UInt8

/-- The adjusted `count`. The sum is one of unsigned words, and so is the comparison. -/
def clamp (maxSize fPos : Int) (count : Nat) : Nat :=
  if toUlong maxSize < (toUlong fPos + count) % 2 ^ 64 then toUlong (maxSize - fPos)
  else count

def cardRead (copy : CopyToUser) (dev : CardevPrivateData) (count : Nat) (fPos : Int) :
    ReadOutcome :=
  let maxSize := toInt32 dev.bufferSize
  let count := clamp maxSize fPos count
  let reads := (List.range (copy.reads count)).map fun k : Nat => fPos + k
  let copied := dev.bytes fPos (copy.copied count)
  if copy.copied count < count then ⟨-EFAULT, fPos, reads, copied⟩
  else ⟨toLong count, toLong (toUlong fPos + count), reads, copied⟩

/-! ## One call -/

section
variable {copy : CopyToUser} {dev : CardevPrivateData} {count : Nat} {fPos : Int}

theorem CardevPrivateData.length_text : dev.text.length = dev.bufferSize := by
  rw [text, bytes, List.length_map, List.length_range]

def remaining (dev : CardevPrivateData) (count : Nat) (fPos : Int) : Nat :=
  if fPos ≤ dev.bufferSize then min count (dev.bufferSize - fPos).toNat else 0

/-- What there is to read has not arrived, or the position is past the text. -/
def Faults (copy : CopyToUser) (dev : CardevPrivateData) (count : Nat) (fPos : Int) : Prop :=
  fPos ≤ dev.bufferSize → copy.copied (remaining dev count fPos) < remaining dev count fPos

/-- Nothing past the text is read, and the call either fails, for a reason, and keeps the
position or delivers what there is to read. -/
structure ReadOk (copy : CopyToUser) (dev : CardevPrivateData) (count : Nat) (fPos : Int)
    (o : ReadOutcome) : Prop where
  reads_lt : ∀ i ∈ o.reads, 0 ≤ i ∧ i < dev.bufferSize
  outcome : o.ret = -EFAULT ∧ o.fPos = fPos ∧ Faults copy dev count fPos ∨
    o.ret = remaining dev count fPos ∧ o.fPos = fPos + remaining dev count fPos ∧
      o.copied = dev.bytes fPos (remaining dev count fPos)

variable (hsize : dev.bufferSize < 2 ^ 31) (hpos : 0 ≤ fPos) (hcount : fPos + count < 2 ^ 63)
include hsize hpos hcount

theorem clamp_of_le (hle : fPos ≤ dev.bufferSize) :
    clamp (toInt32 dev.bufferSize) fPos count = remaining dev count fPos := by
  obtain ⟨p, rfl⟩ := Int.eq_ofNat_of_zero_le hpos
  rw [toInt32_of_lt hsize, clamp, remaining, if_pos hle, toUlong_natCast (by omega),
    toUlong_natCast (by omega), Nat.mod_eq_of_lt (by omega)]
  have hdiff : (dev.bufferSize : Int) - p = (dev.bufferSize - p : Nat) := by omega
  rw [hdiff, Int.toNat_natCast, toUlong_natCast (by omega)]
  split_ifs with h <;> omega

/-- Past the end of the text the difference is negative, and becomes a huge count. -/
theorem clamp_of_gt (hgt : dev.bufferSize < fPos) :
    2 ^ 63 ≤ clamp (toInt32 dev.bufferSize) fPos count := by
  obtain ⟨p, rfl⟩ := Int.eq_ofNat_of_zero_le hpos
  rw [toInt32_of_lt hsize, clamp, toUlong_natCast (by omega), toUlong_natCast (by omega),
    Nat.mod_eq_of_lt (by omega), if_pos (by omega), toUlong]
  omega

omit hsize hpos hcount in
theorem remaining_le (hle : fPos ≤ dev.bufferSize) :
    fPos + remaining dev count fPos ≤ dev.bufferSize := by
  rw [remaining, if_pos hle]
  omega

theorem cardRead_ok (copy : CopyToUser) :
    ReadOk copy dev count fPos (cardRead copy dev count fPos) := by
  simp only [cardRead]
  by_cases hle : fPos ≤ dev.bufferSize
  · have hend : fPos + remaining dev count fPos ≤ dev.bufferSize := remaining_le hle
    rw [clamp_of_le hsize hpos hcount hle]
    generalize hr : remaining dev count fPos = r at *
    have hreads : ∀ i ∈ (List.range (copy.reads r)).map fun k : Nat => fPos + k,
        0 ≤ i ∧ i < dev.bufferSize := by
      intro i hi
      obtain ⟨k, hk, rfl⟩ := List.mem_map.mp hi
      have := List.mem_range.mp hk
      have := copy.reads_le r
      omega
    split_ifs with hshort
    · exact ⟨hreads, .inl ⟨rfl, rfl, fun _ => hr.symm ▸ hshort⟩⟩
    -- not fewer bytes were copied than asked for, so all of them
    · have hall : copy.copied r = r :=
        le_antisymm ((copy.copied_le r).trans (copy.reads_le r)) (not_lt.mp hshort)
      have hnew : toLong (toUlong fPos + r) = fPos + r := by
        obtain ⟨p, rfl⟩ := Int.eq_ofNat_of_zero_le hpos
        rw [toUlong_natCast (by omega), toLong_of_lt (by omega), Nat.cast_add]
      refine ⟨hreads, .inr ⟨?_, ?_, ?_⟩⟩
      · rw [hr]
        exact toLong_of_lt (by omega)
      · rw [hr]
        exact hnew
      · rw [hr]
        exact congrArg (dev.bytes fPos) hall
  -- behind the end the count is negative, and as an unsigned number it is huge
  · have hhuge := clamp_of_gt hsize hpos hcount (not_le.mp hle)
    generalize clamp (toInt32 dev.bufferSize) fPos count = n at *
    have hreads : copy.reads n = 0 := copy.refuses n hhuge
    have hcopied : copy.copied n < n := by
      have := copy.copied_le n
      omega
    rw [if_pos hcopied, hreads]
    exact ⟨fun i hi => absurd hi List.not_mem_nil, .inl ⟨rfl, rfl, fun h => absurd h hle⟩⟩

end

/-! ## Any sequence of reads -/

structure ReadCall where
  copy : CopyToUser
  count : Nat
  outcome : ReadOutcome

/-- A read of `count` bytes, which the kernel lets through when the position cannot
overflow. -/
def reading (dev : CardevPrivateData) : Lts Int ReadCall where
  step fPos e fPos' := fPos + e.count < 2 ^ 63 ∧ e.outcome.fPos = fPos' ∧
    e.outcome = cardRead e.copy dev e.count fPos

def delivered (e : ReadCall) : Option (List UInt8) :=
  if e.outcome.ret < 0 then none else some e.outcome.copied

/-- Copies that are no longer than the text succeed. -/
def ReadCall.Arrives (dev : CardevPrivateData) (e : ReadCall) : Prop :=
  ∀ n ≤ dev.bufferSize, e.copy.copied n = n

section
variable {dev : CardevPrivateData} {count p n : Nat} {copy : CopyToUser}

theorem CardevPrivateData.bytes_eq (h : p + n ≤ dev.bufferSize) :
    dev.bytes p n = (dev.text.drop p).take n := by
  apply List.ext_getElem
  · rw [List.length_take, List.length_drop, length_text, bytes, List.length_map,
      List.length_range]
    omega
  · intro i hi _
    simp only [text, bytes, List.getElem_take, List.getElem_drop, List.getElem_map,
      List.getElem_range]
    congr 1
    omega

theorem cardRead_at_end (hsize : dev.bufferSize < 2 ^ 31)
    (hcount : (dev.bufferSize : Int) + count < 2 ^ 63) :
    (cardRead copy dev count dev.bufferSize).ret = 0 ∧
      (cardRead copy dev count dev.bufferSize).fPos = dev.bufferSize := by
  have hnone : remaining dev count dev.bufferSize = 0 := by
    rw [remaining, if_pos le_rfl, sub_self]
    exact Nat.min_zero count
  simp only [cardRead]
  rw [clamp_of_le hsize (Int.natCast_nonneg _) hcount le_rfl, hnone, if_neg (Nat.not_lt_zero _)]
  refine ⟨rfl, ?_⟩
  show toLong (toUlong dev.bufferSize + 0) = dev.bufferSize
  rw [toUlong_natCast (by omega), toLong_of_lt (by omega), Nat.add_zero]

def Positions (dev : CardevPrivateData) (fPos : Int) (p : Nat) : Prop :=
  fPos = p ∧ p ≤ dev.bufferSize

theorem reading_step_ok (hsize : dev.bufferSize < 2 ^ 31) {fPos' : Int}
    {e : ReadCall} (hs : (reading dev).step p e fPos') :
    ReadOk e.copy dev e.count p e.outcome := by
  obtain ⟨hcount, -, he⟩ := hs
  rw [he]
  exact cardRead_ok hsize (Int.natCast_nonneg p) hcount e.copy

theorem reading_simulation (hsize : dev.bufferSize < 2 ^ 31) :
    (reading dev).Simulation (cursor dev.text) delivered (Positions dev) where
  hidden := by
    rintro _ e fPos' p ⟨rfl, hp⟩ hs hnone
    have hfail : e.outcome.ret < 0 := by
      by_contra hret
      rw [delivered, if_neg hret] at hnone
      exact Option.some_ne_none _ hnone
    rcases (reading_step_ok hsize hs).outcome with ⟨-, hkept, -⟩ | ⟨hret, -⟩
    · exact ⟨hs.2.1.symm.trans hkept, hp⟩
    · omega
  shown := by
    rintro _ e fPos' p piece ⟨rfl, hp⟩ hs hsome
    obtain ⟨hret, hpiece⟩ := Option.ite_none_left_eq_some.mp hsome
    rcases (reading_step_ok hsize hs).outcome with ⟨herr, -⟩ | ⟨-, hpos, hcopied⟩
    · exact absurd (herr.trans_lt (by decide)) hret
    · have hle : (p : Int) ≤ dev.bufferSize := Int.ofNat_le.mpr hp
      have hrem : remaining dev e.count p = min e.count (dev.text.length - p) := by
        rw [remaining, if_pos hle, CardevPrivateData.length_text]
        omega
      have hend : (p : Int) + remaining dev e.count p ≤ dev.bufferSize := remaining_le hle
      have hpiece : piece = (dev.text.drop p).take e.count := by
        -- the reader asks for more than is left, or gets what it asks for
        have htake : (dev.text.drop p).take e.count =
            (dev.text.drop p).take (remaining dev e.count p) := by
          rw [hrem, ← List.length_drop]
          exact List.take_eq_take_min
        rw [← Option.some.inj hpiece, hcopied, htake]
        exact CardevPrivateData.bytes_eq (by omega)
      refine ⟨p + remaining dev e.count p, ?_, ?_, by omega⟩
      · rw [hpiece, hrem]
        exact cursor_step_take (hp.trans_eq CardevPrivateData.length_text.symm)
      · rw [← hs.2.1, hpos, Nat.cast_add]

/-- What the reader has is the text up to the position, all of it when the copies succeed and
as much has been asked for. A read for at least one byte delivers none at the end of the text
and only there. -/
structure Streams (dev : CardevPrivateData) (tr : List (Int × ReadCall)) (fPos : Int) :
    Prop where
  in_order : ((Lts.labels tr).filterMap delivered).flatten = dev.text.take fPos.toNat
  whole : (∀ e ∈ Lts.labels tr, e.Arrives dev) →
    dev.bufferSize ≤ ((Lts.labels tr).map ReadCall.count).sum →
    ((Lts.labels tr).filterMap delivered).flatten = dev.text ∧ fPos = dev.bufferSize
  at_end : ∀ p ∈ tr, p.1 = dev.bufferSize →
    p.2.outcome.ret = 0 ∧ p.2.outcome.fPos = dev.bufferSize
  before_end : ∀ p ∈ tr, p.1 ≠ dev.bufferSize → 0 < p.2.count → p.2.outcome.ret ≠ 0

section
variable {fPos : Int} {tr : List (Int × ReadCall)} (hsize : dev.bufferSize < 2 ^ 31)
  (h : (reading dev).Run 0 tr fPos)
include hsize h

theorem reading_run_positions : ∃ q, Positions dev fPos q ∧
    ((Lts.labels tr).filterMap delivered).flatten = dev.text.take q := by
  obtain ⟨atr, q, hrun, hq, hlabels⟩ :=
    (reading_simulation hsize).run h ⟨rfl, Nat.zero_le dev.bufferSize⟩
  refine ⟨q, hq, ?_⟩
  rw [← hlabels, cursor_run_eq hrun, List.take_zero, List.nil_append]

theorem reading_run_step {p : Int × ReadCall} (hp : p ∈ tr) :
    ∃ q, Positions dev p.1 q ∧ ∃ fPos', (reading dev).step p.1 p.2 fPos' := by
  obtain ⟨tr', hrun, -⟩ := h.exists_before hp
  obtain ⟨q, hq, -⟩ := reading_run_positions hsize hrun
  exact ⟨q, hq, h.step_of_mem hp⟩

theorem reading_run_arrives (harrives : ∀ e ∈ Lts.labels tr, e.Arrives dev) :
    fPos = min ((Lts.labels tr).map ReadCall.count).sum dev.bufferSize := by
  induction h with
  | nil => simp
  | @snoc tr u v e hr hs ih =>
    rw [Lts.labels_snoc] at harrives ⊢
    obtain ⟨hbefore, hlast⟩ := List.forall_mem_append.mp harrives
    have hlast := hlast e (List.mem_singleton_self e)
    have ih := ih hbefore
    obtain ⟨q, ⟨rfl, hq⟩, -⟩ := reading_run_positions hsize hr
    have hle : (q : Int) ≤ dev.bufferSize := Int.ofNat_le.mpr hq
    have hrem : remaining dev e.count q = min e.count (dev.bufferSize - q) := by
      rw [remaining, if_pos hle]
      omega
    have hcopied := hlast (remaining dev e.count q) (by omega)
    rcases (reading_step_ok hsize hs).outcome with ⟨-, -, hfault⟩ | ⟨-, hpos, -⟩
    · exact absurd (hfault hle) (Nat.not_lt.mpr hcopied.ge)
    · rw [← hs.2.1, hpos, hrem, List.map_append, List.sum_append, List.map_singleton,
        List.sum_singleton]
      omega

end

/-- Every read of a device's text delivers what there is to read or fails, and the reads
through a file deliver the text once, from front to back, and then nothing. The text lies
in a buffer of `PDATA_SIZE` bytes, so that an `int` holds its length. -/
theorem cardRead_streams (hsize : dev.bufferSize < 2 ^ 31) :
    (∀ copy (count : Nat) (fPos : Int), 0 ≤ fPos → fPos + count < 2 ^ 63 →
      ReadOk copy dev count fPos (cardRead copy dev count fPos)) ∧
    ∀ tr fPos, (reading dev).Run 0 tr fPos → Streams dev tr fPos := by
  refine ⟨fun copy count fPos hpos hcount => cardRead_ok hsize hpos hcount copy,
    fun tr fPos h => ⟨?_, fun harrives hsum => ?_, ?_, ?_⟩⟩
  · obtain ⟨q, ⟨rfl, -⟩, hq⟩ := reading_run_positions hsize h
    exact hq
  · have hend := reading_run_arrives hsize h harrives
    rw [Nat.cast_min, min_eq_right (Int.ofNat_le.mpr hsum)] at hend
    obtain ⟨q, ⟨hq, -⟩, htext⟩ := reading_run_positions hsize h
    obtain rfl : q = dev.bufferSize := Int.ofNat.inj (hq.symm.trans hend)
    rw [← CardevPrivateData.length_text, List.take_length] at htext
    exact ⟨htext, hend⟩
  · intro p hp hend
    obtain ⟨q, -, fPos', hcount, -, he⟩ := reading_run_step hsize h hp
    rw [he, hend]
    exact cardRead_at_end hsize (hend ▸ hcount)
  · intro p hp hne hpos
    obtain ⟨q, ⟨hq, hle⟩, fPos', hs⟩ := reading_run_step hsize h hp
    rw [hq] at hs hne
    rcases (reading_step_ok hsize hs).outcome with ⟨herr, -⟩ | ⟨hret, -⟩
    · rw [herr]
      decide
    · rw [hret, remaining, if_pos (Int.ofNat_le.mpr hle)]
      omega

theorem cardRead_streams_three_bytes :
    let dev : CardevPrivateData := ⟨fun i => .ofNat i.toNat, 3⟩
    (∀ copy (count : Nat) (fPos : Int), 0 ≤ fPos → fPos + count < 2 ^ 63 →
      ReadOk copy dev count fPos (cardRead copy dev count fPos)) ∧
    ∀ tr fPos, (reading dev).Run 0 tr fPos → Streams dev tr fPos :=
  cardRead_streams (by norm_num)

end
end HeroTools.Driver
