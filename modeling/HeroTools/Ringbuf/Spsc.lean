import HeroTools.Ringbuf.Invariant
import Mathlib.Tactic.NormNum

/-! Every atomic step of either party follows the bounded queue, and so does every run. -/

namespace HeroTools.Ringbuf
open Lts

variable {Loc : Type*} [DecidableEq Loc] {xlat : View → Nat → Loc} {rb : RingBuf}
  {size es : Nat}

def label : Event → Option (Fifo.Label (List UInt8))
  | .tau => none
  | .access _ => none
  | .putOk el => some (.put el)
  | .putFull => some .full
  | .getOk el => some (.get el)
  | .getEmpty => some .empty

def Follows (xlat : View → Nat → Loc) (rb : RingBuf) (size es : Nat)
    (q : List (List UInt8)) (e : Event) (s' : Sys Loc) : Prop :=
  match label e with
  | none => Rel xlat rb size es s' q
  | some d => ∃ q', (Fifo.queue (List UInt8) (size - 1)).step q d q' ∧
      Rel xlat rb size es s' q'

/-! ## A byte stored in the free slot -/

section store
variable (hf : Fits xlat rb size es) (mem : Loc → UInt8) {head i : Nat} (b : UInt8)
include hf

theorem slot_update_ne (hhead : head < size) (hi : i < es) {idx k : Nat} (hidx : idx < size)
    (hk : k < es) (hne : idx ≠ head) :
    slot xlat rb es (Function.update mem (loc xlat rb (es * head + i)) b) idx k =
      slot xlat rb es mem idx k :=
  Function.update_of_ne (fun h => hne (hf.loc_inj hidx hhead hk hi h).1) _ _

theorem slot_update_head_ne (hhead : head < size) (hi : i < es) {k : Nat} (hk : k < i) :
    slot xlat rb es (Function.update mem (loc xlat rb (es * head + i)) b) head k =
      slot xlat rb es mem head k :=
  Function.update_of_ne
    (fun h => hk.ne (hf.loc_inj hhead hhead (hk.trans hi) hi h).2) _ _

omit [DecidableEq Loc] hf in
theorem slot_update_self [DecidableEq Loc] :
    slot xlat rb es (Function.update mem (loc xlat rb (es * head + i)) b) head i = b :=
  Function.update_self _ _ _

theorem holds_store {r : RingBuf} {q : List (List UInt8)}
    (h : Holds xlat rb size es r mem q) (hi : i < es) :
    Holds xlat rb size es r
      (Function.update mem (loc xlat rb (es * r.head + i)) b) q :=
  { h with
    stored := by
      intro j x hx
      have hj : j < q.length := (List.getElem?_eq_some_iff.mp hx).1
      rw [h.stored j x hx]
      refine bytes_congr fun k hk => ?_
      exact (slot_update_ne hf mem b h.head_lt hi (h.index_lt j) hk (h.head_ne hj)).symm }

theorem getOk_store {r : RingBuf} {q : List (List UInt8)}
    (h : Holds xlat rb size es r mem q) (hi : i < es) {pc : GetPc}
    (hg : GetOk xlat rb es r mem q pc) :
    GetOk xlat rb es r (Function.update mem (loc xlat rb (es * r.head + i)) b) q pc := by
  have htail : ∀ k < es, q ≠ [] →
      slot xlat rb es (Function.update mem (loc xlat rb (es * r.head + i)) b) r.tail k =
        slot xlat rb es mem r.tail k := by
    intro k hk hq
    have hne := h.head_ne (List.length_pos_of_ne_nil hq)
    rw [h.tail_index] at hne
    exact slot_update_ne hf mem b h.head_lt hi h.tail_lt hk hne
  cases pc with
  | idle => trivial
  | loadTail v el => trivial
  | loadHead v el t => exact hg
  | copy v el n =>
    obtain ⟨hq, hn, hc⟩ := hg
    exact ⟨hq, hn, fun k hk => (hc k hk).trans (htail k (hk.trans_le hn) hq).symm⟩
  | loadByte v el n t =>
    obtain ⟨hq, hn, ht, hc⟩ := hg
    exact ⟨hq, hn, ht, fun k hk => (hc k hk).trans (htail k (hk.trans hn) hq).symm⟩
  | storeTail v el t =>
    obtain ⟨hq, ht, hc⟩ := hg
    exact ⟨hq, ht, fun k hk => (hc k hk).trans (htail k hk hq).symm⟩

end store

/-! ## The steps -/

section steps
variable (hf : Fits xlat rb size es) {s s' : Sys Loc} {q : List (List UInt8)} {e : Event}
include hf

theorem follows_putStep (h : Rel xlat rb size es s q)
    (hs : putStep xlat s = some (e, s')) : Follows xlat rb size es q e s' := by
  have hput := h.prod
  cases hp : s.prod with
  | idle => simp [putStep, hp] at hs
  | loadHead v el =>
    simp only [putStep, hp, Option.some.injEq, Prod.mk.injEq] at hs
    obtain ⟨rfl, rfl⟩ := hs
    exact ⟨h.holds, rfl, h.cons⟩
  | loadTail v el nh =>
    rw [hp] at hput
    have hnh : nh = s.rb.next s.rb.head := hput
    simp only [putStep, hp] at hs
    split at hs
    · rename_i hfull
      simp only [Option.some.injEq, Prod.mk.injEq] at hs
      obtain ⟨rfl, rfl⟩ := hs
      -- one slot stays free, so the queue has all that it can take
      have hlen : q.length + 1 = size :=
        (h.holds.nextHead_eq_tail hf).mp (hnh ▸ hfull)
      exact ⟨q, ⟨by omega, rfl⟩, h.holds, trivial, h.cons⟩
    · rename_i hfree
      simp only [Option.some.injEq, Prod.mk.injEq] at hs
      obtain ⟨rfl, rfl⟩ := hs
      have hlen : q.length + 1 ≠ size := fun hl =>
        hfree (hnh.trans ((h.holds.nextHead_eq_tail hf).mpr hl))
      have hroom : q.length + 1 < size := Nat.lt_of_le_of_ne h.holds.room hlen
      exact ⟨h.holds, ⟨hnh, hroom, Nat.zero_le _, by simp⟩, h.cons⟩
  | copy v el nh i =>
    rw [hp] at hput
    obtain ⟨hnh, hroom, hi, hc⟩ := hput
    have hes := h.holds.elementSize_eq
    simp only [putStep, hp] at hs
    split at hs
    · rename_i hlt
      simp only [Option.some.injEq, Prod.mk.injEq] at hs
      obtain ⟨rfl, rfl⟩ := hs
      exact ⟨h.holds, ⟨hnh, hroom, hes ▸ hlt, rfl, hc⟩, h.cons⟩
    · rename_i hge
      simp only [Option.some.injEq, Prod.mk.injEq] at hs
      obtain ⟨rfl, rfl⟩ := hs
      have hie : i = es := Nat.le_antisymm hi (hes ▸ Nat.le_of_not_lt hge)
      have hb : bytes s.rb.elementSize el = bytes es el := by rw [hes]
      subst hnh
      -- the store of `head` is where the put takes effect
      refine ⟨q ++ [bytes s.rb.elementSize el], ⟨by omega, rfl⟩, ?_, trivial,
        getOk_publish h.cons⟩
      rw [hb]
      exact holds_publish hf h.holds hroom (hie ▸ hc)
  | storeByte v el nh i hd =>
    rw [hp] at hput
    obtain ⟨hnh, hroom, hi, rfl, hc⟩ := hput
    simp only [putStep, hp, Option.some.injEq, Prod.mk.injEq] at hs
    obtain ⟨rfl, rfl⟩ := hs
    -- the slot of `head` is behind the queue, so no element changes
    have ha := hf.xlat_addr h.holds.elementSize_eq h.holds.dataV_eq h.holds.dataP_eq v
      h.holds.head_lt hi
    rw [ha]
    refine ⟨holds_store hf s.mem (el i) h.holds hi, ⟨hnh, hroom, hi, ?_⟩,
      getOk_store hf s.mem (el i) h.holds hi h.cons⟩
    intro k hk
    rcases Nat.lt_succ_iff_lt_or_eq.mp hk with hk | rfl
    · exact (slot_update_head_ne hf s.mem (el i) h.holds.head_lt hi hk).trans (hc k hk)
    · exact slot_update_self s.mem (el k)

omit [DecidableEq Loc] in
theorem follows_getStep (h : Rel xlat rb size es s q)
    (hs : getStep xlat s = some (e, s')) : Follows xlat rb size es q e s' := by
  have hget := h.cons
  cases hg : s.cons with
  | idle => simp [getStep, hg] at hs
  | loadTail v el =>
    simp only [getStep, hg, Option.some.injEq, Prod.mk.injEq] at hs
    obtain ⟨rfl, rfl⟩ := hs
    exact ⟨h.holds, h.prod, rfl⟩
  | loadHead v el t =>
    rw [hg] at hget
    have ht : t = s.rb.tail := hget
    simp only [getStep, hg] at hs
    split at hs
    · rename_i hempty
      simp only [Option.some.injEq, Prod.mk.injEq] at hs
      obtain ⟨rfl, rfl⟩ := hs
      have hq : q = [] := h.holds.tail_eq_head.mp (ht ▸ hempty)
      exact ⟨q, ⟨hq, rfl⟩, h.holds, h.prod, trivial⟩
    · rename_i hne
      simp only [Option.some.injEq, Prod.mk.injEq] at hs
      obtain ⟨rfl, rfl⟩ := hs
      have hq : q ≠ [] := fun hq => hne (ht.trans (h.holds.tail_eq_head.mpr hq))
      exact ⟨h.holds, h.prod, ⟨hq, Nat.zero_le _, by simp⟩⟩
  | copy v el i =>
    rw [hg] at hget
    obtain ⟨hq, hi, hc⟩ := hget
    have hes := h.holds.elementSize_eq
    simp only [getStep, hg] at hs
    split at hs
    · rename_i hlt
      simp only [Option.some.injEq, Prod.mk.injEq] at hs
      obtain ⟨rfl, rfl⟩ := hs
      exact ⟨h.holds, h.prod, ⟨hq, hes ▸ hlt, rfl, hc⟩⟩
    · rename_i hge
      simp only [Option.some.injEq, Prod.mk.injEq] at hs
      obtain ⟨rfl, rfl⟩ := hs
      have hie : i = es := Nat.le_antisymm hi (hes ▸ Nat.le_of_not_lt hge)
      exact ⟨h.holds, h.prod, ⟨hq, rfl, hie ▸ hc⟩⟩
  | loadByte v el i t =>
    rw [hg] at hget
    obtain ⟨hq, hi, rfl, hc⟩ := hget
    simp only [getStep, hg, Option.some.injEq, Prod.mk.injEq] at hs
    obtain ⟨rfl, rfl⟩ := hs
    have ha := hf.xlat_addr h.holds.elementSize_eq h.holds.dataV_eq h.holds.dataP_eq v
      h.holds.tail_lt hi
    rw [ha]
    refine ⟨h.holds, h.prod, ⟨hq, hi, ?_⟩⟩
    intro k hk
    rcases Nat.lt_succ_iff_lt_or_eq.mp hk with hk | rfl
    · rw [Function.update_of_ne hk.ne]
      exact hc k hk
    · exact Function.update_self _ _ _
  | storeTail v el t =>
    rw [hg] at hget
    obtain ⟨hq, rfl, hc⟩ := hget
    obtain ⟨q', rfl⟩ := holds_first h.holds hq hc
    simp only [getStep, hg, Option.some.injEq, Prod.mk.injEq] at hs
    obtain ⟨rfl, rfl⟩ := hs
    have hb : bytes s.rb.elementSize el = bytes es el := by rw [h.holds.elementSize_eq]
    -- the store of `tail` is where the get takes effect
    exact ⟨q', congrArg (· :: q') hb.symm, holds_release hf h.holds, putOk_release h.prod, trivial⟩

theorem follows_exec {a : Act} (h : Rel xlat rb size es s q)
    (hs : exec xlat s a = some (e, s')) : Follows xlat rb size es q e s' := by
  have hputc : ∀ v el, putCall v el s = some (e, s') → Follows xlat rb size es q e s' := by
    intro v el hc
    cases hp : s.prod <;> simp [putCall, hp] at hc
    obtain ⟨rfl, rfl⟩ := hc
    exact ⟨h.holds, trivial, h.cons⟩
  have hgetc : ∀ v el, getCall v el s = some (e, s') → Follows xlat rb size es q e s' := by
    intro v el hc
    cases hg : s.cons <;> simp [getCall, hg] at hc
    obtain ⟨rfl, rfl⟩ := hc
    exact ⟨h.holds, h.prod, trivial⟩
  cases a with
  | rbDevicePut el => exact hputc _ _ hs
  | rbHostPut el => exact hputc _ _ hs
  | rbHostGet el => exact hgetc _ _ hs
  | rbDeviceGet el => exact hgetc _ _ hs
  | producer => exact follows_putStep hf h hs
  | consumer => exact follows_getStep hf h hs

theorem spsc_simulation :
    Simulation (spsc xlat) (Fifo.queue (List UInt8) (size - 1)) label
      (Rel xlat rb size es) where
  hidden := by
    rintro s e s' q h ⟨a, hs⟩ he
    have hfol := follows_exec hf h hs
    rwa [Follows, he] at hfol
  shown := by
    rintro s e s' q d h ⟨a, hs⟩ he
    have hfol := follows_exec hf h hs
    rwa [Follows, he] at hfol

theorem access_lt {off : Nat} {a : Act} (h : Rel xlat rb size es s q)
    (hs : exec xlat s a = some (.access off, s')) : off < size * es := by
  have hputc : ∀ v el, putCall v el s ≠ some (.access off, s') := by
    intro v el hc
    cases hp : s.prod <;> simp [putCall, hp] at hc
  have hgetc : ∀ v el, getCall v el s ≠ some (.access off, s') := by
    intro v el hc
    cases hg : s.cons <;> simp [getCall, hg] at hc
  cases a with
  | rbDevicePut el => exact absurd hs (hputc _ _)
  | rbHostPut el => exact absurd hs (hputc _ _)
  | rbHostGet el => exact absurd hs (hgetc _ _)
  | rbDeviceGet el => exact absurd hs (hgetc _ _)
  | producer =>
    have hput := h.prod
    cases hp : s.prod <;> simp only [exec, putStep, hp] at hs <;>
      first | (split at hs <;> simp at hs) | simp at hs
    rw [hp] at hput
    obtain ⟨-, -, hi, rfl, -⟩ := hput
    rw [← hs.1, hf.offset_eq h.holds.elementSize_eq h.holds.head_lt hi]
    exact slot_byte_lt h.holds.head_lt hi
  | consumer =>
    have hget := h.cons
    cases hg : s.cons <;> simp only [exec, getStep, hg] at hs <;>
      first | (split at hs <;> simp at hs) | simp at hs
    rw [hg] at hget
    obtain ⟨-, hi, rfl, -⟩ := hget
    rw [← hs.1, hf.offset_eq h.holds.elementSize_eq h.holds.tail_lt hi]
    exact slot_byte_lt h.holds.tail_lt hi

end steps

/-! ## Every run -/

def given (tr : List (Sys Loc × Event)) : List (List UInt8) :=
  (labels tr).filterMap fun | .putOk el => some el | _ => none

def returned (tr : List (Sys Loc × Event)) : List (List UInt8) :=
  (labels tr).filterMap fun | .getOk el => some el | _ => none

def unread (tr : List (Sys Loc × Event)) : Nat := (given tr).length - (returned tr).length

omit [DecidableEq Loc] in
theorem given_label (tr : List (Sys Loc × Event)) :
    Fifo.given ((labels tr).filterMap label) = given tr := by
  rw [Fifo.given, List.filterMap_filterMap, given]
  congr 1
  funext e
  cases e <;> rfl

omit [DecidableEq Loc] in
theorem returned_label (tr : List (Sys Loc × Event)) :
    Fifo.returned ((labels tr).filterMap label) = returned tr := by
  rw [Fifo.returned, List.filterMap_filterMap, returned]
  congr 1
  funext e
  cases e <;> rfl

theorem exists_rel (hf : Fits xlat rb size es) {mem : Loc → UInt8}
    {tr : List (Sys Loc × Event)} {s : Sys Loc}
    (hr : (spsc xlat).Run (start (rbInit rb size es) mem) tr s) :
    ∃ q, Rel xlat rb size es s q ∧ given tr = returned tr ++ q ∧ q.length ≤ size - 1 := by
  obtain ⟨atr, q, ha, hq, hl⟩ := (spsc_simulation hf).run hr (rel_start hf mem)
  refine ⟨q, hq, ?_, Fifo.length_le ha⟩
  have he := Fifo.given_eq ha
  rwa [hl, given_label, returned_label] at he

/-- A ring buffer that `rb_init` has set up is a first-in first-out queue of `size - 1`
elements for one producer and one consumer, however their loads and stores interleave. -/
theorem spsc_queue (hf : Fits xlat rb size es) {mem : Loc → UInt8}
    {tr : List (Sys Loc × Event)} {s : Sys Loc}
    (hr : (spsc xlat).Run (start (rbInit rb size es) mem) tr s) :
    returned tr <+: given tr ∧ unread tr ≤ size - 1 ∧
      ∀ e s', (spsc xlat).step s e s' →
        (e = .putFull → unread tr = size - 1) ∧ (e = .getEmpty → unread tr = 0) ∧
          ∀ off, e = .access off → off < size * es := by
  obtain ⟨q, hq, hg, hlen⟩ := exists_rel hf hr
  have hun : unread tr = q.length := by
    rw [unread, hg, List.length_append, Nat.add_sub_cancel_left]
  refine ⟨⟨q, hg.symm⟩, hun ▸ hlen, ?_⟩
  rintro e s' ⟨a, hs⟩
  refine ⟨?_, ?_, ?_⟩
  · rintro rfl
    obtain ⟨q', ⟨hfull, -⟩, -⟩ := follows_exec hf hq hs
    exact hun.trans hfull
  · rintro rfl
    obtain ⟨q', ⟨hempty, -⟩, -⟩ := follows_exec hf hq hs
    rw [hun, hempty, List.length_nil]
  · rintro off rfl
    exact access_lt hf hq hs

def pairRing : RingBuf := ⟨0, 0, 0, 0, 8, 20⟩

def pairXlat : View → Nat → Nat
  | .host, a => a
  | .device, a => a - 12

theorem pair_fits : Fits pairXlat pairRing 3 2 where
  size_pos := by norm_num
  size_lt := by norm_num
  elementSize_lt := by norm_num
  bytes_le := by norm_num
  same := by
    intro k hk
    simp only [pairXlat, pairRing]
    omega
  inj := by
    intro j hj k hk h
    simp only [pairXlat, pairRing] at h
    omega

def pair (x y : UInt8) : Buf := fun i => if i = 0 then x else y

def both (el : Buf) : List Act :=
  [.rbDevicePut el, .rbHostGet fun _ => 0] ++
    (List.replicate 7 [.producer, .consumer]).flatten ++ [.consumer]

/-- The fourth element goes to the first slot again. -/
def pairActs : List Act :=
  .rbDevicePut (pair 1 2) :: (List.replicate 7 .producer ++ both (pair 3 4) ++
    both (pair 5 6) ++ both (pair 7 8) ++ .rbHostGet (fun _ => 0) :: List.replicate 8 .consumer)

theorem spsc_queue_four_pairs :
    ∃ tr s, (spsc pairXlat).Run (start (rbInit pairRing 3 2) fun _ => 0) tr s ∧
      returned tr = [[1, 2], [3, 4], [5, 6], [7, 8]] ∧ s.rb.head = 1 ∧
      returned tr <+: given tr ∧ unread tr ≤ 2 := by
  have hall : (replay (exec pairXlat) (start (rbInit pairRing 3 2) fun _ => 0) pairActs).map
      (fun r => (returned r.1, r.2.rb.head)) = some ([[1, 2], [3, 4], [5, 6], [7, 8]], 1) := by
    decide +kernel
  obtain ⟨⟨tr, s⟩, hreplay, hr⟩ := Option.map_eq_some_iff.mp hall
  obtain ⟨hreturned, hhead⟩ := Prod.mk.inj hr
  have hrun := replay_run hreplay
  exact ⟨tr, s, hrun, hreturned, hhead, (spsc_queue pair_fits hrun).1,
    (spsc_queue pair_fits hrun).2.1⟩

end HeroTools.Ringbuf
