import HeroTools.Lib.LittleEndian
import HeroTools.Lib.Mirror
import HeroTools.Ringbuf.Spsc

/-! `hero_dev_mbox_read`: the words of the device-to-host mailbox, read in any number of
calls while the device sends. -/

namespace HeroTools.Libhero
open Ringbuf Lts

def wordBytes (w : UInt32) : Buf := leByte w.toNat

def wordOf (bs : List UInt8) : UInt32 := .ofNat (Nat.ofDigits 256 (bs.map UInt8.toNat))

/-- Where the host stands: between calls; at `while (n_words--)`; about to get a word for
`buffer[n_words]`; inside `rb_host_get`. The buffer is named by its offset in `buf`. -/
inductive ReadPc
  | caller
  | loop (buffer nWords : Nat)
  | get (buffer nWords : Nat)
  | wait (buffer nWords : Nat)
deriving DecidableEq, Repr

structure Mbox (Loc : Type*) where
  ring : Sys Loc
  toSend : List UInt32
  buf : Nat → UInt32
  offset : Nat
  calls : List Nat
  pc : ReadPc

variable {Loc : Type*} [DecidableEq Loc] (xlat : View → Nat → Loc)

def unsent (toSend : List UInt32) : Event → List UInt32
  | .putOk _ => toSend.tail
  | _ => toSend

/-- The device puts its words one after the other, each again and again while the mailbox
is full. -/
def deviceStep (s : Mbox Loc) : Option (Event × Mbox Loc) :=
  match s.ring.prod, s.toSend with
  | .idle, [] => none
  | .idle, w :: _ => (exec xlat s.ring (.rbDevicePut (wordBytes w))).map fun er =>
      (er.1, { s with ring := er.2 })
  | _, _ => (exec xlat s.ring .producer).map fun er =>
      (er.1, { s with ring := er.2, toSend := unsent s.toSend er.1 })

/-- The host makes its calls on consecutive parts of `buf`. A get that finds the mailbox
empty is tried again. -/
def hostStep (s : Mbox Loc) : Option (Event × Mbox Loc) :=
  match s.pc with
  | .caller => match s.calls with
    | [] => none
    | nWords :: calls => some (.tau, { s with
        offset := s.offset + nWords
        calls := calls
        pc := .loop s.offset nWords })
  | .loop buffer nWords =>
    if nWords = 0 then some (.tau, { s with pc := .caller })
    else some (.tau, { s with pc := .get buffer (nWords - 1) })
  | .get buffer nWords =>
    (exec xlat s.ring (.rbHostGet (wordBytes (s.buf (buffer + nWords))))).map fun er =>
      (er.1, { s with ring := er.2, pc := .wait buffer nWords })
  | .wait buffer nWords => (exec xlat s.ring .consumer).map fun er => (er.1, match er.1 with
    | .getEmpty => { s with ring := er.2, pc := .get buffer nWords }
    | .getOk bs => { s with
        ring := er.2
        buf := Function.update s.buf (buffer + nWords) (wordOf bs)
        pc := .loop buffer nWords }
    | _ => { s with ring := er.2 })

inductive Party
  | device
  | host
deriving DecidableEq, Repr

def mboxExec (s : Mbox Loc) : Party → Option (Event × Mbox Loc)
  | .device => deviceStep xlat s
  | .host => hostStep xlat s

/-- The device sends, and the host makes its calls, in any interleaving. -/
def mbox : Lts (Mbox Loc) Event := .ofExec (mboxExec xlat)

def mboxStart (rb : RingBuf) (mem : Loc → UInt8) (buf : Nat → UInt32) (ns : List Nat)
    (ws : List UInt32) : Mbox Loc :=
  ⟨start (rbInit rb 16 4) mem, ws, buf, 0, ns, .caller⟩

def Mbox.Returned (s : Mbox Loc) : Prop := s.pc = .caller ∧ s.calls = []

def consumedOf : Event → List UInt32
  | .getOk bs => [wordOf bs]
  | _ => []

def consumed (tr : List (Mbox Loc × Event)) : List UInt32 := (labels tr).flatMap consumedOf

/-! ## Words as bytes -/

theorem wordOf_bytes (w : UInt32) : wordOf (bytes 4 (wordBytes w)) = w := by
  have hvalue : Nat.ofDigits 256 ((bytes 4 (wordBytes w)).map UInt8.toNat) =
      leValue (leByte w.toNat) 4 := by
    rw [bytes, List.map_map]
    rfl
  have hlt : w.toNat < 256 ^ 4 := w.toNat_lt
  rw [wordOf, hvalue, leValue_leByte, Nat.mod_eq_of_lt hlt, UInt32.ofNat_toNat]

/-! ## What a step of one party leaves alone -/

section
variable {xlat} {s s' : Sys Loc} {e : Event} {bs : List UInt8}

def putEl : PutPc → Option Buf
  | .idle => none
  | .loadHead _ el => some el
  | .loadTail _ el _ => some el
  | .copy _ el _ _ => some el
  | .storeByte _ el _ _ _ => some el

theorem producer_step_el (hs : exec xlat s .producer = some (e, s')) :
    (∀ bs, e = .putOk bs → s'.prod = .idle ∧
      ∃ el, putEl s.prod = some el ∧ bs = bytes s.rb.elementSize el) ∧
    (∀ el, putEl s'.prod = some el → putEl s.prod = some el) ∧
    consumedOf e = [] := by
  change putStep xlat s = _ at hs
  unfold putStep at hs
  cases hp : s.prod with
  | idle => simp [hp] at hs
  | loadHead v el =>
    simp only [hp, Option.some.injEq, Prod.mk.injEq] at hs
    obtain ⟨rfl, rfl⟩ := hs
    exact ⟨fun _ h => (nomatch h), fun _ h => h, rfl⟩
  | loadTail v el nh =>
    simp only [hp] at hs
    split at hs <;> obtain ⟨rfl, rfl⟩ := Prod.mk.inj (Option.some.inj hs)
    · exact ⟨fun _ h => (nomatch h), fun _ h => (nomatch h), rfl⟩
    · exact ⟨fun _ h => (nomatch h), fun _ h => h, rfl⟩
  | copy v el nh i =>
    simp only [hp] at hs
    split at hs <;> obtain ⟨rfl, rfl⟩ := Prod.mk.inj (Option.some.inj hs)
    · exact ⟨fun _ h => (nomatch h), fun _ h => h, rfl⟩
    · exact ⟨fun _ h => ⟨rfl, el, rfl, (Event.putOk.inj h).symm⟩, fun _ h => (nomatch h), rfl⟩
  | storeByte v el nh i hd =>
    simp only [hp, Option.some.injEq, Prod.mk.injEq] at hs
    obtain ⟨rfl, rfl⟩ := hs
    exact ⟨fun _ h => (nomatch h), fun _ h => h, rfl⟩

theorem consumer_step_prod (hs : exec xlat s .consumer = some (e, s')) :
    s'.prod = s.prod ∧ ∀ bs, e ≠ .putOk bs := by
  change getStep xlat s = _ at hs
  unfold getStep at hs
  split at hs
  · cases hs
  · obtain ⟨rfl, rfl⟩ := Prod.mk.inj (Option.some.inj hs)
    exact ⟨rfl, fun _ h => nomatch h⟩
  · split at hs <;> obtain ⟨rfl, rfl⟩ := Prod.mk.inj (Option.some.inj hs) <;>
      exact ⟨rfl, fun _ h => nomatch h⟩
  · split at hs <;> obtain ⟨rfl, rfl⟩ := Prod.mk.inj (Option.some.inj hs) <;>
      exact ⟨rfl, fun _ h => nomatch h⟩
  · obtain ⟨rfl, rfl⟩ := Prod.mk.inj (Option.some.inj hs)
    exact ⟨rfl, fun _ h => nomatch h⟩
  · obtain ⟨rfl, rfl⟩ := Prod.mk.inj (Option.some.inj hs)
    exact ⟨rfl, fun _ h => nomatch h⟩

end

/-! ## The invariant -/

def HostOk (ns : List Nat) (n : Nat) (s : Mbox Loc) : Prop :=
  match s.pc with
  | .caller => ∃ pre, ns = pre ++ s.calls ∧ s.offset = pre.sum ∧ n = pre.sum
  | .loop buffer nWords => ∃ pre m, ns = pre ++ m :: s.calls ∧ s.offset = pre.sum + m ∧
      buffer = pre.sum ∧ nWords ≤ m ∧ n + nWords = pre.sum + m
  | .get buffer nWords => ∃ pre m, ns = pre ++ m :: s.calls ∧ s.offset = pre.sum + m ∧
      buffer = pre.sum ∧ nWords < m ∧ n + nWords + 1 = pre.sum + m
  | .wait buffer nWords => ∃ pre m, ns = pre ++ m :: s.calls ∧ s.offset = pre.sum + m ∧
      buffer = pre.sum ∧ nWords < m ∧ n + nWords + 1 = pre.sum + m

/-- The words got, the words in the mailbox and the words to send are the device's words,
and every word got is where the mirrored position says. -/
structure MboxInv (xlat : View → Nat → Loc) (rb : RingBuf) (ns : List Nat) (ws got : List UInt32)
    (s : Mbox Loc) : Prop where
  queued : ∃ q : List UInt32,
    Rel xlat rb 16 4 s.ring (q.map fun w => bytes 4 (wordBytes w)) ∧ ws = got ++ q ++ s.toSend
  sending : ∀ el, putEl s.ring.prod = some el → ∃ w ∈ s.toSend.head?, el = wordBytes w
  host : HostOk ns got.length s
  stored : ∀ j w, got[j]? = some w → s.buf (mirror ns j) = w

section
variable {xlat} {rb : RingBuf} {ns : List Nat} {ws got : List UInt32} {s s' : Mbox Loc}
  {e : Event} (hf : Fits xlat rb 16 4)
include hf

omit [DecidableEq Loc] in
theorem mboxInv_start (mem : Loc → UInt8) (buf : Nat → UInt32) (ns : List Nat)
    (ws : List UInt32) : MboxInv xlat rb ns ws [] (mboxStart rb mem buf ns ws) where
  queued := ⟨[], rel_start hf mem, rfl⟩
  sending := fun _ h => nomatch h
  host := ⟨[], rfl, rfl, rfl⟩
  stored := fun _ _ h => nomatch h

theorem mboxInv_producer (h : MboxInv xlat rb ns ws got s) {ring : Sys Loc}
    (hs : exec xlat s.ring .producer = some (e, ring)) :
    MboxInv xlat rb ns ws got { s with ring := ring, toSend := unsent s.toSend e } := by
  obtain ⟨q, hrel, hws⟩ := h.queued
  have hfol := follows_exec hf hrel hs
  obtain ⟨hput, hel, hnone⟩ := producer_step_el hs
  have hkept : (∀ el, putEl ring.prod = some el → ∃ w ∈ s.toSend.head?, el = wordBytes w) :=
    fun el hr => h.sending el (hel el hr)
  cases e with
  | tau => exact ⟨⟨q, hfol, hws⟩, hkept, h.host, h.stored⟩
  | access off => exact ⟨⟨q, hfol, hws⟩, hkept, h.host, h.stored⟩
  | putFull =>
    obtain ⟨q', ⟨-, rfl⟩, hrel'⟩ := hfol
    exact ⟨⟨q, hrel', hws⟩, hkept, h.host, h.stored⟩
  | putOk bs =>
    obtain ⟨q', ⟨-, rfl⟩, hrel'⟩ := hfol
    obtain ⟨hidle, el, hprod, hbs⟩ := hput bs rfl
    obtain ⟨w, hw, rfl⟩ := h.sending el hprod
    obtain ⟨rest, hrest⟩ := List.head?_eq_some_iff.mp hw
    refine ⟨⟨q ++ [w], ?_, ?_⟩, ?_, h.host, h.stored⟩
    · rw [List.map_append, List.map_singleton, ← hrel.holds.elementSize_eq, ← hbs,
        hrel.holds.elementSize_eq]
      exact hrel'
    · rw [hws, hrest, unsent]
      simp
    · rw [hidle]
      exact fun _ hr => nomatch hr
  | getOk bs => cases hnone
  | getEmpty =>
    obtain ⟨q', ⟨-, rfl⟩, hrel'⟩ := hfol
    exact ⟨⟨q, hrel', hws⟩, hkept, h.host, h.stored⟩

theorem mboxInv_device (h : MboxInv xlat rb ns ws got s)
    (hs : deviceStep xlat s = some (e, s')) :
    consumedOf e = [] ∧ MboxInv xlat rb ns ws got s' := by
  unfold deviceStep at hs
  split at hs
  · cases hs
  · next w rest hidle hsend =>
    obtain ⟨⟨e', ring⟩, hexec, hp⟩ := Option.map_eq_some_iff.mp hs
    obtain ⟨rfl, rfl⟩ := Prod.mk.inj hp
    obtain ⟨q, hrel, hws⟩ := h.queued
    have hfol := follows_exec hf hrel hexec
    simp only [exec, putCall, hidle, Option.some.injEq, Prod.mk.injEq] at hexec
    obtain ⟨rfl, rfl⟩ := hexec
    refine ⟨rfl, ⟨q, hfol, hws⟩, ?_, h.host, h.stored⟩
    intro el hel
    obtain rfl : wordBytes w = el := Option.some.inj hel
    exact ⟨w, by rw [hsend]; rfl, rfl⟩
  · obtain ⟨⟨e', ring⟩, hexec, hp⟩ := Option.map_eq_some_iff.mp hs
    obtain ⟨rfl, rfl⟩ := Prod.mk.inj hp
    exact ⟨(producer_step_el hexec).2.2, mboxInv_producer hf h hexec⟩

theorem mboxInv_consumer {buffer nWords : Nat} (h : MboxInv xlat rb ns ws got s)
    (hpc : s.pc = .wait buffer nWords) (hs : hostStep xlat s = some (e, s')) :
    MboxInv xlat rb ns ws (got ++ consumedOf e) s' := by
  simp only [hostStep, hpc] at hs
  obtain ⟨⟨e', ring⟩, hexec, hp⟩ := Option.map_eq_some_iff.mp hs
  obtain ⟨rfl, rfl⟩ := Prod.mk.inj hp
  obtain ⟨q, hrel, hws⟩ := h.queued
  have hfol := follows_exec hf hrel hexec
  obtain ⟨hprod, hno⟩ := consumer_step_prod hexec
  obtain ⟨pre, m, hns, hoff, hbuf, hlt, hn⟩ : ∃ pre m, ns = pre ++ m :: s.calls ∧
      s.offset = pre.sum + m ∧ buffer = pre.sum ∧ nWords < m ∧
        got.length + nWords + 1 = pre.sum + m := by
    have hhost := h.host
    rwa [HostOk, hpc] at hhost
  have hsending : ∀ el, putEl ring.prod = some el → ∃ w ∈ s.toSend.head?, el = wordBytes w :=
    hprod ▸ h.sending
  cases e' with
  | tau =>
    simp only [consumedOf, List.append_nil]
    exact ⟨⟨q, hfol, hws⟩, hsending, ⟨pre, m, hns, hoff, hbuf, hlt, hn⟩, h.stored⟩
  | access off =>
    simp only [consumedOf, List.append_nil]
    exact ⟨⟨q, hfol, hws⟩, hsending, ⟨pre, m, hns, hoff, hbuf, hlt, hn⟩, h.stored⟩
  | putFull =>
    obtain ⟨q', ⟨-, rfl⟩, hrel'⟩ := hfol
    simp only [consumedOf, List.append_nil]
    exact ⟨⟨q, hrel', hws⟩, hsending, ⟨pre, m, hns, hoff, hbuf, hlt, hn⟩, h.stored⟩
  | putOk bs => exact absurd rfl (hno bs)
  | getEmpty =>
    obtain ⟨q', ⟨-, rfl⟩, hrel'⟩ := hfol
    simp only [consumedOf, List.append_nil]
    exact ⟨⟨q, hrel', hws⟩, hsending, ⟨pre, m, hns, hoff, hbuf, hlt, hn⟩, h.stored⟩
  | getOk bs =>
    obtain ⟨q', hq, hrel'⟩ := hfol
    obtain ⟨w, q, rfl, rfl, rfl⟩ := List.map_eq_cons_iff.mp hq
    -- the read fills its part of the buffer from the end
    have hplace : mirror ns got.length = buffer + nWords := by
      have hi : got.length = pre.sum + (m - 1 - nWords) := by omega
      rw [hi, hns, mirror_piece (by omega), hbuf]
      omega
    have hsum : got.length < ns.sum := by
      rw [hns, List.sum_append, List.sum_cons]
      omega
    rw [consumedOf, wordOf_bytes]
    refine ⟨⟨q, hrel', ?_⟩, hsending, ⟨pre, m, hns, hoff, hbuf, hlt.le, ?_⟩, ?_⟩
    · rw [hws]
      simp
    · rw [List.length_append, List.length_singleton]
      omega
    · show ∀ j v, (got ++ [w])[j]? = some v → Function.update s.buf (buffer + nWords)
        (wordOf (bytes 4 (wordBytes w))) (mirror ns j) = v
      rw [← hplace, wordOf_bytes]
      exact mirror_update hsum h.stored

theorem mboxInv_host (h : MboxInv xlat rb ns ws got s)
    (hs : hostStep xlat s = some (e, s')) : MboxInv xlat rb ns ws (got ++ consumedOf e) s' := by
  have hhost := h.host
  cases hpc : s.pc with
  | caller =>
    rw [HostOk, hpc] at hhost
    obtain ⟨pre, hns, hoff, hn⟩ := hhost
    simp only [hostStep, hpc] at hs
    split at hs
    · cases hs
    · next nWords calls hcalls =>
      obtain ⟨rfl, rfl⟩ := Prod.mk.inj (Option.some.inj hs)
      simp only [consumedOf, List.append_nil]
      refine ⟨h.queued, h.sending, ⟨pre, nWords, hcalls ▸ hns, ?_, hoff, le_rfl, ?_⟩, h.stored⟩
      · rw [hoff]
      · rw [hn]
  | loop buffer nWords =>
    rw [HostOk, hpc] at hhost
    obtain ⟨pre, m, hns, hoff, hbuf, hle, hn⟩ := hhost
    simp only [hostStep, hpc] at hs
    split_ifs at hs with hzero <;> obtain ⟨rfl, rfl⟩ := Prod.mk.inj (Option.some.inj hs) <;>
      simp only [consumedOf, List.append_nil]
    -- the read has got all of its words and returns
    · refine ⟨h.queued, h.sending, ⟨pre ++ [m], ?_, ?_, ?_⟩, h.stored⟩
      · rw [hns, List.append_assoc, List.singleton_append]
      · rw [List.sum_append, List.sum_singleton]
        exact hoff
      · rw [List.sum_append, List.sum_singleton]
        omega
    · exact ⟨h.queued, h.sending, ⟨pre, m, hns, hoff, hbuf, by omega, by omega⟩, h.stored⟩
  | get buffer nWords =>
    rw [HostOk, hpc] at hhost
    simp only [hostStep, hpc] at hs
    obtain ⟨⟨e', ring⟩, hexec, hp⟩ := Option.map_eq_some_iff.mp hs
    obtain ⟨rfl, rfl⟩ := Prod.mk.inj hp
    obtain ⟨q, hrel, hws⟩ := h.queued
    have hfol := follows_exec hf hrel hexec
    simp only [exec, getCall] at hexec
    split at hexec
    · obtain ⟨rfl, rfl⟩ := Prod.mk.inj (Option.some.inj hexec)
      simp only [consumedOf, List.append_nil]
      exact ⟨⟨q, hfol, hws⟩, h.sending, hhost, h.stored⟩
    · cases hexec
  | wait buffer nWords => exact mboxInv_consumer hf h hpc hs

theorem mboxInv_run {mem : Loc → UInt8} {buf : Nat → UInt32} {tr : List (Mbox Loc × Event)}
    (h : (mbox xlat).Run (mboxStart rb mem buf ns ws) tr s) :
    MboxInv xlat rb ns ws (consumed tr) s := by
  induction h with
  | nil => exact mboxInv_start hf mem buf ns ws
  | @snoc tr u v e _ hs ih =>
    have hsnoc : consumed (tr ++ [(u, e)]) = consumed tr ++ consumedOf e := by
      rw [consumed, labels_snoc, List.flatMap_append, List.flatMap_singleton, consumed]
    rw [hsnoc]
    obtain ⟨party, hs⟩ := hs
    cases party with
    | device =>
      obtain ⟨hnone, hinv⟩ := mboxInv_device hf ih hs
      rw [hnone, List.append_nil]
      exact hinv
    | host => exact mboxInv_host hf ih hs

theorem mbox_returned {mem : Loc → UInt8} {buf : Nat → UInt32} {tr : List (Mbox Loc × Event)}
    (h : (mbox xlat).Run (mboxStart rb mem buf ns ws) tr s) (hret : s.Returned) :
    (consumed tr).length = ns.sum ∧ ∀ j < ns.sum, some (s.buf (mirror ns j)) = ws[j]? := by
  have hinv := mboxInv_run hf h
  obtain ⟨hpc, hcalls⟩ := hret
  have hhost := hinv.host
  rw [HostOk, hpc] at hhost
  obtain ⟨pre, hns, -, hn⟩ := hhost
  rw [hcalls, List.append_nil] at hns
  rw [← hns] at hn
  refine ⟨hn, fun j hj => ?_⟩
  obtain ⟨q, -, hws⟩ := hinv.queued
  have hj' : j < (consumed tr).length := hn ▸ hj
  rw [hws, List.append_assoc, List.getElem?_append_left hj', List.getElem?_eq_getElem hj',
    hinv.stored j _ (List.getElem?_eq_getElem hj')]

end

/-! ## When the words arrive in order -/

/-- `buf[j]` is the `j`-th word sent, for all of the words asked for, and no word more has
been taken from the mailbox. -/
def InOrder (ns : List Nat) (ws : List UInt32) (tr : List (Mbox Loc × Event)) (s : Mbox Loc) :
    Prop :=
  (∀ j < ns.sum, some (s.buf j) = ws[j]?) ∧ (consumed tr).length = ns.sum

def SameEitherWay (ns : List Nat) (ws : List UInt32) : Prop :=
  ∀ j < ns.sum, ws[mirror ns j]? = ws[j]?

/-- The calls fill their buffers from the end. -/
theorem heroDevMboxRead_in_order_iff {xlat : View → Nat → Loc} {rb : RingBuf}
    (hf : Fits xlat rb 16 4) {mem : Loc → UInt8} {buf : Nat → UInt32} {ns : List Nat}
    {ws : List UInt32} {tr : List (Mbox Loc × Event)} {s : Mbox Loc}
    (h : (mbox xlat).Run (mboxStart rb mem buf ns ws) tr s) (hret : s.Returned) :
    InOrder ns ws tr s ↔ SameEitherWay ns ws := by
  obtain ⟨hlen, hbuf⟩ := mbox_returned hf h hret
  exact (and_iff_left hlen).trans (mirrored_iff (f := fun j => some (s.buf j))
    (g := fun j => ws[j]?) hbuf)

def wordRing : RingBuf := ⟨0, 0, 0, 0, 1024, 512⟩

def wordXlat : View → Nat → Nat
  | .host, a => a
  | .device, a => a + 512

theorem word_fits : Fits wordXlat wordRing 16 4 where
  size_pos := by norm_num
  size_lt := by norm_num
  elementSize_lt := by norm_num
  bytes_le := by norm_num
  same := by
    intro k hk
    simp only [wordXlat, wordRing]
    omega
  inj := by
    intro j hj k hk h
    simp only [wordXlat, wordRing] at h
    omega

def twoWordsExec (ns : List Nat) (host : Nat) : Option (List (Mbox Nat × Event) × Mbox Nat) :=
  replay (mboxExec wordXlat) (mboxStart wordRing (fun _ => 0) (fun _ => 0) ns [1, 2])
    (.replicate 24 .device ++ .replicate host .host)

theorem heroDevMboxRead_in_order_two_calls :
    ∃ tr s, (mbox wordXlat).Run
        (mboxStart wordRing (fun _ => 0) (fun _ => 0) [1, 1] [1, 2]) tr s ∧ s.Returned ∧
      (InOrder [1, 1] [1, 2] tr s ↔ SameEitherWay [1, 1] [1, 2]) := by
  have hr := replay_run (show twoWordsExec [1, 1] 32 = some _ from rfl)
  exact ⟨_, _, hr, ⟨rfl, rfl⟩, heroDevMboxRead_in_order_iff word_fits hr ⟨rfl, rfl⟩⟩

theorem heroDevMboxRead_not_in_order :
    ∃ tr s, (mbox wordXlat).Run
        (mboxStart wordRing (fun _ => 0) (fun _ => 0) [2] [1, 2]) tr s ∧ s.Returned ∧
      ¬ InOrder [2] [1, 2] tr s := by
  have hr := replay_run (show twoWordsExec [2] 30 = some _ from rfl)
  exact ⟨_, _, hr, ⟨rfl, rfl⟩, fun h => absurd (h.1 0 (by decide)) (by decide)⟩

end HeroTools.Libhero
