import HeroTools.Libhero.MboxIsolation
import HeroTools.Libhero.MboxRead
import HeroTools.Ringbuf.Progress

/-! `hero_dev_mbox_write` and `hero_dev_mbox_read` on the mailboxes of one device, which gets
from the first mailbox and puts to the others as it likes. -/

namespace HeroTools.Libhero.Mboxes
open HeroTools Ringbuf Lts

inductive Call
  | heroDevMboxWrite (word : UInt32)
  | heroDevMboxRead (nWords : Nat)
deriving DecidableEq, Repr

/-- Where the host stands: between calls; about to call `rb_host_put`, or inside; at
`while (n_words--)`; about to call `rb_host_get` for `buffer[n_words]`, or inside. -/
inductive HostPc
  | caller
  | put (word : UInt32)
  | putting (word : UInt32)
  | loop (buffer nWords : Nat)
  | get (buffer nWords : Nat)
  | getting (buffer nWords : Nat)
deriving DecidableEq, Repr

/-- The buffers of the reads follow each other in `buf`. -/
structure Exchange where
  l2 : L2
  buf : Nat → UInt32
  offset : Nat
  calls : List Call
  pc : HostPc

inductive Agent
  | host
  | device (m : Mailbox)
deriving DecidableEq, Repr

/-- Who made a step, and what it was to a mailbox, if it was on one. -/
structure Move where
  agent : Agent
  done : Option Done

def afterPut (word : UInt32) : Event → HostPc
  | .putOk _ => .caller
  | .putFull => .put word
  | _ => .putting word

def afterGet (buffer nWords : Nat) : Event → HostPc
  | .getOk _ => .loop buffer nWords
  | .getEmpty => .get buffer nWords
  | _ => .getting buffer nWords

def gotTo (buf : Nat → UInt32) (at_word : Nat) : Event → Nat → UInt32
  | .getOk bs => Function.update buf at_word (wordOf bs)
  | _ => buf

section
variable (b : Bases) (mboxes : Mailbox → Ptr)

/-- A put that finds the mailbox full, and a get that finds it empty, is called again. -/
def hostStep (s : Exchange) : Option (Option Done × Exchange) :=
  match s.pc with
  | .caller => match s.calls with
    | [] => none
    | .heroDevMboxWrite word :: calls =>
      some (none, { s with calls := calls, pc := .put word })
    | .heroDevMboxRead nWords :: calls => some (none, { s with
        offset := s.offset + nWords
        calls := calls
        pc := .loop s.offset nWords })
  | .put word => (exec b mboxes s.l2 (.h2aMbox, .rbHostPut (wordBytes word))).map fun dl =>
      (some dl.1, { s with l2 := dl.2, pc := .putting word })
  | .putting word => (exec b mboxes s.l2 (.h2aMbox, .producer)).map fun dl =>
      (some dl.1, { s with l2 := dl.2, pc := afterPut word dl.1.event })
  | .loop buffer nWords =>
    if nWords = 0 then some (none, { s with pc := .caller })
    else some (none, { s with pc := .get buffer (nWords - 1) })
  | .get buffer nWords =>
    (exec b mboxes s.l2
      (.a2hMbox, .rbHostGet (wordBytes (s.buf (buffer + nWords))))).map fun dl =>
        (some dl.1, { s with l2 := dl.2, pc := .getting buffer nWords })
  | .getting buffer nWords => (exec b mboxes s.l2 (.a2hMbox, .consumer)).map fun dl =>
      (some dl.1, { s with
        l2 := dl.2
        buf := gotTo s.buf (buffer + nWords) dl.1.event
        pc := afterGet buffer nWords dl.1.event })

/-- The next step of the device on a mailbox, a new call when the last one has returned; `el`
is what it puts, or what a get is to overwrite. -/
def deviceAct (s : L2) (el : Buf) : Mailbox → Act
  | .h2aMbox => match s.cons .h2aMbox with
    | .idle => .rbDeviceGet el
    | _ => .consumer
  | m => match s.prod m with
    | .idle => .rbDevicePut el
    | _ => .producer

inductive Turn
  | host
  | device (m : Mailbox) (el : Buf)

def turn (s : Exchange) : Turn → Option (Move × Exchange)
  | .host => (hostStep b mboxes s).map fun ds => (⟨.host, ds.1⟩, ds.2)
  | .device m el => (exec b mboxes s.l2 (m, deviceAct s.l2 el m)).map fun dl =>
      (⟨.device m, some dl.1⟩, { s with l2 := dl.2 })

/-- The host makes its calls, and the device its puts and gets, in any interleaving. -/
def exchange : Lts Exchange Move := .ofExec (turn b mboxes)

end

def Exchange.start (mem : Nat → UInt8) (buf : Nat → UInt32) (calls : List Call) : Exchange :=
  ⟨.start mem, buf, 0, calls, .caller⟩

def Exchange.Returned (s : Exchange) : Prop := s.pc = .caller ∧ s.calls = []

def Exchange.returned (calls : List Call) (s : Exchange) : List Call :=
  calls.take (calls.length - s.calls.length - if s.pc = .caller then 0 else 1)

/-! ## Words -/

def writes (calls : List Call) : List UInt32 :=
  calls.filterMap fun | .heroDevMboxWrite word => some word | _ => none

def sizes (calls : List Call) : List Nat :=
  calls.filterMap fun | .heroDevMboxRead nWords => some nWords | _ => none

def sentOf : Event → List UInt32
  | .putOk bs => [wordOf bs]
  | _ => []

/-- What a move put to a mailbox, or got from it: `f` is `sentOf` or `consumedOf`. -/
def Move.words (f : Event → List UInt32) (m : Mailbox) (v : Move) : List UInt32 :=
  v.done.elim [] fun d => if d.mbox = m then f d.event else []

def puts (m : Mailbox) (tr : List (Exchange × Move)) : List UInt32 :=
  (labels tr).flatMap (Move.words sentOf m)

def gets (m : Mailbox) (tr : List (Exchange × Move)) : List UInt32 :=
  (labels tr).flatMap (Move.words consumedOf m)

/-! ## The ends of puts and gets -/

section
variable {Loc : Type*} {xlat : View → Nat → Loc} {s s' : Sys Loc} {e : Event} {act : Act}

theorem producer_cases [DecidableEq Loc] (hs : putStep xlat s = some (e, s')) :
    (∃ el, e = .putOk (bytes s.rb.elementSize el) ∧ putEl s.prod = some el ∧ s'.prod = .idle) ∨
      (e = .putFull ∧ s'.prod = .idle) ∨ label e = none ∧ putEl s'.prod = putEl s.prod := by
  unfold putStep at hs
  cases hp : s.prod with
  | idle => simp [hp] at hs
  | loadHead v el =>
    simp only [hp] at hs
    obtain ⟨rfl, rfl⟩ := Prod.mk.inj (Option.some.inj hs)
    exact .inr (.inr ⟨rfl, rfl⟩)
  | loadTail v el nh =>
    simp only [hp] at hs
    split at hs <;> obtain ⟨rfl, rfl⟩ := Prod.mk.inj (Option.some.inj hs)
    · exact .inr (.inl ⟨rfl, rfl⟩)
    · exact .inr (.inr ⟨rfl, rfl⟩)
  | copy v el nh i =>
    simp only [hp] at hs
    split at hs <;> obtain ⟨rfl, rfl⟩ := Prod.mk.inj (Option.some.inj hs)
    · exact .inr (.inr ⟨rfl, rfl⟩)
    · exact .inl ⟨el, rfl, rfl, rfl⟩
  | storeByte v el nh i hd =>
    simp only [hp] at hs
    obtain ⟨rfl, rfl⟩ := Prod.mk.inj (Option.some.inj hs)
    exact .inr (.inr ⟨rfl, rfl⟩)

theorem consumer_cases (hs : getStep xlat s = some (e, s')) :
    (∃ bs, e = .getOk bs ∧ s'.cons = .idle) ∨ (e = .getEmpty ∧ s'.cons = .idle) ∨
      label e = none ∧ s'.cons ≠ .idle := by
  unfold getStep at hs
  cases hg : s.cons with
  | idle => simp [hg] at hs
  | loadTail v el =>
    simp only [hg] at hs
    obtain ⟨rfl, rfl⟩ := Prod.mk.inj (Option.some.inj hs)
    exact .inr (.inr ⟨rfl, nofun⟩)
  | loadHead v el t =>
    simp only [hg] at hs
    split at hs <;> obtain ⟨rfl, rfl⟩ := Prod.mk.inj (Option.some.inj hs)
    · exact .inr (.inl ⟨rfl, rfl⟩)
    · exact .inr (.inr ⟨rfl, nofun⟩)
  | copy v el i =>
    simp only [hg] at hs
    split at hs <;> obtain ⟨rfl, rfl⟩ := Prod.mk.inj (Option.some.inj hs)
    · exact .inr (.inr ⟨rfl, nofun⟩)
    · exact .inr (.inr ⟨rfl, nofun⟩)
  | loadByte v el i t =>
    simp only [hg] at hs
    obtain ⟨rfl, rfl⟩ := Prod.mk.inj (Option.some.inj hs)
    exact .inr (.inr ⟨rfl, nofun⟩)
  | storeTail v el t =>
    simp only [hg] at hs
    obtain ⟨rfl, rfl⟩ := Prod.mk.inj (Option.some.inj hs)
    exact .inl ⟨_, rfl, rfl⟩

theorem putStep_cons [DecidableEq Loc] (hs : putStep xlat s = some (e, s')) :
    s'.cons = s.cons ∧ consumedOf e = [] := by
  unfold putStep at hs
  split at hs
  · cases hs
  · obtain ⟨rfl, rfl⟩ := Prod.mk.inj (Option.some.inj hs)
    exact ⟨rfl, rfl⟩
  · split at hs <;> obtain ⟨rfl, rfl⟩ := Prod.mk.inj (Option.some.inj hs) <;> exact ⟨rfl, rfl⟩
  · split at hs <;> obtain ⟨rfl, rfl⟩ := Prod.mk.inj (Option.some.inj hs) <;> exact ⟨rfl, rfl⟩
  · obtain ⟨rfl, rfl⟩ := Prod.mk.inj (Option.some.inj hs)
    exact ⟨rfl, rfl⟩

theorem getStep_prod (hs : getStep xlat s = some (e, s')) :
    s'.prod = s.prod ∧ sentOf e = [] := by
  unfold getStep at hs
  split at hs
  · cases hs
  · obtain ⟨rfl, rfl⟩ := Prod.mk.inj (Option.some.inj hs)
    exact ⟨rfl, rfl⟩
  · split at hs <;> obtain ⟨rfl, rfl⟩ := Prod.mk.inj (Option.some.inj hs) <;> exact ⟨rfl, rfl⟩
  · split at hs <;> obtain ⟨rfl, rfl⟩ := Prod.mk.inj (Option.some.inj hs) <;> exact ⟨rfl, rfl⟩
  · obtain ⟨rfl, rfl⟩ := Prod.mk.inj (Option.some.inj hs)
    exact ⟨rfl, rfl⟩
  · obtain ⟨rfl, rfl⟩ := Prod.mk.inj (Option.some.inj hs)
    exact ⟨rfl, rfl⟩

end

/-! ## Steps on one mailbox -/

section
variable {H : O1HeapMem} {b : Bases} {cs : List Block} {block : Part → Block} {r : Opened}
  {l l' : L2} {m : Mailbox} {act : Act} {d : Done}

/-- A step on mailbox `m` is one on the ring buffer that it holds, as far as the calls go, and
leaves the calls on the others alone. -/
structure Did (b : Bases) (r : Opened) (l : L2) (m : Mailbox) (act : Act) (d : Done) (l' : L2) :
    Prop where
  step : (mailboxes b r.mboxes).step l d l'
  mbox : d.mbox = m
  others : ∀ m' ≠ m, l'.prod m' = l.prod m' ∧ l'.cons m' = l.cons m'
  sys : ∃ t, Ringbuf.exec b.xlat ((l.cell m).sys (r.mboxes m).mbox) act = some (d.event, t) ∧
    t.prod = l'.prod m ∧ t.cons = l'.cons m

theorem Ready.did (hr : Ready H b cs block r) (h : exec b r.mboxes l (m, act) = some (d, l')) :
    Did b r l m act d l' := by
  obtain ⟨⟨e, c⟩, hexec, hp⟩ := Option.map_eq_some_iff.mp h
  obtain ⟨rfl, rfl⟩ := Prod.mk.inj hp
  refine ⟨⟨(m, act), h⟩, rfl, fun m' hne => ⟨?_, ?_⟩, ?_⟩
  · exact Function.update_of_ne hne ..
  · exact Function.update_of_ne hne ..
  · obtain ⟨t, ht, hprod, hcons⟩ := memExec_sys (hr.placed m) hexec
    have hself := (cell_set_self l m c).symm
    exact ⟨t, ht, hprod.trans (congrArg Cell.prod hself), hcons.trans (congrArg Cell.cons hself)⟩

theorem Did.putCall {el : Buf} (h : Did b r l m act d l')
    (hact : act = .rbHostPut el ∨ act = .rbDevicePut el) :
    d.event = .tau ∧ l.prod m = .idle ∧ (∃ v, l'.prod m = .loadHead v el) ∧
      l'.cons m = l.cons m := by
  obtain ⟨t, ht, hprod, hcons⟩ := h.sys
  have hcall : ∃ v, Ringbuf.putCall v el ((l.cell m).sys (r.mboxes m).mbox) =
      some (d.event, t) := by
    rcases hact with rfl | rfl
    · exact ⟨.host, ht⟩
    · exact ⟨.device, ht⟩
  obtain ⟨v, hcall⟩ := hcall
  unfold Ringbuf.putCall at hcall
  split at hcall
  · next hidle =>
    obtain ⟨he, rfl⟩ := Prod.mk.inj (Option.some.inj hcall)
    exact ⟨he.symm, hidle, ⟨v, hprod.symm⟩, hcons.symm⟩
  · cases hcall

theorem Did.getCall {el : Buf} (h : Did b r l m act d l')
    (hact : act = .rbHostGet el ∨ act = .rbDeviceGet el) :
    d.event = .tau ∧ l.cons m = .idle ∧ (∃ v, l'.cons m = .loadTail v el) ∧
      l'.prod m = l.prod m := by
  obtain ⟨t, ht, hprod, hcons⟩ := h.sys
  have hcall : ∃ v, Ringbuf.getCall v el ((l.cell m).sys (r.mboxes m).mbox) =
      some (d.event, t) := by
    rcases hact with rfl | rfl
    · exact ⟨.host, ht⟩
    · exact ⟨.device, ht⟩
  obtain ⟨v, hcall⟩ := hcall
  unfold Ringbuf.getCall at hcall
  split at hcall
  · next hidle =>
    obtain ⟨he, rfl⟩ := Prod.mk.inj (Option.some.inj hcall)
    exact ⟨he.symm, hidle, ⟨v, hcons.symm⟩, hprod.symm⟩
  · cases hcall

theorem deviceAct_get (l : L2) (el : Buf) :
    deviceAct l el .h2aMbox = .consumer ∧ l.cons .h2aMbox ≠ .idle ∨
      deviceAct l el .h2aMbox = .rbDeviceGet el ∧ l.cons .h2aMbox = .idle := by
  cases hpc : l.cons .h2aMbox <;> simp [deviceAct, hpc]

theorem deviceAct_put (l : L2) (el : Buf) (hm : m ≠ .h2aMbox) :
    deviceAct l el m = .producer ∧ putEl (l.prod m) ≠ none ∨
      deviceAct l el m = .rbDevicePut el ∧ putEl (l.prod m) = none := by
  cases m with
  | h2aMbox => exact absurd rfl hm
  | a2hMbox => cases hpc : l.prod .a2hMbox <;> simp [deviceAct, hpc, putEl]
  | rbMbox => cases hpc : l.prod .rbMbox <;> simp [deviceAct, hpc, putEl]

theorem Did.device {el : Buf} (h : Did b r l m (deviceAct l el m) d l') :
    (m = .h2aMbox → l'.prod m = l.prod m ∧ sentOf d.event = []) ∧
      (m ≠ .h2aMbox → l'.cons m = l.cons m ∧ consumedOf d.event = []) := by
  obtain ⟨t, ht, hprod, hcons⟩ := h.sys
  constructor
  · rintro rfl
    rcases deviceAct_get l el with ⟨hact, -⟩ | ⟨hact, -⟩
    · rw [hact] at ht
      rw [← hprod]
      exact getStep_prod ht
    · obtain ⟨he, -, -, hsame⟩ := h.getCall (.inr hact)
      exact ⟨hsame, he ▸ rfl⟩
  · intro hne
    rcases deviceAct_put l el hne with ⟨hact, -⟩ | ⟨hact, -⟩
    · rw [hact] at ht
      rw [← hcons]
      exact putStep_cons ht
    · obtain ⟨he, -, -, hsame⟩ := h.putCall (.inr hact)
      exact ⟨hsame, he ▸ rfl⟩

end

end HeroTools.Libhero.Mboxes
