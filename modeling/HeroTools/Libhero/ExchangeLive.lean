import HeroTools.Lib.Fair
import HeroTools.Libhero.ExchangeWords

/-! The calls of the host return, when both sides keep moving as long as they are needed. -/

namespace HeroTools.Libhero.Mboxes
open HeroTools Ringbuf Lts

/-! ## Who is needed -/

def unread (mboxes : Mailbox → Ptr) (l : L2) (m : Mailbox) : Nat := (ring mboxes l.mem m).count

inductive Stage
  | caller
  | loop
  | write
  | read
deriving DecidableEq, Repr

def HostPc.stage : HostPc → Stage
  | .caller => .caller
  | .put _ => .write
  | .putting _ => .write
  | .loop _ _ => .loop
  | .get _ _ => .read
  | .getting _ _ => .read

section
variable (mboxes : Mailbox → Ptr)

/-- Who has to move next: the device where the host waits at a full or at an empty mailbox, and
when there is nothing left but words for it. -/
def needed (s : Exchange) : Agent :=
  match s.pc.stage with
  | .caller => if s.calls = [] then .device .h2aMbox else .host
  | .loop => .host
  | .write => if unread mboxes s.l2 .h2aMbox = 15 then .device .h2aMbox else .host
  | .read => if unread mboxes s.l2 .a2hMbox = 0 then .device .a2hMbox else .host

def Exchange.Finished (s : Exchange) : Prop := s.Returned ∧ unread mboxes s.l2 .h2aMbox = 0

def HostPc.work : HostPc → Nat
  | .caller => 0
  | .put _ => 1
  | .putting _ => 1
  | .loop _ nWords => nWords + 1
  | .get _ nWords => nWords + 2
  | .getting _ nWords => nWords + 2

def Call.work : Call → Nat
  | .heroDevMboxWrite _ => 1
  | .heroDevMboxRead nWords => nWords + 1

def Exchange.work (s : Exchange) : Nat := s.pc.work + (s.calls.map Call.work).sum

/-- How far it is to the next word or return; less than 2000. -/
def phase (s : Exchange) : Nat :=
  match s.pc.stage with
  | .caller => if s.calls = [] then
      100 * unread mboxes s.l2 .h2aMbox + getLeft 4 (s.l2.cons .h2aMbox)
    else 1900
  | .loop => 1800
  | .write => if unread mboxes s.l2 .h2aMbox = 15 then 100 + getLeft 4 (s.l2.cons .h2aMbox)
    else putLeft 4 (s.l2.prod .h2aMbox)
  | .read => if unread mboxes s.l2 .a2hMbox = 0 then 100 + putLeft 4 (s.l2.prod .a2hMbox)
    else getLeft 4 (s.l2.cons .a2hMbox)

def rank (s : Exchange) : Nat := 2000 * s.work + phase mboxes s

end

/-! ## The elements of a mailbox after a step -/

def Counts (n n' : Nat) : Event → Prop
  | .putOk _ => n < 15 ∧ n' = n + 1
  | .putFull => n = 15 ∧ n' = n
  | .getOk _ => n = n' + 1
  | .getEmpty => n = 0 ∧ n' = n
  | _ => n' = n

section
variable {H : O1HeapMem} {b : Bases} {cs : List Block} {block : Part → Block} {r : Opened}
  {l l' : L2} {m : Mailbox} {act : Act} {d : Done} {q : List (List UInt8)}

theorem Queued.unread (h : Queued b r l m q) : unread r.mboxes l m = q.length := h.holds.count

theorem Apart.unread_le (h : Apart H b cs block r l) (m : Mailbox) : unread r.mboxes l m ≤ 15 := by
  obtain ⟨q, hq⟩ := h.queued m
  rw [hq.unread]
  exact Nat.le_of_lt_succ hq.holds.room

theorem Did.counts (hr : Ready H b cs block r) (hl : Apart H b cs block r l)
    (h : Did b r l m act d l') :
    Counts (unread r.mboxes l m) (unread r.mboxes l' m) d.event ∧
      ∀ m' ≠ m, unread r.mboxes l' m' = unread r.mboxes l m' := by
  obtain ⟨-, -, hfollows, hothers⟩ := hr.step hl h.step
  rw [h.mbox] at hfollows hothers
  constructor
  · obtain ⟨q, hq⟩ := hl.queued m
    have hfol := hfollows q hq
    rw [hq.unread]
    cases he : d.event with
    | tau =>
      rw [he] at hfol
      have hq' : Queued b r l' m q := hfol
      exact hq'.unread
    | access off =>
      rw [he] at hfol
      have hq' : Queued b r l' m q := hfol
      exact hq'.unread
    | putOk bs =>
      rw [he] at hfol
      obtain ⟨q', ⟨hlt, rfl⟩, hq'⟩ := hfol
      have hq' : Queued b r l' m (q ++ [bs]) := hq'
      refine ⟨hlt, ?_⟩
      rw [hq'.unread, List.length_append, List.length_singleton]
    | putFull =>
      rw [he] at hfol
      obtain ⟨q', ⟨hfull, rfl⟩, hq'⟩ := hfol
      have hq' : Queued b r l' m q' := hq'
      exact ⟨hfull, hq'.unread⟩
    | getOk bs =>
      rw [he] at hfol
      obtain ⟨q', rfl, hq'⟩ := hfol
      have hq' : Queued b r l' m q' := hq'
      rw [hq'.unread]
      rfl
    | getEmpty =>
      rw [he] at hfol
      obtain ⟨q', ⟨rfl, rfl⟩, hq'⟩ := hfol
      have hq' : Queued b r l' m [] := hq'
      exact ⟨rfl, hq'.unread⟩
  · intro m' hne
    obtain ⟨q, hq⟩ := hl.queued m'
    rw [hq.unread, (hothers m' hne q hq).unread]

/-! ## Puts with room, and gets with an element -/

theorem Did.put_progress (hr : Ready H b cs block r) (hl : Apart H b cs block r l)
    (h : Did b r l m act d l') (hroom : unread r.mboxes l m < 15)
    (hact : act = .producer ∨ ∃ el, act = .rbHostPut el ∨ act = .rbDevicePut el) :
    (∃ bs, d.event = .putOk bs) ∨
      label d.event = none ∧ putLeft 4 (l'.prod m) < putLeft 4 (l.prod m) := by
  rcases hact with rfl | ⟨el, hact⟩
  · obtain ⟨t, ht, hprod, -⟩ := h.sys
    obtain ⟨q, hq⟩ := hl.queued m
    rw [hq.unread] at hroom
    rw [← hprod]
    exact Ringbuf.put_progress (hr.fits m) hq (Nat.succ_lt_succ hroom) ht
  · obtain ⟨he, hidle, ⟨v, hprod⟩, -⟩ := h.putCall hact
    rw [he, hidle, hprod]
    exact .inr ⟨rfl, Nat.lt_succ_self _⟩

theorem Did.get_progress (hl : Apart H b cs block r l) (h : Did b r l m act d l')
    (hne : unread r.mboxes l m ≠ 0)
    (hact : act = .consumer ∨ ∃ el, act = .rbHostGet el ∨ act = .rbDeviceGet el) :
    (∃ bs, d.event = .getOk bs) ∨
      label d.event = none ∧ getLeft 4 (l'.cons m) < getLeft 4 (l.cons m) := by
  rcases hact with rfl | ⟨el, hact⟩
  · obtain ⟨t, ht, -, hcons⟩ := h.sys
    obtain ⟨q, hq⟩ := hl.queued m
    rw [hq.unread] at hne
    rw [← hcons]
    exact Ringbuf.get_progress hq (List.ne_nil_of_length_pos (Nat.pos_of_ne_zero hne)) ht
  · obtain ⟨he, hidle, ⟨v, hcons⟩, -⟩ := h.getCall hact
    rw [he, hidle, hcons]
    exact .inr ⟨rfl, Nat.lt_succ_self _⟩

theorem Counts.of_get {n n' : Nat} {e : Event} (h : Counts n n' e) (hput : sentOf e = []) :
    n' ≤ n ∧ (label e = none → n' = n) ∧ ∀ bs, e = .getOk bs → n = n' + 1 := by
  cases e with
  | tau => exact ⟨h.le, fun _ => h, nofun⟩
  | access off => exact ⟨h.le, fun _ => h, nofun⟩
  | putOk bs => exact absurd hput nofun
  | putFull => exact ⟨h.2.le, nofun, nofun⟩
  | getOk bs =>
    have hcount : n = n' + 1 := h
    exact ⟨by omega, nofun, fun _ _ => hcount⟩
  | getEmpty => exact ⟨h.2.le, nofun, nofun⟩

theorem Counts.of_put {n n' : Nat} {e : Event} (h : Counts n n' e) (hget : consumedOf e = []) :
    n ≤ n' ∧ (label e = none → n' = n) ∧ (∀ bs, e = .putOk bs → n < 15 ∧ n' = n + 1) ∧
      (n = 15 → n' = n) := by
  cases e with
  | tau => exact ⟨h.ge, fun _ => h, nofun, fun _ => h⟩
  | access off => exact ⟨h.ge, fun _ => h, nofun, fun _ => h⟩
  | putOk bs =>
    obtain ⟨hlt, hcount⟩ := h
    exact ⟨by omega, nofun, fun _ _ => ⟨hlt, hcount⟩, by omega⟩
  | putFull => exact ⟨h.2.ge, nofun, nofun, fun _ => h.2⟩
  | getOk bs => exact absurd hget nofun
  | getEmpty => exact ⟨h.2.ge, nofun, nofun, fun _ => h.2⟩

theorem Did.device_gets (hr : Ready H b cs block r) (hl : Apart H b cs block r l) {el : Buf}
    (h : Did b r l .h2aMbox (deviceAct l el .h2aMbox) d l') :
    l'.prod .h2aMbox = l.prod .h2aMbox ∧
      unread r.mboxes l' .h2aMbox ≤ unread r.mboxes l .h2aMbox ∧
      (unread r.mboxes l .h2aMbox ≠ 0 →
        unread r.mboxes l .h2aMbox = unread r.mboxes l' .h2aMbox + 1 ∨
          unread r.mboxes l' .h2aMbox = unread r.mboxes l .h2aMbox ∧
            getLeft 4 (l'.cons .h2aMbox) < getLeft 4 (l.cons .h2aMbox)) := by
  obtain ⟨hprod, hsent⟩ := h.device.1 rfl
  obtain ⟨hle, hsame, hget⟩ := (h.counts hr hl).1.of_get hsent
  refine ⟨hprod, hle, fun hne => ?_⟩
  have hact : deviceAct l el .h2aMbox = .consumer ∨ ∃ el',
      deviceAct l el .h2aMbox = .rbHostGet el' ∨
        deviceAct l el .h2aMbox = .rbDeviceGet el' :=
    (deviceAct_get l el).imp And.left fun hget => ⟨el, .inr hget.1⟩
  rcases h.get_progress hl hne hact with ⟨bs, he⟩ | ⟨hnone, hlt⟩
  · exact .inl (hget bs he)
  · exact .inr ⟨hsame hnone, hlt⟩

theorem Did.device_puts (hr : Ready H b cs block r) (hl : Apart H b cs block r l) {el : Buf}
    (h : Did b r l .a2hMbox (deviceAct l el .a2hMbox) d l') :
    l'.cons .a2hMbox = l.cons .a2hMbox ∧
      unread r.mboxes l .a2hMbox ≤ unread r.mboxes l' .a2hMbox ∧
      (unread r.mboxes l .a2hMbox < 15 →
        unread r.mboxes l' .a2hMbox = unread r.mboxes l .a2hMbox + 1 ∨
          unread r.mboxes l' .a2hMbox = unread r.mboxes l .a2hMbox ∧
            putLeft 4 (l'.prod .a2hMbox) < putLeft 4 (l.prod .a2hMbox)) := by
  obtain ⟨hcons, hgot⟩ := h.device.2 nofun
  obtain ⟨hle, hsame, hput, -⟩ := (h.counts hr hl).1.of_put hgot
  refine ⟨hcons, hle, fun hlt => ?_⟩
  have hact : deviceAct l el .a2hMbox = .producer ∨ ∃ el',
      deviceAct l el .a2hMbox = .rbHostPut el' ∨
        deviceAct l el .a2hMbox = .rbDevicePut el' :=
    (deviceAct_put (m := .a2hMbox) l el nofun).imp And.left fun hput => ⟨el, .inr hput.1⟩
  rcases h.put_progress hr hl hlt hact with ⟨bs, he⟩ | ⟨hnone, hlt⟩
  · exact .inl (hput bs he).2
  · exact .inr ⟨hsame hnone, hlt⟩

theorem Did.host_puts (hr : Ready H b cs block r) (hl : Apart H b cs block r l) {el : Buf}
    (hact : act = .producer ∨ act = .rbHostPut el) (h : Did b r l m act d l') :
    l'.cons m = l.cons m ∧
      (unread r.mboxes l m = 15 → unread r.mboxes l' m = 15 ∧ ∀ bs, d.event ≠ .putOk bs) ∧
      (unread r.mboxes l m ≠ 15 → (∃ bs, d.event = .putOk bs) ∨
        label d.event = none ∧ unread r.mboxes l' m = unread r.mboxes l m ∧
          putLeft 4 (l'.prod m) < putLeft 4 (l.prod m)) := by
  have hside : l'.cons m = l.cons m ∧ consumedOf d.event = [] := by
    rcases hact with rfl | rfl
    · obtain ⟨t, ht, -, hcons⟩ := h.sys
      exact hcons ▸ putStep_cons ht
    · obtain ⟨he, -, -, hcons⟩ := h.putCall (.inl rfl)
      exact ⟨hcons, he ▸ rfl⟩
  obtain ⟨-, hsame, hput, hfull⟩ := (h.counts hr hl).1.of_put hside.2
  refine ⟨hside.1, fun heq => ⟨(hfull heq).trans heq, fun bs he => ?_⟩, fun hne => ?_⟩
  · have hlt := (hput bs he).1
    omega
  · have hlt : unread r.mboxes l m < 15 := Nat.lt_of_le_of_ne (hl.unread_le m) hne
    rcases h.put_progress hr hl hlt (hact.imp_right fun h => ⟨el, .inl h⟩) with hok | ⟨hnone, hlt⟩
    · exact .inl hok
    · exact .inr ⟨hnone, hsame hnone, hlt⟩

theorem Did.host_gets (hr : Ready H b cs block r) (hl : Apart H b cs block r l) {el : Buf}
    (hact : act = .consumer ∨ act = .rbHostGet el) (h : Did b r l m act d l') :
    l'.prod m = l.prod m ∧
      (unread r.mboxes l m = 0 → unread r.mboxes l' m = 0 ∧ ∀ bs, d.event ≠ .getOk bs) ∧
      (unread r.mboxes l m ≠ 0 → (∃ bs, d.event = .getOk bs) ∨
        label d.event = none ∧ unread r.mboxes l' m = unread r.mboxes l m ∧
          getLeft 4 (l'.cons m) < getLeft 4 (l.cons m)) := by
  have hside : l'.prod m = l.prod m ∧ sentOf d.event = [] := by
    rcases hact with rfl | rfl
    · obtain ⟨t, ht, hprod, -⟩ := h.sys
      exact hprod ▸ getStep_prod ht
    · obtain ⟨he, -, -, hprod⟩ := h.getCall (.inl rfl)
      exact ⟨hprod, he ▸ rfl⟩
  obtain ⟨hle, hsame, hget⟩ := (h.counts hr hl).1.of_get hside.2
  refine ⟨hside.1, fun heq => ⟨by omega, fun bs he => ?_⟩, fun hne => ?_⟩
  · have hgot := hget bs he
    omega
  · rcases h.get_progress hl hne (hact.imp_right fun h => ⟨el, .inl h⟩) with hok | ⟨hnone, hlt⟩
    · exact .inl hok
    · exact .inr ⟨hnone, hsame hnone, hlt⟩

end

/-! ## Every step helps -/

section
variable {H : O1HeapMem} {b : Bases} {cs : List Block} {block : Part → Block} {r : Opened}
  {s s' : Exchange} {v : Move} {d : Done} {l' : L2}

def Helps (mboxes : Mailbox → Ptr) (s : Exchange) (a : Agent) (s' : Exchange) : Prop :=
  rank mboxes s' < rank mboxes s ∨
    rank mboxes s' = rank mboxes s ∧ needed mboxes s' = needed mboxes s ∧ a ≠ needed mboxes s

theorem device_h2a_helps (hr : Ready H b cs block r) (hl : Apart H b cs block r s.l2)
    (hnot : ¬ s.Finished r.mboxes) {el : Buf}
    (h : Did b r s.l2 .h2aMbox (deviceAct s.l2 el .h2aMbox) d l') :
    Helps r.mboxes s (.device .h2aMbox) { s with l2 := l' } := by
  obtain ⟨hprod, hle, hlower⟩ := h.device_gets hr hl
  have ha2h := (h.counts hr hl).2 .a2hMbox nofun
  obtain ⟨hprod', hcons'⟩ := h.others .a2hMbox nofun
  have hleft := getLeft_le 4 (l'.cons .h2aMbox)
  have hput := putLeft_le 4 (l'.prod .h2aMbox)
  have hwork : Exchange.work { s with l2 := l' } = s.work := rfl
  have hbound := hl.unread_le .h2aMbox
  unfold Helps rank
  rw [hwork]
  cases hstage : s.pc.stage with
  | caller =>
    by_cases hcalls : s.calls = []
    -- the host is done, so there must be words left for the device
    · have hne : unread r.mboxes s.l2 .h2aMbox ≠ 0 := by
        intro hzero
        refine hnot ⟨⟨?_, hcalls⟩, hzero⟩
        cases hpc : s.pc <;> rw [hpc] at hstage <;> first | rfl | exact nomatch hstage
      left
      simp only [phase, hstage, hcalls, if_true]
      have hlower := hlower hne
      omega
    · right
      simp [phase, needed, hstage, hcalls]
  | loop =>
    right
    simp [phase, needed, hstage]
  | write =>
    -- a write that waits for room needs this get, one that does not is not delayed by it
    by_cases hfull : unread r.mboxes s.l2 .h2aMbox = 15
    · left
      simp only [phase, hstage]
      rw [if_pos hfull]
      have hlower := hlower (by omega)
      split_ifs <;> omega
    · right
      have hfull' : unread r.mboxes l' .h2aMbox ≠ 15 := by omega
      simp [phase, needed, hstage, hfull, hfull', hprod]
  | read =>
    right
    simp only [phase, needed, hstage, ha2h, hprod', hcons', true_and]
    split_ifs <;> simp

theorem device_a2h_helps (hr : Ready H b cs block r) (hl : Apart H b cs block r s.l2) {el : Buf}
    (h : Did b r s.l2 .a2hMbox (deviceAct s.l2 el .a2hMbox) d l') :
    Helps r.mboxes s (.device .a2hMbox) { s with l2 := l' } := by
  obtain ⟨hcons, hle, hlower⟩ := h.device_puts hr hl
  have hh2a := (h.counts hr hl).2 .h2aMbox nofun
  obtain ⟨hprod', hcons'⟩ := h.others .h2aMbox nofun
  have hget := getLeft_le 4 (l'.cons .a2hMbox)
  have hwork : Exchange.work { s with l2 := l' } = s.work := rfl
  unfold Helps rank
  rw [hwork]
  cases hstage : s.pc.stage with
  | caller =>
    right
    simp only [phase, needed, hstage, hh2a, hcons', true_and]
    split_ifs <;> simp
  | loop =>
    right
    simp [phase, needed, hstage]
  | write =>
    right
    simp only [phase, needed, hstage, hh2a, hcons', hprod', true_and]
    split_ifs <;> simp
  | read =>
    -- a read that waits for a word needs this put
    by_cases hempty : unread r.mboxes s.l2 .a2hMbox = 0
    · left
      simp only [phase, hstage]
      rw [if_pos hempty]
      have hlower := hlower (by omega)
      split_ifs <;> omega
    · right
      have hempty' : unread r.mboxes l' .a2hMbox ≠ 0 := by omega
      simp [phase, needed, hstage, hempty, hempty', hcons]

theorem needed_ne_rb (mboxes : Mailbox → Ptr) (s : Exchange) :
    needed mboxes s ≠ .device .rbMbox := by
  unfold needed
  cases s.pc.stage with
  | loop => nofun
  | caller | write | read =>
    dsimp only
    split_ifs <;> nofun

theorem device_rb_helps (hr : Ready H b cs block r) (hl : Apart H b cs block r s.l2) {el : Buf}
    (h : Did b r s.l2 .rbMbox (deviceAct s.l2 el .rbMbox) d l') :
    Helps r.mboxes s (.device .rbMbox) { s with l2 := l' } := by
  have hh2a := (h.counts hr hl).2 .h2aMbox nofun
  have ha2h := (h.counts hr hl).2 .a2hMbox nofun
  obtain ⟨hprod, hcons⟩ := h.others .h2aMbox nofun
  obtain ⟨hprod', hcons'⟩ := h.others .a2hMbox nofun
  have hwork : Exchange.work { s with l2 := l' } = s.work := rfl
  refine .inr ⟨?_, ?_, (needed_ne_rb r.mboxes s).symm⟩
  · unfold rank
    rw [hwork]
    simp only [phase, hh2a, ha2h, hprod, hcons, hprod', hcons']
  · simp only [needed, hh2a, ha2h]

theorem phase_lt (hl : Apart H b cs block r s.l2) : phase r.mboxes s < 2000 := by
  have hbound := hl.unread_le .h2aMbox
  have hh2a := getLeft_le 4 (s.l2.cons .h2aMbox)
  have ha2h := getLeft_le 4 (s.l2.cons .a2hMbox)
  have hput := putLeft_le 4 (s.l2.prod .h2aMbox)
  have hput' := putLeft_le 4 (s.l2.prod .a2hMbox)
  unfold phase
  cases s.pc.stage with
  | loop => exact Nat.lt_of_sub_eq_succ rfl
  | caller | write | read =>
    dsimp only
    split_ifs <;> omega

theorem phase_waiting_lt (hstage : s.pc.stage = .write ∨ s.pc.stage = .read) :
    phase r.mboxes s < 1800 := by
  have hh2a := getLeft_le 4 (s.l2.cons .h2aMbox)
  have ha2h := getLeft_le 4 (s.l2.cons .a2hMbox)
  have hput := putLeft_le 4 (s.l2.prod .h2aMbox)
  have hput' := putLeft_le 4 (s.l2.prod .a2hMbox)
  unfold phase
  rcases hstage with hstage | hstage
  all_goals
    rw [hstage]
    dsimp only
    split_ifs <;> omega

theorem host_write_helps (hr : Ready H b cs block r) (hl : Apart H b cs block r s.l2)
    {act : Act} (el : Buf) {pc : HostPc} (hact : act = .producer ∨ act = .rbHostPut el)
    (h : Did b r s.l2 .h2aMbox act d l') (hstage : s.pc.stage = .write)
    (hok : ∀ bs, d.event = .putOk bs → pc.work < s.pc.work)
    (hgo : (∀ bs, d.event ≠ .putOk bs) → pc.stage = .write ∧ pc.work = s.pc.work) :
    Helps r.mboxes s .host { s with l2 := l', pc := pc } := by
  obtain ⟨hcons, hfull, hroom⟩ := h.host_puts hr hl hact
  have hphase := phase_lt (s := { s with l2 := l', pc := pc }) (hr.step_apart hl h.step)
  by_cases heq : unread r.mboxes s.l2 .h2aMbox = 15
  -- the put fails, and it is the device's turn
  · obtain ⟨heq', hnot⟩ := hfull heq
    obtain ⟨hstage', hwork⟩ := hgo hnot
    right
    simp [rank, phase, needed, Exchange.work, hstage, hstage', hwork, heq, heq', hcons]
  · left
    rcases hroom heq with ⟨bs, he⟩ | ⟨hnone, hsame, hlt⟩
    · have hwork := hok bs he
      unfold rank Exchange.work
      dsimp only
      omega
    · have hnot : ∀ bs, d.event ≠ .putOk bs := fun bs he => by
        rw [he] at hnone
        cases hnone
      obtain ⟨hstage', hwork⟩ := hgo hnot
      simp only [rank, phase, Exchange.work, hstage, hstage', hwork, hsame, heq, if_false]
      omega

theorem host_read_helps (hr : Ready H b cs block r) (hl : Apart H b cs block r s.l2)
    {act : Act} (el : Buf) {pc : HostPc} {buf : Nat → UInt32}
    (hact : act = .consumer ∨ act = .rbHostGet el)
    (h : Did b r s.l2 .a2hMbox act d l') (hstage : s.pc.stage = .read)
    (hok : ∀ bs, d.event = .getOk bs → pc.work < s.pc.work)
    (hgo : (∀ bs, d.event ≠ .getOk bs) → pc.stage = .read ∧ pc.work = s.pc.work) :
    Helps r.mboxes s .host { s with l2 := l', buf := buf, pc := pc } := by
  obtain ⟨hprod, hempty, hword⟩ := h.host_gets hr hl hact
  have hphase := phase_lt (s := { s with l2 := l', buf := buf, pc := pc })
    (hr.step_apart hl h.step)
  by_cases heq : unread r.mboxes s.l2 .a2hMbox = 0
  -- the get fails, and it is the device's turn
  · obtain ⟨heq', hnot⟩ := hempty heq
    obtain ⟨hstage', hwork⟩ := hgo hnot
    right
    simp [rank, phase, needed, Exchange.work, hstage, hstage', hwork, heq, heq', hprod]
  · left
    rcases hword heq with ⟨bs, he⟩ | ⟨hnone, hsame, hlt⟩
    · have hwork := hok bs he
      unfold rank Exchange.work
      dsimp only
      omega
    · have hnot : ∀ bs, d.event ≠ .getOk bs := fun bs he => by
        rw [he] at hnone
        cases hnone
      obtain ⟨hstage', hwork⟩ := hgo hnot
      simp only [rank, phase, Exchange.work, hstage, hstage', hwork, hsame, heq, if_false]
      omega

theorem host_helps_of_lt {s s' : Exchange} (hwork : s'.work ≤ s.work)
    (hlt : s'.work < s.work ∧ phase r.mboxes s' < 2000 ∨
      phase r.mboxes s' < phase r.mboxes s) : Helps r.mboxes s .host s' := by
  left
  unfold rank
  omega

theorem host_helps (hr : Ready H b cs block r) (hl : Apart H b cs block r s.l2)
    (hs : turn b r.mboxes s .host = some (v, s')) : Helps r.mboxes s .host s' := by
  obtain ⟨⟨done, s''⟩, hstep, hp⟩ := Option.map_eq_some_iff.mp hs
  obtain ⟨rfl, rfl⟩ := Prod.mk.inj hp
  obtain ⟨l, buf, offset, calls, pc⟩ := s
  cases pc with
  | caller =>
    cases calls with
    | nil => cases hstep
    | cons c calls =>
      have hphase : phase r.mboxes ⟨l, buf, offset, c :: calls, .caller⟩ = 1900 := by
        simp [phase, HostPc.stage]
      cases c with
      | heroDevMboxWrite word =>
        obtain ⟨rfl, rfl⟩ := Prod.mk.inj (Option.some.inj hstep)
        refine host_helps_of_lt ?_ (.inr ?_)
        · simp [Exchange.work, HostPc.work, Call.work]
        · rw [hphase]
          exact (phase_waiting_lt (.inl rfl)).trans (by norm_num)
      | heroDevMboxRead nWords =>
        obtain ⟨rfl, rfl⟩ := Prod.mk.inj (Option.some.inj hstep)
        refine host_helps_of_lt ?_ (.inr ?_)
        · simp [Exchange.work, HostPc.work, Call.work]
        · rw [hphase]
          show 1800 < 1900
          norm_num
  | put word =>
    obtain ⟨⟨d, l'⟩, hexec, hp⟩ := Option.map_eq_some_iff.mp hstep
    obtain ⟨rfl, rfl⟩ := Prod.mk.inj hp
    have hdid := hr.did hexec
    have he := (hdid.putCall (.inl rfl)).1
    refine host_write_helps hr hl _ (.inr rfl) hdid rfl (fun bs hok => ?_) fun _ => ⟨rfl, rfl⟩
    rw [he] at hok
    cases hok
  | putting word =>
    obtain ⟨⟨d, l'⟩, hexec, hp⟩ := Option.map_eq_some_iff.mp hstep
    obtain ⟨rfl, rfl⟩ := Prod.mk.inj hp
    refine host_write_helps hr hl (wordBytes word) (.inl rfl) (hr.did hexec) rfl
      (fun bs hok => ?_) fun hnot => ?_
    · rw [hok]
      exact Nat.lt_succ_self 0
    · cases he : d.event with
      | putOk bs => exact absurd he (hnot bs)
      | _ => exact ⟨rfl, rfl⟩
  | loop buffer nWords =>
    simp only [hostStep] at hstep
    split_ifs at hstep with hzero
    · obtain ⟨rfl, rfl⟩ := Prod.mk.inj (Option.some.inj hstep)
      have hlt : Exchange.work ⟨l, buf, offset, calls, .caller⟩ <
          Exchange.work ⟨l, buf, offset, calls, .loop buffer nWords⟩ := by
        simp [Exchange.work, HostPc.work]
      exact host_helps_of_lt hlt.le (.inl ⟨hlt, phase_lt hl⟩)
    · obtain ⟨rfl, rfl⟩ := Prod.mk.inj (Option.some.inj hstep)
      refine host_helps_of_lt ?_ (.inr (phase_waiting_lt (.inr rfl)))
      simp only [Exchange.work, HostPc.work]
      omega
  | get buffer nWords =>
    obtain ⟨⟨d, l'⟩, hexec, hp⟩ := Option.map_eq_some_iff.mp hstep
    obtain ⟨rfl, rfl⟩ := Prod.mk.inj hp
    have hdid := hr.did hexec
    have he := (hdid.getCall (.inl rfl)).1
    refine host_read_helps hr hl _ (.inr rfl) hdid rfl (fun bs hok => ?_) fun _ => ⟨rfl, rfl⟩
    rw [he] at hok
    cases hok
  | getting buffer nWords =>
    obtain ⟨⟨d, l'⟩, hexec, hp⟩ := Option.map_eq_some_iff.mp hstep
    obtain ⟨rfl, rfl⟩ := Prod.mk.inj hp
    refine host_read_helps hr hl (wordBytes 0) (.inl rfl) (hr.did hexec) rfl
      (fun bs hok => ?_) fun hnot => ?_
    · rw [hok]
      exact Nat.lt_succ_self _
    · cases he : d.event with
      | getOk bs => exact absurd he (hnot bs)
      | _ => exact ⟨rfl, rfl⟩

theorem exchange_helpful (hr : Ready H b cs block r) :
    Path.Helpful (exchange b r.mboxes) (fun s => Apart H b cs block r s.l2)
      (Exchange.Finished r.mboxes) Move.agent (needed r.mboxes) (rank r.mboxes) := by
  rintro s v s' hl hnot ⟨a, hs⟩
  cases a with
  | host =>
    have hagent : v.agent = .host := by
      obtain ⟨ds, -, hp⟩ := Option.map_eq_some_iff.mp hs
      exact congrArg Move.agent (Prod.mk.inj hp).1.symm
    rw [hagent]
    exact host_helps hr hl hs
  | device m el =>
    obtain ⟨⟨d, l'⟩, hexec, hp⟩ := Option.map_eq_some_iff.mp hs
    obtain ⟨rfl, rfl⟩ := Prod.mk.inj hp
    have hdid := hr.did hexec
    cases m with
    | h2aMbox => exact device_h2a_helps hr hl hnot hdid
    | a2hMbox => exact device_a2h_helps hr hl hdid
    | rbMbox => exact device_rb_helps hr hl hdid

theorem Exchange.Returned.returned {calls : List Call} (h : s.Returned) :
    s.returned calls = calls := by
  obtain ⟨hpc, hcalls⟩ := h
  simp [Exchange.returned, hpc, hcalls]

/-- When no side stops where it is needed, the calls return, the device has got every word
written, and the buffers hold the first words that the device has put. -/
theorem exchange_completes {mem : Nat → UInt8} (hheap : H.Heap mem cs)
    (hr : heroDevAllocMboxes H b mem = some (0, r)) (hok : ∀ a ∈ r.allocated, a ≠ 0)
    {buf : Nat → UInt32} {calls : List Call} (ρ : (exchange b r.mboxes).Path)
    (hstart : ρ.state 0 = .start r.mem buf calls)
    (hfair : ρ.Fair Move.agent (needed r.mboxes)) :
    ∃ n, (ρ.state n).Returned ∧ gets .h2aMbox (ρ.upto n) = writes calls ∧
      ∀ j < (sizes calls).sum, some ((ρ.state n).buf (mirror (sizes calls) j)) =
        (puts .a2hMbox (ρ.upto n))[j]? := by
  obtain ⟨block, hready⟩ := heroDevAllocMboxes_spec hheap hr hok
  have hrun : ∀ n, (exchange b r.mboxes).Run (.start r.mem buf calls) (ρ.upto n) (ρ.state n) :=
    fun n => hstart ▸ ρ.run n
  have hapart : ∀ n, Apart H b cs block r (ρ.state n).l2 :=
    fun n => (hready.exchange_run (hrun n)).1
  obtain ⟨n, hreturned, hzero⟩ := Path.eventually hfair hapart (exchange_helpful hready)
  have hwords := hready.exchanged (hrun n)
  refine ⟨n, hreturned, ?_, fun j hj => ?_⟩
  · obtain ⟨q, hq, -, hputs⟩ := (hready.exchange_run (hrun n)).2 .h2aMbox
    have hnil : q = [] := List.eq_nil_of_length_eq_zero (hq.unread.symm.trans hzero)
    rw [hnil, List.map_nil, List.append_nil] at hputs
    rw [← hputs, hwords.written, hreturned.returned]
  · have hlen := hwords.read.2 hreturned.1
    rw [hreturned.returned] at hlen
    have hj' : j < (gets .a2hMbox (ρ.upto n)).length := hlen ▸ hj
    obtain ⟨rest, hrest⟩ := hwords.got
    rw [hwords.stored j _ (List.getElem?_eq_getElem hj'), ← hrest,
      List.getElem?_append_left hj', List.getElem?_eq_getElem hj']

/-! ## Nobody is stuck -/

section
variable {l : L2} {m : Mailbox} {mboxes : Mailbox → Ptr}

theorem producer_isSome (h : putEl (l.prod m) ≠ none) :
    (exec b mboxes l (m, .producer)).isSome := by
  rw [exec, Option.isSome_map]
  cases hpc : l.prod m with
  | idle => exact absurd (hpc ▸ rfl) h
  | _ =>
    simp only [memExec, memPutStep, L2.cell, hpc]
    first | rfl | (split <;> rfl)

theorem consumer_isSome (h : l.cons m ≠ .idle) : (exec b mboxes l (m, .consumer)).isSome := by
  rw [exec, Option.isSome_map]
  cases hpc : l.cons m with
  | idle => exact absurd hpc h
  | _ =>
    simp only [memExec, memGetStep, L2.cell, hpc]
    first | rfl | (split <;> rfl)

theorem putCall_isSome {act : Act} {el : Buf} (h : putEl (l.prod m) = none)
    (hact : act = .rbHostPut el ∨ act = .rbDevicePut el) :
    (exec b mboxes l (m, act)).isSome := by
  rw [exec, Option.isSome_map]
  cases hpc : l.prod m with
  | idle => rcases hact with rfl | rfl <;> simp [memExec, memPutCall, L2.cell, hpc]
  | _ =>
    rw [hpc] at h
    cases h

theorem getCall_isSome {act : Act} {el : Buf} (h : l.cons m = .idle)
    (hact : act = .rbHostGet el ∨ act = .rbDeviceGet el) :
    (exec b mboxes l (m, act)).isSome := by
  rw [exec, Option.isSome_map]
  rcases hact with rfl | rfl <;> simp [memExec, memGetCall, L2.cell, h]

theorem turn_isSome (h : HostPcs s.l2 s.pc) {a : Turn} (ha : a = .host → ¬ s.Returned) :
    (turn b mboxes s a).isSome := by
  cases a with
  | device m el =>
    rw [turn, Option.isSome_map]
    by_cases hm : m = .h2aMbox
    · subst hm
      obtain ⟨hact, hpc⟩ | ⟨hact, hpc⟩ := deviceAct_get s.l2 el <;> rw [hact]
      · exact consumer_isSome hpc
      · exact getCall_isSome hpc (.inr rfl)
    · obtain ⟨hact, hpc⟩ | ⟨hact, hpc⟩ := deviceAct_put s.l2 el hm <;> rw [hact]
      · exact producer_isSome hpc
      · exact putCall_isSome hpc (.inr rfl)
  | host =>
    rw [turn, Option.isSome_map]
    obtain ⟨l, buf, offset, calls, pc⟩ := s
    cases pc with
    | caller =>
      cases calls with
      | nil => exact absurd ⟨rfl, rfl⟩ (ha rfl)
      | cons c calls => cases c <;> rfl
    | put word =>
      rw [hostStep, Option.isSome_map]
      exact putCall_isSome h.1 (.inl rfl)
    | putting word =>
      rw [hostStep, Option.isSome_map]
      refine producer_isSome ?_
      rw [h.1]
      exact Option.some_ne_none _
    | loop buffer nWords =>
      simp only [hostStep]
      split_ifs <;> rfl
    | get buffer nWords =>
      rw [hostStep, Option.isSome_map]
      exact getCall_isSome h.2 (.inl rfl)
    | getting buffer nWords =>
      rw [hostStep, Option.isSome_map]
      exact consumer_isSome h.2

end

end

/-! ## The host first, and then the device -/

def hostFirst (s : Exchange) : Turn :=
  if s.pc = .caller ∧ s.calls = [] then .device .h2aMbox fun _ => 0 else .host

section
variable (b : Bases) (mboxes : Mailbox → Ptr)

def advance (s : Exchange) : Move × Exchange :=
  (turn b mboxes s (hostFirst s)).getD (⟨.host, none⟩, s)

def advanced (s : Exchange) (n : Nat) : Exchange := (fun s => (advance b mboxes s).2)^[n] s

end

section
variable {H : O1HeapMem} {b : Bases} {cs : List Block} {block : Part → Block} {r : Opened}
  {mboxes : Mailbox → Ptr} {s : Exchange}

theorem hostFirst_of_returned (h : s.Returned) :
    hostFirst s = .device .h2aMbox fun _ => 0 := if_pos h

theorem turn_advance (b : Bases) (mboxes : Mailbox → Ptr) (h : HostPcs s.l2 s.pc) :
    turn b mboxes s (hostFirst s) = some (advance b mboxes s) := by
  have hsome : (turn b mboxes s (hostFirst s)).isSome := by
    refine turn_isSome h fun hhost => ?_
    unfold hostFirst at hhost
    split_ifs at hhost with hret
    exact hret
  obtain ⟨ms, hms⟩ := Option.isSome_iff_exists.mp hsome
  rw [advance, hms, Option.getD_some]

theorem advanced_succ (s : Exchange) (n : Nat) :
    advanced b mboxes s (n + 1) = (advance b mboxes (advanced b mboxes s n)).2 :=
  Function.iterate_succ_apply' ..

theorem Ready.advanced_pcs (hr : Ready H b cs block r) (buf : Nat → UInt32) (calls : List Call)
    (n : Nat) : ∃ tr, (exchange b r.mboxes).Run (.start r.mem buf calls) tr
      (advanced b r.mboxes (.start r.mem buf calls) n) := by
  induction n with
  | zero => exact ⟨[], .nil⟩
  | succ n ih =>
    obtain ⟨tr, hrun⟩ := ih
    rw [advanced_succ]
    exact ⟨_, hrun.snoc ⟨_, turn_advance _ _ (exchangeInv_run hr hrun).pcs⟩⟩

def Ready.hostFirstPath (hr : Ready H b cs block r) (buf : Nat → UInt32) (calls : List Call) :
    (exchange b r.mboxes).Path where
  state := advanced b r.mboxes (.start r.mem buf calls)
  label := fun n => (advance b r.mboxes (advanced b r.mboxes (.start r.mem buf calls) n)).1
  step := by
    intro n
    obtain ⟨tr, hrun⟩ := hr.advanced_pcs buf calls n
    rw [advanced_succ]
    exact ⟨_, turn_advance _ _ (exchangeInv_run hr hrun).pcs⟩

theorem Ready.hostFirst_fair (hr : Ready H b cs block r) {buf : Nat → UInt32} {calls : List Call}
    {k : Nat} (hk : ((hr.hostFirstPath buf calls).state k).Returned) :
    (hr.hostFirstPath buf calls).Fair Move.agent (needed r.mboxes) := by
  have hstep : ∀ n, ((hr.hostFirstPath buf calls).state n).Returned →
      ((hr.hostFirstPath buf calls).state (n + 1)).Returned ∧
        ((hr.hostFirstPath buf calls).label n).agent = .device .h2aMbox := by
    intro n hret
    obtain ⟨tr, hrun⟩ := hr.advanced_pcs buf calls n
    have hturn := turn_advance b r.mboxes (exchangeInv_run hr hrun).pcs
    have hret' : (advanced b r.mboxes (.start r.mem buf calls) n).Returned := hret
    rw [hostFirst_of_returned hret'] at hturn
    obtain ⟨dl, -, heq⟩ := Option.map_eq_some_iff.mp hturn
    refine ⟨?_, congrArg (fun p => p.1.agent) heq.symm⟩
    show (advanced b r.mboxes (.start r.mem buf calls) (n + 1)).Returned
    rw [advanced_succ, ← heq]
    exact hret
  have hafter : ∀ j, ((hr.hostFirstPath buf calls).state (k + j)).Returned := by
    intro j
    induction j with
    | zero => exact hk
    | succ j ih => exact (hstep _ ih).1
  intro p n
  refine ⟨k + n, Nat.le_add_left n k, ?_⟩
  by_cases hp : p = .device .h2aMbox
  · exact .inl ((hstep _ (hafter n)).2.trans hp.symm)
  · right
    obtain ⟨hpc, hcalls⟩ := hafter n
    simp [needed, hpc, hcalls, HostPc.stage, Ne.symm hp]

end

theorem exchange_completes_oneWord :
    ∃ (r : Opened) (ρ : (exchange someBases r.mboxes).Path) (n : Nat),
      ρ.state 0 = .start r.mem (fun _ => 0) [.heroDevMboxWrite 7] ∧ (ρ.state n).Returned ∧
        gets .h2aMbox (ρ.upto n) = [7] := by
  have hexec : (heroDevAllocMboxes splittingHeap someBases
      (storeLe (fun _ => 0) 4096 8 4160)).map (fun p =>
        let s := advanced someBases p.2.mboxes
          (.start p.2.mem (fun _ => 0) [.heroDevMboxWrite 7]) 13
        (p.2.allocated, s.pc, s.calls)) =
      some ([4192, 4256, 4384, 4448, 4576, 4640], .caller, []) := by
    decide +kernel
  obtain ⟨⟨ret, r⟩, halloc, hp⟩ := Option.map_eq_some_iff.mp hexec
  obtain rfl := heroDevAllocMboxes_ret halloc
  simp only [Prod.mk.injEq] at hp
  obtain ⟨hallocated, hret⟩ := hp
  have hheap := splitOff_empty (n := 4160) (by norm_num) (by norm_num)
  have hok : ∀ a ∈ r.allocated, a ≠ 0 := by
    rw [hallocated]
    decide
  obtain ⟨block, hready⟩ := heroDevAllocMboxes_spec (H := splittingHeap) hheap halloc hok
  obtain ⟨n, hreturned, hgets, -⟩ := exchange_completes (H := splittingHeap) hheap halloc hok
    (hready.hostFirstPath _ _) rfl (hready.hostFirst_fair hret)
  exact ⟨r, _, n, rfl, hreturned, hgets⟩

end HeroTools.Libhero.Mboxes
