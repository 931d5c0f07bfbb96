import HeroTools.Libhero.Exchange
import HeroTools.Libhero.MboxErrors

/-! No word is lost, made up or overtaken between the calls of the host and the puts and gets of
the device. -/

namespace HeroTools.Libhero.Mboxes
open HeroTools Ringbuf Lts

/-- Each write that has returned has put its word, the device has got these in order, all but
the last 15 at most; the host has got the words of the device likewise, and they lie in its
buffers where the reads put them. -/
structure Exchanged (calls : List Call) (tr : List (Exchange × Move)) (s : Exchange) : Prop where
  written : puts .h2aMbox tr = writes (s.returned calls)
  fetched : gets .h2aMbox tr <+: puts .h2aMbox tr
  unfetched : (puts .h2aMbox tr).length ≤ (gets .h2aMbox tr).length + 15
  got : gets .a2hMbox tr <+: puts .a2hMbox tr
  ungot : (puts .a2hMbox tr).length ≤ (gets .a2hMbox tr).length + 15
  read : (sizes (s.returned calls)).sum ≤ (gets .a2hMbox tr).length ∧
    (s.pc = .caller → (gets .a2hMbox tr).length = (sizes (s.returned calls)).sum)
  stored : ∀ j w, (gets .a2hMbox tr)[j]? = some w → s.buf (mirror (sizes calls) j) = w

/-! ## The invariant -/

def HostPcs (l : L2) : HostPc → Prop
  | .putting word => putEl (l.prod .h2aMbox) = some (wordBytes word) ∧
      l.cons .a2hMbox = .idle
  | .getting _ _ => putEl (l.prod .h2aMbox) = none ∧ l.cons .a2hMbox ≠ .idle
  | _ => putEl (l.prod .h2aMbox) = none ∧ l.cons .a2hMbox = .idle

def Stands (pre cur : List Call) (n : Nat) : HostPc → Prop
  | .caller => cur = [] ∧ n = (sizes pre).sum
  | .put word => cur = [.heroDevMboxWrite word] ∧ n = (sizes pre).sum
  | .putting word => cur = [.heroDevMboxWrite word] ∧ n = (sizes pre).sum
  | .loop buffer nWords => ∃ m, cur = [.heroDevMboxRead m] ∧ buffer = (sizes pre).sum ∧
      nWords ≤ m ∧ n + nWords = (sizes pre).sum + m
  | .get buffer nWords => ∃ m, cur = [.heroDevMboxRead m] ∧ buffer = (sizes pre).sum ∧
      nWords < m ∧ n + nWords + 1 = (sizes pre).sum + m
  | .getting buffer nWords => ∃ m, cur = [.heroDevMboxRead m] ∧ buffer = (sizes pre).sum ∧
      nWords < m ∧ n + nWords + 1 = (sizes pre).sum + m

/-- The words put are those of the writes that have returned, and every word got is where the
mirrored position says. -/
structure ExchangeInv (calls : List Call) (sent got : List UInt32) (s : Exchange) : Prop where
  pcs : HostPcs s.l2 s.pc
  stands : ∃ pre cur, calls = pre ++ cur ++ s.calls ∧ sent = writes pre ∧
    s.offset = (sizes (pre ++ cur)).sum ∧ Stands pre cur got.length s.pc
  stored : ∀ j w, got[j]? = some w → s.buf (mirror (sizes calls) j) = w

@[simp] theorem writes_append (xs ys : List Call) : writes (xs ++ ys) = writes xs ++ writes ys :=
  List.filterMap_append

@[simp] theorem sizes_append (xs ys : List Call) : sizes (xs ++ ys) = sizes xs ++ sizes ys :=
  List.filterMap_append

section
variable {H : O1HeapMem} {b : Bases} {cs : List Block} {block : Part → Block} {r : Opened}
  {calls : List Call} {sent got : List UInt32} {s s' : Exchange} {v : Move}

theorem exchangeInv_start (mem : Nat → UInt8) (buf : Nat → UInt32) (calls : List Call) :
    ExchangeInv calls [] [] (.start mem buf calls) where
  pcs := ⟨rfl, rfl⟩
  stands := ⟨[], [], rfl, rfl, rfl, rfl, rfl⟩
  stored := fun _ _ h => nomatch h

theorem Move.words_done (f : Event → List UInt32) (a : Agent) (d : Done) (m : Mailbox) :
    Move.words f m ⟨a, some d⟩ = if d.mbox = m then f d.event else [] := rfl

theorem exchangeInv_device (hr : Ready H b cs block r) (h : ExchangeInv calls sent got s)
    {m : Mailbox} {el : Buf} (hs : turn b r.mboxes s (.device m el) = some (v, s')) :
    ExchangeInv calls (sent ++ v.words sentOf .h2aMbox) (got ++ v.words consumedOf .a2hMbox)
      s' := by
  obtain ⟨⟨d, l'⟩, hexec, hp⟩ := Option.map_eq_some_iff.mp hs
  obtain ⟨rfl, rfl⟩ := Prod.mk.inj hp
  have hdid := hr.did hexec
  obtain ⟨hh2a, hother⟩ := hdid.device
  have hwords : (Move.words sentOf .h2aMbox ⟨.device m, some d⟩) = [] ∧
      (Move.words consumedOf .a2hMbox ⟨.device m, some d⟩) = [] := by
    rw [Move.words_done, Move.words_done, hdid.mbox]
    constructor <;> split_ifs with hm
    · exact (hh2a hm).2
    · rfl
    · exact (hother (hm ▸ nofun)).2
    · rfl
  have hprod : l'.prod .h2aMbox = s.l2.prod .h2aMbox := by
    by_cases hm : m = .h2aMbox
    · subst hm
      exact (hh2a rfl).1
    · exact (hdid.others _ (Ne.symm hm)).1
  have hcons : l'.cons .a2hMbox = s.l2.cons .a2hMbox := by
    by_cases hm : m = .a2hMbox
    · subst hm
      exact (hother nofun).1
    · exact (hdid.others _ (Ne.symm hm)).2
  rw [hwords.1, hwords.2, List.append_nil, List.append_nil]
  refine ⟨?_, h.stands, h.stored⟩
  have hpcs := h.pcs
  show HostPcs l' s.pc
  unfold HostPcs at hpcs ⊢
  rwa [hprod, hcons]

theorem Did.putting (hs : Apart H b cs block r s.l2) {d : Done} {l' : L2} {word : UInt32}
    (hel : putEl (s.l2.prod .h2aMbox) = some (wordBytes word))
    (h : Did b r s.l2 .h2aMbox .producer d l') :
    l'.cons .a2hMbox = s.l2.cons .a2hMbox ∧ consumedOf d.event = [] ∧
      (sentOf d.event = [word] ∧ afterPut word d.event = .caller ∧
          putEl (l'.prod .h2aMbox) = none ∨
        sentOf d.event = [] ∧ afterPut word d.event = .put word ∧
          putEl (l'.prod .h2aMbox) = none ∨
        sentOf d.event = [] ∧ afterPut word d.event = .putting word ∧
          putEl (l'.prod .h2aMbox) = some (wordBytes word)) := by
  obtain ⟨t, ht, hprod, -⟩ := h.sys
  obtain ⟨q, hq⟩ := hs.queued .h2aMbox
  refine ⟨(h.others .a2hMbox nofun).2, (putStep_cons ht).2, ?_⟩
  rw [← hprod]
  obtain ⟨el, he, hel', hidle⟩ | ⟨he, hidle⟩ | ⟨hnone, hsame⟩ := producer_cases ht
  · obtain rfl := Option.some.inj (hel'.symm.trans hel)
    rw [hq.holds.elementSize_eq] at he
    rw [he, hidle]
    refine .inl ⟨?_, rfl, rfl⟩
    rw [sentOf, wordOf_bytes]
  · rw [he, hidle]
    exact .inr (.inl ⟨rfl, rfl, rfl⟩)
  · refine .inr (.inr ?_)
    rw [hsame]
    cases he : d.event <;> rw [he] at hnone <;>
      first | exact ⟨rfl, rfl, hel⟩ | exact nomatch hnone

theorem Did.getting {d : Done} {l' : L2} (buf : Nat → UInt32) (buffer nWords : Nat)
    (h : Did b r s.l2 .a2hMbox .consumer d l') :
    l'.prod .h2aMbox = s.l2.prod .h2aMbox ∧ sentOf d.event = [] ∧
      ((∃ w, consumedOf d.event = [w] ∧ afterGet buffer nWords d.event = .loop buffer nWords ∧
          gotTo buf (buffer + nWords) d.event = Function.update buf (buffer + nWords) w ∧
          l'.cons .a2hMbox = .idle) ∨
        consumedOf d.event = [] ∧ afterGet buffer nWords d.event = .get buffer nWords ∧
          gotTo buf (buffer + nWords) d.event = buf ∧ l'.cons .a2hMbox = .idle ∨
        consumedOf d.event = [] ∧ afterGet buffer nWords d.event = .getting buffer nWords ∧
          gotTo buf (buffer + nWords) d.event = buf ∧ l'.cons .a2hMbox ≠ .idle) := by
  obtain ⟨t, ht, -, hcons⟩ := h.sys
  refine ⟨(h.others .h2aMbox nofun).1, (getStep_prod ht).2, ?_⟩
  rw [← hcons]
  obtain ⟨bs, he, hidle⟩ | ⟨he, hidle⟩ | ⟨hnone, hbusy⟩ := consumer_cases ht
  · rw [he]
    exact .inl ⟨_, rfl, rfl, rfl, hidle⟩
  · rw [he]
    exact .inr (.inl ⟨rfl, rfl, rfl, hidle⟩)
  · refine .inr (.inr ?_)
    cases he : d.event <;> rw [he] at hnone <;>
      first | exact ⟨rfl, rfl, rfl, hbusy⟩ | exact nomatch hnone

theorem Stands.write_called {pre cur : List Call} {n : Nat} (h : Stands pre cur n .caller)
    (word : UInt32) : Stands pre [.heroDevMboxWrite word] n (.put word) := ⟨rfl, h.2⟩

theorem Stands.read_called {pre cur : List Call} {n : Nat} (h : Stands pre cur n .caller)
    (nWords : Nat) :
    Stands pre [.heroDevMboxRead nWords] n (.loop (sizes pre).sum nWords) :=
  ⟨nWords, rfl, rfl, le_rfl, congrArg (· + nWords) h.2⟩

theorem Stands.putOk {pre cur : List Call} {n : Nat} {word : UInt32}
    (h : Stands pre cur n (.putting word)) :
    Stands (pre ++ cur) [] n .caller ∧ writes (pre ++ cur) = writes pre ++ [word] := by
  obtain ⟨rfl, hn⟩ := h
  refine ⟨⟨rfl, ?_⟩, writes_append _ _⟩
  rw [hn, sizes_append, List.sum_append]
  rfl

theorem Stands.got_all {pre cur : List Call} {n buffer : Nat}
    (h : Stands pre cur n (.loop buffer 0)) :
    Stands (pre ++ cur) [] n .caller ∧ writes (pre ++ cur) = writes pre := by
  obtain ⟨m, rfl, -, -, hn⟩ := h
  refine ⟨⟨rfl, ?_⟩, (writes_append _ _).trans (List.append_nil _)⟩
  rw [sizes_append, List.sum_append]
  exact hn

theorem Stands.get_next {pre cur : List Call} {n buffer nWords : Nat}
    (h : Stands pre cur n (.loop buffer nWords)) (hne : nWords ≠ 0) :
    Stands pre cur n (.get buffer (nWords - 1)) := by
  obtain ⟨m, hcur, hbuf, hle, hn⟩ := h
  exact ⟨m, hcur, hbuf, by omega, by omega⟩

theorem Stands.getOk {pre cur left calls : List Call} {n buffer nWords : Nat}
    (h : Stands pre cur n (.getting buffer nWords)) (hcalls : calls = pre ++ cur ++ left) :
    n < (sizes calls).sum ∧ mirror (sizes calls) n = buffer + nWords ∧
      Stands pre cur (n + 1) (.loop buffer nWords) := by
  obtain ⟨m, rfl, hbuf, hlt, hn⟩ := h
  have hsizes : sizes calls = sizes pre ++ m :: sizes left := by
    rw [hcalls, sizes_append, sizes_append, List.append_assoc]
    rfl
  refine ⟨?_, ?_, m, rfl, hbuf, hlt.le, by omega⟩
  · rw [hsizes, List.sum_append, List.sum_cons]
    omega
  · have hi : n = (sizes pre).sum + (m - 1 - nWords) := by omega
    rw [hi, hsizes, mirror_piece (by omega), hbuf]
    omega

/-- The host begins a call, or comes to the end of one: no mailbox is touched. -/
theorem exchangeInv_calls {pc : HostPc} {l : L2} {buf : Nat → UInt32} {offset : Nat}
    {left : List Call} {done : Option Done} (hpc : pc = .caller ∨ ∃ buffer n, pc = .loop buffer n)
    (h : ExchangeInv calls sent got ⟨l, buf, offset, left, pc⟩)
    (hstep : hostStep b r.mboxes ⟨l, buf, offset, left, pc⟩ = some (done, s')) :
    done = none ∧ ExchangeInv calls sent got s' := by
  obtain ⟨hpcs, ⟨pre, cur, hcalls, hsent, hoff, hstands⟩, hstored⟩ := h
  obtain rfl | ⟨buffer, nWords, rfl⟩ := hpc
  · cases left with
    | nil => cases hstep
    | cons c left =>
      -- the next call begins, and none was going on
      have hcur : cur = [] := hstands.1
      have hnext : calls = pre ++ [c] ++ left := by
        rw [hcalls, hcur, List.append_nil, List.append_assoc, List.singleton_append]
      rw [hcur, List.append_nil] at hoff
      cases c with
      | heroDevMboxWrite word =>
        obtain ⟨rfl, rfl⟩ := Prod.mk.inj (Option.some.inj hstep)
        refine ⟨rfl, hpcs, ⟨pre, _, hnext, hsent, ?_, hstands.write_called word⟩, hstored⟩
        rw [sizes_append, List.sum_append]
        exact hoff
      | heroDevMboxRead nWords =>
        obtain ⟨rfl, rfl⟩ := Prod.mk.inj (Option.some.inj hstep)
        have hcalled := hstands.read_called nWords
        rw [← hoff] at hcalled
        refine ⟨rfl, hpcs, ⟨pre, _, hnext, hsent, ?_, hcalled⟩, hstored⟩
        rw [sizes_append, List.sum_append, ← hoff]
        rfl
  · simp only [hostStep] at hstep
    split_ifs at hstep with hzero <;> obtain ⟨rfl, rfl⟩ := Prod.mk.inj (Option.some.inj hstep)
    · subst hzero
      obtain ⟨hcaller, hwrites⟩ := hstands.got_all
      have hreturned : calls = pre ++ cur ++ [] ++ left ∧
          offset = (sizes (pre ++ cur ++ [])).sum := by
        rw [List.append_nil]
        exact ⟨hcalls, hoff⟩
      exact ⟨rfl, hpcs, ⟨_, [], hreturned.1, hsent.trans hwrites.symm, hreturned.2, hcaller⟩,
        hstored⟩
    · exact ⟨rfl, hpcs, ⟨pre, cur, hcalls, hsent, hoff, hstands.get_next hzero⟩, hstored⟩

theorem exchangeInv_host (hr : Ready H b cs block r) (hl : Apart H b cs block r s.l2)
    (h : ExchangeInv calls sent got s) (hs : turn b r.mboxes s .host = some (v, s')) :
    ExchangeInv calls (sent ++ v.words sentOf .h2aMbox) (got ++ v.words consumedOf .a2hMbox)
      s' := by
  obtain ⟨⟨done, s''⟩, hstep, hp⟩ := Option.map_eq_some_iff.mp hs
  obtain ⟨rfl, rfl⟩ := Prod.mk.inj hp
  obtain ⟨l, buf, offset, left, pc⟩ := s
  obtain hpc | hpc := em (pc = .caller ∨ ∃ buffer n, pc = .loop buffer n)
  · obtain ⟨rfl, hinv⟩ := exchangeInv_calls hpc h hstep
    simp only [Move.words, Option.elim_none, List.append_nil]
    exact hinv
  obtain ⟨hpcs, ⟨pre, cur, hcalls, hsent, hoff, hstands⟩, hstored⟩ := h
  cases pc with
  | caller => exact absurd (.inl rfl) hpc
  | loop buffer nWords => exact absurd (.inr ⟨_, _, rfl⟩) hpc
  | put word =>
    obtain ⟨⟨d, l'⟩, hexec, hp⟩ := Option.map_eq_some_iff.mp hstep
    obtain ⟨rfl, rfl⟩ := Prod.mk.inj hp
    have hdid := hr.did hexec
    obtain ⟨he, -, ⟨v, hprod⟩, -⟩ := hdid.putCall (.inl rfl)
    simp only [Move.words, Option.elim_some, he, sentOf, consumedOf, ite_self, List.append_nil]
    exact ⟨⟨congrArg putEl hprod, (hdid.others .a2hMbox (by decide)).2.trans hpcs.2⟩,
      ⟨pre, cur, hcalls, hsent, hoff, hstands⟩, hstored⟩
  | putting word =>
    obtain ⟨⟨d, l'⟩, hexec, hp⟩ := Option.map_eq_some_iff.mp hstep
    obtain ⟨rfl, rfl⟩ := Prod.mk.inj hp
    have hdid := hr.did hexec
    obtain ⟨hcons, hnone, hcases⟩ := hdid.putting hl hpcs.1
    simp only [Move.words, Option.elim_some, hnone, hdid.mbox, if_true, ite_self, List.append_nil]
    have hidle := hcons.trans hpcs.2
    obtain ⟨hword, hpc, hel⟩ | ⟨hword, hpc, hel⟩ | ⟨hword, hpc, hel⟩ := hcases <;>
      rw [hword, hpc]
    -- the write returns, and its word is in the mailbox
    · obtain ⟨hcaller, hwrites⟩ := hstands.putOk
      rw [hsent, ← hwrites]
      refine ⟨⟨hel, hidle⟩, ⟨_, [], ?_, rfl, ?_, hcaller⟩, hstored⟩
      · rw [List.append_nil]
        exact hcalls
      · rw [List.append_nil]
        exact hoff
    · rw [List.append_nil]
      exact ⟨⟨hel, hidle⟩, ⟨pre, cur, hcalls, hsent, hoff, hstands⟩, hstored⟩
    · rw [List.append_nil]
      exact ⟨⟨hel, hidle⟩, ⟨pre, cur, hcalls, hsent, hoff, hstands⟩, hstored⟩
  | get buffer nWords =>
    obtain ⟨⟨d, l'⟩, hexec, hp⟩ := Option.map_eq_some_iff.mp hstep
    obtain ⟨rfl, rfl⟩ := Prod.mk.inj hp
    have hdid := hr.did hexec
    obtain ⟨he, -, ⟨v, hcons⟩, -⟩ := hdid.getCall (.inl rfl)
    simp only [Move.words, Option.elim_some, he, sentOf, consumedOf, ite_self, List.append_nil]
    have hbusy : l'.cons .a2hMbox ≠ .idle := by
      rw [hcons]
      exact GetPc.noConfusion
    refine ⟨⟨?_, hbusy⟩, ⟨pre, cur, hcalls, hsent, hoff, hstands⟩, hstored⟩
    exact (congrArg putEl (hdid.others .h2aMbox (by decide)).1).trans hpcs.1
  | getting buffer nWords =>
    obtain ⟨⟨d, l'⟩, hexec, hp⟩ := Option.map_eq_some_iff.mp hstep
    obtain ⟨rfl, rfl⟩ := Prod.mk.inj hp
    have hdid := hr.did hexec
    obtain ⟨hprod, hnone, hcases⟩ := hdid.getting buf buffer nWords
    simp only [Move.words, Option.elim_some, hnone, hdid.mbox, if_true, ite_self, List.append_nil]
    have hidle := (congrArg putEl hprod).trans hpcs.1
    obtain ⟨w, hword, hpc, hgot, hcons⟩ | ⟨hword, hpc, hgot, hcons⟩ | ⟨hword, hpc, hgot, hcons⟩ :=
      hcases <;> rw [hword, hpc, hgot]
    -- the word goes to the mirror image of its position
    · obtain ⟨hlt, hplace, hloop⟩ := hstands.getOk hcalls
      have hlength : got.length + 1 = (got ++ [w]).length := by
        rw [List.length_append, List.length_singleton]
      rw [hlength] at hloop
      refine ⟨⟨hidle, hcons⟩, ⟨pre, cur, hcalls, hsent, hoff, hloop⟩, ?_⟩
      rw [← hplace]
      exact mirror_update hlt hstored
    · rw [List.append_nil]
      exact ⟨⟨hidle, hcons⟩, ⟨pre, cur, hcalls, hsent, hoff, hstands⟩, hstored⟩
    · rw [List.append_nil]
      exact ⟨⟨hidle, hcons⟩, ⟨pre, cur, hcalls, hsent, hoff, hstands⟩, hstored⟩

end

/-! ## Runs -/

section
variable {H : O1HeapMem} {b : Bases} {cs : List Block} {block : Part → Block} {r : Opened}
  {mboxes : Mailbox → Ptr} {calls : List Call} {s s' : Exchange} {v : Move}
  {tr : List (Exchange × Move)}

theorem turn_l2 {a : Turn} (hs : turn b mboxes s a = some (v, s')) :
    v.done = none ∧ s'.l2 = s.l2 ∨
      ∃ d, v.done = some d ∧ (mailboxes b mboxes).step s.l2 d s'.l2 := by
  cases a with
  | device m el =>
    obtain ⟨⟨d, l'⟩, hexec, hp⟩ := Option.map_eq_some_iff.mp hs
    obtain ⟨rfl, rfl⟩ := Prod.mk.inj hp
    exact .inr ⟨d, rfl, _, hexec⟩
  | host =>
    obtain ⟨⟨done, s''⟩, hstep, hp⟩ := Option.map_eq_some_iff.mp hs
    obtain ⟨rfl, rfl⟩ := Prod.mk.inj hp
    unfold hostStep at hstep
    split at hstep
    · split at hstep
      · cases hstep
      · obtain ⟨rfl, rfl⟩ := Prod.mk.inj (Option.some.inj hstep)
        exact .inl ⟨rfl, rfl⟩
      · obtain ⟨rfl, rfl⟩ := Prod.mk.inj (Option.some.inj hstep)
        exact .inl ⟨rfl, rfl⟩
    · obtain ⟨⟨d, l'⟩, hexec, hp⟩ := Option.map_eq_some_iff.mp hstep
      obtain ⟨rfl, rfl⟩ := Prod.mk.inj hp
      exact .inr ⟨d, rfl, _, hexec⟩
    · obtain ⟨⟨d, l'⟩, hexec, hp⟩ := Option.map_eq_some_iff.mp hstep
      obtain ⟨rfl, rfl⟩ := Prod.mk.inj hp
      exact .inr ⟨d, rfl, _, hexec⟩
    · split_ifs at hstep <;> obtain ⟨rfl, rfl⟩ := Prod.mk.inj (Option.some.inj hstep) <;>
        exact .inl ⟨rfl, rfl⟩
    · obtain ⟨⟨d, l'⟩, hexec, hp⟩ := Option.map_eq_some_iff.mp hstep
      obtain ⟨rfl, rfl⟩ := Prod.mk.inj hp
      exact .inr ⟨d, rfl, _, hexec⟩
    · obtain ⟨⟨d, l'⟩, hexec, hp⟩ := Option.map_eq_some_iff.mp hstep
      obtain ⟨rfl, rfl⟩ := Prod.mk.inj hp
      exact .inr ⟨d, rfl, _, hexec⟩

theorem exchange_simulation (b : Bases) (mboxes : Mailbox → Ptr) :
    Simulation (exchange b mboxes) (mailboxes b mboxes) Move.done fun s l => s.l2 = l where
  hidden := by
    rintro s v s' _ rfl ⟨a, hs⟩ hnone
    obtain ⟨-, hsame⟩ | ⟨d, hsome, -⟩ := turn_l2 hs
    · exact hsame
    · exact absurd (hnone.symm.trans hsome) nofun
  shown := by
    rintro s v s' _ d rfl ⟨a, hs⟩ hsome
    obtain ⟨hnone, -⟩ | ⟨d', hsome', hstep⟩ := turn_l2 hs
    · exact absurd (hnone.symm.trans hsome) nofun
    · obtain rfl := Option.some.inj (hsome.symm.trans hsome')
      exact ⟨_, hstep, rfl⟩

theorem words_eq (m : Mailbox) (vs : List Move) :
    vs.flatMap (Move.words sentOf m) =
        (Fifo.given ((vs.filterMap Move.done).filterMap (labelOf m))).map wordOf ∧
      vs.flatMap (Move.words consumedOf m) =
        (Fifo.returned ((vs.filterMap Move.done).filterMap (labelOf m))).map wordOf := by
  induction vs with
  | nil => exact ⟨rfl, rfl⟩
  | cons v vs ih =>
    obtain ⟨hsent, hgot⟩ := ih
    obtain ⟨agent, done⟩ := v
    rw [List.flatMap_cons, List.flatMap_cons, hsent, hgot]
    cases done with
    | none => exact ⟨rfl, rfl⟩
    | some d =>
      by_cases hm : d.mbox = m
      · cases he : d.event <;>
          simp [Move.words, labelOf, hm, he, sentOf, consumedOf, label, Fifo.given,
            Fifo.returned]
      · simp [Move.words, labelOf, hm]

theorem Ready.exchange_run (hr : Ready H b cs block r) {buf : Nat → UInt32}
    (h : (exchange b r.mboxes).Run (.start r.mem buf calls) tr s) :
    Apart H b cs block r s.l2 ∧ ∀ m, ∃ q, Queued b r s.l2 m q ∧ q.length ≤ 15 ∧
      puts m tr = gets m tr ++ q.map wordOf := by
  have hstart : Apart H b cs block r (.start r.mem) :=
    ⟨hr.toLaid, fun m => ⟨[], hr.start m⟩⟩
  obtain ⟨atr, l, hrun, rfl, hlabels⟩ := (exchange_simulation b r.mboxes).run h rfl
  refine ⟨hrun.invariant hstart fun hu hstep => hr.step_apart hu hstep, fun m => ?_⟩
  obtain ⟨qtr, q, hqrun, ⟨-, hq⟩, hqlabels⟩ := (hr.simulation m).run hrun ⟨hstart, hr.start m⟩
  refine ⟨q, hq, Fifo.length_le hqrun, ?_⟩
  obtain ⟨hsent, hgot⟩ := words_eq m (labels tr)
  have hgiven := Fifo.given_eq hqrun
  rw [hqlabels, hlabels] at hgiven
  rw [puts, gets, hsent, hgot, hgiven, List.map_append]

theorem exchangeInv_run (hr : Ready H b cs block r) {buf : Nat → UInt32}
    (h : (exchange b r.mboxes).Run (.start r.mem buf calls) tr s) :
    ExchangeInv calls (puts .h2aMbox tr) (gets .a2hMbox tr) s := by
  induction h with
  | nil => exact exchangeInv_start r.mem buf calls
  | @snoc tr u v e hrun hs ih =>
    have hsnoc : ∀ (f : Event → List UInt32) m,
        (labels (tr ++ [(u, e)])).flatMap (Move.words f m) =
          (labels tr).flatMap (Move.words f m) ++ e.words f m := by
      intro f m
      rw [labels_snoc, List.flatMap_append, List.flatMap_singleton]
    rw [puts, gets, hsnoc, hsnoc]
    obtain ⟨a, hs⟩ := hs
    cases a with
    | host => exact exchangeInv_host hr (hr.exchange_run hrun).1 ih hs
    | device m el => exact exchangeInv_device hr ih hs

theorem Stands.length {pre cur : List Call} {n : Nat} {pc : HostPc} (h : Stands pre cur n pc) :
    cur.length = (if pc = .caller then 0 else 1) ∧ (sizes pre).sum ≤ n ∧
      (pc = .caller → n = (sizes pre).sum) := by
  cases pc with
  | caller =>
    obtain ⟨rfl, hn⟩ := h
    exact ⟨rfl, hn.ge, fun _ => hn⟩
  | put word =>
    obtain ⟨rfl, hn⟩ := h
    exact ⟨rfl, hn.ge, nofun⟩
  | putting word =>
    obtain ⟨rfl, hn⟩ := h
    exact ⟨rfl, hn.ge, nofun⟩
  | loop buffer nWords =>
    obtain ⟨m, rfl, -, hle, hn⟩ := h
    exact ⟨rfl, by omega, nofun⟩
  | get buffer nWords =>
    obtain ⟨m, rfl, -, hlt, hn⟩ := h
    exact ⟨rfl, by omega, nofun⟩
  | getting buffer nWords =>
    obtain ⟨m, rfl, -, hlt, hn⟩ := h
    exact ⟨rfl, by omega, nofun⟩

theorem ExchangeInv.returned {sent got : List UInt32} (h : ExchangeInv calls sent got s) :
    sent = writes (s.returned calls) ∧ (sizes (s.returned calls)).sum ≤ got.length ∧
      (s.pc = .caller → got.length = (sizes (s.returned calls)).sum) := by
  obtain ⟨pre, cur, hcalls, hsent, -, hstands⟩ := h.stands
  obtain ⟨hcur, hread⟩ := hstands.length
  have hpre : s.returned calls = pre := by
    have hlen : calls.length - s.calls.length - cur.length = pre.length := by
      rw [hcalls, List.length_append, List.length_append]
      omega
    rw [Exchange.returned, ← hcur, hlen, hcalls, List.append_assoc, List.take_left]
  rw [hpre]
  exact ⟨hsent, hread⟩

theorem Ready.exchanged (hr : Ready H b cs block r) {buf : Nat → UInt32}
    (h : (exchange b r.mboxes).Run (.start r.mem buf calls) tr s) : Exchanged calls tr s := by
  obtain ⟨-, hqueues⟩ := hr.exchange_run h
  have hinv := exchangeInv_run hr h
  obtain ⟨hsent, hread⟩ := hinv.returned
  have hqueue : ∀ m, gets m tr <+: puts m tr ∧
      (puts m tr).length ≤ (gets m tr).length + 15 := by
    intro m
    obtain ⟨q, -, hlen, hputs⟩ := hqueues m
    rw [hputs, List.length_append, List.length_map]
    exact ⟨List.prefix_append .., Nat.add_le_add_left hlen _⟩
  exact ⟨hsent, (hqueue _).1, (hqueue _).2, (hqueue _).1, (hqueue _).2, hread, hinv.stored⟩

/-- Whatever the device puts and gets, and however the loads and stores of the two sides
interleave. -/
theorem exchange_keeps_words {mem : Nat → UInt8} (hheap : H.Heap mem cs)
    (hr : heroDevAllocMboxes H b mem = some (0, r)) (hok : ∀ a ∈ r.allocated, a ≠ 0)
    {buf : Nat → UInt32} (h : (exchange b r.mboxes).Run (.start r.mem buf calls) tr s) :
    Exchanged calls tr s := by
  obtain ⟨block, hready⟩ := heroDevAllocMboxes_spec hheap hr hok
  exact hready.exchanged h

end

def question : List Call := [.heroDevMboxWrite 7, .heroDevMboxRead 1]

def questionTurns : List Turn :=
  .replicate 13 .host ++ .replicate 13 (.device .h2aMbox fun _ => 0) ++
    .replicate 12 (.device .a2hMbox (wordBytes 42)) ++ .replicate 16 .host

def questionExec : Option (Opened × List (Exchange × Move) × Exchange) :=
  (heroDevAllocMboxes splittingHeap someBases
    (storeLe (fun _ => 0) 4096 8 4160)).bind fun (_, r) =>
      (replay (turn someBases r.mboxes) (.start r.mem (fun _ => 0) question)
        questionTurns).map fun p => (r, p)

theorem exchange_keeps_words_question :
    ∃ (r : Opened) (tr : List (Exchange × Move)) (s : Exchange),
    (exchange someBases r.mboxes).Run (.start r.mem (fun _ => 0) question) tr s ∧
      s.calls = [] ∧ gets .h2aMbox tr = [7] ∧ s.buf 0 = 42 ∧ Exchanged question tr s := by
  have hexec : questionExec.map (fun p =>
      (p.1.allocated, p.2.2.calls, gets .h2aMbox p.2.1, p.2.2.buf 0)) =
      some ([4192, 4256, 4384, 4448, 4576, 4640], [], [7], 42) := by
    decide +kernel
  obtain ⟨⟨r, tr, s⟩, hr, hp⟩ := Option.map_eq_some_iff.mp hexec
  simp only [Prod.mk.injEq] at hp
  obtain ⟨hallocated, hcalls, hgets, hbuf⟩ := hp
  obtain ⟨⟨ret, r⟩, halloc, hr⟩ := Option.bind_eq_some_iff.mp hr
  obtain rfl := heroDevAllocMboxes_ret halloc
  obtain ⟨p, hreplay, hp⟩ := Option.map_eq_some_iff.mp hr
  obtain ⟨rfl, rfl⟩ := Prod.mk.inj hp
  have hok : ∀ a ∈ r.allocated, a ≠ 0 := by
    rw [hallocated]
    decide
  have hrun := replay_run hreplay
  exact ⟨r, tr, s, hrun, hcalls, hgets, hbuf,
    exchange_keeps_words (H := splittingHeap) (splitOff_empty (by norm_num) (by norm_num)) halloc
      hok hrun⟩

end HeroTools.Libhero.Mboxes
