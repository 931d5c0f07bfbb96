import HeroTools.Libhero.Reset

/-! Every order of calls resets lawfully, except that the Safety Island may be started while
it still fetches: proof outlines for the functions of both back ends. -/

namespace HeroTools.Libhero

/-! ## What a write changes -/

section
variable {d : Domain} {F : Type} {body : F → List RegOp} {K P Q R : Hw → Prop}
  {ops : List RegOp} {r : Reg} {value : Nat}

theorem Hw.writew_val (d : Domain) (value : Nat) (r r' : Reg) (s : Hw) :
    (s.writew d value r).val r' = if r' = r then value else s.val r' :=
  Function.update_apply s.val r value r'

theorem Hw.writew_written {s : Hw} (hr : r ≠ d.rst) :
    (s.writew d value r).written = r :: s.written := if_neg hr

theorem Hw.follow_val (d : Domain) (r : Reg) (s : Hw) :
    (s.follow d).val r = if r = d.isolateStatus then s.val d.isolate else s.val r :=
  Function.update_apply s.val d.isolateStatus (s.val d.isolate) r

namespace Domain

def regs (d : Domain) : List Reg := [d.rst, d.isolate, d.isolateStatus, d.clkEn]

theorem regs_ne (d : Domain) : (d.rst ≠ d.isolate ∧ d.rst ≠ d.isolateStatus ∧ d.rst ≠ d.clkEn) ∧
    (d.isolate ≠ d.isolateStatus ∧ d.isolate ≠ d.clkEn) ∧ d.isolateStatus ≠ d.clkEn := by
  have h := (List.nodup_append.mp d.nodup).1
  simpa [not_or] using h

theorem fetch_not_mem (hr : r ∈ d.fetchEnable) : r ∉ d.regs := by
  intro hmem
  have h := (List.nodup_append.mp d.nodup).2.2 r hmem r
    (List.mem_append_left _ (Option.mem_toList.mpr hr))
  exact h rfl

end Domain

def At (d : Domain) (p : Nat → Nat → Nat → Nat → Prop) (s : Hw) : Prop :=
  p (s.val d.rst) (s.val d.isolate) (s.val d.isolateStatus) (s.val d.clkEn)

variable {p q : Nat → Nat → Nat → Nat → Prop} {s : Hw}

theorem at_follow : At d p (s.follow d) ↔
    p (s.val d.rst) (s.val d.isolate) (s.val d.isolate) (s.val d.clkEn) := by
  obtain ⟨⟨-, hrs, -⟩, ⟨his, -⟩, hsc⟩ := d.regs_ne
  simp only [At, Hw.follow_val, if_neg hrs, if_neg his, if_neg hsc.symm, if_true]

theorem at_writew_rst : At d p (s.writew d value d.rst) ↔
    p value (s.val d.isolate) (s.val d.isolateStatus) (s.val d.clkEn) := by
  obtain ⟨⟨hri, hrs, hrc⟩, -, -⟩ := d.regs_ne
  simp only [At, Hw.writew_val, if_neg hri.symm, if_neg hrs.symm, if_neg hrc.symm, if_true]

theorem at_writew_isolate : At d p (s.writew d value d.isolate) ↔
    p (s.val d.rst) value (s.val d.isolateStatus) (s.val d.clkEn) := by
  obtain ⟨⟨hri, -, -⟩, ⟨his, hic⟩, -⟩ := d.regs_ne
  simp only [At, Hw.writew_val, if_neg hri, if_neg his.symm, if_neg hic.symm, if_true]

theorem at_writew_clkEn : At d p (s.writew d value d.clkEn) ↔
    p (s.val d.rst) (s.val d.isolate) (s.val d.isolateStatus) value := by
  obtain ⟨⟨-, -, hrc⟩, ⟨-, hic⟩, hsc⟩ := d.regs_ne
  simp only [At, Hw.writew_val, if_neg hrc, if_neg hic, if_neg hsc, if_true]

theorem at_writew_of_not_mem (hr : r ∉ d.regs) : At d p (s.writew d value r) ↔ At d p s := by
  have hne (r' : Reg) (hr' : r' ∈ d.regs) : r' ≠ r := fun h => hr (h ▸ hr')
  simp only [At, Hw.writew_val, if_neg (hne d.rst (by simp [Domain.regs])),
    if_neg (hne d.isolate (by simp [Domain.regs])),
    if_neg (hne d.isolateStatus (by simp [Domain.regs])),
    if_neg (hne d.clkEn (by simp [Domain.regs]))]

structure Frame (d : Domain) (K : Hw → Prop) : Prop where
  writew : ∀ {s r value}, r ∈ d.regs → K s → K (s.writew d value r)
  follow : ∀ {s}, K s → K (s.follow d)

theorem writew_fetch (hr : r ∈ d.regs) {f : Reg} (hf : f ∈ d.fetchEnable) :
    (s.writew d value r).val f = s.val f := by
  rw [Hw.writew_val, if_neg fun h : f = r => d.fetch_not_mem hf (h ▸ hr)]

theorem follow_fetch {f : Reg} (hf : f ∈ d.fetchEnable) : (s.follow d).val f = s.val f := by
  have hne : f ≠ d.isolateStatus := fun h => d.fetch_not_mem hf (h ▸ by simp [Domain.regs])
  rw [Hw.follow_val, if_neg hne]

theorem frame_fetchOff (d : Domain) : Frame d (FetchOff d) where
  writew := fun hr hK f hf => (writew_fetch hr hf).trans (hK f hf)
  follow := fun hK f hf => (follow_fetch hf).trans (hK f hf)

theorem frame_true (d : Domain) : Frame d fun _ => True := ⟨fun _ _ => trivial, fun _ => trivial⟩

/-! ## What makes a step lawful -/

theorem lawful_of_at {s' : Hw} (hfetch : ∀ f ∈ d.fetchEnable, s'.val f = s.val f)
    (h : At d (fun rst iso st clk => (rst = 1 → st = 1 ∧ clk = 0) ∧
      (s.val d.isolate ≠ 0 ∧ iso = 0 ∨ s.val d.isolateStatus ≠ 0 ∧ st = 0 → rst = 0 ∧ clk = 1) ∧
      (s.val d.rst = 1 → rst = 0 → FetchOff d s)) s') : Lawful d s s' where
  sound := h.1
  released := h.2.1
  fetch_off := fun f hf h1 h0 => (hfetch f hf).trans (h.2.2 h1 h0 f hf)
  booted := fun f hf hne heq => absurd ((hfetch f hf).symm.trans heq) hne

/-- A condition that no change of the status breaks, and that makes it lawful. -/
def Fit (p : Nat → Nat → Nat → Nat → Prop) : Prop :=
  ∀ rst iso st clk, p rst iso st clk → (rst = 1 → st = 1 ∧ clk = 0) ∧ p rst iso iso clk ∧
    (iso = 0 → rst = 0 ∧ clk = 1)

/-- The proof outlines of all functions: whatever the steps are, they are lawful. -/
def Outlines (d : Domain) (body : F → List RegOp) (P : Hw → Prop) (ops : List RegOp)
    (Q : Hw → Prop) : Prop :=
  (device d body).Outline (fun _ _ => True) (Lawful d) P ops Q

def Steady (d : Domain) (body : F → List RegOp) (P : Hw → Prop) : Prop :=
  (device d body).Stable (fun _ _ => True) (Lawful d) P

theorem lawful_self (hs : Sound d s) : Lawful d s s := by
  refine lawful_of_at (fun _ _ => rfl) ⟨hs, ?_, fun h1 h0 => ?_⟩
  · rintro (⟨hne, heq⟩ | ⟨hne, heq⟩) <;> exact absurd heq hne
  · rw [h1] at h0
    cases h0

theorem steady_at (hp : Fit p) (hK : ∀ s, K s → K (s.follow d)) :
    Steady d body fun s => At d p s ∧ K s := by
  rintro s s' ⟨hs, hKs⟩ (rfl | rfl) -
  · exact ⟨lawful_self (hp _ _ _ _ hs).1, hs, hKs⟩
  · obtain ⟨-, hfollow, hopen⟩ := hp _ _ _ _ hs
    refine ⟨lawful_of_at (fun f hf => follow_fetch hf) (at_follow.mpr ⟨?_, ?_, fun h1 h0 => ?_⟩),
      at_follow.mpr hfollow, hK s hKs⟩
    · exact (hp _ _ _ _ hfollow).1
    · rintro (⟨hne, heq⟩ | ⟨-, heq⟩)
      · exact absurd heq hne
      · exact hopen heq
    · rw [h1] at h0
      cases h0

def Resting (d : Domain) : Hw → Prop :=
  At d fun rst iso st clk => st = iso ∧ (rst = 1 → st = 1 ∧ clk = 0)

theorem steady_resting (hK : ∀ s, K s → K (s.follow d)) :
    Steady d body fun s => Resting d s ∧ K s := by
  rintro s s' ⟨hs, hKs⟩ (rfl | rfl) -
  · exact ⟨lawful_self hs.2, hs, hKs⟩
  · have hst : s.val d.isolateStatus = s.val d.isolate := hs.1
    refine ⟨lawful_of_at (fun f hf => follow_fetch hf) (at_follow.mpr ⟨?_, ?_, fun h1 h0 => ?_⟩),
      at_follow.mpr ⟨rfl, hst ▸ hs.2⟩, hK s hKs⟩
    · exact hst ▸ hs.2
    · rintro (⟨hne, heq⟩ | ⟨hne, heq⟩)
      · exact absurd heq hne
      · exact absurd (hst.trans heq) hne
    · rw [h1] at h0
      cases h0

theorem resting_steady : Steady d body (Resting d) := fun s s' hs hstep hA =>
  have ⟨hlaw, hs', _⟩ := steady_resting (K := fun _ => True) (fun _ _ => trivial) s s'
    ⟨hs, trivial⟩ hstep hA
  ⟨hlaw, hs'⟩

structure Asserts (d : Domain) (body : F → List RegOp) (p : Nat → Nat → Nat → Nat → Prop)
    (K : Hw → Prop) : Prop where
  sound : ∀ {rst iso st clk}, p rst iso st clk → rst = 1 → st = 1 ∧ clk = 0
  steady : Steady d body fun s => At d p s ∧ K s

theorem asserts_at (hp : Fit p) (hK : ∀ s, K s → K (s.follow d)) : Asserts d body p K :=
  ⟨fun h => (hp _ _ _ _ h).1, steady_at hp hK⟩

theorem outlines_writew (hP : Steady d body P)
    (h : ∀ s, P s → Lawful d s (s.writew d value r) ∧ R (s.writew d value r))
    (hops : Outlines d body R ops Q) : Outlines d body P (.writew value r :: ops) Q := by
  refine .cons hP (fun s s' hs hstep _ => ?_) hops
  obtain rfl : s.writew d value r = s' := Option.some.inj hstep
  exact h s hs

theorem outlines_fence (hops : Outlines d body P ops Q) : Outlines d body P (.fence :: ops) Q :=
  .skip (fun _ _ h => (Option.some.inj h).symm) hops

theorem outlines_delay (hops : Outlines d body P ops Q) : Outlines d body P (.delay :: ops) Q :=
  .skip (fun _ _ h => (Option.some.inj h).symm) hops

section rules
variable (hp : Asserts d body p K)
include hp

theorem outlines_rst (hK : Frame d K) (hoff : value = 0 → ∀ s, K s → FetchOff d s)
    (h : ∀ rst iso st clk, p rst iso st clk →
      q value iso st clk ∧ (value = 1 → st = 1 ∧ clk = 0))
    (hops : Outlines d body (fun s => At d q s ∧ K s) ops Q) :
    Outlines d body (fun s => At d p s ∧ K s) (.writew value d.rst :: ops) Q := by
  have hmem : d.rst ∈ d.regs := by simp [Domain.regs]
  refine outlines_writew hp.steady (fun s ⟨hs, hKs⟩ => ?_) hops
  obtain ⟨hq, hsound⟩ := h _ _ _ _ hs
  refine ⟨lawful_of_at (fun f hf => writew_fetch hmem hf) (at_writew_rst.mpr ⟨hsound, ?_, ?_⟩),
    at_writew_rst.mpr hq, hK.writew hmem hKs⟩
  · rintro (⟨hne, heq⟩ | ⟨hne, heq⟩) <;> exact absurd heq hne
  · exact fun _ h0 => hoff h0 s hKs

theorem outlines_isolate (hK : Frame d K) (h : ∀ rst iso st clk, p rst iso st clk →
      q rst value st clk ∧ (value = 0 → rst = 0 ∧ clk = 1))
    (hops : Outlines d body (fun s => At d q s ∧ K s) ops Q) :
    Outlines d body (fun s => At d p s ∧ K s) (.writew value d.isolate :: ops) Q := by
  have hmem : d.isolate ∈ d.regs := by simp [Domain.regs]
  refine outlines_writew hp.steady (fun s ⟨hs, hKs⟩ => ?_) hops
  obtain ⟨hq, hopen⟩ := h _ _ _ _ hs
  refine ⟨lawful_of_at (fun f hf => writew_fetch hmem hf)
    (at_writew_isolate.mpr ⟨hp.sound hs, ?_, fun h1 h0 => ?_⟩),
    at_writew_isolate.mpr hq, hK.writew hmem hKs⟩
  · rintro (⟨-, heq⟩ | ⟨hne, heq⟩)
    · exact hopen heq
    · exact absurd heq hne
  · rw [h1] at h0
    cases h0

theorem outlines_clkEn (hK : Frame d K) (h : ∀ rst iso st clk, p rst iso st clk →
      q rst iso st value ∧ (rst = 1 → value = 0))
    (hops : Outlines d body (fun s => At d q s ∧ K s) ops Q) :
    Outlines d body (fun s => At d p s ∧ K s) (.writew value d.clkEn :: ops) Q := by
  have hmem : d.clkEn ∈ d.regs := by simp [Domain.regs]
  refine outlines_writew hp.steady (fun s ⟨hs, hKs⟩ => ?_) hops
  obtain ⟨hq, hoff⟩ := h _ _ _ _ hs
  refine ⟨lawful_of_at (fun f hf => writew_fetch hmem hf)
    (at_writew_clkEn.mpr ⟨fun h1 => ⟨(hp.sound hs h1).1, hoff h1⟩, ?_, fun h1 h0 => ?_⟩),
    at_writew_clkEn.mpr hq, hK.writew hmem hKs⟩
  · rintro (⟨hne, heq⟩ | ⟨hne, heq⟩) <;> exact absurd heq hne
  · rw [h1] at h0
    cases h0

/-- The loop of `car_set_isolate` ends when the status is read as it should be. -/
theorem outlines_poll (h : ∀ rst iso st clk, p rst iso st clk → st = value → q rst iso st clk)
    (hops : Outlines d body (fun s => At d q s ∧ K s) ops Q) :
    Outlines d body (fun s => At d p s ∧ K s) (.poll d.isolateStatus value :: ops) Q := by
  refine .cons hp.steady (fun s s' hs hstep _ => ?_) hops
  obtain ⟨hval, heq⟩ := Option.ite_none_right_eq_some.mp hstep
  obtain rfl := Option.some.inj heq
  exact ⟨lawful_self (hp.sound hs.1), h _ _ _ _ hs.1 hval, hs.2⟩

theorem outlines_other {J : Hw → Prop} (hr : r ∉ d.regs)
    (hfetch : r ∈ d.fetchEnable → value = 1 → ∀ s, K s → ∀ b ∈ d.bootAddr, b ∈ s.written)
    (hJ : ∀ s, K s → J (s.writew d value r))
    (hops : Outlines d body (fun s => At d p s ∧ J s) ops Q) :
    Outlines d body (fun s => At d p s ∧ K s) (.writew value r :: ops) Q := by
  refine outlines_writew hp.steady (fun s ⟨hs, hKs⟩ => ?_) hops
  have hsame (r' : Reg) (hr' : r' ∈ d.regs) : (s.writew d value r).val r' = s.val r' := by
    rw [Hw.writew_val, if_neg fun h : r' = r => hr (h ▸ hr')]
  have hrst := hsame d.rst (by simp [Domain.regs])
  refine ⟨⟨?_, ?_, ?_, ?_⟩, (at_writew_of_not_mem hr).mpr hs, hJ s hKs⟩
  · exact (at_writew_of_not_mem (p := fun rst _ st clk => rst = 1 → st = 1 ∧ clk = 0) hr).mpr
      (hp.sound hs)
  · rw [hsame d.isolate (by simp [Domain.regs]), hsame d.isolateStatus (by simp [Domain.regs])]
    rintro (⟨hne, heq⟩ | ⟨hne, heq⟩) <;> exact absurd heq hne
  · intro f _ h1 h0
    rw [hrst, h1] at h0
    cases h0
  · intro f hf hne heq
    rw [Hw.writew_val] at heq
    split_ifs at heq with hfr
    · exact hfetch (hfr ▸ hf) heq s hKs
    · exact absurd heq hne

end rules

/-! ## The common sequences -/

abbrev resting (rst iso st clk : Nat) : Prop := st = iso ∧ (rst = 1 → st = 1 ∧ clk = 0)
abbrev isolating (rst iso st clk : Nat) : Prop := iso = 1 ∧ (rst = 1 → st = 1 ∧ clk = 0)
abbrev isolated (rst iso st clk : Nat) : Prop := iso = 1 ∧ st = 1 ∧ (rst = 1 → clk = 0)
abbrev gated (_ iso st clk : Nat) : Prop := iso = 1 ∧ st = 1 ∧ clk = 0
abbrev unreset (rst iso st clk : Nat) : Prop := rst = 0 ∧ iso = 1 ∧ st = 1 ∧ clk = 0
abbrev clocked (rst iso st clk : Nat) : Prop := rst = 0 ∧ iso = 1 ∧ st = 1 ∧ clk = 1
abbrev opening (rst iso _ clk : Nat) : Prop := rst = 0 ∧ iso = 0 ∧ clk = 1
abbrev reopened (rst iso st clk : Nat) : Prop := rst = 0 ∧ iso = 0 ∧ st = 0 ∧ clk = 1

section sequences
variable (hK : Frame d K)
include hK

theorem isolate_outline (hops : Outlines d body (fun s => At d isolated s ∧ K s) ops Q) :
    Outlines d body (fun s => At d resting s ∧ K s) (setIsolate d 1 ++ ops) Q := by
  have hresting : Asserts d body resting K := ⟨fun h => h.2, steady_resting fun _ => hK.follow⟩
  have hisolating : Asserts d body isolating K :=
    asserts_at (fun rst iso st clk h => by omega) fun _ => hK.follow
  refine outlines_isolate hresting hK (fun rst iso st clk h => ?_) (outlines_fence
    (outlines_poll hisolating (fun rst iso st clk h hst => ?_) hops))
  · omega
  · omega

theorem gate_outline (hops : Outlines d body (fun s => At d gated s ∧ K s) ops Q) :
    Outlines d body (fun s => At d isolated s ∧ K s)
      (.writew 0 d.clkEn :: .fence :: ops) Q := by
  have hisolated : Asserts d body isolated K :=
    asserts_at (fun rst iso st clk h => by omega) fun _ => hK.follow
  exact outlines_clkEn hisolated hK (fun rst iso st clk h => by omega) (outlines_fence hops)

/-- The reset goes on and off while the domain is isolated and has no clock. -/
theorem pulse_outline (hoff : ∀ s, K s → FetchOff d s)
    (hops : Outlines d body (fun s => At d clocked s ∧ K s) ops Q) :
    Outlines d body (fun s => At d gated s ∧ K s)
      (.writew 1 d.rst :: .fence :: .delay :: .writew 0 d.rst :: .fence ::
        .writew 1 d.clkEn :: .fence :: ops) Q := by
  have hgated : Asserts d body gated K :=
    asserts_at (fun rst iso st clk h => by omega) fun _ => hK.follow
  have hunreset : Asserts d body unreset K :=
    asserts_at (fun rst iso st clk h => by omega) fun _ => hK.follow
  refine outlines_rst (q := gated) hgated hK (fun h => absurd h Nat.one_ne_zero)
    (fun rst iso st clk h => ?_) (outlines_fence (outlines_delay
    (outlines_rst (q := unreset) hgated hK (fun _ => hoff)
      (fun rst iso st clk h => ?_) (outlines_fence
    (outlines_clkEn (q := clocked) hunreset hK
      (fun rst iso st clk h => ?_) (outlines_fence hops))))))
  · omega
  · omega
  · omega

theorem open_outline (hops : Outlines d body (fun s => At d reopened s ∧ K s) ops Q) :
    Outlines d body (fun s => At d clocked s ∧ K s) (setIsolate d 0 ++ ops) Q := by
  have hclocked : Asserts d body clocked K :=
    asserts_at (fun rst iso st clk h => by omega) fun _ => hK.follow
  have hopening : Asserts d body opening K :=
    asserts_at (fun rst iso st clk h => by omega) fun _ => hK.follow
  refine outlines_isolate hclocked hK (fun rst iso st clk h => ?_) (outlines_fence
    (outlines_poll hopening (fun rst iso st clk h hst => ?_) hops))
  · omega
  · omega

end sequences

theorem reopened_asserts (hK : ∀ s, K s → K (s.follow d)) : Asserts d body reopened K :=
  asserts_at (fun rst iso st clk h => by omega) hK

theorem return_outline (hK : ∀ s, K s → K (s.follow d)) :
    Outlines d body (fun s => At d reopened s ∧ K s) [] (Resting d) :=
  .nil (reopened_asserts hK).steady fun s ⟨⟨hrst, hiso, hst, _⟩, _⟩ =>
    ⟨hst.trans hiso.symm, fun h1 => by rw [hrst] at h1; cases h1⟩

end

/-! ## The functions of the Safety Island -/

namespace SafetyIsland

def NotFetching : Call → Hw → Prop
  | .heroDevReset, _ => True
  | .heroDevExeStart, s => s.val FETCH_ENABLE = 0

theorem reset_outline : Outlines domain Call.body
    (fun s => Resting domain s ∧ NotFetching .heroDevReset s) heroDevReset
    (Resting domain) := by
  have hisolated : Asserts domain Call.body isolated fun _ => True :=
    asserts_at (fun rst iso st clk h => by omega) fun _ _ => trivial
  have hoff := frame_fetchOff domain
  have hend : Outlines domain Call.body (fun s => At domain clocked s ∧ FetchOff domain s)
      (carSetIsolate 0 ++ []) (Resting domain) :=
    open_outline hoff (return_outline fun _ => hoff.follow)
  refine isolate_outline (frame_true domain) ?_
  refine outlines_other hisolated (by decide) (fun _ h => absurd h Nat.zero_ne_one) ?_
    (outlines_fence (gate_outline hoff (pulse_outline hoff (fun _ h => h) hend)))
  rintro s - f hf
  obtain rfl : FETCH_ENABLE = f := Option.some.inj hf
  rw [Hw.writew_val, if_pos rfl]

theorem exe_start_outline : Outlines domain Call.body
    (fun s => Resting domain s ∧ NotFetching .heroDevExeStart s) heroDevExeStart
    (Resting domain) := by
  have hoff := frame_fetchOff domain
  have hpre (s : Hw) : NotFetching .heroDevExeStart s ↔ FetchOff domain s :=
    ⟨fun h f hf => Option.some.inj hf ▸ h, fun h => h FETCH_ENABLE rfl⟩
  simp only [hpre]
  have hbooted : Outlines domain Call.body (fun s => At domain reopened s ∧
      (SAFETY_ISLAND_BOOT_ADDR ∈ s.written ∧ BOOT_ADDR ∈ s.written))
      [.writew 1 FETCH_ENABLE] (Resting domain) := by
    refine outlines_other (reopened_asserts fun _ h => h) (by decide) ?_ (fun _ _ => trivial)
      (return_outline (K := fun _ => True) fun _ _ => trivial)
    rintro - - s ⟨hisland, hsoc⟩ b hb
    rcases List.mem_cons.mp hb with rfl | hb
    · exact hsoc
    · rw [List.mem_singleton.mp hb]
      exact hisland
  have hboot : Outlines domain Call.body (fun s => At domain reopened s ∧ FetchOff domain s)
      [.writew 0x60010080 BOOT_ADDR, .writew 0x60010080 SAFETY_ISLAND_BOOT_ADDR, .fence,
        .writew 1 FETCH_ENABLE] (Resting domain) := by
    refine outlines_other (J := fun s => BOOT_ADDR ∈ s.written)
      (reopened_asserts fun _ => hoff.follow) (by decide) (fun h => absurd h (by decide))
      (fun s _ => ?_) (outlines_other (reopened_asserts fun _ h => h) (by decide)
      (fun h => absurd h (by decide)) (fun s h => ?_) (outlines_fence hbooted))
    · rw [Hw.writew_written (by decide)]
      exact List.mem_cons_self
    · rw [Hw.writew_written (by decide)]
      exact ⟨List.mem_cons_self, List.mem_cons_of_mem _ h⟩
  exact isolate_outline hoff (gate_outline hoff (pulse_outline hoff (fun _ h => h)
    (open_outline hoff hboot)))

def Fetching (s : Hw) : Prop := s.val FETCH_ENABLE ≠ 0

def Doomed (P : Hw → Prop) (ops : List RegOp) : Prop :=
  island.Outline (Lawful domain) (fun _ _ => True) P ops fun _ => False

theorem doomed_stable {P : Hw → Prop} (hP : ∀ s, P s → P (s.follow domain)) :
    island.Stable (Lawful domain) (fun _ _ => True) P := by
  rintro s s' hs (rfl | rfl) -
  · exact ⟨trivial, hs⟩
  · exact ⟨trivial, hP s hs⟩

theorem fetching_follow (s : Hw) (hs : Fetching s) : Fetching (s.follow domain) := by
  rw [Fetching, follow_fetch rfl]
  exact hs

theorem doomed_writew {r : Reg} {value : Nat} {P : Hw → Prop} {ops : List RegOp}
    (h : ∀ s, Fetching s → Fetching (s.writew domain value r) → P (s.writew domain value r))
    (hr : r ∈ domain.regs) (hops : Doomed P ops) : Doomed Fetching (.writew value r :: ops) := by
  refine .cons (doomed_stable fetching_follow) (fun s s' hs hstep _ => ⟨trivial, ?_⟩) hops
  obtain rfl : s.writew domain value r = s' := Option.some.inj hstep
  have hkept : Fetching (s.writew domain value r) := by
    rw [Fetching, writew_fetch hr rfl]
    exact hs
  exact h s hs hkept

/-- A start while the island fetches cannot lawfully return: its reset ends with the fetch
still enabled. -/
theorem exe_start_doomed : Doomed Fetching heroDevExeStart := by
  have hfall : Doomed (fun s => s.val RST = 1 ∧ Fetching s)
      (.writew 0 RST :: .fence :: .writew 1 CLK_EN :: .fence :: (carSetIsolate 0 ++ [
        .writew 0x60010080 BOOT_ADDR, .writew 0x60010080 SAFETY_ISLAND_BOOT_ADDR, .fence,
        .writew 1 FETCH_ENABLE])) := by
    refine .cons (doomed_stable fun s h => ?_) (fun s s' hs hstep hlaw => ⟨trivial, ?_⟩)
      (.of_false fun s h => h)
    · refine ⟨?_, fetching_follow s h.2⟩
      rw [Hw.follow_val, if_neg (by decide)]
      exact h.1
    · obtain rfl : s.writew domain 0 RST = s' := Option.some.inj hstep
      have hzero := hlaw.fetch_off FETCH_ENABLE rfl hs.1 (Function.update_self RST 0 s.val)
      rw [writew_fetch (by decide) rfl] at hzero
      exact hs.2 hzero
  have hpulse : Doomed Fetching (.writew 1 RST :: .fence :: .delay :: .writew 0 RST :: .fence ::
      .writew 1 CLK_EN :: .fence :: (carSetIsolate 0 ++ [.writew 0x60010080 BOOT_ADDR,
        .writew 0x60010080 SAFETY_ISLAND_BOOT_ADDR, .fence, .writew 1 FETCH_ENABLE])) :=
    doomed_writew (fun s _ hkept => ⟨Function.update_self RST 1 s.val, hkept⟩) (by decide)
      (.skip (fun _ _ h => (Option.some.inj h).symm)
      (.skip (fun _ _ h => (Option.some.inj h).symm) hfall))
  have hpoll (s s' : Hw) (h : (RegOp.poll ISOLATE_STATUS 1).step domain s = some s') : s' = s :=
    (Option.some.inj (Option.ite_none_right_eq_some.mp h).2).symm
  refine doomed_writew (fun _ _ h => h) (by decide) (.skip (fun _ _ h => (Option.some.inj h).symm)
    (.skip hpoll (doomed_writew (fun _ _ h => h) (by decide)
    (.skip (fun _ _ h => (Option.some.inj h).symm) hpulse))))

theorem body_outline (f : Call) : Outlines domain Call.body
    (fun s => Resting domain s ∧ NotFetching f s) f.body (Resting domain) := by
  cases f with
  | heroDevReset => exact reset_outline
  | heroDevExeStart => exact exe_start_outline

theorem body_doomed (f : Call) : Doomed (fun s => ¬ NotFetching f s) f.body := by
  cases f with
  | heroDevReset => exact .of_false fun _ h => h trivial
  | heroDevExeStart => exact exe_start_doomed

end SafetyIsland

/-! ## The functions of the Spatz cluster -/

namespace SpatzCluster

theorem fetchOff (s : Hw) : FetchOff domain s := fun _ h => nomatch h

theorem write_outline {p : Nat → Nat → Nat → Nat → Prop} {ops : List RegOp} {Q : Hw → Prop}
    {r : Reg} {value : Nat} (hp : Fit p) (hr : r ∉ domain.regs)
    (hops : Outlines domain Call.body (fun s => At domain p s ∧ True) ops Q) :
    Outlines domain Call.body (fun s => At domain p s ∧ True) (.writew value r :: ops) Q :=
  outlines_other (asserts_at hp fun _ _ => trivial) hr (fun h => nomatch h) (fun _ _ => trivial)
    hops

theorem gated_fit : Fit gated := fun rst iso st clk h => by omega

theorem reopened_fit : Fit reopened := fun rst iso st clk h => by omega

theorem return_spatz : Outlines domain Call.body (fun s => At domain reopened s ∧ True) []
    (Resting domain) := return_outline fun _ _ => trivial

theorem body_outline (f : Call) : Outlines domain Call.body
    (fun s => Resting domain s ∧ True) f.body (Resting domain) := by
  have hK := frame_true domain
  have hoff : ∀ s, True → FetchOff domain s := fun s _ => fetchOff s
  cases f with
  | heroDevReset =>
    refine isolate_outline hK (outlines_fence (gate_outline hK ?_))
    refine write_outline gated_fit (by decide) (write_outline gated_fit (by decide)
      (write_outline gated_fit (by decide) (write_outline gated_fit (by decide)
      (write_outline gated_fit (by decide) (write_outline gated_fit (by decide) ?_)))))
    exact pulse_outline hK hoff (open_outline hK return_spatz)
  | heroDevExeStart =>
    refine isolate_outline hK (gate_outline hK (pulse_outline hK hoff (open_outline hK ?_)))
    exact write_outline reopened_fit (by decide) (outlines_fence
      (write_outline reopened_fit (by decide) (write_outline reopened_fit (by decide)
      (write_outline reopened_fit (by decide) (write_outline reopened_fit (by decide)
      return_spatz)))))
  | heroDevMunmap =>
    exact isolate_outline hK
      (gate_outline hK (pulse_outline hK hoff (open_outline hK return_spatz)))

end SpatzCluster

/-! ## Every run -/

def RunLawful (d : Domain) {F : Type} (tr : List ((Hw × List RegOp) × Move F × Hw)) : Prop :=
  ∀ p ∈ tr, Lawful d p.1.1 p.2.2

/-- The Spatz cluster is always reset lawfully. The Safety Island is as long as it is not
started while it fetches, and is not once such a start has returned. -/
theorem reset_sequencing {s : Hw} :
    (∀ tr t, SafetyIsland.island.lts.Run (s, []) tr t → Resting SafetyIsland.domain s →
      ((∀ p ∈ tr, Straight.CallOk SafetyIsland.NotFetching p) →
        RunLawful SafetyIsland.domain tr) ∧
      (t.2 = [] → (RunLawful SafetyIsland.domain tr ↔
        ∀ p ∈ tr, Straight.CallOk SafetyIsland.NotFetching p))) ∧
    ∀ tr t, SpatzCluster.cluster.lts.Run (s, []) tr t → Resting SpatzCluster.domain s →
      RunLawful SpatzCluster.domain tr := by
  refine ⟨fun tr t h h0 => ?_, fun tr t h h0 => ?_⟩
  · have hlawful := Straight.run_guarantee resting_steady SafetyIsland.body_outline h h0
    exact ⟨hlawful, fun ht =>
      ⟨fun hlaw => Straight.run_callOk SafetyIsland.body_doomed h ht hlaw, hlawful⟩⟩
  · exact Straight.run_guarantee resting_steady SpatzCluster.body_outline h h0
      fun _ _ _ _ => trivial

def wholeCall {F : Type} (f : F) (n : Nat) : List (Move F) :=
  .call f :: (List.replicate n [.op, .env]).flatten

def started (n : Nat) := Lts.replay SafetyIsland.island.exec (⟨fun _ => 0, []⟩, [])
  (List.replicate n (wholeCall .heroDevExeStart 19)).flatten

theorem reset_sequencing_one_start :
    (∃ tr t, SafetyIsland.island.lts.Run (⟨fun _ => 0, []⟩, []) tr t ∧ t.2 = [] ∧
      RunLawful SafetyIsland.domain tr ∧ ∀ p ∈ tr, Straight.CallOk SafetyIsland.NotFetching p) ∧
    ∃ tr t, SpatzCluster.cluster.lts.Run (⟨fun _ => 0, []⟩, []) tr t ∧ t.2 = [] ∧
      RunLawful SpatzCluster.domain tr := by
  obtain ⟨hisland, hspatz⟩ := reset_sequencing (s := ⟨fun _ => 0, []⟩)
  constructor
  · have hall : (started 1).map (fun r => r.1.all (fun p =>
        decide (p.2.1 = .call .heroDevExeStart → p.1.1.val SafetyIsland.FETCH_ENABLE = 0)) &&
        r.2.2.isEmpty) = some true := by
      decide +kernel
    obtain ⟨⟨tr, t⟩, hr, hp⟩ := Option.map_eq_some_iff.mp hall
    obtain ⟨hp, hidle⟩ := Bool.and_eq_true_iff.mp hp
    have hcalls : ∀ p ∈ tr, Straight.CallOk SafetyIsland.NotFetching p := by
      intro p hmem f hf
      cases f with
      | heroDevReset => trivial
      | heroDevExeStart => exact of_decide_eq_true (List.all_eq_true.mp hp p hmem) hf
    have hrun := Lts.replay_run hr
    have hlaw := (hisland tr t hrun ⟨rfl, fun h => nomatch h⟩).1 hcalls
    exact ⟨tr, t, hrun, List.isEmpty_iff.mp hidle, hlaw, hcalls⟩
  · have hall : (Lts.replay SpatzCluster.cluster.exec (⟨fun _ => 0, []⟩, [])
        (wholeCall .heroDevMunmap 15)).map (fun r => r.2.2.isEmpty) = some true := by
      decide +kernel
    obtain ⟨⟨tr, t⟩, hr, hidle⟩ := Option.map_eq_some_iff.mp hall
    have hrun := Lts.replay_run hr
    exact ⟨tr, t, hrun, List.isEmpty_iff.mp hidle, hspatz tr t hrun ⟨rfl, fun h => nomatch h⟩⟩

theorem reset_sequencing_not_lawful : ∃ s tr t, SafetyIsland.island.lts.Run (s, []) tr t ∧
    Resting SafetyIsland.domain s ∧ s.val SafetyIsland.FETCH_ENABLE = 0 ∧
      ¬ RunLawful SafetyIsland.domain tr := by
  have hany : (started 2).map (fun r => r.1.any fun p => p.1.1.val SafetyIsland.RST == 1 &&
      p.2.2.val SafetyIsland.RST == 0 && p.2.2.val SafetyIsland.FETCH_ENABLE == 1) = some true := by
    decide +kernel
  obtain ⟨⟨tr, t⟩, hr, hp⟩ := Option.map_eq_some_iff.mp hany
  refine ⟨⟨fun _ => 0, []⟩, tr, t, Lts.replay_run hr, ⟨rfl, fun h => nomatch h⟩, rfl,
    fun hlaw => ?_⟩
  obtain ⟨p, hmem, hp⟩ := List.any_eq_true.mp hp
  simp only [Bool.and_eq_true, beq_iff_eq] at hp
  obtain ⟨⟨h1, h0⟩, hfetch⟩ := hp
  have hzero := (hlaw p hmem).fetch_off SafetyIsland.FETCH_ENABLE rfl h1 h0
  rw [hfetch] at hzero
  cases hzero

end HeroTools.Libhero
