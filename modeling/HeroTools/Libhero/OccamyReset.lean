import HeroTools.Lib.Outline

/-! Reset and start of the Occamy cluster, whose interrupt bits share a register of the CLINT
with those of others. -/

namespace HeroTools.Libhero.SnitchCluster
open HeroTools Lts

/-! ## `snitch_cluster.h` and `snitch_cluster.c` -/

abbrev QCTL_ISOLATE_NARROW_IN_BIT : Nat := 0
abbrev QCTL_ISOLATE_NARROW_OUT_BIT : Nat := 1
abbrev QCTL_ISOLATE_WIDE_IN_BIT : Nat := 2
abbrev QCTL_ISOLATE_WIDE_OUT_BIT : Nat := 3

/-- The registers that are written, and the local `val` of the functions of the CLINT. The
others change the CLINT by `others`, one function at a time. -/
structure Hw where
  resetN : BitVec 32
  isolate : BitVec 32
  scratch0 : BitVec 32
  scratch1 : BitVec 32
  clint : BitVec 32
  val : BitVec 32
  others : Nat → BitVec 32 → BitVec 32

inductive Reg
  | QCTL_RESET_N
  | QCTL_ISOLATE
  | SCTL_SCRATCH_0
  | SCTL_SCRATCH_1
deriving DecidableEq, Repr

def Hw.writew (s : Hw) (value : BitVec 32) : Reg → Hw
  | .QCTL_RESET_N => { s with resetN := value }
  | .QCTL_ISOLATE => { s with isolate := value }
  | .SCTL_SCRATCH_0 => { s with scratch0 := value }
  | .SCTL_SCRATCH_1 => { s with scratch1 := value }

/-- `load` is `val = readw(occ_clint);` and `store f` is `writew(f(val), occ_clint);`. -/
inductive RegOp
  | writew (value : BitVec 32) (r : Reg)
  | load
  | store (f : BitVec 32 → BitVec 32)
  | fence
  | delay

def RegOp.run (s : Hw) : RegOp → Hw
  | writew value r => s.writew value r
  | load => { s with val := s.clint }
  | store f => { s with clint := f s.val }
  | fence => s
  | delay => s

def occamySetIsolation (iso : Bool) : List RegOp :=
  let val := if iso then 1#32 else 0#32
  let mask := val <<< QCTL_ISOLATE_NARROW_IN_BIT ||| val <<< QCTL_ISOLATE_NARROW_OUT_BIT |||
    val <<< QCTL_ISOLATE_WIDE_IN_BIT ||| val <<< QCTL_ISOLATE_WIDE_OUT_BIT
  [.writew mask .QCTL_ISOLATE, .fence]

def clintSetIrq (irq : BitVec 32) : List RegOp := [.load, .store fun val => val ||| irq]

def clintClearIrq (irq : BitVec 32) : List RegOp := [.load, .store fun val => val &&& ~~~irq]

def cores : BitVec 32 := 0x1FF#32 <<< 1

def heroDevReset : List RegOp :=
  occamySetIsolation true ++
  .writew 0 .QCTL_RESET_N ::
  (clintClearIrq cores ++
  .fence :: .delay ::
  .writew 1 .QCTL_RESET_N :: .fence ::
  occamySetIsolation false)

def heroDevExeStart : List RegOp :=
  .writew 0xc0000000 .SCTL_SCRATCH_0 ::
  .writew 0 .SCTL_SCRATCH_1 ::
  .fence ::
  clintSetIrq cores

inductive Call
  | heroDevReset
  | heroDevExeStart
deriving DecidableEq, Repr

def Call.body : Call → List RegOp
  | .heroDevReset => SnitchCluster.heroDevReset
  | .heroDevExeStart => SnitchCluster.heroDevExeStart

def Hw.interfere (s : Hw) : Hw :=
  { s with clint := s.others 0 s.clint, others := fun n => s.others (n + 1) }

def cluster : Straight Hw RegOp Call where
  body := Call.body
  step := fun o s => some (o.run s)
  env := Hw.interfere

/-! ## The law of the registers -/

def isolated : BitVec 32 := 0xF

/-- A cluster under reset is isolated. -/
def Sound (s : Hw) : Prop := s.resetN = 0 → s.isolate = isolated

def Released (s : Hw) : Prop := s.resetN = 1 ∧ s.isolate = 0

def Quiet (s : Hw) : Prop := ∀ i, cores.getLsbD i → s.clint.getLsbD i = false

def Raised (s s' : Hw) : Prop :=
  ∃ i, cores.getLsbD i ∧ s.clint.getLsbD i = false ∧ s'.clint.getLsbD i = true

structure Lawful (s s' : Hw) : Prop where
  sound : Sound s'
  opened : s.isolate ≠ 0 → s'.isolate = 0 → s'.resetN = 1
  quiet : s.resetN = 0 → s'.resetN ≠ 0 → Quiet s'
  started : Raised s s' → Released s' ∧ s'.scratch0 = 0xc0000000 ∧ s'.scratch1 = 0

def NeverRaise (others : Nat → BitVec 32 → BitVec 32) : Prop :=
  ∀ n v i, cores.getLsbD i → v.getLsbD i = false → (others n v).getLsbD i = false

def StartedReleased : Call → Hw → Prop
  | .heroDevReset, _ => True
  | .heroDevExeStart, s => Released s

/-! ## Proof outlines -/

section
variable {p q : Hw → Prop} {Q : Hw → Prop} {o : RegOp} {ops : List RegOp} {s s' : Hw}

theorem RegOp.run_others (o : RegOp) (s : Hw) : (o.run s).others = s.others := by
  cases o with
  | writew value r => cases r <;> rfl
  | load => rfl
  | store f => rfl
  | fence => rfl
  | delay => rfl

theorem not_raised (h : s'.clint = s.clint) : ¬ Raised s s' := by
  rintro ⟨i, -, hoff, hon⟩
  rw [h, hoff] at hon
  exact Bool.false_ne_true hon

theorem lawful_of_clint (hsound : Sound s') (hopened : s.isolate ≠ 0 → s'.isolate = 0 →
    s'.resetN = 1) (hquiet : s.resetN = 0 → s'.resetN ≠ 0 → Quiet s')
    (h : s'.clint = s.clint) : Lawful s s' :=
  ⟨hsound, hopened, hquiet, fun hraised => absurd hraised (not_raised h)⟩

theorem lawful_of_same (hsound : Sound s) (hreset : s'.resetN = s.resetN)
    (hisolate : s'.isolate = s.isolate)
    (hstarted : Raised s s' → Released s' ∧ s'.scratch0 = 0xc0000000 ∧ s'.scratch1 = 0) :
    Lawful s s' where
  sound := by
    rw [Sound, hreset, hisolate]
    exact hsound
  opened := fun hne heq => absurd (hisolate.symm.trans heq) hne
  quiet := fun heq hne => absurd (hreset.trans heq) hne
  started := hstarted

theorem lawful_self (hsound : Sound s) : Lawful s s :=
  lawful_of_same hsound rfl rfl fun h => absurd h (not_raised rfl)

theorem interfere_not_raised (h : NeverRaise s.others) : ¬ Raised s s.interfere := by
  rintro ⟨i, hi, hoff, hon⟩
  exact Bool.false_ne_true ((h 0 s.clint i hi hoff).symm.trans hon)

theorem Quiet.interfere (hs : Quiet s) (h : NeverRaise s.others) : Quiet s.interfere :=
  fun i hi => h 0 s.clint i hi (hs i hi)

structure Fit (p : Hw → Prop) : Prop where
  sound : ∀ {s}, p s → Sound s
  interfere : ∀ {s}, NeverRaise s.others → p s → p s.interfere

def Outlines (p : Hw → Prop) (ops : List RegOp) (Q : Hw → Prop) : Prop :=
  cluster.Outline (fun _ _ => True) Lawful (fun s => p s ∧ NeverRaise s.others) ops Q

theorem Fit.steady (hp : Fit p) :
    cluster.Stable (fun _ _ => True) Lawful fun s => p s ∧ NeverRaise s.others := by
  rintro s s' ⟨hs, hothers⟩ (rfl | rfl) -
  · exact ⟨lawful_self (hp.sound hs), hs, hothers⟩
  · have hstep : Lawful s s.interfere := lawful_of_same (hp.sound hs) rfl rfl
      fun h => absurd h (interfere_not_raised hothers)
    exact ⟨hstep, hp.interfere hothers hs, fun n => hothers (n + 1)⟩

theorem Fit.op (hp : Fit p) (h : ∀ s, p s → Lawful s (o.run s) ∧ q (o.run s))
    (hops : Outlines q ops Q) : Outlines p (o :: ops) Q := by
  refine .cons hp.steady ?_ hops
  rintro s s' ⟨hs, hothers⟩ hstep -
  obtain rfl : o.run s = s' := Option.some.inj hstep
  refine ⟨(h s hs).1, (h s hs).2, ?_⟩
  rw [o.run_others]
  exact hothers

theorem Fit.fence (hp : Fit p) (hops : Outlines p ops Q) : Outlines p (.fence :: ops) Q :=
  hp.op (fun _ hs => ⟨lawful_self (hp.sound hs), hs⟩) hops

theorem Fit.delay (hp : Fit p) (hops : Outlines p ops Q) : Outlines p (.delay :: ops) Q :=
  hp.op (fun _ hs => ⟨lawful_self (hp.sound hs), hs⟩) hops

end

/-! ## The functions -/

section
variable {Q : Hw → Prop} {ops : List RegOp}

theorem sound_fit : Fit Sound := ⟨fun hs => hs, fun _ hs => hs⟩

theorem isolated_fit : Fit fun s => s.isolate = isolated := ⟨fun hs _ => hs, fun _ hs => hs⟩

theorem quiet_fit : Fit fun s => s.isolate = isolated ∧ Quiet s :=
  ⟨fun hs _ => hs.1, fun hothers hs => ⟨hs.1, hs.2.interfere hothers⟩⟩

theorem Released.sound {s : Hw} (hs : Released s) : Sound s := by
  intro hreset
  have h10 : (1 : BitVec 32) = 0 := hs.1.symm.trans hreset
  exact absurd h10 (by decide)

theorem released_fit : Fit Released := ⟨Released.sound, fun _ hs => hs⟩

theorem unreset_fit : Fit fun s => s.isolate = isolated ∧ s.resetN = 1 :=
  ⟨fun hs _ => hs.1, fun _ hs => hs⟩

theorem isolate_outline (hops : Outlines (fun s => s.isolate = isolated) ops Q) :
    Outlines Sound (occamySetIsolation true ++ ops) Q := by
  have hne : isolated ≠ 0 := by decide
  refine sound_fit.op (fun s hs => ?_) (isolated_fit.fence hops)
  exact ⟨lawful_of_clint (fun _ => rfl) (fun _ h => absurd h hne) (fun heq hne => absurd heq hne)
    rfl, rfl⟩

theorem clear_outline (hops : Outlines (fun s => s.isolate = isolated ∧ Quiet s) ops Q) :
    Outlines (fun s => s.isolate = isolated) (clintClearIrq cores ++ ops) Q := by
  refine isolated_fit.op (fun s hs => ⟨lawful_of_same (fun _ => hs) rfl rfl fun h =>
    absurd h (not_raised rfl), hs⟩) (isolated_fit.op (fun s hs => ?_) hops)
  have hquiet : Quiet (RegOp.run s (.store fun val => val &&& ~~~cores)) := by
    intro i hi
    simp only [RegOp.run, BitVec.getLsbD_and, BitVec.getLsbD_not, hi, Bool.not_true,
      Bool.and_false]
  refine ⟨lawful_of_same (fun _ => hs) rfl rfl ?_, hs, hquiet⟩
  rintro ⟨i, hi, -, hon⟩
  exact absurd ((hquiet i hi).symm.trans hon) Bool.false_ne_true

theorem open_outline : Outlines (fun s => s.isolate = isolated ∧ s.resetN = 1)
    (occamySetIsolation false) fun s => Sound s ∧ NeverRaise s.others := by
  have hreturn : Outlines Released [] fun s => Sound s ∧ NeverRaise s.others :=
    .nil released_fit.steady fun s hs => ⟨hs.1.sound, hs.2⟩
  refine unreset_fit.op (fun s hs => ?_) (released_fit.fence hreturn)
  have hopen : Released (RegOp.run s (.writew 0 .QCTL_ISOLATE)) := ⟨hs.2, rfl⟩
  exact ⟨lawful_of_clint hopen.sound (fun _ _ => hs.2) (fun heq hne => absurd heq hne) rfl,
    hopen⟩

theorem reset_outline : Outlines Sound heroDevReset fun s => Sound s ∧ NeverRaise s.others := by
  refine isolate_outline (isolated_fit.op (q := fun s => s.isolate = isolated) (fun s hs => ?_)
    (clear_outline (quiet_fit.fence (quiet_fit.delay (quiet_fit.op (fun s hs => ?_)
      (unreset_fit.fence open_outline))))))
  · exact ⟨lawful_of_clint (fun _ => hs) (fun hne heq => absurd heq hne)
      (fun _ hne => absurd rfl hne) rfl, hs⟩
  · exact ⟨lawful_of_clint (fun _ => hs.1) (fun _ _ => rfl) (fun _ _ => hs.2) rfl, hs.1, rfl⟩

abbrev Entered (s : Hw) : Prop := Released s ∧ s.scratch0 = 0xc0000000

abbrev Ready (s : Hw) : Prop := Entered s ∧ s.scratch1 = 0

theorem entered_fit : Fit Entered := ⟨fun hs => hs.1.sound, fun _ hs => hs⟩

theorem ready_fit : Fit Ready := ⟨fun hs => hs.1.1.sound, fun _ hs => hs⟩

theorem exe_start_outline :
    Outlines Released heroDevExeStart fun s => Sound s ∧ NeverRaise s.others := by
  have hreturn : Outlines Ready [] fun s => Sound s ∧ NeverRaise s.others :=
    .nil ready_fit.steady fun s hs => ⟨hs.1.1.1.sound, hs.2⟩
  refine released_fit.op (q := Entered) (fun s hs => ?_) (entered_fit.op (q := Ready)
    (fun s hs => ?_) (ready_fit.fence (ready_fit.op (q := Ready) (fun s hs => ?_)
    (ready_fit.op (fun s hs => ?_) hreturn))))
  · exact ⟨lawful_of_same hs.sound rfl rfl fun h => absurd h (not_raised rfl), hs, rfl⟩
  · exact ⟨lawful_of_same hs.1.sound rfl rfl fun h => absurd h (not_raised rfl), hs, rfl⟩
  · exact ⟨lawful_of_same hs.1.1.sound rfl rfl fun h => absurd h (not_raised rfl), hs⟩
  · exact ⟨lawful_of_same hs.1.1.sound rfl rfl fun _ => ⟨hs.1.1, hs.1.2, hs.2⟩, hs⟩

end

theorem body_outline (f : Call) : cluster.Outline (fun _ _ => True) Lawful
    (fun s => (Sound s ∧ NeverRaise s.others) ∧ StartedReleased f s) f.body
    fun s => Sound s ∧ NeverRaise s.others := by
  cases f with
  | heroDevReset =>
    have hpre : (fun s : Hw => (Sound s ∧ NeverRaise s.others) ∧
        StartedReleased .heroDevReset s) = fun s => Sound s ∧ NeverRaise s.others := by
      funext s
      exact propext (and_iff_left trivial)
    rw [hpre]
    exact reset_outline
  | heroDevExeStart =>
    have hpre : (fun s : Hw => (Sound s ∧ NeverRaise s.others) ∧
        StartedReleased .heroDevExeStart s) = fun s => Released s ∧ NeverRaise s.others := by
      funext s
      exact propext ⟨fun h => ⟨h.2, h.1.2⟩, fun h => ⟨⟨h.1.sound, h.2⟩, h.1⟩⟩
    rw [hpre]
    exact exe_start_outline

/-! ## Every run -/

def powered : Hw where
  resetN := 0
  isolate := isolated
  scratch0 := 0
  scratch1 := 0
  clint := 0
  val := 0
  others := fun _ v => v ||| 1

def started := Lts.replay cluster.exec (powered, []) (.call .heroDevReset ::
  (List.replicate 11 .op ++ .call .heroDevExeStart :: (List.replicate 4 .op ++ [.env, .op])))

theorem started_spec : ∃ tr t, cluster.lts.Run (powered, []) tr t ∧ t.2 = [] ∧
    t.1.clint = cores ∧ ∀ p ∈ tr, Straight.CallOk StartedReleased p := by
  have hall : started.map (fun r => r.2.2.isEmpty && r.2.1.clint == cores &&
      r.1.all fun p => decide (p.2.1 = .call .heroDevExeStart →
        p.1.1.resetN = 1 ∧ p.1.1.isolate = 0)) = some true := by
    decide +kernel
  obtain ⟨⟨tr, t⟩, hr, hp⟩ := Option.map_eq_some_iff.mp hall
  simp only [Bool.and_eq_true, List.isEmpty_iff, beq_iff_eq, List.all_eq_true,
    decide_eq_true_eq] at hp
  obtain ⟨⟨hidle, hclint⟩, hcalls⟩ := hp
  refine ⟨tr, t, Lts.replay_run hr, hidle, hclint, fun p hmem f hf => ?_⟩
  cases f with
  | heroDevReset => trivial
  | heroDevExeStart => exact hcalls p hmem hf

theorem powered_never_raise : NeverRaise powered.others := by
  intro n v i hi hoff
  have hi0 : i ≠ 0 := by
    rintro rfl
    exact absurd hi (by decide)
  simp [powered, hoff, hi0]

/-- In every order of calls, and whatever else happens to the CLINT in between, the cluster is
reset in isolation, comes out of it without interrupts and is interrupted only once it has been
told where to start. -/
theorem occamy_reset_sequencing {s : Hw} {t : Hw × List RegOp}
    {tr : List ((Hw × List RegOp) × Move Call × Hw)} (h : cluster.lts.Run (s, []) tr t)
    (hs : Sound s) (hothers : NeverRaise s.others)
    (hcalls : ∀ p ∈ tr, Straight.CallOk StartedReleased p) : ∀ p ∈ tr, Lawful p.1.1 p.2.2 :=
  Straight.run_guarantee sound_fit.steady body_outline h ⟨hs, hothers⟩ hcalls

theorem occamy_reset_sequencing_started : ∃ tr t, cluster.lts.Run (powered, []) tr t ∧
    t.2 = [] ∧ t.1.clint = cores ∧ ∀ p ∈ tr, Lawful p.1.1 p.2.2 := by
  obtain ⟨tr, t, hrun, hidle, hclint, hcalls⟩ := started_spec
  have hsound : Sound powered := fun _ => rfl
  exact ⟨tr, t, hrun, hidle, hclint,
    occamy_reset_sequencing hrun hsound powered_never_raise hcalls⟩

end HeroTools.Libhero.SnitchCluster
