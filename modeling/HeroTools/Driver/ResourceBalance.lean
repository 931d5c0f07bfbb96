import HeroTools.Driver.Lifecycle
import Mathlib.Tactic.Tauto

/-! What the module still holds after a failed probe, a remove and its exit. -/

namespace HeroTools.Driver.Lifecycle
open HeroTools HeroTools.Action

variable {since65 : Bool} {n : Nat} {o : ProbeCalls} {held : Finset Resource} {s : Module}

/-! ## What a probe holds -/

def ProbeCalls.Started (o : ProbeCalls) : Prop :=
  o.devmKzallocDevData = true ∧ o.devmKzallocBuffer = true

def ProbeCalls.UsesIommu (since65 : Bool) (o : ProbeCalls) : Prop :=
  since65 = true ∧ o.iommuPresent = true

def ProbeCalls.Attaches (o : ProbeCalls) : Prop :=
  o.iommuDomainAlloc = true ∧ o.iommuAttachDevice = .ok ()

def ProbeCalls.AddsChardev (o : ProbeCalls) : Prop :=
  o.cdevAdd = .ok () ∧ o.deviceCreate = .ok ()

theorem mem_requestIrqs {x : Resource} :
    x ∈ settle held (requestIrqs n o) ↔
      x ∈ held ∨ ∃ i < CARFIELD_GPIO_N_IRQS, o.requestIrq i = true ∧ x = ⟨n, .irq i⟩ := by
  rw [requestIrqs, mem_settle_acquires]
  simp only [List.mem_map, List.mem_filter, List.mem_range, and_assoc, eq_comm]

theorem getIommu_cases (since65 : Bool) (n : Nat) (o : ProbeCalls) :
    ¬ o.UsesIommu since65 ∧ getIommu since65 n o = ([], .ok ()) ∨
      o.UsesIommu since65 ∧ ¬ o.Attaches ∧
        (∃ e, (getIommu since65 n o).2 = .error e) ∧
        ((getIommu since65 n o).1 = [] ∨ (getIommu since65 n o).1 =
          [.acquire ⟨n, .iommuDomain⟩, .release ⟨n, .iommuDomain⟩]) ∨
      o.UsesIommu since65 ∧ o.Attaches ∧ getIommu since65 n o =
        ([.acquire ⟨n, .iommuDomain⟩, .acquire ⟨n, .iommuAttachment⟩], .ok ()) := by
  unfold getIommu ProbeCalls.UsesIommu ProbeCalls.Attaches
  rw [← Bool.and_eq_true]
  by_cases huse : (since65 && o.iommuPresent) = true
  · rw [if_pos huse]
    by_cases halloc : o.iommuDomainAlloc = true
    · cases hatt : o.iommuAttachDevice with
      | error e => simp [huse, halloc]
      | ok u => simp [huse, halloc]
    · simp [huse, halloc]
  · simp [huse]

theorem getIommu_ok :
    (getIommu since65 n o).2 = .ok () ↔ (o.UsesIommu since65 → o.Attaches) := by
  obtain ⟨huse, hg⟩ | ⟨huse, hatt, ⟨e, hg⟩, -⟩ | ⟨-, hatt, hg⟩ :=
    getIommu_cases since65 n o
  · simp [hg, huse]
  · simp [hg, huse, hatt]
  · simp [hg, hatt]

theorem mem_getIommu {x : Resource} (hnew : ⟨n, .iommuDomain⟩ ∉ held) :
    x ∈ settle held (getIommu since65 n o).1 ↔
      x ∈ held ∨ (o.UsesIommu since65 ∧ o.Attaches) ∧
        (x = ⟨n, .iommuDomain⟩ ∨ x = ⟨n, .iommuAttachment⟩) := by
  obtain ⟨huse, hg⟩ | ⟨-, hatt, -, hg | hg⟩ | ⟨huse, hatt, hg⟩ :=
    getIommu_cases since65 n o
  · simp [hg, huse]
  · simp [hg, hatt]
  · simp [hg, hatt, settle, Finset.erase_insert hnew]
  · simp only [hg, huse, hatt, settle, Finset.mem_insert, true_and, and_self]
    tauto

theorem addChardev_ok : (addChardev n o).2 = .ok () ↔ o.AddsChardev := by
  unfold addChardev ProbeCalls.AddsChardev
  cases hadd : o.cdevAdd with
  | error e => simp
  | ok u =>
    cases hcreate : o.deviceCreate with
    | error e => simp
    | ok v => simp

theorem mem_addChardev {x : Resource} (hnew : ⟨n, .cdev⟩ ∉ held) :
    x ∈ settle held (addChardev n o).1 ↔
      x ∈ held ∨ o.AddsChardev ∧ (x = ⟨n, .cdev⟩ ∨ x = ⟨n, .device⟩) := by
  unfold addChardev ProbeCalls.AddsChardev
  cases hadd : o.cdevAdd with
  | error e => simp
  | ok u =>
    cases hcreate : o.deviceCreate with
    | error e => simp [settle, Finset.erase_insert hnew]
    | ok v =>
      simp only [settle, Finset.mem_insert, true_and, and_self]
      tauto

theorem probe_spec {as : List (Action Resource)} {ret : Result}
    (h : cardPlatformDriverProbe since65 n o = some (as, ret))
    (hnew : ∀ x ∈ held, x.probe ≠ n) :
    (ret = .ok () ↔ o.Started ∧ (o.UsesIommu since65 → o.Attaches) ∧ o.AddsChardev) ∧
      ∀ x, x ∈ settle held as ↔ x ∈ held ∨
        o.Started ∧ (∃ i < CARFIELD_GPIO_N_IRQS, o.requestIrq i = true ∧ x = ⟨n, .irq i⟩) ∨
        o.Started ∧ (o.UsesIommu since65 ∧ o.Attaches) ∧
          (x = ⟨n, .iommuDomain⟩ ∨ x = ⟨n, .iommuAttachment⟩) ∨
        ret = .ok () ∧ (x = ⟨n, .cdev⟩ ∨ x = ⟨n, .device⟩) := by
  unfold cardPlatformDriverProbe at h
  by_cases hdata : o.devmKzallocDevData = true
  · by_cases hbuffer : o.devmKzallocBuffer = true
    · have hstarted : o.Started := ⟨hdata, hbuffer⟩
      by_cases hpointers : o.pointers = true
      · have hdomain : ⟨n, .iommuDomain⟩ ∉ settle held (requestIrqs n o) := by
          rw [mem_requestIrqs]
          rintro (hx | ⟨i, -, -, hx⟩)
          · exact hnew _ hx rfl
          · cases hx
        have hcdev : ⟨n, .cdev⟩ ∉
            settle (settle held (requestIrqs n o)) (getIommu since65 n o).1 := by
          rw [mem_getIommu hdomain, mem_requestIrqs]
          rintro ((hx | ⟨i, -, -, hx⟩) | ⟨-, hx | hx⟩)
          · exact hnew _ hx rfl
          all_goals cases hx
        simp only [hdata, hbuffer, hpointers, Bool.not_true, Bool.false_eq_true, if_false] at h
        cases hiommu : (getIommu since65 n o).2 with
        | error e =>
          -- the interrupts stay, the character device is not asked for
          have hfail : ¬ (o.UsesIommu since65 → o.Attaches) := by
            rw [← getIommu_ok (n := n), hiommu]
            exact fun hok => by cases hok
          rw [hiommu] at h
          obtain ⟨rfl, rfl⟩ := Prod.mk.inj (Option.some.inj h)
          refine ⟨⟨fun hok => (by cases hok), fun hok => absurd hok.2.1 hfail⟩, fun x => ?_⟩
          rw [settle_append, mem_getIommu hdomain, mem_requestIrqs]
          simp only [hstarted, true_and, reduceCtorEq, false_and, or_false, or_assoc]
        | ok u =>
          have hgot := getIommu_ok.mp hiommu
          rw [hiommu] at h
          obtain ⟨rfl, rfl⟩ := Prod.mk.inj (Option.some.inj h)
          refine ⟨?_, fun x => ?_⟩
          · rw [addChardev_ok]
            exact ⟨fun hadd => ⟨hstarted, hgot, hadd⟩, fun hall => hall.2.2⟩
          · rw [settle_append, settle_append, mem_addChardev hcdev, mem_getIommu hdomain,
              mem_requestIrqs, addChardev_ok]
            simp only [hstarted, true_and, or_assoc]
      · simp [hdata, hbuffer, hpointers] at h
    · have hstarted : ¬ o.Started := fun hs => hbuffer hs.2
      simp only [hdata, hbuffer, Bool.not_true, Bool.not_false, Bool.false_eq_true, if_false,
        if_true] at h
      obtain ⟨rfl, rfl⟩ := Prod.mk.inj (Option.some.inj h)
      simp [hstarted]
  · have hstarted : ¬ o.Started := fun hs => hdata hs.1
    simp only [hdata, Bool.not_false, if_true] at h
    obtain ⟨rfl, rfl⟩ := Prod.mk.inj (Option.some.inj h)
    simp [hstarted]

/-! ## The invariant -/

structure WellFormed (since65 : Bool) (s : Module) : Prop where
  fresh : ∀ x ∈ s.held, x.probe < s.probes
  bound_fresh : ∀ p ∈ s.bound, p.2 < s.probes
  devices : (s.bound.map Prod.fst).Nodup
  probes : (s.bound.map Prod.snd).Nodup
  chardev : ∀ p ∈ s.bound, ⟨p.2, .cdev⟩ ∈ s.held ∧ ⟨p.2, .device⟩ ∈ s.held
  iommu : ∀ n, (⟨n, .iommuAttachment⟩ : Resource) ∈ s.held ↔ ⟨n, .iommuDomain⟩ ∈ s.held
  version : ∀ n, (⟨n, .iommuDomain⟩ : Resource) ∈ s.held → since65 = true
  total : s.totalDevices = s.bound.length

theorem WellFormed.unloaded : WellFormed since65 .unloaded := by
  refine ⟨?_, ?_, ?_, ?_, ?_, ?_, ?_, ?_⟩ <;> simp [Module.unloaded]

/-! ## What a remove releases -/

def releases (since65 : Bool) (n : Nat) : List Resource :=
  (if since65 then [⟨n, .iommuAttachment⟩, ⟨n, .iommuDomain⟩] else []) ++
    [⟨n, .device⟩, ⟨n, .cdev⟩]

theorem remove_eq :
    cardPlatformDriverRemove since65 n = (releases since65 n).map .release := by
  cases since65 <;> rfl

theorem mem_releases {x : Resource} :
    x ∈ releases since65 n ↔ x.probe = n ∧ (x.kind = .device ∨ x.kind = .cdev ∨
      since65 = true ∧ (x.kind = .iommuDomain ∨ x.kind = .iommuAttachment)) := by
  obtain ⟨m, k⟩ := x
  cases since65
  · simp [releases]
    tauto
  · simp [releases]
    tauto

theorem nodup_releases : (releases since65 n).Nodup := by
  cases since65 <;> simp [releases]

variable {ps : List (Device × Nat)}

theorem removes_eq : removes since65 ps =
    (ps.flatMap fun p => releases since65 p.2).map .release := by
  rw [removes, List.map_flatMap]
  exact List.flatMap_congr fun p _ => remove_eq

theorem nodup_removes (hps : (ps.map Prod.snd).Nodup) :
    (ps.flatMap fun p => releases since65 p.2).Nodup := by
  apply List.nodup_flatMap.mpr
  refine ⟨fun p _ => nodup_releases, ?_⟩
  apply (List.pairwise_map.mp hps).imp
  intro p q hne x hp hq
  exact hne ((mem_releases.mp hp).1.symm.trans (mem_releases.mp hq).1)

theorem mem_settle_removes {x : Resource} :
    x ∈ settle held (removes since65 ps) ↔
      x ∈ held ∧ ∀ p ∈ ps, x ∉ releases since65 p.2 := by
  rw [removes_eq, mem_settle_releases, List.mem_flatMap]
  simp only [not_exists, not_and]

theorem owned_removes (hps : (ps.map Prod.snd).Nodup) :
    Owned held (removes since65 ps) ↔ ∀ p ∈ ps, ∀ x ∈ releases since65 p.2, x ∈ held := by
  rw [removes_eq, owned_releases (nodup_removes hps)]
  simp only [List.mem_flatMap]
  constructor
  · intro h p hp x hx
    exact h x ⟨p, hp, hx⟩
  · rintro h x ⟨p, hp, hx⟩
    exact h p hp x hx

/-! ## Balance -/

def Released (s : Module) (n : Nat) : Prop :=
  ∀ x ∈ s.held, x.probe ≠ n

instance : Decidable (Released s n) :=
  inferInstanceAs (Decidable (∀ x ∈ s.held, x.probe ≠ n))

/-- The devices that meet `dev` are removed: all that is released is held, was acquired by
the probe of such a device, and nothing acquired by it stays. -/
def Removed (s : Module) (dev : Device → Prop) (r : Report) : Prop :=
  Owned s.held r.actions ∧
    (∀ a ∈ r.actions, ∃ p ∈ s.bound, dev p.1 ∧ a.on.probe = p.2) ∧
    ∀ p ∈ s.bound, dev p.1 → Released r.after p.2

def InitCalls.granted : InitCalls := ⟨.ok (), .ok (), true, true⟩

def CanInit (s : Module) : Prop :=
  s.loaded = false ∧ (cardPlatformDriverInit s .granted).2 = .ok ()

/-- The balance of one step, by what was called. -/
def Balanced (s : Module) (r : Report) : Prop :=
  match r.event with
  | .init _ => True
  | .probe _ _ => r.ret ≠ .ok () → Released r.after s.probes
  | .remove d => Removed s (fun e => e = d) r
  | .exit _ => Removed s (fun _ => True) r ∧ r.after.drivers = ∅ ∧
      r.after.classCard = false ∧ r.after.chrdevRegion = false ∧
      r.after.totalDevices = 0 ∧ CanInit r.after

/-- The probe leaves nothing if it fails: it does not fail, or has not started to acquire, or no
interrupt was granted and the failure came before the attachment. -/
def ProbeCalls.FailsClean (since65 : Bool) (o : ProbeCalls) : Prop :=
  o.Started → ((o.UsesIommu since65 → o.Attaches) ∧ o.AddsChardev) ∨
    (∀ i < CARFIELD_GPIO_N_IRQS, o.requestIrq i = false) ∧ ¬ (o.UsesIommu since65 ∧ o.Attaches)

def Removable (since65 : Bool) (s : Module) (n : Nat) : Prop :=
  (∀ i, (⟨n, .irq i⟩ : Resource) ∉ s.held) ∧
    (since65 = true → (⟨n, .iommuDomain⟩ : Resource) ∈ s.held)

def Clean (since65 : Bool) (s : Module) : Event → Prop
  | .init _ => True
  | .probe _ o => o.FailsClean since65
  | .remove d => ∀ p ∈ s.bound, p.1 = d → Removable since65 s p.2
  | .exit registerSpatz => (∀ p ∈ s.bound, Removable since65 s p.2) ∧
      .spatzPlatformDriver ∉ s.drivers ∧ registerSpatz = false

theorem WellFormed.removable_iff (hs : WellFormed since65 s) {p : Device × Nat}
    (hp : p ∈ s.bound) :
    ((∀ x ∈ releases since65 p.2, x ∈ s.held) ∧
        ∀ x ∈ s.held, x.probe = p.2 → x ∈ releases since65 p.2) ↔
      Removable since65 s p.2 := by
  constructor
  · rintro ⟨hheld, hall⟩
    refine ⟨fun i hi => ?_, fun hv => hheld _ (mem_releases.mpr ⟨rfl, ?_⟩)⟩
    · have hmem := mem_releases.mp (hall _ hi rfl)
      simp at hmem
    · simp [hv]
  · rintro ⟨hirq, hdomain⟩
    constructor
    · rintro ⟨m, k⟩ hx
      obtain ⟨rfl, hk⟩ : m = p.2 ∧ (k = .device ∨ k = .cdev ∨
          since65 = true ∧ (k = .iommuDomain ∨ k = .iommuAttachment)) := mem_releases.mp hx
      rcases hk with rfl | rfl | ⟨hv, rfl | rfl⟩
      · exact (hs.chardev p hp).2
      · exact (hs.chardev p hp).1
      · exact hdomain hv
      · exact (hs.iommu p.2).mpr (hdomain hv)
    · rintro ⟨m, k⟩ hx hm
      obtain rfl : m = p.2 := hm
      refine mem_releases.mpr ⟨rfl, ?_⟩
      cases k with
      | irq i => exact absurd hx (hirq i)
      | iommuDomain => simp [hs.version _ hx]
      | iommuAttachment => simp [hs.version _ ((hs.iommu _).mp hx)]
      | cdev => simp
      | device => simp

theorem WellFormed.removes_iff (hs : WellFormed since65 s) (hsub : ∀ p ∈ ps, p ∈ s.bound)
    (hps : (ps.map Prod.snd).Nodup) :
    (Owned s.held (removes since65 ps) ∧
        ∀ p ∈ ps, ∀ x ∈ settle s.held (removes since65 ps), x.probe ≠ p.2) ↔
      ∀ p ∈ ps, Removable since65 s p.2 := by
  have hall : (∀ p ∈ ps, ∀ x ∈ settle s.held (removes since65 ps), x.probe ≠ p.2) ↔
      ∀ p ∈ ps, ∀ x ∈ s.held, x.probe = p.2 → x ∈ releases since65 p.2 := by
    refine forall₂_congr fun p hp => ?_
    simp only [mem_settle_removes]
    constructor
    · intro h x hx hprobe
      by_contra hrel
      refine h x ⟨hx, fun q hq hmem => hrel ?_⟩ hprobe
      rwa [← hprobe, (mem_releases.mp hmem).1]
    · rintro h x ⟨hx, hnot⟩ hprobe
      exact hnot p hp (h x hx hprobe)
  rw [owned_removes hps, hall]
  constructor
  · rintro ⟨howned, hrest⟩ p hp
    exact (hs.removable_iff (hsub p hp)).mp ⟨howned p hp, hrest p hp⟩
  · intro h
    exact ⟨fun p hp => ((hs.removable_iff (hsub p hp)).mpr (h p hp)).1,
      fun p hp => ((hs.removable_iff (hsub p hp)).mpr (h p hp)).2⟩

/-! ## Steps -/

variable {t : Module} {r : Report}

inductive Reports (since65 : Bool) (s : Module) : Report → Prop
  | init (c : InitCalls) :
      Reports since65 s ⟨.init c, [], (cardPlatformDriverInit s c).2,
        (cardPlatformDriverInit s c).1⟩
  | probe {d : Device} {c : ProbeCalls} {as : List (Action Resource)} {ret : Result}
      (hd : d ∉ s.bound.map Prod.fst)
      (h : cardPlatformDriverProbe since65 s.probes c = some (as, ret)) :
      Reports since65 s ⟨.probe d c, as, ret, s.probed d as ret⟩
  | remove {p : Device × Nat} (hp : p ∈ s.bound) :
      Reports since65 s ⟨.remove p.1, removes since65 [p], .ok (),
        s.removed p (removes since65 [p])⟩
  | exit (ok : Bool) :
      Reports since65 s ⟨.exit ok, removes since65 s.bound, .ok (),
        cardPlatformDriverCleanup since65 s ok⟩

theorem step_cases (h : (lifecycle since65).step s r t) :
    r.after = t ∧ Reports since65 s r := by
  obtain ⟨e, h⟩ := h
  obtain ⟨⟨as, ret, u⟩, hstep, hp⟩ := Option.map_eq_some_iff.mp h
  obtain ⟨rfl, rfl⟩ := Prod.mk.inj hp
  refine ⟨rfl, ?_⟩
  cases e with
  | init c =>
    simp only [execEvent] at hstep
    split at hstep
    · cases hstep
    · cases hstep
      exact .init c
  | probe d c =>
    simp only [execEvent, execProbe] at hstep
    split at hstep
    · rename_i hready
      obtain ⟨p, hprobe, hp⟩ := Option.map_eq_some_iff.mp hstep
      cases hp
      exact .probe hready.2 hprobe
    · cases hstep
  | remove d =>
    obtain ⟨p, hfind, hp⟩ := Option.map_eq_some_iff.mp hstep
    cases hp
    have hd : p.1 = d := by simpa using List.find?_some hfind
    have hactions : removes since65 [p] = cardPlatformDriverRemove since65 p.2 :=
      List.flatMap_singleton ..
    subst hd
    rw [← hactions]
    exact .remove (List.mem_of_find?_eq_some hfind)
  | exit ok =>
    simp only [execEvent] at hstep
    split at hstep
    · cases hstep
      exact .exit ok
    · cases hstep

/-! ### The steps keep the invariant -/

theorem WellFormed.congr (hs : WellFormed since65 s) (hheld : t.held = s.held)
    (hprobes : t.probes = s.probes) (hbound : t.bound = s.bound)
    (htotal : t.totalDevices = s.totalDevices) : WellFormed since65 t := by
  obtain ⟨h1, h2, h3, h4, h5, h6, h7, h8⟩ := hs
  constructor <;> simp only [hheld, hprobes, hbound, htotal] <;> assumption

theorem WellFormed.init (hs : WellFormed since65 s) (c : InitCalls) :
    WellFormed since65 (cardPlatformDriverInit s c).1 := by
  unfold cardPlatformDriverInit
  cases c.allocChrdevRegion with
  | error e => exact hs
  | ok u =>
    cases classCreate s.classCard c.classCreate with
    | error e => exact hs.congr rfl rfl rfl rfl
    | ok v => exact hs.congr rfl rfl rfl rfl

theorem WellFormed.of_removes (ps : List (Device × Nat)) (hs : WellFormed since65 s)
    (hheld : t.held = settle s.held (removes since65 ps)) (hprobes : t.probes = s.probes)
    (hsub : t.bound.Sublist s.bound) (hleft : ∀ q ∈ t.bound, ∀ p ∈ ps, q.2 ≠ p.2)
    (htotal : t.totalDevices = t.bound.length) : WellFormed since65 t := by
  have hmem : ∀ {m k}, (⟨m, k⟩ : Resource) ∈ t.held ↔ (⟨m, k⟩ : Resource) ∈ s.held ∧
      ∀ p ∈ ps, (⟨m, k⟩ : Resource) ∉ releases since65 p.2 := by
    intro m k
    rw [hheld, mem_settle_removes]
  have hkept : ∀ {q}, q ∈ t.bound → ∀ k, ∀ p ∈ ps,
      (⟨q.2, k⟩ : Resource) ∉ releases since65 p.2 :=
    fun hq k p hp hx => hleft _ hq p hp (mem_releases.mp hx).1
  refine ⟨?_, ?_, hs.devices.sublist (hsub.map _), hs.probes.sublist (hsub.map _), ?_, ?_, ?_,
    htotal⟩
  · rintro ⟨m, k⟩ hx
    rw [hprobes]
    exact hs.fresh _ (hmem.mp hx).1
  · intro p hp
    rw [hprobes]
    exact hs.bound_fresh p (hsub.subset hp)
  · intro q hq
    obtain ⟨hcdev, hdevice⟩ := hs.chardev q (hsub.subset hq)
    exact ⟨hmem.mpr ⟨hcdev, hkept hq _⟩, hmem.mpr ⟨hdevice, hkept hq _⟩⟩
  · intro m
    rw [hmem, hmem, hs.iommu m]
    simp [mem_releases]
  · intro m hx
    exact hs.version m (hmem.mp hx).1

theorem WellFormed.fresh_ne (hs : WellFormed since65 s) : ∀ x ∈ s.held, x.probe ≠ s.probes :=
  fun x hx => Nat.ne_of_lt (hs.fresh x hx)

theorem WellFormed.probed (hs : WellFormed since65 s) {d : Device} {c : ProbeCalls}
    {as : List (Action Resource)} {ret : Result} (hd : d ∉ s.bound.map Prod.fst)
    (h : cardPlatformDriverProbe since65 s.probes c = some (as, ret)) :
    WellFormed since65 (s.probed d as ret) := by
  obtain ⟨-, hmem⟩ := probe_spec h hs.fresh_ne
  have hheld : (s.probed d as ret).held = settle s.held as := by cases ret <;> rfl
  have hprobes : (s.probed d as ret).probes = s.probes + 1 := by cases ret <;> rfl
  have hfresh : ∀ x ∈ settle s.held as, x.probe < s.probes + 1 := by
    intro x hx
    rcases (hmem x).mp hx with hx | ⟨-, i, -, -, rfl⟩ | ⟨-, -, rfl | rfl⟩ | ⟨-, rfl | rfl⟩
    · exact Nat.lt_succ_of_lt (hs.fresh x hx)
    all_goals exact Nat.lt_succ_self _
  have hkept : ∀ p ∈ s.bound, ⟨p.2, .cdev⟩ ∈ settle s.held as ∧ ⟨p.2, .device⟩ ∈ settle s.held as :=
    fun p hp => ⟨(hmem _).mpr (.inl (hs.chardev p hp).1), (hmem _).mpr (.inl (hs.chardev p hp).2)⟩
  have hiommu : ∀ n, (⟨n, .iommuAttachment⟩ : Resource) ∈ settle s.held as ↔
      ⟨n, .iommuDomain⟩ ∈ settle s.held as := by
    intro n
    rw [hmem, hmem, hs.iommu n]
    simp
  have hversion : ∀ n, (⟨n, .iommuDomain⟩ : Resource) ∈ settle s.held as → since65 = true := by
    intro n hx
    rcases (hmem _).mp hx with hx | ⟨-, i, -, -, hx⟩ | ⟨-, huse, -⟩ | ⟨-, hx | hx⟩
    · exact hs.version n hx
    · cases hx
    · exact huse.1.1
    all_goals cases hx
  -- only a probe that succeeds binds the device
  cases ret with
  | error e =>
    refine ⟨hfresh, fun p hp => Nat.lt_succ_of_lt (hs.bound_fresh p hp), hs.devices, hs.probes,
      hkept, hiommu, hversion, hs.total⟩
  | ok u =>
    refine ⟨hfresh, ?_, List.nodup_cons.mpr ⟨hd, hs.devices⟩, List.nodup_cons.mpr ⟨?_, hs.probes⟩,
      ?_, hiommu, hversion, ?_⟩
    · rintro p (_ | ⟨_, hp⟩)
      · exact Nat.lt_succ_self _
      · exact Nat.lt_succ_of_lt (hs.bound_fresh p hp)
    · intro hn
      obtain ⟨p, hp, heq⟩ := List.mem_map.mp hn
      exact absurd heq (Nat.ne_of_lt (hs.bound_fresh p hp))
    · rintro p (_ | ⟨_, hp⟩)
      · exact ⟨(hmem _).mpr (.inr (.inr (.inr ⟨rfl, .inl rfl⟩))),
          (hmem _).mpr (.inr (.inr (.inr ⟨rfl, .inr rfl⟩)))⟩
      · exact hkept p hp
    · show s.totalDevices + 1 = ((s.bound.length + 1 : Nat) : Int)
      rw [hs.total, Int.natCast_succ]

theorem Reports.wellFormed (h : Reports since65 s r) (hs : WellFormed since65 s) :
    WellFormed since65 r.after := by
  cases h with
  | init c => exact hs.init c
  | probe hd h => exact hs.probed hd h
  | @remove p hp =>
    have hne : ∀ q ∈ s.bound.erase p, q.2 ≠ p.2 := by
      intro q hq heq
      have hnodup : s.bound.Nodup := List.Nodup.of_map _ hs.probes
      obtain ⟨hqp, hq⟩ := hnodup.mem_erase_iff.mp hq
      exact hqp (List.inj_on_of_nodup_map hs.probes hq hp heq)
    refine hs.of_removes [p] rfl rfl List.erase_sublist ?_ ?_
    · intro q hq p' hp'
      rw [List.mem_singleton.mp hp']
      exact hne q hq
    · show s.totalDevices - 1 = ((s.bound.erase p).length : Int)
      rw [hs.total, List.length_erase_of_mem hp]
      have hpos := List.length_pos_of_mem hp
      omega
  | exit ok =>
    refine hs.of_removes s.bound rfl rfl (List.nil_sublist _)
      (fun q hq => absurd hq List.not_mem_nil) ?_
    show s.totalDevices - s.bound.length = ((0 : Nat) : Int)
    rw [hs.total]
    simp

theorem step_wellFormed (h : (lifecycle since65).step s r t) (hs : WellFormed since65 s) :
    WellFormed since65 t := by
  obtain ⟨rfl, hr⟩ := step_cases h
  exact hr.wellFormed hs

/-! ### Exactly the clean steps are balanced -/

theorem WellFormed.probe_iff (hs : WellFormed since65 s) {d : Device} {c : ProbeCalls}
    {as : List (Action Resource)} {ret : Result}
    (h : cardPlatformDriverProbe since65 s.probes c = some (as, ret)) :
    (ret ≠ .ok () → Released (s.probed d as ret) s.probes) ↔ c.FailsClean since65 := by
  obtain ⟨hret, hmem⟩ := probe_spec h hs.fresh_ne
  have hheld : (s.probed d as ret).held = settle s.held as := by cases ret <;> rfl
  unfold Released ProbeCalls.FailsClean
  rw [hheld]
  constructor
  · intro hrel hstarted
    by_cases hok : ret = .ok ()
    · exact .inl (hret.mp hok).2
    · refine .inr ⟨fun i hi => ?_, fun huse => ?_⟩
      · by_contra hreq
        refine hrel hok ⟨s.probes, .irq i⟩ ((hmem _).mpr ?_) rfl
        exact .inr (.inl ⟨hstarted, i, hi, Bool.eq_true_of_not_eq_false hreq, rfl⟩)
      · refine hrel hok ⟨s.probes, .iommuDomain⟩ ((hmem _).mpr ?_) rfl
        exact .inr (.inr (.inl ⟨hstarted, huse, .inl rfl⟩))
  · intro hclean hok x hx
    rcases (hmem x).mp hx with hx | ⟨hstarted, i, hi, hreq, -⟩ | ⟨hstarted, huse, -⟩ | ⟨hret', -⟩
    · exact hs.fresh_ne x hx
    · rcases hclean hstarted with hall | ⟨hirq, -⟩
      · exact absurd (hret.mpr ⟨hstarted, hall⟩) hok
      · exact absurd ((hirq i hi).symm.trans hreq) Bool.false_ne_true
    · rcases hclean hstarted with hall | ⟨-, hno⟩
      · exact absurd (hret.mpr ⟨hstarted, hall⟩) hok
      · exact absurd huse hno
    · exact absurd hret' hok

theorem actions_of_removes {a : Action Resource} (ha : a ∈ removes since65 ps) :
    ∃ p ∈ ps, a.on.probe = p.2 := by
  rw [removes_eq] at ha
  obtain ⟨x, hx, rfl⟩ := List.mem_map.mp ha
  obtain ⟨p, hp, hx⟩ := List.mem_flatMap.mp hx
  exact ⟨p, hp, (mem_releases.mp hx).1⟩

theorem WellFormed.removed_iff (ps : List (Device × Nat)) (hs : WellFormed since65 s)
    {dev : Device → Prop} (hdev : ∀ p, p ∈ ps ↔ p ∈ s.bound ∧ dev p.1)
    (hps : (ps.map Prod.snd).Nodup) (hactions : r.actions = removes since65 ps)
    (hheld : r.after.held = settle s.held (removes since65 ps)) :
    Removed s dev r ↔ ∀ p ∈ s.bound, dev p.1 → Removable since65 s p.2 := by
  have hsub : ∀ p ∈ ps, p ∈ s.bound := fun p hp => ((hdev p).mp hp).1
  have hforall : ∀ Q : Device × Nat → Prop, (∀ p ∈ s.bound, dev p.1 → Q p) ↔ ∀ p ∈ ps, Q p := by
    intro Q
    exact ⟨fun h p hp => h p ((hdev p).mp hp).1 ((hdev p).mp hp).2,
      fun h p hp hd => h p ((hdev p).mpr ⟨hp, hd⟩)⟩
  rw [hforall, ← hs.removes_iff hsub hps, Removed, hactions, hforall]
  unfold Released
  rw [hheld]
  constructor
  · rintro ⟨howned, -, hrel⟩
    exact ⟨howned, hrel⟩
  · rintro ⟨howned, hrel⟩
    refine ⟨howned, fun a ha => ?_, hrel⟩
    obtain ⟨p, hp, heq⟩ := actions_of_removes ha
    exact ⟨p, ((hdev p).mp hp).1, ((hdev p).mp hp).2, heq⟩

theorem register_eq_empty {drivers : Finset PlatformDriver} {ok : Bool} :
    platformDriverRegister (drivers.erase .cardPlatformDriver) .spatzPlatformDriver ok = ∅ ↔
      .spatzPlatformDriver ∉ drivers ∧ ok = false := by
  cases ok with
  | false =>
    show drivers.erase .cardPlatformDriver = ∅ ↔ _
    rw [Finset.eq_empty_iff_forall_notMem]
    constructor
    · intro h
      exact ⟨fun hspatz => h _ (Finset.mem_erase.mpr ⟨by decide, hspatz⟩), rfl⟩
    · rintro ⟨hspatz, -⟩ x hx
      obtain ⟨hne, hx⟩ := Finset.mem_erase.mp hx
      cases x with
      | cardPlatformDriver => exact hne rfl
      | spatzPlatformDriver => exact hspatz hx
  | true => simp [platformDriverRegister]

theorem Reports.balanced_iff (h : Reports since65 s r) (hs : WellFormed since65 s) :
    Balanced s r ↔ Clean since65 s r.event := by
  cases h with
  | init c => exact Iff.rfl
  | probe hd h => exact hs.probe_iff h
  | @remove p hp =>
    show Removed s (fun e => e = p.1) _ ↔ ∀ q ∈ s.bound, q.1 = p.1 → Removable since65 s q.2
    refine hs.removed_iff [p] (fun q => ?_) (List.nodup_singleton _) rfl rfl
    rw [List.mem_singleton]
    constructor
    · rintro rfl
      exact ⟨hp, rfl⟩
    · rintro ⟨hq, heq⟩
      exact List.inj_on_of_nodup_map hs.devices hq hp heq
  | exit ok =>
    have hremoved : Removed s (fun _ => True) ⟨.exit ok, removes since65 s.bound, .ok (),
        cardPlatformDriverCleanup since65 s ok⟩ ↔
        ∀ p ∈ s.bound, True → Removable since65 s p.2 :=
      hs.removed_iff s.bound (fun q => (and_iff_left trivial).symm) hs.probes rfl rfl
    have htotal : (cardPlatformDriverCleanup since65 s ok).totalDevices = 0 := by
      show s.totalDevices - s.bound.length = 0
      rw [hs.total, Int.sub_self]
    have hinit : CanInit (cardPlatformDriverCleanup since65 s ok) := ⟨rfl, rfl⟩
    show Removed s (fun _ => True) _ ∧ platformDriverRegister _ _ ok = ∅ ∧ _ ↔ _
    rw [hremoved, register_eq_empty]
    constructor
    · rintro ⟨hrem, hdrivers, -⟩
      exact ⟨fun p hp => hrem p hp trivial, hdrivers⟩
    · rintro ⟨hrem, hdrivers⟩
      exact ⟨fun p hp _ => hrem p hp, hdrivers, rfl, rfl, htotal, hinit⟩

/-- Over every run of the life cycle, all steps are balanced just if all of them are
clean. -/
theorem resource_balance_iff {tr : List (Module × Report)}
    (h : (lifecycle since65).Run .unloaded tr s) :
    (∀ p ∈ tr, Balanced p.1 p.2) ↔ ∀ p ∈ tr, Clean since65 p.1 p.2.event := by
  refine h.forall_iff (G := Balanced) (c := fun u e => Clean since65 u e.event)
    WellFormed.unloaded (fun hu hstep => step_wellFormed hstep hu) ?_
  intro u e v hu hstep
  exact (step_cases hstep).2.balanced_iff hu

def ProbeCalls.answers (granted : Bool) : ProbeCalls where
  devmKzallocDevData := true
  devmKzallocBuffer := true
  ofIrqGet := fun _ => true
  requestIrq := fun _ => granted
  gpioMem := true
  socCtrlMem := true
  ofFindSpatz := true
  iommuPresent := false
  iommuDomainAlloc := true
  iommuAttachDevice := .ok ()
  cdevAdd := .ok ()
  deviceCreate := .ok ()

def oneCycle (since65 granted spatz : Bool) : Option (List (Module × Report) × Module) :=
  Lts.replay (exec since65) .unloaded
    [.init ⟨.ok (), .ok (), spatz, true⟩, .probe 0 (.answers granted), .remove 0, .exit spatz]

theorem resource_balance_iff_oneCycle : ∃ tr s, oneCycle false false false = some (tr, s) ∧
    tr.length = 4 ∧ ∀ p ∈ tr, Balanced p.1 p.2 := by
  have hrun := Lts.replay_run (show oneCycle false false false = some _ from rfl)
  refine ⟨_, _, rfl, rfl, (resource_balance_iff hrun).mpr ?_⟩
  have hirq : ∀ i, (⟨0, .irq i⟩ : Resource) ∉
      ({⟨0, .device⟩, ⟨0, .cdev⟩} : Finset Resource) := by simp
  refine List.forall_mem_cons.mpr ⟨trivial, List.forall_mem_cons.mpr ⟨?_, ?_⟩⟩
  · exact fun _ => .inl ⟨fun huse => (by cases huse.1), rfl, rfl⟩
  · refine List.forall_mem_cons.mpr ⟨?_, List.forall_mem_cons.mpr ⟨?_, List.forall_mem_nil _⟩⟩
    · rintro p hp -
      obtain rfl := List.mem_singleton.mp hp
      exact ⟨hirq, fun hv => (by cases hv)⟩
    · exact ⟨List.forall_mem_nil _, by decide, rfl⟩

theorem resource_balance_violated : ∃ tr s, (lifecycle true).Run .unloaded tr s ∧
    (∃ p ∈ tr, p.2.event = .remove 0 ∧ ¬ Owned p.1.held p.2.actions ∧ ¬ Released p.2.after 0) ∧
    s.loaded = false ∧ s.drivers = {.spatzPlatformDriver} ∧ ¬ ∀ p ∈ tr, Balanced p.1 p.2 := by
  have hrun := Lts.replay_run (show oneCycle true true true = some _ from rfl)
  refine ⟨_, _, hrun, ⟨_, List.mem_cons_of_mem _ (List.mem_cons_of_mem _ List.mem_cons_self), rfl,
    ?_, ?_⟩, rfl, ?_, fun hall => ?_⟩
  · decide +kernel
  · decide +kernel
  · decide +kernel
  · have h := hall _ (List.mem_cons_of_mem _ (List.mem_cons_of_mem _ List.mem_cons_self))
    exact absurd h.1 (by decide +kernel)

end HeroTools.Driver.Lifecycle
