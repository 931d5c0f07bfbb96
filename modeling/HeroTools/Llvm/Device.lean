import HeroTools.Apps.Hero64
import HeroTools.Llvm.Preservation

/-! Legalized functions on the device, which has no instructions for host pointers: the
support functions they call are those of `hero_64.h`. -/

namespace HeroTools.Llvm
open Apps (Machine Width holding_mem)
variable {κ ω : Type}

/-! ## The device -/

/-- The registers of the device, and the machine in whose memory all of its pointers lead. -/
structure Device where
  regs : Reg → Option Nat
  machine : Machine

def uintWidth : Nat → Option Width
  | 8 => some .w8
  | 16 => some .w16
  | 32 => some .w32
  | 64 => some .w64
  | _ => none

def peek (m : Machine) (a : Nat) : Nat := (m.mem (m.mseg * 2 ^ 32 + a)).toNat

def poke (m : Machine) (a v : Nat) : Machine :=
  { m with mem := Function.update m.mem (m.mseg * 2 ^ 32 + a) (UInt8.ofNat v) }

def pokeLe (m : Machine) (w a v : Nat) : Nat → Machine
  | 0 => m
  | n + 1 => poke (pokeLe m w a v n) ((a + n) % 2 ^ w) (v / 256 ^ n % 256)

/-- What the instructions of the device work on: each address space is the one memory. -/
def Device.view (d : Device) : State := ⟨d.regs, fun _ => peek d.machine, []⟩

def Device.assign (d : Device) (dst : Option Reg) (v : Nat) : Device :=
  { d with regs := (d.view.assign dst v).regs }

def Device.store (dl : DataLayout) (d : Device) (as a N v : Nat) : Device :=
  let a := a % 2 ^ dl.pointerBits as
  { d with machine := pokeLe d.machine (dl.pointerBits as) a (v % 2 ^ N) ((N + 7) / 8) }

def Device.call (loc : Nat → Nat) (dst : Option Reg) (callee : String) (vs : List Nat)
    (d : Device) : Option Device :=
  match support callee, vs with
  | some (.load N), [a] => (uintWidth N).map fun w =>
    let (v, machine) := w.load loc (a % 2 ^ 64) d.machine
    Device.assign { d with machine := machine } dst v
  | some (.store N), [a, v] => (uintWidth N).map fun w =>
    { d with machine := w.store (a % 2 ^ 64) (v % 2 ^ N) d.machine }
  | _, _ => none

def Inst.throughHost (dl : DataLayout) : Inst κ ω → Bool
  | .load _ _ as _ => as == dl.HostAS
  | .store _ _ as _ => as == dl.HostAS
  | _ => false

def Device.exec (L : Lang κ ω) (loc : Nat → Nat) (d : Device) (i : Inst κ ω) : Option Device :=
  if i.throughHost L.dl then none
  else match i with
    | .call dst callee _ _ args => do
      let vs ← args.mapM (d.view.val L)
      d.call loc dst callee vs
    | .store ty val as ptr => do
      let v ← d.view.val L val
      let a ← d.view.val L ptr
      some (d.store L.dl as a (ty.bits L.dl) v)
    | i => (Llvm.exec L i d.view).map fun s => { d with regs := s.regs }

def Device.execBlock (L : Lang κ ω) (loc : Nat → Nat) (b : Block κ ω) (prev : Option Nat)
    (d : Device) : Option (Next × Device) := do
  let s ← execPhis L prev b.phis d.view
  let d ← b.insts.foldlM (Device.exec L loc) { d with regs := s.regs }
  let nx ← next L d.view b.term
  some (nx, d)

inductive Device.Outcome
  | illFormed
  | stuck
  | returned (v : Option Nat) (d : Device)
  | running (l : Nat) (prev : Option Nat) (d : Device)

def Device.run (L : Lang κ ω) (loc : Nat → Nat) (f : Func κ ω) :
    Nat → Nat → Option Nat → Device → Device.Outcome
  | 0, l, prev, d => .running l prev d
  | n + 1, l, prev, d =>
    match f.blocks[l]?.bind fun b => d.execBlock L loc b prev with
    | none => .stuck
    | some (.ret v, d) => .returned v d
    | some (.goto l', d) => d.run L loc f n l' (some l)

def Device.runFunc (L : Lang κ ω) (loc : Nat → Nat) (f : Func κ ω) (n : Nat)
    (vals : Reg → Nat) (m : Machine) : Device.Outcome :=
  if f.legal then Device.run L loc f n 0 none ⟨(f.enter vals fun _ => peek m).regs, m⟩
  else .illFormed

/-! ## One memory for all address spaces -/

/-- The memories of the address spaces in one: `owner` says whose each byte is. -/
def Shared (owner : Nat → Option Nat) (mem : Nat → Nat → Nat) (p : Nat → Nat) : Prop :=
  ∀ x as, owner x = some as → p x % 256 = mem as x % 256

section
variable {owner : Nat → Option Nat} {mem : Nat → Nat → Nat} {p : Nat → Nat} {m : Machine}
  {as w a n x : Nat}

theorem Shared.read (h : Shared owner mem p)
    (hown : ∀ k < n, owner ((a + k) % 2 ^ w) = some as) :
    readLe p w a n = readLe (mem as) w a n := by
  induction n with
  | zero => rfl
  | succ n ih =>
    rw [readLe, readLe, ih fun k hk => hown k (Nat.lt_succ_of_lt hk),
      h _ as (hown n (Nat.lt_succ_self n))]

theorem Shared.update (h : Shared owner mem p) (hown : owner x = some as) (v : Nat) :
    Shared owner (Function.update mem as (Function.update (mem as) x v))
      (Function.update p x v) := by
  intro y as' hy
  by_cases hyx : y = x
  · subst hyx
    obtain rfl := Option.some.inj (hown.symm.trans hy)
    rw [Function.update_self, Function.update_self, Function.update_self]
  · rw [Function.update_of_ne hyx, h y as' hy]
    by_cases has : as' = as
    · rw [has, Function.update_self, Function.update_of_ne hyx]
    · rw [Function.update_of_ne has]

theorem Shared.write (h : Shared owner mem p)
    (hown : ∀ k < n, owner ((a + k) % 2 ^ w) = some as) (v : Nat) :
    Shared owner (Function.update mem as (writeLe (mem as) w a v n)) (writeLe p w a v n) := by
  induction n with
  | zero => rwa [writeLe, writeLe, Function.update_eq_self]
  | succ n ih =>
    have hbyte := (ih fun k hk => hown k (Nat.lt_succ_of_lt hk)).update
      (hown n (Nat.lt_succ_self n)) (v / 256 ^ n % 256)
    rwa [Function.update_self, Function.update_idem] at hbyte

theorem pokeLe_mseg (m : Machine) (w a v n : Nat) : (pokeLe m w a v n).mseg = m.mseg := by
  induction n with
  | zero => rfl
  | succ n ih => exact ih

theorem peek_pokeLe (m : Machine) (w a v n : Nat) :
    peek (pokeLe m w a v n) = writeLe (peek m) w a v n := by
  induction n with
  | zero => rfl
  | succ n ih =>
    funext x
    rw [writeLe, ← ih]
    by_cases hx : x = (a + n) % 2 ^ w
    · rw [hx, Function.update_self]
      simp only [pokeLe, peek, poke, Function.update_self, UInt8.toNat_ofNat', Nat.mod_mod]
    · have hne : (pokeLe m w a v n).mseg * 2 ^ 32 + x ≠
          (pokeLe m w a v n).mseg * 2 ^ 32 + (a + n) % 2 ^ w :=
        fun heq => hx (Nat.add_left_cancel heq)
      rw [Function.update_of_ne hx]
      simp only [pokeLe, peek, poke, Function.update_of_ne hne]

section
variable (hseg : m.mseg = 0)
include hseg

theorem peek_apply (x : Nat) : peek m x = (m.mem x).toNat := by
  rw [peek, hseg, Nat.zero_mul, Nat.zero_add]

theorem read_peek (hreach : a + n ≤ 2 ^ 32) : readLe (peek m) 64 a n = loadLe m.mem a n := by
  induction n with
  | zero => rfl
  | succ n ih =>
    have hlt : a + n < 2 ^ 64 := by omega
    rw [readLe, ih (by omega), Nat.mod_eq_of_lt hlt, peek_apply hseg, loadLe, loadLe,
      leValue_succ, Nat.mul_comm (256 ^ n), Nat.mod_eq_of_lt (UInt8.toNat_lt _)]

theorem write_peek (hreach : a + n ≤ 2 ^ 32) (v : Nat) :
    peek (m.holding (storeLe m.mem a n v)) = writeLe (peek m) 64 a v n := by
  induction n with
  | zero =>
    funext x
    rw [peek_apply rfl, holding_mem, storeLe_outside (by omega), writeLe, peek_apply hseg]
  | succ n ih =>
    funext x
    have hlt : a + n < 2 ^ 64 := by omega
    rw [writeLe, Nat.mod_eq_of_lt hlt, ← ih (by omega), peek_apply rfl, holding_mem]
    by_cases hx : x = a + n
    · rw [hx, Function.update_self, storeLe_inside (Nat.lt_succ_self n)]
      exact UInt8.toNat_ofNat'
    · rw [Function.update_of_ne hx, peek_apply rfl, holding_mem]
      refine congrArg UInt8.toNat ?_
      by_cases hin : a ≤ x ∧ x < a + n
      · obtain ⟨k, rfl⟩ := Nat.exists_eq_add_of_le hin.1
        have hk : k < n := by omega
        exact (storeLe_inside (by omega)).trans (storeLe_inside hk).symm
      · exact (storeLe_outside (by omega)).trans (storeLe_outside (by omega)).symm

theorem Shared.stored {ss : List Stored} (h : Shared owner mem (peek m))
    (hfree : ∀ s ∈ ss, ∀ x, s.covers x → owner x = none) :
    Shared owner mem (peek (m.holding (ss.foldl Stored.apply m.mem))) := by
  intro x as hx
  rw [peek_apply rfl, holding_mem, Stored.foldl_apply, Stored.latest_eq_none, Option.getD_none,
    ← peek_apply hseg]
  · exact h x as hx
  · intro s hs
    by_contra hcov
    rw [Bool.not_eq_false] at hcov
    rw [hfree s hs x hcov] at hx
    cases hx

end
end

/-! ## In step -/

/-- The bytes belong to the address space. Those of the host lie where `hero_64.h` reaches,
which sets the upper half of every address to zero. -/
def Access.InPlace (dl : DataLayout) (owner : Nat → Option Nat) (x : Access) : Prop :=
  (∀ k < x.bytes, owner ((x.addr + k) % 2 ^ dl.pointerBits x.as) = some x.as) ∧
    (x.as = dl.HostAS → x.addr + x.bytes ≤ 2 ^ 32)

def State.InPlace (dl : DataLayout) (owner : Nat → Option Nat) (s : State) : Prop :=
  ∀ x ∈ s.trace, x.InPlace dl owner

instance (dl : DataLayout) (owner : Nat → Option Nat) (s : State) :
    Decidable (s.InPlace dl owner) :=
  inferInstanceAs (Decidable (∀ x ∈ s.trace,
    (∀ k < x.bytes, owner ((x.addr + k) % 2 ^ dl.pointerBits x.as) = some x.as) ∧
      (x.as = dl.HostAS → x.addr + x.bytes ≤ 2 ^ 32)))

/-- The local variables of the loads are no address space's. -/
def Spare (owner : Nat → Option Nat) (loc : Nat → Nat) : Prop :=
  ∀ i, ∀ k < 4, owner (loc i + k) = none

structure OnDevice (owner : Nat → Option Nat) (s : State) (d : Device) : Prop where
  regs : d.regs = s.regs
  mseg : d.machine.mseg = 0
  mem : Shared owner s.mem (peek d.machine)

theorem Spare.locals {owner : Nat → Option Nat} {loc : Nat → Nat} (h : Spare owner loc) (w : Width)
    (addr : Nat) (mem : Nat → UInt8) :
    ∀ s ∈ w.locals loc addr mem, ∀ x, s.covers x → owner x = none := by
  have hcov (i x n v : Nat) (hn : n ≤ 4) (hx : Stored.covers ⟨loc i, n, v⟩ x) : owner x = none := by
    simp only [Stored.covers, Bool.and_eq_true, decide_eq_true_eq] at hx
    obtain ⟨k, rfl⟩ := Nat.exists_eq_add_of_le hx.1
    exact h i k (by omega)
  intro s hs x hx
  cases w with
  | w64 =>
    rcases List.mem_pair.mp hs with rfl | rfl
    · exact hcov 0 x 4 _ le_rfl hx
    · exact hcov 1 x 4 _ le_rfl hx
  | w32 | w16 | w8 =>
    obtain rfl := List.mem_singleton.mp hs
    exact hcov 0 x _ _ (by decide) hx

theorem Spare.apart {owner : Nat → Option Nat} {loc : Nat → Nat} (h : Spare owner loc) {w : Width}
    {addr as : Nat} (hown : ∀ k < w.bytes, owner (addr + k) = some as) :
    w.Apart addr (loc 0) := by
  rintro rfl
  by_contra hne
  obtain ⟨h₁, h₂⟩ := not_or.mp hne
  -- the local variable would start inside the bytes that are loaded
  obtain ⟨k, hk⟩ := Nat.exists_eq_add_of_le (show addr ≤ loc 0 by omega)
  have hnone := h 0 0 (by norm_num)
  rw [Nat.add_zero, hk, hown k (show k < 8 by omega)] at hnone
  cases hnone

section
variable {L : Lang κ ω} {owner : Nat → Option Nat} {loc : Nat → Nat} {s s' : State} {d : Device}
  {i : Inst κ ω}

theorem uintWidth_bytes {N : Nat} {w : Width} (h : uintWidth N = some w) :
    (N + 7) / 8 = w.bytes ∧ 256 ^ w.bytes = 2 ^ N := by
  unfold uintWidth at h
  split at h
  case h_5 => exact nomatch h
  all_goals
    obtain rfl := Option.some.inj h
    exact ⟨rfl, rfl⟩

theorem support_uintWidth {callee : String} {N : Nat}
    (h : support callee = some (.load N) ∨ support callee = some (.store N)) :
    ∃ w, uintWidth N = some w := by
  have hmem : N ∈ supportWidths := by
    unfold support at h
    rcases h with h | h
    all_goals
      obtain ⟨N', hN', h⟩ := List.exists_of_findSome?_eq_some h
      split_ifs at h <;> cases h
      exact hN'
  simp only [supportWidths, List.mem_cons, List.not_mem_nil, or_false] at hmem
  rcases hmem with rfl | rfl | rfl | rfl
  · exact ⟨_, rfl⟩
  · exact ⟨_, rfl⟩
  · exact ⟨_, rfl⟩
  · exact ⟨_, rfl⟩

theorem OnDevice.val (h : OnDevice owner s d) : d.view.val L = s.val L := by
  funext o
  cases o with
  | reg r => exact congrFun h.regs r
  | const c => rfl

theorem OnDevice.assign (h : OnDevice owner s d) (dst : Option Reg) (v : Nat) :
    OnDevice owner (s.assign dst v) (d.assign dst v) := by
  cases dst with
  | none => exact h
  | some r =>
    have hregs := congrArg (fun regs => Function.update regs r (some v)) h.regs
    exact ⟨hregs, h.mseg, h.mem⟩

theorem State.InPlace.last {t : List Access} {x : Access} {regs : Reg → Option Nat}
    {mem : Nat → Nat → Nat} {dl : DataLayout} (h : State.InPlace dl owner ⟨regs, mem, t ++ [x]⟩) :
    x.InPlace dl owner :=
  h x (List.mem_append_right t (List.mem_singleton_self x))

theorem Access.InPlace.host {dl : DataLayout} (hdl : dl.Hero) {kind : AccessKind} {N a v : Nat}
    {w : Width} (hw : uintWidth N = some w)
    (h : Access.InPlace dl owner ⟨kind, dl.HostAS, a, (N + 7) / 8, v⟩) :
    a + w.bytes ≤ 2 ^ 32 ∧ ∀ k < w.bytes, owner (a + k) = some dl.HostAS := by
  obtain ⟨hbytes, -⟩ := uintWidth_bytes hw
  obtain ⟨hown, hreach⟩ := h
  have hreach := hreach rfl
  dsimp only at hown hreach
  rw [hbytes] at hown hreach
  refine ⟨hreach, fun k hk => ?_⟩
  rw [← hown k hk, hdl.host, Nat.mod_eq_of_lt (by omega)]

theorem OnDevice.load_host (hdl : L.dl.Hero) (hloc : Spare owner loc) (h : OnDevice owner s d)
    {a N : Nat} {w : Width} (hw : uintWidth N = some w)
    (hplace : (s.load L.dl L.dl.HostAS a N).2.InPlace L.dl owner) :
    (w.load loc (a % 2 ^ 64) d.machine).1 = (s.load L.dl L.dl.HostAS a N).1 ∧
      OnDevice owner (s.load L.dl L.dl.HostAS a N).2
        { d with machine := (w.load loc (a % 2 ^ 64) d.machine).2 } := by
  obtain ⟨hbytes, hpow⟩ := uintWidth_bytes hw
  have hlast : Access.InPlace L.dl owner ⟨.read, _, _, (N + 7) / 8, _⟩ := hplace.last
  obtain ⟨hreach, hown⟩ := hlast.host hdl hw
  rw [hdl.host] at hreach hown
  rw [Width.load_eq hreach _ (hloc.apart hown)]
  refine ⟨?_, h.regs, rfl, h.mem.stored h.mseg (hloc.locals w _ _)⟩
  have hread : readLe (peek d.machine) 64 (a % 2 ^ 64) w.bytes =
      readLe (s.mem L.dl.HostAS) 64 (a % 2 ^ 64) w.bytes := by
    refine h.mem.read fun k hk => ?_
    rw [Nat.mod_eq_of_lt (by omega)]
    exact hown k hk
  unfold State.load
  dsimp only
  rw [hdl.host, hbytes, ← hread, read_peek h.mseg hreach, ← hpow,
    Nat.mod_eq_of_lt (loadLe_lt _ _ _)]

theorem OnDevice.store_host (hdl : L.dl.Hero) (h : OnDevice owner s d) {a v N : Nat} {w : Width}
    (hw : uintWidth N = some w)
    (hplace : (s.store L.dl L.dl.HostAS a N v).InPlace L.dl owner) :
    OnDevice owner (s.store L.dl L.dl.HostAS a N v)
      { d with machine := w.store (a % 2 ^ 64) (v % 2 ^ N) d.machine } := by
  obtain ⟨hbytes, -⟩ := uintWidth_bytes hw
  have hlast : Access.InPlace L.dl owner ⟨.write, _, _, (N + 7) / 8, _⟩ := hplace.last
  obtain ⟨hreach, hown⟩ := hlast.host hdl hw
  rw [hdl.host] at hreach hown
  rw [Width.store_eq hreach]
  refine ⟨h.regs, rfl, ?_⟩
  unfold State.store
  dsimp only
  rw [hdl.host, hbytes, write_peek h.mseg hreach]
  refine h.mem.write (fun k hk => ?_) _
  rw [Nat.mod_eq_of_lt (by omega)]
  exact hown k hk

theorem OnDevice.call (hdl : L.dl.Hero) (hloc : Spare owner loc) (h : OnDevice owner s d)
    {dst : Option Reg} {callee : String} {vs : List Nat}
    (hs : execCall L dst callee vs s = some s') (hplace : s'.InPlace L.dl owner) :
    ∃ d', d.call loc dst callee vs = some d' ∧ OnDevice owner s' d' := by
  unfold execCall at hs
  split at hs
  · next N a hsup =>
    obtain ⟨w, hw⟩ := support_uintWidth (.inl hsup)
    obtain rfl := Option.some.inj hs
    have hload : (s.load L.dl L.dl.HostAS a N).2.InPlace L.dl owner := by
      cases dst <;> exact hplace
    obtain ⟨hval, hdev⟩ := h.load_host hdl hloc hw hload
    refine ⟨_, ?_, hdev.assign dst _⟩
    simp only [Device.call, hsup, hw, Option.map_some, hval]
    rfl
  · next N a v hsup =>
    obtain ⟨w, hw⟩ := support_uintWidth (.inr hsup)
    obtain rfl := Option.some.inj hs
    refine ⟨_, ?_, h.store_host hdl hw hplace⟩
    simp only [Device.call, hsup, hw, Option.map_some]
  · cases hs

theorem OnDevice.load_native (h : OnDevice owner s d) {as a N : Nat}
    (hplace : (s.load L.dl as a N).2.InPlace L.dl owner) :
    (d.view.load L.dl as a N).1 = (s.load L.dl as a N).1 ∧
      OnDevice owner (s.load L.dl as a N).2 d := by
  refine ⟨?_, h.regs, h.mseg, h.mem⟩
  unfold State.load
  dsimp only [Device.view]
  rw [h.mem.read hplace.last.1]

theorem OnDevice.store_native (h : OnDevice owner s d) {as a N v : Nat}
    (hplace : (s.store L.dl as a N v).InPlace L.dl owner) :
    OnDevice owner (s.store L.dl as a N v) (d.store L.dl as a N v) := by
  unfold Device.store State.store
  refine ⟨h.regs, (pokeLe_mseg ..).trans h.mseg, ?_⟩
  dsimp only
  rw [peek_pokeLe]
  exact h.mem.write hplace.last.1 _

theorem OnDevice.exec (hdl : L.dl.Hero) (hloc : Spare owner loc) (h : OnDevice owner s d)
    (hi : i.throughHost L.dl = false) (hs : Llvm.exec L i s = some s')
    (hplace : s'.InPlace L.dl owner) :
    ∃ d', d.exec L loc i = some d' ∧ OnDevice owner s' d' := by
  have hval := h.val (L := L)
  unfold Device.exec
  rw [hi, if_neg Bool.false_ne_true]
  cases i with
  | load dst ty as ptr =>
    simp only [Llvm.exec, Option.bind_eq_bind, Option.bind_eq_some_iff, hval] at hs ⊢
    obtain ⟨a, ha, hs⟩ := hs
    obtain rfl := Option.some.inj hs
    obtain ⟨hload, hdev⟩ := h.load_native hplace
    refine ⟨_, by rw [ha, Option.bind_some, hload]; rfl, ?_⟩
    exact hdev.assign (some dst) _
  | store ty val as ptr =>
    simp only [Llvm.exec, Option.bind_eq_bind, Option.bind_eq_some_iff, hval] at hs ⊢
    obtain ⟨v, hv, a, ha, hs⟩ := hs
    obtain rfl := Option.some.inj hs
    exact ⟨_, ⟨v, hv, a, ha, rfl⟩, h.store_native hplace⟩
  | cast dst op srcTy dstTy val =>
    simp only [Llvm.exec, Option.bind_eq_bind, Option.bind_eq_some_iff, hval] at hs ⊢
    obtain ⟨v, hv, hs⟩ := hs
    obtain rfl := Option.some.inj hs
    exact ⟨_, by rw [hv]; rfl, h.assign (some dst) _⟩
  | call dst callee ret params args =>
    simp only [Llvm.exec, Option.bind_eq_bind, Option.bind_eq_some_iff, hval] at hs ⊢
    obtain ⟨vs, hvs, hs⟩ := hs
    obtain ⟨d', hd, hdev⟩ := h.call hdl hloc hs hplace
    exact ⟨d', ⟨vs, hvs, hd⟩, hdev⟩
  -- an intrinsic that was not expanded does not run
  | mem dst kind ass ops => cases hs
  | other dst op ops =>
    simp only [Llvm.exec, Option.bind_eq_bind, Option.bind_eq_some_iff, hval] at hs ⊢
    obtain ⟨vs, hvs, v, hv, hs⟩ := hs
    obtain rfl := Option.some.inj hs
    exact ⟨_, by rw [hvs, Option.bind_some, hv]; rfl, h.assign dst _⟩

/-! ## The trace only grows -/

theorem State.InPlace.earlier (h : s'.InPlace L.dl owner) (hpre : s.trace <+: s'.trace) :
    s.InPlace L.dl owner := fun x hx => h x (hpre.mem hx)

theorem State.trace_assign (s : State) (dst : Option Reg) (v : Nat) :
    (s.assign dst v).trace = s.trace := by
  cases dst <;> rfl

theorem exec_trace (hs : Llvm.exec L i s = some s') : s.trace <+: s'.trace := by
  cases i with
  | load dst ty as ptr =>
    simp only [Llvm.exec, Option.bind_eq_bind, Option.bind_eq_some_iff] at hs
    obtain ⟨a, -, hs⟩ := hs
    obtain rfl := Option.some.inj hs
    exact List.prefix_append ..
  | store ty val as ptr =>
    simp only [Llvm.exec, Option.bind_eq_bind, Option.bind_eq_some_iff] at hs
    obtain ⟨v, -, a, -, hs⟩ := hs
    obtain rfl := Option.some.inj hs
    exact List.prefix_append ..
  | cast dst op srcTy dstTy val =>
    simp only [Llvm.exec, Option.bind_eq_bind, Option.bind_eq_some_iff] at hs
    obtain ⟨v, -, hs⟩ := hs
    obtain rfl := Option.some.inj hs
    exact List.prefix_refl _
  | call dst callee ret params args =>
    simp only [Llvm.exec, Option.bind_eq_bind, Option.bind_eq_some_iff] at hs
    obtain ⟨vs, -, hs⟩ := hs
    unfold execCall at hs
    split at hs
    · obtain rfl := Option.some.inj hs
      rw [State.trace_assign]
      exact List.prefix_append ..
    · obtain rfl := Option.some.inj hs
      exact List.prefix_append ..
    · cases hs
  | mem dst kind ass ops => cases hs
  | other dst op ops =>
    simp only [Llvm.exec, Option.bind_eq_bind, Option.bind_eq_some_iff] at hs
    obtain ⟨vs, -, v, -, hs⟩ := hs
    obtain rfl := Option.some.inj hs
    rw [State.trace_assign]

theorem execInsts_trace {is : List (Inst κ ω)} (hs : execInsts L is s = some s') :
    s.trace <+: s'.trace := by
  induction is generalizing s with
  | nil => exact Option.some.inj hs ▸ List.prefix_refl _
  | cons i is ih =>
    obtain ⟨t, ht, hs⟩ := Option.bind_eq_some_iff.mp hs
    exact (exec_trace ht).trans (ih hs)

/-! ## Blocks and runs -/

theorem OnDevice.execInsts (hdl : L.dl.Hero) (hloc : Spare owner loc)
    (h : OnDevice owner s d) {is : List (Inst κ ω)}
    (his : ∀ i ∈ is, i.throughHost L.dl = false) (hs : execInsts L is s = some s')
    (hplace : s'.InPlace L.dl owner) :
    ∃ d', is.foldlM (Device.exec L loc) d = some d' ∧ OnDevice owner s' d' := by
  induction is generalizing s d with
  | nil => exact ⟨d, rfl, Option.some.inj hs ▸ h⟩
  | cons i is ih =>
    obtain ⟨t, ht, hs⟩ := Option.bind_eq_some_iff.mp hs
    obtain ⟨d', hd', hdev⟩ := h.exec hdl hloc (his i List.mem_cons_self) ht
      (hplace.earlier (execInsts_trace hs))
    obtain ⟨d'', hd'', hdev⟩ := ih hdev (fun j hj => his j (List.mem_cons_of_mem _ hj)) hs
    exact ⟨d'', by rw [List.foldlM_cons, hd']; exact hd'', hdev⟩

theorem foldl_set_trace (l : List (Phi κ × Nat)) (s : State) :
    (l.foldl (fun s pv => s.set pv.1.dst pv.2) s).trace = s.trace := by
  induction l generalizing s with
  | nil => rfl
  | cons pv l ih => exact ih _

theorem OnDevice.foldl_set {t : State} (h : OnDevice owner s { d with regs := t.regs })
    (l : List (Phi κ × Nat)) :
    OnDevice owner (l.foldl (fun s pv => s.set pv.1.dst pv.2) s)
      { d with regs := (l.foldl (fun s pv => s.set pv.1.dst pv.2) t).regs } := by
  induction l generalizing s t with
  | nil => exact h
  | cons pv l ih => exact ih (t := t.set pv.1.dst pv.2) (h.assign (some pv.1.dst) pv.2)

theorem OnDevice.execPhis (h : OnDevice owner s d) {prev : Option Nat} {phis : List (Phi κ)}
    (hs : execPhis L prev phis s = some s') :
    ∃ t, Llvm.execPhis L prev phis d.view = some t ∧
      OnDevice owner s' { d with regs := t.regs } := by
  have hphi : phiValue L prev d.view = phiValue L prev s := by
    funext p
    simp only [phiValue, h.val]
  simp only [Llvm.execPhis, Option.bind_eq_bind, Option.bind_eq_some_iff, hphi] at hs ⊢
  obtain ⟨vs, hvs, hs⟩ := hs
  obtain rfl := Option.some.inj hs
  exact ⟨_, ⟨vs, hvs, rfl⟩, h.foldl_set (t := d.view) _⟩

theorem execBlock_trace {b : Block κ ω} {prev : Option Nat} {nx : Next}
    (hs : Llvm.execBlock L b prev s = some (nx, s')) : s.trace <+: s'.trace := by
  simp only [Llvm.execBlock, Option.bind_eq_bind, Option.bind_eq_some_iff] at hs
  obtain ⟨s₁, h₁, s₂, h₂, nx', -, hs⟩ := hs
  obtain ⟨rfl, rfl⟩ := Prod.mk.inj (Option.some.inj hs)
  simp only [Llvm.execPhis, Option.bind_eq_bind, Option.bind_eq_some_iff] at h₁
  obtain ⟨vs, -, h₁⟩ := h₁
  obtain rfl := Option.some.inj h₁
  rw [← foldl_set_trace (b.phis.zip vs) s]
  exact execInsts_trace h₂

theorem OnDevice.execBlock (hdl : L.dl.Hero) (hloc : Spare owner loc)
    (h : OnDevice owner s d) {b : Block κ ω}
    (hb : ∀ i ∈ b.insts, i.throughHost L.dl = false) {prev : Option Nat} {nx : Next}
    (hs : Llvm.execBlock L b prev s = some (nx, s')) (hplace : s'.InPlace L.dl owner) :
    ∃ d', d.execBlock L loc b prev = some (nx, d') ∧ OnDevice owner s' d' := by
  simp only [Llvm.execBlock, Option.bind_eq_bind, Option.bind_eq_some_iff] at hs
  obtain ⟨s₁, h₁, s₂, h₂, nx', hnx, hs⟩ := hs
  obtain ⟨rfl, rfl⟩ := Prod.mk.inj (Option.some.inj hs)
  obtain ⟨t, ht, hdev⟩ := h.execPhis h₁
  obtain ⟨d', hd', hdev'⟩ := hdev.execInsts hdl hloc hb h₂ hplace
  have hnext : next L d'.view b.term = next L s₂ b.term := by
    unfold next
    rw [hdev'.val]
  refine ⟨d', ?_, hdev'⟩
  simp only [Device.execBlock, Option.bind_eq_bind, ht, Option.bind_some, hd', hnext, hnx]

def Outcome.InPlace (dl : DataLayout) (owner : Nat → Option Nat) : Outcome → Prop
  | .returned _ s => s.InPlace dl owner
  | .running _ _ s => s.InPlace dl owner
  | _ => False

instance (dl : DataLayout) (owner : Nat → Option Nat) :
    (x : Outcome) → Decidable (x.InPlace dl owner)
  | .returned _ s => inferInstanceAs (Decidable (s.InPlace dl owner))
  | .running _ _ s => inferInstanceAs (Decidable (s.InPlace dl owner))
  | .illFormed => .isFalse id
  | .stuck => .isFalse id

inductive Device.Outcome.Rel (R : State → Device → Prop) : Llvm.Outcome → Device.Outcome → Prop
  | returned {v s d} : R s d → Device.Outcome.Rel R (.returned v s) (.returned v d)
  | running {l prev s d} : R s d → Device.Outcome.Rel R (.running l prev s) (.running l prev d)

theorem Outcome.InPlace.start {f : Func κ ω} {n l : Nat} {prev : Option Nat}
    (h : (run L f n l prev s).InPlace L.dl owner) : s.InPlace L.dl owner := by
  induction n generalizing l prev s with
  | zero => exact h
  | succ n ih =>
    rw [run] at h
    split at h
    · exact h.elim
    · next v s' heq =>
      obtain ⟨b, -, hb⟩ := Option.bind_eq_some_iff.mp heq
      exact State.InPlace.earlier h (execBlock_trace hb)
    · next l' s' heq =>
      obtain ⟨b, -, hb⟩ := Option.bind_eq_some_iff.mp heq
      exact (ih h).earlier (execBlock_trace hb)

theorem OnDevice.run (hdl : L.dl.Hero) (hloc : Spare owner loc) {f : Func κ ω}
    (hf : ∀ i ∈ f.insts, i.throughHost L.dl = false) {n l : Nat} {prev : Option Nat}
    (h : OnDevice owner s d) (hplace : (Llvm.run L f n l prev s).InPlace L.dl owner) :
    Device.Outcome.Rel (OnDevice owner) (Llvm.run L f n l prev s) (d.run L loc f n l prev) := by
  induction n generalizing l prev s d with
  | zero => exact .running h
  | succ n ih =>
    rw [Llvm.run] at hplace ⊢
    rw [Device.run]
    split at hplace
    · exact hplace.elim
    · next v s' heq =>
      obtain ⟨b, hb, hexec⟩ := Option.bind_eq_some_iff.mp heq
      have hinsts : ∀ i ∈ b.insts, i.throughHost L.dl = false := fun i hi =>
        hf i (List.mem_flatMap.mpr ⟨b, List.mem_of_getElem? hb, hi⟩)
      obtain ⟨d', hd', hdev⟩ := h.execBlock hdl hloc hinsts hexec hplace
      rw [hb, Option.bind_some, hd']
      exact .returned hdev
    · next l' s' heq =>
      obtain ⟨b, hb, hexec⟩ := Option.bind_eq_some_iff.mp heq
      have hinsts : ∀ i ∈ b.insts, i.throughHost L.dl = false := fun i hi =>
        hf i (List.mem_flatMap.mpr ⟨b, List.mem_of_getElem? hb, hi⟩)
      obtain ⟨d', hd', hdev⟩ := h.execBlock hdl hloc hinsts hexec
        (Outcome.InPlace.start hplace)
      rw [hb, Option.bind_some, hd']
      exact ih hdev hplace

end

/-! ## Legalized functions -/

end HeroTools.Llvm
