import HeroTools.Lib.LittleEndian

/-! `hero_64.h`: loads and stores at 64-bit addresses out of the 32-bit instructions of the
device. -/

namespace HeroTools.Apps

/-! ## The device -/

inductive LoadInstr
  | lb | lh | lw | lbu | lhu
deriving DecidableEq, Repr

inductive StoreInstr
  | sb | sh | sw
deriving DecidableEq, Repr

def LoadInstr.assemble : List Char → Option LoadInstr
  | ['l', 'b'] => some lb
  | ['l', 'h'] => some lh
  | ['l', 'w'] => some lw
  | ['l', 'b', 'u'] => some lbu
  | ['l', 'h', 'u'] => some lhu
  | _ => none

def StoreInstr.assemble : List Char → Option StoreInstr
  | ['s', 'b'] => some sb
  | ['s', 'h'] => some sh
  | ['s', 'w'] => some sw
  | _ => none

/-- The memory, and the control registers that the assembly blocks use: `0xbc0` holds the upper
half of every address, `0x300` is `mstatus`. -/
structure Machine where
  mem : Nat → UInt8
  mseg : Nat
  mstatus : Nat

def signExtend (bits v : Nat) : Nat := if v < 2 ^ (bits - 1) then v else v + 2 ^ 32 - 2 ^ bits

namespace Machine

def csrrciMstatus (m : Machine) : Nat × Machine :=
  (m.mstatus, { m with mstatus := m.mstatus &&& 0xfffffffc })

def csrwMstatus (mstatus : Nat) (m : Machine) : Machine := { m with mstatus := mstatus }

def csrwMsegZero (m : Machine) : Machine := { m with mseg := 0 }

def load (m : Machine) (lower : Nat) : LoadInstr → Nat
  | .lb => signExtend 8 (loadLe m.mem (m.mseg * 2 ^ 32 + lower) 1)
  | .lh => signExtend 16 (loadLe m.mem (m.mseg * 2 ^ 32 + lower) 2)
  | .lw => loadLe m.mem (m.mseg * 2 ^ 32 + lower) 4
  | .lbu => loadLe m.mem (m.mseg * 2 ^ 32 + lower) 1
  | .lhu => loadLe m.mem (m.mseg * 2 ^ 32 + lower) 2

def store (m : Machine) (lower val : Nat) : StoreInstr → Machine
  | .sb => { m with mem := storeLe m.mem (m.mseg * 2 ^ 32 + lower) 1 val }
  | .sh => { m with mem := storeLe m.mem (m.mseg * 2 ^ 32 + lower) 2 val }
  | .sw => { m with mem := storeLe m.mem (m.mseg * 2 ^ 32 + lower) 4 val }

end Machine

/-! ## The macros -/

inductive Bits
  | b32 | b16 | b8
deriving DecidableEq, Repr

def Bits.bytes : Bits → Nat
  | b32 => 4
  | b16 => 2
  | b8 => 1

inductive CInt
  | uint | int
deriving DecidableEq, Repr

def lower32 (dw : Nat) : Nat := dw % 2 ^ 32

def CInt.opSuffix : CInt → List Char
  | uint => ['u']
  | int => []

def opSuffix (type : CInt) : Bits → List Char
  | .b32 => ['w']
  | .b16 => 'h' :: type.opSuffix
  | .b8 => 'b' :: type.opSuffix

def loadInstr (bits : Bits) : LoadInstr :=
  (LoadInstr.assemble ('l' :: opSuffix .uint bits)).get (by cases bits <;> rfl)

def storeInstr (bits : Bits) : StoreInstr :=
  (StoreInstr.assemble ('s' :: opSuffix .int bits)).get (by cases bits <;> rfl)

/-- `__hero_64_define_load_noblock`. The result goes to `val`, a native pointer of the device:
with the upper half zero, this leads into the same memory. The upper half of `addr` is computed
and not used. -/
def heroLoadNoblock (bits : Bits) (addr val : Nat) (m : Machine) : Nat × Machine :=
  let lower := lower32 addr
  let (mstatus, m) := m.csrrciMstatus
  let m := m.csrwMsegZero
  let reg := m.load lower (loadInstr bits)
  let m := m.csrwMsegZero
  let m := m.csrwMstatus mstatus
  let m := m.store val reg (storeInstr bits)
  (0, m)

/-- `__hero_64_define_store_noblock`. -/
def heroStoreNoblock (bits : Bits) (addr val : Nat) (m : Machine) : Nat × Machine :=
  let lower := lower32 addr
  let (mstatus, m) := m.csrrciMstatus
  let m := m.csrwMsegZero
  let m := m.store lower val (storeInstr bits)
  let m := m.csrwMsegZero
  let m := m.csrwMstatus mstatus
  (0, m)

/-- `__hero_64_define_load`, whose local variable lies at `loc`. -/
def heroLoad (bits : Bits) (loc addr : Nat) (m : Machine) : Nat × Machine :=
  let (_, m) := heroLoadNoblock bits addr loc m
  (m.load loc (loadInstr bits), m)

def heroStore (bits : Bits) (addr val : Nat) (m : Machine) : Machine :=
  (heroStoreNoblock bits addr val m).2

abbrev heroLoadUint32Noblock := heroLoadNoblock .b32
abbrev heroLoadUint16Noblock := heroLoadNoblock .b16
abbrev heroLoadUint8Noblock := heroLoadNoblock .b8
abbrev heroStoreUint32Noblock := heroStoreNoblock .b32
abbrev heroStoreUint16Noblock := heroStoreNoblock .b16
abbrev heroStoreUint8Noblock := heroStoreNoblock .b8
abbrev heroLoadUint32 := heroLoad .b32
abbrev heroLoadUint16 := heroLoad .b16
abbrev heroLoadUint8 := heroLoad .b8
abbrev heroStoreUint32 := heroStore .b32
abbrev heroStoreUint16 := heroStore .b16
abbrev heroStoreUint8 := heroStore .b8

/-! ## 64 bits -/

/-- The local variables of the two loads lie at `loc 0` and `loc 1`. -/
def heroLoadUint64 (loc : Nat → Nat) (addr : Nat) (m : Machine) : Nat × Machine :=
  let (lower, m) := heroLoadUint32 (loc 0) addr m
  let (upper, m) := heroLoadUint32 (loc 1) ((addr + 4) % 2 ^ 64) m
  (upper <<< 32 ||| lower, m)

def heroStoreUint64 (addr val : Nat) (m : Machine) : Machine :=
  let lower := val % 2 ^ 32
  let m := heroStoreUint32 addr lower m
  let upper := (val >>> 32) % 2 ^ 32
  heroStoreUint32 ((addr + 4) % 2 ^ 64) upper m

def heroLoadUint64Noblock (addr val : Nat) (m : Machine) : Nat × Machine :=
  let lower := val
  let (resLower, m) := heroLoadUint32Noblock addr lower m
  let upper := lower32 (lower + 4)
  let (resUpper, m) := heroLoadUint32Noblock ((addr + 4) % 2 ^ 64) upper m
  (resLower ||| resUpper, m)

def heroStoreUint64Noblock (addr val : Nat) (m : Machine) : Nat × Machine :=
  let lower := val % 2 ^ 32
  let (resLower, m) := heroStoreUint32Noblock addr lower m
  let upper := (val >>> 32) % 2 ^ 32
  let (resUpper, m) := heroStoreUint32Noblock ((addr + 4) % 2 ^ 64) upper m
  (resLower ||| resUpper, m)

/-! ## What one call does -/

def Machine.holding (m : Machine) (mem : Nat → UInt8) : Machine := { m with mem := mem, mseg := 0 }

section
variable {bits : Bits} {addr val loc : Nat} {m : Machine}

@[simp] theorem holding_mem (m : Machine) (mem : Nat → UInt8) : (m.holding mem).mem = mem := rfl

@[simp] theorem holding_holding (m : Machine) (mem mem' : Nat → UInt8) :
    (m.holding mem).holding mem' = m.holding mem' := rfl

theorem loadInstr_eq (hseg : m.mseg = 0) (lower : Nat) :
    m.load lower (loadInstr bits) = loadLe m.mem lower bits.bytes := by
  cases bits <;> simp only [loadInstr, opSuffix, CInt.opSuffix, LoadInstr.assemble,
    Option.get_some, Machine.load, hseg, Nat.zero_mul, Nat.zero_add, Bits.bytes]

theorem storeInstr_eq (hseg : m.mseg = 0) (lower val : Nat) :
    m.store lower val (storeInstr bits) = m.holding (storeLe m.mem lower bits.bytes val) := by
  cases bits <;> simp only [storeInstr, opSuffix, CInt.opSuffix, StoreInstr.assemble,
    Option.get_some, Machine.store, Machine.holding, hseg, Nat.zero_mul, Nat.zero_add, Bits.bytes]

theorem lower32_eq (h : addr + bits.bytes ≤ 2 ^ 32) : lower32 addr = addr := by
  have hpos : 0 < bits.bytes := by cases bits <;> decide
  exact Nat.mod_eq_of_lt (by omega)

theorem heroLoadNoblock_eq (h : addr + bits.bytes ≤ 2 ^ 32) :
    heroLoadNoblock bits addr val m =
      (0, m.holding (storeLe m.mem val bits.bytes (loadLe m.mem addr bits.bytes))) := by
  simp only [heroLoadNoblock, lower32_eq h]
  rw [loadInstr_eq rfl, storeInstr_eq rfl]
  rfl

theorem heroStoreNoblock_eq (h : addr + bits.bytes ≤ 2 ^ 32) :
    heroStoreNoblock bits addr val m =
      (0, m.holding (storeLe m.mem addr bits.bytes val)) := by
  simp only [heroStoreNoblock, lower32_eq h]
  rw [storeInstr_eq rfl]
  rfl

theorem heroLoad_eq (h : addr + bits.bytes ≤ 2 ^ 32) :
    heroLoad bits loc addr m = (loadLe m.mem addr bits.bytes,
      m.holding (storeLe m.mem loc bits.bytes (loadLe m.mem addr bits.bytes))) := by
  simp only [heroLoad, heroLoadNoblock_eq h]
  rw [loadInstr_eq rfl, holding_mem, load_storeLe, Nat.mod_eq_of_lt (loadLe_lt _ _ _)]

theorem heroStore_eq (h : addr + bits.bytes ≤ 2 ^ 32) :
    heroStore bits addr val m = m.holding (storeLe m.mem addr bits.bytes val) :=
  congrArg Prod.snd (heroStoreNoblock_eq h)

theorem next_word (h : addr + 8 ≤ 2 ^ 32) :
    (addr + 4) % 2 ^ 64 = addr + 4 ∧ addr + Bits.b32.bytes ≤ 2 ^ 32 ∧
      addr + 4 + Bits.b32.bytes ≤ 2 ^ 32 := by
  refine ⟨Nat.mod_eq_of_lt (by omega), ?_, h⟩
  exact (Nat.add_le_add_left (by decide) addr).trans h

/-- The upper word at `addr` is not touched when the lower one is passed back at `p`. -/
def UpperApart (addr p : Nat) : Prop := addr + 8 ≤ p ∨ p + 4 ≤ addr + 4

instance (addr p : Nat) : Decidable (UpperApart addr p) :=
  inferInstanceAs (Decidable (addr + 8 ≤ p ∨ p + 4 ≤ addr + 4))

theorem UpperApart.load (h : UpperApart addr val) (mem : Nat → UInt8) (v : Nat) :
    loadLe (storeLe mem val 4 v) (addr + 4) 4 = loadLe mem (addr + 4) 4 :=
  load_storeLe_of_disjoint h

theorem load_halves (mem : Nat → UInt8) (addr : Nat) :
    loadLe mem (addr + 4) 4 <<< 32 ||| loadLe mem addr 4 = loadLe mem addr 8 := by
  have hlt : loadLe mem addr 4 < 2 ^ 32 := loadLe_lt mem addr 4
  have hsplit : loadLe mem addr 8 = loadLe mem addr 4 + 256 ^ 4 * loadLe mem (addr + 4) 4 :=
    loadLe_add mem addr 4 4
  rw [← Nat.shiftLeft_add_eq_or_of_lt hlt, Nat.shiftLeft_eq, hsplit, Nat.add_comm, Nat.mul_comm]
  norm_num

theorem heroLoadUint64_eq {loc : Nat → Nat} (h : addr + 8 ≤ 2 ^ 32)
    (hloc : UpperApart addr (loc 0)) :
    heroLoadUint64 loc addr m = (loadLe m.mem addr 8, m.holding
      (storeLe (storeLe m.mem (loc 0) 4 (loadLe m.mem addr 4))
        (loc 1) 4 (loadLe m.mem (addr + 4) 4))) := by
  obtain ⟨hnext, hlo, hhi⟩ := next_word h
  simp only [heroLoadUint64, hnext, heroLoad_eq hlo, heroLoad_eq hhi, holding_mem,
    holding_holding, Bits.bytes, hloc.load, load_halves]

theorem store_halves (mem : Nat → UInt8) (addr val : Nat) :
    storeLe (storeLe mem addr 4 (val % 2 ^ 32)) (addr + 4) 4 ((val >>> 32) % 2 ^ 32) =
      storeLe mem addr 8 val := by
  have hdiv : val >>> 32 = val / 256 ^ 4 := Nat.shiftRight_eq_div_pow val 32
  rw [hdiv, ← store_storeLe mem addr 4 4 val, ← storeLe_mod _ _ _ val,
    ← storeLe_mod _ _ _ (val / 256 ^ 4), show 256 ^ 4 = 2 ^ 32 by norm_num]

theorem heroStoreUint64_eq (h : addr + 8 ≤ 2 ^ 32) :
    heroStoreUint64 addr val m = m.holding (storeLe m.mem addr 8 val) := by
  obtain ⟨hnext, hlo, hhi⟩ := next_word h
  simp only [heroStoreUint64, hnext, heroStore_eq hlo, heroStore_eq hhi, holding_mem,
    holding_holding, Bits.bytes, store_halves]

theorem heroLoadUint64Noblock_eq (h : addr + 8 ≤ 2 ^ 32) (hval : val + 8 ≤ 2 ^ 32)
    (hapart : UpperApart addr val) :
    heroLoadUint64Noblock addr val m =
      (0, m.holding (storeLe m.mem val 8 (loadLe m.mem addr 8))) := by
  obtain ⟨hnext, hlo, hhi⟩ := next_word h
  have hupper : lower32 (val + 4) = val + 4 := @lower32_eq .b32 (val + 4) hval
  simp only [heroLoadUint64Noblock, hnext, hupper, heroLoadNoblock_eq hlo,
    heroLoadNoblock_eq hhi, holding_mem, holding_holding, Bits.bytes, hapart.load,
    Nat.or_self]
  rw [store_loadLe_add m.mem m.mem addr val 4 4]

theorem heroStoreUint64Noblock_eq (h : addr + 8 ≤ 2 ^ 32) :
    heroStoreUint64Noblock addr val m = (0, m.holding (storeLe m.mem addr 8 val)) := by
  obtain ⟨hnext, hlo, hhi⟩ := next_word h
  simp only [heroStoreUint64Noblock, hnext, heroStoreNoblock_eq hlo,
    heroStoreNoblock_eq hhi, holding_mem, holding_holding, Bits.bytes, store_halves,
    Nat.or_self]

end

/-! ## Any sequence of accesses -/

inductive Width
  | w64 | w32 | w16 | w8
deriving DecidableEq, Repr

namespace Width

def bytes : Width → Nat
  | w64 => 8
  | w32 => 4
  | w16 => 2
  | w8 => 1

def load : Width → (Nat → Nat) → Nat → Machine → Nat × Machine
  | w64, loc => heroLoadUint64 loc
  | w32, loc => heroLoadUint32 (loc 0)
  | w16, loc => heroLoadUint16 (loc 0)
  | w8, loc => heroLoadUint8 (loc 0)

def loadNoblock : Width → Nat → Nat → Machine → Nat × Machine
  | w64 => heroLoadUint64Noblock
  | w32 => heroLoadUint32Noblock
  | w16 => heroLoadUint16Noblock
  | w8 => heroLoadUint8Noblock

def store : Width → Nat → Nat → Machine → Machine
  | w64 => heroStoreUint64
  | w32 => heroStoreUint32
  | w16 => heroStoreUint16
  | w8 => heroStoreUint8

def storeNoblock : Width → Nat → Nat → Machine → Nat × Machine
  | w64 => heroStoreUint64Noblock
  | w32 => heroStoreUint32Noblock
  | w16 => heroStoreUint16Noblock
  | w8 => heroStoreUint8Noblock

def locals (loc : Nat → Nat) (addr : Nat) (mem : Nat → UInt8) : Width → List Stored
  | w64 => [⟨loc 0, 4, loadLe mem addr 4⟩, ⟨loc 1, 4, loadLe mem (addr + 4) 4⟩]
  | w => [⟨loc 0, w.bytes, loadLe mem addr w.bytes⟩]

/-- Only a load of 64 bits passes its lower word back before it reads on. -/
def Apart (w : Width) (addr p : Nat) : Prop := w = w64 → UpperApart addr p

instance (w : Width) (addr p : Nat) : Decidable (w.Apart addr p) :=
  inferInstanceAs (Decidable (w = w64 → UpperApart addr p))

variable {w : Width} {addr : Nat} (h : addr + w.bytes ≤ 2 ^ 32) (m : Machine)
include h

theorem load_eq {loc : Nat → Nat} (hloc : w.Apart addr (loc 0)) :
    w.load loc addr m = (loadLe m.mem addr w.bytes,
      m.holding ((w.locals loc addr m.mem).foldl Stored.apply m.mem)) := by
  cases w with
  | w64 => exact heroLoadUint64_eq h (hloc rfl)
  | w32 => exact heroLoad_eq h
  | w16 => exact heroLoad_eq h
  | w8 => exact heroLoad_eq h

theorem loadNoblock_eq {val : Nat} (hval : val + w.bytes ≤ 2 ^ 32) (hapart : w.Apart addr val) :
    w.loadNoblock addr val m =
      (0, m.holding (storeLe m.mem val w.bytes (loadLe m.mem addr w.bytes))) := by
  cases w with
  | w64 => exact heroLoadUint64Noblock_eq h hval (hapart rfl)
  | w32 => exact heroLoadNoblock_eq h
  | w16 => exact heroLoadNoblock_eq h
  | w8 => exact heroLoadNoblock_eq h

theorem store_eq (val : Nat) :
    w.store addr val m = m.holding (storeLe m.mem addr w.bytes val) := by
  cases w with
  | w64 => exact heroStoreUint64_eq h
  | w32 => exact heroStore_eq h
  | w16 => exact heroStore_eq h
  | w8 => exact heroStore_eq h

theorem storeNoblock_eq (val : Nat) :
    w.storeNoblock addr val m = (0, w.store addr val m) := by
  rw [store_eq h]
  cases w with
  | w64 => exact heroStoreUint64Noblock_eq h
  | w32 => exact heroStoreNoblock_eq h
  | w16 => exact heroStoreNoblock_eq h
  | w8 => exact heroStoreNoblock_eq h

end Width

/-- A call of one of the functions, with the place at which a load passes its value back: the
native pointer `val`, or the local variables at `loc`. -/
inductive Access
  | load (w : Width) (loc : Nat → Nat) (addr : Nat)
  | loadNoblock (w : Width) (addr val : Nat)
  | store (w : Width) (addr val : Nat)
  | storeNoblock (w : Width) (addr val : Nat)

namespace Access

/-- The bytes are in reach, and a load has not written over its upper word before it reads it. -/
def Legal : Access → Prop
  | load w loc addr => addr + w.bytes ≤ 2 ^ 32 ∧ w.Apart addr (loc 0)
  | loadNoblock w addr val =>
    addr + w.bytes ≤ 2 ^ 32 ∧ val + w.bytes ≤ 2 ^ 32 ∧ w.Apart addr val
  | store w addr _ => addr + w.bytes ≤ 2 ^ 32
  | storeNoblock w addr _ => addr + w.bytes ≤ 2 ^ 32

instance : DecidablePred Legal
  | load w loc addr => inferInstanceAs (Decidable (addr + w.bytes ≤ 2 ^ 32 ∧ w.Apart addr (loc 0)))
  | loadNoblock w addr val => inferInstanceAs (Decidable
      (addr + w.bytes ≤ 2 ^ 32 ∧ val + w.bytes ≤ 2 ^ 32 ∧ w.Apart addr val))
  | store w addr _ => Nat.decLe (addr + w.bytes) (2 ^ 32)
  | storeNoblock w addr _ => Nat.decLe (addr + w.bytes) (2 ^ 32)

def run (m : Machine) : Access → Machine
  | load w loc addr => (w.load loc addr m).2
  | loadNoblock w addr val => (w.loadNoblock addr val m).2
  | store w addr val => w.store addr val m
  | storeNoblock w addr val => (w.storeNoblock addr val m).2

/-- What a call stores, made where memory holds `mem`: a load stores the value it passes back. -/
def stored (mem : Nat → UInt8) : Access → List Stored
  | load w loc addr => w.locals loc addr mem
  | loadNoblock w addr val => [⟨val, w.bytes, loadLe mem addr w.bytes⟩]
  | store w addr val => [⟨addr, w.bytes, val⟩]
  | storeNoblock w addr val => [⟨addr, w.bytes, val⟩]

theorem run_mem {a : Access} (h : a.Legal) (m : Machine) :
    (a.run m).mem = (a.stored m.mem).foldl Stored.apply m.mem := by
  cases a with
  | load w loc addr => exact congrArg (fun r => r.2.mem) (Width.load_eq h.1 m h.2)
  | loadNoblock w addr val =>
    exact congrArg (fun r => r.2.mem) (Width.loadNoblock_eq h.1 m h.2.1 h.2.2)
  | store w addr val => exact congrArg Machine.mem (Width.store_eq h m val)
  | storeNoblock w addr val =>
    exact (congrArg (fun r => r.2.mem) (Width.storeNoblock_eq h m val)).trans
      (congrArg Machine.mem (Width.store_eq h m val))

def allStored (mem : Nat → UInt8) : List Access → List Stored
  | [] => []
  | a :: as => a.stored mem ++ allStored ((a.stored mem).foldl Stored.apply mem) as

theorem run_all_mem {as : List Access} (h : ∀ a ∈ as, a.Legal) (m : Machine) :
    (as.foldl run m).mem = (allStored m.mem as).foldl Stored.apply m.mem := by
  induction as generalizing m with
  | nil => rfl
  | cons a as ih =>
    rw [List.foldl_cons, ih (fun b hb => h b (List.mem_cons_of_mem a hb)),
      run_mem (h a List.mem_cons_self), allStored, List.foldl_append]

end Access

def byteAfter (mem : Nat → UInt8) (as : List Access) (x : Nat) : UInt8 :=
  (Stored.latest (Access.allStored mem as) x).getD (mem x)

/-- What the calls made on `m` have left is one memory: each byte is the one stored there
last, and every load spells the bytes at its address, whichever form it has. -/
structure OneMemory (m : Machine) (as : List Access) (m' : Machine) : Prop where
  bytes : ∀ x, m'.mem x = byteAfter m.mem as x
  unchanged : ∀ x, (∀ s ∈ Access.allStored m.mem as, s.covers x = false) → m'.mem x = m.mem x
  load : ∀ (w : Width) loc addr, (Access.load w loc addr).Legal →
    (w.load loc addr m').1 = leValue (fun k => byteAfter m.mem as (addr + k)) w.bytes
  loadNoblock : ∀ (w : Width) loc addr val, (Access.load w loc addr).Legal →
    (Access.loadNoblock w addr val).Legal → w.loadNoblock addr val m' =
      (0, m'.holding (storeLe m'.mem val w.bytes (w.load loc addr m').1))
  storeNoblock : ∀ (w : Width) addr val, addr + w.bytes ≤ 2 ^ 32 →
    w.storeNoblock addr val m' = (0, w.store addr val m')

theorem hero64_one_memory (m : Machine) (as : List Access) (h : ∀ a ∈ as, a.Legal) :
    OneMemory m as (as.foldl Access.run m) := by
  have hbytes (x : Nat) : (as.foldl Access.run m).mem x = byteAfter m.mem as x := by
    rw [Access.run_all_mem h, Stored.foldl_apply, byteAfter]
  refine ⟨hbytes, fun x hx => ?_, fun w loc addr hw => ?_, fun w loc addr val hw hval => ?_,
    fun w addr val hw => Width.storeNoblock_eq hw _ val⟩
  · rw [hbytes, byteAfter, Stored.latest_eq_none hx, Option.getD_none]
  · rw [Width.load_eq hw.1 _ hw.2]
    exact leValue_congr fun k _ => hbytes (addr + k)
  · rw [Width.loadNoblock_eq hval.1 _ hval.2.1 hval.2.2, Width.load_eq hw.1 _ hw.2]

theorem hero64_one_memory_overlapping :
    let m : Machine := ⟨fun _ => 0, 0, 8⟩
    let as : List Access := [.storeNoblock .w64 0x1001 0x1122334455667788,
      .loadNoblock .w32 0x1002 0x1004, .store .w16 0x1003 0xbeef,
      .load .w64 (fun _ => 0x2000) 0x1002]
    OneMemory m as (as.foldl Access.run m) :=
  hero64_one_memory _ _ (by decide)

theorem heroLoadUint64Noblock_own_val :
    let m : Machine := ⟨fun x => if x = 0x1000 then 1 else 0, 0, 8⟩
    let m' := (Width.loadNoblock .w64 0x1000 0x1004 m).2
    (Width.load .w64 (fun _ => 0x2000) 0x1000 m).1 = 1 ∧
      loadLe m'.mem 0x1004 8 = 0x100000001 ∧ m'.mem 0x1008 = 1 ∧ m.mem 0x1008 = 0 := by
  decide

end HeroTools.Apps
