import HeroTools.Lib.LittleEndian
import HeroTools.Ringbuf.Spsc

/-! The ring buffer whose header lies in the same memory as its data, `struct ring_buf` and
the functions on it as loads and stores of bytes. -/

namespace HeroTools.Ringbuf

def loadRing (mem : Nat → UInt8) (a : Nat) : RingBuf where
  head := loadLe mem a 4
  size := loadLe mem (a + 4) 4
  tail := loadLe mem (a + 8) 4
  elementSize := loadLe mem (a + 12) 4
  dataV := loadLe mem (a + 16) 8
  dataP := loadLe mem (a + 24) 8

def storeHead (mem : Nat → UInt8) (a head : Nat) : Nat → UInt8 := storeLe mem a 4 head

def storeTail (mem : Nat → UInt8) (a tail : Nat) : Nat → UInt8 := storeLe mem (a + 8) 4 tail

def memRbInit (mem : Nat → UInt8) (a size elementSize : Nat) : Nat → UInt8 :=
  let mem := storeTail mem a 0
  let mem := storeHead mem a 0
  let mem := storeLe mem (a + 4) 4 size
  storeLe mem (a + 12) 4 elementSize

/-- The memory, and where a put and a get on one ring buffer stand. -/
structure Cell where
  mem : Nat → UInt8
  prod : PutPc
  cons : GetPc

variable (xlat : View → Nat → Nat) (ptr : View → Nat)

/-- The header that a side finds: `ptr` is the pointer it has, `xlat` where its addresses
lead. -/
def Cell.ring (s : Cell) (v : View) : RingBuf := loadRing s.mem (xlat v (ptr v))

def memPutStep (s : Cell) : Option (Event × Cell) :=
  match s.prod with
  | .idle => none
  | .loadHead v el =>
    let r := s.ring xlat ptr v
    some (.tau, { s with prod := .loadTail v el (r.next r.head) })
  | .loadTail v el nextHead =>
    if nextHead = (s.ring xlat ptr v).tail then some (.putFull, { s with prod := .idle })
    else some (.tau, { s with prod := .copy v el nextHead 0 })
  | .copy v el nextHead i =>
    let r := s.ring xlat ptr v
    if i < r.elementSize then some (.tau, { s with prod := .storeByte v el nextHead i r.head })
    else
      some (.putOk (bytes r.elementSize el),
        { s with mem := storeHead s.mem (xlat v (ptr v)) nextHead, prod := .idle })
  | .storeByte v el nextHead i head =>
    let r := s.ring xlat ptr v
    some (.access (r.offset head i),
      { s with
        mem := Function.update s.mem (xlat v (r.addr v head i)) (el i)
        prod := .copy v el nextHead (i + 1) })

def memGetStep (s : Cell) : Option (Event × Cell) :=
  match s.cons with
  | .idle => none
  | .loadTail v el =>
    some (.tau, { s with cons := .loadHead v el (s.ring xlat ptr v).tail })
  | .loadHead v el tail =>
    if tail = (s.ring xlat ptr v).head then some (.getEmpty, { s with cons := .idle })
    else some (.tau, { s with cons := .copy v el 0 })
  | .copy v el i =>
    let r := s.ring xlat ptr v
    if i < r.elementSize then some (.tau, { s with cons := .loadByte v el i r.tail })
    else some (.tau, { s with cons := .storeTail v el r.tail })
  | .loadByte v el i tail =>
    let r := s.ring xlat ptr v
    some (.access (r.offset tail i),
      { s with
        cons := .copy v (Function.update el i (s.mem (xlat v (r.addr v tail i)))) (i + 1) })
  | .storeTail v el tail =>
    let r := s.ring xlat ptr v
    some (.getOk (bytes r.elementSize el),
      { s with mem := storeTail s.mem (xlat v (ptr v)) (r.next tail), cons := .idle })

def memPutCall (v : View) (el : Buf) (s : Cell) : Option (Event × Cell) :=
  match s.prod with
  | .idle => some (.tau, { s with prod := .loadHead v el })
  | _ => none

def memGetCall (v : View) (el : Buf) (s : Cell) : Option (Event × Cell) :=
  match s.cons with
  | .idle => some (.tau, { s with cons := .loadTail v el })
  | _ => none

def memExec (s : Cell) : Act → Option (Event × Cell)
  | .rbDevicePut el => memPutCall .device el s
  | .rbHostPut el => memPutCall .host el s
  | .rbHostGet el => memGetCall .host el s
  | .rbDeviceGet el => memGetCall .device el s
  | .producer => memPutStep xlat ptr s
  | .consumer => memGetStep xlat ptr s

/-! ## The header in memory -/

section header
variable {mem mem' : Nat → UInt8} {a v size es : Nat}

theorem loadLe_congr {b w : Nat} (h : ∀ x, b ≤ x → x < b + w → mem' x = mem x) :
    loadLe mem' b w = loadLe mem b w :=
  leValue_congr fun k hk => h (b + k) (Nat.le_add_right b k) (Nat.add_lt_add_left hk b)

theorem loadRing_congr (h : ∀ x, a ≤ x → x < a + 32 → mem' x = mem x) :
    loadRing mem' a = loadRing mem a := by
  have hfield : ∀ o w, o + w ≤ 32 → loadLe mem' (a + o) w = loadLe mem (a + o) w := by
    intro o w hw
    exact loadLe_congr fun x hx hlt => h x (by omega) (by omega)
  unfold loadRing
  rw [hfield 4 4 (by norm_num), hfield 8 4 (by norm_num), hfield 12 4 (by norm_num),
    hfield 16 8 (by norm_num), hfield 24 8 (by norm_num)]
  rw [show loadLe mem' a 4 = loadLe mem a 4 from hfield 0 4 (by norm_num)]

theorem loadLe_store_field (mem : Nat → UInt8) (hv : v < 2 ^ 32) (b : Nat) :
    loadLe (storeLe mem b 4 v) b 4 = v ∧
      ∀ c w, c + w ≤ b ∨ b + 4 ≤ c → loadLe (storeLe mem b 4 v) c w = loadLe mem c w := by
  refine ⟨?_, fun c w h => load_storeLe_of_disjoint h⟩
  rw [load_storeLe]
  exact Nat.mod_eq_of_lt hv

theorem loadRing_storeHead (hv : v < 2 ^ 32) :
    loadRing (storeHead mem a v) a = { loadRing mem a with head := v } := by
  obtain ⟨hfield, hrest⟩ := loadLe_store_field mem hv a
  unfold loadRing storeHead
  rw [hfield, hrest (a + 4) 4 (by omega), hrest (a + 8) 4 (by omega), hrest (a + 12) 4 (by omega),
    hrest (a + 16) 8 (by omega), hrest (a + 24) 8 (by omega)]

theorem loadRing_storeTail (hv : v < 2 ^ 32) :
    loadRing (storeTail mem a v) a = { loadRing mem a with tail := v } := by
  obtain ⟨hfield, hrest⟩ := loadLe_store_field mem hv (a + 8)
  unfold loadRing storeTail
  rw [hfield, hrest a 4 (by omega), hrest (a + 4) 4 (by omega), hrest (a + 12) 4 (by omega),
    hrest (a + 16) 8 (by omega), hrest (a + 24) 8 (by omega)]

theorem loadRing_store_size (hv : v < 2 ^ 32) :
    loadRing (storeLe mem (a + 4) 4 v) a = { loadRing mem a with size := v } := by
  obtain ⟨hfield, hrest⟩ := loadLe_store_field mem hv (a + 4)
  unfold loadRing
  rw [hfield, hrest a 4 (by omega), hrest (a + 8) 4 (by omega), hrest (a + 12) 4 (by omega),
    hrest (a + 16) 8 (by omega), hrest (a + 24) 8 (by omega)]

theorem loadRing_store_elementSize (hv : v < 2 ^ 32) :
    loadRing (storeLe mem (a + 12) 4 v) a = { loadRing mem a with elementSize := v } := by
  obtain ⟨hfield, hrest⟩ := loadLe_store_field mem hv (a + 12)
  unfold loadRing
  rw [hfield, hrest a 4 (by omega), hrest (a + 4) 4 (by omega), hrest (a + 8) 4 (by omega),
    hrest (a + 16) 8 (by omega), hrest (a + 24) 8 (by omega)]

theorem loadRing_rbInit (hsize : size < 2 ^ 32) (hes : es < 2 ^ 32) :
    loadRing (memRbInit mem a size es) a = rbInit (loadRing mem a) size es := by
  have hzero : 0 < 2 ^ 32 := by norm_num
  simp only [memRbInit, loadRing_store_elementSize hes, loadRing_store_size hsize,
    loadRing_storeHead hzero, loadRing_storeTail hzero, rbInit]

theorem loadLe_store_pointer (mem : Nat → UInt8) (hv : v < 2 ^ 64) (b : Nat) :
    loadLe (storeLe mem b 8 v) b 8 = v ∧
      ∀ c w, c + w ≤ b ∨ b + 8 ≤ c → loadLe (storeLe mem b 8 v) c w = loadLe mem c w := by
  refine ⟨?_, fun c w h => load_storeLe_of_disjoint h⟩
  rw [load_storeLe]
  exact Nat.mod_eq_of_lt hv

theorem loadRing_store_dataV (hv : v < 2 ^ 64) :
    loadRing (storeLe mem (a + 16) 8 v) a = { loadRing mem a with dataV := v } := by
  obtain ⟨hfield, hrest⟩ := loadLe_store_pointer mem hv (a + 16)
  unfold loadRing
  rw [hfield, hrest a 4 (by omega), hrest (a + 4) 4 (by omega), hrest (a + 8) 4 (by omega),
    hrest (a + 12) 4 (by omega), hrest (a + 24) 8 (by omega)]

theorem loadRing_store_dataP (hv : v < 2 ^ 64) :
    loadRing (storeLe mem (a + 24) 8 v) a = { loadRing mem a with dataP := v } := by
  obtain ⟨hfield, hrest⟩ := loadLe_store_pointer mem hv (a + 24)
  unfold loadRing
  rw [hfield, hrest a 4 (by omega), hrest (a + 4) 4 (by omega), hrest (a + 8) 4 (by omega),
    hrest (a + 12) 4 (by omega), hrest (a + 16) 8 (by omega)]

theorem memRbInit_outside {x : Nat} (h : x < a ∨ a + 32 ≤ x) :
    memRbInit mem a size es x = mem x := by
  unfold memRbInit storeTail storeHead
  rw [storeLe_outside (by omega), storeLe_outside (by omega), storeLe_outside (by omega),
    storeLe_outside (by omega)]

end header

/-! ## What the two parties know depends on the data bytes only -/

section agree
variable {xlat : View → Nat → Nat} {rb r : RingBuf} {size es : Nat} {mem mem' : Nat → UInt8}
  {q : List (List UInt8)}

def Agree (xlat : View → Nat → Nat) (rb : RingBuf) (n : Nat) (mem mem' : Nat → UInt8) : Prop :=
  ∀ k < n, mem' (loc xlat rb k) = mem (loc xlat rb k)

theorem Agree.slot_eq (h : Agree xlat rb (size * es) mem mem') {idx i : Nat} (hidx : idx < size)
    (hi : i < es) : slot xlat rb es mem' idx i = slot xlat rb es mem idx i :=
  h _ (slot_byte_lt hidx hi)

theorem Holds.agree (hs : Holds xlat rb size es r mem q)
    (h : Agree xlat rb (size * es) mem mem') : Holds xlat rb size es r mem' q :=
  { hs with
    stored := by
      intro j x hx
      rw [hs.stored j x hx]
      exact bytes_congr fun k hk => (h.slot_eq (hs.index_lt j) hk).symm }

theorem PutOk.agree {n : Nat} {pc : PutPc} (hp : PutOk xlat rb size es r mem n pc)
    (hhead : r.head < size) (h : Agree xlat rb (size * es) mem mem') :
    PutOk xlat rb size es r mem' n pc := by
  cases pc with
  | idle => trivial
  | loadHead v el => trivial
  | loadTail v el nh => exact hp
  | copy v el nh i =>
    obtain ⟨hnh, hroom, hi, hc⟩ := hp
    exact ⟨hnh, hroom, hi, fun k hk => (h.slot_eq hhead (hk.trans_le hi)).trans (hc k hk)⟩
  | storeByte v el nh i hd =>
    obtain ⟨hnh, hroom, hi, hhd, hc⟩ := hp
    exact ⟨hnh, hroom, hi, hhd, fun k hk => (h.slot_eq hhead (hk.trans hi)).trans (hc k hk)⟩

theorem GetOk.agree {pc : GetPc} (hg : GetOk xlat rb es r mem q pc) (htail : r.tail < size)
    (h : Agree xlat rb (size * es) mem mem') : GetOk xlat rb es r mem' q pc := by
  cases pc with
  | idle => trivial
  | loadTail v el => trivial
  | loadHead v el t => exact hg
  | copy v el i =>
    obtain ⟨hq, hi, hc⟩ := hg
    exact ⟨hq, hi, fun k hk => (hc k hk).trans (h.slot_eq htail (hk.trans_le hi)).symm⟩
  | loadByte v el i t =>
    obtain ⟨hq, hi, ht, hc⟩ := hg
    exact ⟨hq, hi, ht, fun k hk => (hc k hk).trans (h.slot_eq htail (hk.trans hi)).symm⟩
  | storeTail v el t =>
    obtain ⟨hq, ht, hc⟩ := hg
    exact ⟨hq, ht, fun k hk => (hc k hk).trans (h.slot_eq htail hk).symm⟩

theorem Rel.agree {s : Sys Nat} (hs : Rel xlat rb size es s q)
    (h : Agree xlat rb (size * es) s.mem mem') :
    Rel xlat rb size es { s with mem := mem' } q where
  holds := hs.holds.agree h
  prod := hs.prod.agree hs.holds.head_lt h
  cons := hs.cons.agree hs.holds.tail_lt h

theorem Follows.agree {e : Event} {s : Sys Nat} (hs : Follows xlat rb size es q e s)
    (h : Agree xlat rb (size * es) s.mem mem') :
    Follows xlat rb size es q e { s with mem := mem' } := by
  unfold Follows at hs ⊢
  split
  · rename_i hlab
    rw [hlab] at hs
    exact hs.agree h
  · rename_i d hlab
    rw [hlab] at hs
    obtain ⟨q', hstep, hrel⟩ := hs
    exact ⟨q', hstep, hrel.agree h⟩

end agree

/-! ## The steps in memory follow the queue -/

def Cell.sys (s : Cell) (a : Nat) : Sys Nat := ⟨loadRing s.mem a, s.mem, s.prod, s.cons⟩

/-- Both sides find the header at `a`, apart from the `n` bytes of the data. -/
structure Placed (xlat : View → Nat → Nat) (ptr : View → Nat) (rb : RingBuf) (n a : Nat) :
    Prop where
  header : ∀ v, xlat v (ptr v) = a
  apart : ∀ k < n, loc xlat rb k < a ∨ a + 32 ≤ loc xlat rb k

def mayChange (xlat : View → Nat → Nat) (rb : RingBuf) (n a : Nat) : Act → Set Nat
  | .producer => {x | (a ≤ x ∧ x < a + 4) ∨ ∃ k < n, x = loc xlat rb k}
  | .consumer => {x | a + 8 ≤ x ∧ x < a + 12}
  | _ => ∅

section steps
variable {xlat : View → Nat → Nat} {ptr : View → Nat} {rb : RingBuf} {size es a : Nat}
  {s s' : Cell} {q : List (List UInt8)} {e : Event}

theorem Placed.agree_storeHead (hp : Placed xlat ptr rb (size * es) a) (mem : Nat → UInt8)
    (v : Nat) : Agree xlat rb (size * es) mem (storeHead mem a v) := by
  intro k hk
  have hk := hp.apart k hk
  exact storeLe_outside (by omega)

theorem Placed.agree_storeTail (hp : Placed xlat ptr rb (size * es) a) (mem : Nat → UInt8)
    (v : Nat) : Agree xlat rb (size * es) mem (storeTail mem a v) := by
  intro k hk
  have hk := hp.apart k hk
  exact storeLe_outside (by omega)

theorem Placed.loadRing_update (hp : Placed xlat ptr rb (size * es) a) (mem : Nat → UInt8)
    {k : Nat} (hk : k < size * es) (b : UInt8) :
    loadRing (Function.update mem (loc xlat rb k) b) a = loadRing mem a := by
  have hk := hp.apart k hk
  exact loadRing_congr fun x hx hlt => Function.update_of_ne (by omega) _ _

theorem Placed.ring_eq {n : Nat} (hp : Placed xlat ptr rb n a) (v : View) :
    s.ring xlat ptr v = loadRing s.mem a := by
  rw [Cell.ring, hp.header]

theorem Fits.next_lt (hf : Fits xlat rb size es) {r : RingBuf} (hsz : r.size = size) {idx : Nat}
    (hidx : idx < size) : r.next idx < 2 ^ 32 := by
  rw [hf.next_eq hsz hidx]
  exact (Nat.mod_lt _ hf.size_pos).trans hf.size_lt

variable (hf : Fits xlat rb size es) (hp : Placed xlat ptr rb (size * es) a)
include hf hp

theorem memPutStep_follows (h : Rel xlat rb size es (s.sys a) q)
    (hs : memPutStep xlat ptr s = some (e, s')) :
    Follows xlat rb size es q e (s'.sys a) ∧
      ∀ x ∉ mayChange xlat rb (size * es) a .producer, s'.mem x = s.mem x := by
  have hput := h.prod
  obtain ⟨mem, pc, cons⟩ := s
  cases pc with
  | idle => cases hs
  | loadHead v el =>
    simp only [memPutStep, hp.ring_eq] at hs
    obtain ⟨rfl, rfl⟩ := Prod.mk.inj (Option.some.inj hs)
    exact ⟨follows_putStep hf h rfl, fun _ _ => rfl⟩
  | loadTail v el nh =>
    simp only [memPutStep, hp.ring_eq] at hs
    split at hs <;> obtain ⟨rfl, rfl⟩ := Prod.mk.inj (Option.some.inj hs)
    · rename_i hfull
      exact ⟨follows_putStep hf h (if_pos hfull), fun _ _ => rfl⟩
    · rename_i hfree
      exact ⟨follows_putStep hf h (if_neg hfree), fun _ _ => rfl⟩
  | copy v el nh i =>
    obtain ⟨hnh, -⟩ := hput
    simp only [memPutStep, hp.ring_eq, hp.header] at hs
    split at hs <;> obtain ⟨rfl, rfl⟩ := Prod.mk.inj (Option.some.inj hs)
    · rename_i hlt
      exact ⟨follows_putStep hf h (if_pos hlt), fun _ _ => rfl⟩
    · rename_i hge
      have hlt : nh < 2 ^ 32 := hnh ▸ hf.next_lt h.holds.size_eq h.holds.head_lt
      have hfol := follows_putStep hf h (if_neg hge)
      refine ⟨?_, fun x hx => storeLe_outside ?_⟩
      · show Follows xlat rb size es q _ ⟨loadRing (storeHead mem a nh) a, _, _, _⟩
        rw [loadRing_storeHead hlt]
        exact hfol.agree (hp.agree_storeHead mem nh)
      · have hout : ¬ (a ≤ x ∧ x < a + 4) := fun hin => hx (.inl hin)
        omega
  | storeByte v el nh i hd =>
    obtain ⟨-, -, hi, hhd, -⟩ := hput
    have hhead := h.holds.head_lt
    have haddr : xlat v ((loadRing mem a).addr v hd i) = loc xlat rb (es * hd + i) :=
      hf.xlat_addr h.holds.elementSize_eq h.holds.dataV_eq h.holds.dataP_eq v
        (hhd ▸ hhead) hi
    -- the byte lies in the data, and so not in the header
    have hslot : es * hd + i < size * es := slot_byte_lt (hhd ▸ hhead) hi
    have hfol := follows_putStep hf h rfl
    simp only [memPutStep, hp.ring_eq] at hs
    obtain ⟨rfl, rfl⟩ := Prod.mk.inj (Option.some.inj hs)
    refine ⟨?_, fun x hx => ?_⟩
    · show Follows xlat rb size es q _ ⟨loadRing (Function.update mem _ _) a, _, _, _⟩
      rw [haddr, hp.loadRing_update mem hslot, ← haddr]
      exact hfol
    · show Function.update mem _ _ x = mem x
      rw [haddr]
      exact Function.update_of_ne (fun heq => hx (.inr ⟨_, hslot, heq⟩)) _ _

theorem memGetStep_follows (h : Rel xlat rb size es (s.sys a) q)
    (hs : memGetStep xlat ptr s = some (e, s')) :
    Follows xlat rb size es q e (s'.sys a) ∧
      ∀ x ∉ mayChange xlat rb (size * es) a .consumer, s'.mem x = s.mem x := by
  have hget := h.cons
  obtain ⟨mem, prod, pc⟩ := s
  cases pc with
  | idle => cases hs
  | loadTail v el =>
    simp only [memGetStep, hp.ring_eq] at hs
    obtain ⟨rfl, rfl⟩ := Prod.mk.inj (Option.some.inj hs)
    exact ⟨follows_getStep hf h rfl, fun _ _ => rfl⟩
  | loadHead v el t =>
    simp only [memGetStep, hp.ring_eq] at hs
    split at hs <;> obtain ⟨rfl, rfl⟩ := Prod.mk.inj (Option.some.inj hs)
    · rename_i hempty
      exact ⟨follows_getStep hf h (if_pos hempty), fun _ _ => rfl⟩
    · rename_i hne
      exact ⟨follows_getStep hf h (if_neg hne), fun _ _ => rfl⟩
  | copy v el i =>
    simp only [memGetStep, hp.ring_eq] at hs
    split at hs <;> obtain ⟨rfl, rfl⟩ := Prod.mk.inj (Option.some.inj hs)
    · rename_i hlt
      exact ⟨follows_getStep hf h (if_pos hlt), fun _ _ => rfl⟩
    · rename_i hge
      exact ⟨follows_getStep hf h (if_neg hge), fun _ _ => rfl⟩
  | loadByte v el i t =>
    simp only [memGetStep, hp.ring_eq] at hs
    obtain ⟨rfl, rfl⟩ := Prod.mk.inj (Option.some.inj hs)
    exact ⟨follows_getStep hf h rfl, fun _ _ => rfl⟩
  | storeTail v el t =>
    obtain ⟨-, ht, -⟩ := hget
    have htail : t < size := ht ▸ h.holds.tail_lt
    have hlt : (loadRing mem a).next t < 2 ^ 32 := hf.next_lt h.holds.size_eq htail
    have hfol := follows_getStep hf h rfl
    simp only [memGetStep, hp.ring_eq, hp.header] at hs
    obtain ⟨rfl, rfl⟩ := Prod.mk.inj (Option.some.inj hs)
    refine ⟨?_, fun x hx => storeLe_outside ?_⟩
    · show Follows xlat rb size es q _ ⟨loadRing (storeTail mem a _) a, _, _, _⟩
      rw [loadRing_storeTail hlt]
      exact hfol.agree (hp.agree_storeTail mem _)
    · have hout : ¬ (a + 8 ≤ x ∧ x < a + 12) := hx
      omega

/-- A step of either party in memory is a step of the queue, and changes nothing but the
index of the party and, in a put, the data. -/
theorem memExec_follows {act : Act} (h : Rel xlat rb size es (s.sys a) q)
    (hs : memExec xlat ptr s act = some (e, s')) :
    Follows xlat rb size es q e (s'.sys a) ∧
      ∀ x ∉ mayChange xlat rb (size * es) a act, s'.mem x = s.mem x := by
  have hputc : ∀ v el, memPutCall v el s = some (e, s') →
      Follows xlat rb size es q e (s'.sys a) ∧ s'.mem = s.mem := by
    intro v el hc
    obtain ⟨mem, prod, cons⟩ := s
    cases prod <;> simp only [memPutCall, reduceCtorEq] at hc
    obtain ⟨rfl, rfl⟩ := Prod.mk.inj (Option.some.inj hc)
    exact ⟨⟨h.holds, trivial, h.cons⟩, rfl⟩
  have hgetc : ∀ v el, memGetCall v el s = some (e, s') →
      Follows xlat rb size es q e (s'.sys a) ∧ s'.mem = s.mem := by
    intro v el hc
    obtain ⟨mem, prod, cons⟩ := s
    cases cons <;> simp only [memGetCall, reduceCtorEq] at hc
    obtain ⟨rfl, rfl⟩ := Prod.mk.inj (Option.some.inj hc)
    exact ⟨⟨h.holds, h.prod, trivial⟩, rfl⟩
  cases act with
  | rbDevicePut el => exact (hputc _ _ hs).imp_right fun hm _ _ => congrFun hm _
  | rbHostPut el => exact (hputc _ _ hs).imp_right fun hm _ _ => congrFun hm _
  | rbHostGet el => exact (hgetc _ _ hs).imp_right fun hm _ _ => congrFun hm _
  | rbDeviceGet el => exact (hgetc _ _ hs).imp_right fun hm _ _ => congrFun hm _
  | producer => exact memPutStep_follows hf hp h hs
  | consumer => exact memGetStep_follows hf hp h hs

end steps

end HeroTools.Ringbuf
