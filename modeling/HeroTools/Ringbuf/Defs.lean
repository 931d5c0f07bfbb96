import HeroTools.Lib.Fifo
import Mathlib.Logic.Function.Basic

/-! `ringbuf.h`: the ring buffer of the software mailboxes, one atomic load or store of
`head`, of `tail` or of a data byte at a time. -/

namespace HeroTools.Ringbuf

structure RingBuf where
  head : Nat
  size : Nat
  tail : Nat
  elementSize : Nat
  dataV : Nat
  dataP : Nat
deriving DecidableEq, Repr

def rbInit (rb : RingBuf) (size elementSize : Nat) : RingBuf :=
  { rb with tail := 0, head := 0, size := size, elementSize := elementSize }

/-- The host walks the data through `data_v`, the device through `data_p`. -/
inductive View
  | host
  | device
deriving DecidableEq, Repr

namespace RingBuf

def data (rb : RingBuf) : View → Nat
  | .host => rb.dataV
  | .device => rb.dataP

def next (rb : RingBuf) (idx : Nat) : Nat := (idx + 1) % 2 ^ 32 % rb.size

/-- The offset of byte `i` of slot `idx`: the product is taken on `uint32_t`. -/
def offset (rb : RingBuf) (idx i : Nat) : Nat := rb.elementSize * idx % 2 ^ 32 + i

def addr (rb : RingBuf) (v : View) (idx i : Nat) : Nat :=
  (rb.data v + rb.offset idx i) % 2 ^ 64

end RingBuf

abbrev Buf := Nat → UInt8

def bytes (n : Nat) (el : Buf) : List UInt8 := (List.range n).map el

/-- Where a put stands; the fields are its argument and its locals. -/
inductive PutPc
  | idle
  | loadHead (v : View) (el : Buf)
  | loadTail (v : View) (el : Buf) (nextHead : Nat)
  | copy (v : View) (el : Buf) (nextHead i : Nat)
  | storeByte (v : View) (el : Buf) (nextHead i head : Nat)

inductive GetPc
  | idle
  | loadTail (v : View) (el : Buf)
  | loadHead (v : View) (el : Buf) (tail : Nat)
  | copy (v : View) (el : Buf) (i : Nat)
  | loadByte (v : View) (el : Buf) (i tail : Nat)
  | storeTail (v : View) (el : Buf) (tail : Nat)

/-- What a step shows: a data access at an offset from the base of the data, or the end
of a call (`putOk`, `getOk` return 0, `putFull`, `getEmpty` return -1). -/
inductive Event
  | tau
  | access (off : Nat)
  | putOk (el : List UInt8)
  | putFull
  | getOk (el : List UInt8)
  | getEmpty
deriving DecidableEq

structure Sys (Loc : Type*) where
  rb : RingBuf
  mem : Loc → UInt8
  prod : PutPc
  cons : GetPc

inductive Act
  | rbDevicePut (el : Buf)
  | rbHostPut (el : Buf)
  | rbHostGet (el : Buf)
  | rbDeviceGet (el : Buf)
  | producer
  | consumer

variable {Loc : Type*} [DecidableEq Loc] (xlat : View → Nat → Loc)

/-- The body shared by `rb_device_put` and `rb_host_put`. -/
def putStep (s : Sys Loc) : Option (Event × Sys Loc) :=
  match s.prod with
  | .idle => none
  | .loadHead v el => some (.tau, { s with prod := .loadTail v el (s.rb.next s.rb.head) })
  | .loadTail v el nextHead =>
    if nextHead = s.rb.tail then some (.putFull, { s with prod := .idle })
    else some (.tau, { s with prod := .copy v el nextHead 0 })
  | .copy v el nextHead i =>
    if i < s.rb.elementSize then
      -- `head` is loaded again for each byte
      some (.tau, { s with prod := .storeByte v el nextHead i s.rb.head })
    else
      some (.putOk (bytes s.rb.elementSize el),
        { s with rb := { s.rb with head := nextHead }, prod := .idle })
  | .storeByte v el nextHead i head =>
    some (.access (s.rb.offset head i),
      { s with
        mem := Function.update s.mem (xlat v (s.rb.addr v head i)) (el i)
        prod := .copy v el nextHead (i + 1) })

/-- The body shared by `rb_host_get` and `rb_device_get`. -/
def getStep (s : Sys Loc) : Option (Event × Sys Loc) :=
  match s.cons with
  | .idle => none
  | .loadTail v el => some (.tau, { s with cons := .loadHead v el s.rb.tail })
  | .loadHead v el tail =>
    if tail = s.rb.head then some (.getEmpty, { s with cons := .idle })
    else some (.tau, { s with cons := .copy v el 0 })
  | .copy v el i =>
    -- `tail` is loaded again for each byte
    if i < s.rb.elementSize then some (.tau, { s with cons := .loadByte v el i s.rb.tail })
    else some (.tau, { s with cons := .storeTail v el s.rb.tail })
  | .loadByte v el i tail =>
    some (.access (s.rb.offset tail i),
      { s with
        cons := .copy v (Function.update el i (s.mem (xlat v (s.rb.addr v tail i)))) (i + 1) })
  | .storeTail _ el tail =>
    some (.getOk (bytes s.rb.elementSize el),
      { s with rb := { s.rb with tail := s.rb.next tail }, cons := .idle })

def putCall (v : View) (el : Buf) (s : Sys Loc) : Option (Event × Sys Loc) :=
  match s.prod with
  | .idle => some (.tau, { s with prod := .loadHead v el })
  | _ => none

def getCall (v : View) (el : Buf) (s : Sys Loc) : Option (Event × Sys Loc) :=
  match s.cons with
  | .idle => some (.tau, { s with cons := .loadTail v el })
  | _ => none

def exec (s : Sys Loc) : Act → Option (Event × Sys Loc)
  | .rbDevicePut el => putCall .device el s
  | .rbHostPut el => putCall .host el s
  | .rbHostGet el => getCall .host el s
  | .rbDeviceGet el => getCall .device el s
  | .producer => putStep xlat s
  | .consumer => getStep xlat s

/-- One producer and one consumer on one ring buffer, in any interleaving. -/
def spsc : Lts (Sys Loc) Event := .ofExec (exec xlat)

def start (rb : RingBuf) (mem : Loc → UInt8) : Sys Loc := ⟨rb, mem, .idle, .idle⟩

end HeroTools.Ringbuf
