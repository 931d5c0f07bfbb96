import HeroTools.Ringbuf.Defs

/-! The ring buffer refines the bounded queue: what relates a state of the two parties to
the unread elements, and that every atomic step keeps it. -/

namespace HeroTools.Ringbuf
variable {Loc : Type*} {xlat : View → Nat → Loc} {rb : RingBuf} {size es : Nat}

/-- What `rb_init` is called with: `data_v` and `data_p` name the same bytes, all
distinct, and the offset of no byte leaves 32 bits. -/
structure Fits (xlat : View → Nat → Loc) (rb : RingBuf) (size es : Nat) : Prop where
  size_pos : 1 ≤ size
  size_lt : size < 2 ^ 32
  elementSize_lt : es < 2 ^ 32
  bytes_le : size * es ≤ 2 ^ 32
  same : ∀ k < size * es,
    xlat .host ((rb.dataV + k) % 2 ^ 64) = xlat .device ((rb.dataP + k) % 2 ^ 64)
  inj : ∀ j < size * es, ∀ k < size * es,
    xlat .device ((rb.dataP + j) % 2 ^ 64) = xlat .device ((rb.dataP + k) % 2 ^ 64) → j = k

def loc (xlat : View → Nat → Loc) (rb : RingBuf) (k : Nat) : Loc :=
  xlat .device ((rb.dataP + k) % 2 ^ 64)

def slot (xlat : View → Nat → Loc) (rb : RingBuf) (es : Nat) (mem : Loc → UInt8)
    (idx : Nat) : Buf := fun i => mem (loc xlat rb (es * idx + i))

/-! ## Slots -/

theorem slot_byte_lt {idx i : Nat} (hidx : idx < size) (hi : i < es) :
    es * idx + i < size * es := by
  calc es * idx + i < es * idx + es := Nat.add_lt_add_left hi _
    _ = es * (idx + 1) := (Nat.mul_succ es idx).symm
    _ ≤ es * size := Nat.mul_le_mul_left es hidx
    _ = size * es := Nat.mul_comm es size

theorem slot_byte_inj {idx idx' i i' : Nat} (hi : i < es) (hi' : i' < es)
    (h : es * idx + i = es * idx' + i') : idx = idx' ∧ i = i' := by
  have hpos : 0 < es := Nat.zero_lt_of_lt hi
  have hq : idx = idx' := by
    have := congrArg (· / es) h
    simpa [Nat.mul_add_div hpos, Nat.div_eq_of_lt hi, Nat.div_eq_of_lt hi'] using this
  subst hq
  exact ⟨rfl, Nat.add_left_cancel h⟩

theorem bytes_congr {n : Nat} {el el' : Buf} (h : ∀ k < n, el k = el' k) :
    bytes n el = bytes n el' :=
  List.map_congr_left fun k hk => h k (List.mem_range.mp hk)

namespace Fits
variable (hf : Fits xlat rb size es)
include hf

theorem offset_eq {r : RingBuf} (hes : r.elementSize = es) {idx i : Nat}
    (hidx : idx < size) (hi : i < es) : r.offset idx i = es * idx + i := by
  have hlt : es * idx < 2 ^ 32 :=
    (Nat.le_add_right _ i).trans_lt ((slot_byte_lt hidx hi).trans_le hf.bytes_le)
  rw [RingBuf.offset, hes, Nat.mod_eq_of_lt hlt]

theorem next_eq {r : RingBuf} (hsz : r.size = size) {idx : Nat} (hidx : idx < size) :
    r.next idx = (idx + 1) % size := by
  rw [RingBuf.next, hsz, Nat.mod_eq_of_lt (Nat.lt_of_le_of_lt hidx hf.size_lt)]

theorem xlat_addr {r : RingBuf} (hes : r.elementSize = es) (hv : r.dataV = rb.dataV)
    (hp : r.dataP = rb.dataP) (v : View) {idx i : Nat} (hidx : idx < size) (hi : i < es) :
    xlat v (r.addr v idx i) = loc xlat rb (es * idx + i) := by
  rw [RingBuf.addr, hf.offset_eq hes hidx hi]
  cases v with
  | host => rw [RingBuf.data, hv, hf.same _ (slot_byte_lt hidx hi), loc]
  | device => rw [RingBuf.data, hp, loc]

theorem loc_inj {idx idx' i i' : Nat} (hidx : idx < size) (hidx' : idx' < size)
    (hi : i < es) (hi' : i' < es)
    (h : loc xlat rb (es * idx + i) = loc xlat rb (es * idx' + i')) : idx = idx' ∧ i = i' :=
  slot_byte_inj hi hi' (hf.inj _ (slot_byte_lt hidx hi) _ (slot_byte_lt hidx' hi') h)

end Fits

/-! ## The relation -/

/-- The header and the memory hold the queue `q`: its `j`-th element is in the `j`-th
slot after `tail`. -/
structure Holds (xlat : View → Nat → Loc) (rb : RingBuf) (size es : Nat) (r : RingBuf)
    (mem : Loc → UInt8) (q : List (List UInt8)) : Prop where
  size_eq : r.size = size
  elementSize_eq : r.elementSize = es
  dataV_eq : r.dataV = rb.dataV
  dataP_eq : r.dataP = rb.dataP
  tail_lt : r.tail < size
  head_eq : r.head = (r.tail + q.length) % size
  room : q.length < size
  stored : ∀ j x, q[j]? = some x →
    x = bytes es (slot xlat rb es mem ((r.tail + j) % size))

/-- What the producer knows inside a call: from the comparison on there is a free slot,
and the bytes copied so far are in it. -/
def PutOk (xlat : View → Nat → Loc) (rb : RingBuf) (size es : Nat) (r : RingBuf)
    (mem : Loc → UInt8) (n : Nat) : PutPc → Prop
  | .idle => True
  | .loadHead _ _ => True
  | .loadTail _ _ nh => nh = r.next r.head
  | .copy _ el nh i => nh = r.next r.head ∧ n + 1 < size ∧ i ≤ es ∧
      ∀ k < i, slot xlat rb es mem r.head k = el k
  | .storeByte _ el nh i h => nh = r.next r.head ∧ n + 1 < size ∧ i < es ∧ h = r.head ∧
      ∀ k < i, slot xlat rb es mem r.head k = el k

/-- What the consumer knows inside a call: from the comparison on the queue is not empty,
and the bytes copied so far are those of its first element. -/
def GetOk (xlat : View → Nat → Loc) (rb : RingBuf) (es : Nat) (r : RingBuf)
    (mem : Loc → UInt8) (q : List (List UInt8)) : GetPc → Prop
  | .idle => True
  | .loadTail _ _ => True
  | .loadHead _ _ t => t = r.tail
  | .copy _ el i => q ≠ [] ∧ i ≤ es ∧ ∀ k < i, el k = slot xlat rb es mem r.tail k
  | .loadByte _ el i t => q ≠ [] ∧ i < es ∧ t = r.tail ∧
      ∀ k < i, el k = slot xlat rb es mem r.tail k
  | .storeTail _ el t => q ≠ [] ∧ t = r.tail ∧
      ∀ k < es, el k = slot xlat rb es mem r.tail k

theorem getOk_publish {r : RingBuf} {q : List (List UInt8)} {head : Nat} {el : List UInt8}
    {pc : GetPc} (hg : GetOk xlat rb es r mem q pc) :
    GetOk xlat rb es { r with head := head } mem (q ++ [el]) pc := by
  have hne : q ++ [el] ≠ [] := List.append_ne_nil_of_right_ne_nil q (List.cons_ne_nil el [])
  cases pc with
  | idle => trivial
  | loadTail v el => trivial
  | loadHead v el t => exact hg
  | copy v el n => exact ⟨hne, hg.2⟩
  | loadByte v el n t => exact ⟨hne, hg.2⟩
  | storeTail v el t => exact ⟨hne, hg.2⟩

theorem putOk_release {r : RingBuf} {n tail : Nat} {pc : PutPc}
    (hp : PutOk xlat rb size es r mem (n + 1) pc) :
    PutOk xlat rb size es { r with tail := tail } mem n pc := by
  cases pc with
  | idle => trivial
  | loadHead v el => trivial
  | loadTail v el nh => exact hp
  | copy v el nh i => exact ⟨hp.1, Nat.lt_of_succ_lt hp.2.1, hp.2.2⟩
  | storeByte v el nh i hd => exact ⟨hp.1, Nat.lt_of_succ_lt hp.2.1, hp.2.2⟩

structure Rel (xlat : View → Nat → Loc) (rb : RingBuf) (size es : Nat) (s : Sys Loc)
    (q : List (List UInt8)) : Prop where
  holds : Holds xlat rb size es s.rb s.mem q
  prod : PutOk xlat rb size es s.rb s.mem q.length s.prod
  cons : GetOk xlat rb es s.rb s.mem q s.cons

theorem rel_start (hf : Fits xlat rb size es) (mem : Loc → UInt8) :
    Rel xlat rb size es (start (rbInit rb size es) mem) [] where
  holds :=
    { size_eq := rfl
      elementSize_eq := rfl
      dataV_eq := rfl
      dataP_eq := rfl
      tail_lt := hf.size_pos
      head_eq := by simp [start, rbInit]
      room := hf.size_pos
      stored := by simp }
  prod := trivial
  cons := trivial

namespace Holds
variable {r : RingBuf} {mem : Loc → UInt8} {q : List (List UInt8)}

theorem head_lt (h : Holds xlat rb size es r mem q) : r.head < size :=
  h.head_eq ▸ Nat.mod_lt _ (Nat.zero_lt_of_lt h.tail_lt)

theorem index_lt (h : Holds xlat rb size es r mem q) (j : Nat) :
    (r.tail + j) % size < size := Nat.mod_lt _ (Nat.zero_lt_of_lt h.tail_lt)

theorem head_ne (h : Holds xlat rb size es r mem q) {j : Nat} (hj : j < q.length) :
    (r.tail + j) % size ≠ r.head := by
  intro he
  rw [h.head_eq] at he
  exact hj.ne (ring_index_inj (hj.trans h.room) h.room he)

theorem tail_index (h : Holds xlat rb size es r mem q) : (r.tail + 0) % size = r.tail :=
  Nat.mod_eq_of_lt h.tail_lt

/-- `(head + 1) % size` meets `tail` exactly when `size - 1` elements are unread. -/
theorem nextHead_eq_tail (hf : Fits xlat rb size es) (h : Holds xlat rb size es r mem q) :
    r.next r.head = r.tail ↔ q.length + 1 = size := by
  rw [hf.next_eq h.size_eq h.head_lt, h.head_eq, ring_index_succ]
  constructor
  · intro he
    by_contra hne
    have hlt : q.length + 1 < size := Nat.lt_of_le_of_ne h.room hne
    rw [← h.tail_index] at he
    exact Nat.succ_ne_zero _ (ring_index_inj hlt hf.size_pos (by simpa using he))
  · intro he
    rw [he, Nat.add_mod_right, Nat.mod_eq_of_lt h.tail_lt]

theorem tail_eq_head (h : Holds xlat rb size es r mem q) :
    r.tail = r.head ↔ q = [] := by
  constructor
  · intro he
    by_contra hne
    exact h.head_ne (List.length_pos_of_ne_nil hne) (h.tail_index.trans he)
  · rintro rfl
    rw [h.head_eq, List.length_nil, h.tail_index]

end Holds

/-! ## The ends of a put and of a get -/

theorem holds_publish (hf : Fits xlat rb size es) {r : RingBuf} {mem : Loc → UInt8}
    {q : List (List UInt8)} (h : Holds xlat rb size es r mem q) (hroom : q.length + 1 < size)
    {el : Buf} (hel : ∀ k < es, slot xlat rb es mem r.head k = el k) :
    Holds xlat rb size es { r with head := r.next r.head } mem (q ++ [bytes es el]) :=
  { h with
    head_eq := by
      rw [hf.next_eq h.size_eq h.head_lt, h.head_eq, ring_index_succ, List.length_append,
        List.length_singleton]
    room := by
      rw [List.length_append, List.length_singleton]
      exact hroom
    stored := by
      intro j x hx
      rcases Nat.lt_trichotomy j q.length with hj | rfl | hj
      · rw [List.getElem?_append_left hj] at hx
        exact h.stored j x hx
      · have hxe : bytes es el = x := by simpa using hx
        rw [← hxe]
        refine bytes_congr fun k hk => ?_
        rw [← hel k hk, h.head_eq]
      · rw [List.getElem?_append_right hj.le] at hx
        have : j - q.length = 0 := by
          by_contra hne
          simp [hne] at hx
        omega }

theorem holds_release (hf : Fits xlat rb size es) {r : RingBuf} {mem : Loc → UInt8}
    {x : List UInt8} {q : List (List UInt8)} (h : Holds xlat rb size es r mem (x :: q)) :
    Holds xlat rb size es { r with tail := r.next r.tail } mem q :=
  have hnext : r.next r.tail = (r.tail + 1) % size := hf.next_eq h.size_eq h.tail_lt
  { h with
    tail_lt := by
      rw [hnext]
      exact h.index_lt 1
    head_eq := by
      rw [hnext, ring_index_head, h.head_eq, List.length_cons]
    room := Nat.lt_of_succ_lt h.room
    stored := by
      intro j y hy
      rw [hnext, ring_index_head]
      exact h.stored (j + 1) y (by simpa using hy) }

theorem holds_first {r : RingBuf} {mem : Loc → UInt8} {q : List (List UInt8)}
    (h : Holds xlat rb size es r mem q) (hq : q ≠ []) {el : Buf}
    (hel : ∀ k < es, el k = slot xlat rb es mem r.tail k) :
    ∃ q', q = bytes es el :: q' := by
  obtain ⟨x, q', rfl⟩ := List.exists_cons_of_ne_nil hq
  refine ⟨q', congrArg (· :: q') ?_⟩
  rw [h.stored 0 x rfl, h.tail_index]
  exact (bytes_congr hel).symm

end HeroTools.Ringbuf
