import Mathlib.Data.List.Basic
import Mathlib.Data.List.Range

/-! Copies that an engine makes into buffers by itself, one element at a time and in any
order, and what may be said of a buffer while they are under way. -/

namespace HeroTools
variable {B A R : Type*}

/-- Element `idx` of buffer `dst` is to be what `src` holds. -/
structure Copy (B A : Type*) where
  dst : B
  idx : Nat
  src : A
deriving DecidableEq, Repr

structure Engine (B A R : Type*) where
  buf : B → Nat → R
  pending : List (Copy B A)

namespace Engine

def copies (b : B) (src : Nat → A) (count : Nat) : List (Copy B A) :=
  (List.range count).map fun k => ⟨b, k, src k⟩

def start (b : B) (src : Nat → A) (count : Nat) (e : Engine B A R) : Engine B A R :=
  { e with pending := e.pending ++ copies b src count }

def deliver [DecidableEq B] [DecidableEq A] (mem : A → R) (c : Copy B A) (e : Engine B A R) :
    Engine B A R where
  buf := fun b k => if b = c.dst ∧ k = c.idx then mem c.src else e.buf b k
  pending := e.pending.erase c

def Quiet (e : Engine B A R) (b : B) : Prop := ∀ c ∈ e.pending, c.dst ≠ b

structure Holds (mem : A → R) (e : Engine B A R) (b : B) (src : Nat → A) (count : Nat) :
    Prop where
  quiet : e.Quiet b
  eq : ∀ k < count, e.buf b k = mem (src k)

structure Owes (mem : A → R) (e : Engine B A R) (b : B) (src : Nat → A) (count : Nat) :
    Prop where
  src_eq : ∀ c ∈ e.pending, c.dst = b → c.src = src c.idx
  eq_or_mem : ∀ k < count, e.buf b k = mem (src k) ∨ ⟨b, k, src k⟩ ∈ e.pending

variable {mem : A → R} {e : Engine B A R} {b b' : B} {src src' : Nat → A} {count count' : Nat}
  {c : Copy B A}

theorem quiet_of_nil (h : e.pending = []) (b : B) : e.Quiet b := fun c hc => by
  rw [h] at hc
  exact absurd hc List.not_mem_nil

theorem Holds.owes (h : e.Holds mem b src count) : e.Owes mem b src count where
  src_eq := fun c hc hb => absurd hb (h.quiet c hc)
  eq_or_mem := fun k hk => .inl (h.eq k hk)

theorem Owes.holds (h : e.Owes mem b src count) (hp : e.pending = []) :
    e.Holds mem b src count where
  quiet := quiet_of_nil hp b
  eq := fun k hk => (h.eq_or_mem k hk).resolve_right fun hm => by
    rw [hp] at hm
    exact absurd hm List.not_mem_nil

/-! ## Starting -/

theorem mem_start : c ∈ (e.start b src count).pending ↔ c ∈ e.pending ∨ c ∈ copies b src count :=
  List.mem_append

theorem dst_of_mem_copies (h : c ∈ copies b src count) : c.dst = b := by
  obtain ⟨k, -, rfl⟩ := List.mem_map.mp h
  rfl

theorem src_of_mem_copies (h : c ∈ copies b src count) : c.src = src c.idx := by
  obtain ⟨k, -, rfl⟩ := List.mem_map.mp h
  rfl

@[simp] theorem length_start :
    (e.start b src count).pending.length = e.pending.length + count := by
  rw [start, List.length_append, copies, List.length_map, List.length_range]

theorem Quiet.start (h : e.Quiet b') (hb : b' ≠ b) : (e.start b src count).Quiet b' := by
  intro c hc
  rcases mem_start.mp hc with hc | hc
  · exact h c hc
  · rw [dst_of_mem_copies hc]
    exact hb.symm

theorem Holds.start (h : e.Holds mem b' src' count') (hb : b' ≠ b) :
    (e.start b src count).Holds mem b' src' count' where
  quiet := h.quiet.start hb
  eq := h.eq

theorem Owes.start (h : e.Owes mem b' src' count') (hb : b' ≠ b) :
    (e.start b src count).Owes mem b' src' count' where
  src_eq := by
    intro c hc hdst
    rcases mem_start.mp hc with hc | hc
    · exact h.src_eq c hc hdst
    · exact absurd (hdst.symm.trans (dst_of_mem_copies hc)) hb
  eq_or_mem := fun k hk => (h.eq_or_mem k hk).imp_right fun hm => mem_start.mpr (.inl hm)

theorem Quiet.owes_start (h : e.Quiet b) : (e.start b src count).Owes mem b src count where
  src_eq := by
    intro c hc hdst
    rcases mem_start.mp hc with hc | hc
    · exact absurd hdst (h c hc)
    · exact src_of_mem_copies hc
  eq_or_mem := fun k hk =>
    .inr (mem_start.mpr (.inr (List.mem_map.mpr ⟨k, List.mem_range.mpr hk, rfl⟩)))

/-! ## Delivering -/

variable [DecidableEq B] [DecidableEq A]

theorem length_deliver (mem : A → R) (hc : c ∈ e.pending) :
    (e.deliver mem c).pending.length + 1 = e.pending.length := by
  rw [deliver, List.length_erase_of_mem hc]
  have hpos := List.length_pos_of_mem hc
  omega

theorem Quiet.deliver (h : e.Quiet b) : (e.deliver mem c).Quiet b :=
  fun c' hc' => h c' (List.mem_of_mem_erase hc')

theorem Holds.deliver (h : e.Holds mem b src count) (hc : c ∈ e.pending) :
    (e.deliver mem c).Holds mem b src count where
  quiet := h.quiet.deliver
  eq := by
    intro k hk
    rw [Engine.deliver, ← h.eq k hk]
    exact if_neg fun hbk => h.quiet c hc hbk.1.symm

theorem Owes.deliver (h : e.Owes mem b src count) (hc : c ∈ e.pending) :
    (e.deliver mem c).Owes mem b src count where
  src_eq := fun c' hc' => h.src_eq c' (List.mem_of_mem_erase hc')
  eq_or_mem := by
    intro k hk
    by_cases hbk : b = c.dst ∧ k = c.idx
    · refine .inl ((if_pos hbk).trans ?_)
      rw [h.src_eq c hc hbk.1.symm, hbk.2]
    · refine (h.eq_or_mem k hk).imp (fun heq => (if_neg hbk).trans heq) fun hm => ?_
      have hne : (⟨b, k, src k⟩ : Copy B A) ≠ c := fun hck =>
        hbk ⟨congrArg Copy.dst hck, congrArg Copy.idx hck⟩
      exact (List.mem_erase_of_ne hne).mpr hm

end Engine
end HeroTools
