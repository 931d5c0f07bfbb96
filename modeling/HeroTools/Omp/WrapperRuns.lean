import HeroTools.Omp.OmpKernelWrapper
import Mathlib.Data.List.Basic

/-! What the bodies of wrappers do when they are called. -/

namespace HeroTools.Omp
open Llvm
variable {ω : Type} {env : Env ω} {m : Machine}

theorem gepAddress_eq (dl : DataLayout) (elt : Ty) (as a : Nat) {i : Nat} (hi : i < 2 ^ 27) :
    Machine.gepAddress dl elt as a i =
      (a + i * (dl.allocBits elt / 8)) % 2 ^ dl.pointerBits as := by
  have hindex : Machine.index32 i = i := by
    have h32 : i % 2 ^ 32 = i := Nat.mod_eq_of_lt (hi.trans (by decide))
    unfold Machine.index32
    rw [h32, if_pos (hi.trans (by decide))]
    exact_mod_cast h32
  unfold Machine.gepAddress
  rw [hindex]
  norm_cast

theorem stored_mod (dl : DataLayout) (mem : Memory) (as a : Nat) (ty : Ty) :
    stored dl mem as (a % 2 ^ dl.pointerBits as) ty = stored dl mem as a ty := by
  unfold stored
  rw [Nat.mod_mod]

theorem mapM_some {α β : Type} {f : α → Option β} {g : α → β} {l : List α}
    (h : ∀ x ∈ l, f x = some (g x)) : l.mapM f = some (l.map g) := by
  induction l with
  | nil => rfl
  | cons x l ih =>
    rw [List.mapM_cons, h x List.mem_cons_self, ih fun y hy => h y (List.mem_cons_of_mem x hy)]
    rfl

theorem exec_derefBuffer (elt : Ty) (as : Nat) {q r : Nat} (hq : q < r) (tys : List Ty)
    (rest : List (Instr ω)) {a : Nat} :
    ∀ i (m : Machine), m.regs q = some a → ∃ regs : Nat → Option Nat,
      execBody env (derefBuffer elt as (.reg q) r i tys ++ rest) m =
        execBody env rest { m with regs := regs } ∧
      (∀ x < r + 3 * i, regs x = m.regs x) ∧
      ∀ j (hj : j < tys.length), regs (r + 3 * (i + j) + 2) =
        some (stored env.dl m.mem as (Machine.gepAddress env.dl elt as a (i + j)) tys[j]) := by
  induction tys with
  | nil =>
    intro i m _
    exact ⟨m.regs, rfl, fun _ _ => rfl, fun j hj => absurd hj (Nat.not_lt_zero j)⟩
  | cons ty tys ih =>
    intro i m ha
    let v := stored env.dl m.mem as (Machine.gepAddress env.dl elt as a i) ty
    let m' := ((m.set (r + 3 * i) (Machine.gepAddress env.dl elt as a i)).set (r + 3 * i + 1)
      (Machine.gepAddress env.dl elt as a i)).set (r + 3 * i + 2) v
    have hbelow : ∀ x < r + 3 * i, m'.regs x = m.regs x := by
      intro x hx
      simp only [m', Machine.set]
      rw [Function.update_of_ne (by omega), Function.update_of_ne (by omega),
        Function.update_of_ne (by omega)]
    have hv : m'.regs (r + 3 * i + 2) = some v := Function.update_self ..
    -- `q` lies below the registers of all loads, so the buffer's address is still there
    obtain ⟨regs, hexec, hregs, hloads⟩ := ih (i + 1) m' ((hbelow q (by omega)).trans ha)
    have hstep : execBody env (derefBuffer elt as (.reg q) r i (ty :: tys) ++ rest) m =
        execBody env (derefBuffer elt as (.reg q) r (i + 1) tys ++ rest) m' := by
      simp [derefBuffer, execBody, Machine.exec, Machine.val, Machine.set, ha, m', v]
    refine ⟨regs, hstep.trans hexec, fun x hx => ?_, fun j hj => ?_⟩
    · rw [hregs x (by omega), hbelow x hx]
    · cases j with
      | zero =>
        rw [Nat.add_zero, hregs _ (by omega)]
        exact hv
      | succ j =>
        have hload := hloads j (Nat.lt_of_succ_lt_succ hj)
        have hindex : i + 1 + j = i + (j + 1) := by omega
        rw [hindex] at hload
        exact hload

theorem mapM_derefArgs {r : Nat} {vs : List Nat}
    (h : ∀ j (hj : j < vs.length), m.regs (r + 3 * j + 2) = some vs[j]) :
    (derefArgs r vs.length).mapM (m.val env) = some vs := by
  have hval : ∀ v ∈ derefArgs r vs.length, m.val env v = some ((m.val env v).getD 0) := by
    intro v hv
    obtain ⟨j, hj, rfl⟩ := List.mem_map.mp hv
    simp only [Machine.val]
    rw [h j (List.mem_range.mp hj), Option.getD_some]
  rw [mapM_some hval]
  refine congrArg some (List.ext_getElem (by simp [derefArgs]) fun j hj hj' => ?_)
  simp [derefArgs, Machine.val, h j hj']

def bufferArgs (dl : DataLayout) (mem : Memory) (as a n : Nat) (tys : List Ty) : List Nat :=
  tys.mapIdx fun i ty => stored dl mem as (a + i * n) ty

theorem exec_deref_call (elt : Ty) (as : Nat) {q r : Nat} (hq : q < r) (tys : List Ty)
    (hfew : tys.length < 2 ^ 27) (k : Fn) (first : List Value) (vs : List Nat) {a : Nat}
    (ha : m.regs q = some a)
    (hfirst : ∀ regs : Nat → Option Nat, (∀ x < r, regs x = m.regs x) →
      first.mapM (({ m with regs := regs } : Machine).val env) = some vs) :
    execBody env (derefBuffer elt as (.reg q) r 0 tys ++
        [.call none (.const (.fn k)) (first ++ derefArgs r tys.length), .ret]) m =
      (env.run k (vs ++ bufferArgs env.dl m.mem as a (env.dl.allocBits elt / 8) tys) m.mem).map
        fun result => (result.2, m.calls ++
          [(k, vs ++ bufferArgs env.dl m.mem as a (env.dl.allocBits elt / 8) tys)]) := by
  obtain ⟨regs, hexec, hregs, hloads⟩ := exec_derefBuffer elt as hq tys
    [.call none (.const (.fn k)) (first ++ derefArgs r tys.length), .ret] 0 m ha
  rw [hexec]
  let args := bufferArgs env.dl m.mem as a (env.dl.allocBits elt / 8) tys
  have hlen : args.length = tys.length := List.length_mapIdx
  have hrest : (derefArgs r tys.length).mapM (({ m with regs := regs } : Machine).val env) =
      some args := by
    rw [← hlen]
    refine mapM_derefArgs fun j hj => ?_
    have hj' : j < tys.length := hlen ▸ hj
    have hload := hloads j hj'
    rw [Nat.zero_add] at hload
    refine hload.trans (congrArg some ?_)
    rw [gepAddress_eq _ _ _ _ (hj'.trans hfew), stored_mod]
    simp [args, bufferArgs]
  have hargs : (first ++ derefArgs r tys.length).mapM
      (({ m with regs := regs } : Machine).val env) = some (vs ++ args) := by
    rw [List.mapM_append, hfirst regs fun x hx => hregs x (by omega), hrest]
    rfl
  simp only [execBody, Machine.exec, Const.target_fn, hargs,
    Option.bind_eq_bind, Option.bind_some]
  cases env.run k (vs ++ args) m.mem <;> rfl

/-- An outlined function's wrapper calls the function, with the two thread ids and with
arguments in slots of a pointer's size at `buf` in device memory, and returns. -/
theorem call_outlinedWrapper (f : Fn) (g b buf : Nat) (mem : Memory) :
    let args := [g, b] ++ bufferArgs env.dl mem env.dl.DeviceAS buf
      (env.dl.allocBits (argTy env.dl) / 8) (f.ty.params.drop 2)
    callBody env (outlinedWrapperBody env.dl f) [g, b, buf] mem =
      (env.run f args mem).map fun result => (result.2, [(f, args)]) := by
  let m : Machine := ⟨fun r => [g, b, buf][r]?, mem, []⟩
  have hfew : (f.ty.params.drop 2).length < 2 ^ 27 :=
    (List.length_drop ▸ Nat.sub_le _ _).trans_lt f.ty.few
  have hfirst : ∀ regs : Nat → Option Nat, (∀ x < 3, regs x = m.regs x) →
      [Value.reg 0, .reg 1].mapM (({ m with regs := regs } : Machine).val env) = some [g, b] := by
    intro regs hregs
    simp [Machine.val, hregs, m]
  exact exec_deref_call (argTy env.dl) env.dl.DeviceAS (by decide) (f.ty.params.drop 2) hfew f
    [.reg 0, .reg 1] [g, b] rfl hfirst

end HeroTools.Omp
