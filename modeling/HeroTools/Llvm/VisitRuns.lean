import HeroTools.Llvm.Simulation
import HeroTools.Llvm.Visit

/-! What one visit does to a run: the inserted code does what the instruction did. -/

namespace HeroTools.Llvm
open Renaming
variable {κ ω : Type} {dl : DataLayout} {L : Lang κ ω} {fname : String} {n : Reg}
  {i : Inst κ ω} {s s' : State}

/-! ## Instructions that the visitor inserts -/

theorem support_load : ∀ N ∈ supportWidths, support (loadName N) = some (.load N) := by
  decide

theorem support_store : ∀ N ∈ supportWidths, support (storeName N) = some (.store N) := by
  decide

theorem exec_cast {o : Operand κ} {v : Nat} (ho : s.val L o = some v) (d : Reg) (op : CastOp)
    (srcTy dstTy : Ty) :
    exec L (.cast d op srcTy dstTy o) s = some (s.set d (castBits L.dl op srcTy dstTy v)) := by
  rw [exec, ho]
  rfl

theorem exec_load_call {N : Nat} (hN : N ∈ supportWidths) {o : Operand κ} {a : Nat}
    (ho : s.val L o = some a) (d : Reg) (ret : Ty) (params : List Ty) :
    exec L (.call (some d) (loadName N) ret params [o]) s =
      some ((s.load L.dl L.dl.HostAS a N).2.set d (s.load L.dl L.dl.HostAS a N).1) := by
  simp only [exec, List.mapM_cons, List.mapM_nil, ho, Option.bind_eq_bind, Option.bind_some,
    execCall, support_load N hN, Option.pure_def]
  rfl

theorem exec_store_call {N : Nat} (hN : N ∈ supportWidths) {o o' : Operand κ} {a v : Nat}
    (ho : s.val L o = some a) (ho' : s.val L o' = some v) (ret : Ty) (params : List Ty) :
    exec L (.call none (storeName N) ret params [o, o']) s =
      some (s.store L.dl L.dl.HostAS a N v) := by
  simp only [exec, List.mapM_cons, List.mapM_nil, ho, ho', Option.bind_eq_bind,
    Option.bind_some, execCall, support_store N hN, Option.pure_def]

@[simp] theorem State.val_set (s : State) (r : Reg) (v : Nat) :
    (s.set r v).val L (.reg r) = some v := Function.update_self ..

theorem State.val_set_ne {r r' : Reg} {w : Option Nat} (hr : r < r')
    (hw : s.val L (.reg r) = w) (v : Nat) : (s.set r' v).val L (.reg r) = w :=
  (Function.update_of_ne (Nat.ne_of_lt hr) ..).trans hw

theorem State.load_mod (s : State) (dl : DataLayout) (as a N : Nat) :
    s.load dl as (a % 2 ^ dl.pointerBits as) N = s.load dl as a N := by
  unfold State.load
  rw [Nat.mod_mod]

theorem State.store_mod (s : State) (dl : DataLayout) (as a N v : Nat) :
    s.store dl as (a % 2 ^ dl.pointerBits as) N v = s.store dl as a N v := by
  unfold State.store
  rw [Nat.mod_mod]

theorem State.store_value_mod (s : State) (dl : DataLayout) (as a N v : Nat) :
    s.store dl as a N (v % 2 ^ N) = s.store dl as a N v := by
  unfold State.store
  rw [Nat.mod_mod]

theorem State.load_lt (s : State) (dl : DataLayout) (as a N : Nat) :
    (s.load dl as a N).1 < 2 ^ N := Nat.mod_lt _ (Nat.two_pow_pos N)

theorem castBits_host (hdl : dl.Hero) (a : Nat) :
    castBits dl .ptrtoint (.ptr dl.HostAS) (.int (dl.allocBits (.ptr dl.HostAS))) a =
      a % 2 ^ dl.pointerBits dl.HostAS := by
  rw [hdl.pointer (.inl rfl)]
  exact Nat.mod_mod ..

theorem castBits_of_int {ty : Ty} {v : Nat} (hv : v < 2 ^ ty.bits dl) :
    castBits dl (if ty.isPointerTy then .inttoptr else .bitcast) (.int (ty.bits dl)) ty v =
      v := by
  cases ty with
  | ptr as => exact (Nat.mod_mod _ _).trans (Nat.mod_eq_of_lt hv)
  | _ => exact Nat.mod_eq_of_lt hv

theorem castBits_to_int (ty : Ty) (v : Nat) :
    castBits dl (if ty.isPointerTy then .ptrtoint else .bitcast) ty (.int (ty.bits dl)) v =
      v % 2 ^ ty.bits dl := by
  cases ty with
  | ptr as => exact Nat.mod_mod _ _
  | _ => rfl

/-- From related states, the rewritten code does what the instruction does. -/
def Rewrite.Simulates (L : Lang κ ω) (n : Reg) (i : Inst κ ω) (r : Rewrite κ ω) : Prop :=
  ∀ s s', Sim r.uses n s s' →
    Option.Rel (Sim r.uses n) (exec L i s) (execInsts L (r.insts.map (Inst.map r.uses)) s')

theorem keep_simulates (hi : ∀ o ∈ i.operands, ∀ r ∈ o.regs, r < n) :
    (keep i).Simulates L n i := by
  intro s s' h
  change Option.Rel _ _ ((exec L (i.map id) s').bind some)
  rw [Option.bind_fun_some]
  exact h.exec_map ⟨fun _ _ => kept_id, hi⟩

theorem exec_host_load (hdl : L.dl.Hero) {N : Nat} (hN : N ∈ supportWidths) {ptr : Operand κ}
    {a : Nat} (hptr : s.val L ptr = some a) (n : Reg) (ret : Ty) (params : List Ty)
    (is : List (Inst κ ω)) :
    execInsts L (.cast n .ptrtoint (.ptr L.dl.HostAS)
        (.int (L.dl.allocBits (.ptr L.dl.HostAS))) ptr ::
      .call (some (n + 1)) (loadName N) ret params [.reg n] :: is) s =
      execInsts L is ((((s.set n (a % 2 ^ L.dl.pointerBits L.dl.HostAS)).load L.dl
        L.dl.HostAS a N).2).set (n + 1) (s.load L.dl L.dl.HostAS a N).1) := by
  rw [execInsts, exec_cast hptr, Option.bind_some, execInsts,
    exec_load_call hN (State.val_set ..), Option.bind_some, castBits_host hdl, State.load_mod]
  rfl

theorem exec_load_none {ptr : Operand κ} (hptr : s.val L ptr = none) (dst : Reg) (ty : Ty)
    (as : Nat) : exec L (.load dst ty as ptr) s = none := by
  rw [exec, hptr]
  rfl

theorem exec_cast_none {o : Operand κ} (ho : s.val L o = none) (d : Reg) (op : CastOp)
    (srcTy dstTy : Ty) (is : List (Inst κ ω)) :
    execInsts L (.cast d op srcTy dstTy o :: is) s = none := by
  rw [execInsts, exec, ho]
  rfl

theorem replace_fresh {dst t e : Reg} (hdst : dst < n) (he : n ≤ e) : replace dst t e = e :=
  if_neg (Nat.ne_of_gt (Nat.lt_of_lt_of_le hdst he))

theorem load_int_simulates (hdl : L.dl.Hero) {N : Nat} (hN : N ∈ supportWidths) {dst : Reg}
    (hdst : dst < n) {ptr : Operand κ} (hptr : ∀ r ∈ ptr.regs, r < n) (ret : Ty)
    (params : List Ty) :
    Rewrite.Simulates (ω := ω) L n (.load dst (.int N) L.dl.HostAS ptr)
      ⟨[.cast n .ptrtoint (.ptr L.dl.HostAS) (.int (L.dl.allocBits (.ptr L.dl.HostAS))) ptr,
        .call (some (n + 1)) (loadName N) ret params [.reg n]], replace dst (n + 1)⟩ := by
  intro s s' h
  have hval := h.val (L := L) hptr
  simp only [List.map_cons, List.map_nil, Inst.replace, Operand.map_reg,
    replace_fresh hdst (Nat.le_refl n)] at h ⊢
  cases hv : s.val L ptr with
  | none =>
    rw [exec_load_none hv, exec_cast_none (hval.trans hv)]
    exact .none
  | some a =>
    rw [exec_host_load hdl hN (hval.trans hv), execInsts, exec, hv]
    have hn := h.set_free (replace_ne (Nat.le_refl n) (Nat.ne_of_lt (Nat.lt_succ_self n)))
      (a % 2 ^ L.dl.pointerBits L.dl.HostAS)
    rw [h.load_value]
    exact .some ((hn.load ..).set_renamed (replace_eq_iff (Nat.le_succ n)) _)

theorem load_cast_simulates (hdl : L.dl.Hero) {ty : Ty} (hty : ty.movable L.dl) {dst : Reg}
    (hdst : dst < n) {ptr : Operand κ} (hptr : ∀ r ∈ ptr.regs, r < n) (ret : Ty)
    (params : List Ty) :
    Rewrite.Simulates (ω := ω) L n (.load dst ty L.dl.HostAS ptr)
      ⟨[.cast n .ptrtoint (.ptr L.dl.HostAS) (.int (L.dl.allocBits (.ptr L.dl.HostAS))) ptr,
        .call (some (n + 1)) (loadName (ty.bits L.dl)) ret params [.reg n],
        .cast (n + 2) (if ty.isPointerTy then .inttoptr else .bitcast) (.int (ty.bits L.dl)) ty
          (.reg (n + 1))], replace dst (n + 2)⟩ := by
  intro s s' h
  have hval := h.val (L := L) hptr
  simp only [List.map_cons, List.map_nil, Inst.replace, Operand.map_reg,
    replace_fresh hdst (Nat.le_refl n), replace_fresh hdst (Nat.le_succ n)] at h ⊢
  cases hv : s.val L ptr with
  | none =>
    rw [exec_load_none hv, exec_cast_none (hval.trans hv)]
    exact .none
  | some a =>
    rw [exec_host_load hdl hty.2 (hval.trans hv), execInsts, exec_cast (State.val_set ..),
      Option.bind_some, execInsts, castBits_of_int (State.load_lt ..), exec, hv]
    have hn := h.set_free (replace_ne (Nat.le_refl n) (Nat.ne_of_lt (Nat.lt_add_of_pos_right
      Nat.two_pos))) (a % 2 ^ L.dl.pointerBits L.dl.HostAS)
    -- two temporaries, then the register that `dst` is renamed to
    have hn1 := (hn.load L.dl L.dl.HostAS a (ty.bits L.dl)).set_free
      (replace_ne (Nat.le_succ n) (Nat.ne_of_lt (Nat.lt_succ_self (n + 1))))
      (s.load L.dl L.dl.HostAS a (ty.bits L.dl)).1
    rw [h.load_value]
    exact .some (hn1.set_renamed (replace_eq_iff (Nat.le_add_right n 2)) _)

theorem visitLoadInst_simulates (hdl : L.dl.Hero) {ty : Ty} (hty : ty.movable L.dl) {dst : Reg}
    (hdst : dst < n) {ptr : Operand κ} (hptr : ∀ r ∈ ptr.regs, r < n) (fname : String)
    (as : Nat) :
    (visitLoadInst (ω := ω) L.dl fname n dst ty as ptr).Simulates L n (.load dst ty as ptr) := by
  have hkeep : (keep (Inst.load (ω := ω) dst ty as ptr)).Simulates L n (.load dst ty as ptr) :=
    keep_simulates fun o ho => (List.mem_singleton.mp ho).symm ▸ hptr
  unfold visitLoadInst
  dsimp only
  split
  · exact hkeep
  split
  · exact hkeep
  next has =>
  rw [not_not] at has
  subst has
  rw [hdl.accessBits_eq hty]
  split
  · exact load_cast_simulates hdl hty hdst hptr _ _
  next hint =>
  rw [not_not] at hint
  rw [hint]
  exact load_int_simulates hdl hty.2 hdst hptr _ _

theorem exec_store_none {ptr : Operand κ} (hptr : s.val L ptr = none) (ty : Ty)
    (val : Operand κ) (as : Nat) : exec L (.store ty val as ptr) s = none := by
  rw [exec, hptr]
  cases s.val L val <;> rfl

theorem execCall_none {o o' : Operand κ} (ho' : s.val L o' = none) (dst : Option Reg)
    (callee : String) (ret : Ty) (params : List Ty) (is : List (Inst κ ω)) :
    execInsts L (.call dst callee ret params [o, o'] :: is) s = none := by
  have hargs : [o, o'].mapM (s.val L) = none := by
    simp only [List.mapM_cons, List.mapM_nil, ho', Option.bind_eq_bind, Option.bind_none,
      Option.bind_fun_none]
  rw [execInsts, exec, hargs]
  rfl

theorem store_host_simulates (hdl : L.dl.Hero) {ty : Ty} {val ptr : Operand κ}
    (hptr : ∀ r ∈ ptr.regs, r < n) {is : List (Inst κ ω)}
    (his : ∀ s s' a, Sim id n s s' →
      s'.val L (.reg n) = some (a % 2 ^ L.dl.pointerBits L.dl.HostAS) →
      Option.Rel (Sim id n)
        ((s.val L val).map (s.store L.dl L.dl.HostAS a (ty.bits L.dl)))
        (execInsts L (is.map (Inst.map id)) s')) :
    Rewrite.Simulates L n (.store ty val L.dl.HostAS ptr)
      ⟨.cast n .ptrtoint (.ptr L.dl.HostAS) (.int (L.dl.allocBits (.ptr L.dl.HostAS))) ptr :: is,
        id⟩ := by
  intro s s' h
  have ha := h.val (L := L) hptr
  simp only [List.map_cons, Inst.replace] at h ha ⊢
  cases hp : s.val L ptr with
  | none =>
    rw [exec_store_none hp, exec_cast_none (ha.trans hp)]
    exact .none
  | some a =>
    have hn := h.set_free (fun r hr => Nat.ne_of_lt hr) (a % 2 ^ L.dl.pointerBits L.dl.HostAS)
    have hstore : exec L (.store (ω := ω) ty val L.dl.HostAS ptr) s =
        (s.val L val).map (s.store L.dl L.dl.HostAS a (ty.bits L.dl)) := by
      rw [exec, hp]
      cases s.val L val <;> rfl
    rw [hstore, execInsts, exec_cast (ha.trans hp), Option.bind_some, castBits_host hdl]
    exact his _ _ a hn (State.val_set ..)

theorem store_int_simulates (hdl : L.dl.Hero) {N : Nat} (hN : N ∈ supportWidths)
    {val ptr : Operand κ} (hval : ∀ r ∈ val.regs, r < n) (hptr : ∀ r ∈ ptr.regs, r < n)
    (ret : Ty) (params : List Ty) :
    Rewrite.Simulates (ω := ω) L n (.store (.int N) val L.dl.HostAS ptr)
      ⟨[.cast n .ptrtoint (.ptr L.dl.HostAS) (.int (L.dl.allocBits (.ptr L.dl.HostAS))) ptr,
        .call none (storeName N) ret params [.reg n, val]], id⟩ := by
  refine store_host_simulates hdl hptr fun s s' a h ha => ?_
  have hv := h.val (L := L) hval
  simp only [List.map_cons, List.map_nil, Inst.replace, Operand.map_reg, id_eq] at hv ⊢
  cases hw : s.val L val with
  | none =>
    rw [execCall_none (hv.trans hw)]
    exact .none
  | some v =>
    rw [execInsts, exec_store_call hN ha (hv.trans hw), Option.bind_some, execInsts,
      State.store_mod]
    exact .some (h.store ..)

theorem store_cast_simulates (hdl : L.dl.Hero) {ty : Ty} (hty : ty.movable L.dl)
    {val ptr : Operand κ} (hval : ∀ r ∈ val.regs, r < n) (hptr : ∀ r ∈ ptr.regs, r < n)
    (ret : Ty) (params : List Ty) :
    Rewrite.Simulates (ω := ω) L n (.store ty val L.dl.HostAS ptr)
      ⟨[.cast n .ptrtoint (.ptr L.dl.HostAS) (.int (L.dl.allocBits (.ptr L.dl.HostAS))) ptr,
        .cast (n + 1) (if ty.isPointerTy then .ptrtoint else .bitcast) ty
          (.int (ty.bits L.dl)) val,
        .call none (storeName (ty.bits L.dl)) ret params [.reg n, .reg (n + 1)]], id⟩ := by
  refine store_host_simulates hdl hptr fun s s' a h ha => ?_
  have hv := h.val (L := L) hval
  simp only [List.map_cons, List.map_nil, Inst.replace, Operand.map_reg, id_eq] at hv ⊢
  cases hw : s.val L val with
  | none =>
    rw [exec_cast_none (hv.trans hw)]
    exact .none
  | some v =>
    -- the store itself cuts the value off again
    have hn := h.set_free (fun r hr => Nat.ne_of_lt (Nat.lt_succ_of_lt hr)) (v % 2 ^ ty.bits L.dl)
    rw [execInsts, exec_cast (hv.trans hw), Option.bind_some, castBits_to_int, execInsts,
      exec_store_call hty.2 (State.val_set_ne (Nat.lt_succ_self n) ha _) (State.val_set ..),
      Option.bind_some, execInsts, State.store_mod, State.store_value_mod]
    exact .some (hn.store ..)

theorem visitStoreInst_simulates (hdl : L.dl.Hero) {ty : Ty} (hty : ty.movable L.dl)
    {val ptr : Operand κ} (hval : ∀ r ∈ val.regs, r < n) (hptr : ∀ r ∈ ptr.regs, r < n)
    (as : Nat) :
    (visitStoreInst (ω := ω) L.dl n ty val as ptr).Simulates L n (.store ty val as ptr) := by
  unfold visitStoreInst
  dsimp only
  split
  · apply keep_simulates
    intro o ho
    rcases List.mem_pair.mp ho with rfl | rfl
    · exact hval
    · exact hptr
  next has =>
  rw [not_not] at has
  subst has
  rw [hdl.accessBits_eq hty]
  split
  · exact store_cast_simulates hdl hty hval hptr _ _
  next hint =>
  rw [not_not] at hint
  rw [hint]
  exact store_int_simulates hdl hty.2 hval hptr _ _

theorem castBits_through {as as' DS : Nat} (h : (Ty.ptr as').bits dl ≤ DS) (v : Nat) :
    castBits dl .inttoptr (.int DS) (.ptr as')
        (castBits dl .ptrtoint (.ptr as) (.int DS) v) =
      castBits dl .addrspacecast (.ptr as) (.ptr as') v := by
  change v % 2 ^ (Ty.ptr as).bits dl % 2 ^ DS % 2 ^ DS % 2 ^ (Ty.ptr as').bits dl =
    v % 2 ^ (Ty.ptr as).bits dl % 2 ^ (Ty.ptr as').bits dl
  rw [Nat.mod_mod, Nat.mod_mod_of_dvd _ (Nat.pow_dvd_pow 2 h)]

theorem castBits_through_int (hdl : dl.Hero) {as : Nat}
    (has : as = dl.HostAS ∨ as = dl.DeviceAS) (src v : Nat) :
    castBits dl .inttoptr (.int (dl.allocBits (.ptr as))) (.ptr as)
        (castBits dl .ptrtoint (.ptr src) (.int (dl.allocBits (.ptr as))) v) =
      castBits dl .addrspacecast (.ptr src) (.ptr as) v :=
  castBits_through (hdl.pointer has).ge v

theorem eq_ptr_of_no_vector {ty : Ty} (h : ty.getScalarType.isPointerTy = true)
    (hl : ty.lanes = none) : ∃ as, ty = .ptr as := by
  cases ty with
  | ptr as => exact ⟨as, rfl⟩
  | vec m t => exact absurd hl (Option.some_ne_none m)
  | _ => exact absurd h Bool.false_ne_true

theorem cast_pair_simulates (hdl : L.dl.Hero) {src as : Nat}
    (has : as = L.dl.HostAS ∨ as = L.dl.DeviceAS) {dst : Reg} (hdst : dst < n)
    {val : Operand κ} (hval : ∀ r ∈ val.regs, r < n) :
    Rewrite.Simulates (ω := ω) L n (.cast dst .addrspacecast (.ptr src) (.ptr as) val)
      ⟨[.cast n .ptrtoint (.ptr src) (.int (L.dl.allocBits (.ptr as))) val,
        .cast (n + 1) .inttoptr (.int (L.dl.allocBits (.ptr as))) (.ptr as) (.reg n)],
        replace dst (n + 1)⟩ := by
  intro s s' h
  have hv := h.val (L := L) hval
  simp only [List.map_cons, List.map_nil, Inst.replace, Operand.map_reg,
    replace_fresh hdst (Nat.le_refl n)] at h ⊢
  cases hw : s.val L val with
  | none =>
    rw [exec, hw, exec_cast_none (hv.trans hw)]
    exact .none
  | some v =>
    have hn := h.set_free (replace_ne (Nat.le_refl n) (Nat.ne_of_lt (Nat.lt_succ_self n)))
      (castBits L.dl .ptrtoint (.ptr src) (.int (L.dl.allocBits (.ptr as))) v)
    rw [execInsts, exec_cast (hv.trans hw), Option.bind_some, execInsts,
      exec_cast (State.val_set ..), Option.bind_some, execInsts, castBits_through_int hdl has,
      exec_cast hw]
    exact .some (hn.set_renamed (replace_eq_iff (Nat.le_succ n)) _)

theorem visitAddrSpaceCastInst_simulates (hdl : L.dl.Hero) {srcTy dstTy : Ty} {dst : Reg}
    {val : Operand κ} (hl : castIsValid .addrspacecast srcTy dstTy = true)
    (hpv : (Inst.cast (ω := ω) dst .addrspacecast srcTy dstTy val).movesPointerVector L.dl
      fname = false)
    (hdst : dst < n) (hval : ∀ r ∈ val.regs, r < n) :
    (visitAddrSpaceCastInst (ω := ω) L.dl n dst srcTy dstTy val).Simulates L n
      (.cast dst .addrspacecast srcTy dstTy val) := by
  unfold visitAddrSpaceCastInst
  split
  · exact keep_simulates fun o ho => (List.mem_singleton.mp ho).symm ▸ hval
  next hpair =>
  rw [Bool.not_eq_true', Bool.not_eq_false] at hpair
  simp only [castIsValid, Bool.and_eq_true, beq_iff_eq] at hl
  obtain ⟨⟨⟨hsrc, hdst_ty⟩, -⟩, hlanes⟩ := hl
  simp only [Inst.movesPointerVector, hpair, Bool.true_and, isPointerVector_eq hsrc,
    Bool.not_eq_false', beq_iff_eq] at hpv
  obtain ⟨src, rfl⟩ := eq_ptr_of_no_vector hsrc hpv
  obtain ⟨as, rfl⟩ := eq_ptr_of_no_vector hdst_ty (hlanes.symm.trans hpv)
  have has : as = L.dl.HostAS ∨ as = L.dl.DeviceAS := by
    rcases hostDevicePair_iff.mp hpair with h | h
    · exact .inr h.2
    · exact .inl h.2
  exact cast_pair_simulates hdl has hdst hval

theorem visit_simulates (hdl : L.dl.Hero) (hs : i.supported L.dl) (hl : i.legal = true)
    (hpv : i.movesPointerVector L.dl fname = false) (hdst : ∀ d ∈ i.dst, d < n)
    (hops : ∀ o ∈ i.operands, ∀ r ∈ o.regs, r < n) :
    (visit L.dl fname n i).Simulates L n i := by
  cases i with
  | load dst ty as ptr =>
    exact visitLoadInst_simulates hdl hs (hdst dst rfl) (hops ptr List.mem_cons_self) fname as
  | store ty val as ptr =>
    exact visitStoreInst_simulates hdl hs (hops val List.mem_cons_self)
      (hops ptr (List.mem_cons_of_mem _ List.mem_cons_self)) as
  | cast dst op srcTy dstTy val =>
    cases op with
    | addrspacecast =>
      exact visitAddrSpaceCastInst_simulates hdl hl hpv (hdst dst rfl)
        (hops val List.mem_cons_self)
    | _ => exact keep_simulates hops
  | _ => exact keep_simulates hops

end HeroTools.Llvm
