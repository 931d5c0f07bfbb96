import HeroTools.Llvm.SupportCalls
import Mathlib.Logic.Relation
import Mathlib.Data.List.Perm.Subperm

/-! Calls of support functions in the bodies of support functions. -/

namespace HeroTools.Llvm
variable {κ ω : Type} {dl : DataLayout} {E : LowerMemIntrinsics κ ω} {f : Func κ ω}
  {i : Inst κ ω} {fname : String} {IID : IntrinsicId} {fn : String}

/-! ## Calls -/

def supportNames (ss : List Signature) : List String :=
  (ss.map Signature.name).filter supportFunction

def Func.supportCalls (f : Func κ ω) : List String := supportNames (signatures f.insts)

def Module.calls (M : Module κ ω) (a b : String) : Prop :=
  ∃ f ∈ M.functions, f.name = a ∧ supportFunction a = true ∧ b ∈ f.supportCalls

def Module.Acyclic (M : Module κ ω) : Prop := ∀ a, ¬ Relation.TransGen M.calls a a

/-- The pass adds no call of a support function to one. -/
def NoCallAdded (f f' : Func κ ω) : Prop :=
  f'.name = f.name ∧ (supportFunction f.name = true → f'.supportCalls.Subperm f.supportCalls)

/-- No support function gets more calls of support functions, and if none could call itself
before, directly or through others, none can after. -/
structure CallsKept (M M' : Module κ ω) : Prop where
  added : List.Forall₂ NoCallAdded M.functions M'.functions
  acyclic : M.Acyclic → M'.Acyclic

theorem calls_of_added {M M' : Module κ ω} (h : List.Forall₂ NoCallAdded M.functions M'.functions)
    {a b : String} (hcalls : M'.calls a b) : M.calls a b := by
  obtain ⟨f', hf', rfl, hsupport, hb⟩ := hcalls
  obtain ⟨k, hk, rfl⟩ := List.getElem_of_mem hf'
  have hlen : k < M.functions.length := h.length_eq ▸ hk
  obtain ⟨hname, hadded⟩ := h.get hlen hk
  rw [List.get_eq_getElem, List.get_eq_getElem] at hname hadded
  rw [hname] at hsupport ⊢
  exact ⟨_, List.getElem_mem hlen, rfl, hsupport, (hadded hsupport).subset hb⟩

theorem callsKept_iff {M M' : Module κ ω} :
    CallsKept M M' ↔ List.Forall₂ NoCallAdded M.functions M'.functions := by
  refine ⟨CallsKept.added, fun h => ⟨h, fun hM a ha => hM a ?_⟩⟩
  exact Relation.TransGen.mono (fun _ _ => calls_of_added h) _ _ ha

/-! ## Visiting -/

theorem startswith_append (pre s : String) : startswith (pre ++ s) pre = true := by
  unfold startswith
  rw [String.toList_append, List.isPrefixOf_iff_prefix]
  exact List.prefix_append _ _

theorem supportFunction_load (N : Nat) : supportFunction (loadName N) = true := by
  unfold supportFunction loadName
  rw [String.append_assoc, startswith_append]
  rfl

theorem supportFunction_store (N : Nat) : supportFunction (storeName N) = true := by
  unfold supportFunction storeName
  rw [String.append_assoc, startswith_append, Bool.or_true]

def Inst.called (dl : DataLayout) (fname : String) (i : Inst κ ω) : List Signature :=
  (if i.rewritten dl fname then i.supportCall dl else i.signature).toList

theorem signatures_pieces {is : List (Inst κ ω)} {rs : List (List (Inst κ ω))}
    (h : List.Forall₂ (Visited dl fname) is rs) :
    signatures rs.flatten = is.flatMap (Inst.called dl fname) := by
  induction h with
  | nil => rfl
  | cons hv _ ih =>
    rw [List.flatten_cons, List.flatMap_cons, ← ih]
    unfold signatures
    rw [List.filterMap_append]
    exact congrArg (· ++ _) hv.signatures

theorem supportNames_append (ss ss' : List Signature) :
    supportNames (ss ++ ss') = supportNames ss ++ supportNames ss' := by
  unfold supportNames
  rw [List.map_append, List.filter_append]

theorem supportNames_rewritten (hi : i.rewritten dl fname = true) :
    (supportNames (i.called dl fname)).length = 1 ∧ i.signature = none := by
  unfold Inst.called
  rw [if_pos hi]
  cases i with
  | load dst ty as ptr =>
    refine ⟨?_, rfl⟩
    simp [Inst.supportCall, supportNames, supportFunction_load]
  | store ty val as ptr =>
    refine ⟨?_, rfl⟩
    simp [Inst.supportCall, supportNames, supportFunction_store]
  | _ => exact absurd hi Bool.false_ne_true

theorem supportNames_length (dl : DataLayout) (fname : String) (is : List (Inst κ ω)) :
    (supportNames (is.flatMap (Inst.called dl fname))).length =
      (supportNames (signatures is)).length + is.countP (Inst.rewritten dl fname) := by
  induction is with
  | nil => rfl
  | cons i is ih =>
    have hcons : signatures (i :: is) = i.signature.toList ++ signatures is := by
      unfold signatures
      rw [List.filterMap_cons]
      cases i.signature <;> rfl
    rw [List.flatMap_cons, supportNames_append, List.length_append, ih, hcons,
      supportNames_append, List.length_append]
    by_cases hi : i.rewritten dl fname = true
    · obtain ⟨hone, hnone⟩ := supportNames_rewritten hi
      rw [hone, hnone, List.countP_cons_of_pos hi]
      simp only [Option.toList_none, supportNames, List.map_nil, List.filter_nil,
        List.length_nil]
      omega
    · have hkept : i.called dl fname = i.signature.toList := by
        unfold Inst.called
        rw [if_neg hi]
      rw [hkept, List.countP_cons_of_neg hi, Nat.add_assoc]

theorem flatMap_called_of_not_rewritten {is : List (Inst κ ω)}
    (h : ∀ i ∈ is, i.rewritten dl fname = false) :
    is.flatMap (Inst.called dl fname) = signatures is := by
  induction is with
  | nil => rfl
  | cons i is ih =>
    have hi := h i List.mem_cons_self
    have hrest := ih fun j hj => h j (List.mem_cons_of_mem i hj)
    rw [List.flatMap_cons, hrest]
    unfold Inst.called signatures
    rw [hi, List.filterMap_cons]
    cases i.signature <;> rfl

/-! ## Expanding -/

section Expanding
variable (isZero : κ → Bool)

def Inst.storeAs : Inst κ ω → Option Nat
  | .store _ _ as _ => some as
  | _ => none

def Inst.destination : Inst κ ω → Option Nat
  | .mem _ _ (d :: _) _ => some d
  | _ => none

/-- A `memcpy` of constant length 0, for which LLVM emits no loop. -/
def Inst.copiesNothing : Inst κ ω → Bool
  | .mem _ (.intrinsic .memcpy _) _ (_ :: _ :: .const len :: _) => isZero len
  | _ => false

/-- The loops move integers, and store them to the destination of the intrinsic. -/
structure AsLoop (i : Inst κ ω) (emitted : List (Inst κ ω)) : Prop where
  integers : ∀ j ∈ emitted, j.movesInteger = true
  stores : ∀ as, (∃ j ∈ emitted, j.storeAs = some as) ↔
    i.destination = some as ∧ i.copiesNothing isZero = false

structure LowerMemIntrinsics.AsLoops (E : LowerMemIntrinsics κ ω) : Prop where
  expandMemCpyAsLoop : LowersBy (AsLoop isZero) E.expandMemCpyAsLoop
  expandMemMoveAsLoop : LowersBy (AsLoop isZero) E.expandMemMoveAsLoop
  expandMemSetAsLoop : LowersBy (AsLoop isZero) E.expandMemSetAsLoop

def Inst.writesHost (dl : DataLayout) : Inst κ ω → Bool
  | .store _ _ as _ => as == dl.HostAS
  | .mem dst kind ass ops => kind.expandable && (ass.head? == some dl.HostAS) &&
      !(Inst.mem (ω := ω) dst kind ass ops).copiesNothing isZero
  | _ => false

variable {isZero}

theorem LowersBy.to_integers {expand : Cursor κ ω → Func κ ω}
    (h : LowersBy (AsLoop isZero) expand) : LowersToIntegers expand := by
  intro c i rest htodo
  obtain ⟨hname, emitted, hloop, hperm⟩ := h c i rest htodo
  exact ⟨hname, emitted, hloop.integers, hperm⟩

theorem LowerMemIntrinsics.AsLoops.to_integers (hE : E.AsLoops isZero) : E.ToIntegers :=
  ⟨hE.expandMemCpyAsLoop.to_integers, hE.expandMemMoveAsLoop.to_integers,
    hE.expandMemSetAsLoop.to_integers⟩

theorem LowerMemIntrinsics.AsLoops.expansion (hE : E.AsLoops isZero)
    {expand : Cursor κ ω → Func κ ω} (h : expansion E IID = some expand) :
    LowersBy (AsLoop isZero) expand := by
  cases IID with
  | memcpy => exact Option.some.inj h ▸ hE.expandMemCpyAsLoop
  | memmove => exact Option.some.inj h ▸ hE.expandMemMoveAsLoop
  | memset => exact Option.some.inj h ▸ hE.expandMemSetAsLoop
  | _ => cases h

theorem movesInteger_signature (hi : i.movesInteger = true) : i.signature = none := by
  cases i with
  | call dst callee ret params args => exact absurd hi Bool.false_ne_true
  | _ => rfl

theorem movesInteger_writesHost (hi : i.movesInteger = true) :
    i.writesHost isZero dl = true ↔ i.storeAs = some dl.HostAS := by
  cases i with
  | store ty val as ptr => simp [Inst.writesHost, Inst.storeAs]
  | mem dst kind ass ops => exact absurd hi Bool.false_ne_true
  | _ => exact iff_of_false Bool.false_ne_true nofun

theorem toExpand_writesHost (hsome : (expansion E IID).isSome = true)
    (hi : toExpand dl IID fn i = true) :
    i.writesHost isZero dl = true ↔
      i.destination = some dl.HostAS ∧ i.copiesNothing isZero = false := by
  obtain ⟨ass, hacc, -⟩ := toExpand_iff.mp hi
  have hkind : (MemKind.intrinsic IID fn).expandable = true :=
    MemKind.expandable_iff.mpr ⟨IID, fn, rfl, hsome⟩
  cases i with
  | mem dst kind ass' ops =>
    obtain ⟨rfl, rfl⟩ := Prod.mk.inj (Option.some.inj hacc)
    simp only [Inst.writesHost, hkind, Bool.true_and, Bool.and_eq_true, beq_iff_eq,
      Bool.not_eq_true']
    cases ass' <;> rfl
  | _ => cases hacc

structure SameCalls (isZero : κ → Bool) (dl : DataLayout) (f f' : Func κ ω) : Prop where
  signatures : (signatures f'.insts).Perm (signatures f.insts)
  writes : (∃ i ∈ f'.insts, i.writesHost isZero dl = true) ↔
    ∃ i ∈ f.insts, i.writesHost isZero dl = true

theorem SameCalls.refl (f : Func κ ω) : SameCalls isZero dl f f := ⟨.refl _, Iff.rfl⟩

theorem SameCalls.trans {f f' f'' : Func κ ω} (h : SameCalls isZero dl f f')
    (h' : SameCalls isZero dl f' f'') : SameCalls isZero dl f f'' :=
  ⟨h'.signatures.trans h.signatures, h'.writes.trans h.writes⟩

theorem expandUse_same_calls (hE : E.AsLoops isZero) (f : Func κ ω) :
    SameCalls isZero dl f (expandUse E dl IID fn f) := by
  rcases expandUse_by (fun _ hx => hE.expansion hx) dl fn f with
    ⟨heq, -⟩ | ⟨-, hsome, i, others, emitted, hi, hloop, hperm, hperm'⟩
  · rw [heq]
    exact SameCalls.refl f
  · have hnone : i.signature = none := by
      obtain ⟨ass, hacc, -⟩ := toExpand_iff.mp hi
      cases i with
      | call dst callee ret params args => cases hacc
      | _ => rfl
    have hemitted : signatures emitted = [] :=
      List.filterMap_eq_nil_iff.mpr fun j hj => movesInteger_signature (hloop.integers j hj)
    refine ⟨?_, ?_⟩
    · refine (hperm'.filterMap _).trans (List.Perm.trans ?_ (hperm.filterMap _).symm)
      rw [List.filterMap_append, List.filterMap_cons_none hnone]
      exact .of_eq ((congrArg _ hemitted).trans (List.append_nil _))
    -- what the loop stores to is what the intrinsic wrote to
    · have hwrites : (∃ j ∈ emitted, j.writesHost isZero dl = true) ↔
          i.writesHost isZero dl = true := by
        rw [toExpand_writesHost hsome hi, ← hloop.stores]
        exact exists_congr fun j => and_congr_right fun hj =>
          movesInteger_writesHost (hloop.integers j hj)
      simp only [hperm'.mem_iff, hperm.mem_iff, List.mem_append, List.mem_cons, or_and_right,
        exists_or, hwrites, exists_eq_left]
      exact or_comm

theorem expandIntrinsics_same_calls (hE : E.AsLoops isZero)
    (intrinsics : List (IntrinsicId × String)) (f : Func κ ω) :
    SameCalls isZero dl f (expandIntrinsics E dl intrinsics f) := by
  unfold expandIntrinsics
  induction intrinsics generalizing f with
  | nil => exact SameCalls.refl f
  | cons F Fs ih =>
    have huses : SameCalls isZero dl f (expandMemIntrinsicUses E dl F.1 F.2 f) := by
      unfold expandMemIntrinsicUses
      induction f.insts.countP (Inst.isCallOf F.1 F.2) with
      | zero => exact SameCalls.refl f
      | succ n ihn =>
        rw [Function.iterate_succ_apply']
        exact ihn.trans (expandUse_same_calls hE _)
    exact huses.trans (ih _)

/-! ## The whole pass -/

/-- When memory intrinsics are expanded, the visitor rewrites in a support function what
writes to the host. -/
theorem rewritten_iff_writesHost (hf : supportFunction fname = true)
    (hexpanded : ∀ kind ass, i.access = some (kind, ass) → dl.HostAS ∈ ass →
      kind.expandable = false) :
    i.rewritten dl fname = true ↔ i.writesHost isZero dl = true := by
  cases i with
  | load dst ty as ptr => simp [Inst.rewritten, Inst.writesHost, hf]
  | store ty val as ptr => exact Iff.rfl
  | mem dst kind ass ops =>
    refine iff_of_false Bool.false_ne_true fun h => ?_
    simp only [Inst.writesHost, Bool.and_eq_true, beq_iff_eq] at h
    obtain ⟨⟨hkind, hhead⟩, -⟩ := h
    have hnot := hexpanded kind ass rfl (List.mem_of_head? hhead)
    exact Bool.false_ne_true (hnot.symm.trans hkind)
  | _ => exact Iff.rfl

theorem expandIntrinsics_rewritten_iff (hE : E.AsLoops isZero)
    {intrinsics : List (IntrinsicId × String)} (hf : ∀ i ∈ f.insts, i.declared intrinsics = true)
    (hsupport : supportFunction f.name = true) :
    (∃ i ∈ (expandIntrinsics E dl intrinsics f).insts, i.rewritten dl f.name = true) ↔
      ∃ i ∈ f.insts, i.writesHost isZero dl = true := by
  obtain ⟨hexp, hdone⟩ := expand_all hE.to_integers dl intrinsics f
  have hhost := expandable_host hf hexp hdone
  rw [← (expandIntrinsics_same_calls hE intrinsics f).writes]
  exact exists_congr fun i => and_congr_right fun hi =>
    rewritten_iff_writesHost hsupport (hhost i hi)

theorem legalize_supportCalls (hE : E.AsLoops isZero) (g : κ → κ)
    (intrinsics : List (IntrinsicId × String)) (f : Func κ ω) :
    (legalize E dl g intrinsics f).supportCalls.length = f.supportCalls.length +
        (expandIntrinsics E dl intrinsics f).insts.countP (Inst.rewritten dl f.name) ∧
      ((∀ i ∈ (expandIntrinsics E dl intrinsics f).insts, i.rewritten dl f.name = false) →
        (legalize E dl g intrinsics f).supportCalls.Perm f.supportCalls) := by
  have hname : (expandIntrinsics E dl intrinsics f).name = f.name :=
    (expand_all hE.to_integers dl intrinsics f).1.name
  obtain ⟨rs, hinsts, hrs⟩ := legalize_pieces E dl g intrinsics f
  rw [hname] at hrs
  have hexp : SameCalls isZero dl f (expandIntrinsics E dl intrinsics f) :=
    expandIntrinsics_same_calls hE intrinsics f
  have hsame : (supportNames (signatures (expandIntrinsics E dl intrinsics f).insts)).Perm
      f.supportCalls := (hexp.signatures.map _).filter _
  have hcalls : (legalize E dl g intrinsics f).supportCalls = supportNames
      ((expandIntrinsics E dl intrinsics f).insts.flatMap (Inst.called dl f.name)) := by
    unfold Func.supportCalls
    rw [hinsts, signatures_pieces hrs]
  rw [hcalls]
  refine ⟨?_, fun hnone => ?_⟩
  · rw [supportNames_length, hsame.length_eq]
  · rw [flatMap_called_of_not_rewritten hnone]
    exact hsame

theorem noCallAdded_iff (hE : E.AsLoops isZero) (g : κ → κ)
    {intrinsics : List (IntrinsicId × String)}
    (hf : ∀ i ∈ f.insts, i.declared intrinsics = true) :
    NoCallAdded f (legalize E dl g intrinsics f) ↔
      (supportFunction f.name = true → ∀ i ∈ f.insts, ¬ i.writesHost isZero dl = true) := by
  have hname : (legalize E dl g intrinsics f).name = f.name :=
    (legalize_legalized hE.to_integers g hf).name
  obtain ⟨hlength, hperm⟩ : (legalize E dl g intrinsics f).supportCalls.length = _ ∧ _ :=
    legalize_supportCalls hE g intrinsics f
  unfold NoCallAdded
  rw [and_iff_right hname]
  refine forall_congr' fun hsupport => ?_
  have hrew : (∃ i ∈ (expandIntrinsics E dl intrinsics f).insts,
      i.rewritten dl f.name = true) ↔ _ := expandIntrinsics_rewritten_iff hE hf hsupport
  have hiff := not_congr hrew
  simp only [not_exists, not_and] at hiff
  rw [← hiff]
  constructor
  · intro hsub
    have hle := hsub.length_le
    have hzero : (expandIntrinsics E dl intrinsics f).insts.countP
        (Inst.rewritten dl f.name) = 0 := by
      omega
    exact List.countP_eq_zero.mp hzero
  · exact fun hnone => (hperm fun i hi => Bool.not_eq_true _ ▸ hnone i hi).subperm

/-- Support functions get no more calls of each other, and no way to call themselves, if and
only if none of them writes through a host pointer. -/
theorem runOnModule_calls_kept_iff (isZero : κ → Bool) (E : LowerMemIntrinsics κ ω)
    (hE : E.AsLoops isZero) (dl : DataLayout) (g : κ → κ) (M : Module κ ω) (hM : M.Declared) :
    CallsKept M (runOnModule E dl g M) ↔
      ∀ f ∈ M.functions, supportFunction f.name = true →
        ∀ i ∈ f.insts, ¬ i.writesHost isZero dl = true := by
  rw [callsKept_iff]
  unfold runOnModule
  rw [List.forall₂_map_right_iff, List.forall₂_same]
  exact forall₂_congr fun f hf => noCallAdded_iff hE g (hM f hf)

end Expanding

/-! ## Loops over bytes, but none for a copy of nothing -/

def lowerIntrinsic (c : Cursor Nat LoopOp) : Func Nat LoopOp :=
  match c.todo with
  | [] => c.func
  | i :: rest =>
    if i.copiesNothing (· == 0) then Cursor.func { c with todo := rest }
    else if byteLoop c.next i = [] then
      let stores := i.destination.toList.map fun d => .store (.int 8) (.const 0) d (.const 0)
      Cursor.func { c with todo := stores ++ rest }
    else expandAsLoop c

theorem byteLoop_stores {n : Reg} {i : Inst Nat LoopOp} (h : byteLoop n i ≠ []) (as : Nat) :
    (∃ j ∈ byteLoop n i, j.storeAs = some as) ↔ i.destination = some as := by
  unfold byteLoop at h ⊢
  split
  · simp [Inst.storeAs, Inst.destination]
  · simp [Inst.storeAs, Inst.destination]
  next h₁ h₂ =>
    split at h
    · exact (h₁ _ _ _ _ _ _ _ rfl).elim
    · exact (h₂ _ _ _ _ _ _ rfl).elim
    · exact absurd rfl h

theorem lowerIntrinsic_as_loop : LowersBy (AsLoop (· == 0)) lowerIntrinsic := by
  intro c i rest htodo
  unfold lowerIntrinsic
  rw [htodo]
  dsimp only
  split
  case isTrue hzero =>
    -- an intrinsic of length 0 goes without a trace
    refine ⟨rfl, [], ⟨fun j hj => absurd hj List.not_mem_nil, fun as => ?_⟩, ?_⟩
    · rw [hzero]
      simp
    · rw [Cursor.func_insts, List.append_nil]
      exact .refl _
  case isFalse hzero =>
    rw [Bool.not_eq_true] at hzero
    split
    case isTrue hnone =>
      let stores : List (Inst Nat LoopOp) :=
        i.destination.toList.map fun d => .store (.int 8) (.const 0) d (.const 0)
      refine ⟨rfl, stores, ⟨fun j hj => ?_, fun as => ?_⟩, ?_⟩
      · obtain ⟨d, -, rfl⟩ := List.mem_map.mp hj
        rfl
      · rw [and_iff_left hzero]
        simp [stores, Inst.storeAs]
      · rw [Cursor.func_insts, List.append_assoc]
        refine List.Perm.append_left _ ?_
        rw [Cursor.pending, List.append_assoc]
        exact List.perm_append_comm
    case isFalse hloop =>
      refine ⟨expandAsLoop_name c, byteLoop c.next i, ⟨byteLoop_movesInteger c.next i, ?_⟩,
        expandAsLoop_insts htodo⟩
      intro as
      rw [and_iff_left hzero]
      exact byteLoop_stores hloop as

def loops : LowerMemIntrinsics Nat LoopOp := ⟨lowerIntrinsic, lowerIntrinsic, lowerIntrinsic⟩

theorem loops_as_loops : loops.AsLoops (· == 0) :=
  ⟨lowerIntrinsic_as_loop, lowerIntrinsic_as_loop, lowerIntrinsic_as_loop⟩

def hostReaders : Module Nat LoopOp where
  functions :=
    [{ name := "hero_load_uint32"
       args := [0, 1]
       blocks := [⟨[], [.mem none (.intrinsic .memcpy "llvm.memcpy.p1.p0.i64") [1, 0]
          [.reg 1, .reg 0, .const 4],
        .load 2 (.int 32) 0 (.reg 0)], .ret (some (.reg 2))⟩] },
      { name := "hero_load_uint64"
        args := [0, 1]
        blocks := [⟨[], [.call (some 2) "hero_load_uint32" (.int 32) [.ptr 0, .ptr 1]
          [.reg 0, .reg 1]], .ret (some (.reg 2))⟩] }]
  intrinsics := [(.memcpy, "llvm.memcpy.p1.p0.i64")]

theorem runOnModule_calls_kept_iff_hostReaders :
    CallsKept hostReaders (runOnModule loops heroDl id hostReaders) :=
  (runOnModule_calls_kept_iff (· == 0) loops loops_as_loops heroDl id hostReaders
    (by decide)).mpr (by decide)

def hostWriter : Module Nat LoopOp where
  functions := [{
    name := "hero_store_uint32"
    args := [0, 1]
    blocks := [⟨[], [.store (.int 32) (.reg 1) 0 (.reg 0)], .ret none⟩] }]
  intrinsics := []

theorem hostWriter_acyclic : hostWriter.Acyclic := by
  intro a ha
  obtain ⟨b, ⟨f, hf, -, -, hb⟩, -⟩ := Relation.TransGen.head'_iff.mp ha
  obtain rfl := List.mem_singleton.mp hf
  exact absurd hb List.not_mem_nil

theorem hostWriter_calls_itself :
    (runOnModule loops heroDl id hostWriter).calls "hero_store_uint32" "hero_store_uint32" :=
  ⟨_, List.mem_cons_self, rfl, by decide, by decide⟩

theorem runOnModule_calls_not_kept :
    loops.AsLoops (· == 0) ∧ hostWriter.Declared ∧ hostWriter.Acyclic ∧
      ¬ (runOnModule loops heroDl id hostWriter).Acyclic ∧
      ¬ CallsKept hostWriter (runOnModule loops heroDl id hostWriter) := by
  have hcycle : ¬ (runOnModule loops heroDl id hostWriter).Acyclic := fun h =>
    h _ (.single hostWriter_calls_itself)
  exact ⟨loops_as_loops, by decide, hostWriter_acyclic, hcycle,
    fun h => hcycle (h.acyclic hostWriter_acyclic)⟩

end HeroTools.Llvm
