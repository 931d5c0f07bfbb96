import HeroTools.Llvm.Pieces

/-! The support functions that `HostPointerVisitor` calls, and those of `hero_64.h`. -/

namespace HeroTools.Llvm
variable {κ ω : Type} {dl : DataLayout} {i : Inst κ ω} {ty : Ty}

/-! ## The runtime -/

structure Signature where
  name : String
  ret : Ty
  params : List Ty
deriving DecidableEq, Repr

/-- `hero_load_uint##size`. -/
def heroLoad (size : Nat) : Signature :=
  ⟨"hero_load_uint" ++ toString size, .int size, [.int 64]⟩

/-- `hero_store_uint##size`. -/
def heroStore (size : Nat) : Signature :=
  ⟨"hero_store_uint" ++ toString size, .void, [.int 64, .int size]⟩

def hero64Define (size : Nat) : List Signature := [heroLoad size, heroStore size]

/-- What `hero_64.h` defines, but for the `_noblock` variants. -/
def hero64 : List Signature :=
  hero64Define 32 ++ hero64Define 16 ++ hero64Define 8 ++ [heroLoad 64, heroStore 64]

theorem mem_hero64 {s : Signature} :
    s ∈ hero64 ↔ ∃ N ∈ supportWidths, s = heroLoad N ∨ s = heroStore N := by
  have hdefines : hero64 = [32, 16, 8, 64].flatMap hero64Define := rfl
  have hwidths : ∀ N, N ∈ [32, 16, 8, 64] ↔ N ∈ supportWidths := by
    intro N
    simp only [supportWidths, List.mem_cons, List.not_mem_nil, or_false]
    omega
  rw [hdefines, List.mem_flatMap]
  refine exists_congr fun N => and_congr (hwidths N) ?_
  rw [hero64Define, List.mem_pair]

theorem heroLoad_mem_iff {N : Nat} : heroLoad N ∈ hero64 ↔ N ∈ supportWidths := by
  constructor
  · intro h
    obtain ⟨N', hN', h | h⟩ := mem_hero64.mp h
    · have hret : Ty.int N = Ty.int N' := congrArg Signature.ret h
      rwa [Ty.int.inj hret]
    · have hret : Ty.int N = Ty.void := congrArg Signature.ret h
      cases hret
  · exact fun h => mem_hero64.mpr ⟨N, h, .inl rfl⟩

theorem heroStore_mem_iff {N : Nat} : heroStore N ∈ hero64 ↔ N ∈ supportWidths := by
  constructor
  · intro h
    obtain ⟨N', hN', h | h⟩ := mem_hero64.mp h
    · have hret : Ty.void = Ty.int N' := congrArg Signature.ret h
      cases hret
    · have hparams : [Ty.int 64, .int N] = [Ty.int 64, .int N'] := congrArg Signature.params h
      rwa [Ty.int.inj (List.cons.inj (List.cons.inj hparams).2).1]
  · exact fun h => mem_hero64.mpr ⟨N, h, .inr rfl⟩

/-! ## The pass -/

def Inst.signature : Inst κ ω → Option Signature
  | .call _ callee ret params _ => some ⟨callee, ret, params⟩
  | _ => none

@[simp] theorem Inst.signature_replace (h : Operand κ → Operand κ) (i : Inst κ ω) :
    (i.replace h).signature = i.signature := by
  cases i <;> rfl

def signatures (js : List (Inst κ ω)) : List Signature := js.filterMap Inst.signature

theorem signatures_replace (h : Operand κ → Operand κ) (js : List (Inst κ ω)) :
    signatures (js.map (Inst.replace h)) = signatures js := by
  unfold signatures
  rw [List.filterMap_map]
  exact congrArg (fun s => js.filterMap s) (funext (Inst.signature_replace h))

def Inst.rewritten (dl : DataLayout) (fname : String) : Inst κ ω → Bool
  | .load _ _ as _ => !supportFunction fname && as == dl.HostAS
  | .store _ _ as _ => as == dl.HostAS
  | _ => false

@[simp] theorem Inst.rewritten_replace (fname : String) (h : Operand κ → Operand κ)
    (i : Inst κ ω) : (i.replace h).rewritten dl fname = i.rewritten dl fname := by
  cases i <;> rfl

def Inst.supportCall (dl : DataLayout) : Inst κ ω → Option Signature
  | .load _ ty as _ =>
    some ⟨loadName (accessBits dl ty), .int (accessBits dl ty), [.int (dl.allocBits (.ptr as))]⟩
  | .store ty _ as _ =>
    some ⟨storeName (accessBits dl ty), .void,
      [.int (dl.allocBits (.ptr as)), .int (accessBits dl ty)]⟩
  | _ => none

@[simp] theorem Inst.supportCall_replace (h : Operand κ → Operand κ) (i : Inst κ ω) :
    (i.replace h).supportCall dl = i.supportCall dl := by
  cases i <;> rfl

theorem visit_signatures (fname : String) (n : Reg) (hi : i.rewritten dl fname = true) :
    signatures (visit dl fname n i).insts = (i.supportCall dl).toList := by
  cases i with
  | load dst ty as ptr =>
    simp only [Inst.rewritten, Bool.and_eq_true, Bool.not_eq_true', beq_iff_eq] at hi
    obtain ⟨hname, has⟩ := hi
    unfold visit visitLoadInst
    simp only [hname, has, Bool.false_eq_true, ne_eq, not_true_eq_false, if_false]
    split <;> rfl
  | store ty val as ptr =>
    have has : as = dl.HostAS := beq_iff_eq.mp hi
    unfold visit visitStoreInst
    simp only [has, ne_eq, not_true_eq_false, if_false]
    split <;> rfl
  | _ => exact absurd hi Bool.false_ne_true

theorem visit_signatures_of_not_rewritten (fname : String) (n : Reg)
    (hi : i.rewritten dl fname = false) :
    signatures (visit dl fname n i).insts = i.signature.toList := by
  cases i with
  | load dst ty as ptr =>
    unfold visit visitLoadInst
    dsimp only
    split
    case isTrue => rfl
    split
    case isTrue => rfl
    case isFalse hname has =>
      rw [not_not] at has
      rw [Bool.not_eq_true] at hname
      simp [Inst.rewritten, hname, has] at hi
  | store ty val as ptr =>
    have has : as ≠ dl.HostAS := beq_eq_false_iff_ne.mp hi
    unfold visit visitStoreInst
    dsimp only
    rw [if_pos has]
    rfl
  | cast dst op srcTy dstTy val =>
    cases op with
    | addrspacecast =>
      unfold visit visitAddrSpaceCastInst
      dsimp only
      split <;> rfl
    | _ => rfl
  | call dst callee ret params args => rfl
  | _ => rfl

theorem Visited.signatures {fname : String} {js : List (Inst κ ω)} (hv : Visited dl fname i js) :
    signatures js = (if i.rewritten dl fname then i.supportCall dl else i.signature).toList := by
  obtain ⟨n, h, h', rfl⟩ := hv
  rw [signatures_replace]
  split
  case isTrue hi =>
    rw [visit_signatures fname n (by rwa [Inst.rewritten_replace]), Inst.supportCall_replace]
  case isFalse hi =>
    rw [Bool.not_eq_true] at hi
    rw [visit_signatures_of_not_rewritten fname n (by rwa [Inst.rewritten_replace]),
      Inst.signature_replace]

/-! ## Types -/

/-- `DataLayout::getTypeStoreSizeInBits`: what a load or store of the type moves. -/
def Ty.storeBits (dl : DataLayout) (ty : Ty) : Nat := 8 * ((ty.bits dl + 7) / 8)

/-- Of a size that the runtime moves. Numbers and vectors of numbers fill their bytes; with
pointers, vectors of pointers and aggregates there is no padding behind. -/
structure Ty.Fits (dl : DataLayout) (ty : Ty) : Prop where
  width : ty.storeBits dl ∈ supportWidths
  exact_fit : if ty.primitiveBits = 0 then dl.allocBits ty = ty.storeBits dl
    else ty.bits dl = ty.storeBits dl

theorem Ty.bits_of_primitive {ty : Ty} (h : ty.primitiveBits ≠ 0) :
    ty.bits dl = ty.primitiveBits := by
  induction ty with
  | vec m t ih =>
    have ht : t.primitiveBits ≠ 0 := right_ne_zero_of_mul h
    exact congrArg (m * ·) (ih ht)
  | int w => rfl
  | float k => rfl
  | _ => exact absurd rfl h

theorem accessBits_eq_storeBits_iff :
    accessBits dl ty = ty.storeBits dl ↔
      if ty.primitiveBits = 0 then dl.allocBits ty = ty.storeBits dl
      else ty.bits dl = ty.storeBits dl := by
  unfold accessBits
  split
  case isTrue => exact Iff.rfl
  case isFalse h => rw [Ty.bits_of_primitive h]

def Inst.runtimeCall (dl : DataLayout) : Inst κ ω → Option Signature
  | .load _ ty _ _ => some (heroLoad (ty.storeBits dl))
  | .store ty _ _ _ => some (heroStore (ty.storeBits dl))
  | _ => none

/-- The access made way for one call, of a function of `hero_64.h` that moves the same
bits. -/
def Inst.Agrees (dl : DataLayout) (i : Inst κ ω) (js : List (Inst κ ω)) : Prop :=
  ∃ s ∈ hero64, i.runtimeCall dl = some s ∧ signatures js = [s]

def Inst.Fits (dl : DataLayout) : Inst κ ω → Prop
  | .load _ ty as _ => dl.allocBits (.ptr as) = 64 ∧ ty.Fits dl
  | .store ty _ as _ => dl.allocBits (.ptr as) = 64 ∧ ty.Fits dl
  | _ => True

theorem load_call_iff {A S N : Nat} :
    (⟨loadName A, .int A, [.int S]⟩ : Signature) = heroLoad N ↔ S = 64 ∧ A = N := by
  constructor
  · intro h
    have hparams := congrArg Signature.params h
    have hret := congrArg Signature.ret h
    exact ⟨Ty.int.inj (List.cons.inj hparams).1, Ty.int.inj hret⟩
  · rintro ⟨rfl, rfl⟩
    rfl

theorem store_call_iff {A S N : Nat} :
    (⟨storeName A, .void, [.int S, .int A]⟩ : Signature) = heroStore N ↔ S = 64 ∧ A = N := by
  constructor
  · intro h
    have hparams := List.cons.inj (congrArg Signature.params h)
    exact ⟨Ty.int.inj hparams.1, Ty.int.inj (List.cons.inj hparams.2).1⟩
  · rintro ⟨rfl, rfl⟩
    rfl

theorem agrees_iff {fname : String} {js : List (Inst κ ω)} (hv : Visited dl fname i js)
    (hi : i.rewritten dl fname = true) : i.Agrees dl js ↔ i.Fits dl := by
  have hsig := hv.signatures
  rw [if_pos hi] at hsig
  unfold Inst.Agrees
  rw [hsig]
  -- a function for the width has to be there, and the call to move all that the type has
  have hfits : ∀ {ty : Ty}, ty.Fits dl ↔
      ty.storeBits dl ∈ supportWidths ∧ accessBits dl ty = ty.storeBits dl := fun {ty} =>
    ⟨fun h => ⟨h.width, accessBits_eq_storeBits_iff.mpr h.exact_fit⟩,
      fun h => ⟨h.1, accessBits_eq_storeBits_iff.mp h.2⟩⟩
  cases i with
  | load dst ty as ptr =>
    simp only [Inst.runtimeCall, Inst.supportCall, Option.toList_some, Option.some.injEq,
      List.cons.injEq, and_true, Inst.Fits]
    constructor
    · rintro ⟨s, hs, rfl, heq⟩
      obtain ⟨has, hbits⟩ := load_call_iff.mp heq
      exact ⟨has, hfits.mpr ⟨heroLoad_mem_iff.mp hs, hbits⟩⟩
    · rintro ⟨has, hty⟩
      exact ⟨_, heroLoad_mem_iff.mpr hty.width, rfl,
        load_call_iff.mpr ⟨has, (hfits.mp hty).2⟩⟩
  | store ty val as ptr =>
    simp only [Inst.runtimeCall, Inst.supportCall, Option.toList_some, Option.some.injEq,
      List.cons.injEq, and_true, Inst.Fits]
    constructor
    · rintro ⟨s, hs, rfl, heq⟩
      obtain ⟨has, hbits⟩ := store_call_iff.mp heq
      exact ⟨has, hfits.mpr ⟨heroStore_mem_iff.mp hs, hbits⟩⟩
    · rintro ⟨has, hty⟩
      exact ⟨_, heroStore_mem_iff.mpr hty.width, rfl,
        store_call_iff.mpr ⟨has, (hfits.mp hty).2⟩⟩
  | _ => exact absurd hi Bool.false_ne_true

/-! ## Modules -/

def CallsAgree (dl : DataLayout) (f f' : Func κ ω) : Prop :=
  ∃ rs, f'.insts = rs.flatten ∧ List.Forall₂ (fun i js => Visited dl f.name i js ∧
    (i.rewritten dl f.name = true → i.Agrees dl js)) f.insts rs

theorem forall₂_agrees_iff {fname : String} {is : List (Inst κ ω)} {rs : List (List (Inst κ ω))} :
    List.Forall₂ (fun i js => Visited dl fname i js ∧
        (i.rewritten dl fname = true → i.Agrees dl js)) is rs ↔
      (∀ i ∈ is, i.rewritten dl fname = true → i.Fits dl) ∧
        List.Forall₂ (Visited dl fname) is rs := by
  rw [← List.forall₂_and_left]
  refine iff_of_eq (congrArg (fun R => List.Forall₂ R is rs) ?_)
  funext i js
  refine propext ⟨fun h => ⟨fun hi => ?_, h.1⟩, fun h => ⟨h.2, fun hi => ?_⟩⟩
  · exact (agrees_iff h.1 hi).mp (h.2 hi)
  · exact (agrees_iff h.2 hi).mpr (h.1 hi)

theorem callsAgree_iff (E : LowerMemIntrinsics κ ω) (dl : DataLayout) (g : κ → κ)
    (intrinsics : List (IntrinsicId × String)) (f : Func κ ω) :
    CallsAgree dl (expandIntrinsics E dl intrinsics f) (legalize E dl g intrinsics f) ↔
      ∀ i ∈ (expandIntrinsics E dl intrinsics f).insts,
        i.rewritten dl (expandIntrinsics E dl intrinsics f).name = true → i.Fits dl := by
  obtain ⟨rs, hinsts, hrs⟩ := legalize_pieces E dl g intrinsics f
  unfold CallsAgree
  simp only [forall₂_agrees_iff]
  exact ⟨fun ⟨_, _, hfits, _⟩ => hfits, fun hfits => ⟨rs, hinsts, hfits, hrs⟩⟩

/-- Every call that takes the place of a load or store is one that the runtime has, and
moves as many bits, if and only if host pointers have 64 bits and the loads and stores
through them are of types that fit. -/
theorem runOnModule_calls_agree_iff (E : LowerMemIntrinsics κ ω) (dl : DataLayout) (g : κ → κ)
    (M : Module κ ω) :
    List.Forall₂ (fun f f' => CallsAgree dl (expandIntrinsics E dl M.intrinsics f) f')
        M.functions (runOnModule E dl g M).functions ↔
      ∀ f ∈ M.functions, ∀ i ∈ (expandIntrinsics E dl M.intrinsics f).insts,
        i.rewritten dl (expandIntrinsics E dl M.intrinsics f).name = true → i.Fits dl := by
  unfold runOnModule
  rw [List.forall₂_map_right_iff, List.forall₂_same]
  exact forall₂_congr fun f _ => callsAgree_iff E dl g M.intrinsics f

def loadBool : Module Nat LoopOp where
  functions := [{
    name := "kernel"
    args := [0]
    blocks := [⟨[], [.load 1 (.int 1) 0 (.reg 0)], .ret (some (.reg 1))⟩] }]
  intrinsics := []

theorem runOnModule_calls_disagree :
    ¬ List.Forall₂
      (fun f f' =>
        CallsAgree heroDl (expandIntrinsics byteLoops heroDl loadBool.intrinsics f) f')
      loadBool.functions (runOnModule byteLoops heroDl id loadBool).functions := by
  intro h
  obtain ⟨rs, -, hrs⟩ := (List.forall₂_cons.mp h).1
  have hfits := (forall₂_agrees_iff.mp hrs).1 (.load 1 (.int 1) 0 (.reg 0)) List.mem_cons_self rfl
  exact absurd hfits.2.exact_fit (by decide)

end HeroTools.Llvm
