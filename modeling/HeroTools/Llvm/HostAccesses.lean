import HeroTools.Llvm.OmpHostPointerLegalizer
import HeroTools.Llvm.Walk
import Mathlib.Data.List.TakeWhile

/-! Which accesses through host pointers `OmpHostPointerLegalizer` leaves in a module. -/

namespace HeroTools.Llvm
variable {κ ω : Type} {dl : DataLayout} {E : LowerMemIntrinsics κ ω} {f : Func κ ω}
  {c : Cursor κ ω} {p : Inst κ ω → Bool} {IID : IntrinsicId} {fn : String}

/-! ## Finding an instruction -/

theorem dropWhile_eq_cons {α : Type} {q : α → Bool} {l rest : List α} {a : α}
    (h : l.dropWhile q = a :: rest) : q a = false := by
  have hhead := List.head?_dropWhile_not q l
  rwa [h] at hhead

theorem Func.seek_some (h : f.seek p = some c) :
    c.func = f ∧ ∃ i rest, c.todo = i :: rest ∧ p i = true := by
  unfold Func.seek at h
  split at h
  · cases h
  next b bs hb =>
  cases h
  have hfunc : f.blocks.takeWhile (fun b => !b.insts.any p) ++ b :: bs = f.blocks := by
    rw [← hb, List.takeWhile_append_dropWhile]
  have hany : b.insts.any p = true := by
    have := dropWhile_eq_cons hb
    rwa [Bool.not_eq_false'] at this
  refine ⟨?_, ?_⟩
  · unfold Cursor.func Cursor.block
    dsimp only
    rw [List.takeWhile_append_dropWhile, hfunc]
  · cases htodo : b.insts.dropWhile fun i => !p i with
    | nil =>
      obtain ⟨i, hi, hpi⟩ := List.any_eq_true.mp hany
      have := List.dropWhile_eq_nil_iff.mp htodo i hi
      rw [hpi] at this
      exact absurd this Bool.false_ne_true
    | cons i rest =>
      have := dropWhile_eq_cons htodo
      rw [Bool.not_eq_false'] at this
      exact ⟨i, rest, rfl, this⟩

theorem Func.seek_none (h : f.seek p = none) : ∀ i ∈ f.insts, p i = false := by
  unfold Func.seek at h
  split at h
  next hb =>
    intro i hi
    obtain ⟨b, hbmem, hi⟩ := List.mem_flatMap.mp hi
    have hany := List.dropWhile_eq_nil_iff.mp hb b hbmem
    rw [Bool.not_eq_true', List.any_eq_false] at hany
    exact Bool.not_eq_true _ ▸ hany i hi
  · cases h

/-! ## Expanding memory intrinsics -/

def Inst.movesInteger : Inst κ ω → Bool
  | .load _ ty _ _ => ty.isIntegerTy
  | .store ty _ _ _ => ty.isIntegerTy
  | .cast .. => true
  | .call .. => false
  | .mem .. => false
  | .other .. => true

def LowersToIntegers (expand : Cursor κ ω → Func κ ω) : Prop :=
  ∀ c i rest, c.todo = i :: rest → (expand c).name = c.name ∧
    ∃ emitted : List (Inst κ ω), (∀ j ∈ emitted, j.movesInteger = true) ∧
      (expand c).insts.Perm (c.visited ++ (rest ++ c.after.flatMap Block.insts) ++ emitted)

structure LowerMemIntrinsics.ToIntegers (E : LowerMemIntrinsics κ ω) : Prop where
  expandMemCpyAsLoop : LowersToIntegers E.expandMemCpyAsLoop
  expandMemMoveAsLoop : LowersToIntegers E.expandMemMoveAsLoop
  expandMemSetAsLoop : LowersToIntegers E.expandMemSetAsLoop

theorem LowerMemIntrinsics.ToIntegers.expansion (hE : E.ToIntegers) {expand : Cursor κ ω → Func κ ω}
    (h : expansion E IID = some expand) : LowersToIntegers expand := by
  cases IID with
  | memcpy => exact Option.some.inj h ▸ hE.expandMemCpyAsLoop
  | memmove => exact Option.some.inj h ▸ hE.expandMemMoveAsLoop
  | memset => exact Option.some.inj h ▸ hE.expandMemSetAsLoop
  | _ => cases h

def LowersBy (R : Inst κ ω → List (Inst κ ω) → Prop) (expand : Cursor κ ω → Func κ ω) : Prop :=
  ∀ c i rest, c.todo = i :: rest → (expand c).name = c.name ∧
    ∃ emitted : List (Inst κ ω), R i emitted ∧
      (expand c).insts.Perm (c.visited ++ (rest ++ c.after.flatMap Block.insts) ++ emitted)

theorem expandUse_by {R : Inst κ ω → List (Inst κ ω) → Prop}
    (hE : ∀ expand, expansion E IID = some expand → LowersBy R expand) (dl : DataLayout)
    (fn : String) (f : Func κ ω) :
    (expandUse E dl IID fn f = f ∧
      (expansion E IID = none ∨ ∀ i ∈ f.insts, toExpand dl IID fn i = false)) ∨
    ((expandUse E dl IID fn f).name = f.name ∧ (expansion E IID).isSome ∧
      ∃ i others emitted, toExpand dl IID fn i = true ∧ R i emitted ∧
        f.insts.Perm (i :: others) ∧
        (expandUse E dl IID fn f).insts.Perm (others ++ emitted)) := by
  unfold expandUse
  cases hx : expansion E IID with
  | none => exact .inl ⟨rfl, .inl rfl⟩
  | some expand =>
    cases hc : f.seek (toExpand dl IID fn) with
    | none => exact .inl ⟨rfl, .inr (Func.seek_none hc)⟩
    | some c =>
      obtain ⟨hfunc, i, rest, htodo, hi⟩ := Func.seek_some hc
      obtain ⟨hname, emitted, hemitted, hperm⟩ := hE expand hx c i rest htodo
      refine .inr ⟨?_, rfl, i, c.visited ++ (rest ++ c.after.flatMap Block.insts), emitted, hi,
        hemitted, ?_, hperm⟩
      · exact hname.trans (congrArg Func.name hfunc)
      · rw [← hfunc, Cursor.func_insts]
        unfold Cursor.pending
        rw [htodo]
        exact List.perm_middle

theorem expandUse_cases (hE : E.ToIntegers) (dl : DataLayout) (IID : IntrinsicId) (fn : String)
    (f : Func κ ω) :
    (expandUse E dl IID fn f = f ∧
      (expansion E IID = none ∨ ∀ i ∈ f.insts, toExpand dl IID fn i = false)) ∨
    ((expandUse E dl IID fn f).name = f.name ∧ (expansion E IID).isSome ∧
      ∃ i others emitted, toExpand dl IID fn i = true ∧
        (∀ j ∈ emitted, j.movesInteger = true) ∧ f.insts.Perm (i :: others) ∧
        (expandUse E dl IID fn f).insts.Perm (others ++ emitted)) :=
  expandUse_by (R := fun _ emitted => ∀ j ∈ emitted, j.movesInteger = true)
    (fun _ hx => hE.expansion hx) dl fn f

def MemKind.expandable : MemKind → Bool
  | .intrinsic .memcpy _ => true
  | .intrinsic .memmove _ => true
  | .intrinsic .memset _ => true
  | _ => false

def Inst.access : Inst κ ω → Option (MemKind × List Nat)
  | .mem _ kind ass _ => some (kind, ass)
  | _ => none

@[simp] theorem Inst.access_replace (h : Operand κ → Operand κ) (i : Inst κ ω) :
    (i.replace h).access = i.access := by
  cases i <;> rfl

@[simp] theorem Inst.addressSpaces_replace (h : Operand κ → Operand κ) (i : Inst κ ω) :
    (i.replace h).addressSpaces = i.addressSpaces := by
  cases i <;> rfl

theorem Inst.access_addressSpaces {i : Inst κ ω} {kind : MemKind} {ass : List Nat}
    (h : i.access = some (kind, ass)) : i.addressSpaces = ass := by
  cases i with
  | mem dst kind' ass' ops => exact (Prod.mk.inj (Option.some.inj h)).2
  | _ => cases h

theorem MemKind.expandable_iff {kind : MemKind} :
    kind.expandable = true ↔
      ∃ IID fn, kind = .intrinsic IID fn ∧ (expansion E IID).isSome = true := by
  cases kind with
  | intrinsic IID fn =>
    have hiff : (MemKind.intrinsic IID fn).expandable = (expansion E IID).isSome := by
      cases IID <;> rfl
    rw [hiff]
    exact ⟨fun h => ⟨IID, fn, rfl, h⟩, by rintro ⟨IID', fn', heq, h⟩; cases heq; exact h⟩
  | _ => exact iff_of_false Bool.false_ne_true (by rintro ⟨_, _, heq, -⟩; cases heq)

theorem toExpand_iff {i : Inst κ ω} :
    toExpand dl IID fn i = true ↔
      ∃ ass, i.access = some (.intrinsic IID fn, ass) ∧ ∃ as ∈ ass, as ≠ dl.DeviceAS := by
  cases i with
  | mem dst kind ass ops =>
    simp only [toExpand, Inst.isCallOf, Inst.addressSpaces, Inst.access, Bool.and_eq_true,
      beq_iff_eq, Bool.not_eq_true', List.all_eq_false, Option.some.injEq, Prod.mk.injEq]
    constructor
    · rintro ⟨rfl, as, has, hne⟩
      exact ⟨ass, ⟨rfl, rfl⟩, as, has, hne⟩
    · rintro ⟨_, ⟨rfl, rfl⟩, as, has, hne⟩
      exact ⟨rfl, as, has, hne⟩
  | _ => simp [toExpand, Inst.isCallOf, Inst.access]

theorem movesInteger_access {i : Inst κ ω} (h : i.movesInteger = true) : i.access = none := by
  cases i with
  | mem dst kind ass ops => exact absurd h Bool.false_ne_true
  | _ => rfl

structure Expanded (f f' : Func κ ω) : Prop where
  name : f'.name = f.name
  insts : ∀ j ∈ f'.insts, j ∈ f.insts ∨ j.movesInteger = true
  kept : ∀ i ∈ f.insts, i ∈ f'.insts ∨
    ∃ kind ass, i.access = some (kind, ass) ∧ kind.expandable = true

theorem Expanded.refl (f : Func κ ω) : Expanded f f := ⟨rfl, fun _ => .inl, fun _ => .inl⟩

theorem Expanded.trans {f f' f'' : Func κ ω} (h : Expanded f f') (h' : Expanded f' f'') :
    Expanded f f'' where
  name := h'.name.trans h.name
  insts j hj := (h'.insts j hj).elim (h.insts j) .inr
  kept i hi := (h.kept i hi).elim (h'.kept i) .inr

theorem expandUse_expanded (hE : E.ToIntegers) (f : Func κ ω) :
    Expanded f (expandUse E dl IID fn f) := by
  rcases expandUse_cases hE dl IID fn f with
    ⟨heq, -⟩ | ⟨hname, hsome, i, others, emitted, hi, hemitted, hperm, hperm'⟩
  · rw [heq]
    exact Expanded.refl f
  · refine ⟨hname, fun j hj => ?_, fun j hj => ?_⟩
    · rcases List.mem_append.mp (hperm'.mem_iff.mp hj) with hj | hj
      · exact .inl (hperm.mem_iff.mpr (List.mem_cons_of_mem _ hj))
      · exact .inr (hemitted j hj)
    · rcases List.mem_cons.mp (hperm.mem_iff.mp hj) with rfl | hj
      · obtain ⟨ass, hacc, -⟩ := toExpand_iff.mp hi
        exact .inr ⟨_, ass, hacc, MemKind.expandable_iff.mpr ⟨IID, fn, rfl, hsome⟩⟩
      · exact .inl (hperm'.mem_iff.mpr (List.mem_append_left _ hj))

theorem expandUse_count (hE : E.ToIntegers) (hsome : (expansion E IID).isSome = true)
    (f : Func κ ω) :
    (expandUse E dl IID fn f).insts.countP (toExpand dl IID fn) =
      f.insts.countP (toExpand dl IID fn) - 1 := by
  rcases expandUse_cases hE dl IID fn f with
    ⟨heq, hnone⟩ | ⟨-, -, i, others, emitted, hi, hemitted, hperm, hperm'⟩
  · rcases hnone with hnone | hnone
    · rw [hnone] at hsome
      exact absurd hsome Bool.false_ne_true
    · have hzero : f.insts.countP (toExpand dl IID fn) = 0 :=
        List.countP_eq_zero.mpr fun j hj => Bool.not_eq_true _ ▸ hnone j hj
      rw [heq, hzero]
  · have hzero : emitted.countP (toExpand dl IID fn) = 0 := by
      refine List.countP_eq_zero.mpr fun j hj hj' => ?_
      obtain ⟨ass, hacc, -⟩ := toExpand_iff.mp hj'
      rw [movesInteger_access (hemitted j hj)] at hacc
      cases hacc
    rw [hperm'.countP_eq, hperm.countP_eq, List.countP_append, hzero, List.countP_cons_of_pos hi]
    rfl

theorem expandMemIntrinsicUses_expanded (hE : E.ToIntegers) (f : Func κ ω) :
    Expanded f (expandMemIntrinsicUses E dl IID fn f) := by
  unfold expandMemIntrinsicUses
  induction f.insts.countP (Inst.isCallOf IID fn) with
  | zero => exact Expanded.refl f
  | succ n ih =>
    rw [Function.iterate_succ_apply']
    exact ih.trans (expandUse_expanded hE _)

theorem expandMemIntrinsicUses_done (hE : E.ToIntegers) (hsome : (expansion E IID).isSome = true)
    (f : Func κ ω) :
    ∀ j ∈ (expandMemIntrinsicUses E dl IID fn f).insts, toExpand dl IID fn j = false := by
  have hcount : ∀ n, ((expandUse E dl IID fn)^[n] f).insts.countP (toExpand dl IID fn) =
      f.insts.countP (toExpand dl IID fn) - n := by
    intro n
    induction n with
    | zero => rfl
    | succ n ih =>
      rw [Function.iterate_succ_apply', expandUse_count hE hsome, ih, Nat.sub_sub]
  have hle : f.insts.countP (toExpand dl IID fn) ≤ f.insts.countP (Inst.isCallOf IID fn) :=
    List.countP_mono_left fun i _ hi => (Bool.and_eq_true_iff.mp hi).1
  -- as many turns as there are uses, and each takes one away
  have hzero := hcount (f.insts.countP (Inst.isCallOf IID fn))
  rw [Nat.sub_eq_zero_of_le hle] at hzero
  exact fun j hj => Bool.eq_false_iff.mpr (List.countP_eq_zero.mp hzero j hj)

theorem expand_all (hE : E.ToIntegers) (dl : DataLayout) (intrinsics : List (IntrinsicId × String))
    (f : Func κ ω) :
    Expanded f (intrinsics.foldl (fun f F => expandMemIntrinsicUses E dl F.1 F.2 f) f) ∧
      ∀ F ∈ intrinsics, (expansion E F.1).isSome = true →
        ∀ j ∈ (intrinsics.foldl (fun f F => expandMemIntrinsicUses E dl F.1 F.2 f) f).insts,
          toExpand dl F.1 F.2 j = false := by
  induction intrinsics generalizing f with
  | nil => exact ⟨Expanded.refl f, fun F hF => absurd hF List.not_mem_nil⟩
  | cons F Fs ih =>
    obtain ⟨hexp, hdone⟩ := ih (expandMemIntrinsicUses E dl F.1 F.2 f)
    refine ⟨(expandMemIntrinsicUses_expanded hE f).trans hexp, ?_⟩
    intro F' hF' hsome j hj
    rcases List.mem_cons.mp hF' with rfl | hF'
    · rcases hexp.insts j hj with hj | hj
      · exact expandMemIntrinsicUses_done hE hsome f j hj
      · refine Bool.eq_false_iff.mpr fun hj' => ?_
        obtain ⟨ass, hacc, -⟩ := toExpand_iff.mp hj'
        rw [movesInteger_access hj] at hacc
        cases hacc
    · exact hdone F' hF' hsome j hj

/-! ## Visiting instructions -/

def Inst.isLoad : Inst κ ω → Bool
  | .load .. => true
  | _ => false

@[simp] theorem Inst.isLoad_replace (h : Operand κ → Operand κ) (i : Inst κ ω) :
    (i.replace h).isLoad = i.isLoad := by
  cases i <;> rfl

/-- An instruction is kept, and then it is no access through a host pointer that the visitor
knows, or it makes way for casts and calls. -/
theorem visit_cases (dl : DataLayout) (fname : String) (n : Reg) (i : Inst κ ω) :
    visit dl fname n i = keep i ∧
        (dl.HostAS ∈ i.addressSpaces →
          i.isLoad = true ∧ supportFunction fname = true ∨ ∃ x, i.access = some x) ∨
      i.access = none ∧
        ∀ j ∈ (visit dl fname n i).insts, j.addressSpaces = [] ∧ j.access = none := by
  cases i with
  | load dst ty as ptr =>
    unfold visit visitLoadInst
    dsimp only
    split
    case isTrue hf => exact .inl ⟨rfl, fun _ => .inl ⟨rfl, hf⟩⟩
    split
    case isTrue has => exact .inl ⟨rfl, fun h => absurd (List.mem_singleton.mp h).symm has⟩
    split
    -- neither the casts nor the call access memory themselves
    all_goals
      refine .inr ⟨rfl, ?_⟩
      simp [Inst.addressSpaces, Inst.access]
  | store ty val as ptr =>
    unfold visit visitStoreInst
    dsimp only
    split
    case isTrue has => exact .inl ⟨rfl, fun h => absurd (List.mem_singleton.mp h).symm has⟩
    split
    all_goals
      refine .inr ⟨rfl, ?_⟩
      simp [Inst.addressSpaces, Inst.access]
  | cast dst op srcTy dstTy val =>
    cases op with
    | addrspacecast =>
      unfold visit visitAddrSpaceCastInst
      dsimp only
      split
      · exact .inl ⟨rfl, fun h => absurd h List.not_mem_nil⟩
      · refine .inr ⟨rfl, ?_⟩
        simp [Inst.addressSpaces, Inst.access]
    | _ => exact .inl ⟨rfl, fun h => absurd h List.not_mem_nil⟩
  | mem dst kind ass ops => exact .inl ⟨rfl, fun _ => .inr ⟨_, rfl⟩⟩
  | _ => exact .inl ⟨rfl, fun h => absurd h List.not_mem_nil⟩

theorem visit_host (fname : String) (n : Reg) (i : Inst κ ω) :
    ∀ j ∈ (visit dl fname n i).insts, dl.HostAS ∈ j.addressSpaces →
      j.isLoad = true ∧ supportFunction fname = true ∨
        ∃ x, j.access = some x ∧ i.access = some x := by
  intro j hj hhost
  rcases visit_cases dl fname n i with ⟨hkeep, hi⟩ | ⟨-, hnone⟩
  · rw [hkeep] at hj
    obtain rfl := List.mem_singleton.mp hj
    exact (hi hhost).imp_right fun ⟨x, hx⟩ => ⟨x, hx, hx⟩
  · rw [(hnone j hj).1] at hhost
    exact absurd hhost List.not_mem_nil

theorem visit_access (fname : String) (n : Reg) (i : Inst κ ω) (x : MemKind × List Nat) :
    i.access ≠ some x ↔ ∀ j ∈ (visit dl fname n i).insts, j.access ≠ some x := by
  rcases visit_cases dl fname n i with ⟨hkeep, -⟩ | ⟨hi, hnone⟩
  · rw [hkeep, keep, List.forall_mem_singleton]
  · refine iff_of_true ?_ fun j hj => ?_
    · rw [hi]
      exact (Option.some_ne_none x).symm
    · rw [(hnone j hj).2]
      exact (Option.some_ne_none x).symm

/-! ## The whole pass -/

def Inst.declared (intrinsics : List (IntrinsicId × String)) : Inst κ ω → Bool
  | .mem _ (.intrinsic IID fn) _ _ => intrinsics.contains (IID, fn)
  | _ => true

def Module.Declared (M : Module κ ω) : Prop :=
  ∀ f ∈ M.functions, ∀ i ∈ f.insts, i.declared M.intrinsics = true

instance (M : Module κ ω) : Decidable M.Declared :=
  inferInstanceAs (Decidable (∀ f ∈ M.functions, ∀ i ∈ f.insts, _ = true))

theorem Inst.declared_mem {intrinsics : List (IntrinsicId × String)} {i : Inst κ ω}
    {ass : List Nat} (h : i.declared intrinsics = true)
    (hacc : i.access = some (.intrinsic IID fn, ass)) : (IID, fn) ∈ intrinsics := by
  cases i with
  | mem dst kind ass' ops =>
    cases hacc
    exact List.contains_iff_mem.mp h
  | _ => cases hacc

theorem Func.replace_insts (h : Operand κ → Operand κ) (f : Func κ ω) :
    (f.replace h).insts = f.insts.map (Inst.replace h) := by
  unfold Func.insts Func.replace
  rw [List.flatMap_map, List.map_flatMap]
  rfl

theorem visitFunc_name (dl : DataLayout) (f : Func κ ω) : (visitFunc dl f).name = f.name := by
  cases hblocks : f.blocks with
  | nil =>
    unfold visitFunc
    rw [hblocks]
  | cons b bs =>
    have hstep : ∀ (c : Cursor κ ω) i rest, c.todo = i :: rest → c.name = f.name →
        (c.step dl).name = f.name := by
      intro c i rest htodo hname
      rw [Cursor.step_cons htodo]
      exact hname
    have henter : ∀ (c : Cursor κ ω) b bs, c.todo = [] → c.after = b :: bs → c.name = f.name →
        (c.enter b bs).name = f.name := fun c b bs _ _ hname => hname
    obtain ⟨c, hname, -, -, hend⟩ := visitFunc_rule hstep henter hblocks rfl
    rw [hend]
    exact hname

/-- What a function has after the pass: host pointers are used by loads in support
functions and by accesses of the kinds that the pass does not know, and these are the same
as before. -/
structure Legalized (dl : DataLayout) (f f' : Func κ ω) : Prop where
  name : f'.name = f.name
  host : ∀ j ∈ f'.insts, dl.HostAS ∈ j.addressSpaces →
    j.isLoad = true ∧ supportFunction f.name = true ∨
      ∃ kind ass, j.access = some (kind, ass) ∧ kind.expandable = false
  others : ∀ kind ass, kind.expandable = false →
    ((∃ j ∈ f'.insts, j.access = some (kind, ass)) ↔
      ∃ i ∈ f.insts, i.access = some (kind, ass))

theorem expandable_host {intrinsics : List (IntrinsicId × String)} {f' : Func κ ω}
    (hf : ∀ i ∈ f.insts, i.declared intrinsics = true)
    (hexp : Expanded f f')
    (hdone : ∀ F ∈ intrinsics, (expansion E F.1).isSome = true →
      ∀ j ∈ f'.insts, toExpand dl F.1 F.2 j = false) :
    ∀ i ∈ f'.insts, ∀ kind ass, i.access = some (kind, ass) → dl.HostAS ∈ ass →
      kind.expandable = false := by
  intro i hi kind ass hacc hhost
  refine Bool.eq_false_iff.mpr fun hkind => ?_
  obtain ⟨IID, fn, rfl, hsome⟩ := (MemKind.expandable_iff (E := E)).mp hkind
  -- it was declared, so its turn came, and it was not a matter of device pointers only
  have hmem : i ∈ f.insts := by
    refine (hexp.insts i hi).resolve_right fun hint => ?_
    rw [movesInteger_access hint] at hacc
    cases hacc
  have hnone := hdone (IID, fn) (Inst.declared_mem (hf i hmem) hacc) hsome i hi
  exact Bool.eq_false_iff.mp hnone
    (toExpand_iff.mpr ⟨ass, hacc, dl.HostAS, hhost, dl.hostAS_ne_deviceAS⟩)

theorem Expanded.access_iff {f' : Func κ ω} (h : Expanded f f') {kind : MemKind}
    (hkind : kind.expandable = false) (ass : List Nat) :
    (∃ j ∈ f'.insts, j.access = some (kind, ass)) ↔
      ∃ i ∈ f.insts, i.access = some (kind, ass) := by
  constructor
  · rintro ⟨j, hj, hacc⟩
    refine ⟨j, (h.insts j hj).resolve_right fun hint => ?_, hacc⟩
    rw [movesInteger_access hint] at hacc
    cases hacc
  · rintro ⟨i, hi, hacc⟩
    refine ⟨i, (h.kept i hi).resolve_right ?_, hacc⟩
    rintro ⟨kind', ass', hacc', hkind'⟩
    cases hacc.symm.trans hacc'
    exact absurd (hkind.symm.trans hkind') Bool.false_ne_true

theorem visitFunc_access_iff (f : Func κ ω) (x : MemKind × List Nat) :
    (∃ j ∈ (visitFunc dl f).insts, j.access = some x) ↔ ∃ i ∈ f.insts, i.access = some x := by
  have hiff : (∀ i ∈ f.insts, i.access ≠ some x) ↔
      ∀ j ∈ (visitFunc dl f).insts, j.access ≠ some x := by
    refine visitFunc_forall_iff (G := fun _ => True) (fun _ _ h => h) ?_ ?_ ?_ fun _ _ => trivial
    · intro σ i
      rw [Inst.access_replace]
    · intro σ i
      rw [Inst.access_replace]
    · exact fun n i _ => visit_access f.name n i x
  simpa only [not_forall, not_not, exists_prop] using (not_congr hiff).symm

theorem legalize_legalized (hE : E.ToIntegers) (g : κ → κ)
    {intrinsics : List (IntrinsicId × String)}
    (hf : ∀ i ∈ f.insts, i.declared intrinsics = true) :
    Legalized dl f (legalize E dl g intrinsics f) := by
  obtain ⟨hexp, hdone⟩ := expand_all hE dl intrinsics f
  have hhost := expandable_host hf hexp hdone
  unfold legalize
  generalize intrinsics.foldl (fun f F => expandMemIntrinsicUses E dl F.1 F.2 f) f = f₁
    at hexp hhost
  refine ⟨(visitFunc_name dl f₁).trans hexp.name, ?_, fun kind ass hkind => ?_⟩
  · rw [Func.replace_insts, List.forall_mem_map]
    simp only [Inst.addressSpaces_replace, Inst.isLoad_replace, Inst.access_replace]
    rw [← hexp.name]
    refine (visitFunc_forall_iff (G := fun i => ∀ kind ass, i.access = some (kind, ass) →
      dl.HostAS ∈ ass → kind.expandable = false) (P := fun _ => True) ?_ ?_ ?_ ?_ hhost).mp
      fun _ _ => trivial
    · intro σ i hi
      rwa [Inst.access_replace]
    · exact fun σ i => Iff.rfl
    · intro σ i
      simp only [Inst.addressSpaces_replace, Inst.isLoad_replace, Inst.access_replace]
    · intro n i hi
      refine iff_of_true trivial fun j hj hj_host => ?_
      rcases visit_host f₁.name n i j hj hj_host with hload | ⟨⟨kind, ass⟩, hacc, hacc_i⟩
      · exact .inl hload
      · rw [Inst.access_addressSpaces hacc] at hj_host
        exact .inr ⟨kind, ass, hacc, hi kind ass hacc_i hj_host⟩
  · rw [Func.replace_insts]
    simp only [List.mem_map, exists_exists_and_eq_and, Inst.access_replace]
    rw [visitFunc_access_iff, hexp.access_iff hkind]

/-- After the pass no function has a store, a `memcpy`, a `memmove` or a `memset` with a host
pointer, and only support functions have loads with one. Accesses of other kinds stay. -/
theorem runOnModule_legalized (E : LowerMemIntrinsics κ ω) (hE : E.ToIntegers) (dl : DataLayout)
    (g : κ → κ) (M : Module κ ω) (hM : M.Declared) :
    List.Forall₂ (Legalized dl) M.functions (runOnModule E dl g M).functions := by
  refine List.forall₂_map_right_iff.mpr (List.forall₂_same.mpr fun f hf => ?_)
  exact legalize_legalized hE g (hM f hf)

/-! ## A loop over bytes, and two modules -/

inductive LoopOp
  | gep
  | add
  | ult
deriving DecidableEq, Repr

def byteLoop (n : Reg) : Inst Nat LoopOp → List (Inst Nat LoopOp)
  | .mem _ _ [d, s] [dst, src, len] =>
    [.other (some (n + 2)) .gep [src, .reg n],
      .load (n + 3) (.int 8) s (.reg (n + 2)),
      .other (some (n + 4)) .gep [dst, .reg n],
      .store (.int 8) (.reg (n + 3)) d (.reg (n + 4)),
      .other (some (n + 1)) .add [.reg n, .const 1],
      .other (some (n + 5)) .ult [.reg (n + 1), len]]
  | .mem _ _ [d] [dst, val, len] =>
    [.other (some (n + 4)) .gep [dst, .reg n],
      .store (.int 8) val d (.reg (n + 4)),
      .other (some (n + 1)) .add [.reg n, .const 1],
      .other (some (n + 5)) .ult [.reg (n + 1), len]]
  | _ => []

def expandAsLoop (c : Cursor Nat LoopOp) : Func Nat LoopOp :=
  match c.todo with
  | [] => c.func
  | i :: rest =>
    let loop := c.before.length + 1 + c.after.length
    let index : Phi Nat := ⟨c.next, [(c.before.length, .const 0), (loop, .reg (c.next + 1))]⟩
    { name := c.name
      args := c.args
      blocks := c.before ++ ⟨c.phis, c.done, .br loop⟩ :: (c.after ++
        [⟨[index], byteLoop c.next i, .condBr (.reg (c.next + 5)) loop (loop + 1)⟩,
          ⟨[], rest, c.term⟩]) }

def byteLoops : LowerMemIntrinsics Nat LoopOp :=
  ⟨expandAsLoop, expandAsLoop, expandAsLoop⟩

theorem byteLoop_movesInteger (n : Reg) (i : Inst Nat LoopOp) :
    ∀ j ∈ byteLoop n i, j.movesInteger = true := by
  unfold byteLoop
  split
  · simp [Inst.movesInteger, Ty.isIntegerTy]
  · simp [Inst.movesInteger, Ty.isIntegerTy]
  · exact fun j hj => absurd hj List.not_mem_nil

theorem expandAsLoop_insts {c : Cursor Nat LoopOp} {i : Inst Nat LoopOp}
    {rest : List (Inst Nat LoopOp)} (htodo : c.todo = i :: rest) :
    (expandAsLoop c).insts.Perm
      (c.visited ++ (rest ++ c.after.flatMap Block.insts) ++ byteLoop c.next i) := by
  unfold expandAsLoop
  rw [htodo]
  simp only [Func.insts, Cursor.visited, List.flatMap_append, List.flatMap_cons,
    List.flatMap_nil, List.append_nil, List.append_assoc]
  refine List.Perm.append_left _ (List.Perm.append_left _ ?_)
  rw [← List.append_assoc, ← List.append_assoc]
  exact List.perm_append_comm.trans (by rw [List.append_assoc])

theorem expandAsLoop_name (c : Cursor Nat LoopOp) : (expandAsLoop c).name = c.name := by
  unfold expandAsLoop
  split <;> rfl

theorem expandAsLoop_lowers : LowersToIntegers expandAsLoop := fun c i _ htodo =>
  ⟨expandAsLoop_name c, byteLoop c.next i, byteLoop_movesInteger c.next i,
    expandAsLoop_insts htodo⟩

theorem byteLoops_to_integers : byteLoops.ToIntegers :=
  ⟨expandAsLoop_lowers, expandAsLoop_lowers, expandAsLoop_lowers⟩

def copyAndAdd : Module Nat LoopOp where
  functions := [{
    name := "kernel"
    args := [0, 1]
    blocks := [{
      phis := []
      insts := [.mem none (.intrinsic .memcpy "llvm.memcpy.p1.p0.i64") [1, 0]
          [.reg 1, .reg 0, .const 4],
        .mem (some 2) .atomicrmw [0] [.reg 0, .const 1]]
      term := .ret none }] }]
  intrinsics := [(.memcpy, "llvm.memcpy.p1.p0.i64")]

theorem runOnModule_legalized_copyAndAdd :
    List.Forall₂ (Legalized heroDl) copyAndAdd.functions
      (runOnModule byteLoops heroDl id copyAndAdd).functions := by
  exact runOnModule_legalized byteLoops byteLoops_to_integers heroDl id copyAndAdd (by decide)

def hero64Names : List String :=
  supportWidths.flatMap fun N =>
    [loadName N, storeName N, loadName N ++ "_noblock", storeName N ++ "_noblock"]

def threeAccesses : Module Nat LoopOp where
  functions :=
    [{ name := "add"
       args := [0]
       blocks := [⟨[], [.mem (some 1) .atomicrmw [0] [.reg 0, .const 1]], .ret none⟩] },
      { name := "copy"
        args := [0, 1]
        blocks := [⟨[], [.mem none (.intrinsic .memcpyInline "llvm.memcpy.inline.p1.p0.i64")
          [1, 0] [.reg 1, .reg 0, .const 4]], .ret none⟩] },
      { name := "hero_load_config"
        args := [0]
        blocks := [⟨[], [.load 1 (.int 32) 0 (.reg 0)], .ret (some (.reg 1))⟩] }]
  intrinsics := [(.memcpyInline, "llvm.memcpy.inline.p1.p0.i64")]

theorem runOnModule_not_complete :
    byteLoops.ToIntegers ∧ threeAccesses.Declared ∧ threeAccesses.functions.length = 3 ∧
      ∀ f ∈ (runOnModule byteLoops heroDl id threeAccesses).functions,
        f.name ∉ hero64Names ∧ ∃ j ∈ f.insts, heroDl.HostAS ∈ j.addressSpaces :=
  ⟨byteLoops_to_integers, by decide, rfl, by decide⟩

end HeroTools.Llvm
