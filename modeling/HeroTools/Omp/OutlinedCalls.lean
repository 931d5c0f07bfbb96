import HeroTools.Omp.WrappedKernels
import Mathlib.Data.List.Basic

/-! What one turn of the loop of `wrapOmpOutlinedFuncs` does, and what all turns leave alone. -/

namespace HeroTools.Omp
open Llvm
variable {ω : Type} {U : UniqueNames} {dl : DataLayout} {M M' : Module ω} {c : Fn × Nat}

/-! ## Names -/

namespace Module

def symbols (M : Module ω) : List String := M.functions.map M.name ++ M.globals.map Global.name

theorem getFunction_eq_some {name : String} (hne : name ≠ "") {f : Fn} :
    M.getFunction name = some f ↔ f ∈ M.functions ∧ M.name f = name := by
  constructor
  · intro h
    exact ⟨List.mem_of_find?_eq_some h, by simpa using List.find?_some h⟩
  · rintro ⟨hf, rfl⟩
    exact M.getFunction_name hf hne

theorem getFunction_eq_none {name : String} :
    M.getFunction name = none ↔ ∀ f ∈ M.functions, M.name f ≠ name := by
  simp [getFunction]

theorem create_name (U : UniqueNames) (M : Module ω) (ty : FunctionType) (name : String)
    (body : List (Instr ω)) : ∃ used, (∀ s, s ∈ used ↔ s ∈ M.symbols) ∧
      (M.create U ty name body).1.name (M.create U ty name body).2 = U.assign used name := by
  let f : Fn := ⟨M.fresh, ty⟩
  have hf : ∀ g ∈ M.functions, g ≠ f := by
    rintro g hg rfl
    exact M.fresh_not_mem ty hg
  refine ⟨_, fun s => ?_, Function.update_self ..⟩
  have hfilter : (M.functions ++ [f]).filter (· ≠ f) = M.functions := by
    rw [List.filter_append, List.filter_eq_self.mpr fun g hg => by simpa using hf g hg]
    simp
  have hnames : M.functions.map (Function.update M.name f "") = M.functions.map M.name :=
    List.map_congr_left fun g hg => Function.update_of_ne (hf g hg) _ _
  change s ∈ ((M.functions ++ [f]).filter (· ≠ f)).map (Function.update M.name f "") ++ _ ↔ _
  rw [hfilter, hnames]
  rfl

end Module

/-! ## Arguments -/

def Instr.microtask (casts : Casts) (i : Instr ω) : Option Fn :=
  i.args[2]?.bind fun arg => (arg.stripPointerCasts casts).target

def Module.microtask (M : Module ω) (c : Fn × Nat) : Option Fn :=
  (M.instr c).bind (Instr.microtask (casts (M.body c.1)))

@[simp] theorem Value.strip_const (casts : Casts) (n : Nat) (c : Const) :
    (Value.const c).strip casts n = .const c := by
  cases n <;> rfl

theorem Value.stripPointerCasts_reg {casts : Casts} {r : Nat} (hr : casts.lookup r = none) :
    (Value.reg r).stripPointerCasts casts = .reg r := by
  unfold stripPointerCasts
  cases casts with
  | nil => rfl
  | cons => simp only [List.length_cons, strip, hr]

theorem Value.target_pointerCast {casts : Casts} {v : Value} {k : Fn}
    (hv : (v.stripPointerCasts casts).target = some k) (w : Fn) (casts' : Casts) :
    ((v.pointerCast casts w).stripPointerCasts casts').target = some w := by
  have hconst : ∀ ty, ((Value.const (getPointerCast w ty)).stripPointerCasts casts').target =
      some w := by
    intro ty
    rw [stripPointerCasts, strip_const]
    exact Const.target_getPointerCast ..
  rcases v with r | c
  · unfold pointerCast
    cases hr : casts.lookup r with
    | some cast =>
      simp only [hr]
      exact hconst cast.1
    | none =>
      rw [stripPointerCasts_reg hr] at hv
      cases hv
  · rw [stripPointerCasts, strip_const] at hv
    cases c with
    | fn f => exact hconst _
    | cast ty c => exact hconst _
    | global name => exact nomatch hv
    | int bits n => exact nomatch hv

theorem Instr.args_setArgOperand (i : Instr ω) (n : Nat) (v : Value) :
    (i.setArgOperand n v).args = i.args.set n v := by
  cases i <;> rfl

theorem Instr.pointerCast_setArgOperand (i : Instr ω) (n : Nat) (v : Value) :
    (i.setArgOperand n v).pointerCast = i.pointerCast := by
  cases i <;> rfl

theorem casts_modify (body : List (Instr ω)) (j n : Nat) (v : Value) :
    casts (body.modify j (·.setArgOperand n v)) = casts body := by
  have hmap : ∀ body : List (Instr ω), casts body = (body.map Instr.pointerCast).filterMap id :=
    fun body => by rw [casts, List.filterMap_map]; rfl
  rw [hmap, hmap]
  congr 1
  refine List.ext_getElem (by simp) fun k hk hk' => ?_
  simp only [List.getElem_map, List.getElem_modify]
  split_ifs
  · exact Instr.pointerCast_setArgOperand ..
  · rfl

theorem Instr.microtask_setArgOperand {casts : Casts} {i : Instr ω} {arg v : Value} {f : Fn}
    (hi : i.args[2]? = some arg) (hv : (v.stripPointerCasts casts).target = some f) :
    (i.setArgOperand 2 v).microtask casts = some f := by
  have hlt : 2 < i.args.length := (List.getElem?_eq_some_iff.mp hi).1
  rw [microtask, args_setArgOperand, List.getElem?_set_self hlt]
  exact hv

theorem Module.casts_setArgOperand (M : Module ω) (c : Fn × Nat) (n : Nat) (v : Value) (f : Fn) :
    casts ((M.setArgOperand c n v).body f) = casts (M.body f) := by
  unfold setArgOperand
  dsimp only
  by_cases hf : f = c.1
  · subst hf
    rw [Function.update_self]
    exact casts_modify ..
  · rw [Function.update_of_ne hf]

theorem Module.instr_setArgOperand (M : Module ω) (c : Fn × Nat) (n : Nat) (v : Value) :
    (M.setArgOperand c n v).instr c = (M.instr c).map (·.setArgOperand n v) := by
  simp [setArgOperand, instr, List.getElem?_modify_eq]

theorem Module.instr_setArgOperand_of_ne (M : Module ω) {c c' : Fn × Nat} (hne : c' ≠ c) (n : Nat)
    (v : Value) : (M.setArgOperand c n v).instr c' = M.instr c' := by
  unfold setArgOperand instr
  by_cases hf : c'.1 = c.1
  · have hj : c.2 ≠ c'.2 := fun hj => hne (Prod.ext hf hj.symm)
    simp [hf, hj]
  · simp [Function.update_of_ne hf]

/-! ## One turn -/

def Module.funcName (M : Module ω) (f : Fn) : String := OMP_WRAPPER_PREFIX ++ M.name f

theorem Module.funcName_ne_empty (M : Module ω) (f : Fn) : M.funcName f ≠ "" := by
  intro h
  have hlen := congrArg String.length h
  rw [funcName, String.length_append] at hlen
  exact absurd hlen (by simp [OMP_WRAPPER_PREFIX])

structure Extends (M M' : Module ω) : Prop where
  functions : ∀ f ∈ M.functions, f ∈ M'.functions
  names : ∀ f ∈ M.functions, M'.name f = M.name f
  casts : ∀ f ∈ M.functions, casts (M'.body f) = casts (M.body f)
  globals : M'.globals = M.globals

theorem Extends.refl (M : Module ω) : Extends M M :=
  ⟨fun _ hf => hf, fun _ _ => rfl, fun _ _ => rfl, rfl⟩

theorem Extends.trans {M'' : Module ω} (h : Extends M M') (h' : Extends M' M'') :
    Extends M M'' where
  functions f hf := h'.functions f (h.functions f hf)
  names f hf := (h'.names f (h.functions f hf)).trans (h.names f hf)
  casts f hf := (h'.casts f (h.functions f hf)).trans (h.casts f hf)
  globals := h'.globals.trans h.globals

theorem Extends.microtask (h : Extends M M') (hc : c.1 ∈ M.functions)
    (hi : M'.instr c = M.instr c) : M'.microtask c = M.microtask c := by
  rw [Module.microtask, Module.microtask, hi, h.casts c.1 hc]

structure Created (U : UniqueNames) (dl : DataLayout) (M M' : Module ω) (k w : Fn) : Prop where
  missing : M.getFunction (M.funcName k) = none
  new : w ∉ M.functions
  functions : M'.functions = M.functions ++ [w]
  ty : w.ty = outlinedWrapperTy dl
  body : M'.body w = outlinedWrapperBody dl k
  name : ∃ used, (∀ s, s ∈ used ↔ s ∈ M.symbols) ∧ M'.name w = U.assign used (M.funcName k)

theorem outlinedWrapper_spec (U : UniqueNames) (dl : DataLayout) (M : Module ω) (k : Fn) :
    let M₁ := (outlinedWrapper U dl M k).1
    let w := (outlinedWrapper U dl M k).2
    Extends M M₁ ∧ (∀ f ∈ M.functions, M₁.body f = M.body f) ∧
      (M.getFunction (M.funcName k) = some w ∧ M₁ = M ∨ Created U dl M M₁ k w) := by
  cases hfind : M.getFunction (M.funcName k) with
  | some w =>
    have hfind' : M.getFunction (OMP_WRAPPER_PREFIX ++ M.name k) = some w := hfind
    have houtlined : outlinedWrapper U dl M k = (M, w) := by
      unfold outlinedWrapper
      simp only [hfind']
    rw [houtlined]
    exact ⟨.refl M, fun _ _ => rfl, .inl ⟨rfl, rfl⟩⟩
  | none =>
    have hfind' : M.getFunction (OMP_WRAPPER_PREFIX ++ M.name k) = none := hfind
    have houtlined : outlinedWrapper U dl M k = M.create U (outlinedWrapperTy dl)
        (M.funcName k) (outlinedWrapperBody dl k) := by
      unfold outlinedWrapper
      simp only [hfind']
      rfl
    rw [houtlined]
    let w : Fn := ⟨M.fresh, outlinedWrapperTy dl⟩
    have hne : ∀ f ∈ M.functions, f ≠ w := fun f hf h => M.fresh_not_mem _ (h ▸ hf)
    refine ⟨⟨fun f hf => List.mem_append_left _ hf, fun f hf => ?_, fun f hf => ?_, rfl⟩,
      fun f hf => Function.update_of_ne (hne f hf) _ _, .inr ⟨hfind, M.fresh_not_mem _, rfl, rfl,
        Function.update_self .., M.create_name U _ _ _⟩⟩
    · exact (Function.update_of_ne (hne f hf) _ _).trans (Function.update_of_ne (hne f hf) _ _)
    · exact congrArg casts (Function.update_of_ne (hne f hf) _ _)

/-- The third argument of the call at `c` is a cast of `k` in `M`, of its wrapper in `M'`. -/
structure Turn (U : UniqueNames) (dl : DataLayout) (M M' : Module ω) (c : Fn × Nat)
    (k w : Fn) : Prop where
  kept : Extends M M'
  before : M.microtask c = some k
  after : M'.microtask c = some w
  mem : w ∈ M'.functions
  call : ∃ v, M'.instr c = (M.instr c).map (·.setArgOperand 2 v)
  others : ∀ c', c'.1 ∈ M.functions → c' ≠ c → M'.instr c' = M.instr c'
  wrapper : M.getFunction (M.funcName k) = some w ∧ M'.functions = M.functions ∨
    Created U dl M M' k w

theorem wrapForkCall_cases (hc : c.1 ∈ M.functions) (h : wrapForkCall U dl M c = some M') :
    M.microtask c = none ∧ M' = M ∨ ∃ k w, Turn U dl M M' c k w := by
  obtain ⟨i, hi, h⟩ := Option.bind_eq_some_iff.mp h
  obtain ⟨arg, harg, h⟩ := Option.bind_eq_some_iff.mp h
  dsimp only at h
  have hmicrotask : M.microtask c = (arg.stripPointerCasts (casts (M.body c.1))).target := by
    rw [Module.microtask, hi, Option.bind_some, Instr.microtask, harg, Option.bind_some]
  cases hk : (arg.stripPointerCasts (casts (M.body c.1))).target with
  | none =>
    rw [hk] at h
    exact .inl ⟨hmicrotask.trans hk, (Option.some.inj h).symm⟩
  | some k =>
    rw [hk] at h
    obtain ⟨hkept, hbody, hwrapper⟩ := outlinedWrapper_spec U dl M k
    -- the wrapper is found or created, and then passed in the kernel's place
    let M₁ := (outlinedWrapper U dl M k).1
    let w := (outlinedWrapper U dl M k).2
    let v := arg.pointerCast (casts (M.body c.1)) w
    have hM' : M' = M₁.setArgOperand c 2 v := (Option.some.inj h).symm
    have hcall : M'.instr c = some (i.setArgOperand 2 v) := by
      rw [hM', Module.instr_setArgOperand, Module.instr, hbody c.1 hc]
      exact congrArg (Option.map _) hi
    refine .inr ⟨k, w, ?_, hmicrotask.trans hk, ?_, ?_, ⟨v, ?_⟩, fun c' hc' hne => ?_, ?_⟩
    · rw [hM']
      exact ⟨hkept.functions, hkept.names,
        fun f hf => (M₁.casts_setArgOperand ..).trans (hkept.casts f hf), hkept.globals⟩
    · rw [Module.microtask, hcall]
      exact Instr.microtask_setArgOperand harg (Value.target_pointerCast hk w _)
    · rw [hM']
      rcases hwrapper with ⟨hfind, hsame⟩ | hcreated
      · exact hkept.functions w (M.getFunction_eq_some (M.funcName_ne_empty k) |>.mp hfind).1
      · exact hcreated.functions ▸ List.mem_append_right _ List.mem_cons_self
    · rw [hcall, hi, Option.map_some]
    · rw [hM', Module.instr_setArgOperand_of_ne _ hne, Module.instr, hbody c'.1 hc']
      rfl
    · rcases hwrapper with ⟨hfind, hsame⟩ | hcreated
      · have hfunctions : M₁.functions = M.functions := congrArg Module.functions hsame
        exact .inl ⟨hfind, hM' ▸ hfunctions⟩
      · rw [hM']
        have hw : w ≠ c.1 := fun hw => hcreated.new (show w ∈ M.functions from hw ▸ hc)
        exact .inr ⟨hcreated.missing, hcreated.new, hcreated.functions, hcreated.ty,
          (Function.update_of_ne hw _ _).trans hcreated.body, hcreated.name⟩

theorem wrapForkCall_some (U : UniqueNames) (dl : DataLayout) {i : Instr ω}
    (hi : M.instr c = some i) (hargs : 3 ≤ i.args.length) :
    ∃ M', wrapForkCall U dl M c = some M' := by
  unfold wrapForkCall
  simp only [hi, List.getElem?_eq_getElem hargs, Option.bind_eq_bind, Option.bind_some]
  split <;> exact ⟨_, rfl⟩

theorem three_le_args (h : wrapForkCall U dl M c = some M') {i : Instr ω}
    (hi : M.instr c = some i) : 3 ≤ i.args.length := by
  obtain ⟨i', hi', h⟩ := Option.bind_eq_some_iff.mp h
  obtain ⟨arg, harg, -⟩ := Option.bind_eq_some_iff.mp h
  rw [Option.some.inj (hi.symm.trans hi')]
  exact (List.getElem?_eq_some_iff.mp harg).1

theorem Turn.instr_others {k w : Fn} (h : Turn U dl M M' c k w) (f : Fn) (hf : f ∈ M.functions)
    (hne : f ≠ c.1) : M'.body f = M.body f :=
  List.ext_getElem? fun j => h.others (f, j) hf fun hj => hne (congrArg Prod.fst hj)

/-! ## All turns -/

theorem wrapOmpOutlinedFuncs_keeps {calls : List (Fn × Nat)} :
    ∀ {M M' : Module ω}, (∀ c ∈ calls, c.1 ∈ M.functions) →
      wrapOmpOutlinedFuncs U dl calls M = some M' →
      Extends M M' ∧ ∀ c, c.1 ∈ M.functions → c ∉ calls → M'.instr c = M.instr c := by
  induction calls with
  | nil =>
    intro M M' _ h
    obtain rfl : M = M' := Option.some.inj h
    exact ⟨.refl M, fun _ _ _ => rfl⟩
  | cons c calls ih =>
    intro M M' hcalls h
    obtain ⟨M₁, hstep, hrun⟩ := Option.bind_eq_some_iff.mp h
    have hcalls' : ∀ c' ∈ calls, c'.1 ∈ M.functions := fun c' hc' => hcalls c' (.tail c hc')
    rcases wrapForkCall_cases (hcalls c List.mem_cons_self) hstep with
      ⟨-, rfl⟩ | ⟨k, w, turn⟩
    · obtain ⟨hkept, hothers⟩ := ih hcalls' hrun
      exact ⟨hkept, fun c' hc' hmem => hothers c' hc' fun h => hmem (.tail c h)⟩
    · obtain ⟨hkept, hothers⟩ := ih (fun c' hc' => turn.kept.functions _ (hcalls' c' hc')) hrun
      refine ⟨turn.kept.trans hkept, fun c' hc' hmem => ?_⟩
      rw [hothers c' (turn.kept.functions _ hc') fun h => hmem (.tail c h)]
      exact turn.others c' hc' fun h => hmem (h ▸ List.mem_cons_self)

end HeroTools.Omp
