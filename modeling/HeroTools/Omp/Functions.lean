import HeroTools.Llvm.Semantics
import Mathlib.Algebra.Order.BigOperators.Group.List

/-! The part of LLVM's intermediate representation that `OmpKernelWrapper` reads and writes:
functions with an identity and a name, constants that refer to them, a table of globals. -/

namespace HeroTools.Omp
open Llvm
variable {ω : Type}

/-! ## Functions -/

/-- An LLVM instruction has less than `2 ^ 27` operands, so that a function with more
parameters cannot be called. -/
structure FunctionType where
  ret : Ty
  params : List Ty
  isVararg : Bool
  few : params.length < 2 ^ 27
deriving DecidableEq

def FunctionType.accepts (ty : FunctionType) (args : List Ty) : Bool :=
  ty.params.isPrefixOf args && (ty.isVararg || args.length == ty.params.length)

/-- A function keeps its number and its type; its name may change. -/
structure Fn where
  num : Nat
  ty : FunctionType
deriving DecidableEq

inductive PointerType
  | function (ty : FunctionType)
  | data (elt : Ty) (as : Nat)
  | other (name : String)
deriving DecidableEq

/-- A cast is a bit cast or an address space cast. -/
inductive Const
  | fn (f : Fn)
  | global (name : String)
  | int (bits n : Nat)
  | cast (ty : PointerType) (c : Const)
deriving DecidableEq

/-- `ConstantExpr::getPointerCast`; a cast to the type of `f` itself is `f`. -/
def getPointerCast (f : Fn) (ty : PointerType) : Const :=
  if ty = .function f.ty then .fn f else .cast ty (.fn f)

def Const.stripPointerCasts : Const → Const
  | .cast _ c => c.stripPointerCasts
  | c => c

/-- `dyn_cast<Function>`. -/
def Const.function : Const → Option Fn
  | .fn f => some f
  | _ => none

def Const.target (c : Const) : Option Fn := c.stripPointerCasts.function

@[simp] theorem Const.target_fn (f : Fn) : (Const.fn f).target = some f := rfl

@[simp] theorem Const.target_global (name : String) : (Const.global name).target = none := rfl

@[simp] theorem Const.target_int (bits n : Nat) : (Const.int bits n).target = none := rfl

@[simp] theorem Const.target_getPointerCast (f : Fn) (ty : PointerType) :
    (getPointerCast f ty).target = some f := by
  unfold getPointerCast
  split_ifs <;> rfl

inductive Value
  | reg (r : Nat)
  | const (c : Const)
deriving DecidableEq

/-- An address space cast of a register is a `bitcast` here too. -/
inductive Instr (ω : Type)
  | inttoptr (dst : Nat) (val : Value) (as : Nat)
  | gep (dst : Nat) (elt : Ty) (as : Nat) (ptr index : Value)
  | bitcast (dst : Nat) (ty : PointerType) (val : Value)
  | load (dst : Nat) (ty : Ty) (as : Nat) (ptr : Value)
  | call (dst : Option Nat) (callee : Value) (args : List Value)
  | ret
  | other (op : ω) (args : List Value)
deriving DecidableEq

def Value.target : Value → Option Fn
  | .reg _ => none
  | .const c => c.target

/-- The register that holds the same pointer as another value, and the type that it has. -/
def Instr.pointerCast : Instr ω → Option (Nat × PointerType × Value)
  | .bitcast d ty v => some (d, ty, v)
  | .gep d elt as p (.const (.int _ 0)) => some (d, .data elt as, p)
  | _ => none

abbrev Casts := List (Nat × PointerType × Value)

def casts (body : List (Instr ω)) : Casts := body.filterMap Instr.pointerCast

def Value.strip (casts : Casts) : Nat → Value → Value
  | n + 1, .reg r => match casts.lookup r with
    | some (_, v) => v.strip casts n
    | none => .reg r
  | _, v => v

/-- `Value::stripPointerCasts`, which goes on in a constant. More casts than there are would go
round in a circle. -/
def Value.stripPointerCasts (casts : Casts) (v : Value) : Value := v.strip casts casts.length

/-- `CallInst::getCalledFunction`: nothing for a call through a cast. -/
def Instr.getCalledFunction : Instr ω → Option Fn
  | .call _ (.const c) _ => c.function
  | _ => none

def Instr.args : Instr ω → List Value
  | .call _ _ args => args
  | _ => []

def Instr.setArgOperand (n : Nat) (v : Value) : Instr ω → Instr ω
  | .call dst callee args => .call dst callee (args.set n v)
  | i => i

structure Global where
  name : String
  init : List Const
deriving DecidableEq

/-- A function has no name, or its name is in the symbol table, for it alone. -/
structure Module (ω : Type) where
  functions : List Fn
  name : Fn → String
  body : Fn → List (Instr ω)
  globals : List Global
  nodup : functions.Nodup
  named_once : ∀ f ∈ functions, name f ≠ "" →
    name f ∉ globals.map Global.name ∧ ∀ g ∈ functions, name g = name f → g = f

/-! ## Uses of constants -/

/-- `replaceAllUsesWith`, in one constant. -/
def Const.replace (s t : Const) : Const → Const
  | .cast ty c => if .cast ty c = s then t else .cast ty (Const.replace s t c)
  | c => if c = s then t else c

def Value.map (g : Const → Const) : Value → Value
  | .reg r => .reg r
  | .const c => .const (g c)

def Instr.map (g : Const → Const) : Instr ω → Instr ω
  | .inttoptr d v as => .inttoptr d (v.map g) as
  | .gep d elt as p i => .gep d elt as (p.map g) (i.map g)
  | .bitcast d ty v => .bitcast d ty (v.map g)
  | .load d ty as p => .load d ty as (p.map g)
  | .call d f args => .call d (f.map g) (args.map (Value.map g))
  | .ret => .ret
  | .other op args => .other op (args.map (Value.map g))

def Global.map (g : Const → Const) (G : Global) : Global := { G with init := G.init.map g }

def Module.map (g : Const → Const) (M : Module ω) : Module ω where
  functions := M.functions
  name := M.name
  body := fun f => (M.body f).map (Instr.map g)
  globals := M.globals.map (Global.map g)
  nodup := M.nodup
  named_once := by
    rw [List.map_map]
    exact M.named_once

/-! ## The symbol table -/

/-- `ValueSymbolTable::makeUniqueName`: something is appended to a name that is in use. -/
structure UniqueNames where
  unique : List String → String → String
  unused : ∀ used base, unique used base ∉ used
  appends : ∀ used base, ∃ s, s ≠ "" ∧ unique used base = base ++ s

/-- One way to make names unique: more dots than any name has characters. -/
def dotted : UniqueNames where
  unique used base := base ++ String.ofList (List.replicate (used.map String.length).sum.succ '.')
  unused used base hmem := by
    have hle := List.le_sum_of_mem (List.mem_map_of_mem (f := String.length) hmem)
    rw [String.length_append, String.length_ofList, List.length_replicate] at hle
    omega
  appends used base := by
    refine ⟨_, fun h => ?_, rfl⟩
    have hlen := congrArg String.length h
    rw [String.length_ofList, List.length_replicate] at hlen
    exact nomatch hlen

/-- The name that something gets when it asks for `name`. Without a name it is in no table. -/
def UniqueNames.assign (U : UniqueNames) (used : List String) (name : String) : String :=
  if name = "" then "" else if name ∈ used then U.unique used name else name

theorem UniqueNames.assign_unused (U : UniqueNames) (used : List String) (name : String)
    (h : U.assign used name ≠ "") : U.assign used name ∉ used := by
  unfold assign at h ⊢
  split_ifs at h ⊢ with h0 hused
  · exact absurd rfl h
  · exact U.unused used name
  · exact hused

theorem UniqueNames.assign_of_not_mem (U : UniqueNames) {used : List String} {name : String}
    (h : name ∉ used) : U.assign used name = name := by
  unfold assign
  split_ifs with h0
  · exact h0.symm
  · rfl

theorem UniqueNames.assign_appends (U : UniqueNames) (used : List String) (name : String) :
    ∃ s, U.assign used name = name ++ s := by
  unfold assign
  split_ifs with h0 hused
  · exact ⟨"", by rw [h0]; rfl⟩
  · obtain ⟨s, -, hs⟩ := U.appends used name
    exact ⟨s, hs⟩
  · exact ⟨"", (String.append_empty).symm⟩

theorem UniqueNames.length_le_assign (U : UniqueNames) (used : List String) (name : String) :
    name.length ≤ (U.assign used name).length := by
  obtain ⟨s, hs⟩ := U.assign_appends used name
  rw [hs, String.length_append]
  exact Nat.le_add_right _ _

namespace Module
variable (U : UniqueNames) (M : Module ω)

def getFunction (name : String) : Option Fn := M.functions.find? fun f => M.name f = name

theorem getFunction_name {f : Fn} (hf : f ∈ M.functions) (hne : M.name f ≠ "") :
    M.getFunction (M.name f) = some f := by
  cases h : M.getFunction (M.name f) with
  | none => exact absurd (by simp) (List.find?_eq_none.mp h f hf)
  | some g =>
    have hname : M.name g = M.name f := by simpa using List.find?_some h
    rw [(M.named_once f hf hne).2 g (List.mem_of_find?_eq_some h) hname]

def otherNames (f : Fn) : List String :=
  (M.functions.filter (· ≠ f)).map M.name ++ M.globals.map Global.name

def fresh : Nat := M.functions.foldr (fun f n => max (f.num + 1) n) 0

theorem fresh_not_mem (ty : FunctionType) : (⟨M.fresh, ty⟩ : Fn) ∉ M.functions := by
  have hlt : ∀ (fs : List Fn), ∀ f ∈ fs, f.num < fs.foldr (fun f n => max (f.num + 1) n) 0 := by
    intro fs
    induction fs with
    | nil => simp
    | cons g fs ih =>
      intro f hf
      rw [List.foldr_cons]
      rcases List.mem_cons.mp hf with rfl | hf
      · omega
      · have := ih f hf
        omega
  exact fun hmem => Nat.lt_irrefl _ (hlt M.functions _ hmem)

def instr (c : Fn × Nat) : Option (Instr ω) := (M.body c.1)[c.2]?

def setArgOperand (c : Fn × Nat) (n : Nat) (v : Value) : Module ω :=
  { M with body := Function.update M.body c.1 ((M.body c.1).modify c.2 (·.setArgOperand n v)) }

/-- `Value::setName`: the old name is given up first. -/
def setName (f : Fn) (name : String) : Module ω where
  functions := M.functions
  name := Function.update M.name f (U.assign (M.otherNames f) name)
  body := M.body
  globals := M.globals
  nodup := M.nodup
  named_once := by
    have hnew := U.assign_unused (M.otherNames f) name
    have hothers : ∀ g ∈ M.functions, g ≠ f → M.name g ∈ M.otherNames f := fun g hg hne =>
      List.mem_append_left _ (List.mem_map_of_mem (List.mem_filter.mpr ⟨hg, by simpa using hne⟩))
    intro g hg hne
    by_cases hgf : g = f
    · subst hgf
      rw [Function.update_self] at hne ⊢
      refine ⟨fun hglobal => hnew hne (List.mem_append_right _ hglobal), fun k hk hname => ?_⟩
      by_contra hkg
      rw [Function.update_of_ne hkg] at hname
      exact hnew hne (hname ▸ hothers k hk hkg)
    · rw [Function.update_of_ne hgf] at hne ⊢
      refine ⟨(M.named_once g hg hne).1, fun k hk hname => ?_⟩
      by_cases hkf : k = f
      · subst hkf
        rw [Function.update_self] at hname
        exact absurd (hname ▸ hothers g hg hgf) (hnew (hname ▸ hne))
      · rw [Function.update_of_ne hkf] at hname
        exact (M.named_once g hg hne).2 k hk hname

def add (f : Fn) (hnew : f ∉ M.functions) (body : List (Instr ω)) : Module ω where
  functions := M.functions ++ [f]
  name := Function.update M.name f ""
  body := Function.update M.body f body
  globals := M.globals
  nodup := List.nodup_append.mpr ⟨M.nodup, List.pairwise_singleton .., fun g hg h hh => by
    rintro rfl
    exact hnew (List.mem_singleton.mp hh ▸ hg)⟩
  named_once := by
    have hold : ∀ g ∈ M.functions ++ [f], Function.update M.name f "" g ≠ "" →
        g ≠ f ∧ g ∈ M.functions := by
      intro g hg hne
      have hgf : g ≠ f := by
        rintro rfl
        exact hne (Function.update_self ..)
      exact ⟨hgf, by simpa [hgf] using hg⟩
    intro g hg hne
    obtain ⟨hgf, hg⟩ := hold g hg hne
    rw [Function.update_of_ne hgf] at hne ⊢
    refine ⟨(M.named_once g hg hne).1, fun k hk hname => ?_⟩
    obtain ⟨hkf, hk⟩ := hold k hk (hname ▸ hne)
    rw [Function.update_of_ne hkf] at hname
    exact (M.named_once g hg hne).2 k hk hname

def create (ty : FunctionType) (name : String) (body : List (Instr ω)) : Module ω × Fn :=
  ((M.add ⟨M.fresh, ty⟩ (M.fresh_not_mem ty) body).setName U ⟨M.fresh, ty⟩ name, ⟨M.fresh, ty⟩)

end Module

/-! ## Runs -/

abbrev Memory := Nat → Nat → Nat

def stored (dl : DataLayout) (mem : Memory) (as a : Nat) (ty : Ty) : Nat :=
  readLe (mem as) (dl.pointerBits as) (a % 2 ^ dl.pointerBits as) ((ty.bits dl + 7) / 8) %
    2 ^ ty.bits dl

/-- What calls of functions return and do to memory, if they return, and the other
instructions and constants. -/
structure Env (ω : Type) where
  dl : DataLayout
  address : Const → Nat
  run : Fn → List Nat → Memory → Option (Nat × Memory)
  other : ω → List Nat → Memory → Option Memory

structure Machine where
  regs : Nat → Option Nat
  mem : Memory
  calls : List (Fn × List Nat)

namespace Machine
variable (env : Env ω) (m : Machine)

def val : Value → Option Nat
  | .reg r => m.regs r
  | .const (.int _ n) => some n
  | .const c => some (env.address c)

def set (r v : Nat) : Machine := { m with regs := Function.update m.regs r (some v) }

def index32 (i : Nat) : Int := if i % 2 ^ 32 < 2 ^ 31 then i % 2 ^ 32 else i % 2 ^ 32 - 2 ^ 32

/-- `getelementptr` over elements of type `elt`. -/
def gepAddress (dl : DataLayout) (elt : Ty) (as a i : Nat) : Nat :=
  ((a + index32 i * (dl.allocBits elt / 8 : Nat)) % 2 ^ dl.pointerBits as).toNat

def exec : Instr ω → Option Machine
  | .inttoptr d v as => do
    let a ← m.val env v
    some (m.set d (castBits env.dl .inttoptr (.int 64) (.ptr as) a))
  | .gep d elt as p i => do
    let a ← m.val env p
    let i ← m.val env i
    some (m.set d (gepAddress env.dl elt as a i))
  | .bitcast d _ v => do
    let a ← m.val env v
    some (m.set d a)
  | .load d ty as p => do
    let a ← m.val env p
    some (m.set d (stored env.dl m.mem as a ty))
  | .call d (.const c) args => do
    let f ← c.target
    let vs ← args.mapM (m.val env)
    let (v, mem) ← env.run f vs m.mem
    let m := { m with mem := mem, calls := m.calls ++ [(f, vs)] }
    some (d.elim m fun d => m.set d v)
  | .call _ (.reg _) _ => none
  | .ret => none
  | .other op args => do
    let vs ← args.mapM (m.val env)
    let mem ← env.other op vs m.mem
    some { m with mem := mem }

end Machine

def execBody (env : Env ω) : List (Instr ω) → Machine → Option (Memory × List (Fn × List Nat))
  | [], _ => none
  | .ret :: _, m => some (m.mem, m.calls)
  | i :: is, m => (m.exec env i).bind (execBody env is)

def callBody (env : Env ω) (body : List (Instr ω)) (args : List Nat) (mem : Memory) :
    Option (Memory × List (Fn × List Nat)) :=
  execBody env body ⟨fun r => args[r]?, mem, []⟩

end HeroTools.Omp
