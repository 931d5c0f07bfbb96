import HeroTools.Llvm.Syntax
import HeroTools.Lib.Renaming
import Mathlib.Logic.Function.Iterate

/-! `HostPointerVisitor` of `OmpHostPointerLegalizer.cpp`, instruction by instruction. -/

namespace HeroTools.Llvm
open Renaming
variable {κ ω : Type}

def OMP_LOAD_PREFIX : String := "hero_load"

def OMP_STORE_PREFIX : String := "hero_store"

def startswith (name pre : String) : Bool := pre.toList.isPrefixOf name.toList

def supportFunction (fname : String) : Bool :=
  startswith fname OMP_LOAD_PREFIX || startswith fname OMP_STORE_PREFIX

def DataLayout.DeviceAS (dl : DataLayout) : Nat := dl.programAs

def DataLayout.HostAS (dl : DataLayout) : Nat := if dl.DeviceAS = 0 then 1 else 0

/-- `DS`: the bits of the value that a load or store moves. -/
def accessBits (dl : DataLayout) (ty : Ty) : Nat :=
  if ty.primitiveBits = 0 then dl.allocBits ty else ty.primitiveBits

def loadName (DS : Nat) : String := OMP_LOAD_PREFIX ++ "_uint" ++ toString DS

def storeName (DS : Nat) : String := OMP_STORE_PREFIX ++ "_uint" ++ toString DS

/-- What a visit puts in the place of an instruction, and in that of its uses. -/
structure Rewrite (κ ω : Type) where
  insts : List (Inst κ ω)
  uses : Reg → Reg

def keep (i : Inst κ ω) : Rewrite κ ω := ⟨[i], id⟩

/-- The registers from `n` on are free. -/
def visitLoadInst (dl : DataLayout) (fname : String) (n : Reg) (dst : Reg) (ty : Ty) (as : Nat)
    (ptr : Operand κ) : Rewrite κ ω :=
  -- loads in support functions are not modified
  if supportFunction fname then keep (.load dst ty as ptr)
  else if as ≠ dl.HostAS then keep (.load dst ty as ptr)
  else
    let SS := dl.allocBits (.ptr as)
    let DS := accessBits dl ty
    let PII : Inst κ ω := .cast n .ptrtoint (.ptr as) (.int SS) ptr
    let CI : Inst κ ω := .call (some (n + 1)) (loadName DS) (.int DS) [.int SS] [.reg n]
    if ty ≠ .int DS then
      let op := if ty.isPointerTy then .inttoptr else .bitcast
      let CTI : Inst κ ω := .cast (n + 2) op (.int DS) ty (.reg (n + 1))
      ⟨[PII, CI, CTI], replace dst (n + 2)⟩
    else ⟨[PII, CI], replace dst (n + 1)⟩

def visitStoreInst (dl : DataLayout) (n : Reg) (ty : Ty) (val : Operand κ) (as : Nat)
    (ptr : Operand κ) : Rewrite κ ω :=
  if as ≠ dl.HostAS then keep (.store ty val as ptr)
  else
    let SS := dl.allocBits (.ptr as)
    let DS := accessBits dl ty
    let PII : Inst κ ω := .cast n .ptrtoint (.ptr as) (.int SS) ptr
    let CI (SVI : Operand κ) : Inst κ ω :=
      .call none (storeName DS) .void [.int SS, .int DS] [.reg n, SVI]
    if ty ≠ .int DS then
      let op := if ty.isPointerTy then .ptrtoint else .bitcast
      ⟨[PII, .cast (n + 1) op ty (.int DS) val, CI (.reg (n + 1))], id⟩
    else ⟨[PII, CI val], id⟩

def hostDevicePair (dl : DataLayout) (src dst : Nat) : Bool :=
  min src dst = min dl.HostAS dl.DeviceAS ∧ max src dst = max dl.HostAS dl.DeviceAS

def visitAddrSpaceCastInst (dl : DataLayout) (n : Reg) (dst : Reg) (srcTy dstTy : Ty)
    (val : Operand κ) : Rewrite κ ω :=
  if !hostDevicePair dl srcTy.getPointerAddressSpace dstTy.getPointerAddressSpace then
    keep (.cast dst .addrspacecast srcTy dstTy val)
  else
    let DS := dl.allocBits dstTy
    ⟨[.cast n .ptrtoint srcTy (.int DS) val,
      .cast (n + 1) .inttoptr (.int DS) dstTy (.reg n)], replace dst (n + 1)⟩

def visit (dl : DataLayout) (fname : String) (n : Reg) : Inst κ ω → Rewrite κ ω
  | .load dst ty as ptr => visitLoadInst dl fname n dst ty as ptr
  | .store ty val as ptr => visitStoreInst dl n ty val as ptr
  | .cast dst .addrspacecast srcTy dstTy val => visitAddrSpaceCastInst dl n dst srcTy dstTy val
  | i => keep i

/-! ## Walking a function -/

/-- A function while it is visited: `done` and `todo` are the instructions of the current
block before and from the visitor on, the registers from `next` on are free. -/
structure Cursor (κ ω : Type) where
  name : String
  args : List Reg
  next : Reg
  before : List (Block κ ω)
  phis : List (Phi κ)
  done : List (Inst κ ω)
  todo : List (Inst κ ω)
  term : Terminator κ
  after : List (Block κ ω)

def Cursor.block (c : Cursor κ ω) : Block κ ω := ⟨c.phis, c.done ++ c.todo, c.term⟩

def Cursor.func (c : Cursor κ ω) : Func κ ω := ⟨c.name, c.args, c.before ++ c.block :: c.after⟩

/-- `replaceAllUsesWith`, over the whole function. -/
def Cursor.map (σ : Reg → Reg) (c : Cursor κ ω) : Cursor κ ω where
  name := c.name
  args := c.args
  next := c.next
  before := c.before.map (Block.map σ)
  phis := c.phis.map (Phi.map σ)
  done := c.done.map (Inst.map σ)
  todo := c.todo.map (Inst.map σ)
  term := c.term.map σ
  after := c.after.map (Block.map σ)

/-- One instruction: the new ones are inserted before it and not visited, its uses are
replaced and it is erased. -/
def Cursor.step (dl : DataLayout) (c : Cursor κ ω) : Cursor κ ω :=
  match c.todo with
  | [] => c
  | i :: rest =>
    let r := visit dl c.name c.next i
    Cursor.map r.uses { c with next := c.next + 3, done := c.done ++ r.insts, todo := rest }

def visitBlock (dl : DataLayout) (c : Cursor κ ω) : Cursor κ ω :=
  (Cursor.step dl)^[c.todo.length] c

def Cursor.enter (c : Cursor κ ω) (b : Block κ ω) (bs : List (Block κ ω)) : Cursor κ ω :=
  { c with
    before := c.before ++ [c.block]
    phis := b.phis
    done := []
    todo := b.insts
    term := b.term
    after := bs }

def visitBlocks (dl : DataLayout) : Nat → Cursor κ ω → Func κ ω
  | 0, c => (visitBlock dl c).func
  | k + 1, c =>
    let c := visitBlock dl c
    match c.after with
    | [] => c.func
    | b :: bs => visitBlocks dl k (c.enter b bs)

def Func.cursor (f : Func κ ω) (b : Block κ ω) (bs : List (Block κ ω)) : Cursor κ ω where
  name := f.name
  args := f.args
  next := f.fresh
  before := []
  phis := b.phis
  done := []
  todo := b.insts
  term := b.term
  after := bs

/-- `HostPointerVisitor::visit` of a function; a declaration has no blocks. -/
def visitFunc (dl : DataLayout) (f : Func κ ω) : Func κ ω :=
  match f.blocks with
  | [] => f
  | b :: bs => visitBlocks dl bs.length (f.cursor b bs)

end HeroTools.Llvm
