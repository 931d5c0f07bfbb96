import HeroTools.Omp.KernelUses

/-! `OmpKernelWrapper::runOnModule`: both transformations, one after the other. -/

namespace HeroTools.Omp
open Llvm
variable {ω : Type}

/-! ## The pass -/

/-- The runtime calls whose argument of sizes `changeTypeOfArgSizes` turns into one of 64-bit
sizes, and the number of this argument. -/
def argSizesCalls : List (String × Nat) :=
  [("__tgt_target_data_begin", 4), ("__tgt_target_data_begin_nowait", 4),
    ("__tgt_target_data_begin_depend", 4), ("__tgt_target_data_begin_nowait_depend", 4),
    ("__tgt_target_data_end", 4), ("__tgt_target_data_end_nowait", 4),
    ("__tgt_target_data_end_depend", 4), ("__tgt_target_data_end_nowait_depend", 4),
    ("__tgt_target_data_update", 4), ("__tgt_target_data_update_nowait", 4),
    ("__tgt_target_data_update_depend", 4), ("__tgt_target_data_update_nowait_depend", 4),
    ("__tgt_target", 5), ("__tgt_target_nowait", 5), ("__tgt_target_teams", 5),
    ("__tgt_target_teams_nowait", 5)]

/-- `changeTypeOfArgSizes` is whatever the pass does to the calls on a 32-bit ARM host, and
`order` lists the uses of `__kmpc_fork_call` in some order. -/
def runOnModule (U : UniqueNames) (dl : DataLayout)
    (changeTypeOfArgSizes : Module ω → String × Nat → Module ω)
    (order : Module ω → List (Fn × Nat)) (triple : String) (M : Module ω) : Option (Module ω) :=
  let M := if triple = "armv6kz-unknown-linux-gnueabihf" then
    argSizesCalls.foldl changeTypeOfArgSizes M else M
  let M := if triple = "riscv32-hero-unknown-elf" ∨ triple = "riscv32-snitch-unknown-elf" ∨
      startswith triple "riscv32-hero-hero" = true then wrapOmpKernels U dl M else M
  if triple = "riscv32-hero-unknown-elf" then wrapOmpOutlinedFuncs U dl (order M) M else some M

/-! ## What the pass is for -/

def Module.Kernel (M : Module ω) (k : Fn) : Prop :=
  ∃ e ∈ getOmpOffloadEntries M, M.offloadFunction e = some k

variable {U : UniqueNames} {dl : DataLayout} {M M' : Module ω} {c : Fn × Nat}

section
variable {K : Fn → Prop} {g : Const → Const} {kfc : Fn} (hg : Moves K M M' g)
  (hkfc : kfc ∈ M.functions) (hK : ¬ K kfc)
include hg hkfc hK

end

namespace HeroModule

end HeroModule

/-! ## Both transformations -/

end HeroTools.Omp
