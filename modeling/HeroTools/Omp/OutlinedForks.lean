import HeroTools.Omp.OutlinedCalls
import Mathlib.Data.List.Induction
import Mathlib.Data.List.Nodup

/-! When every fork of an outlined function is given a wrapper that calls this function, the
same one for the same function. -/

namespace HeroTools.Omp
open Llvm
variable {ω : Type} {U : UniqueNames} {dl : DataLayout} {M M' : Module ω} {c : Fn × Nat}

/-! ## The list of calls -/

theorem count_flatMap_of_nodup {α β : Type} [BEq β] [LawfulBEq β] {l : List α} (hl : l.Nodup)
    {x : α} (hx : x ∈ l) {g : α → List β} {b : β} (h : ∀ y ∈ l, y ≠ x → b ∉ g y) :
    (l.flatMap g).count b = (g x).count b := by
  obtain ⟨pre, post, rfl⟩ := List.append_of_mem hx
  obtain ⟨-, hpost, hpre⟩ := List.nodup_append.mp hl
  have hbpre : b ∉ pre.flatMap g := by
    intro hb
    obtain ⟨y, hy, hb⟩ := List.mem_flatMap.mp hb
    exact h y (List.mem_append_left _ hy) (hpre y hy x List.mem_cons_self) hb
  have hbpost : b ∉ post.flatMap g := by
    intro hb
    obtain ⟨y, hy, hb⟩ := List.mem_flatMap.mp hb
    exact h y (by simp [hy]) (fun hyx => (List.nodup_cons.mp hpost).1 (hyx ▸ hy)) hb
  rw [List.flatMap_append, List.flatMap_cons, List.count_append, List.count_append,
    List.count_eq_zero_of_not_mem hbpre, List.count_eq_zero_of_not_mem hbpost]
  omega

theorem count_getKMPForkCalls {kfc : Fn} (hkfc : M.getFunction "__kmpc_fork_call" = some kfc)
    (hc : c.1 ∈ M.functions) {i : Instr ω} (hi : M.instr c = some i) :
    (getKMPForkCalls M).count c = i.uses kfc := by
  have hnodup : (M.body c.1).zipIdx.Nodup := by
    refine List.Nodup.of_map Prod.snd ?_
    rw [List.zipIdx_map_snd]
    exact List.nodup_range'
  unfold getKMPForkCalls
  simp only [hkfc]
  rw [count_flatMap_of_nodup M.nodup hc fun f _ hne hmem => ?_,
    count_flatMap_of_nodup hnodup (List.mk_mem_zipIdx_iff_getElem?.mpr hi) fun y hy hne hmem => ?_]
  · exact List.count_replicate_self
  · obtain ⟨y, j⟩ := y
    obtain rfl : c.2 = j := congrArg Prod.snd (List.eq_of_mem_replicate hmem)
    have hy := List.mk_mem_zipIdx_iff_getElem?.mp hy
    exact hne (Prod.ext (Option.some.inj (hy.symm.trans hi)) rfl)
  · obtain ⟨y, -, hmem⟩ := List.mem_flatMap.mp hmem
    exact hne (congrArg Prod.fst (List.eq_of_mem_replicate hmem)).symm

theorem mem_getKMPForkCalls :
    c ∈ getKMPForkCalls M ↔ c.1 ∈ M.functions ∧ ∃ kfc i,
      M.getFunction "__kmpc_fork_call" = some kfc ∧ M.instr c = some i ∧ 0 < i.uses kfc := by
  unfold getKMPForkCalls
  cases hkfc : M.getFunction "__kmpc_fork_call" with
  | none => simp
  | some kfc =>
    simp only [List.mem_flatMap, List.mem_replicate]
    constructor
    · rintro ⟨f, hf, i, hi, hne, rfl⟩
      exact ⟨hf, kfc, i.1, rfl, List.mem_zipIdx_iff_getElem?.mp hi, Nat.pos_of_ne_zero hne⟩
    · rintro ⟨hf, kfc', i, hkfc', hi, hpos⟩
      rw [← Option.some.inj hkfc'] at hpos
      exact ⟨c.1, hf, (i, c.2), List.mk_mem_zipIdx_iff_getElem?.mpr hi, hpos.ne', rfl⟩

theorem Instr.uses_eq (i : Instr ω) (kfc : Fn) :
    i.uses kfc = i.args.count (.const (.fn kfc)) +
      if i.getCalledFunction = some kfc then 1 else 0 := by
  cases i with
  | call dst callee args =>
    rw [uses, List.count_cons, Instr.args]
    congr 1
    rcases callee with r | c
    · simp [getCalledFunction]
    · cases c <;> simp [getCalledFunction, Const.function]
  | inttoptr | gep | bitcast | load | ret | other => simp [uses, Instr.args, getCalledFunction]

/-! ## Forks -/

def Module.Forks (M : Module ω) (c : Fn × Nat) (f : Fn) : Prop :=
  c.1 ∈ M.functions ∧ ∃ kfc i, M.getFunction "__kmpc_fork_call" = some kfc ∧
    M.instr c = some i ∧ i.getCalledFunction = some kfc ∧
      i.microtask (casts (M.body c.1)) = some f

theorem Module.Forks.microtask {f : Fn} (h : M.Forks c f) : M.microtask c = some f := by
  obtain ⟨-, kfc, i, -, hi, -, hf⟩ := h
  rw [Module.microtask, hi]
  exact hf

theorem Module.Forks.mem_calls {f : Fn} (h : M.Forks c f) : c ∈ getKMPForkCalls M := by
  obtain ⟨hc, kfc, i, hkfc, hi, hcall, -⟩ := h
  refine mem_getKMPForkCalls.mpr ⟨hc, kfc, i, hkfc, hi, ?_⟩
  rw [i.uses_eq, if_pos hcall]
  exact Nat.succ_pos _

/-- Functions have names of their own, none like a wrapper's, and pass no functions of other
modules. -/
structure Ordinary (M : Module ω) : Prop where
  named : ∀ f ∈ M.functions, M.name f ≠ ""
  unprefixed : ∀ f ∈ M.functions, startswith (M.name f) OMP_WRAPPER_PREFIX = false
  closed : ∀ f ∈ M.functions, ∀ i ∈ M.body f, ∀ g ∈ i.microtask (casts (M.body f)),
    g ∈ M.functions

theorem Ordinary.microtask_mem (hord : Ordinary M) (hc : c.1 ∈ M.functions) {f : Fn}
    (hf : M.microtask c = some f) : f ∈ M.functions := by
  obtain ⟨i, hi, hf⟩ := Option.bind_eq_some_iff.mp hf
  exact hord.closed c.1 hc i (List.mem_of_getElem? hi) f hf

/-- Every fork of `f` passes the wrapper of `f`, and nothing else changes. -/
structure OutlinedWrapped (dl : DataLayout) (M M' : Module ω) : Prop where
  wrapped : ∀ c f, M.Forks c f → ∃ w, M'.microtask c = some w ∧ w.ty = outlinedWrapperTy dl ∧
    f.ty.accepts ([thdTy dl, thdTy dl] ++ f.ty.params.drop 2) ∧
    ∀ env : Env ω, env.dl = dl → ∀ g b buf mem,
      let args := [g, b] ++ bufferArgs dl mem dl.DeviceAS buf (dl.allocBits (argTy dl) / 8)
        (f.ty.params.drop 2)
      callBody env (M'.body w) [g, b, buf] mem =
        (env.run f args mem).map fun result => (result.2, [(f, args)])
  shared : ∀ c c' f f', M.Forks c f → M.Forks c' f' →
    (M'.microtask c = M'.microtask c' ↔ f = f')
  arguments : ∀ c f, M.Forks c f → ∃ v, M'.instr c = (M.instr c).map (·.setArgOperand 2 v)
  others : ∀ c, c.1 ∈ M.functions → (∀ f, ¬ M.Forks c f) → M'.instr c = M.instr c
  kept : Extends M M'

/-- A call that uses `__kmpc_fork_call` has three arguments, and passes it only together with
something that is no function. -/
def ForksAlone (M : Module ω) : Prop :=
  ∀ kfc ∈ M.getFunction "__kmpc_fork_call", ∀ f ∈ M.functions, ∀ i ∈ M.body f, 0 < i.uses kfc →
    3 ≤ i.args.length ∧
      (.const (.fn kfc) ∈ i.args → i.microtask (casts (M.body f)) = none)

/-- A variable has the name of a wrapper only if its function is forked once and if no wrapper
can be taken for it. Outlined functions begin with two thread ids. -/
structure WellForked (dl : DataLayout) (M : Module ω) : Prop where
  calls : ForksAlone M
  symbols : ∀ c f, M.Forks c f → M.funcName f ∈ M.globals.map Global.name →
    (∀ c', M.Forks c' f → c' = c) ∧ ∀ c' g s, M.Forks c' g → M.name g = M.name f ++ s →
      s ≠ "" → M.funcName g ∈ M.globals.map Global.name
  types : ∀ c f, M.Forks c f → f.ty.accepts ([thdTy dl, thdTy dl] ++ f.ty.params.drop 2)

theorem ForksAlone.listed (halone : ForksAlone M) (hc : c ∈ getKMPForkCalls M) {f : Fn}
    (hf : M.microtask c = some f) : M.Forks c f ∧ (getKMPForkCalls M).count c = 1 := by
  obtain ⟨hfn, kfc, i, hkfc, hi, hpos⟩ := mem_getKMPForkCalls.mp hc
  have hmicrotask : i.microtask (casts (M.body c.1)) = some f := by
    rwa [Module.microtask, hi] at hf
  have hnotin : .const (.fn kfc) ∉ i.args := by
    intro hmem
    have hnone := (halone kfc hkfc c.1 hfn i (List.mem_of_getElem? hi) hpos).2 hmem
    cases hnone.symm.trans hmicrotask
  rw [count_getKMPForkCalls hkfc hfn hi]
  rw [i.uses_eq, List.count_eq_zero_of_not_mem hnotin, Nat.zero_add] at hpos ⊢
  by_cases hcall : i.getCalledFunction = some kfc
  · exact ⟨⟨hfn, kfc, i, hkfc, hi, hcall, hmicrotask⟩, if_pos hcall⟩
  · rw [if_neg hcall] at hpos
    exact absurd hpos (Nat.lt_irrefl 0)

/-! ## After some of the calls -/

structure IsWrapper (dl : DataLayout) (M M' : Module ω) (f w : Fn) : Prop where
  mem : w ∈ M'.functions
  new : w ∉ M.functions
  ty : w.ty = outlinedWrapperTy dl
  body : M'.body w = outlinedWrapperBody dl f

/-- Calls in `done` pass wrappers, which are found under their names where they can be. -/
structure Forked (dl : DataLayout) (M M' : Module ω) (done : List (Fn × Nat)) : Prop where
  kept : Extends M M'
  others : ∀ c, c.1 ∈ M.functions → (c ∈ done → M.microtask c = none) → M'.instr c = M.instr c
  wrapped : ∀ c ∈ done, ∀ f, M.microtask c = some f →
    (∃ v, M'.instr c = (M.instr c).map (·.setArgOperand 2 v)) ∧
    ∃ w, M'.microtask c = some w ∧ IsWrapper dl M M' f w ∧
      (M.funcName f ∉ M.globals.map Global.name → M'.getFunction (M.funcName f) = some w)
  named : ∀ c f, M.Forks c f → M.funcName f ∉ M.globals.map Global.name →
    ∀ w, M'.getFunction (M.funcName f) = some w → IsWrapper dl M M' f w

theorem Extends.funcName (h : Extends M M') {f : Fn} (hf : f ∈ M.functions) :
    M'.funcName f = M.funcName f := by
  rw [Module.funcName, h.names f hf, Module.funcName]

theorem Extends.getFunction (h : Extends M M') {name : String} (hne : name ≠ "") {f : Fn}
    (hf : M.getFunction name = some f) : M'.getFunction name = some f := by
  obtain ⟨hmem, hname⟩ := (M.getFunction_eq_some hne).mp hf
  exact (M'.getFunction_eq_some hne).mpr ⟨h.functions f hmem, (h.names f hmem).trans hname⟩

theorem Turn.body_wrapper {M'' : Module ω} {k w f w' : Fn} (turn : Turn U dl M' M'' c k w)
    (hc : c.1 ∈ M.functions) (hw : IsWrapper dl M M' f w') : IsWrapper dl M M'' f w' where
  mem := turn.kept.functions w' hw.mem
  new := hw.new
  ty := hw.ty
  body := (turn.instr_others w' hw.mem fun h => hw.new (h ▸ hc)).trans hw.body

theorem startswith_funcName (M : Module ω) (f : Fn) :
    startswith (M.funcName f) OMP_WRAPPER_PREFIX = true := by
  rw [startswith, List.isPrefixOf_iff_prefix, Module.funcName, String.toList_append]
  exact List.prefix_append _ _

theorem Forked.start (hord : Ordinary M) : Forked dl M M [] where
  kept := .refl M
  others _ _ _ := rfl
  wrapped _ hc := nomatch hc
  named c f hf _ w hw := by
    obtain ⟨hmem, hname⟩ := (M.getFunction_eq_some (M.funcName_ne_empty f)).mp hw
    have hpre := hord.unprefixed w hmem
    rw [hname] at hpre
    exact nomatch (startswith_funcName M f).symm.trans hpre

theorem append_left_inj {p a b : String} (h : p ++ a = p ++ b) : a = b :=
  String.toList_injective (by simpa using congrArg String.toList h)

theorem Ordinary.name_inj (hord : Ordinary M) {f g : Fn} (hf : f ∈ M.functions)
    (hg : g ∈ M.functions) (h : M.name g = M.name f) : g = f :=
  (M.named_once f hf (hord.named f hf)).2 g hg h

theorem Forked.wrapper {done : List (Fn × Nat)} {M'' : Module ω} {f w : Fn}
    (h : Forked dl M M' done) (hfork : M.Forks c f) (hf : f ∈ M.functions)
    (turn : Turn U dl M' M'' c f w) :
    IsWrapper dl M M'' f w ∧
      (M.funcName f ∉ M.globals.map Global.name → M''.name w = M.funcName f) := by
  have hfuncName := h.kept.funcName hf
  rcases turn.wrapper with ⟨hfind, hfunctions⟩ | hcreated
  · rw [hfuncName] at hfind
    obtain ⟨hmem, hname⟩ := (M'.getFunction_eq_some (M.funcName_ne_empty f)).mp hfind
    have hvar : M.funcName f ∉ M.globals.map Global.name := by
      rw [← hname, ← h.kept.globals]
      exact (M'.named_once w hmem (hname ▸ M.funcName_ne_empty f)).1
    exact ⟨turn.body_wrapper hfork.1 (h.named c f hfork hvar w hfind),
      fun _ => (turn.kept.names w hmem).trans hname⟩
  · refine ⟨⟨turn.mem, fun hw => hcreated.new (h.kept.functions w hw), hcreated.ty,
      hcreated.body⟩, fun hvar => ?_⟩
    obtain ⟨used, hused, hname⟩ := hcreated.name
    rw [hname, hfuncName]
    refine U.assign_of_not_mem fun hmem => ?_
    rcases List.mem_append.mp ((hused _).mp hmem) with hfn | hglobal
    · obtain ⟨g, hg, hgname⟩ := List.mem_map.mp hfn
      exact Module.getFunction_eq_none.mp hcreated.missing g hg (hgname.trans hfuncName.symm)
    · exact hvar (h.kept.globals ▸ hglobal)

theorem Forked.new_name {done : List (Fn × Nat)} {M'' : Module ω} {f g w w' : Fn} {c' : Fn × Nat}
    (hwell : WellForked dl M) (h : Forked dl M M' done) (hfork : M.Forks c f)
    (hg : M.Forks c' g) (hvar : M.funcName g ∉ M.globals.map Global.name) (hf : f ∈ M.functions)
    (turn : Turn U dl M' M'' c f w) (hnew : w' ∉ M'.functions) (hmem : w' ∈ M''.functions)
    (hname : M''.name w' = M.funcName g) : w' = w ∧ M.name f = M.name g := by
  rcases turn.wrapper with ⟨-, hfunctions⟩ | hcreated
  · exact absurd (hfunctions ▸ hmem) hnew
  · obtain rfl : w' = w := by simpa [hcreated.functions, hnew] using hmem
    obtain ⟨used, -, hassign⟩ := hcreated.name
    obtain ⟨s, hs⟩ := U.assign_appends used (M'.funcName f)
    have happend : M.funcName g = M.funcName f ++ s := by
      rw [← hname, hassign, hs, h.kept.funcName hf]
    have hnames : M.name g = M.name f ++ s := by
      rw [Module.funcName, Module.funcName, String.append_assoc] at happend
      exact append_left_inj happend
    refine ⟨rfl, ?_⟩
    -- a longer name means that there is a variable of the shorter one
    by_cases hs0 : s = ""
    · rw [hnames, hs0, String.append_empty]
    · by_cases hfvar : M.funcName f ∈ M.globals.map Global.name
      · exact absurd ((hwell.symbols c f hfork hfvar).2 c' g s hg hnames hs0) hvar
      · have hwname := (h.wrapper hfork hf turn).2 hfvar
        rw [hname, happend] at hwname
        have hlen := congrArg String.length hwname
        rw [String.length_append] at hlen
        exact absurd (String.length_eq_zero_iff.mp (by omega)) hs0

theorem Forked.turn {done : List (Fn × Nat)} {M'' : Module ω} {k w f : Fn} (hord : Ordinary M)
    (hwell : WellForked dl M) (h : Forked dl M M' done) (hfork : M.Forks c f) (hc : c ∉ done)
    (hdone : ∀ c ∈ done, c.1 ∈ M.functions) (turn : Turn U dl M' M'' c k w) :
    Forked dl M M'' (done ++ [c]) := by
  have hinstr : M'.instr c = M.instr c := h.others c hfork.1 fun hmem => absurd hmem hc
  obtain rfl : k = f := by
    have hk : M.microtask c = some k := (h.kept.microtask hfork.1 hinstr).symm.trans turn.before
    exact Option.some.inj (hk.symm.trans hfork.microtask)
  have hk : k ∈ M.functions := hord.microtask_mem hfork.1 hfork.microtask
  obtain ⟨hw, hname⟩ := h.wrapper hfork hk turn
  have hothers : ∀ c' ∈ done, M''.instr c' = M'.instr c' := fun c' hc' =>
    turn.others c' (h.kept.functions _ (hdone c' hc')) fun heq => hc (heq ▸ hc')
  refine ⟨h.kept.trans turn.kept, fun c' hc' hmem => ?_, fun c' hc' f hf => ?_,
    fun c' g hg hvar w' hw' => ?_⟩
  case refine_1 =>
    have hne : c' ≠ c := by
      rintro rfl
      cases (hmem (by simp)).symm.trans hfork.microtask
    rw [turn.others c' (h.kept.functions _ hc') hne]
    exact h.others c' hc' fun hmem' => hmem (List.mem_append_left _ hmem')
  case refine_2 =>
    rcases List.mem_append.mp hc' with hc' | hc'
    · obtain ⟨hcall, w', hw', hwrapper, hfind⟩ := h.wrapped c' hc' f hf
      rw [hothers c' hc', turn.kept.microtask (h.kept.functions _ (hdone c' hc')) (hothers c' hc')]
      exact ⟨hcall, w', hw', turn.body_wrapper hfork.1 hwrapper,
        fun hvar => turn.kept.getFunction (M.funcName_ne_empty f) (hfind hvar)⟩
    · obtain rfl := List.mem_singleton.mp hc'
      obtain rfl : k = f := Option.some.inj (hfork.microtask.symm.trans hf)
      exact ⟨hinstr ▸ turn.call, w, turn.after, hw, fun hvar =>
        (M''.getFunction_eq_some (M.funcName_ne_empty k)).mpr ⟨hw.mem, hname hvar⟩⟩
  case refine_3 =>
    -- a function found under a wrapper's name was there before, or has just been created
    have hgmem : g ∈ M.functions := hord.microtask_mem hg.1 hg.microtask
    obtain ⟨hmem, hwname⟩ := (M''.getFunction_eq_some (M.funcName_ne_empty g)).mp hw'
    by_cases hold : w' ∈ M'.functions
    · refine turn.body_wrapper hfork.1 (h.named c' g hg hvar w' ?_)
      exact (M'.getFunction_eq_some (M.funcName_ne_empty g)).mpr
        ⟨hold, (turn.kept.names w' hold).symm.trans hwname⟩
    · obtain ⟨rfl, hkg⟩ := h.new_name hwell hfork hg hvar hk turn hold hmem hwname
      obtain rfl : k = g := hord.name_inj hgmem hk hkg
      exact hw

theorem wrapOmpOutlinedFuncs_forked (U : UniqueNames) (hord : Ordinary M)
    (hwell : WellForked dl M) (done : List (Fn × Nat)) :
    (∀ c ∈ done, c ∈ getKMPForkCalls M) → (∀ c, done.count c ≤ (getKMPForkCalls M).count c) →
      ∃ M', wrapOmpOutlinedFuncs U dl done M = some M' ∧ Forked dl M M' done := by
  induction done using List.reverseRecOn with
  | nil => exact fun _ _ => ⟨M, rfl, .start hord⟩
  | append_singleton done c ih =>
    intro hmem hcount
    have hdone : ∀ c' ∈ done, c' ∈ getKMPForkCalls M := fun c' hc' =>
      hmem c' (List.mem_append_left _ hc')
    have hcount' : ∀ c', done.count c' ≤ (getKMPForkCalls M).count c' := fun c' =>
      (List.Sublist.count_le c' (List.sublist_append_left done [c])).trans (hcount c')
    obtain ⟨M', hrun, h⟩ := ih hdone hcount'
    have hlisted : c ∈ getKMPForkCalls M := hmem c (by simp)
    obtain ⟨hfn, kfc, i, hkfc, hi, hpos⟩ := mem_getKMPForkCalls.mp hlisted
    have hnew : ∀ f, M.microtask c = some f → M.Forks c f ∧ c ∉ done := by
      intro f hf
      obtain ⟨hfork, hone⟩ := hwell.calls.listed hlisted hf
      have hcount := hcount c
      rw [hone, List.count_append, List.count_singleton_self] at hcount
      exact ⟨hfork, List.count_eq_zero.mp (by omega)⟩
    -- a fork is listed once, so this one has not been changed yet
    have hinstr : M'.instr c = M.instr c := by
      refine h.others c hfn fun hc => ?_
      cases hf : M.microtask c with
      | none => rfl
      | some f => exact absurd hc (hnew f hf).2
    obtain ⟨M'', hstep⟩ := wrapForkCall_some U dl (hinstr.trans hi)
      (hwell.calls kfc hkfc c.1 hfn i (List.mem_of_getElem? hi) hpos).1
    refine ⟨M'', ?_, ?_⟩
    · rw [wrapOmpOutlinedFuncs, List.foldlM_append]
      exact Option.bind_eq_some_iff.mpr ⟨M', hrun, Option.bind_eq_some_iff.mpr ⟨M'', hstep, rfl⟩⟩
    · rcases wrapForkCall_cases (h.kept.functions _ hfn) hstep with ⟨hnone, rfl⟩ | ⟨k, w, turn⟩
      · have hnone : M.microtask c = none := (h.kept.microtask hfn hinstr).symm.trans hnone
        refine ⟨h.kept, fun c' hc' hmem' => h.others c' hc' fun hd => hmem' (by simp [hd]),
          fun c' hc' f hf => ?_, h.named⟩
        rcases List.mem_append.mp hc' with hc' | hc'
        · exact h.wrapped c' hc' f hf
        · obtain rfl := List.mem_singleton.mp hc'
          cases hnone.symm.trans hf
      · have hk : M.microtask c = some k := (h.kept.microtask hfn hinstr).symm.trans turn.before
        exact h.turn hord hwell (hnew k hk).1 (hnew k hk).2
          (fun c' hc' => (mem_getKMPForkCalls.mp (hdone c' hc')).1) turn

theorem outlinedWrapperBody_injective (dl : DataLayout) {f f' : Fn}
    (h : (outlinedWrapperBody dl f : List (Instr ω)) = outlinedWrapperBody dl f') : f = f' := by
  have hcall := (List.append_inj' h rfl).2
  injection hcall with hcall
  injection hcall with _ hcallee
  injection hcallee with hcallee
  exact Const.fn.inj hcallee

theorem WellForked.wraps (U : UniqueNames) (hord : Ordinary M) (hwell : WellForked dl M)
    {calls : List (Fn × Nat)} (hcalls : calls.Perm (getKMPForkCalls M)) :
    ∃ M', wrapOmpOutlinedFuncs U dl calls M = some M' ∧ OutlinedWrapped dl M M' := by
  obtain ⟨M', hrun, h⟩ := wrapOmpOutlinedFuncs_forked U hord hwell calls
    (fun c hc => hcalls.mem_iff.mp hc) fun c => (hcalls.count_eq c).le
  have hwrapped : ∀ c f, M.Forks c f → _ := fun c f hf =>
    h.wrapped c (hcalls.mem_iff.mpr hf.mem_calls) f hf.microtask
  refine ⟨M', hrun, fun c f hf => ?_, fun c c' f f' hf hf' => ?_, fun c f hf => (hwrapped c f hf).1,
    fun c hc hnone => h.others c hc fun hmem => ?_, h.kept⟩
  · obtain ⟨-, w, hw, hwrapper, -⟩ := hwrapped c f hf
    refine ⟨w, hw, hwrapper.ty, hwell.types c f hf, ?_⟩
    rintro env rfl g b buf mem
    rw [hwrapper.body]
    exact call_outlinedWrapper f g b buf mem
  · obtain ⟨-, w, hw, hwrapper, hfind⟩ := hwrapped c f hf
    obtain ⟨-, w', hw', hwrapper', hfind'⟩ := hwrapped c' f' hf'
    constructor
    · intro heq
      have hww' : w = w' := Option.some.inj (hw.symm.trans (heq.trans hw'))
      exact outlinedWrapperBody_injective dl
        (hwrapper.body.symm.trans (hww' ▸ hwrapper'.body))
    · rintro rfl
      by_cases hvar : M.funcName f ∈ M.globals.map Global.name
      · rw [(hwell.symbols c f hf hvar).1 c' hf']
      · rw [hw, hw', ← hfind hvar, ← hfind' hvar]
  · cases hf : M.microtask c with
    | none => rfl
    | some f =>
      exact absurd (hwell.calls.listed (hcalls.mem_iff.mp hmem) hf).1 (hnone f)

end HeroTools.Omp
