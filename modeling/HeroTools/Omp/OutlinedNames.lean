import HeroTools.Omp.OutlinedForks

/-! The conditions under which forks are wrapped are all needed, for some order of the calls and
some way of making names unique. -/

namespace HeroTools.Omp
open Llvm
variable {ω : Type} {U : UniqueNames} {dl : DataLayout} {M M' : Module ω} {c : Fn × Nat}

/-! ## Orders of the calls -/

theorem replicate_append_perm (l : List (Fn × Nat)) (c : Fn × Nat) :
    (List.replicate (l.count c) c ++ l.filter (· ≠ c)).Perm l := by
  refine List.perm_iff_count.mpr fun d => ?_
  rw [List.count_append]
  by_cases hd : d = c
  · subst hd
    have hzero : (l.filter (· ≠ d)).count d = 0 := List.count_eq_zero.mpr (by simp)
    rw [List.count_replicate_self, hzero, Nat.add_zero]
  · rw [List.count_eq_zero_of_not_mem (fun h => hd (List.eq_of_mem_replicate h)), Nat.zero_add,
      List.count_filter (by simpa using hd)]

theorem two_first {l : List (Fn × Nat)} {c c' : Fn × Nat} (hc : l.count c = 1)
    (hc' : l.count c' = 1) (hne : c ≠ c') :
    ∃ rest, (c :: c' :: rest).Perm l ∧ c ∉ rest ∧ c' ∉ rest := by
  let rest := l.filter fun d => d ≠ c ∧ d ≠ c'
  have hrest : c ∉ rest := by simp [rest]
  have hrest' : c' ∉ rest := by simp [rest]
  refine ⟨rest, List.perm_iff_count.mpr fun d => ?_, hrest, hrest'⟩
  by_cases hd : d = c
  · subst hd
    rw [List.count_cons_self, List.count_cons_of_ne hne.symm, List.count_eq_zero.mpr hrest, hc]
  · rw [List.count_cons_of_ne (Ne.symm hd)]
    by_cases hd' : d = c'
    · subst hd'
      rw [List.count_cons_self, List.count_eq_zero.mpr hrest', hc']
    · rw [List.count_cons_of_ne (Ne.symm hd'), List.count_filter (by simp [hd, hd'])]

/-! ## A call that is listed more than once -/

/-- The call at `c` passes a wrapper `w` after `n` turns, of a function of `M` after one turn
only. -/
structure Rewrapped (dl : DataLayout) (M M' : Module ω) (c : Fn × Nat) (n : Nat) (k w : Fn) :
    Prop where
  kept : Extends M M'
  passed : M'.microtask c = some w
  wrapper : IsWrapper dl M M' k w
  again : 2 ≤ n → k ∉ M.functions
  longest : ∀ g ∈ M'.functions, g ∉ M.functions → (M'.name g).length ≤ (M'.name w).length

theorem length_lt_funcName (M : Module ω) (f : Fn) : (M.name f).length < (M.funcName f).length := by
  rw [Module.funcName, String.length_append]
  exact Nat.lt_add_of_pos_left (by decide)

theorem Ordinary.getFunction_funcName (hord : Ordinary M) (hkept : Extends M M') {k g : Fn}
    (hg : M'.getFunction (M'.funcName k) = some g) : g ∉ M.functions := by
  intro hmem
  obtain ⟨-, hname⟩ := (M'.getFunction_eq_some (M'.funcName_ne_empty k)).mp hg
  have hpre := hord.unprefixed g hmem
  rw [← hkept.names g hmem, hname, startswith_funcName] at hpre
  exact nomatch hpre

theorem Turn.created {M₁ M₂ : Module ω} {k w : Fn} (hord : Ordinary M) (hkept : Extends M M₁)
    (hlongest : ∀ g ∈ M₁.functions, g ∉ M.functions → (M₁.name g).length ≤ (M₁.name k).length)
    (turn : Turn U dl M₁ M₂ c k w) : Created U dl M₁ M₂ k w := by
  rcases turn.wrapper with ⟨hfind, -⟩ | hcreated
  · have hnew := hord.getFunction_funcName hkept hfind
    obtain ⟨hmem, hname⟩ := (M₁.getFunction_eq_some (M₁.funcName_ne_empty k)).mp hfind
    have hle := hlongest w hmem hnew
    rw [hname] at hle
    exact absurd hle (Nat.not_le.mpr (length_lt_funcName M₁ k))
  · exact hcreated

theorem rewrapped (hord : Ordinary M) (hc : c.1 ∈ M.functions) {f : Fn}
    (hf : M.microtask c = some f) (n : Nat) : ∀ {M' : Module ω},
    wrapOmpOutlinedFuncs U dl (List.replicate (n + 1) c) M = some M' →
      ∃ k w, Rewrapped dl M M' c (n + 1) k w := by
  induction n with
  | zero =>
    intro M' h
    obtain ⟨M₁, hstep, hrest⟩ := Option.bind_eq_some_iff.mp h
    obtain rfl : M₁ = M' := Option.some.inj hrest
    rcases wrapForkCall_cases hc hstep with ⟨hnone, -⟩ | ⟨k, w, turn⟩
    · exact nomatch hnone.symm.trans hf
    · have hcreated := turn.created hord (.refl M) fun g hg hnew => absurd hg hnew
      refine ⟨k, w, turn.kept, turn.after, ⟨turn.mem, hcreated.new, hcreated.ty, hcreated.body⟩,
        fun h => absurd h (by decide), fun g hg hnew => ?_⟩
      obtain rfl : g = w := by simpa [hcreated.functions, hnew] using hg
      exact Nat.le_refl _
  | succ n ih =>
    intro M' h
    rw [List.replicate_succ', wrapOmpOutlinedFuncs, List.foldlM_append] at h
    obtain ⟨M₁, hrun, h⟩ := Option.bind_eq_some_iff.mp h
    obtain ⟨M₂, hstep, hrest⟩ := Option.bind_eq_some_iff.mp h
    obtain rfl : M₂ = M' := Option.some.inj hrest
    obtain ⟨k, w, hre⟩ := ih hrun
    rcases wrapForkCall_cases (hre.kept.functions _ hc) hstep with ⟨hnone, -⟩ | ⟨k', w', turn⟩
    · exact nomatch hnone.symm.trans hre.passed
    · -- what the call passes now is the wrapper of the turn before
      obtain rfl : w = k' := Option.some.inj (hre.passed.symm.trans turn.before)
      have hcreated := turn.created hord hre.kept hre.longest
      have hnew : w' ∉ M.functions := fun hmem => hcreated.new (hre.kept.functions w' hmem)
      refine ⟨w, w', hre.kept.trans turn.kept, turn.after,
        ⟨turn.mem, hnew, hcreated.ty, hcreated.body⟩, fun _ => hre.wrapper.new,
        fun g hg hgnew => ?_⟩
      by_cases hold : g ∈ M₁.functions
      · obtain ⟨used, -, hname⟩ := hcreated.name
        rw [turn.kept.names g hold, hname]
        calc (M₁.name g).length ≤ (M₁.name w).length := hre.longest g hold hgnew
          _ ≤ (M₁.funcName w).length := (length_lt_funcName M₁ w).le
          _ ≤ _ := U.length_le_assign used _
      · obtain rfl : g = w' := by simpa [hcreated.functions, hold] using hg
        exact Nat.le_refl _

/-! ## What wrapping implies -/

theorem OutlinedWrapped.passed (h : OutlinedWrapped dl M M') {f k w : Fn} (hfork : M.Forks c f)
    (hw : M'.microtask c = some w) (hbody : M'.body w = outlinedWrapperBody dl k) : k = f := by
  obtain ⟨w', hw', -, -, hcall⟩ := h.wrapped c f hfork
  obtain rfl : w = w' := Option.some.inj (hw.symm.trans hw')
  let env : Env ω := ⟨dl, fun _ => 0, fun _ _ mem => some (0, mem), fun _ _ mem => some mem⟩
  have hrun := hcall env rfl 0 0 0 fun _ _ => 0
  rw [hbody] at hrun
  have hk : callBody env (outlinedWrapperBody env.dl k) [0, 0, 0] (fun _ _ => 0) = _ :=
    call_outlinedWrapper k 0 0 0 _
  have hrun := hk.symm.trans hrun
  simp only [env, Option.map_some, Option.some.injEq, Prod.mk.injEq, List.cons.injEq] at hrun
  exact hrun.2.1.1

/-- All calls are wrapped, in whatever order they are listed and however names are made
unique. -/
def AlwaysWrapped (dl : DataLayout) (M : Module ω) : Prop :=
  ∀ (U : UniqueNames) (calls : List (Fn × Nat)), calls.Perm (getKMPForkCalls M) →
    ∃ M', wrapOmpOutlinedFuncs U dl calls M = some M' ∧ OutlinedWrapped dl M M'

theorem AlwaysWrapped.three_le_args (h : AlwaysWrapped dl M) (hc : c ∈ getKMPForkCalls M)
    {i : Instr ω} (hi : M.instr c = some i) : 3 ≤ i.args.length := by
  obtain ⟨M', hrun, -⟩ := h dotted _ (List.perm_cons_erase hc).symm
  obtain ⟨M₁, hstep, -⟩ := Option.bind_eq_some_iff.mp hrun
  exact Omp.three_le_args hstep hi

theorem AlwaysWrapped.last_turn (h : AlwaysWrapped dl M) (hord : Ordinary M)
    (hc : c ∈ getKMPForkCalls M) {f : Fn} (hf : M.microtask c = some f) :
    ∃ M' k w, OutlinedWrapped dl M M' ∧ M'.microtask c = some w ∧ IsWrapper dl M M' k w ∧
      (2 ≤ (getKMPForkCalls M).count c → k ∉ M.functions) := by
  have hfns : ∀ d ∈ getKMPForkCalls M, d.1 ∈ M.functions := fun d hd =>
    (mem_getKMPForkCalls.mp hd).1
  obtain ⟨n, hn⟩ := Nat.exists_eq_succ_of_ne_zero (List.count_pos_iff.mpr hc).ne'
  obtain ⟨M', hrun, hwrapped⟩ := h dotted _ (replicate_append_perm (getKMPForkCalls M) c)
  rw [wrapOmpOutlinedFuncs, hn, List.foldlM_append] at hrun
  obtain ⟨M₁, hfirst, hrest⟩ := Option.bind_eq_some_iff.mp hrun
  obtain ⟨k, w, hre⟩ := rewrapped hord (hfns c hc) hf n hfirst
  obtain ⟨hkept, hothers⟩ := wrapOmpOutlinedFuncs_keeps
    (fun d hd => hre.kept.functions _ (hfns d (List.mem_filter.mp hd).1)) hrest
  have hbody : M'.body w = M₁.body w := List.ext_getElem? fun j =>
    hothers (w, j) hre.wrapper.mem fun hd => hre.wrapper.new (hfns _ (List.mem_filter.mp hd).1)
  refine ⟨M', k, w, hwrapped, ?_, ⟨hkept.functions w hre.wrapper.mem, hre.wrapper.new,
    hre.wrapper.ty, hbody.trans hre.wrapper.body⟩, hn ▸ hre.again⟩
  have hmem := hre.kept.functions _ (hfns c hc)
  exact (hkept.microtask hmem (hothers c hmem (by simp))).trans hre.passed

theorem AlwaysWrapped.forksAlone (h : AlwaysWrapped dl M) (hord : Ordinary M) : ForksAlone M := by
  intro kfc hkfc caller hc i hmem hpos
  obtain ⟨j, hi⟩ := List.getElem?_of_mem hmem
  let c : Fn × Nat := (caller, j)
  have hi : M.instr c = some i := hi
  have hlisted : c ∈ getKMPForkCalls M := mem_getKMPForkCalls.mpr ⟨hc, kfc, i, hkfc, hi, hpos⟩
  refine ⟨h.three_le_args hlisted hi, fun hmem => ?_⟩
  cases hf : i.microtask (casts (M.body caller)) with
  | none => rfl
  | some f =>
    have hmicrotask : M.microtask c = some f := by
      rw [Module.microtask, hi]
      exact hf
    obtain ⟨M', k, w, hwrapped, hpassed, hw, htwice⟩ := h.last_turn hord hlisted hmicrotask
    by_cases hcall : i.getCalledFunction = some kfc
    · have hcount := count_getKMPForkCalls hkfc hc hi
      have hargs := List.count_pos_iff.mpr hmem
      rw [i.uses_eq, if_pos hcall] at hcount
      have hk := hwrapped.passed ⟨hc, kfc, i, hkfc, hi, hcall, hf⟩ hpassed hw.body
      exact absurd (hord.microtask_mem hc hmicrotask) (hk ▸ htwice (by omega))
    · have hnone : ∀ f, ¬ M.Forks c f := by
        rintro f ⟨-, kfc', i', hkfc', hi', hcall', -⟩
        rw [Option.some.inj (hi'.symm.trans hi), Option.some.inj (hkfc'.symm.trans hkfc)] at hcall'
        exact hcall hcall'
      have hsame : M.microtask c = some w :=
        (hwrapped.kept.microtask hc (hwrapped.others c hc hnone)).symm.trans hpassed
      exact absurd (hord.microtask_mem hc hsame) hw.new

/-- Two forks that are turned into calls of wrappers first. -/
structure TwoTurns (U : UniqueNames) (dl : DataLayout) (M M₁ M₂ M' : Module ω)
    (c c' : Fn × Nat) (f f' w w' : Fn) : Prop where
  first : Turn U dl M M₁ c f w
  second : Turn U dl M₁ M₂ c' f' w'
  passed : M'.microtask c = some w
  passed' : M'.microtask c' = some w'
  bodies : ∀ g ∈ M₂.functions, g ∉ M.functions → M'.body g = M₂.body g

theorem AlwaysWrapped.two_turns (h : AlwaysWrapped dl M) (halone : ForksAlone M)
    (U : UniqueNames) {c c' : Fn × Nat} (hne : c ≠ c') {f f' : Fn} (hf : M.Forks c f)
    (hf' : M.Forks c' f') : ∃ M₁ M₂ M' w w', TwoTurns U dl M M₁ M₂ M' c c' f f' w w' ∧
      OutlinedWrapped dl M M' := by
  obtain ⟨rest, hperm, hrest, hrest'⟩ := two_first (halone.listed hf.mem_calls hf.microtask).2
    (halone.listed hf'.mem_calls hf'.microtask).2 hne
  obtain ⟨M', hrun, hwrapped⟩ := h U _ hperm
  obtain ⟨M₁, hstep, hrun⟩ := Option.bind_eq_some_iff.mp hrun
  obtain ⟨M₂, hstep', hrun⟩ := Option.bind_eq_some_iff.mp hrun
  rcases wrapForkCall_cases hf.1 hstep with ⟨hnone, -⟩ | ⟨k, w, turn⟩
  · exact nomatch hnone.symm.trans hf.microtask
  have hinstr : M₁.instr c' = M.instr c' := turn.others c' hf'.1 hne.symm
  have hmicrotask : M₁.microtask c' = some f' :=
    (turn.kept.microtask hf'.1 hinstr).trans hf'.microtask
  rcases wrapForkCall_cases (turn.kept.functions _ hf'.1) hstep' with
    ⟨hnone, -⟩ | ⟨k', w', turn'⟩
  · exact nomatch hnone.symm.trans hmicrotask
  obtain rfl : k = f := Option.some.inj (turn.before.symm.trans hf.microtask)
  obtain rfl : k' = f' := Option.some.inj (turn'.before.symm.trans hmicrotask)
  have hfns : ∀ d ∈ rest, d.1 ∈ M.functions := fun d hd =>
    (mem_getKMPForkCalls.mp (hperm.mem_iff.mp (by simp [hd]))).1
  have hkept := turn.kept.trans turn'.kept
  obtain ⟨hkept', hothers⟩ := wrapOmpOutlinedFuncs_keeps
    (fun d hd => hkept.functions _ (hfns d hd)) hrun
  have hmem := turn.kept.functions _ hf.1
  refine ⟨M₁, M₂, M', w, w', ⟨turn, turn', ?_, ?_, fun g hg hnew => ?_⟩, hwrapped⟩
  · calc M'.microtask c
        = M₂.microtask c :=
          hkept'.microtask (hkept.functions _ hf.1) (hothers c (hkept.functions _ hf.1) hrest)
      _ = M₁.microtask c := turn'.kept.microtask hmem (turn'.others c hmem hne)
      _ = some w := turn.after
  · have hmem' := hkept.functions _ hf'.1
    exact (hkept'.microtask hmem' (hothers c' hmem' hrest')).trans turn'.after
  · exact List.ext_getElem? fun j => hothers (g, j) hg fun hd => hnew (hfns _ hd)

theorem AlwaysWrapped.forked_once (h : AlwaysWrapped dl M) (hord : Ordinary M) {f : Fn}
    (hf : M.Forks c f) (hvar : M.funcName f ∈ M.globals.map Global.name) {c' : Fn × Nat}
    (hf' : M.Forks c' f) : c' = c := by
  by_contra hne
  obtain ⟨M₁, M₂, M', w, w', two, hwrapped⟩ := h.two_turns (h.forksAlone hord) dotted
    (Ne.symm hne) hf hf'
  have hsame := (hwrapped.shared c c' f f hf hf').mpr rfl
  obtain rfl : w = w' := Option.some.inj (two.passed.symm.trans (hsame.trans two.passed'))
  rcases two.second.wrapper with ⟨hfind, -⟩ | hcreated
  · have hkept := two.first.kept
    obtain ⟨hmem, hname⟩ := (M₁.getFunction_eq_some (M₁.funcName_ne_empty f)).mp hfind
    refine (M₁.named_once w hmem (hname ▸ M₁.funcName_ne_empty f)).1 ?_
    rw [hname, hkept.funcName (hord.microtask_mem hf.1 hf.microtask), hkept.globals]
    exact hvar
  · exact hcreated.new two.first.mem

def renamed (base name s : String) (hs : s ≠ "") (hname : name = base ++ s) : UniqueNames where
  unique used b := if b = base ∧ name ∉ used then name else dotted.unique used b
  unused used b := by
    split_ifs with h
    · exact h.2
    · exact dotted.unused used b
  appends used b := by
    split_ifs with h
    · exact ⟨s, hs, h.1 ▸ hname⟩
    · exact dotted.appends used b

theorem AlwaysWrapped.wrapper_names (h : AlwaysWrapped dl M) (hord : Ordinary M) {f : Fn}
    (hf : M.Forks c f) (hvar : M.funcName f ∈ M.globals.map Global.name) {c' : Fn × Nat} {g : Fn}
    (hg : M.Forks c' g) {s : String} (hname : M.name g = M.name f ++ s) (hs : s ≠ "") :
    M.funcName g ∈ M.globals.map Global.name := by
  by_contra hgvar
  have hfuncName : M.funcName g = M.funcName f ++ s := by
    rw [Module.funcName, hname, Module.funcName, String.append_assoc]
  have hgf : g ≠ f := by
    rintro rfl
    have hlen := congrArg String.length hname
    rw [String.length_append] at hlen
    exact hs (String.length_eq_zero_iff.mp (by omega))
  have hne : c ≠ c' := by
    rintro rfl
    exact hgf (Option.some.inj (hg.microtask.symm.trans hf.microtask))
  obtain ⟨M₁, M₂, M', w, w', two, hwrapped⟩ := h.two_turns (h.forksAlone hord)
    (renamed (M.funcName f) (M.funcName g) s hs hfuncName) hne hf hg
  have hcreated := two.first.created hord (.refl M) fun g hg hnew => absurd hg hnew
  have hsymbols : M.funcName g ∉ M.symbols := by
    intro hmem
    rcases List.mem_append.mp hmem with hfn | hglobal
    · obtain ⟨k, hk, hkname⟩ := List.mem_map.mp hfn
      have hpre := hord.unprefixed k hk
      rw [hkname, startswith_funcName] at hpre
      cases hpre
    · exact hgvar hglobal
  -- the wrapper of `f` cannot have its own name and gets the one of `g`'s
  have hwname : M₁.name w = M₁.funcName g := by
    obtain ⟨used, hused, hassign⟩ := hcreated.name
    have hin : M.funcName f ∈ used := (hused _).mpr (List.mem_append_right _ hvar)
    have hout : M.funcName g ∉ used := fun h => hsymbols ((hused _).mp h)
    rw [hassign, UniqueNames.assign, if_neg (M.funcName_ne_empty f), if_pos hin,
      two.first.kept.funcName (hord.microtask_mem hg.1 hg.microtask)]
    exact if_pos ⟨rfl, hout⟩
  have hfind : M₁.getFunction (M₁.funcName g) = some w :=
    (M₁.getFunction_eq_some (M₁.funcName_ne_empty g)).mpr ⟨two.first.mem, hwname⟩
  rcases two.second.wrapper with ⟨hfind', -⟩ | hcreated'
  · obtain rfl : w = w' := Option.some.inj (hfind.symm.trans hfind')
    have hwc : w ≠ c'.1 := fun hw => hcreated.new (hw ▸ hg.1)
    have hbody : M'.body w = outlinedWrapperBody dl f := by
      rw [two.bodies w two.second.mem hcreated.new,
        two.second.instr_others w two.first.mem hwc, hcreated.body]
    exact hgf (hwrapped.passed hg two.passed' hbody).symm
  · cases hfind.symm.trans hcreated'.missing

theorem wrapOmpOutlinedFuncs_wraps_iff (dl : DataLayout) {M : Module ω} (hord : Ordinary M) :
    AlwaysWrapped dl M ↔ WellForked dl M := by
  constructor
  · intro h
    refine ⟨h.forksAlone hord, fun c f hf hvar => ⟨fun c' => h.forked_once hord hf hvar,
      fun c' g s hg hname hs => h.wrapper_names hord hf hvar hg hname hs⟩, fun c f hf => ?_⟩
    obtain ⟨M', -, hwrapped⟩ := h dotted _ (.refl _)
    obtain ⟨w, -, -, htypes, -⟩ := hwrapped.wrapped c f hf
    exact htypes
  · exact fun hwell U calls hcalls => hwell.wraps U hord hcalls

theorem wrapOmpOutlinedFuncs_wraps_task :
    let dl : DataLayout := ⟨0, fun _ => 32, fun _ => 32⟩
    let fork : Fn := ⟨0, ⟨.void, [.ptr 0, .int 32, .ptr 0], true, by decide⟩⟩
    let task : Fn := ⟨1, ⟨.void, [.ptr 0, .ptr 0, .ptr 0], false, by decide⟩⟩
    let main : Fn := ⟨2, ⟨.void, [], false, by decide⟩⟩
    let micro : PointerType := .other "kmpc_micro"
    let call (arg : Value) : Instr Unit := .call none (.const (.fn fork))
      [.const (.global "loc"), .const (.int 32 1), arg, .const (.global "x")]
    let M : Module Unit := {
      functions := [fork, task, main]
      name := fun f => ["__kmpc_fork_call", "task", "main"].getD f.num ""
      body := fun f => if f = main then [call (.const (.cast micro (.fn task))),
          .bitcast 0 micro (.const (.fn task)), call (.reg 0), .ret]
        else if f = task then [.ret] else []
      globals := [⟨"loc", []⟩, ⟨"x", []⟩]
      nodup := by decide
      named_once := by decide }
    AlwaysWrapped dl M := by
  intro dl fork task main micro call M
  have hord : Ordinary M := ⟨by decide, by decide, by decide⟩
  have hvariables : ∀ f ∈ M.functions, M.funcName f ∉ M.globals.map Global.name := by decide
  have htypes : ∀ f ∈ M.functions, ∀ i ∈ M.body f, ∀ g ∈ i.microtask (casts (M.body f)),
      g.ty.accepts ([thdTy dl, thdTy dl] ++ g.ty.params.drop 2) := by decide
  refine (wrapOmpOutlinedFuncs_wraps_iff dl hord).mpr ⟨?_, fun c f hf hvar => ?_, fun c f hf => ?_⟩
  · unfold ForksAlone
    decide
  · exact absurd hvar (hvariables f (hord.microtask_mem hf.1 hf.microtask))
  · obtain ⟨i, hi, hmicrotask⟩ := Option.bind_eq_some_iff.mp hf.microtask
    exact htypes c.1 hf.1 i (List.mem_of_getElem? hi) f hmicrotask

theorem wrapOmpOutlinedFuncs_changes_other_call :
    let dl : DataLayout := ⟨0, fun _ => 32, fun _ => 32⟩
    let fork : Fn := ⟨0, ⟨.void, [.ptr 0, .int 32, .ptr 0], true, by decide⟩⟩
    let task : Fn := ⟨1, ⟨.void, [.ptr 0, .ptr 0, .ptr 0], false, by decide⟩⟩
    let register : Fn := ⟨2, ⟨.void, [.ptr 0, .int 32, .ptr 0, .ptr 0], false, by decide⟩⟩
    let main : Fn := ⟨3, ⟨.void, [], false, by decide⟩⟩
    let M : Module Unit := {
      functions := [fork, task, register, main]
      name := fun f => ["__kmpc_fork_call", "task", "register", "main"].getD f.num ""
      body := fun f => if f = main then [.call none (.const (.fn register))
          [.const (.global "x"), .const (.int 32 1), .const (.fn task), .const (.fn fork)], .ret]
        else if f = task then [.ret] else []
      globals := [⟨"x", []⟩]
      nodup := by decide
      named_once := by decide }
    Ordinary M ∧ ¬ ∃ M', wrapOmpOutlinedFuncs dotted dl (getKMPForkCalls M) M = some M' ∧
      OutlinedWrapped dl M M' := by
  intro dl fork task register main M
  refine ⟨⟨by decide, by decide, by decide⟩, ?_⟩
  rintro ⟨M', hrun, hwrapped⟩
  have hcalls : (wrapOmpOutlinedFuncs dotted dl (getKMPForkCalls M) M).map
      (·.microtask (main, 0)) ≠ some (some task) := by decide
  refine hcalls ?_
  have hnone : ∀ f, ¬ M.Forks (main, 0) f := by
    rintro f ⟨-, kfc, i, hkfc, hi, hcall, -⟩
    have hfork : M.getFunction "__kmpc_fork_call" = some fork := by decide
    have hregister : (M.instr (main, 0)).bind Instr.getCalledFunction = some register := by decide
    rw [hi, Option.bind_some, hcall, ← hkfc, hfork] at hregister
    exact absurd hregister (by decide)
  have hsame := hwrapped.others _ (by decide) hnone
  rw [hrun, Option.map_some, hwrapped.kept.microtask (by decide) hsame]
  decide

end HeroTools.Omp
