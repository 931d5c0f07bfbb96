import HeroTools.Omp.OutlinedForks

/-! What `wrapOmpKernels` leaves of the forks of a module: the same calls fork the same
functions. -/

namespace HeroTools.Omp
open Llvm
variable {ω : Type} {U : UniqueNames} {dl : DataLayout} {K K' : Fn → Prop}
  {M M' M'' : Module ω} {g : Const → Const}

/-! ## Targets -/

/-- Casts of functions in `K` may become casts of functions that are new in `M'`. -/
structure Moves (K : Fn → Prop) (M M' : Module ω) (g : Const → Const) : Prop extends
    Keeps K g where
  target : ∀ c : Const, (g c).target = c.target ∨ ∃ k w, c.target = some k ∧ K k ∧
    (g c).target = some w ∧ w ∈ M'.functions ∧ w ∉ M.functions

theorem Moves.map_target (h : Moves K M M' g) (v : Value) : (v.map g).target = v.target ∨
    ∃ k w, v.target = some k ∧ K k ∧ (v.map g).target = some w ∧ w ∈ M'.functions ∧
      w ∉ M.functions := by
  cases v with
  | reg r => exact .inl rfl
  | const c => exact h.target c

/-! ## Pointer casts -/

theorem Moves.eq_int_iff (h : Moves K M M' g) (c : Const) (bits n : Nat) :
    g c = .int bits n ↔ c = .int bits n := by
  constructor
  · intro hc
    have htarget : c.target = none := by
      rcases h.target c with hsame | ⟨k, w, -, -, hw, -⟩
      · rw [← hsame, hc, Const.target_int]
      · rw [hc] at hw
        cases hw
    rwa [h.other c fun k hk => absurd (htarget.symm.trans hk) nofun] at hc
  · rintro rfl
    exact h.other _ fun k hk => absurd hk nofun

theorem Instr.pointerCast_gep {elt : Ty} {v : Value} (hv : ∀ bits, v ≠ .const (.int bits 0))
    (d as : Nat) (p : Value) : (Instr.gep d elt as p v : Instr ω).pointerCast = none := by
  unfold pointerCast
  split
  · contradiction
  · next bits heq =>
    cases heq
    exact absurd rfl (hv bits)
  · rfl

theorem Moves.pointerCast (h : Moves K M M' g) (i : Instr ω) :
    (i.map g).pointerCast = i.pointerCast.map fun cast => (cast.1, cast.2.1, cast.2.2.map g) := by
  cases i with
  | gep d elt as p v =>
    by_cases hv : ∃ bits, v = .const (.int bits 0)
    · obtain ⟨bits, rfl⟩ := hv
      have hzero : g (.int bits 0) = .int bits 0 := (h.eq_int_iff _ bits 0).mpr rfl
      simp only [Instr.map, Value.map, hzero]
      rfl
    · have hv' : ∀ bits, v.map g ≠ .const (.int bits 0) := by
        intro bits heq
        cases v with
        | reg r => cases heq
        | const c => exact hv ⟨bits, congrArg _ ((h.eq_int_iff c bits 0).mp (Value.const.inj heq))⟩
      have hv : ∀ bits, v ≠ .const (.int bits 0) := fun bits heq => hv ⟨bits, heq⟩
      rw [Instr.map, Instr.pointerCast_gep hv', Instr.pointerCast_gep hv]
      rfl
  | bitcast | inttoptr | load | call | ret | other => rfl

theorem Moves.casts (h : Moves K M M' g) (body : List (Instr ω)) :
    casts (body.map (Instr.map g)) =
      (casts body).map fun cast => (cast.1, cast.2.1, cast.2.2.map g) := by
  unfold Omp.casts
  rw [List.filterMap_map, List.map_filterMap]
  exact congrArg (List.filterMap · body) (funext h.pointerCast)

theorem Value.strip_map (g : Const → Const) (casts : Casts) (n : Nat) (v : Value) :
    (v.map g).strip (casts.map fun cast => (cast.1, cast.2.1, cast.2.2.map g)) n =
      (v.strip casts n).map g := by
  have hlookup : ∀ (casts : Casts) (r : Nat),
      (casts.map fun cast => (cast.1, cast.2.1, cast.2.2.map g)).lookup r =
        (casts.lookup r).map fun cast => (cast.1, cast.2.map g) := by
    intro casts r
    induction casts with
    | nil => rfl
    | cons cast casts ih =>
      rw [List.map_cons, List.lookup_cons, List.lookup_cons]
      cases r == cast.1 with
      | true => rfl
      | false => exact ih
  induction n generalizing v with
  | zero => rfl
  | succ n ih =>
    cases v with
    | reg r =>
      have hreg : (Value.reg r).map g = .reg r := rfl
      simp only [hreg, strip, hlookup]
      cases casts.lookup r with
      | none => rfl
      | some cast => exact ih cast.2
    | const c => rfl

theorem Moves.microtask (h : Moves K M M' g) (body : List (Instr ω)) (i : Instr ω) :
    (i.map g).microtask (Omp.casts (body.map (Instr.map g))) = i.microtask (Omp.casts body) ∨
      ∃ k w, i.microtask (Omp.casts body) = some k ∧ K k ∧
        (i.map g).microtask (Omp.casts (body.map (Instr.map g))) = some w ∧
          w ∈ M'.functions ∧ w ∉ M.functions := by
  have hargs : (i.map g).args = i.args.map (Value.map g) := by cases i <;> rfl
  rw [Instr.microtask, Instr.microtask, hargs, List.getElem?_map]
  cases i.args[2]? with
  | none => exact .inl rfl
  | some v =>
    simp only [Option.map_some, Option.bind_some, Value.stripPointerCasts, h.casts,
      List.length_map, Value.strip_map]
    exact h.map_target _

/-! ## Composition -/

theorem Moves.mono (h : Moves K M M' g) (hK : ∀ k, K k → K' k) : Moves K' M M' g where
  toKeeps := h.toKeeps.mono hK
  target c := by
    rcases h.target c with hsame | ⟨k, w, hc, hk, hw⟩
    · exact .inl hsame
    · exact .inr ⟨k, w, hc, hK k hk, hw⟩

theorem Moves.comp {g' : Const → Const} (h : Moves K M M' g) (h' : Moves K' M' M'' g')
    (hK' : ∀ k, K' k → k ∈ M.functions) (hfns : ∀ f ∈ M.functions, f ∈ M'.functions)
    (hfns' : ∀ f ∈ M'.functions, f ∈ M''.functions) :
    Moves (fun k => K k ∨ K' k) M M'' (g' ∘ g) where
  fn f := by
    rw [Function.comp_apply, h.fn, h'.fn]
  other c hc := by
    rw [Function.comp_apply, h.other c fun f hf hK => hc f hf (.inl hK),
      h'.other c fun f hf hK => hc f hf (.inr hK)]
  target c := by
    rw [Function.comp_apply]
    rcases h.target c with hsame | ⟨k, w, hc, hk, hw, hmem, hnew⟩
    · rcases h'.target (g c) with hsame' | ⟨k, w, hc, hk, hw, hmem, hnew⟩
      · exact .inl (hsame'.trans hsame)
      · exact .inr ⟨k, w, hsame.symm.trans hc, .inr hk, hw, hmem, fun hold => hnew (hfns w hold)⟩
    · -- what is new after the first step is no kernel for the second one
      rw [h'.other (g c) fun f hf hKf => hnew (Option.some.inj (hw.symm.trans hf) ▸ hK' f hKf)]
      exact .inr ⟨k, w, hc, .inl hk, hw, hfns' w hmem, hnew⟩

/-! ## Steps -/

/-- `M'` has the functions of `M` and wrappers of functions in `K`, which have their names; the
functions in `K` have other names. -/
structure KernelStep (dl : DataLayout) (K : Fn → Prop) (M M' : Module ω) : Prop where
  functions : ∀ f ∈ M.functions, f ∈ M'.functions
  new : ∀ f ∈ M'.functions, f ∉ M.functions → ∃ k, K k ∧ M'.body f = kernelWrapperBody dl k ∧
    M'.name f = M.name k
  names : ∀ f ∈ M.functions, M'.name f = M.name f ∨
    K f ∧ startswith (M'.name f) OMP_WRAPPED_PREFIX = true
  globals : M'.globals.map Global.name = M.globals.map Global.name
  uses : ∃ g, Moves K M M' g ∧ ∀ f ∈ M.functions, M'.body f = (M.body f).map (Instr.map g)

theorem KernelStep.refl (dl : DataLayout) (K : Fn → Prop) (M : Module ω) :
    KernelStep dl K M M where
  functions _ hf := hf
  new f hf hnew := absurd hf hnew
  names _ _ := .inl rfl
  globals := rfl
  uses := by
    refine ⟨id, ⟨Keeps.id K, fun _ => .inl rfl⟩, fun f _ => ?_⟩
    rw [Instr.map_id, List.map_id]

theorem KernelStep.mono (h : KernelStep dl K M M') (hK : ∀ k, K k → K' k) :
    KernelStep dl K' M M' where
  functions := h.functions
  new f hf hnew := by
    obtain ⟨k, hk, hw⟩ := h.new f hf hnew
    exact ⟨k, hK k hk, hw⟩
  names f hf := (h.names f hf).imp_right fun hw => ⟨hK f hw.1, hw.2⟩
  globals := h.globals
  uses := by
    obtain ⟨g, hg, hbody⟩ := h.uses
    exact ⟨g, hg.mono hK, hbody⟩

theorem KernelStep.trans (h : KernelStep dl K M M') (h' : KernelStep dl K' M' M'')
    (hK' : ∀ k, K' k → k ∈ M.functions ∧ ¬ K k) :
    KernelStep dl (fun k => K k ∨ K' k) M M'' where
  functions f hf := h'.functions f (h.functions f hf)
  new f hf hnew := by
    by_cases hmem : f ∈ M'.functions
    · obtain ⟨k, hk, hbody, hname⟩ := h.new f hmem hnew
      obtain ⟨g, hg, hbodies⟩ := h'.uses
      refine ⟨k, .inl hk, ?_, ?_⟩
      · rw [hbodies f hmem, hbody, kernelWrapperBody_map hg.toKeeps]
      · rcases h'.names f hmem with hsame | ⟨hKf, -⟩
        · exact hsame.trans hname
        · exact absurd (hK' f hKf).1 hnew
    · -- a kernel of the second step has kept its name in the first one
      obtain ⟨k, hk, hbody, hname⟩ := h'.new f hf hmem
      obtain ⟨hkmem, hkK⟩ := hK' k hk
      refine ⟨k, .inr hk, hbody, hname.trans ?_⟩
      exact (h.names k hkmem).resolve_right fun hw => hkK hw.1
  names f hf := by
    rcases h'.names f (h.functions f hf) with hsame | hwrapped
    · rw [hsame]
      exact (h.names f hf).imp_right fun hw => ⟨.inl hw.1, hw.2⟩
    · exact .inr ⟨.inr hwrapped.1, hwrapped.2⟩
  globals := h'.globals.trans h.globals
  uses := by
    obtain ⟨g, hg, hbody⟩ := h.uses
    obtain ⟨g', hg', hbody'⟩ := h'.uses
    refine ⟨g' ∘ g, hg.comp hg' (fun k hk => (hK' k hk).1) h.functions h'.functions,
      fun f hf => ?_⟩
    rw [hbody' f (h.functions f hf), hbody f hf, List.map_map]
    exact List.map_congr_left fun i _ => i.map_map g g'

end HeroTools.Omp
