import HeroTools.Omp.WrapperRuns

/-! Every kernel of an offload table gets a wrapper under its name and in its place, and the
other uses of the kernels stay. -/

namespace HeroTools.Omp
open Llvm
variable {ω : Type}

/-! ## Frames -/

/-- Functions stay, and so do constants that are casts of nothing in `K`. -/
structure Keeps (K : Fn → Prop) (g : Const → Const) : Prop where
  fn : ∀ f, g (.fn f) = .fn f
  other : ∀ c : Const, (∀ f, c.target = some f → ¬ K f) → g c = c

theorem Keeps.id (K : Fn → Prop) : Keeps K id := ⟨fun _ => rfl, fun _ _ => rfl⟩

theorem Keeps.mono {K K' : Fn → Prop} {g : Const → Const} (h : Keeps K g)
    (hK : ∀ f, K f → K' f) : Keeps K' g where
  fn := h.fn
  other c hc := h.other c fun f hf hKf => hc f hf (hK f hKf)

theorem Value.map_map (g g' : Const → Const) (v : Value) : (v.map g).map g' = v.map (g' ∘ g) := by
  cases v <;> rfl

theorem Value.map_id : Value.map id = id := by
  funext v
  cases v <;> rfl

theorem Instr.map_map (g g' : Const → Const) (i : Instr ω) :
    (i.map g).map g' = i.map (g' ∘ g) := by
  cases i <;> simp [Instr.map, Value.map_map]

theorem Instr.map_id : (Instr.map id : Instr ω → Instr ω) = id := by
  funext i
  cases i <;> simp [Instr.map, Value.map_id]

theorem Global.map_map (g g' : Const → Const) (G : Global) :
    (G.map g).map g' = G.map (g' ∘ g) := by
  simp [Global.map]

theorem Global.map_id : Global.map id = id := by
  funext G
  simp [Global.map]

/-- `M'` has the functions of `M`, with their names outside `K`, and only casts of functions
that are new or in `K` are different. -/
structure Frame (K : Fn → Prop) (M M' : Module ω) : Prop where
  functions : ∀ f ∈ M.functions, f ∈ M'.functions
  names : ∀ f ∈ M.functions, ¬ K f → M'.name f = M.name f
  uses : ∃ g, Keeps (fun f => f ∈ M.functions → K f) g ∧
    M'.globals = M.globals.map (Global.map g) ∧
    ∀ f ∈ M.functions, M'.body f = (M.body f).map (Instr.map g)

theorem Frame.of_uses {K : Fn → Prop} {M M' : Module ω} (hf : ∀ f ∈ M.functions, f ∈ M'.functions)
    (hn : ∀ f ∈ M.functions, ¬ K f → M'.name f = M.name f) (hglobals : M'.globals = M.globals)
    (hbody : ∀ f ∈ M.functions, M'.body f = M.body f) : Frame K M M' where
  functions := hf
  names := hn
  uses := by
    refine ⟨id, Keeps.id _, ?_, fun f hf => ?_⟩
    · rw [Global.map_id, List.map_id, hglobals]
    · rw [Instr.map_id, List.map_id, hbody f hf]

theorem Frame.map {K : Fn → Prop} {g : Const → Const} (hg : Keeps K g) (M : Module ω) :
    Frame K M (M.map g) where
  functions _ hf := hf
  names _ _ _ := rfl
  uses := ⟨g, hg.mono fun _ hK _ => hK, rfl, fun _ _ => rfl⟩

theorem Frame.setName (U : UniqueNames) (M : Module ω) (f : Fn) (name : String) :
    Frame (· = f) M (M.setName U f name) :=
  .of_uses (fun _ hg => hg) (fun _ _ hgf => Function.update_of_ne hgf _ _) rfl fun _ _ => rfl

theorem Frame.create (U : UniqueNames) (M : Module ω) (ty : FunctionType) (name : String)
    (body : List (Instr ω)) : Frame (fun _ => False) M (M.create U ty name body).1 := by
  have hne : ∀ f ∈ M.functions, f ≠ ⟨M.fresh, ty⟩ := fun f hf h =>
    M.fresh_not_mem ty (h ▸ hf)
  refine .of_uses (fun f hf => List.mem_append_left _ hf) (fun f hf _ => ?_) rfl fun f hf =>
    Function.update_of_ne (hne f hf) _ _
  exact (Function.update_of_ne (hne f hf) _ _).trans (Function.update_of_ne (hne f hf) _ _)

theorem Frame.mono {K K' : Fn → Prop} {M M' : Module ω} (h : Frame K M M')
    (hK : ∀ f ∈ M.functions, K f → K' f) : Frame K' M M' where
  functions := h.functions
  names f hf hf' := h.names f hf fun hKf => hf' (hK f hf hKf)
  uses := by
    obtain ⟨g, hg, huses⟩ := h.uses
    exact ⟨g, hg.mono fun f hKf hf => hK f hf (hKf hf), huses⟩

theorem Frame.trans {K K' : Fn → Prop} {M M' M'' : Module ω} (h : Frame K M M')
    (h' : Frame K' M' M'') : Frame (fun f => K f ∨ K' f) M M'' where
  functions f hf := h'.functions f (h.functions f hf)
  names f hf hK := (h'.names f (h.functions f hf) fun hKf => hK (.inr hKf)).trans
    (h.names f hf fun hKf => hK (.inl hKf))
  uses := by
    obtain ⟨g, hg, hglobals, hbody⟩ := h.uses
    obtain ⟨g', hg', hglobals', hbody'⟩ := h'.uses
    refine ⟨g' ∘ g, ⟨fun f => ?_, fun c hc => ?_⟩, ?_, fun f hf => ?_⟩
    · rw [Function.comp_apply, hg.fn, hg'.fn]
    · rw [Function.comp_apply, hg.other c fun f hcf hKf => hc f hcf fun hf => .inl (hKf hf),
        hg'.other c fun f hcf hKf => hc f hcf fun hf => .inr (hKf (h.functions f hf))]
    · rw [hglobals', hglobals, List.map_map]
      exact List.map_congr_left fun G _ => G.map_map g g'
    · rw [hbody' f (h.functions f hf), hbody f hf, List.map_map]
      exact List.map_congr_left fun i _ => i.map_map g g'

/-! ## Entries -/

def Module.offloadFunction (M : Module ω) (e : Nat) : Option Fn :=
  M.globals[e]?.bind getOmpOffloadFunction

/-- Entries are well typed: the address is a byte pointer and not a function, the other
operands are data. They name pairwise different functions of the module. -/
structure OffloadTable (M : Module ω) (es : List Nat) : Prop where
  pointers : ∀ e ∈ es, ∀ G, M.globals[e]? = some G → ∀ f, G.init.head? ≠ some (.fn f)
  data : ∀ e ∈ es, ∀ G, M.globals[e]? = some G → ∀ c ∈ G.init.tail, c.target = none
  kernels : ∀ e ∈ es, ∀ k, M.offloadFunction e = some k → k ∈ M.functions
  different : es.Pairwise fun e e' => ∀ k, M.offloadFunction e = some k →
    M.offloadFunction e' ≠ some k

theorem Frame.entry {K : Fn → Prop} {M M' : Module ω} (h : Frame K M M') {e : Nat}
    (hdata : ∀ G, M.globals[e]? = some G → ∀ c ∈ G.init.tail, c.target = none)
    (he : ∀ f, M.offloadFunction e = some f → f ∈ M.functions ∧ ¬ K f) :
    M'.globals[e]? = M.globals[e]? := by
  obtain ⟨g, hg, hglobals, -⟩ := h.uses
  rw [hglobals, List.getElem?_map]
  unfold Module.offloadFunction at he
  cases hG : M.globals[e]? with
  | none => rfl
  | some G =>
    have hinit : ∀ c ∈ G.init, g c = c := by
      intro c hc
      refine hg.other c fun f hf hK => ?_
      cases hinit : G.init with
      | nil =>
        rw [hinit] at hc
        exact nomatch hc
      | cons addr rest =>
        rw [hinit] at hc
        rcases List.mem_cons.mp hc with rfl | hrest
        · have hfn := he f (by simp [hG, getOmpOffloadFunction, hinit, hf])
          exact hfn.2 (hK hfn.1)
        · rw [hdata G hG c (by rwa [hinit])] at hf
          exact nomatch hf
    refine congrArg some (?_ : ({ G with init := _ } : Global) = G)
    rw [List.map_congr_left hinit, List.map_id']

theorem OffloadTable.frame {K : Fn → Prop} {M M' : Module ω} {es : List Nat}
    (table : OffloadTable M es) (h : Frame K M M')
    (hK : ∀ e ∈ es, ∀ f, M.offloadFunction e = some f → ¬ K f) :
    OffloadTable M' es ∧ ∀ e ∈ es, M'.offloadFunction e = M.offloadFunction e := by
  have hentry : ∀ e ∈ es, M'.globals[e]? = M.globals[e]? := fun e he =>
    h.entry (table.data e he) fun f hf => ⟨table.kernels e he f hf, hK e he f hf⟩
  have hfn : ∀ e ∈ es, M'.offloadFunction e = M.offloadFunction e := fun e he => by
    rw [Module.offloadFunction, hentry e he, Module.offloadFunction]
  refine ⟨⟨fun e he G hG => ?_, fun e he G hG => ?_, fun e he k hk => ?_, ?_⟩, hfn⟩
  · exact table.pointers e he G (hentry e he ▸ hG)
  · exact table.data e he G (hentry e he ▸ hG)
  · exact h.functions k (table.kernels e he k (hfn e he ▸ hk))
  · refine table.different.imp_of_mem fun he he' hne k hk hk' => ?_
    exact hne k (hfn _ he ▸ hk) (hfn _ he' ▸ hk')

/-! ## One entry -/

structure Wrapped (dl : DataLayout) (M M' : Module ω) (e : Nat) (k w : Fn) : Prop where
  new : w ∉ M.functions
  mem : w ∈ M'.functions
  ty : w.ty = kernelWrapperTy
  entry : M'.offloadFunction e = some w
  data : ∀ G, M'.globals[e]? = some G → ∀ c ∈ G.init.tail, c.target = none
  symbol : M'.name w = M.name k
  body : M'.body w = kernelWrapperBody dl k

theorem derefBuffer_map {K : Fn → Prop} {g : Const → Const} (hg : Keeps K g) (elt : Ty)
    (as q r : Nat) (tys : List Ty) : ∀ i,
    (derefBuffer elt as (.reg q) r i tys : List (Instr ω)).map (Instr.map g) =
      derefBuffer elt as (.reg q) r i tys := by
  induction tys with
  | nil => exact fun _ => rfl
  | cons ty tys ih =>
    intro i
    have hindex : g (.int 32 i) = .int 32 i := hg.other _ nofun
    simp only [derefBuffer, List.map_cons, Instr.map, Value.map, hindex, ih]

theorem kernelWrapperBody_map {K : Fn → Prop} {g : Const → Const} (hg : Keeps K g)
    (dl : DataLayout) (k : Fn) :
    (kernelWrapperBody dl k : List (Instr ω)).map (Instr.map g) = kernelWrapperBody dl k := by
  have hregs : (derefArgs 2 k.ty.params.length).map (Value.map g) =
      derefArgs 2 k.ty.params.length := by
    simp [derefArgs, Value.map]
  simp only [kernelWrapperBody, List.map_cons, List.map_append, List.map_nil, Instr.map,
    Value.map, derefBuffer_map hg, hregs, hg.fn]

theorem Wrapped.frame {K : Fn → Prop} {dl : DataLayout} {M M' M'' : Module ω} {e : Nat} {k w : Fn}
    (hw : Wrapped dl M M' e k w) (h : Frame K M' M'') (hK : ¬ K w) :
    Wrapped dl M M'' e k w := by
  have hentry : M''.globals[e]? = M'.globals[e]? := by
    refine h.entry hw.data fun f hf => ?_
    have hfw : w = f := Option.some.inj (hw.entry.symm.trans hf)
    exact hfw ▸ ⟨hw.mem, hK⟩
  obtain ⟨g, hg, -, hbody⟩ := h.uses
  refine ⟨hw.new, h.functions w hw.mem, hw.ty, ?_, fun G hG => hw.data G (hentry ▸ hG),
    (h.names w hw.mem hK).trans hw.symbol, ?_⟩
  · rw [Module.offloadFunction, hentry]
    exact hw.entry
  · rw [hbody w hw.mem, hw.body, kernelWrapperBody_map hg]

theorem OffloadTable.tail {M : Module ω} {e : Nat} {es : List Nat}
    (table : OffloadTable M (e :: es)) : OffloadTable M es where
  pointers e' he' := table.pointers e' (.tail e he')
  data e' he' := table.data e' (.tail e he')
  kernels e' he' := table.kernels e' (.tail e he')
  different := (List.pairwise_cons.mp table.different).2

end HeroTools.Omp
