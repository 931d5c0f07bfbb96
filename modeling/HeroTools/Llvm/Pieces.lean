import HeroTools.Llvm.HostAccesses

/-! What becomes of each single instruction on the visitor's way through a function. -/

namespace HeroTools.Llvm
variable {κ ω : Type} {dl : DataLayout} {fname : String} {i : Inst κ ω} {js : List (Inst κ ω)}

@[simp] theorem Inst.replace_id (i : Inst κ ω) : i.replace id = i := by
  cases i <;> simp [Inst.replace]

theorem Inst.replace_replace (h h' : Operand κ → Operand κ) (i : Inst κ ω) :
    (i.replace h).replace h' = i.replace (h' ∘ h) := by
  cases i <;> simp [Inst.replace]

/-- The instructions that a visit of `i` leaves, up to their operands: these change whenever
uses are replaced, before the visit and after it. -/
def Visited (dl : DataLayout) (fname : String) (i : Inst κ ω) (js : List (Inst κ ω)) : Prop :=
  ∃ n h h', js = (visit dl fname n (i.replace h)).insts.map (Inst.replace h')

theorem Visited.replace (hv : Visited dl fname i js) (h : Operand κ → Operand κ) :
    Visited dl fname i (js.map (Inst.replace h)) := by
  obtain ⟨n, h₁, h₂, rfl⟩ := hv
  refine ⟨n, h₁, h ∘ h₂, ?_⟩
  rw [List.map_map]
  exact List.map_congr_left fun j _ => j.replace_replace h₂ h

theorem Visited.replace_all {is : List (Inst κ ω)} {rs : List (List (Inst κ ω))}
    (hv : List.Forall₂ (Visited dl fname) is rs) (h : Operand κ → Operand κ) :
    List.Forall₂ (Visited dl fname) is (rs.map (List.map (Inst.replace h))) := by
  rw [List.forall₂_map_right_iff]
  exact hv.imp fun i js hi => hi.replace h

theorem Visited.of_mem {is : List (Inst κ ω)} {rs : List (List (Inst κ ω))}
    (hv : List.Forall₂ (Visited dl fname) is rs) (hjs : js ∈ rs) :
    ∃ i ∈ is, Visited dl fname i js := by
  induction hv with
  | nil => exact absurd hjs List.not_mem_nil
  | cons hi _ ih =>
    rcases List.mem_cons.mp hjs with rfl | hjs
    · exact ⟨_, List.mem_cons_self, hi⟩
    · obtain ⟨i, hmem, hi⟩ := ih hjs
      exact ⟨i, List.mem_cons_of_mem _ hmem, hi⟩

def Renamed (i i' : Inst κ ω) : Prop := ∃ h, i' = i.replace h

theorem Renamed.replace_all {is is' : List (Inst κ ω)} (hr : List.Forall₂ Renamed is is')
    (h : Operand κ → Operand κ) : List.Forall₂ Renamed is (is'.map (Inst.replace h)) := by
  rw [List.forall₂_map_right_iff]
  refine hr.imp fun i i' hi => ?_
  obtain ⟨h', rfl⟩ := hi
  exact ⟨h ∘ h', i.replace_replace h' h⟩

theorem Renamed.refl_all (is : List (Inst κ ω)) : List.Forall₂ Renamed is is :=
  List.forall₂_same.mpr fun i _ => ⟨id, i.replace_id.symm⟩

structure Halfway (dl : DataLayout) (f : Func κ ω) (c : Cursor κ ω) : Prop where
  name : c.name = f.name
  pieces : ∃ is is' rs, f.insts = is ++ is' ∧ List.Forall₂ (Visited dl f.name) is rs ∧
    c.visited = rs.flatten ∧ List.Forall₂ Renamed is' c.pending

theorem Halfway.step {f : Func κ ω} {c : Cursor κ ω} {rest : List (Inst κ ω)}
    (htodo : c.todo = i :: rest) (hc : Halfway dl f c) : Halfway dl f (c.step dl) := by
  obtain ⟨hname, is, is', rs, hf, hrs, hvisited, hpending⟩ := hc
  have hcons : c.pending = i :: (rest ++ c.after.flatMap Block.insts) := by
    unfold Cursor.pending
    rw [htodo, List.cons_append]
  rw [hcons] at hpending
  obtain ⟨i₀, is', ⟨h, hi⟩, hrest, rfl⟩ := List.forall₂_cons_right_iff.mp hpending
  let r := visit dl c.name c.next i
  let τ := @Operand.map κ r.uses
  refine ⟨?_, is ++ [i₀], is', rs.map (List.map (Inst.replace τ)) ++ [r.insts.map (Inst.replace τ)],
    ?_, ?_, ?_, ?_⟩
  · rw [Cursor.step_cons htodo]
    exact hname
  · rw [hf, List.append_assoc, List.singleton_append]
  · refine List.rel_append (Visited.replace_all hrs τ) (.cons ⟨c.next, h, τ, ?_⟩ .nil)
    rw [← hi, ← hname]
  · rw [Cursor.visited_step htodo, hvisited, List.map_append, List.flatten_append,
      List.map_flatten, List.flatten_singleton]
  · rw [Cursor.pending_step htodo]
    exact Renamed.replace_all hrest τ

theorem Halfway.enter {f : Func κ ω} {c : Cursor κ ω} {b : Block κ ω} {bs : List (Block κ ω)}
    (htodo : c.todo = []) (hafter : c.after = b :: bs) (hc : Halfway dl f c) :
    Halfway dl f (c.enter b bs) := by
  obtain ⟨hname, is, is', rs, hf, hrs, hvisited, hpending⟩ := hc
  refine ⟨hname, is, is', rs, hf, hrs, ?_, ?_⟩
  · rw [Cursor.visited_enter htodo, hvisited]
  · rw [Cursor.pending_enter htodo hafter]
    exact hpending

theorem Halfway.start {f : Func κ ω} {b : Block κ ω} {bs : List (Block κ ω)}
    (hblocks : f.blocks = b :: bs) : Halfway dl f (f.cursor b bs) := by
  have hinsts : (f.cursor b bs).pending = f.insts := by
    rw [← (f.cursor b bs).func_insts.trans (List.nil_append _), Func.cursor_func hblocks]
  refine ⟨rfl, [], f.insts, [], rfl, .nil, rfl, ?_⟩
  rw [hinsts]
  exact Renamed.refl_all f.insts

theorem visitFunc_pieces (dl : DataLayout) (f : Func κ ω) :
    ∃ rs, (visitFunc dl f).insts = rs.flatten ∧
      List.Forall₂ (Visited dl f.name) f.insts rs := by
  cases hblocks : f.blocks with
  | nil =>
    refine ⟨[], ?_, ?_⟩
    · simp [visitFunc, hblocks, Func.insts]
    · simp [hblocks, Func.insts]
  | cons b bs =>
    obtain ⟨c, ⟨-, is, is', rs, hf, hrs, hvisited, hpending⟩, htodo, hafter, hend⟩ :=
      visitFunc_rule (fun c i rest htodo hc => Halfway.step htodo hc)
        (fun c b bs htodo hafter hc => Halfway.enter htodo hafter hc) hblocks
        (Halfway.start hblocks)
    have hdone : c.pending = [] := by
      unfold Cursor.pending
      rw [htodo, hafter]
      rfl
    have hall : is' = [] := by
      rw [hdone] at hpending
      exact List.forall₂_nil_right_iff.mp hpending
    refine ⟨rs, ?_, ?_⟩
    · rw [hend, c.func_insts, hdone, List.append_nil, hvisited]
    · rw [hf, hall, List.append_nil]
      exact hrs

/-! ## The same for the whole pass -/

def expandIntrinsics (E : LowerMemIntrinsics κ ω) (dl : DataLayout)
    (intrinsics : List (IntrinsicId × String)) (f : Func κ ω) : Func κ ω :=
  intrinsics.foldl (fun f F => expandMemIntrinsicUses E dl F.1 F.2 f) f

theorem legalize_pieces (E : LowerMemIntrinsics κ ω) (dl : DataLayout) (g : κ → κ)
    (intrinsics : List (IntrinsicId × String)) (f : Func κ ω) :
    ∃ rs, (legalize E dl g intrinsics f).insts = rs.flatten ∧
      List.Forall₂ (Visited dl (expandIntrinsics E dl intrinsics f).name)
        (expandIntrinsics E dl intrinsics f).insts rs := by
  obtain ⟨rs, hinsts, hrs⟩ := visitFunc_pieces dl (expandIntrinsics E dl intrinsics f)
  refine ⟨rs.map (List.map (Inst.replace (Operand.patch g))), ?_, Visited.replace_all hrs _⟩
  rw [← List.map_flatten, ← hinsts]
  exact Func.replace_insts (Operand.patch g) _

end HeroTools.Llvm
