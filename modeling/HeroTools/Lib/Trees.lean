import Mathlib.Data.List.Basic
import Mathlib.Data.List.Induction
import Mathlib.Algebra.Order.BigOperators.Group.List
import Mathlib.Algebra.Order.Ring.Nat

/-! Trees with labelled nodes, in which all occurrences of a subtree are exchanged at a time:
nodes with certain labels are split in two, one after the other. -/

namespace HeroTools.Trees
universe u
variable {α : Type u}

inductive Rose (α : Type u)
  | node (label : α) (children : List (Rose α))
deriving Repr

theorem append_eq_append_cons {l l' l₁ l₂ : List α} {a : α} (h : l ++ l' = l₁ ++ a :: l₂) :
    (∃ k, l₁ = l ++ k ∧ l' = k ++ a :: l₂) ∨ ∃ k, l = l₁ ++ a :: k := by
  rcases List.append_eq_append_iff.mp h with h | ⟨k, hl, hk⟩
  · exact .inl h
  · cases k with
    | nil => exact .inl ⟨[], by simpa using hl.symm, by simpa using hk.symm⟩
    | cons b k =>
      obtain ⟨rfl, -⟩ := List.cons.inj hk
      exact .inr ⟨k, hl⟩

namespace Rose

def label : Rose α → α
  | node a _ => a

def children : Rose α → List (Rose α)
  | node _ cs => cs

@[elab_as_elim]
theorem ind {P : Rose α → Prop} (h : ∀ a cs, (∀ c ∈ cs, P c) → P (node a cs)) : ∀ c, P c
  | node a cs => h a cs fun c _ => ind h c

section Decidable
variable [DecidableEq α]

mutual

def dec : (c d : Rose α) → Decidable (c = d)
  | node a cs, node b ds =>
    match decEq a b, decs cs ds with
    | .isTrue ha, .isTrue hcs => .isTrue (ha ▸ hcs ▸ rfl)
    | .isFalse ha, _ => .isFalse fun h => ha (node.inj h).1
    | _, .isFalse hcs => .isFalse fun h => hcs (node.inj h).2

def decs : (cs ds : List (Rose α)) → Decidable (cs = ds)
  | [], [] => .isTrue rfl
  | [], _ :: _ => .isFalse nofun
  | _ :: _, [] => .isFalse nofun
  | c :: cs, d :: ds =>
    match dec c d, decs cs ds with
    | .isTrue hc, .isTrue hcs => .isTrue (hc ▸ hcs ▸ rfl)
    | .isFalse hc, _ => .isFalse fun h => hc (List.cons.inj h).1
    | _, .isFalse hcs => .isFalse fun h => hcs (List.cons.inj h).2

end

instance : DecidableEq (Rose α) := dec

end Decidable
end Rose

open Rose

/-! ## Folds -/

mutual

def fold {β : Type*} (f : α → List β → β) : Rose α → β
  | node a cs => f a (folds f cs)

def folds {β : Type*} (f : α → List β → β) : List (Rose α) → List β
  | [] => []
  | c :: cs => fold f c :: folds f cs

end

theorem folds_eq_map {β : Type*} (f : α → List β → β) (cs : List (Rose α)) :
    folds f cs = cs.map (fold f) := by
  induction cs with
  | nil => rfl
  | cons c cs ih => exact congrArg (fold f c :: ·) ih

theorem fold_node {β : Type*} (f : α → List β → β) (a : α) (cs : List (Rose α)) :
    fold f (node a cs) = f a (cs.map (fold f)) :=
  congrArg (f a) (folds_eq_map f cs)

mutual

def exchange [DecidableEq α] (s t : Rose α) : Rose α → Rose α
  | node a cs => if node a cs = s then t else node a (exchangeChildren s t cs)

def exchangeChildren [DecidableEq α] (s t : Rose α) : List (Rose α) → List (Rose α)
  | [] => []
  | c :: cs => exchange s t c :: exchangeChildren s t cs

end

section Exchange
variable [DecidableEq α] {s t : Rose α}

theorem exchangeChildren_eq_map (s t : Rose α) (cs : List (Rose α)) :
    exchangeChildren s t cs = cs.map (exchange s t) := by
  induction cs with
  | nil => rfl
  | cons c cs ih => exact congrArg (exchange s t c :: ·) ih

theorem exchange_node (s t : Rose α) (a : α) (cs : List (Rose α)) :
    exchange s t (node a cs) =
      if node a cs = s then t else node a (cs.map (exchange s t)) := by
  rw [exchange, exchangeChildren_eq_map]

@[simp] theorem exchange_self (s t : Rose α) : exchange s t s = t := by
  cases s with
  | node a cs => rw [exchange_node, if_pos rfl]

theorem exchange_of_ne {a : α} {cs : List (Rose α)} (h : node a cs ≠ s) :
    exchange s t (node a cs) = node a (cs.map (exchange s t)) := by
  rw [exchange_node, if_neg h]

theorem label_exchange {c : Rose α} (h : c ≠ s) : (exchange s t c).label = c.label := by
  cases c with
  | node a cs =>
    rw [exchange_of_ne h]
    rfl

theorem fold_exchange {β : Type*} {f : α → List β → β} (h : fold f t = fold f s)
    (c : Rose α) : fold f (exchange s t c) = fold f c := by
  induction c using Rose.ind with
  | h a cs ih =>
    by_cases heq : node a cs = s
    · rw [heq, exchange_self, h]
    · rw [exchange_of_ne heq, fold_node, fold_node, List.map_map]
      exact congrArg (f a) (List.map_congr_left ih)

end Exchange

/-! ## Searching -/

mutual

/-- The subtrees with a label in `q` that are reached through labels in `p`. -/
def found (p q : α → Bool) : Rose α → List (Rose α)
  | node a cs =>
    (if q a then [node a cs] else []) ++ if p a then foundChildren p q cs else []

def foundChildren (p q : α → Bool) : List (Rose α) → List (Rose α)
  | [] => []
  | c :: cs => found p q c ++ foundChildren p q cs

end

theorem foundChildren_eq_flatMap (p q : α → Bool) (cs : List (Rose α)) :
    foundChildren p q cs = cs.flatMap (found p q) := by
  induction cs with
  | nil => rfl
  | cons c cs ih => exact congrArg (found p q c ++ ·) ih

theorem mem_found_node {p q : α → Bool} {a : α} {cs : List (Rose α)} {x : Rose α} :
    x ∈ found p q (node a cs) ↔
      q a = true ∧ x = node a cs ∨ p a = true ∧ ∃ c ∈ cs, x ∈ found p q c := by
  rw [found, foundChildren_eq_flatMap, List.mem_append]
  cases q a <;> cases p a <;> simp

theorem label_of_mem_found {p q : α → Bool} {c x : Rose α} (h : x ∈ found p q c) :
    q x.label = true := by
  induction c using Rose.ind with
  | h a cs ih =>
    rcases mem_found_node.mp h with ⟨ha, rfl⟩ | ⟨-, c, hc, hx⟩
    · exact ha
    · exact ih c hc hx

theorem mem_found_self {p q : α → Bool} {c : Rose α} (h : q c.label = true) :
    c ∈ found p q c := by
  cases c with
  | node a cs => exact mem_found_node.mpr (.inl ⟨h, rfl⟩)

theorem found_mono {p p' q : α → Bool} (hp : ∀ a, p a = true → p' a = true) {c x : Rose α}
    (h : x ∈ found p q c) : x ∈ found p' q c := by
  induction c using Rose.ind with
  | h a cs ih =>
    rcases mem_found_node.mp h with ⟨ha, rfl⟩ | ⟨ha, c, hc, hx⟩
    · exact mem_found_self ha
    · exact mem_found_node.mpr (.inr ⟨hp a ha, c, hc, ih c hc hx⟩)

/-! ## Labels and weights -/

def labels : Rose α → List α := fold fun a ls => a :: ls.flatten

theorem mem_labels_node {a b : α} {cs : List (Rose α)} :
    b ∈ labels (node a cs) ↔ b = a ∨ ∃ c ∈ cs, b ∈ labels c := by
  unfold labels
  rw [fold_node]
  simp

def weight (q : α → Bool) : Rose α → Nat := fold fun a ws => (if q a then 2 else 1) + ws.sum

theorem weight_node (q : α → Bool) (a : α) (cs : List (Rose α)) :
    weight q (node a cs) = (if q a then 2 else 1) + (cs.map (weight q)).sum :=
  fold_node _ a cs

theorem weight_lt_of_mem {q : α → Bool} {a : α} {cs : List (Rose α)} {c : Rose α} (h : c ∈ cs) :
    weight q c < weight q (node a cs) := by
  have hle : weight q c ≤ (cs.map (weight q)).sum :=
    List.single_le_sum (fun _ _ => Nat.zero_le _) _ (List.mem_map_of_mem h)
  rw [weight_node]
  split <;> omega

theorem weight_le_of_mem_found {p q q' : α → Bool} {c x : Rose α} (h : x ∈ found p q c) :
    weight q' x ≤ weight q' c := by
  induction c using Rose.ind with
  | h a cs ih =>
    rcases mem_found_node.mp h with ⟨-, rfl⟩ | ⟨-, c, hc, hx⟩
    · exact le_rfl
    · exact (ih c hc hx).trans (weight_lt_of_mem hc).le

theorem exchange_of_weight_lt [DecidableEq α] {q : α → Bool} {s t c : Rose α}
    (h : weight q c < weight q s) : exchange s t c = c := by
  induction c using Rose.ind with
  | h a cs ih =>
    have hne : node a cs ≠ s := fun heq => absurd (congrArg (weight q) heq) h.ne
    rw [exchange_of_ne hne]
    refine congrArg (node a) ((List.map_congr_left fun c hc => ?_).trans (List.map_id cs))
    exact ih c hc ((weight_lt_of_mem hc).trans h)

/-! ## Splitting nodes -/

section Split
variable (outer inner : α → α)

def split : Rose α → Rose α
  | node a cs => node (outer a) [node (inner a) cs]

/-- Labels in `q` are split into labels that are not. -/
structure Splits (q : α → Bool) (outer inner : α → α) : Prop where
  outer : ∀ a, q a = true → q (outer a) = false
  inner : ∀ a, q a = true → q (inner a) = false

/-- The search goes through what is split, before and after. -/
structure Open (p q : α → Bool) (outer inner : α → α) : Prop where
  self : ∀ a, q a = true → p a = true
  outer : ∀ a, q a = true → p (outer a) = true
  inner : ∀ a, q a = true → p (inner a) = true

variable {outer inner} {p q : α → Bool} {s x : Rose α}

theorem weight_split (hq : Splits q outer inner) (hs : q s.label = true) :
    weight q (split outer inner s) = weight q s := by
  cases s with
  | node a cs =>
    have hs : q a = true := hs
    simp only [split, weight_node, hq.outer a hs, hq.inner a hs, hs, List.map_cons, List.map_nil,
      List.sum_cons, List.sum_nil]
    simp only [if_true, Bool.false_eq_true, if_false]
    omega

theorem mem_found_split (hq : Splits q outer inner) (hp : Open p q outer inner) {a : α}
    {cs : List (Rose α)} (ha : q a = true) :
    x ∈ found p q (split outer inner (node a cs)) ↔ ∃ c ∈ cs, x ∈ found p q c := by
  simp [split, mem_found_node, hq.outer a ha, hq.inner a ha, hp.outer a ha, hp.inner a ha]

/-! ## Joining -/

section Join
variable (join : α → α → Option α) {c : Rose α}

/-- `join` undoes a split, and joins nothing else that takes part in one. -/
structure Joins (q : α → Bool) (outer inner : α → α) : Prop where
  split : ∀ a, q a = true → join (outer a) (inner a) = some a
  self : ∀ a b, q a = true → join a b = none
  inner : ∀ a b, q a = true → join (inner a) b = none

def joinRoot : Rose α → Option (Rose α)
  | node b [node b' cs] => (join b b').map fun a => node a cs
  | _ => none

def joinAll : Rose α → Rose α :=
  fold fun b cs => (joinRoot join (node b cs)).getD (node b cs)

def Plain (c : Rose α) : Prop :=
  ∀ x ∈ found (fun _ => true) (fun _ => true) c, joinRoot join x = none

variable {join}

theorem Plain.child {a : α} {cs : List (Rose α)} (h : Plain join (node a cs)) (hc : c ∈ cs) :
    Plain join c :=
  fun x hx => h x (mem_found_node.mpr (.inr ⟨rfl, c, hc, hx⟩))

theorem Plain.of_mem_found (h : Plain join c) (hx : x ∈ found p q c) : Plain join x := by
  induction c using Rose.ind with
  | h a cs ih =>
    rcases mem_found_node.mp hx with ⟨-, rfl⟩ | ⟨-, c, hc, hx⟩
    · exact h
    · exact ih c hc (h.child hc) hx

theorem joinAll_node (a : α) (cs : List (Rose α)) : joinAll join (node a cs) =
    (joinRoot join (node a (cs.map (joinAll join)))).getD
      (node a (cs.map (joinAll join))) :=
  fold_node _ a cs

theorem Plain.joinAll_eq (h : Plain join c) : joinAll join c = c := by
  induction c using Rose.ind with
  | h a cs ih =>
    have hcs : cs.map (joinAll join) = cs :=
      (List.map_congr_left fun c hc => ih c hc (h.child hc)).trans (List.map_id cs)
    rw [joinAll_node, hcs, h _ (mem_found_node.mpr (.inl ⟨rfl, rfl⟩))]
    rfl

theorem joinRoot_eq_none {a : α} (h : ∀ b, join a b = none) (cs : List (Rose α)) :
    joinRoot join (node a cs) = none := by
  unfold joinRoot
  split
  next heq =>
    obtain ⟨rfl, -⟩ := node.inj heq
    rw [h]
    rfl
  · rfl

theorem joinAll_split (hj : Joins join q outer inner) (hs : q s.label = true) :
    joinAll join (split outer inner s) = joinAll join s := by
  cases s with
  | node a cs =>
    have ha : q a = true := hs
    rw [split, joinAll_node, List.map_singleton, joinAll_node, joinAll_node,
      joinRoot_eq_none fun b => hj.inner a b ha, joinRoot_eq_none fun b => hj.self a b ha]
    simp [joinRoot, hj.split a ha]

end Join

/-! ## Splitting everywhere -/

section Exchange
variable [DecidableEq α]

variable (outer inner) in
def splitAll (ss : List (Rose α)) (c : Rose α) : Rose α :=
  ss.foldl (fun c s => exchange s (split outer inner s) c) c

variable (outer inner) in
/-- What has become of `t`, unless it was split itself. -/
def track : List (Rose α) → Rose α → Option (Rose α)
  | [], t => some t
  | s :: ss, t => if t = s then none else track ss (exchange s (split outer inner s) t)

variable {ss ss' : List (Rose α)} {t c : Rose α}

theorem track_append : track outer inner (ss ++ ss') t =
    (track outer inner ss t).bind (track outer inner ss') := by
  induction ss generalizing t with
  | nil => rfl
  | cons s ss ih =>
    rw [List.cons_append, track, track]
    split
    · rfl
    · exact ih

theorem track_eq (h : track outer inner ss t = some x) : x = splitAll outer inner ss t := by
  induction ss generalizing t with
  | nil => exact (Option.some.inj h).symm
  | cons s ss ih =>
    rw [track] at h
    split at h
    · cases h
    · exact ih h

theorem weight_exchange_le (hq : Splits q outer inner) (hs : q s.label = true) (c : Rose α) :
    weight q (exchange s (split outer inner s) c) ≤ weight q c := by
  induction c using Rose.ind with
  | h a cs ih =>
    by_cases heq : node a cs = s
    · rw [heq, exchange_self, weight_split hq hs]
    · rw [exchange_of_ne heq, weight_node, weight_node, List.map_map]
      exact Nat.add_le_add_left (List.sum_le_sum ih) _

theorem weight_splitAll_le (hq : Splits q outer inner) (hss : ∀ s ∈ ss, q s.label = true)
    (c : Rose α) : weight q (splitAll outer inner ss c) ≤ weight q c := by
  induction ss generalizing c with
  | nil => exact le_rfl
  | cons s ss ih =>
    have hrest := ih (fun s hs => hss s (List.mem_cons_of_mem _ hs))
      (exchange s (split outer inner s) c)
    exact hrest.trans (weight_exchange_le hq (hss s List.mem_cons_self) c)

/-- After an exchange, all that was found before is found, changed by the exchange, but for
the subtree that was split. -/
theorem mem_found_exchange (hq : Splits q outer inner) (hp : Open p q outer inner)
    (hs : q s.label = true) :
    x ∈ found p q (exchange s (split outer inner s) c) ↔
      ∃ t ∈ found p q c, t ≠ s ∧ exchange s (split outer inner s) t = x := by
  induction c using Rose.ind with
  | h a cs ih =>
    -- in the parts of `s` there is nothing left to exchange, being lighter than `s`
    by_cases heq : node a cs = s
    · subst heq
      have ha : q a = true := hs
      rw [exchange_self, mem_found_split hq hp ha]
      constructor
      · rintro ⟨c, hc, hx⟩
        have hlt : weight q x < weight q (node a cs) :=
          (weight_le_of_mem_found hx).trans_lt (weight_lt_of_mem hc)
        refine ⟨x, mem_found_node.mpr (.inr ⟨hp.self a ha, c, hc, hx⟩), ?_, ?_⟩
        · exact fun h => absurd (congrArg (weight q) h) hlt.ne
        · exact exchange_of_weight_lt hlt
      · rintro ⟨t, ht, hne, rfl⟩
        obtain ⟨-, c, hc, htc⟩ := (mem_found_node.mp ht).resolve_left fun h => hne h.2
        have hlt : weight q t < weight q (node a cs) :=
          (weight_le_of_mem_found htc).trans_lt (weight_lt_of_mem hc)
        rw [exchange_of_weight_lt hlt]
        exact ⟨c, hc, htc⟩
    · rw [exchange_of_ne heq, mem_found_node]
      constructor
      · rintro (⟨ha, rfl⟩ | ⟨ha, c', hc', hx⟩)
        · exact ⟨node a cs, mem_found_node.mpr (.inl ⟨ha, rfl⟩), heq, exchange_of_ne heq⟩
        · obtain ⟨c, hc, rfl⟩ := List.mem_map.mp hc'
          obtain ⟨t, ht, hne, rfl⟩ := (ih c hc).mp hx
          exact ⟨t, mem_found_node.mpr (.inr ⟨ha, c, hc, ht⟩), hne, rfl⟩
      · rintro ⟨t, ht, hne, rfl⟩
        rcases mem_found_node.mp ht with ⟨ha, rfl⟩ | ⟨ha, c, hc, htc⟩
        · exact .inl ⟨ha, exchange_of_ne heq⟩
        · exact .inr ⟨ha, _, List.mem_map_of_mem hc, (ih c hc).mpr ⟨t, htc, hne, rfl⟩⟩

theorem mem_found_splitAll (hq : Splits q outer inner) (hp : Open p q outer inner)
    (hss : ∀ s ∈ ss, q s.label = true) :
    x ∈ found p q (splitAll outer inner ss c) ↔
      ∃ t ∈ found p q c, track outer inner ss t = some x := by
  induction ss generalizing c with
  | nil => exact ⟨fun h => ⟨x, h, rfl⟩, fun ⟨t, ht, h⟩ => Option.some.inj h ▸ ht⟩
  | cons s ss ih =>
    have hrest := ih (c := exchange s (split outer inner s) c)
      fun s hs => hss s (List.mem_cons_of_mem _ hs)
    refine hrest.trans ?_
    simp only [mem_found_exchange hq hp (hss s List.mem_cons_self)]
    constructor
    · rintro ⟨_, ⟨t, ht, hne, rfl⟩, hx⟩
      refine ⟨t, ht, ?_⟩
      rw [track, if_neg hne]
      exact hx
    · rintro ⟨t, ht, hx⟩
      rw [track] at hx
      split at hx
      · cases hx
      next hne => exact ⟨_, ⟨t, ht, hne, rfl⟩, hx⟩

theorem fold_splitAll {β : Type*} {f : α → List β → β}
    (h : ∀ s ∈ ss, fold f (split outer inner s) = fold f s) (c : Rose α) :
    fold f (splitAll outer inner ss c) = fold f c := by
  induction ss generalizing c with
  | nil => rfl
  | cons s ss ih =>
    have hrest := ih (fun s hs => h s (List.mem_cons_of_mem _ hs))
      (exchange s (split outer inner s) c)
    exact hrest.trans (fold_exchange (h s List.mem_cons_self) c)

/-! ## Labels -/

theorem label_of_track (h : track outer inner ss t = some x) : x.label = t.label := by
  induction ss generalizing t with
  | nil => rw [Option.some.inj h]
  | cons s ss ih =>
    rw [track] at h
    split at h
    · cases h
    next hne => rw [ih h, label_exchange hne]

theorem mem_labels_exchange {b : α} (hb : b ∈ labels c) (hqb : q b = false)
    (hs : q s.label = true) : b ∈ labels (exchange s (split outer inner s) c) := by
  induction c using Rose.ind with
  | h a cs ih =>
    by_cases heq : node a cs = s
    · rw [heq, exchange_self, ← heq]
      rcases mem_labels_node.mp hb with rfl | hb
      · rw [← heq] at hs
        exact absurd (hs.symm.trans hqb) (Bool.noConfusion ·)
      · exact mem_labels_node.mpr (.inr ⟨_, List.mem_singleton_self _,
          mem_labels_node.mpr (.inr hb)⟩)
    · rw [exchange_of_ne heq]
      rcases mem_labels_node.mp hb with rfl | ⟨c, hc, hbc⟩
      · exact mem_labels_node.mpr (.inl rfl)
      · exact mem_labels_node.mpr (.inr ⟨_, List.mem_map_of_mem hc, ih c hc hbc⟩)

theorem mem_labels_splitAll {b : α} (hb : b ∈ labels c) (hqb : q b = false)
    (hss : ∀ s ∈ ss, q s.label = true) : b ∈ labels (splitAll outer inner ss c) := by
  induction ss generalizing c with
  | nil => exact hb
  | cons s ss ih =>
    exact ih (mem_labels_exchange hb hqb (hss s List.mem_cons_self))
      fun s hs => hss s (List.mem_cons_of_mem _ hs)

theorem inner_mem_labels (hs : s ∈ found p q c) :
    inner s.label ∈ labels (exchange s (split outer inner s) c) := by
  induction c using Rose.ind with
  | h a cs ih =>
    by_cases heq : node a cs = s
    · rw [heq, exchange_self, ← heq]
      exact mem_labels_node.mpr (.inr ⟨_, List.mem_singleton_self _,
        mem_labels_node.mpr (.inl rfl)⟩)
    · obtain ⟨-, c, hc, hsc⟩ := (mem_found_node.mp hs).resolve_left fun h => heq h.2.symm
      rw [exchange_of_ne heq]
      exact mem_labels_node.mpr (.inr ⟨_, List.mem_map_of_mem hc, ih c hc hsc⟩)

theorem inner_mem_labels_of_track (hq : Splits q outer inner) (hp : Open p q outer inner)
    (hss : ∀ s ∈ ss, q s.label = true) (ht : t ∈ found p q c)
    (hnone : track outer inner ss t = none) :
    inner t.label ∈ labels (splitAll outer inner ss c) := by
  have hlabel : q t.label = true := label_of_mem_found ht
  induction ss generalizing c t with
  | nil => cases hnone
  | cons s ss ih =>
    have hs := hss s List.mem_cons_self
    have hrest : ∀ s ∈ ss, q s.label = true := fun s hs => hss s (List.mem_cons_of_mem _ hs)
    rw [track] at hnone
    split at hnone
    next heq =>
      subst heq
      have hmem : inner t.label ∈ labels (exchange t (split outer inner t) c) :=
        inner_mem_labels ht
      change inner t.label ∈ labels (splitAll outer inner ss (exchange t (split outer inner t) c))
      exact mem_labels_splitAll hmem (hq.inner _ hlabel) hrest
    next hne =>
      rw [← label_exchange hne] at hlabel ⊢
      exact ih hrest ((mem_found_exchange hq hp hs).mpr ⟨t, ht, hne, rfl⟩) hnone hlabel

/-! ## Joining again -/

variable {join : α → α → Option α}

theorem joinAll_exchange (hj : Joins join q outer inner) (hs : q s.label = true)
    (c : Rose α) :
    joinAll join (exchange s (split outer inner s) c) = joinAll join c := by
  induction c using Rose.ind with
  | h a cs ih =>
    by_cases heq : node a cs = s
    · rw [heq, exchange_self, joinAll_split hj hs]
    · have hcs : (cs.map (exchange s (split outer inner s))).map (joinAll join) =
          cs.map (joinAll join) := by
        rw [List.map_map]
        exact List.map_congr_left ih
      rw [exchange_of_ne heq, joinAll_node, joinAll_node, hcs]

theorem joinAll_splitAll (hj : Joins join q outer inner) (hss : ∀ s ∈ ss, q s.label = true)
    (c : Rose α) : joinAll join (splitAll outer inner ss c) = joinAll join c := by
  induction ss generalizing c with
  | nil => rfl
  | cons s ss ih =>
    have hrest := ih (fun s hs => hss s (List.mem_cons_of_mem _ hs))
      (exchange s (split outer inner s) c)
    exact hrest.trans (joinAll_exchange hj (hss s List.mem_cons_self) c)

theorem track_injective (hj : Joins join q outer inner) (hss : ∀ s ∈ ss, q s.label = true)
    {t' : Rose α} (ht : Plain join t) (ht' : Plain join t')
    (h : track outer inner ss t = some x) (h' : track outer inner ss t' = some x) : t = t' := by
  calc t = joinAll join t := ht.joinAll_eq.symm
    _ = joinAll join x := by rw [track_eq h, joinAll_splitAll hj hss]
    _ = joinAll join t' := by rw [track_eq h', joinAll_splitAll hj hss]
    _ = t' := ht'.joinAll_eq

/-! ## Searching and splitting -/

variable (outer inner p q) in
/-- The subtrees `ss` are split one after the other, and these are what was found in the
trees `cs`. -/
structure Clears (ss cs : List (Rose α)) : Prop where
  labels : ∀ s ∈ ss, q s.label = true
  cleared : ∀ c ∈ cs, ∀ t ∈ found p q c, track outer inner ss t = none
  origin : ∀ ss₁ s ss₂, ss = ss₁ ++ s :: ss₂ →
    ∃ c ∈ cs, ∃ t ∈ found p q c, track outer inner ss₁ t = some s

namespace Clears
variable {cs : List (Rose α)}

theorem nil : Clears outer inner p q [] [] where
  labels s hs := absurd hs List.not_mem_nil
  cleared c hc := absurd hc List.not_mem_nil
  origin ss₁ s ss₂ h := absurd h (by simp)

theorem snoc (hq : Splits q outer inner) (hp : Open p q outer inner)
    (h : Clears outer inner p q ss cs)
    (h' : Clears outer inner p q ss' [splitAll outer inner ss c]) :
    Clears outer inner p q (ss ++ ss') (cs ++ [c]) where
  labels := List.forall_mem_append.mpr ⟨h.labels, h'.labels⟩
  cleared d hd t ht := by
    rw [track_append]
    rcases List.mem_append.mp hd with hd | hd
    · rw [h.cleared d hd t ht]
      rfl
    · rw [List.mem_singleton.mp hd] at ht
      cases htrack : track outer inner ss t with
      | none => rfl
      | some x =>
        exact h'.cleared _ (List.mem_singleton_self _) x
          ((mem_found_splitAll hq hp h.labels).mpr ⟨t, ht, htrack⟩)
  origin ss₁ s ss₂ heq := by
    rcases append_eq_append_cons heq with ⟨k, hss₁, hss'⟩ | ⟨k, hss⟩
    · obtain ⟨d, hd, x, hx, htrack⟩ := h'.origin k s ss₂ hss'
      rw [List.mem_singleton.mp hd] at hx
      obtain ⟨t, ht, htx⟩ := (mem_found_splitAll hq hp h.labels).mp hx
      refine ⟨c, List.mem_append_right _ (List.mem_singleton_self c), t, ht, ?_⟩
      rw [hss₁, track_append, htx]
      exact htrack
    · obtain ⟨d, hd, t, ht, htrack⟩ := h.origin ss₁ s k hss
      exact ⟨d, List.mem_append_left _ hd, t, ht, htrack⟩

theorem foldl (hq : Splits q outer inner) (hp : Open p q outer inner)
    {w : Rose α → List (Rose α)} (hw : ∀ ss, (∀ s ∈ ss, q s.label = true) → ∀ c ∈ cs,
      Clears outer inner p q (w (splitAll outer inner ss c)) [splitAll outer inner ss c]) :
    Clears outer inner p q
      (cs.foldl (fun ss c => ss ++ w (splitAll outer inner ss c)) []) cs := by
  induction cs using List.reverseRecOn with
  | nil => exact nil
  | append_singleton cs c ih =>
    have hcs := ih fun ss hss c hc => hw ss hss c (List.mem_append_left _ hc)
    rw [List.foldl_append]
    exact hcs.snoc hq hp
      (hw _ hcs.labels c (List.mem_append_right _ (List.mem_singleton_self c)))

variable {a : α}

theorem closed (ha : q a = false) (hpa : p a = false) :
    Clears outer inner p q [] [node a cs] where
  labels s hs := absurd hs List.not_mem_nil
  cleared c hc t ht := by
    rw [List.mem_singleton.mp hc, mem_found_node, ha, hpa] at ht
    simp at ht
  origin ss₁ s ss₂ h := absurd h (by simp)

theorem through (h : Clears outer inner p q ss cs) (ha : q a = false) (hpa : p a = true) :
    Clears outer inner p q ss [node a cs] where
  labels := h.labels
  cleared c hc t ht := by
    rw [List.mem_singleton.mp hc, mem_found_node, ha] at ht
    obtain ⟨-, c, hc, htc⟩ := ht.resolve_left fun h => Bool.false_ne_true h.1
    exact h.cleared c hc t htc
  origin ss₁ s ss₂ heq := by
    obtain ⟨c, hc, t, ht, htrack⟩ := h.origin ss₁ s ss₂ heq
    exact ⟨_, List.mem_singleton_self _, t, mem_found_node.mpr (.inr ⟨hpa, c, hc, ht⟩), htrack⟩

theorem track_below {c : Rose α} (hc : c ∈ cs) (ht : t ∈ found p q c) :
    track outer inner (node a cs :: ss) t = track outer inner ss t := by
  have hlt : weight q t < weight q (node a cs) :=
    (weight_le_of_mem_found ht).trans_lt (weight_lt_of_mem hc)
  have hne : t ≠ node a cs := fun h => absurd (congrArg (weight q) h) hlt.ne
  rw [track, if_neg hne, exchange_of_weight_lt hlt]

theorem self (h : Clears outer inner p q ss cs) (ha : q a = true) (hpa : p a = true) :
    Clears outer inner p q (node a cs :: ss) [node a cs] where
  labels := List.forall_mem_cons.mpr ⟨ha, h.labels⟩
  cleared c hc t ht := by
    rw [List.mem_singleton.mp hc] at ht
    rcases mem_found_node.mp ht with ⟨-, rfl⟩ | ⟨-, c, hc, htc⟩
    · rw [track, if_pos rfl]
    · rw [track_below hc htc]
      exact h.cleared c hc t htc
  origin ss₁ s ss₂ heq := by
    cases ss₁ with
    | nil =>
      obtain ⟨rfl, -⟩ := List.cons.inj heq
      exact ⟨_, List.mem_singleton_self _, _, mem_found_node.mpr (.inl ⟨ha, rfl⟩), rfl⟩
    | cons d ss₁ =>
      obtain ⟨rfl, hrest⟩ := List.cons.inj heq
      obtain ⟨c, hc, t, ht, htrack⟩ := h.origin ss₁ s ss₂ hrest
      refine ⟨_, List.mem_singleton_self _, t, mem_found_node.mpr (.inr ⟨hpa, c, hc, ht⟩), ?_⟩
      rw [track_below hc ht]
      exact htrack

theorem foldl_below {w : Rose α → List (Rose α)} {cs' : List (Rose α)} (hcs : ∀ c ∈ cs', c ∈ cs)
    (ss : List (Rose α)) :
    cs'.foldl (fun ss c => ss ++ w (splitAll outer inner ss c)) (node a cs :: ss) =
      node a cs :: cs'.foldl (fun ss c => ss ++ w (splitAll outer inner ss c)) ss := by
  induction cs' generalizing ss with
  | nil => rfl
  | cons c cs' ih =>
    have hlt : weight (fun _ => false) c < weight (fun _ => false) (node a cs) :=
      weight_lt_of_mem (hcs c List.mem_cons_self)
    have hsame : splitAll outer inner (node a cs :: ss) c = splitAll outer inner ss c :=
      congrArg (splitAll outer inner ss) (exchange_of_weight_lt hlt)
    rw [List.foldl_cons, List.foldl_cons, hsame, List.cons_append,
      ih (fun d hd => hcs d (List.mem_cons_of_mem c hd))]

end Clears

theorem Clears.label {cs : List (Rose α)} (h : Clears outer inner p q ss cs) (hs : s ∈ ss) :
    ∃ c ∈ cs, ∃ t ∈ found p q c, s.label = t.label := by
  obtain ⟨ss₁, ss₂, hss⟩ := List.append_of_mem hs
  obtain ⟨c, hc, t, ht, htrack⟩ := h.origin ss₁ s ss₂ hss
  exact ⟨c, hc, t, ht, label_of_track htrack⟩

theorem Clears.eq_nil {cs : List (Rose α)} (h : Clears outer inner p q ss cs)
    (hcs : ∀ c ∈ cs, found p q c = []) : ss = [] := by
  cases ss with
  | nil => rfl
  | cons s ss =>
    obtain ⟨c, hc, t, ht, -⟩ := h.origin [] s ss rfl
    rw [hcs c hc] at ht
    exact absurd ht List.not_mem_nil

theorem track_eq_none (h : track outer inner ss t = none) :
    ∃ ss₁ s ss₂, ss = ss₁ ++ s :: ss₂ ∧ track outer inner ss₁ t = some s := by
  induction ss generalizing t with
  | nil => cases h
  | cons s ss ih =>
    rw [track] at h
    split at h
    next heq => exact ⟨[], s, ss, rfl, congrArg some heq⟩
    next hne =>
      obtain ⟨ss₁, s', ss₂, rfl, htrack⟩ := ih h
      refine ⟨s :: ss₁, s', ss₂, rfl, ?_⟩
      rw [track, if_neg hne]
      exact htrack

theorem Clears.found_eq_nil {p' : α → Bool} {os : List (Rose α)}
    (h : Clears outer inner p q ss os) (hq : Splits q outer inner)
    (hp' : Open p' q outer inner)
    (hc : ∀ t ∈ found p' q c, ∃ o ∈ os, t ∈ found p q o) :
    found p' q (splitAll outer inner ss c) = [] := by
  refine List.eq_nil_iff_forall_not_mem.mpr fun x hx => ?_
  obtain ⟨t, ht, htrack⟩ := (mem_found_splitAll hq hp' h.labels).mp hx
  obtain ⟨o, ho, hto⟩ := hc t ht
  rw [h.cleared o ho t hto] at htrack
  cases htrack

theorem track_of_found_eq_nil {p' : α → Bool} (hq : Splits q outer inner)
    (hp' : Open p' q outer inner) (hss : ∀ s ∈ ss, q s.label = true)
    (hnil : found p' q (splitAll outer inner ss c) = []) (ht : t ∈ found p' q c) :
    track outer inner ss t = none := by
  cases htrack : track outer inner ss t with
  | none => rfl
  | some x =>
    have hx := (mem_found_splitAll hq hp' hss).mpr ⟨t, ht, htrack⟩
    rw [hnil] at hx
    exact absurd hx List.not_mem_nil

theorem Clears.found_of_eq_nil {p' : α → Bool} {os : List (Rose α)}
    {join : α → α → Option α} (h : Clears outer inner p q ss os) (hq : Splits q outer inner)
    (hp' : Open p' q outer inner) (hj : Joins join q outer inner) (hc : Plain join c)
    (hos : ∀ o ∈ os, Plain join o) (hnil : found p' q (splitAll outer inner ss c) = []) :
    ∀ t ∈ found p' q c, ∃ o ∈ os, t ∈ found p q o := by
  intro t ht
  obtain ⟨ss₁, s, ss₂, hss, hs⟩ := track_eq_none (track_of_found_eq_nil hq hp' h.labels hnil ht)
  obtain ⟨o, ho, t', ht', hs'⟩ := h.origin ss₁ s ss₂ hss
  have hss₁ : ∀ s ∈ ss₁, q s.label = true := fun s hs =>
    h.labels s (hss ▸ List.mem_append_left _ hs)
  have heq := track_injective hj hss₁ (hc.of_mem_found ht) ((hos o ho).of_mem_found ht') hs hs'
  exact ⟨o, ho, heq ▸ ht'⟩

end Exchange
end Split
end HeroTools.Trees
