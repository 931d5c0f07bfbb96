import HeroTools.Driver.Ioctl

/-! Which failed requests leave the driver as it was. -/

namespace HeroTools.Driver
variable {b : Board} {env : Env} {cmd : Nat} {arg : CardIoctlArg} {s : State b}

/-- A request that fails changes nothing, and follows no list node that it could not
allocate. -/
def Atomic (s : State b) : Outcome (State b) → Prop
  | .fault f => f ≠ .node
  | .ret r _ s' => r < 0 → s' = s

def DmaAllocOk (env : Env) : Prop :=
  env.getFreePages = none ∨ env.kmallocNode ∧ env.kmallocData ∧ env.copyToUser

/-- What must not go wrong in IOCTL_IOMMU_MAP: a request that is turned away has pinned no
page, and one that goes on gets its list nodes, a page count that is an `int`, and its
copy. Without the array of pages neither point is reached with anything changed. -/
def IommuMapOk (env : Env) (length : Nat) : Prop :=
  env.kcalloc = false ∨
    if Rejected env length then (pinPages env (length >>> PAGE_SHIFT)).2 = []
    else env.kmallocNode ∧ env.kmallocData ∧ 0 ≤ toInt32 (length >>> PAGE_SHIFT) ∧
      env.copyToUser

instance (env : Env) (length : Nat) : Decidable (IommuMapOk env length) :=
  inferInstanceAs (Decidable (_ ∨ if Rejected env length then _ else _))

def RequestOk (b : Board) (env : Env) (cmd : Nat) (arg : CardIoctlArg) : Prop :=
  env.copyFromUser →
    match b.command cmd with
    | some .dmaAlloc => DmaAllocOk env
    | some .iommuMap => IommuMapOk env arg.size
    | some .memInfos => True
    | none => True

/-! ## One command at a time -/

theorem append_singleton_ne {α : Type*} (l : List α) (x : α) : l ++ [x] ≠ l := by
  intro h
  have := congrArg List.length h
  simp at this

theorem atomic_sendBack_of_ne {s' : State b} (hne : s' ≠ s) :
    Atomic s (sendBack env arg s') ↔ env.copyToUser := by
  cases h : env.copyToUser with
  | true => simp [sendBack, h, Atomic]
  | false => simp [sendBack, h, Atomic, hne]

theorem atomic_sendBack_self : Atomic s (sendBack env arg s) := by
  unfold sendBack
  split_ifs
  · exact fun h => absurd h (by decide)
  · exact fun _ => rfl

theorem atomic_dmaAlloc : Atomic s (ioctlDmaAlloc env arg s) ↔ DmaAllocOk env := by
  unfold ioctlDmaAlloc DmaAllocOk
  rcases env.getFreePages with _ | ⟨virt, phys⟩
  · simp [Atomic]
  · cases hn : env.kmallocNode <;> cases hd : env.kmallocData <;>
      simp only [Bool.not_true, Bool.not_false, Bool.or_self, Bool.or_true, Bool.or_false,
        if_true, if_false, Atomic, reduceCtorEq, ne_eq, not_true_eq_false, false_and, and_false,
        or_false, true_and, false_or, Bool.false_eq_true]
    apply atomic_sendBack_of_ne
    intro h
    exact append_singleton_ne _ _ (congrArg State.blocks h)

theorem atomic_pagesPinned {length : Nat} :
    pagesPinned env s length = s ↔ (pinPages env (length >>> PAGE_SHIFT)).2 = [] := by
  constructor
  · intro h
    exact List.append_right_eq_self.mp (congrArg State.pinned h)
  · exact pagesPinned_of_nil

theorem regionAdded_ne {userAddr iova length : Nat} :
    regionAdded env s userAddr iova length ≠ s := by
  intro h
  exact append_singleton_ne _ _ (congrArg State.iommuRegionList h)

theorem atomic_iommuMap :
    Atomic s (ioctlIommuMap env arg s) ↔ IommuMapOk env arg.size := by
  unfold ioctlIommuMap IommuMapOk
  simp only
  cases hk : env.kcalloc with
  | false =>
    rcases region_add_no_array (s := s) hk with h | h <;> rw [h] <;> simp [Atomic]
  | true =>
    simp only [Bool.true_eq_false, false_or]
    by_cases hr : Rejected env arg.size
    · rw [region_add_rejected hk hr, if_pos hr]
      simp only [Atomic, Int.reduceNeg, Int.reduceLT, if_true, true_implies]
      exact atomic_pagesPinned
    · rw [region_add_accepted hk hr, if_neg hr]
      by_cases hm : env.kmallocNode ∧ env.kmallocData
      · rw [if_pos hm]
        by_cases hn : toInt32 (arg.size >>> PAGE_SHIFT) < 0
        · simp [hn, Atomic, regionAdded_ne]
        · simp only [hn, if_false, hm, true_and, not_lt.mp hn]
          exact atomic_sendBack_of_ne regionAdded_ne
      · rw [if_neg hm]
        simp only [Atomic, ne_eq, not_true_eq_false, false_iff]
        exact fun h => hm ⟨h.1, h.2.1⟩

theorem atomic_memInfos : Atomic s (ioctlMemInfos env arg s) := by
  unfold ioctlMemInfos
  cases b.ptrToDevdataRegion arg.mmapId with
  | none => exact fun _ => rfl
  | some m => exact atomic_sendBack_self

/-! ## Every request -/

/-- A request is atomic just when nothing that comes after its first acquisition fails. -/
theorem cardIoctl_atomic_iff (env : Env) (cmd : Nat) (arg : CardIoctlArg) (s : State b) :
    Atomic s (cardIoctl env cmd arg s) ↔ RequestOk b env cmd arg := by
  unfold cardIoctl RequestOk
  cases env.copyFromUser with
  | false => simp [Atomic]
  | true =>
    simp only [Bool.not_true, Bool.false_eq_true, if_false, true_implies]
    rcases b.command cmd with _ | _ | _ | _
    · exact iff_of_true (fun _ => rfl) trivial
    · exact atomic_dmaAlloc
    · exact iff_of_true atomic_memInfos trivial
    · exact atomic_iommuMap

theorem cardIoctl_not_atomic :
    let s : State .carfield := .probed fun _ => ⟨0, 0, 0⟩
    let arg : CardIoctlArg := ⟨3 * 4096, 0, 0x10000, 0⟩
    ¬ Atomic s (cardIoctl { Env.sound with copyToUser := false }
      (Board.ioctlDmaAlloc .carfield) arg s) ∧
    ¬ Atomic s (cardIoctl Env.sound (iowr 'C'.toNat 3) arg s) ∧
    ¬ Atomic s (cardIoctl { Env.sound with kmallocNode := false }
      (Board.ioctlDmaAlloc .carfield) arg s) := by
  intro s arg
  refine ⟨fun h => ?_, fun h => ?_, fun h => h rfl⟩
  · have := congrArg State.blocks (h (by decide))
    exact absurd this (by decide)
  · have hp : IommuMapOk Env.sound arg.size := atomic_iommuMap.mp h
    exact absurd hp (by decide)

end HeroTools.Driver
