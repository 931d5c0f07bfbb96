import Mathlib.Data.Nat.Digits.Lemmas

/-! Numbers in a memory of bytes, the least significant byte first, and what a sequence of
stores leaves in each byte. -/

namespace HeroTools

def leByte (v k : Nat) : UInt8 := UInt8.ofNat (v / 256 ^ k)

def leValue (f : Nat → UInt8) (w : Nat) : Nat :=
  Nat.ofDigits 256 ((List.range w).map fun k => (f k).toNat)

section
variable {f g : Nat → UInt8} {i j k v w : Nat}

theorem leValue_succ (f : Nat → UInt8) (w : Nat) :
    leValue f (w + 1) = leValue f w + 256 ^ w * (f w).toNat := by
  rw [leValue, List.range_succ, List.map_append, Nat.ofDigits_append, List.length_map,
    List.length_range, List.map_singleton, Nat.ofDigits_singleton, leValue]

theorem leValue_congr (h : ∀ k < w, f k = g k) : leValue f w = leValue g w := by
  unfold leValue
  congr 1
  apply List.map_congr_left
  intro k hk
  rw [h k (List.mem_range.mp hk)]

theorem leValue_lt (f : Nat → UInt8) (w : Nat) : leValue f w < 256 ^ w := by
  have hlen : ((List.range w).map fun k => (f k).toNat).length = w := by
    rw [List.length_map, List.length_range]
  have hlt := Nat.ofDigits_lt_base_pow_length (b := 256)
    (l := (List.range w).map fun k => (f k).toNat) (by norm_num) fun x hx => by
      obtain ⟨k, -, rfl⟩ := List.mem_map.mp hx
      exact UInt8.toNat_lt (f k)
  rwa [hlen] at hlt

theorem leValue_add (f : Nat → UInt8) (i j : Nat) :
    leValue f (i + j) = leValue f i + 256 ^ i * leValue (fun k => f (i + k)) j := by
  induction j with
  | zero => simp [leValue]
  | succ j ih =>
    have hassoc : i + (j + 1) = i + j + 1 := rfl
    rw [hassoc, leValue_succ, ih, leValue_succ, Nat.mul_add, ← Nat.add_assoc, ← Nat.mul_assoc,
      ← Nat.pow_add]

theorem leValue_leByte (v w : Nat) : leValue (leByte v) w = v % 256 ^ w := by
  induction w with
  | zero => simp [leValue, Nat.mod_one]
  | succ w ih =>
    have hbyte : (leByte v w).toNat = v / 256 ^ w % 256 := UInt8.toNat_ofNat'
    rw [leValue_succ, ih, hbyte, Nat.mod_pow_succ]

theorem leByte_div (v i k : Nat) : leByte (v / 256 ^ i) k = leByte v (i + k) := by
  rw [leByte, leByte, Nat.div_div_eq_div_mul, ← Nat.pow_add]

theorem leByte_mod (hk : k < w) : leByte (v % 256 ^ w) k = leByte v k := by
  apply UInt8.toNat.inj
  have hpow : 256 ^ w = 256 ^ k * (256 * 256 ^ (w - (k + 1))) := by
    rw [← Nat.pow_succ', ← Nat.pow_add]
    congr 1
    omega
  rw [leByte, leByte, UInt8.toNat_ofNat', UInt8.toNat_ofNat', hpow,
    Nat.mod_mul_right_div_self, Nat.mod_mod_of_dvd _ (Nat.dvd_mul_right 256 _)]

end

/-! ## Loads and stores -/

def loadLe (mem : Nat → UInt8) (a w : Nat) : Nat := leValue (fun k => mem (a + k)) w

def storeLe (mem : Nat → UInt8) (a w v : Nat) : Nat → UInt8 := fun x =>
  if a ≤ x ∧ x < a + w then leByte v (x - a) else mem x

section
variable {mem : Nat → UInt8} {a b i j k n v w x : Nat}

theorem storeLe_inside (hk : k < w) : storeLe mem a w v (a + k) = leByte v k := by
  rw [storeLe, if_pos ⟨Nat.le_add_right a k, Nat.add_lt_add_left hk a⟩, Nat.add_sub_cancel_left]

theorem storeLe_outside (h : x < a ∨ a + w ≤ x) : storeLe mem a w v x = mem x :=
  if_neg fun hx => h.elim (Nat.not_lt.mpr hx.1) (Nat.not_le.mpr hx.2)

theorem load_storeLe (mem : Nat → UInt8) (a w v : Nat) :
    loadLe (storeLe mem a w v) a w = v % 256 ^ w := by
  rw [← leValue_leByte]
  exact leValue_congr fun k hk => storeLe_inside hk

theorem load_storeLe_of_disjoint (h : b + n ≤ a ∨ a + w ≤ b) :
    loadLe (storeLe mem a w v) b n = loadLe mem b n := by
  apply leValue_congr
  intro k hk
  exact storeLe_outside (by omega)

theorem loadLe_lt (mem : Nat → UInt8) (a w : Nat) : loadLe mem a w < 256 ^ w :=
  leValue_lt _ w

theorem loadLe_add (mem : Nat → UInt8) (a i j : Nat) :
    loadLe mem a (i + j) = loadLe mem a i + 256 ^ i * loadLe mem (a + i) j := by
  rw [loadLe, leValue_add, loadLe, loadLe]
  simp only [Nat.add_assoc]

theorem storeLe_mod (mem : Nat → UInt8) (a w v : Nat) :
    storeLe mem a w (v % 256 ^ w) = storeLe mem a w v := by
  funext x
  by_cases hx : a ≤ x ∧ x < a + w
  · rw [storeLe, storeLe, if_pos hx, if_pos hx, leByte_mod (by omega)]
  · rw [storeLe, storeLe, if_neg hx, if_neg hx]

theorem store_storeLe (mem : Nat → UInt8) (a i j v : Nat) :
    storeLe (storeLe mem a i v) (a + i) j (v / 256 ^ i) = storeLe mem a (i + j) v := by
  funext x
  rcases lt_or_ge x a with hx | hx
  · rw [storeLe_outside (by omega), storeLe_outside (by omega), storeLe_outside (by omega)]
  obtain ⟨k, rfl⟩ := Nat.exists_eq_add_of_le hx
  rcases lt_or_ge k i with hk | hk
  · rw [storeLe_outside (by omega), storeLe_inside hk, storeLe_inside (by omega)]
  obtain ⟨k, rfl⟩ := Nat.exists_eq_add_of_le hk
  rcases lt_or_ge k j with hj | hj
  · rw [← Nat.add_assoc, storeLe_inside hj, Nat.add_assoc, storeLe_inside (by omega), leByte_div]
  · rw [storeLe_outside (by omega), storeLe_outside (by omega), storeLe_outside (by omega)]

theorem store_loadLe_add (mem mem' : Nat → UInt8) (a b i j : Nat) :
    storeLe (storeLe mem' b i (loadLe mem a i)) (b + i) j (loadLe mem (a + i) j) =
      storeLe mem' b (i + j) (loadLe mem a (i + j)) := by
  have hlow : loadLe mem a (i + j) % 256 ^ i = loadLe mem a i := by
    rw [loadLe_add, Nat.add_mul_mod_self_left, Nat.mod_eq_of_lt (loadLe_lt mem a i)]
  have hhigh : loadLe mem a (i + j) / 256 ^ i = loadLe mem (a + i) j := by
    rw [loadLe_add, Nat.add_mul_div_left _ _ (Nat.pow_pos (by norm_num)),
      Nat.div_eq_of_lt (loadLe_lt mem a i), Nat.zero_add]
  rw [← store_storeLe, ← hlow, storeLe_mod, hhigh]

end

/-! ## Sequences of stores -/

structure Stored where
  addr : Nat
  width : Nat
  val : Nat

namespace Stored

def covers (s : Stored) (x : Nat) : Bool := s.addr ≤ x && x < s.addr + s.width

def apply (mem : Nat → UInt8) (s : Stored) : Nat → UInt8 := storeLe mem s.addr s.width s.val

def latest (ss : List Stored) (x : Nat) : Option UInt8 :=
  (ss.reverse.find? (covers · x)).map fun s => leByte s.val (x - s.addr)

theorem apply_apply (mem : Nat → UInt8) (s : Stored) (x : Nat) :
    s.apply mem x = if s.covers x then leByte s.val (x - s.addr) else mem x := by
  simp only [apply, storeLe, covers, Bool.and_eq_true, decide_eq_true_eq]

/-- After any stores every byte is the one that was stored there last, or the initial one. -/
theorem foldl_apply (mem : Nat → UInt8) (ss : List Stored) (x : Nat) :
    ss.foldl apply mem x = (latest ss x).getD (mem x) := by
  induction ss using List.reverseRecOn with
  | nil => rfl
  | append_singleton ss s ih =>
    rw [List.foldl_append, List.foldl_cons, List.foldl_nil, apply_apply, latest,
      List.reverse_append, List.reverse_singleton, List.singleton_append, List.find?_cons]
    cases s.covers x with
    | true => rfl
    | false => exact ih

theorem latest_eq_none {ss : List Stored} {x : Nat} (h : ∀ s ∈ ss, s.covers x = false) :
    latest ss x = none := by
  rw [latest, Option.map_eq_none_iff, List.find?_eq_none]
  intro s hs
  rw [h s (List.mem_reverse.mp hs)]
  exact Bool.false_ne_true

end Stored
end HeroTools
