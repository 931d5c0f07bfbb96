import HeroTools.Apps.Fdotp
import HeroTools.Lib.Vectors

/-! The dot product of `fdotp.h` for the vector units of Spatz: partial sums in the lanes of a
register, strip by strip, reduced once at the end. -/

namespace HeroTools.Apps
open Finset
variable {R : Type*} {VLMAX K p : Nat}

/-- A vector unit: its choice of the vector length, and what an instruction that writes a
register leaves in the lanes behind it. Both may depend on the strip, of which no two have the
same `avl`; registers go by their numbers. -/
structure VectorUnit (R : Type*) (VLMAX : Nat) extends VlChoice VLMAX where
  agnostic : Nat → Nat → Lanes R

structure RvvState (R : Type*) where
  a : Nat
  b : Nat
  avl : Nat
  vl : Nat
  v0 : Lanes R
  v8 : Lanes R
  v16 : Lanes R
  v24 : Lanes R
  readA : List Nat
  readB : List Nat

variable [CommRing R] {u : VectorUnit R VLMAX} {a b : Nat → R} {s : RvvState R}

/-- The body of the `do` loop. -/
def rvvStrip (u : VectorUnit R VLMAX) (a b : Nat → R) (origAvl : Nat) (s : RvvState R) :
    RvvState R :=
  let vl := u.vsetvli s.avl
  let v8 := vle vl (u.agnostic s.avl 8) a s.a
  let v16 := vle vl (u.agnostic s.avl 16) b s.b
  { a := s.a + vl, b := s.b + vl, avl := s.avl - vl, vl := vl
    v0 := s.v0, v8 := v8, v16 := v16
    v24 := if s.avl = origAvl then vfmulVv vl (u.agnostic s.avl 24) v8 v16
      else vfmaccVv vl (u.agnostic s.avl 24) s.v24 v8 v16
    readA := s.readA ++ vleReads vl s.a, readB := s.readB ++ vleReads vl s.b }

/-- The reduction, under the vector length of the last strip. -/
def rvvReduce (u : VectorUnit R VLMAX) (s : RvvState R) : Dot R :=
  let v0 := vmvVI s.vl (u.agnostic s.avl 0) 0
  let v0 := vfredusumVs s.vl (u.agnostic s.avl 0) v0 s.v24 v0
  { c := v0 0, readA := s.readA, readB := s.readB }

def rvvStart (v : Nat → Lanes R) (avl : Nat) : RvvState R :=
  { a := 0, b := 0, avl := avl, vl := 0, v0 := v 0, v8 := v 8, v16 := v 16, v24 := v 24
    readA := [], readB := [] }

def fdotpRvv32b (n : Nat) (u : VectorUnit R VLMAX) (v : Nat → Lanes R) (a b : Nat → R)
    (avl : Nat) : Option (Dot R) :=
  (doWhile (rvvStrip u a b avl) (fun s => decide (0 < s.avl)) n (rvvStart v avl)).map
    (rvvReduce u)

/-! ## Strips -/

structure RvvAt (K p : Nat) (s : RvvState R) : Prop where
  a_eq : s.a = p
  b_eq : s.b = p
  avl_eq : s.avl + p = K
  reads_a : ∀ i ∈ s.readA, i < p
  reads_b : ∀ i ∈ s.readB, i < p

omit [CommRing R] in
theorem rvvStart_at (v : Nat → Lanes R) (K : Nat) : RvvAt K 0 (rvvStart v K) where
  a_eq := rfl
  b_eq := rfl
  avl_eq := rfl
  reads_a := fun _ hi => absurd hi List.not_mem_nil
  reads_b := fun _ hi => absurd hi List.not_mem_nil

theorem mem_vleReads_append {reads : List Nat} {vl i : Nat} (h : ∀ i ∈ reads, i < p)
    (hi : i ∈ reads ++ vleReads vl p) : i < p + vl := by
  rcases List.mem_append.mp hi with hi | hi
  · exact (h i hi).trans_le (Nat.le_add_right p vl)
  · exact lt_of_mem_vleReads hi

theorem RvvAt.strip (h : RvvAt K p s) :
    RvvAt K (p + u.vsetvli s.avl) (rvvStrip u a b K s) where
  a_eq := congrArg (· + u.vsetvli s.avl) h.a_eq
  b_eq := congrArg (· + u.vsetvli s.avl) h.b_eq
  avl_eq := by
    have hle := (u.vsetvli_allowed s.avl).le_avl
    have havl := h.avl_eq
    change s.avl - u.vsetvli s.avl + (p + u.vsetvli s.avl) = K
    omega
  reads_a := by
    intro i hi
    rw [rvvStrip, h.a_eq] at hi
    exact mem_vleReads_append h.reads_a hi
  reads_b := by
    intro i hi
    rw [rvvStrip, h.b_eq] at hi
    exact mem_vleReads_append h.reads_b hi

theorem rvvStrip_first (h : RvvAt K 0 s) {i : Nat} (hi : i < u.vsetvli s.avl) :
    (rvvStrip u a b K s).v24 i = a i * b i := by
  have havl : s.avl = K := h.avl_eq
  simp only [rvvStrip, if_pos havl, vfmulVv, vle, vwrite_of_lt hi, h.a_eq, h.b_eq, Nat.zero_add]

theorem rvvStrip_next (h : RvvAt K p s) (hp : 0 < p) {i : Nat} (hi : i < u.vsetvli s.avl) :
    (rvvStrip u a b K s).v24 i = s.v24 i + a (p + i) * b (p + i) := by
  have havl : s.avl ≠ K := by
    have := h.avl_eq
    omega
  simp only [rvvStrip, if_neg havl, vfmaccVv, vle, vwrite_of_lt hi, h.a_eq, h.b_eq]

theorem rvvReduce_c (h : 0 < s.vl) : (rvvReduce u s).c = ∑ i ∈ range s.vl, s.v24 i := by
  simp only [rvvReduce]
  rw [vfredusumVs_zero h, vmvVI, vwrite_of_lt h, zero_add]

/-! ## The loop -/

def RvvAfter (K : Nat) (I : Nat → RvvState R → Prop) (s : RvvState R) : Prop :=
  ∃ p, RvvAt K p s ∧ I p s ∧ 0 < p

/-- The loop ends with every element read once, and with what the strips establish and
preserve. -/
theorem fdotpRvv32b_total {I : Nat → RvvState R → Prop} (hV : 1 ≤ VLMAX) (hK : 1 ≤ K)
    (v : Nat → Lanes R)
    (h0 : I (u.vsetvli K) (rvvStrip u a b K (rvvStart v K)))
    (hstep : ∀ p s, RvvAt K p s → I p s → 0 < p → 0 < s.avl →
      I (p + u.vsetvli s.avl) (rvvStrip u a b K s)) :
    ∃ n s, fdotpRvv32b n u v a b K = some (rvvReduce u s) ∧ RvvAt K K s ∧ I K s := by
  have hfirst : RvvAfter K I (rvvStrip u a b K (rvvStart v K)) := by
    refine ⟨u.vsetvli K, ?_, h0, (u.vsetvli_allowed K).pos hV hK⟩
    have hat := (rvvStart_at v K).strip (u := u) (a := a) (b := b)
    rwa [Nat.zero_add] at hat
  have hturn : ∀ s, RvvAfter K I s → decide (0 < s.avl) = true →
      RvvAfter K I (rvvStrip u a b K s) ∧ (rvvStrip u a b K s).avl < s.avl := by
    rintro s ⟨p, hat, hI, hp⟩ hc
    have havl : 0 < s.avl := of_decide_eq_true hc
    have hvl := (u.vsetvli_allowed s.avl).pos hV havl
    refine ⟨⟨_, hat.strip, hstep p s hat hI hp havl, Nat.add_pos_left hp _⟩, ?_⟩
    exact Nat.sub_lt havl hvl
  obtain ⟨n, s, hrun, ⟨p, hat, hI, -⟩, hexit⟩ :=
    doWhile_total (fun s : RvvState R => s.avl) hfirst hturn
  have hp : p = K := by
    have havl := of_decide_eq_false hexit
    have hsum := hat.avl_eq
    omega
  subst hp
  exact ⟨n, s, by rw [fdotpRvv32b, hrun, Option.map_some], hat, hI⟩

def StripsAt (u : VectorUnit R VLMAX) (K : Nat) (done : List Nat) (s : RvvState R) : Prop :=
  u.strips K = done ++ s.vl :: u.strips s.avl

theorem stripsAt_first (hV : 1 ≤ VLMAX) (hK : 1 ≤ K) (v : Nat → Lanes R) :
    StripsAt u K [] (rvvStrip u a b K (rvvStart v K)) := u.strips_of_pos hV hK

theorem StripsAt.strip {done : List Nat} (h : StripsAt u K done s) (hV : 1 ≤ VLMAX)
    (havl : 0 < s.avl) : StripsAt u K (done ++ [s.vl]) (rvvStrip u a b K s) := by
  rw [StripsAt, u.strips_of_pos hV havl] at h
  rw [StripsAt, List.append_assoc]
  exact h

/-! ## Strips of one length -/

def CountsAll (u : VectorUnit R VLMAX) (K : Nat) (a b : Nat → R) (p : Nat) (s : RvvState R) :
    Prop :=
  ∑ i ∈ range s.vl, s.v24 i = ∑ i ∈ range p, a i * b i ∧ 0 < s.vl ∧ ∃ done, StripsAt u K done s

theorem countsAll_first (hV : 1 ≤ VLMAX) (hK : 1 ≤ K) (u : VectorUnit R VLMAX)
    (v : Nat → Lanes R) (a b : Nat → R) :
    CountsAll u K a b (u.vsetvli K) (rvvStrip u a b K (rvvStart v K)) := by
  refine ⟨sum_congr rfl fun i hi => ?_, (u.vsetvli_allowed K).pos hV hK, [],
    stripsAt_first hV hK v⟩
  exact rvvStrip_first (rvvStart_at v K) (mem_range.mp hi)

theorem CountsAll.strip (h : CountsAll u K a b p s) (hV : 1 ≤ VLMAX)
    (hpair : (u.strips K).Pairwise (· ≤ ·)) (hat : RvvAt K p s) (hp : 0 < p) (havl : 0 < s.avl) :
    CountsAll u K a b (p + u.vsetvli s.avl) (rvvStrip u a b K s) := by
  obtain ⟨hsum, -, done, hstrips⟩ := h
  -- the strip has the lanes of the one before
  have hvl : s.vl = u.vsetvli s.avl := by
    have heq := u.eq_of_pairwise hV hpair
    rw [hstrips, u.strips_of_pos hV havl] at heq
    rw [heq s.vl (by simp), heq (u.vsetvli s.avl) (by simp)]
  have hlanes : ∀ i ∈ range (u.vsetvli s.avl),
      (rvvStrip u a b K s).v24 i = s.v24 i + a (p + i) * b (p + i) := fun i hi =>
    rvvStrip_next hat hp (mem_range.mp hi)
  refine ⟨?_, (u.vsetvli_allowed s.avl).pos hV havl, _, hstrips.strip hV havl⟩
  rw [sum_range_add, ← hsum, hvl, ← sum_add_distrib]
  exact sum_congr rfl hlanes

theorem fdotpRvv32b_agrees_of_pairwise (hV : 1 ≤ VLMAX) (hK : 1 ≤ K) (u : VectorUnit R VLMAX)
    (hpair : (u.strips K).Pairwise (· ≤ ·)) (v : Nat → Lanes R) (a b : Nat → R) :
    ∃ n r, fdotpRvv32b n u v a b K = some r ∧ r.Agrees a b K := by
  obtain ⟨n, s, hrun, hat, hsum, hvl, -⟩ :=
    fdotpRvv32b_total hV hK v (countsAll_first hV hK u v a b)
      fun p s hat hI hp havl => hI.strip hV hpair hat hp havl
  refine ⟨n, rvvReduce u s, hrun, Dot.agrees_iff.mpr ⟨?_, hat.reads_a, hat.reads_b⟩⟩
  rw [rvvReduce_c hvl, hsum]

theorem fdotpRvv32b_agrees (hV : 1 ≤ VLMAX) (hK : 1 ≤ K) (hfit : K ≤ VLMAX ∨ VLMAX ∣ K)
    (u : VectorUnit R VLMAX) (v : Nat → Lanes R) (a b : Nat → R) :
    ∃ n r, fdotpRvv32b n u v a b K = some r ∧ r.Agrees a b K :=
  fdotpRvv32b_agrees_of_pairwise hV hK u (u.pairwise_of_fits hV hfit) v a b

/-! ## A shorter last strip -/

def CountsStrips (u : VectorUnit R VLMAX) (K : Nat) (s : RvvState R) : Prop :=
  ∃ done, StripsAt u K done s ∧ 0 < s.vl ∧ ∀ i < s.vl, s.v24 i = ((done.length + 1 : Nat) : R)

theorem countsStrips_first (hV : 1 ≤ VLMAX) (hK : 1 ≤ K) (hab : ∀ j < K, a j * b j = 1)
    (v : Nat → Lanes R) : CountsStrips u K (rvvStrip u a b K (rvvStart v K)) := by
  refine ⟨[], stripsAt_first hV hK v, (u.vsetvli_allowed K).pos hV hK, fun i hi => ?_⟩
  have hi : i < u.vsetvli K := hi
  have hle := (u.vsetvli_allowed K).le_avl
  rw [rvvStrip_first (rvvStart_at v K) hi, hab i (by omega)]
  exact Nat.cast_one.symm

theorem CountsStrips.strip (h : CountsStrips u K s) (hV : 1 ≤ VLMAX)
    (hab : ∀ j < K, a j * b j = 1) (hat : RvvAt K p s) (hp : 0 < p) (havl : 0 < s.avl) :
    CountsStrips u K (rvvStrip u a b K s) := by
  obtain ⟨done, hstrips, -, hv24⟩ := h
  have hge := (u.strips_pairwise hV K).2
  rw [hstrips, u.strips_of_pos hV havl] at hge
  have hle : u.vsetvli s.avl ≤ s.vl :=
    (List.pairwise_cons.mp (List.pairwise_append.mp hge).2.1).1 _ List.mem_cons_self
  refine ⟨_, hstrips.strip hV havl, (u.vsetvli_allowed s.avl).pos hV havl, fun i hi => ?_⟩
  have hi : i < u.vsetvli s.avl := hi
  have hK := hat.avl_eq
  have hfit := (u.vsetvli_allowed s.avl).le_avl
  rw [rvvStrip_next hat hp hi, hv24 i (by omega), hab (p + i) (by omega), List.length_append,
    List.length_singleton, Nat.cast_succ (done.length + 1)]

theorem fdotpRvv32b_ones (hV : 1 ≤ VLMAX) (hK : 1 ≤ K) (hab : ∀ j < K, a j * b j = 1)
    (v : Nat → Lanes R) : ∃ n r done vl, fdotpRvv32b n u v a b K = some r ∧
      u.strips K = done ++ [vl] ∧ r.c = ((vl * (done.length + 1) : Nat) : R) := by
  obtain ⟨n, s, hrun, hat, done, hstrips, hvl, hv24⟩ :=
    fdotpRvv32b_total (I := fun _ => CountsStrips u K) hV hK v (countsStrips_first hV hK hab v)
      fun p s hat hI hp havl => hI.strip hV hab hat hp havl
  have havl : s.avl = 0 := by
    have hsum := hat.avl_eq
    omega
  rw [StripsAt, havl, u.strips_zero] at hstrips
  refine ⟨n, rvvReduce u s, done, s.vl, hrun, hstrips, ?_⟩
  rw [rvvReduce_c hvl, sum_congr rfl fun i hi => hv24 i (mem_range.mp hi), sum_const, card_range,
    nsmul_eq_mul, Nat.cast_mul]

theorem fdotpRvv32b_loses {u : VectorUnit ℤ VLMAX} {a b : Nat → ℤ} (hV : 1 ≤ VLMAX) (hK : 1 ≤ K)
    (hab : ∀ j < K, a j * b j = 1) (hpair : ¬ (u.strips K).Pairwise (· ≤ ·))
    (v : Nat → Lanes ℤ) : ∃ n r, fdotpRvv32b n u v a b K = some r ∧ r.c < K := by
  obtain ⟨n, r, done, vl, hrun, hlast, hc⟩ := fdotpRvv32b_ones (u := u) hV hK hab v
  refine ⟨n, r, hrun, ?_⟩
  rw [hc]
  exact Nat.cast_lt.mpr (u.last_mul_length_lt hV hlast hpair)

/-! ## When they agree -/

/-- The kernel ends, agrees with the plain one and stays within the arrays, with this choice of
the vector lengths and whatever registers and arrays hold. -/
def RvvAgrees (c : VlChoice VLMAX) (K : Nat) : Prop :=
  ∀ (R : Type) [CommRing R] (agnostic : Nat → Nat → Lanes R) (v : Nat → Lanes R) (a b : Nat → R),
    ∃ n r, fdotpRvv32b n ⟨c, agnostic⟩ v a b K = some r ∧ r.Agrees a b K

theorem fdotpRvv32b_det {v : Nat → Lanes R} {m n : Nat} {r r' : Dot R}
    (h : fdotpRvv32b m u v a b K = some r) (h' : fdotpRvv32b n u v a b K = some r') :
    r = r' := by
  obtain ⟨s, hs, rfl⟩ := Option.map_eq_some_iff.mp h
  obtain ⟨s', hs', rfl⟩ := Option.map_eq_some_iff.mp h'
  rw [doWhile_det hs hs']

def greedy (VLMAX : Nat) : VlChoice VLMAX where
  vsetvli := fun avl => min avl VLMAX
  vsetvli_allowed := vlAllowed_min VLMAX

theorem greedy_pairwise_iff (hV : 1 ≤ VLMAX) :
    ((greedy VLMAX).strips K).Pairwise (· ≤ ·) ↔ K ≤ VLMAX ∨ VLMAX ∣ K := by
  refine ⟨fun h => ?_, (greedy VLMAX).pairwise_of_fits hV⟩
  have hdvd : min K VLMAX ∣ K := (greedy VLMAX).dvd_of_pairwise hV h
  rcases Nat.le_total K VLMAX with hle | hge
  · exact .inl hle
  · rw [min_eq_right hge] at hdvd
    exact .inr hdvd

def greedyUnit (VLMAX : Nat) : VectorUnit ℤ VLMAX := ⟨greedy VLMAX, fun _ _ _ => 0⟩

/-- The kernel agrees with the plain one just if no strip is shorter than one before it. -/
theorem fdotpRvv32b_agrees_iff (hV : 1 ≤ VLMAX) (hK : 1 ≤ K) (c : VlChoice VLMAX) :
    RvvAgrees c K ↔ (c.strips K).Pairwise (· ≤ ·) := by
  constructor
  · intro h
    by_contra hpair
    obtain ⟨n, r, hr, hagree⟩ := h ℤ (fun _ _ _ => 0) (fun _ _ => 0) (fun _ => 1) fun _ => 1
    obtain ⟨n', r', hr', hlost⟩ := fdotpRvv32b_loses (u := ⟨c, fun _ _ _ => 0⟩)
      (a := fun _ => 1) (b := fun _ => 1) hV hK (fun _ _ => mul_one 1) hpair fun _ _ => 0
    obtain rfl := fdotpRvv32b_det hr hr'
    rw [hagree.2.1] at hlost
    simp at hlost
  · intro hpair R _ agnostic v a b
    exact fdotpRvv32b_agrees_of_pairwise hV hK ⟨c, agnostic⟩ hpair v a b

def halves : VlChoice 4 where
  vsetvli avl := if avl = 6 then 3 else min avl 4
  vsetvli_allowed avl := by
    split_ifs with h
    · rw [h]
      decide
    · exact vlAllowed_min 4 avl

theorem fdotpRvv32b_agrees_iff_six : RvvAgrees halves 6 ∧ ¬ RvvAgrees (greedy 4) 6 :=
  ⟨(fdotpRvv32b_agrees_iff (by decide) (by decide) halves).mpr (by decide), fun h =>
    absurd ((fdotpRvv32b_agrees_iff (by decide) (by decide) (greedy 4)).mp h) (by decide)⟩

theorem fdotpRvv32b_five :
    fdotpRvv32b 2 (greedyUnit 4) (fun _ _ => 0) (fun _ => 1) (fun _ => 1) 5 =
        some ⟨2, [0, 1, 2, 3, 4], [0, 1, 2, 3, 4]⟩ ∧
      (fdotpNaive32b (fun _ => (1 : ℤ)) (fun _ => 1) 5).c = 5 ∧ ¬ RvvAgrees (greedy 4) 5 := by
  have htwo : fdotpRvv32b 2 (greedyUnit 4) (fun _ _ => 0) (fun _ => 1) (fun _ => 1) 5 =
      some ⟨2, [0, 1, 2, 3, 4], [0, 1, 2, 3, 4]⟩ := by decide
  refine ⟨htwo, by decide, fun h => ?_⟩
  obtain ⟨n, r, hr, hagree⟩ := h ℤ (fun _ _ _ => 0) (fun _ _ => 0) (fun _ => 1) fun _ => 1
  have hc := hagree.1
  rw [fdotpRvv32b_det hr htwo] at hc
  exact absurd hc (by decide)

end HeroTools.Apps
