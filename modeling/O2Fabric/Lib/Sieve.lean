/-
  O2Fabric.Lib.Sieve

  Which numbers a sieve strikes out, and from where on.

  A prime strikes out its multiples from its square on.  A number is prime where
  no prime strikes it out, and then it is enough to strike with the primes whose
  squares are in reach.
-/

import Mathlib.Data.List.Perm.Subperm
import Mathlib.Tactic.NormNum.Prime

namespace O2Fabric.Sieve

/-! ## Striking out -/

/-- The number is a multiple of `p` from its square on. -/
def Struck (p m : Nat) : Prop := p ∣ m ∧ p * p ≤ m

variable {p m : Nat}

theorem lt_of_struck (hp : 2 ≤ p) (h : Struck p m) : p < m :=
  calc p < p * 2 := by omega
    _ ≤ p * p := Nat.mul_le_mul_left p hp
    _ ≤ m := h.2

/-- The least factor of a composite number strikes it out, and nothing strikes out a prime. -/
theorem not_prime_iff_struck (hm : 2 ≤ m) :
    ¬ m.Prime ↔ ∃ p, p.Prime ∧ Struck p m := by
  constructor
  · intro hcomposite
    have hsquare : m.minFac ^ 2 ≤ m := Nat.minFac_sq_le_self (by omega) hcomposite
    rw [sq] at hsquare
    exact ⟨m.minFac, Nat.minFac_prime (by omega), Nat.minFac_dvd m, hsquare⟩
  · rintro ⟨p, hp, hstruck⟩ hprime
    have hsame : p = m := (Nat.prime_dvd_prime_iff_eq hp hprime).mp hstruck.1
    have hlt := lt_of_struck hp.two_le hstruck
    omega

/-! ## The primes below a bound -/

/-- In ascending order. -/
def primesBelow (n : Nat) : List Nat := (List.range n).filter Nat.Prime

variable {n : Nat}

theorem mem_primesBelow : p ∈ primesBelow n ↔ p < n ∧ p.Prime := by
  rw [primesBelow, List.mem_filter, List.mem_range, decide_eq_true_iff]

theorem primesBelow_succ_prime (h : n.Prime) :
    primesBelow (n + 1) = primesBelow n ++ [n] := by
  rw [primesBelow, List.range_succ, List.filter_append]
  simp [h, primesBelow]

theorem primesBelow_succ_composite (h : ¬ n.Prime) :
    primesBelow (n + 1) = primesBelow n := by
  rw [primesBelow, List.range_succ, List.filter_append]
  simp [h, primesBelow]

/-- Later primes of the list are larger. -/
theorem primesBelow_sorted (n : Nat) : (primesBelow n).Pairwise (· < ·) :=
  List.pairwise_lt_range.filter _

def StruckBy (ps : List Nat) (m : Nat) : Prop := ∃ p ∈ ps, Struck p m

theorem struckBy_concat {ps : List Nat} :
    StruckBy (ps ++ [p]) m ↔ StruckBy ps m ∨ Struck p m := by
  unfold StruckBy
  simp only [List.mem_append, List.mem_singleton, or_and_right, exists_or, exists_eq_left]

/-- Numbers whose squares are out of reach strike nothing out: of an ascending list those before
    the first of them are enough. -/
theorem struckBy_take {ps : List Nat} (hsorted : ps.Pairwise (· < ·)) {k : Nat}
    (hp : ps[k]? = some p) (hm : m < p * p) : StruckBy (ps.take k) m ↔ StruckBy ps m := by
  constructor
  · rintro ⟨q, hq, hstruck⟩
    exact ⟨q, List.mem_of_mem_take hq, hstruck⟩
  · rintro ⟨q, hq, hstruck⟩
    obtain ⟨j, hj, rfl⟩ := List.getElem_of_mem hq
    obtain ⟨hk, rfl⟩ := List.getElem?_eq_some_iff.mp hp
    refine ⟨ps[j], List.mem_take_iff_getElem.mpr ⟨j, ?_, rfl⟩, hstruck⟩
    by_contra hafter
    have hle : ps[k] ≤ ps[j] := by
      rcases Nat.lt_or_ge k j with hlt | hge
      · exact le_of_lt (List.pairwise_iff_getElem.mp hsorted k j hk hj hlt)
      · have hsame : k = j := by omega
        subst hsame
        exact Nat.le_refl _
    have hsquares := Nat.mul_le_mul hle hle
    have hreach := hstruck.2
    omega

/-- To tell primes below the square of `i` it is enough to strike with the primes below `i`. -/
theorem struckBy_primesBelow_iff {i : Nat} (hm : 2 ≤ m) (h : m < i * i) :
    StruckBy (primesBelow i) m ↔ ¬ m.Prime := by
  rw [not_prime_iff_struck hm]
  constructor
  · rintro ⟨p, hp, hstruck⟩
    exact ⟨p, (mem_primesBelow.mp hp).2, hstruck⟩
  · rintro ⟨p, hp, hstruck⟩
    refine ⟨p, mem_primesBelow.mpr ⟨?_, hp⟩, hstruck⟩
    by_contra hge
    have hsquares : i * i ≤ p * p := Nat.mul_le_mul (by omega) (by omega)
    have hle := hstruck.2
    omega

/-- A number that the primes below it leave is prime. -/
theorem struckBy_primesBelow_self (hm : 2 ≤ m) :
    StruckBy (primesBelow m) m ↔ ¬ m.Prime :=
  struckBy_primesBelow_iff hm (by
    have hsquare : 2 * m ≤ m * m := Nat.mul_le_mul_right m hm
    omega)

/-! ## Where to start -/

/-- The first multiple of `p` at or above `lo`. -/
def firstMultiple (p lo : Nat) : Nat := (lo + p - 1) / p * p

variable {lo : Nat}

theorem firstMultiple_le : firstMultiple p lo ≤ lo + p - 1 := Nat.div_mul_le_self _ _

theorem firstMultiple_dvd (p lo : Nat) : p ∣ firstMultiple p lo := Nat.dvd_mul_left p _

theorem le_firstMultiple (hp : 0 < p) : lo ≤ firstMultiple p lo := by
  have hdiv := Nat.div_add_mod (lo + p - 1) p
  have hmod := Nat.mod_lt (lo + p - 1) hp
  rw [firstMultiple, Nat.mul_comm]
  omega

/-- One multiple follows another at that distance, and no other is between. -/
theorem eq_of_multiples {j v : Nat} (hj : p ∣ j) (hv : p ∣ v) (hle : j ≤ v) (hlt : v < j + p) :
    v = j := by
  have hdvd : p ∣ v - j := Nat.dvd_sub hv hj
  have hzero : v - j = 0 := Nat.eq_zero_of_dvd_of_lt hdvd (by omega)
  omega

theorem firstMultiple_le_of_dvd {v : Nat} (hp : 0 < p) (hv : p ∣ v) (hle : lo ≤ v) :
    firstMultiple p lo ≤ v := by
  have hfirst : firstMultiple p lo ≤ lo + p - 1 := firstMultiple_le
  by_contra hlt
  have hsame : firstMultiple p lo = v :=
    eq_of_multiples hv (firstMultiple_dvd p lo) (by omega) (by omega)
  omega

/-- Where to start striking with `p`, from `lo` on. -/
def firstStruck (p lo : Nat) : Nat := if p * p < lo then firstMultiple p lo else p * p

theorem firstStruck_dvd (p lo : Nat) : p ∣ firstStruck p lo := by
  unfold firstStruck
  split
  · exact firstMultiple_dvd p lo
  · exact Nat.dvd_mul_left p p

theorem le_firstStruck (hp : 0 < p) : lo ≤ firstStruck p lo := by
  unfold firstStruck
  split
  · exact le_firstMultiple hp
  · omega

/-- From `lo` on, the multiples from there are the ones struck out. -/
theorem struck_iff (hp : 0 < p) (hm : lo ≤ m) :
    Struck p m ↔ p ∣ m ∧ firstStruck p lo ≤ m := by
  unfold Struck firstStruck
  split
  · next hbelow =>
    constructor
    · rintro ⟨hdvd, -⟩
      exact ⟨hdvd, firstMultiple_le_of_dvd hp hdvd hm⟩
    · rintro ⟨hdvd, -⟩
      exact ⟨hdvd, by omega⟩
  · exact Iff.rfl

/-- Of the numbers from `origin` on, `after` has what `before` has and the multiples of `p` from
    `first` to before `j`. -/
def StruckUpto (before after : Nat → Bool) (p first origin j : Nat) : Prop :=
  ∀ v, after v = true ↔ before v = true ∨ (p ∣ origin + v ∧ first ≤ origin + v ∧ origin + v < j)

theorem StruckUpto.start (before : Nat → Bool) (p origin j : Nat) :
    StruckUpto before before p j origin j :=
  fun _ => ⟨.inl, fun h => h.resolve_right fun hnone => by omega⟩

/-- The multiple `j` struck out as well. -/
theorem StruckUpto.next {before after after' : Nat → Bool} {first origin j : Nat}
    (h : StruckUpto before after p first origin j) (hp : 0 < p) (hdvd : p ∣ j) (hfirst : first ≤ j)
    (horigin : origin ≤ j) (hnext : ∀ v, after' v = (after v || decide (v = j - origin))) :
    StruckUpto before after' p first origin (j + p) := by
  intro v
  rw [hnext, Bool.or_eq_true, decide_eq_true_iff, h v, or_assoc]
  apply or_congr_right
  constructor
  · rintro (⟨hv, hle, hlt⟩ | rfl)
    · exact ⟨hv, hle, by omega⟩
    · rw [Nat.add_sub_cancel' horigin]
      exact ⟨hdvd, hfirst, by omega⟩
  · rintro ⟨hv, hle, hlt⟩
    by_cases hbelow : origin + v < j
    · exact .inl ⟨hv, hle, hbelow⟩
    · have hsame := eq_of_multiples hdvd hv (by omega) hlt
      exact .inr (by omega)

/-! ## How many there are -/

/-- The product of the first eight primes. -/
def PRIMORIAL : Nat := 9699690

/-- A prime is one of the first eight or has no factor in common with their product. -/
theorem coprime_of_prime (hp : p.Prime) (h : 20 ≤ p) : p.gcd PRIMORIAL = 1 := by
  have hno : ∀ q, q.Prime → q < 20 → Nat.Coprime p q := by
    intro q hq hle
    exact (Nat.coprime_primes hp hq).mpr (by omega)
  have h2 := hno 2 (by norm_num) (by omega)
  have h3 := hno 3 (by norm_num) (by omega)
  have h5 := hno 5 (by norm_num) (by omega)
  have h7 := hno 7 (by norm_num) (by omega)
  have h11 := hno 11 (by norm_num) (by omega)
  have h13 := hno 13 (by norm_num) (by omega)
  have h17 := hno 17 (by norm_num) (by omega)
  have h19 := hno 19 (by norm_num) (by omega)
  exact ((((((h2.mul_right h3).mul_right h5).mul_right h7).mul_right h11).mul_right h13).mul_right
    h17).mul_right h19

/-- How many of the `2 ^ depth` numbers from `lo` on have no factor in common with the product,
    counted by halves and with the operations that the kernel has for numbers. -/
def coprimeFrom : Nat → Nat → Nat
  | 0, lo => Nat.sub 1 (Nat.sub (Nat.gcd lo PRIMORIAL) 1)
  | depth + 1, lo =>
    Nat.add (coprimeFrom depth lo) (coprimeFrom depth (Nat.add lo (Nat.pow 2 depth)))

theorem coprimeFrom_eq (depth lo : Nat) : coprimeFrom depth lo
    = (List.range' lo (2 ^ depth)).countP fun i => i.gcd PRIMORIAL = 1 := by
  induction depth generalizing lo with
  | zero =>
    have hpos : 0 < lo.gcd PRIMORIAL := Nat.gcd_pos_of_pos_right lo (by decide)
    show 1 - (lo.gcd PRIMORIAL - 1) = _
    rw [Nat.pow_zero, List.range'_one, List.countP_singleton]
    simp only [decide_eq_true_eq]
    split <;> omega
  | succ depth ih =>
    have hsplit : List.range' lo (2 ^ (depth + 1))
        = List.range' lo (2 ^ depth) ++ List.range' (lo + 2 ^ depth) (2 ^ depth) := by
      rw [Nat.pow_succ, Nat.mul_two, List.range'_append_1]
    show coprimeFrom depth lo + coprimeFrom depth (lo + 2 ^ depth) = _
    rw [ih, ih, hsplit, List.countP_append]

/-- The same of several such stretches, one after another. -/
def coprimeOver : List Nat → Nat → Nat
  | [], _ => 0
  | depth :: rest, lo => coprimeFrom depth lo + coprimeOver rest (lo + 2 ^ depth)

theorem coprimeOver_eq (depths : List Nat) (lo : Nat) : coprimeOver depths lo
    = (List.range' lo (depths.map (2 ^ ·)).sum).countP fun i => i.gcd PRIMORIAL = 1 := by
  induction depths generalizing lo with
  | nil => rfl
  | cons depth rest ih =>
    rw [coprimeOver, coprimeFrom_eq, ih, List.map_cons, List.sum_cons, ← List.range'_append_1,
      List.countP_append]

/-- There are no more primes than numbers that may be. -/
theorem length_primesBelow_le {bound : Nat} (depths : List Nat)
    (h : bound ≤ (depths.map (2 ^ ·)).sum) :
    (primesBelow bound).length ≤ 20 + coprimeOver depths 0 := by
  have hsmall : (primesBelow bound).countP (· < 20) ≤ 20 := by
    have hsub : (primesBelow bound).filter (· < 20) ⊆ List.range 20 := by
      intro p hp
      exact List.mem_range.mpr (of_decide_eq_true (List.mem_filter.mp hp).2)
    have hnodup : ((primesBelow bound).filter (· < 20)).Nodup :=
      (List.nodup_range.filter _).filter _
    rw [List.countP_eq_length_filter]
    exact (List.subperm_of_subset hnodup hsub).length_le.trans_eq List.length_range
  have hlarge : (primesBelow bound).countP (fun p => !decide (p < 20)) ≤ coprimeOver depths 0 := by
    have hsub : (primesBelow bound).Sublist (List.range' 0 (depths.map (2 ^ ·)).sum) := by
      rw [← List.range_eq_range']
      exact List.filter_sublist.trans (List.range_sublist.mpr h)
    rw [coprimeOver_eq]
    refine le_trans (List.countP_mono_left fun p hp hnot => ?_) hsub.countP_le
    have hle : ¬ p < 20 := by simpa using hnot
    exact decide_eq_true (coprime_of_prime (mem_primesBelow.mp hp).2 (by omega))
  have hsplit : (primesBelow bound).length = (primesBelow bound).countP (· < 20)
      + (primesBelow bound).countP (fun p => !decide (p < 20)) := by
    rw [List.length_eq_countP_add_countP fun p => decide (p < 20)]
    simp only [decide_eq_true_eq, decide_not]
  omega

end O2Fabric.Sieve
