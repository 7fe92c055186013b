import LineArt.Proofs.Decimal.Shortest

/-!
# The interval of a binary number

The search for a shortest decimal compares natural numbers.  Read as rational numbers, they
say that the decimal rounds to its number, that it is no further from it than a step of its
grid, and that the grid is as coarse as the format allows.
-/

namespace LineArt.Decimal

theorem pow_toNat {a : ℚ} (ha : a ≠ 0) (n : ℤ) : a ^ n.toNat = a ^ n * a ^ (-n).toNat := by
  rw [← zpow_natCast, ← zpow_natCast, ← zpow_add₀ ha]
  congr 1
  omega

theorem lt_pow_length_digits (n : ℕ) : n < 10 ^ (digits n).length := by
  fun_induction digits n with
  | case1 n h =>
    rw [List.length_singleton, Nat.pow_one]
    exact h
  | case2 n h ih =>
    rw [List.length_append, List.length_singleton, Nat.pow_succ]
    omega

def Scaled.value (d : Scaled) : ℚ := d.significand * 10 ^ d.exponent

namespace Binary

variable (b : Binary) (tie : Tie) (k : ℤ)

def value : ℚ := b.mantissa * 2 ^ b.exponent

/-- A number of the interval that rounds to the binary number. -/
structure Contains (v : ℚ) : Prop where
  lower : b.lower * 2 ^ (b.exponent - 2) ≤ v
  upper : v ≤ b.upper * 2 ^ (b.exponent - 2)
  even_of_lower : v = b.lower * 2 ^ (b.exponent - 2) → Even b.mantissa
  even_of_upper : v = b.upper * 2 ^ (b.exponent - 2) → Even b.mantissa

theorem value_eq : b.value = 4 * b.mantissa * 2 ^ (b.exponent - 2) := by
  unfold value
  rw [zpow_sub₀ two_ne_zero]
  norm_num
  ring

/-! ### Weights -/

/-- What both weights are multiplied by, to be natural numbers. -/
def clearing : ℚ := 10 ^ (-k).toNat * 2 ^ (2 - b.exponent).toNat

theorem clearing_pos : 0 < b.clearing k := by
  unfold clearing
  positivity

theorem cast_quarter : (b.quarter k : ℚ) = 2 ^ (b.exponent - 2) * b.clearing k := by
  have hpow := pow_toNat two_ne_zero (b.exponent - 2)
  rw [neg_sub] at hpow
  show ((2 ^ (b.exponent - 2).toNat * 10 ^ (-k).toNat : ℕ) : ℚ) = _
  unfold clearing
  push_cast
  rw [hpow]
  ring

theorem cast_grid : (b.grid k : ℚ) = 10 ^ k * b.clearing k := by
  have hpow := pow_toNat (a := 10) (by norm_num) k
  show ((10 ^ k.toNat * 2 ^ (2 - b.exponent).toNat : ℕ) : ℚ) = _
  unfold clearing
  push_cast
  rw [hpow]
  ring

theorem quarters_le_grid (c n : ℕ) :
    c * b.quarter k ≤ n * b.grid k ↔ (c : ℚ) * 2 ^ (b.exponent - 2) ≤ n * 10 ^ k := by
  rw [← Nat.cast_le (α := ℚ), Nat.cast_mul, Nat.cast_mul, cast_quarter, cast_grid, ← mul_assoc,
    ← mul_assoc, mul_le_mul_iff_of_pos_right (b.clearing_pos k)]

theorem grid_le_quarters (c n : ℕ) :
    n * b.grid k ≤ c * b.quarter k ↔ (n : ℚ) * 10 ^ k ≤ c * 2 ^ (b.exponent - 2) := by
  rw [← Nat.cast_le (α := ℚ), Nat.cast_mul, Nat.cast_mul, cast_quarter, cast_grid, ← mul_assoc,
    ← mul_assoc, mul_le_mul_iff_of_pos_right (b.clearing_pos k)]

theorem owns_iff (n : ℕ) : b.owns k n = true ↔ b.Contains (n * 10 ^ k) := by
  have hlow := b.quarters_le_grid k b.lower n
  have hhigh := b.grid_le_quarters k b.upper n
  have hlow' := not_congr (b.grid_le_quarters k b.lower n)
  have hhigh' := not_congr (b.quarters_le_grid k b.upper n)
  rw [not_le, not_le] at hlow' hhigh'
  unfold owns
  dsimp only
  split
  · rename_i heven
    rw [Bool.and_eq_true, decide_eq_true_iff, decide_eq_true_iff, hlow, hhigh]
    have heven := Nat.even_iff.2 heven
    exact ⟨fun h => ⟨h.1, h.2, fun _ => heven, fun _ => heven⟩, fun h => ⟨h.lower, h.upper⟩⟩
  · rename_i hodd
    rw [Bool.and_eq_true, decide_eq_true_iff, decide_eq_true_iff, hlow', hhigh']
    have hodd : ¬ Even b.mantissa := fun h => hodd (Nat.even_iff.1 h)
    constructor
    · intro h
      exact ⟨h.1.le, h.2.le, fun heq => absurd heq h.1.ne', fun heq => absurd heq h.2.ne⟩
    · intro h
      exact ⟨h.lower.lt_of_ne fun heq => hodd (h.even_of_lower heq.symm),
        h.upper.lt_of_ne fun heq => hodd (h.even_of_upper heq)⟩

/-! ### Grid points around the number -/

/-- The last grid point that is not above the number. -/
def below : ℕ := 4 * b.mantissa * b.quarter k / b.grid k

theorem grid_pos : 0 < b.grid k :=
  Nat.mul_pos (Nat.pow_pos (by decide)) (Nat.pow_pos (by decide))

theorem below_le : (b.below k : ℚ) * 10 ^ k ≤ b.value := by
  rw [value_eq]
  have h := (b.grid_le_quarters k (4 * b.mantissa) (b.below k)).1 (Nat.div_mul_le_self _ _)
  push_cast at h
  exact h

theorem value_lt_succ_below : b.value < (b.below k + 1) * 10 ^ k := by
  rw [value_eq]
  have hlt := Nat.lt_mul_div_succ (4 * b.mantissa * b.quarter k) (b.grid_pos k)
  rw [Nat.mul_comm (b.grid k)] at hlt
  have h := not_le.1 (mt (b.grid_le_quarters k (4 * b.mantissa) (b.below k + 1)).2 (not_le.2 hlt))
  push_cast at h
  exact h

/-- A grid point that is taken is one of the two around the number. -/
theorem onGrid?_eq_some {p : ℕ} (h : b.onGrid? tie k = some p) :
    b.Contains (p * 10 ^ k) ∧ (p = b.below k ∨ p = b.below k + 1) := by
  refine ⟨(b.owns_iff k p).1 (b.owns_of_onGrid? tie k h), ?_⟩
  unfold onGrid? at h
  rw [show 4 * b.mantissa * b.quarter k / b.grid k = b.below k from rfl] at h
  dsimp only at h
  split at h
  · obtain rfl := Option.some.inj h
    exact b.nearer_eq_or tie k (b.below k)
  · exact .inl (Option.some.inj h).symm
  · exact .inr (Option.some.inj h).symm
  · contradiction

/-- A grid point that is taken is no further from the number than a step of the grid. -/
theorem abs_sub_le_of_onGrid? {p : ℕ} (h : b.onGrid? tie k = some p) :
    |(p : ℚ) * 10 ^ k - b.value| ≤ 10 ^ k := by
  have hlow := b.below_le k
  have hhigh := b.value_lt_succ_below k
  rw [abs_le]
  obtain ⟨-, rfl | rfl⟩ := b.onGrid?_eq_some tie k h
  · have hpos : (0 : ℚ) < 10 ^ k := by positivity
    constructor <;> linarith
  · push_cast
    constructor <;> linarith

variable {b k}

theorem contains_of_lt {v : ℚ} (hlow : b.lower * 2 ^ (b.exponent - 2) < v)
    (hhigh : v < b.upper * 2 ^ (b.exponent - 2)) : b.Contains v where
  lower := hlow.le
  upper := hhigh.le
  even_of_lower h := absurd h hlow.ne'
  even_of_upper h := absurd h hhigh.ne

variable (b) in
theorem lt_upper : b.value < b.upper * 2 ^ (b.exponent - 2) := by
  have hlt : (4 * b.mantissa : ℚ) < b.upper := by
    unfold upper
    push_cast
    linarith
  rw [value_eq]
  exact mul_lt_mul_of_pos_right hlt (by positivity)

section Positive

variable (hpos : 0 < b.mantissa)

include hpos

theorem lower_lt : (b.lower : ℚ) * 2 ^ (b.exponent - 2) < b.value := by
  have hlt : b.lower < 4 * b.mantissa := by
    unfold lower
    split <;> omega
  have hlt : (b.lower : ℚ) < 4 * b.mantissa := by exact_mod_cast hlt
  rw [value_eq]
  exact mul_lt_mul_of_pos_right hlt (by positivity)

theorem lower_add_three_le : (b.lower : ℚ) + 3 ≤ b.upper := by
  have hle : b.lower + 3 ≤ b.upper := by
    unfold lower upper
    split <;> omega
  exact_mod_cast hle

/-- A grid whose step is at most half of the binary step has a point to take. -/
theorem exists_onGrid? (h : (10 : ℚ) ^ k ≤ 2 ^ (b.exponent - 1)) :
    ∃ p, b.onGrid? tie k = some p := by
  have hbelow := b.below_le k
  have habove := b.value_lt_succ_below k
  have hlow := lower_lt hpos
  have hhigh := b.lt_upper
  have hstep : (10 : ℚ) ^ k ≤ 2 * 2 ^ (b.exponent - 2) := by
    rw [← zpow_one_add₀ two_ne_zero]
    convert h using 2
    omega
  have hquarter : (0 : ℚ) < 2 ^ (b.exponent - 2) := by positivity
  have hwidth := mul_le_mul_of_nonneg_right (lower_add_three_le hpos) hquarter.le
  have howns : b.owns k (b.below k) = true ∨ b.owns k (b.below k + 1) = true := by
    rw [owns_iff, owns_iff]
    push_cast
    -- If the lower of the two points is too low, the upper one cannot be too high.
    by_cases hinside : (b.lower : ℚ) * 2 ^ (b.exponent - 2) < b.below k * 10 ^ k
    · exact .inl (contains_of_lt hinside (by linarith))
    · exact .inr (contains_of_lt (by linarith) (by linarith))
  unfold onGrid?
  rw [show 4 * b.mantissa * b.quarter k / b.grid k = b.below k from rfl]
  dsimp only
  split
  · exact ⟨_, rfl⟩
  · exact ⟨_, rfl⟩
  · exact ⟨_, rfl⟩
  · rename_i hnone hnone'
    rw [hnone, hnone'] at howns
    simp at howns

/-! ### The search -/

theorem contains_value : b.Contains b.value := contains_of_lt (lower_lt hpos) b.lt_upper

end Positive

variable (b)

theorem value_exact : b.exact.value = b.value := by
  have hexp : b.exactGrid = -((-b.exponent).toNat : ℤ) := by
    unfold exactGrid
    omega
  have hpow := pow_toNat two_ne_zero b.exponent
  have hcast : (b.exact.significand : ℚ)
      = b.mantissa * 2 ^ b.exponent.toNat * 5 ^ (-b.exponent).toNat := by
    show ((b.mantissa * 2 ^ b.exponent.toNat * 5 ^ (-b.exponent).toNat : ℕ) : ℚ) = _
    push_cast
    rfl
  unfold Scaled.value value
  rw [hcast, show b.exact.exponent = b.exactGrid from rfl, hexp, hpow, zpow_neg, zpow_natCast,
    show (10 : ℚ) = 2 * 5 by norm_num, mul_pow]
  field_simp

variable {b}

/-- The decimal that a search finds rounds to the number and is within a step of its grid. -/
theorem search_near (hpos : 0 < b.mantissa) (n : ℕ) :
    b.Contains (b.search tie n).value ∧
      |(b.search tie n).value - b.value| ≤ 10 ^ (b.search tie n).exponent := by
  induction n with
  | zero =>
    -- A search that finds nothing ends with the number itself.
    show b.Contains b.exact.value ∧ |b.exact.value - b.value| ≤ 10 ^ b.exact.exponent
    rw [value_exact, sub_self, abs_zero]
    exact ⟨contains_value hpos, by positivity⟩
  | succ n ih =>
    unfold search
    dsimp only
    split
    · rename_i p hp
      exact ⟨(b.onGrid?_eq_some tie _ hp).1, b.abs_sub_le_of_onGrid? tie _ hp⟩
    · exact ih

theorem exactGrid_le_search (n : ℕ) : b.exactGrid ≤ (b.search tie n).exponent := by
  induction n with
  | zero => exact le_rfl
  | succ n ih =>
    unfold search
    dsimp only
    split
    · show b.exactGrid ≤ b.exactGrid + (n + 1 : ℕ)
      omega
    · exact ih

/-- A search passes over no grid that has a point to take. -/
theorem le_search {p : ℕ} (hp : b.onGrid? tie k = some p) {n : ℕ} (hn : k ≤ b.exactGrid + n) :
    k ≤ (b.search tie n).exponent := by
  induction n with
  | zero => exact hn.trans (by simpa using exactGrid_le_search tie 0)
  | succ n ih =>
    unfold search
    dsimp only
    split
    · exact hn
    · -- Nothing was found on a grid, so it is not the one that has a point.
      rename_i hnone
      apply ih
      have hne : k ≠ b.exactGrid + (n + 1 : ℕ) := by
        rintro rfl
        rw [hnone] at hp
        contradiction
      omega

/-! ### The shortest decimal -/

section Shortest

variable (hpos : 0 < b.mantissa)

include hpos

theorem shortest_near :
    b.Contains (b.shortest tie).value ∧
      |(b.shortest tie).value - b.value| ≤ 10 ^ (b.shortest tie).exponent :=
  search_near tie hpos _

theorem le_wholeDigits (h : (10 : ℚ) ^ k ≤ 2 ^ (b.exponent - 1)) : k ≤ b.wholeDigits := by
  by_cases hk : k ≤ 0
  · omega
  have hone : (1 : ℚ) < 10 ^ k := one_lt_zpow₀ (by norm_num) (by omega)
  have hexp : 0 < b.exponent - 1 := by
    by_contra hneg
    have hle : (2 : ℚ) ^ (b.exponent - 1) ≤ 1 := zpow_le_one_of_nonpos₀ one_le_two (by omega)
    linarith
  obtain ⟨i, hi⟩ := Int.eq_ofNat_of_zero_le (a := k) (by omega)
  obtain ⟨j, hj⟩ := Int.eq_ofNat_of_zero_le (a := b.exponent - 1) (by omega)
  rw [hi, hj, zpow_natCast, zpow_natCast] at h
  have hpow : 10 ^ i ≤ 2 ^ j := by exact_mod_cast h
  have htop : b.exponent.toNat = j + 1 := by omega
  have hlow : (-b.exponent).toNat = 0 := by omega
  have hlength := lt_pow_length_digits (b.mantissa * 2 ^ b.exponent.toNat / 2 ^ (-b.exponent).toNat)
  rw [show (digits (b.mantissa * 2 ^ b.exponent.toNat / 2 ^ (-b.exponent).toNat)).length
    = b.wholeDigits from rfl, htop, hlow, Nat.pow_zero, Nat.div_one] at hlength
  have hle : 2 ^ j ≤ b.mantissa * 2 ^ (j + 1) := by
    rw [Nat.pow_succ]
    nlinarith [Nat.two_pow_pos j]
  have hlt := (Nat.pow_lt_pow_iff_right (by decide)).1 ((hpow.trans hle).trans_lt hlength)
  omega

/-- The grid of the shortest decimal is no finer than half of the binary step. -/
theorem le_shortest (h : (10 : ℚ) ^ k ≤ 2 ^ (b.exponent - 1)) :
    k ≤ (b.shortest tie).exponent := by
  obtain ⟨p, hp⟩ := exists_onGrid? tie hpos h
  apply le_search tie hp
  have hdigits := le_wholeDigits hpos h
  unfold exactGrid
  omega

theorem shortest_le :
    (b.shortest tie).value ≤ (2 * b.mantissa + 1) * 2 ^ (b.exponent - 1) := by
  have h := (shortest_near tie hpos).1.upper
  unfold upper at h
  rw [show b.exponent - 1 = b.exponent - 2 + 1 by ring, zpow_add_one₀ two_ne_zero]
  push_cast at h
  linarith

/-- The coarsest decimal step that is no finer than half of the binary step is a lower bound. -/
theorem exists_step_le_shortest :
    ∃ K : ℤ, (2 : ℚ) ^ (b.exponent - 1) < 10 ^ (K + 1) ∧ K ≤ (b.shortest tie).exponent := by
  obtain ⟨K, hK, hK'⟩ := exists_mem_Ico_zpow (y := (10 : ℚ))
    (show (0 : ℚ) < 2 ^ (b.exponent - 1) by positivity) (by norm_num)
  exact ⟨K, hK', le_shortest tie hpos hK⟩

section Bounds

variable (hmantissa : b.mantissa < 2 ^ 24)

include hmantissa

theorem shortest_lt : (b.shortest tie).value < 2 ^ 25 * 2 ^ (b.exponent - 1) := by
  have htop : (2 * b.mantissa + 1 : ℚ) < 2 ^ 25 := by
    have hlt : 2 * b.mantissa + 1 < 2 ^ 25 := by omega
    exact_mod_cast hlt
  exact (shortest_le tie hpos).trans_lt (mul_lt_mul_of_pos_right htop (by positivity))

theorem significand_shortest_lt : (b.shortest tie).significand < 2 ^ 29 := by
  have hvalue := shortest_lt tie hpos hmantissa
  obtain ⟨K, hK, hle⟩ := exists_step_le_shortest tie hpos
  unfold Scaled.value at hvalue
  generalize (b.shortest tie).significand = p at hvalue ⊢
  generalize (b.shortest tie).exponent = k at hvalue hle
  have hten : (0 : ℚ) < 10 ^ K := by positivity
  have hgrid : (p : ℚ) * 10 ^ K ≤ p * 10 ^ k :=
    mul_le_mul_of_nonneg_left (zpow_le_zpow_right₀ (by norm_num) hle) (Nat.cast_nonneg p)
  have hscaled : (2 : ℚ) ^ 25 * 2 ^ (b.exponent - 1) < 2 ^ 25 * (10 * 10 ^ K) := by
    rw [zpow_add_one₀ (by norm_num), mul_comm (10 ^ K : ℚ)] at hK
    exact mul_lt_mul_of_pos_left hK (by norm_num)
  have hlt : (p : ℚ) * 10 ^ K < (2 ^ 25 * 10) * 10 ^ K := by linarith
  have hlt : p < 2 ^ 25 * 10 := by exact_mod_cast lt_of_mul_lt_mul_right hlt hten.le
  omega

theorem exponent_shortest_le (hhigh : b.exponent ≤ 104) : (b.shortest tie).exponent ≤ 38 := by
  have hvalue := shortest_lt tie hpos hmantissa
  have hmoderate : (b.shortest tie).Moderate := shortest_moderate hpos hmantissa hhigh
  have hone : (1 : ℚ) ≤ (b.shortest tie).significand := Nat.one_le_cast.2 hmoderate.pos
  have hpoint : (10 : ℚ) ^ (b.shortest tie).exponent ≤ (b.shortest tie).value :=
    le_mul_of_one_le_left (by positivity) hone
  have hstep : (2 : ℚ) ^ (b.exponent - 1) ≤ 2 ^ (103 : ℤ) :=
    zpow_le_zpow_right₀ one_le_two (by omega)
  have hmax : (2 : ℚ) ^ 25 * 2 ^ (103 : ℤ) < 10 ^ (39 : ℤ) := by norm_num
  have hlt : (10 : ℚ) ^ (b.shortest tie).exponent < 10 ^ (39 : ℤ) := by linarith
  have hlt := (zpow_lt_zpow_iff_right₀ (by norm_num)).1 hlt
  omega

end Bounds

theorem le_exponent_shortest (hlow : -149 ≤ b.exponent) : -46 ≤ (b.shortest tie).exponent := by
  obtain ⟨K, hK, hle⟩ := exists_step_le_shortest tie hpos
  have hmin : (10 : ℚ) ^ (-46 : ℤ) ≤ 2 ^ (-150 : ℤ) := by norm_num
  have hstep : (2 : ℚ) ^ (-150 : ℤ) ≤ 2 ^ (b.exponent - 1) :=
    zpow_le_zpow_right₀ one_le_two (by omega)
  have hlt := (zpow_lt_zpow_iff_right₀ (by norm_num)).1 ((hmin.trans hstep).trans_lt hK)
  omega

end Shortest

end Binary

end LineArt.Decimal
