import Mathlib

/-!
# Near coincidences of two grids

Let a decimal step be worth `a` and a binary step `b`.  The pairs of step counts form a
lattice, on which the gap between the two sides is linear.  Two pairs that generate the
lattice and have small gaps themselves leave only a few pairs with both a small gap and few
steps, and Euclid's algorithm on `a` and `b` finds such generators.
-/

namespace LineArt.Decimal

/-- So many decimal steps against so many binary ones. -/
structure Steps where
  decimal : ℤ
  binary : ℤ
deriving DecidableEq

namespace Steps

/-- How far the decimal side reaches beyond the binary one. -/
def gap (a b : ℤ) (s : Steps) : ℤ := s.decimal * a - s.binary * b

def cross (s t : Steps) : ℤ := s.decimal * t.binary - t.decimal * s.binary

def combine (i j : ℤ) (u v : Steps) : Steps :=
  ⟨i * u.decimal + j * v.decimal, i * u.binary + j * v.binary⟩

/-- Whether two pairs generate all pairs. -/
def Generate (u v : Steps) : Prop := cross u v = 1 ∨ cross u v = -1

variable {a b : ℤ} {s u v : Steps}

theorem Generate.exists_combine (h : Generate u v) (s : Steps) :
    ∃ i j, s = combine i j u v ∧ |i| = |cross s v| ∧ |j| = |cross u s| := by
  obtain ⟨p, n⟩ := s
  unfold Generate cross at h
  rcases h with h | h
  · refine ⟨cross ⟨p, n⟩ v, cross u ⟨p, n⟩, ?_, rfl, rfl⟩
    unfold cross combine
    congr 1
    · linear_combination -p * h
    · linear_combination -n * h
  · refine ⟨-cross ⟨p, n⟩ v, -cross u ⟨p, n⟩, ?_, abs_neg _, abs_neg _⟩
    unfold cross combine
    congr 1
    · linear_combination p * h
    · linear_combination n * h

theorem mul_cross (a b : ℤ) (s v : Steps) :
    b * cross s v = v.decimal * gap a b s - s.decimal * gap a b v := by
  unfold cross gap
  ring

/-- Two different sums of few steps that nearly coincide, the binary one with an odd count. -/
structure Near (a b : ℤ) (s : Steps) : Prop where
  pos : 0 < s.decimal
  le : s.decimal * a ≤ 2 ^ 25 * b
  odd : s.binary % 2 = 1
  ne : gap a b s ≠ 0
  close : 2 ^ 30 * |gap a b s| ≤ 9 * b

instance (a b : ℤ) (s : Steps) : Decidable (Near a b s) :=
  decidable_of_iff (0 < s.decimal ∧ s.decimal * a ≤ 2 ^ 25 * b ∧ s.binary % 2 = 1 ∧ gap a b s ≠ 0 ∧
      2 ^ 30 * |gap a b s| ≤ 9 * b)
    ⟨fun h => ⟨h.1, h.2.1, h.2.2.1, h.2.2.2.1, h.2.2.2.2⟩,
      fun h => ⟨h.pos, h.le, h.odd, h.ne, h.close⟩⟩

/-- A bound on the multiple of one generator, by the steps and the gap of the other. -/
def reach (a b : ℤ) (v : Steps) : ℕ :=
  (2 ^ 55 * (gap a b v).natAbs + 9 * a.natAbs * v.decimal.natAbs) / (2 ^ 30 * a.natAbs)

theorem Near.abs_cross_le (h : Near a b s) (ha : 0 < a) (hb : 0 < b) (v : Steps) :
    |cross s v| ≤ reach a b v := by
  -- The cross product is made of the two gaps, and each of them is small beside `b`.
  have hsplit : b * |cross s v| ≤ |v.decimal| * |gap a b s| + |gap a b v| * s.decimal := by
    have htriangle := abs_sub (v.decimal * gap a b s) (s.decimal * gap a b v)
    rw [← mul_cross, abs_mul, abs_mul, abs_mul, abs_of_pos hb, abs_of_pos h.pos,
      mul_comm s.decimal] at htriangle
    exact htriangle
  have hfirst := mul_le_mul_of_nonneg_left h.close (mul_nonneg ha.le (abs_nonneg v.decimal))
  have hsecond := mul_le_mul_of_nonneg_left h.le (abs_nonneg (gap a b v))
  have hscaled : b * (|cross s v| * (2 ^ 30 * a))
      ≤ b * (2 ^ 55 * |gap a b v| + 9 * a * |v.decimal|) := by
    calc b * (|cross s v| * (2 ^ 30 * a)) = b * |cross s v| * (2 ^ 30 * a) := by ring
      _ ≤ (|v.decimal| * |gap a b s| + |gap a b v| * s.decimal) * (2 ^ 30 * a) :=
        mul_le_mul_of_nonneg_right hsplit (by positivity)
      _ = a * |v.decimal| * (2 ^ 30 * |gap a b s|) + 2 ^ 30 * (|gap a b v| * (s.decimal * a)) := by
        ring
      _ ≤ a * |v.decimal| * (9 * b) + 2 ^ 30 * (|gap a b v| * (2 ^ 25 * b)) := by linarith
      _ = b * (2 ^ 55 * |gap a b v| + 9 * a * |v.decimal|) := by ring
  have hscaled := le_of_mul_le_mul_left hscaled hb
  unfold reach
  push_cast
  rw [abs_of_pos ha]
  exact Int.le_ediv_of_mul_le (by positivity) hscaled

/-- The pairs that small multiples of two generators make. -/
def combinations (i j : ℕ) (u v : Steps) : List Steps :=
  (List.range (2 * i + 1)).flatMap fun (k : ℕ) =>
    (List.range (2 * j + 1)).map fun (l : ℕ) => combine (k - i) (l - j) u v

theorem mem_combinations {i j : ℕ} {k l : ℤ} (hk : |k| ≤ i) (hl : |l| ≤ j) :
    combine k l u v ∈ combinations i j u v := by
  rw [abs_le] at hk hl
  have hk' : ((k + i).toNat : ℤ) - i = k := by omega
  have hl' : ((l + j).toNat : ℤ) - j = l := by omega
  have hki : (k + i).toNat < 2 * i + 1 := by omega
  have hlj : (l + j).toNat < 2 * j + 1 := by omega
  refine List.mem_flatMap.2 ⟨(k + i).toNat, List.mem_range.2 hki, ?_⟩
  refine List.mem_map.2 ⟨(l + j).toNat, List.mem_range.2 hlj, ?_⟩
  rw [hk', hl']

/-- Whether every pair that nearly coincides would be a multiple of a true coincidence. -/
def Degenerate (a b : ℤ) (v : Steps) : Prop := gap a b v = 0 ∧ reach a b v = 0

instance (a b : ℤ) (v : Steps) : Decidable (Degenerate a b v) :=
  inferInstanceAs (Decidable (_ ∧ _))

def candidates (a b : ℤ) (u v : Steps) : List Steps :=
  if Degenerate a b v then [] else combinations (reach a b v) (reach a b u) u v

theorem Near.mem_candidates (h : Near a b s) (ha : 0 < a) (hb : 0 < b) (hg : Generate u v) :
    s ∈ candidates a b u v := by
  obtain ⟨i, j, hs, hi, hj⟩ := hg.exists_combine s
  have hle := h.abs_cross_le ha hb v
  have hle' := h.abs_cross_le ha hb u
  rw [← hi] at hle
  have hflip : |cross s u| = |cross u s| := by
    rw [← abs_neg]
    congr 1
    unfold cross
    ring
  rw [hflip, ← hj] at hle'
  unfold candidates
  split
  · rename_i hdegenerate
    obtain ⟨hgap, hreach⟩ := hdegenerate
    rw [hreach] at hle
    -- The pair would be a multiple of `v`, which has no gap.
    have hzero : i = 0 := abs_nonpos_iff.1 hle
    refine absurd ?_ h.ne
    rw [hs, hzero]
    unfold gap combine at *
    linear_combination j * hgap
  · rw [hs]
    exact mem_combinations hle hle'

/-! ### Generators -/

/-- One step of Euclid's algorithm. -/
def next (a b : ℤ) (u v : Steps) : Steps :=
  combine 1 ((gap a b u).natAbs / (gap a b v).natAbs : ℕ) u v

theorem Generate.next (h : Generate u v) (a b : ℤ) : Generate v (next a b u v) := by
  have hflip : cross v (Steps.next a b u v) = -cross u v := by
    unfold cross Steps.next combine
    ring
  unfold Generate at *
  rw [hflip]
  omega

/-- The candidates that the first generators leave which leave at most nine. -/
def candidatesFrom (a b : ℤ) : ℕ → Steps → Steps → List Steps
  | 0, u, v => candidates a b u v
  | n + 1, u, v =>
    if Degenerate a b v ∨ (2 * reach a b u + 1) * (2 * reach a b v + 1) ≤ 9 then
      candidates a b u v
    else candidatesFrom a b n v (next a b u v)

theorem Near.mem_candidatesFrom (h : Near a b s) (ha : 0 < a) (hb : 0 < b) (n : ℕ)
    (hg : Generate u v) : s ∈ candidatesFrom a b n u v := by
  induction n generalizing u v with
  | zero => exact h.mem_candidates ha hb hg
  | succ n ih =>
    unfold candidatesFrom
    split
    · exact h.mem_candidates ha hb hg
    · exact ih (hg.next a b)

def nearCandidates (a b : ℤ) : List Steps := candidatesFrom a b 100 ⟨0, 1⟩ ⟨1, 0⟩

/-- Every near coincidence is among the candidates. -/
theorem Near.mem_nearCandidates (h : Near a b s) (ha : 0 < a) (hb : 0 < b) :
    s ∈ nearCandidates a b := h.mem_candidatesFrom ha hb 100 (.inr rfl)

end Steps

end LineArt.Decimal
