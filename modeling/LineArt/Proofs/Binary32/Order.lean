import LineArt.Proofs.Binary32.Packing

/-!
# Binary32: order

The comparison of floats is that of their ranks in a linear order, NaN apart.
Both zeros have one rank, and any two other numbers of equal rank are equal.
-/

namespace LineArt.Binary32

open Float.Model (Format UnpackedFloat)
open Float.Model.UnpackedFloat (Sign)

/-! ### Ranks -/

/-- Where a number stands: by its class, then by exponent, then by mantissa.
The rank of NaN is never looked at. -/
def rank : UnpackedFloat → ℤ ×ₗ ℤ ×ₗ ℤ
  | .infinity .negative => toLex (-2, toLex (0, 0))
  | .finite .negative m e _ => toLex (-1, toLex (-e, -m))
  | .zero _ => toLex (0, toLex (0, 0))
  | .finite .positive m e _ => toLex (1, toLex (e, m))
  | .infinity .positive => toLex (2, toLex (0, 0))
  | .notANumber => toLex (0, toLex (0, 0))

def opposite (r : ℤ ×ₗ ℤ ×ₗ ℤ) : ℤ ×ₗ ℤ ×ₗ ℤ :=
  toLex (-(ofLex r).1, toLex (-(ofLex (ofLex r).2).1, -(ofLex (ofLex r).2).2))

theorem lt_iff_components (r s : ℤ ×ₗ ℤ ×ₗ ℤ) :
    r < s ↔ (ofLex r).1 < (ofLex s).1 ∨ (ofLex r).1 = (ofLex s).1 ∧
      ((ofLex (ofLex r).2).1 < (ofLex (ofLex s).2).1 ∨
        (ofLex (ofLex r).2).1 = (ofLex (ofLex s).2).1 ∧
          (ofLex (ofLex r).2).2 < (ofLex (ofLex s).2).2) := by
  rw [Prod.Lex.lt_iff, Prod.Lex.lt_iff]

theorem opposite_lt_opposite (r s : ℤ ×ₗ ℤ ×ₗ ℤ) : opposite r < opposite s ↔ s < r := by
  simp only [lt_iff_components, opposite, ofLex_toLex]
  omega

theorem rank_neg (u : UnpackedFloat) : rank u.neg = opposite (rank u) := by
  rcases u with s | _ | s | ⟨s, m, e, hm⟩
  · cases s <;> rfl
  · rfl
  · rfl
  · cases s with
    | positive => rfl
    | negative =>
      simp only [rank, opposite, ofLex_toLex, Int.neg_neg]
      rfl

theorem compares_positive (m n : ℕ) (e f : ℤ) (hm : 0 < m) (hn : 0 < n) :
    ((compare e f).then (compare m n)).Compares (rank (.finite .positive m e hm))
      (rank (.finite .positive n f hn)) := by
  rcases lt_trichotomy e f with he | he | he
  · rw [compare_lt_iff_lt.2 he]
    simp [Ordering.Compares, rank, lt_iff_components, he]
  · subst he
    rw [compare_eq_iff_eq.2 rfl]
    rcases lt_trichotomy m n with h | h | h
    · rw [compare_lt_iff_lt.2 h]
      simp [Ordering.Compares, rank, lt_iff_components, h]
    · subst h
      rw [compare_eq_iff_eq.2 rfl]
      rfl
    · rw [compare_gt_iff_gt.2 h]
      simp [Ordering.Compares, rank, lt_iff_components, h]
  · rw [compare_gt_iff_gt.2 he]
    simp [Ordering.Compares, rank, lt_iff_components, he]

theorem compares_opposite {o : Ordering} {r s : ℤ ×ₗ ℤ ×ₗ ℤ} (h : o.Compares r s) :
    o.swap.Compares (opposite r) (opposite s) := by
  cases o with
  | lt => exact (opposite_lt_opposite s r).2 h
  | eq => exact congrArg opposite h
  | gt => exact (opposite_lt_opposite r s).2 h

/-- Numbers compare as their ranks. -/
theorem compare_eq_cmp_rank {u v : UnpackedFloat} (hu : u.isNaN = false) (hv : v.isNaN = false) :
    u.compare v = some (cmp (rank u) (rank v)) := by
  rcases u with s | _ | s | ⟨s, m, e, hm⟩
  case notANumber => contradiction
  all_goals rcases v with t | _ | t | ⟨t, n, f, hn⟩
  case infinity.notANumber | zero.notANumber | finite.notANumber => contradiction
  case finite.finite =>
    have hpos := compares_positive m n e f hm hn
    have hneg := compares_opposite hpos
    rw [← rank_neg, ← rank_neg] at hneg
    cases s <;> cases t
    · exact congrArg some hneg.cmp_eq.symm
    · rfl
    · rfl
    · exact congrArg some hpos.cmp_eq.symm
  -- what is left differs in class or sign, or is one number for each class and sign
  all_goals cases s <;> cases t <;> rfl

theorem isNaN_eq_true_iff (u : UnpackedFloat) : u.isNaN = true ↔ u = .notANumber := by
  cases u <;> simp [UnpackedFloat.isNaN]

theorem compare_notANumber_left (v : UnpackedFloat) :
    UnpackedFloat.compare .notANumber v = none := by
  cases v <;> rfl

theorem compare_notANumber_right (u : UnpackedFloat) : u.compare .notANumber = none := by
  rcases u with s | _ | s | ⟨s, m, e, hm⟩
  · cases s <;> rfl
  · rfl
  · rfl
  · cases s <;> rfl

theorem isNaN_of_compare {u v : UnpackedFloat} {o : Ordering} (h : u.compare v = some o) :
    u.isNaN = false ∧ v.isNaN = false := by
  constructor
  · by_contra hu
    rw [Bool.not_eq_false, isNaN_eq_true_iff] at hu
    rw [hu, compare_notANumber_left] at h
    contradiction
  · by_contra hv
    rw [Bool.not_eq_false, isNaN_eq_true_iff] at hv
    rw [hv, compare_notANumber_right] at h
    contradiction

/-- Two numbers of one rank are equal, or both are zeros. -/
theorem eq_or_zeros_of_rank {u v : UnpackedFloat} (hu : u.isNaN = false) (hv : v.isNaN = false)
    (h : rank u = rank v) : u = v ∨ ∃ s t, u = .zero s ∧ v = .zero t := by
  rcases u with s | _ | s | ⟨s, m, e, hm⟩
  case notANumber => contradiction
  all_goals rcases v with t | _ | t | ⟨t, n, f, hn⟩
  case infinity.notANumber | zero.notANumber | finite.notANumber => contradiction
  case zero.zero => exact .inr ⟨s, t, rfl, rfl⟩
  case finite.finite =>
    left
    cases s <;> cases t <;> simp [rank] at h
    all_goals
      obtain ⟨rfl, hcast⟩ := h
      have hmn : m = n := by omega
      subst hmn
      rfl
  all_goals cases s <;> cases t <;> simp [rank] at h ⊢

/-! ### Floats -/

section Floats

variable {x y z : Float32}

theorem compare_view (hx : x.isNaN = false) (hy : y.isNaN = false) :
    (view x).compare (view y) = some (cmp (rank (view x)) (rank (view y))) :=
  compare_eq_cmp_rank hx hy

theorem lt_iff_rank (hx : x.isNaN = false) (hy : y.isNaN = false) :
    x < y ↔ rank (view x) < rank (view y) := by
  rw [lt_iff, UnpackedFloat.lt, compare_view hx hy]
  simp

theorem le_iff_rank (hx : x.isNaN = false) (hy : y.isNaN = false) :
    x ≤ y ↔ rank (view x) ≤ rank (view y) := by
  rw [le_iff, UnpackedFloat.le, compare_view hx hy, Option.any_some, Ordering.isLE_iff_ne_gt,
    cmp_eq_gt_iff, not_lt]

theorem beq_iff_rank (hx : x.isNaN = false) (hy : y.isNaN = false) :
    (x == y) = true ↔ rank (view x) = rank (view y) := by
  rw [beq_eq, UnpackedFloat.beq, compare_view hx hy]
  simp

theorem isNaN_of_beq (h : (x == y) = true) : x.isNaN = false ∧ y.isNaN = false := by
  rw [beq_eq, UnpackedFloat.beq, beq_iff_eq] at h
  exact isNaN_of_compare h

theorem isNaN_of_lt (h : x < y) : x.isNaN = false ∧ y.isNaN = false := by
  rw [lt_iff, UnpackedFloat.lt, beq_iff_eq] at h
  exact isNaN_of_compare h

end Floats

end LineArt.Binary32
