import LineArt.Proofs.Binary32.Order

/-!
# Binary32: sign

Up to the sign of zero, negation passes through sums, products and comparisons,
and none of them tells one zero from the other.
-/

namespace LineArt.Binary32

open Float.Model (Format UnpackedFloat)
open Float.Model.UnpackedFloat (Sign roundWithAccuracy)

/-! ### One number, up to the sign of zero -/

def Same (u v : UnpackedFloat) : Prop := u = v ∨ ∃ s t, u = .zero s ∧ v = .zero t

theorem Same.refl (u : UnpackedFloat) : Same u u := .inl rfl

theorem same_zeros (s t : Sign) : Same (.zero s) (.zero t) := .inr ⟨s, t, rfl, rfl⟩

theorem Same.symm {u v : UnpackedFloat} (h : Same u v) : Same v u := by
  rcases h with h | ⟨s, t, hu, hv⟩
  · exact .inl h.symm
  · exact .inr ⟨t, s, hv, hu⟩

theorem Same.trans {u v w : UnpackedFloat} (h : Same u v) (h' : Same v w) : Same u w := by
  rcases h with rfl | ⟨s, t, rfl, rfl⟩
  · exact h'
  · rcases h' with rfl | ⟨s', t', -, rfl⟩
    · exact same_zeros s t
    · exact same_zeros s t'

/-- What cannot tell one zero from the other respects the relation. -/
theorem Same.map {u v : UnpackedFloat} {f : UnpackedFloat → UnpackedFloat}
    (hf : ∀ s t, Same (f (.zero s)) (f (.zero t))) (h : Same u v) : Same (f u) (f v) := by
  rcases h with rfl | ⟨s, t, rfl, rfl⟩
  · exact .refl (f u)
  · exact hf s t

theorem Same.stored {u v : UnpackedFloat} (h : Same u v) : Same (stored u) (stored v) := by
  apply h.map
  intro s t
  rw [stored_zero, stored_zero]
  exact same_zeros s t

theorem Same.neg {u v : UnpackedFloat} (h : Same u v) : Same u.neg v.neg :=
  h.map fun s t => same_zeros (-s) (-t)

theorem Same.rank_eq {u v : UnpackedFloat} (h : Same u v) : rank u = rank v := by
  rcases h with rfl | ⟨s, t, rfl, rfl⟩
  · rfl
  · rfl

theorem Same.isNaN_eq {u v : UnpackedFloat} (h : Same u v) : u.isNaN = v.isNaN := by
  rcases h with rfl | ⟨s, t, rfl, rfl⟩
  · rfl
  · rfl

/-! ### Rounding -/

section Rounding

variable (S : Format)

theorem apply_neg (s : Sign) (n : ℤ) : (-s).apply n = -(s.apply n) := by
  cases s
  · exact (Int.neg_neg n).symm
  · rfl

theorem roundWithAccuracy_neg (s : Sign) (m : ℕ) (e : ℤ) (a : UnpackedFloat.Accuracy) :
    roundWithAccuracy S (-s) m e a = (roundWithAccuracy S s m e a).neg := by
  simp only [roundWithAccuracy]
  split
  · rfl
  · rfl

theorem normalize_neg (m : ℤ) (e : ℤ) (z : Sign) :
    Same (UnpackedFloat.normalize S (-m) e z) (UnpackedFloat.normalize S m e z).neg := by
  rcases lt_trichotomy m 0 with h | h | h
  · have hneg : compare (-m) 0 = .gt := compare_gt_iff_gt.2 (by omega)
    simp only [UnpackedFloat.normalize, hneg, compare_lt_iff_lt.2 h]
    exact .inl (roundWithAccuracy_neg S .negative _ _ _)
  · subst h
    exact same_zeros z (-z)
  · have hneg : compare (-m) 0 = .lt := compare_lt_iff_lt.2 (by omega)
    simp only [UnpackedFloat.normalize, hneg, compare_gt_iff_gt.2 h, Int.neg_neg]
    exact .inl (roundWithAccuracy_neg S .positive _ _ _)

end Rounding

/-! ### Sums and products -/

section Arithmetic

variable (S : Format) {u v u' v' : UnpackedFloat}

theorem add_zero_left (s t : Sign) (v : UnpackedFloat) :
    Same (UnpackedFloat.add S (.zero s) v) (UnpackedFloat.add S (.zero t) v) := by
  cases v with
  | zero r =>
    simp only [UnpackedFloat.add]
    split <;> split <;> exact same_zeros _ _
  | infinity r => exact .refl _
  | notANumber => exact .refl _
  | finite r m e hm => exact .refl _

theorem add_zero_right (u : UnpackedFloat) (s t : Sign) :
    Same (UnpackedFloat.add S u (.zero s)) (UnpackedFloat.add S u (.zero t)) := by
  cases u with
  | zero r =>
    simp only [UnpackedFloat.add]
    split <;> split <;> exact same_zeros _ _
  | infinity r => exact .refl _
  | notANumber => exact .refl _
  | finite r m e hm => exact .refl _

theorem Same.add (hu : Same u u') (hv : Same v v') :
    Same (UnpackedFloat.add S u v) (UnpackedFloat.add S u' v') := by
  have hleft := hu.map (f := fun w => UnpackedFloat.add S w v) fun s t => add_zero_left S s t v
  have hright := hv.map fun s t => add_zero_right S u' s t
  exact hleft.trans hright

theorem mul_zero_left (s t : Sign) (v : UnpackedFloat) :
    Same (UnpackedFloat.mul S (.zero s) v) (UnpackedFloat.mul S (.zero t) v) := by
  cases v with
  | zero r => exact same_zeros _ _
  | infinity r => exact .refl _
  | notANumber => exact .refl _
  | finite r m e hm => exact same_zeros _ _

theorem mul_zero_right (u : UnpackedFloat) (s t : Sign) :
    Same (UnpackedFloat.mul S u (.zero s)) (UnpackedFloat.mul S u (.zero t)) := by
  cases u with
  | zero r => exact same_zeros _ _
  | infinity r => exact .refl _
  | notANumber => exact .refl _
  | finite r m e hm => exact same_zeros _ _

theorem Same.mul (hu : Same u u') (hv : Same v v') :
    Same (UnpackedFloat.mul S u v) (UnpackedFloat.mul S u' v') := by
  have hleft := hu.map (f := fun w => UnpackedFloat.mul S w v) fun s t => mul_zero_left S s t v
  have hright := hv.map fun s t => mul_zero_right S u' s t
  exact hleft.trans hright

theorem mul_neg_left (u v : UnpackedFloat) :
    UnpackedFloat.mul S u.neg v = (UnpackedFloat.mul S u v).neg := by
  have hsign (s t : Sign) : -s * t = -(s * t) := by
    cases s <;> cases t <;> rfl
  rcases u with s | _ | s | ⟨s, m, e, hm⟩
  case notANumber => rfl
  all_goals rcases v with t | _ | t | ⟨t, n, f, hn⟩
  case infinity.notANumber | zero.notANumber | finite.notANumber => rfl
  case infinity.zero | zero.infinity => rfl
  case finite.finite =>
    simp only [UnpackedFloat.neg, UnpackedFloat.mul]
    rw [hsign, roundWithAccuracy_neg]
    rfl
  all_goals simp only [UnpackedFloat.neg, UnpackedFloat.mul, hsign]

theorem add_neg (u v : UnpackedFloat) :
    Same (UnpackedFloat.add S u.neg v.neg) (UnpackedFloat.add S u v).neg := by
  rcases u with s | _ | s | ⟨s, m, e, hm⟩
  case notANumber => exact .refl _
  all_goals rcases v with t | _ | t | ⟨t, n, f, hn⟩
  case infinity.infinity => cases s <;> cases t <;> exact .refl _
  case zero.zero => cases s <;> cases t <;> exact same_zeros _ _
  case finite.finite =>
    simp only [UnpackedFloat.neg, UnpackedFloat.add, apply_neg, ← Int.neg_add]
    exact normalize_neg S _ _ .positive
  all_goals exact .refl _

end Arithmetic

/-! ### Floats -/

section Floats

variable {x y z x' y' : Float32}

/-- Floats are alike as numbers if they compare as equal or are both NaN. -/
def Alike (x y : Float32) : Prop := (x == y) = true ∨ (x.isNaN = true ∧ y.isNaN = true)

theorem Alike.same (h : Alike x y) : Same (view x) (view y) := by
  rcases h with h | ⟨hx, hy⟩
  · obtain ⟨hx, hy⟩ := isNaN_of_beq h
    exact eq_or_zeros_of_rank hx hy ((beq_iff_rank hx hy).1 h)
  · have hvx := (isNaN_eq_true_iff (view x)).1 hx
    have hvy := (isNaN_eq_true_iff (view y)).1 hy
    exact .inl (hvx.trans hvy.symm)

theorem Same.alike (h : Same (view x) (view y)) : Alike x y := by
  have hnan : x.isNaN = y.isNaN := h.isNaN_eq
  by_cases hx : x.isNaN = true
  · exact .inr ⟨hx, hnan ▸ hx⟩
  · rw [Bool.not_eq_true] at hx
    exact .inl ((beq_iff_rank hx (hnan ▸ hx)).2 h.rank_eq)

theorem alike_iff_same : Alike x y ↔ Same (view x) (view y) := ⟨Alike.same, Same.alike⟩

theorem Alike.refl (x : Float32) : Alike x x := alike_iff_same.2 (.refl _)

theorem Alike.symm (h : Alike x y) : Alike y x := h.same.symm.alike

theorem Alike.trans (h : Alike x y) (h' : Alike y z) : Alike x z := (h.same.trans h'.same).alike

theorem Alike.add (hx : Alike x x') (hy : Alike y y') : Alike (x + y) (x' + y') := by
  rw [alike_iff_same, view_add, view_add]
  exact (hx.same.add _ hy.same).stored

theorem Alike.mul (hx : Alike x x') (hy : Alike y y') : Alike (x * y) (x' * y') := by
  rw [alike_iff_same, view_mul, view_mul]
  exact (hx.same.mul _ hy.same).stored

theorem Alike.neg (h : Alike x y) : Alike (-x) (-y) := by
  rw [alike_iff_same, view_neg, view_neg]
  exact h.same.neg

theorem alike_neg_neg (x : Float32) : Alike (- -x) x := by
  rw [alike_iff_same, view_neg, view_neg, neg_neg]
  exact .refl _

theorem alike_neg_add (x y : Float32) : Alike (-(x + y)) (-x + -y) := by
  rw [alike_iff_same, view_neg, view_add, view_add, view_neg, view_neg, ← stored_neg]
  exact (add_neg _ _ _).symm.stored

theorem alike_neg_mul (x y : Float32) : Alike (-x * y) (-(x * y)) := by
  rw [alike_iff_same, view_neg, view_mul, view_mul, view_neg, mul_neg_left, stored_neg]
  exact .refl _

theorem neg_lt_neg_iff : -x < -y ↔ y < x := by
  have hnan (w : Float32) : (-w).isNaN = w.isNaN := by
    rw [isNaN_eq, isNaN_eq, view_neg]
    cases view w <;> rfl
  by_cases hx : x.isNaN = false
  · by_cases hy : y.isNaN = false
    · rw [lt_iff_rank ((hnan x).trans hx) ((hnan y).trans hy), lt_iff_rank hy hx, view_neg,
        view_neg, rank_neg, rank_neg, opposite_lt_opposite]
    · exact iff_of_false (fun h => hy (hnan y ▸ (isNaN_of_lt h).2)) fun h => hy (isNaN_of_lt h).1
  · exact iff_of_false (fun h => hx (hnan x ▸ (isNaN_of_lt h).1)) fun h => hx (isNaN_of_lt h).2

theorem Alike.lt (hx : Alike x x') (hy : Alike y y') (h : x < y) : x' < y' := by
  obtain ⟨hxn, hyn⟩ := isNaN_of_lt h
  have hxn' : x'.isNaN = false := hx.same.isNaN_eq.symm.trans hxn
  have hyn' : y'.isNaN = false := hy.same.isNaN_eq.symm.trans hyn
  rw [lt_iff_rank hxn hyn] at h
  rw [lt_iff_rank hxn' hyn', ← hx.same.rank_eq, ← hy.same.rank_eq]
  exact h

end Floats

end LineArt.Binary32
