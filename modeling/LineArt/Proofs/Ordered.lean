import LineArt.Bounds
import LineArt.Proofs.Binary32.Order

/-!
# Ordered scalars

All that boxes need to know of a scalar type: its comparison is a linear order
on the numbers.  Different scalars may compare as equal, as the two zeros do.
-/

namespace LineArt

/-- A scalar type whose comparison is linear on the numbers. -/
class OrderedScalar (α : Type) extends Scalar α, LE α where
  IsNumber : α → Prop
  le_total {a b : α} : IsNumber a → IsNumber b → a ≤ b ∨ b ≤ a
  le_trans {a b c : α} : IsNumber a → IsNumber b → IsNumber c → a ≤ b → b ≤ c → a ≤ c
  lt_iff_not_le {a b : α} : IsNumber a → IsNumber b → (a < b ↔ ¬ b ≤ a)

instance : OrderedScalar Float32 where
  IsNumber x := x.isNaN = false
  le_total ha hb := by
    rw [Binary32.le_iff_rank ha hb, Binary32.le_iff_rank hb ha]
    exact le_total _ _
  le_trans ha hb hc hab hbc := by
    rw [Binary32.le_iff_rank ha hb] at hab
    rw [Binary32.le_iff_rank hb hc] at hbc
    rw [Binary32.le_iff_rank ha hc]
    exact hab.trans hbc
  lt_iff_not_le ha hb := by
    rw [Binary32.lt_iff_rank ha hb, Binary32.le_iff_rank hb ha]
    exact not_le.symm

namespace OrderedScalar

variable {α : Type} [OrderedScalar α] {a b : α}

theorem le_refl (ha : IsNumber a) : a ≤ a := (le_total ha ha).elim id id

theorem le_of_lt (ha : IsNumber a) (hb : IsNumber b) (h : a < b) : a ≤ b := by
  rcases le_total ha hb with hab | hba
  · exact hab
  · exact absurd hba ((lt_iff_not_le ha hb).1 h)

theorem le_of_not_lt (ha : IsNumber a) (hb : IsNumber b) (h : ¬ a < b) : b ≤ a := by
  by_contra hba
  exact h ((lt_iff_not_le ha hb).2 hba)

theorem least_le_left (ha : IsNumber a) (hb : IsNumber b) : Scalar.least a b ≤ a := by
  by_cases h : a < b
  · rw [Scalar.least_of_lt h]
    exact le_refl ha
  · rw [Scalar.least_of_not_lt h]
    exact le_of_not_lt ha hb h

theorem least_le_right (ha : IsNumber a) (hb : IsNumber b) : Scalar.least a b ≤ b := by
  by_cases h : a < b
  · rw [Scalar.least_of_lt h]
    exact le_of_lt ha hb h
  · rw [Scalar.least_of_not_lt h]
    exact le_refl hb

theorem left_le_greatest (ha : IsNumber a) (hb : IsNumber b) : a ≤ Scalar.greatest a b := by
  by_cases h : b < a
  · rw [Scalar.greatest_of_lt h]
    exact le_refl ha
  · rw [Scalar.greatest_of_not_lt h]
    exact le_of_not_lt hb ha h

theorem right_le_greatest (ha : IsNumber a) (hb : IsNumber b) : b ≤ Scalar.greatest a b := by
  by_cases h : b < a
  · rw [Scalar.greatest_of_lt h]
    exact le_of_lt hb ha h
  · rw [Scalar.greatest_of_not_lt h]
    exact le_refl hb

theorem isNumber_least (ha : IsNumber a) (hb : IsNumber b) : IsNumber (Scalar.least a b) := by
  rcases Scalar.least_eq_or a b with h | h
  · rw [h]
    exact ha
  · rw [h]
    exact hb

theorem isNumber_greatest (ha : IsNumber a) (hb : IsNumber b) :
    IsNumber (Scalar.greatest a b) := by
  rcases Scalar.greatest_eq_or a b with h | h
  · rw [h]
    exact ha
  · rw [h]
    exact hb

/-! ### Running extrema -/

variable {xs : List α} {m v : α}

theorem isLeast_concat (hx : ∀ x ∈ xs, IsNumber x) (hv : IsNumber v)
    (h : IsLeast {x | x ∈ xs} m) : IsLeast {x | x ∈ xs ++ [v]} (Scalar.least m v) := by
  obtain ⟨hm, hlow⟩ := h
  have hmn : IsNumber m := hx m hm
  constructor
  · rcases Scalar.least_eq_or m v with heq | heq
    · rw [heq]
      exact List.mem_append_left [v] hm
    · rw [heq]
      exact List.mem_concat_self
  · intro x hmem
    rcases List.mem_append.1 hmem with hmem | hmem
    · exact le_trans (isNumber_least hmn hv) hmn (hx x hmem) (least_le_left hmn hv) (hlow hmem)
    · rw [List.mem_singleton.1 hmem]
      exact least_le_right hmn hv

theorem isGreatest_concat (hx : ∀ x ∈ xs, IsNumber x) (hv : IsNumber v)
    (h : IsGreatest {x | x ∈ xs} m) : IsGreatest {x | x ∈ xs ++ [v]} (Scalar.greatest m v) := by
  obtain ⟨hm, hup⟩ := h
  have hmn : IsNumber m := hx m hm
  constructor
  · rcases Scalar.greatest_eq_or m v with heq | heq
    · rw [heq]
      exact List.mem_append_left [v] hm
    · rw [heq]
      exact List.mem_concat_self
  · intro x hmem
    rcases List.mem_append.1 hmem with hmem | hmem
    · exact le_trans (hx x hmem) hmn (isNumber_greatest hmn hv) (hup hmem)
        (left_le_greatest hmn hv)
    · rw [List.mem_singleton.1 hmem]
      exact right_le_greatest hmn hv

/-- The least of two lists together is the lesser of their least values, as a number. -/
theorem least_of_append {ys : List α} {n k : α} (hx : ∀ x ∈ xs, IsNumber x)
    (hy : ∀ y ∈ ys, IsNumber y) (hm : IsLeast {x | x ∈ xs} m) (hn : IsLeast {y | y ∈ ys} n)
    (hk : IsLeast {x | x ∈ xs ++ ys} k) : k ≤ Scalar.least m n ∧ Scalar.least m n ≤ k := by
  have hmn := hx m hm.1
  have hnn := hy n hn.1
  have hleast := isNumber_least hmn hnn
  constructor
  · rcases Scalar.least_eq_or m n with heq | heq
    · rw [heq]
      exact hk.2 (List.mem_append_left ys hm.1)
    · rw [heq]
      exact hk.2 (List.mem_append_right xs hn.1)
  · rcases List.mem_append.1 hk.1 with hmem | hmem
    · exact le_trans hleast hmn (hx k hmem) (least_le_left hmn hnn) (hm.2 hmem)
    · exact le_trans hleast hnn (hy k hmem) (least_le_right hmn hnn) (hn.2 hmem)

theorem greatest_of_append {ys : List α} {n k : α} (hx : ∀ x ∈ xs, IsNumber x)
    (hy : ∀ y ∈ ys, IsNumber y) (hm : IsGreatest {x | x ∈ xs} m) (hn : IsGreatest {y | y ∈ ys} n)
    (hk : IsGreatest {x | x ∈ xs ++ ys} k) :
    k ≤ Scalar.greatest m n ∧ Scalar.greatest m n ≤ k := by
  have hmn := hx m hm.1
  have hnn := hy n hn.1
  have hgreatest := isNumber_greatest hmn hnn
  constructor
  · rcases List.mem_append.1 hk.1 with hmem | hmem
    · exact le_trans (hx k hmem) hmn hgreatest (hm.2 hmem) (left_le_greatest hmn hnn)
    · exact le_trans (hy k hmem) hnn hgreatest (hn.2 hmem) (right_le_greatest hmn hnn)
  · rcases Scalar.greatest_eq_or m n with heq | heq
    · rw [heq]
      exact hk.2 (List.mem_append_left ys hm.1)
    · rw [heq]
      exact hk.2 (List.mem_append_right xs hn.1)

end OrderedScalar

end LineArt
