import Mathlib.Data.List.Basic
import Mathlib.Data.Nat.Init
import LineArt.Text.Quoted

/-!
# Messages

The message about an invalid token names one character and one position: another token, or the
same one elsewhere, has another message.
-/

namespace LineArt

namespace Text

/-! ### Digits -/

theorem digitChar_injOn : ∀ m < 16, ∀ n < 16, m.digitChar = n.digitChar → m = n := by
  decide

theorem toDigits_injective {base : ℕ} (hbase : 1 < base) (hle : base ≤ 16) :
    Function.Injective (Nat.toDigits base) := by
  intro m
  induction m using Nat.strong_induction_on with
  | _ m ih =>
    intro n h
    rw [Nat.toDigits_eq_if (n := m) hbase, Nat.toDigits_eq_if (n := n) hbase] at h
    split at h <;> split at h
    · exact digitChar_injOn m (by omega) n (by omega) (List.cons.inj h).1
    · have hlength := congrArg List.length h
      have hpos := Nat.length_toDigits_pos (b := base) (n := n / base)
      simp only [List.length_append, List.length_singleton] at hlength
      omega
    · have hlength := congrArg List.length h
      have hpos := Nat.length_toDigits_pos (b := base) (n := m / base)
      simp only [List.length_append, List.length_singleton] at hlength
      omega
    · obtain ⟨hfront, hlast⟩ := List.append_inj' h rfl
      have hdiv := ih (m / base) (Nat.div_lt_self (by omega) hbase) hfront
      have hm := Nat.mod_lt m (by omega : base > 0)
      have hn := Nat.mod_lt n (by omega : base > 0)
      have hmod := digitChar_injOn _ (by omega) _ (by omega) (List.cons.inj hlast).1
      rw [← Nat.div_add_mod m base, ← Nat.div_add_mod n base, hdiv, hmod]

/-! ### Characters -/

/-- The characters with an escape of their own, each with its letter. -/
def letters : List (Char × Char) :=
  [('\x00', '0'), ('\t', 't'), ('\r', 'r'), ('\n', 'n'), ('\'', '\''), ('\\', '\\')]

theorem escaped_cases (c : Char) :
    (∃ d, (c, d) ∈ letters ∧ escaped c = ['\\', d]) ∨
      (c ≠ '\\' ∧ escaped c = [c]) ∨ escaped c = byNumber c := by
  unfold escaped
  split
  · exact .inl ⟨'0', by decide, rfl⟩
  · exact .inl ⟨'t', by decide, rfl⟩
  · exact .inl ⟨'r', by decide, rfl⟩
  · exact .inl ⟨'n', by decide, rfl⟩
  · exact .inl ⟨'\'', by decide, rfl⟩
  · exact .inl ⟨'\\', by decide, rfl⟩
  · rename_i hslash
    split
    · exact .inr (.inl ⟨hslash, rfl⟩)
    · exact .inr (.inr rfl)

theorem byNumber_injective : Function.Injective byNumber := by
  intro c d h
  have hdigits := List.append_cancel_left (List.append_cancel_right h)
  exact Char.toNat_inj.1 (toDigits_injective (by decide) (by decide) hdigits)

theorem length_byNumber (c : Char) : 4 < (byNumber c).length := by
  have hpos := Nat.length_toDigits_pos (b := 16) (n := c.toNat)
  have hlength : (byNumber c).length = 4 + (Nat.toDigits 16 c.toNat).length := by
    simp [byNumber]
    omega
  omega

theorem escaped_injective : Function.Injective escaped := by
  intro c d h
  have hletters : ∀ p ∈ letters, ∀ q ∈ letters, p.2 = q.2 → p.1 = q.1 := by decide
  -- The three kinds of texts differ in length, two of them at once from the third.
  rcases escaped_cases c with ⟨x, hx, hc⟩ | ⟨hslash, hc⟩ | hc <;>
    rcases escaped_cases d with ⟨y, hy, hd⟩ | ⟨hslash', hd⟩ | hd <;> rw [hc, hd] at h
  · exact hletters _ hx _ hy (List.cons.inj (List.cons.inj h).2).1
  · simp at h
  · have hlength := length_byNumber d
    simp [← h] at hlength
  · simp at h
  · exact (List.cons.inj h).1
  · have hlength := length_byNumber d
    simp [← h] at hlength
  · have hlength := length_byNumber c
    simp [h] at hlength
  · have hlength := length_byNumber c
    simp [h] at hlength
  · exact byNumber_injective h

theorem quoted_injective : Function.Injective quoted := by
  intro c d h
  have hlist := String.ofList_inj.1 h
  exact escaped_injective (List.append_cancel_left (List.append_cancel_right hlist))

end Text

/-! ### Messages -/

theorem eq_of_append_cons {c : Char} {l l' d d' : List Char} (hd : c ∉ d) (hd' : c ∉ d')
    (h : l ++ c :: d = l' ++ c :: d') : l = l' ∧ d = d' := by
  rcases List.append_eq_append_iff.1 h with ⟨a, rfl, ha⟩ | ⟨a, rfl, ha⟩
  · cases a with
    | nil => exact ⟨(List.append_nil l).symm, (List.cons.inj ha).2⟩
    | cons b a =>
      obtain ⟨-, rfl⟩ := List.cons.inj ha
      exact absurd (List.mem_append_right a List.mem_cons_self) hd
  · cases a with
    | nil => exact ⟨List.append_nil l', (List.cons.inj ha).2.symm⟩
    | cons b a =>
      obtain ⟨-, rfl⟩ := List.cons.inj ha
      exact absurd (List.mem_append_right a List.mem_cons_self) hd'

theorem space_not_mem_toDigits (n : ℕ) : ' ' ∉ Nat.toDigits 10 n := fun hmem =>
  absurd (Nat.isDigit_of_mem_toDigits (by decide) (by decide) hmem) (by decide)

theorem toList_append₄ (s t u v : String) :
    (s ++ t ++ u ++ v).toList = s.toList ++ t.toList ++ u.toList ++ v.toList := by
  simp

theorem InvalidToken.toList_message (c : Char) (n : ℕ) :
    (InvalidToken.message ⟨c, n⟩).toList
      = ("invalid pattern token ".toList ++ (Text.quoted c).toList ++ " at position".toList)
        ++ ' ' :: Nat.toDigits 10 n := by
  have hspace : " at position ".toList = " at position".toList ++ [' '] := by decide
  have hparts : (InvalidToken.message ⟨c, n⟩).toList = "invalid pattern token ".toList
      ++ (Text.quoted c).toList ++ " at position ".toList ++ n.repr.toList := toList_append₄ _ _ _ _
  rw [hparts, hspace, Nat.toList_repr, ← List.append_assoc, List.append_assoc _ [' ']]
  rfl

theorem InvalidToken.message_injective : Function.Injective InvalidToken.message := by
  rintro ⟨token, index⟩ ⟨token', index'⟩ h
  have hlist := congrArg String.toList h
  rw [toList_message, toList_message] at hlist
  obtain ⟨hfront, hdigits⟩ :=
    eq_of_append_cons (space_not_mem_toDigits index) (space_not_mem_toDigits index') hlist
  rw [List.append_left_inj, List.append_right_inj, String.toList_inj] at hfront
  rw [Text.quoted_injective hfront, Text.toDigits_injective (by decide) (by decide) hdigits]

end LineArt
