import LineArt.Json.Number

/-!
# Numerals read back

A numeral that is written as JSON allows is read back as it was, whatever stands
behind it but a character that would go on with it.
-/

namespace LineArt

namespace Decimal

theorem toChar_ne {c : Char} (h : Digit.ofChar? c = none) (d : Digit) : d.toChar ≠ c := by
  rintro rfl
  rw [Digit.ofChar?_toChar] at h
  contradiction

def NoLeadingZero (ds : List Digit) : Prop := ∀ d ∈ ds.head?, d.val ≠ 0

/-- The digits before a point: at least one, and no zero in front of another. -/
def IsWhole (ds : List Digit) : Prop := ds ≠ [] ∧ (1 < ds.length → NoLeadingZero ds)

theorem isWhole_singleton (d : Digit) : IsWhole [d] :=
  ⟨by simp, fun h => absurd h (by simp)⟩

theorem isWhole_of_noLeadingZero {ds : List Digit} (hne : ds ≠ []) (h : NoLeadingZero ds) :
    IsWhole ds := ⟨hne, fun _ => h⟩

theorem noLeadingZero_digits {n : Nat} (h : 0 < n) : NoLeadingZero (digits n) := by
  fun_induction digits n with
  | case1 n hn =>
    intro d hd
    obtain rfl := Option.some.inj hd
    show n ≠ 0
    omega
  | case2 n hn ih =>
    have hfirst := ih (by omega)
    cases hd : digits (n / 10) with
    | nil => exact absurd hd (digits_ne_nil (n / 10))
    | cons d ds =>
      rw [hd] at hfirst
      exact hfirst

theorem isWhole_digits (n : Nat) : IsWhole (digits n) := by
  by_cases hn : n = 0
  · subst hn
    rw [digits]
    exact isWhole_singleton _
  · exact isWhole_of_noLeadingZero (digits_ne_nil n) (noLeadingZero_digits (by omega))

end Decimal

open Decimal

/-- A numeral as JSON allows it. -/
structure Numeral.Proper (n : Numeral) : Prop where
  whole : IsWhole n.whole
  exponent : ∀ sign ds, n.exponent = some (sign, ds) → ds ≠ []

theorem Numeral.proper_ofNat (n : Nat) : (Numeral.ofNat n).Proper where
  whole := isWhole_digits n
  exponent sign ds h := by contradiction

/-- Nothing at the front of a text goes on with a numeral. -/
def EndsNumeral (rest : List Char) : Prop :=
  ∀ c ∈ rest.head?, Digit.ofChar? c = none ∧ c ≠ '.' ∧ c ≠ 'e' ∧ c ≠ 'E'

theorem endsNumeral_nil : EndsNumeral [] := by
  intro c hc
  contradiction

theorem endsNumeral_cons {c : Char} (hc : c ∈ [',', ']', '\x7d']) (rest : List Char) :
    EndsNumeral (c :: rest) := by
  intro d hd
  obtain rfl : c = d := Option.some.inj hd
  simp only [List.mem_cons, List.not_mem_nil, or_false] at hc
  rcases hc with rfl | rfl | rfl <;> decide

theorem EndsNumeral.endsDigits {rest : List Char} (h : EndsNumeral rest) : EndsDigits rest :=
  fun c hc => (h c hc).1

namespace Json

theorem readMinus_sign (negative : Bool) {d : Digit} {ds : List Digit} (rest : List Char) :
    readMinus ((if negative then ['-'] else []) ++ ((d :: ds).map Digit.toChar ++ rest))
      = (negative, (d :: ds).map Digit.toChar ++ rest) := by
  have hminus : d.toChar ≠ '-' := toChar_ne (by decide) d
  cases negative with
  | true => rfl
  | false =>
    rw [if_neg Bool.false_ne_true, List.nil_append, List.map_cons, List.cons_append]
    unfold readMinus
    split
    · rename_i heq
      exact absurd (List.cons.inj heq).1 hminus
    · rfl

theorem readWhole_digits {ds : List Digit} (h : IsWhole ds) {rest : List Char}
    (hrest : EndsDigits rest) : readWhole (ds.map Digit.toChar ++ rest) = .ok (ds, rest) := by
  unfold readWhole
  rw [readDigits_append ds hrest]
  match ds, h with
  | [], h => exact absurd rfl h.1
  | [d], h => rfl
  | d :: e :: ds, h =>
    have hzero : d.val ≠ 0 := h.2 (by simp) d rfl
    exact if_neg hzero

theorem readFraction_fractionText (ds : List Digit) {rest : List Char} (hrest : EndsDigits rest)
    (hpoint : ∀ c ∈ rest.head?, c ≠ '.') :
    readFraction (Numeral.fractionText ds ++ rest) = .ok (ds, rest) := by
  cases ds with
  | nil =>
    rw [Numeral.fractionText, List.nil_append]
    unfold readFraction
    split
    · exact absurd rfl (hpoint '.' rfl)
    · rfl
  | cons d ds =>
    rw [Numeral.fractionText, List.cons_append, readFraction, readDigits_append (d :: ds) hrest]

theorem readExponent_exponentText (exponent : Option (Bool × List Digit)) {rest : List Char}
    (hdigits : ∀ sign ds, exponent = some (sign, ds) → ds ≠ []) (hrest : EndsNumeral rest) :
    readExponent (Numeral.exponentText exponent ++ rest) = .ok (exponent, rest) := by
  match exponent with
  | none =>
    rw [Numeral.exponentText, List.nil_append]
    cases rest with
    | nil => rfl
    | cons c rest =>
      obtain ⟨-, -, he, hE⟩ := hrest c rfl
      simp [readExponent, he, hE]
  | some (sign, []) => exact absurd rfl (hdigits sign [] rfl)
  | some (sign, d :: ds) =>
    have hread := readDigits_append (d :: ds) hrest.endsDigits
    have hsign : readSign ((if sign then '-' else '+') :: ((d :: ds).map Digit.toChar ++ rest))
        = (sign, (d :: ds).map Digit.toChar ++ rest) := by
      cases sign <;> rfl
    rw [Numeral.exponentText, List.cons_append, List.cons_append]
    simp only [readExponent, decide_true, Bool.true_or, if_true, hsign, hread]

theorem endsDigits_exponentText (exponent : Option (Bool × List Digit)) {rest : List Char}
    (hrest : EndsNumeral rest) : EndsDigits (Numeral.exponentText exponent ++ rest) := by
  cases exponent with
  | none => exact hrest.endsDigits
  | some e =>
    intro c hc
    obtain rfl : 'e' = c := Option.some.inj hc
    decide

theorem head?_exponentText_ne_point (exponent : Option (Bool × List Digit)) {rest : List Char}
    (hrest : EndsNumeral rest) : ∀ c ∈ (Numeral.exponentText exponent ++ rest).head?, c ≠ '.' := by
  cases exponent with
  | none => exact fun c hc => (hrest c hc).2.1
  | some e =>
    intro c hc
    obtain rfl : 'e' = c := Option.some.inj hc
    decide

theorem endsDigits_fractionText (ds : List Digit) {rest : List Char} (hrest : EndsDigits rest) :
    EndsDigits (Numeral.fractionText ds ++ rest) := by
  cases ds with
  | nil => exact hrest
  | cons d ds =>
    intro c hc
    obtain rfl : '.' = c := Option.some.inj hc
    decide

/-- A proper numeral is read back, with what follows it. -/
theorem readNumeral_text {n : Numeral} (h : n.Proper) {rest : List Char}
    (hrest : EndsNumeral rest) : readNumeral (n.text ++ rest) = .ok (n, rest) := by
  obtain ⟨negative, whole, fraction, exponent⟩ := n
  have hexponent := endsDigits_exponentText exponent hrest
  have hfraction := endsDigits_fractionText fraction hexponent
  cases whole with
  | nil => exact absurd rfl h.whole.1
  | cons d ds =>
    have hpoint := head?_exponentText_ne_point exponent hrest
    simp only [readNumeral, Numeral.text, List.append_assoc, readMinus_sign,
      readWhole_digits h.whole hfraction, readFraction_fractionText fraction hexponent hpoint,
      readExponent_exponentText exponent h.exponent hrest, ok_bind, pure_eq_ok]

/-- A numeral begins with its sign or with a digit. -/
theorem exists_text_eq_cons {n : Numeral} (h : n.Proper) :
    ∃ c text, n.text = c :: text ∧ (c = '-' ∨ (Digit.ofChar? c).isSome) := by
  obtain ⟨negative, whole, fraction, exponent⟩ := n
  cases whole with
  | nil => exact absurd rfl h.whole.1
  | cons d ds =>
    cases negative with
    | true => exact ⟨'-', _, rfl, .inl rfl⟩
    | false => exact ⟨d.toChar, _, rfl, .inr (by rw [Digit.ofChar?_toChar]; rfl)⟩

end Json

end LineArt
