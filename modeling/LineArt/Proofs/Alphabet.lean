import LineArt.Proofs.Walk

/-!
# The pattern alphabet

Which characters a pattern may hold, and which token each of them spells.  A
pattern is valid exactly when all its characters are in the alphabet; otherwise
the fault is its first character outside, counted from the start.
-/

namespace LineArt

/-- The characters a pattern may hold: digits, letters, the four moves, the reset,
both pairs of brackets and white space. -/
def InAlphabet (c : Char) : Prop :=
  ('0' ≤ c ∧ c ≤ '9') ∨ ('a' ≤ c ∧ c ≤ 'z') ∨ ('A' ≤ c ∧ c ≤ 'Z') ∨
    c ∈ ['.', '-', '|', '/', '@', '(', ')', '[', ']', ' ', '\t', '\r', '\n']

instance (c : Char) : Decidable (InAlphabet c) := inferInstanceAs (Decidable (_ ∨ _))

theorem inAlphabet_iff {c : Char} :
    InAlphabet c ↔ c.isDigit ∨ c.isLower ∨ c.isUpper ∨
      c ∈ ['.', '-', '|', '/', '@', '(', ')', '[', ']', ' ', '\t', '\r', '\n'] :=
  or_congr isDigit_iff.symm (or_congr isLower_iff.symm (or_congr isUpper_iff.symm Iff.rfl))

theorem not_mem_of_any {p : Char → Bool} {cs : List Char} {c : Char} (hcs : cs.any p = false)
    (h : p c) : c ∉ cs := by
  intro hmem
  exact absurd h (List.any_eq_false.1 hcs c hmem)

/-! ### The grammar -/

inductive Token.Spells : Char → Token → Prop where
  | digit {c : Char} (h : c.isDigit) : Spells c (.digit (c.toNat - '0'.toNat).toUInt8)
  | axis (d : Direction) : Spells d.symbol (.axis d)
  | define {c : Char} (h : c.isLower) : Spells c (.waypoint c .define)
  | jump {c : Char} (h : c.isUpper) : Spells c (.waypoint c.toLower .jump)
  | lift : Spells '(' (.blank .opening)
  | lower : Spells ')' (.blank .closing)
  | enter : Spells '[' (.capture .opening)
  | leave : Spells ']' (.capture .closing)
  | reset : Spells '@' .reset
  | space {c : Char} (h : c ∈ [' ', '\t', '\r', '\n']) : Spells c .space
  | invalid {c : Char} (h : ¬ InAlphabet c) : Spells c (.invalid c)

theorem ofSymbol?_eq_none_iff {c : Char} :
    Direction.ofSymbol? c = none ↔ c ∉ ['.', '-', '|', '/'] := by
  unfold Direction.ofSymbol?
  split <;> simp_all

theorem spells_ofChar (c : Char) : Token.Spells c (Token.ofChar c) := by
  unfold Token.ofChar
  split
  · exact .digit ‹_›
  split
  · exact .define ‹_›
  split
  · exact .jump ‹_›
  split
  · exact .reset
  · exact .lift
  · exact .lower
  · exact .enter
  · exact .leave
  · exact .space (by decide)
  · exact .space (by decide)
  · exact .space (by decide)
  · exact .space (by decide)
  · split
    · rename_i d h
      rw [← Direction.symbol_of_ofSymbol? h]
      exact .axis d
    · apply Token.Spells.invalid
      rw [inAlphabet_iff]
      simp_all [ofSymbol?_eq_none_iff]

theorem invalid?_of_spells {c : Char} {t : Token} (h : Token.Spells c t) :
    t.invalid? = if InAlphabet c then none else some c := by
  have hclass (hc : InAlphabet c) : none = if InAlphabet c then none else some c :=
    (if_pos hc).symm
  cases h with
  | invalid hc => exact (if_neg hc).symm
  | digit hc => exact hclass (inAlphabet_iff.2 (.inl hc))
  | define hc => exact hclass (inAlphabet_iff.2 (.inr (.inl hc)))
  | jump hc => exact hclass (inAlphabet_iff.2 (.inr (.inr (.inl hc))))
  | space hc =>
    apply hclass
    simp only [List.mem_cons, List.not_mem_nil, or_false] at hc
    rcases hc with rfl | rfl | rfl | rfl <;> decide
  | axis d => cases d <;> rfl
  | lift => rfl
  | lower => rfl
  | enter => rfl
  | leave => rfl
  | reset => rfl

theorem invalid?_ofChar (c : Char) :
    (Token.ofChar c).invalid? = if InAlphabet c then none else some c :=
  invalid?_of_spells (spells_ofChar c)

theorem invalid?_ofChar_of_mem {c : Char} (h : InAlphabet c) : (Token.ofChar c).invalid? = none :=
  (invalid?_ofChar c).trans (if_pos h)

theorem invalid?_ofChar_of_not_mem {c : Char} (h : ¬ InAlphabet c) :
    (Token.ofChar c).invalid? = some c :=
  (invalid?_ofChar c).trans (if_neg h)

theorem ofChar_of_isDigit {c : Char} (h : c.isDigit) :
    Token.ofChar c = .digit (c.toNat - '0'.toNat).toUInt8 := if_pos h

theorem isDigit_of_ofChar {c : Char} {value : UInt8} (h : Token.ofChar c = .digit value) :
    c.isDigit := by
  have hspells := spells_ofChar c
  rw [h] at hspells
  cases hspells with
  | digit hdigit => exact hdigit

theorem ofChar_of_isLower {c : Char} (h : c.isLower) : Token.ofChar c = .waypoint c .define := by
  unfold Token.ofChar
  rw [if_neg (not_isDigit_of_isLower h), if_pos h]

theorem ofChar_of_isUpper {c : Char} (h : c.isUpper) :
    Token.ofChar c = .waypoint c.toLower .jump := by
  have hdigit : ¬ c.isDigit := fun hdigit => not_isUpper_of_isDigit hdigit h
  have hlower : ¬ c.isLower := fun hlower => not_isUpper_of_isLower hlower h
  unfold Token.ofChar
  rw [if_neg hdigit, if_neg hlower, if_pos h]

/-! ### The first fault -/

/-- A fault names the first character of a text outside the alphabet, and the number
of characters before it. -/
def FirstOutside (text : List Char) (fault : InvalidToken) : Prop :=
  ∃ before after, text = before ++ fault.token :: after ∧ fault.index = before.length ∧
    (∀ c ∈ before, InAlphabet c) ∧ ¬ InAlphabet fault.token

theorem firstInvalid?_tokensFrom_eq_none_iff (index : Nat) (cs : List Char) :
    firstInvalid? (tokensFrom index cs) = none ↔ ∀ c ∈ cs, InAlphabet c := by
  induction cs generalizing index with
  | nil => simp [firstInvalid?]
  | cons c cs ih =>
    rw [tokensFrom_cons, List.forall_mem_cons]
    by_cases hc : InAlphabet c
    · rw [firstInvalid?_cons_valid _ _ (invalid?_ofChar_of_mem hc), ih]
      exact ⟨fun h => ⟨hc, h⟩, And.right⟩
    · rw [firstInvalid?_cons_invalid _ _ (invalid?_ofChar_of_not_mem hc)]
      exact ⟨fun h => by contradiction, fun h => absurd h.1 hc⟩

theorem firstInvalid?_tokensFrom_split (index : Nat) {before after : List Char} {c : Char}
    (hbefore : ∀ b ∈ before, InAlphabet b) (hc : ¬ InAlphabet c) :
    firstInvalid? (tokensFrom index (before ++ c :: after))
      = some ⟨c, index + before.length⟩ := by
  rw [tokensFrom_append, firstInvalid?_append,
    (firstInvalid?_tokensFrom_eq_none_iff index before).2 hbefore, Option.none_or, tokensFrom_cons,
    firstInvalid?_cons_invalid _ _ (invalid?_ofChar_of_not_mem hc)]

theorem exists_firstOutside {text : List Char} (h : ¬ ∀ c ∈ text, InAlphabet c) :
    ∃ fault, FirstOutside text fault := by
  induction text with
  | nil => exact absurd (List.forall_mem_nil _) h
  | cons d text ih =>
    by_cases hd : InAlphabet d
    · rw [List.forall_mem_cons, not_and] at h
      obtain ⟨⟨token, index⟩, before, after, rfl, hindex, hbefore, hout⟩ := ih (h hd)
      exact ⟨⟨token, index + 1⟩, d :: before, after, rfl, congrArg (· + 1) hindex,
        List.forall_mem_cons.2 ⟨hd, hbefore⟩, hout⟩
    · exact ⟨⟨d, 0⟩, [], text, rfl, rfl, List.forall_mem_nil _, hd⟩

theorem firstInvalid?_tokenize_eq_some_iff (pattern : String) (fault : InvalidToken) :
    firstInvalid? (tokenize pattern) = some fault ↔ FirstOutside pattern.toList fault := by
  have hfound {other : InvalidToken} (h : FirstOutside pattern.toList other) :
      firstInvalid? (tokenize pattern) = some other := by
    obtain ⟨before, after, htext, hindex, hbefore, hout⟩ := h
    rw [tokenize, htext, firstInvalid?_tokensFrom_split 0 hbefore hout, Nat.zero_add, ← hindex]
  constructor
  · intro h
    have hsome : ¬ ∀ c ∈ pattern.toList, InAlphabet c := by
      rw [← firstInvalid?_tokensFrom_eq_none_iff 0]
      exact fun hnone => by simp [tokenize, hnone] at h
    obtain ⟨other, hother⟩ := exists_firstOutside hsome
    rw [hfound hother] at h
    exact Option.some.inj h ▸ hother
  · exact hfound

/-! ### Validity -/

theorem validate_eq_ok_iff_inAlphabet (pattern : String) :
    validate pattern = .ok () ↔ ∀ c ∈ pattern.toList, InAlphabet c :=
  (validate_eq_ok_iff pattern).trans (firstInvalid?_tokensFrom_eq_none_iff 0 pattern.toList)

theorem validate_eq_error_iff (pattern : String) (fault : InvalidToken) :
    validate pattern = .error fault ↔ FirstOutside pattern.toList fault := by
  rw [← firstInvalid?_tokenize_eq_some_iff]
  unfold validate
  cases firstInvalid? (tokenize pattern) <;> simp

theorem validate_append (u v : String) :
    validate (u ++ v) = .ok () ↔ validate u = .ok () ∧ validate v = .ok () := by
  simp only [validate_eq_ok_iff_inAlphabet, String.toList_append, List.forall_mem_append]

theorem validate_push (u : String) (c : Char) :
    validate (u.push c) = .ok () ↔ validate u = .ok () ∧ InAlphabet c := by
  simp only [validate_eq_ok_iff_inAlphabet, String.toList_push, List.forall_mem_append,
    List.forall_mem_singleton]

end LineArt
