import LineArt.Proofs.Correspondence
import LineArt.Symmetry

/-!
# Relabelled patterns

A symmetry of the text redirects the axis moves among the tokens and keeps every other
token, so a relabelled pattern is valid just when the pattern is, and fails on the same
character at the same place.  Several symmetries redirect them by the composed map.
-/

namespace LineArt

theorem firstInvalid?_redirectAll (turn : Direction → Direction) (tokens : List (Nat × Token)) :
    firstInvalid? (redirectAll turn tokens) = firstInvalid? tokens := by
  have hhead (index : Nat) (token : Token) (rest : List (Nat × Token)) :
      redirectAll turn ((index, token) :: rest)
        = (index, token.redirect turn) :: redirectAll turn rest := rfl
  induction tokens using tokens_induction with
  | nil => rfl
  | invalid index token char rest ht =>
    have hturned := (Token.invalid?_redirect turn token).trans ht
    rw [hhead, firstInvalid?_cons_invalid _ _ ht, firstInvalid?_cons_invalid _ _ hturned]
  | valid index token rest ht ih =>
    have hturned := (Token.invalid?_redirect turn token).trans ht
    rw [hhead, firstInvalid?_cons_valid _ _ ht, firstInvalid?_cons_valid _ _ hturned, ih]

theorem redirectAll_redirectAll (turn turn' : Direction → Direction)
    (tokens : List (Nat × Token)) :
    redirectAll turn' (redirectAll turn tokens) = redirectAll (turn' ∘ turn) tokens := by
  have hcomp (token : Token) : (token.redirect turn).redirect turn'
      = token.redirect (turn' ∘ turn) := by
    cases token <;> rfl
  simp only [redirectAll, List.map_map, Function.comp_def, hcomp]

namespace Symmetry

/-- Where several symmetries, one after the other, send a direction. -/
def mapAll (ss : List Symmetry) (d : Direction) : Direction := ss.foldl (fun d s => s.map d) d

theorem mapAll_append (ss ts : List Symmetry) (d : Direction) :
    mapAll (ss ++ ts) d = mapAll ts (mapAll ss d) := List.foldl_append

theorem identity_apply (pattern : String) : identity.apply pattern = pattern := if_pos rfl

theorem ofChar_onChar (s : Symmetry) (c : Char) :
    Token.ofChar (s.onChar c) = (Token.ofChar c).redirect s.map := by
  cases h : Direction.ofSymbol? c with
  | some d =>
    rw [← Direction.symbol_of_ofSymbol? h, onChar_symbol, Token.ofChar_symbol,
      Token.ofChar_symbol]
    rfl
  | none =>
    rw [onChar_of_none s h]
    cases ht : Token.ofChar c with
    | axis d =>
      rw [Token.ofSymbol?_of_ofChar ht] at h
      contradiction
    | _ => rfl

theorem tokensFrom_map_onChar (s : Symmetry) (index : Nat) (cs : List Char) :
    tokensFrom index (cs.map s.onChar) = redirectAll s.map (tokensFrom index cs) := by
  induction cs generalizing index with
  | nil => rfl
  | cons c cs ih =>
    rw [List.map_cons, tokensFrom_cons, ofChar_onChar, ih]
    rfl

theorem tokenize_apply (s : Symmetry) (pattern : String) :
    tokenize (s.apply pattern) = redirectAll s.map (tokenize pattern) := by
  unfold tokenize
  rw [toList_apply]
  exact s.tokensFrom_map_onChar 0 pattern.toList

theorem tokenize_applyAll (ss : List Symmetry) (pattern : String) :
    tokenize (applyAll ss pattern) = redirectAll (mapAll ss) (tokenize pattern) := by
  induction ss generalizing pattern with
  | nil => exact (redirectAll_id (tokenize pattern)).symm
  | cons s ss ih =>
    rw [applyAll_cons, ih, tokenize_apply, redirectAll_redirectAll]
    rfl

theorem validate_applyAll (ss : List Symmetry) (pattern : String) :
    validate (applyAll ss pattern) = validate pattern := by
  unfold validate
  rw [tokenize_applyAll, firstInvalid?_redirectAll]

theorem validate_apply (s : Symmetry) (pattern : String) :
    validate (s.apply pattern) = validate pattern := validate_applyAll [s] pattern

/-- Relabelling a pattern and reading its tokens may be done in either order: each axis move
is redirected by the composed map, every other token stays as and where it is, and the
verdict on the pattern is the same. -/
theorem relabelling_redirects_axis_tokens (ss : List Symmetry) (pattern : String) :
    tokenize (applyAll ss pattern) = redirectAll (mapAll ss) (tokenize pattern) ∧
      validate (applyAll ss pattern) = validate pattern :=
  ⟨tokenize_applyAll ss pattern, validate_applyAll ss pattern⟩

end Symmetry

end LineArt
