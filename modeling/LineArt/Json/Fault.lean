/-!
# Faults of a JSON text

Why a text is not the JSON form of a type.  A text is read from left to right,
and the first fault met decides.
-/

namespace LineArt.Json

inductive Fault where
  /-- The text is not JSON, or its shape can be that of no value of the type. -/
  | malformed
  /-- The text is JSON, but of the wrong type, range, length or name. -/
  | mismatch
  /-- The text ends too early. -/
  | truncated
deriving DecidableEq

/-! ### Reading in sequence -/

section Sequence

variable {α β : Type}

@[simp] theorem pure_eq_ok (a : α) : (pure a : Except Fault α) = .ok a := rfl

@[simp] theorem ok_bind (a : α) (next : α → Except Fault β) : (.ok a >>= next) = next a := rfl

@[simp] theorem error_bind (f : Fault) (next : α → Except Fault β) :
    ((.error f : Except Fault α) >>= next) = .error f := rfl

end Sequence

/-! ### Blanks -/

def isBlank (c : Char) : Bool := c = ' ' || c = '\n' || c = '\t' || c = '\r'

def skipBlanks (text : List Char) : List Char := text.dropWhile isBlank

end LineArt.Json
