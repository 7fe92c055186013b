import LineArt.Text.Printable
import LineArt.Token

/-!
# Quoted characters

How a message names a single character: between single quotes, with an escape
where the character itself would not be readable there.
-/

namespace LineArt.Text

/-- A character by its code point, in hexadecimal and without leading zeros. -/
def byNumber (c : Char) : List Char :=
  "\\u\x7b".toList ++ Nat.toDigits 16 c.toNat ++ ['\x7d']

def escaped (c : Char) : List Char :=
  match c with
  | '\x00' => ['\\', '0']
  | '\t' => ['\\', 't']
  | '\r' => ['\\', 'r']
  | '\n' => ['\\', 'n']
  | '\'' => ['\\', '\'']
  | '\\' => ['\\', '\\']
  | _ => if isPrintable c && !isExtender c then [c] else byNumber c

def quoted (c : Char) : String := String.ofList (['\''] ++ escaped c ++ ['\''])

end LineArt.Text

namespace LineArt

def InvalidToken.message (fault : InvalidToken) : String :=
  "invalid pattern token " ++ Text.quoted fault.token
    ++ " at position " ++ Nat.repr fault.index

end LineArt
