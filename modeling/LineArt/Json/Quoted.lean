import LineArt.Json.Fault

/-!
# Quoted strings

Strings between double quotes.  Writing escapes the quote, the backslash and
the control characters below the space; reading accepts every escape of JSON.

A string is first cut into pieces, each a character or a 16-bit unit written by
its number.  `Quoted.text` then joins the units to characters and refuses a half
of a pair that stands alone; a reader that only has to get past the string does
not look at that.
-/

namespace LineArt.Json

/-! ### Writing -/

def hexDigit (n : Nat) : Char := Nat.digitChar n

def escape (c : Char) : List Char :=
  match c with
  | '"' => ['\\', '"']
  | '\\' => ['\\', '\\']
  | '\x08' => ['\\', 'b']
  | '\t' => ['\\', 't']
  | '\n' => ['\\', 'n']
  | '\x0c' => ['\\', 'f']
  | '\r' => ['\\', 'r']
  | _ =>
    if c.toNat < 32 then ['\\', 'u', '0', '0', hexDigit (c.toNat / 16), hexDigit (c.toNat % 16)]
    else [c]

def quote (text : List Char) : List Char := '"' :: text.flatMap escape ++ ['"']

/-! ### Reading -/

inductive Piece where
  | char (c : Char)
  | unit (n : Nat)
deriving DecidableEq

/-- A string cut into pieces, up to the fault at which it broke off, if any. -/
structure Quoted where
  pieces : List Piece
  fault : Option Fault
deriving DecidableEq

def hexValue? (c : Char) : Option Nat :=
  if '0' ≤ c ∧ c ≤ '9' then some (c.toNat - '0'.toNat)
  else if 'a' ≤ c ∧ c ≤ 'f' then some (c.toNat - 'a'.toNat + 10)
  else if 'A' ≤ c ∧ c ≤ 'F' then some (c.toNat - 'A'.toNat + 10)
  else none

def byteCount (text : List Char) : Nat := text.foldr (fun c n => c.utf8Size + n) 0

/-- The four hexadecimal digits of a unit, and what follows them.  They are missing where
fewer than four bytes are left. -/
def readUnit (text : List Char) : Except Fault (Nat × List Char) :=
  match text with
  | a :: b :: c :: d :: rest =>
    match hexValue? a, hexValue? b, hexValue? c, hexValue? d with
    | some a, some b, some c, some d => .ok (((a * 16 + b) * 16 + c) * 16 + d, rest)
    | _, _, _, _ => .error .malformed
  | _ =>
    if byteCount text < 4 then .error .truncated else .error .malformed

def unescape? (c : Char) : Option Char :=
  match c with
  | '"' => some '"'
  | '\\' => some '\\'
  | '/' => some '/'
  | 'b' => some '\x08'
  | 'f' => some '\x0c'
  | 'n' => some '\n'
  | 'r' => some '\r'
  | 't' => some '\t'
  | _ => none

namespace Quoted

def push (p : Piece) (q : Quoted × Option (List Char)) : Quoted × Option (List Char) :=
  ({ q.1 with pieces := p :: q.1.pieces }, q.2)

def broken (f : Fault) : Quoted × Option (List Char) := (⟨[], some f⟩, none)

/-- Cuts the text after an opening quote into pieces; with them comes what follows the
closing quote, if the string is closed.  The number bounds the pieces. -/
def readPieces : Nat → List Char → Quoted × Option (List Char)
  | 0, _ => broken .truncated
  | _ + 1, [] => broken .truncated
  | n + 1, c :: rest =>
    if c = '"' then (⟨[], none⟩, some rest)
    else if c = '\\' then
      match rest with
      | [] => broken .truncated
      | e :: rest =>
        if e = 'u' then
          match readUnit rest with
          | .ok (unit, rest) => push (.unit unit) (readPieces n rest)
          | .error f => broken f
        else
          match unescape? e with
          | some u => push (.char u) (readPieces n rest)
          | none => broken .malformed
    else if c.toNat < 32 then broken .malformed
    else push (.char c) (readPieces n rest)

def read (text : List Char) : Quoted × Option (List Char) := readPieces (text.length + 1) text

def isHigh (n : Nat) : Bool := 0xD800 ≤ n && n ≤ 0xDBFF

def isLow (n : Nat) : Bool := 0xDC00 ≤ n && n ≤ 0xDFFF

def pair (high low : Nat) : Char :=
  Char.ofNat ((high - 0xD800) * 0x400 + (low - 0xDC00) + 0x10000)

/-- Joins pieces to characters; the fault given is the one met after the last piece. -/
def join (ending : Option Fault) : List Piece → Except Fault (List Char)
  | [] =>
    match ending with
    | some f => .error f
    | none => .ok []
  | .char c :: rest => (join ending rest).map (c :: ·)
  | .unit n :: rest =>
    if isLow n then .error .malformed
    else if isHigh n then
      match rest with
      | .unit m :: rest =>
        if isLow m then (join ending rest).map (pair n m :: ·) else .error .malformed
      | .char _ :: _ => .error .malformed
      | [] => .error (ending.getD .malformed)
    else (join ending rest).map (Char.ofNat n :: ·)

def chars (q : Quoted) : Except Fault (List Char) := join q.fault q.pieces

def text (q : Quoted) : Except Fault String := q.chars.map String.ofList

def skip (q : Quoted) : Except Fault Unit :=
  match q.fault with
  | some f => .error f
  | none => .ok ()

end Quoted

/-! ### Reading what was written -/

def pieceOf (c : Char) : Piece :=
  if c.toNat < 32 ∧ c ∉ ['\x08', '\t', '\n', '\x0c', '\r'] then .unit c.toNat else .char c

theorem hexValue?_hexDigit {n : Nat} (h : n < 16) : hexValue? (hexDigit n) = some n := by
  have all : ∀ m : Fin 16, hexValue? (hexDigit m.val) = some m.val := by decide
  exact all ⟨n, h⟩

namespace Quoted

theorem readPieces_escape (n : Nat) (c : Char) (rest : List Char) :
    readPieces (n + 1) (escape c ++ rest) = push (pieceOf c) (readPieces n rest) := by
  unfold escape
  split
  · simp [readPieces, unescape?, pieceOf]
  · simp [readPieces, unescape?, pieceOf]
  · simp [readPieces, unescape?, pieceOf]
  · simp [readPieces, unescape?, pieceOf]
  · simp [readPieces, unescape?, pieceOf]
  · simp [readPieces, unescape?, pieceOf]
  · simp [readPieces, unescape?, pieceOf]
  · rename_i hq hb h8 ht hn hf hr
    split
    · rename_i h
      have hx := hexValue?_hexDigit (n := c.toNat / 16) (by omega)
      have hy := hexValue?_hexDigit (n := c.toNat % 16) (by omega)
      have h0 : hexValue? '0' = some 0 := by decide
      have hv : c.toNat / 16 * 16 + c.toNat % 16 = c.toNat := by omega
      have hp : pieceOf c = .unit c.toNat := by
        unfold pieceOf
        rw [if_pos]
        exact ⟨h, by simp; exact ⟨h8, ht, hn, hf, hr⟩⟩
      simp [readPieces, readUnit, h0, hx, hy, hp, hv]
    · rename_i h
      have hp : pieceOf c = .char c := by
        unfold pieceOf
        rw [if_neg]
        exact fun hc => h hc.1
      have hq' : c ≠ '"' := hq
      have hb' : c ≠ '\\' := hb
      simp [readPieces, hp, h, hq', hb']

theorem readPieces_flatMap_escape (n : Nat) (text rest : List Char) (h : text.length ≤ n) :
    readPieces (n + 1) (text.flatMap escape ++ '"' :: rest)
      = (⟨text.map pieceOf, none⟩, some rest) := by
  induction text generalizing n with
  | nil => simp [readPieces]
  | cons c cs ih =>
    cases n with
    | zero => simp at h
    | succ n =>
      have hn : cs.length ≤ n := by
        simp only [List.length_cons] at h
        omega
      rw [List.flatMap_cons, List.append_assoc, readPieces_escape, ih n hn]
      rfl

theorem join_pieceOf_cons (ending : Option Fault) (c : Char) (ps : List Piece) :
    join ending (pieceOf c :: ps) = (join ending ps).map (c :: ·) := by
  unfold pieceOf
  split
  · rename_i h
    have hl : isLow c.toNat = false := by
      simp only [isLow, Bool.and_eq_false_iff, decide_eq_false_iff_not]
      omega
    have hh : isHigh c.toNat = false := by
      simp only [isHigh, Bool.and_eq_false_iff, decide_eq_false_iff_not]
      omega
    rw [join.eq_def]
    simp [hl, hh]
  · rw [join.eq_def]

theorem join_map_pieceOf (text : List Char) : join none (text.map pieceOf) = .ok text := by
  induction text with
  | nil => rfl
  | cons c cs ih =>
    rw [List.map_cons, join_pieceOf_cons, ih]
    rfl

theorem length_le_flatMap_escape (text : List Char) :
    text.length ≤ (text.flatMap escape).length := by
  induction text with
  | nil => simp
  | cons c cs ih =>
    have hc : 1 ≤ (escape c).length := by
      unfold escape
      split <;> try simp
      split <;> simp
    simp only [List.flatMap_cons, List.length_append, List.length_cons]
    omega

theorem read_quote (text rest : List Char) :
    read (text.flatMap escape ++ '"' :: rest) = (⟨text.map pieceOf, none⟩, some rest) := by
  unfold read
  apply readPieces_flatMap_escape
  have h := length_le_flatMap_escape text
  simp only [List.length_append, List.length_cons]
  omega

theorem chars_written (text : List Char) :
    chars ⟨text.map pieceOf, none⟩ = .ok text := join_map_pieceOf text

end Quoted

end LineArt.Json
