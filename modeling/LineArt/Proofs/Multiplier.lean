import LineArt.Cursor
import Mathlib.Data.List.DropRight

/-!
# The pending multiplier

The multiplier a cursor carries can be told from the tokens behind it: it is the number
that all digits since the last move or reset spell, however large, held at the greatest
count.  Only moves and resets use it up.
-/

namespace LineArt

/-! ### What the tokens say -/

namespace Token

def digit? : Token → Option UInt8
  | digit value => some value
  | _ => none

/-- Moves along an axis and resets leave no multiplier pending. -/
def usesCount : Token → Bool
  | axis _ => true
  | reset => true
  | _ => false

end Token

/-- The digits since the last move or reset, whatever else stands between them. -/
def pendingDigits (tokens : List Token) : List UInt8 :=
  (tokens.rtakeWhile fun t => !t.usesCount).filterMap Token.digit?

/-- The number some digits spell, by Horner's rule.  A digit may be above nine. -/
def hornerValue (digits : List UInt8) : ℕ := digits.foldl (fun n d => 10 * n + d.toNat) 0

theorem pendingDigits_concat (tokens : List Token) (t : Token) :
    pendingDigits (tokens ++ [t])
      = if t.usesCount then [] else pendingDigits tokens ++ t.digit?.toList := by
  rw [pendingDigits, List.rtakeWhile_concat]
  by_cases h : t.usesCount
  · simp [h]
  · cases hd : t.digit? <;> simp [h, hd, pendingDigits]

theorem hornerValue_concat (digits : List UInt8) (d : UInt8) :
    hornerValue (digits ++ [d]) = 10 * hornerValue digits + d.toNat := by
  rw [hornerValue, List.foldl_append]
  rfl

/-! ### Saturating steps -/

theorem toNat_saturatingMul (a b : UInt32) :
    (saturatingMul a b).toNat = min (a.toNat * b.toNat) greatestCount := toNat_clampCount _

theorem toNat_saturatingAdd (a b : UInt32) :
    (saturatingAdd a b).toNat = min (a.toNat + b.toNat) greatestCount := toNat_clampCount _

/-- Holding the product and then the sum at the bound is holding the sum once. -/
theorem toNat_pushDigit (pending : Option UInt32) (d : UInt8) :
    (pushDigit pending d).toNat
      = min (10 * (pending.getD 0).toNat + d.toNat) greatestCount := by
  have hten : (10 : UInt32).toNat = 10 := rfl
  rw [pushDigit, toNat_saturatingAdd, toNat_saturatingMul, UInt8.toNat_toUInt32, hten]
  omega

/-- A digit after a number that was held at the bound spells what it spells after the
number itself, held at the bound. -/
theorem min_horner_step (n d bound : ℕ) :
    min (10 * min n bound + d) bound = min (10 * n + d) bound := by
  omega

/-! ### What a cursor carries -/

namespace Cursor

variable {α : Type}

/-- A cursor carries the number that some digits spell, held at the greatest count, or
nothing if there are none. -/
def Carries (c : Cursor α) (digits : List UInt8) : Prop :=
  c.multiplier = if digits = [] then none else some (clampCount (hornerValue digits))

theorem carries_start (p : Point α) : (start p).Carries [] := rfl

theorem Carries.toNat_pending {c : Cursor α} {digits : List UInt8} (h : c.Carries digits) :
    (c.multiplier.getD 0).toNat = min (hornerValue digits) greatestCount := by
  rw [h]
  by_cases hnil : digits = []
  · rw [if_pos hnil, hnil]
    rfl
  · rw [if_neg hnil]
    exact toNat_clampCount _

theorem Carries.pushDigit {c : Cursor α} {digits : List UInt8} (h : c.Carries digits)
    (d : UInt8) : LineArt.pushDigit c.multiplier d = clampCount (hornerValue (digits ++ [d])) := by
  apply UInt32.toNat_inj.1
  calc (LineArt.pushDigit c.multiplier d).toNat
      = min (10 * (c.multiplier.getD 0).toNat + d.toNat) greatestCount := toNat_pushDigit _ d
    _ = min (10 * min (hornerValue digits) greatestCount + d.toNat) greatestCount := by
        rw [h.toNat_pending]
    _ = min (10 * hornerValue digits + d.toNat) greatestCount := min_horner_step _ _ _
    _ = (clampCount (hornerValue (digits ++ [d]))).toNat := by
        rw [← hornerValue_concat]
        exact (toNat_clampCount _).symm

theorem Carries.toNat_count {c : Cursor α} {digits : List UInt8} (h : c.Carries digits)
    (hfit : hornerValue digits ≤ greatestCount) :
    c.count.toNat = if digits = [] then 1 else hornerValue digits := by
  rw [count, h]
  split
  · rfl
  · exact (toNat_clampCount _).trans (Nat.min_eq_left hfit)

variable [Scalar α]

/-- The cursor after some calls, each giving a token and the step to use. -/
def callAll (c : Cursor α) (calls : List (Token × Point α)) : Cursor α :=
  calls.foldl (fun c call => (c.apply call.1 call.2).1) c

theorem callAll_cons (c : Cursor α) (call : Token × Point α)
    (calls : List (Token × Point α)) :
    c.callAll (call :: calls) = (c.apply call.1 call.2).1.callAll calls := rfl

theorem callAll_append (c : Cursor α) (calls more : List (Token × Point α)) :
    c.callAll (calls ++ more) = (c.callAll calls).callAll more := List.foldl_append

theorem callAll_concat (c : Cursor α) (calls : List (Token × Point α)) (call : Token × Point α) :
    c.callAll (calls ++ [call]) = ((c.callAll calls).apply call.1 call.2).1 :=
  c.callAll_append calls [call]

/-- The step: a digit is put behind the others, a move or reset drops them all, and any
other token keeps them. -/
theorem Carries.apply {c : Cursor α} {digits : List UInt8} (h : c.Carries digits) (t : Token)
    (step : Point α) :
    (c.apply t step).1.Carries (if t.usesCount then [] else digits ++ t.digit?.toList) := by
  unfold Carries
  rw [apply_multiplier]
  cases t with
  | digit value =>
    have hne : digits ++ [value] ≠ [] := List.concat_ne_nil value digits
    exact (congrArg some (h.pushDigit value)).trans (if_neg hne).symm
  | axis d => rfl
  | reset => rfl
  | _ => simpa [Token.usesCount, Token.digit?, Carries] using h

/-- The run: a cursor carries the digits that the tokens behind it left pending. -/
theorem carries_callAll (p : Point α) (calls : List (Token × Point α)) :
    ((start p).callAll calls).Carries (pendingDigits (calls.map Prod.fst)) := by
  induction calls using List.reverseRecOn with
  | nil => exact carries_start p
  | append_singleton calls call ih =>
    rw [callAll_concat, List.map_append, List.map_singleton, pendingDigits_concat]
    exact ih.apply call.1 call.2

end Cursor

variable {α : Type} [Scalar α]

/-- Whatever tokens a cursor was given since its start, at whatever steps, it carries no
multiplier just if no digit came since the last move or reset, and else the number that all
digits since then spell, held at the greatest count.  A move is scaled by that number, by
one if there is none, and leaves nothing pending; a jump leaves it as it is. -/
theorem multiplier_is_clamped_value (p : Point α) (calls : List (Token × Point α)) :
    let c := (Cursor.start p).callAll calls
    let digits := pendingDigits (calls.map Prod.fst)
    (c.multiplier = none ↔ digits = []) ∧
    c.multiplier.map UInt32.toNat
      = (if digits = [] then none else some (min (hornerValue digits) greatestCount)) ∧
    (∀ d step,
      (c.apply (.axis d) step).1.position
          = c.position + (d.unit * step).scale (Scalar.ofCount
              (if digits = [] then 1 else clampCount (hornerValue digits))) ∧
        (c.apply (.axis d) step).1.multiplier = none) ∧
    ∀ name step, (c.apply (.waypoint name .jump) step).1.multiplier = c.multiplier := by
  intro c digits
  have hcarries : c.multiplier
      = if digits = [] then none else some (clampCount (hornerValue digits)) :=
    Cursor.carries_callAll p calls
  have hcount : c.count = if digits = [] then 1 else clampCount (hornerValue digits) := by
    rw [Cursor.count, hcarries]
    split <;> rfl
  refine ⟨?_, ?_, ?_, ?_⟩
  · rw [hcarries]
    split <;> simp_all
  · rw [hcarries]
    split
    · rfl
    · exact congrArg some (toNat_clampCount _)
  · intro d step
    refine ⟨?_, Cursor.apply_multiplier c _ step⟩
    rw [← hcount]
    rfl
  · intro name step
    exact Cursor.apply_multiplier c _ step

example : pendingDigits [.digit 9, .axis .posX, .digit 0, .waypoint 'a' .jump, .digit 255, .space]
    = [0, 255] := by decide

end LineArt
