import LineArt.Proofs.Failure
import LineArt.Proofs.Verdict

/-!
# Pen and cursor

The pen of a surface is where the last motion took it, and a line is drawn from
there.  A cursor never changes its position without telling the surface: after the
prologue and after each character read, the pen is where the cursor is.
-/

namespace LineArt

variable {α : Type}

/-- Where the pen is after some instructions, if they moved it at all. -/
def penPoint? (is : List (Instruction α)) : Option (Point α) :=
  (is.filterMap Instruction.target?).getLast?

theorem penPoint?_append (is js : List (Instruction α)) :
    penPoint? (is ++ js) = (penPoint? js).or (penPoint? is) := by
  unfold penPoint?
  rw [List.filterMap_append, List.getLast?_append]

theorem penPoint?_append_of_some {js : List (Instruction α)} {p : Point α}
    (h : penPoint? js = some p) (is : List (Instruction α)) : penPoint? (is ++ js) = some p := by
  rw [penPoint?_append, h, Option.some_or]

theorem penPoint?_append_of_none {js : List (Instruction α)} (h : penPoint? js = none)
    (is : List (Instruction α)) : penPoint? (is ++ js) = penPoint? is := by
  rw [penPoint?_append, h, Option.none_or]

theorem penPoint?_motion (drawn : Bool) (p : Point α) : penPoint? [motion drawn p] = some p := by
  cases drawn <;> rfl

theorem penPoint?_prologue (config : Config α) (mode : Mode) (start : Point α) :
    penPoint? (prologue config mode start) = some start := by
  cases mode <;> rfl

theorem penPoint?_epilogue (mode : Mode) :
    penPoint? (epilogue mode : List (Instruction α)) = none := by
  cases mode <;> rfl

/-- An effect that is told to the surface takes the pen to the cursor. -/
theorem penPoint?_effect (mode : Mode) (c : Cursor α) {e : Effect α} (h : e ≠ .none) :
    penPoint? (e.instructions mode c) = some c.position := by
  cases e with
  | none => contradiction
  | moved => exact penPoint?_motion _ c.position
  | captureClosed anchor =>
    exact penPoint?_append_of_some (penPoint?_motion _ c.position) [.moveTo anchor]

/-- Some of the instructions added to those shown is a line from `p` to `q`: the pen was
left at `p` when the line to `q` was given. -/
def Draws (shown added : List (Instruction α)) (p q : Point α) : Prop :=
  ∃ lead rest, added = lead ++ .lineTo q :: rest ∧ penPoint? (shown ++ lead) = some p

theorem draws_motion {shown : List (Instruction α)} {drawn : Bool} {p q position target : Point α}
    (hpen : penPoint? shown = some position) (h : Draws shown [motion drawn target] p q) :
    p = position ∧ q = target := by
  obtain ⟨lead, rest, hadded, hlead⟩ := h
  obtain ⟨rfl, rfl, hline⟩ : lead = [] ∧ rest = [] ∧ motion drawn target = .lineTo q := by
    cases lead with
    | nil => simpa [and_comm] using hadded
    | cons i lead => simp at hadded
  rw [List.append_nil, hpen] at hlead
  have hp : position = p := Option.some.inj hlead
  have hq : target = q := by
    cases drawn with
    | false => contradiction
    | true => exact Instruction.lineTo.inj hline
  exact ⟨hp.symm, hq.symm⟩

theorem penPoint?_andThen {point : Trace α (Point α)} {next : Point α → Trace α (Cursor α)}
    {c : Cursor α} (hnext : ∀ p, (next p).outcome = .ok c →
      penPoint? (next p).instructions = some c.position)
    (h : (point.andThen next).outcome = .ok c) :
    penPoint? (point.andThen next).instructions = some c.position := by
  cases hp : point.outcome with
  | error fault =>
    rw [Trace.outcome_andThen_of_error next hp] at h
    contradiction
  | ok p =>
    rw [Trace.outcome_andThen_of_ok next hp] at h
    rw [Trace.instructions_andThen_of_ok next hp]
    exact penPoint?_append_of_some (hnext p h) point.instructions

variable [Scalar α]

/-! ### One token -/

namespace Cursor

/-- A token with nothing to tell the surface leaves the position alone. -/
theorem apply_position_of_none {c : Cursor α} {token : Token} {step : Point α}
    (h : (c.apply token step).2 = .none) : (c.apply token step).1.position = c.position := by
  cases token with
  | axis d => contradiction
  | reset => contradiction
  | blank half => cases half <;> rfl
  | waypoint name action =>
    cases action with
    | define =>
      simp only [apply]
      split <;> rfl
    | jump =>
      cases hw : c.waypoint name with
      | none => simp only [apply, hw]
      | some p =>
        simp only [apply, hw] at h
        contradiction
  | capture half =>
    cases half with
    | opening => rfl
    | closing =>
      simp only [apply]
      split <;> rfl
  | _ => rfl

theorem penPoint?_apply {c : Cursor α} {shown : List (Instruction α)}
    (h : penPoint? shown = some c.position) (mode : Mode) (token : Token) (step : Point α) :
    penPoint? (shown ++ (c.apply token step).2.instructions mode (c.apply token step).1)
      = some (c.apply token step).1.position := by
  by_cases he : (c.apply token step).2 = .none
  · have hnone : penPoint? ((c.apply token step).2.instructions mode (c.apply token step).1)
        = none := by
      rw [he]
      rfl
    rw [penPoint?_append_of_none hnone, apply_position_of_none he]
    exact h
  · exact penPoint?_append_of_some (penPoint?_effect mode _ he) shown

/-- The end of a region tells of the anchor that was set, and moves nothing. -/
theorem apply_of_captureClosed {c : Cursor α} {token : Token} {step : Point α} {anchor : Point α}
    (h : (c.apply token step).2 = .captureClosed anchor) :
    token = .capture .closing ∧ c.anchor = some anchor := by
  cases token with
  | axis d => contradiction
  | reset => contradiction
  | blank half => cases half <;> contradiction
  | waypoint name action =>
    cases action with
    | define =>
      simp only [apply] at h
      split at h <;> contradiction
    | jump =>
      simp only [apply] at h
      split at h <;> contradiction
  | capture half =>
    cases half with
    | opening => contradiction
    | closing =>
      cases ha : c.anchor with
      | none =>
        simp only [apply, ha] at h
        contradiction
      | some a =>
        simp only [apply, ha] at h
        obtain ⟨rfl⟩ := h
        exact ⟨rfl, rfl⟩
  | _ => contradiction

end Cursor

/-! ### A pass -/

theorem penPoint?_walk {c : Cursor α} {shown : List (Instruction α)}
    (h : penPoint? shown = some c.position) (step : Point α) (mode : Mode) (index : Nat)
    {cs : List Char} (hcs : ∀ char ∈ cs, InAlphabet char) :
    penPoint? (shown ++ (walk step mode c (tokensFrom index cs)).instructions)
      = some (c.read cs step).position := by
  induction cs generalizing c shown index with
  | nil =>
    have hnil : (walk step mode c (tokensFrom index [])).instructions = [] := rfl
    rw [hnil, List.append_nil]
    exact h
  | cons char cs ih =>
    obtain ⟨hchar, hrest⟩ := List.forall_mem_cons.1 hcs
    have hnext := Cursor.penPoint?_apply h mode (Token.ofChar char) step
    rw [tokensFrom_cons, walk_cons_valid _ _ _ _ _ (invalid?_ofChar_of_mem hchar),
      Trace.instructions_after, ← List.append_assoc]
    exact ih hnext (index + 1) hrest

section Reaches

variable {config : Config α} {start : Point α} {mode : Mode} {text : String} {cursor : Cursor α}
  {shown : List (Instruction α)}

theorem Reaches.penPoint? (h : Reaches config start mode text cursor shown)
    (hvalid : validate text = .ok ()) : penPoint? shown = some cursor.position := by
  have hchars := (validate_eq_ok_iff_inAlphabet text).1 hvalid
  obtain ⟨rfl, rfl⟩ := h.unique (reaches_of_valid config start mode hvalid)
  exact penPoint?_walk (penPoint?_prologue config mode start) config.step mode 0 hchars

end Reaches

/-! ### Lines of a token -/

/-- A character draws from where the cursor was to where it is.  Only a closing bracket
draws from the anchor. -/
theorem draws_apply {c : Cursor α} {shown : List (Instruction α)}
    (h : penPoint? shown = some c.position) (mode : Mode) (token : Token) (step : Point α)
    {p q : Point α}
    (hdraws : Draws shown ((c.apply token step).2.instructions mode (c.apply token step).1) p q) :
    q = (c.apply token step).1.position ∧
      if token = .capture .closing then c.anchor = some p else p = c.position := by
  cases he : (c.apply token step).2 with
  | none =>
    obtain ⟨lead, rest, hadded, -⟩ := hdraws
    rw [he] at hadded
    simp [Effect.instructions] at hadded
  | moved =>
    have htoken : token ≠ .capture .closing := by
      rintro rfl
      simp only [Cursor.apply] at he
      split at he <;> contradiction
    rw [he] at hdraws
    obtain ⟨hp, hq⟩ := draws_motion h hdraws
    rw [if_neg htoken]
    exact ⟨hq, hp⟩
  | captureClosed anchor =>
    obtain ⟨rfl, hanchor⟩ := Cursor.apply_of_captureClosed he
    rw [he] at hdraws
    -- The first instruction only moves the pen to the anchor.
    obtain ⟨lead, rest, hadded, hlead⟩ := hdraws
    obtain ⟨lead, rfl⟩ : ∃ tail, lead = .moveTo anchor :: tail := by
      cases lead with
      | nil => simp [Effect.instructions] at hadded
      | cons i tail =>
        have hhead := (List.cons.inj hadded).1
        exact ⟨tail, by simpa [Effect.instructions, eq_comm] using hhead⟩
    have hanchored : penPoint? (shown ++ [.moveTo anchor]) = some anchor :=
      penPoint?_append_of_some rfl shown
    have hconnector : Draws (shown ++ [.moveTo anchor])
        [motion (mode = .draw) (c.apply (.capture .closing) step).1.position] p q :=
      ⟨lead, rest, (List.cons.inj hadded).2, by simpa using hlead⟩
    obtain ⟨hp, hq⟩ := draws_motion hanchored hconnector
    rw [if_pos rfl, hp]
    exact ⟨hq, hanchor⟩

theorem ofChar_eq_closing_iff {c : Char} : Token.ofChar c = .capture .closing ↔ c = ']' := by
  constructor
  · intro h
    have hspells := spells_ofChar c
    rw [h] at hspells
    cases hspells
    rfl
  · rintro rfl
    rfl

/-! ### Pen and cursor -/

/-- Having read `text`, a pass has left the pen where its cursor is, whatever the surface
was told before.  The next character draws from there to where it takes the cursor, but
for a closing bracket, which draws from the anchor. -/
structure PenAt (config : Config α) (start : Point α) (mode : Mode) (text : String)
    (cursor : Cursor α) (shown : List (Instruction α)) : Prop where
  reached : Reaches config start mode text cursor shown
  pen : ∀ earlier, penPoint? (earlier ++ shown) = some cursor.position
  draws : ∀ c, InAlphabet c → ∃ next added,
    Reaches config start mode (text.push c) next (shown ++ added) ∧
    ∀ p q, Draws shown added p q →
      q = next.position ∧ if c = ']' then cursor.anchor = some p else p = cursor.position

theorem Reaches.penAt {config : Config α} {start : Point α} {mode : Mode} {text : String}
    {cursor : Cursor α} {shown : List (Instruction α)}
    (h : Reaches config start mode text cursor shown) (hvalid : validate text = .ok ()) :
    PenAt config start mode text cursor shown := by
  have hpen := h.penPoint? hvalid
  refine ⟨h, penPoint?_append_of_some hpen, ?_⟩
  intro c hc
  refine ⟨_, _, h.push hc, ?_⟩
  intro p q hdraws
  have hends := draws_apply hpen mode (Token.ofChar c) config.step hdraws
  simp only [ofChar_eq_closing_iff] at hends
  exact hends

theorem penPoint?_execute {config : Config α} {start : Point α} {pattern : String} {mode : Mode}
    {cursor : Cursor α} (h : (execute config start pattern mode).outcome = .ok cursor) :
    penPoint? (execute config start pattern mode).instructions = some cursor.position := by
  have hverdict := verdict_execute config start pattern mode
  have hvalid : validate pattern = .ok () := by
    rw [← hverdict, Trace.verdict, h]
    rfl
  have hreached := reaches_of_valid config start mode hvalid
  have hcursor := Except.ok.inj (h.symm.trans hreached.outcome)
  rw [hreached.instructions, penPoint?_append_of_none (penPoint?_epilogue mode), hcursor]
  exact hreached.penPoint? hvalid

theorem exists_split_of_error {pattern : String} {fault : InvalidToken}
    (h : validate pattern = .error fault) :
    ∃ u v : String, pattern = u.push fault.token ++ v ∧ u.length = fault.index ∧
      validate u = .ok () ∧ ¬ InAlphabet fault.token := by
  obtain ⟨before, after, htext, hindex, hbefore, hout⟩ := (validate_eq_error_iff pattern fault).1 h
  refine ⟨String.ofList before, String.ofList after, ?_, ?_, ?_, hout⟩
  · apply String.toList_inj.1
    simp [htext]
  · rw [hindex, String.length_ofList]
  · rw [validate_eq_ok_iff_inAlphabet, String.toList_ofList]
    exact hbefore

theorem penAt_of_error {config : Config α} {start : Point α} {pattern : String} {mode : Mode}
    {fault : InvalidToken} (h : (execute config start pattern mode).outcome = .error fault) :
    ∃ u v cursor, pattern = u.push fault.token ++ v ∧ u.length = fault.index ∧
      PenAt config start mode u cursor (execute config start pattern mode).instructions := by
  have hfault : validate pattern = .error fault := by
    rw [← verdict_execute config start pattern mode, Trace.verdict, h]
    rfl
  obtain ⟨u, v, rfl, hindex, hvalid, hout⟩ := exists_split_of_error hfault
  have hreached := reaches_of_valid config start mode hvalid
  have hshown := congrArg Trace.instructions (hreached.breaks hout v)
  rw [Trace.instructions_after, Trace.fail, List.append_nil] at hshown
  rw [hshown]
  exact ⟨u, v, _, rfl, hindex, hreached.penAt hvalid⟩

/-- A pass leaves the pen where its cursor is, after every valid prefix of its text, the
one before a bad character among them, and it draws from there.  A run that succeeds,
from a given or a centered start, ends with the pen where its final cursor is. -/
theorem pen_follows_cursor (config : Config α) (pattern : String) (mode : Mode) :
    (∀ (start : Point α) (u v : String), pattern = u ++ v → validate u = .ok () →
      ∃ cursor shown, PenAt config start mode u cursor shown) ∧
    (∀ (start : Point α) (fault : InvalidToken),
      (execute config start pattern mode).outcome = .error fault →
      ∃ u v cursor, pattern = u.push fault.token ++ v ∧ u.length = fault.index ∧
        PenAt config start mode u cursor (execute config start pattern mode).instructions) ∧
    ∀ (start : Start α) (cursor : Cursor α),
      (run config start pattern mode).outcome = .ok cursor →
      penPoint? (run config start pattern mode).instructions = some cursor.position := by
  refine ⟨?_, fun start fault => penAt_of_error, ?_⟩
  · intro start u v _ hvalid
    exact ⟨_, _, (reaches_of_valid config start mode hvalid).penAt hvalid⟩
  · intro start cursor hcursor
    exact penPoint?_andThen (fun point => penPoint?_execute) hcursor

/-- The law before a connector, before a bad character, and at the end of a run. -/
theorem pen_follows_cursor_past_connector :
    (∃ cursor shown, PenAt (.standard : Config Float32) .origin .draw "a5.[3|A" cursor shown) ∧
    (∃ u v cursor, "a5.[3|A]#2." = u.push '#' ++ v ∧ u.length = 8 ∧
      PenAt (.standard : Config Float32) .origin .draw u cursor
        (execute .standard .origin "a5.[3|A]#2." .draw).instructions) ∧
    ∃ cursor, (run (.standard : Config Float32) (.ofPoint .origin) "a5.[3|A]" .draw).outcome
        = .ok cursor ∧
      penPoint? (run (.standard : Config Float32) (.ofPoint .origin) "a5.[3|A]" .draw).instructions
        = some cursor.position := by
  have hopen : validate "a5.[3|A" = .ok () := (validate_eq_ok_iff _).2 (by decide +kernel)
  have hclosed : validate "a5.[3|A]" = .ok () := (validate_eq_ok_iff _).2 (by decide +kernel)
  have hbad : ¬ InAlphabet '#' := by decide
  obtain ⟨hbefore, hfails, -⟩ := pen_follows_cursor (.standard : Config Float32) "a5.[3|A]#2." .draw
  obtain ⟨-, -, hends⟩ := pen_follows_cursor (.standard : Config Float32) "a5.[3|A]" .draw
  refine ⟨hbefore .origin "a5.[3|A" "]#2." (by decide +kernel) hopen, ?_, ?_⟩
  · have htext : "a5.[3|A]".push '#' ++ "2." = "a5.[3|A]#2." := by decide +kernel
    have hlength : "a5.[3|A]".length = 8 := by decide +kernel
    have hcut := breaksOff_execute (.standard : Config Float32) "2." .origin .draw hclosed hbad
    rw [htext, hlength] at hcut
    exact hfails .origin ⟨'#', 8⟩ hcut.failed
  · have hreached := reaches_of_valid (.standard : Config Float32) .origin .draw hclosed
    exact ⟨_, hreached.outcome, hends (.ofPoint .origin) _ hreached.outcome⟩

end LineArt
