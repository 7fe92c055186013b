import LineArt.Proofs.Lookback
import LineArt.Proofs.Prefix

/-!
# Regions and bindings

A run carries forward in its pen, anchor and waypoints what can be read off the text
behind it.  `Cursor.Reflects` says that the two agree; every character keeps them so,
and shows the motions that the text tells.
-/

namespace LineArt

variable {α : Type}

/-- A cursor knows of the text before it which region it is in and which letters are
bound. -/
structure Cursor.Reflects (c : Cursor α) (before : List Char) : Prop where
  pen : c.pen = .lift ↔ nearest? parentheses before = some '('
  anchor : c.anchor.isSome ↔ nearest? brackets before = some '['
  waypoint : ∀ name, (c.waypoint name).isSome ↔ name.isLower ∧ name ∈ before

namespace Cursor

variable {c : Cursor α} {before : List Char}

theorem reflects_start (p : Point α) : (Cursor.start p).Reflects [] where
  pen := by simp [Cursor.start]
  anchor := by simp [Cursor.start]
  waypoint name := by simp [waypoint_start]

theorem Reflects.kind_motion (h : c.Reflects before) (p : Point α) :
    (motion c.drawing p).kind = motionKind before := by
  have hpen : c.pen = .draw ↔ nearest? parentheses before ≠ some '(' := by
    rw [Ne, ← h.pen]
    cases c.pen <;> simp
  have hanchor : c.anchor.isNone ↔ nearest? brackets before ≠ some '[' := by
    rw [Ne, ← h.anchor]
    cases c.anchor <;> simp
  have hdrawing : c.drawing ↔
      nearest? parentheses before ≠ some '(' ∧ nearest? brackets before ≠ some '[' := by
    rw [← hpen, ← hanchor]
    simp [drawing]
  unfold motion motionKind
  by_cases hd : c.drawing
  · rw [if_pos hd, if_pos (hdrawing.1 hd)]
    rfl
  · rw [if_neg hd, if_neg (mt hdrawing.2 hd)]
    rfl

variable [Scalar α]

theorem apply_pen_of_not_mem (c : Cursor α) {char : Char} (step : Point α)
    (h : char ∉ parentheses) : (c.apply (Token.ofChar char) step).1.pen = c.pen := by
  have hspells := spells_ofChar char
  generalize Token.ofChar char = token at hspells ⊢
  rw [apply_pen]
  cases hspells with
  | lift => exact absurd (by decide) h
  | lower => exact absurd (by decide) h
  | _ => rfl

theorem apply_anchor_of_not_mem (c : Cursor α) {char : Char} (step : Point α)
    (h : char ∉ brackets) : (c.apply (Token.ofChar char) step).1.anchor = c.anchor := by
  have hspells := spells_ofChar char
  generalize Token.ofChar char = token at hspells ⊢
  rw [apply_anchor]
  cases hspells with
  | enter => exact absurd (by decide) h
  | leave => exact absurd (by decide) h
  | _ => rfl

theorem apply_waypoint_of_not_isLower (c : Cursor α) {char : Char} (step : Point α) (name : Char)
    (h : ¬ char.isLower) : (c.apply (Token.ofChar char) step).1.waypoint name = c.waypoint name := by
  have hspells := spells_ofChar char
  generalize Token.ofChar char = token at hspells ⊢
  rw [apply_waypoint]
  cases hspells with
  | define hlower => exact absurd hlower h
  | _ => rfl

theorem apply_waypoint_of_isLower (c : Cursor α) {char : Char} (step : Point α) (name : Char)
    (h : char.isLower) :
    (c.apply (Token.ofChar char) step).1.waypoint name
      = if name = char then some c.position else c.waypoint name := by
  rw [ofChar_of_isLower h, waypoint_define]
  simp only [letterSlot?_eq_iff, h, true_and]

theorem Reflects.apply (h : c.Reflects before) (char : Char) (step : Point α) :
    (c.apply (Token.ofChar char) step).1.Reflects (before ++ [char]) := by
  constructor
  · by_cases hmem : char ∈ parentheses
    · rw [nearest?_concat_of_mem before hmem, apply_pen]
      rcases eq_of_mem_parentheses hmem with rfl | rfl <;> simp [Token.ofChar]
    · rw [nearest?_concat_of_not_mem before hmem, c.apply_pen_of_not_mem step hmem]
      exact h.pen
  · by_cases hmem : char ∈ brackets
    · rw [nearest?_concat_of_mem before hmem, apply_anchor]
      rcases eq_of_mem_brackets hmem with rfl | rfl <;> simp [Token.ofChar]
    · rw [nearest?_concat_of_not_mem before hmem, c.apply_anchor_of_not_mem step hmem]
      exact h.anchor
  · intro name
    rw [List.mem_append, List.mem_singleton]
    by_cases hlower : char.isLower
    · rw [c.apply_waypoint_of_isLower step name hlower]
      by_cases hname : name = char
      · simp [hname, hlower]
      · rw [if_neg hname, h.waypoint name]
        simp [hname]
    · have hne (hn : name.isLower) : name ≠ char := fun heq => hlower (heq ▸ hn)
      rw [c.apply_waypoint_of_not_isLower step name hlower, h.waypoint name]
      exact and_congr_right fun hn => (or_iff_left (hne hn)).symm

/-- The step: a character shows the motions that the text before it tells. -/
theorem Reflects.kinds_apply (h : c.Reflects before) {char : Char} (step : Point α)
    (hchar : InAlphabet char) :
    ((c.apply (Token.ofChar char) step).2.instructions .draw
      (c.apply (Token.ofChar char) step).1).map Instruction.kind = kindsAt before char := by
  have hmove (p : Point α) : [(motion c.drawing p).kind] = [motionKind before] := by
    rw [h.kind_motion]
  have hspells := spells_ofChar char
  generalize Token.ofChar char = token at hspells ⊢
  cases hspells with
  | invalid hout => exact absurd hchar hout
  | digit hdigit =>
    exact (kindsAt_eq_nil before (not_mem_of_any (by decide) hdigit)
      (not_isUpper_of_isDigit hdigit) (by rintro rfl; contradiction)).symm
  | define hlower =>
    have hnil : kindsAt before char = [] :=
      kindsAt_eq_nil before (not_mem_of_any (by decide) hlower)
        (not_isUpper_of_isLower hlower) (by rintro rfl; contradiction)
    rw [hnil, Cursor.apply]
    split <;> rfl
  | space hspace =>
    simp only [List.mem_cons, List.not_mem_nil, or_false] at hspace
    rcases hspace with rfl | rfl | rfl | rfl <;> rfl
  | lift => rfl
  | lower => rfl
  | enter => rfl
  | axis d =>
    have hkind : kindsAt before d.symbol = [motionKind before] := by cases d <;> rfl
    rw [hkind]
    exact hmove _
  | reset => exact hmove _
  | jump hupper =>
    have hkind : kindsAt before char
        = if char.toLower ∈ before then [motionKind before] else [] := by
      rw [kindsAt, if_neg (not_mem_of_any (by decide) hupper), if_pos hupper]
    -- There is a point to jump to just if the small letter was written before.
    have hbound := h.waypoint char.toLower
    simp only [isLower_toLower hupper, true_and] at hbound
    rw [hkind, Cursor.apply]
    split
    · rename_i p hp
      rw [hp] at hbound
      rw [if_pos (hbound.1 rfl)]
      exact hmove p
    · rename_i hp
      rw [hp] at hbound
      rw [if_neg (fun hmem => by simpa using hbound.2 hmem)]
      rfl
  | leave =>
    have hkind : kindsAt before ']'
        = if nearest? brackets before = some '[' then [.moveTo, .lineTo] else [] := rfl
    -- There is an anchor just if the latest bracket opened a region.
    have hopen := h.anchor
    rw [hkind, Cursor.apply]
    split
    · rename_i anchor ha
      rw [ha] at hopen
      rw [if_pos (hopen.1 rfl)]
      rfl
    · rename_i ha
      rw [ha] at hopen
      rw [if_neg (fun hnear => by simpa using hopen.2 hnear)]
      rfl

theorem Reflects.read (h : c.Reflects before) (cs : List Char) (step : Point α) :
    (c.read cs step).Reflects (before ++ cs) := by
  induction cs generalizing c before with
  | nil => rw [List.append_nil]; exact h
  | cons char cs ih =>
    have hrest := ih (h.apply char step)
    rw [List.append_assoc] at hrest
    exact hrest

/-- The run: drawing shows the kinds that the text tells, motion by motion. -/
theorem Reflects.kinds_walk (h : c.Reflects before) (step : Point α) (index : Nat)
    {cs : List Char} (hcs : ∀ char ∈ cs, InAlphabet char) :
    (walk step .draw c (tokensFrom index cs)).instructions.map Instruction.kind
      = kindsAfter before cs := by
  induction cs generalizing c before index with
  | nil => rfl
  | cons char cs ih =>
    obtain ⟨hchar, hrest⟩ := List.forall_mem_cons.1 hcs
    rw [tokensFrom_cons, walk_cons_valid _ _ _ _ _ (invalid?_ofChar_of_mem hchar),
      Trace.instructions_after, List.map_append, h.kinds_apply step hchar,
      ih (h.apply char step) (index + 1) hrest]
    rfl

end Cursor

/-! ### Whole passes -/

variable [Scalar α]

theorem exists_motions (config : Config α) (start : Point α) {pattern : String}
    (hvalid : validate pattern = .ok ()) :
    ∃ motions : List (Instruction α),
      (execute config start pattern .draw).instructions
        = [.setStrokeStyle config.strokeColor config.strokeWidth, .beginPath, .moveTo start]
          ++ motions ++ [.stroke] ∧
      motions.map Instruction.kind = textKinds pattern := by
  refine ⟨_, (reaches_of_valid config start .draw hvalid).instructions, ?_⟩
  exact (Cursor.reflects_start start).kinds_walk config.step 0
    ((validate_eq_ok_iff_inAlphabet pattern).1 hvalid)

theorem kinds_execute (config : Config α) (start : Point α) {pattern : String}
    (hvalid : validate pattern = .ok ()) :
    (execute config start pattern .draw).instructions.map Instruction.kind
      = [.setStrokeStyle, .beginPath, .moveTo] ++ textKinds pattern ++ [.stroke] := by
  obtain ⟨motions, hinstructions, hkinds⟩ := exists_motions config start hvalid
  rw [hinstructions, List.map_append, List.map_append, hkinds]
  rfl

/-- A drawing pass over a valid pattern sets the style, opens the path, moves to the
start, makes the motions its text tells and commits them.  So the kinds of what it
records depend on neither the start nor the settings, and a mark that repeats the
nearest earlier one of its pair, however much stands between, makes no difference. -/
theorem drawn_kinds_read_off_text (pattern : String) (hvalid : validate pattern = .ok ()) :
    (∀ (config : Config α) (start : Point α), ∃ motions : List (Instruction α),
      (execute config start pattern .draw).instructions
        = [.setStrokeStyle config.strokeColor config.strokeWidth, .beginPath, .moveTo start]
          ++ motions ++ [.stroke] ∧
      motions.map Instruction.kind = textKinds pattern) ∧
    (∀ (config config' : Config α) (start start' : Point α),
      (execute config start pattern .draw).instructions.map Instruction.kind
        = (execute config' start' pattern .draw).instructions.map Instruction.kind) ∧
    ∀ (config : Config α) (start : Point α) (u v : String) (mark : Char),
      pattern = u.push mark ++ v →
      nearest? parentheses u.toList = some mark ∨ nearest? brackets u.toList = some mark →
      (execute config start (u ++ v) .draw).instructions.map Instruction.kind
        = (execute config start pattern .draw).instructions.map Instruction.kind := by
  refine ⟨fun config start => exists_motions config start hvalid, ?_, ?_⟩
  · intro config config' start start'
    rw [kinds_execute config start hvalid, kinds_execute config' start' hvalid]
  · rintro config start u v mark rfl hmark
    have hparts := (validate_append (u.push mark) v).1 hvalid
    have hwithout : validate (u ++ v) = .ok () :=
      (validate_append u v).2 ⟨((validate_push u mark).1 hparts.1).1, hparts.2⟩
    rw [kinds_execute config start hvalid, kinds_execute config start hwithout,
      textKinds_repeated_mark u v hmark]

/-- The law at a pattern with both regions interleaved, a bound and an unbound jump, and
a second closing bracket, which makes no difference. -/
theorem interleaved_regions_kinds :
    (∃ motions : List (Instruction Float32),
      (execute .standard .origin "a5.B(2|[3.A)]]@" .draw).instructions
        = [.setStrokeStyle "#000000" Scalar.one, .beginPath, .moveTo .origin]
          ++ motions ++ [.stroke] ∧
      motions.map Instruction.kind
        = [.lineTo, .moveTo, .moveTo, .moveTo, .moveTo, .lineTo, .lineTo]) ∧
    (execute (.standard : Config Float32) .origin ("a5.B(2|[3.A)]" ++ "@") .draw).instructions.map
        Instruction.kind
      = (execute (.standard : Config Float32) .origin "a5.B(2|[3.A)]]@" .draw).instructions.map
        Instruction.kind := by
  have hvalid : validate "a5.B(2|[3.A)]]@" = .ok () := (validate_eq_ok_iff _).2 (by decide +kernel)
  obtain ⟨hmotions, -, hrepeated⟩ := @drawn_kinds_read_off_text Float32 _ "a5.B(2|[3.A)]]@" hvalid
  have htext : textKinds "a5.B(2|[3.A)]]@"
      = [.lineTo, .moveTo, .moveTo, .moveTo, .moveTo, .lineTo, .lineTo] := by decide +kernel
  constructor
  · rw [← htext]
    exact hmotions .standard .origin
  · exact hrepeated .standard .origin "a5.B(2|[3.A)]" "@" ']' (by decide +kernel)
      (.inr (by decide +kernel))

end LineArt
