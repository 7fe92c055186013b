import LineArt.Proofs.Containment
import LineArt.Proofs.Regions

/-!
# Restarting the picture

A reset takes the position back to the start and drops the pending count.  If no region is
open at it, all that is left of the text before is the bounds and the letters bound, and a
letter matters only to a text that recalls it before binding it.  Cursors that agree on
those letters go on alike, so the text after the reset draws what it draws on its own.
-/

namespace LineArt

variable {α : Type}

/-! ### Letters recalled -/

/-- Some capital of the text jumps to what its small letter was bound to before the text. -/
def Recalls (text : List Char) (name : Char) : Prop :=
  ∃ before capital after, text = before ++ capital :: after ∧ capital.isUpper ∧
    capital.toLower = name ∧ name ∉ before

theorem not_recalls_nil (name : Char) : ¬ Recalls [] name := by
  rintro ⟨before, capital, after, htext, -⟩
  simp at htext

/-- A text recalls a name at its first character, or further on if that does not bind it. -/
theorem recalls_cons {c name : Char} {rest : List Char} :
    Recalls (c :: rest) name ↔ c.isUpper ∧ c.toLower = name ∨ c ≠ name ∧ Recalls rest name := by
  constructor
  · rintro ⟨before, capital, after, htext, hupper, hname, hfree⟩
    cases before with
    | nil =>
      obtain ⟨rfl, -⟩ := List.cons.inj htext
      exact .inl ⟨hupper, hname⟩
    | cons b before =>
      obtain ⟨rfl, hrest⟩ := List.cons.inj htext
      rw [List.mem_cons, not_or] at hfree
      exact .inr ⟨Ne.symm hfree.1, before, capital, after, hrest, hupper, hname, hfree.2⟩
  · rintro (⟨hupper, hname⟩ | ⟨hne, before, capital, after, rfl, hupper, hname, hfree⟩)
    · exact ⟨[], c, rest, rfl, hupper, hname, List.not_mem_nil⟩
    · refine ⟨c :: before, capital, after, rfl, hupper, hname, ?_⟩
      rw [List.mem_cons, not_or]
      exact ⟨hne.symm, hfree⟩

instance decidableRecalls (name : Char) : (text : List Char) → Decidable (Recalls text name)
  | [] => isFalse (not_recalls_nil name)
  | _ :: rest =>
    have : Decidable (Recalls rest name) := decidableRecalls name rest
    decidable_of_iff _ recalls_cons.symm

theorem Recalls.isLower {text : List Char} {name : Char} (h : Recalls text name) :
    name.isLower := by
  obtain ⟨before, capital, after, -, hupper, rfl, -⟩ := h
  exact isLower_toLower hupper

/-! ### Cursors with the same way ahead -/

/-- Cursors that go on alike over the text ahead: they may differ in the bounds, and in the
letters that this text does not recall. -/
structure Cursor.AlikeAhead (c d : Cursor α) (ahead : List Char) : Prop where
  position : c.position = d.position
  origin : c.origin = d.origin
  multiplier : c.multiplier = d.multiplier
  pen : c.pen = d.pen
  anchor : c.anchor = d.anchor
  waypoint : ∀ name, Recalls ahead name → c.waypoint name = d.waypoint name

namespace Cursor

variable {c d : Cursor α} {char : Char} {rest : List Char}

theorem AlikeAhead.waypoint_toLower (h : c.AlikeAhead d (char :: rest)) (hupper : char.isUpper) :
    c.waypoint char.toLower = d.waypoint char.toLower :=
  h.waypoint _ (recalls_cons.2 (.inl ⟨hupper, rfl⟩))

theorem AlikeAhead.instructions (h : c.AlikeAhead d rest) (mode : Mode) (effect : Effect α) :
    effect.instructions mode c = effect.instructions mode d := by
  have hdrawing : c.drawing = d.drawing := by rw [drawing, drawing, h.pen, h.anchor]
  cases effect with
  | none => rfl
  | moved => rw [Effect.instructions, Effect.instructions, hdrawing, h.position]
  | captureClosed anchor => rw [Effect.instructions, Effect.instructions, h.position]

variable [Scalar α]

theorem AlikeAhead.position_apply (h : c.AlikeAhead d (char :: rest)) (step : Point α) :
    (c.apply (Token.ofChar char) step).1.position
      = (d.apply (Token.ofChar char) step).1.position := by
  have hspells := spells_ofChar char
  generalize Token.ofChar char = token at hspells ⊢
  rw [apply_position, apply_position]
  cases hspells with
  | axis dir =>
    have hcount : c.count = d.count := by rw [count, count, h.multiplier]
    simp only [displacement, hcount, h.position]
  | reset => exact h.origin
  | jump hupper =>
    have hbound := h.waypoint_toLower hupper
    simp only [hbound, h.position]
  | _ => exact h.position

theorem AlikeAhead.waypoint_apply (h : c.AlikeAhead d (char :: rest)) (step : Point α)
    {name : Char} (hname : Recalls rest name) :
    (c.apply (Token.ofChar char) step).1.waypoint name
      = (d.apply (Token.ofChar char) step).1.waypoint name := by
  have hkept (hne : char ≠ name) : c.waypoint name = d.waypoint name :=
    h.waypoint name (recalls_cons.2 (.inr ⟨hne, hname⟩))
  by_cases hlower : char.isLower
  · rw [c.apply_waypoint_of_isLower step name hlower, d.apply_waypoint_of_isLower step name hlower]
    by_cases heq : name = char
    · rw [if_pos heq, if_pos heq, h.position]
    · rw [if_neg heq, if_neg heq, hkept (Ne.symm heq)]
  · have hne : char ≠ name := fun heq => hlower (heq ▸ hname.isLower)
    rw [c.apply_waypoint_of_not_isLower step name hlower,
      d.apply_waypoint_of_not_isLower step name hlower, hkept hne]

/-- The step: a character takes such cursors to such cursors over the rest. -/
theorem AlikeAhead.apply (h : c.AlikeAhead d (char :: rest)) (step : Point α) :
    (c.apply (Token.ofChar char) step).1.AlikeAhead (d.apply (Token.ofChar char) step).1 rest where
  position := h.position_apply step
  origin := by rw [apply_origin, apply_origin, h.origin]
  multiplier := by rw [apply_multiplier, apply_multiplier, h.multiplier]
  pen := by rw [apply_pen, apply_pen, h.pen]
  anchor := by rw [apply_anchor, apply_anchor, h.position, h.anchor]
  waypoint _ hname := h.waypoint_apply step hname

theorem AlikeAhead.effect_apply (h : c.AlikeAhead d (char :: rest)) (step : Point α) :
    (c.apply (Token.ofChar char) step).2 = (d.apply (Token.ofChar char) step).2 := by
  have hspells := spells_ofChar char
  generalize Token.ofChar char = token at hspells ⊢
  rw [Cursor.effect_apply, Cursor.effect_apply, h.anchor]
  cases hspells with
  | jump hupper => simp only [h.waypoint_toLower hupper]
  | _ => rfl

theorem AlikeAhead.read {cs : List Char} (h : c.AlikeAhead d cs) (step : Point α) :
    (c.read cs step).AlikeAhead (d.read cs step) [] := by
  induction cs generalizing c d with
  | nil => exact h
  | cons char cs ih => exact ih (h.apply step)

/-- The run: such cursors show the same over the text ahead, wherever it stands. -/
theorem AlikeAhead.walk {cs : List Char} (h : c.AlikeAhead d cs) (step : Point α) (mode : Mode)
    (index index' : ℕ) (hcs : ∀ char ∈ cs, InAlphabet char) :
    (walk step mode c (tokensFrom index cs)).instructions
      = (walk step mode d (tokensFrom index' cs)).instructions := by
  induction cs generalizing c d index index' with
  | nil => rfl
  | cons char cs ih =>
    obtain ⟨hchar, hrest⟩ := List.forall_mem_cons.1 hcs
    have hvalid := invalid?_ofChar_of_mem hchar
    rw [tokensFrom_cons, tokensFrom_cons, walk_cons_valid _ _ _ _ _ hvalid,
      walk_cons_valid _ _ _ _ _ hvalid, Trace.instructions_after, Trace.instructions_after,
      h.effect_apply step, (h.apply step).instructions mode,
      ih (h.apply step) (index + 1) (index' + 1) hrest]

theorem origin_read (c : Cursor α) (cs : List Char) (step : Point α) :
    (c.read cs step).origin = c.origin := by
  induction cs generalizing c with
  | nil => rfl
  | cons char cs ih => rw [read_cons, ih, apply_origin]

/-- A reset outside both regions leaves a cursor as good as new to a text that recalls no
letter bound before. -/
theorem Reflects.alikeAhead_reset {before ahead : List Char} (h : c.Reflects before)
    (hparen : nearest? parentheses before ≠ some '(')
    (hbracket : nearest? brackets before ≠ some '[')
    (hfree : ∀ name ∈ before, ¬ Recalls ahead name) (step : Point α) :
    (c.apply .reset step).1.AlikeAhead (.start c.origin) ahead where
  position := rfl
  origin := rfl
  multiplier := rfl
  pen := by
    have hdown : c.pen ≠ .lift := mt h.pen.1 hparen
    cases hpen : c.pen with
    | draw => exact hpen
    | lift => exact absurd hpen hdown
  anchor := Option.not_isSome_iff_eq_none.1 (mt h.anchor.1 hbracket)
  waypoint name hname := by
    have hunbound : ¬ (c.waypoint name).isSome := by
      rw [h.waypoint]
      exact fun hbound => hfree name hbound.2 hname
    rw [waypoint_start]
    exact Option.not_isSome_iff_eq_none.1 hunbound

end Cursor

/-! ### Boxes put together -/

/-- The least box around two boxes. -/
def Bounds.join [Scalar α] (b c : Bounds α) : Bounds α :=
  ⟨b.min.least c.min, b.max.greatest c.max⟩

section Boxes

variable [OrderedScalar α]

/-- The tight box of two lists of points is the join of their boxes, as numbers. -/
theorem Bounds.Tight.join {b c d : Bounds α} {ps qs : List (Point α)} (hb : b.Tight ps)
    (hc : c.Tight qs) (hd : d.Tight (ps ++ qs)) (hnumber : ∀ p ∈ ps ++ qs, p.IsNumber) :
    d.Covers (b.join c) ∧ (b.join c).Covers d := by
  obtain ⟨hps, hqs⟩ := List.forall_mem_append.1 hnumber
  obtain ⟨hpx, hpy⟩ := isNumber_coordinates hps
  obtain ⟨hqx, hqy⟩ := isNumber_coordinates hqs
  obtain ⟨hminx, hminy, hmaxx, hmaxy⟩ := hd
  rw [List.map_append] at hminx hminy hmaxx hmaxy
  obtain ⟨hleft, hleft'⟩ := OrderedScalar.least_of_append hpx hqx hb.min_x hc.min_x hminx
  obtain ⟨hlow, hlow'⟩ := OrderedScalar.least_of_append hpy hqy hb.min_y hc.min_y hminy
  obtain ⟨hright, hright'⟩ := OrderedScalar.greatest_of_append hpx hqx hb.max_x hc.max_x hmaxx
  obtain ⟨hhigh, hhigh'⟩ := OrderedScalar.greatest_of_append hpy hqy hb.max_y hc.max_y hmaxy
  exact ⟨⟨hleft, hlow, hright', hhigh'⟩, ⟨hleft', hlow', hright, hhigh⟩⟩

theorem tight_execute (config : Config α) (start : Point α) (mode : Mode) {pattern : String}
    (hvalid : validate pattern = .ok ()) {c : Cursor α}
    (hc : (execute config start pattern mode).outcome = .ok c)
    (hnumber : ∀ p ∈ (execute config start pattern mode).points, p.IsNumber) :
    c.bounds.Tight (execute config start pattern mode).points := by
  have htokens := (validate_eq_ok_iff pattern).1 hvalid
  have hpoints := (reaches_of_valid config start mode hvalid).points
  rw [List.filterMap_append, points_prologue] at hpoints
  rw [outcome_execute_of_valid config start mode hvalid] at hc
  obtain rfl := Except.ok.inj hc
  rw [hpoints] at hnumber ⊢
  have hstart : start.IsNumber := hnumber start List.mem_cons_self
  have hvisited := (Cursor.visited_start hstart).walk config.step mode (tokenize pattern) htokens
    hnumber
  exact hvisited.tight

end Boxes

/-! ### Whole passes -/

/-- What a pass over `p`, a reset and `q` does, by the passes over `p` and over `q`. -/
structure Restarts [Scalar α] (config : Config α) (start : Point α) (mode : Mode) (p q : String)
    (first fresh last : Cursor α) : Prop where
  outcome_first : (execute config start p mode).outcome = .ok first
  outcome_fresh : (execute config start q mode).outcome = .ok fresh
  outcome_last : (execute config start (p.push '@' ++ q) mode).outcome = .ok last
  /-- What is shown up to the reset, and then just what `q` shows after the first move. -/
  instructions : ∃ shown added : List (Instruction α),
    (execute config start (p.push '@') mode).instructions = shown ++ epilogue mode ∧
    (execute config start q mode).instructions = prologue config mode start ++ added ∧
    (execute config start (p.push '@' ++ q) mode).instructions = shown ++ added
  points : (execute config start (p.push '@' ++ q) mode).points
    = (execute config start p mode).points ++ (execute config start q mode).points
  position : last.position = fresh.position
  pen : last.pen = fresh.pen
  anchor : last.anchor = fresh.anchor
  multiplier : last.multiplier = fresh.multiplier

section Passes

variable [Scalar α] {config : Config α} {start : Point α} {mode : Mode} {p q : String}

theorem Reaches.restarts {first : Cursor α} {shown : List (Instruction α)}
    (hfirst : Reaches config start mode p first shown) (hq : validate q = .ok ())
    (halike : (first.apply .reset config.step).1.AlikeAhead (.start start) q.toList) :
    ∃ fresh last, Restarts config start mode p q first fresh last := by
  have hchars := (validate_eq_ok_iff_inAlphabet q).1 hq
  have hfresh := reaches_of_valid config start mode hq
  have hreset : Reaches config start mode (p.push '@') (first.apply .reset config.step).1
      (shown ++ Effect.moved.instructions mode (first.apply .reset config.step).1) :=
    hfirst.push (by decide)
  have hlast := hreset.append hq
  have hend := halike.read config.step
  -- Behind the reset the walk over `q` shows what it shows from the start.
  rw [halike.walk config.step mode _ 0 hchars] at hlast
  have hback : (Effect.moved.instructions mode
      (first.apply .reset config.step).1).filterMap Instruction.target? = [start] := by
    rw [points_effect, Effect.points, halike.position]
    rfl
  refine ⟨_, _, hfirst.outcome, hfresh.outcome, hlast.outcome, ?_, ?_, hend.position, hend.pen,
    hend.anchor, hend.multiplier⟩
  · refine ⟨_, (walk config.step mode (.start start) (tokenize q)).instructions ++ epilogue mode,
      hreset.instructions, ?_, ?_⟩
    · rw [hfresh.instructions, List.append_assoc]
    · rw [hlast.instructions, List.append_assoc]
      rfl
  · rw [hlast.points, hfirst.points, hfresh.points, List.filterMap_append, List.filterMap_append,
      List.filterMap_append, hback, points_prologue, List.append_assoc]
    rfl

theorem exists_restarts (config : Config α) (start : Point α) (mode : Mode)
    (hp : validate p = .ok ()) (hq : validate q = .ok ())
    (hparen : nearest? parentheses p.toList ≠ some '(')
    (hbracket : nearest? brackets p.toList ≠ some '[')
    (hfree : ∀ name ∈ p.toList, ¬ Recalls q.toList name) :
    ∃ first fresh last, Restarts config start mode p q first fresh last := by
  have halike := ((Cursor.reflects_start start).read p.toList config.step).alikeAhead_reset
    hparen hbracket hfree config.step
  rw [Cursor.origin_read] at halike
  exact ⟨_, (reaches_of_valid config start mode hp).restarts hq halike⟩

end Passes

/-- A reset restarts the picture.  If the last parenthesis and the last square bracket of `p`,
if any, are closing ones, and `q` recalls no letter that stands in `p`, then a run over `p`,
a reset and `q` shows what `p` and the reset show, and from there what `q` shows after its
first move.  It ends where `q` ends, with the same pen, anchor and count; and if all points
are numbers, its bounds are those of `p` and of `q` put together. -/
theorem reset_restarts_picture (config : Config Float32) (start : Point Float32) (mode : Mode)
    {p q : String} (hp : validate p = .ok ()) (hq : validate q = .ok ())
    (hparen : nearest? parentheses p.toList ≠ some '(')
    (hbracket : nearest? brackets p.toList ≠ some '[')
    (hfree : ∀ name ∈ p.toList, ¬ Recalls q.toList name) :
    ∃ first fresh last, Restarts config start mode p q first fresh last ∧
      ((∀ point ∈ (execute config start (p.push '@' ++ q) mode).points,
          point.x.isNaN = false ∧ point.y.isNaN = false) →
        last.bounds.Covers (first.bounds.join fresh.bounds) ∧
          (first.bounds.join fresh.bounds).Covers last.bounds) := by
  obtain ⟨first, fresh, last, h⟩ := exists_restarts config start mode hp hq hparen hbracket hfree
  refine ⟨first, fresh, last, h, ?_⟩
  intro hnumber
  have hall : ∀ point ∈ (execute config start (p.push '@' ++ q) mode).points, point.IsNumber :=
    hnumber
  have hpq : validate (p.push '@' ++ q) = .ok () :=
    (validate_append (p.push '@') q).2 ⟨(validate_push p '@').2 ⟨hp, by decide⟩, hq⟩
  have hlast := tight_execute config start mode hpq h.outcome_last hall
  rw [h.points] at hall hlast
  obtain ⟨hallp, hallq⟩ := List.forall_mem_append.1 hall
  have hfirst := tight_execute config start mode hp h.outcome_first hallp
  have hfresh := tight_execute config start mode hq h.outcome_fresh hallq
  exact hfirst.join hfresh hlast hall

/-- The law where `p` leaves a count pending and both regions closed, and `q` binds a letter
of `p` anew before it jumps there. -/
theorem bend_restarted :
    ∃ first fresh last, Restarts (.standard : Config Float32) .origin .draw "a5.(2|)[3-]7" "3|a.A"
        first fresh last ∧
      last.bounds.Covers (first.bounds.join fresh.bounds) ∧
        (first.bounds.join fresh.bounds).Covers last.bounds := by
  have hp : validate "a5.(2|)[3-]7" = .ok () := (validate_eq_ok_iff _).2 (by decide +kernel)
  have hq : validate "3|a.A" = .ok () := (validate_eq_ok_iff _).2 (by decide +kernel)
  have hnone : "a5.(2|)[3-]7".toList.filter (Recalls "3|a.A".toList) = [] := by decide +kernel
  have hfree : ∀ name ∈ "a5.(2|)[3-]7".toList, ¬ Recalls "3|a.A".toList name := by
    intro name hname hrecalls
    exact List.filter_eq_nil_iff.1 hnone name hname (decide_eq_true hrecalls)
  obtain ⟨first, fresh, last, h, hbounds⟩ := reset_restarts_picture .standard .origin .draw hp hq
    (by decide +kernel) (by decide +kernel) hfree
  exact ⟨first, fresh, last, h, hbounds (by decide +kernel)⟩

end LineArt
