import LineArt.Proofs.Regions
import LineArt.Proofs.Verdict

/-!
# Connectors

What a closing bracket draws.  The anchor is set by an opening bracket, to the
position it is read at, and is kept by everything but a bracket; while it is set
nothing is drawn.  So a closing bracket draws one connector, from where the latest
opening one was read to where it is read itself, or does nothing if the latest
bracket was no opening one.
-/

namespace LineArt

variable {α : Type}

theorem exists_split_of_nearest? {marks : List Char} {text : String} {mark : Char}
    (h : nearest? marks text.toList = some mark) :
    ∃ before after : String, text = before.push mark ++ after ∧ ∀ c ∈ after.toList, c ∉ marks := by
  obtain ⟨-, behind, ahead, hsplit, hbehind⟩ := List.find?_eq_some_iff_append.1 h
  refine ⟨String.ofList ahead.reverse, String.ofList behind.reverse, ?_, ?_⟩
  · apply String.toList_inj.1
    rw [← List.reverse_reverse text.toList, hsplit]
    simp
  · intro c hc
    have hmem : c ∈ behind := by simpa using hc
    simpa using hbehind c hmem

theorem moves_of_not_drawing {c : Cursor α} {e : Effect α} (hc : c.drawing = false)
    (he : ∀ a, e ≠ .captureClosed a) : ∀ i ∈ e.instructions .draw c, ∃ p, i = .moveTo p := by
  intro i hi
  cases e with
  | none => contradiction
  | moved =>
    have hmove : motion c.drawing c.position = .moveTo c.position := by rw [hc]; rfl
    exact ⟨c.position, (List.mem_singleton.1 hi).trans hmove⟩
  | captureClosed a => exact absurd rfl (he a)

variable [Scalar α]

/-! ### Inside a region -/

namespace Cursor

theorem effect_ne_captureClosed (c : Cursor α) {char : Char} (step : Point α)
    (h : char ∉ brackets) (a : Point α) :
    (c.apply (Token.ofChar char) step).2 ≠ .captureClosed a := by
  have hspells := spells_ofChar char
  generalize Token.ofChar char = token at hspells ⊢
  cases hspells with
  | enter => exact absurd (by decide) h
  | leave => exact absurd (by decide) h
  | define hlower => rw [apply]; split <;> simp
  | jump hupper => rw [apply]; split <;> simp
  | _ => simp [apply]

theorem anchor_read (c : Cursor α) {cs : List Char} (step : Point α)
    (hcs : ∀ char ∈ cs, char ∉ brackets) : (c.read cs step).anchor = c.anchor := by
  induction cs generalizing c with
  | nil => rfl
  | cons char cs ih =>
    obtain ⟨hchar, hrest⟩ := List.forall_mem_cons.1 hcs
    rw [read_cons, ih _ hrest, c.apply_anchor_of_not_mem step hchar]

theorem moves_walk_of_anchor {c : Cursor α} (hopen : c.anchor.isSome) (step : Point α)
    (index : Nat) {cs : List Char} (hvalid : ∀ char ∈ cs, InAlphabet char)
    (hcs : ∀ char ∈ cs, char ∉ brackets) :
    ∀ i ∈ (walk step .draw c (tokensFrom index cs)).instructions, ∃ p, i = .moveTo p := by
  induction cs generalizing c index with
  | nil => exact List.forall_mem_nil _
  | cons char cs ih =>
    obtain ⟨hin, hrestin⟩ := List.forall_mem_cons.1 hvalid
    obtain ⟨hchar, hrest⟩ := List.forall_mem_cons.1 hcs
    have hnext : (c.apply (Token.ofChar char) step).1.anchor.isSome := by
      rw [c.apply_anchor_of_not_mem step hchar]
      exact hopen
    have hlifted : (c.apply (Token.ofChar char) step).1.drawing = false := by
      simp [drawing, hnext]
    rw [tokensFrom_cons, walk_cons_valid _ _ _ _ _ (invalid?_ofChar_of_mem hin),
      Trace.instructions_after, List.forall_mem_append]
    exact ⟨moves_of_not_drawing hlifted (c.effect_ne_captureClosed step hchar),
      ih hnext (index + 1) hrestin hrest⟩

end Cursor

/-! ### Reading a bracket -/

section Brackets

variable {config : Config α} {start : Point α} {mode : Mode} {text : String} {cursor : Cursor α}
  {shown : List (Instruction α)}

theorem Reaches.push_opening (h : Reaches config start mode text cursor shown) :
    Reaches config start mode (text.push '[')
      { cursor with anchor := some cursor.position } shown := by
  have hin : InAlphabet '[' := by decide
  have htoken : Token.ofChar '[' = .capture .opening := rfl
  have hnext := h.push hin
  rw [htoken] at hnext
  exact (List.append_nil shown) ▸ hnext

theorem Reaches.push_closing (h : Reaches config start mode text cursor shown) :
    Reaches config start mode (text.push ']') { cursor with anchor := none }
      (shown ++ match cursor.anchor with
        | some anchor => [.moveTo anchor, motion (mode = .draw) cursor.position]
        | none => []) := by
  have hin : InAlphabet ']' := by decide
  have htoken : Token.ofChar ']' = .capture .closing := rfl
  have hnext := h.push hin
  rw [htoken] at hnext
  cases ha : cursor.anchor with
  | some anchor =>
    simp only [Cursor.apply, ha] at hnext
    exact hnext
  | none =>
    have hsame : { cursor with anchor := none } = cursor := by rw [← ha]
    simp only [Cursor.apply, ha] at hnext
    rw [hsame]
    exact hnext

end Brackets

/-! ### The connector -/

/-- The latest bracket of a text is an opening one.  A drawing pass read it with `entry`
held and `earlier` shown, anchored itself there, whatever the anchor was, and has only
moved since, by `within`. -/
structure OpensRegion (config : Config α) (start : Point α) (text opened inside : String)
    (entry : Cursor α) (earlier within : List (Instruction α)) : Prop where
  split : text = opened.push '[' ++ inside
  latest : ∀ c ∈ inside.toList, c ∉ brackets
  entered : Reaches config start .draw opened entry earlier
  anchored : Reaches config start .draw (opened.push '[')
    { entry with anchor := some entry.position } earlier
  moves : ∀ i ∈ within, ∃ p, i = .moveTo p

/-- What a drawing pass does at a closing bracket, having read `text`, with `cursor`
held and `drawn` shown: it shows `shown` and drops the anchor. -/
structure ClosesRegion (config : Config α) (start : Point α) (text : String)
    (cursor : Cursor α) (drawn shown : List (Instruction α)) : Prop where
  before : Reaches config start .draw text cursor drawn
  after : Reaches config start .draw (text.push ']') { cursor with anchor := none }
    (drawn ++ shown)
  shows_iff : shown ≠ [] ↔ nearest? brackets text.toList = some '['
  inert : nearest? brackets text.toList ≠ some '[' → { cursor with anchor := none } = cursor
  connector : nearest? brackets text.toList = some '[' →
    ∃ opened inside entry earlier within,
      OpensRegion config start text opened inside entry earlier within ∧
      drawn = earlier ++ within ∧
      shown = [.moveTo entry.position, .lineTo cursor.position]

section Regions

variable {config : Config α} {start : Point α} {text : String} {cursor : Cursor α}
  {drawn : List (Instruction α)}

theorem exists_opensRegion (hvalid : validate text = .ok ())
    (h : Reaches config start .draw text cursor drawn)
    (hopen : nearest? brackets text.toList = some '[') :
    ∃ opened inside entry earlier within,
      OpensRegion config start text opened inside entry earlier within ∧
      drawn = earlier ++ within ∧ cursor.anchor = some entry.position := by
  obtain ⟨opened, inside, rfl, hlatest⟩ := exists_split_of_nearest? hopen
  obtain ⟨hopened, hinside⟩ := (validate_append _ _).1 hvalid
  obtain ⟨entry, earlier, hentered⟩ : ∃ entry earlier,
      Reaches config start .draw opened entry earlier :=
    ⟨_, _, reaches_of_valid config start .draw ((validate_push _ _).1 hopened).1⟩
  have hanchored := hentered.push_opening
  have hset : ({ entry with anchor := some entry.position } : Cursor α).anchor.isSome := rfl
  have hmoves := Cursor.moves_walk_of_anchor hset config.step (opened.push '[').length
    ((validate_eq_ok_iff_inAlphabet inside).1 hinside) hlatest
  -- What was reached by reading on from the bracket is what was reached.
  obtain ⟨rfl, rfl⟩ := h.unique (hanchored.append hinside)
  exact ⟨opened, inside, entry, earlier, _, ⟨rfl, hlatest, hentered, hanchored, hmoves⟩, rfl,
    Cursor.anchor_read _ _ hlatest⟩

theorem exists_closesRegion (config : Config α) (start : Point α)
    (hvalid : validate text = .ok ()) :
    ∃ cursor drawn shown, ClosesRegion config start text cursor drawn shown := by
  have hbefore := reaches_of_valid config start .draw hvalid
  have hreflects := (Cursor.reflects_start start).read text.toList config.step
  rw [List.nil_append] at hreflects
  generalize (Cursor.start start).read text.toList config.step = cursor at hbefore hreflects
  have hafter := hbefore.push_closing
  refine ⟨cursor, _, _, hbefore, hafter, ?_, ?_, ?_⟩
  · rw [← hreflects.anchor]
    cases cursor.anchor <;> simp
  · intro hclosed
    rw [Ne, ← hreflects.anchor] at hclosed
    have hnone : cursor.anchor = none := by simpa using hclosed
    rw [← hnone]
  · intro hopen
    obtain ⟨opened, inside, entry, earlier, within, hregion, hdrawn, hanchor⟩ :=
      exists_opensRegion hvalid hbefore hopen
    refine ⟨opened, inside, entry, earlier, within, hregion, hdrawn, ?_⟩
    rw [hanchor]
    rfl

end Regions

theorem draw_ends_in_pass (config : Config α) (start : Start α) {pattern : String}
    (hvalid : validate pattern = .ok ()) :
    ∃ point lead, (∀ i ∈ lead, ∃ p, i = Instruction.moveTo p) ∧
      (draw config start pattern).instructions
        = lead ++ (execute config point pattern .draw).instructions := by
  obtain ⟨point, hpoint⟩ := exists_startingPoint config start hvalid
  refine ⟨point, _, onlyMoves_startingPoint config start pattern, ?_⟩
  rw [instructions_draw]
  exact Trace.instructions_andThen_of_ok _ hpoint

/-- At every closing bracket of a valid pattern, a drawing pass shows something exactly
if the nearest earlier bracket is an opening one: a move to where that one was read,
and a line to where this one is.  In between it only moved, and the bracket drops the
anchor and changes nothing else.  Every draw is such a pass, after some moves. -/
theorem closing_bracket_draws_one_connector (config : Config α) (u v : String)
    (hvalid : validate (u.push ']' ++ v) = .ok ()) :
    (∀ start : Point α, ∃ cursor drawn shown, ClosesRegion config start u cursor drawn shown) ∧
    ∀ start : Start α, ∃ point lead, (∀ i ∈ lead, ∃ p, i = Instruction.moveTo p) ∧
      (draw config start (u.push ']' ++ v)).instructions
        = lead ++ (execute config point (u.push ']' ++ v) .draw).instructions := by
  have hu := ((validate_push u ']').1 ((validate_append _ v).1 hvalid).1).1
  exact ⟨fun start => exists_closesRegion config start hu,
    fun start => draw_ends_in_pass config start hvalid⟩

/-- The law at a region entered twice under a lifted pen, and at a second closing bracket. -/
theorem reentered_region_draws_one_connector :
    (∃ cursor drawn shown,
      ClosesRegion (.standard : Config Float32) .origin "(2.[3|[@" cursor drawn shown ∧
      shown ≠ []) ∧
    ∃ cursor drawn, ClosesRegion (.standard : Config Float32) .origin "(2.[3|]" cursor drawn [] := by
  have hfirst : validate ("(2.[3|[@".push ']' ++ ")") = .ok () :=
    (validate_eq_ok_iff _).2 (by decide +kernel)
  have hsecond : validate ("(2.[3|]".push ']' ++ ")") = .ok () :=
    (validate_eq_ok_iff _).2 (by decide +kernel)
  constructor
  · obtain ⟨hpass, -⟩ := closing_bracket_draws_one_connector (.standard : Config Float32) _ _ hfirst
    obtain ⟨cursor, drawn, shown, hcloses⟩ := hpass .origin
    exact ⟨cursor, drawn, shown, hcloses, hcloses.shows_iff.2 (by decide +kernel)⟩
  · obtain ⟨hpass, -⟩ := closing_bracket_draws_one_connector (.standard : Config Float32) _ _ hsecond
    obtain ⟨cursor, drawn, shown, hcloses⟩ := hpass .origin
    have hclosed : ¬ nearest? brackets "(2.[3|]".toList = some '[' := by decide +kernel
    have hinert : shown = [] := not_not.1 (mt hcloses.shows_iff.1 hclosed)
    exact ⟨cursor, drawn, hinert ▸ hcloses⟩

end LineArt
