import LineArt.Proofs.Multiplier

/-!
# Waypoints

The waypoints of a cursor can be told from the calls behind it: a letter recalls the
position held when it was last bound, whatever was done since, and nothing if it never
was.  No other name can be bound or recalled.
-/

namespace LineArt

variable {α : Type}

/-! ### What the calls say -/

/-- Of some calls, those that came before the last one to bind a name. -/
def LastBinding (name : Char) (before calls : List (Token × Point α)) : Prop :=
  ∃ step after, calls = before ++ (.waypoint name .define, step) :: after ∧
    ∀ call ∈ after, call.1 ≠ .waypoint name .define

theorem lastBinding_concat (name : Char) (calls : List (Token × Point α)) (step : Point α) :
    LastBinding name calls (calls ++ [(.waypoint name .define, step)]) :=
  ⟨step, [], rfl, List.forall_mem_nil _⟩

theorem LastBinding.concat {name : Char} {before calls : List (Token × Point α)}
    (h : LastBinding name before calls) {call : Token × Point α}
    (hcall : call.1 ≠ .waypoint name .define) : LastBinding name before (calls ++ [call]) := by
  obtain ⟨step, after, rfl, hafter⟩ := h
  refine ⟨step, after ++ [call], ?_, ?_⟩
  · rw [List.append_assoc, List.cons_append]
  · exact List.forall_mem_append.2 ⟨hafter, List.forall_mem_singleton.2 hcall⟩

/-- Either no call binds the name, or one of those that do is the last. -/
theorem unbound_or_lastBinding (name : Char) (calls : List (Token × Point α)) :
    (∀ call ∈ calls, call.1 ≠ .waypoint name .define) ∨
      ∃ before, LastBinding name before calls := by
  induction calls using List.reverseRecOn with
  | nil => exact .inl (List.forall_mem_nil _)
  | append_singleton calls call ih =>
    by_cases hcall : call.1 = .waypoint name .define
    · obtain ⟨token, step⟩ := call
      obtain rfl : token = .waypoint name .define := hcall
      exact .inr ⟨calls, lastBinding_concat name calls step⟩
    · rcases ih with hnone | ⟨before, hlast⟩
      · exact .inl (List.forall_mem_append.2 ⟨hnone, List.forall_mem_singleton.2 hcall⟩)
      · exact .inr ⟨before, hlast.concat hcall⟩

/-! ### What a cursor recalls -/

theorem letterSlot?_eq_none {name : Char} (h : ¬ name.isLower) : letterSlot? name = none := by
  rw [← Option.not_isSome_iff_eq_none, letterSlot?_isSome_iff]
  exact h

namespace Cursor

variable {c : Cursor α} {name : Char}

theorem waypoint_of_not_isLower (c : Cursor α) (h : ¬ name.isLower) : c.waypoint name = none := by
  rw [waypoint, letterSlot?_eq_none h]
  rfl

variable [Scalar α]

/-- The step: only a binding of the letter itself changes what it recalls. -/
theorem waypoint_apply (c : Cursor α) (hname : name.isLower) (token : Token) (step : Point α) :
    (c.apply token step).1.waypoint name
      = if token = .waypoint name .define then some c.position else c.waypoint name := by
  rw [apply_waypoint]
  cases token with
  | waypoint other action =>
    cases action with
    | define =>
      have hslot : letterSlot? other ≠ none ∧ letterSlot? name = letterSlot? other
          ↔ Token.waypoint other .define = .waypoint name .define := by
        rw [letterSlot?_eq_iff, Token.waypoint.injEq]
        constructor
        · rintro ⟨-, rfl⟩
          exact ⟨rfl, rfl⟩
        · rintro ⟨rfl, -⟩
          exact ⟨hname, rfl⟩
      simp only [hslot]
    | jump => simp
  | _ => rfl

/-- The run: calls that do not bind a letter leave it as it is. -/
theorem waypoint_callAll_of_unbound (c : Cursor α) (hname : name.isLower)
    {calls : List (Token × Point α)} (h : ∀ call ∈ calls, call.1 ≠ .waypoint name .define) :
    (c.callAll calls).waypoint name = c.waypoint name := by
  induction calls generalizing c with
  | nil => rfl
  | cons call calls ih =>
    obtain ⟨hcall, hrest⟩ := List.forall_mem_cons.1 h
    rw [callAll_cons, ih _ hrest, c.waypoint_apply hname, if_neg hcall]

theorem waypoint_callAll_of_lastBinding (c : Cursor α) (hname : name.isLower)
    {before calls : List (Token × Point α)} (h : LastBinding name before calls) :
    (c.callAll calls).waypoint name = some (c.callAll before).position := by
  obtain ⟨step, after, rfl, hafter⟩ := h
  rw [callAll_append, callAll_cons, waypoint_callAll_of_unbound _ hname hafter,
    waypoint_apply _ hname, if_pos rfl]

theorem apply_jump_of_some {p : Point α} (h : c.waypoint name = some p) (step : Point α) :
    c.apply (.waypoint name .jump) step = ({ c with position := p }, .moved) := by
  simp only [apply, h]

theorem apply_jump_of_none (h : c.waypoint name = none) (step : Point α) :
    c.apply (.waypoint name .jump) step = (c, .none) := by
  simp only [apply, h]

theorem apply_waypoint_of_not_letter (c : Cursor α) (hname : ¬ name.isLower)
    (action : WaypointAction) (step : Point α) :
    c.apply (.waypoint name action) step = (c, .none) := by
  cases action with
  | define => simp only [apply, letterSlot?_eq_none hname]
  | jump => exact apply_jump_of_none (c.waypoint_of_not_isLower hname) step

end Cursor

variable [Scalar α]

/-- Whatever tokens a cursor was given since its start, at whatever steps, a letter recalls
the position held when it was last bound, or nothing if it never was, and no token but a
binding of that letter changes this.  A jump goes to that very point, or else does nothing
at all.  A name that is no letter has no slot: to bind it or to jump to it does nothing. -/
theorem waypoint_recalls_last_binding (p : Point α) (calls : List (Token × Point α)) :
    let c := (Cursor.start p).callAll calls
    (∀ name : Char, name.isLower →
      (c.waypoint name = none ↔ ∀ call ∈ calls, call.1 ≠ .waypoint name .define) ∧
      (∀ q, c.waypoint name = some q ↔
        ∃ before, LastBinding name before calls ∧ ((Cursor.start p).callAll before).position = q) ∧
      (∀ token step, token ≠ .waypoint name .define →
        (c.apply token step).1.waypoint name = c.waypoint name) ∧
      (∀ q step, c.waypoint name = some q →
        c.apply (.waypoint name .jump) step = ({ c with position := q }, .moved)) ∧
      ∀ step, c.waypoint name = none → c.apply (.waypoint name .jump) step = (c, .none)) ∧
    ∀ name : Char, ¬ name.isLower →
      letterSlot? name = none ∧ c.waypoint name = none ∧
        ∀ action step, c.apply (.waypoint name action) step = (c, .none) := by
  intro c
  constructor
  · intro name hname
    have hunbound (h : ∀ call ∈ calls, call.1 ≠ .waypoint name .define) :
        c.waypoint name = none :=
      (Cursor.waypoint_callAll_of_unbound _ hname h).trans (Cursor.waypoint_start p name)
    have hlast {before : List (Token × Point α)} (h : LastBinding name before calls) :
        c.waypoint name = some ((Cursor.start p).callAll before).position :=
      Cursor.waypoint_callAll_of_lastBinding _ hname h
    refine ⟨⟨?_, hunbound⟩, ?_, ?_, ?_, ?_⟩
    · intro hnone
      rcases unbound_or_lastBinding name calls with h | ⟨before, h⟩
      · exact h
      · rw [hlast h] at hnone
        contradiction
    · intro q
      constructor
      · intro hq
        rcases unbound_or_lastBinding name calls with h | ⟨before, h⟩
        · rw [hunbound h] at hq
          contradiction
        · exact ⟨before, h, Option.some.inj ((hlast h).symm.trans hq)⟩
      · rintro ⟨before, h, rfl⟩
        exact hlast h
    · intro token step htoken
      rw [c.waypoint_apply hname, if_neg htoken]
    · intro q step hq
      exact Cursor.apply_jump_of_some hq step
    · intro step hnone
      exact Cursor.apply_jump_of_none hnone step
  · intro name hname
    exact ⟨letterSlot?_eq_none hname, c.waypoint_of_not_isLower hname,
      c.apply_waypoint_of_not_letter hname⟩

/-- The law where one letter is bound again to what another recalls, among names that are no
letters: the jump to it goes where it was bound last. -/
theorem rebound_waypoint_recalled :
    let before : List (Token × Point Float32) :=
      [(.waypoint 'a' .define, .origin), (.digit 200, .origin), (.axis .posX, ⟨3, 4⟩),
        (.waypoint 'b' .define, .origin), (.waypoint 'a' .jump, .origin)]
    let calls : List (Token × Point Float32) :=
      before ++ [(.waypoint 'b' .define, .origin), (.waypoint 'B' .define, .origin),
        (.axis .negY, ⟨1, 2⟩), (.capture .opening, .origin), (.reset, .origin)]
    let c := (Cursor.start .origin).callAll calls
    let q := ((Cursor.start .origin).callAll before).position
    'b'.isLower ∧ c.waypoint 'b' = some q ∧
      c.apply (.waypoint 'b' .jump) .origin = ({ c with position := q }, .moved) ∧
      'c'.isLower ∧ c.apply (.waypoint 'c' .jump) .origin = (c, .none) ∧
      ¬ 'B'.isLower ∧ c.waypoint 'B' = none := by
  intro before calls c q
  obtain ⟨hletters, hothers⟩ := waypoint_recalls_last_binding .origin calls
  obtain ⟨-, hsome, -, hjump, -⟩ := hletters 'b' (by decide)
  obtain ⟨hnone, -, -, -, hstay⟩ := hletters 'c' (by decide)
  have hlast : LastBinding 'b' before calls := ⟨.origin, _, rfl, by decide⟩
  have hbound : c.waypoint 'b' = some q := (hsome q).2 ⟨before, hlast, rfl⟩
  have hfree : c.waypoint 'c' = none := hnone.2 (by decide)
  exact ⟨by decide, hbound, hjump q .origin hbound, by decide, hstay .origin hfree, by decide,
    (hothers 'B' (by decide)).2.1⟩

end LineArt
