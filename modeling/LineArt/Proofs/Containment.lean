import LineArt.Proofs.Extent

/-!
# Stored points and bounds

A cursor may be given any tokens at any steps, not only those a pattern spells.  As
long as its positions are numbers, its bounds hold every point it has stored, and
only grow.  So neither a reset nor a jump can leave them.
-/

namespace LineArt

variable {α : Type}

/-! ### Boxes -/

/-- The box has no side out of order. -/
structure Bounds.Ordered [LE α] (b : Bounds α) : Prop where
  x : b.min.x ≤ b.max.x
  y : b.min.y ≤ b.max.y

structure Bounds.Contains [LE α] (b : Bounds α) (p : Point α) : Prop where
  min_x : b.min.x ≤ p.x
  min_y : b.min.y ≤ p.y
  max_x : p.x ≤ b.max.x
  max_y : p.y ≤ b.max.y

structure Bounds.Covers [LE α] (b c : Bounds α) : Prop where
  min_x : b.min.x ≤ c.min.x
  min_y : b.min.y ≤ c.min.y
  max_x : c.max.x ≤ b.max.x
  max_y : c.max.y ≤ b.max.y

section Tight

variable [LE α] {b c : Bounds α} {p : Point α} {ps qs : List (Point α)}

theorem Bounds.Tight.contains (h : b.Tight ps) (hp : p ∈ ps) : b.Contains p := by
  have hx : p.x ∈ ps.map Point.x := List.mem_map_of_mem hp
  have hy : p.y ∈ ps.map Point.y := List.mem_map_of_mem hp
  exact ⟨h.min_x.2 hx, h.min_y.2 hy, h.max_x.2 hx, h.max_y.2 hy⟩

theorem Bounds.Tight.ordered (h : b.Tight ps) : b.Ordered :=
  ⟨h.min_x.2 h.max_x.1, h.min_y.2 h.max_y.1⟩

/-- The tight box of more points covers that of fewer. -/
theorem Bounds.Tight.covers (h : b.Tight ps) (hc : c.Tight (ps ++ qs)) : c.Covers b := by
  have hkept (f : Point α → α) {v : α} (hv : v ∈ ps.map f) : v ∈ (ps ++ qs).map f := by
    rw [List.map_append]
    exact List.mem_append_left _ hv
  constructor
  · exact hc.min_x.2 (hkept Point.x h.min_x.1)
  · exact hc.min_y.2 (hkept Point.y h.min_y.1)
  · exact hc.max_x.2 (hkept Point.x h.max_x.1)
  · exact hc.max_y.2 (hkept Point.y h.max_y.1)

end Tight

/-! ### Calls -/

/-- The cursors held before the first call, between two calls and after the last one;
each call gives a token and the step to use. -/
def Cursor.states [Scalar α] (c : Cursor α) : List (Token × Point α) → List (Cursor α)
  | [] => [c]
  | call :: calls => c :: (c.apply call.1 call.2).1.states calls

theorem Cursor.mem_states [Scalar α] (c : Cursor α) (calls : List (Token × Point α)) :
    c ∈ c.states calls := by
  cases calls with
  | nil => exact List.mem_singleton_self c
  | cons call calls => exact List.mem_cons_self

variable [OrderedScalar α] {c : Cursor α} {ps : List (Point α)}

/-- The points visited so far are numbers and hold all that the cursor stores; its
bounds are their tight box. -/
structure Cursor.Kept (c : Cursor α) (ps : List (Point α)) : Prop where
  visited : c.Visited ps
  numbers : ∀ p ∈ ps, p.IsNumber

theorem Cursor.Kept.start {start : Point α} (h : start.IsNumber) :
    (Cursor.start start).Kept [start] where
  visited := Cursor.visited_start h
  numbers p hp := by
    rw [List.mem_singleton.1 hp]
    exact h

/-- One call visits only points held before and the position it leads to. -/
theorem Cursor.Kept.apply (h : c.Kept ps) (token : Token) (step : Point α)
    (hnext : (c.apply token step).1.position.IsNumber) :
    ∃ qs, (c.apply token step).1.Kept (ps ++ qs) := by
  have hshown : ∀ p ∈ (c.apply token step).2.points (c.apply token step).1, p.IsNumber := by
    intro p hp
    rcases c.apply_cases token step with ⟨d, hd⟩ | ⟨-, -, hheld⟩
    · rw [hd] at hp hnext
      rw [List.mem_singleton.1 hp]
      exact hnext
    · exact h.numbers p (h.visited.holds p (hheld p hp))
  have hall := List.forall_mem_append.2 ⟨h.numbers, hshown⟩
  exact ⟨_, h.visited.apply token step hall, hall⟩

/-- The bounds of a cursor are in order and hold every point it stores. -/
structure Cursor.Enclosed (c : Cursor α) : Prop where
  ordered : c.bounds.Ordered
  position : c.bounds.Contains c.position
  origin : c.bounds.Contains c.origin
  anchor : ∀ p, c.anchor = some p → c.bounds.Contains p
  waypoint : ∀ name p, c.waypoint name = some p → c.bounds.Contains p

theorem Cursor.Kept.enclosed (h : c.Kept ps) : c.Enclosed := by
  have hheld {p : Point α} (hp : c.Holds p) : c.bounds.Contains p :=
    h.visited.tight.contains (h.visited.holds p hp)
  constructor
  · exact h.visited.tight.ordered
  · exact hheld c.holds_position
  · exact hheld c.holds_origin
  · intro p hp
    exact hheld (.inr (.inr (.inl hp)))
  · intro name p hp
    exact hheld (holds_waypoint hp)

/-- The run: whatever is called, each cursor held keeps the origin and the points visited. -/
theorem Cursor.Kept.states (h : c.Kept ps) (calls : List (Token × Point α))
    (hnumber : ∀ d ∈ c.states calls, d.position.IsNumber) :
    ∀ d ∈ c.states calls, d.origin = c.origin ∧ ∃ qs, d.Kept (ps ++ qs) := by
  induction calls generalizing c ps with
  | nil =>
    intro d hd
    obtain rfl := List.mem_singleton.1 hd
    exact ⟨rfl, [], by rw [List.append_nil]; exact h⟩
  | cons call calls ih =>
    obtain ⟨-, hrest⟩ := List.forall_mem_cons.1 hnumber
    obtain ⟨qs, hnext⟩ := h.apply call.1 call.2 (hrest _ (Cursor.mem_states _ calls))
    intro d hd
    rcases List.mem_cons.1 hd with rfl | hd
    · exact ⟨rfl, [], by rw [List.append_nil]; exact h⟩
    · obtain ⟨horigin, rs, hd⟩ := ih hnext hrest d hd
      rw [List.append_assoc] at hd
      exact ⟨horigin.trans (c.apply_origin call.1 call.2), qs ++ rs, hd⟩

/-- The bounds only grow from call to call. -/
theorem Cursor.Kept.pairwise_covers (h : c.Kept ps) (calls : List (Token × Point α))
    (hnumber : ∀ d ∈ c.states calls, d.position.IsNumber) :
    (c.states calls).Pairwise fun earlier later => later.bounds.Covers earlier.bounds := by
  induction calls generalizing c ps with
  | nil => exact List.pairwise_singleton _ c
  | cons call calls ih =>
    obtain ⟨-, hrest⟩ := List.forall_mem_cons.1 hnumber
    obtain ⟨qs, hnext⟩ := h.apply call.1 call.2 (hrest _ (Cursor.mem_states _ calls))
    refine List.pairwise_cons.2 ⟨?_, ih hnext hrest⟩
    intro d hd
    obtain ⟨-, rs, hd⟩ := hnext.states calls hrest d hd
    rw [List.append_assoc] at hd
    exact h.visited.tight.covers hd.visited.tight

/-- From a start, by any calls at any steps: as long as the positions are numbers, the
bounds of every cursor are in order, hold its position, its origin, its anchor and its
waypoints, and cover those of every cursor before it; and the origin is the start. -/
theorem stored_points_stay_in_bounds (start : Point Float32)
    (calls : List (Token × Point Float32))
    (hnumber : ∀ c ∈ (Cursor.start start).states calls,
      c.position.x.isNaN = false ∧ c.position.y.isNaN = false) :
    (∀ c ∈ (Cursor.start start).states calls, c.Enclosed ∧ c.origin = start) ∧
    ((Cursor.start start).states calls).Pairwise
      fun earlier later => later.bounds.Covers earlier.bounds := by
  have hnumbers : ∀ c ∈ (Cursor.start start).states calls, c.position.IsNumber := hnumber
  have hkept := Cursor.Kept.start (hnumbers (.start start) (Cursor.mem_states _ calls))
  refine ⟨?_, hkept.pairwise_covers calls hnumbers⟩
  intro c hc
  obtain ⟨horigin, qs, h⟩ := hkept.states calls hnumbers c hc
  exact ⟨h.enclosed, horigin⟩

/-- The law at a jump and a reset after moves at different steps, with a digit beyond nine
and a waypoint under no letter. -/
theorem stored_points_stay_in_bounds_after_jump :
    let calls : List (Token × Point Float32) :=
      [(.waypoint 'a' .define, .origin), (.digit 255, .origin), (.axis .negX, ⟨3, 4⟩),
        (.waypoint '*' .define, .origin), (.capture .opening, .origin),
        (.waypoint 'a' .jump, .origin), (.axis .posY, ⟨2, 7⟩), (.reset, .origin)]
    (∀ c ∈ (Cursor.start .origin).states calls, c.Enclosed ∧ c.origin = .origin) ∧
    ((Cursor.start .origin).states calls).Pairwise
      fun earlier later => later.bounds.Covers earlier.bounds := by
  intro calls
  have hnumber : ∀ c ∈ (Cursor.start .origin).states calls,
      c.position.x.isNaN = false ∧ c.position.y.isNaN = false := by decide +kernel
  exact stored_points_stay_in_bounds .origin calls hnumber

end LineArt
