import LineArt.Proofs.Lifting
import LineArt.Proofs.Ordered

/-!
# The extent of a run

Only axis moves enter the bounds, yet the bounds are the tight box of all points
a run visits.  The invariant is that every point the cursor holds was visited
before, so a reset, a jump or a connector shows nothing new.
-/

namespace LineArt

variable {α : Type}

/-! ### Tight boxes -/

/-- A box whose sides are the least and the greatest coordinates of some points. -/
structure Bounds.Tight [LE α] (b : Bounds α) (ps : List (Point α)) : Prop where
  min_x : IsLeast {x | x ∈ ps.map Point.x} b.min.x
  min_y : IsLeast {y | y ∈ ps.map Point.y} b.min.y
  max_x : IsGreatest {x | x ∈ ps.map Point.x} b.max.x
  max_y : IsGreatest {y | y ∈ ps.map Point.y} b.max.y

def Point.IsNumber [OrderedScalar α] (p : Point α) : Prop :=
  OrderedScalar.IsNumber p.x ∧ OrderedScalar.IsNumber p.y

section Tight

variable [OrderedScalar α] {b : Bounds α} {p : Point α} {ps qs : List (Point α)}

theorem Bounds.tight_ofPoint (hp : p.IsNumber) : (Bounds.ofPoint p).Tight [p] := by
  have hx := OrderedScalar.le_refl hp.1
  have hy := OrderedScalar.le_refl hp.2
  constructor
  all_goals
    refine ⟨List.mem_singleton_self _, ?_⟩
    intro x hmem
    rw [List.mem_singleton.1 hmem]
    assumption

theorem isNumber_coordinates (hps : ∀ q ∈ ps, q.IsNumber) :
    (∀ x ∈ ps.map Point.x, OrderedScalar.IsNumber x) ∧
      ∀ y ∈ ps.map Point.y, OrderedScalar.IsNumber y := by
  constructor
  · intro x hmem
    obtain ⟨q, hq, rfl⟩ := List.mem_map.1 hmem
    exact (hps q hq).1
  · intro y hmem
    obtain ⟨q, hq, rfl⟩ := List.mem_map.1 hmem
    exact (hps q hq).2

theorem Bounds.Tight.insert (h : b.Tight ps) (hps : ∀ q ∈ ps, q.IsNumber) (hp : p.IsNumber) :
    (b.insert p).Tight (ps ++ [p]) := by
  obtain ⟨hx, hy⟩ := isNumber_coordinates hps
  constructor
  all_goals rw [List.map_append]
  · exact OrderedScalar.isLeast_concat hx hp.1 h.min_x
  · exact OrderedScalar.isLeast_concat hy hp.2 h.min_y
  · exact OrderedScalar.isGreatest_concat hx hp.1 h.max_x
  · exact OrderedScalar.isGreatest_concat hy hp.2 h.max_y

theorem Bounds.Tight.append_of_mem (h : b.Tight ps) (hq : ∀ q ∈ qs, q ∈ ps) :
    b.Tight (ps ++ qs) := by
  have hsame (f : Point α → α) : {x | x ∈ (ps ++ qs).map f} = {x | x ∈ ps.map f} := by
    ext x
    rw [Set.mem_ofPred_eq, Set.mem_ofPred_eq, List.map_append, List.mem_append]
    constructor
    · rintro (hx | hx)
      · exact hx
      · obtain ⟨q, hmem, rfl⟩ := List.mem_map.1 hx
        exact List.mem_map_of_mem (hq q hmem)
    · exact Or.inl
  constructor
  · exact hsame Point.x ▸ h.min_x
  · exact hsame Point.y ▸ h.min_y
  · exact hsame Point.x ▸ h.max_x
  · exact hsame Point.y ▸ h.max_y

end Tight

/-! ### The points a cursor holds -/

def Effect.points (c : Cursor α) : Effect α → List (Point α)
  | .none => []
  | .moved => [c.position]
  | .captureClosed anchor => [anchor, c.position]

theorem points_effect (mode : Mode) (c : Cursor α) (e : Effect α) :
    (e.instructions mode c).filterMap Instruction.target? = e.points c := by
  have hmotion (drawn : Bool) (p : Point α) : (motion drawn p).target? = some p := by
    cases drawn <;> rfl
  have hmove (p : Point α) : (Instruction.moveTo p).target? = some p := rfl
  cases e with
  | none => rfl
  | moved => simp [Effect.instructions, Effect.points, hmotion]
  | captureClosed anchor => simp [Effect.instructions, Effect.points, hmotion, hmove]

theorem points_prologue (config : Config α) (mode : Mode) (start : Point α) :
    (prologue config mode start).filterMap Instruction.target? = [start] := by
  cases mode <;> rfl

namespace Cursor

/-- A point is held as the position, the origin, the anchor or a waypoint. -/
def Holds (c : Cursor α) (p : Point α) : Prop :=
  p = c.position ∨ p = c.origin ∨ c.anchor = some p ∨ ∃ name, c.waypoint name = some p

theorem holds_position (c : Cursor α) : c.Holds c.position := .inl rfl

theorem holds_origin (c : Cursor α) : c.Holds c.origin := .inr (.inl rfl)

theorem holds_waypoint {c : Cursor α} {name : Char} {p : Point α}
    (h : c.waypoint name = some p) : c.Holds p := .inr (.inr (.inr ⟨name, h⟩))

theorem holds_start {start p : Point α} (h : (Cursor.start start).Holds p) : p = start := by
  rcases h with h | h | h | ⟨name, hname⟩
  · exact h
  · exact h
  · contradiction
  · rw [waypoint_start] at hname
    contradiction

variable [Scalar α]

/-- A token either is an axis move, or keeps the bounds and neither stores nor
shows a point that was not held before. -/
theorem apply_cases (c : Cursor α) (token : Token) (step : Point α) :
    (∃ d, c.apply token step = (c.advance step d, .moved)) ∨
      ((c.apply token step).1.bounds = c.bounds ∧
        (∀ p, (c.apply token step).1.Holds p → c.Holds p) ∧
        ∀ p ∈ (c.apply token step).2.points (c.apply token step).1, c.Holds p) := by
  cases token with
  | axis d => exact .inl ⟨d, rfl⟩
  | digit value => exact .inr ⟨rfl, fun p h => h, fun p h => by contradiction⟩
  | reset =>
    refine .inr ⟨rfl, ?_, ?_⟩
    · rintro p (h | h)
      · exact .inr (.inl h)
      · exact .inr h
    · intro p h
      rw [List.mem_singleton.1 h]
      exact c.holds_origin
  | waypoint name action =>
    right
    cases action with
    | define =>
      have hw (other : Char) (p : Point α)
          (h : (c.apply (.waypoint name .define) step).1.waypoint other = some p) : c.Holds p := by
        rw [waypoint_define] at h
        split at h
        · exact .inl (Option.some.inj h).symm
        · exact holds_waypoint h
      simp only [apply] at hw ⊢
      cases hi : letterSlot? name with
      | none => exact ⟨rfl, fun p h => h, fun p h => by contradiction⟩
      | some i =>
        simp only [hi] at hw
        refine ⟨rfl, ?_, fun p h => by contradiction⟩
        rintro p (h | h | h | ⟨other, h⟩)
        · exact .inl h
        · exact .inr (.inl h)
        · exact .inr (.inr (.inl h))
        · exact hw other p h
    | jump =>
      simp only [apply]
      split
      · rename_i target hw
        refine ⟨rfl, ?_, ?_⟩
        · rintro p (h | h)
          · exact h ▸ holds_waypoint hw
          · exact .inr h
        · intro p h
          rw [List.mem_singleton.1 h]
          exact holds_waypoint hw
      · exact ⟨rfl, fun p h => h, fun p h => by contradiction⟩
  | blank half => cases half <;> exact .inr ⟨rfl, fun p h => h, fun p h => by contradiction⟩
  | capture half =>
    right
    cases half with
    | opening =>
      refine ⟨rfl, ?_, fun p h => by contradiction⟩
      rintro p (h | h | h | h)
      · exact .inl h
      · exact .inr (.inl h)
      · exact .inl (Option.some.inj h).symm
      · exact .inr (.inr (.inr h))
    | closing =>
      simp only [apply]
      split
      · rename_i anchor ha
        refine ⟨rfl, ?_, ?_⟩
        · rintro p (h | h | h | h)
          · exact .inl h
          · exact .inr (.inl h)
          · contradiction
          · exact .inr (.inr (.inr h))
        · intro p h
          rcases List.mem_cons.1 h with h | h
          · exact h ▸ .inr (.inr (.inl ha))
          · rw [List.mem_singleton.1 h]
            exact c.holds_position
      · exact ⟨rfl, fun p h => h, fun p h => by contradiction⟩
  | space => exact .inr ⟨rfl, fun p h => h, fun p h => by contradiction⟩
  | invalid char => exact .inr ⟨rfl, fun p h => h, fun p h => by contradiction⟩

end Cursor

/-! ### The invariant of a run -/

section Invariant

variable [OrderedScalar α] {c : Cursor α} {ps : List (Point α)}

/-- The points visited so far hold all that the cursor holds, and its bounds are
their tight box. -/
structure Cursor.Visited (c : Cursor α) (ps : List (Point α)) : Prop where
  holds : ∀ p, c.Holds p → p ∈ ps
  tight : c.bounds.Tight ps

theorem Cursor.visited_start {start : Point α} (h : start.IsNumber) :
    (Cursor.start start).Visited [start] where
  holds _ hp := List.mem_singleton.2 (holds_start hp)
  tight := Bounds.tight_ofPoint h

theorem Cursor.Visited.advance (h : c.Visited ps) (step : Point α) (d : Direction)
    (hps : ∀ p ∈ ps, p.IsNumber) (hnew : (c.advance step d).position.IsNumber) :
    (c.advance step d).Visited (ps ++ [(c.advance step d).position]) where
  holds := by
    rintro p (hp | hp)
    · rw [hp]
      exact List.mem_concat_self
    · exact List.mem_append_left _ (h.holds p (.inr hp))
  tight := h.tight.insert hps hnew

theorem Cursor.Visited.apply (h : c.Visited ps) (token : Token) (step : Point α)
    (hps : ∀ p ∈ ps ++ (c.apply token step).2.points (c.apply token step).1, p.IsNumber) :
    (c.apply token step).1.Visited
      (ps ++ (c.apply token step).2.points (c.apply token step).1) := by
  rcases c.apply_cases token step with ⟨d, hd⟩ | ⟨hbounds, hholds, hshown⟩
  · rw [hd] at hps ⊢
    apply h.advance step d
    · intro p hp
      exact hps p (List.mem_append_left _ hp)
    · exact hps _ List.mem_concat_self
  · constructor
    · intro p hp
      exact List.mem_append_left _ (h.holds p (hholds p hp))
    · rw [hbounds]
      apply h.tight.append_of_mem
      intro p hp
      exact h.holds p (hshown p hp)

theorem Cursor.Visited.walk (h : c.Visited ps) (step : Point α) (mode : Mode)
    (tokens : List (Nat × Token)) (hvalid : firstInvalid? tokens = none)
    (hps : ∀ p ∈ ps ++ (walk step mode c tokens).points, p.IsNumber) :
    (c.applyAll (tokens.map Prod.snd) step).Visited
      (ps ++ (walk step mode c tokens).points) := by
  induction tokens using tokens_induction generalizing c ps with
  | nil =>
    have hnil : (LineArt.walk step mode c []).points = [] := rfl
    rw [hnil, List.append_nil]
    exact h
  | invalid index token char rest ht =>
    rw [firstInvalid?_cons_invalid index rest ht] at hvalid
    contradiction
  | valid index token rest ht ih =>
    rw [firstInvalid?_cons_valid index rest ht] at hvalid
    rw [walk_cons_valid step mode c index rest ht, Trace.points_after, points_effect,
      ← List.append_assoc] at hps ⊢
    refine ih (h.apply token step ?_) hvalid hps
    intro p hp
    exact hps p (List.mem_append_left _ hp)

end Invariant

/-- The measured box is the tight box of every point the measuring run visits,
and of every point drawing visits from the same start. -/
theorem measured_box_tight (config : Config Float32) (start : Point Float32) (pattern : String)
    (hvalid : validate pattern = .ok ())
    (hnumber : ∀ p ∈ (measure config (.ofPoint start) pattern).points,
      p.x.isNaN = false ∧ p.y.isNaN = false) :
    ∃ box, (measure config (.ofPoint start) pattern).outcome = .ok box ∧
      box.Tight (measure config (.ofPoint start) pattern).points ∧
      box.Tight (draw config (.ofPoint start) pattern).points := by
  have htokens := (validate_eq_ok_iff pattern).1 hvalid
  have hpoints (mode : Mode) : (execute config start pattern mode).points
      = [start] ++ (walk config.step .measure (.start start) (tokenize pattern)).points := by
    rw [← Trace.points_lifted, lifted_execute, execute_measure_eq, Trace.points_after]
    rfl
  have hmeasure : (measure config (.ofPoint start) pattern).points
      = (execute config start pattern .measure).points := by
    rw [Trace.points, instructions_measure, run_ofPoint, Trace.points]
  have hdraw : (draw config (.ofPoint start) pattern).points
      = (execute config start pattern .draw).points := by
    rw [Trace.points, instructions_draw, run_ofPoint, Trace.points]
  rw [hmeasure, hpoints] at hnumber
  have hstart : start.IsNumber := hnumber start (List.mem_cons_self ..)
  have hfinal := (Cursor.visited_start hstart).walk config.step .measure (tokenize pattern)
    htokens hnumber
  have houtcome : (measure config (.ofPoint start) pattern).outcome
      = .ok ((Cursor.start start).applyAll ((tokenize pattern).map Prod.snd) config.step).bounds := by
    rw [measure_eq, run_ofPoint, Trace.outcome_andThen_done,
      outcome_execute_of_valid config start .measure hvalid]
    rfl
  refine ⟨_, houtcome, ?_, ?_⟩
  · rw [hmeasure, hpoints]
    exact hfinal.tight
  · rw [hdraw, hpoints]
    exact hfinal.tight

/-- The law at a pattern that moves, jumps back, closes a connector and resets. -/
theorem measured_box_tight_after_jump :
    ∃ box : Bounds Float32,
      (measure .standard (.ofPoint .origin) "a5.[3|A]2/@").outcome = .ok box ∧
        box.Tight (measure .standard (.ofPoint .origin) "a5.[3|A]2/@").points ∧
        box.Tight (draw .standard (.ofPoint .origin) "a5.[3|A]2/@").points := by
  have hvalid : validate "a5.[3|A]2/@" = .ok () := (validate_eq_ok_iff _).2 (by decide +kernel)
  apply measured_box_tight .standard .origin "a5.[3|A]2/@" hvalid
  decide +kernel

end LineArt
