import LineArt.Proofs.Relabelling
import Mathlib.Data.Fintype.Perm
import Mathlib.Data.Set.Card
import Mathlib.GroupTheory.OrderOfElement

/-!
# The symmetries of the square

Lists of symmetries act on pattern text as the symmetry group of the square: each relabels
by one permutation of the four directions, which keeps opposite directions opposite, and
two lists do the same to every text just when their permutations are equal.  The eight
permutations of this kind all arise.
-/

namespace LineArt

instance : Fintype Direction := ⟨⟨↑Direction.all, by decide⟩, Direction.mem_all⟩

namespace Symmetry

/-! ### Relabelled texts -/

/-- A character and the one it becomes as the directions turn: a symbol becomes that of the
direction it is sent to, and anything else stays. -/
inductive Relabels (turn : Direction → Direction) : Char → Char → Prop where
  | symbol (d : Direction) : Relabels turn d.symbol (turn d).symbol
  | other {c : Char} (h : ∀ d : Direction, c ≠ d.symbol) : Relabels turn c c

theorem relabels_onChar (s : Symmetry) (c : Char) : Relabels s.map c (s.onChar c) := by
  cases h : Direction.ofSymbol? c with
  | some d =>
    obtain rfl := Direction.symbol_of_ofSymbol? h
    rw [onChar_symbol]
    exact .symbol d
  | none =>
    rw [onChar_of_none s h]
    apply Relabels.other
    rintro d rfl
    rw [Direction.ofSymbol?_symbol] at h
    contradiction

theorem relabels_id (c : Char) : Relabels id c c := by
  by_cases h : ∃ d : Direction, c = d.symbol
  · obtain ⟨d, rfl⟩ := h
    exact .symbol d
  · exact .other (not_exists.1 h)

section Relabels

variable {turn turn' : Direction → Direction} {a b c : Char}

theorem Relabels.right_unique (hb : Relabels turn a b) (hc : Relabels turn a c) : b = c := by
  cases hb with
  | symbol d =>
    generalize hsymbol : d.symbol = e at hc
    cases hc with
    | symbol d' => rw [Direction.symbol_injective hsymbol]
    | other h => exact absurd hsymbol.symm (h d)
  | other h =>
    cases hc with
    | symbol d => exact absurd rfl (h d)
    | other => rfl

/-- A symbol is relabelled to a symbol, which the next turn relabels again. -/
theorem Relabels.comp (hb : Relabels turn a b) (hc : Relabels turn' b c) :
    Relabels (turn' ∘ turn) a c := by
  cases hb with
  | symbol d =>
    obtain rfl := hc.right_unique (.symbol (turn d))
    exact .symbol d
  | other h =>
    obtain rfl := hc.right_unique (.other h)
    exact .other h

end Relabels

def onCharAll (ss : List Symmetry) (c : Char) : Char := ss.foldl (fun c s => s.onChar c) c

theorem toList_applyAll (ss : List Symmetry) (pattern : String) :
    (applyAll ss pattern).toList = pattern.toList.map (onCharAll ss) := by
  induction ss generalizing pattern with
  | nil => exact (List.map_id _).symm
  | cons s ss ih =>
    rw [applyAll_cons, ih, toList_apply, List.map_map]
    rfl

theorem relabels_onCharAll (ss : List Symmetry) (c : Char) :
    Relabels (mapAll ss) c (onCharAll ss c) := by
  induction ss generalizing c with
  | nil => exact relabels_id c
  | cons s ss ih => exact (relabels_onChar s c).comp (ih (s.onChar c))

theorem relabels_applyAll (ss : List Symmetry) (pattern : String) :
    List.Forall₂ (Relabels (mapAll ss)) pattern.toList (applyAll ss pattern).toList := by
  rw [toList_applyAll, List.forall₂_map_right_iff, List.forall₂_same]
  intro c _
  exact relabels_onCharAll ss c

/-! ### Permutations of the directions -/

/-- The list that takes back what a list does, last things first. -/
def inverses (ss : List Symmetry) : List Symmetry := (ss.map inverse).reverse

theorem inverses_cons (s : Symmetry) (ss : List Symmetry) :
    inverses (s :: ss) = inverses ss ++ [s.inverse] := by
  rw [inverses, List.map_cons, List.reverse_cons]
  rfl

theorem inverses_inverses (ss : List Symmetry) : inverses (inverses ss) = ss := by
  have hinverse (s : Symmetry) : s.inverse.inverse = s := by cases s <;> rfl
  simp [inverses, List.map_reverse, Function.comp_def, hinverse]

/-- Whatever it is that symmetries act on, if each is undone by its inverse, so is a list. -/
theorem foldl_inverses {β : Type} {f : β → Symmetry → β} (hf : ∀ b s, f (f b s) s.inverse = b)
    (ss : List Symmetry) (b : β) : (inverses ss).foldl f (ss.foldl f b) = b := by
  induction ss generalizing b with
  | nil => rfl
  | cons s ss ih =>
    have hrest := ih (f b s)
    rw [inverses_cons, List.foldl_cons, List.foldl_append, hrest]
    exact hf b s

theorem inverses_applyAll (ss : List Symmetry) (pattern : String) :
    applyAll (inverses ss) (applyAll ss pattern) = pattern :=
  foldl_inverses (fun text s => s.inverse_apply_apply text) ss pattern

theorem inverses_mapAll (ss : List Symmetry) (d : Direction) :
    mapAll (inverses ss) (mapAll ss d) = d :=
  foldl_inverses (fun d s => s.inverse_map_map d) ss d

/-- How the directions turn under several symmetries, one after the other. -/
def turning (ss : List Symmetry) : Equiv.Perm Direction where
  toFun := mapAll ss
  invFun := mapAll (inverses ss)
  left_inv := inverses_mapAll ss
  right_inv d := by
    have hback := inverses_mapAll (inverses ss) d
    rwa [inverses_inverses] at hback

theorem turning_nil : turning [] = 1 := rfl

theorem turning_append (ss ts : List Symmetry) :
    turning (ss ++ ts) = turning ts * turning ss := by
  ext d
  exact mapAll_append ss ts d

theorem turning_replicate (n : ℕ) (s : Symmetry) :
    turning (List.replicate n s) = turning [s] ^ n := by
  induction n with
  | zero => rfl
  | succ n ih => rw [List.replicate_succ', turning_append, ih, pow_succ']

theorem turning_opposite (ss : List Symmetry) (d : Direction) :
    turning ss d.opposite = (turning ss d).opposite := by
  induction ss generalizing d with
  | nil => rfl
  | cons s ss ih =>
    have hrest := ih (s.map d)
    rw [← s.map_opposite] at hrest
    exact hrest

/-- The text of a single symbol tells where its direction is sent, so lists that do the same
to all texts turn the directions alike. -/
theorem applyAll_eq_iff (ss ts : List Symmetry) :
    (∀ pattern, applyAll ss pattern = applyAll ts pattern) ↔ turning ss = turning ts := by
  constructor
  · intro h
    ext d
    have htext := congrArg String.toList (h (String.singleton d.symbol))
    rw [toList_applyAll, toList_applyAll, String.toList_singleton] at htext
    have hchar : onCharAll ss d.symbol = onCharAll ts d.symbol := List.singleton_inj.1 htext
    have hss := (relabels_onCharAll ss d.symbol).right_unique (.symbol d)
    have hts := (relabels_onCharAll ts d.symbol).right_unique (.symbol d)
    exact Direction.symbol_injective (hss.symm.trans (hchar.trans hts))
  · intro h pattern
    have hmap : mapAll ss = mapAll ts := congrArg DFunLike.coe h
    have hchar : onCharAll ss = onCharAll ts := by
      funext c
      exact (hmap ▸ relabels_onCharAll ss c).right_unique (relabels_onCharAll ts c)
    rw [← String.toList_inj, toList_applyAll, toList_applyAll, hchar]

/-! ### The eight symmetries -/

/-- Lists of symmetries, one for each symmetry of the square: the quarter turns, and those
after a mirror. -/
def square : List (List Symmetry) :=
  [[], [rotate90], [rotate180], [rotate270], [mirrorHorizontal], [mirrorVertical],
    [mirrorHorizontal, rotate90], [mirrorVertical, rotate90]]

/-- Two permutations that keep opposite directions opposite are equal if they agree on one
direction of each axis. -/
theorem eq_of_axes {π σ : Equiv.Perm Direction} (hπ : ∀ d, π d.opposite = (π d).opposite)
    (hσ : ∀ d, σ d.opposite = (σ d).opposite) (hx : π .posX = σ .posX) (hy : π .posY = σ .posY) :
    π = σ := by
  ext d
  cases d with
  | posX => exact hx
  | posY => exact hy
  | negX => exact (hπ .posX).trans ((congrArg Direction.opposite hx).trans (hσ .posX).symm)
  | negY => exact (hπ .posY).trans ((congrArg Direction.opposite hy).trans (hσ .posY).symm)

theorem exists_turning_eq {π : Equiv.Perm Direction} (hπ : ∀ d, π d.opposite = (π d).opposite) :
    ∃ ss ∈ square, turning ss = π := by
  have hall : ∀ d e : Direction, e ≠ d → e ≠ d.opposite →
      ∃ ss ∈ square, mapAll ss .posX = d ∧ mapAll ss .posY = e := by decide
  -- The images of the axes lie on different axes.
  have hne : π .posY ≠ π .posX := fun h => by simpa using π.injective h
  have hne' : π .posY ≠ (π .posX).opposite := fun h => by
    simpa [Direction.opposite] using π.injective (h.trans (hπ .posX).symm)
  obtain ⟨ss, hss, hx, hy⟩ := hall (π .posX) (π .posY) hne hne'
  exact ⟨ss, hss, eq_of_axes (turning_opposite ss) hπ hx hy⟩

theorem range_turning :
    Set.range turning = {π | ∀ d, π d.opposite = (π d).opposite} := by
  ext π
  constructor
  · rintro ⟨ss, rfl⟩
    exact turning_opposite ss
  · intro hπ
    obtain ⟨ss, -, hss⟩ := exists_turning_eq hπ
    exact ⟨ss, hss⟩

theorem ncard_range_turning : (Set.range turning).ncard = 8 := by
  have hset : Set.range turning = ↑(square.map turning).toFinset := by
    ext π
    rw [List.coe_toFinset, Set.mem_ofPred_eq, List.mem_map]
    constructor
    · rintro ⟨ss, rfl⟩
      exact exists_turning_eq (turning_opposite ss)
    · rintro ⟨ss, -, rfl⟩
      exact ⟨ss, rfl⟩
  have hcard : (square.map turning).toFinset.card = 8 := by decide
  rw [hset, Set.ncard_coe_finset, hcard]

theorem orderOf_turning_rotate90 : orderOf (turning [rotate90]) = 4 := by
  have hhalf : turning [rotate90] ^ 2 ^ 1 ≠ 1 := by decide
  have hfull : turning [rotate90] ^ 2 ^ 2 = 1 := by decide
  exact orderOf_eq_prime_pow hhalf hfull

/-- Lists of symmetries act on texts one after the other and are undone by their inverses,
taken in reverse.  A list relabels each direction symbol of a text once, by one permutation
that keeps opposite directions opposite, and leaves every other character at its place; and
the permutation is all that there is to it.  Quarter turns have order four, half turns are
two of them or both mirrors, and all eight symmetries of the square arise. -/
theorem lists_act_as_square_symmetries :
    (∀ ss ts pattern, applyAll (ss ++ ts) pattern = applyAll ts (applyAll ss pattern)) ∧
    (∀ ss pattern, applyAll (inverses ss) (applyAll ss pattern) = pattern ∧
      applyAll ss (applyAll (inverses ss) pattern) = pattern) ∧
    (∀ ss pattern,
      List.Forall₂ (Relabels (turning ss)) pattern.toList (applyAll ss pattern).toList) ∧
    (∀ ss ts, (∀ pattern, applyAll ss pattern = applyAll ts pattern) ↔ turning ss = turning ts) ∧
    (∀ n, (∀ pattern, applyAll (List.replicate n rotate90) pattern = pattern) ↔ 4 ∣ n) ∧
    (∀ pattern, rotate180.apply pattern = applyAll [rotate90, rotate90] pattern ∧
      rotate180.apply pattern = applyAll [mirrorHorizontal, mirrorVertical] pattern ∧
      rotate180.apply pattern = applyAll [mirrorVertical, mirrorHorizontal] pattern ∧
      rotate270.apply pattern = applyAll [rotate90, rotate90, rotate90] pattern) ∧
    Set.range turning = {π | ∀ d, π d.opposite = (π d).opposite} ∧
    (Set.range turning).ncard = 8 := by
  refine ⟨applyAll_append, ?_, relabels_applyAll, applyAll_eq_iff, ?_, ?_, range_turning,
    ncard_range_turning⟩
  · intro ss pattern
    have hback := inverses_applyAll (inverses ss) pattern
    rw [inverses_inverses] at hback
    exact ⟨inverses_applyAll ss pattern, hback⟩
  · intro n
    have hturns := applyAll_eq_iff (List.replicate n rotate90) []
    rw [turning_replicate, turning_nil, ← orderOf_dvd_iff_pow_eq_one,
      orderOf_turning_rotate90] at hturns
    exact hturns
  · intro pattern
    have hsame (s : Symmetry) {ts : List Symmetry} (h : turning [s] = turning ts) :
        s.apply pattern = applyAll ts pattern := (applyAll_eq_iff [s] ts).2 h pattern
    exact ⟨hsame rotate180 (by decide), hsame rotate180 (by decide), hsame rotate180 (by decide),
      hsame rotate270 (by decide)⟩

end Symmetry

end LineArt
