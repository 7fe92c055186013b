import LineArt.Proofs.Alphabet
import LineArt.Proofs.Lifting

/-!
# Prefixes of a pass

A pass reads its text from left to right and never looks ahead: what it holds and
what it has shown after some valid text is the same whatever follows.  `Reaches`
says what that is; it holds at the empty text and is carried on character by
character.
-/

namespace LineArt

variable {α : Type}

theorem map_snd_tokensFrom (index : Nat) (cs : List Char) :
    (tokensFrom index cs).map Prod.snd = cs.map Token.ofChar := by
  induction cs generalizing index with
  | nil => rfl
  | cons c cs ih => rw [tokensFrom_cons, List.map_cons, ih, List.map_cons]

variable [Scalar α]

/-! ### Reading on -/

namespace Cursor

def read (c : Cursor α) (cs : List Char) (step : Point α) : Cursor α :=
  c.applyAll (cs.map Token.ofChar) step

@[simp] theorem read_nil (c : Cursor α) (step : Point α) : c.read [] step = c := rfl

@[simp] theorem read_cons (c : Cursor α) (char : Char) (cs : List Char) (step : Point α) :
    c.read (char :: cs) step = (c.apply (Token.ofChar char) step).1.read cs step := rfl

theorem read_append (c : Cursor α) (cs ds : List Char) (step : Point α) :
    c.read (cs ++ ds) step = (c.read cs step).read ds step := by
  rw [read, List.map_append]
  exact List.foldl_append

end Cursor

theorem walk_append (step : Point α) (mode : Mode) (c : Cursor α) (xs ys : List (Nat × Token)) :
    walk step mode c (xs ++ ys)
      = (walk step mode c xs).andThen fun d => walk step mode d ys := by
  induction xs using tokens_induction generalizing c with
  | nil => rfl
  | invalid index token char rest ht =>
    rw [List.cons_append, walk_cons_invalid _ _ _ _ _ ht, walk_cons_invalid _ _ _ _ _ ht,
      Trace.fail_andThen]
  | valid index token rest ht ih =>
    rw [List.cons_append, walk_cons_valid _ _ _ _ _ ht, walk_cons_valid _ _ _ _ _ ht, ih,
      Trace.after_andThen]

theorem outcome_walk_of_inAlphabet (step : Point α) (mode : Mode) (c : Cursor α) (index : Nat)
    {cs : List Char} (h : ∀ char ∈ cs, InAlphabet char) :
    (walk step mode c (tokensFrom index cs)).outcome = .ok (c.read cs step) := by
  rw [outcome_walk_of_valid step mode c ((firstInvalid?_tokensFrom_eq_none_iff index cs).2 h),
    map_snd_tokensFrom]
  rfl

theorem walk_tokensFrom_append (step : Point α) (mode : Mode) (c : Cursor α) (index : Nat)
    {cs : List Char} (ds : List Char) (h : ∀ char ∈ cs, InAlphabet char) :
    walk step mode c (tokensFrom index (cs ++ ds))
      = .after (walk step mode c (tokensFrom index cs)).instructions
          (walk step mode (c.read cs step) (tokensFrom (index + cs.length) ds)) := by
  rw [tokensFrom_append, walk_append, Trace.andThen, outcome_walk_of_inAlphabet step mode c index h]

/-! ### What a pass has done at a prefix -/

/-- Having read `text`, a pass holds `cursor` and has shown `shown`, whatever follows. -/
def Reaches (config : Config α) (start : Point α) (mode : Mode) (text : String)
    (cursor : Cursor α) (shown : List (Instruction α)) : Prop :=
  ∀ rest : String, execute config start (text ++ rest) mode
    = .after shown
      ((walk config.step mode cursor (tokensFrom text.length rest.toList)).andThen
        fun c => .after (epilogue mode) (.done c))

section Reaches

variable {config : Config α} {start : Point α} {mode : Mode} {text : String}
  {cursor : Cursor α} {shown : List (Instruction α)}

theorem reaches_empty (config : Config α) (start : Point α) (mode : Mode) :
    Reaches config start mode "" (.start start) (prologue config mode start) := by
  intro rest
  rw [String.empty_append, execute_eq]
  rfl

theorem Reaches.append (h : Reaches config start mode text cursor shown) {more : String}
    (hmore : validate more = .ok ()) :
    Reaches config start mode (text ++ more) (cursor.read more.toList config.step)
      (shown ++ (walk config.step mode cursor
        (tokensFrom text.length more.toList)).instructions) := by
  intro rest
  have hchars := (validate_eq_ok_iff_inAlphabet more).1 hmore
  rw [String.append_assoc, h, String.toList_append,
    walk_tokensFrom_append config.step mode cursor text.length rest.toList hchars,
    Trace.after_andThen, Trace.after_after, String.length_toList, String.length_append]

theorem Reaches.push (h : Reaches config start mode text cursor shown) {c : Char}
    (hc : InAlphabet c) :
    Reaches config start mode (text.push c) (cursor.apply (Token.ofChar c) config.step).1
      (shown ++ (cursor.apply (Token.ofChar c) config.step).2.instructions mode
        (cursor.apply (Token.ofChar c) config.step).1) := by
  have hone : validate (String.singleton c) = .ok () := by
    rw [validate_eq_ok_iff_inAlphabet, String.toList_singleton, List.forall_mem_singleton]
    exact hc
  have hnext := h.append hone
  rw [← String.push_eq_append, String.toList_singleton, tokensFrom_cons,
    walk_cons_valid _ _ _ _ _ (invalid?_ofChar_of_mem hc)] at hnext
  simpa [walk, Trace.done] using hnext

theorem reaches_of_valid (config : Config α) (start : Point α) (mode : Mode)
    (hvalid : validate text = .ok ()) :
    Reaches config start mode text ((Cursor.start start).read text.toList config.step)
      (prologue config mode start
        ++ (walk config.step mode (.start start) (tokenize text)).instructions) := by
  have h := (reaches_empty config start mode).append hvalid
  rw [String.empty_append] at h
  exact h

theorem Reaches.stops (h : Reaches config start mode text cursor shown) :
    execute config start text mode = .after (shown ++ epilogue mode) (.done cursor) := by
  have hend := h ""
  rw [String.append_empty] at hend
  rw [hend]
  exact Trace.after_after shown (epilogue mode) (.done cursor)

theorem Reaches.outcome (h : Reaches config start mode text cursor shown) :
    (execute config start text mode).outcome = .ok cursor := by
  rw [h.stops]
  rfl

theorem Reaches.instructions (h : Reaches config start mode text cursor shown) :
    (execute config start text mode).instructions = shown ++ epilogue mode := by
  rw [h.stops]
  exact List.append_nil (shown ++ epilogue mode)

theorem Reaches.points (h : Reaches config start mode text cursor shown) :
    (execute config start text mode).points = shown.filterMap Instruction.target? := by
  have hepilogue : (epilogue mode : List (Instruction α)).filterMap Instruction.target? = [] := by
    cases mode <;> rfl
  rw [Trace.points, h.instructions, List.filterMap_append, hepilogue, List.append_nil]

theorem Reaches.unique (h : Reaches config start mode text cursor shown) {cursor' : Cursor α}
    {shown' : List (Instruction α)} (h' : Reaches config start mode text cursor' shown') :
    cursor = cursor' ∧ shown = shown' := by
  constructor
  · exact Except.ok.inj (h.outcome.symm.trans h'.outcome)
  · exact List.append_cancel_right (h.instructions.symm.trans h'.instructions)

theorem Reaches.breaks (h : Reaches config start mode text cursor shown) {c : Char}
    (hc : ¬ InAlphabet c) (rest : String) :
    execute config start (text.push c ++ rest) mode = .after shown (.fail ⟨c, text.length⟩) := by
  rw [String.push_eq_append, String.append_assoc, h, String.toList_append, String.toList_singleton,
    List.singleton_append, tokensFrom_cons,
    walk_cons_invalid _ _ _ _ _ (invalid?_ofChar_of_not_mem hc), Trace.fail_andThen]

end Reaches

end LineArt
