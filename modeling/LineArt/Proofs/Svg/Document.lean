import LineArt.Proofs.Outcomes
import LineArt.Proofs.Svg.Markup
import LineArt.Proofs.Svg.Path

/-!
# Documents read back

What a reader of markup finds in a document.  The data of its path are the motions that were
recorded.  The color of the stroke is written as it is, so a document shows one path with that
color just when the color holds no double quote, no ampersand and no beginning of a path.
-/

namespace LineArt.Svg

open Markup

def pathWord : List Char := "<path".toList

/-- The tag of the first path. -/
def pathTag? (text : List Char) : Option Tag := (behind? pathWord text).map (readTag (.gap false))

/-! ### The parts of a document -/

/-- What stands in the opening tag behind its name. -/
def canvasText (config : Config Float32) : List Char :=
  assigned "xmlns" "http://www.w3.org/2000/svg".toList
    ++ ' ' :: assigned "width" (floatText config.canvas.x)
    ++ ' ' :: assigned "height" (floatText config.canvas.y)
    ++ ' ' :: assigned "viewBox"
      ("0 0 ".toList ++ floatText config.canvas.x ++ ' ' :: floatText config.canvas.y)

/-- What stands in a document behind the color. -/
def closingText (config : Config Float32) : List Char :=
  ' ' :: assigned "stroke-width" (floatText config.strokeWidth) ++ "/></svg>".toList

/-- The attributes of the path and what follows them. -/
def attributesText (config : Config Float32) (r : Recording Float32) : List Char :=
  assigned "d" (pathData r) ++ ' ' :: (assigned "fill" "none".toList
    ++ ' ' :: (assigned "stroke" config.strokeColor.toList ++ closingText config))

variable (config : Config Float32) (r : Recording Float32)

/-- The document, cut where its tags and their names end. -/
theorem document_eq :
    document config r
      = "<svg".toList ++ ' ' :: (canvasText config ++ '>' ::
          (pathWord ++ ' ' :: attributesText config r)) := by
  have hopen : "<svg ".toList = "<svg".toList ++ [' '] := rfl
  have hpath : "<path ".toList = pathWord ++ [' '] := rfl
  have hend : "/></svg>".toList = "/>".toList ++ "</svg>".toList := rfl
  unfold document openingTag pathTag canvasText attributesText closingText
  rw [hopen, hpath, hend]
  simp only [List.append_assoc, List.cons_append, List.nil_append]

theorem not_mem_assigned {c : Char} {name : String} {value : List Char} (hname : c ∉ name.toList)
    (hsign : c ∉ ['=', '"']) (hvalue : c ∉ value) : c ∉ assigned name value := by
  simp only [List.mem_cons, List.not_mem_nil, or_false, not_or] at hsign
  simp only [assigned, List.mem_append, List.mem_cons, List.not_mem_nil, or_false, not_or]
  exact ⟨⟨hname, hsign.1, hsign.2, hvalue⟩, hsign.2⟩

theorem not_mem_floatText {c : Char} (h : ¬ IsNumberChar c) (x : Float32) : c ∉ floatText x :=
  fun hmem => h (isNumberChar_floatText x c hmem)

theorem not_mem_pathData {c : Char} (h : ¬ IsPathChar c) : c ∉ pathData r :=
  fun hmem => h (isPathChar_pathData r c hmem)

theorem angle_not_mem_canvasText : '<' ∉ canvasText config := by
  have hnumber := not_mem_floatText (c := '<') (by decide)
  simp only [canvasText, List.mem_append, List.mem_cons, not_or]
  refine ⟨⟨⟨?_, by decide, ?_⟩, by decide, ?_⟩, by decide, ?_⟩
  · exact not_mem_assigned (by decide) (by decide) (by decide)
  · exact not_mem_assigned (by decide) (by decide) (hnumber _)
  · exact not_mem_assigned (by decide) (by decide) (hnumber _)
  · apply not_mem_assigned (by decide) (by decide)
    simp only [List.mem_append, List.mem_cons, not_or]
    exact ⟨⟨by decide, hnumber _⟩, by decide, hnumber _⟩

theorem pathTag?_document :
    pathTag? (document config r) = some (readTag (.gap true) (attributesText config r)) := by
  have hopen : ¬ pathWord <:+: "<svg".toList := by decide
  have hcanvas : ¬ pathWord <:+: canvasText config :=
    fun h => angle_not_mem_canvasText config (h.subset (by decide))
  unfold pathTag?
  rw [document_eq, behind?_append_cons (by decide) (by decide) hopen,
    behind?_append_cons (by decide) (by decide) hcanvas, behind?_append_self (by decide)]
  rfl

/-! ### The attributes of the path -/

/-- The path has the data and the filling that were written, whatever follows them. -/
theorem pathTag?_eq :
    pathTag? (document config r)
      = some (((readTag (.gap true)
          (assigned "stroke" config.strokeColor.toList ++ closingText config)).add
            "fill".toList "none".toList).add "d".toList (pathData r)) := by
  have hquote : '"' ∉ pathData r := not_mem_pathData r (by decide)
  rw [pathTag?_document, attributesText, readTag_assigned (by decide) _ _ hquote, readTag_blank,
    readTag_assigned (by decide) _ _ (by decide), readTag_blank]

theorem readTag_closingText :
    readTag (.gap false) (closingText config)
      = ⟨[("stroke-width".toList, floatText config.strokeWidth)], true⟩ := by
  have hquote : '"' ∉ floatText config.strokeWidth := not_mem_floatText (by decide) _
  have hend : readTag (.gap false) "/></svg>".toList = ⟨[], true⟩ := by rfl
  rw [closingText, List.cons_append, readTag_blank, readTag_assigned (by decide) _ _ hquote, hend]
  rfl

/-- The attributes of the path as they are meant. -/
def pathAttributes : List (List Char × List Char) :=
  [("d".toList, pathData r), ("fill".toList, "none".toList),
    ("stroke".toList, config.strokeColor.toList),
    ("stroke-width".toList, floatText config.strokeWidth)]

theorem pathTag?_of_not_mem (h : '"' ∉ config.strokeColor.toList) :
    pathTag? (document config r) = some ⟨pathAttributes config r, true⟩ := by
  rw [pathTag?_eq, readTag_assigned (by decide) _ _ h, readTag_closingText]
  rfl

/-- The stroke that is read ends at the first double quote of the color. -/
theorem exists_pathTag? :
    ∃ tag : Tag, pathTag? (document config r)
      = some (((tag.add "stroke".toList (config.strokeColor.toList.takeWhile (· ≠ '"'))).add
          "fill".toList "none".toList).add "d".toList (pathData r)) := by
  have hname : isName "stroke".toList = true := by decide
  obtain ⟨tag, htag⟩ :=
    exists_readTag_assigned hname config.strokeColor.toList (closingText config)
  exact ⟨tag, by rw [pathTag?_eq, htag]⟩

/-! ### The data of the path -/

/-- The value of the first attribute with a name, its references undone. -/
def attribute? (tag : Tag) (name : String) : Option (List Char) :=
  (tag.attributes.lookup name.toList).bind resolve?

/-- The data that a reader finds in the path of a document. -/
def pathData? (text : List Char) : Option (List Char) :=
  (pathTag? text).bind fun tag => attribute? tag "d"

/-- Whatever the settings and the instructions, the data that are read in the document are read
as the motions that were recorded, bit for bit; the data are empty just when nothing moved. -/
theorem svg_path_loses_nothing :
    ∃ data, pathData? (document config r) = some data ∧ readPath? data = some r.path ∧
      (data = [] ↔ r.path = []) := by
  obtain ⟨tag, htag⟩ := exists_pathTag? config r
  have hresolve : resolve? (pathData r) = some (pathData r) :=
    resolve?_of_not_mem (not_mem_pathData r (by decide))
  refine ⟨pathData r, ?_, readPath?_pathData r, pathData_eq_nil_iff r⟩
  unfold pathData?
  rw [htag]
  exact hresolve

/-! ### The color of the stroke -/

theorem occurrences_closingText : occurrences pathWord (closingText config) = 0 := by
  have hcut : closingText config
      = (' ' :: assigned "stroke-width" (floatText config.strokeWidth) ++ ['/'])
          ++ '>' :: "</svg>".toList := by
    have hend : "/></svg>".toList = ['/'] ++ '>' :: "</svg>".toList := rfl
    rw [closingText, hend, List.append_assoc]
  have hangle : '<' ∉ ' ' :: assigned "stroke-width" (floatText config.strokeWidth) ++ ['/'] := by
    have hwidth := not_mem_floatText (c := '<') (by decide) config.strokeWidth
    have hvalue : '<' ∉ assigned "stroke-width" (floatText config.strokeWidth) :=
      not_mem_assigned (by decide) (by decide) hwidth
    simp [hvalue]
  have hend : occurrences pathWord "</svg>".toList = 0 := by decide
  rw [hcut, occurrences_append_cons (by decide) (by decide), hend,
    occurrences_eq_zero_of_not_mem (by decide) hangle]

/-- Behind the name of its tag a path begins only where the color begins one. -/
theorem occurrences_attributesText :
    occurrences pathWord (attributesText config r)
      = occurrences pathWord config.strokeColor.toList := by
  have hdata : '<' ∉ assigned "d" (pathData r) :=
    not_mem_assigned (by decide) (by decide) (not_mem_pathData r (by decide))
  have hfill : '<' ∉ assigned "fill" "none".toList := by decide
  have hstroke : assigned "stroke" config.strokeColor.toList ++ closingText config
      = "stroke=".toList ++ '"' :: (config.strokeColor.toList ++ '"' :: closingText config) := by
    have hname : "stroke=".toList = "stroke".toList ++ ['='] := rfl
    rw [hname]
    simp only [assigned, List.append_assoc, List.cons_append, List.nil_append]
  have hname : occurrences pathWord "stroke=".toList = 0 := by decide
  rw [attributesText, occurrences_append_cons (by decide) (by decide),
    occurrences_append_cons (by decide) (by decide), hstroke,
    occurrences_append_cons (by decide) (by decide),
    occurrences_append_cons (by decide) (by decide), hname, occurrences_closingText,
    occurrences_eq_zero_of_not_mem (by decide) hdata,
    occurrences_eq_zero_of_not_mem (by decide) hfill]
  omega

/-- A path begins once for the document, and wherever the color begins one. -/
theorem occurrences_document :
    occurrences pathWord (document config r)
      = occurrences pathWord config.strokeColor.toList + 1 := by
  have hopen : occurrences pathWord "<svg".toList = 0 := by decide
  have hself : occurrences pathWord pathWord = 1 := by decide
  rw [document_eq, occurrences_append_cons (by decide) (by decide),
    occurrences_append_cons (by decide) (by decide),
    occurrences_append_cons (by decide) (by decide), hopen, hself, occurrences_attributesText,
    occurrences_eq_zero_of_not_mem (by decide) (angle_not_mem_canvasText config)]
  omega

/-- All attributes of a closed tag, the references in their values undone. -/
def resolvedAttributes? (tag : Tag) : Option (List (List Char × List Char)) :=
  if tag.closed then
    tag.attributes.mapM fun (name, value) => (resolve? value).map fun text => (name, text)
  else none

/-- A document shows one path: it has the four attributes and no other, and its stroke is of
the color.  A path is counted wherever the text of one begins, within a quoted value too. -/
structure ShowsOnePath (color text : List Char) : Prop where
  single : occurrences pathWord text = 1
  attributes : ∃ read, (pathTag? text).bind resolvedAttributes? = some read ∧
    read.map Prod.fst
      = ["d".toList, "fill".toList, "stroke".toList, "stroke-width".toList] ∧
    read.lookup "stroke".toList = some color

theorem resolvedAttributes?_of_not_mem (h : '&' ∉ config.strokeColor.toList) :
    resolvedAttributes? ⟨pathAttributes config r, true⟩ = some (pathAttributes config r) := by
  have hdata : resolve? (pathData r) = some (pathData r) :=
    resolve?_of_not_mem (not_mem_pathData r (by decide))
  have hwidth : resolve? (floatText config.strokeWidth) = some (floatText config.strokeWidth) :=
    resolve?_of_not_mem (not_mem_floatText (by decide) _)
  have hcolor := resolve?_of_not_mem h
  have hnone : resolve? "none".toList = some "none".toList := by rfl
  simp only [resolvedAttributes?, pathAttributes, List.mapM_cons, List.mapM_nil, hdata, hnone,
    hcolor, hwidth]
  rfl

/-- A stroke that is read as the color is the whole color, and nothing in it was undone. -/
theorem not_mem_of_resolved {color : List Char}
    (h : resolve? (color.takeWhile (· ≠ '"')) = some color) : '"' ∉ color ∧ '&' ∉ color := by
  have hle := length_resolve?_le h
  have hwhole : color.takeWhile (· ≠ '"') = color :=
    (List.takeWhile_prefix _).eq_of_length_le hle
  refine ⟨fun hquote => ?_, ?_⟩
  · have hall := List.takeWhile_eq_self_iff.1 hwhole '"' hquote
    contradiction
  · rw [hwhole] at h
    exact resolve?_eq_self_iff.1 h

theorem exists_of_resolvedAttributes?_add {name value : List Char} {tag : Tag}
    {read : List (List Char × List Char)}
    (h : resolvedAttributes? (tag.add name value) = some read) :
    ∃ text rest, resolve? value = some text ∧ resolvedAttributes? tag = some rest ∧
      read = (name, text) :: rest := by
  unfold resolvedAttributes? at h ⊢
  split at h
  · rename_i hclosed
    have hclosed : tag.closed = true := hclosed
    rw [if_pos hclosed]
    simp only [Tag.add, List.mapM_cons, bind, Option.bind_eq_some_iff,
      Option.map_eq_some_iff] at h
    obtain ⟨-, ⟨text, htext, rfl⟩, rest, hrest, heq⟩ := h
    exact ⟨text, rest, htext, hrest, (Option.some.inj heq).symm⟩
  · contradiction

/-- The stroke stands behind two attributes of other names. -/
theorem resolve?_of_lookup {data fill stroke color : List Char} {tag : Tag}
    {read : List (List Char × List Char)}
    (hread : resolvedAttributes? (((tag.add "stroke".toList stroke).add "fill".toList fill).add
      "d".toList data) = some read)
    (hstroke : read.lookup "stroke".toList = some color) : resolve? stroke = some color := by
  obtain ⟨_, _, -, hfill, rfl⟩ := exists_of_resolvedAttributes?_add hread
  obtain ⟨_, _, -, hrest, rfl⟩ := exists_of_resolvedAttributes?_add hfill
  obtain ⟨text, _, htext, -, rfl⟩ := exists_of_resolvedAttributes?_add hrest
  obtain rfl : text = color := Option.some.inj hstroke
  exact htext

/-- A stroke that is read as the color shows that nothing in the color was cut off or undone. -/
theorem not_mem_of_lookup {read : List (List Char × List Char)}
    (hread : (pathTag? (document config r)).bind resolvedAttributes? = some read)
    (hstroke : read.lookup "stroke".toList = some config.strokeColor.toList) :
    '"' ∉ config.strokeColor.toList ∧ '&' ∉ config.strokeColor.toList := by
  obtain ⟨tag, htag⟩ := exists_pathTag? config r
  rw [htag] at hread
  exact not_mem_of_resolved (resolve?_of_lookup hread hstroke)

/-- A document shows one path with the color of its stroke just when the color holds no double
quote, no ampersand and no beginning of a path; without the first two, all four attributes are
read as they were written.  Nothing else decides it: neither the instructions nor the numbers
of the settings. -/
theorem document_shows_one_path_iff :
    ((pathTag? (document config r)).bind resolvedAttributes? = some (pathAttributes config r) ↔
      '"' ∉ config.strokeColor.toList ∧ '&' ∉ config.strokeColor.toList) ∧
    (ShowsOnePath config.strokeColor.toList (document config r) ↔
      '"' ∉ config.strokeColor.toList ∧ '&' ∉ config.strokeColor.toList ∧
        ¬ pathWord <:+: config.strokeColor.toList) := by
  have hread : (pathTag? (document config r)).bind resolvedAttributes?
        = some (pathAttributes config r) ↔
      '"' ∉ config.strokeColor.toList ∧ '&' ∉ config.strokeColor.toList := by
    refine ⟨fun h => not_mem_of_lookup config r h rfl, fun ⟨hquote, hand⟩ => ?_⟩
    rw [pathTag?_of_not_mem config r hquote]
    exact resolvedAttributes?_of_not_mem config r hand
  have hcount : occurrences pathWord (document config r) = 1 ↔
      ¬ pathWord <:+: config.strokeColor.toList := by
    rw [occurrences_document, ← occurrences_eq_zero_iff (by decide)]
    omega
  refine ⟨hread, ?_, ?_⟩
  · rintro ⟨hsingle, read, hattributes, -, hstroke⟩
    obtain ⟨hquote, hand⟩ := not_mem_of_lookup config r hattributes hstroke
    exact ⟨hquote, hand, hcount.1 hsingle⟩
  · rintro ⟨hquote, hand, hword⟩
    exact ⟨hcount.2 hword, _, hread.2 ⟨hquote, hand⟩, rfl, rfl⟩

open CommandLine

/-- A color that ends the path and begins another. -/
def endingColor : String := "\"/><path d=\"M0 0 L9 9"

def endingJob : Job :=
  ⟨"", [], .ofPoint Point.origin, none, ⟨none, none, none, some endingColor, none⟩⟩

def endingDrawing : List String :=
  ["draw", "", "--x", "0", "--y", "0", "--format", "svg", "--color", endingColor]

/-- With that color on the command line the document that is printed holds a second path. -/
theorem ending_color_shows_two_paths :
    ∃ text, readCommandLine endingDrawing = .ok (.draw endingJob .svg) ∧
      outcome .silent noFiles endingDrawing = ⟨0, String.ofList text ++ "\n", ""⟩ ∧
      occurrences pathWord text = 2 ∧ ¬ ShowsOnePath endingColor.toList text := by
  have hread : readCommandLine endingDrawing = .ok (.draw endingJob .svg) := by rfl
  have hconfig : endingJob.fileConfig noFiles = .ok .standard := rfl
  have hdrawn : (draw (endingJob.overrides.apply .standard) endingJob.start
      endingJob.transformed).outcome = .ok () := by rfl
  have hcolor : occurrences pathWord endingColor.toList = 1 := by decide
  have htwice (r : Recording Float32) :
      occurrences pathWord (document (endingJob.overrides.apply .standard) r) = 2 := by
    rw [occurrences_document,
      show (endingJob.overrides.apply .standard).strokeColor = endingColor from rfl, hcolor]
  have hprinted := outcome_draw_of_ok .silent noFiles hconfig hdrawn .svg
  rw [← outcome_of_read .silent noFiles hread] at hprinted
  refine ⟨_, hread, hprinted, htwice _, ?_⟩
  intro hshown
  have hsingle := hshown.single
  rw [htwice] at hsingle
  contradiction

end LineArt.Svg
