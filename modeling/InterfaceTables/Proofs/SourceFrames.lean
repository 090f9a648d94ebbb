import InterfaceTables.Table.Artifact
import Mathlib.Data.List.Forall2

/-!
Where the values stand in a generated source: between fixed literals, each up to a character that it
does not hold.
-/

namespace InterfaceTables

/-! ## Frames: literals around values, each of which ends at a character that it does not hold -/

/-- What stands before each value and the character that ends it. -/
abbrev Frame := List (String × Char)

namespace Frame

/-- Values in their frame. -/
def text : Frame → List String → List Char
  | (literal, stop) :: frame, value :: values =>
    literal.toList ++ (value.toList ++ stop :: text frame values)
  | _, _ => []

/-- The characters before the first `stop` and those after it. -/
def upTo (stop : Char) : List Char → Option (List Char × List Char)
  | [] => none
  | c :: cs => if c = stop then some ([], cs) else (upTo stop cs).map fun (front, rest) => (c :: front, rest)

/-- The values in a frame at the start of a text, and the rest of the text. -/
def read : Frame → List Char → Option (List String × List Char)
  | [], cs => some ([], cs)
  | (literal, stop) :: frame, cs => do
    let cs ← literal.toList.isPrefixOf? cs
    let (value, cs) ← upTo stop cs
    let (values, cs) ← read frame cs
    return (String.ofList value :: values, cs)

theorem upTo_append {stop : Char} {value : List Char} (h : stop ∉ value) (rest : List Char) :
    upTo stop (value ++ stop :: rest) = some (value, rest) := by
  induction value with
  | nil => simp [upTo]
  | cons c cs ih =>
    have hc : c ≠ stop := fun he => h (by simp [he])
    have hcs : stop ∉ cs := fun hm => h (List.mem_cons_of_mem c hm)
    simp [upTo, hc, ih hcs]

theorem isPrefixOf?_append (literal rest : List Char) :
    literal.isPrefixOf? (literal ++ rest) = some rest :=
  List.isPrefixOf?_eq_some_iff_append_eq.mpr rfl

/-- No value holds the character that ends it. -/
def Fits : Frame → List String → Prop := List.Forall₂ fun field value => field.2 ∉ value.toList

theorem read_text {frame : Frame} {values : List String} (h : frame.Fits values) (rest : List Char) :
    read frame (text frame values ++ rest) = some (values, rest) := by
  induction h with
  | nil => rfl
  | @cons field value frame values hstop _ ih =>
    obtain ⟨literal, stop⟩ := field
    simp [read, text, isPrefixOf?_append, upTo_append hstop, ih]

theorem fill_literal (vars : List (String × String)) (cs : List Char) :
    Segment.fill vars (.literal cs) = cs := by
  unfold Segment.fill
  rfl

theorem fill_placeholder {vars : List (String × String)} {key value : String}
    (h : vars.lookup key = some value) :
    Segment.fill vars (.placeholder key.toList) = value.toList := by
  unfold Segment.fill
  dsimp only
  rw [String.ofList_toList, h]

/-- The template of a frame: a placeholder for each value, `foot` after the last. -/
def segments (carry : List Char) : Frame → List String → (foot : List Char) → List Segment
  | (literal, stop) :: frame, key :: keys, foot =>
    .literal (carry ++ literal.toList) :: .placeholder key.toList :: segments [stop] frame keys foot
  | _, _, foot => [.literal (carry ++ foot)]

/-- The variables have the given values. -/
def Assigns (vars : List (String × String)) : (keys values : List String) → Prop :=
  List.Forall₂ fun key value => vars.lookup key = some value

theorem fill_segments {vars : List (String × String)} {frame : Frame} {keys values : List String}
    (h : Assigns vars keys values)
    (hl : frame.length = keys.length) (carry foot : List Char) :
    (segments carry frame keys foot).flatMap (Segment.fill vars) =
      carry ++ (text frame values ++ foot) := by
  induction h generalizing frame carry with
  | nil =>
    cases frame with
    | nil => simp [segments, text, fill_literal]
    | cons field frame => simp at hl
  | @cons key value keys values hkey _ ih =>
    cases frame with
    | nil => simp at hl
    | cons field frame =>
      obtain ⟨literal, stop⟩ := field
      have hrest := ih (Nat.succ.inj hl) [stop]
      simp [segments, text, fill_literal, fill_placeholder hkey, hrest]

end Frame

/-! ## Filled templates -/

theorem Template.toList_fill {t : Template} {segments : List Segment}
    (h : Segment.split t.text.toList = segments) (vars : List (String × String)) :
    (t.fill vars).toList = segments.flatMap (Segment.fill vars) := by
  rw [Template.fill, h, String.toList_ofList]

namespace MappingRecord

def frame : Frame :=
  [("\n    \x7b\n        .endpoint = \"", '"'),
   (",\n        .type = ", ','),
   ("\n        .reliability = ", ','),
   ("\n        .explicit_timestamp = ", ','),
   ("\n        .allow_unset = ", ',')]

def keys : List String := ["endpoint", "type", "reliability", "explicit_timestamp", "allow_unset"]

def values (m : MappingRecord) : List String :=
  [m.endpoint, m.type, m.reliability, m.explicitTimestamp, m.allowUnset]

/-- What ends a mapping. -/
def foot : List Char := "\n    \x7d,".toList

theorem split_mapping : Segment.split Template.mapping.text.toList = frame.segments [] keys foot := by
  unfold Template.mapping frame keys foot
  simp only [String.toList_append, Frame.segments]
  repeat rw [String.toList_ofList]
  rfl

theorem toList_definition (m : MappingRecord) :
    m.definition.toList = frame.text m.values ++ foot := by
  -- The variables stay abstract, so that no text is computed while they are looked up.
  have hfill : ∀ {vars}, Frame.Assigns vars keys m.values →
      (Template.mapping.fill vars).toList = frame.text m.values ++ foot := by
    intro vars h
    rw [Template.toList_fill split_mapping, Frame.fill_segments h rfl, List.nil_append]
  exact hfill (.cons rfl (.cons rfl (.cons rfl (.cons rfl (.cons rfl .nil)))))

end MappingRecord

namespace InterfaceRecord

/-- The frame before the mappings. -/
def frontFrame : Frame := [("\nstatic const astarte_mapping_t ", '['), ("", ']')]

def frontKeys : List String := ["mappings_symbol", "mappings_length"]

def frontValues (r : InterfaceRecord) : List String := [r.mappingsSymbol, toString r.mappingsLength]

/-- What stands between the front and the mappings. -/
def opening : List Char := " = \x7b\n".toList

/-- The frame after the mappings. -/
def backFrame : Frame :=
  [("\n\x7d;\n\nconst astarte_interface_t ", ' '),
   ("= \x7b\n    .name = \"", '"'),
   (",\n    .major_version = ", ','),
   ("\n    .minor_version = ", ','),
   ("\n    .type = ", ','),
   ("\n    .ownership = ", ','),
   ("\n    .aggregation = ", ','),
   ("\n    .mappings = ", ','),
   ("\n    .mappings_length = ", 'U')]

def backKeys : List String :=
  ["symbol", "name", "version_major", "version_minor", "type", "ownership", "aggregation",
   "mappings_symbol", "mappings_length"]

def backValues (r : InterfaceRecord) : List String :=
  [r.symbol, r.name, toString r.versionMajor, toString r.versionMinor, r.kind, r.ownership,
   r.aggregation, r.mappingsSymbol, toString r.mappingsLength]

/-- What ends an interface. -/
def foot : List Char := ",\n\x7d;".toList

theorem split_definition :
    Segment.split Template.definition.text.toList =
      frontFrame.segments [] frontKeys opening ++
        .placeholder "mappings".toList :: backFrame.segments [] backKeys foot := by
  unfold Template.definition frontFrame frontKeys opening backFrame backKeys foot
  simp only [String.toList_append, Frame.segments]
  repeat rw [String.toList_ofList]
  rfl

theorem toList_definition (r : InterfaceRecord) :
    r.definition.toList = frontFrame.text r.frontValues ++ (opening ++
      (r.mappings.flatMap (fun m => m.definition.toList) ++ (backFrame.text r.backValues ++ foot))) := by
  have hfill : ∀ {vars}, Frame.Assigns vars frontKeys r.frontValues →
      vars.lookup "mappings" = some (String.join (r.mappings.map MappingRecord.definition)) →
      Frame.Assigns vars backKeys r.backValues →
      (Template.definition.fill vars).toList = frontFrame.text r.frontValues ++ (opening ++
        (r.mappings.flatMap (fun m => m.definition.toList) ++ (backFrame.text r.backValues ++ foot))) := by
    intro vars hfront hmappings hback
    rw [Template.toList_fill split_definition, List.flatMap_append, List.flatMap_cons,
      Frame.fill_segments hfront rfl, Frame.fill_placeholder hmappings, Frame.fill_segments hback rfl,
      String.toList_join, List.flatMap_map, List.nil_append, List.nil_append, List.append_assoc]
  exact hfill (.cons rfl (.cons rfl .nil)) rfl (.cons rfl (.cons rfl (.cons rfl (.cons rfl (.cons rfl
    (.cons rfl (.cons rfl (.cons rfl (.cons rfl .nil)))))))))

end InterfaceRecord

/-! ## The whole source -/

namespace SourceText

def headFrame : Frame :=
  [("/**\n * @file ", '.'),
   ("c\n * @brief Contains automatically generated interfaces.\n *\n" ++
    " * @warning Do not modify this file manually.\n */\n\n#include \"", '.')]

/-- What stands between the head's frame and the definitions. -/
def remark : List Char :=
  ("h\"\n\n// Interface names should resemble as closely as possible their respective .json file names.\n" ++
    "// NOLINTBEGIN(readability-identifier-naming)\n").toList

/-- What stands before the definitions. -/
def head (baseName : String) : List Char := headFrame.text [baseName, baseName] ++ remark

/-- What stands after the definitions. -/
def foot : List Char := "\n\n// NOLINTEND(readability-identifier-naming)\n".toList

theorem split_source :
    Segment.split Template.source.text.toList =
      headFrame.segments [] ["output_filename", "output_filename"] remark ++
        [.placeholder "interfaces_definitions".toList, .literal foot] := by
  unfold Template.source headFrame remark foot
  simp only [String.toList_append, Frame.segments]
  repeat rw [String.toList_ofList]
  decide +kernel

theorem toList_sourceText (records : List InterfaceRecord) (baseName : String) :
    (sourceText records baseName).toList =
      head baseName ++ ((joinLines (records.map InterfaceRecord.definition)).toList ++ foot) := by
  have hfill : ∀ {vars}, Frame.Assigns vars ["output_filename", "output_filename"] [baseName, baseName] →
      vars.lookup "interfaces_definitions" = some (joinLines (records.map InterfaceRecord.definition)) →
      (Template.source.fill vars).toList =
        head baseName ++ ((joinLines (records.map InterfaceRecord.definition)).toList ++ foot) := by
    intro vars hname hdefinitions
    rw [Template.toList_fill split_source, List.flatMap_append, Frame.fill_segments hname rfl,
      List.flatMap_cons, Frame.fill_placeholder hdefinitions, List.flatMap_cons, List.flatMap_nil,
      Frame.fill_literal, List.append_nil, List.nil_append]
    rfl
  exact hfill (.cons rfl (.cons rfl .nil)) rfl

end SourceText

end InterfaceTables
