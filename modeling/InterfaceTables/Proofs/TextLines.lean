import InterfaceTables.Diff.Line
import InterfaceTables.Proofs.SourceReading

/-!
The generated files line by line. No value breaks the line that it stands in, so the lines of a file
are those of its template, repeated for each interface and each mapping.
-/

namespace InterfaceTables

/-! ## Sorts of characters -/

def isLineBreak (c : Char) : Bool := c = '\n' || c = '\r'

abbrev Unbroken : String → Prop := Only fun c => !isLineBreak c

/-- Letters, digits, dots, dashes and underscores only. -/
abbrev Worded : String → Prop := Only Schema.isNameChar

/-- Neither a control character nor a backslash. -/
def isPrinted (c : Char) : Bool := 0x20 ≤ c.toNat && c != '\\'

abbrev Printed : String → Prop := Only isPrinted

/-- The characters of the templates' lines, which accepted names are made of, too. -/
def isBasic (c : Char) : Bool := isPrinted c && c.toNat < 0x80

theorem isPrinted_of_isBasic {c : Char} (h : isBasic c = true) : isPrinted c = true :=
  (Bool.and_eq_true_iff.mp h).1

theorem not_isLineBreak_of_isPrinted {c : Char} (h : isPrinted c = true) :
    (!isLineBreak c) = true := by
  have hn : c ≠ '\n' := by rintro rfl; exact absurd h (by decide)
  have hr : c ≠ '\r' := by rintro rfl; exact absurd h (by decide)
  simp [isLineBreak, hn, hr]

/-! ## Texts made of lines -/

/-- The text of some lines, each ended by a line feed. -/
def unlines (ls : List String) : List Char := ls.flatMap fun l => l.toList ++ ['\n']

theorem unlines_append (ls ls' : List String) : unlines (ls ++ ls') = unlines ls ++ unlines ls' :=
  List.flatMap_append

theorem unlines_cons (l : String) (ls : List String) :
    unlines (l :: ls) = l.toList ++ '\n' :: unlines ls := by
  simp [unlines]

theorem Diff.linesFrom_unbroken {line : List Char} (h : ∀ c ∈ line, (!isLineBreak c) = true)
    (acc rest : List Char) : linesFrom acc (line ++ rest) = linesFrom (line.reverse ++ acc) rest := by
  induction line generalizing acc with
  | nil => rfl
  | cons c line ih =>
    have hc := h c (by simp)
    simp only [isLineBreak, Bool.not_eq_true', Bool.or_eq_false_iff, decide_eq_false_iff_not] at hc
    have hline := ih (fun c' hc' => h c' (List.mem_cons_of_mem c hc')) (c :: acc)
    rw [List.cons_append, linesFrom, if_neg (by simp [hc]), hline]
    · simp
    · intro rest' he
      exact absurd he hc.2

theorem Diff.linesFrom_line {line : List Char} (h : ∀ c ∈ line, (!isLineBreak c) = true)
    (acc rest : List Char) :
    linesFrom acc (line ++ '\n' :: rest) =
      String.ofList (acc.reverse ++ line ++ ['\n']) :: linesFrom [] rest := by
  rw [linesFrom_unbroken h]
  simp [linesFrom]

theorem Diff.splitLines_unlines {ls : List String} (h : ∀ l ∈ ls, Unbroken l) {text : String}
    (ht : text.toList = unlines ls) : splitLines text = ls.map (· ++ "\n") := by
  rw [splitLines, ht]
  clear ht
  induction ls with
  | nil => rfl
  | cons l ls ih =>
    have hfirst := linesFrom_line (h l (by simp)) [] (unlines ls)
    have hrest := ih fun l' hl' => h l' (List.mem_cons_of_mem l hl')
    rw [unlines_cons, hfirst, hrest, List.map_cons, List.reverse_nil, List.nil_append,
      String.ofList_append, String.ofList_toList]

/-! ## The lines of a definition -/

namespace MappingRecord

def lines (m : MappingRecord) : List String :=
  ["    \x7b",
   "        .endpoint = \"" ++ m.endpoint ++ "\",",
   "        .type = " ++ m.type ++ ",",
   "        .reliability = " ++ m.reliability ++ ",",
   "        .explicit_timestamp = " ++ m.explicitTimestamp ++ ",",
   "        .allow_unset = " ++ m.allowUnset ++ ",",
   "    \x7d,"]

/-- The line feed before a mapping ends the line before it. -/
theorem definition_lines (m : MappingRecord) :
    m.definition.toList ++ ['\n'] = '\n' :: unlines m.lines := by
  rw [toList_definition]
  unfold frame values foot lines
  simp only [Frame.text, unlines_cons, String.toList_append, List.append_assoc, List.cons_append,
    List.nil_append]
  repeat rw [String.toList_ofList]
  rfl

theorem definitions_lines (ms : List MappingRecord) :
    ms.flatMap (fun m => m.definition.toList) ++ ['\n'] = '\n' :: unlines (ms.flatMap lines) := by
  induction ms with
  | nil => rfl
  | cons m ms ih =>
    rw [List.flatMap_cons, List.append_assoc, ih, List.append_cons, definition_lines,
      List.flatMap_cons, unlines_append, List.cons_append]

end MappingRecord

namespace InterfaceRecord

def front (r : InterfaceRecord) : List String :=
  ["",
   "static const astarte_mapping_t " ++ r.mappingsSymbol ++ "[" ++ toString r.mappingsLength ++
     "] = \x7b",
   ""]

def back (r : InterfaceRecord) : List String :=
  ["\x7d;",
   "",
   "const astarte_interface_t " ++ r.symbol ++ " = \x7b",
   "    .name = \"" ++ r.name ++ "\",",
   "    .major_version = " ++ toString r.versionMajor ++ ",",
   "    .minor_version = " ++ toString r.versionMinor ++ ",",
   "    .type = " ++ r.kind ++ ",",
   "    .ownership = " ++ r.ownership ++ ",",
   "    .aggregation = " ++ r.aggregation ++ ",",
   "    .mappings = " ++ r.mappingsSymbol ++ ",",
   "    .mappings_length = " ++ toString r.mappingsLength ++ "U,",
   "\x7d;"]

def lines (r : InterfaceRecord) : List String :=
  r.front ++ (r.mappings.flatMap MappingRecord.lines ++ r.back)

theorem front_text (r : InterfaceRecord) :
    frontFrame.text r.frontValues ++ (opening ++ ['\n']) = unlines r.front := by
  unfold frontFrame frontValues opening front
  simp only [Frame.text, unlines_cons, String.toList_append, List.append_assoc, List.cons_append,
    List.nil_append]
  repeat rw [String.toList_ofList]
  rfl

theorem back_text (r : InterfaceRecord) :
    backFrame.text r.backValues ++ (foot ++ ['\n']) = '\n' :: unlines r.back := by
  unfold backFrame backValues foot back
  simp only [Frame.text, unlines_cons, String.toList_append, List.append_assoc, List.cons_append,
    List.nil_append]
  repeat rw [String.toList_ofList]
  rfl

theorem definition_lines (r : InterfaceRecord) :
    r.definition.toList ++ ['\n'] = unlines r.lines := by
  rw [toList_definition, lines, unlines_append, unlines_append, ← front_text]
  simp only [List.append_assoc]
  rw [back_text, List.append_cons, MappingRecord.definitions_lines]
  simp

def declarationFrame : Frame := [("extern const astarte_interface_t ", ';')]

theorem split_declaration :
    Segment.split Template.declaration.text.toList = declarationFrame.segments [] ["symbol"] [] := by
  unfold Template.declaration declarationFrame
  simp only [Frame.segments]
  repeat rw [String.toList_ofList]
  rfl

def declarationLines (r : InterfaceRecord) : List String :=
  ["extern const astarte_interface_t " ++ r.symbol ++ ";"]

theorem declaration_lines (r : InterfaceRecord) :
    r.declaration.toList ++ ['\n'] = unlines r.declarationLines := by
  have hfill : ∀ {vars}, Frame.Assigns vars ["symbol"] [r.symbol] →
      (Template.declaration.fill vars).toList = declarationFrame.text [r.symbol] := by
    intro vars h
    rw [Template.toList_fill split_declaration, Frame.fill_segments h rfl, List.nil_append,
      List.append_nil]
  rw [declaration, hfill (.cons rfl .nil)]
  unfold declarationFrame declarationLines
  simp only [Frame.text, unlines_cons, String.toList_append, List.append_assoc, List.cons_append,
    List.nil_append]
  repeat rw [String.toList_ofList]
  rfl

end InterfaceRecord

/-! ## The lines of both files -/

/-- The lines of texts with a line feed between each two; no text is an empty line. -/
def joinedLines {α : Type} (lines : α → List String) : List α → List String
  | [] => [""]
  | x :: xs => (x :: xs).flatMap lines

theorem joinLines_lines {α : Type} {text : α → String} {lines : α → List String}
    (h : ∀ x, (text x).toList ++ ['\n'] = unlines (lines x)) (xs : List α) :
    (joinLines (xs.map text)).toList ++ ['\n'] = unlines (joinedLines lines xs) := by
  cases xs with
  | nil => rfl
  | cons x xs =>
    rw [(toList_joinLines (List.cons_ne_nil x xs) _).2, joinedLines, unlines, List.flatMap_assoc]
    exact List.flatMap_congr fun x _ => h x

namespace SourceText

def top (baseName : String) : List String :=
  ["/**",
   " * @file " ++ baseName ++ ".c",
   " * @brief Contains automatically generated interfaces.",
   " *",
   " * @warning Do not modify this file manually.",
   " */",
   "",
   "#include \"" ++ baseName ++ ".h\"",
   "",
   "// Interface names should resemble as closely as possible their respective .json file names.",
   "// NOLINTBEGIN(readability-identifier-naming)"]

def bottom : List String := ["", "// NOLINTEND(readability-identifier-naming)"]

def lines (records : List InterfaceRecord) (baseName : String) : List String :=
  top baseName ++ (joinedLines InterfaceRecord.lines records ++ bottom)

-- The literals are compared character by character.
set_option maxRecDepth 4096 in
theorem head_eq (baseName : String) : head baseName = unlines (top baseName) := by
  unfold head headFrame remark top
  simp only [Frame.text, unlines_cons, String.toList_append, List.append_assoc, List.cons_append,
    List.nil_append]
  repeat rw [String.toList_ofList]
  rfl

theorem foot_lines : foot = '\n' :: unlines bottom := by
  unfold foot bottom
  simp only [unlines_cons]
  repeat rw [String.toList_ofList]
  rfl

theorem toList_eq_unlines (records : List InterfaceRecord) (baseName : String) :
    (sourceText records baseName).toList = unlines (lines records baseName) := by
  rw [toList_sourceText, head_eq, foot_lines, List.append_cons,
    joinLines_lines InterfaceRecord.definition_lines, lines, unlines_append, unlines_append]

end SourceText

namespace HeaderText

def headFrame : Frame :=
  [("/**\n * @file ", '.'),
   ("h\n * @brief Contains automatically generated interfaces.\n *\n" ++
    " * @warning Do not modify this file manually.\n *\n" ++
    " * @details The generated structures contain all information regarding each interface.\n" ++
    " * and are automatically generated from the json interfaces definitions.\n */\n\n" ++
    "// NOLINTNEXTLINE This guard is clear enough.\n#ifndef ", '\n'),
   ("#define ", '\n')]

/-- What stands between the head's frame and the declarations. -/
def remark : List Char :=
  ("\n#include <astarte_device_sdk/interface.h>\n#include <astarte_device_sdk/mapping.h>\n\n" ++
    "// Interface names should resemble as closely as possible their respective .json file names.\n" ++
    "// NOLINTBEGIN(readability-identifier-naming)\n").toList

/-- The frame after the declarations. -/
def footFrame : Frame := [("\n// NOLINTEND(readability-identifier-naming)\n\n#endif /* ", ' ')]

def foot : List Char := "*/\n".toList

theorem split_header :
    Segment.split Template.header.text.toList =
      headFrame.segments [] ["output_filename", "include_guard", "include_guard"] remark ++
        .placeholder "interfaces_declarations".toList ::
          footFrame.segments [] ["include_guard"] foot := by
  unfold Template.header headFrame remark footFrame foot
  simp only [String.toList_append, Frame.segments]
  repeat rw [String.toList_ofList]
  decide +kernel

def top (baseName : String) : List String :=
  ["/**",
   " * @file " ++ baseName ++ ".h",
   " * @brief Contains automatically generated interfaces.",
   " *",
   " * @warning Do not modify this file manually.",
   " *",
   " * @details The generated structures contain all information regarding each interface.",
   " * and are automatically generated from the json interfaces definitions.",
   " */",
   "",
   "// NOLINTNEXTLINE This guard is clear enough.",
   "#ifndef " ++ Symbol.includeGuard baseName,
   "#define " ++ Symbol.includeGuard baseName,
   "",
   "#include <astarte_device_sdk/interface.h>",
   "#include <astarte_device_sdk/mapping.h>",
   "",
   "// Interface names should resemble as closely as possible their respective .json file names.",
   "// NOLINTBEGIN(readability-identifier-naming)"]

def bottom (baseName : String) : List String :=
  ["// NOLINTEND(readability-identifier-naming)",
   "",
   "#endif /* " ++ Symbol.includeGuard baseName ++ " */"]

def lines (records : List InterfaceRecord) (baseName : String) : List String :=
  top baseName ++ (joinedLines InterfaceRecord.declarationLines records ++ bottom baseName)

set_option maxRecDepth 4096 in
theorem head_text (baseName : String) :
    headFrame.text [baseName, Symbol.includeGuard baseName, Symbol.includeGuard baseName] ++ remark =
      unlines (top baseName) := by
  unfold headFrame remark top
  generalize Symbol.includeGuard baseName = guard
  simp only [Frame.text, unlines_cons, String.toList_append, List.append_assoc, List.cons_append,
    List.nil_append]
  repeat rw [String.toList_ofList]
  rfl

theorem foot_text (baseName : String) :
    footFrame.text [Symbol.includeGuard baseName] ++ foot = '\n' :: unlines (bottom baseName) := by
  unfold footFrame foot bottom
  generalize Symbol.includeGuard baseName = guard
  simp only [Frame.text, unlines_cons, String.toList_append, List.append_assoc, List.cons_append,
    List.nil_append]
  repeat rw [String.toList_ofList]
  rfl

theorem toList_eq_unlines (records : List InterfaceRecord) (baseName : String) :
    (headerText records baseName).toList = unlines (lines records baseName) := by
  have hfill : ∀ {vars guard declarations},
      Frame.Assigns vars ["output_filename", "include_guard", "include_guard"]
        [baseName, guard, guard] →
      vars.lookup "interfaces_declarations" = some declarations →
      Frame.Assigns vars ["include_guard"] [guard] →
      (Template.header.fill vars).toList =
        (headFrame.text [baseName, guard, guard] ++ remark) ++
          (declarations.toList ++ (footFrame.text [guard] ++ foot)) := by
    intro vars guard declarations hhead hdeclarations hfoot
    rw [Template.toList_fill split_header, List.flatMap_append, List.flatMap_cons,
      Frame.fill_segments hhead rfl, Frame.fill_placeholder hdeclarations,
      Frame.fill_segments hfoot rfl, List.nil_append, List.nil_append]
  rw [headerText, hfill (.cons rfl (.cons rfl (.cons rfl .nil))) rfl (.cons rfl .nil), head_text,
    foot_text, List.append_cons, joinLines_lines InterfaceRecord.declaration_lines, lines,
    unlines_append, unlines_append]

end HeaderText

/-! ## What stands in values -/

theorem Schema.isBasic_of_isNameChar {c : Char} (h : isNameChar c = true) : isBasic c = true := by
  have hle : ∀ {a b : Char}, a ≤ b → a.toNat ≤ b.toNat := fun h => UInt32.le_iff_toNat_le.mp h
  have hback : c ≠ '\\' := by rintro rfl; exact absurd h (by decide)
  have hrange : 0x20 ≤ c.toNat ∧ c.toNat < 0x80 := by
    simp only [isNameChar, isAsciiLetter, Bool.or_eq_true, Bool.and_eq_true, decide_eq_true_eq,
      beq_iff_eq] at h
    obtain ((((⟨hlow, hhigh⟩ | ⟨hlow, hhigh⟩) | ⟨hlow, hhigh⟩) | rfl) | rfl) | rfl := h
    · exact ⟨Nat.le_trans (by decide) (hle hlow), Nat.lt_of_le_of_lt (hle hhigh) (by decide)⟩
    · exact ⟨Nat.le_trans (by decide) (hle hlow), Nat.lt_of_le_of_lt (hle hhigh) (by decide)⟩
    · exact ⟨Nat.le_trans (by decide) (hle hlow), Nat.lt_of_le_of_lt (hle hhigh) (by decide)⟩
    all_goals decide
  simp [isBasic, isPrinted, hrange, hback]

theorem Worded.basic {s : String} (h : Worded s) : Only isBasic s :=
  h.imp fun _ => Schema.isBasic_of_isNameChar

theorem Worded.printed {s : String} (h : Worded s) : Printed s :=
  h.basic.imp fun _ => isPrinted_of_isBasic

namespace Symbol

theorem Wordlike.worded {s : String} (h : Wordlike s) : Worded s := by
  refine h.imp fun c hc => ?_
  unfold isWordChar at hc
  unfold Schema.isNameChar Schema.isAsciiLetter
  simp only [Bool.or_eq_true] at hc ⊢
  obtain (hc | hc) | hc := hc
  · exact .inl (.inl (.inl (.inl hc)))
  · exact .inl (.inl (.inl (.inr hc)))
  · exact .inr hc

theorem capital_includeGuard (baseName : String) : Capital (includeGuard baseName) :=
  (wordlike_sanitize baseName).upper.append (.literal (by decide))

end Symbol

theorem worded_toString (n : Nat) : Worded (toString n) := by
  intro c hc
  have hdigit : c.isDigit = true := by
    by_contra hdigit
    exact not_mem_toString (Bool.eq_false_iff.mpr hdigit) n hc
  simp only [Char.isDigit, Bool.and_eq_true, decide_eq_true_eq] at hdigit
  have hlow : '0' ≤ c := hdigit.1
  have hhigh : c ≤ '9' := hdigit.2
  simp [Schema.isNameChar, hlow, hhigh]

theorem Schema.IsName.worded {s : String} (h : IsName s) : Worded s := by
  obtain ⟨first, rest, hs, hfirst, hrest⟩ := h
  have hchar : ∀ c, IsLetter c ∨ ('0' ≤ c ∧ c ≤ '9') ∨ c = '.' ∨ c = '-' ∨ c = '_' →
      isNameChar c = true := by
    intro c hc
    simpa [isNameChar, isAsciiLetter, IsLetter, or_assoc] using hc
  intro c hc
  rw [hs] at hc
  cases List.mem_cons.mp hc with
  | inl he => exact hchar c (.inl (he ▸ hfirst))
  | inr hm => exact hchar c (hrest c hm)

theorem Schema.IsEndpoint.printed {s : String} (h : IsEndpoint s) : Printed s := by
  obtain ⟨rest, hs, hrest⟩ := h
  intro c hc
  rw [hs] at hc
  cases List.mem_cons.mp hc with
  | inl he => rw [he]; decide
  | inr hm =>
    obtain ⟨-, hback, hcontrol, -⟩ := hrest c hm
    have hlow : 0x20 ≤ c.toNat := Nat.lt_of_not_le hcontrol
    simp [isPrinted, hlow, hback]

/-- The values of a mapping as accepted documents have them. -/
structure MappingRecord.Clean (m : MappingRecord) : Prop where
  endpoint : Schema.IsEndpoint m.endpoint
  type : Worded m.type
  reliability : Worded m.reliability
  explicitTimestamp : Worded m.explicitTimestamp
  allowUnset : Worded m.allowUnset

/-- The values of an interface as accepted documents have them. -/
structure InterfaceRecord.Clean (r : InterfaceRecord) : Prop where
  symbol : Worded r.symbol
  name : Worded r.name
  kind : Worded r.kind
  ownership : Worded r.ownership
  aggregation : Worded r.aggregation
  mappings : ∀ m ∈ r.mappings, m.Clean

theorem InterfaceRecord.Clean.mappingsSymbol {r : InterfaceRecord} (h : r.Clean) :
    Worded r.mappingsSymbol :=
  h.symbol.append (.literal (by decide))

theorem Document.Accepted.clean {d : Document} (h : d.Accepted) : d.record.Clean := by
  obtain ⟨applyDefaults, source, text, hparse⟩ := h
  obtain ⟨entries, -, hd⟩ := Document.exists_of_parse hparse
  refine ⟨(Symbol.wordlike_sanitize d.name).worded, hd.isName.worded, d.kind.capital.wordlike.worded,
    d.ownership.capital.wordlike.worded, d.aggregation.capital.wordlike.worded, fun r hr => ?_⟩
  obtain ⟨m, hm, rfl⟩ := List.mem_map.mp hr
  exact ⟨hd.isEndpoint hm, m.type.capital.wordlike.worded, m.reliability.capital.wordlike.worded,
    (wordlike_boolConstant _).worded, (wordlike_boolConstant _).worded⟩

/-! ## Every line stays one -/

section Files

variable {p : Char → Bool}

theorem all_of_all {q : Char → Bool} (hqp : ∀ c, q c = true → p c = true) {cs : List Char}
    (h : cs.all q = true) : cs.all p = true :=
  List.all_eq_true.mpr fun c hc => hqp c (List.all_eq_true.mp h c hc)

/-- The lines of a mapping hold nothing but basic characters and those of the endpoint. -/
theorem MappingRecord.Clean.only_lines {m : MappingRecord} (h : m.Clean)
    (hp : ∀ c, isBasic c = true → p c = true) (he : Only p m.endpoint) : ∀ l ∈ m.lines, Only p l := by
  have hfixed : ∀ {cs : List Char}, cs.all isBasic = true → cs.all p = true := all_of_all hp
  have hworded : ∀ {value : String}, Worded value → ∀ {before after : List Char},
      (before ++ after).all isBasic = true →
        Only p (String.ofList before ++ value ++ String.ofList after) :=
    fun hv _ _ hall => (hv.basic.within hall).imp hp
  simp only [lines, List.forall_mem_cons]
  exact ⟨.literal (hfixed (by decide)), he.within (hfixed (by decide)), hworded h.type (by decide),
    hworded h.reliability (by decide), hworded h.explicitTimestamp (by decide),
    hworded h.allowUnset (by decide), .literal (hfixed (by decide)), List.forall_mem_nil _⟩

namespace InterfaceRecord.Clean

variable {r : InterfaceRecord}

theorem basic_front (h : r.Clean) : ∀ l ∈ r.front, Only isBasic l := by
  have harray : Only isBasic ("static const astarte_mapping_t " ++ r.mappingsSymbol ++ "[") :=
    h.mappingsSymbol.basic.within (by decide)
  simp only [front, List.forall_mem_cons]
  exact ⟨.literal (by decide), (harray.append (worded_toString _).basic).append (.literal (by decide)),
    .literal (by decide), List.forall_mem_nil _⟩

theorem basic_back (h : r.Clean) : ∀ l ∈ r.back, Only isBasic l := by
  simp only [back, List.forall_mem_cons]
  exact ⟨.literal (by decide), .literal (by decide), h.symbol.basic.within (by decide),
    h.name.basic.within (by decide), (worded_toString _).basic.within (by decide),
    (worded_toString _).basic.within (by decide), h.kind.basic.within (by decide),
    h.ownership.basic.within (by decide), h.aggregation.basic.within (by decide),
    h.mappingsSymbol.basic.within (by decide), (worded_toString _).basic.within (by decide),
    .literal (by decide), List.forall_mem_nil _⟩

theorem only_lines (h : r.Clean) (hp : ∀ c, isBasic c = true → p c = true)
    (he : ∀ m ∈ r.mappings, Only p m.endpoint) : ∀ l ∈ r.lines, Only p l := by
  simp only [lines, List.forall_mem_append, List.forall_mem_flatMap]
  exact ⟨fun l hl => (h.basic_front l hl).imp hp, fun m hm => (h.mappings m hm).only_lines hp (he m hm),
    fun l hl => (h.basic_back l hl).imp hp⟩

theorem basic_declaration (h : r.Clean) : ∀ l ∈ r.declarationLines, Only isBasic l :=
  List.forall_mem_singleton.mpr (h.symbol.basic.within (by decide))

end InterfaceRecord.Clean

theorem only_joinedLines {α : Type} {lines : α → List String} {xs : List α}
    (h : ∀ x ∈ xs, ∀ l ∈ lines x, Only p l) : ∀ l ∈ joinedLines lines xs, Only p l := by
  cases xs with
  | nil => exact List.forall_mem_singleton.mpr (.literal rfl)
  | cons x xs =>
    intro l hl
    obtain ⟨y, hy, hl⟩ := List.mem_flatMap.mp hl
    exact h y hy l hl

variable {records : List InterfaceRecord} {baseName : String}

/-- The lines of a source hold nothing but basic characters and those of the base name and of the
endpoints. -/
theorem SourceText.only_lines_of_endpoints (hp : ∀ c, isBasic c = true → p c = true)
    (hr : ∀ r ∈ records, r.Clean) (he : ∀ r ∈ records, ∀ m ∈ r.mappings, Only p m.endpoint)
    (hb : Only p baseName) : ∀ l ∈ lines records baseName, Only p l := by
  have hfixed : ∀ {cs : List Char}, cs.all isBasic = true → cs.all p = true := all_of_all hp
  have htop : ∀ l ∈ top baseName, Only p l := by
    simp only [top, List.forall_mem_cons]
    refine ⟨?_, hb.within (hfixed (by decide)), ?_, ?_, ?_, ?_, ?_, hb.within (hfixed (by decide)),
      ?_, ?_, ?_, List.forall_mem_nil _⟩
    all_goals exact .literal (hfixed (by decide))
  have hbottom : ∀ l ∈ bottom, Only p l := by
    simp only [bottom, List.forall_mem_cons]
    exact ⟨.literal (hfixed (by decide)), .literal (hfixed (by decide)), List.forall_mem_nil _⟩
  simp only [lines, List.forall_mem_append]
  exact ⟨htop, only_joinedLines fun r h => (hr r h).only_lines hp (he r h), hbottom⟩

/-- The lines of a source hold nothing but printed characters and those of the base name. -/
theorem SourceText.only_lines (hp : ∀ c, isPrinted c = true → p c = true)
    (hr : ∀ r ∈ records, r.Clean) (hb : Only p baseName) :
    ∀ l ∈ lines records baseName, Only p l :=
  only_lines_of_endpoints (fun c hc => hp c (isPrinted_of_isBasic hc)) hr
    (fun r h m hm => ((hr r h).mappings m hm).endpoint.printed.imp hp) hb

theorem HeaderText.only_lines (hp : ∀ c, isBasic c = true → p c = true)
    (hr : ∀ r ∈ records, r.Clean) (hb : Only p baseName) :
    ∀ l ∈ lines records baseName, Only p l := by
  have hfixed : ∀ {cs : List Char}, cs.all isBasic = true → cs.all p = true := all_of_all hp
  have hguard := (Symbol.capital_includeGuard baseName).wordlike.worded.basic.imp hp
  have htop : ∀ l ∈ top baseName, Only p l := by
    simp only [top, List.forall_mem_cons]
    refine ⟨?_, hb.within (hfixed (by decide)), ?_, ?_, ?_, ?_, ?_, ?_, ?_, ?_, ?_, .append ?_ hguard,
      .append ?_ hguard, ?_, ?_, ?_, ?_, ?_, ?_, List.forall_mem_nil _⟩
    all_goals exact .literal (hfixed (by decide))
  have hbottom : ∀ l ∈ bottom baseName, Only p l := by
    simp only [bottom, List.forall_mem_cons]
    exact ⟨.literal (hfixed (by decide)), .literal (hfixed (by decide)),
      hguard.within (hfixed (by decide)), List.forall_mem_nil _⟩
  have hdeclarations := only_joinedLines fun r h => (hr r h).basic_declaration
  simp only [lines, List.forall_mem_append]
  exact ⟨htop, fun l hl => (hdeclarations l hl).imp hp, hbottom⟩

theorem SourceText.splitLines_sourceText (hr : ∀ r ∈ records, r.Clean) (hb : Unbroken baseName) :
    Diff.splitLines (sourceText records baseName) = (lines records baseName).map (· ++ "\n") :=
  Diff.splitLines_unlines (only_lines (fun _ => not_isLineBreak_of_isPrinted) hr hb)
    (toList_eq_unlines records baseName)

theorem HeaderText.splitLines_headerText (hr : ∀ r ∈ records, r.Clean) (hb : Unbroken baseName) :
    Diff.splitLines (headerText records baseName) = (lines records baseName).map (· ++ "\n") :=
  Diff.splitLines_unlines
    (only_lines (fun _ hc => not_isLineBreak_of_isPrinted (isPrinted_of_isBasic hc)) hr hb)
    (toList_eq_unlines records baseName)

end Files

end InterfaceTables
