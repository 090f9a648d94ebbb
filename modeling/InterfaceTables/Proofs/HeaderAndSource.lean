import InterfaceTables.Proofs.AcceptedNames
import InterfaceTables.Proofs.Identifiers

/-!
What the lines of the two files say about each other: the header declares what the source defines, and
each definition gives the length of its own array. No endpoint can be read as one of these lines.
-/

namespace InterfaceTables

/-! ## Kinds of lines -/

/-- The lines with an identifier, an endpoint or a number of mappings. -/
inductive LineKind where
  | declaration
  | array
  | endpoint
  | record
  | reference
  | length
deriving DecidableEq

namespace LineKind

def all : List LineKind := [.declaration, .array, .endpoint, .record, .reference, .length]

theorem mem_all (k : LineKind) : k ∈ all := by cases k <;> decide

def opening : LineKind → String
  | .declaration => "extern const astarte_interface_t "
  | .array => "static const astarte_mapping_t "
  | .endpoint => "        .endpoint = \""
  | .record => "const astarte_interface_t "
  | .reference => "    .mappings = "
  | .length => "    .mappings_length = "

/-- Where the values stand in a line. -/
def frame (k : LineKind) : Frame :=
  match k with
  | .declaration => [(k.opening, ';')]
  | .array => [(k.opening, '['), ("", ']')]
  | .endpoint => [(k.opening, '"')]
  | .record => [(k.opening, ' ')]
  | .reference => [(k.opening, ',')]
  | .length => [(k.opening, 'U')]

def close : LineKind → String
  | .declaration => "\n"
  | .array => " = \x7b\n"
  | .endpoint => ",\n"
  | .record => "= \x7b\n"
  | .reference => "\n"
  | .length => ",\n"

/-- The values in a line of the kind. -/
def read? (k : LineKind) (line : Diff.Line) : Option (List String) := do
  let (values, rest) ← k.frame.read line.toList
  if rest = k.close.toList then some values else none

/-- Enough of the opening to tell the kinds apart. -/
def tip : LineKind → List Char
  | .declaration => ['e']
  | .array => ['s']
  | .endpoint => List.replicate 8 ' ' ++ ['.', 'e', 'n']
  | .record => ['c']
  | .reference => List.replicate 4 ' ' ++ ['.', 'm', 'a', 'p', 'p', 'i', 'n', 'g', 's', ' ']
  | .length => List.replicate 4 ' ' ++ ['.', 'm', 'a', 'p', 'p', 'i', 'n', 'g', 's', '_']

theorem tip_isPrefix_opening (k : LineKind) : k.tip <+: k.opening.toList := by
  cases k <;> unfold opening tip <;> rw [String.toList_ofList] <;> decide

theorem eq_of_tip_isPrefix {k k' : LineKind} (h : k.tip <+: k'.tip) : k = k' := by
  cases k <;> cases k' <;> first | rfl | exact absurd h (by decide)

theorem read?_text {k : LineKind} {values : List String} (hfits : k.frame.Fits values)
    {line : Diff.Line} (hline : line.toList = k.frame.text values ++ k.close.toList) :
    k.read? line = some values := by
  simp [read?, hline, Frame.read_text hfits]

/-- A line of a kind begins as its kind says. -/
theorem tip_isPrefix_of_read? {k : LineKind} {line : Diff.Line} {values : List String}
    (h : k.read? line = some values) : k.tip <+: line.toList := by
  have hframe : ∃ stop more, k.frame = (k.opening, stop) :: more := by
    cases k <;> exact ⟨_, _, rfl⟩
  obtain ⟨stop, more, hframe⟩ := hframe
  cases hrest : k.opening.toList.isPrefixOf? line.toList with
  | none => simp [read?, hframe, Frame.read, hrest] at h
  | some rest =>
    have happend := List.isPrefixOf?_eq_some_iff_append_eq.mp hrest
    exact k.tip_isPrefix_opening.trans ⟨rest, happend⟩

end LineKind

/-- What a line says, by its kind and the values in it. -/
def mark? (line : Diff.Line) : Option (LineKind × List String) :=
  LineKind.all.findSome? fun k => (k.read? line).map (k, ·)

/-- What the lines of a text say, in their order. -/
def marks (text : String) : List (LineKind × List String) := (Diff.splitLines text).filterMap mark?

def valuesIn (k : LineKind) (text : String) : List (List String) :=
  (marks text).filterMap fun m => if m.1 = k then some m.2 else none

theorem mark?_eq_some {k : LineKind} {line : Diff.Line} {values : List String}
    (h : k.read? line = some values) : mark? line = some (k, values) := by
  unfold mark?
  cases hm : LineKind.all.findSome? fun k => (k.read? line).map (k, ·) with
  | none =>
    have hnone := List.findSome?_eq_none_iff.mp hm k k.mem_all
    simp [h] at hnone
  | some m =>
    obtain ⟨k', -, hk'⟩ := List.exists_of_findSome?_eq_some hm
    obtain ⟨values', hvalues', rfl⟩ := Option.map_eq_some_iff.mp hk'
    have htip := LineKind.tip_isPrefix_of_read? h
    have htip' := LineKind.tip_isPrefix_of_read? hvalues'
    have hk : k' = k := by
      cases List.prefix_or_prefix_of_prefix htip' htip with
      | inl hp => exact LineKind.eq_of_tip_isPrefix hp
      | inr hp => exact (LineKind.eq_of_tip_isPrefix hp).symm
    subst hk
    rw [Option.some.inj (hvalues'.symm.trans h)]

/-! ## Lines of no kind -/

def Unmarked (l : String) : Prop := mark? (l ++ "\n") = none

/-- A text that begins so is of no kind. -/
def Apart (lead : List Char) : Prop := ∀ k ∈ LineKind.all, ¬ k.tip <+: lead ∧ ¬ lead <+: k.tip

instance (lead : List Char) : Decidable (Apart lead) :=
  inferInstanceAs (Decidable (∀ k ∈ LineKind.all, _))

theorem mark?_eq_none {lead : List Char} (h : Apart lead) {line : Diff.Line}
    (hline : lead <+: line.toList) : mark? line = none := by
  rw [mark?, List.findSome?_eq_none_iff]
  intro k hk
  rw [Option.map_eq_none_iff, Option.eq_none_iff_forall_ne_some]
  intro values hvalues
  have htip := LineKind.tip_isPrefix_of_read? hvalues
  exact (List.prefix_or_prefix_of_prefix htip hline).elim (h k hk).1 (h k hk).2

theorem unmarked_empty : Unmarked "" := by
  have hapart : Apart ['\n'] := by decide
  exact mark?_eq_none hapart (List.prefix_refl _)

theorem Unmarked.literal {cs : List Char} (h : Apart cs) : Unmarked (String.ofList cs) := by
  refine mark?_eq_none h ?_
  rw [String.toList_append, String.toList_ofList]
  exact List.prefix_append _ _

theorem Unmarked.before {lead : List Char} (h : Apart lead) (value : String) :
    Unmarked (String.ofList lead ++ value) := by
  refine mark?_eq_none h ?_
  simp only [String.toList_append, String.toList_ofList, List.append_assoc]
  exact List.prefix_append _ _

theorem Unmarked.within {before : List Char} (h : Apart before) (value after : String) :
    Unmarked (String.ofList before ++ value ++ after) := by
  rw [String.append_assoc]
  exact .before h _

def lineMarks (ls : List String) : List (LineKind × List String) :=
  ls.filterMap fun l => mark? (l ++ "\n")

theorem lineMarks_append (ls ls' : List String) :
    lineMarks (ls ++ ls') = lineMarks ls ++ lineMarks ls' :=
  List.filterMap_append

theorem lineMarks_unmarked {ls : List String} (h : ∀ l ∈ ls, Unmarked l) : lineMarks ls = [] :=
  List.filterMap_eq_nil_iff.mpr h

theorem lineMarks_drop {ls : List String} (n : Nat) (h : ∀ l ∈ ls.take n, Unmarked l) :
    lineMarks ls = lineMarks (ls.drop n) := by
  conv_lhs => rw [← List.take_append_drop n ls]
  rw [lineMarks_append, lineMarks_unmarked h, List.nil_append]

theorem lineMarks_cons {k : LineKind} {l : String} {values : List String}
    (hfits : k.frame.Fits values)
    (hl : (l ++ "\n").toList = k.frame.text values ++ k.close.toList) (ls : List String) :
    lineMarks (l :: ls) = (k, values) :: lineMarks ls :=
  List.filterMap_cons_some (mark?_eq_some (LineKind.read?_text hfits hl))

theorem lineMarks_value {k : LineKind} {stop : Char} {value after : String} (hv : stop ∉ value.toList)
    (hk : k.frame = [(k.opening, stop)]) (ha : (after ++ "\n").toList = stop :: k.close.toList)
    (ls : List String) :
    lineMarks ((k.opening ++ value ++ after) :: ls) = (k, [value]) :: lineMarks ls := by
  refine lineMarks_cons (hk ▸ .cons hv .nil) ?_ ls
  rw [String.append_assoc, String.toList_append, String.toList_append, ha, hk]
  simp [Frame.text]

/-! ## What the lines of a definition say -/

namespace MappingRecord

theorem Clean.marks_lines {m : MappingRecord} (h : m.Clean) :
    lineMarks m.lines = [(.endpoint, [m.endpoint])] := by
  have hfirst : ∀ l ∈ m.lines.take 1, Unmarked l :=
    List.forall_mem_singleton.mpr (.literal (by decide))
  have hrest : ∀ l ∈ m.lines.drop 2, Unmarked l := by
    simp only [lines, List.drop_succ_cons, List.drop_zero, List.forall_mem_cons]
    exact ⟨.within (by decide) _ _, .within (by decide) _ _, .within (by decide) _ _,
      .within (by decide) _ _, .literal (by decide), List.forall_mem_nil _⟩
  have hquote := h.endpoint.not_mem_quote
  calc lineMarks m.lines
    _ = lineMarks (m.lines.drop 1) := lineMarks_drop 1 hfirst
    _ = (.endpoint, [m.endpoint]) :: lineMarks (m.lines.drop 2) :=
      lineMarks_value (k := .endpoint) hquote rfl (by decide) _
    _ = [(.endpoint, [m.endpoint])] := by rw [lineMarks_unmarked hrest]

end MappingRecord

namespace InterfaceRecord

variable {r : InterfaceRecord}

/-- What the definition of an interface says. -/
def marks (r : InterfaceRecord) : List (LineKind × List String) :=
  (.array, [r.mappingsSymbol, toString r.mappingsLength]) ::
    (r.mappings.map (fun m => (.endpoint, [m.endpoint])) ++
      [(.record, [r.symbol]),
       (.reference, [r.mappingsSymbol]),
       (.length, [toString r.mappingsLength])])

theorem Clean.marks_front (h : r.Clean) :
    lineMarks r.front = [(.array, [r.mappingsSymbol, toString r.mappingsLength])] := by
  have hfits : LineKind.array.frame.Fits [r.mappingsSymbol, toString r.mappingsLength] :=
    .cons (h.mappingsSymbol.not_mem (by decide)) (.cons ((worded_toString _).not_mem (by decide)) .nil)
  have hline : ("static const astarte_mapping_t " ++ r.mappingsSymbol ++ "[" ++
      toString r.mappingsLength ++ "] = \x7b" ++ "\n").toList =
      LineKind.array.frame.text [r.mappingsSymbol, toString r.mappingsLength] ++
        LineKind.array.close.toList := by
    simp only [LineKind.frame, LineKind.opening, LineKind.close, Frame.text, String.toList_append,
      List.append_assoc, List.cons_append, List.nil_append]
    repeat rw [String.toList_ofList]
    rfl
  have hlast : ∀ l ∈ r.front.drop 2, Unmarked l := List.forall_mem_singleton.mpr unmarked_empty
  calc lineMarks r.front
    _ = lineMarks (r.front.drop 1) := lineMarks_drop 1 (List.forall_mem_singleton.mpr unmarked_empty)
    _ = (.array, _) :: lineMarks (r.front.drop 2) := lineMarks_cons hfits hline _
    _ = [(.array, _)] := by rw [lineMarks_unmarked hlast]

theorem Clean.marks_back (h : r.Clean) :
    lineMarks r.back =
      [(.record, [r.symbol]),
       (.reference, [r.mappingsSymbol]),
       (.length, [toString r.mappingsLength])] := by
  have hfirst : ∀ l ∈ r.back.take 2, Unmarked l := by
    simp only [back, List.take_succ_cons, List.take_zero, List.forall_mem_cons]
    exact ⟨.literal (by decide), unmarked_empty, List.forall_mem_nil _⟩
  have hfields : ∀ l ∈ (r.back.drop 3).take 6, Unmarked l := by
    simp only [back, List.drop_succ_cons, List.drop_zero, List.take_succ_cons, List.take_zero,
      List.forall_mem_cons]
    exact ⟨.within (by decide) _ _, .within (by decide) _ _, .within (by decide) _ _,
      .within (by decide) _ _, .within (by decide) _ _, .within (by decide) _ _,
      List.forall_mem_nil _⟩
  have hlast : ∀ l ∈ r.back.drop 11, Unmarked l :=
    List.forall_mem_singleton.mpr (.literal (by decide))
  calc lineMarks r.back
    _ = lineMarks (r.back.drop 2) := lineMarks_drop 2 hfirst
    _ = (.record, [r.symbol]) :: lineMarks (r.back.drop 3) :=
      lineMarks_value (k := .record) (h.symbol.not_mem (by decide)) rfl (by decide) _
    _ = (.record, [r.symbol]) :: lineMarks (r.back.drop 9) := by
      rw [lineMarks_drop 6 hfields, List.drop_drop]
    _ = (.record, [r.symbol]) :: (.reference, [r.mappingsSymbol]) :: lineMarks (r.back.drop 10) :=
      congrArg _
        (lineMarks_value (k := .reference) (h.mappingsSymbol.not_mem (by decide)) rfl (by decide) _)
    _ = (.record, [r.symbol]) :: (.reference, [r.mappingsSymbol]) ::
        (.length, [toString r.mappingsLength]) :: lineMarks (r.back.drop 11) :=
      congrArg (_ :: _ :: ·)
        (lineMarks_value (k := .length) (not_mem_toString (by decide) _) rfl (by decide) _)
    _ = _ := by rw [lineMarks_unmarked hlast]

theorem Clean.marks_lines (h : r.Clean) : lineMarks r.lines = r.marks := by
  have hmappings : lineMarks (r.mappings.flatMap MappingRecord.lines) =
      r.mappings.map fun m => (.endpoint, [m.endpoint]) := by
    rw [lineMarks, List.filterMap_flatMap, List.map_eq_flatMap]
    exact List.flatMap_congr fun m hm => (h.mappings m hm).marks_lines
  rw [lines, lineMarks_append, lineMarks_append, h.marks_front, hmappings, h.marks_back]
  rfl

theorem Clean.marks_declaration (h : r.Clean) :
    lineMarks r.declarationLines = [(.declaration, [r.symbol])] :=
  lineMarks_value (k := .declaration) (h.symbol.not_mem (by decide)) rfl (by decide) []

end InterfaceRecord

/-! ## What both files say -/

theorem lineMarks_joinedLines {α : Type} {lines : α → List String}
    {said : α → List (LineKind × List String)} {xs : List α}
    (h : ∀ x ∈ xs, lineMarks (lines x) = said x) :
    lineMarks (joinedLines lines xs) = xs.flatMap said := by
  cases xs with
  | nil => exact lineMarks_unmarked (List.forall_mem_singleton.mpr unmarked_empty)
  | cons x xs =>
    rw [joinedLines, lineMarks, List.filterMap_flatMap]
    exact List.flatMap_congr h

theorem marks_sourceText {records : List InterfaceRecord} {baseName : String}
    (hr : ∀ r ∈ records, r.Clean) (hb : Unbroken baseName) :
    marks (sourceText records baseName) = records.flatMap InterfaceRecord.marks := by
  have htop : ∀ l ∈ SourceText.top baseName, Unmarked l := by
    simp only [SourceText.top, List.forall_mem_cons]
    refine ⟨?_, .within (by decide) _ _, ?_, ?_, ?_, ?_, unmarked_empty, .within (by decide) _ _,
      unmarked_empty, ?_, ?_, List.forall_mem_nil _⟩
    all_goals exact .literal (by decide)
  have hbottom : ∀ l ∈ SourceText.bottom, Unmarked l := by
    simp only [SourceText.bottom, List.forall_mem_cons]
    exact ⟨unmarked_empty, .literal (by decide), List.forall_mem_nil _⟩
  calc marks (sourceText records baseName)
    _ = lineMarks (SourceText.lines records baseName) := by
      rw [marks, SourceText.splitLines_sourceText hr hb, List.filterMap_map]
      rfl
    _ = lineMarks (joinedLines InterfaceRecord.lines records) := by
      rw [SourceText.lines, lineMarks_append, lineMarks_append, lineMarks_unmarked htop,
        lineMarks_unmarked hbottom, List.nil_append, List.append_nil]
    _ = records.flatMap InterfaceRecord.marks :=
      lineMarks_joinedLines fun r h => (hr r h).marks_lines

theorem marks_headerText {records : List InterfaceRecord} {baseName : String}
    (hr : ∀ r ∈ records, r.Clean) (hb : Unbroken baseName) :
    marks (headerText records baseName) = records.map fun r => (.declaration, [r.symbol]) := by
  have htop : ∀ l ∈ HeaderText.top baseName, Unmarked l := by
    simp only [HeaderText.top, List.forall_mem_cons]
    refine ⟨?_, .within (by decide) _ _, ?_, ?_, ?_, ?_, ?_, ?_, ?_, unmarked_empty, ?_,
      .before (by decide) _, .before (by decide) _, unmarked_empty, ?_, ?_, unmarked_empty, ?_, ?_,
      List.forall_mem_nil _⟩
    all_goals exact .literal (by decide)
  have hbottom : ∀ l ∈ HeaderText.bottom baseName, Unmarked l := by
    simp only [HeaderText.bottom, List.forall_mem_cons]
    exact ⟨.literal (by decide), unmarked_empty, .within (by decide) _ _, List.forall_mem_nil _⟩
  calc marks (headerText records baseName)
    _ = lineMarks (HeaderText.lines records baseName) := by
      rw [marks, HeaderText.splitLines_headerText hr hb, List.filterMap_map]
      rfl
    _ = lineMarks (joinedLines InterfaceRecord.declarationLines records) := by
      rw [HeaderText.lines, lineMarks_append, lineMarks_append, lineMarks_unmarked htop,
        lineMarks_unmarked hbottom, List.nil_append, List.append_nil]
    _ = records.map fun r => (.declaration, [r.symbol]) := by
      rw [List.map_eq_flatMap]
      exact lineMarks_joinedLines fun r h => (hr r h).marks_declaration

/-- What the lines of the source say about a document. -/
def Document.marks (d : Document) : List (LineKind × List String) :=
  (.array, [Symbol.sanitize d.name ++ "_mappings", toString d.mappings.length]) ::
    (d.mappings.map (fun m => (.endpoint, [m.endpoint])) ++
      [(.record, [Symbol.sanitize d.name]),
       (.reference, [Symbol.sanitize d.name ++ "_mappings"]),
       (.length, [toString d.mappings.length])])

theorem Document.marks_record (d : Document) : d.record.marks = d.marks := by
  simp [InterfaceRecord.marks, Document.marks, Document.record, InterfaceRecord.mappingsSymbol,
    InterfaceRecord.mappingsLength, Symbol.mappings, Mapping.record]

theorem filterMap_record_marks (d : Document) :
    d.marks.filterMap (fun m => if m.1 = .record then some m.2 else none) =
      [[Symbol.sanitize d.name]] := by
  simp [Document.marks, List.filterMap_map]

/-- The header declares, line by line and in the order of the documents, the symbols that the source
defines. The source gives for each document one array with one endpoint line for each mapping, then the
record, which refers to that array and gives its length. All identifiers differ and start with a
letter. -/
theorem header_declares_what_source_defines {ds : List Document} {baseName : String}
    (hds : ∀ d ∈ ds, d.Accepted) (hb : Unbroken baseName)
    (hfree : Collision.find? (ds.map Document.record) = none) :
    marks (headerText (ds.map Document.record) baseName) =
        ds.map (fun d => (.declaration, [Symbol.sanitize d.name])) ∧
      marks (sourceText (ds.map Document.record) baseName) = ds.flatMap Document.marks ∧
      valuesIn .declaration (headerText (ds.map Document.record) baseName) =
        ds.map (fun d => [Symbol.sanitize d.name]) ∧
      valuesIn .record (sourceText (ds.map Document.record) baseName) =
        ds.map (fun d => [Symbol.sanitize d.name]) ∧
      (ds.flatMap fun d => [Symbol.sanitize d.name, Symbol.sanitize d.name ++ "_mappings"]).Nodup ∧
      ∀ d ∈ ds, Symbol.IsIdentifier (Symbol.sanitize d.name) ∧
        Symbol.IsIdentifier (Symbol.sanitize d.name ++ "_mappings") := by
  have hclean : ∀ r ∈ ds.map Document.record, r.Clean :=
    List.forall_mem_map.mpr fun d hd => (hds d hd).clean
  have hheader := marks_headerText hclean hb
  have hsource := marks_sourceText hclean hb
  rw [List.map_map] at hheader
  rw [List.flatMap_map] at hsource
  simp only [Document.marks_record] at hsource
  refine ⟨hheader, hsource, ?_, ?_, ?_, fun d hd => ?_⟩
  · simp [valuesIn, hheader, List.filterMap_map, Function.comp_def, Document.record]
  · rw [valuesIn, hsource, List.filterMap_flatMap]
    simp only [filterMap_record_marks, List.map_eq_flatMap]
  · have hnodup := Collision.find?_eq_none_iff.mp hfree
    rwa [List.flatMap_map] at hnodup
  · have hsymbol := Symbol.isIdentifier_sanitize (hds d hd).isName
    exact ⟨hsymbol, hsymbol.mappings⟩

/-- Documents with endpoints that read like the lines around them. -/
def imitations : List Document :=
  [oneMapping "a.b" "/ const astarte_interface_t x = \x7b",
   oneMapping "a-c" "/ static const astarte_mapping_t a_b_mappings[2] = \x7b"]

theorem imitations_accepted : ∀ d ∈ imitations, d.Accepted := by
  have hname := fun s => Schema.isName_iff (s := s)
  have hendpoint := fun s => Schema.isEndpoint_iff (s := s)
  simp only [imitations, List.forall_mem_cons]
  exact ⟨oneMapping_accepted ((hname _).mp (by decide)) ((hendpoint _).mp (by decide)),
    oneMapping_accepted ((hname _).mp (by decide)) ((hendpoint _).mp (by decide)),
    List.forall_mem_nil _⟩

theorem header_declares_imitations :
    (∀ d ∈ imitations, d.Accepted) ∧ Unbroken "t" ∧
      Collision.find? (imitations.map Document.record) = none ∧
      marks (sourceText (imitations.map Document.record) "t") =
        [(.array, ["a_b_mappings", "1"]),
         (.endpoint, ["/ const astarte_interface_t x = \x7b"]),
         (.record, ["a_b"]), (.reference, ["a_b_mappings"]), (.length, ["1"]),
         (.array, ["a_c_mappings", "1"]),
         (.endpoint, ["/ static const astarte_mapping_t a_b_mappings[2] = \x7b"]),
         (.record, ["a_c"]), (.reference, ["a_c_mappings"]), (.length, ["1"])] := by
  have hb : Unbroken "t" := .literal (by decide)
  have hfree : Collision.find? (imitations.map Document.record) = none := by decide +kernel
  have hmarks := (header_declares_what_source_defines imitations_accepted hb hfree).2.1
  refine ⟨imitations_accepted, hb, hfree, hmarks.trans ?_⟩
  decide +kernel

end InterfaceTables
