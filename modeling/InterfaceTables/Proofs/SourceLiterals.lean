import InterfaceTables.Proofs.AcceptedNames

/-!
Comments and string literals of a generated source, as a scan of C text meets them. Nothing that a
document holds leaves the literal it is put in, and the base name stays in its comment and its literal.
-/

namespace InterfaceTables

/-! ## Scanning C text -/

/-- Where a scan stands. A literal carries what was read of it, last character first. -/
inductive ScanMode where
  | code
  | slash
  | lineComment
  | blockComment
  | blockStar
  | literal (read : List Char)
  | escape (read : List Char)
  | character
  | characterEscape
  | broken
deriving DecidableEq

/-- Where a scan stands and the string literals that it has met. -/
structure Scan where
  mode : ScanMode
  literals : List String
deriving DecidableEq

namespace Scan

def enter (c : Char) : ScanMode :=
  if c = '/' then .slash
  else if c = '"' then .literal []
  else if c = '\x27' then .character
  else .code

/-- One character. A literal or a character constant that a line break cuts off is broken. -/
def step (s : Scan) (c : Char) : Scan :=
  match s.mode with
  | .code => { s with mode := enter c }
  | .slash =>
    if c = '/' then { s with mode := .lineComment }
    else if c = '*' then { s with mode := .blockComment }
    else { s with mode := enter c }
  | .lineComment => if isLineBreak c then { s with mode := .code } else s
  | .blockComment => if c = '*' then { s with mode := .blockStar } else s
  | .blockStar =>
    if c = '/' then { s with mode := .code }
    else if c = '*' then s
    else { s with mode := .blockComment }
  | .literal read =>
    if c = '"' then ⟨.code, s.literals ++ [String.ofList read.reverse]⟩
    else if c = '\\' then { s with mode := .escape read }
    else if isLineBreak c then { s with mode := .broken }
    else { s with mode := .literal (c :: read) }
  | .escape read => { s with mode := .literal (c :: '\\' :: read) }
  | .character =>
    if c = '\x27' then { s with mode := .code }
    else if c = '\\' then { s with mode := .characterEscape }
    else if isLineBreak c then { s with mode := .broken }
    else s
  | .characterEscape => { s with mode := .character }
  | .broken => s

def run (s : Scan) (cs : List Char) : Scan := cs.foldl step s

theorem run_append (s : Scan) (cs cs' : List Char) : run s (cs ++ cs') = run (run s cs) cs' :=
  List.foldl_append

theorem run_cons (s : Scan) (c : Char) (cs : List Char) : run s (c :: cs) = run (step s c) cs := rfl

end Scan

/-- A backslash before a line break joins two lines. -/
def splice : List Char → List Char
  | [] => []
  | '\\' :: c :: rest => if isLineBreak c then splice rest else '\\' :: splice (c :: rest)
  | c :: rest => c :: splice rest

/-- What a scan of a whole text leaves. -/
def scan (text : String) : Scan := Scan.run ⟨.code, []⟩ (splice text.toList)

theorem splice_eq_self {cs : List Char} (h : '\\' ∉ cs) : splice cs = cs := by
  induction cs with
  | nil => rfl
  | cons c cs ih =>
    have hc : c ≠ '\\' := fun he => h (by simp [he])
    rw [splice, ih fun hm => h (List.mem_cons_of_mem c hm)]
    intro c' rest he
    exact absurd he hc

namespace Scan

variable {ls : List String}

/-! ## What single pieces do -/

/-- A character that opens neither a comment nor a literal. -/
def isQuiet (c : Char) : Bool := c != '/' && c != '"' && c != '\x27'

abbrev Quiet : String → Prop := Only isQuiet

theorem run_of_fixed {s : Scan} {cs : List Char} (h : ∀ c ∈ cs, step s c = s) : run s cs = s := by
  induction cs with
  | nil => rfl
  | cons c cs ih =>
    rw [run_cons, h c List.mem_cons_self, ih fun c' hc' => h c' (List.mem_cons_of_mem c hc')]

theorem run_quiet {cs : List Char} (h : ∀ c ∈ cs, isQuiet c = true) :
    run ⟨.code, ls⟩ cs = ⟨.code, ls⟩ := by
  refine run_of_fixed fun c hc => ?_
  have hquiet := h c hc
  simp only [isQuiet, Bool.and_eq_true, bne_iff_ne] at hquiet
  simp [step, enter, hquiet]

theorem run_lineComment {cs : List Char} (h : ∀ c ∈ cs, (!isLineBreak c) = true) :
    run ⟨.lineComment, ls⟩ cs = ⟨.lineComment, ls⟩ := by
  refine run_of_fixed fun c hc => ?_
  have hsame := h c hc
  rw [Bool.not_eq_true'] at hsame
  simp [step, hsame]

/-- A character that ends no literal and escapes nothing in it. -/
def isLiteral (c : Char) : Bool := c != '"' && c != '\\' && !isLineBreak c

theorem run_literal {cs : List Char} (h : ∀ c ∈ cs, isLiteral c = true) (read : List Char) :
    run ⟨.literal read, ls⟩ cs = ⟨.literal (cs.reverse ++ read), ls⟩ := by
  induction cs generalizing read with
  | nil => rfl
  | cons c cs ih =>
    have hc := h c (by simp)
    simp only [isLiteral, Bool.and_eq_true, bne_iff_ne, Bool.not_eq_true'] at hc
    have hstep : step ⟨.literal read, ls⟩ c = ⟨.literal (c :: read), ls⟩ := by simp [step, hc]
    rw [run_cons, hstep, ih fun c' hc' => h c' (List.mem_cons_of_mem c hc')]
    simp

def commented : List ScanMode := [.blockComment, .blockStar]

/-- Only a star and a slash lead out of a block comment. -/
theorem exists_run_commented {cs : List Char} (h : ¬ ['*', '/'] <:+: cs) {mode : ScanMode}
    (hmode : mode ∈ commented) (hhead : mode = .blockStar → cs.head? ≠ some '/') (ls : List String) :
    ∃ mode' ∈ commented, run ⟨mode, ls⟩ cs = ⟨mode', ls⟩ := by
  induction cs generalizing mode with
  | nil => exact ⟨mode, hmode, rfl⟩
  | cons c cs ih =>
    have hcs : ¬ ['*', '/'] <:+: cs := fun hi => h (hi.trans (List.suffix_cons c cs).isInfix)
    by_cases hc : c = '*'
    · subst hc
      have hnext : cs.head? ≠ some '/' := by
        intro he
        obtain ⟨rest, rfl⟩ := List.head?_eq_some_iff.mp he
        exact h ⟨[], rest, rfl⟩
      have hstep : step ⟨mode, ls⟩ '*' = ⟨.blockStar, ls⟩ := by
        simp only [commented, List.mem_cons, List.not_mem_nil, or_false] at hmode
        obtain rfl | rfl := hmode <;> rfl
      rw [run_cons, hstep]
      exact ih hcs (by decide) fun _ => hnext
    · have hstep : step ⟨mode, ls⟩ c = ⟨.blockComment, ls⟩ := by
        simp only [commented, List.mem_cons, List.not_mem_nil, or_false] at hmode
        obtain rfl | rfl := hmode
        · simp [step, hc]
        · have hslash : c ≠ '/' := fun he => hhead rfl (by simp [he])
          simp [step, hc, hslash]
      rw [run_cons, hstep]
      exact ih hcs (by decide) (by simp)

end Scan

open Scan

/-! ## What lines do -/

/-- The lines begin and end outside of comments and literals, and the literals in them are those
given. -/
def Scans (lines literals : List String) : Prop :=
  ∀ met, run ⟨.code, met⟩ (unlines lines) = ⟨.code, met ++ literals⟩

namespace Scans

variable {ls ls' met met' : List String} {l : String}

theorem nil : Scans [] [] := by
  intro met
  rw [List.append_nil]
  rfl

theorem append (h : Scans ls met) (h' : Scans ls' met') : Scans (ls ++ ls') (met ++ met') := by
  intro before
  rw [unlines_append, run_append, h, h', List.append_assoc]

theorem cons (h : Scans [l] met) (h' : Scans ls met') : Scans (l :: ls) (met ++ met') := h.append h'

theorem flatMap {α : Type} {xs : List α} {lines literals : α → List String}
    (h : ∀ x ∈ xs, Scans (lines x) (literals x)) : Scans (xs.flatMap lines) (xs.flatMap literals) := by
  induction xs with
  | nil => exact nil
  | cons x xs ih =>
    rw [List.flatMap_cons, List.flatMap_cons]
    exact (h x (by simp)).append (ih fun y hy => h y (List.mem_cons_of_mem x hy))

theorem quiet (h : ∀ l ∈ ls, Quiet l) : Scans ls [] := by
  have hchars : ∀ c ∈ unlines ls, isQuiet c = true := by
    intro c hc
    obtain ⟨l, hl, hc⟩ := List.mem_flatMap.mp hc
    rw [List.mem_append, List.mem_singleton] at hc
    obtain hc | rfl := hc
    · exact h l hl c hc
    · decide
  intro met
  rw [run_quiet hchars, List.append_nil]

theorem lineComment {cs : List Char} (h : cs.all (!isLineBreak ·) = true) :
    Scans [String.ofList ('/' :: '/' :: cs)] [] := by
  intro met
  have hopen : run ⟨.code, met⟩ ['/', '/'] = ⟨.lineComment, met⟩ := rfl
  have hclose : run ⟨.lineComment, met⟩ ['\n'] = ⟨.code, met⟩ := rfl
  have htext : unlines [String.ofList ('/' :: '/' :: cs)] = ['/', '/'] ++ (cs ++ ['\n']) := by
    simp [unlines]
  rw [htext, run_append, hopen, run_append, run_lineComment (List.all_eq_true.mp h), hclose, List.append_nil]

/-- The one text ends in a quote, the other begins with one, and both are quiet else. -/
structure Quotes (before after : List Char) : Prop where
  opens : before.getLast? = some '"'
  closes : after.head? = some '"'
  quiet : (before.dropLast ++ after.tail).all isQuiet = true

instance (before after : List Char) : Decidable (Quotes before after) :=
  decidable_of_iff (before.getLast? = some '"' ∧ after.head? = some '"' ∧
    (before.dropLast ++ after.tail).all isQuiet = true)
    ⟨fun h => ⟨h.1, h.2.1, h.2.2⟩, fun h => ⟨h.opens, h.closes, h.quiet⟩⟩

theorem literal {before after : List Char} {value : String} (hv : Only isLiteral value)
    (h : Quotes before after) :
    Scans [String.ofList before ++ value ++ String.ofList after] [value] := by
  obtain ⟨hopens, hcloses, hquiet⟩ := h
  rw [List.all_eq_true, List.forall_mem_append] at hquiet
  obtain ⟨before, rfl⟩ := List.getLast?_eq_some_iff.mp hopens
  obtain ⟨after, rfl⟩ := List.head?_eq_some_iff.mp hcloses
  rw [List.dropLast_concat, List.tail_cons] at hquiet
  intro met
  have htext : unlines [String.ofList (before ++ ['"']) ++ value ++ String.ofList ('"' :: after)] =
      before ++ ('"' :: (value.toList ++ ('"' :: (after ++ ['\n'])))) := by
    simp [unlines]
  have hclose : ∀ c ∈ after ++ ['\n'], isQuiet c = true :=
    List.forall_mem_append.mpr ⟨hquiet.2, List.forall_mem_singleton.mpr (by decide)⟩
  calc run ⟨.code, met⟩ (unlines [String.ofList (before ++ ['"']) ++ value ++ String.ofList ('"' :: after)])
    _ = run ⟨.code, met⟩ ('"' :: (value.toList ++ ('"' :: (after ++ ['\n'])))) := by
      rw [htext, run_append, run_quiet hquiet.1]
    _ = run (run ⟨.literal [], met⟩ value.toList) ('"' :: (after ++ ['\n'])) := by
      rw [run_cons, run_append]
      rfl
    _ = run ⟨.code, met ++ [String.ofList value.toList.reverse.reverse]⟩ (after ++ ['\n']) := by
      rw [run_literal hv, List.append_nil]
      rfl
    _ = ⟨.code, met ++ [value]⟩ := by
      rw [run_quiet hclose, List.reverse_reverse, String.ofList_toList]

end Scans

/-! ## The lines of a definition -/

theorem only_isLiteral {s : String} (hquote : '"' ∉ s.toList) (hback : '\\' ∉ s.toList)
    (hbreak : Unbroken s) : Only isLiteral s := by
  intro c hc
  have hq : c ≠ '"' := fun he => hquote (he ▸ hc)
  have hb : c ≠ '\\' := fun he => hback (he ▸ hc)
  simp [isLiteral, hq, hb, hbreak c hc]

theorem Printed.isLiteral {s : String} (h : Printed s) (hquote : '"' ∉ s.toList) :
    Only isLiteral s :=
  only_isLiteral hquote (h.not_mem (by decide)) (h.imp fun _ => not_isLineBreak_of_isPrinted)

theorem Worded.quiet {s : String} (h : Worded s) : Quiet s := by
  refine h.imp fun c hc => ?_
  have hslash : c ≠ '/' := by rintro rfl; exact absurd hc (by decide)
  have hquote : c ≠ '"' := by rintro rfl; exact absurd hc (by decide)
  have hmark : c ≠ '\x27' := by rintro rfl; exact absurd hc (by decide)
  simp [isQuiet, hslash, hquote, hmark]

theorem MappingRecord.Clean.scans {m : MappingRecord} (h : m.Clean) : Scans m.lines [m.endpoint] := by
  have hfirst : ∀ l ∈ m.lines.take 1, Quiet l := List.forall_mem_singleton.mpr (.literal (by decide))
  have hrest : ∀ l ∈ m.lines.drop 2, Quiet l := by
    simp only [lines, List.drop_succ_cons, List.drop_zero, List.forall_mem_cons]
    exact ⟨h.type.quiet.within (by decide), h.reliability.quiet.within (by decide),
      h.explicitTimestamp.quiet.within (by decide), h.allowUnset.quiet.within (by decide),
      .literal (by decide), List.forall_mem_nil _⟩
  have hendpoint := h.endpoint.printed.isLiteral h.endpoint.not_mem_quote
  exact (Scans.quiet hfirst).append ((Scans.literal hendpoint (by decide)).cons (.quiet hrest))

namespace InterfaceRecord

variable {r : InterfaceRecord}

theorem Clean.scans_front (h : r.Clean) : Scans r.front [] := by
  have harray : Quiet ("static const astarte_mapping_t " ++ r.mappingsSymbol ++ "[") :=
    h.mappingsSymbol.quiet.within (by decide)
  apply Scans.quiet
  simp only [front, List.forall_mem_cons]
  exact ⟨.literal (by decide), (harray.append (worded_toString _).quiet).append (.literal (by decide)),
    .literal (by decide), List.forall_mem_nil _⟩

theorem Clean.scans_back (h : r.Clean) : Scans r.back [r.name] := by
  have hfirst : ∀ l ∈ r.back.take 3, Quiet l := by
    simp only [back, List.take_succ_cons, List.take_zero, List.forall_mem_cons]
    exact ⟨.literal (by decide), .literal (by decide), h.symbol.quiet.within (by decide),
      List.forall_mem_nil _⟩
  have hrest : ∀ l ∈ r.back.drop 4, Quiet l := by
    simp only [back, List.drop_succ_cons, List.drop_zero, List.forall_mem_cons]
    exact ⟨(worded_toString _).quiet.within (by decide), (worded_toString _).quiet.within (by decide),
      h.kind.quiet.within (by decide), h.ownership.quiet.within (by decide),
      h.aggregation.quiet.within (by decide), h.mappingsSymbol.quiet.within (by decide),
      (worded_toString _).quiet.within (by decide), .literal (by decide), List.forall_mem_nil _⟩
  have hname := h.name.printed.isLiteral (h.name.not_mem (by decide))
  exact (Scans.quiet hfirst).append ((Scans.literal hname (by decide)).cons (.quiet hrest))

def literals (r : InterfaceRecord) : List String := r.mappings.map MappingRecord.endpoint ++ [r.name]

theorem Clean.scans (h : r.Clean) : Scans r.lines r.literals := by
  have hmappings : Scans (r.mappings.flatMap MappingRecord.lines)
      (r.mappings.map MappingRecord.endpoint) := by
    rw [List.map_eq_flatMap]
    exact .flatMap fun m hm => (h.mappings m hm).scans
  exact h.scans_front.append (hmappings.append h.scans_back)

end InterfaceRecord

/-! ## The whole source -/

/-- The comment at the top of a source before the base name. -/
def SourceText.commentFront : List Char := "/**\n * @file ".toList

/-- The comment after the base name, up to its last line. -/
def SourceText.commentBack : List Char :=
  (".c\n * @brief Contains automatically generated interfaces.\n *\n" ++
    " * @warning Do not modify this file manually.\n").toList

theorem SourceText.comment_lines (baseName : String) :
    unlines ((top baseName).take 6) =
      commentFront ++ (baseName.toList ++ (commentBack ++ [' ', '*', '/', '\n'])) := by
  unfold commentFront commentBack top
  simp only [List.take_succ_cons, List.take_zero, unlines_cons, String.toList_append,
    List.append_assoc]
  repeat rw [String.toList_ofList]
  rfl

theorem SourceText.commentBack_stays :
    ¬ ['*', '/'] <:+: commentBack ∧ commentBack.head? ≠ some '/' := by
  unfold commentBack
  rw [String.toList_append, String.toList_ofList, String.toList_ofList]
  decide +kernel

/-- The comment at the top of a source holds its base name. -/
theorem scans_topComment {baseName : String} (h : ¬ ['*', '/'] <:+: baseName.toList) :
    Scans ((SourceText.top baseName).take 6) [] := by
  intro met
  have hopen : run ⟨.code, met⟩ SourceText.commentFront = ⟨.blockComment, met⟩ := by
    unfold SourceText.commentFront
    rw [String.toList_ofList]
    rfl
  have hclose : ∀ mode ∈ commented, run ⟨mode, met⟩ [' ', '*', '/', '\n'] = ⟨.code, met⟩ := by
    simp only [commented, List.forall_mem_cons]
    exact ⟨rfl, rfl, List.forall_mem_nil _⟩
  have hin : ScanMode.blockComment ∈ commented := by decide
  obtain ⟨hback, hhead⟩ := SourceText.commentBack_stays
  obtain ⟨mode, hmode, hname⟩ := exists_run_commented h hin (by simp) met
  -- A star at the end of the base name is not followed by a slash.
  obtain ⟨mode', hmode', hrest⟩ := exists_run_commented hback hmode (fun _ => hhead) met
  rw [SourceText.comment_lines, run_append, hopen, run_append, hname, run_append, hrest,
    hclose mode' hmode', List.append_nil]

theorem scans_top {baseName : String} (h : ¬ ['*', '/'] <:+: baseName.toList)
    (hquote : '"' ∉ baseName.toList) (hback : '\\' ∉ baseName.toList) (hb : Unbroken baseName) :
    Scans (SourceText.top baseName) [baseName ++ ".h"] := by
  have hname : Only isLiteral (baseName ++ ".h") :=
    (only_isLiteral hquote hback hb).append (.literal (by decide))
  have hinclude : Scans ["#include \"" ++ baseName ++ ".h\""] [baseName ++ ".h"] := by
    have hline : "#include \"" ++ baseName ++ ".h\"" =
        "#include \"" ++ (baseName ++ ".h") ++ "\"" := by
      rw [show ".h\"" = ".h" ++ "\"" by decide]
      simp only [String.append_assoc]
    rw [hline]
    exact .literal hname (by decide)
  have hempty : Scans [""] [] := .quiet (List.forall_mem_singleton.mpr (.literal (by decide)))
  exact (scans_topComment h).append (hempty.cons (hinclude.cons (hempty.cons
    ((Scans.lineComment (by decide)).cons (.lineComment (by decide))))))

theorem scans_bottom : Scans SourceText.bottom [] :=
  (Scans.quiet (List.forall_mem_singleton.mpr (.literal (by decide)))).cons (.lineComment (by decide))

theorem scans_joinedLines {α : Type} {lines literals : α → List String} {xs : List α}
    (h : ∀ x ∈ xs, Scans (lines x) (literals x)) :
    Scans (joinedLines lines xs) (xs.flatMap literals) := by
  cases xs with
  | nil => exact .quiet (List.forall_mem_singleton.mpr (.literal (by decide)))
  | cons x xs => exact .flatMap h

/-- A scan of a source ends outside of comments and literals. The literals that it meets are the name
of the header and then, for each document, the endpoints in their order and the name. -/
theorem scan_sourceText {ds : List Document} {baseName : String} (hds : ∀ d ∈ ds, d.Accepted)
    (hquote : '"' ∉ baseName.toList) (hback : '\\' ∉ baseName.toList) (hbreak : Unbroken baseName)
    (hend : ¬ ['*', '/'] <:+: baseName.toList) :
    scan (sourceText (ds.map Document.record) baseName) =
      ⟨.code, (baseName ++ ".h") :: ds.flatMap fun d => d.mappings.map Mapping.endpoint ++ [d.name]⟩ := by
  have hclean : ∀ r ∈ ds.map Document.record, r.Clean :=
    List.forall_mem_map.mpr fun d hd => (hds d hd).clean
  have hscans : Scans (SourceText.lines (ds.map Document.record) baseName)
      ([baseName ++ ".h"] ++ ((ds.map Document.record).flatMap InterfaceRecord.literals ++ [])) :=
    (scans_top hend hquote hback hbreak).append
      ((scans_joinedLines fun r hr => (hclean r hr).scans).append scans_bottom)
  -- Without a backslash no lines are joined, so the scan is that of the lines.
  have hplain : '\\' ∉ (sourceText (ds.map Document.record) baseName).toList := by
    have hprinted : ∀ c, isPrinted c = true → (c != '\\') = true := fun c hc =>
      (Bool.and_eq_true_iff.mp hc).2
    have hname : Only (· != '\\') baseName := fun c hc =>
      bne_iff_ne.mpr fun he => hback (he ▸ hc)
    have hlines := SourceText.only_lines hprinted hclean hname
    rw [SourceText.toList_eq_unlines]
    intro hm
    obtain ⟨l, hl, hm⟩ := List.mem_flatMap.mp hm
    rw [List.mem_append, List.mem_singleton] at hm
    exact hm.elim ((hlines l hl).not_mem (by decide)) (by decide)
  rw [scan, splice_eq_self hplain, SourceText.toList_eq_unlines, hscans []]
  simp [List.flatMap_map, InterfaceRecord.literals, Document.record, Mapping.record, Function.comp_def]

/-- A document whose endpoint opens and closes comments and character constants. -/
def commentEndpoint : Document := oneMapping "a.b" "/* // \x27 */ ??/ $\x7bname\x7d"

theorem scan_commentEndpoint :
    (∀ d ∈ [commentEndpoint], d.Accepted) ∧
      '"' ∉ "a//b/*c*".toList ∧ '\\' ∉ "a//b/*c*".toList ∧ Unbroken "a//b/*c*" ∧
      ¬ ['*', '/'] <:+: "a//b/*c*".toList ∧
      scan (sourceText ([commentEndpoint].map Document.record) "a//b/*c*") =
        ⟨.code, ["a//b/*c*.h", "/* // \x27 */ ??/ $\x7bname\x7d", "a.b"]⟩ := by
  have hname : Schema.IsName "a.b" := Schema.isName_iff.mp (by decide)
  have hendpoint : Schema.IsEndpoint "/* // \x27 */ ??/ $\x7bname\x7d" :=
    Schema.isEndpoint_iff.mp (by decide)
  have hds : ∀ d ∈ [commentEndpoint], d.Accepted :=
    List.forall_mem_singleton.mpr (oneMapping_accepted hname hendpoint)
  have hquote : '"' ∉ "a//b/*c*".toList := by decide
  have hback : '\\' ∉ "a//b/*c*".toList := by decide
  have hbreak : Unbroken "a//b/*c*" := .literal (by decide)
  have hend : ¬ ['*', '/'] <:+: "a//b/*c*".toList := by
    rw [String.toList_ofList]
    decide
  have hscan := scan_sourceText hds hquote hback hbreak hend
  refine ⟨hds, hquote, hback, hbreak, hend, hscan.trans ?_⟩
  decide +kernel

end InterfaceTables
