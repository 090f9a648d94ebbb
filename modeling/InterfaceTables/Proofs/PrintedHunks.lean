import InterfaceTables.Proofs.HunkGroups
import InterfaceTables.Proofs.TextLines

/-!
Unified diffs as texts. Every hunk can be read back from what is printed of it, a missing line ending
included, so the printed text is a patch from what a file holds to what was generated for it.
-/

namespace InterfaceTables.Diff

/-! ## Lines of a text -/

/-- How a line may end. -/
def endings : List (List Char) := [['\n'], ['\r'], ['\r', '\n']]

/-- A line has no line break but its ending. -/
def IsLine (cs : List Char) : Prop :=
  ∃ body ending, cs = body ++ ending ∧ (∀ c ∈ body, (!isLineBreak c) = true) ∧
    (ending = [] ∨ ending ∈ endings)

theorem linesFrom_ending {ending rest : List Char} (h : ending ∈ endings) (acc : List Char)
    (hrest : rest.head? ≠ some '\n') :
    linesFrom acc (ending ++ rest) = String.ofList (acc.reverse ++ ending) :: linesFrom [] rest := by
  simp only [endings, List.mem_cons, List.not_mem_nil, or_false] at h
  obtain rfl | rfl | rfl := h
  · simp [linesFrom]
  · cases rest with
    | nil => simp [linesFrom]
    | cons c rest =>
      have hc : c ≠ '\n' := by simpa using hrest
      rw [List.singleton_append, linesFrom]
      · simp
      · intro rest' _ he
        exact hc (List.cons.inj he).1
  · simp [linesFrom]

/-- A line that begins with something other than its ending. -/
def IsMarked (cs : List Char) : Prop :=
  ∃ body ending, cs = body ++ ending ∧ body ≠ [] ∧ (∀ c ∈ body, (!isLineBreak c) = true) ∧
    ending ∈ endings

theorem head?_flatten_ne {ps : List (List Char)} (h : ∀ p ∈ ps, IsMarked p) :
    ps.flatten.head? ≠ some '\n' := by
  cases ps with
  | nil => simp
  | cons p ps =>
    obtain ⟨body, ending, rfl, hne, hbody, -⟩ := h p (by simp)
    obtain ⟨c, cs, rfl⟩ := List.exists_cons_of_ne_nil hne
    have hc := hbody c (by simp)
    rintro hhead
    obtain rfl : c = '\n' := by simpa using hhead
    simp [isLineBreak] at hc

theorem linesFrom_flatten {ps : List (List Char)} (h : ∀ p ∈ ps, IsMarked p) :
    linesFrom [] ps.flatten = ps.map String.ofList := by
  induction ps with
  | nil => rfl
  | cons p ps ih =>
    obtain ⟨body, ending, rfl, hne, hbody, hending⟩ := h p (by simp)
    have hrest : ∀ q ∈ ps, IsMarked q := fun q hq => h q (List.mem_cons_of_mem _ hq)
    rw [List.flatten_cons, List.append_assoc, linesFrom_unbroken hbody,
      linesFrom_ending hending _ (head?_flatten_ne hrest), ih hrest]
    simp

theorem isLine_of_mem_linesFrom {acc cs : List Char} (hacc : ∀ c ∈ acc, (!isLineBreak c) = true)
    {l : Line} (hl : l ∈ linesFrom acc cs) : IsLine l.toList := by
  fun_induction linesFrom acc cs with
  | case1 acc h => simp at hl
  | case2 acc h =>
    obtain rfl : l = String.ofList acc.reverse := by simpa using hl
    exact ⟨acc.reverse, [], by simp, by simpa using hacc, .inl rfl⟩
  | case3 acc rest ih =>
    obtain rfl | hl := List.mem_cons.mp hl
    · exact ⟨acc.reverse, ['\r', '\n'], by simp, by simpa using hacc, .inr (by simp [endings])⟩
    · exact ih (by simp) hl
  | case4 acc c rest hcr hc ih =>
    obtain rfl | hl := List.mem_cons.mp hl
    · exact ⟨acc.reverse, [c], by simp, by simpa using hacc, .inr (by simpa [endings] using hc)⟩
    · exact ih (by simp) hl
  | case5 acc c rest hcr hc ih =>
    exact ih (List.forall_mem_cons.mpr ⟨by simpa [isLineBreak] using hc, hacc⟩) hl

theorem flatMap_linesFrom (acc cs : List Char) :
    (linesFrom acc cs).flatMap String.toList = acc.reverse ++ cs := by
  fun_induction linesFrom acc cs <;> simp_all

theorem eq_of_splitLines_eq {s t : String} (h : splitLines s = splitLines t) : s = t := by
  have hlists : s.toList = t.toList := by
    simpa [splitLines, flatMap_linesFrom] using congrArg (List.flatMap String.toList) h
  exact String.toList_inj.mp hlists

/-! ## Reading a diff -/

theorem upTo_eq_none {stop : Char} {cs : List Char} (h : stop ∉ cs) : Frame.upTo stop cs = none := by
  induction cs with
  | nil => rfl
  | cons c cs ih =>
    have hc : c ≠ stop := fun he => h (by simp [he])
    simp [Frame.upTo, hc, ih fun hm => h (List.mem_cons_of_mem c hm)]

/-- The span of a header. -/
def readSpan (s : String) : Span :=
  match Frame.upTo ',' s.toList with
  | none => ⟨numberOf s - 1, 1⟩
  | some (start, size) =>
    let size := numberOf (String.ofList size)
    ⟨if size = 0 then numberOf (String.ofList start) else numberOf (String.ofList start) - 1, size⟩

theorem readSpan_text (s : Span) : readSpan s.text = s := by
  obtain ⟨start, size⟩ := s
  by_cases hsize : size = 1
  · subst hsize
    have hread : Frame.upTo ',' (toString (start + 1)).toList = none :=
      upTo_eq_none (not_mem_toString (by decide) _)
    simp only [Span.text, if_true, readSpan, hread]
    simp [numberOf_repr]
  · have htext : (Span.text ⟨start, size⟩).toList =
        (toString (if size = 0 then start else start + 1)).toList ++ ',' :: (toString size).toList := by
      simp [Span.text, hsize]
    have hread := Frame.upTo_append (not_mem_toString (by decide : ','.isDigit = false)
      (if size = 0 then start else start + 1)) (toString size).toList
    rw [← htext] at hread
    simp only [readSpan, hread, String.ofList_toList]
    by_cases hzero : size = 0 <;> simp [hzero, numberOf_repr]

/-- What follows a line without an ending. -/
def remark : Line := "\\ No newline at end of file\n"

/-- What was read of the lines below: rows of a hunk whose header is still to come, whether the line
above lacks its ending, and whole hunks. -/
structure Reading where
  rows : List Row
  unended : Bool
  hunks : List Hunk

def Reading.row (below : Reading) (kind : Line → Row) (cs : List Char) : Reading :=
  ⟨kind (String.ofList (if below.unended then cs.dropLast else cs)) :: below.rows, false, below.hunks⟩

/-- The spans of a header line and what is around them. -/
def headerFrame : Frame := [("@@ -", ' '), ("+", ' ')]

def readLine (l : Line) (below : Reading) : Option Reading :=
  match l.toList with
  | ' ' :: cs => some (below.row .context cs)
  | '-' :: cs => some (below.row .deleted cs)
  | '+' :: cs => some (below.row .inserted cs)
  | '\\' :: _ => if l = remark then some { below with unended := true } else none
  | cs =>
    match headerFrame.read cs with
    | some ([old, new], ['@', '@', '\n']) =>
      some ⟨[], false, ⟨readSpan old, readSpan new, below.rows⟩ :: below.hunks⟩
    | _ => none

def readLines (ls : List Line) : Option Reading :=
  ls.foldr (fun l below => below.bind (readLine l)) (some ⟨[], false, []⟩)

/-- The hunks below the names of a diff; a diff without hunks has no names either. -/
def readUnified (oldName newName text : String) : Option (List Hunk) :=
  if text = "" then some []
  else do
    let cs ← ("--- " ++ oldName ++ "\n+++ " ++ newName ++ "\n").toList.isPrefixOf? text.toList
    let reading ← readLines (linesFrom [] cs)
    if reading.rows.isEmpty ∧ reading.unended = false then some reading.hunks else none

/-! ## What is printed -/

/-- The lines printed for a row. -/
def Row.printed (r : Row) : List Line :=
  if isTerminated r.line then [r.mark ++ r.line] else [r.mark ++ r.line ++ "\n", remark]

def Hunk.headerLine (h : Hunk) : Line := "@@ -" ++ h.old.text ++ " +" ++ h.new.text ++ " @@\n"

def Hunk.printed (h : Hunk) : List Line := h.headerLine :: h.rows.flatMap Row.printed

theorem text_row (r : Row) : r.text.toList = (r.printed.map String.toList).flatten := by
  unfold Row.text Row.printed
  split <;> simp [remark]

/-- A text put together from texts of lines. -/
theorem toList_join_map {α : Type} {text : α → String} {printed : α → List Line}
    (h : ∀ x, (text x).toList = ((printed x).map String.toList).flatten) (xs : List α) :
    (String.join (xs.map text)).toList = ((xs.flatMap printed).map String.toList).flatten := by
  induction xs with
  | nil => rfl
  | cons x xs ih =>
    rw [List.map_cons, String.join_cons, String.toList_append, ih, h, List.flatMap_cons,
      List.map_append, List.flatten_append]

theorem text_hunk (h : Hunk) : h.text.toList = (h.printed.map String.toList).flatten := by
  rw [Hunk.text, String.toList_append, toList_join_map text_row]
  simp [Hunk.printed, Hunk.headerLine]

/-- A row as it is read again. -/
def Row.withLine : Row → Line → Row
  | .context _, l => .context l
  | .deleted _, l => .deleted l
  | .inserted _, l => .inserted l

theorem withLine_line (r : Row) : r.withLine r.line = r := by cases r <;> rfl

theorem readLine_marked (r : Row) (l : Line) (below : Reading) :
    readLine (r.mark ++ l) below = some (below.row r.withLine l.toList) := by
  cases r <;> (simp [readLine, Row.mark]; rfl)

theorem readLine_remark (below : Reading) :
    readLine remark below = some { below with unended := true } := by
  simp [readLine, remark]

theorem not_mem_text_span {c : Char} (hdigit : c.isDigit = false) (hcomma : c ≠ ',') (s : Span) :
    c ∉ s.text.toList := by
  unfold Span.text
  split
  · exact not_mem_toString hdigit _
  · simp only [String.toList_append, List.mem_append, not_or]
    exact ⟨⟨not_mem_toString hdigit _, by simpa using hcomma⟩, not_mem_toString hdigit _⟩

theorem readLine_headerLine (h : Hunk) (below : Reading) :
    readLine h.headerLine below =
      some ⟨[], false, ⟨h.old, h.new, below.rows⟩ :: below.hunks⟩ := by
  have hspan := not_mem_text_span (by decide : ' '.isDigit = false) (by decide)
  have htext : h.headerLine.toList =
      headerFrame.text [h.old.text, h.new.text] ++ ['@', '@', '\n'] := by
    simp [Hunk.headerLine, headerFrame, Frame.text]
  have hread : headerFrame.read h.headerLine.toList =
      some ([h.old.text, h.new.text], ['@', '@', '\n']) := by
    rw [htext]
    exact Frame.read_text (.cons (hspan _) (.cons (hspan _) .nil)) _
  obtain ⟨cs, hcs⟩ : ∃ cs, h.headerLine.toList = '@' :: cs := by simp [Hunk.headerLine]
  rw [hcs] at hread
  simp [readLine, hcs, hread, readSpan_text]

theorem readLines_cons (l : Line) (ls : List Line) :
    readLines (l :: ls) = (readLines ls).bind (readLine l) := rfl

/-- A row is read back above what is below it. -/
theorem readLines_row {ls : List Line} {below : Reading} (h : readLines ls = some below)
    (hended : below.unended = false) (r : Row) :
    readLines (r.printed ++ ls) = some ⟨r :: below.rows, false, below.hunks⟩ := by
  unfold Row.printed
  split
  · rw [List.singleton_append, readLines_cons, h, Option.bind_some, readLine_marked]
    simp [Reading.row, hended, withLine_line]
  · rw [List.cons_append, List.singleton_append, readLines_cons, readLines_cons, h, Option.bind_some,
      readLine_remark, Option.bind_some, String.append_assoc, readLine_marked]
    simp [Reading.row, withLine_line]

theorem readLines_rows {ls : List Line} {hs : List Hunk} (h : readLines ls = some ⟨[], false, hs⟩)
    (rows : List Row) : readLines (rows.flatMap Row.printed ++ ls) = some ⟨rows, false, hs⟩ := by
  induction rows with
  | nil => exact h
  | cons r rows ih =>
    rw [List.flatMap_cons, List.append_assoc]
    exact readLines_row ih rfl r

theorem readLines_hunks (hs : List Hunk) :
    readLines (hs.flatMap Hunk.printed) = some ⟨[], false, hs⟩ := by
  induction hs with
  | nil => rfl
  | cons h hs ih =>
    rw [List.flatMap_cons, Hunk.printed, List.cons_append, readLines_cons, readLines_rows ih]
    exact readLine_headerLine h _

theorem isTerminated_iff {l : Line} {body ending : List Char} (hl : l.toList = body ++ ending)
    (hbody : ∀ c ∈ body, (!isLineBreak c) = true) (hending : ending = [] ∨ ending ∈ endings) :
    isTerminated l = true ↔ ending ∈ endings := by
  obtain rfl | hending := hending
  · have hlast : ∀ c, body.getLast? = some c → c ≠ '\n' ∧ c ≠ '\r' := fun c hc => by
      simpa [isLineBreak] using hbody c (List.mem_of_getLast? hc)
    have hn : body.getLast? ≠ some '\n' := fun hc => (hlast _ hc).1 rfl
    have hr : body.getLast? ≠ some '\r' := fun hc => (hlast _ hc).2 rfl
    simp [isTerminated, hl, hn, hr, endings]
  · have hend : ending = ['\n'] ∨ ending = ['\r'] ∨ ending = ['\r', '\n'] := by
      simpa [endings] using hending
    simp only [hending, iff_true]
    obtain rfl | rfl | rfl := hend <;> simp [isTerminated, hl]

theorem isMarked_append {m : Char} (hm : (!isLineBreak m) = true) {body ending : List Char}
    (hbody : ∀ c ∈ body, (!isLineBreak c) = true) (hending : ending ∈ endings) :
    IsMarked ([m] ++ (body ++ ending)) :=
  ⟨m :: body, ending, rfl, List.cons_ne_nil m body, List.forall_mem_cons.mpr ⟨hm, hbody⟩, hending⟩

theorem isMarked_remark : IsMarked remark.toList :=
  ⟨"\\ No newline at end of file".toList, ['\n'], by simp [remark], by decide,
    Only.literal (by decide), by simp [endings]⟩

/-- What is printed for a row is told apart by its line breaks. -/
theorem isMarked_printed {r : Row} (h : IsLine r.line.toList) : ∀ l ∈ r.printed, IsMarked l.toList := by
  obtain ⟨body, ending, hl, hbody, hending⟩ := h
  obtain ⟨m, hmark, hm⟩ : ∃ m, r.mark.toList = [m] ∧ (!isLineBreak m) = true := by
    cases r <;> exact ⟨_, String.toList_ofList, by decide⟩
  have hterm := isTerminated_iff hl hbody hending
  unfold Row.printed
  split
  · simp only [List.mem_singleton, forall_eq, String.toList_append, hmark, hl]
    exact isMarked_append hm hbody (hterm.mp ‹_›)
  · rename_i hnot
    obtain rfl := hending.resolve_right (mt hterm.mpr hnot)
    rw [List.forall_mem_cons, List.forall_mem_singleton]
    refine ⟨?_, isMarked_remark⟩
    simpa [hmark, hl] using isMarked_append hm hbody (by simp [endings] : ['\n'] ∈ endings)

theorem isMarked_headerLine (h : Hunk) : IsMarked h.headerLine.toList := by
  have hspan : ∀ s : Span, Unbroken s.text := by
    intro s c hc
    have hn : c ≠ '\n' := by
      rintro rfl
      exact not_mem_text_span (by decide) (by decide) s hc
    have hr : c ≠ '\r' := by
      rintro rfl
      exact not_mem_text_span (by decide) (by decide) s hc
    simp [isLineBreak, hn, hr]
  refine ⟨"@@ -".toList ++ h.old.text.toList ++ " +".toList ++ h.new.text.toList ++ " @@".toList,
    ['\n'], by simp [Hunk.headerLine], by simp, ?_, by simp [endings]⟩
  simp only [List.forall_mem_append]
  exact ⟨⟨⟨⟨Only.literal (by decide), hspan _⟩, Only.literal (by decide)⟩, hspan _⟩,
    Only.literal (by decide)⟩

theorem readUnified_unifiedText {oldName newName : String} {hs : List Hunk}
    (hlines : ∀ h ∈ hs, ∀ r ∈ h.rows, IsLine r.line.toList) :
    readUnified oldName newName (unifiedText oldName newName hs) = some hs := by
  by_cases hne : hs = []
  · subst hne
    rfl
  · have hmarked : ∀ p ∈ (hs.flatMap Hunk.printed).map String.toList, IsMarked p := by
      simp only [List.mem_map, List.mem_flatMap]
      rintro p ⟨l, ⟨h, hh, hl⟩, rfl⟩
      obtain rfl | hl := List.mem_cons.mp hl
      · exact isMarked_headerLine h
      · obtain ⟨r, hr, hl⟩ := List.mem_flatMap.mp hl
        exact isMarked_printed (hlines h hh r hr) l hl
    have hprinted : linesFrom [] (String.join (hs.map Hunk.text)).toList = hs.flatMap Hunk.printed := by
      rw [toList_join_map text_hunk, linesFrom_flatten hmarked, List.map_map]
      simp [Function.comp_def]
    have htext : unifiedText oldName newName hs =
        "--- " ++ oldName ++ "\n+++ " ++ newName ++ "\n" ++ String.join (hs.map Hunk.text) := by
      simp [unifiedText, hne]
    have hchars : (unifiedText oldName newName hs).toList =
        ("--- " ++ oldName ++ "\n+++ " ++ newName ++ "\n").toList ++
          (String.join (hs.map Hunk.text)).toList := by
      rw [htext]
      exact String.toList_append
    have hnonempty : unifiedText oldName newName hs ≠ "" := by
      intro he
      simp [he] at hchars
    rw [readUnified, if_neg hnonempty, hchars, Frame.isPrefixOf?_append, Option.bind_eq_bind,
      Option.bind_some, hprinted, readLines_hunks]
    rfl

/-! ## The diff as a patch -/

theorem isLine_of_mem_splitLines {text : String} {l : Line} (h : l ∈ splitLines text) :
    IsLine l.toList :=
  isLine_of_mem_linesFrom (by simp) h

theorem hunks_eq_nil_iff (s t : String) : hunks (splitLines s) (splitLines t) = [] ↔ s = t := by
  constructor
  · intro h
    have happly := (patch_hunks (splitLines s) (splitLines t)).apply
    rw [h] at happly
    exact eq_of_splitLines_eq (Option.some.inj happly)
  · rintro rfl
    exact hunks_self _

/-- The printed diff of two texts is read back as hunks that lead from the one to the other. All old
starts are right, and so are the other numbers of a hunk that begins and ends with context. At an end
of a file a header is right about the texts that its first and last changes have lines of. -/
theorem unified_is_patch (existing expected fileName : String) :
    ∃ hs, readUnified (fileName ++ " (on disk)") (fileName ++ " (generated)")
        (unified existing expected fileName) = some hs ∧
      applyHunks 0 hs (splitLines existing) = some (splitLines expected) ∧
      (∀ h ∈ hs, h.Focused) ∧ HeadersFrom 0 0 hs ∧ (hs = [] ↔ existing = expected) := by
  have hpatch := patch_hunks (splitLines existing) (splitLines expected)
  have hlines : ∀ h ∈ hunks (splitLines existing) (splitLines expected), ∀ r ∈ h.rows,
      IsLine r.line.toList := fun h hh r hr =>
    (hpatch.lines h hh r hr).elim isLine_of_mem_splitLines isLine_of_mem_splitLines
  exact ⟨_, readUnified_unifiedText hlines, hpatch.apply, hpatch.focused, hpatch.headers,
    hunks_eq_nil_iff existing expected⟩

/-- An inserted run that moves up past a deleted one keeps the place it was found at, so a hunk that
begins with deleted and ends with inserted lines can be off in its header. -/
theorem unified_misplaced_header :
    unified "a\nb\n" "b\nb\n" "f.h" =
        "--- f.h (on disk)\n+++ f.h (generated)\n@@ -1 +2 @@\n-a\n b\n+b\n" ∧
      ∃ hs, readUnified ("f.h" ++ " (on disk)") ("f.h" ++ " (generated)")
          (unified "a\nb\n" "b\nb\n" "f.h") = some hs ∧
        applyHunks 0 hs (splitLines "a\nb\n") = some (splitLines "b\nb\n") ∧
        ∃ h ∈ hs, h.old.size ≠ h.oldLines.length ∧ h.new.start ≠ 0 ∧
          h.new.size ≠ h.newLines.length := by
  obtain ⟨hs, hread, happly, -⟩ := unified_is_patch "a\nb\n" "b\nb\n" "f.h"
  have hhunks : readUnified ("f.h" ++ " (on disk)") ("f.h" ++ " (generated)")
      (unified "a\nb\n" "b\nb\n" "f.h") =
      some [⟨⟨0, 1⟩, ⟨1, 1⟩, [.deleted "a\n", .context "b\n", .inserted "b\n"]⟩] := by
    decide +kernel
  obtain rfl := Option.some.inj (hread.symm.trans hhunks)
  exact ⟨by decide +kernel, _, hread, happly, _, List.mem_singleton_self _, by decide⟩

end InterfaceTables.Diff
