import InterfaceTables.Proofs.Containment
import InterfaceTables.Proofs.Identifiers
import InterfaceTables.Proofs.LoadingInOrder
import InterfaceTables.Proofs.PrintedHunks

/-!
The guard of a header and the directive of a source that includes it. The text in front of the base name
goes into both, so the guard is the name of a macro only if this text does not begin with a digit, and the
directive names the header only if the text holds nothing that ends a name or a line.
-/

namespace InterfaceTables

/-! ## Guards -/

namespace Symbol

/-- A letter or an underscore, followed by letters, digits and underscores. -/
def IsMacroName (s : String) : Prop :=
  ∃ first rest, s.toList = first :: rest ∧ (Schema.IsLetter first ∨ first = '_') ∧
    ∀ c ∈ rest, isWordChar c = true

def IsDigit (c : Char) : Prop := '0' ≤ c ∧ c ≤ '9'

instance (c : Char) : Decidable (IsDigit c) := inferInstanceAs (Decidable (_ ∧ _))

def BeginsWithDigit (s : String) : Prop := ∃ first rest, s.toList = first :: rest ∧ IsDigit first

/-- The character of a guard for one of the base name. -/
def guardChar (c : Char) : Char := (sanitizeChar c).toUpper

theorem toList_includeGuard (baseName : String) :
    (includeGuard baseName).toList = baseName.toList.map guardChar ++ ['_', 'H'] := by
  have htail : "_H".toList = ['_', 'H'] := String.toList_ofList
  rw [includeGuard, upper, sanitize, String.toList_append, String.toList_ofList, String.toList_ofList,
    List.map_map, htail]
  rfl

/-- A capital of a small letter is no digit. -/
theorem not_isDigit_toUpper {c : Char} (h : 'a' ≤ c ∧ c ≤ 'z') : ¬ IsDigit c.toUpper := by
  have hlow := UInt32.le_iff_toNat_le.mp h.1
  have hhigh := UInt32.le_iff_toNat_le.mp h.2
  have ha : 'a'.val.toNat = 97 := rfl
  have hz : 'z'.val.toNat = 122 := rfl
  have hshift : ('A'.val - 'a'.val).toNat = 2 ^ 32 - 32 := rfl
  rintro ⟨-, hnine⟩
  have hnine := UInt32.le_iff_toNat_le.mp hnine
  have hval : c.toUpper.val = c.val + ('A'.val - 'a'.val) := by
    unfold Char.toUpper
    split
    · rfl
    · rename_i hc
      exact absurd h hc
  rw [hval, UInt32.toNat_add, show '9'.val.toNat = 57 from rfl] at hnine
  omega

theorem isDigit_guardChar_iff {c : Char} : IsDigit (guardChar c) ↔ IsDigit c := by
  unfold guardChar
  by_cases hword : isWordChar c = true
  · rw [sanitizeChar_eq_self hword]
    by_cases hsmall : 'a' ≤ c ∧ c ≤ 'z'
    · refine iff_of_false (not_isDigit_toUpper hsmall) fun hdigit => ?_
      exact absurd (Char.le_trans hsmall.1 hdigit.2) (by decide)
    · have hsame : c.toUpper = c := by
        unfold Char.toUpper
        exact dif_neg hsmall
      rw [hsame]
  · have hunder : sanitizeChar c = '_' := if_neg hword
    rw [hunder]
    refine iff_of_false (by decide) fun hdigit => hword ?_
    simp [isWordChar, hdigit.1, hdigit.2]

/-- The character is a capital or an underscore, unless it stands for a digit. -/
theorem guardChar_cases (c : Char) :
    Schema.IsLetter (guardChar c) ∨ guardChar c = '_' ∨ IsDigit (guardChar c) := by
  have hword : isWordChar (sanitizeChar c) = true :=
    wordlike_sanitize (String.ofList [c]) _ (by simp [sanitize])
  have hcapital : isCapital (guardChar c) = true := isCapital_toUpper hword
  simp only [isCapital, Bool.or_eq_true, Bool.and_eq_true, decide_eq_true_eq, beq_iff_eq] at hcapital
  obtain (hletter | hdigit) | hunder := hcapital
  · exact .inl (.inr hletter)
  · exact .inr (.inr hdigit)
  · exact .inr (.inl hunder)

theorem not_isDigit_of_start {c : Char} (h : Schema.IsLetter c ∨ c = '_') : ¬ IsDigit c := by
  rintro ⟨-, hnine⟩
  obtain (hsmall | hcapital) | rfl := h
  · exact absurd (Char.le_trans hsmall.1 hnine) (by decide)
  · exact absurd (Char.le_trans hcapital.1 hnine) (by decide)
  · exact absurd hnine (by decide)

/-- A guard is the name of a macro unless its base name begins with a digit. -/
theorem isMacroName_includeGuard_iff {first : Char} {rest : List Char} {baseName : String}
    (hb : baseName.toList = first :: rest) : IsMacroName (includeGuard baseName) ↔ ¬ IsDigit first := by
  have hguard : (includeGuard baseName).toList =
      guardChar first :: (rest.map guardChar ++ ['_', 'H']) := by
    rw [toList_includeGuard, hb, List.map_cons, List.cons_append]
  rw [← isDigit_guardChar_iff]
  constructor
  · rintro ⟨c, cs, hc, hstart, -⟩
    rw [hguard] at hc
    cases hc
    exact not_isDigit_of_start hstart
  · intro hdigit
    have hwords := (capital_includeGuard baseName).wordlike
    refine ⟨_, _, hguard, ?_, fun c hc => hwords c (hguard ▸ List.mem_cons_of_mem _ hc)⟩
    exact (or_assoc.mpr (guardChar_cases first)).resolve_right hdigit

theorem isMacroName_includeGuard_baseName_iff (lead : String) :
    IsMacroName (includeGuard (baseName lead)) ↔ ¬ BeginsWithDigit lead := by
  have happend : (baseName lead).toList = lead.toList ++ defaultBaseName.toList := String.toList_append
  cases hlead : lead.toList with
  | nil =>
    have hdefault : (baseName lead).toList = 'g' :: defaultBaseName.toList.tail := by
      rw [happend, hlead]
      rfl
    rw [isMacroName_includeGuard_iff hdefault]
    refine iff_of_true (by decide) ?_
    rintro ⟨first, rest, hfirst, -⟩
    cases hlead.symm.trans hfirst
  | cons first rest =>
    rw [hlead, List.cons_append] at happend
    rw [isMacroName_includeGuard_iff happend, not_iff_not]
    constructor
    · exact fun hdigit => ⟨first, rest, hlead, hdigit⟩
    · rintro ⟨first', rest', hfirst, hdigit⟩
      cases hlead.symm.trans hfirst
      exact hdigit

end Symbol

/-! ## Directives -/

/-- The text between the first two double quotes of a line. -/
def quotedPart? (line : Diff.Line) : Option String := do
  let (_, rest) ← Frame.upTo '"' line.toList
  let (inside, _) ← Frame.upTo '"' rest
  return String.ofList inside

def isDirective (line : Diff.Line) : Bool := "#include".toList.isPrefixOf line.toList

/-- The lines of a text that include files. -/
def directives (text : String) : List Diff.Line := (Diff.splitLines text).filter isDirective

/-- What may stand in a name between double quotes. -/
def isQuotable (c : Char) : Bool := c != '"' && !isLineBreak c

theorem Frame.upTo_eq_some {stop : Char} {cs front rest : List Char}
    (h : upTo stop cs = some (front, rest)) : cs = front ++ stop :: rest ∧ stop ∉ front := by
  induction cs generalizing front with
  | nil => cases h
  | cons c cs ih =>
    by_cases hc : c = stop
    · rw [upTo, if_pos hc] at h
      cases h
      exact ⟨by rw [hc, List.nil_append], by simp⟩
    · rw [upTo, if_neg hc, Option.map_eq_some_iff] at h
      obtain ⟨⟨front', rest'⟩, hrest, he⟩ := h
      cases he
      obtain ⟨rfl, hstop⟩ := ih hrest
      exact ⟨rfl, by simp [Ne.symm hc, hstop]⟩

/-- A line break in a line has no double quote after it. -/
theorem Diff.IsLine.not_isLineBreak {before after : List Char} {c : Char}
    (h : IsLine (before ++ c :: after)) (hq : '"' ∈ after) : (!isLineBreak c) = true := by
  obtain ⟨body, ending, hline, hbody, hending⟩ := h
  have hquote : '"' ∉ ending := by
    obtain rfl | hmem := hending
    · simp
    · revert hmem
      simp only [endings, List.mem_cons, List.not_mem_nil, or_false]
      rintro (rfl | rfl | rfl) <;> decide
  obtain ⟨more, hmore, hafter⟩ | ⟨more, hmore, hafter⟩ := List.append_eq_append_iff.mp hline
  · -- The character stands in the body, as a quote after it cannot be in the ending.
    cases more with
    | nil =>
      rw [List.nil_append] at hafter
      exact absurd (hafter ▸ List.mem_cons_of_mem c hq) hquote
    | cons c' more =>
      rw [List.cons_append] at hafter
      cases hafter
      exact hbody c (hmore ▸ by simp)
  · exact absurd (hafter ▸ List.mem_append_right more (List.mem_cons_of_mem c hq)) hquote

/-- A name between double quotes holds neither a quote nor a line break. -/
theorem only_of_quotedPart? {line : Diff.Line} {name : String} (hline : Diff.IsLine line.toList)
    (h : quotedPart? line = some name) : Only isQuotable name := by
  obtain ⟨⟨front, rest⟩, hfront, h⟩ := Option.bind_eq_some_iff.mp h
  obtain ⟨⟨inside, after⟩, hinside, h⟩ := Option.bind_eq_some_iff.mp h
  cases h
  obtain ⟨hopen, -⟩ := Frame.upTo_eq_some hfront
  obtain ⟨rfl, hquote⟩ := Frame.upTo_eq_some hinside
  intro c hc
  rw [String.toList_ofList] at hc
  obtain ⟨before, between, rfl⟩ := List.append_of_mem hc
  have hsplit : line.toList = (front ++ '"' :: before) ++ c :: (between ++ '"' :: after) := by
    rw [hopen]
    simp
  have hbreak := (hsplit ▸ hline).not_isLineBreak (by simp)
  have hne : c ≠ '"' := fun he => hquote (he ▸ hc)
  rw [isQuotable, hbreak, bne_iff_ne.mpr hne, Bool.and_true]

/-- A line that does not begin like a directive. -/
def Undirected (line : String) : Prop := isDirective (line ++ "\n") = false

theorem isDirective_of_ne {c : Char} {cs : List Char} {line : Diff.Line} (h : line.toList = c :: cs)
    (hc : c ≠ '#') : isDirective line = false := by
  have hhash : "#include".toList = '#' :: "include".toList := by decide
  rw [isDirective, h, hhash, List.isPrefixOf_cons_cons, beq_eq_false_iff_ne.mpr hc.symm, Bool.false_and]

theorem undirected_empty : Undirected "" := by
  have hline : ("" ++ "\n").toList = '\n' :: [] := rfl
  exact isDirective_of_ne hline (by decide)

theorem Undirected.literal {c : Char} {cs : List Char} (hc : c ≠ '#') :
    Undirected (String.ofList (c :: cs)) := by
  have hline : (String.ofList (c :: cs) ++ "\n").toList = c :: (cs ++ "\n".toList) := by
    rw [String.toList_append, String.toList_ofList, List.cons_append]
  exact isDirective_of_ne hline hc

theorem Undirected.before {c : Char} {cs : List Char} (hc : c ≠ '#') (value : String) :
    Undirected (String.ofList (c :: cs) ++ value) := by
  have hline : (String.ofList (c :: cs) ++ value ++ "\n").toList =
      c :: (cs ++ value.toList ++ "\n".toList) := by
    rw [String.toList_append, String.toList_append, String.toList_ofList, List.cons_append,
      List.cons_append]
  exact isDirective_of_ne hline hc

theorem Undirected.within {c : Char} {cs : List Char} (hc : c ≠ '#') (value after : String) :
    Undirected (String.ofList (c :: cs) ++ value ++ after) := by
  rw [String.append_assoc]
  exact .before hc _

theorem MappingRecord.undirected_lines (m : MappingRecord) : ∀ l ∈ m.lines, Undirected l := by
  simp only [lines, List.forall_mem_cons]
  exact ⟨.literal (by decide), .within (by decide) _ _, .within (by decide) _ _,
    .within (by decide) _ _, .within (by decide) _ _, .within (by decide) _ _,
    .literal (by decide), List.forall_mem_nil _⟩

theorem InterfaceRecord.undirected_lines (r : InterfaceRecord) : ∀ l ∈ r.lines, Undirected l := by
  have hfront : ∀ l ∈ r.front, Undirected l := by
    simp only [front, List.forall_mem_cons, String.append_assoc]
    exact ⟨undirected_empty, .before (by decide) _, undirected_empty, List.forall_mem_nil _⟩
  have hback : ∀ l ∈ r.back, Undirected l := by
    simp only [back, List.forall_mem_cons]
    exact ⟨.literal (by decide), undirected_empty, .within (by decide) _ _, .within (by decide) _ _,
      .within (by decide) _ _, .within (by decide) _ _, .within (by decide) _ _,
      .within (by decide) _ _, .within (by decide) _ _, .within (by decide) _ _,
      .within (by decide) _ _, .literal (by decide), List.forall_mem_nil _⟩
  simp only [lines, List.forall_mem_append, List.forall_mem_flatMap]
  exact ⟨hfront, fun m _ => m.undirected_lines, hback⟩

theorem undirected_joinedLines {α : Type} {lines : α → List String}
    (h : ∀ x, ∀ l ∈ lines x, Undirected l) (xs : List α) :
    ∀ l ∈ joinedLines lines xs, Undirected l := by
  cases xs with
  | nil => exact List.forall_mem_singleton.mpr undirected_empty
  | cons x xs =>
    intro l hl
    obtain ⟨y, -, hl⟩ := List.mem_flatMap.mp hl
    exact h y l hl

theorem filter_undirected {ls : List String} (h : ∀ l ∈ ls, Undirected l) :
    (ls.map (· ++ "\n")).filter isDirective = [] := by
  rw [List.filter_eq_nil_iff]
  intro line hline
  obtain ⟨l, hl, rfl⟩ := List.mem_map.mp hline
  rw [h l hl]
  exact Bool.false_ne_true

namespace SourceText

variable {records : List InterfaceRecord} {baseName : String}

/-- The directive that includes the header. -/
def includeLine (baseName : String) : String := "#include \"" ++ baseName ++ ".h\""

/-- A source has no other directive. -/
theorem directives_sourceText (hr : ∀ r ∈ records, r.Clean) (hb : Unbroken baseName) :
    directives (sourceText records baseName) = [includeLine baseName ++ "\n"] := by
  have hbefore : ∀ l ∈ (top baseName).take 7, Undirected l := by
    simp only [top, List.take_succ_cons, List.take_zero, List.forall_mem_cons]
    exact ⟨.literal (by decide), .within (by decide) _ _, .literal (by decide), .literal (by decide),
      .literal (by decide), .literal (by decide), undirected_empty, List.forall_mem_nil _⟩
  have hafter : ∀ l ∈ (top baseName).drop 8 ++ (joinedLines InterfaceRecord.lines records ++ bottom),
      Undirected l := by
    simp only [top, bottom, List.drop_succ_cons, List.drop_zero, List.forall_mem_append,
      List.forall_mem_cons]
    exact ⟨⟨undirected_empty, .literal (by decide), .literal (by decide), List.forall_mem_nil _⟩,
      undirected_joinedLines InterfaceRecord.undirected_lines records,
      undirected_empty, .literal (by decide), List.forall_mem_nil _⟩
  have hlines : lines records baseName = (top baseName).take 7 ++ (includeLine baseName ::
      ((top baseName).drop 8 ++ (joinedLines InterfaceRecord.lines records ++ bottom))) := rfl
  have hdirective : isDirective (includeLine baseName ++ "\n") = true := by
    have hlead : "#include \"".toList = "#include".toList ++ [' ', '"'] := by decide
    rw [isDirective, List.isPrefixOf_iff_prefix, includeLine, String.toList_append,
      String.toList_append, String.toList_append, hlead]
    simp only [List.append_assoc]
    exact List.prefix_append _ _
  rw [directives, splitLines_sourceText hr hb, hlines, List.map_append, List.filter_append,
    filter_undirected hbefore, List.map_cons, List.filter_cons_of_pos hdirective,
    filter_undirected hafter, List.nil_append]

theorem quotedPart?_includeLine (hb : '"' ∉ baseName.toList) :
    quotedPart? (includeLine baseName ++ "\n") = some (ArtifactKind.header.fileName baseName) := by
  have hopen : (includeLine baseName ++ "\n").toList =
      "#include ".toList ++ '"' :: ((baseName ++ ".h").toList ++ '"' :: ['\n']) := by
    simp only [includeLine, String.toList_append, List.append_assoc]
    repeat rw [String.toList_ofList]
    rfl
  have hname : '"' ∉ (baseName ++ ".h").toList := by
    have hext : '"' ∉ ".h".toList := by decide
    rw [String.toList_append, List.mem_append]
    exact not_or.mpr ⟨hb, hext⟩
  have hlead : '"' ∉ "#include ".toList := by decide
  simp only [quotedPart?, hopen, Frame.upTo_append hlead, Frame.upTo_append hname, Option.bind_eq_bind,
    Option.bind_some, String.ofList_toList, ArtifactKind.fileName, String.append_assoc]
  rfl

/-- The one directive names the header, unless a quote or a line break in the base name ends it early. -/
theorem directive_names_header_iff (hr : ∀ r ∈ records, r.Clean) :
    (directives (sourceText records baseName)).map quotedPart? =
        [some (ArtifactKind.header.fileName baseName)] ↔ Only isQuotable baseName := by
  constructor
  · intro h
    have hmem : some (ArtifactKind.header.fileName baseName) ∈
        (directives (sourceText records baseName)).map quotedPart? := by simp [h]
    obtain ⟨line, hline, hquoted⟩ := List.mem_map.mp hmem
    have hisLine := Diff.isLine_of_mem_splitLines (List.mem_filter.mp hline).1
    intro c hc
    refine only_of_quotedPart? hisLine hquoted c ?_
    rw [ArtifactKind.fileName, String.append_assoc, String.toList_append]
    exact List.mem_append_left _ hc
  · intro h
    have hunbroken : Unbroken baseName := h.imp fun c hc => (Bool.and_eq_true_iff.mp hc).2
    have hquote : '"' ∉ baseName.toList := h.not_mem (by decide)
    rw [directives_sourceText hr hunbroken, List.map_singleton, quotedPart?_includeLine hquote]

end SourceText

theorem only_isQuotable_baseName_iff (lead : String) :
    Only isQuotable (baseName lead) ↔ Only isQuotable lead := by
  have hdefault : Only isQuotable defaultBaseName := .literal (by decide)
  refine ⟨fun h c hc => h c ?_, fun h => h.append hdefault⟩
  rw [baseName, String.toList_append]
  exact List.mem_append_left _ hc

/-! ## Runs -/

namespace Workspace

variable {ws : Workspace} {load : LoadOptions}

theorem accepted_of_loadFile {p : Path} {d : Document} (h : ws.loadFile load p = .ok d) :
    d.Accepted := by
  obtain ⟨text, hparse⟩ := exists_text_of_loadFile h
  exact ⟨_, _, _, hparse⟩

theorem accepted_of_loadDirectory {dir : Path} {documents : List Document}
    (h : ws.loadDirectory dir load = .ok documents) : ∀ d ∈ documents, d.Accepted := by
  obtain ⟨files, -, hfiles⟩ := Schema.bind_eq_ok_iff.mp h
  have hloaded := loadFiles_eq_ok_iff.mp hfiles
  clear h hfiles
  induction hloaded with
  | nil => exact List.forall_mem_nil _
  | cons hp _ ih => exact List.forall_mem_cons.mpr ⟨accepted_of_loadFile hp, ih⟩

end Workspace

/-- The records of a run come from documents that were accepted. -/
theorem RunOptions.exists_clean_of_prepare {o : RunOptions} {ws : Workspace} {count : Nat}
    {as : Artifacts} (hp : o.prepare ws = .ok (count, as)) :
    ∃ records, (∀ r ∈ records, r.Clean) ∧ as = render records o.baseName := by
  unfold prepare at hp
  cases hload : ws.loadDirectory o.schemaDir o.load with
  | error e => simp [hload] at hp
  | ok documents =>
    cases hc : compile documents o.baseName with
    | error e => simp [hload, hc] at hp
    | ok artifacts =>
      simp only [hload, hc] at hp
      cases hp
      refine ⟨documents.map Document.record, fun r hr => ?_, eq_render_of_compile hc⟩
      obtain ⟨d, hd, rfl⟩ := List.mem_map.mp hr
      exact (Workspace.accepted_of_loadDirectory hload d hd).clean

/-- The files of a run that writes them are there. The guard of the header is the name of a macro exactly
if the text in front of the base name does not begin with a digit, and the source has one directive, which
names the header, exactly if that text holds neither a double quote nor a line break. -/
theorem RunOptions.guard_and_include_work_iff {o : RunOptions} {ws : Workspace} {r : Report}
    {lead : String} (hb : o.baseName = InterfaceTables.baseName lead) (hm : o.mode = .write)
    (h : (run o ws).result = .ok r) :
    ∃ count as home, o.prepare ws = .ok (count, as) ∧
      as.StayIn o.outputDir ws (run o ws).workspace home ∧
      (Symbol.IsMacroName (Symbol.includeGuard o.baseName) ↔ ¬ Symbol.BeginsWithDigit lead) ∧
      ((directives as.source.contents).map quotedPart? = [some as.header.fileName] ↔
        Only isQuotable lead) := by
  obtain ⟨count, as, hp⟩ := exists_prepare_of_run h
  obtain ⟨hdone, -⟩ := (run_eq_ok_iff hp).mp h
  simp only [emit, hm] at hdone
  obtain ⟨records, hclean, rfl⟩ := exists_clean_of_prepare hp
  obtain ⟨stem, d, staged, hplaces, hafter⟩ := Artifacts.exists_places hdone
  have hstay := hplaces.stayIn
  rw [← hafter, ← workspace_write hm hp] at hstay
  refine ⟨count, _, d, hp, hstay, ?_, ?_⟩
  · rw [hb]
    exact Symbol.isMacroName_includeGuard_baseName_iff lead
  · rw [← only_isQuotable_baseName_iff, ← hb]
    exact SourceText.directive_names_header_iff hclean

/-- Writes into the directory `d`, with a digit and a double quote in front of the base name. -/
def digitAndQuote : RunOptions := ⟨"d", "d", baseName "1\"", .write, ⟨"json", true⟩⟩

theorem write_digitAndQuote (records : List InterfaceRecord) :
    ((render records (baseName "1\"")).write "d" (lonelyDocument "a.json")).result = .ok () := by
  have hready : (lonelyDocument "a.json").ensureDirectory "d" = ⟨.ok (), lonelyDocument "a.json"⟩ := rfl
  have hstaging : (lonelyDocument "a.json").staging "d" = .ok ["d"] :=
    Workspace.staging_of_root rfl rfl rfl rfl
  have hstaging' : ∀ e, ((lonelyDocument "a.json").insert ["1\"generated_interfaces.h", "d"] e).staging
    "d" = .ok ["d"] := fun _ => Workspace.staging_of_root rfl rfl rfl rfl
  obtain ⟨hheader, hsource⟩ := Artifacts.path_render records (baseName "1\"") "d"
  rw [Artifacts.write_of_places hready hstaging (hstaging' _) ⟨hheader, rfl⟩ ⟨hsource, rfl⟩ rfl rfl]

/-- The run succeeds. Its guard begins with the digit, and its directive ends at the quote. -/
theorem digitAndQuote_breaks_both :
    (∃ r, (run digitAndQuote (lonelyDocument "a.json")).result = .ok r) ∧
      ¬ Symbol.IsMacroName (Symbol.includeGuard (baseName "1\"")) ∧
      (directives (sourceText [oneRecord "d/a.json"] (baseName "1\""))).map quotedPart? ≠
        [some (ArtifactKind.header.fileName (baseName "1\""))] := by
  have hp := RunOptions.prepare_lonelyDocument (o := digitAndQuote) rfl rfl
  have hrun : (run digitAndQuote (lonelyDocument "a.json")).result =
      .ok (digitAndQuote.report 1 (render [oneRecord "d/a.json"] (baseName "1\""))) :=
    (run_eq_ok_iff hp).mpr ⟨write_digitAndQuote _, rfl⟩
  obtain ⟨_, _, _, hp', -, hguard, hinclude⟩ := RunOptions.guard_and_include_work_iff rfl rfl hrun
  cases hp.symm.trans hp'
  refine ⟨⟨_, hrun⟩, fun hname => hguard.mp hname ⟨'1', ['"'], by decide, by decide⟩, fun hnames => ?_⟩
  have hquote := hinclude.mp hnames '"' (by decide)
  exact absurd hquote (by decide)

end InterfaceTables
