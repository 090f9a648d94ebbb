import InterfaceTables.Proofs.CompletedDocuments
import InterfaceTables.Proofs.Identifiers
import InterfaceTables.Proofs.WriteAgain

/-!
Two runs on the same contents. What a run generates depends on what is read from its documents in the
order of their names; names, directories and all other entries show in paths of errors only.
-/

namespace InterfaceTables

/-! ## Results that are alike -/

section

variable {ε α β : Type}

/-- Both fail or both succeed, with errors or values that are related. -/
inductive Alike (Errors : ε → ε → Prop) (Values : α → α → Prop) : Except ε α → Except ε α → Prop where
  | error {e e' : ε} (h : Errors e e') : Alike Errors Values (.error e) (.error e')
  | ok {a a' : α} (h : Values a a') : Alike Errors Values (.ok a) (.ok a')

theorem Alike.bind {Errors : ε → ε → Prop} {Values : α → α → Prop} {Results : β → β → Prop}
    {x x' : Except ε α} {next next' : α → Except ε β} (h : Alike Errors Values x x')
    (hnext : ∀ a a', Values a a' → Alike Errors Results (next a) (next' a')) :
    Alike Errors Results (x >>= next) (x' >>= next') := by
  cases h with
  | error he => exact .error he
  | ok ha => exact hnext _ _ ha

end

/-- Errors of two documents that differ in the file only. -/
def SchemaError.SameCause (e e' : SchemaError) : Prop := e.cause = e'.cause

/-- Clashes that differ in the files only. -/
structure Collision.SameNames (c c' : Collision) : Prop where
  symbol : c.symbol = c'.symbol
  first : c.first = c'.first
  second : c.second = c'.second

/-- Errors that differ in paths only. -/
inductive RunError.SameButPaths : RunError → RunError → Prop where
  | schema {e e' : SchemaError} (h : e.SameCause e') : SameButPaths (.schema e) (.schema e')
  | collision {c c' : Collision} (h : c.SameNames c') : SameButPaths (.collision c) (.collision c')

/-! ## One document -/

namespace Schema

theorem bind_map {ε α β γ : Type} {x : Except ε α} {next : α → Except ε β} {change : β → γ} :
    (x >>= next).map change = x >>= fun a => (next a).map change := by
  cases x <;> rfl

/-- The file of a document is nothing that its fields depend on. -/
theorem document_source (applyDefaults : Bool) (source source' : Path) (v : Json) :
    document applyDefaults source' v =
      (document applyDefaults source v).map fun d => { d with source := source' } := by
  unfold document
  simp only [bind_map]
  rfl

end Schema

theorem Document.alike_parse (applyDefaults : Bool) (source source' : Path) (text : String) :
    Alike SchemaError.SameCause Document.Agree (Document.parse applyDefaults source text)
      (Document.parse applyDefaults source' text) := by
  unfold Document.parse
  cases Json.parse text with
  | error e => exact .error rfl
  | ok v =>
    simp only [Schema.document_source applyDefaults source source' v]
    cases Schema.document applyDefaults source v with
    | error cause => exact .error rfl
    | ok d => exact .ok ⟨rfl, rfl, rfl, rfl, rfl, rfl, rfl⟩

namespace Workspace

variable {ws ws' : Workspace} {load load' : LoadOptions} {dir : Path} {extension : String}
  {names : List String}

theorem alike_loadFile {p p' : Path} (hdefaults : load'.applyDefaults = load.applyDefaults)
    (h : ws.readBytes p = ws'.readBytes p') :
    Alike SchemaError.SameCause Document.Agree (ws.loadFile load p) (ws'.loadFile load' p') := by
  have htext : ws.readText p = ws'.readText p' := by simp only [readText, h]
  unfold loadFile
  rw [htext, hdefaults]
  cases ws'.readText p' with
  | error e => exact .error rfl
  | ok text => exact Document.alike_parse load.applyDefaults p p' text

/-- The first file that is no document is at the same position. -/
theorem alike_loadFiles {files files' : List Path}
    (hdefaults : load'.applyDefaults = load.applyDefaults)
    (h : List.Forall₂ (fun p p' => ws.readBytes p = ws'.readBytes p') files files') :
    Alike SchemaError.SameCause (List.Forall₂ Document.Agree) (ws.loadFiles load files)
      (ws'.loadFiles load' files') := by
  induction h with
  | nil => exact .ok .nil
  | cons hread _ ih =>
    exact (alike_loadFile hdefaults hread).bind fun _ _ hd => ih.bind fun _ _ hds => .ok (.cons hd hds)

/-! ## The documents of a directory -/

/-- The names of the documents in a directory, in their order. A file in place of the directory has
none. -/
inductive Sources (ws : Workspace) (dir : Path) (extension : String) : List String → Prop where
  | directory {names : List String} {loc : Location} {mode : Nat}
      (found : ws.stat dir = .ok (loc, .directory mode)) (readable : mayRead mode = true)
      (sorted : names.Pairwise (· < ·))
      (mem_iff : ∀ name, name ∈ names ↔ (∃ e, ws.tree.get? (name :: loc) = some e) ∧
        ws.isFile (dir.join name) = true ∧ Path.extension? name = some extension) :
      Sources ws dir extension names
  | file (h : ws.isFile dir = true) : Sources ws dir extension []

theorem Sources.discover (h : ws.Sources dir extension names) :
    ws.discover dir extension = .ok (names.map dir.join) := by
  cases h with
  | @directory _ loc mode found readable sorted mem_iff =>
    have hlist := list_eq_ok_iff.mpr ⟨mode, found, readable, rfl⟩
    have hnames : (ws.tree.sortedNames loc).filter (fun name =>
        ws.isFile (dir.join name) && Path.extension? name == some extension) = names := by
      have hnodup := (ws.tree.nodup_sortedNames loc).filter fun name =>
        ws.isFile (dir.join name) && Path.extension? name == some extension
      have hsorted : names.Pairwise (· ≤ ·) :=
        sorted.imp fun hlt => String.not_lt.mp (String.lt_asymm hlt)
      refine List.Perm.eq_of_pairwise (fun a b _ _ => String.le_antisymm)
        ((ws.tree.pairwise_sortedNames loc).filter _) hsorted ?_
      rw [List.perm_ext_iff_of_nodup hnodup (sorted.imp fun hlt => String.ne_of_lt hlt)]
      intro name
      rw [List.mem_filter, FileTree.mem_sortedNames_iff, mem_iff]
      simp
    simp only [Workspace.discover, hlist, hnames]
  | file h =>
    obtain ⟨loc, contents, mode, hs⟩ := isFile_iff.mp h
    have hlist : ws.list dir = .error .notDirectory := by simp [list, hs]
    simp only [Workspace.discover, hlist, h, if_true]
    rfl

theorem exists_sources_of_discover {files : List Path} (h : ws.discover dir extension = .ok files) :
    ∃ names, ws.Sources dir extension names ∧ files = names.map dir.join := by
  unfold Workspace.discover at h
  split at h
  case h_1 loc all hlist =>
    obtain ⟨mode, found, readable, rfl⟩ := list_eq_ok_iff.mp hlist
    cases h
    refine ⟨_, .directory found readable ?_ fun name => ?_, rfl⟩
    · exact (ws.tree.pairwise_lt_sortedNames loc).filter _
    · rw [List.mem_filter, FileTree.mem_sortedNames_iff]
      simp
  case h_2 e hlist =>
    split at h
    · cases h
      exact ⟨[], .file (by assumption), rfl⟩
    · cases h

/-- A search finds exactly the documents of a directory, in the order of their names. -/
theorem discover_eq_ok_iff {files : List Path} :
    ws.discover dir extension = .ok files ↔
      ∃ names, ws.Sources dir extension names ∧ files = names.map dir.join := by
  constructor
  · exact exists_sources_of_discover
  · rintro ⟨names, hsources, rfl⟩
    exact hsources.discover

end Workspace

/-! ## The tables of documents that agree -/

section Tables

variable {documents documents' : List Document}

/-- The uses of one identifier by interfaces of the same name. -/
structure SameUse (u u' : String × InterfaceRecord) : Prop where
  symbol : u.1 = u'.1
  name : u.2.name = u'.2.name

theorem Collision.forall₂_uses (h : List.Forall₂ Document.Agree documents documents') :
    List.Forall₂ SameUse (uses (documents.map Document.record))
      (uses (documents'.map Document.record)) := by
  induction h with
  | nil => exact .nil
  | cons hd _ ih =>
    have hsymbol : Symbol.sanitize _ = Symbol.sanitize _ := congrArg Symbol.sanitize hd.name
    exact .cons ⟨hsymbol, hd.name⟩ (.cons ⟨congrArg Symbol.mappings hsymbol, hd.name⟩ ih)

theorem Collision.lookup_of_sameUse {taken taken' : List (String × InterfaceRecord)}
    (h : List.Forall₂ SameUse taken taken') (symbol : String) :
    Option.Rel (fun r r' : InterfaceRecord => r.name = r'.name) (taken.lookup symbol)
      (taken'.lookup symbol) := by
  induction h with
  | nil => exact .none
  | @cons u u' rest rest' hu _ ih =>
    obtain ⟨s, r⟩ := u
    obtain ⟨s', r'⟩ := u'
    obtain rfl : s = s' := hu.symbol
    by_cases hs : symbol = s
    · subst hs
      simpa using Option.Rel.some hu.name
    · have hbeq : (symbol == s) = false := beq_eq_false_iff_ne.mpr hs
      simpa only [List.lookup_cons, hbeq] using ih

/-- The first clash is between interfaces of the same names. -/
theorem Collision.firstClash?_of_sameUse {taken taken' us us' : List (String × InterfaceRecord)}
    (ht : List.Forall₂ SameUse taken taken') (hu : List.Forall₂ SameUse us us') :
    Option.Rel Collision.SameNames (firstClash? taken us) (firstClash? taken' us') := by
  induction hu generalizing taken taken' with
  | nil => exact .none
  | @cons u u' rest rest' hu _ ih =>
    obtain ⟨s, r⟩ := u
    obtain ⟨s', r'⟩ := u'
    obtain rfl : s = s' := hu.symbol
    have hlookup := lookup_of_sameUse ht s
    unfold firstClash?
    generalize taken.lookup s = owner at hlookup
    generalize taken'.lookup s = owner' at hlookup
    cases hlookup with
    | none => exact ih (.cons hu ht)
    | some hname => exact .some ⟨rfl, hname, hu.name⟩

theorem headerText_content (documents : List Document) (baseName : String) :
    headerText ((documents.map Document.content).map Document.record) baseName =
      headerText (documents.map Document.record) baseName := by
  have hdeclaration : ∀ d : Document, d.content.record.declaration = d.record.declaration :=
    fun _ => rfl
  unfold headerText
  simp only [List.map_map, Function.comp_def, hdeclaration]

/-- Generated files do not say where a document was read from. -/
theorem render_of_agree (h : List.Forall₂ Document.Agree documents documents') (baseName : String) :
    render (documents.map Document.record) baseName =
      render (documents'.map Document.record) baseName := by
  have hcontent := map_content_eq_iff.mpr h
  have hheader : headerText (documents.map Document.record) baseName =
      headerText (documents'.map Document.record) baseName := by
    rw [← headerText_content documents, hcontent, headerText_content]
  have hsource : sourceText (documents.map Document.record) baseName =
      sourceText (documents'.map Document.record) baseName := by
    rw [← sourceText_content documents, hcontent, sourceText_content]
  simp only [render, hheader, hsource]

theorem alike_compile (h : List.Forall₂ Document.Agree documents documents') (baseName : String) :
    Alike RunError.SameButPaths Eq (compile documents baseName) (compile documents' baseName) := by
  have hclash : Option.Rel Collision.SameNames (Collision.find? (documents.map Document.record))
      (Collision.find? (documents'.map Document.record)) :=
    Collision.firstClash?_of_sameUse .nil (Collision.forall₂_uses h)
  unfold compile
  dsimp only
  generalize Collision.find? (documents.map Document.record) = clash at hclash
  generalize Collision.find? (documents'.map Document.record) = clash' at hclash
  cases hclash with
  | none => exact .ok (render_of_agree h baseName)
  | some hc => exact .error (.collision hc)

end Tables

/-! ## Whole runs -/

variable {o o' : RunOptions} {ws ws' : Workspace} {names names' : List String}

theorem RunOptions.alike_prepare (hbase : o.baseName = o'.baseName)
    (hload : Alike SchemaError.SameCause (List.Forall₂ Document.Agree)
      (ws.loadDirectory o.schemaDir o.load) (ws'.loadDirectory o'.schemaDir o'.load)) :
    Alike RunError.SameButPaths Eq (o.prepare ws) (o'.prepare ws') := by
  unfold RunOptions.prepare
  generalize ws.loadDirectory o.schemaDir o.load = loaded at hload
  generalize ws'.loadDirectory o'.schemaDir o'.load = loaded' at hload
  cases hload with
  | error he => exact .error (.schema he)
  | @ok documents documents' hd =>
    have hcompile := alike_compile hd o.baseName
    rw [hbase] at hcompile ⊢
    dsimp only
    generalize compile documents o'.baseName = compiled at hcompile
    generalize compile documents' o'.baseName = compiled' at hcompile
    cases hcompile with
    | error he => exact .error he
    | ok has => exact .ok (by rw [hd.length_eq, has])

theorem result_run_of_prepare_error {e : RunError} (h : o.prepare ws = .error e) :
    (run o ws).result = .error e := by
  simp [run, h]

/-- Documents that are read alike, position by position in the order of their names, make two runs fail
before they write or check anything, with errors that differ in paths only, or generate the same. -/
theorem generated_from_contents (hbase : o.baseName = o'.baseName)
    (hdefaults : o.load.applyDefaults = o'.load.applyDefaults)
    (hs : ws.Sources o.schemaDir o.load.extension names)
    (hs' : ws'.Sources o'.schemaDir o'.load.extension names')
    (hread : List.Forall₂ (fun name name' => ws.readBytes (o.schemaDir.join name) =
      ws'.readBytes (o'.schemaDir.join name')) names names') :
    (∃ e e', o.prepare ws = .error e ∧ o'.prepare ws' = .error e' ∧ e.SameButPaths e' ∧
      (run o ws).result = .error e ∧ (run o' ws').result = .error e') ∨
    ∃ count as, o.prepare ws = .ok (count, as) ∧ o'.prepare ws' = .ok (count, as) := by
  have hdiscover := Workspace.discover_eq_ok_iff.mpr ⟨names, hs, rfl⟩
  have hdiscover' := Workspace.discover_eq_ok_iff.mpr ⟨names', hs', rfl⟩
  have hfiles : List.Forall₂ (fun p p' => ws.readBytes p = ws'.readBytes p')
      (names.map o.schemaDir.join) (names'.map o'.schemaDir.join) := by
    rw [List.forall₂_map_left_iff, List.forall₂_map_right_iff]
    exact hread
  have hload : Alike SchemaError.SameCause (List.Forall₂ Document.Agree)
      (ws.loadDirectory o.schemaDir o.load) (ws'.loadDirectory o'.schemaDir o'.load) := by
    unfold Workspace.loadDirectory
    rw [hdiscover, hdiscover']
    exact Workspace.alike_loadFiles hdefaults.symm hfiles
  have hprepare := RunOptions.alike_prepare hbase hload
  generalize hp : o.prepare ws = prepared at hprepare
  generalize hp' : o'.prepare ws' = prepared' at hprepare
  cases hprepare with
  | error he =>
    exact Or.inl ⟨_, _, rfl, rfl, he, result_run_of_prepare_error hp, result_run_of_prepare_error hp'⟩
  | ok has => exact Or.inr ⟨_, _, rfl, by rw [has]⟩

/-! ## Directories with one document -/

/-- A directory with a text in it. -/
def oneFile (dir name text : String) (mode : Nat) : Workspace where
  tree := (FileTree.empty.insert [dir] (.directory directoryMode)).insert [name, dir]
    (.file text.toUTF8 mode)
  workingDir := []

def readingFrom (dir extension : String) : RunOptions := ⟨dir, "o", "t", .write, ⟨extension, true⟩⟩

section OneFile

variable {dir name extension text : String} {mode : Nat}

theorem sources_oneFile
    (hs : (oneFile dir name text mode).stat dir = .ok ([dir], .directory directoryMode))
    (hfile : (oneFile dir name text mode).isFile (Path.join dir name) = true)
    (hext : Path.extension? name = some extension) :
    (oneFile dir name text mode).Sources dir extension [name] := by
  refine .directory hs (by decide) (List.pairwise_singleton _ _) fun other => ?_
  rw [List.mem_singleton]
  constructor
  · rintro rfl
    exact ⟨⟨_, FileTree.get?_insert_self _ _ _ (by simp)⟩, hfile, hext⟩
  · rintro ⟨⟨e, he⟩, _⟩
    by_contra hne
    have hother : other :: [dir] ≠ [name, dir] := fun heq => hne (List.cons.inj heq).1
    have hnone := (FileTree.get?_insert_of_ne
      (FileTree.empty.insert [dir] (.directory directoryMode)) (.file text.toUTF8 mode) hother).trans
      (FileTree.get?_insert_of_ne FileTree.empty _ (by simp))
    cases he.symm.trans hnone

end OneFile

/-- The document with one mapping in a directory of another name, under another name and with another
extension. -/
theorem generated_from_oneMapping :
    ∃ as, (readingFrom "d" "json").prepare
        (oneFile "d" "x.json" (OneMapping.text "n" "/v") fileMode) = .ok (1, as) ∧
      (readingFrom "e" "txt").prepare
        (oneFile "e" "b.txt" (OneMapping.text "n" "/v") 0o444) = .ok (1, as) := by
  have hs : (oneFile "d" "x.json" (OneMapping.text "n" "/v") fileMode).Sources "d" "json" ["x.json"] :=
    sources_oneFile rfl rfl (by decide)
  have hs' : (oneFile "e" "b.txt" (OneMapping.text "n" "/v") 0o444).Sources "e" "txt" ["b.txt"] :=
    sources_oneFile rfl rfl (by decide)
  have hp : (readingFrom "d" "json").prepare (oneFile "d" "x.json" (OneMapping.text "n" "/v") fileMode) =
      .ok (1, render [oneRecord "d/x.json"] "t") :=
    RunOptions.prepare_oneMapping (o := readingFrom "d" "json") hs.discover rfl (by decide) rfl
  have hbase : (readingFrom "d" "json").baseName = (readingFrom "e" "txt").baseName := rfl
  refine ⟨_, hp, ?_⟩
  obtain ⟨e, _, he, _⟩ | ⟨count, as, hok, hok'⟩ :=
    generated_from_contents hbase rfl hs hs' (.cons rfl .nil)
  · cases hp.symm.trans he
  · cases hp.symm.trans hok
    exact hok'

/-- Contents that may not be read are no contents: two empty files fail in different ways if one of them
is unreadable. -/
theorem same_contents_fail_differently :
    ¬ ∀ (o o' : RunOptions) (ws ws' : Workspace) (names names' : List String),
      o.baseName = o'.baseName → o.load.applyDefaults = o'.load.applyDefaults →
      ws.Sources o.schemaDir o.load.extension names →
      ws'.Sources o'.schemaDir o'.load.extension names' →
      List.Forall₂ (fun name name' => ∃ loc loc' contents mode mode',
        ws.stat (o.schemaDir.join name) = .ok (loc, .file contents mode) ∧
          ws'.stat (o'.schemaDir.join name') = .ok (loc', .file contents mode')) names names' →
      (∃ e e', o.prepare ws = .error e ∧ o'.prepare ws' = .error e' ∧ e.SameButPaths e') ∨
      ∃ count as, o.prepare ws = .ok (count, as) ∧ o'.prepare ws' = .ok (count, as) := by
  intro h
  have hs : (oneFile "a" "x.json" "" fileMode).Sources "a" "json" ["x.json"] :=
    sources_oneFile rfl rfl (by decide)
  have hs' : (oneFile "b" "x.json" "" 0).Sources "b" "json" ["x.json"] :=
    sources_oneFile rfl rfl (by decide)
  have hstat : (oneFile "a" "x.json" "" fileMode).stat "a/x.json" =
    .ok (["x.json", "a"], .file "".toUTF8 fileMode) := rfl
  have hstat' : (oneFile "b" "x.json" "" 0).stat "b/x.json" =
    .ok (["x.json", "b"], .file "".toUTF8 0) := rfl
  have hfile : ∃ fault, (oneFile "a" "x.json" "" fileMode).loadFile ⟨"json", true⟩ "a/x.json" =
      .error ⟨"a/x.json", .notJson fault⟩ := by
    unfold Workspace.loadFile
    rw [Workspace.readText_of_stat hstat (by decide)]
    exact ⟨_, rfl⟩
  obtain ⟨fault, hfile⟩ := hfile
  have hp := RunOptions.prepare_of_loadFile_error (o := readingFrom "a" "json") hs.discover hfile
  have hp' := RunOptions.prepare_of_loadFile_error (o := readingFrom "b" "json")
    (e := ⟨"b/x.json", .unreadable .denied⟩) hs'.discover rfl
  obtain ⟨e, e', he, he', hsame⟩ | ⟨count, as, hok, _⟩ :=
    h (readingFrom "a" "json") (readingFrom "b" "json") _ _ _ _ rfl rfl hs hs'
      (.cons ⟨_, _, _, _, _, hstat, hstat'⟩ .nil)
  · cases hp.symm.trans he
    cases hp'.symm.trans he'
    cases hsame with
    | schema hcause => cases hcause
  · cases hp.symm.trans hok

end InterfaceTables
