import InterfaceTables.Proofs.FirstViolation
import InterfaceTables.Proofs.SameContents

/-!
The documents of a directory. They are all loaded, in the order of their files, or the first file that
is no document is the error. Files that come after it have no say.
-/

namespace InterfaceTables

/-! ## One file -/

theorem Document.path_of_parse_error {applyDefaults : Bool} {source : Path} {text : String}
    {e : SchemaError} (h : Document.parse applyDefaults source text = .error e) : e.path = source := by
  cases hv : Json.parse text with
  | error fault =>
    unfold Document.parse at h
    rw [hv] at h
    cases h
    rfl
  | ok v => exact ((Document.parse_eq_error_iff hv).mp h).1

theorem Document.source_of_parse {applyDefaults : Bool} {source : Path} {text : String} {d : Document}
    (h : Document.parse applyDefaults source text = .ok d) : d.source = source := by
  obtain ⟨entries, -, hdescribes⟩ := Document.exists_of_parse h
  exact hdescribes.source

namespace Workspace

variable {ws ws' : Workspace} {dir p : Path} {load : LoadOptions} {files : List Path}
  {d : Document} {e : SchemaError}

theorem exists_text_of_loadFile (h : ws.loadFile load p = .ok d) :
    ∃ text, Document.parse load.applyDefaults p text = .ok d := by
  unfold loadFile at h
  cases htext : ws.readText p with
  | error fault =>
    rw [htext] at h
    cases h
  | ok text =>
    rw [htext] at h
    exact ⟨text, h⟩

theorem source_of_loadFile (h : ws.loadFile load p = .ok d) : d.source = p := by
  obtain ⟨text, hparse⟩ := exists_text_of_loadFile h
  exact Document.source_of_parse hparse

theorem path_of_loadFile_error (h : ws.loadFile load p = .error e) : e.path = p := by
  unfold loadFile at h
  cases htext : ws.readText p with
  | error fault =>
    rw [htext] at h
    cases h
    rfl
  | ok text =>
    rw [htext] at h
    exact Document.path_of_parse_error h

/-! ## One file after the other -/

theorem loadFiles_eq_ok_iff {documents : List Document} :
    ws.loadFiles load files = .ok documents ↔
      List.Forall₂ (fun p d => ws.loadFile load p = .ok d) files documents := by
  induction files generalizing documents with
  | nil =>
    rw [loadFiles, List.forall₂_nil_left_iff]
    simp [eq_comm]
  | cons p files ih =>
    rw [loadFiles, Schema.bind_eq_ok_iff]
    simp only [Schema.bind_eq_ok_iff, Schema.pure_eq_ok_iff, ih]
    rw [List.forall₂_cons_left_iff]
    constructor
    · intro h
      obtain ⟨d, hd, ds, hds, hcons⟩ := h
      exact ⟨d, ds, hd, hds, hcons.symm⟩
    · intro h
      obtain ⟨d, ds, hd, hds, hcons⟩ := h
      exact ⟨d, hd, ds, hds, hcons.symm⟩

/-- Either all files are loaded or some file is no document. -/
theorem exists_loadFiles_iff :
    (∃ documents, ws.loadFiles load files = .ok documents) ↔
      ∀ p ∈ files, ∃ d, ws.loadFile load p = .ok d := by
  simp only [loadFiles_eq_ok_iff]
  induction files with
  | nil => simp
  | cons p files ih =>
    rw [List.forall_mem_cons, ← ih]
    constructor
    · intro h
      obtain ⟨documents, hall⟩ := h
      cases hall with
      | cons hp hrest => exact ⟨⟨_, hp⟩, _, hrest⟩
    · intro h
      obtain ⟨⟨d, hp⟩, documents, hrest⟩ := h
      exact ⟨d :: documents, .cons hp hrest⟩

theorem loadFiles_append_error {done rest : List Path}
    (hdone : ∀ q ∈ done, ∃ d, ws.loadFile load q = .ok d) (hp : ws.loadFile load p = .error e) :
    ws.loadFiles load (done ++ p :: rest) = .error e := by
  induction done with
  | nil =>
    rw [List.nil_append, loadFiles, hp]
    rfl
  | cons q done ih =>
    obtain ⟨d, hq⟩ := hdone q (List.mem_cons_self ..)
    rw [List.cons_append, loadFiles, hq, ih fun r hr => hdone r (List.mem_cons_of_mem q hr)]
    rfl

theorem exists_first_of_loadFiles_error (h : ws.loadFiles load files = .error e) :
    ∃ done p rest, files = done ++ p :: rest ∧ (∀ q ∈ done, ∃ d, ws.loadFile load q = .ok d) ∧
      ws.loadFile load p = .error e := by
  induction files with
  | nil => cases h
  | cons p files ih =>
    rw [loadFiles] at h
    cases hp : ws.loadFile load p with
    | error e' =>
      rw [hp] at h
      cases h
      exact ⟨[], p, files, rfl, by simp, hp⟩
    | ok d =>
      rw [hp] at h
      cases hrest : ws.loadFiles load files with
      | ok ds =>
        rw [hrest] at h
        cases h
      | error e' =>
        rw [hrest] at h
        cases h
        obtain ⟨done, q, rest, rfl, hdone, hq⟩ := ih hrest
        refine ⟨p :: done, q, rest, rfl, ?_, hq⟩
        exact List.forall_mem_cons.mpr ⟨⟨d, hp⟩, hdone⟩

/-! ## Files with other contents -/

/-- Another workspace with the same entries, in which files may have other contents. -/
structure SameButContents (ws ws' : Workspace) : Prop where
  workingDir : ws'.workingDir = ws.workingDir
  entry : ∀ l, ws'.tree.get? l = ws.tree.get? l ∨ ∃ contents contents' mode,
    ws.tree.get? l = some (.file contents mode) ∧ ws'.tree.get? l = some (.file contents' mode)

theorem SameButContents.symm (h : ws.SameButContents ws') : ws'.SameButContents ws where
  workingDir := h.workingDir.symm
  entry l := by
    cases h.entry l with
    | inl hsame => exact Or.inl hsame.symm
    | inr hfile =>
      obtain ⟨contents, contents', mode, hfile, hfile'⟩ := hfile
      exact Or.inr ⟨contents', contents, mode, hfile', hfile⟩

theorem SameButContents.keeps (h : ws.SameButContents ws') : ws.tree.Keeps ws'.tree where
  directory {l _} hdir := by
    obtain hsame | ⟨_, _, _, hfile, _⟩ := h.entry l
    · rw [hsame, hdir]
    · cases hdir.symm.trans hfile
  link {l _} hlink := by
    obtain hsame | ⟨_, _, _, hfile, _⟩ := h.entry l
    · rw [hsame, hlink]
    · cases hlink.symm.trans hfile
  file {l contents mode} hfile := by
    obtain hsame | ⟨_, contents', mode', _, hfile'⟩ := h.entry l
    · exact ⟨contents, mode, by rw [hsame, hfile]⟩
    · exact ⟨contents', mode', hfile'⟩

theorem SameButContents.exists_entry (h : ws.SameButContents ws') {l : Location}
    (he : ∃ e, ws.tree.get? l = some e) : ∃ e, ws'.tree.get? l = some e := by
  obtain hsame | ⟨_, contents', mode, _, hfile'⟩ := h.entry l
  · rwa [hsame]
  · exact ⟨_, hfile'⟩

/-- The same files are found, whatever is in them. -/
theorem SameButContents.sources (h : ws.SameButContents ws') {extension : String} {names : List String}
    (hs : ws.Sources dir extension names) : ws'.Sources dir extension names := by
  have hisFile : ∀ p, ws'.isFile p = true ↔ ws.isFile p = true := fun p =>
    ⟨isFile_of_keeps h.symm.keeps h.symm.workingDir, isFile_of_keeps h.keeps h.workingDir⟩
  cases hs with
  | directory found readable sorted mem_iff =>
    refine .directory (stat_directory_of_keeps h.keeps h.workingDir found) readable sorted ?_
    intro name
    rw [mem_iff, hisFile]
    exact and_congr_left' ⟨h.exists_entry, h.symm.exists_entry⟩
  | file hfile => exact .file ((hisFile dir).mpr hfile)

theorem SameButContents.discover (h : ws.SameButContents ws') {extension : String}
    (hfiles : ws.discover dir extension = .ok files) : ws'.discover dir extension = .ok files := by
  obtain ⟨names, hs, rfl⟩ := exists_sources_of_discover hfiles
  exact (h.sources hs).discover

/-! ## The documents of a directory -/

theorem loadDirectory_of_discover (h : ws.discover dir load.extension = .ok files) :
    ws.loadDirectory dir load = ws.loadFiles load files := by
  unfold loadDirectory
  rw [h]
  rfl

/-- All files of a directory are loaded, or the first that is no document is the error. That error names
the file, and it stays when the files after it change. -/
theorem loadDirectory_all_or_first_error (ws : Workspace) (dir : Path) (load : LoadOptions) :
    (∀ e, ws.discover dir load.extension = .error e → ws.loadDirectory dir load = .error e) ∧
    ∀ files, ws.discover dir load.extension = .ok files →
      ((∃ documents, ws.loadDirectory dir load = .ok documents) ↔
        ∀ p ∈ files, ∃ d, ws.loadFile load p = .ok d) ∧
      (∀ documents, ws.loadDirectory dir load = .ok documents ↔
        List.Forall₂ (fun p d => ws.loadFile load p = .ok d ∧ d.source = p) files documents) ∧
      ∀ e, ws.loadDirectory dir load = .error e →
        ∃ done p rest, files = done ++ p :: rest ∧
          (∀ q ∈ done, ∃ d, ws.loadFile load q = .ok d) ∧ ws.loadFile load p = .error e ∧ e.path = p ∧
          ∀ ws' : Workspace, ws.SameButContents ws' →
            (∀ q ∈ done ++ [p], ws'.readBytes q = ws.readBytes q) →
            ws'.loadDirectory dir load = .error e := by
  refine ⟨fun e he => ?_, fun files hfiles => ⟨?_, fun documents => ?_, fun e he => ?_⟩⟩
  · unfold loadDirectory
    rw [he]
    rfl
  · rw [loadDirectory_of_discover hfiles]
    exact exists_loadFiles_iff
  · rw [loadDirectory_of_discover hfiles, loadFiles_eq_ok_iff]
    constructor
    · intro hall
      exact hall.imp fun p d hd => ⟨hd, source_of_loadFile hd⟩
    · intro hall
      exact hall.imp fun p d hd => hd.1
  · rw [loadDirectory_of_discover hfiles] at he
    obtain ⟨done, p, rest, hsplit, hdone, hp⟩ := exists_first_of_loadFiles_error he
    refine ⟨done, p, rest, hsplit, hdone, hp, path_of_loadFile_error hp, fun ws' hsame hread => ?_⟩
    have hload : ∀ q ∈ done ++ [p], ws'.loadFile load q = ws.loadFile load q :=
      fun q hq => loadFile_congr (hread q hq) load
    rw [loadDirectory_of_discover (hsame.discover hfiles), hsplit]
    apply loadFiles_append_error
    · intro q hq
      rw [hload q (List.mem_append_left _ hq)]
      exact hdone q hq
    · rw [hload p (by simp), hp]

end Workspace

/-- A directory with an empty file and another one after it. -/
def emptyThen (text : String) : Workspace where
  tree := (oneFile "d" "a.json" "" fileMode).tree.insert ["b.json", "d"] (.file text.toUTF8 fileMode)
  workingDir := []

theorem sources_emptyThen (text : String) :
    (emptyThen text).Sources "d" "json" ["a.json", "b.json"] := by
  have hs : (emptyThen text).stat "d" = .ok (["d"], .directory directoryMode) := rfl
  refine .directory hs (by decide) (by decide) fun name => ?_
  constructor
  · intro hmem
    simp only [List.mem_cons, List.not_mem_nil, or_false] at hmem
    obtain rfl | rfl := hmem
    · exact ⟨⟨_, rfl⟩, rfl, by decide⟩
    · exact ⟨⟨_, rfl⟩, rfl, by decide⟩
  · rintro ⟨⟨e, he⟩, -⟩
    by_contra hmem
    simp only [List.mem_cons, List.not_mem_nil, or_false, not_or] at hmem
    have hnone : (emptyThen text).tree.get? [name, "d"] = none := by
      show ((((FileTree.empty.insert ["d"] _).insert ["a.json", "d"] _).insert ["b.json", "d"] _).get?
        [name, "d"]) = none
      rw [FileTree.get?_insert_of_ne _ _ (by simp [hmem]), FileTree.get?_insert_of_ne _ _ (by simp [hmem]),
        FileTree.get?_insert_of_ne _ _ (by simp)]
      rfl
    cases hnone.symm.trans he

theorem sameButContents_emptyThen (text text' : String) :
    (emptyThen text).SameButContents (emptyThen text') where
  workingDir := rfl
  entry l := by
    by_cases hl : l = ["b.json", "d"]
    · subst hl
      exact Or.inr ⟨_, _, _, rfl, rfl⟩
    · refine Or.inl ?_
      show ((oneFile "d" "a.json" "" fileMode).tree.insert ["b.json", "d"] _).get? l =
        ((oneFile "d" "a.json" "" fileMode).tree.insert ["b.json", "d"] _).get? l
      rw [FileTree.get?_insert_of_ne _ _ hl, FileTree.get?_insert_of_ne _ _ hl]

theorem stat_emptyThen (text : String) :
    (emptyThen text).stat "d/a.json" = .ok (["a.json", "d"], .file "".toUTF8 fileMode) := rfl

/-- The empty file is no document, whatever comes after it. -/
theorem loadDirectory_emptyThen :
    ∃ e, (emptyThen "").loadDirectory "d" {} = .error e ∧ e.path = "d/a.json" ∧
      (emptyThen (OneMapping.text "n" "/v")).loadDirectory "d" {} = .error e := by
  obtain ⟨-, hfiles⟩ := Workspace.loadDirectory_all_or_first_error (emptyThen "") "d" {}
  obtain ⟨hall, -, herror⟩ := hfiles _ (sources_emptyThen "").discover
  have hbad : ¬ ∃ d, (emptyThen "").loadFile {} "d/a.json" = .ok d := by
    unfold Workspace.loadFile
    rw [Workspace.readText_of_stat (stat_emptyThen "") (by decide)]
    exact nofun
  cases hload : (emptyThen "").loadDirectory "d" {} with
  | ok documents => exact absurd (hall.mp ⟨documents, hload⟩ "d/a.json" (by decide)) hbad
  | error e =>
    obtain ⟨done, p, rest, hsplit, hdone, -, hpath, hcongr⟩ := herror e hload
    cases done with
    | nil =>
      have hp : p = "d/a.json" := (List.cons.inj hsplit).1.symm
      subst hp
      refine ⟨e, rfl, hpath, hcongr _ (sameButContents_emptyThen _ _) ?_⟩
      intro q hq
      rw [List.nil_append, List.mem_singleton] at hq
      rw [hq, Workspace.readBytes_of_stat (stat_emptyThen _), Workspace.readBytes_of_stat (stat_emptyThen _)]
    | cons q done =>
      have hq : "d/a.json" = q := (List.cons.inj hsplit).1
      exact absurd (hdone q (List.mem_cons_self ..)) (hq ▸ hbad)

end InterfaceTables
