import InterfaceTables.Proofs.RunEffects
import InterfaceTables.Proofs.SameContents

/-!
Runs on a path that is no directory. Where nothing is found, or nothing that could be listed, the run
is refused and changes nothing. A file in place of the directory is taken for one that holds no
documents, and the tables that are written are empty.
-/

namespace InterfaceTables

section

variable {o : RunOptions} {ws : Workspace} {dir : Path}

theorem Workspace.loadDirectory_of_isFile (h : ws.isFile dir = true) (load : LoadOptions) :
    ws.loadDirectory dir load = .ok [] := by
  have hfound : ws.discover dir load.extension = .ok [] := (Workspace.Sources.file h).discover
  unfold Workspace.loadDirectory
  rw [hfound]
  rfl

theorem Workspace.exists_loadDirectory_error (hd : ws.isDirectory dir = false)
    (hf : ws.isFile dir = false) (load : LoadOptions) :
    ∃ e, ws.loadDirectory dir load = .error ⟨dir, .unlistable e⟩ := by
  have hlist : ∃ e, ws.list dir = .error e := by
    unfold Workspace.list
    unfold Workspace.isDirectory at hd
    split
    case h_1 e _ => exact ⟨e, rfl⟩
    case h_2 hs => simp [hs] at hd
    case h_3 => exact ⟨_, rfl⟩
  obtain ⟨e, he⟩ := hlist
  refine ⟨e, ?_⟩
  unfold Workspace.loadDirectory Workspace.discover
  simp only [he, hf]
  rfl

theorem RunOptions.prepare_of_isFile (h : ws.isFile o.schemaDir = true) :
    o.prepare ws = .ok (0, render [] o.baseName) :=
  RunOptions.prepare_of_load (Workspace.loadDirectory_of_isFile h o.load) rfl

theorem RunOptions.prepare_of_loadDirectory_error {e : SchemaError}
    (h : ws.loadDirectory o.schemaDir o.load = .error e) : o.prepare ws = .error (.schema e) := by
  simp [RunOptions.prepare, h]

/-- A path that is no directory is refused exactly if it is no file either. A run that is refused
fails in both modes and changes nothing. A run on a file writes or checks tables that are empty. -/
theorem RunOptions.not_directory_refused_iff (h : ws.isDirectory o.schemaDir = false) :
    ((∃ e, ws.loadDirectory o.schemaDir o.load = .error ⟨o.schemaDir, .unlistable e⟩) ↔
      ws.isFile o.schemaDir = false) ∧
    (ws.isFile o.schemaDir = false →
      (∃ e, (run o ws).result = .error (.schema ⟨o.schemaDir, .unlistable e⟩)) ∧
        (run o ws).workspace = ws) ∧
    (ws.isFile o.schemaDir = true →
      ws.loadDirectory o.schemaDir o.load = .ok [] ∧
        (run o ws).workspace = (o.emit (render [] o.baseName) ws).workspace ∧
        ∀ r, (run o ws).result = .ok r ↔
          (o.emit (render [] o.baseName) ws).result = .ok () ∧
            r = o.report 0 (render [] o.baseName)) := by
  refine ⟨⟨?_, fun hf => Workspace.exists_loadDirectory_error h hf o.load⟩, ?_, ?_⟩
  · rintro ⟨e, he⟩
    by_contra hf
    rw [Bool.not_eq_false] at hf
    rw [Workspace.loadDirectory_of_isFile hf] at he
    cases he
  · intro hf
    obtain ⟨e, he⟩ := Workspace.exists_loadDirectory_error h hf o.load
    have hp := RunOptions.prepare_of_loadDirectory_error he
    exact ⟨⟨e, result_run_of_prepare_error hp⟩, RunOptions.workspace_run_of_prepare_error hp⟩
  · intro hf
    have hp := RunOptions.prepare_of_isFile hf
    exact ⟨Workspace.loadDirectory_of_isFile hf o.load, workspace_run hp, fun r => run_eq_ok_iff hp⟩

end

/-- A file `d` beside a directory `o` with an old header. -/
def fileBesideHeader : Workspace where
  tree := (oldHeader fileMode).tree.insert ["d"] (.file ⟨#[]⟩ fileMode)
  workingDir := []

/-- Reads from `d` and writes to `o`. -/
def fromFile : RunOptions := ⟨"d", "o", "t", .write, {}⟩

/-- The file is taken for an empty directory, and the old header is replaced by an empty one. -/
theorem fromFile_replaces_header :
    fileBesideHeader.isDirectory "d" = false ∧ fileBesideHeader.isFile "d" = true ∧
      fileBesideHeader.loadDirectory "d" fromFile.load = .ok [] ∧
      (run fromFile fileBesideHeader).result = .ok (fromFile.report 0 (render [] "t")) ∧
      fileBesideHeader.tree.get? ["t.h", "o"] = some (.file ⟨#[255]⟩ fileMode) ∧
      (run fromFile fileBesideHeader).workspace.tree.get? ["t.h", "o"] =
        some (.file (render [] "t").header.bytes fileMode) := by
  have hdir : fileBesideHeader.isDirectory fromFile.schemaDir = false := rfl
  have hfile : fileBesideHeader.isFile fromFile.schemaDir = true := rfl
  obtain ⟨-, -, hempty⟩ := RunOptions.not_directory_refused_iff hdir
  obtain ⟨hload, hworkspace, hresult⟩ := hempty hfile
  exact ⟨hdir, hfile, hload, (hresult _).mpr ⟨rfl, rfl⟩, rfl, by rw [hworkspace]; rfl⟩

end InterfaceTables
