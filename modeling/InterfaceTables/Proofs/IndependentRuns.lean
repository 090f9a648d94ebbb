import InterfaceTables.Command.Sweep
import InterfaceTables.Proofs.DirectorySearch
import InterfaceTables.Proofs.SavedSettings

/-!
Runs over the directories of a tree, one after the other. Each ends as if it were the only one, whatever
came of those before, and in the end every directory holds what a run of its own would have left there.
-/

namespace InterfaceTables

/-! ## Settings beside generated files -/

/-- A path that ends in a name which no generated file has. -/
def Path.Beside (stem : String) (p : Path) : Prop :=
  ∃ leaf, p.EndsIn leaf ∧ ∀ k : ArtifactKind, leaf ≠ k.fileName stem

theorem Path.beside_of_getLast? {p : Path} {leaf : String} {c : Char} (h : p.steps.getLast? = some leaf)
    (hlast : leaf.toList.getLast? = some c) (hdot : c ≠ '.') (hh : c ≠ 'h') (hc : c ≠ 'c')
    (stem : String) : p.Beside stem := by
  have hne : ∀ other : String, other.toList.getLast? ≠ some c → leaf ≠ other := by
    rintro other hother rfl
    exact hother hlast
  refine ⟨leaf, ⟨⟨hne _ (by simp), hne _ ?_, hne _ ?_, ?_⟩, h⟩, fun k => hne _ ?_⟩
  · exact fun he => hdot (Option.some.inj he).symm
  · exact fun he => hdot (Option.some.inj he).symm
  · exact no_slash_of_mem_steps (List.mem_of_getLast? h)
  · rw [ArtifactKind.getLast?_fileName]
    cases k with
    | header => exact fun he => hh (Option.some.inj he).symm
    | source => exact fun he => hc (Option.some.inj he).symm

namespace Workspace

variable {ws ws' : Workspace} {stem : String} {places : Location → Prop} {p name : Path} {leaf : String}

theorem Generates.stat_iff_of_beside {l : Location} {e : Entry} (h : ws.Generates stem places ws')
    (hl : ws.tree.LinkFree) (hp : p.Beside stem) : ws'.stat p = .ok (l, e) ↔ ws.stat p = .ok (l, e) := by
  obtain ⟨leaf, hends, hleaf⟩ := hp
  exact h.stat_iff hl hends hleaf

theorem Generates.isFile_eq (h : ws.Generates stem places ws') (hl : ws.tree.LinkFree)
    (hp : p.Beside stem) : ws'.isFile p = ws.isFile p := by
  rw [Bool.eq_iff_iff, isFile_iff, isFile_iff]
  simp only [h.stat_iff_of_beside hl hp]

/-- The layer of a file with settings is the same as before. -/
theorem Generates.fileLayer (h : ws.Generates stem places ws') (hl : ws.tree.LinkFree)
    (hname : name.steps.getLast? = some leaf) (hlast : leaf.toList.getLast? = some 'l')
    (required : Bool) : ws'.fileLayer required name = ws.fileLayer required name := by
  have hpath := Path.getLast?_steps_join ws.workingPath hname
  have hidle : Path.isIdle leaf = false := by
    rw [Path.isIdle, Bool.or_eq_false_iff, beq_eq_false_iff_ne, beq_eq_false_iff_ne]
    constructor <;> (rintro rfl; cases hlast)
  have hbeside := Path.beside_of_getLast? hpath hlast (by decide) (by decide) (by decide) stem
  have hlonger : ∀ format : Setting.Format,
      (appendExtension (ws.workingPath.join name) format.extension).Beside stem := by
    intro format
    have hslash : '/' ∉ ("." ++ format.extension).toList := by cases format <;> decide
    have hend : ∀ c, ("." ++ format.extension).toList.getLast? = some c →
        (leaf ++ ("." ++ format.extension)).toList.getLast? = some c := by
      intro c hc
      rw [String.toList_append, List.getLast?_append, hc, Option.some_or]
    rw [appendExtension_eq hpath hidle]
    have hsteps := Path.getLast?_steps_append hpath hslash
    cases format with
    | toml => exact Path.beside_of_getLast? hsteps (hend 'l' rfl) (by decide) (by decide) (by decide) stem
    | json => exact Path.beside_of_getLast? hsteps (hend 'n' rfl) (by decide) (by decide) (by decide) stem
  have hfind : ws'.findSettings name = ws.findSettings name := by
    unfold findSettings
    rw [workingPath_congr h.workingDir]
    simp only [h.isFile_eq hl hbeside, h.isFile_eq hl (hlonger _)]
  unfold Workspace.fileLayer readSettings
  rw [hfind]
  cases hfound : ws.findSettings name with
  | error e => rfl
  | ok found =>
    obtain ⟨path, format⟩ := found
    have hread : ws'.readText path = ws.readText path := by
      obtain ⟨hfile, hcases⟩ := findSettings_cases hfound
      obtain ⟨l, contents, mode, hs⟩ := isFile_iff.mp hfile
      have hpath : path.Beside stem := by
        obtain ⟨rfl, _⟩ | ⟨_, _, rfl⟩ := hcases
        · exact hbeside
        · exact hlonger format
      exact readText_congr (((h.stat_iff_of_beside hl hpath).mpr hs).trans hs.symm)
    simp only [hread, relativePath_congr h.workingDir]

end Workspace

namespace Settings

variable {ws ws' : Workspace} {stem : String} {places : Location → Prop}

theorem overlayFiles_congr {files : List (Path × Bool)}
    (h : ∀ file ∈ files, ws'.fileLayer file.2 file.1 = ws.fileLayer file.2 file.1) (fields : Setting.Fields) :
    overlayFiles ws' fields files = overlayFiles ws fields files := by
  induction files generalizing fields with
  | nil => rfl
  | cons file files ih =>
    obtain ⟨path, required⟩ := file
    have hlayer : ws'.fileLayer required path = ws.fileLayer required path :=
      h (path, required) List.mem_cons_self
    rw [overlayFiles_cons, overlayFiles_cons, hlayer]
    cases ws.fileLayer required path with
    | error e => rfl
    | ok layer => exact ih (fun file hmem => h file (List.mem_cons_of_mem _ hmem)) _

theorem exists_leaf_of_mem_files {env : Environment} {file : Path × Bool} (h : file ∈ files ws env none) :
    ∃ leaf, file.1.steps.getLast? = some leaf ∧ leaf.toList.getLast? = some 'l' := by
  obtain ⟨_, hlocal | huser⟩ := mem_files_iff.mp h
  · have hall : ∀ path ∈ localFiles, ∃ leaf ∈ ["interfaces.toml", ".interfaces.toml"],
        path.steps.getLast? = some leaf ∧ leaf.toList.getLast? = some 'l' := by decide
    obtain ⟨leaf, _, hleaf⟩ := hall file.1 hlocal
    exact ⟨leaf, hleaf⟩
  · exact ⟨_, getLast?_userFile? huser, rfl⟩

/-- No generated file holds settings. -/
theorem effective_of_generates (h : ws.Generates stem places ws') (hl : ws.tree.LinkFree)
    (env : Environment) : effective ws' env none = effective ws env none := by
  have huser : userFile? ws' env = userFile? ws env := by
    ext file
    rw [userFile?_eq_some_iff, userFile?_eq_some_iff]
    refine and_congr_right fun ⟨dir, _, hfile⟩ => ?_
    have hlast : file.steps.getLast? = some "interfaces.toml" :=
      hfile ▸ Path.getLast?_steps_join _ rfl
    have hbeside := Path.beside_of_getLast? (c := 'l') hlast rfl (by decide) (by decide) (by decide) stem
    exact exists_congr fun found => h.stat_iff_of_beside hl hbeside
  have hfiles : files ws' env none = files ws env none := by
    rw [files, files, huser]
  have hlayers : ∀ file ∈ files ws env none,
      ws'.fileLayer file.2 file.1 = ws.fileLayer file.2 file.1 := by
    intro file hmem
    obtain ⟨leaf, hleaf, hlast⟩ := exists_leaf_of_mem_files hmem
    exact h.fileLayer hl hleaf hlast file.2
  unfold effective
  rw [hfiles, overlayFiles_congr hlayers]

end Settings

/-! ## One run after the other -/

namespace Command.Sweep

variable {s : Settings} {mode : Mode} {dirs : List Path} {ws ws' : Workspace}

/-- The results of runs over directories, where each finds what those before it left. -/
def runs (s : Settings) (mode : Mode) : List Path → Workspace → List (Path × Except RunError Report)
  | [], _ => []
  | dir :: rest, ws =>
    let o := run (directoryOptions s mode dir) ws
    (dir, o.result) :: runs s mode rest o.workspace

/-- The tree that runs over directories leave. -/
def swept (s : Settings) (mode : Mode) : List Path → Workspace → Workspace
  | [], ws => ws
  | dir :: rest, ws => swept s mode rest (run (directoryOptions s mode dir) ws).workspace

/-- What is printed about a run. -/
def outputText : Path × Except RunError Report → String
  | (dir, .ok r) => successLine (dir ++ " (" ++ toString r.interfaceCount ++ " interface(s))")
  | (_, .error _) => ""

/-- What is printed about a run that failed. -/
def errorsText : Path × Except RunError Report → String
  | (_, .ok _) => ""
  | (dir, .error e) => failureLine (dir ++ ": " ++ e.message) ++ diffText e

def failures (results : List (Path × Except RunError Report)) : Nat :=
  results.countP fun x => !x.2.isOk

/-- What is printed about all failures. -/
def failuresText (failures count : Nat) : String :=
  if failures = 0 then ""
  else "Error: " ++ toString failures ++ " of " ++ toString count ++ " interfaces directories failed\n"

theorem failures_cons (x : Path × Except RunError Report)
    (results : List (Path × Except RunError Report)) :
    failures (x :: results) = (if x.2.isOk then 0 else 1) + failures results := by
  rw [failures, List.countP_cons, failures, Nat.add_comm]
  cases x.2.isOk <;> rfl

/-- One run more. -/
theorem add_eq (t : Tally) (s : Settings) (mode : Mode) (dir : Path) :
    t.add s mode dir =
      ⟨(run (directoryOptions s mode dir) t.workspace).workspace,
        t.failures + (if (run (directoryOptions s mode dir) t.workspace).result.isOk then 0 else 1),
        t.output ++ outputText (dir, (run (directoryOptions s mode dir) t.workspace).result),
        t.errors ++ errorsText (dir, (run (directoryOptions s mode dir) t.workspace).result)⟩ := by
  unfold Tally.add
  generalize run (directoryOptions s mode dir) t.workspace = o
  obtain ⟨result, workspace, log⟩ := o
  cases result with
  | ok r =>
    rw [outputText, errorsText, String.append_empty]
    rfl
  | error e =>
    rw [outputText, errorsText, String.append_empty, ← String.append_assoc]
    rfl

theorem addAll_eq (t : Tally) (s : Settings) (mode : Mode) (dirs : List Path) :
    t.addAll s mode dirs =
      ⟨swept s mode dirs t.workspace, t.failures + failures (runs s mode dirs t.workspace),
        t.output ++ String.join ((runs s mode dirs t.workspace).map outputText),
        t.errors ++ String.join ((runs s mode dirs t.workspace).map errorsText)⟩ := by
  induction dirs generalizing t with
  | nil =>
    show t = ⟨t.workspace, t.failures, t.output ++ "", t.errors ++ ""⟩
    rw [String.append_empty, String.append_empty]
  | cons dir dirs ih =>
    show (t.add s mode dir).addAll s mode dirs = _
    rw [ih, add_eq]
    simp only [runs, swept, List.map_cons, String.join_cons, failures_cons, String.append_assoc,
      Nat.add_assoc]

theorem sweepDirectories_eq (s : Settings) (mode : Mode) (dirs : List Path) (ws : Workspace) :
    sweepDirectories s mode dirs ws =
      ⟨if failures (runs s mode dirs ws) = 0 then 0 else 1,
        String.join ((runs s mode dirs ws).map outputText),
        String.join ((runs s mode dirs ws).map errorsText) ++
          failuresText (failures (runs s mode dirs ws)) dirs.length,
        swept s mode dirs ws⟩ := by
  rw [sweepDirectories, addAll_eq, Tally.effect]
  simp only [Nat.zero_add, String.empty_append, failuresText]
  split <;> simp [String.append_assoc]

theorem failures_eq_zero_iff {results : Path → Except RunError Report} :
    failures (dirs.map fun dir => (dir, results dir)) = 0 ↔ ∀ dir ∈ dirs, ∃ r, results dir = .ok r := by
  have hok : ∀ {x : Except RunError Report}, x.isOk = true ↔ ∃ r, x = .ok r := by
    intro x
    cases x <;> simp [Except.toBool]
  simp [failures, List.countP_eq_zero, hok]

/-! ## Directories apart -/

/-- The run over a directory alone. -/
def alone (s : Settings) (ws : Workspace) (dir : Path) : Outcome Report :=
  run (directoryOptions s .write dir) ws

/-- Where directories are. -/
def PlaceOf (ws : Workspace) (dirs : List Path) (l : Location) : Prop :=
  ∃ dir ∈ dirs, ∃ m, ws.stat dir = .ok (l, .directory m)

theorem PlaceOf.isDirectory {l : Location} (h : PlaceOf ws dirs l) : ws.tree.IsDirectory l := by
  obtain ⟨dir, _, m, hs⟩ := h
  exact ⟨m, (Workspace.entry_eq_ok_iff.mp hs).2⟩

theorem no_slash_baseName (h : '/' ∉ s.lead.toList) : '/' ∉ s.baseName.toList := by
  rw [Settings.baseName, InterfaceTables.baseName, String.toList_append, List.mem_append]
  exact not_or.mpr ⟨h, by decide⟩

/-- What runs over directories make of a tree in which other directories were run over before. -/
structure Apart (s : Settings) (dirs : List Path) (ws ws' : Workspace) : Prop where
  results : runs s .write dirs ws' = dirs.map fun dir => (dir, (alone s ws dir).result)
  generates : ws'.Generates s.baseName (PlaceOf ws dirs) (swept s .write dirs ws')
  entries : ∀ dir ∈ dirs, ∀ l m, ws.stat dir = .ok (l, .directory m) → ∀ k : ArtifactKind,
    (swept s .write dirs ws').tree.get? (k.fileName s.baseName :: l) =
      (alone s ws dir).workspace.tree.get? (k.fileName s.baseName :: l)

/-- By induction over the directories: a run over the first adds its place to those that are done, and
the others are elsewhere. -/
theorem apart_of_generates {done : Location → Prop} (hl : ws.tree.LinkFree) (hw : ws.tree.WellFormed)
    (hstem : '/' ∉ s.baseName.toList) (hh : s.extension ≠ "h") (hc : s.extension ≠ "c")
    (h : ws.Generates s.baseName done ws') (hdone : ∀ l, done l → ws.tree.IsDirectory l)
    (hdirs : ws.Spread s.extension (fun l => ¬ done l) dirs) : Apart s dirs ws ws' := by
  induction dirs generalizing ws' done with
  | nil => exact ⟨rfl, .refl .., fun dir hdir => (List.not_mem_nil hdir).elim⟩
  | cons dir dirs ih =>
    obtain ⟨l, m, hs, hl'⟩ := hdirs.place dir List.mem_cons_self
    obtain ⟨files, hfound⟩ := hdirs.found dir List.mem_cons_self
    have hw' := h.wellFormed hw hstem hdone
    obtain ⟨hresult, hentries⟩ := RunOptions.run_of_generates (o := directoryOptions s .write dir) h hl hw
      hw' hh hc hfound rfl hs hl' hstem
    have hstep := RunOptions.generates_run (o := directoryOptions s .write dir) (h.linkFree hl) rfl
      ((h.stat_directory_iff hl).mpr hs) hstem
    have hnext : ws.Generates s.baseName (fun x => done x ∨ x = l)
        (run (directoryOptions s .write dir) ws').workspace :=
      (h.mono fun x hx => Or.inl hx).trans (hstep.mono fun x hx => Or.inr hx)
    have hnextDone : ∀ x, done x ∨ x = l → ws.tree.IsDirectory x := by
      rintro x (hx | rfl)
      · exact hdone x hx
      · exact ⟨m, (Workspace.entry_eq_ok_iff.mp hs).2⟩
    have hrest := ih hnext hnextDone ((hdirs.tail hs).mono fun x hx => not_or.mpr hx)
    have hnot : ¬ PlaceOf ws dirs l := by
      rintro ⟨dir', hdir', m', hs'⟩
      obtain ⟨l', _, hs'', _, hne⟩ := (hdirs.tail hs).place dir' hdir'
      cases hs'.symm.trans hs''
      exact hne rfl
    refine ⟨?_, ?_, ?_⟩
    · rw [runs, hresult, hrest.results, List.map_cons, alone]
    · refine (hstep.mono fun x hx => ?_).trans (hrest.generates.mono fun x hx => ?_)
      · exact ⟨dir, List.mem_cons_self, m, hx ▸ hs⟩
      · obtain ⟨dir', hdir', m', hs'⟩ := hx
        exact ⟨dir', List.mem_cons_of_mem dir hdir', m', hs'⟩
    · intro dir' hdir' l' m' hs' k
      cases hdir' with
      | head =>
        cases hs'.symm.trans hs
        exact (hrest.generates.get?_of_not_mem hnot _).trans (hentries k)
      | tail _ hdir' => exact hrest.entries dir' hdir' l' m' hs' k

theorem apart_of_found {root : Path} (hl : ws.tree.LinkFree) (hw : ws.tree.WellFormed)
    (hstem : '/' ∉ s.baseName.toList) (hh : s.extension ≠ "h") (hc : s.extension ≠ "c")
    (hd : ws.interfaceDirectories s.extension root = .ok dirs) : Apart s dirs ws ws :=
  apart_of_generates hl hw hstem hh hc (.refl s.baseName (fun _ => False) ws) (fun _ => False.elim)
    ((Workspace.spread_interfaceDirectories hl hw hd).mono fun _ _ => not_false)

/-- Checks leave the tree as it is. -/
theorem runs_check (s : Settings) (dirs : List Path) (ws : Workspace) :
    runs s .check dirs ws = dirs.map fun dir => (dir, (run (directoryOptions s .check dir) ws).result) := by
  induction dirs with
  | nil => rfl
  | cons dir dirs ih =>
    have hsame : (run (directoryOptions s .check dir) ws).workspace = ws :=
      RunOptions.workspace_run_of_check rfl
    rw [runs, hsame, ih, List.map_cons]

/-! ## The whole command -/

section Performing

variable {env : Environment} {root : Path}

theorem perform_of_found (hs : Settings.effective ws env none = .ok s)
    (hd : ws.interfaceDirectories s.extension root = .ok dirs) (hne : dirs ≠ []) :
    perform mode root env ws = sweepDirectories s mode dirs ws := by
  unfold perform
  rw [hs]
  dsimp only
  rw [hd]
  cases dirs with
  | nil => exact absurd rfl hne
  | cons dir dirs => rfl

theorem perform_of_none (hs : Settings.effective ws env none = .ok s)
    (hd : ws.interfaceDirectories s.extension root = .ok []) :
    perform mode root env ws = .print ws ("💡 No `interfaces` directories under " ++ root ++ "\n") := by
  unfold perform
  rw [hs]
  dsimp only
  rw [hd]
  rfl

theorem exitCode_perform_iff (hs : Settings.effective ws env none = .ok s)
    (hd : ws.interfaceDirectories s.extension root = .ok dirs) :
    (perform mode root env ws).exitCode = 0 ↔ failures (runs s mode dirs ws) = 0 := by
  by_cases hne : dirs = []
  · subst hne
    rw [perform_of_none hs hd]
    exact iff_of_true rfl rfl
  · rw [perform_of_found hs hd hne, sweepDirectories_eq]
    simp

theorem workspace_perform (hs : Settings.effective ws env none = .ok s)
    (hd : ws.interfaceDirectories s.extension root = .ok dirs) :
    (perform mode root env ws).workspace = swept s mode dirs ws := by
  by_cases hne : dirs = []
  · subst hne
    rw [perform_of_none hs hd]
    rfl
  · rw [perform_of_found hs hd hne, sweepDirectories_eq]

theorem errors_perform (hs : Settings.effective ws env none = .ok s)
    (hd : ws.interfaceDirectories s.extension root = .ok dirs) :
    (perform mode root env ws).errors = String.join ((runs s mode dirs ws).map errorsText) ++
      failuresText (failures (runs s mode dirs ws)) dirs.length := by
  by_cases hne : dirs = []
  · subst hne
    rw [perform_of_none hs hd]
    rfl
  · rw [perform_of_found hs hd hne, sweepDirectories_eq]

end Performing

/-- What a command that writes leaves behind: every directory is run over once, in order, and all that
comes of a run is what comes of it alone. -/
structure Independent (s : Settings) (dirs : List Path) (ws : Workspace) (effect : Effect) : Prop where
  once : (dirs.map ws.stat).Nodup
  results : runs s .write dirs ws = dirs.map fun dir => (dir, (alone s ws dir).result)
  workspace : effect.workspace = swept s .write dirs ws
  artifacts : ∀ dir ∈ dirs, ∀ k : ArtifactKind,
    effect.workspace.holding (dir.join (k.fileName s.baseName)) =
      (alone s ws dir).workspace.holding (dir.join (k.fileName s.baseName))
  exit : effect.exitCode = 0 ↔ ∀ dir ∈ dirs, ∃ r, (alone s ws dir).result = .ok r
  output : dirs ≠ [] →
    effect.output = String.join (dirs.map fun dir => outputText (dir, (alone s ws dir).result))
  errors : effect.errors =
    String.join (dirs.map fun dir => errorsText (dir, (alone s ws dir).result)) ++
      failuresText (dirs.countP fun dir => !(alone s ws dir).result.isOk) dirs.length

theorem independent_perform {env : Environment} {root : Path} (hl : ws.tree.LinkFree)
    (hstem : '/' ∉ s.baseName.toList) (hs : Settings.effective ws env none = .ok s)
    (hd : ws.interfaceDirectories s.extension root = .ok dirs)
    (hdirs : ws.Spread s.extension (fun _ => True) dirs) (h : Apart s dirs ws ws) :
    Independent s dirs ws (perform .write root env ws) where
  once := hdirs.nodup
  results := h.results
  workspace := workspace_perform hs hd
  artifacts dir hdir k := by
    obtain ⟨l, m, hstat, _⟩ := hdirs.place dir hdir
    have halone := RunOptions.generates_run (o := directoryOptions s .write dir) hl rfl hstat hstem
    rw [workspace_perform hs hd]
    exact Workspace.holding_join_congr (halone.linkFree hl) (h.generates.linkFree hl)
      ((halone.stat_directory_iff hl).mpr hstat) ((h.generates.stat_directory_iff hl).mpr hstat)
      (ArtifactKind.isEntryName_fileName hstem k) (h.entries dir hdir l m hstat k)
  exit := by
    rw [exitCode_perform_iff hs hd, h.results]
    exact failures_eq_zero_iff
  output hne := by
    rw [perform_of_found hs hd hne, sweepDirectories_eq, h.results, List.map_map]
    rfl
  errors := by
    rw [errors_perform hs hd, h.results, failures, List.map_map, List.countP_map]
    rfl

/-- After all directories were written, a check agrees if all files may be read. -/
theorem exitCode_check_iff {env : Environment} {root : Path} (hl : ws.tree.LinkFree)
    (hw : ws.tree.WellFormed) (hstem : '/' ∉ s.baseName.toList) (hh : s.extension ≠ "h")
    (hc : s.extension ≠ "c") (hs : Settings.effective ws env none = .ok s)
    (hd : ws.interfaceDirectories s.extension root = .ok dirs)
    (hdirs : ws.Spread s.extension (fun _ => True) dirs) (h : Apart s dirs ws ws)
    (hok : ∀ dir ∈ dirs, ∃ r, (alone s ws dir).result = .ok r) :
    (perform .check root env (swept s .write dirs ws)).exitCode = 0 ↔
      ∀ dir ∈ dirs, ∀ (k : ArtifactKind) (contents : ByteArray) (mode : Nat),
        ws.holding (dir.join (k.fileName s.baseName)) = some (.file contents mode) →
          mayRead mode = true := by
  have hw' := h.generates.wellFormed hw hstem fun l => PlaceOf.isDirectory
  have hs' := (Settings.effective_of_generates h.generates hl env).trans hs
  have hd' := h.generates.interfaceDirectories hl hw hw' hh hc hd
  rw [exitCode_perform_iff hs' hd', runs_check, failures_eq_zero_iff]
  refine forall₂_congr fun dir hdir => ?_
  obtain ⟨l, m, hstat, _⟩ := hdirs.place dir hdir
  obtain ⟨r, hr⟩ := hok dir hdir
  exact RunOptions.check_run_of_generates (o := directoryOptions s .write dir) h.generates hl hw hw' hh hc
    rfl hstat hstem hr (h.entries dir hdir l m hstat)

/-- A command that writes runs over the directories it finds independently of each other. If it ends
well, then a check does so too, unless a file that may not be read stood in the place of one. -/
theorem sweep_runs_independently {env : Environment} {root : Path} {arguments checking : List String}
    (hw : ws.tree.WellFormed) (hl : ws.tree.LinkFree)
    (hs : Settings.effective ws env none = .ok s) (hlead : '/' ∉ s.lead.toList)
    (hh : s.extension ≠ "h") (hc : s.extension ≠ "c")
    (hd : ws.interfaceDirectories s.extension root = .ok dirs)
    (hwriting : Request.read arguments = .sweep .write root)
    (hchecking : Request.read checking = .sweep .check root) :
    Independent s dirs ws (sweep arguments env ws) ∧
      ((sweep arguments env ws).exitCode = 0 →
        ((sweep checking env (sweep arguments env ws).workspace).exitCode = 0 ↔
          ∀ dir ∈ dirs, ∀ (k : ArtifactKind) (contents : ByteArray) (mode : Nat),
            ws.holding (dir.join (k.fileName s.baseName)) = some (.file contents mode) →
              mayRead mode = true)) := by
  have hstem := no_slash_baseName hlead
  have hdirs := Workspace.spread_interfaceDirectories hl hw hd
  have hapart := apart_of_found hl hw hstem hh hc hd
  have hwrite : sweep arguments env ws = perform .write root env ws := by rw [sweep, hwriting]
  have hcheck : ∀ ws', sweep checking env ws' = perform .check root env ws' := by
    intro ws'
    rw [sweep, hchecking]
  have hindependent := independent_perform hl hstem hs hd hdirs hapart
  rw [hwrite, hcheck]
  refine ⟨hindependent, fun hexit => ?_⟩
  rw [hindependent.workspace]
  exact exitCode_check_iff hl hw hstem hh hc hs hd hdirs hapart (hindependent.exit.mp hexit)

/-! ## An old header -/

/-- A directory `interfaces` with the document of one mapping and an old header of the given mode. -/
def oldTables (mode : Nat) : FileTree :=
  ((FileTree.empty.insert ["interfaces"] (.directory directoryMode)).insert ["a.json", "interfaces"]
    (.file (OneMapping.completeText "n" "/v").toUTF8 fileMode)).insert ["generated_interfaces.h", "interfaces"]
    (.file ⟨#[]⟩ mode)

/-- In it there is another one with the same document. -/
def nestedTables (mode : Nat) : Workspace where
  tree := ((oldTables mode).insert ["interfaces", "interfaces"] (.directory directoryMode)).insert
    ["b.json", "interfaces", "interfaces"] (.file (OneMapping.completeText "n" "/v").toUTF8 fileMode)
  workingDir := []

theorem parse_of_complete {v : Json} {text text' : String} (p : Path) (h : Json.parse text = .ok v)
    (h' : Json.parse text' = .ok (Schema.complete v)) :
    Document.parse false p text' = Document.parse true p text := by
  unfold Document.parse
  rw [h, h']
  simp only [Schema.document_complete]

theorem parse_complete_oneMapping (p : Path) :
    Document.parse false p (OneMapping.completeText "n" "/v") =
      .ok { oneMapping "n" "/v" with source := p } := by
  have hgaps : Json.parse (OneMapping.text "n" "/v") = .ok (.object (OneMapping.fields "n" "/v")) :=
    OneMapping.parse_text (.literal (by decide)) (.literal (by decide))
  have hfull : Json.parse (OneMapping.completeText "n" "/v") =
      .ok (Schema.complete (.object (OneMapping.fields "n" "/v"))) :=
    OneMapping.parse_completeText (.literal (by decide)) (.literal (by decide))
  exact (parse_of_complete p hgaps hfull).trans (parse_oneMapping p)

/-- A run over a directory with that document succeeds if its files can be written. -/
theorem exists_run_of_oneMapping {o : RunOptions} {ws : Workspace} {p : Path} {loc l : Location} {m : Nat}
    (hl : ws.tree.LinkFree) (hm : o.mode = .write) (hstem : '/' ∉ o.baseName.toList)
    (hstrict : o.load.applyDefaults = false) (hs : ws.stat o.outputDir = .ok (loc, .directory m))
    (hd : ws.discover o.schemaDir o.load.extension = .ok [p])
    (hfile : ws.stat p = .ok (l, .file (OneMapping.completeText "n" "/v").toUTF8 fileMode))
    (hreach : ws.outOfReach? o.outputDir = none) (hchange : ws.mayChange loc = true)
    (hplaces : ∀ k, Artifacts.refused? o.outputDir o.baseName loc ws k = none) :
    ∃ r, (run o ws).result = .ok r := by
  have hload : ws.loadFile o.load p = .ok { oneMapping "n" "/v" with source := p } := by
    simp only [Workspace.loadFile, Workspace.readText_of_stat hfile (by decide), hstrict,
      parse_complete_oneMapping]
  have hloaded : ws.loadDirectory o.schemaDir o.load = .ok [{ oneMapping "n" "/v" with source := p }] := by
    rw [Workspace.loadDirectory_of_one hd, hload]
    rfl
  have hp := RunOptions.prepare_of_load hloaded (find?_oneRecord p)
  refine ⟨_, (run_eq_ok_iff hp).mpr ⟨?_, rfl⟩⟩
  rw [RunOptions.emit, hm]
  show (Artifacts.write _ _ _).result = _
  rw [Artifacts.write_eq hl hreach hs (RunOptions.namedAfter_of_prepare hstem hp), if_pos hchange,
    hplaces, hplaces]

section NestedTables

variable (mode : Nat)

theorem wellFormed_nestedTables : (nestedTables mode).tree.WellFormed := by
  have houter : (oldTables mode).WellFormed :=
    ((FileTree.wellFormed_empty.insert_new ⟨_, rfl⟩ (by decide) rfl).insert_new ⟨_, rfl⟩ (by decide)
      rfl).insert_new ⟨_, rfl⟩ (by decide) rfl
  exact (houter.insert_new ⟨_, rfl⟩ (by decide) rfl).insert_new ⟨_, rfl⟩ (by decide) rfl

theorem linkFree_nestedTables : (nestedTables mode).tree.LinkFree := by
  have hempty : FileTree.empty.LinkFree := by rintro (_ | ⟨name, dir⟩) target ⟨⟩
  have hdir : (FileTree.empty.insert ["interfaces"] (.directory directoryMode)).LinkFree :=
    hempty.of_gains (FileTree.gains_insert rfl _)
  have houter : (oldTables mode).LinkFree := (hdir.insert_file (by simp)).insert_file (by simp)
  exact (houter.of_gains (FileTree.gains_insert rfl _)).insert_file (by simp)

theorem list_nestedTables : (nestedTables mode).list "." = .ok ([], ["interfaces"]) ∧
    (nestedTables mode).list "./interfaces" =
      .ok (["interfaces"], ["a.json", "generated_interfaces.h", "interfaces"]) ∧
    (nestedTables mode).list "./interfaces/interfaces" =
      .ok (["interfaces", "interfaces"], ["b.json"]) := by
  have hroot : (nestedTables mode).tree.names [] = ["interfaces"] := rfl
  have houter : (nestedTables mode).tree.names ["interfaces"] =
    ["a.json", "generated_interfaces.h", "interfaces"] := rfl
  have hinner : (nestedTables mode).tree.names ["interfaces", "interfaces"] = ["b.json"] := rfl
  refine ⟨Workspace.list_eq_ok_iff.mpr ⟨_, rfl, by decide, ?_⟩,
    Workspace.list_eq_ok_iff.mpr ⟨_, rfl, by decide, ?_⟩,
    Workspace.list_eq_ok_iff.mpr ⟨_, rfl, by decide, ?_⟩⟩
  · rw [FileTree.sortedNames, hroot]
    exact (List.mergeSort_of_pairwise (by decide)).symm
  · rw [FileTree.sortedNames, houter]
    exact (List.mergeSort_of_pairwise (by decide)).symm
  · rw [FileTree.sortedNames, hinner]
    exact (List.mergeSort_of_pairwise (by decide)).symm

theorem discover_nestedTables :
    (nestedTables mode).discover "./interfaces" "json" = .ok ["./interfaces/a.json"] ∧
      (nestedTables mode).discover "./interfaces/interfaces" "json" =
        .ok ["./interfaces/interfaces/b.json"] := by
  obtain ⟨_, houter, hinner⟩ := list_nestedTables mode
  constructor
  · unfold Workspace.discover
    rw [houter]
    rfl
  · unfold Workspace.discover
    rw [hinner]
    rfl

theorem interfaceDirectories_nestedTables :
    (nestedTables mode).interfaceDirectories "json" "." =
      .ok ["./interfaces", "./interfaces/interfaces"] := by
  obtain ⟨hroot, houter, hinner⟩ := list_nestedTables mode
  obtain ⟨hdocuments, hdocuments'⟩ := discover_nestedTables mode
  have hown : (nestedTables mode).ownDirectory "json" (some "interfaces") "./interfaces" =
      .ok ["./interfaces"] := by
    unfold Workspace.ownDirectory
    rw [hdocuments]
    rfl
  have hown' : (nestedTables mode).ownDirectory "json" (some "interfaces") "./interfaces/interfaces" =
      .ok ["./interfaces/interfaces"] := by
    unfold Workspace.ownDirectory
    rw [hdocuments']
    rfl
  have hbelow' : (nestedTables mode).directoriesBelow "json" 2 "./interfaces/interfaces" = .ok [] := by
    rw [Workspace.directoriesBelow_of_list hinner]
    rfl
  have hbelow : (nestedTables mode).directoriesBelow "json" 3 "./interfaces" =
      .ok ["./interfaces/interfaces"] := by
    have hfound : (nestedTables mode).foundUnder "json" 2 "./interfaces" ["interfaces"] "interfaces" =
      .ok ["./interfaces/interfaces"] :=
      (Workspace.foundUnder_eq_ok_iff rfl).mpr ⟨_, _, hown', hbelow', rfl⟩
    rw [Workspace.directoriesBelow_of_list houter]
    exact Workspace.gather_cons_eq_ok_iff.mpr ⟨[], _, rfl, Workspace.gather_cons_eq_ok_iff.mpr
      ⟨[], _, rfl, Workspace.gather_cons_eq_ok_iff.mpr ⟨_, [], hfound, rfl, rfl⟩, rfl⟩, rfl⟩
  have hall : (nestedTables mode).directoriesBelow "json" 4 "." =
      .ok ["./interfaces", "./interfaces/interfaces"] := by
    have hfound : (nestedTables mode).foundUnder "json" 3 "." [] "interfaces" =
      .ok ["./interfaces", "./interfaces/interfaces"] :=
      (Workspace.foundUnder_eq_ok_iff rfl).mpr ⟨_, _, hown, hbelow, rfl⟩
    rw [Workspace.directoriesBelow_of_list hroot]
    exact Workspace.gather_cons_eq_ok_iff.mpr ⟨_, [], hfound, rfl, rfl⟩
  have hentry : (nestedTables mode).entry .kept "." = .ok ([], .directory directoryMode) := rfl
  have hheight : (nestedTables mode).tree.height = 3 := rfl
  unfold Workspace.interfaceDirectories
  rw [hentry, hheight]
  exact Schema.bind_eq_ok_iff.mpr ⟨[], rfl, Schema.bind_eq_ok_iff.mpr ⟨_, hall, rfl⟩⟩

/-- In both directories the document is loaded and both files can be written. -/
theorem alone_nestedTables {dir : Path} (hdir : dir ∈ ["./interfaces", "./interfaces/interfaces"]) :
    ∃ r, (alone {} (nestedTables mode) dir).result = .ok r := by
  have hl := linkFree_nestedTables mode
  obtain ⟨hdocuments, hdocuments'⟩ := discover_nestedTables mode
  have hs : (nestedTables mode).stat "./interfaces" = .ok (["interfaces"], .directory directoryMode) := rfl
  have hs' : (nestedTables mode).stat "./interfaces/interfaces" =
    .ok (["interfaces", "interfaces"], .directory directoryMode) := rfl
  have hfile : (nestedTables mode).stat "./interfaces/a.json" = .ok (["a.json", "interfaces"],
    .file (OneMapping.completeText "n" "/v").toUTF8 fileMode) := rfl
  have hfile' : (nestedTables mode).stat "./interfaces/interfaces/b.json" =
    .ok (["b.json", "interfaces", "interfaces"],
      .file (OneMapping.completeText "n" "/v").toUTF8 fileMode) := rfl
  simp only [List.mem_cons, List.not_mem_nil, or_false] at hdir
  obtain rfl | rfl := hdir
  · exact exists_run_of_oneMapping (o := directoryOptions {} .write "./interfaces") hl rfl (by decide) rfl
      hs hdocuments hfile (Workspace.outOfReach?_of_root rfl rfl) rfl fun k => by cases k <;> rfl
  · exact exists_run_of_oneMapping (o := directoryOptions {} .write "./interfaces/interfaces") hl rfl
      (by decide) rfl hs' hdocuments' hfile' (Workspace.outOfReach?_of_root rfl rfl) rfl
      fun k => by cases k <;> rfl

theorem effective_nestedTables : Settings.effective (nestedTables mode) [] none = .ok {} := by
  have hpath : (nestedTables mode).workingPath = "/" := rfl
  have hmissing : ∀ name ∈ Settings.localFiles, (nestedTables mode).fileLayer false name = .ok [] := by
    intro name hname
    have hfind : (nestedTables mode).findSettings name = .error (.missingFile name) := by
      unfold Workspace.findSettings
      rw [hpath]
      simp only [Settings.localFiles, List.mem_cons, List.not_mem_nil, or_false] at hname
      obtain rfl | rfl | rfl := hname <;> rfl
    exact Workspace.fileLayer_of_findSettings_error hfind
  have hlayers : List.Forall₂ (fun file layer => (nestedTables mode).fileLayer file.2 file.1 = .ok layer)
      (Settings.files (nestedTables mode) [] none) [[], [], []] :=
    .cons (hmissing _ (by decide)) (.cons (hmissing _ (by decide)) (.cons (hmissing _ (by decide)) .nil))
  refine (Settings.effective_of_layers hlayers fun layer hmem => ?_).trans rfl
  cases List.eq_of_mem_replicate (show layer ∈ List.replicate 4 [] from hmem)
  exact plainLayer_nil

/-- Of the four files only the old header is there. -/
theorem holding_nestedTables {dir : Path} (hdir : dir ∈ ["./interfaces", "./interfaces/interfaces"])
    (k : ArtifactKind) {e : Entry}
    (h : (nestedTables mode).holding (dir.join (k.fileName (Settings.baseName {}))) = some e) :
    e = .file ⟨#[]⟩ mode := by
  simp only [List.mem_cons, List.not_mem_nil, or_false] at hdir
  obtain rfl | rfl := hdir
  · cases k with
    | header => exact (Option.some.inj h).symm
    | source => cases h
  · cases k <;> cases h

end NestedTables

/-- Two directories, one in the other, with a header that is read-only. -/
theorem sweep_nestedTables :
    (sweep ["generate"] [] (nestedTables 0o444)).exitCode = 0 ∧
      (sweep ["check"] [] (sweep ["generate"] [] (nestedTables 0o444)).workspace).exitCode = 0 := by
  have hwriting : Request.read ["generate"] = .sweep .write "." := rfl
  have hchecking : Request.read ["check"] = .sweep .check "." := rfl
  obtain ⟨hindependent, hcheck⟩ := sweep_runs_independently (wellFormed_nestedTables 0o444)
    (linkFree_nestedTables 0o444) (effective_nestedTables 0o444) (by decide) (by decide) (by decide)
    (interfaceDirectories_nestedTables 0o444) hwriting hchecking
  have hexit := hindependent.exit.mpr fun dir => alone_nestedTables 0o444
  refine ⟨hexit, (hcheck hexit).mpr fun dir hdir k contents m h => ?_⟩
  cases holding_nestedTables 0o444 hdir k h
  decide

/-- A header that may not be read is written again, but a check cannot read it. -/
theorem unreadable_header_fails_check :
    ¬ ∀ (s : Settings) (dirs : List Path) (ws : Workspace) (env : Environment) (root : Path)
      (arguments checking : List String), ws.tree.WellFormed → ws.tree.LinkFree →
      Settings.effective ws env none = .ok s → '/' ∉ s.lead.toList → s.extension ≠ "h" →
      s.extension ≠ "c" → ws.interfaceDirectories s.extension root = .ok dirs →
      Request.read arguments = .sweep .write root → Request.read checking = .sweep .check root →
      (sweep arguments env ws).exitCode = 0 →
      (sweep checking env (sweep arguments env ws).workspace).exitCode = 0 := by
  intro h
  have hw := wellFormed_nestedTables 0
  have hl := linkFree_nestedTables 0
  have hs := effective_nestedTables 0
  have hd := interfaceDirectories_nestedTables 0
  have hdirs := Workspace.spread_interfaceDirectories hl hw hd
  have hstem : '/' ∉ (Settings.baseName {}).toList := by decide
  have hapart := apart_of_found (s := {}) hl hw hstem (by decide) (by decide) hd
  have hwriting : Request.read ["generate"] = .sweep .write "." := rfl
  have hchecking : Request.read ["check"] = .sweep .check "." := rfl
  have hwrite : sweep ["generate"] [] (nestedTables 0) = perform .write "." [] (nestedTables 0) := by
    rw [sweep, hwriting]
  have hexit : (sweep ["generate"] [] (nestedTables 0)).exitCode = 0 := by
    rw [hwrite]
    exact (independent_perform hl hstem hs hd hdirs hapart).exit.mpr fun dir => alone_nestedTables 0
  have hcheck := h {} _ _ [] "." _ _ hw hl hs (by decide) (by decide) (by decide) hd hwriting hchecking hexit
  rw [hwrite, workspace_perform hs hd, sweep, hchecking] at hcheck
  have hread := (exitCode_check_iff hl hw hstem (by decide) (by decide) hs hd hdirs hapart
    fun dir => alone_nestedTables 0).mp hcheck "./interfaces" (by simp) .header ⟨#[]⟩ 0 rfl
  cases hread

end Command.Sweep

end InterfaceTables
