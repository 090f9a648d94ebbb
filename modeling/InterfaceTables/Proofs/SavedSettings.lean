import InterfaceTables.Proofs.LayeredSettings
import InterfaceTables.Proofs.ReplacedLinks
import InterfaceTables.Proofs.WorkingPath

/-!
Settings that are saved to a file and loaded from it. The file is laid over the other layers again, and
one of them may be the saved file itself; only an output directory that was not saved can come back.
-/

namespace InterfaceTables

/-! ## Writing a file -/

namespace FileTree

/-- Whatever is written at a path is found there, links followed. -/
theorem Keeps.leads_of_written {t t' : FileTree} {links : Nat} {here : Location} {steps : List String}
    {goal : Target} {e : Entry} (hk : t.Keeps t') (h : t.Leads .written links here steps goal)
    (he : t'.get? goal.place = some e) (solid : ∀ target, e ≠ .link target) :
    t'.Leads .followed links here steps (.entry goal.place) := by
  induction h with
  | done => exact .done
  | blank dir _ ih => exact .blank (hk.isDirectory dir) (ih he)
  | dot dir _ ih => exact .dot (hk.searchable dir) (ih he)
  | up dir _ ih => exact .up (hk.searchable dir) (ih he)
  | @absent _ _ step rest look _ slashes =>
    -- A name that is to be written has nothing after it.
    have hrest : rest = [] := Classical.byContradiction fun hne => by
      rw [look.unblocked rfl hne] at slashes
      cases slashes
    subst hrest
    exact .enter (hk.looksUp (look.of_ne_written (by simp))) he solid .done
  | enter look found solid' _ ih => exact hk.enter (look.of_ne_written (by simp)) found solid' (ih he)
  | stop _ _ kept => cases kept
  | follow look found _ _ ih =>
    exact .follow (hk.looksUp (look.of_ne_written (by simp))) (hk.link found) (Or.inr (by simp)) (ih he)

end FileTree

namespace Workspace

variable {ws after : Workspace} {p q : Path} {loc : Location} {contents : ByteArray} {mode : Nat}

/-- One file is new or has new contents, and all else is as it was. -/
structure Filled (ws after : Workspace) (loc : Location) (contents : ByteArray) (mode : Nat) : Prop where
  keeps : ws.tree.Keeps after.tree
  workingDir : after.workingDir = ws.workingDir
  file : after.tree.get? loc = some (.file contents mode)
  rest : ∀ l, l ≠ loc → after.tree.get? l = ws.tree.get? l

theorem filled_insert (hl : loc ≠ []) (hd : ¬ ws.tree.IsDirectory loc)
    (hk : ∀ target, ws.tree.get? loc ≠ some (.link target)) :
    ws.Filled (ws.insert loc (.file contents mode)) loc contents mode where
  keeps := FileTree.keeps_insert_file hl hd hk
  workingDir := rfl
  file := FileTree.get?_insert_self _ _ _ hl
  rest _ hne := FileTree.get?_insert_of_ne _ _ hne

/-- A file that was written is found at its path. -/
theorem Filled.stat {goal : Target} (h : ws.Filled after goal.place contents mode)
    (hp : ws.resolve .written p = .ok goal) :
    after.stat p = .ok (goal.place, .file contents mode) := by
  obtain ⟨hfault, hleads⟩ := resolve_eq_ok_iff.mp hp
  rw [stat_eq_ok_iff, start_eq h.workingDir]
  exact ⟨⟨hfault, h.keeps.leads_of_written hleads h.file (by simp)⟩, h.file⟩

theorem exists_filled_of_writeFile (h : ws.writeFile p contents = .ok after) :
    ∃ loc mode, ws.Filled after loc contents mode ∧ after.stat p = .ok (loc, .file contents mode) := by
  unfold writeFile at h
  cases hr : ws.resolve .written p with
  | error e =>
    rw [hr] at h
    cases h
  | ok goal =>
    have hfilled : ∃ mode, ws.Filled after goal.place contents mode := by
      rw [hr] at h
      cases goal with
      | absent dir name =>
        obtain ⟨_, rfl⟩ := add_eq_ok h
        have hgone := ((resolve_eq_ok_iff.mp hr).2.missing).1
        refine ⟨ws.masked 0o666, filled_insert (by simp) ?_ ?_⟩
        · rintro ⟨m, hm⟩
          cases hgone.symm.trans hm
        · intro target hlink
          cases hgone.symm.trans hlink
      | entry loc =>
        simp only at h
        split at h
        · rename_i old m hold
          split at h
          · cases h
            refine ⟨m, filled_insert ?_ ?_ ?_⟩
            · rintro rfl
              cases hold
            · rintro ⟨m', hm'⟩
              cases hold.symm.trans hm'
            · intro target hlink
              cases hold.symm.trans hlink
          · cases h
        · cases h
    obtain ⟨mode, hfilled⟩ := hfilled
    exact ⟨_, _, hfilled, hfilled.stat hr⟩

/-- What is found afterwards is the new file, or was found before. -/
theorem Filled.stat_before {l : Location} {e : Entry} (h : ws.Filled after loc contents mode)
    (hq : after.stat q = .ok (l, e)) :
    (l = loc ∧ e = .file contents mode) ∨ ws.stat q = .ok (l, e) := by
  obtain ⟨⟨hfault, hleads⟩, he⟩ := stat_eq_ok_iff.mp hq
  by_cases hl : l = loc
  · subst hl
    cases h.file.symm.trans he
    exact Or.inl ⟨rfl, rfl⟩
  · rw [start_eq h.workingDir] at hleads
    rw [h.rest l hl] at he
    exact Or.inr (stat_eq_ok_iff.mpr
      ⟨⟨hfault, hleads.before_file h.file h.rest fun hgoal => hl (Target.entry.inj hgoal)⟩, he⟩)

theorem Filled.isFile (h : ws.Filled after loc contents mode) (hq : ws.isFile q = true) :
    after.isFile q = true := by
  obtain ⟨l, c, m, hs⟩ := isFile_iff.mp hq
  obtain ⟨⟨hfault, hleads⟩, he⟩ := stat_eq_ok_iff.mp hs
  obtain ⟨c', m', he'⟩ := h.keeps.file he
  refine isFile_iff.mpr ⟨l, c', m', stat_eq_ok_iff.mpr ⟨⟨hfault, ?_⟩, he'⟩⟩
  rw [start_eq h.workingDir]
  exact h.keeps.leads hleads

/-! ## Finding settings -/

theorem readText_congr {ws' : Workspace} (h : ws'.stat q = ws.stat q) :
    ws'.readText q = ws.readText q := by
  unfold readText readBytes
  rw [h]

theorem workingPath_congr {ws' : Workspace} (h : ws'.workingDir = ws.workingDir) :
    ws'.workingPath = ws.workingPath := by
  rw [workingPath, workingPath, h]

theorem relativePath_congr {ws' : Workspace} (h : ws'.workingDir = ws.workingDir) (q : Path) :
    ws'.relativePath q = ws.relativePath q := by
  rw [relativePath, relativePath, h]

theorem appendExtension_eq {leaf : String} (h : p.steps.getLast? = some leaf)
    (hidle : Path.isIdle leaf = false) (extension : String) :
    appendExtension p extension = p ++ ("." ++ extension) := by
  obtain ⟨front, hsteps⟩ := List.getLast?_eq_some_iff.mp h
  have hkept : (p.steps.reverse.dropWhile Path.isIdle).reverse = p.steps := by
    rw [hsteps, List.reverse_append, List.reverse_singleton, List.singleton_append,
      List.dropWhile_cons_of_neg (by simp [hidle])]
    simp
  rw [appendExtension, hkept, Path.intercalate_steps, String.append_assoc]

/-- The name of a file that is there means no other file. -/
theorem findSettings_of_stat {name path : Path} {leaf : String} {format : Setting.Format}
    (hw : ws.tree.WellFormed) (hstat : ws.stat name = .ok (loc, .file contents mode))
    (hleaf : name.steps.getLast? = some leaf) (hidle : Path.isIdle leaf = false)
    (h : ws.findSettings name = .ok (path, format)) :
    path = ws.workingPath.join name ∧ ws.stat path = .ok (loc, .file contents mode) := by
  obtain ⟨hfile, ⟨rfl, _⟩ | ⟨hnone, _, hpath⟩⟩ := findSettings_cases h
  · obtain ⟨l, c, m, hs⟩ := isFile_iff.mp hfile
    rw [stat_workingPath_join_unique hw hstat hs] at hs
    exact ⟨rfl, hs⟩
  · have hdot : Path.isAbsolute ("." ++ format.extension) = false := by cases format <;> decide
    rw [appendExtension_eq (Path.getLast?_steps_join _ hleaf) hidle] at hpath
    obtain ⟨l, c, m, hs⟩ := isFile_iff.mp hfile
    rw [hpath] at hs
    have hshort := stat_workingPath_join_of_longer hw hdot hstat hs
    rw [isFile_iff.mpr ⟨_, _, _, hshort⟩] at hnone
    cases hnone

/-- What a name of settings means afterwards is the new file, or is what it meant before. -/
theorem Filled.findSettings {name path : Path} (h : ws.Filled after loc contents mode)
    (hfind : after.findSettings name = .ok (path, .toml)) :
    after.stat path = .ok (loc, .file contents mode) ∨
      (ws.findSettings name = .ok (path, .toml) ∧ after.stat path = ws.stat path) := by
  obtain ⟨hfile, hcases⟩ := findSettings_cases hfind
  obtain ⟨l, c, m, hs⟩ := isFile_iff.mp hfile
  obtain ⟨rfl, he⟩ | hbefore := h.stat_before hs
  · rw [hs, he]
    exact Or.inl rfl
  · have hfile' : ws.isFile path = true := isFile_iff.mpr ⟨l, c, m, hbefore⟩
    refine Or.inr ⟨?_, hs.trans hbefore.symm⟩
    rw [workingPath_congr h.workingDir] at hcases
    obtain ⟨rfl, hformat⟩ | ⟨hnone, hname, rfl⟩ := hcases
    · exact findSettings_of_isFile hfile' hformat
    · refine findSettings_of_extended ?_ hname
        (by simp [Setting.Format.all, Setting.Format.extension] at hfile' ⊢; exact hfile')
      rw [Bool.eq_false_iff] at hnone ⊢
      exact fun hbefore => hnone (h.isFile hbefore)

/-- The layer of a file that holds saved settings. -/
theorem fileLayer_of_saved {s : Settings} {name path : Path} {required : Bool}
    (hfind : ws.findSettings name = .ok (path, .toml))
    (hstat : ws.stat path = .ok (loc, .file s.toToml.toUTF8 mode)) :
    ws.fileLayer required name =
      if mayRead mode then .ok (s.savedLayer (ws.relativePath path))
      else if required then .error (.unreadable .denied) else .ok [] := by
  rw [fileLayer_of_findSettings hfind]
  cases hm : mayRead mode with
  | true =>
    rw [readText_of_stat hstat hm]
    exact Settings.parse_toToml s _
  | false =>
    have hread : ws.readText path = .error .denied := by
      simp only [readText, readBytes_of_stat hstat, hm, Bool.false_eq_true, if_false]
    rw [hread]
    rfl

end Workspace

/-! ## The other layers after saving -/

namespace Settings

open Setting Workspace

variable {ws after : Workspace} {env : Environment} {s : Settings} {loc : Location} {mode : Nat}

/-- The layers that can stand below saved settings: those from before, and the saved settings. -/
inductive Below (ws : Workspace) (env : Environment) (s : Settings) : Fields → Prop where
  | none : Below ws env s []
  | saved (origin : Origin) : Below ws env s (s.savedLayer origin)
  | before {file : Path × Bool} {layer : Fields} (hfile : file ∈ files ws env none)
      (h : ws.fileLayer file.2 file.1 = .ok layer) : Below ws env s layer

theorem mem_files_iff {file : Path × Bool} :
    file ∈ files ws env none ↔
      file.2 = false ∧ (file.1 ∈ localFiles ∨ userFile? ws env = some file.1) := by
  obtain ⟨path, required⟩ := file
  simp only [files, Option.toList_none, List.map_nil, List.append_nil, List.mem_append, List.mem_map,
    Prod.mk.injEq, Option.mem_toList]
  grind

theorem mem_files_of_none {file : Path × Bool} (explicit : Option Path) (h : file ∈ files ws env none) :
    file ∈ files ws env explicit := by
  rw [files] at h ⊢
  exact List.mem_append_left _ (by simpa using h)

theorem getLast?_userFile? {file : Path} (h : userFile? ws env = some file) :
    file.steps.getLast? = some "interfaces.toml" := by
  obtain ⟨⟨dir, _, rfl⟩, _⟩ := userFile?_eq_some_iff.mp h
  exact Path.getLast?_steps_join _ rfl

/-- Each of the files gives such a layer, if each gave a layer before. -/
theorem exists_below {file : Path × Bool} (hw : after.tree.WellFormed)
    (h : ws.Filled after loc s.toToml.toUTF8 mode)
    (hbefore : ∀ file ∈ files ws env none, ∃ layer, ws.fileLayer file.2 file.1 = .ok layer)
    (htoml : ∀ found, after.findSettings file.1 = .ok found → found.2 = .toml)
    (hfile : file ∈ files after env none) :
    ∃ layer, after.fileLayer file.2 file.1 = .ok layer ∧ Below ws env s layer := by
  obtain ⟨name, required⟩ := file
  obtain ⟨rfl, hname⟩ := mem_files_iff.mp hfile
  cases hfind : after.findSettings name with
  | error e => exact ⟨[], fileLayer_of_findSettings_error hfind, .none⟩
  | ok found =>
    obtain ⟨path, format⟩ := found
    obtain rfl : format = .toml := htoml _ hfind
    have hsaved : after.stat path = .ok (loc, .file s.toToml.toUTF8 mode) →
        ∃ layer, after.fileLayer false name = .ok layer ∧ Below ws env s layer := by
      intro hstat
      rw [fileLayer_of_saved hfind hstat]
      cases mayRead mode with
      | true => exact ⟨_, rfl, .saved _⟩
      | false => exact ⟨_, rfl, .none⟩
    by_cases hmem : (name, false) ∈ files ws env none
    · obtain hstat | ⟨hfind', hsame⟩ := h.findSettings hfind
      · exact hsaved hstat
      · obtain ⟨layer, hlayer⟩ := hbefore _ hmem
        refine ⟨layer, ?_, .before hmem hlayer⟩
        rw [← hlayer, fileLayer_of_findSettings hfind, fileLayer_of_findSettings hfind',
          readText_congr hsame, relativePath_congr h.workingDir]
    · -- Only a user's file can be new, and then it is the one that was written.
      have huser : userFile? after env = some name :=
        hname.resolve_left fun hlocal => hmem (mem_files_iff.mpr ⟨rfl, Or.inl hlocal⟩)
      obtain ⟨hdir, ⟨l, e⟩, hstat⟩ := userFile?_eq_some_iff.mp huser
      obtain ⟨rfl, rfl⟩ | hold := h.stat_before hstat
      · exact hsaved (findSettings_of_stat hw hstat (getLast?_userFile? huser) (by decide) hfind).2
      · have hold' := userFile?_eq_some_iff.mpr ⟨hdir, _, hold⟩
        exact absurd (mem_files_iff.mpr ⟨rfl, Or.inr hold'⟩) hmem

/-! ## Laying saved settings over the others -/

theorem outputTable_ne_nil (s : Settings) (origin : Origin) : ofTomlFields origin s.outputTable ≠ [] := by
  unfold outputTable
  simp [ofTomlFields]

theorem schemaTable_ne_nil (s : Settings) (origin : Origin) : ofTomlFields origin s.schemaTable ≠ [] := by
  unfold schemaTable
  simp [ofTomlFields]

/-- Saved settings have their values over any layers, and leave the others as they are. -/
theorem held_overlay_savedLayer (s : Settings) (origin : Origin) (fields : Fields) (k : Key) :
    k.held (overlay fields (s.savedLayer origin)) = (s.savedValue origin k).or (k.held fields) := by
  have houtput : ∀ fields : Fields,
      k.held (afterEntry fields "output" (.table (some origin) (ofTomlFields origin s.outputTable))) =
        (k.givenAt "output" (.table (some origin) (ofTomlFields origin s.outputTable))).or
          (k.held fields) := fun fields =>
    held_afterEntry_table Key.lead.pathOf_group (Or.inl (s.outputTable_ne_nil origin))
      fun _ _ hmem _ => admits_of_name (names_outputTable hmem)
  have hschema : ∀ fields : Fields,
      k.held (afterEntry fields "schema" (.table (some origin) (ofTomlFields origin s.schemaTable))) =
        (k.givenAt "schema" (.table (some origin) (ofTomlFields origin s.schemaTable))).or
          (k.held fields) := fun fields =>
    held_afterEntry_table Key.extension.pathOf_group (Or.inl (s.schemaTable_ne_nil origin))
      fun _ _ hmem _ => admits_of_name (names_schemaTable hmem)
  calc k.held (overlay fields (s.savedLayer origin))
    _ = (k.givenAt "schema" (.table (some origin) (ofTomlFields origin s.schemaTable))).or
          ((k.givenAt "output" (.table (some origin) (ofTomlFields origin s.outputTable))).or
            (k.held fields)) := (hschema _).trans (congrArg _ (houtput fields))
    _ = (k.given (s.savedLayer origin)).or (k.held fields) := (Option.or_assoc ..).symm
    _ = (s.savedValue origin k).or (k.held fields) := by rw [given_savedLayer]

theorem blocks_overlay_savedLayer (s : Settings) (origin : Origin) (fields : Fields) (k : Key) :
    blocks (overlay fields (s.savedLayer origin)) k.group = false := by
  have houtput : Key.lead.group = k.group → blocks (afterEntry fields "output"
      (.table (some origin) (ofTomlFields origin s.outputTable))) k.group = false := fun hk =>
    blocks_afterEntry_table Key.lead.pathOf_group (Or.inl (s.outputTable_ne_nil origin))
      (Or.inl (Key.lead.toLowercase_group.trans hk))
  refine blocks_afterEntry_table Key.extension.pathOf_group (Or.inl (s.schemaTable_ne_nil origin)) ?_
  cases k with
  | lead => exact Or.inr (houtput rfl)
  | outputDir => exact Or.inr (houtput rfl)
  | extension => exact Or.inl Key.extension.toLowercase_group
  | applyDefaults => exact Or.inl Key.applyDefaults.toLowercase_group

/-- The output directory of settings is what its value stands for. -/
theorem asOptionalText_of_ofFields {fields : Fields} {v : Setting}
    (hgroup : blocks fields Key.outputDir.group = false) (h : ofFields fields = .ok s)
    (hv : Key.outputDir.held fields = some v) :
    asOptionalText ("output" ++ "." ++ "dir") v = .ok s.outputDir := by
  unfold ofFields at h
  obtain ⟨output, houtput, h⟩ := Schema.bind_eq_ok_iff.mp h
  obtain ⟨lead, _, h⟩ := Schema.bind_eq_ok_iff.mp h
  obtain ⟨outputDir, hdir, h⟩ := Schema.bind_eq_ok_iff.mp h
  obtain ⟨schema, _, h⟩ := Schema.bind_eq_ok_iff.mp h
  obtain ⟨extension, _, h⟩ := Schema.bind_eq_ok_iff.mp h
  obtain ⟨applyDefaults, _, h⟩ := Schema.bind_eq_ok_iff.mp h
  cases h
  cases (group_of_not_blocks hgroup).symm.trans houtput
  have hlookup : (fieldAt fields "output").asTable.2.lookup "dir" = some v := hv
  unfold Group.decode at hdir
  simpa only [Key.group, hlookup] using hdir

theorem isNull_of_asOptionalText {key : String} {v : Setting} (h : asOptionalText key v = .ok none) :
    v.isNull = true := by
  unfold asOptionalText at h
  split at h
  · rfl
  · cases htext : asText key v with
    | error e =>
      rw [htext] at h
      cases h
    | ok text =>
      rw [htext] at h
      cases h

theorem text?_of_isNull {v : Setting} (h : v.isNull = true) : v.text? = none := by
  unfold isNull at h
  split at h
  · rfl
  · cases h

/-- Saved settings are resolved over any layers that give them no other output directory. -/
theorem resolved_overlay_savedLayer {origin : Origin} {lower : Fields}
    (h : s.outputDir = none → ∀ v, Key.outputDir.held lower = some v → v.isNull = true) :
    Resolved (overlay lower (s.savedLayer origin))
      fun k => (s.savedValue origin k).or (k.held lower) := by
  refine ⟨s.blocks_overlay_savedLayer origin lower, s.held_overlay_savedLayer origin lower,
    fun k v hv => ?_⟩
  cases k with
  | lead =>
    cases hv
    rfl
  | outputDir =>
    cases hdir : s.outputDir with
    | some dir =>
      simp only [savedValue, hdir, Option.map_some, Option.some_or] at hv
      cases hv
      exact Or.inl rfl
    | none =>
      simp only [savedValue, hdir, Option.map_none, Option.none_or] at hv
      exact Or.inr (h hdir v hv)
  | extension =>
    cases hv
    rfl
  | applyDefaults =>
    cases hv
    rfl

/-- Saved settings are what they were over any layers that give them no other output directory. -/
theorem ofFields_overlay_savedLayer_iff (s : Settings) (origin : Origin) (lower : Fields) :
    ofFields (overlay lower (s.savedLayer origin)) = .ok s ↔
      (s.outputDir = none → ∀ v, Key.outputDir.held lower = some v → v.isNull = true) := by
  constructor
  · intro h hdir v hv
    have hsaved : Key.outputDir.held (overlay lower (s.savedLayer origin)) = some v := by
      rw [s.held_overlay_savedLayer origin lower, savedValue, hdir, Option.map_none, Option.none_or, hv]
    have hnone := asOptionalText_of_ofFields (s.blocks_overlay_savedLayer origin lower .outputDir) h hsaved
    rw [hdir] at hnone
    exact isNull_of_asOptionalText hnone
  · intro h
    have hdir : ((s.savedValue origin .outputDir).or (Key.outputDir.held lower)).bind text? =
        s.outputDir := by
      cases hdir : s.outputDir with
      | some dir => simp [savedValue, hdir, text?, Scalar.asText?]
      | none =>
        simp only [savedValue, hdir, Option.map_none, Option.none_or]
        cases hv : Key.outputDir.held lower with
        | none => rfl
        | some v => exact text?_of_isNull (h hdir v hv)
    rw [(resolved_overlay_savedLayer h).ofFields, settingsOf, hdir]
    rfl

/-! ## Loading what was saved -/

theorem files_some (p : Path) : files ws env (some p) = files ws env none ++ [(p, true)] := by
  simp [files]

theorem exists_layer_of_mem {files : List (Path × Bool)} {layers : List Fields} {file : Path × Bool}
    (h : List.Forall₂ (fun file layer => ws.fileLayer file.2 file.1 = .ok layer) files layers)
    (hfile : file ∈ files) : ∃ layer ∈ layers, ws.fileLayer file.2 file.1 = .ok layer := by
  induction h with
  | nil => cases hfile
  | @cons _ layer _ layers hlayer _ ih =>
    cases hfile with
    | head => exact ⟨layer, List.mem_cons_self, hlayer⟩
    | tail _ hfile =>
      obtain ⟨layer', hmem, hlayer'⟩ := ih hfile
      exact ⟨layer', .tail _ hmem, hlayer'⟩

theorem exists_layers {P : Fields → Prop} {files : List (Path × Bool)}
    (h : ∀ file ∈ files, ∃ layer, ws.fileLayer file.2 file.1 = .ok layer ∧ P layer) :
    ∃ layers, List.Forall₂ (fun file layer => ws.fileLayer file.2 file.1 = .ok layer) files layers ∧
      ∀ layer ∈ layers, P layer := by
  induction files with
  | nil => exact ⟨[], .nil, by simp⟩
  | cons file files ih =>
    obtain ⟨layer, hlayer, hp⟩ := h file List.mem_cons_self
    obtain ⟨layers, hlayers, hall⟩ := ih fun file hmem => h file (.tail _ hmem)
    exact ⟨layer :: layers, .cons hlayer hlayers, List.forall_mem_cons.mpr ⟨hp, hall⟩⟩

/-- Where settings could be loaded, all their files gave layers. -/
theorem exists_layers_of_effective {explicit : Option Path} (h : effective ws env explicit = .ok s) :
    ∃ layers, List.Forall₂ (fun file layer => ws.fileLayer file.2 file.1 = .ok layer)
      (files ws env explicit) layers := by
  unfold effective at h
  cases hmerged : overlayFiles ws [] (files ws env explicit) with
  | error e =>
    rw [hmerged] at h
    cases h
  | ok merged => exact exists_layers_of_overlayFiles hmerged

/-- A file that is named is put over the files that are looked for anyway. -/
theorem effective_some_iff {p : Path} {lower : Fields} (henv : env.layer = [])
    (hlower : overlayFiles ws [] (files ws env none) = .ok lower) :
    effective ws env (some p) = .ok s ↔
      ∃ layer, ws.fileLayer true p = .ok layer ∧ ofFields (overlay lower layer) = .ok s := by
  unfold effective
  rw [files_some, overlayFiles_append hlower, overlayFiles_cons, henv]
  cases ws.fileLayer true p with
  | error e =>
    constructor
    · intro h
      cases h
    · rintro ⟨_, hlayer, _⟩
      cases hlayer
  | ok layer =>
    constructor
    · exact fun h => ⟨layer, rfl, h⟩
    · rintro ⟨_, hlayer, h⟩
      cases hlayer
      exact h

theorem isIdle_of_extension {leaf extension : String} (h : Path.extension? leaf = some extension) :
    Path.isIdle leaf = false := by
  rw [Bool.eq_false_iff]
  intro hidle
  obtain rfl | rfl : leaf = "" ∨ leaf = "." := by simpa [Path.isIdle] using hidle
  · cases h
  · cases h

theorem ofName?_join_of_toml {p : Path} {leaf : String} (base : Path)
    (hleaf : p.steps.getLast? = some leaf) (hext : Path.extension? leaf = some "toml") :
    (base.join p).fileName?.bind Format.ofName? = some .toml := by
  have hup : leaf ≠ ".." := by
    rintro rfl
    cases hext
  rw [Path.fileName?_of_getLast? (Path.getLast?_steps_join _ hleaf) (isIdle_of_extension hext) hup]
  simp [Format.ofName?, Format.all, Format.extension, hext]

/-- Saved settings are loaded if their file can be read, and if no lower layer has an output directory
where they have none. -/
theorem effective_saved_iff {p : Path} {leaf : String} {lower : Fields} (hw : ws.tree.WellFormed)
    (henv : env.layer = []) (hstat : ws.stat p = .ok (loc, .file s.toToml.toUTF8 mode))
    (hleaf : p.steps.getLast? = some leaf) (hext : Path.extension? leaf = some "toml")
    (hlower : overlayFiles ws [] (files ws env none) = .ok lower) :
    effective ws env (some p) = .ok s ↔
      (∃ bytes, ws.readBytes (ws.workingPath.join p) = .ok bytes) ∧
        (s.outputDir = none → ∀ v, Key.outputDir.held lower = some v → v.isNull = true) := by
  rw [effective_some_iff henv hlower]
  by_cases hfile : ws.isFile (ws.workingPath.join p) = true
  · obtain ⟨l, c, m, hs⟩ := isFile_iff.mp hfile
    rw [stat_workingPath_join_unique hw hstat hs] at hs
    have hformat := ofName?_join_of_toml ws.workingPath hleaf hext
    rw [fileLayer_of_saved (findSettings_of_isFile hfile hformat) hs, readBytes_of_stat hs]
    cases mayRead mode with
    | false => simp
    | true => simpa using ofFields_overlay_savedLayer_iff s _ lower
  · -- Where the file cannot be found from the root, no other file is taken for it.
    have hread : ¬ ∃ bytes, ws.readBytes (ws.workingPath.join p) = .ok bytes := by
      rintro ⟨bytes, hbytes⟩
      obtain ⟨l, m, hs, _⟩ := readBytes_eq_ok_iff.mp hbytes
      exact hfile (isFile_iff.mpr ⟨l, bytes, m, hs⟩)
    cases hfind : ws.findSettings p with
    | error e =>
      rw [fileLayer_of_findSettings_error hfind]
      simp [hread]
    | ok found =>
      obtain ⟨path, format⟩ := found
      obtain ⟨rfl, hs⟩ := findSettings_of_stat hw hstat hleaf (isIdle_of_extension hext) hfind
      exact absurd (isFile_iff.mpr ⟨_, _, _, hs⟩) hfile

/-- Layers that give the output directory only texts give it none if the settings have none. -/
theorem not_given_of_effective {explicit : Option Path} {layers : List Fields}
    (hfiles : List.Forall₂ (fun file layer => ws.fileLayer file.2 file.1 = .ok layer)
      (files ws env explicit) layers)
    (hplain : ∀ layer ∈ layers, PlainLayer layer ∧
      ∀ v, Key.outputDir.given layer = some v → v.text?.isSome = true)
    (henv : env.layer = []) (h : effective ws env explicit = .ok s) (hdir : s.outputDir = none) :
    ∀ layer ∈ layers, Key.outputDir.given layer = none := by
  have hall : ∀ layer ∈ layers ++ [env.layer], PlainLayer layer ∧
      ∀ v, Key.outputDir.given layer = some v → v.text?.isSome = true := by
    rw [henv]
    intro layer hmem
    obtain hmem | hmem := List.mem_append.mp hmem
    · exact hplain layer hmem
    · rw [List.mem_singleton.mp hmem]
      exact ⟨plainLayer_nil, fun v hv => by cases hv⟩
  cases h.symm.trans (effective_of_layers hfiles fun layer hmem => (hall layer hmem).1)
  have hnone : (Key.outputDir.inEffect (layers ++ [env.layer])).bind text? = none := hdir
  cases hlast : Key.outputDir.inEffect (layers ++ [env.layer]) with
  | none =>
    have hgiven := List.filterMap_eq_nil_iff.mp (List.getLast?_eq_none_iff.mp hlast)
    exact fun layer hmem => hgiven layer (List.mem_append_left _ hmem)
  | some v =>
    obtain ⟨layer, hmem, hv⟩ := List.mem_filterMap.mp (List.mem_of_getLast? hlast)
    have htext := (hall layer hmem).2 v hv
    rw [hlast, Option.bind_some] at hnone
    rw [hnone] at htext
    cases htext

/-- Then the layers below saved settings have no output directory either. -/
theorem held_of_below {layers lower : List Fields} {explicit : Option Path}
    (hfiles : List.Forall₂ (fun file layer => ws.fileLayer file.2 file.1 = .ok layer)
      (files ws env explicit) layers)
    (hplain : ∀ layer ∈ layers, PlainLayer layer)
    (hgiven : ∀ layer ∈ layers, Key.outputDir.given layer = none)
    (hdir : s.outputDir = none) (hlower : ∀ layer ∈ lower, Below ws env s layer) :
    Key.outputDir.held (lower.foldl overlay []) = none := by
  have hall : ∀ layer ∈ lower, PlainLayer layer ∧ Key.outputDir.given layer = none := by
    intro layer hmem
    cases hlower layer hmem with
    | none => exact ⟨plainLayer_nil, rfl⟩
    | saved origin =>
      refine ⟨plainLayer_savedLayer s origin, ?_⟩
      rw [given_savedLayer, savedValue, hdir, Option.map_none]
    | @before file _ hfile hlayer =>
      obtain ⟨layer', hmem', hlayer'⟩ := exists_layer_of_mem hfiles (mem_files_of_none explicit hfile)
      cases hlayer.symm.trans hlayer'
      exact ⟨hplain _ hmem', hgiven _ hmem'⟩
  have hresolved := resolved_nil.layers fun layer hmem => (hall layer hmem).1
  rw [hresolved.held, Option.or_none, Key.inEffect, List.getLast?_eq_none_iff, List.filterMap_eq_nil_iff]
  exact fun layer hmem => (hall layer hmem).2

end Settings

open Setting Command Command.Generate

theorem Command.Generate.Request.exists_effective {r : Request} {env : Environment} {ws : Workspace}
    {s : Settings} (h : r.settings env ws = .ok s) :
    ∃ s₀, Settings.effective ws env r.config = .ok s₀ ∧ s = s₀.override r.lead r.outputDir := by
  unfold Request.settings at h
  cases heffective : Settings.effective ws env r.config with
  | error e =>
    rw [heffective] at h
    cases h
  | ok s₀ =>
    rw [heffective] at h
    cases h
    exact ⟨s₀, rfl, rfl⟩

theorem Command.Generate.Request.perform_save {r : Request} {env : Environment} {ws after : Workspace}
    {s : Settings} {p : Path} (hsave : r.saveConfig = some p) (hs : r.settings env ws = .ok s)
    (h : s.save p ws = .ok after) :
    r.perform env ws = .print after (successLine ("Configuration written to " ++ p)) := by
  unfold Request.perform saveEffect
  rw [hs, hsave]
  simp only [h]

theorem Command.Generate.Request.save_of_perform {r : Request} {env : Environment} {ws : Workspace}
    {s : Settings} {p : Path} (hsave : r.saveConfig = some p) (hs : r.settings env ws = .ok s)
    (hdone : (r.perform env ws).exitCode = 0) : s.save p ws = .ok (r.perform env ws).workspace := by
  unfold Request.perform at hdone ⊢
  rw [hs, hsave] at hdone ⊢
  simp only [saveEffect] at hdone ⊢
  cases hwrite : s.save p ws with
  | error e =>
    rw [hwrite] at hdone
    cases hdone
  | ok after => rfl

/-- Settings that were saved are loaded again if and only if their file can be read from the root and,
where they have no output directory, no layer below has one. No layer below has one if all layers that
they came from set settings inside tables, and the output directory to texts. -/
theorem saved_settings_load_iff {r : Request} {env : Environment} {ws after : Workspace} {s : Settings}
    {p : Path} {leaf : String} (hw : ws.tree.WellFormed) (henv : env.layer = [])
    (hs : r.settings env ws = .ok s) (hsave : r.saveConfig = some p)
    (hdone : (r.perform env ws).exitCode = 0) (hafter : (r.perform env ws).workspace = after)
    (hleaf : p.steps.getLast? = some leaf) (hext : Path.extension? leaf = some "toml")
    (htoml : ∀ file ∈ Settings.files after env none, ∀ found,
      after.findSettings file.1 = .ok found → found.2 = .toml) :
    ∃ lower, Settings.overlayFiles after [] (Settings.files after env none) = .ok lower ∧
      (Settings.effective after env (some p) = .ok s ↔
        (∃ bytes, after.readBytes (after.workingPath.join p) = .ok bytes) ∧
          (s.outputDir = none → ∀ v, Key.outputDir.held lower = some v → v.isNull = true)) ∧
      ∀ layers, List.Forall₂ (fun file layer => ws.fileLayer file.2 file.1 = .ok layer)
          (Settings.files ws env r.config) layers →
        (∀ layer ∈ layers, PlainLayer layer ∧
          ∀ v, Key.outputDir.given layer = some v → v.text?.isSome = true) →
        s.outputDir = none → Key.outputDir.held lower = none := by
  have hwrite : ws.writeFile p s.toToml.toUTF8 = .ok after :=
    (Request.save_of_perform hsave hs hdone).trans (congrArg Except.ok hafter)
  have hw' := Workspace.wellFormed_writeFile hw hwrite
  obtain ⟨loc, mode, hfilled, hstat⟩ := Workspace.exists_filled_of_writeFile hwrite
  obtain ⟨s₀, heffective, rfl⟩ := Request.exists_effective hs
  obtain ⟨before, hbefore⟩ := Settings.exists_layers_of_effective heffective
  have hold : ∀ file ∈ Settings.files ws env none, ∃ layer, ws.fileLayer file.2 file.1 = .ok layer := by
    intro file hfile
    obtain ⟨layer, _, hlayer⟩ :=
      Settings.exists_layer_of_mem hbefore (Settings.mem_files_of_none r.config hfile)
    exact ⟨layer, hlayer⟩
  obtain ⟨lower, hlower, hbelow⟩ := Settings.exists_layers fun file hfile =>
    Settings.exists_below hw' hfilled hold (htoml file hfile) hfile
  have hmerged : Settings.overlayFiles after [] (Settings.files after env none) =
      .ok (lower.foldl overlay []) := Settings.overlayFiles_eq_foldl hlower
  refine ⟨_, hmerged, Settings.effective_saved_iff hw' henv hstat hleaf hext hmerged, ?_⟩
  intro layers hlayers hplain hdir
  have hdir₀ : s₀.outputDir = none := (Option.or_eq_none_iff.mp hdir).2
  exact Settings.held_of_below hlayers (fun layer hmem => (hplain layer hmem).1)
    (Settings.not_given_of_effective hlayers hplain henv heffective hdir₀) hdir hbelow

/-- Settings with quotes and a line break in the prefix. -/
def quotedSettings : Settings where
  lead := "it's\n\"'''\"\t"
  outputDir := some "x"

/-- The files with settings and one more, in which these are saved. -/
def quotedFiles : Workspace :=
  layeredFiles.insert ["s.toml"] (.file quotedSettings.toToml.toUTF8 fileMode)

theorem toml_quotedFiles : ∀ file ∈ Settings.files quotedFiles [] none, ∀ found,
    quotedFiles.findSettings file.1 = .ok found → found.2 = .toml := by
  have hfirst : quotedFiles.findSettings "interfaces.toml" = .ok (_, .toml) :=
    Workspace.findSettings_of_isFile rfl rfl
  have hsecond : quotedFiles.findSettings ".interfaces.toml" =
      .error (.missingFile ".interfaces.toml") := rfl
  have hthird : quotedFiles.findSettings "config/interfaces.toml" = .ok (_, .toml) :=
    Workspace.findSettings_of_isFile rfl rfl
  have hfiles : Settings.files quotedFiles [] none = Settings.localFiles.map (·, false) := rfl
  rw [hfiles, Settings.localFiles]
  simp only [List.map_cons, List.map_nil, List.forall_mem_cons, hfirst, hsecond, hthird]
  grind

theorem effective_layeredFiles :
    Settings.effective layeredFiles [] none = .ok { lead := "b", outputDir := some "x" } := by
  refine (Settings.effective_of_layers (layers_layeredFiles rfl) ?_).trans ?_
  · simp only [List.cons_append, List.nil_append, List.forall_mem_cons]
    exact ⟨Settings.plainLayer_savedLayer _ _, plainLayer_nil, Settings.plainLayer_savedLayer _ _,
      plainLayer_nil, fun _ hmem => by cases hmem⟩
  · simp only [settingsOf, Key.inEffect, List.cons_append, List.nil_append, List.filterMap_cons,
      Settings.given_savedLayer, Settings.savedValue]
    rfl

theorem wellFormed_layeredFiles : layeredFiles.tree.WellFormed :=
  ((FileTree.wellFormed_empty.insert_new ⟨_, rfl⟩ (by decide) rfl).insert_new ⟨_, rfl⟩ (by decide)
    rfl).insert_new ⟨_, rfl⟩ (by decide) rfl

/-- The prefix of the command line is saved with the output directory of a file, and both are loaded. -/
theorem saved_layeredFiles :
    Settings.effective (Request.perform ⟨".", quotedSettings.lead, none, .write, none, some "s.toml"⟩ []
        layeredFiles).workspace [] (some "s.toml") = .ok quotedSettings := by
  have hs : Request.settings ⟨".", quotedSettings.lead, none, .write, none, some "s.toml"⟩ []
      layeredFiles = .ok quotedSettings := by
    rw [Request.settings, effective_layeredFiles]
    rfl
  have hsave : quotedSettings.save "s.toml" layeredFiles = .ok quotedFiles := by
    unfold Settings.save quotedFiles
    generalize quotedSettings.toToml.toUTF8 = contents
    rfl
  have hperform := Request.perform_save rfl hs hsave
  have hafter := congrArg Effect.workspace hperform
  have hleaf : (Path.steps "s.toml").getLast? = some "s.toml" := by decide
  obtain ⟨lower, _, hload, _⟩ := saved_settings_load_iff wellFormed_layeredFiles rfl hs rfl
    (congrArg Effect.exitCode hperform) hafter hleaf (by decide) toml_quotedFiles
  rw [hafter]
  exact hload.mpr ⟨⟨_, rfl⟩, fun h => by cases h⟩

/-- The output directory of the first file is hidden by a list in the second one. -/
def hiddenDirectory : Workspace where
  tree := (FileTree.empty.insert ["interfaces.toml"]
      (.file (Settings.toToml { outputDir := some "x" }).toUTF8 fileMode)).insert
    ["over.toml"] (.file "output = []\n".toUTF8 fileMode)
  workingDir := []

theorem wellFormed_hiddenDirectory : hiddenDirectory.tree.WellFormed :=
  (FileTree.wellFormed_empty.insert_new ⟨_, rfl⟩ (by decide) rfl).insert_new ⟨_, rfl⟩ (by decide) rfl

theorem parse?_hidingList :
    Toml.parse? "output = []\n" = some (.table .declared [("output", .array [])]) := by
  have htext : "output = []\n".toList =
      "output".toList ++ ' ' :: '=' :: ' ' :: (['[', ']'] ++ '\n' :: []) := by simp
  have hline : Toml.readLine 13 "output = []\n".toList =
      some (.field [] "output" (.array []), []) := by
    have hread := Toml.readLine_field (Toml.bare_key (by decide : "output".toList ≠ [] ∧ _))
      ⟨'[', [']'], rfl, rfl⟩ (rfl : Toml.readValue 13 _ (['[', ']'] ++ '\n' :: []) = some (.array [], _))
    rwa [← htext, String.ofList_toList] at hread
  have hadd : Toml.Draft.add ⟨[], []⟩ (.field [] "output" (.array [])) =
      some ⟨[("output", .array [])], []⟩ := rfl
  have hmark : Toml.dropMark "output = []\n".toList = "output = []\n".toList := by
    simp [Toml.dropMark]
  have hsize : "output = []\n".toList.length + 1 = 13 := by simp
  simp only [Toml.parse?, hmark, hsize]
  rw [Toml.readLines_line (by simp) hline hadd]
  rfl

theorem fileLayer_hidingList : hiddenDirectory.fileLayer true "over.toml" =
    .ok [("output", .list (some "over.toml") [])] := by
  have hlayer : hiddenDirectory.fileLayer true "over.toml" =
      Format.toml.parse "over.toml" "output = []\n" := Workspace.fileLayer_of_stat rfl rfl rfl
  rw [hlayer]
  simp only [Format.parse, parse?_hidingList]
  rfl

theorem effective_hiddenDirectory :
    Settings.effective hiddenDirectory [] (some "over.toml") = .ok {} := by
  have hfirst : hiddenDirectory.fileLayer false "interfaces.toml" =
      .ok (Settings.savedLayer { outputDir := some "x" } "interfaces.toml") :=
    (Workspace.fileLayer_of_stat rfl rfl rfl).trans (Settings.parse_toToml _ _)
  have hfiles : Settings.overlayFiles hiddenDirectory []
      (Settings.files hiddenDirectory [] (some "over.toml")) = _ :=
    Settings.overlayFiles_eq_foldl
      (.cons hfirst (.cons rfl (.cons rfl (.cons fileLayer_hidingList .nil))))
  have hlead : Text.toLowercase "prefix" = "prefix" := Key.lead.toLowercase_name
  have hextension : Text.toLowercase "extension" = "extension" := Key.extension.toLowercase_name
  have hdefaults : Text.toLowercase "apply_defaults" = "apply_defaults" :=
    Key.applyDefaults.toLowercase_name
  have houtput : Text.toLowercase "output" = "output" := Key.lead.toLowercase_group
  have hschema : Text.toLowercase "schema" = "schema" := Key.extension.toLowercase_group
  have houtputPath : pathOf "output" = [.field "output"] := Key.lead.pathOf_group
  have hschemaPath : pathOf "schema" = [.field "schema"] := Key.extension.pathOf_group
  rw [Settings.effective_eq_ofFields hfiles]
  simp only [Settings.savedLayer, Settings.document, Settings.outputTable, Settings.schemaTable,
    ofTomlFields, ofToml, List.foldl_cons, List.foldl_nil, Setting.overlay, houtputPath, hschemaPath,
    assignAt, assign, assignAll, putField, fieldAt, asTable, hlead, hextension, hdefaults, houtput,
    hschema]
  rfl

/-- The same with the settings in effect saved to a file. -/
def afterSaving : Workspace :=
  hiddenDirectory.insert ["saved.toml"] (.file (Settings.toToml {}).toUTF8 fileMode)

theorem save_hiddenDirectory : Settings.save {} "saved.toml" hiddenDirectory = .ok afterSaving := by
  unfold Settings.save afterSaving
  generalize (Settings.toToml {}).toUTF8 = contents
  rfl

theorem overlayFiles_afterSaving :
    Settings.overlayFiles afterSaving [] (Settings.files afterSaving [] none) =
      .ok (overlay [] (Settings.savedLayer { outputDir := some "x" } "interfaces.toml")) := by
  have hfirst : afterSaving.fileLayer false "interfaces.toml" =
      .ok (Settings.savedLayer { outputDir := some "x" } "interfaces.toml") :=
    (Workspace.fileLayer_of_stat rfl rfl rfl).trans (Settings.parse_toToml _ _)
  have hfiles : Settings.overlayFiles afterSaving [] (Settings.files afterSaving [] none) = _ :=
    Settings.overlayFiles_eq_foldl (.cons hfirst (.cons rfl (.cons rfl .nil)))
  have hnil : ∀ fields : Fields, overlay fields [] = fields := fun _ => rfl
  rw [hfiles, List.foldl_cons, List.foldl_cons, List.foldl_cons, List.foldl_nil, hnil, hnil]

/-- Settings without an output directory are saved, and loaded with the one that was hidden. -/
theorem hidden_directory_comes_back :
    ¬ ∀ (r : Request) (env : Environment) (ws : Workspace) (s : Settings) (p : Path) (leaf : String),
      ws.tree.WellFormed → env.layer = [] → r.settings env ws = .ok s → r.saveConfig = some p →
      (r.perform env ws).exitCode = 0 → p.steps.getLast? = some leaf →
      Path.extension? leaf = some "toml" →
      Settings.effective (r.perform env ws).workspace env (some p) = .ok s := by
  intro hall
  have hs : Request.settings ⟨".", none, none, .write, some "over.toml", some "saved.toml"⟩ []
      hiddenDirectory = .ok {} := by
    rw [Request.settings, effective_hiddenDirectory]
    rfl
  have hperform := Request.perform_save rfl hs save_hiddenDirectory
  have hloaded := hall _ _ _ _ _ "saved.toml" wellFormed_hiddenDirectory rfl hs rfl
    (congrArg Effect.exitCode hperform) (by decide) (by decide)
  rw [hperform] at hloaded
  have hstat : afterSaving.stat "saved.toml" =
      .ok (["saved.toml"], .file (Settings.toToml {}).toUTF8 fileMode) := rfl
  have hleaf : Path.steps "saved.toml" = ["saved.toml"] := by decide
  have hw := Workspace.wellFormed_writeFile wellFormed_hiddenDirectory save_hiddenDirectory
  have hnull := ((Settings.effective_saved_iff hw rfl hstat (congrArg List.getLast? hleaf) (by decide)
    overlayFiles_afterSaving).mp hloaded).2 rfl
  have hheld := Settings.held_overlay_savedLayer { outputDir := some "x" } "interfaces.toml" [] .outputDir
  cases hnull _ hheld

end InterfaceTables
