import InterfaceTables.Proofs.MakingDirectories

/-!
Files that are finished in one directory before they are put somewhere else. They are found again
through the path of that directory, so they can be placed and removed as long as it leads there.
-/

namespace InterfaceTables

namespace FileTree

variable {t : FileTree} {dir loc : Location} {name : String} {contents : ByteArray} {mode : Nat}

theorem keeps_insert_file (hl : loc ≠ []) (hd : ¬ t.IsDirectory loc)
    (hk : ∀ target, t.get? loc ≠ some (.link target)) :
    t.Keeps (t.insert loc (.file contents mode)) where
  directory {l m} h := by
    have hne : l ≠ loc := fun he => hd ⟨m, he ▸ h⟩
    rw [get?_insert_of_ne t _ hne, h]
  link {l target} h := by
    have hne : l ≠ loc := fun he => hk target (he ▸ h)
    rw [get?_insert_of_ne t _ hne, h]
  file {l c m} h := by
    by_cases hne : l = loc
    · subst hne
      exact ⟨_, _, get?_insert_self t _ _ hl⟩
    · exact ⟨c, m, by rw [get?_insert_of_ne t _ hne, h]⟩

theorem passable_cons_iff : t.passable (name :: dir) = true ↔
    t.Searchable dir ∧ name.utf8ByteSize ≤ Path.maxName ∧ t.passable dir = true := by
  rw [passable, Searchable]
  cases t.get? dir with
  | none => simp
  | some e => cases e <;> simp [and_assoc]

theorem Keeps.passable {t' : FileTree} (hk : t.Keeps t') (h : t.passable loc = true) :
    t'.passable loc = true := by
  induction loc with
  | nil => rfl
  | cons name dir ih =>
    obtain ⟨⟨mode, hm, hs⟩, hname, hpass⟩ := passable_cons_iff.mp h
    exact passable_cons_iff.mpr ⟨⟨mode, hk.directory hm, hs⟩, hname, ih hpass⟩

/-- Whether a place can be reached depends on the directories alone. -/
theorem passable_congr {t' : FileTree}
    (h : ∀ l m, t'.get? l = some (.directory m) ↔ t.get? l = some (.directory m)) (loc : Location) :
    t'.passable loc = t.passable loc := by
  induction loc with
  | nil => rfl
  | cons name dir ih =>
    rw [Bool.eq_iff_iff, passable_cons_iff, passable_cons_iff, ih, Searchable, Searchable]
    simp only [h]

theorem get?_insert_file_eq_directory_iff (hl : loc ≠ []) (hd : ¬ t.IsDirectory loc) (l : Location)
    (m : Nat) : (t.insert loc (.file contents mode)).get? l = some (.directory m) ↔
      t.get? l = some (.directory m) := by
  by_cases he : l = loc
  · subst he
    rw [get?_insert_self t l _ hl]
    constructor
    · intro h
      cases h
    · intro h
      exact absurd ⟨m, h⟩ hd
  · rw [get?_insert_of_ne t _ he]

/-! ## Spare names -/

theorem exists_get?_iff : (∃ e, t.get? (name :: dir) = some e) ↔ ∃ e, (name :: dir, e) ∈ t.entries := by
  rw [← Option.isSome_iff_exists]
  show (t.entries.lookup (name :: dir)).isSome = true ↔ _
  rw [List.lookup_isSome_iff]
  constructor
  · rintro ⟨⟨l, e⟩, hm, hl⟩
    exact ⟨e, by rwa [eq_of_beq hl]⟩
  · rintro ⟨e, hm⟩
    exact ⟨_, hm, by simp⟩

theorem mem_names_iff : name ∈ t.names dir ↔ ∃ e, t.get? (name :: dir) = some e := by
  rw [exists_get?_iff, names, List.mem_filterMap]
  constructor
  · rintro ⟨⟨l, e⟩, hm, h⟩
    cases l with
    | nil => cases h
    | cons name' parent =>
      simp only [Option.ite_none_right_eq_some, Option.some.injEq] at h
      obtain ⟨rfl, rfl⟩ := h
      exact ⟨e, hm⟩
  · rintro ⟨e, hm⟩
    exact ⟨_, hm, by simp⟩

theorem toList_spareName (t : FileTree) (dir : Location) :
    ∃ n, 5 < n ∧ (t.spareName dir).toList = ".tmp".toList ++ List.replicate n '0' ∧
      ∀ name ∈ t.names dir, name.length ≤ n := by
  refine ⟨((t.names dir).map fun name => name.length).foldl max 6, ?_, by simp [spareName], ?_⟩
  · rw [List.foldl_max]
    omega
  · intro name hname
    rw [List.foldl_max]
    have hle := List.le_max?_getD_of_mem (k := 6)
      (List.mem_map_of_mem (f := fun name : String => name.length) hname)
    omega

theorem get?_spareName (t : FileTree) (dir : Location) : t.get? (t.spareName dir :: dir) = none := by
  obtain ⟨n, _, hlist, hlong⟩ := t.toList_spareName dir
  cases he : t.get? (t.spareName dir :: dir) with
  | none => rfl
  | some e =>
    have hle := hlong _ (mem_names_iff.mpr ⟨e, he⟩)
    rw [← String.length_toList, hlist, List.length_append, List.length_replicate] at hle
    have hprefix : ".tmp".toList.length = 4 := rfl
    omega

theorem isEntryName_spareName (t : FileTree) (dir : Location) :
    Path.IsEntryName (t.spareName dir) := by
  obtain ⟨n, hn, hlist, _⟩ := t.toList_spareName dir
  have hne : ∀ short : String, short.length < 4 → t.spareName dir ≠ short := by
    intro short hs he
    rw [← he, ← String.length_toList, hlist, List.length_append, List.length_replicate] at hs
    omega
  refine ⟨hne _ (by decide), hne _ (by decide), hne _ (by decide), ?_⟩
  rw [hlist]
  simp

theorem fileName_ne_spareName (k : ArtifactKind) (stem : String) (t : FileTree) (dir : Location) :
    k.fileName stem ≠ t.spareName dir := by
  obtain ⟨n, hn, hlist, _⟩ := t.toList_spareName dir
  intro he
  have hlast := ArtifactKind.getLast?_fileName k stem
  rw [he, hlist, List.getLast?_append, List.getLast?_replicate, if_neg (by omega)] at hlast
  cases k <;> simp [ArtifactKind.extension] at hlast

end FileTree

namespace Workspace

variable {ws ws' : Workspace} {dir p : Path} {loc made : Location} {contents : ByteArray} {mode : Nat}

theorem start_eq (h : ws'.workingDir = ws.workingDir) (p : Path) : ws'.start p = ws.start p := by
  rw [start, start, h]

theorem resolve_of_keeps {p : Path} {last : LastStep} (hk : ws.tree.Keeps ws'.tree)
    (hd : ws'.workingDir = ws.workingDir) (h : ws.resolve last p = .ok (.entry loc)) :
    ws'.resolve last p = .ok (.entry loc) := by
  obtain ⟨hf, hlead⟩ := resolve_eq_ok_iff.mp h
  refine resolve_eq_ok_iff.mpr ⟨hf, ?_⟩
  rw [start_eq hd p]
  exact hk.leads hlead

theorem stat_directory_of_keeps {p : Path} {mode : Nat} (hk : ws.tree.Keeps ws'.tree)
    (hd : ws'.workingDir = ws.workingDir) (h : ws.stat p = .ok (loc, .directory mode)) :
    ws'.stat p = .ok (loc, .directory mode) := by
  obtain ⟨hr, hm⟩ := entry_eq_ok_iff.mp h
  exact entry_eq_ok_iff.mpr ⟨resolve_of_keeps hk hd hr, hk.directory hm⟩

theorem mayChange_iff {dir : Location} : ws.mayChange dir = true ↔
    ∃ mode, ws.tree.get? dir = some (.directory mode) ∧ mayWrite mode = true ∧
      maySearch mode = true := by
  unfold mayChange
  cases h : ws.tree.get? dir with
  | none => simp
  | some e => cases e <;> simp

theorem isDirectory_of_mayChange (h : ws.mayChange loc = true) : ws.tree.IsDirectory loc := by
  obtain ⟨mode, hm, _⟩ := mayChange_iff.mp h
  exact ⟨mode, hm⟩

theorem outOfReach?_eq_none_iff : ws.outOfReach? dir = none ↔
    (ws.stagedPath dir).fault? = none ∧ ws.tree.passable (ws.start dir) = true := by
  unfold outOfReach?
  cases ws.tree.passable (ws.start dir) <;> simp

theorem outOfReach?_cases {e : IoError} (h : ws.outOfReach? dir = some e) :
    (ws.stagedPath dir).fault? = some e ∨ e = .denied := by
  unfold outOfReach? at h
  cases hf : (ws.stagedPath dir).fault? with
  | none => simp_all
  | some e' => simp_all

theorem stagedPath_eq (h : ws'.workingDir = ws.workingDir) (dir : Path) :
    ws'.stagedPath dir = ws.stagedPath dir := by
  rw [stagedPath, stagedPath, workingPath, workingPath, h]

theorem outOfReach?_of_keeps (hk : ws.tree.Keeps ws'.tree) (hd : ws'.workingDir = ws.workingDir)
    (h : ws.outOfReach? dir = none) : ws'.outOfReach? dir = none := by
  obtain ⟨hfault, hpass⟩ := outOfReach?_eq_none_iff.mp h
  rw [outOfReach?_eq_none_iff, stagedPath_eq hd, start_eq hd]
  exact ⟨hfault, hk.passable hpass⟩

theorem outOfReach?_congr (hd : ws'.workingDir = ws.workingDir)
    (h : ∀ l m, ws'.tree.get? l = some (.directory m) ↔ ws.tree.get? l = some (.directory m))
    (dir : Path) : ws'.outOfReach? dir = ws.outOfReach? dir := by
  unfold outOfReach?
  rw [stagedPath_eq hd, start_eq hd, FileTree.passable_congr h]

theorem outOfReach?_insert_file (hl : loc ≠ []) (hd : ¬ ws.tree.IsDirectory loc) (dir : Path) :
    (ws.insert loc (.file contents mode)).outOfReach? dir = ws.outOfReach? dir := by
  have hdir : (ws.insert loc (.file contents mode)).workingDir = ws.workingDir := rfl
  exact outOfReach?_congr hdir (FileTree.get?_insert_file_eq_directory_iff hl hd) dir

theorem staging_of_outOfReach {e : IoError} (h : ws.outOfReach? dir = some e) :
    ws.staging dir = .error e := by
  simp [staging, h]

theorem staging_of_stat {mode : Nat} (hr : ws.outOfReach? dir = none)
    (hs : ws.stat dir = .ok (loc, .directory mode)) :
    ws.staging dir = if ws.mayChange loc then .ok loc else .error .denied := by
  have hd : dir.isEmpty = false := by
    rw [String.isEmpty_eq_false_iff]
    rintro rfl
    cases hs
  simp [staging, hr, hd, hs]

/-- Files are staged in a directory that may be changed, if their whole path can be followed; the empty
path is the working directory. -/
theorem staging_eq_ok_iff_stat :
    ws.staging dir = .ok loc ↔ ws.outOfReach? dir = none ∧
      ∃ mode, ws.stat (if dir.isEmpty then "." else dir) = .ok (loc, .directory mode) ∧
        ws.mayChange loc = true := by
  cases hr : ws.outOfReach? dir with
  | some e => simp [staging_of_outOfReach hr]
  | none =>
    rw [and_iff_right rfl]
    simp only [staging, hr]
    constructor
    · intro h
      split at h
      · cases h
      · rename_i loc' mode hs
        split at h
        · cases h
          exact ⟨mode, hs, by assumption⟩
        · cases h
      · cases h
    · rintro ⟨mode, hs, hc⟩
      simp only [hs, hc, if_true]

theorem mayChange_of_staging (h : ws.staging dir = .ok loc) : ws.mayChange loc = true := by
  obtain ⟨_, _, _, hc⟩ := staging_eq_ok_iff_stat.mp h
  exact hc

theorem staging_eq_ok_iff (hd : dir ≠ "") :
    ws.staging dir = .ok loc ↔ ws.outOfReach? dir = none ∧
      ∃ mode, ws.stat dir = .ok (loc, .directory mode) ∧ ws.mayChange loc = true := by
  have he : dir.isEmpty = false := String.isEmpty_eq_false_iff.mpr hd
  rw [staging_eq_ok_iff_stat, he, if_neg (by simp)]

theorem mayChange_of_keeps (hk : ws.tree.Keeps ws'.tree) {loc : Location}
    (h : ws.mayChange loc = true) : ws'.mayChange loc = true := by
  obtain ⟨m, hm, hwrite⟩ := mayChange_iff.mp h
  exact mayChange_iff.mpr ⟨m, hk.directory hm, hwrite⟩

theorem staging_of_keeps (hk : ws.tree.Keeps ws'.tree) (hd : ws'.workingDir = ws.workingDir)
    (h : ws.staging dir = .ok loc) : ws'.staging dir = .ok loc := by
  obtain ⟨hr, mode, hs, hc⟩ := staging_eq_ok_iff_stat.mp h
  exact staging_eq_ok_iff_stat.mpr ⟨outOfReach?_of_keeps hk hd hr,
    mode, stat_directory_of_keeps hk hd hs, mayChange_of_keeps hk hc⟩

/-- At the root a slash before the path makes it whole. -/
theorem outOfReach?_of_root (hw : ws.workingDir = [])
    (hpath : ((Path.join "/" dir).join ".tmp000000").fault? = none) : ws.outOfReach? dir = none := by
  have hwhole : ws.stagedPath dir = (Path.join "/" dir).join ".tmp000000" := by
    rw [stagedPath, workingPath, hw]
    rfl
  have hpass : ws.tree.passable (ws.start dir) = true := by
    rw [start, hw, ite_self]
    rfl
  exact outOfReach?_eq_none_iff.mpr ⟨hwhole ▸ hpath, hpass⟩

theorem staging_of_root {mode : Nat} (hw : ws.workingDir = [])
    (hpath : ((Path.join "/" dir).join ".tmp000000").fault? = none)
    (hs : ws.stat dir = .ok (loc, .directory mode)) (hc : ws.mayChange loc = true) :
    ws.staging dir = .ok loc := by
  rw [staging_of_stat (outOfReach?_of_root hw hpath) hs, if_pos hc]

/-! ## Staged files -/

theorem placeStaged_of_staging (h : ws.staging dir = .ok made) :
    ws.placeStaged dir made p contents mode = ws.place made p contents mode := by
  simp [placeStaged, h]

theorem place_of_placeStaged (h : ws.placeStaged dir made p contents mode = .ok ws') :
    ws.place made p contents mode = .ok ws' := by
  unfold placeStaged at h
  split at h
  · cases h
  · split at h
    · exact h
    · cases h

/-- A file that is found again is removed. -/
theorem dropStaged_of_staging (h : ws.staging dir = .ok made) :
    ws.dropStaged dir made contents mode = ws := by
  simp [dropStaged, h]

theorem dropStaged_cases (ws : Workspace) (dir : Path) (made : Location) (contents : ByteArray)
    (mode : Nat) :
    ws.dropStaged dir made contents mode = ws ∨
      ws.dropStaged dir made contents mode =
        ws.insert (ws.tree.spareName made :: made) (.file contents mode) := by
  unfold dropStaged
  dsimp only
  split
  · exact Or.inr rfl
  · split
    · exact Or.inl rfl
    · exact Or.inr rfl

theorem keeps_dropStaged (ws : Workspace) (dir : Path) (made : Location) (contents : ByteArray)
    (mode : Nat) : ws.tree.Keeps (ws.dropStaged dir made contents mode).tree := by
  have hnone := ws.tree.get?_spareName made
  cases ws.dropStaged_cases dir made contents mode with
  | inl h =>
    rw [h]
    exact .refl _
  | inr h =>
    rw [h]
    refine FileTree.keeps_insert_file (by simp) ?_ (by simp [hnone])
    rintro ⟨m, hm⟩
    cases hnone.symm.trans hm

theorem workingDir_dropStaged (ws : Workspace) (dir : Path) (made : Location) (contents : ByteArray)
    (mode : Nat) : (ws.dropStaged dir made contents mode).workingDir = ws.workingDir := by
  cases ws.dropStaged_cases dir made contents mode with
  | inl h => rw [h]
  | inr h =>
    rw [h]
    rfl

/-- A file that stays changes nothing under any other name. -/
theorem get?_dropStaged {name : String} (hn : name ≠ ws.tree.spareName made) (l : Location) :
    (ws.dropStaged dir made contents mode).tree.get? (name :: l) = ws.tree.get? (name :: l) := by
  cases ws.dropStaged_cases dir made contents mode with
  | inl h => rw [h]
  | inr h =>
    rw [h]
    exact FileTree.get?_insert_of_ne _ _ fun he => hn (List.cons.inj he).1

end Workspace

end InterfaceTables
