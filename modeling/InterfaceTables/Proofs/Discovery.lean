import InterfaceTables.Generation.Run
import InterfaceTables.Proofs.WellFormed
import Mathlib.Data.List.Nodup

/-!
What the documents of a directory depend on. In a tree without links, files with another extension may
come and go and directories may be added: the same documents are found, in the same order.
-/

namespace InterfaceTables

namespace FileTree

variable {t t' : FileTree} {dir : Location} {name : String}

/-! ## Names in a directory -/

theorem nodup_names (t : FileTree) (dir : Location) : (t.names dir).Nodup := by
  have hn := List.pairwise_map.mp t.nodup
  rw [names, List.Nodup, List.pairwise_filterMap]
  refine hn.imp ?_
  rintro ⟨l, e⟩ ⟨l', e'⟩ hne name hl name' hl' rfl
  cases l with
  | nil => cases hl
  | cons a parent =>
    cases l' with
    | nil => cases hl'
    | cons a' parent' =>
      simp only [Option.ite_none_right_eq_some, Option.some.injEq] at hl hl'
      exact hne (by rw [hl.1, hl.2, hl'.1, hl'.2])

theorem pairwise_sortedNames (t : FileTree) (dir : Location) :
    (t.sortedNames dir).Pairwise (· ≤ ·) := by
  have h : (t.sortedNames dir).Pairwise fun a b => decide (a ≤ b) = true := by
    refine List.pairwise_mergeSort (fun a b c hab hbc => ?_) (fun a b => ?_) (t.names dir)
    · exact decide_eq_true (String.le_trans (of_decide_eq_true hab) (of_decide_eq_true hbc))
    · simpa using String.le_total a b
  exact h.imp fun hab => of_decide_eq_true hab

theorem mem_sortedNames_iff : name ∈ t.sortedNames dir ↔ ∃ e, t.get? (name :: dir) = some e :=
  (List.mergeSort_perm (t.names dir) _).mem_iff.trans mem_names_iff

theorem nodup_sortedNames (t : FileTree) (dir : Location) : (t.sortedNames dir).Nodup :=
  (List.mergeSort_perm (t.names dir) _).nodup_iff.mpr (t.nodup_names dir)

theorem pairwise_lt_sortedNames (t : FileTree) (dir : Location) :
    (t.sortedNames dir).Pairwise (· < ·) := by
  have hsorted := (t.pairwise_sortedNames dir).and (t.nodup_sortedNames dir)
  exact hsorted.imp fun hle => Classical.byContradiction fun hlt =>
    hle.2 (String.le_antisymm hle.1 (String.not_lt.mp hlt))

/-- Two choices from the names of a directory are the same list if they have the same names. -/
theorem filter_sortedNames_eq {p p' : String → Bool}
    (h : ∀ name, ((∃ e, t.get? (name :: dir) = some e) ∧ p name = true) ↔
      ((∃ e, t'.get? (name :: dir) = some e) ∧ p' name = true)) :
    (t.sortedNames dir).filter p = (t'.sortedNames dir).filter p' := by
  refine List.Perm.eq_of_pairwise (fun a b _ _ => String.le_antisymm)
    ((t.pairwise_sortedNames dir).filter p) ((t'.pairwise_sortedNames dir).filter p') ?_
  rw [List.perm_ext_iff_of_nodup ((t.nodup_sortedNames dir).filter p)
    ((t'.nodup_sortedNames dir).filter p')]
  intro name
  rw [List.mem_filter, List.mem_filter, mem_sortedNames_iff, mem_sortedNames_iff]
  exact h name

/-! ## Paths without links -/

variable {links : Nat} {here mid loc : Location} {front steps : List String}

theorem LinkFree.leads_append (hl : t.LinkFree)
    (h : t.Leads .followed links here front (.entry mid))
    (h' : t.Leads .followed links mid steps (.entry loc)) :
    t.Leads .followed links here (front ++ steps) (.entry loc) := by
  generalize hg : Target.entry mid = goal at h
  induction h with
  | done =>
    cases hg
    exact h'
  | blank dir _ ih => exact .blank dir (ih h' hg)
  | dot dir _ ih => exact .dot dir (ih h' hg)
  | up dir _ ih => exact .up dir (ih h' hg)
  | absent => cases hg
  | enter look found solid _ ih => exact .enter (look.of_ne_written (by simp)) found solid (ih h' hg)
  | stop _ found _ => exact absurd found (hl _ _)
  | follow _ found _ _ _ => exact absurd found (hl _ _)

theorem LinkFree.leads_split (hl : t.LinkFree)
    (h : t.Leads .followed links here (front ++ steps) (.entry loc)) :
    ∃ mid, t.Leads .followed links here front (.entry mid) ∧
      t.Leads .followed links mid steps (.entry loc) := by
  induction front generalizing here with
  | nil => exact ⟨here, .done, h⟩
  | cons step front ih =>
    rw [List.cons_append] at h
    generalize hr : front ++ steps = rest at h
    cases h with
    | blank dir next =>
      obtain ⟨mid, hf, hs⟩ := ih (hr ▸ next)
      exact ⟨mid, .blank dir hf, hs⟩
    | dot dir next =>
      obtain ⟨mid, hf, hs⟩ := ih (hr ▸ next)
      exact ⟨mid, .dot dir hf, hs⟩
    | up dir next =>
      obtain ⟨mid, hf, hs⟩ := ih (hr ▸ next)
      exact ⟨mid, .up dir hf, hs⟩
    | enter look found solid next =>
      obtain ⟨mid, hf, hs⟩ := ih (hr ▸ next)
      exact ⟨mid, .enter (look.of_ne_written (by simp)) found solid hf, hs⟩
    | stop _ found _ => exact absurd found (hl _ _)
    | follow _ found _ _ => exact absurd found (hl _ _)

end FileTree

namespace Workspace

variable {ws ws' : Workspace} {dir : Path} {name : String} {loc l : Location} {e x : Entry}

theorem ne_empty_of_stat {p : Path} (h : ws.stat p = .ok (loc, e)) : p ≠ "" := by
  rintro rfl
  have hf := (resolve_eq_ok_iff.mp (entry_eq_ok_iff.mp h).1).1
  exact absurd hf (by decide)

/-- The path of a name in a directory has steps that lead to the directory, and the name. -/
theorem exists_front_of_stat (hl : ws.tree.LinkFree) (hs : ws.stat dir = .ok (loc, e))
    (hn : Path.IsEntryName name) :
    ∃ front, (dir.join name).steps = front ++ [name] ∧ ws.tree.Leads .followed FileTree.maxLinks
      (ws.start (dir.join name)) front (.entry loc) := by
  have hd := ne_empty_of_stat hs
  obtain ⟨front, hjoin, hsteps⟩ := Path.steps_join hd hn
  have hstart : ws.start (dir.join name) = ws.start dir := by
    rw [start, start, Path.isAbsolute_join hd hn]
  have hlead := (resolve_eq_ok_iff.mp (entry_eq_ok_iff.mp hs).1).2
  refine ⟨front, hjoin, ?_⟩
  rw [hstart]
  -- A slash at the end of `dir` leads no further.
  cases hsteps with
  | inl h => exact h ▸ hlead
  | inr h =>
    rw [h] at hlead
    obtain ⟨mid, hf, hslash⟩ := hl.leads_split hlead
    cases hslash.eq_of_slash
    exact hf

/-- Where the path of a name in a directory leads. -/
theorem stat_join_iff (hl : ws.tree.LinkFree) (hs : ws.stat dir = .ok (loc, e))
    (hn : Path.IsEntryName name) :
    ws.stat (dir.join name) = .ok (l, x) ↔
      (dir.join name).fault? = none ∧ ws.tree.Searchable loc ∧ name.utf8ByteSize ≤ Path.maxName ∧
        l = name :: loc ∧ ws.tree.get? (name :: loc) = some x := by
  obtain ⟨front, hjoin, hfront⟩ := exists_front_of_stat hl hs hn
  rw [stat, entry_eq_ok_iff, resolve_eq_ok_iff, hjoin]
  constructor
  · rintro ⟨⟨hf, hlead'⟩, hx⟩
    obtain ⟨mid, hmid, hname⟩ := hl.leads_split hlead'
    cases hmid.unique hfront
    cases hname with
    | blank => exact absurd rfl hn.ne_empty
    | dot => exact absurd rfl hn.ne_dot
    | up => exact absurd rfl hn.ne_up
    | enter look found _ next =>
      cases next
      exact ⟨hf, look.searchable, look.fits, rfl, hx⟩
    | stop _ found => exact absurd found (hl _ _)
    | follow _ found => exact absurd found (hl _ _)
  · rintro ⟨hf, hsearch, hfits, rfl, hx⟩
    refine ⟨⟨hf, hl.leads_append hfront ?_⟩, hx⟩
    have look : ws.tree.LooksUp .followed loc name [] :=
      ⟨hsearch, hn.ne_empty, hn.ne_dot, hn.ne_up, by simp, hfits⟩
    exact .enter look hx (fun target he => hl _ _ (he ▸ hx)) .done

theorem isFile_join_iff (hl : ws.tree.LinkFree) (hs : ws.stat dir = .ok (loc, e))
    (hn : Path.IsEntryName name) :
    ws.isFile (dir.join name) = true ↔
      (dir.join name).fault? = none ∧ ws.tree.Searchable loc ∧ name.utf8ByteSize ≤ Path.maxName ∧
        ∃ contents mode, ws.tree.get? (name :: loc) = some (.file contents mode) := by
  rw [isFile_iff]
  constructor
  · rintro ⟨l, contents, mode, h⟩
    obtain ⟨hf, hsearch, hfits, _, hx⟩ := (stat_join_iff hl hs hn).mp h
    exact ⟨hf, hsearch, hfits, contents, mode, hx⟩
  · rintro ⟨hf, hsearch, hfits, contents, mode, hx⟩
    exact ⟨_, contents, mode, (stat_join_iff hl hs hn).mpr ⟨hf, hsearch, hfits, rfl, hx⟩⟩

theorem list_eq_ok_iff {names : List String} :
    ws.list dir = .ok (loc, names) ↔
      ∃ mode, ws.stat dir = .ok (loc, .directory mode) ∧ mayRead mode = true ∧
        names = ws.tree.sortedNames loc := by
  unfold list
  cases ws.stat dir with
  | error e => simp
  | ok found =>
    obtain ⟨loc', e⟩ := found
    cases e with
    | file contents mode => simp
    | link target => simp
    | directory mode =>
      cases hr : mayRead mode with
      | false => simp [hr]
      | true =>
        simp only [hr, if_true, Except.ok.injEq, Prod.mk.injEq]
        constructor
        · rintro ⟨rfl, rfl⟩
          exact ⟨mode, ⟨rfl, rfl⟩, hr, rfl⟩
        · rintro ⟨mode', ⟨rfl, _⟩, _, rfl⟩
          exact ⟨rfl, rfl⟩

/-! ## Changes that leave documents alone -/

/-- All entries stay what they are, and the files with an extension are the same. -/
structure SameSources (extension : String) (ws ws' : Workspace) : Prop where
  keeps : ws.tree.Keeps ws'.tree
  workingDir : ws'.workingDir = ws.workingDir
  file_iff : ∀ {name loc contents mode}, Path.extension? name = some extension →
    (ws'.tree.get? (name :: loc) = some (.file contents mode) ↔
      ws.tree.get? (name :: loc) = some (.file contents mode))

theorem isFile_of_keeps {p : Path} (hk : ws.tree.Keeps ws'.tree)
    (hd : ws'.workingDir = ws.workingDir) (h : ws.isFile p = true) : ws'.isFile p = true := by
  obtain ⟨loc, contents, mode, hs⟩ := isFile_iff.mp h
  obtain ⟨hr, hm⟩ := entry_eq_ok_iff.mp hs
  obtain ⟨contents', mode', hf⟩ := hk.file hm
  exact isFile_iff.mpr ⟨loc, contents', mode', entry_eq_ok_iff.mpr ⟨resolve_of_keeps hk hd hr, hf⟩⟩

variable {extension : String}

/-- A file with the extension is found, and read, where it was. -/
theorem SameSources.stat_join (h : SameSources extension ws ws') (hl : ws.tree.LinkFree)
    (hl' : ws'.tree.LinkFree) (hn : Path.IsEntryName name)
    (hext : Path.extension? name = some extension) {mode : Nat}
    (hs : ws.stat dir = .ok (loc, .directory mode)) {contents : ByteArray} {m : Nat} :
    ws'.stat (dir.join name) = .ok (l, .file contents m) ↔
      ws.stat (dir.join name) = .ok (l, .file contents m) := by
  have hs' := stat_directory_of_keeps h.keeps h.workingDir hs
  have hloc := (entry_eq_ok_iff.mp hs).2
  have hsearch : ws'.tree.Searchable loc ↔ ws.tree.Searchable loc := by
    refine ⟨?_, h.keeps.searchable⟩
    rintro ⟨m, hm, hx⟩
    rw [h.keeps.directory hloc] at hm
    cases hm
    exact ⟨mode, hloc, hx⟩
  rw [stat_join_iff hl' hs' hn, stat_join_iff hl hs hn, hsearch, h.file_iff hext]

/-- All entries stay what they are, and the files with an extension that the paths of a directory lead
to are the same. -/
structure SameFound (dir : Path) (extension : String) (ws ws' : Workspace) : Prop where
  keeps : ws.tree.Keeps ws'.tree
  workingDir : ws'.workingDir = ws.workingDir
  stat_iff : ∀ {name loc mode l contents m}, ws.stat dir = .ok (loc, .directory mode) →
    Path.IsEntryName name → Path.extension? name = some extension →
    (ws'.stat (dir.join name) = .ok (l, .file contents m) ↔
      ws.stat (dir.join name) = .ok (l, .file contents m))

theorem SameSources.sameFound (h : SameSources extension ws ws') (hl : ws.tree.LinkFree)
    (hl' : ws'.tree.LinkFree) (dir : Path) : SameFound dir extension ws ws' where
  keeps := h.keeps
  workingDir := h.workingDir
  stat_iff hs hn hext := h.stat_join hl hl' hn hext hs

theorem SameFound.discover (h : SameFound dir extension ws ws') (hl : ws.tree.LinkFree)
    (hl' : ws'.tree.LinkFree) (hw : ws.tree.WellFormed) (hw' : ws'.tree.WellFormed)
    {files : List Path} (hd : ws.discover dir extension = .ok files) :
    ws'.discover dir extension = .ok files := by
  unfold Workspace.discover at hd
  split at hd
  case h_1 loc names hlist =>
    obtain ⟨mode, hs, hr, rfl⟩ := list_eq_ok_iff.mp hlist
    have hs' := stat_directory_of_keeps h.keeps h.workingDir hs
    have hlist' := list_eq_ok_iff.mpr ⟨mode, hs', hr, rfl⟩
    have hfile : ∀ {name}, Path.IsEntryName name → Path.extension? name = some extension →
        (ws'.isFile (dir.join name) = true ↔ ws.isFile (dir.join name) = true) := by
      intro name hn hext
      simp only [isFile_iff, h.stat_iff hs hn hext]
    have hexists : ∀ {ws : Workspace} {mode name}, ws.tree.LinkFree →
        ws.stat dir = .ok (loc, .directory mode) → Path.IsEntryName name →
        ws.isFile (dir.join name) = true → ∃ e, ws.tree.get? (name :: loc) = some e := by
      intro ws mode name hl hs hn hf
      obtain ⟨_, _, _, contents, m, hg⟩ := (isFile_join_iff hl hs hn).mp hf
      exact ⟨_, hg⟩
    rw [← hd]
    simp only [Workspace.discover, hlist']
    congr 2
    refine FileTree.filter_sortedNames_eq fun name => ?_
    simp only [Bool.and_eq_true, beq_iff_eq]
    constructor
    · rintro ⟨⟨e, he⟩, hf, hext⟩
      have hn := hw'.name he
      have hf' := (hfile hn hext).mp hf
      exact ⟨hexists hl hs hn hf', hf', hext⟩
    · rintro ⟨⟨e, he⟩, hf, hext⟩
      have hn := hw.name he
      have hf' := (hfile hn hext).mpr hf
      exact ⟨hexists hl' hs' hn hf', hf', hext⟩
  case h_2 e hlist =>
    split at hd
    · rename_i hf
      obtain ⟨loc, contents, mode, hs⟩ := isFile_iff.mp (isFile_of_keeps h.keeps h.workingDir hf)
      have hlist' : ws'.list dir = .error .notDirectory := by simp [list, hs]
      simp only [Workspace.discover, hlist', isFile_of_keeps h.keeps h.workingDir hf, if_true]
      exact hd
    · cases hd

/-- What a search finds are files of the directory with the extension. -/
theorem exists_of_mem_discover {files : List Path} (hd : ws.discover dir extension = .ok files)
    (hw : ws.tree.WellFormed) {p : Path} (hp : p ∈ files) :
    ∃ loc mode name, ws.stat dir = .ok (loc, .directory mode) ∧ Path.IsEntryName name ∧
      p = dir.join name ∧ ws.isFile p = true ∧ Path.extension? name = some extension := by
  unfold Workspace.discover at hd
  split at hd
  case h_1 loc names hlist =>
    obtain ⟨mode, hs, _, rfl⟩ := list_eq_ok_iff.mp hlist
    cases hd
    obtain ⟨name, hm, rfl⟩ := List.mem_map.mp hp
    obtain ⟨hnames, hf⟩ := List.mem_filter.mp hm
    simp only [Bool.and_eq_true, beq_iff_eq] at hf
    have hmem := (List.mergeSort_perm _ _).mem_iff.mp hnames
    obtain ⟨e, he⟩ := FileTree.mem_names_iff.mp hmem
    exact ⟨loc, mode, name, hs, hw.name he, rfl, hf⟩
  case h_2 e hlist =>
    split at hd
    · cases hd
      cases hp
    · cases hd

theorem SameFound.readBytes (h : SameFound dir extension ws ws') (hw : ws.tree.WellFormed)
    {files : List Path} (hd : ws.discover dir extension = .ok files) {p : Path} (hp : p ∈ files) :
    ws'.readBytes p = ws.readBytes p := by
  obtain ⟨loc, mode, name, hs, hn, rfl, hf, hext⟩ := exists_of_mem_discover hd hw hp
  obtain ⟨l, contents, m, hfile⟩ := isFile_iff.mp hf
  have hfile' := (h.stat_iff hs hn hext).mpr hfile
  simp only [Workspace.readBytes, hfile, hfile']

theorem loadFile_congr {p : Path} (h : ws'.readBytes p = ws.readBytes p) (load : LoadOptions) :
    ws'.loadFile load p = ws.loadFile load p := by
  simp only [loadFile, readText, h]

theorem loadFiles_congr {load : LoadOptions} {files : List Path}
    (h : ∀ p ∈ files, ws'.loadFile load p = ws.loadFile load p) :
    ws'.loadFiles load files = ws.loadFiles load files := by
  induction files with
  | nil => rfl
  | cons p rest ih =>
    rw [loadFiles, loadFiles, h p (by simp), ih fun q hq => h q (List.mem_cons_of_mem p hq)]

/-- Where the same files are found with the same contents, the same documents are loaded. -/
theorem loadDirectory_congr {load : LoadOptions} {files : List Path}
    (hd : ws.discover dir load.extension = .ok files)
    (hd' : ws'.discover dir load.extension = .ok files)
    (h : ∀ p ∈ files, ws'.readBytes p = ws.readBytes p) :
    ws'.loadDirectory dir load = ws.loadDirectory dir load := by
  unfold loadDirectory
  rw [hd, hd']
  exact loadFiles_congr fun p hp => loadFile_congr (h p hp) load

theorem exists_discover_of_prepare {o : RunOptions} {prepared : Nat × Artifacts}
    (hp : o.prepare ws = .ok prepared) :
    ∃ files, ws.discover o.schemaDir o.load.extension = .ok files := by
  cases hd : ws.discover o.schemaDir o.load.extension with
  | ok files => exact ⟨files, rfl⟩
  | error e =>
    have hload : ws.loadDirectory o.schemaDir o.load = .error e := by
      unfold loadDirectory
      rw [hd]
      rfl
    simp [RunOptions.prepare, hload] at hp

/-- A run that could be prepared is prepared in the same way. -/
theorem SameFound.prepare {o : RunOptions} (h : SameFound o.schemaDir o.load.extension ws ws')
    (hl : ws.tree.LinkFree) (hl' : ws'.tree.LinkFree) (hw : ws.tree.WellFormed)
    (hw' : ws'.tree.WellFormed) {prepared : Nat × Artifacts} (hp : o.prepare ws = .ok prepared) :
    o.prepare ws' = .ok prepared := by
  obtain ⟨files, hd⟩ := exists_discover_of_prepare hp
  have hload := loadDirectory_congr hd (h.discover hl hl' hw hw' hd) fun p => h.readBytes hw hd
  unfold RunOptions.prepare at hp ⊢
  rw [hload]
  exact hp

end Workspace

end InterfaceTables
