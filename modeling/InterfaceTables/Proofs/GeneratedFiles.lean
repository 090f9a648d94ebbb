import InterfaceTables.Proofs.DirectoryWrites
import InterfaceTables.Proofs.RunEffects
import InterfaceTables.Proofs.SameContents

/-!
Trees that differ only in generated files. Paths lead to the same directories in them, and a run over a
directory that has no new files yet ends in the same way.
-/

namespace InterfaceTables

theorem ArtifactKind.ne_fileName {name extension : String} (hext : Path.extension? name = some extension)
    (hh : extension ≠ "h") (hc : extension ≠ "c") (stem : String) (k : ArtifactKind) :
    name ≠ k.fileName stem := by
  rintro rfl
  have he := ArtifactKind.extension?_fileName hext
  cases k with
  | header => exact hh he
  | source => exact hc he

namespace Workspace

variable {ws ws' : Workspace} {p : Path} {loc l : Location} {stem : String}
  {places : Location → Prop}

/-- In some directories the two files named after a stem are new or other ones; all else is the same. -/
structure Generates (stem : String) (places : Location → Prop) (ws ws' : Workspace) : Prop where
  workingDir : ws'.workingDir = ws.workingDir
  entries : ∀ l, ws'.tree.get? l = ws.tree.get? l ∨
    ∃ (k : ArtifactKind) (loc : Location), places loc ∧ l = k.fileName stem :: loc ∧
      ¬ ws.tree.IsDirectory l ∧ ∃ contents mode, ws'.tree.get? l = some (.file contents mode)

theorem Generates.refl (stem : String) (places : Location → Prop) (ws : Workspace) :
    Generates stem places ws ws :=
  ⟨rfl, fun _ => Or.inl rfl⟩

theorem Generates.directory_iff (h : Generates stem places ws ws') {m : Nat} :
    ws'.tree.get? l = some (.directory m) ↔ ws.tree.get? l = some (.directory m) := by
  obtain hsame | ⟨_, _, _, _, hnd, contents, mode, hfile⟩ := h.entries l
  · rw [hsame]
  · constructor
    · intro hd
      cases hfile.symm.trans hd
    · intro hd
      exact absurd ⟨m, hd⟩ hnd

theorem Generates.isDirectory_iff (h : Generates stem places ws ws') :
    ws'.tree.IsDirectory l ↔ ws.tree.IsDirectory l :=
  exists_congr fun _ => h.directory_iff

theorem Generates.mono {places' : Location → Prop} (h : Generates stem places ws ws')
    (himp : ∀ loc, places loc → places' loc) : Generates stem places' ws ws' where
  workingDir := h.workingDir
  entries l := (h.entries l).imp_right fun ⟨k, loc, hmem, hrest⟩ => ⟨k, loc, himp loc hmem, hrest⟩

theorem Generates.trans {ws'' : Workspace} (h : Generates stem places ws ws')
    (h' : Generates stem places ws' ws'') : Generates stem places ws ws'' where
  workingDir := h'.workingDir.trans h.workingDir
  entries l := by
    obtain hsame' | ⟨k, loc, hmem, hl, hnd, hfile⟩ := h'.entries l
    · rw [hsame']
      exact h.entries l
    · exact Or.inr ⟨k, loc, hmem, hl, mt h.isDirectory_iff.mpr hnd, hfile⟩

/-- A directory that is none of them holds what it held. -/
theorem Generates.get?_of_not_mem (h : Generates stem places ws ws') (hloc : ¬ places loc) (name : String) :
    ws'.tree.get? (name :: loc) = ws.tree.get? (name :: loc) := by
  obtain hsame | ⟨_, loc', hmem, hl, _⟩ := h.entries (name :: loc)
  · exact hsame
  · cases hl
    exact absurd hmem hloc

/-- Under other names everything is the same. -/
theorem Generates.get?_of_ne (h : Generates stem places ws ws') {name : String}
    (hname : ∀ k : ArtifactKind, name ≠ k.fileName stem) (loc : Location) :
    ws'.tree.get? (name :: loc) = ws.tree.get? (name :: loc) := by
  obtain hsame | ⟨k, _, _, hl, _⟩ := h.entries (name :: loc)
  · exact hsame
  · exact absurd (List.cons.inj hl).1 (hname k)

theorem Generates.linkFree (h : Generates stem places ws ws') (hl : ws.tree.LinkFree) :
    ws'.tree.LinkFree := by
  intro l target hlink
  obtain hsame | ⟨_, _, _, _, _, contents, mode, hfile⟩ := h.entries l
  · exact hl l target (hsame ▸ hlink)
  · cases hfile.symm.trans hlink

theorem Generates.keeps (h : Generates stem places ws ws') (hl : ws.tree.LinkFree) :
    ws.tree.Keeps ws'.tree where
  directory hd := h.directory_iff.mpr hd
  link hlink := absurd hlink (hl _ _)
  file {l contents mode} hf := by
    obtain hsame | ⟨_, _, _, _, _, hfile⟩ := h.entries l
    · exact ⟨contents, mode, hsame.trans hf⟩
    · exact hfile

theorem Generates.wellFormed (h : Generates stem places ws ws') (hw : ws.tree.WellFormed)
    (hstem : '/' ∉ stem.toList) (hdirs : ∀ loc, places loc → ws.tree.IsDirectory loc) :
    ws'.tree.WellFormed where
  parent {name dir e} he := by
    rw [h.isDirectory_iff]
    obtain hsame | ⟨_, loc, hmem, hl, _⟩ := h.entries (name :: dir)
    · exact hw.parent (hsame.symm.trans he)
    · cases hl
      exact hdirs _ hmem
  name {name dir e} he := by
    obtain hsame | ⟨k, _, _, hl, _⟩ := h.entries (name :: dir)
    · exact hw.name (hsame.symm.trans he)
    · cases hl
      exact ArtifactKind.isEntryName_fileName hstem k

/-- The generated files are no documents. -/
theorem Generates.sameSources {extension : String} (h : Generates stem places ws ws')
    (hl : ws.tree.LinkFree) (hh : extension ≠ "h") (hc : extension ≠ "c") :
    SameSources extension ws ws' where
  keeps := h.keeps hl
  workingDir := h.workingDir
  file_iff {name loc contents mode} hext := by
    rw [h.get?_of_ne (ArtifactKind.ne_fileName hext hh hc stem)]

/-! ## Paths -/

/-- A path that leads to what was there led there before. -/
theorem Generates.leads_before (h : Generates stem places ws ws') (hl : ws.tree.LinkFree) {links : Nat}
    {here : Location} {steps : List String}
    (hlead : ws'.tree.Leads .followed links here steps (.entry l))
    (hsame : ws'.tree.get? l = ws.tree.get? l) :
    ws.tree.Leads .followed links here steps (.entry l) := by
  have hsearch : ∀ {dir}, ws'.tree.Searchable dir → ws.tree.Searchable dir := fun ⟨m, hm, hx⟩ =>
    ⟨m, h.directory_iff.mp hm, hx⟩
  generalize hg : Target.entry l = goal at hlead
  induction hlead with
  | done =>
    cases hg
    exact .done
  | blank dir _ ih => exact .blank (h.isDirectory_iff.mp dir) (ih hg)
  | dot dir _ ih => exact .dot (hsearch dir) (ih hg)
  | up dir _ ih => exact .up (hsearch dir) (ih hg)
  | absent => cases hg
  | @enter _ here step rest _ e look found solid next ih =>
    have look' : ws.tree.LooksUp .followed here step rest :=
      { look with searchable := hsearch look.searchable }
    cases e with
    | directory m => exact .enter look' (h.directory_iff.mp found) solid (ih hg)
    | link target => exact absurd rfl (solid target)
    | file contents m =>
      -- Nothing comes after a file.
      have hnd : ¬ ws'.tree.IsDirectory (step :: here) := by
        rintro ⟨m', hm'⟩
        cases found.symm.trans hm'
      cases hg.trans (next.stuck hnd)
      exact .enter look' (hsame.symm.trans found) solid (ih hg)
  | stop _ found _ => exact absurd found (h.linkFree hl _ _)
  | follow _ found _ _ _ => exact absurd found (h.linkFree hl _ _)

/-- A path that ends in a name leads to an entry of that name. -/
theorem exists_leaf_of_stat {leaf : String} {e : Entry} (hl : ws.tree.LinkFree) (hp : p.EndsIn leaf)
    (hs : ws.stat p = .ok (l, e)) : ∃ dir, l = leaf :: dir := by
  obtain ⟨hr, _⟩ := entry_eq_ok_iff.mp ((stat_eq_ok_iff_of_linkFree hl).mp hs)
  obtain ⟨dir, _, ⟨hgoal, _⟩ | ⟨hgoal, _⟩⟩ := (resolve_eq_ok_iff.mp hr).2.at_leaf
    ⟨hp.name.ne_empty, hp.name.ne_dot, hp.name.ne_up⟩ hp.last
  · cases hgoal
  · exact ⟨dir, Target.entry.inj hgoal⟩

theorem Generates.stat_directory_iff (h : Generates stem places ws ws') (hl : ws.tree.LinkFree) {m : Nat} :
    ws'.stat p = .ok (l, .directory m) ↔ ws.stat p = .ok (l, .directory m) := by
  refine ⟨fun hs => ?_, stat_directory_of_keeps (h.keeps hl) h.workingDir⟩
  obtain ⟨hr, hd'⟩ := entry_eq_ok_iff.mp hs
  obtain ⟨hf, hlead⟩ := resolve_eq_ok_iff.mp hr
  have hd := h.directory_iff.mp hd'
  rw [start_eq h.workingDir] at hlead
  exact entry_eq_ok_iff.mpr
    ⟨resolve_eq_ok_iff.mpr ⟨hf, h.leads_before hl hlead (hd'.trans hd.symm)⟩, hd⟩

/-- A path that ends in another name leads to the same. -/
theorem Generates.stat_iff {leaf : String} {e : Entry} (h : Generates stem places ws ws')
    (hl : ws.tree.LinkFree) (hp : p.EndsIn leaf) (hleaf : ∀ k : ArtifactKind, leaf ≠ k.fileName stem) :
    ws'.stat p = .ok (l, e) ↔ ws.stat p = .ok (l, e) := by
  constructor
  · intro hs
    obtain ⟨dir, rfl⟩ := exists_leaf_of_stat (h.linkFree hl) hp hs
    obtain ⟨hr, he⟩ := entry_eq_ok_iff.mp hs
    obtain ⟨hf, hlead⟩ := resolve_eq_ok_iff.mp hr
    have hsame := h.get?_of_ne hleaf dir
    rw [start_eq h.workingDir] at hlead
    exact entry_eq_ok_iff.mpr
      ⟨resolve_eq_ok_iff.mpr ⟨hf, h.leads_before hl hlead hsame⟩, hsame.symm.trans he⟩
  · intro hs
    obtain ⟨dir, rfl⟩ := exists_leaf_of_stat hl hp hs
    obtain ⟨hr, he⟩ := entry_eq_ok_iff.mp hs
    exact entry_eq_ok_iff.mpr
      ⟨resolve_of_keeps (h.keeps hl) h.workingDir hr, (h.get?_of_ne hleaf dir).trans he⟩

theorem Generates.discover {extension : String} {files : List Path} (h : Generates stem places ws ws')
    (hl : ws.tree.LinkFree) (hw : ws.tree.WellFormed) (hw' : ws'.tree.WellFormed)
    (hh : extension ≠ "h") (hc : extension ≠ "c") (hd : ws.discover p extension = .ok files) :
    ws'.discover p extension = .ok files :=
  ((h.sameSources hl hh hc).sameFound hl (h.linkFree hl) p).discover hl (h.linkFree hl) hw hw' hd

end Workspace

/-! ## Runs -/

namespace Workspace

theorem generates_insert {ws : Workspace} {loc : Location} {stem : String} {k : ArtifactKind}
    (hnd : ¬ ws.tree.IsDirectory (k.fileName stem :: loc)) (contents : ByteArray) (mode : Nat) :
    ws.Generates stem (· = loc) (ws.insert (k.fileName stem :: loc) (.file contents mode)) where
  workingDir := rfl
  entries l := by
    by_cases hl : l = k.fileName stem :: loc
    · subst hl
      exact Or.inr ⟨k, loc, rfl, rfl, hnd, contents, mode,
        FileTree.get?_insert_self _ _ _ (by simp)⟩
    · exact Or.inl (FileTree.get?_insert_of_ne _ _ hl)

end Workspace

/-- A write into a directory changes nothing but its two files. -/
theorem Artifacts.generates_write {as : Artifacts} {dir : Path} {ws : Workspace} {loc : Location} {m : Nat}
    {stem : String} (hl : ws.tree.LinkFree) (hs : ws.stat dir = .ok (loc, .directory m))
    (hn : as.NamedAfter stem) : ws.Generates stem (· = loc) (as.write dir ws).workspace := by
  cases hreach : ws.outOfReach? dir with
  | some e =>
    rw [write_of_outOfReach hs hreach]
    exact .refl ..
  | none =>
  rw [write_eq hl hreach hs hn]
  cases ws.mayChange loc with
  | false => exact .refl ..
  | true =>
    cases hheader : refused? dir stem loc ws .header with
    | some e => exact .refl ..
    | none =>
      have hnd := Workspace.not_isDirectory_of_refusal hheader
      have hfirst := Workspace.generates_insert hnd as.header.bytes (as.header.mode ws dir)
      cases hsource : refused? dir stem loc ws .source with
      | some e => exact hfirst
      | none =>
        have hnd' := mt hfirst.isDirectory_iff.mp (Workspace.not_isDirectory_of_refusal hsource)
        exact hfirst.trans (Workspace.generates_insert hnd' as.source.bytes (as.source.mode ws dir))

namespace RunOptions

variable {o : RunOptions} {ws ws' : Workspace} {loc : Location} {m count : Nat} {as : Artifacts}
  {files : List Path} {done : Location → Prop}

theorem namedAfter_of_prepare (hstem : '/' ∉ o.baseName.toList) (hp : o.prepare ws = .ok (count, as)) :
    as.NamedAfter o.baseName := by
  obtain ⟨records, rfl⟩ := exists_render_of_prepare hp
  exact ⟨rfl, rfl, hstem⟩

theorem generates_run (hl : ws.tree.LinkFree) (hm : o.mode = .write)
    (hs : ws.stat o.outputDir = .ok (loc, .directory m)) (hstem : '/' ∉ o.baseName.toList) :
    ws.Generates o.baseName (· = loc) (run o ws).workspace := by
  cases hp : o.prepare ws with
  | error e =>
    rw [workspace_run_of_prepare_error hp]
    exact .refl ..
  | ok prepared =>
    rw [workspace_write hm hp]
    exact Artifacts.generates_write hl hs (namedAfter_of_prepare hstem hp)

theorem workspace_run_of_check (hm : o.mode = .check) : (run o ws).workspace = ws := by
  cases hp : o.prepare ws with
  | error e => exact workspace_run_of_prepare_error hp
  | ok prepared =>
    rw [workspace_run hp, emit, hm]
    exact prepared.2.check_workspace o.outputDir ws

/-- Documents are not generated, so the same ones are loaded. -/
theorem prepare_of_generates (h : ws.Generates o.baseName done ws') (hl : ws.tree.LinkFree)
    (hw : ws.tree.WellFormed) (hw' : ws'.tree.WellFormed) (hh : o.load.extension ≠ "h")
    (hc : o.load.extension ≠ "c") (hd : ws.discover o.schemaDir o.load.extension = .ok files) :
    o.prepare ws' = o.prepare ws := by
  have hfound := (h.sameSources hl hh hc).sameFound hl (h.linkFree hl) o.schemaDir
  have hload := Workspace.loadDirectory_congr hd (h.discover hl hw hw' hh hc hd) fun p =>
    hfound.readBytes hw hd
  unfold prepare
  rw [hload]

/-- Files generated elsewhere do not change how a run ends and what it leaves in its directory. -/
theorem run_of_generates (h : ws.Generates o.baseName done ws') (hl : ws.tree.LinkFree)
    (hw : ws.tree.WellFormed) (hw' : ws'.tree.WellFormed) (hh : o.load.extension ≠ "h")
    (hc : o.load.extension ≠ "c") (hd : ws.discover o.schemaDir o.load.extension = .ok files)
    (hm : o.mode = .write) (hs : ws.stat o.outputDir = .ok (loc, .directory m)) (hloc : ¬ done loc)
    (hstem : '/' ∉ o.baseName.toList) :
    (run o ws').result = (run o ws).result ∧
      ∀ k : ArtifactKind, (run o ws').workspace.tree.get? (k.fileName o.baseName :: loc) =
        (run o ws).workspace.tree.get? (k.fileName o.baseName :: loc) := by
  have hprepare := prepare_of_generates h hl hw hw' hh hc hd
  have hplaces : ∀ k : ArtifactKind, ws'.tree.get? (k.fileName o.baseName :: loc) =
      ws.tree.get? (k.fileName o.baseName :: loc) := fun k => h.get?_of_not_mem hloc _
  cases hp : o.prepare ws with
  | error e =>
    have hp' := hprepare.trans hp
    rw [workspace_run_of_prepare_error hp, workspace_run_of_prepare_error hp',
      result_run_of_prepare_error hp, result_run_of_prepare_error hp']
    exact ⟨rfl, hplaces⟩
  | ok prepared =>
    obtain ⟨count, as⟩ := prepared
    have hp' := hprepare.trans hp
    have hreach := Workspace.outOfReach?_congr h.workingDir (fun _ _ => h.directory_iff) o.outputDir
    obtain ⟨hresult, hentries⟩ := Artifacts.write_congr hl (h.linkFree hl) hreach hs
      ((h.stat_directory_iff hl).mpr hs) (namedAfter_of_prepare hstem hp) hplaces
    rw [workspace_write hm hp, workspace_write hm hp']
    refine ⟨?_, hentries⟩
    simp only [run, hp, hp', emit, hm, hresult]
    cases (as.write o.outputDir ws).result <;> rfl

/-- A check of a directory that holds what a run wrote there, whatever was generated elsewhere. -/
theorem check_run_of_generates {r : Report} (h : ws.Generates o.baseName done ws')
    (hl : ws.tree.LinkFree) (hw : ws.tree.WellFormed) (hw' : ws'.tree.WellFormed)
    (hh : o.load.extension ≠ "h") (hc : o.load.extension ≠ "c") (hm : o.mode = .write)
    (hs : ws.stat o.outputDir = .ok (loc, .directory m)) (hstem : '/' ∉ o.baseName.toList)
    (hr : (run o ws).result = .ok r)
    (hsame : ∀ k : ArtifactKind, ws'.tree.get? (k.fileName o.baseName :: loc) =
      (run o ws).workspace.tree.get? (k.fileName o.baseName :: loc)) :
    (∃ r, (run { o with mode := .check } ws').result = .ok r) ↔
      ∀ (k : ArtifactKind) (contents : ByteArray) (mode : Nat),
        ws.holding (o.outputDir.join (k.fileName o.baseName)) = some (.file contents mode) →
          mayRead mode = true := by
  obtain ⟨count, as, hp⟩ := exists_prepare_of_run hr
  obtain ⟨files, hd⟩ := Workspace.exists_discover_of_prepare hp
  have hwrite := ((run_eq_ok_iff hp).mp hr).1
  simp only [emit, hm] at hwrite
  have hn := namedAfter_of_prepare hstem hp
  have halone := Artifacts.generates_write hl hs hn
  have hp' : RunOptions.prepare { o with mode := .check } ws' = .ok (count, as) :=
    (prepare_of_generates h hl hw hw' hh hc hd).trans hp
  have hpalone : RunOptions.prepare { o with mode := .check } (as.write o.outputDir ws).workspace =
    .ok (count, as) := prepare_after_write hw hl hh hc hp hwrite
  have hagain := check_run_after_write_iff hw hl (Workspace.ne_empty_of_stat hs) hh hc hp hwrite
  rw [Workspace.ensureDirectory_of_isDirectory (Workspace.isDirectory_iff.mpr ⟨_, _, hs⟩),
    run_eq_ok_iff hpalone] at hagain
  rw [workspace_write hm hp] at hsame
  have hcheck := Artifacts.check_congr (halone.linkFree hl) (h.linkFree hl)
    ((halone.stat_directory_iff hl).mpr hs) ((h.stat_directory_iff hl).mpr hs) hn hsame
  constructor
  · rintro ⟨r', hr'⟩
    exact hagain.mp ⟨hcheck.mp ((run_eq_ok_iff hp').mp hr').1, rfl⟩
  · intro hread
    exact ⟨_, (run_eq_ok_iff hp').mpr ⟨hcheck.mpr (hagain.mpr hread).1, rfl⟩⟩

end RunOptions

end InterfaceTables
