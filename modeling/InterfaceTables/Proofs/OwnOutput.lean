import InterfaceTables.Proofs.RunEffects
import InterfaceTables.Proofs.SameContents

/-!
A run that finds its own output. Generated files are no documents, so a search after a write finds what
it found before exactly if it finds none of them; otherwise the next run fails.
-/

namespace InterfaceTables

/-! ## Generated texts are no JSON -/

theorem Json.parse_of_slash {text : String} {rest : List Char} (h : text.toList = '/' :: rest) :
    ∃ e, Json.parse text = .error e := by
  have hblank : skipBlanks ⟨0, '/' :: rest⟩ = ⟨0, '/' :: rest⟩ := skipBlanks_cons (by decide) 0 rest
  have hvalue : ∀ fuel, readValue fuel maxDepth ⟨0, '/' :: rest⟩ =
      .error (Cursor.next ⟨0, '/' :: rest⟩ .expectedValue) := by
    intro fuel
    unfold maxDepth readValue
    simp [hblank, readScalar, Char.isDigit]
  unfold parse readDocument
  rw [h, hvalue]
  exact ⟨_, rfl⟩

theorem exists_toList_contents {records : List InterfaceRecord} {baseName : String} :
    ∀ a ∈ (render records baseName).toList, ∃ rest, a.contents.toList = '/' :: rest := by
  refine Artifacts.forall_mem_toList.mpr ⟨?_, ?_⟩
  · show ∃ rest, (headerText records baseName).toList = '/' :: rest
    rw [HeaderText.toList_eq_unlines]
    exact ⟨_, rfl⟩
  · show ∃ rest, (sourceText records baseName).toList = '/' :: rest
    rw [SourceText.toList_eq_unlines]
    exact ⟨_, rfl⟩

namespace Workspace

variable {ws ws' : Workspace} {p : Path} {loc : Location}

theorem Spot.stat {contents : ByteArray} {mode : Nat} (h : ws.Spot p loc)
    (hfile : ws.tree.get? loc = some (.file contents mode)) :
    ws.stat p = .ok (loc, .file contents mode) := by
  obtain ⟨goal, hr, rfl⟩ := h
  obtain ⟨hf, hleads⟩ := resolve_eq_ok_iff.mp hr
  cases goal with
  | absent dir name =>
    cases hleads.missing.1.symm.trans hfile
  | entry loc =>
    have hleads' := hleads.followed fun target hlink => by cases hlink.symm.trans hfile
    exact entry_eq_ok_iff.mpr ⟨resolve_eq_ok_iff.mpr ⟨hf, hleads'⟩, hfile⟩

/-- A path still names a place when a file is put there and nothing else is lost. -/
theorem Spot.of_keeps {leaf : String} {contents : ByteArray} {mode : Nat} (h : ws.Spot p loc)
    (hp : p.EndsIn leaf) (hk : ws.tree.Keeps ws'.tree) (hd : ws'.workingDir = ws.workingDir)
    (hfile : ws'.tree.get? loc = some (.file contents mode)) : ws'.Spot p loc := by
  obtain ⟨goal, hr, rfl⟩ := h
  obtain ⟨hf, hleads⟩ := resolve_eq_ok_iff.mp hr
  cases goal with
  | entry loc => exact ⟨_, resolve_of_keeps hk hd hr, rfl⟩
  | absent dir name =>
    have hlast : p.steps.getLast? ≠ some "" := by
      rw [hp.last]
      simpa using hp.name.ne_empty
    have hmade := hk.leads_made hleads hlast hfile (by simp)
    rw [← start_eq hd] at hmade
    exact ⟨_, resolve_eq_ok_iff.mpr ⟨hf, hmade⟩, rfl⟩

/-- A generated file cannot be loaded. -/
theorem loadFile_of_generated {a : Artifact} {rest : List Char} {mode : Nat}
    (htext : a.contents.toList = '/' :: rest) (hs : ws.stat p = .ok (loc, .file a.bytes mode))
    (load : LoadOptions) : ∃ e, ws.loadFile load p = .error e := by
  unfold loadFile
  cases hm : mayRead mode with
  | false =>
    have hread : ws.readText p = .error .denied := by simp [readText, readBytes_of_stat hs, hm]
    rw [hread]
    exact ⟨_, rfl⟩
  | true =>
    obtain ⟨e, he⟩ := Json.parse_of_slash htext
    rw [readText_of_stat hs hm]
    unfold Document.parse
    simp only [he]
    exact ⟨_, rfl⟩

theorem loadFiles_of_mem_error {load : LoadOptions} {files : List Path} (hp : p ∈ files)
    {e : SchemaError} (he : ws.loadFile load p = .error e) :
    ∃ e', ws.loadFiles load files = .error e' := by
  induction files with
  | nil => cases hp
  | cons q files ih =>
    unfold loadFiles
    cases hq : ws.loadFile load q with
    | error e' => exact ⟨e', rfl⟩
    | ok d =>
      have hp' : p ∈ files := by
        cases hp with
        | head => cases hq.symm.trans he
        | tail _ hp => exact hp
      obtain ⟨e', he'⟩ := ih hp'
      exact ⟨e', by rw [he']; rfl⟩

theorem exists_mem_discover {dir : Path} {extension name : String} {mode : Nat} {e : Entry}
    (hs : ws.stat dir = .ok (loc, .directory mode)) (hr : mayRead mode = true)
    (he : ws.tree.get? (name :: loc) = some e) (hf : ws.isFile (dir.join name) = true)
    (hext : Path.extension? name = some extension) :
    ∃ files, ws.discover dir extension = .ok files ∧ dir.join name ∈ files := by
  have hlist := list_eq_ok_iff.mpr ⟨mode, hs, hr, rfl⟩
  have hd : ws.discover dir extension = .ok (((ws.tree.sortedNames loc).filter fun name =>
      ws.isFile (dir.join name) && Path.extension? name == some extension).map dir.join) := by
    simp only [discover, hlist]
  refine ⟨_, hd, List.mem_map_of_mem (List.mem_filter.mpr ⟨?_, ?_⟩)⟩
  · exact FileTree.mem_sortedNames_iff.mpr ⟨e, he⟩
  · simp [hf, hext]

theorem mayRead_of_discover {dir : Path} {extension : String} {files : List Path} {mode : Nat}
    (hd : ws.discover dir extension = .ok files) (hs : ws.stat dir = .ok (loc, .directory mode)) :
    mayRead mode = true := by
  cases hr : mayRead mode with
  | true => rfl
  | false =>
    have hlist : ws.list dir = .error .denied := by simp [list, hs, hr]
    have hfile : ws.isFile dir = false := by simp [isFile, hs]
    simp [discover, hlist, hfile] at hd

end Workspace

namespace Artifacts

variable {as : Artifacts} {dir : Path} {ws made after : Workspace} {stem : String}
  {result : Except RunError Unit}

theorem Ends.linkFree (h : as.Ends dir stem made result after) (hl : made.tree.LinkFree) :
    after.tree.LinkFree := by
  cases h with
  | before e => exact hl
  | between e spot solid => exact hl.insert_file (by simp)
  | after spot solid spot' solid' => exact (hl.insert_file (by simp)).insert_file (by simp)

theorem wellFormed_of_write_ok (hw : ws.tree.WellFormed) (h : (as.write dir ws).result = .ok ()) :
    (as.write dir ws).workspace.tree.WellFormed := by
  obtain ⟨staged, ws', ws'', hplaced, hs, hdone⟩ := exists_placed_of_write_ok h
  rw [hdone]
  exact Workspace.wellFormed_place (Workspace.wellFormed_place
    (Workspace.wellFormed_ensureDirectory hw dir) hplaced.placed) hs

end Artifacts

namespace RunOptions

/-- A search finds one of the files that were written. -/
def FindsOutput (o : RunOptions) (ws : Workspace) : Prop :=
  ∃ files p k loc, ws.discover o.schemaDir o.load.extension = .ok files ∧ p ∈ files ∧
    ws.Spot p loc ∧ ws.Spot (o.artifactPath k) loc

/-- A search finds the same files in both workspaces, and the same is read from them. -/
def FindsSame (o : RunOptions) (ws ws' : Workspace) : Prop :=
  ∃ files, ws.discover o.schemaDir o.load.extension = .ok files ∧
    ws'.discover o.schemaDir o.load.extension = .ok files ∧
    ∀ p ∈ files, ws'.readBytes p = ws.readBytes p

/-- What a run leaves that has written the files `as`. -/
structure Wrote (o : RunOptions) (as : Artifacts) (stem : String) (ws after : Workspace) : Prop where
  header : as.header.path o.outputDir = o.artifactPath .header
  source : as.source.path o.outputDir = o.artifactPath .source
  named : as.Named o.outputDir stem
  slash : ∀ a ∈ as.toList, ∃ rest, a.contents.toList = '/' :: rest
  ends : as.Ends o.outputDir stem (o.made ws) (.ok ()) after
  keeps : (o.made ws).tree.Keeps after.tree
  linkFree : after.tree.LinkFree
  wellFormed : after.tree.WellFormed

variable {o : RunOptions} {ws after : Workspace} {as : Artifacts} {stem : String} {count : Nat}

theorem wrote_of_run (hw : ws.tree.WellFormed) (hl : ws.tree.LinkFree) (hm : o.mode = .write)
    (hp : o.prepare ws = .ok (count, as)) (h : (as.write o.outputDir ws).result = .ok ()) :
    ∃ stem, o.Wrote as stem ws (run o ws).workspace := by
  obtain ⟨stem, hn⟩ := exists_named_of_prepare hp
  have hmade : (o.made ws).tree.LinkFree := hl.of_gains (ws.grows_ensureDirectory o.outputDir).tree
  have hlink : ∀ p target, (o.made ws).holding p ≠ some (.link target) := by
    intro p target hlink
    obtain ⟨loc, _, hg⟩ := Workspace.holding_eq_some_iff.mp hlink
    exact hmade loc target hg
  have hends := Artifacts.write_ends hn fun hcut => absurd hcut.choose_spec (hlink _ _)
  rw [h] at hends
  rw [workspace_write hm hp]
  obtain ⟨hheader, hsource⟩ := path_of_prepare hp
  obtain ⟨records, rfl⟩ := exists_render_of_prepare hp
  exact ⟨stem, {
    header := hheader
    source := hsource
    named := hn
    slash := exists_toList_contents
    ends := hends
    keeps := hends.keeps fun a _ => hlink _
    linkFree := hends.linkFree hmade
    wellFormed := Artifacts.wellFormed_of_write_ok hw h }⟩

theorem Wrote.keeps_all (h : o.Wrote as stem ws after) : ws.tree.Keeps after.tree :=
  (ws.grows_ensureDirectory o.outputDir).tree.keeps.trans h.keeps

theorem Wrote.workingDir (h : o.Wrote as stem ws after) : after.workingDir = ws.workingDir :=
  h.ends.workingDir.trans (ws.grows_ensureDirectory o.outputDir).workingDir

theorem Wrote.endsIn (h : o.Wrote as stem ws after) (k : ArtifactKind) :
    (o.artifactPath k).EndsIn (k.fileName stem) := by
  cases k with
  | header => exact h.header ▸ h.named.header
  | source => exact h.source ▸ h.named.source

theorem Wrote.exists_artifact (h : o.Wrote as stem ws after) (k : ArtifactKind) :
    ∃ a ∈ as.toList, a.path o.outputDir = o.artifactPath k := by
  cases k with
  | header => exact ⟨as.header, by simp [Artifacts.toList], h.header⟩
  | source => exact ⟨as.source, by simp [Artifacts.toList], h.source⟩

theorem Wrote.exists_kind (h : o.Wrote as stem ws after) :
    ∀ a ∈ as.toList, ∃ k, a.path o.outputDir = o.artifactPath k :=
  Artifacts.forall_mem_toList.mpr ⟨⟨.header, h.header⟩, ⟨.source, h.source⟩⟩

/-- The path of a file that was written leads to it. -/
theorem Wrote.get?_of_spot (h : o.Wrote as stem ws after) {k : ArtifactKind} {loc : Location}
    (hspot : after.Spot (o.artifactPath k) loc) :
    ∃ a ∈ as.toList, ∃ mode, after.tree.get? loc = some (.file a.bytes mode) := by
  obtain ⟨a, ha, hpath⟩ := h.exists_artifact k
  rw [← hpath] at hspot
  have hbefore := h.ends.spot_before h.named a ha loc hspot
  obtain ⟨loc', hspot', hfile⟩ := h.ends.both a ha
  rw [hspot'.unique hbefore] at hfile
  exact ⟨a, ha, _, hfile⟩

/-- A file with the extension in the directory is found, so it was not written unless a search finds
what was written. -/
theorem Wrote.get?_eq_made (h : o.Wrote as stem ws after) (hout : ¬ o.FindsOutput after)
    {files : List Path} (hd : ws.discover o.schemaDir o.load.extension = .ok files) {loc : Location}
    {mode m : Nat} {name : String} {contents : ByteArray}
    (hs : ws.stat o.schemaDir = .ok (loc, .directory mode))
    (hext : Path.extension? name = some o.load.extension)
    (hfile : after.stat (o.schemaDir.join name) = .ok (name :: loc, .file contents m)) :
    after.tree.get? (name :: loc) = (o.made ws).tree.get? (name :: loc) := by
  have hget := (Workspace.entry_eq_ok_iff.mp hfile).2
  cases h.ends.get? (name :: loc) with
  | inl hsame => exact hsame
  | inr hnew =>
    obtain ⟨a, ha, hspot, hwritten⟩ := hnew
    have hs' := Workspace.stat_directory_of_keeps h.keeps_all h.workingDir hs
    obtain ⟨files', hd', hmem⟩ := Workspace.exists_mem_discover hs'
      (Workspace.mayRead_of_discover hd hs) hget (Workspace.isFile_iff.mpr ⟨_, _, _, hfile⟩) hext
    have hkept := (Workspace.stat_eq_ok_iff_of_linkFree h.linkFree).mp hfile
    have hfound : after.Spot (o.schemaDir.join name) (name :: loc) :=
      ⟨_, (Workspace.entry_eq_ok_iff.mp hkept).1, rfl⟩
    obtain ⟨k, hpath⟩ := h.exists_kind a ha
    rw [hpath] at hspot
    have hartifact := hspot.of_keeps (h.endsIn k) h.keeps h.ends.workingDir hwritten
    exact absurd ⟨files', _, k, _, hd', hmem, hfound, hartifact⟩ hout

theorem Wrote.sameFound (h : o.Wrote as stem ws after) (hl : ws.tree.LinkFree)
    (hout : ¬ o.FindsOutput after) {files : List Path}
    (hd : ws.discover o.schemaDir o.load.extension = .ok files) :
    Workspace.SameFound o.schemaDir o.load.extension ws after where
  keeps := h.keeps_all
  workingDir := h.workingDir
  stat_iff {name loc mode l contents m} hs hn hext := by
    have hgrows := (ws.grows_ensureDirectory o.outputDir).tree
    have hs' := Workspace.stat_directory_of_keeps h.keeps_all h.workingDir hs
    have hiff := Workspace.stat_join_iff hl hs hn (l := l) (x := .file contents m)
    constructor
    · intro hfile
      obtain ⟨hf, hsearch, hfits, rfl, hx⟩ := (Workspace.stat_join_iff h.linkFree hs' hn).mp hfile
      have hmade := h.get?_eq_made hout hd hs hext hfile
      rw [hx] at hmade
      have hnd : ¬ (o.made ws).tree.IsDirectory (name :: loc) := by
        rintro ⟨m', hm'⟩
        cases hmade.trans hm'
      refine hiff.mpr ⟨hf, ?_, hfits, rfl, (hgrows.get?_before hnd).trans hmade.symm⟩
      obtain ⟨m', hm', hx'⟩ := hsearch
      have hloc := (Workspace.entry_eq_ok_iff.mp hs).2
      cases (h.keeps_all.directory hloc).symm.trans hm'
      exact ⟨mode, hloc, hx'⟩
    · intro hfile
      obtain ⟨hf, hsearch, hfits, rfl, hx⟩ := hiff.mp hfile
      obtain ⟨contents', m', hx'⟩ := h.keeps_all.file hx
      have hfile' : after.stat (o.schemaDir.join name) = .ok (name :: loc, .file contents' m') :=
        (Workspace.stat_join_iff h.linkFree hs' hn).mpr
          ⟨hf, h.keeps_all.searchable hsearch, hfits, rfl, hx'⟩
      have hmade := h.get?_eq_made hout hd hs hext hfile'
      cases hx'.symm.trans (hmade.trans (hgrows.get? hx))
      exact hfile'

/-- A run fails where it finds what was written. -/
theorem Wrote.prepare_of_findsOutput (h : o.Wrote as stem ws after) (hout : o.FindsOutput after) :
    ∃ e, o.prepare after = .error (.schema e) := by
  obtain ⟨files, p, k, loc, hd, hp, hspot, hartifact⟩ := hout
  obtain ⟨a, ha, mode, hfile⟩ := h.get?_of_spot hartifact
  obtain ⟨rest, hslash⟩ := h.slash a ha
  obtain ⟨e, he⟩ := Workspace.loadFile_of_generated hslash (hspot.stat hfile) o.load
  obtain ⟨e', he'⟩ := Workspace.loadFiles_of_mem_error hp he
  have hload : after.loadDirectory o.schemaDir o.load = .error e' := by
    unfold Workspace.loadDirectory
    rw [hd]
    exact he'
  exact ⟨e', by simp [prepare, hload]⟩

/-- What is found has the extension of a generated file. -/
theorem Wrote.extension_of_findsOutput (h : o.Wrote as stem ws after) (hout : o.FindsOutput after) :
    ∃ k : ArtifactKind, o.load.extension = k.extension := by
  obtain ⟨files, p, k, loc, hd, hp, hspot, hartifact⟩ := hout
  obtain ⟨dir, mode, name, hs, hn, rfl, _, hext⟩ :=
    Workspace.exists_of_mem_discover hd h.wellFormed hp
  obtain ⟨d, rfl⟩ := hspot.leaf (Path.endsIn_join (Workspace.ne_empty_of_stat hs) hn)
  obtain ⟨d', he⟩ := hartifact.leaf (h.endsIn k)
  rw [(List.cons.inj he).1] at hext
  exact ⟨k, ArtifactKind.extension?_fileName hext⟩

theorem FindsSame.prepare (h : o.FindsSame ws after) : o.prepare after = o.prepare ws := by
  obtain ⟨files, hd, hd', hread⟩ := h
  have hload := Workspace.loadDirectory_congr hd hd' hread
  unfold RunOptions.prepare
  rw [hload]

/-- After a write, a search finds the same files with the same contents exactly if it finds none of
those that were written. If it finds one, that is because their extension is searched for, and the next
run cannot load it. -/
theorem finds_same_iff_not_output {r : Report} (hw : ws.tree.WellFormed) (hl : ws.tree.LinkFree)
    (hm : o.mode = .write) (h : (run o ws).result = .ok r) :
    (o.FindsSame ws (run o ws).workspace ↔ ¬ o.FindsOutput (run o ws).workspace) ∧
    (o.FindsOutput (run o ws).workspace →
      (∃ k : ArtifactKind, o.load.extension = k.extension) ∧
      ∃ e, (run o (run o ws).workspace).result = .error (.schema e)) := by
  obtain ⟨count, as, hp⟩ := exists_prepare_of_run h
  obtain ⟨hwritten, _⟩ := (run_eq_ok_iff hp).mp h
  simp only [emit, hm] at hwritten
  obtain ⟨stem, hwrote⟩ := wrote_of_run hw hl hm hp hwritten
  obtain ⟨files, hd⟩ := Workspace.exists_discover_of_prepare hp
  refine ⟨⟨fun hsame hout => ?_, fun hout => ?_⟩, fun hout => ?_⟩
  · obtain ⟨e, he⟩ := hwrote.prepare_of_findsOutput hout
    rw [hsame.prepare, hp] at he
    cases he
  · have hfound := hwrote.sameFound hl hout hd
    exact ⟨files, hd, hfound.discover hl hwrote.linkFree hw hwrote.wellFormed hd,
      fun p => hfound.readBytes hw hd⟩
  · obtain ⟨e, he⟩ := hwrote.prepare_of_findsOutput hout
    exact ⟨hwrote.extension_of_findsOutput hout, e, result_run_of_prepare_error he⟩

end RunOptions

/-- Headers are searched for in the directory that they are written to. -/
def searchingHeaders : RunOptions := ⟨"d", "d", "t", .write, ⟨"h", true⟩⟩

theorem prepare_searchingHeaders :
    searchingHeaders.prepare (lonelyDocument "a.h") = .ok (1, render [oneRecord "d/a.h"] "t") := by
  have hdir : (lonelyDocument "a.h").stat "d" = .ok (["d"], .directory directoryMode) := rfl
  have hnames : (lonelyDocument "a.h").tree.names ["d"] = ["a.h"] := rfl
  have hfound : (lonelyDocument "a.h").discover "d" "h" = .ok ["d/a.h"] :=
    Workspace.discover_of_names hdir (by decide) hnames (by decide) "h"
  exact RunOptions.prepare_oneMapping (o := searchingHeaders) hfound rfl (by decide) rfl

theorem write_searchingHeaders (records : List InterfaceRecord) :
    (render records "t").write "d" (lonelyDocument "a.h") =
      ⟨.ok (), ((lonelyDocument "a.h").insert ["t.h", "d"]
        (.file (render records "t").header.bytes fileMode)).insert ["t.c", "d"]
          (.file (render records "t").source.bytes fileMode),
        [.wrote "d/t.h", .wrote "d/t.c"]⟩ := by
  have hready : (lonelyDocument "a.h").ensureDirectory "d" = ⟨.ok (), lonelyDocument "a.h"⟩ := rfl
  have hstaging : (lonelyDocument "a.h").staging "d" = .ok ["d"] :=
    Workspace.staging_of_root rfl rfl rfl rfl
  have hstaging' : ∀ e, ((lonelyDocument "a.h").insert ["t.h", "d"] e).staging "d" = .ok ["d"] :=
    fun _ => Workspace.staging_of_root rfl rfl rfl rfl
  obtain ⟨hheader, hsource⟩ := Artifacts.path_render records "t" "d"
  exact Artifacts.write_of_places hready hstaging (hstaging' _) ⟨hheader, rfl⟩ ⟨hsource, rfl⟩ rfl rfl

/-- The header that is written is found by the next run, which fails. -/
theorem searchingHeaders_finds_output :
    (∃ r, (run searchingHeaders (lonelyDocument "a.h")).result = .ok r) ∧
    searchingHeaders.FindsOutput (run searchingHeaders (lonelyDocument "a.h")).workspace ∧
    ¬ searchingHeaders.FindsSame (lonelyDocument "a.h")
      (run searchingHeaders (lonelyDocument "a.h")).workspace ∧
    ∃ e, (run searchingHeaders (run searchingHeaders (lonelyDocument "a.h")).workspace).result =
      .error (.schema e) := by
  have hp := prepare_searchingHeaders
  have hresult : (run searchingHeaders (lonelyDocument "a.h")).result =
      .ok (searchingHeaders.report 1 (render [oneRecord "d/a.h"] "t")) :=
    (run_eq_ok_iff hp).mpr ⟨congrArg Outcome.result (write_searchingHeaders _), rfl⟩
  have hout : searchingHeaders.FindsOutput (run searchingHeaders (lonelyDocument "a.h")).workspace := by
    rw [workspace_write (o := searchingHeaders) rfl hp]
    show searchingHeaders.FindsOutput (Artifacts.write _ "d" _).workspace
    rw [write_searchingHeaders]
    generalize (render [oneRecord "d/a.h"] "t").header.bytes = bytes
    generalize (render [oneRecord "d/a.h"] "t").source.bytes = bytes'
    have hext : Path.extension? "t.h" = some "h" := by decide
    have hdir : (((lonelyDocument "a.h").insert ["t.h", "d"] (.file bytes fileMode)).insert ["t.c", "d"]
      (.file bytes' fileMode)).stat "d" = .ok (["d"], .directory directoryMode) := rfl
    have hheader : (((lonelyDocument "a.h").insert ["t.h", "d"] (.file bytes fileMode)).insert ["t.c", "d"]
      (.file bytes' fileMode)).tree.get? ["t.h", "d"] = some (.file bytes fileMode) := rfl
    obtain ⟨files, hd, hmem⟩ := Workspace.exists_mem_discover hdir (by decide) hheader rfl hext
    exact ⟨files, "d/t.h", .header, ["t.h", "d"], hd, hmem, ⟨_, rfl, rfl⟩, ⟨_, rfl, rfl⟩⟩
  obtain ⟨hsame, hnext⟩ := RunOptions.finds_same_iff_not_output (wellFormed_lonelyDocument (by decide))
    (linkFree_lonelyDocument _) rfl hresult
  exact ⟨⟨_, hresult⟩, hout, fun h => hsame.mp h hout, (hnext hout).2⟩

end InterfaceTables
