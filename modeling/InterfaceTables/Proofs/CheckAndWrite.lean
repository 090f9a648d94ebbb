import InterfaceTables.Proofs.ReplacedLinks
import InterfaceTables.Proofs.WorkingPath
import InterfaceTables.Proofs.WriteAgain

/-!
A check against a write. A check passes exactly where a write would change no bytes, as far as the
write is permitted: a check needs no permission to change the directories, and none to go the way from
the root that staged files are found by.
-/

namespace InterfaceTables

namespace Workspace

variable {ws : Workspace} {p : Path} {leaf : String} {dir staged : Location} {bytes contents : ByteArray}
  {mode : Nat}

theorem eq_of_readBytes_of_holding (h : ws.readBytes p = .ok bytes)
    (hh : ws.holding p = some (.file contents mode)) : bytes = contents := by
  obtain ⟨loc, m, hstat, _⟩ := readBytes_eq_ok_iff.mp h
  obtain ⟨hr, hfile⟩ := entry_eq_ok_iff.mp hstat
  obtain ⟨loc', hr', hfile'⟩ := holding_eq_some_iff.mp hh
  have hlead := (resolve_eq_ok_iff.mp hr').2.followed (by simp [hfile'])
  cases (resolve_eq_ok_iff.mp hr).2.unique hlead
  cases hfile.symm.trans hfile'
  rfl

theorem exists_holding_of_readBytes (hp : p.EndsIn leaf) (h : ws.readBytes p = .ok bytes) :
    ∃ e, ws.holding p = some e := by
  obtain ⟨dir, hend⟩ := exists_atEnd_of_readBytes hp h
  obtain ⟨_, e, _, he⟩ := exists_of_resolve_kept hp hend.resolve
  cases ‹leaf :: dir = _›
  exact ⟨e, holding_eq_some_iff.mpr ⟨_, hend.resolve, he⟩⟩

theorem mayChange_insert {spot : Location} (e : Entry) (hne : dir ≠ spot) :
    (ws.insert spot e).mayChange dir = ws.mayChange dir := by
  unfold mayChange insert
  rw [FileTree.get?_insert_of_ne ws.tree e hne]

/-- At the end of a path a file can be put if only its directory may be changed. -/
theorem AtEnd.place (hp : p.EndsIn leaf) (h : ws.AtEnd p (leaf :: dir))
    (hs : ¬ leaf :: dir <:+ staged) :
    ws.place staged p contents mode =
      if ws.mayChange dir then .ok (ws.insert (leaf :: dir) (.file contents mode))
      else .error .denied := by
  have hsuffix : (leaf :: dir).isSuffixOf staged = false := FileTree.isSuffixOf_eq_false.mpr hs
  cases hc : ws.mayChange dir with
  | true => exact (place_of_entry hp h.resolve).mpr ⟨hsuffix, hc, h.deadEnd.notDirectory, rfl⟩
  | false =>
    have hr : ws.resolveTrimmed .kept p = .ok (.entry (leaf :: dir)) := by
      rw [resolveTrimmed, hp.trimmedSteps]
      exact h.resolve
    simp [Workspace.place, hr, hp.namesEntry, hp.endsInSlash, hsuffix, hc]

end Workspace

theorem Artifact.check_eq_ok_iff {a : Artifact} {ws : Workspace} {dir : Path} :
    a.check ws dir = .ok () ↔ ws.readBytes (a.path dir) = .ok a.bytes := by
  unfold check
  cases ws.readBytes (a.path dir) with
  | error e => cases e <;> simp
  | ok existing => simp [ByteArray.ext_iff]

namespace Artifacts

/-- Both files are there as they would be written. -/
def UpToDate (as : Artifacts) (dir : Path) (ws : Workspace) : Prop :=
  ∀ a ∈ as.toList, ws.readBytes (a.path dir) = .ok a.bytes

variable {as : Artifacts} {dir : Path} {ws : Workspace}

theorem check_eq_ok_iff :
    (as.check dir ws).result = .ok () ↔ ws.isDirectory dir = true ∧ as.UpToDate dir ws := by
  unfold check
  by_cases hd : ws.isDirectory dir = true
  · simp only [hd, if_true, checkAll, compareAll_eq_ok_iff, Artifact.check_eq_ok_iff, true_and]
    rfl
  · simp [hd]

/-- What can be read after a write is what was written. -/
theorem readBytes_after_write {stem : String} (hn : as.Named dir stem)
    (h : (as.write dir ws).result = .ok ()) {a : Artifact} (ha : a ∈ as.toList) {bytes : ByteArray}
    (hr : (as.write dir ws).workspace.readBytes (a.path dir) = .ok bytes) : bytes = a.bytes := by
  have hne : ArtifactKind.header.fileName stem ≠ ArtifactKind.source.fileName stem :=
    fun he => by cases ArtifactKind.fileName_injective he
  obtain ⟨staged, ws', ws'', hplaced, hs, hdone⟩ := exists_placed_of_write_ok h
  rw [hdone] at hr
  rw [toList, List.mem_pair] at ha
  cases ha with
  | inl ha =>
    subst ha
    obtain ⟨e, he⟩ := Workspace.exists_holding_of_readBytes hn.header hr
    have hbefore := Workspace.holding_before_place hn.source hn.header hne hs he
    cases Workspace.eq_file_of_place hn.header hplaced.placed hbefore
    exact Workspace.eq_of_readBytes_of_holding hr he
  | inr ha =>
    subst ha
    obtain ⟨e, he⟩ := Workspace.exists_holding_of_readBytes hn.source hr
    cases Workspace.eq_file_of_place hn.source hs he
    exact Workspace.eq_of_readBytes_of_holding hr he

/-- The paths of both files end in one directory. -/
structure Together (as : Artifacts) (dir : Path) (ws : Workspace) (stem : String) (d : Location) :
    Prop where
  named : as.Named dir stem
  header : ws.AtEnd (as.header.path dir) (ArtifactKind.header.fileName stem :: d)
  source : ws.AtEnd (as.source.path dir) (ArtifactKind.source.fileName stem :: d)

theorem exists_together_of_upToDate {records : List InterfaceRecord} {baseName : String}
    (h : (render records baseName).UpToDate dir ws) :
    ∃ stem d, (render records baseName).Together dir ws stem d := by
  obtain ⟨stem, hstem⟩ := Workspace.spot_join_fileName dir baseName
  obtain ⟨hheader, hsource⟩ := forall_mem_toList.mp h
  obtain ⟨d, hd⟩ := Workspace.exists_atEnd_of_readBytes (hstem .header).1 hheader
  obtain ⟨d', hd'⟩ := Workspace.exists_atEnd_of_readBytes (hstem .source).1 hsource
  have hspot := (hstem .header).2 ws d .source ⟨_, hd.resolve, rfl⟩
  cases hspot.unique ⟨_, hd'.resolve, rfl⟩
  exact ⟨stem, d, ⟨(hstem .header).1, (hstem .source).1⟩, hd, hd'⟩

variable {stem : String} {d loc : Location} {m : Nat}

/-- The workspace with the header put into a directory. -/
def withHeader (as : Artifacts) (dir : Path) (ws : Workspace) (stem : String) (d : Location) :
    Workspace :=
  ws.insert (ArtifactKind.header.fileName stem :: d)
    (.file as.header.bytes (as.header.mode ws dir))

/-- The workspace with both files put into a directory. -/
def withBoth (as : Artifacts) (dir : Path) (ws : Workspace) (stem : String) (d : Location) :
    Workspace :=
  (as.withHeader dir ws stem d).insert (ArtifactKind.source.fileName stem :: d)
    (.file as.source.bytes (as.source.mode ws dir))

theorem source_ne_header (stem : String) :
    ArtifactKind.source.fileName stem ≠ ArtifactKind.header.fileName stem :=
  fun he => by cases ArtifactKind.fileName_injective he

/-- Wherever the directories are, the two files are not in one place. -/
theorem source_cons_ne_header_cons (stem : String) (d d' : Location) :
    ArtifactKind.source.fileName stem :: d ≠ ArtifactKind.header.fileName stem :: d' :=
  fun he => source_ne_header stem (List.cons.inj he).1

/-- The header may take the place of a link, but of none that the source is behind. -/
theorem Together.withHeader (h : as.Together dir ws stem d) :
    as.Together dir (as.withHeader dir ws stem d) stem d where
  named := h.named
  header := h.header.insert h.named.header h.header fun _ => rfl
  source := h.source.insert h.named.source h.header fun he => absurd he (source_ne_header stem)

theorem Together.withBoth (h : as.Together dir ws stem d) :
    as.Together dir (as.withBoth dir ws stem d) stem d where
  named := h.named
  header := h.withHeader.header.insert h.named.header h.withHeader.source
    fun he => absurd he.symm (source_ne_header stem)
  source := h.withHeader.source.insert h.named.source h.withHeader.source fun _ => rfl

/-- Where both paths end in one directory that is in reach, a write hangs on permissions alone, and
these are asked for before the first file is replaced. -/
theorem Together.write (hw : ws.tree.WellFormed) (hreach : ws.outOfReach? dir = none)
    (hdir : ws.stat dir = .ok (loc, .directory m)) (h : as.Together dir ws stem d) :
    as.write dir ws =
      if ws.mayChange loc = true ∧ ws.mayChange d = true then
        ⟨.ok (), as.withBoth dir ws stem d, [.wrote (as.header.path dir), .wrote (as.source.path dir)]⟩
      else ⟨.error (.write (as.header.path dir) .denied), ws, []⟩ := by
  have hmade := Workspace.ensureDirectory_of_isDirectory (Workspace.isDirectory_iff.mpr ⟨loc, m, hdir⟩)
  have hstaging := Workspace.staging_of_stat hreach hdir
  by_cases hloc : ws.mayChange loc = true
  · rw [if_pos hloc] at hstaging
    -- Files are staged in a directory, and no file that is replaced stands above one.
    have hsuffix : ∀ {spot}, ws.AtEnd (as.header.path dir) spot ∨ ws.AtEnd (as.source.path dir) spot →
        ¬ spot <:+ loc := by
      intro spot hend hs
      have hspot := hw.isDirectory_suffix (Workspace.isDirectory_of_mayChange hloc) hs
      exact hend.elim (·.deadEnd.notDirectory hspot) (·.deadEnd.notDirectory hspot)
    have hheader : ws.place loc (as.header.path dir) as.header.bytes (as.header.mode ws dir) =
        if ws.mayChange d then .ok (as.withHeader dir ws stem d) else .error .denied :=
      h.header.place h.named.header (hsuffix (Or.inl h.header))
    by_cases hd : ws.mayChange d = true
    · have hplaced : as.HeaderPlaced dir ws loc (as.withHeader dir ws stem d) :=
        .of_ready hmade hstaging (by rw [hheader, if_pos hd])
      have hsource : as.placeSource dir ws loc (as.withHeader dir ws stem d) =
          .ok (as.withBoth dir ws stem d) := by
        have hd' : (as.withHeader dir ws stem d).mayChange d = true := by
          rw [Artifacts.withHeader, Workspace.mayChange_insert _ (List.cons_ne_self _ _).symm, hd]
        have hloc' : (as.withHeader dir ws stem d).mayChange loc = true := by
          rw [Artifacts.withHeader, Workspace.mayChange_insert _ fun he => ?_, hloc]
          exact hsuffix (Or.inl h.header) (he ▸ List.suffix_refl loc)
        have hstaging' : (as.withHeader dir ws stem d).staging dir = .ok loc := by
          have hdir' : (as.withHeader dir ws stem d).stat dir = .ok (loc, .directory m) :=
            h.header.stat_insert hdir
          have hreach' : (as.withHeader dir ws stem d).outOfReach? dir = none :=
            (Workspace.outOfReach?_insert_file (by simp) h.header.deadEnd.notDirectory dir).trans hreach
          rw [Workspace.staging_of_stat hreach' hdir', if_pos hloc']
        rw [placeSource_of_ready hmade, Workspace.placeStaged_of_staging hstaging',
          h.withHeader.source.place h.named.source (hsuffix (Or.inr h.source)), if_pos hd']
        rfl
      rw [write_of_placeSource_ok hplaced hsource, if_pos ⟨hloc, hd⟩]
    · rw [if_neg hd] at hheader
      rw [write_of_header_error hmade hstaging hheader, if_neg fun hboth => hd hboth.2]
  · rw [if_neg hloc] at hstaging
    rw [write_of_staging_error hmade hstaging, if_neg fun hboth => hloc hboth.1]

theorem mayRead_mode_of_readBytes {a : Artifact} {bytes : ByteArray}
    (h : ws.readBytes (a.path dir) = .ok bytes) : mayRead (a.mode ws dir) = true := by
  obtain ⟨_, _, hstat, hm⟩ := Workspace.readBytes_eq_ok_iff.mp h
  rw [Artifact.mode_of_stat hstat, hm]

/-- Files that could be read before they were written again can still be read. -/
theorem Together.upToDate (h : as.Together dir ws stem d) (hup : as.UpToDate dir ws) :
    as.UpToDate dir (as.withBoth dir ws stem d) := by
  obtain ⟨hheader, hsource⟩ := forall_mem_toList.mp hup
  have hother := (source_cons_ne_header_cons stem d d).symm
  refine forall_mem_toList.mpr ⟨h.withBoth.header.readBytes ?_ (mayRead_mode_of_readBytes hheader),
    h.withBoth.source.readBytes ?_ (mayRead_mode_of_readBytes hsource)⟩
  · rw [Artifacts.withBoth, Workspace.insert, FileTree.get?_insert_of_ne _ _ hother]
    exact FileTree.get?_insert_self _ _ _ (by simp)
  · exact FileTree.get?_insert_self _ _ _ (by simp)

end Artifacts

namespace RunOptions

def Succeeds (o : RunOptions) (mode : Mode) (ws : Workspace) : Prop :=
  ∃ r, (run { o with mode := mode } ws).result = .ok r

def artifactPath (o : RunOptions) (k : ArtifactKind) : Path := o.outputDir.join (k.fileName o.baseName)

/-- A write into a directory that is there succeeds, and both files can be read before and after it
with the same bytes. -/
structure WriteKeeps (o : RunOptions) (ws : Workspace) : Prop where
  directory : ws.isDirectory o.outputDir = true
  succeeds : o.Succeeds .write ws
  same : ∀ k, ∃ bytes, ws.readBytes (o.artifactPath k) = .ok bytes ∧
    (run { o with mode := .write } ws).workspace.readBytes (o.artifactPath k) = .ok bytes

/-- Entries may be added to the output directory, where files are staged, and to the directories that
the files stand in. Staged files go by their whole paths, so the output directory has to be found from the
root, by a path that is not too long for them. -/
structure MayWrite (o : RunOptions) (ws : Workspace) : Prop where
  staging : ∃ loc mode, ws.stat (ws.workingPath.join o.outputDir) = .ok (loc, .directory mode) ∧
    ws.mayChange loc = true
  fits : (ws.stagedPath o.outputDir).utf8ByteSize ≤ Path.maxLength
  placing : ∀ k, ∃ name dir, ws.resolve .kept (o.artifactPath k) = .ok (.entry (name :: dir)) ∧
    ws.mayChange dir = true

variable {o : RunOptions} {ws : Workspace}

theorem succeeds_iff {mode : Mode} :
    o.Succeeds mode ws ↔ ∃ count as, o.prepare ws = .ok (count, as) ∧
      (emit { o with mode := mode } as ws).result = .ok () := by
  constructor
  · rintro ⟨r, h⟩
    obtain ⟨count, as, hp⟩ := exists_prepare_of_run h
    exact ⟨count, as, hp, ((run_eq_ok_iff hp).mp h).1⟩
  · rintro ⟨count, as, hp, h⟩
    exact ⟨_, (run_eq_ok_iff (o := { o with mode := mode }) hp).mpr ⟨h, rfl⟩⟩

variable {count : Nat} {as : Artifacts} {stem : String} {d loc : Location} {m : Nat}

theorem path_of_prepare (hp : o.prepare ws = .ok (count, as)) :
    as.header.path o.outputDir = o.artifactPath .header ∧
      as.source.path o.outputDir = o.artifactPath .source := by
  obtain ⟨records, rfl⟩ := exists_render_of_prepare hp
  exact ⟨rfl, rfl⟩

theorem mayWrite_iff (hw : ws.tree.WellFormed) (hp : o.prepare ws = .ok (count, as))
    (hdir : ws.stat o.outputDir = .ok (loc, .directory m)) (ht : as.Together o.outputDir ws stem d) :
    o.MayWrite ws ↔ ws.outOfReach? o.outputDir = none ∧ ws.mayChange loc = true ∧
      ws.mayChange d = true := by
  obtain ⟨hheader, hsource⟩ := path_of_prepare hp
  rw [Workspace.outOfReach?_eq_none_iff_stat hw hdir]
  constructor
  · rintro ⟨⟨loc', m', hdir', hloc⟩, hfits, hplacing⟩
    obtain ⟨name, dir, hr, hd⟩ := hplacing .header
    cases Workspace.stat_workingPath_join_unique hw hdir hdir'
    rw [← hheader, ht.header.resolve] at hr
    cases hr
    exact ⟨⟨hdir', hfits⟩, hloc, hd⟩
  · rintro ⟨⟨hdir', hfits⟩, hloc, hd⟩
    refine ⟨⟨loc, m, hdir', hloc⟩, hfits, fun k => ?_⟩
    cases k with
    | header => exact ⟨_, d, hheader ▸ ht.header.resolve, hd⟩
    | source => exact ⟨_, d, hsource ▸ ht.source.resolve, hd⟩

/-- Without permission a write is refused before it changes anything. -/
theorem write_of_not_mayWrite (hw : ws.tree.WellFormed) (hp : o.prepare ws = .ok (count, as))
    (hdir : ws.stat o.outputDir = .ok (loc, .directory m)) (ht : as.Together o.outputDir ws stem d)
    (h : ¬ o.MayWrite ws) :
    ∃ e, ((ws.stagedPath o.outputDir).fault? = some e ∨ e = .denied) ∧
      as.write o.outputDir ws = ⟨.error (.write (o.artifactPath .header) e), ws, []⟩ := by
  rw [mayWrite_iff hw hp hdir ht] at h
  rw [← (path_of_prepare hp).1]
  cases hreach : ws.outOfReach? o.outputDir with
  | none =>
    rw [hreach, and_iff_right rfl] at h
    exact ⟨.denied, Or.inr rfl, by rw [ht.write hw hreach hdir, if_neg h]⟩
  | some e =>
    have hmade := Workspace.ensureDirectory_of_isDirectory (Workspace.isDirectory_iff.mpr ⟨loc, m, hdir⟩)
    exact ⟨e, Workspace.outOfReach?_cases hreach,
      Artifacts.write_of_staging_error hmade (Workspace.staging_of_outOfReach hreach)⟩

/-- Files that are up to date have their paths end in one directory, below one that is there. -/
theorem exists_together_of_check (hp : o.prepare ws = .ok (count, as))
    (h : (as.check o.outputDir ws).result = .ok ()) :
    as.UpToDate o.outputDir ws ∧ ∃ loc m stem d, ws.stat o.outputDir = .ok (loc, .directory m) ∧
      as.Together o.outputDir ws stem d := by
  obtain ⟨hdir, hup⟩ := Artifacts.check_eq_ok_iff.mp h
  obtain ⟨loc, m, hstat⟩ := Workspace.isDirectory_iff.mp hdir
  obtain ⟨records, rfl⟩ := exists_render_of_prepare hp
  obtain ⟨stem, d, ht⟩ := Artifacts.exists_together_of_upToDate hup
  exact ⟨hup, loc, m, stem, d, hstat, ht⟩

theorem result_write (hp : o.prepare ws = .ok (count, as)) {e : RunError}
    (h : (as.write o.outputDir ws).result = .error e) :
    (run { o with mode := .write } ws).result = .error e := by
  have hp' : prepare { o with mode := .write } ws = .ok (count, as) := hp
  unfold run
  simp only [hp', emit, h]

theorem workspace_of_write (hp : o.prepare ws = .ok (count, as)) :
    (run { o with mode := .write } ws).workspace = (as.write o.outputDir ws).workspace :=
  workspace_write (o := { o with mode := .write }) rfl hp

/-- A write that changes no bytes has found both files up to date. -/
theorem WriteKeeps.check (h : o.WriteKeeps ws) (hp : o.prepare ws = .ok (count, as)) :
    (as.check o.outputDir ws).result = .ok () := by
  obtain ⟨count', as', hp', hwrite⟩ := succeeds_iff.mp h.succeeds
  rw [hp] at hp'
  cases hp'
  obtain ⟨stem, hn⟩ := exists_named_of_prepare hp
  obtain ⟨hheader, hsource⟩ := path_of_prepare hp
  have hkept : ∀ a ∈ as.toList, ∀ k, a.path o.outputDir = o.artifactPath k →
      ws.readBytes (a.path o.outputDir) = .ok a.bytes := by
    intro a ha k hk
    obtain ⟨bytes, hbefore, hafter⟩ := h.same k
    rw [workspace_of_write hp, ← hk] at hafter
    rw [hk, hbefore, Artifacts.readBytes_after_write hn hwrite ha hafter]
  refine Artifacts.check_eq_ok_iff.mpr ⟨h.directory, Artifacts.forall_mem_toList.mpr ⟨?_, ?_⟩⟩
  · exact hkept _ (by simp [Artifacts.toList]) .header hheader
  · exact hkept _ (by simp [Artifacts.toList]) .source hsource

/-- A write changes no bytes exactly if a check succeeds and the write is permitted. Where a check
succeeds and the write is not permitted, it fails at the header and changes nothing: it is denied, or the
path of a staged file is too long. -/
theorem writeKeeps_iff_check_succeeds (hw : ws.tree.WellFormed) :
    (o.WriteKeeps ws ↔ o.Succeeds .check ws ∧ o.MayWrite ws) ∧
    (o.Succeeds .check ws → ¬ o.MayWrite ws →
      ∃ e, ((ws.stagedPath o.outputDir).fault? = some e ∨ e = .denied) ∧
        (run { o with mode := .write } ws).result = .error (.write (o.artifactPath .header) e) ∧
        (run { o with mode := .write } ws).workspace = ws) := by
  refine ⟨⟨fun h => ?_, fun h => ?_⟩, fun hcheck hdenied => ?_⟩
  · obtain ⟨count, as, hp, hwrite⟩ := succeeds_iff.mp h.succeeds
    have hcheck := h.check hp
    obtain ⟨_, loc, m, stem, d, hstat, ht⟩ := exists_together_of_check hp hcheck
    refine ⟨succeeds_iff.mpr ⟨count, as, hp, hcheck⟩, ?_⟩
    have hok : (as.write o.outputDir ws).result = .ok () := hwrite
    by_contra hno
    obtain ⟨e, _, herror⟩ := write_of_not_mayWrite hw hp hstat ht hno
    rw [herror] at hok
    cases hok
  · obtain ⟨hcheck, hmay⟩ := h
    obtain ⟨count, as, hp, hcheck⟩ := succeeds_iff.mp hcheck
    obtain ⟨hup, loc, m, stem, d, hstat, ht⟩ := exists_together_of_check hp hcheck
    obtain ⟨hreach, hchange⟩ := (mayWrite_iff hw hp hstat ht).mp hmay
    have hwrite := ht.write hw hreach hstat
    rw [if_pos hchange] at hwrite
    refine ⟨Workspace.isDirectory_iff.mpr ⟨loc, m, hstat⟩,
      succeeds_iff.mpr ⟨count, as, hp, congrArg Outcome.result hwrite⟩, ?_⟩
    rw [workspace_of_write hp, hwrite]
    obtain ⟨hheader, hsource⟩ := path_of_prepare hp
    obtain ⟨hh, hs⟩ := Artifacts.forall_mem_toList.mp hup
    obtain ⟨hh', hs'⟩ := Artifacts.forall_mem_toList.mp (ht.upToDate hup)
    intro k
    cases k with
    | header => exact ⟨_, hheader ▸ hh, hheader ▸ hh'⟩
    | source => exact ⟨_, hsource ▸ hs, hsource ▸ hs'⟩
  · obtain ⟨count, as, hp, hcheck⟩ := succeeds_iff.mp hcheck
    obtain ⟨_, loc, m, stem, d, hstat, ht⟩ := exists_together_of_check hp hcheck
    obtain ⟨e, he, hwrite⟩ := write_of_not_mayWrite hw hp hstat ht hdenied
    refine ⟨e, he, result_write hp (congrArg Outcome.result hwrite), ?_⟩
    rw [workspace_of_write hp, hwrite]

end RunOptions

/-- A directory `d` with the document of one mapping, and a directory `o` with two files in a directory
`s` of the given mode. -/
def twoFiles (mode : Nat) (header source : ByteArray) : Workspace where
  tree := (((((FileTree.empty.insert ["d"] (.directory directoryMode)).insert ["a.json", "d"]
    (.file (OneMapping.text "n" "/v").toUTF8 fileMode)).insert ["o"] (.directory directoryMode)).insert
    ["s", "o"] (.directory mode)).insert ["t.h", "s", "o"] (.file header fileMode)).insert
    ["t.c", "s", "o"] (.file source fileMode)
  workingDir := []

def intoTwoFiles : RunOptions := ⟨"d", "o", "s/t", .check, ⟨"json", true⟩⟩

section TwoFiles

variable (mode : Nat) (header source : ByteArray)

theorem wellFormed_twoFiles : (twoFiles mode header source).tree.WellFormed :=
  (((((FileTree.wellFormed_empty.insert_new ⟨_, rfl⟩ (by decide) rfl).insert_new ⟨_, rfl⟩ (by decide)
    rfl).insert_new ⟨_, rfl⟩ (by decide) rfl).insert_new ⟨_, rfl⟩ (by decide) rfl).insert_new ⟨_, rfl⟩
    (by decide) rfl).insert_new ⟨_, rfl⟩ (by decide) rfl

theorem prepare_twoFiles :
    intoTwoFiles.prepare (twoFiles mode header source) = .ok (1, render [oneRecord "d/a.json"] "s/t") := by
  have hdir : (twoFiles mode header source).stat "d" = .ok (["d"], .directory directoryMode) := rfl
  have hnames : (twoFiles mode header source).tree.names ["d"] = ["a.json"] := rfl
  have hfound : (twoFiles mode header source).discover "d" "json" = .ok ["d/a.json"] :=
    Workspace.discover_of_names hdir (by decide) hnames (by decide) "json"
  exact RunOptions.prepare_oneMapping (o := intoTwoFiles) hfound rfl (by decide) rfl

end TwoFiles

/-- The two files as they are generated for the document, in a directory of the given mode. -/
def upToDateIn (mode : Nat) : Workspace :=
  twoFiles mode (render [oneRecord "d/a.json"] "s/t").header.bytes
    (render [oneRecord "d/a.json"] "s/t").source.bytes

theorem check_upToDateIn {mode : Nat} (h : mode = 0o755 ∨ mode = 0o555) :
    intoTwoFiles.Succeeds .check (upToDateIn mode) := by
  have hread : ∀ header source, (twoFiles mode header source).readBytes "o/s/t.h" = .ok header ∧
      (twoFiles mode header source).readBytes "o/s/t.c" = .ok source := by
    intro header source
    cases h with
    | inl h => subst h; exact ⟨rfl, rfl⟩
    | inr h => subst h; exact ⟨rfl, rfl⟩
  exact RunOptions.succeeds_iff.mpr ⟨1, _, prepare_twoFiles mode _ _,
    Artifacts.check_eq_ok_iff.mpr ⟨rfl, Artifacts.forall_mem_toList.mpr (hread _ _)⟩⟩

/-- The paths of both files lead into the directory `s`. -/
theorem resolve_twoFiles (k : ArtifactKind) {mode : Nat} (h : mode = 0o755 ∨ mode = 0o555)
    (header source : ByteArray) :
    ∃ name, (twoFiles mode header source).resolve .kept (intoTwoFiles.artifactPath k) =
      .ok (.entry [name, "s", "o"]) := by
  obtain rfl | rfl := h <;> cases k
  · exact ⟨"t.h", rfl⟩
  · exact ⟨"t.c", rfl⟩
  · exact ⟨"t.h", rfl⟩
  · exact ⟨"t.c", rfl⟩

/-- In a directory that may be changed. -/
theorem writeKeeps_upToDateIn :
    intoTwoFiles.Succeeds .check (upToDateIn 0o755) ∧ intoTwoFiles.MayWrite (upToDateIn 0o755) ∧
      intoTwoFiles.WriteKeeps (upToDateIn 0o755) := by
  have hcheck := check_upToDateIn (Or.inl rfl)
  have hmay : ∀ header source, intoTwoFiles.MayWrite (twoFiles 0o755 header source) := by
    intro header source
    have hpath : (twoFiles 0o755 header source).workingPath = "/" := rfl
    refine ⟨⟨["o"], directoryMode, ?_, rfl⟩, ?_, fun k => ?_⟩
    · rw [hpath]
      rfl
    · rw [Workspace.stagedPath, hpath]
      decide
    · obtain ⟨name, hr⟩ := resolve_twoFiles k (Or.inl rfl) header source
      exact ⟨name, ["s", "o"], hr, rfl⟩
  have hw : (upToDateIn 0o755).tree.WellFormed := wellFormed_twoFiles 0o755 _ _
  exact ⟨hcheck, hmay _ _, (RunOptions.writeKeeps_iff_check_succeeds hw).1.mpr ⟨hcheck, hmay _ _⟩⟩

/-- In a directory that may not be changed a check succeeds where a write fails. -/
theorem check_succeeds_write_fails :
    ¬ ∀ (o : RunOptions) (ws : Workspace), ws.tree.WellFormed →
      (o.Succeeds .check ws ↔ o.WriteKeeps ws) := by
  intro h
  have hw : (upToDateIn 0o555).tree.WellFormed := wellFormed_twoFiles 0o555 _ _
  have hcheck := check_upToDateIn (Or.inr rfl)
  have hkeeps := (h intoTwoFiles (upToDateIn 0o555) hw).mp hcheck
  obtain ⟨count, as, hp, hup⟩ := RunOptions.succeeds_iff.mp hcheck
  obtain ⟨-, loc, m, stem, d, hstat, ht⟩ := RunOptions.exists_together_of_check hp hup
  obtain ⟨count', as', hp', hwrite⟩ := RunOptions.succeeds_iff.mp hkeeps.succeeds
  cases hp.symm.trans hp'
  have hdenied : ∀ header source, ¬ intoTwoFiles.MayWrite (twoFiles 0o555 header source) := by
    intro header source hmay
    obtain ⟨name, dir, hr, hc⟩ := hmay.placing .header
    obtain ⟨name', hr'⟩ := resolve_twoFiles .header (Or.inr rfl) header source
    cases hr'.symm.trans hr
    cases hc
  obtain ⟨e, -, herror⟩ := RunOptions.write_of_not_mayWrite hw hp hstat ht (hdenied _ _)
  have hok : (as.write intoTwoFiles.outputDir (upToDateIn 0o555)).result = .ok () := hwrite
  rw [herror] at hok
  cases hok

end InterfaceTables
