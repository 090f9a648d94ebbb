import InterfaceTables.Proofs.OwnOutput

/-!
What a report says against what is on disk. The report of a run is made from the generated files and
not from those on disk; its checksums are still true of all that can be read at its paths. A write can
leave a file that may not be read, or, in the place of a link, one that cuts off its own path.
-/

namespace InterfaceTables

namespace Checksum

/-- The checksum of a text is that of its bytes. -/
theorem verify_ofText (text : String) : (ofText text).verify text.toUTF8 = true := by
  unfold verify ofText
  exact beq_self_eq_true _

end Checksum

namespace Workspace

variable {ws : Workspace} {load : LoadOptions}

theorem length_of_loadFiles {files : List Path} {documents : List Document}
    (h : ws.loadFiles load files = .ok documents) : documents.length = files.length := by
  induction files generalizing documents with
  | nil =>
    cases h
    rfl
  | cons p files ih =>
    obtain ⟨d, _, hrest⟩ := Schema.bind_eq_ok_iff.mp h
    obtain ⟨ds, hds, hdone⟩ := Schema.bind_eq_ok_iff.mp hrest
    cases hdone
    rw [List.length_cons, List.length_cons, ih hds]

/-- Once a file is put in its place, a path names that place or none. -/
theorem Spot.eq_of_insert {p : Path} {loc loc' : Location} {contents : ByteArray} {mode : Nat}
    (h : ws.Spot p loc) (hne : loc ≠ [])
    (h' : (ws.insert loc (.file contents mode)).Spot p loc') : loc' = loc := by
  by_contra hmoved
  exact hmoved ((h'.before_insert hne hmoved).unique h)

end Workspace

namespace Artifacts

variable {as : Artifacts} {dir : Path} {ws made after : Workspace} {stem : String} {a : Artifact}

/-- A file that its path still leads to can be read if its mode permits it. -/
theorem Ends.readBytes (hn : as.Named dir stem) (h : as.Ends dir stem made (.ok ()) after)
    (ha : a ∈ as.toList) {e : Entry} (he : after.holding (a.path dir) = some e) :
    after.readBytes (a.path dir) =
      if mayRead (a.mode made dir) then .ok a.bytes else .error .denied := by
  obtain ⟨loc, hr, _⟩ := Workspace.holding_eq_some_iff.mp he
  have hspot : after.Spot (a.path dir) loc := ⟨_, hr, rfl⟩
  obtain ⟨loc', hspot', hfile⟩ := h.both a ha
  cases (h.spot_before hn a ha loc hspot).unique hspot'
  exact Workspace.readBytes_of_stat (hspot.stat hfile)

theorem Ends.readable_iff (hn : as.Named dir stem) (h : as.Ends dir stem made (.ok ()) after)
    (ha : a ∈ as.toList) {leaf : String} (hleaf : (a.path dir).EndsIn leaf) :
    (∃ bytes, after.readBytes (a.path dir) = .ok bytes) ↔
      (∃ e, after.holding (a.path dir) = some e) ∧ mayRead (a.mode made dir) = true := by
  constructor
  · rintro ⟨bytes, hbytes⟩
    obtain ⟨e, he⟩ := Workspace.exists_holding_of_readBytes hleaf hbytes
    refine ⟨⟨e, he⟩, ?_⟩
    rw [h.readBytes hn ha he] at hbytes
    by_contra hno
    rw [if_neg hno] at hbytes
    cases hbytes
  · rintro ⟨⟨e, he⟩, hread⟩
    exact ⟨a.bytes, by rw [h.readBytes hn ha he, if_pos hread]⟩

/-- What stands at the path of a file has a say in its mode, and a new file can be read. -/
theorem mayRead_mode_iff_forall :
    mayRead (a.mode made dir) = true ↔
      ∀ mode, made.mode (a.path dir) = .ok mode → mayRead mode = true := by
  unfold Artifact.mode
  cases made.mode (a.path dir) with
  | ok mode => simp
  | error e =>
    simp only [reduceCtorEq, false_implies, implies_true, iff_true]
    decide

/-- Unless the source took the place of a link, both paths lead to the files. A header that took the
place of a link and cut off its own path would have cut off that of the source. -/
theorem exists_holding_after_write (hn : as.Named dir stem)
    (hbeside : ∀ (ws : Workspace) (d : Location),
      ws.Spot (as.source.path dir) (ArtifactKind.source.fileName stem :: d) →
        ws.Spot (as.header.path dir) (ArtifactKind.header.fileName stem :: d))
    (h : (as.write dir ws).result = .ok ())
    (hlink : ∀ target, (ws.ensureDirectory dir).workspace.holding (as.source.path dir) ≠
      some (.link target)) :
    ∀ a ∈ as.toList, ∃ e, (as.write dir ws).workspace.holding (a.path dir) = some e := by
  obtain ⟨staged, ws', ws'', hplaced, hsource, hdone⟩ := exists_placed_of_write_ok h
  have hkept : ∀ target, ws'.holding (as.source.path dir) ≠ some (.link target) :=
    fun target ht => hlink target (Workspace.holding_before_place hn.header hn.source
      (source_ne_header stem) hplaced.placed ht)
  obtain ⟨hkeeps, _⟩ := Workspace.keeps_of_place hn.source hsource hkept
  obtain ⟨d, hspot, _, _, _, rfl⟩ := (Workspace.place_eq_ok_iff hn.header).mp hplaced.placed
  obtain ⟨d', hspot', _, _, _, rfl⟩ := (Workspace.place_eq_ok_iff hn.source).mp hsource
  have hspot'' := hbeside _ d' hspot'
  cases hspot.eq_of_insert (by simp) hspot''
  have hheader := as.get?_header_of_both dir (ws.ensureDirectory dir).workspace stem d d
  rw [hdone]
  refine forall_mem_toList.mpr ⟨?_, ?_⟩
  · exact ⟨_, (hspot''.of_keeps hn.header hkeeps rfl hheader).holding.trans hheader⟩
  · have hplace := hspot'.of_keeps hn.source hkeeps rfl (FileTree.get?_insert_self _ _ _ (by simp))
    exact ⟨_, hplace.holding.trans (FileTree.get?_insert_self _ _ _ (by simp))⟩

end Artifacts

namespace RunOptions

/-- What the report of a run says is true of the workspace that it leaves. -/
structure TrueReport (o : RunOptions) (ws : Workspace) (r : Report) (after : Workspace) : Prop where
  /-- The header is listed and then the source, each at its path. -/
  listed : r.artifacts.map (fun a => (a.kind, a.path)) =
    [(.header, o.artifactPath .header), (.source, o.artifactPath .source)]
  counted : ∃ files, ws.discover o.schemaDir o.load.extension = .ok files ∧
    r.interfaceCount = files.length
  /-- What can be read at a path has the checksum that is given for it. -/
  verified : ∀ a ∈ r.artifacts, ∀ bytes, after.readBytes a.path = .ok bytes →
    a.checksum.verify bytes = true
  /-- After a check both files can be read. -/
  checked : o.mode = .check → ∀ a ∈ r.artifacts, ∃ bytes, after.readBytes a.path = .ok bytes
  /-- After a write a file can be read if its path still leads there, and if what stood there before
  could be read or was nothing. -/
  written : o.mode = .write → ∀ a ∈ r.artifacts,
    ((∃ bytes, after.readBytes a.path = .ok bytes) ↔
      (∃ e, after.holding a.path = some e) ∧
        ∀ mode, (o.made ws).mode a.path = .ok mode → mayRead mode = true)
  /-- The paths still lead there, unless the source took the place of a link. -/
  reached : o.mode = .write →
    (∀ target, (o.made ws).holding (o.artifactPath .source) ≠ some (.link target)) →
    ∀ a ∈ r.artifacts, ∃ e, after.holding a.path = some e

variable {o : RunOptions} {ws after : Workspace} {r : Report} {count : Nat} {as : Artifacts}

theorem exists_length_of_prepare (hp : o.prepare ws = .ok (count, as)) :
    ∃ files, ws.discover o.schemaDir o.load.extension = .ok files ∧ count = files.length := by
  unfold prepare at hp
  cases hload : ws.loadDirectory o.schemaDir o.load with
  | error e => simp [hload] at hp
  | ok documents =>
    obtain ⟨files, hd, hfiles⟩ := Schema.bind_eq_ok_iff.mp hload
    refine ⟨files, hd, ?_⟩
    rw [← Workspace.length_of_loadFiles hfiles]
    cases hc : compile documents o.baseName with
    | error e => simp [hload, hc] at hp
    | ok artifacts =>
      simp only [hload, hc] at hp
      cases hp
      rfl

theorem forall_mem_report {P : ArtifactReport → Prop} :
    (∀ a ∈ (o.report count as).artifacts, P a) ↔ ∀ a ∈ as.toList, P (a.report o.outputDir) := by
  simp [report]

theorem header_mem_report :
    as.header.report o.outputDir ∈ (o.report count as).artifacts :=
  List.mem_map_of_mem (by simp [Artifacts.toList])

theorem trueReport_check (hm : o.mode = .check) (hp : o.prepare ws = .ok (count, as))
    (h : (as.check o.outputDir ws).result = .ok ()) : o.TrueReport ws (o.report count as) ws := by
  obtain ⟨_, hup⟩ := Artifacts.check_eq_ok_iff.mp h
  obtain ⟨records, has⟩ := exists_render_of_prepare hp
  refine ⟨by rw [has]; rfl, exists_length_of_prepare hp, forall_mem_report.mpr fun a ha bytes hr => ?_,
    fun _ => forall_mem_report.mpr fun a ha => ⟨_, hup a ha⟩, ?_, ?_⟩
  · have hbytes : a.bytes = bytes := Except.ok.inj ((hup a ha).symm.trans hr)
    exact hbytes ▸ Checksum.verify_ofText a.contents
  · exact fun hw => by cases hm.symm.trans hw
  · exact fun hw => by cases hm.symm.trans hw

theorem trueReport_write (hm : o.mode = .write) (hp : o.prepare ws = .ok (count, as))
    (h : (as.write o.outputDir ws).result = .ok ()) :
    o.TrueReport ws (o.report count as) (as.write o.outputDir ws).workspace := by
  obtain ⟨records, rfl⟩ := exists_render_of_prepare hp
  obtain ⟨stem, hstem⟩ := Workspace.spot_join_fileName o.outputDir o.baseName
  have hn : (render records o.baseName).Named o.outputDir stem :=
    ⟨(hstem .header).1, (hstem .source).1⟩
  have hends := Artifacts.ends_of_write_ok hn h
  have hleaf : ∀ a ∈ (render records o.baseName).toList, ∃ leaf, (a.path o.outputDir).EndsIn leaf :=
    Artifacts.forall_mem_toList.mpr ⟨⟨_, hn.header⟩, ⟨_, hn.source⟩⟩
  refine ⟨rfl, exists_length_of_prepare hp, forall_mem_report.mpr fun a ha bytes hr => ?_, ?_,
    fun _ => forall_mem_report.mpr fun a ha => ?_, fun _ hlink => forall_mem_report.mpr ?_⟩
  · exact Artifacts.readBytes_after_write hn h ha hr ▸ Checksum.verify_ofText a.contents
  · exact fun hc => by cases hm.symm.trans hc
  · obtain ⟨leaf, hleaf⟩ := hleaf a ha
    exact (hends.readable_iff hn ha hleaf).trans (and_congr_right' Artifacts.mayRead_mode_iff_forall)
  · exact Artifacts.exists_holding_after_write hn
      (fun ws d hspot => (hstem .source).2 ws d .header hspot) h hlink

/-- The report of a run that succeeds is true, and another mode makes no other report. -/
theorem trueReport_of_run (h : (run o ws).result = .ok r) :
    o.TrueReport ws r (run o ws).workspace ∧
      ∀ mode r', (run { o with mode := mode } ws).result = .ok r' → r' = { r with mode := mode } := by
  obtain ⟨count, as, hp⟩ := exists_prepare_of_run h
  obtain ⟨hdone, rfl⟩ := (run_eq_ok_iff hp).mp h
  constructor
  · rw [workspace_run hp]
    cases hm : o.mode with
    | check =>
      simp only [emit, hm] at hdone ⊢
      rw [as.check_workspace]
      exact trueReport_check hm hp hdone
    | write =>
      simp only [emit, hm] at hdone ⊢
      exact trueReport_write hm hp hdone
  · intro mode r' h'
    have hp' : prepare { o with mode := mode } ws = .ok (count, as) := hp
    exact ((run_eq_ok_iff hp').mp h').2

end RunOptions

/-- An old header that is read-only can be read again, with the new contents. -/
theorem oldHeader_trueReport :
    (run intoOldHeader (oldHeader 0o444)).result = .ok (intoOldHeader.report 1 newTables) ∧
      intoOldHeader.TrueReport (oldHeader 0o444) (intoOldHeader.report 1 newTables)
        (run intoOldHeader (oldHeader 0o444)).workspace ∧
      ∃ bytes, (run intoOldHeader (oldHeader 0o444)).workspace.readBytes "o/t.h" = .ok bytes ∧
        (newTables.header.report "o").checksum.verify bytes = true := by
  have hrun := run_oldHeader 0o444
  obtain ⟨htrue, _⟩ := RunOptions.trueReport_of_run hrun
  have hlisted : newTables.header.report "o" ∈
    (intoOldHeader.report 1 newTables).artifacts := RunOptions.header_mem_report
  have hreached := htrue.reached rfl (fun target h => by cases h) _ hlisted
  obtain ⟨bytes, hbytes⟩ := (htrue.written rfl _ hlisted).mpr ⟨hreached, fun mode hmode => by
    have hmode' : Except.ok 0o444 = Except.ok mode := hmode
    cases hmode'
    decide⟩
  exact ⟨hrun, htrue, bytes, hbytes, htrue.verified _ hlisted bytes hbytes⟩

/-- One that may not be read is replaced but still may not be read. -/
theorem report_of_unreadable_header :
    ¬ ∀ (o : RunOptions) (ws : Workspace) (r : Report), ws.tree.WellFormed → ws.tree.LinkFree →
      (run o ws).result = .ok r → ∀ a ∈ r.artifacts,
        ∃ bytes, (run o ws).workspace.readBytes a.path = .ok bytes ∧
          a.checksum.verify bytes = true := by
  intro h
  have hwrite : (newTables.write "o" (oldHeader 0)).result = .ok () := by
    rw [newTables, write_oldHeader]
  have hlisted : newTables.header.report "o" ∈
    (intoOldHeader.report 1 newTables).artifacts := RunOptions.header_mem_report
  obtain ⟨bytes, hbytes, _⟩ := h intoOldHeader (oldHeader 0) _ (reached_oldHeader 0).wellFormed
    (linkFree_oldHeader 0) (run_oldHeader 0) _ hlisted
  have htrue := RunOptions.trueReport_write (o := intoOldHeader) rfl (prepare_oldHeader 0) hwrite
  rw [workspace_write rfl (prepare_oldHeader 0)] at hbytes
  have hmode := ((htrue.written rfl _ hlisted).mp ⟨bytes, hbytes⟩).2 0 rfl
  exact absurd hmode (by decide)

end InterfaceTables
