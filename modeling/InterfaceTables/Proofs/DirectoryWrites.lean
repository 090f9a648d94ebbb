import InterfaceTables.Proofs.CheckAndWrite

/-!
Writes into a directory that is there, in a tree without links. What becomes of the two files depends on
the directory and on what stands in their places, and all else stays as it is.
-/

namespace InterfaceTables

namespace FileTree

variable {t : FileTree} {last : LastStep} {links : Nat} {here mid : Location} {front : List String}

/-- Without links, more steps are followed from where the first ones lead. -/
theorem LinkFree.walk_append (hl : t.LinkFree) (hlast : last ≠ .written)
    (h : t.Leads .followed links here front (.entry mid)) (rest : List String)
    (follow : Location → List String → Except IoError Target) :
    t.walk last follow here (front ++ rest) = t.walk last follow mid rest := by
  generalize hg : Target.entry mid = goal at h
  induction h with
  | done =>
    cases hg
    rfl
  | blank dir _ ih => rw [← ih hg, List.cons_append, walk_blank dir]
  | dot dir _ ih => rw [← ih hg, List.cons_append, walk_dot dir]
  | up dir _ ih => rw [← ih hg, List.cons_append, walk_up dir]
  | absent => cases hg
  | enter look found solid _ ih =>
    rw [← ih hg, List.cons_append, walk_enter (look.of_ne_written hlast) found solid]
  | stop _ found _ => exact absurd found (hl _ _)
  | follow _ found _ _ _ => exact absurd found (hl _ _)

theorem walk_name {name : String} {mode : Nat} (hd : t.get? here = some (.directory mode))
    (hs : maySearch mode = true) (hl : t.LinkFree) (hn : Path.IsEntryName name)
    (follow : Location → List String → Except IoError Target) :
    t.walk .kept follow here [name] =
      if Path.maxName < name.utf8ByteSize then .error .nameTooLong
      else match t.get? (name :: here) with
        | none => .ok (.absent here name)
        | some _ => .ok (.entry (name :: here)) := by
  rw [walk, hd]
  simp only [hn.ne_empty, hn.ne_dot, hn.ne_up, hs, if_false, Bool.not_true, Bool.false_eq_true,
    reduceCtorEq, decide_false, Bool.false_and]
  split
  · rfl
  · cases hg : t.get? (name :: here) with
    | none => rfl
    | some e =>
      cases e with
      | link target => exact absurd hg (hl _ _)
      | directory m => rfl
      | file contents m => rfl

end FileTree

namespace Workspace

variable {ws ws' : Workspace} {dir : Path} {name : String} {loc : Location} {m : Nat}

theorem resolveTrimmed_join (hl : ws.tree.LinkFree) (hs : ws.stat dir = .ok (loc, .directory m))
    (hsearch : maySearch m = true) (hn : Path.IsEntryName name) :
    ws.resolveTrimmed .kept (dir.join name) =
      match (dir.join name).fault? with
      | some e => .error e
      | none =>
        if Path.maxName < name.utf8ByteSize then .error .nameTooLong
        else match ws.tree.get? (name :: loc) with
          | none => .ok (.absent loc name)
          | some _ => .ok (.entry (name :: loc)) := by
  have hends := Path.endsIn_join (ne_empty_of_stat hs) hn
  obtain ⟨front, hjoin, hfront⟩ := exists_front_of_stat hl hs hn
  have hd := (entry_eq_ok_iff.mp hs).2
  unfold resolveTrimmed resolveSteps
  cases (dir.join name).fault? with
  | some e => rfl
  | none =>
    show ws.tree.resolveFrom .kept FileTree.maxLinks _ (dir.join name).trimmedSteps = _
    rw [hends.trimmedSteps, hjoin, FileTree.resolveFrom_eq_walk, hl.walk_append (by simp) hfront]
    exact FileTree.walk_name hd hsearch hl hn _

/-- Why a file is not put under a name, where `old` stands there. -/
def refusal? (p : Path) (name : String) (old : Option Entry) : Option IoError :=
  match p.fault? with
  | some .nulInName => some .invalidArgument
  | some e => some e
  | none =>
    if Path.maxName < name.utf8ByteSize then some .nameTooLong
    else match old with
      | some (.directory _) => some .isDirectory
      | _ => none

/-- A file is put under a name in a directory, or it is refused. -/
theorem place_join (hl : ws.tree.LinkFree) (hs : ws.stat dir = .ok (loc, .directory m))
    (hc : ws.mayChange loc = true) (hn : Path.IsEntryName name) (contents : ByteArray) (mode : Nat) :
    ws.place loc (dir.join name) contents mode =
      match refusal? (dir.join name) name (ws.tree.get? (name :: loc)) with
      | some e => .error e
      | none => .ok (ws.insert (name :: loc) (.file contents mode)) := by
  have hends := Path.endsIn_join (ne_empty_of_stat hs) hn
  have hsearch : maySearch m = true := by
    obtain ⟨m', hm', _, hsearch⟩ := mayChange_iff.mp hc
    cases hm'.symm.trans (entry_eq_ok_iff.mp hs).2
    exact hsearch
  have hsuffix : (name :: loc).isSuffixOf loc = false := by
    rw [FileTree.isSuffixOf_eq_false]
    intro h
    have hlength := h.length_le
    rw [List.length_cons] at hlength
    omega
  unfold place refusal?
  rw [resolveTrimmed_join hl hs hsearch hn]
  cases hf : (dir.join name).fault? with
  | some e => cases e <;> rfl
  | none =>
    by_cases hlong : Path.maxName < name.utf8ByteSize
    · simp only [hlong, if_true]
    · simp only [hlong, if_false]
      cases hg : ws.tree.get? (name :: loc) with
      | none => simp [hends.endsInSlash, add, hc]
      | some e =>
        simp only [hends.namesEntry, hends.endsInSlash, hsuffix, List.tail_cons, hc, hg, Bool.not_true,
          Bool.false_eq_true, if_false]
        cases e <;> rfl

theorem not_isDirectory_of_refusal {p : Path} {l : Location}
    (h : refusal? p name (ws.tree.get? l) = none) : ¬ ws.tree.IsDirectory l := by
  rintro ⟨mode, hm⟩
  unfold refusal? at h
  rw [hm] at h
  split at h
  · cases h
  · cases h
  · split at h <;> cases h

end Workspace

namespace Artifacts

variable {as : Artifacts} {dir : Path} {ws ws' : Workspace} {loc : Location} {m : Nat} {stem : String}

/-- Both files are named after a stem that stays in its directory. -/
structure NamedAfter (as : Artifacts) (stem : String) : Prop where
  header : as.header.fileName = ArtifactKind.header.fileName stem
  source : as.source.fileName = ArtifactKind.source.fileName stem
  no_slash : '/' ∉ stem.toList

theorem NamedAfter.isEntryName (h : as.NamedAfter stem) (k : ArtifactKind) :
    Path.IsEntryName (k.fileName stem) := ArtifactKind.isEntryName_fileName h.no_slash k

theorem NamedAfter.header_path (h : as.NamedAfter stem) (dir : Path) :
    as.header.path dir = dir.join (ArtifactKind.header.fileName stem) := by
  rw [Artifact.path, h.header]

theorem NamedAfter.source_path (h : as.NamedAfter stem) (dir : Path) :
    as.source.path dir = dir.join (ArtifactKind.source.fileName stem) := by
  rw [Artifact.path, h.source]

/-- Why a file is not put into a directory. -/
def refused? (dir : Path) (stem : String) (loc : Location) (ws : Workspace) (k : ArtifactKind) :
    Option IoError :=
  Workspace.refusal? (dir.join (k.fileName stem)) (k.fileName stem) (ws.tree.get? (k.fileName stem :: loc))

theorem NamedAfter.place_header (hn : as.NamedAfter stem) (hl : ws.tree.LinkFree)
    (hs : ws.stat dir = .ok (loc, .directory m)) (hc : ws.mayChange loc = true) :
    ws.place loc (as.header.path dir) as.header.bytes (as.header.mode ws dir) =
      match refused? dir stem loc ws .header with
      | some e => .error e
      | none => .ok (as.withHeader dir ws stem loc) := by
  rw [hn.header_path]
  exact Workspace.place_join hl hs hc (hn.isEntryName .header) _ _

/-- The header that was put first is no hindrance to the source. -/
theorem NamedAfter.placeStaged_source (hn : as.NamedAfter stem) (hl : ws.tree.LinkFree)
    (hreach : ws.outOfReach? dir = none) (hs : ws.stat dir = .ok (loc, .directory m))
    (hc : ws.mayChange loc = true)
    (hkeeps : ws.tree.Keeps (as.withHeader dir ws stem loc).tree) :
    (as.withHeader dir ws stem loc).placeStaged dir loc (as.source.path dir) as.source.bytes
        (as.source.mode ws dir) =
      match refused? dir stem loc ws .source with
      | some e => .error e
      | none => .ok (as.withBoth dir ws stem loc) := by
  have hstaging : ws.staging dir = .ok loc := by rw [Workspace.staging_of_stat hreach hs, if_pos hc]
  have hother : (as.withHeader dir ws stem loc).tree.get? (ArtifactKind.source.fileName stem :: loc) =
      ws.tree.get? (ArtifactKind.source.fileName stem :: loc) :=
    FileTree.get?_insert_of_ne _ _ (source_cons_ne_header_cons stem loc loc)
  rw [Workspace.placeStaged_of_staging (Workspace.staging_of_keeps hkeeps rfl hstaging), hn.source_path,
    refused?, ← hother]
  exact Workspace.place_join (hl.insert_file (by simp)) (Workspace.stat_directory_of_keeps hkeeps rfl hs)
    (Workspace.mayChange_of_keeps hkeeps hc) (hn.isEntryName .source) _ _

theorem write_of_outOfReach {e : IoError} (hs : ws.stat dir = .ok (loc, .directory m))
    (hr : ws.outOfReach? dir = some e) :
    as.write dir ws = ⟨.error (.write (as.header.path dir) e), ws, []⟩ :=
  write_of_staging_error
    (Workspace.ensureDirectory_of_isDirectory (Workspace.isDirectory_iff.mpr ⟨_, _, hs⟩))
    (Workspace.staging_of_outOfReach hr)

/-- A write into a directory that is there and in reach. -/
theorem write_eq (hl : ws.tree.LinkFree) (hreach : ws.outOfReach? dir = none)
    (hs : ws.stat dir = .ok (loc, .directory m)) (hn : as.NamedAfter stem) :
    as.write dir ws =
      if ws.mayChange loc then
        match refused? dir stem loc ws .header with
        | some e => ⟨.error (.write (as.header.path dir) e), ws, []⟩
        | none =>
          match refused? dir stem loc ws .source with
          | some e =>
            ⟨.error (.write (as.source.path dir) e), as.withHeader dir ws stem loc,
              [.wrote (as.header.path dir)]⟩
          | none =>
            ⟨.ok (), as.withBoth dir ws stem loc,
              [.wrote (as.header.path dir), .wrote (as.source.path dir)]⟩
      else ⟨.error (.write (as.header.path dir) .denied), ws, []⟩ := by
  have hmade := Workspace.ensureDirectory_of_isDirectory (Workspace.isDirectory_iff.mpr ⟨_, _, hs⟩)
  have hstaging := Workspace.staging_of_stat hreach hs
  cases hc : ws.mayChange loc with
  | false =>
    rw [hc] at hstaging
    exact write_of_staging_error hmade hstaging
  | true =>
    rw [if_pos hc] at hstaging
    have hheader := hn.place_header hl hs hc
    cases hrefused : refused? dir stem loc ws .header with
    | some e =>
      rw [hrefused] at hheader
      exact write_of_header_error hmade hstaging hheader
    | none =>
      rw [hrefused] at hheader
      have hplaced : as.HeaderPlaced dir ws loc (as.withHeader dir ws stem loc) :=
        .of_ready hmade hstaging hheader
      have hkeeps : ws.tree.Keeps (as.withHeader dir ws stem loc).tree :=
        FileTree.keeps_insert_file (by simp) (Workspace.not_isDirectory_of_refusal hrefused) (hl _)
      have hsource := hn.placeStaged_source hl hreach hs hc hkeeps
      rw [← placeSource_of_ready hmade] at hsource
      cases hrefused' : refused? dir stem loc ws .source with
      | some e =>
        rw [hrefused'] at hsource
        have hdrop : as.dropSource dir ws loc (as.withHeader dir ws stem loc) =
            as.withHeader dir ws stem loc :=
          Workspace.dropStaged_of_staging (Workspace.staging_of_keeps hkeeps rfl hstaging)
        rw [write_of_placeSource_error hplaced hsource, hdrop]
        rfl
      | none =>
        rw [hrefused'] at hsource
        exact write_of_placeSource_ok hplaced hsource

/-! ## What a write depends on -/

theorem get?_withHeader (as : Artifacts) (dir : Path) (ws : Workspace) (stem : String) (loc : Location)
    (k : ArtifactKind) :
    (as.withHeader dir ws stem loc).tree.get? (k.fileName stem :: loc) =
      match k with
      | .header => some (.file as.header.bytes (as.header.mode ws dir))
      | .source => ws.tree.get? (ArtifactKind.source.fileName stem :: loc) := by
  cases k with
  | header => exact FileTree.get?_insert_self _ _ _ (by simp)
  | source => exact FileTree.get?_insert_of_ne _ _ (source_cons_ne_header_cons stem loc loc)

theorem get?_withBoth (as : Artifacts) (dir : Path) (ws : Workspace) (stem : String) (loc : Location)
    (k : ArtifactKind) :
    (as.withBoth dir ws stem loc).tree.get? (k.fileName stem :: loc) =
      match k with
      | .header => some (.file as.header.bytes (as.header.mode ws dir))
      | .source => some (.file as.source.bytes (as.source.mode ws dir)) := by
  cases k with
  | header =>
    exact (FileTree.get?_insert_of_ne _ _ (source_cons_ne_header_cons stem loc loc).symm).trans
      (get?_withHeader as dir ws stem loc .header)
  | source => exact FileTree.get?_insert_self _ _ _ (by simp)

end Artifacts

namespace Workspace

variable {ws ws' : Workspace} {dir : Path} {name : String} {loc : Location} {m : Nat}

theorem mayChange_of_stat (hs : ws.stat dir = .ok (loc, .directory m)) :
    ws.mayChange loc = (mayWrite m && maySearch m) := by
  simp [mayChange, (entry_eq_ok_iff.mp hs).2]

/-- A name in a directory leads to the same in two trees that have the same there. -/
theorem stat_join_congr (hl : ws.tree.LinkFree) (hl' : ws'.tree.LinkFree)
    (hs : ws.stat dir = .ok (loc, .directory m)) (hs' : ws'.stat dir = .ok (loc, .directory m))
    (hn : Path.IsEntryName name) (h : ws'.tree.get? (name :: loc) = ws.tree.get? (name :: loc))
    (l : Location) (e : Entry) :
    ws'.stat (dir.join name) = .ok (l, e) ↔ ws.stat (dir.join name) = .ok (l, e) := by
  have hsearch : ws'.tree.Searchable loc ↔ ws.tree.Searchable loc := by
    unfold FileTree.Searchable
    rw [(entry_eq_ok_iff.mp hs').2, (entry_eq_ok_iff.mp hs).2]
  rw [stat_join_iff hl' hs' hn, stat_join_iff hl hs hn, hsearch, h]

theorem holding_eq_some_iff_of_linkFree {p : Path} {e : Entry} (hl : ws.tree.LinkFree) :
    ws.holding p = some e ↔ ∃ l, ws.stat p = .ok (l, e) := by
  rw [holding_eq_some_iff]
  simp only [stat_eq_ok_iff_of_linkFree hl, entry_eq_ok_iff]

/-- A file in a directory is the same in two trees that have the same there. -/
theorem holding_join_congr (hl : ws.tree.LinkFree) (hl' : ws'.tree.LinkFree)
    (hs : ws.stat dir = .ok (loc, .directory m)) (hs' : ws'.stat dir = .ok (loc, .directory m))
    (hn : Path.IsEntryName name) (h : ws'.tree.get? (name :: loc) = ws.tree.get? (name :: loc)) :
    ws'.holding (dir.join name) = ws.holding (dir.join name) := by
  ext e
  rw [holding_eq_some_iff_of_linkFree hl', holding_eq_some_iff_of_linkFree hl]
  exact exists_congr fun l => stat_join_congr hl hl' hs hs' hn h l e

theorem mode_congr {a : Artifact}
    (h : ∀ l e, ws'.stat (a.path dir) = .ok (l, e) ↔ ws.stat (a.path dir) = .ok (l, e)) :
    a.mode ws' dir = a.mode ws dir := by
  unfold Artifact.mode Workspace.mode
  cases hs : ws.stat (a.path dir) with
  | ok found => rw [(h found.1 found.2).mpr hs]
  | error e =>
    cases hs' : ws'.stat (a.path dir) with
    | ok found =>
      rw [(h found.1 found.2).mp hs'] at hs
      cases hs
    | error e' => rfl

end Workspace

namespace Artifacts

variable {as : Artifacts} {dir : Path} {ws ws' : Workspace} {loc : Location} {m : Nat} {stem : String}

/-- In two trees that have the same directory with the same in the places of the files, a write ends in
the same way and leaves the same files. -/
theorem write_congr (hl : ws.tree.LinkFree) (hl' : ws'.tree.LinkFree)
    (hreach : ws'.outOfReach? dir = ws.outOfReach? dir)
    (hs : ws.stat dir = .ok (loc, .directory m)) (hs' : ws'.stat dir = .ok (loc, .directory m))
    (hn : as.NamedAfter stem)
    (h : ∀ k : ArtifactKind,
      ws'.tree.get? (k.fileName stem :: loc) = ws.tree.get? (k.fileName stem :: loc)) :
    (as.write dir ws').result = (as.write dir ws).result ∧
      ∀ k : ArtifactKind, (as.write dir ws').workspace.tree.get? (k.fileName stem :: loc) =
        (as.write dir ws).workspace.tree.get? (k.fileName stem :: loc) := by
  cases hr : ws.outOfReach? dir with
  | some e =>
    rw [write_of_outOfReach hs hr, write_of_outOfReach hs' (hreach.trans hr)]
    exact ⟨rfl, h⟩
  | none =>
  have hrefused : ∀ k, refused? dir stem loc ws' k = refused? dir stem loc ws k := by
    intro k
    rw [refused?, refused?, h k]
  have hheader : as.header.mode ws' dir = as.header.mode ws dir := by
    refine Workspace.mode_congr fun l e => ?_
    rw [hn.header_path]
    exact Workspace.stat_join_congr hl hl' hs hs' (hn.isEntryName .header) (h .header) l e
  have hsource : as.source.mode ws' dir = as.source.mode ws dir := by
    refine Workspace.mode_congr fun l e => ?_
    rw [hn.source_path]
    exact Workspace.stat_join_congr hl hl' hs hs' (hn.isEntryName .source) (h .source) l e
  have hwithHeader : ∀ k : ArtifactKind,
      (as.withHeader dir ws' stem loc).tree.get? (k.fileName stem :: loc) =
        (as.withHeader dir ws stem loc).tree.get? (k.fileName stem :: loc) := by
    intro k
    rw [get?_withHeader, get?_withHeader, hheader, h .source]
  have hwithBoth : ∀ k : ArtifactKind,
      (as.withBoth dir ws' stem loc).tree.get? (k.fileName stem :: loc) =
        (as.withBoth dir ws stem loc).tree.get? (k.fileName stem :: loc) := by
    intro k
    rw [get?_withBoth, get?_withBoth, hheader, hsource]
  rw [write_eq hl hr hs hn, write_eq hl' (hreach.trans hr) hs' hn, Workspace.mayChange_of_stat hs,
    Workspace.mayChange_of_stat hs', hrefused .header, hrefused .source]
  cases mayWrite m && maySearch m with
  | false => exact ⟨rfl, h⟩
  | true =>
    rw [if_pos rfl, if_pos rfl]
    cases refused? dir stem loc ws .header with
    | some e => exact ⟨rfl, h⟩
    | none =>
      cases refused? dir stem loc ws .source with
      | some e => exact ⟨rfl, hwithHeader⟩
      | none => exact ⟨rfl, hwithBoth⟩

/-- A check in two such trees agrees in both or in none. -/
theorem check_congr (hl : ws.tree.LinkFree) (hl' : ws'.tree.LinkFree)
    (hs : ws.stat dir = .ok (loc, .directory m)) (hs' : ws'.stat dir = .ok (loc, .directory m))
    (hn : as.NamedAfter stem)
    (h : ∀ k : ArtifactKind,
      ws'.tree.get? (k.fileName stem :: loc) = ws.tree.get? (k.fileName stem :: loc)) :
    (as.check dir ws').result = .ok () ↔ (as.check dir ws).result = .ok () := by
  have hstat : ∀ k l e, ws'.stat (dir.join (ArtifactKind.fileName k stem)) = .ok (l, e) ↔
      ws.stat (dir.join (ArtifactKind.fileName k stem)) = .ok (l, e) := fun k =>
    Workspace.stat_join_congr hl hl' hs hs' (hn.isEntryName k) (h k)
  have hd : ws.isDirectory dir = true := Workspace.isDirectory_iff.mpr ⟨_, _, hs⟩
  have hd' : ws'.isDirectory dir = true := Workspace.isDirectory_iff.mpr ⟨_, _, hs'⟩
  rw [check_eq_ok_iff, check_eq_ok_iff, hd, hd', UpToDate, UpToDate, forall_mem_toList, forall_mem_toList,
    hn.header_path, hn.source_path]
  simp only [Workspace.readBytes_eq_ok_iff, hstat]

end Artifacts

end InterfaceTables
