import InterfaceTables.Interface.Directories
import InterfaceTables.Proofs.GeneratedFiles

/-!
The directories that a search finds in a tree without links. Each is at a place of its own, and all that is
generated in them leaves what is found as it is.
-/

namespace InterfaceTables

theorem FileTree.length_le_height {t : FileTree} {loc : Location} {e : Entry} (h : t.get? loc = some e) :
    loc.length ≤ t.height := by
  cases loc with
  | nil => exact Nat.zero_le _
  | cons name dir =>
    obtain ⟨e', he'⟩ := exists_get?_iff.mp ⟨e, h⟩
    have hmem := List.mem_map_of_mem (f := fun x : Location × Entry => x.1.length) he'
    have hle := List.le_max?_getD_of_mem (k := 0) hmem
    rw [height, List.foldl_max]
    exact Nat.le_trans hle (Nat.le_max_right ..)

namespace Workspace

/-! ## One level of a search -/

variable {ws ws' : Workspace} {extension : String} {dir : Path} {loc l : Location} {name : String}
  {names : List String} {dirs found : List Path} {find find' : String → Except SearchError (List Path)}

theorem gather_cons_eq_ok_iff :
    gather find (name :: names) = .ok dirs ↔
      ∃ here others, find name = .ok here ∧ gather find names = .ok others ∧ dirs = here ++ others := by
  rw [gather, Schema.bind_eq_ok_iff]
  simp only [Schema.bind_eq_ok_iff, pure, Except.pure, Except.ok.injEq]
  grind

theorem gather_imp (h : ∀ name ∈ names, ∀ found, find name = .ok found → find' name = .ok found)
    (hg : gather find names = .ok dirs) : gather find' names = .ok dirs := by
  induction names generalizing dirs with
  | nil => exact hg
  | cons name names ih =>
    obtain ⟨here, others, hhere, hothers, rfl⟩ := gather_cons_eq_ok_iff.mp hg
    exact gather_cons_eq_ok_iff.mpr ⟨here, others, h name (by simp) here hhere,
      ih (fun name' hmem => h name' (List.mem_cons_of_mem name hmem)) hothers, rfl⟩

/-- Names under which nothing is found can be left out. -/
theorem gather_filter {p : String → Bool} (h : ∀ name, p name = false → find name = .ok [])
    (names : List String) : gather find (names.filter p) = gather find names := by
  induction names with
  | nil => rfl
  | cons name names ih =>
    cases hp : p name with
    | true => rw [List.filter_cons_of_pos hp, gather, gather, ih]
    | false =>
      rw [List.filter_cons_of_neg (by simp [hp]), ih, gather, h name hp]
      cases gather find names <;> rfl

/-- Whether a search goes into an entry. -/
def enters (ws : Workspace) (loc : Location) (name : String) : Bool :=
  !isPruned name && match ws.tree.get? (name :: loc) with
    | some (.directory _) => true
    | _ => false

theorem enters_iff : ws.enters loc name = true ↔
    isPruned name = false ∧ ws.tree.IsDirectory (name :: loc) := by
  unfold enters FileTree.IsDirectory
  rw [Bool.and_eq_true, Bool.not_eq_true']
  refine and_congr_right fun _ => ?_
  split
  · simp [*]
  · simp_all

/-- What is found at and below an entry. -/
def foundUnder (ws : Workspace) (extension : String) (depth : Nat) (dir : Path) (loc : Location)
    (name : String) : Except SearchError (List Path) :=
  match isPruned name, ws.tree.get? (name :: loc) with
  | false, some (.directory _) => do
    let own ← ws.ownDirectory extension (some name) (dir.join name)
    let below ← ws.directoriesBelow extension depth (dir.join name)
    return own ++ below
  | _, _ => .ok []

theorem foundUnder_of_not_enters {depth : Nat} (h : ws.enters loc name = false) :
    ws.foundUnder extension depth dir loc name = .ok [] := by
  unfold enters at h
  unfold foundUnder
  split
  · simp_all
  · rfl

theorem foundUnder_eq_ok_iff {depth : Nat} (h : ws.enters loc name = true) :
    ws.foundUnder extension depth dir loc name = .ok found ↔
      ∃ own below, ws.ownDirectory extension (some name) (dir.join name) = .ok own ∧
        ws.directoriesBelow extension depth (dir.join name) = .ok below ∧ found = own ++ below := by
  obtain ⟨hp, m, hm⟩ := enters_iff.mp h
  unfold foundUnder
  rw [hp, hm]
  simp only [Schema.bind_eq_ok_iff, pure, Except.pure, Except.ok.injEq]
  grind

theorem directoriesBelow_of_list {depth : Nat} (h : ws.list dir = .ok (loc, names)) :
    ws.directoriesBelow extension (depth + 1) dir =
      gather (ws.foundUnder extension depth dir loc) names := by
  rw [directoriesBelow, h]
  rfl

theorem directoriesBelow_succ_eq_ok_iff {depth : Nat} :
    ws.directoriesBelow extension (depth + 1) dir = .ok dirs ↔
      ∃ loc m, ws.stat dir = .ok (loc, .directory m) ∧ mayRead m = true ∧
        gather (ws.foundUnder extension depth dir loc) ((ws.tree.sortedNames loc).filter (ws.enters loc)) =
          .ok dirs := by
  have hfilter : ∀ loc, gather (ws.foundUnder extension depth dir loc)
      ((ws.tree.sortedNames loc).filter (ws.enters loc)) =
        gather (ws.foundUnder extension depth dir loc) (ws.tree.sortedNames loc) := fun loc =>
    gather_filter (fun _ => foundUnder_of_not_enters) _
  constructor
  · intro h
    cases hlist : ws.list dir with
    | error e =>
      rw [directoriesBelow, hlist] at h
      cases h
    | ok listed =>
      obtain ⟨loc, names⟩ := listed
      rw [directoriesBelow_of_list hlist] at h
      obtain ⟨m, hs, hr, rfl⟩ := list_eq_ok_iff.mp hlist
      exact ⟨loc, m, hs, hr, (hfilter loc).trans h⟩
  · rintro ⟨loc, m, hs, hr, hg⟩
    rw [directoriesBelow_of_list (list_eq_ok_iff.mpr ⟨m, hs, hr, rfl⟩)]
    exact (hfilter loc).symm.trans hg

theorem ownDirectory_eq_ok_iff {name : Option String} :
    ws.ownDirectory extension name dir = .ok found ↔
      (name ≠ some interfacesName ∧ found = []) ∨
        (name = some interfacesName ∧ ∃ files, ws.discover dir extension = .ok files ∧
          found = if files.isEmpty then [] else [dir]) := by
  unfold ownDirectory
  by_cases hname : name = some interfacesName
  · simp only [hname, beq_self_eq_true, if_true, ne_eq, not_true_eq_false, false_and, true_and, false_or]
    cases ws.discover dir extension with
    | error e => simp
    | ok files =>
      constructor
      · intro h
        exact ⟨files, rfl, (Except.ok.inj h).symm⟩
      · rintro ⟨_, ⟨⟩, rfl⟩
        rfl
  · have hne : (name == some interfacesName) = false := beq_eq_false_iff_ne.mpr hname
    simp only [hne, hname, Bool.false_eq_true, if_false, ne_eq, not_false_eq_true, true_and, false_and,
      or_false, Except.ok.injEq]
    exact eq_comm

/-! ## Places -/

/-- Directories with documents, each at another place of a region. -/
structure Spread (ws : Workspace) (extension : String) (region : Location → Prop) (dirs : List Path) :
    Prop where
  found : ∀ dir ∈ dirs, ∃ files, ws.discover dir extension = .ok files
  place : ∀ dir ∈ dirs, ∃ l m, ws.stat dir = .ok (l, .directory m) ∧ region l
  nodup : (dirs.map ws.stat).Nodup

variable {region region' : Location → Prop}

theorem spread_nil : ws.Spread extension region [] :=
  ⟨fun _ h => (List.not_mem_nil h).elim, fun _ h => (List.not_mem_nil h).elim, List.nodup_nil⟩

theorem Spread.mono (h : ws.Spread extension region dirs) (himp : ∀ l, region l → region' l) :
    ws.Spread extension region' dirs where
  found := h.found
  place dir hdir := by
    obtain ⟨l, m, hs, hl⟩ := h.place dir hdir
    exact ⟨l, m, hs, himp l hl⟩
  nodup := h.nodup

theorem Spread.append {dirs' : List Path} (h : ws.Spread extension region dirs)
    (h' : ws.Spread extension region' dirs') (hapart : ∀ l, region l → ¬ region' l) :
    ws.Spread extension (fun l => region l ∨ region' l) (dirs ++ dirs') where
  found dir hdir := (List.mem_append.mp hdir).elim (h.found dir) (h'.found dir)
  place dir hdir := by
    cases List.mem_append.mp hdir with
    | inl hmem =>
      obtain ⟨l, m, hs, hl⟩ := h.place dir hmem
      exact ⟨l, m, hs, Or.inl hl⟩
    | inr hmem =>
      obtain ⟨l, m, hs, hl⟩ := h'.place dir hmem
      exact ⟨l, m, hs, Or.inr hl⟩
  nodup := by
    rw [List.map_append]
    refine List.nodup_append'.mpr ⟨h.nodup, h'.nodup, fun found hmem hmem' => ?_⟩
    obtain ⟨dir, hdir, rfl⟩ := List.mem_map.mp hmem
    obtain ⟨dir', hdir', heq⟩ := List.mem_map.mp hmem'
    obtain ⟨l, m, hs, hl⟩ := h.place dir hdir
    obtain ⟨l', m', hs', hl'⟩ := h'.place dir' hdir'
    cases hs'.symm.trans (heq.trans hs)
    exact hapart l hl hl'

/-- The directories after the first are elsewhere. -/
theorem Spread.tail {m : Nat} (h : ws.Spread extension region (dir :: dirs))
    (hs : ws.stat dir = .ok (loc, .directory m)) :
    ws.Spread extension (fun l => region l ∧ l ≠ loc) dirs where
  found dir' hdir := h.found dir' (List.mem_cons_of_mem dir hdir)
  place dir' hdir := by
    obtain ⟨l, m', hs', hl⟩ := h.place dir' (List.mem_cons_of_mem dir hdir)
    refine ⟨l, m', hs', hl, ?_⟩
    rintro rfl
    cases (entry_eq_ok_iff.mp hs').2.symm.trans (entry_eq_ok_iff.mp hs).2
    have hnot := (List.nodup_cons.mp (List.map_cons ▸ h.nodup)).1
    exact hnot (List.mem_map.mpr ⟨dir', hdir, hs'.trans hs.symm⟩)
  nodup := (List.nodup_cons.mp (List.map_cons ▸ h.nodup)).2

/-- A place with what is below it. -/
theorem Spread.append_below {below : List Path} (h : ws.Spread extension (· = loc) dirs)
    (hbelow : ws.Spread extension (fun l => ∃ name, name :: loc <:+ l) below) :
    ws.Spread extension (loc <:+ ·) (dirs ++ below) := by
  refine (h.append hbelow ?_).mono ?_
  · rintro l rfl ⟨name, hsuffix⟩
    have hlength := hsuffix.length_le
    rw [List.length_cons] at hlength
    omega
  · rintro l (rfl | ⟨name, hsuffix⟩)
    · exact List.suffix_rfl
    · exact (List.suffix_cons name loc).trans hsuffix

theorem spread_ownDirectory {name : Option String} (hw : ws.tree.WellFormed)
    (hplace : ∀ l m, ws.stat dir = .ok (l, .directory m) → l = loc)
    (h : ws.ownDirectory extension name dir = .ok found) : ws.Spread extension (· = loc) found := by
  obtain ⟨_, rfl⟩ | ⟨_, files, hd, rfl⟩ := ownDirectory_eq_ok_iff.mp h
  · exact spread_nil
  · cases files with
    | nil => exact spread_nil
    | cons file files =>
      obtain ⟨l, m, _, hs, _⟩ := exists_of_mem_discover hd hw List.mem_cons_self
      refine ⟨fun dir' hdir => ?_, fun dir' hdir => ?_, List.nodup_singleton _⟩
      · cases List.mem_singleton.mp hdir
        exact ⟨_, hd⟩
      · cases List.mem_singleton.mp hdir
        exact ⟨l, m, hs, hplace l m hs⟩

/-- A directory in a directory is at the place of its name. -/
theorem place_of_stat_join (hl : ws.tree.LinkFree) (hw : ws.tree.WellFormed) {m : Nat}
    (hs : ws.stat dir = .ok (loc, .directory m)) (he : ws.enters loc name = true) :
    ∀ l m, ws.stat (dir.join name) = .ok (l, .directory m) → l = name :: loc := by
  intro l m' hs'
  obtain ⟨_, mode, hd⟩ := enters_iff.mp he
  exact ((stat_join_iff hl hs (hw.name hd)).mp hs').2.2.2.1

/-- What is found under different names is at different places. -/
theorem spread_gather (hn : names.Nodup)
    (h : ∀ name ∈ names, ∀ found, find name = .ok found →
      ws.Spread extension (name :: loc <:+ ·) found)
    (hg : gather find names = .ok dirs) :
    ws.Spread extension (fun l => ∃ name ∈ names, name :: loc <:+ l) dirs := by
  induction names generalizing dirs with
  | nil =>
    cases hg
    exact spread_nil
  | cons name names ih =>
    obtain ⟨here, others, hhere, hothers, rfl⟩ := gather_cons_eq_ok_iff.mp hg
    obtain ⟨hnot, hn'⟩ := List.nodup_cons.mp hn
    have hfirst := h name List.mem_cons_self here hhere
    have hrest := ih hn' (fun name' hmem => h name' (List.mem_cons_of_mem name hmem)) hothers
    refine (hfirst.append hrest fun l hl => ?_).mono fun l hl => ?_
    · rintro ⟨name', hmem, hl'⟩
      -- Two ends of one list that are equally long are the same.
      have heq := (List.suffix_of_suffix_length_le hl hl' (by simp)).eq_of_length (by simp)
      cases heq
      exact hnot hmem
    · cases hl with
      | inl hl => exact ⟨name, List.mem_cons_self, hl⟩
      | inr hl =>
        obtain ⟨name', hmem, hl'⟩ := hl
        exact ⟨name', List.mem_cons_of_mem name hmem, hl'⟩

theorem spread_directoriesBelow (hl : ws.tree.LinkFree) (hw : ws.tree.WellFormed) {depth : Nat}
    (hplace : ∀ l m, ws.stat dir = .ok (l, .directory m) → l = loc)
    (h : ws.directoriesBelow extension depth dir = .ok dirs) :
    ws.Spread extension (fun l => ∃ name, name :: loc <:+ l) dirs := by
  induction depth generalizing dir loc dirs with
  | zero =>
    cases h
    exact spread_nil
  | succ depth ih =>
    obtain ⟨l, m, hs, _, hg⟩ := directoriesBelow_succ_eq_ok_iff.mp h
    cases hplace l m hs
    have hunder : ∀ name ∈ (ws.tree.sortedNames loc).filter (ws.enters loc), ∀ found,
        ws.foundUnder extension depth dir loc name = .ok found →
          ws.Spread extension (name :: loc <:+ ·) found := by
      intro name hmem found hfound
      have he := (List.mem_filter.mp hmem).2
      have hplace' := place_of_stat_join hl hw hs he
      obtain ⟨own, below, hown, hbelow, rfl⟩ := (foundUnder_eq_ok_iff he).mp hfound
      exact (spread_ownDirectory hw hplace' hown).append_below (ih hplace' hbelow)
    exact (spread_gather ((ws.tree.nodup_sortedNames loc).filter _) hunder hg).mono
      fun l ⟨name, _, hsuffix⟩ => ⟨name, hsuffix⟩

/-- A search finds every directory once. -/
theorem spread_interfaceDirectories (hl : ws.tree.LinkFree) (hw : ws.tree.WellFormed) {root : Path}
    (h : ws.interfaceDirectories extension root = .ok dirs) :
    ws.Spread extension (fun _ => True) dirs := by
  unfold interfaceDirectories at h
  split at h
  case h_1 => cases h
  case h_2 loc m hentry =>
    have hs := (stat_eq_ok_iff_of_linkFree hl).mpr hentry
    have hplace : ∀ l m, ws.stat root = .ok (l, .directory m) → l = loc := by
      intro l m' hs'
      cases hs'.symm.trans hs
      rfl
    obtain ⟨own, hown, h⟩ := Schema.bind_eq_ok_iff.mp h
    obtain ⟨below, hbelow, h⟩ := Schema.bind_eq_ok_iff.mp h
    cases h
    exact ((spread_ownDirectory hw hplace hown).append_below
      (spread_directoriesBelow hl hw hplace hbelow)).mono fun _ _ => trivial
  case h_3 =>
    cases h
    exact spread_nil
  case h_4 target hentry => exact absurd (entry_eq_ok_iff.mp hentry).2 (hl _ _)

/-! ## Searching again -/

variable {stem : String} {done : Location → Prop}

theorem Generates.enters_iff (h : Generates stem done ws ws') :
    ws'.enters loc name = true ↔ ws.enters loc name = true := by
  rw [Workspace.enters_iff, Workspace.enters_iff, h.isDirectory_iff]

theorem Generates.ownDirectory {name : Option String} (h : Generates stem done ws ws')
    (hl : ws.tree.LinkFree) (hw : ws.tree.WellFormed) (hw' : ws'.tree.WellFormed) (hh : extension ≠ "h")
    (hc : extension ≠ "c") (hown : ws.ownDirectory extension name dir = .ok found) :
    ws'.ownDirectory extension name dir = .ok found := by
  refine ownDirectory_eq_ok_iff.mpr ((ownDirectory_eq_ok_iff.mp hown).imp_right ?_)
  rintro ⟨hname, files, hd, rfl⟩
  exact ⟨hname, files, h.discover hl hw hw' hh hc hd, rfl⟩

/-- Generated files are not gone into, so that the same is found below. The depths only have to reach
beyond all entries. -/
theorem Generates.directoriesBelow (h : Generates stem done ws ws') (hl : ws.tree.LinkFree)
    (hw : ws.tree.WellFormed) (hw' : ws'.tree.WellFormed) (hh : extension ≠ "h") (hc : extension ≠ "c")
    {depth depth' : Nat} (hdepth : 0 < depth) (hdepth' : 0 < depth')
    (hreach : ∀ loc m, ws.stat dir = .ok (loc, .directory m) →
      ws.tree.height < depth + loc.length ∧ ws'.tree.height < depth' + loc.length)
    (hbelow : ws.directoriesBelow extension depth dir = .ok dirs) :
    ws'.directoriesBelow extension depth' dir = .ok dirs := by
  induction depth generalizing depth' dir dirs with
  | zero => omega
  | succ depth ih =>
    obtain ⟨loc, m, hs, hr, hg⟩ := directoriesBelow_succ_eq_ok_iff.mp hbelow
    obtain ⟨depth', rfl⟩ := Nat.exists_eq_succ_of_ne_zero (Nat.ne_of_gt hdepth')
    have hnames : (ws.tree.sortedNames loc).filter (ws.enters loc) =
        (ws'.tree.sortedNames loc).filter (ws'.enters loc) := by
      refine FileTree.filter_sortedNames_eq fun name => ?_
      rw [h.enters_iff]
      refine and_congr_left fun he => ?_
      obtain ⟨_, m, hm⟩ := Workspace.enters_iff.mp he
      exact iff_of_true ⟨_, hm⟩ ⟨_, h.directory_iff.mpr hm⟩
    have hs' := (h.stat_directory_iff hl).mpr hs
    refine directoriesBelow_succ_eq_ok_iff.mpr ⟨loc, m, hs', hr, ?_⟩
    rw [← hnames]
    refine gather_imp (fun name hmem found hfound => ?_) hg
    have he := (List.mem_filter.mp hmem).2
    obtain ⟨own, below, hown, hbelow, rfl⟩ := (foundUnder_eq_ok_iff he).mp hfound
    -- A directory in this one is within reach, and so there is depth left.
    obtain ⟨_, mode, hd⟩ := Workspace.enters_iff.mp he
    have hheight := FileTree.length_le_height hd
    have hheight' := FileTree.length_le_height (h.directory_iff.mpr hd)
    obtain ⟨hlow, hlow'⟩ := hreach loc m hs
    rw [List.length_cons] at hheight hheight'
    refine (foundUnder_eq_ok_iff (h.enters_iff.mpr he)).mpr ⟨own, below,
      h.ownDirectory hl hw hw' hh hc hown, ih (by omega) (by omega) ?_ hbelow, rfl⟩
    intro l mode' hs''
    cases place_of_stat_join hl hw hs he l mode' hs''
    rw [List.length_cons]
    omega

/-- The same directories are found again. -/
theorem Generates.interfaceDirectories {root : Path} (h : Generates stem done ws ws')
    (hl : ws.tree.LinkFree) (hw : ws.tree.WellFormed) (hw' : ws'.tree.WellFormed) (hh : extension ≠ "h")
    (hc : extension ≠ "c") (hfound : ws.interfaceDirectories extension root = .ok dirs) :
    ws'.interfaceDirectories extension root = .ok dirs := by
  unfold Workspace.interfaceDirectories at hfound ⊢
  split at hfound
  case h_1 => cases hfound
  case h_2 loc m hentry =>
    have hs := (stat_eq_ok_iff_of_linkFree hl).mpr hentry
    have hentry' := (stat_eq_ok_iff_of_linkFree (h.linkFree hl)).mp ((h.stat_directory_iff hl).mpr hs)
    obtain ⟨own, hown, hfound⟩ := Schema.bind_eq_ok_iff.mp hfound
    obtain ⟨below, hbelow, hfound⟩ := Schema.bind_eq_ok_iff.mp hfound
    have hbelow' := h.directoriesBelow hl hw hw' hh hc (Nat.succ_pos _) (Nat.succ_pos ws'.tree.height)
      (fun l m _ => by omega) hbelow
    rw [hentry']
    exact Schema.bind_eq_ok_iff.mpr ⟨own, h.ownDirectory hl hw hw' hh hc hown,
      Schema.bind_eq_ok_iff.mpr ⟨below, hbelow', hfound⟩⟩
  case h_3 loc contents m hentry =>
    obtain ⟨hr, hf⟩ := entry_eq_ok_iff.mp hentry
    obtain ⟨contents', m', hf'⟩ := (h.keeps hl).file hf
    rw [entry_eq_ok_iff.mpr ⟨resolve_of_keeps (h.keeps hl) h.workingDir hr, hf'⟩]
    exact hfound
  case h_4 target hentry => exact absurd (entry_eq_ok_iff.mp hentry).2 (hl _ _)

end Workspace

end InterfaceTables
