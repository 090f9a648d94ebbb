import InterfaceTables.Proofs.DirectorySearch
import InterfaceTables.Proofs.ExactDiscovery
import InterfaceTables.Proofs.WorkingPath

/-!
What a search for directories finds, in a tree that may have links. It goes down into every directory
that is not left out by its name, and succeeds if each of them can be listed. Then it finds those that
are named `interfaces` and hold documents, each before those in it and otherwise in the order of the
bytes of their names.
-/

namespace InterfaceTables

namespace Path

/-- The path of what some names lead down to from a directory. -/
def below (dir : Path) (names : List String) : Path := names.foldl join dir

/-- A directory comes before those in it, and what is below one name comes before what is below another
with greater bytes. -/
def Precedes : List String → List String → Prop := List.Lex fun a b => utf8Bytes a < utf8Bytes b

theorem Precedes.ne {names names' : List String} (h : Precedes names names') : names ≠ names' := by
  rintro rfl
  have hirrefl : ∀ name : String, ¬ utf8Bytes name < utf8Bytes name := fun _ => List.lt_irrefl _
  exact List.lex_irrefl hirrefl names h

theorem Precedes.antisymm {names names' : List String} (h : Precedes names names')
    (h' : Precedes names' names) : names = names' := by
  have hasymm : ∀ {a b : String}, utf8Bytes a < utf8Bytes b → ¬ utf8Bytes b < utf8Bytes a :=
    fun hlt => List.lt_asymm hlt
  exact absurd h' (List.lex_asymm hasymm h)

theorem fileName?_join (dir : Path) {name : String} (hn : IsEntryName name) :
    (dir.join name).fileName? = some name := by
  have hsteps : (steps name).getLast? = some name := by
    rw [steps_of_no_slash hn.no_slash, List.getLast?_singleton]
  have hidle : isIdle name = false := by simp [isIdle, hn.ne_empty, hn.ne_dot]
  exact fileName?_of_getLast? (getLast?_steps_join dir hsteps) hidle hn.ne_up

/-- The last name is that of the path. -/
theorem fileName?_below {dir : Path} {names : List String} (hn : ∀ name ∈ names, IsEntryName name) :
    (dir.below names).fileName? = names.getLast?.or dir.fileName? := by
  induction names generalizing dir with
  | nil => rfl
  | cons name names ih =>
    obtain ⟨hname, hrest⟩ := List.forall_mem_cons.mp hn
    rw [below, List.foldl_cons, List.getLast?_cons]
    refine (ih hrest).trans ?_
    rw [fileName?_join dir hname]
    cases names.getLast? <;> rfl

end Path

namespace Workspace

variable {ws : Workspace} {extension name : String} {dir : Path} {loc l : Location} {e : Entry}
  {names : List String} {m depth : Nat} {dirs : List Path}
  {find : String → Except SearchError (List Path)}

/-! ## The directories that a search goes into -/

/-- A search goes down these names: each is that of a directory, and not one that is left out. -/
def Reaches (ws : Workspace) (loc : Location) : List String → Prop
  | [] => True
  | name :: names =>
    (isPruned name = false ∧ ws.tree.IsDirectory (name :: loc)) ∧ ws.Reaches (name :: loc) names

def Listable (ws : Workspace) (dir : Path) : Prop := ∃ listed, ws.list dir = .ok listed

theorem Reaches.isDirectory (h : ws.Reaches loc names) (hd : ws.tree.IsDirectory loc) :
    ws.tree.IsDirectory (names.reverse ++ loc) := by
  induction names generalizing loc with
  | nil => exact hd
  | cons name names ih =>
    obtain ⟨⟨-, hname⟩, hrest⟩ := h
    simpa using ih hrest hname

theorem Reaches.isEntryName (h : ws.Reaches loc names) (hw : ws.tree.WellFormed) :
    ∀ name ∈ names, Path.IsEntryName name := by
  induction names generalizing loc with
  | nil => simp
  | cons name names ih =>
    obtain ⟨⟨-, mode, hm⟩, hrest⟩ := h
    exact List.forall_mem_cons.mpr ⟨hw.name hm, ih hrest⟩

theorem Listable.exists_stat (h : ws.Listable dir) :
    ∃ l m, ws.stat dir = .ok (l, .directory m) ∧ mayRead m = true := by
  obtain ⟨⟨l, listed⟩, hlist⟩ := h
  obtain ⟨m, hs, hr, -⟩ := list_eq_ok_iff.mp hlist
  exact ⟨l, m, hs, hr⟩

/-- The path of a directory in a directory leads there or nowhere. -/
theorem eq_of_stat_join (hw : ws.tree.WellFormed) (hs : ws.stat dir = .ok (loc, .directory m))
    (hd : ws.tree.IsDirectory (name :: loc)) (h : ws.stat (dir.join name) = .ok (l, e)) :
    l = name :: loc := by
  obtain ⟨mode, hm⟩ := hd
  obtain ⟨hresolve, -⟩ := entry_eq_ok_iff.mp h
  obtain ⟨used, left, -, -, hon⟩ := exists_links_left hs
  rw [hon name (hw.name hm) (resolve_eq_ok_iff.mp hresolve).1, FileTree.resolveFrom_eq_ok_iff,
    FileTree.leads_enter_iff hw (by simp) ⟨mode, hm⟩] at hresolve
  cases hresolve.2
  rfl

/-- Where all directories can be listed, their paths lead to them. -/
theorem Reaches.stat_below (hr : ws.Reaches loc names) (hw : ws.tree.WellFormed)
    (hs : ws.stat dir = .ok (loc, .directory m))
    (h : ∀ names, ws.Reaches loc names → ws.Listable (dir.below names)) :
    ∃ m, ws.stat (dir.below names) = .ok (names.reverse ++ loc, .directory m) := by
  induction names generalizing dir loc m with
  | nil => exact ⟨m, hs⟩
  | cons name names ih =>
    obtain ⟨hname, hrest⟩ := hr
    obtain ⟨l, m', hs', -⟩ := (h [name] ⟨hname, trivial⟩).exists_stat
    cases eq_of_stat_join hw hs hname.2 hs'
    have hbelow := ih hrest hs' fun others hothers => h (name :: others) ⟨hname, hothers⟩
    simpa [Path.below] using hbelow

/-! ## The search as a whole -/

/-- What is found at and below a directory. -/
def searchAt (ws : Workspace) (extension : String) (depth : Nat) (dir : Path) :
    Except SearchError (List Path) := do
  let own ← ws.ownDirectory extension dir.fileName? dir
  let below ← ws.directoriesBelow extension depth dir
  return own ++ below

theorem searchAt_eq_ok_iff :
    ws.searchAt extension depth dir = .ok dirs ↔
      ∃ own below, ws.ownDirectory extension dir.fileName? dir = .ok own ∧
        ws.directoriesBelow extension depth dir = .ok below ∧ dirs = own ++ below := by
  simp only [searchAt, Schema.bind_eq_ok_iff, pure, Except.pure, Except.ok.injEq]
  grind

theorem foundUnder_eq_searchAt (hn : Path.IsEntryName name) (he : ws.enters loc name = true) :
    ws.foundUnder extension depth dir loc name = ws.searchAt extension depth (dir.join name) := by
  obtain ⟨hp, m, hm⟩ := enters_iff.mp he
  unfold foundUnder searchAt
  rw [hp, hm, Path.fileName?_join dir hn]

theorem interfaceDirectories_eq_searchAt (h : ws.entry .kept dir = .ok (loc, .directory m)) :
    ws.interfaceDirectories extension dir = ws.searchAt extension (ws.tree.height + 1) dir := by
  unfold interfaceDirectories
  rw [h]
  rfl

theorem gather_of_forall {found : String → List Path}
    (h : ∀ name ∈ names, find name = .ok (found name)) : gather find names = .ok (names.flatMap found) := by
  induction names with
  | nil => rfl
  | cons name names ih =>
    obtain ⟨hname, hrest⟩ := List.forall_mem_cons.mp h
    exact gather_cons_eq_ok_iff.mpr ⟨_, _, hname, ih hrest, List.flatMap_cons⟩

theorem exists_of_gather (h : gather find names = .ok dirs) (hn : name ∈ names) :
    ∃ found, find name = .ok found := by
  induction names generalizing dirs with
  | nil => cases hn
  | cons first names ih =>
    obtain ⟨here, others, hhere, hothers, -⟩ := gather_cons_eq_ok_iff.mp h
    cases List.mem_cons.mp hn with
    | inl he => exact ⟨here, he ▸ hhere⟩
    | inr hm => exact ih hothers hm

theorem mem_entered_iff :
    name ∈ (ws.tree.sortedNames loc).filter (ws.enters loc) ↔ ws.enters loc name = true := by
  rw [List.mem_filter, and_iff_right_iff_imp]
  intro he
  obtain ⟨-, m, hm⟩ := enters_iff.mp he
  exact FileTree.mem_sortedNames_iff.mpr ⟨_, hm⟩

theorem exists_stat_of_searchAt (hdepth : 0 < depth) (h : ws.searchAt extension depth dir = .ok dirs) :
    ∃ l m, ws.stat dir = .ok (l, .directory m) := by
  obtain ⟨own, below, -, hbelow, -⟩ := searchAt_eq_ok_iff.mp h
  obtain ⟨depth, rfl⟩ := Nat.exists_eq_succ_of_ne_zero (Nat.ne_of_gt hdepth)
  obtain ⟨l, m, hs, -⟩ := directoriesBelow_succ_eq_ok_iff.mp hbelow
  exact ⟨l, m, hs⟩

/-- A search that succeeds has listed every directory that it goes into. -/
theorem Reaches.listable (hr : ws.Reaches loc names) (hw : ws.tree.WellFormed)
    (hs : ws.stat dir = .ok (loc, .directory m)) (hdepth : ws.tree.height < depth + loc.length)
    (h : ws.searchAt extension depth dir = .ok dirs) : ws.Listable (dir.below names) := by
  induction names generalizing dir loc m depth dirs with
  | nil =>
    have hheight := FileTree.length_le_height (entry_eq_ok_iff.mp hs).2
    obtain ⟨depth, rfl⟩ := Nat.exists_eq_succ_of_ne_zero (show depth ≠ 0 by omega)
    obtain ⟨own, below, -, hbelow, -⟩ := searchAt_eq_ok_iff.mp h
    obtain ⟨l, m', hs', hread, -⟩ := directoriesBelow_succ_eq_ok_iff.mp hbelow
    exact ⟨_, list_eq_ok_iff.mpr ⟨m', hs', hread, rfl⟩⟩
  | cons name names ih =>
    obtain ⟨hname, hrest⟩ := hr
    obtain ⟨mode, hm⟩ := hname.2
    have he := enters_iff.mpr hname
    -- The directory is within reach, and so there is depth left to list it.
    have hheight := FileTree.length_le_height hm
    rw [List.length_cons] at hheight
    obtain ⟨depth, rfl⟩ := Nat.exists_eq_succ_of_ne_zero (show depth ≠ 0 by omega)
    obtain ⟨own, below, -, hbelow, -⟩ := searchAt_eq_ok_iff.mp h
    obtain ⟨l, m', hs', -, hg⟩ := directoriesBelow_succ_eq_ok_iff.mp hbelow
    cases hs.symm.trans hs'
    obtain ⟨found, hfound⟩ := exists_of_gather hg (mem_entered_iff.mpr he)
    rw [foundUnder_eq_searchAt (hw.name hm) he] at hfound
    obtain ⟨l, m', hs'⟩ := exists_stat_of_searchAt (by omega) hfound
    cases eq_of_stat_join hw hs hname.2 hs'
    exact ih hrest hs' (by rw [List.length_cons]; omega) hfound

/-! ## What is found -/

/-- Whether a directory counts: it is named `interfaces` and holds documents. -/
def counts (ws : Workspace) (extension : String) (dir : Path) : Bool :=
  dir.fileName? == some interfacesName &&
    match ws.discover dir extension with
    | .ok files => !files.isEmpty
    | .error _ => false

theorem counts_iff :
    ws.counts extension dir = true ↔ dir.fileName? = some interfacesName ∧
      ∃ files, ws.discover dir extension = .ok files ∧ files ≠ [] := by
  unfold counts
  cases ws.discover dir extension with
  | error e => simp
  | ok files => simp

/-- The names that lead to the directories that are found, down to `depth` levels. -/
def foundAt (ws : Workspace) (extension : String) : (depth : Nat) → Path → Location → List (List String)
  | 0, dir, _ => if ws.counts extension dir then [[]] else []
  | depth + 1, dir, loc =>
    (if ws.counts extension dir then [[]] else []) ++
      ((ws.tree.sortedNames loc).filter (ws.enters loc)).flatMap fun name =>
        (foundAt ws extension depth (dir.join name) (name :: loc)).map (name :: ·)

theorem ownDirectory_of_listable (h : ws.Listable dir) :
    ws.ownDirectory extension dir.fileName? dir =
      .ok (if ws.counts extension dir then [dir] else []) := by
  obtain ⟨l, m, hs, hr⟩ := h.exists_stat
  obtain ⟨names, hsources⟩ := exists_sources_of_listable hs hr extension
  unfold ownDirectory counts
  rw [hsources.discover]
  by_cases hname : dir.fileName? = some interfacesName <;> cases names <;> simp [hname]

/-- If all directories can be listed, the search succeeds. -/
theorem searchAt_of_listable (hw : ws.tree.WellFormed) (hs : ws.stat dir = .ok (loc, .directory m))
    (h : ∀ names, ws.Reaches loc names → ws.Listable (dir.below names)) :
    ws.searchAt extension depth dir = .ok ((ws.foundAt extension depth dir loc).map dir.below) := by
  induction depth generalizing dir loc m with
  | zero =>
    refine searchAt_eq_ok_iff.mpr ⟨_, [], ownDirectory_of_listable (h [] trivial), rfl, ?_⟩
    rw [foundAt]
    split <;> rfl
  | succ depth ih =>
    obtain ⟨l, m', hs', hr⟩ := (h [] trivial).exists_stat
    cases hs'.symm.trans hs
    have hunder : ∀ name ∈ (ws.tree.sortedNames loc).filter (ws.enters loc),
        ws.foundUnder extension depth dir loc name =
          .ok ((ws.foundAt extension depth (dir.join name) (name :: loc)).map (dir.join name).below) := by
      intro name hmem
      have he := mem_entered_iff.mp hmem
      have hname := enters_iff.mp he
      obtain ⟨mode, hm⟩ := hname.2
      obtain ⟨l, m', hs', -⟩ := (h [name] ⟨hname, trivial⟩).exists_stat
      cases eq_of_stat_join hw hs hname.2 hs'
      rw [foundUnder_eq_searchAt (hw.name hm) he]
      exact ih hs' fun names hnames => h (name :: names) ⟨hname, hnames⟩
    refine searchAt_eq_ok_iff.mpr ⟨_, _, ownDirectory_of_listable (h [] trivial),
      directoriesBelow_succ_eq_ok_iff.mpr ⟨loc, m, hs, hr, gather_of_forall hunder⟩, ?_⟩
    rw [foundAt, List.map_append, List.map_flatMap]
    congr 1
    · split <;> rfl
    · refine List.flatMap_congr fun name _ => ?_
      rw [List.map_map]
      rfl

theorem mem_foundAt_iff :
    names ∈ ws.foundAt extension depth dir loc ↔
      ws.Reaches loc names ∧ ws.counts extension (dir.below names) = true ∧ names.length ≤ depth := by
  induction depth generalizing dir loc names with
  | zero =>
    rw [foundAt]
    cases names <;> simp [Reaches, Path.below]
  | succ depth ih =>
    rw [foundAt, List.mem_append, List.mem_flatMap]
    cases names with
    | nil => simp [Reaches, Path.below]
    | cons name names =>
      constructor
      · rintro (hown | ⟨first, hfirst, hmem⟩)
        · split at hown <;> simp at hown
        · obtain ⟨rest, hrest, heq⟩ := List.mem_map.mp hmem
          cases heq
          obtain ⟨hreach, hcounts, hlength⟩ := ih.mp hrest
          have hname := enters_iff.mp (mem_entered_iff.mp hfirst)
          exact ⟨⟨hname, hreach⟩, hcounts, Nat.succ_le_succ hlength⟩
      · rintro ⟨⟨hname, hreach⟩, hcounts, hlength⟩
        have hrest := ih.mpr ⟨hreach, hcounts, Nat.le_of_succ_le_succ hlength⟩
        exact .inr ⟨name, mem_entered_iff.mpr (enters_iff.mpr hname), List.mem_map_of_mem hrest⟩

theorem pairwise_foundAt : (ws.foundAt extension depth dir loc).Pairwise Path.Precedes := by
  induction depth generalizing dir loc with
  | zero =>
    rw [foundAt]
    split <;> simp
  | succ depth ih =>
    rw [foundAt, List.pairwise_append, List.pairwise_flatMap]
    refine ⟨by split <;> simp, ⟨fun name _ => ?_, ?_⟩, fun own hown names hnames => ?_⟩
    · rw [List.pairwise_map]
      exact ih.imp fun hlt => .cons hlt
    · refine ((ws.tree.pairwise_lt_sortedNames loc).filter _).imp fun hlt names hnames names' hnames' => ?_
      obtain ⟨rest, -, rfl⟩ := List.mem_map.mp hnames
      obtain ⟨rest', -, rfl⟩ := List.mem_map.mp hnames'
      exact .rel (utf8Bytes_lt hlt)
    · obtain ⟨name, -, hnames⟩ := List.mem_flatMap.mp hnames
      obtain ⟨rest, -, rfl⟩ := List.mem_map.mp hnames
      split at hown
      · cases List.mem_singleton.mp hown
        exact .nil
      · cases hown

/-- A search from a directory succeeds exactly if every directory that it goes into can be listed by its
path. Then it finds exactly those that are named `interfaces` and hold documents, each once and at its
own place, before those in it, and otherwise in the order of the bytes of the names. The name of the
directory itself is that of its path, and it is gone into whatever its name is. -/
theorem interfaceDirectories_finds_exactly (hw : ws.tree.WellFormed) {root : Path} {home : Location}
    (hroot : ws.entry .kept root = .ok (home, .directory m)) (extension : String) :
    ((∃ dirs, ws.interfaceDirectories extension root = .ok dirs) ↔
      ∀ names, ws.Reaches home names → ws.Listable (root.below names)) ∧
    ∀ dirs, ws.interfaceDirectories extension root = .ok dirs → ∃ found : List (List String),
      dirs = found.map root.below ∧ dirs.Nodup ∧ found.Pairwise Path.Precedes ∧
      (∀ names, names ∈ found ↔ ws.Reaches home names ∧
        names.getLast?.or root.fileName? = some interfacesName ∧
        ∃ files, ws.discover (root.below names) extension = .ok files ∧ files ≠ []) ∧
      ∀ names ∈ found, ∃ mode,
        ws.stat (root.below names) = .ok (names.reverse ++ home, .directory mode) := by
  obtain ⟨hresolve, hdir⟩ := entry_eq_ok_iff.mp hroot
  obtain ⟨hfault, hlead⟩ := resolve_eq_ok_iff.mp hresolve
  have hs : ws.stat root = .ok (home, .directory m) :=
    entry_eq_ok_iff.mpr ⟨resolve_eq_ok_iff.mpr ⟨hfault, hlead.followed (by simp [hdir])⟩, hdir⟩
  rw [interfaceDirectories_eq_searchAt hroot]
  have hlistable : ∀ dirs, ws.searchAt extension (ws.tree.height + 1) root = .ok dirs →
      ∀ names, ws.Reaches home names → ws.Listable (root.below names) :=
    fun dirs h names hr => hr.listable hw hs (by omega) h
  refine ⟨⟨fun ⟨dirs, h⟩ => hlistable dirs h, fun h => ⟨_, searchAt_of_listable hw hs h⟩⟩,
    fun dirs h => ?_⟩
  have hall := hlistable dirs h
  cases (searchAt_of_listable hw hs hall).symm.trans h
  have hreach : ∀ names ∈ ws.foundAt extension (ws.tree.height + 1) root home, ws.Reaches home names :=
    fun names hmem => (mem_foundAt_iff.mp hmem).1
  refine ⟨_, rfl, ?_, pairwise_foundAt, fun names => ?_, fun names hmem =>
    (hreach names hmem).stat_below hw hs hall⟩
  · refine List.Nodup.map_on (fun names hmem names' hmem' heq => ?_)
      (pairwise_foundAt.imp Path.Precedes.ne)
    obtain ⟨_, hplace⟩ := (hreach names hmem).stat_below hw hs hall
    obtain ⟨_, hplace'⟩ := (hreach names' hmem').stat_below hw hs hall
    rw [heq, hplace', Except.ok.injEq, Prod.mk.injEq] at hplace
    exact (List.reverse_injective (List.append_cancel_right hplace.1)).symm
  · rw [mem_foundAt_iff, counts_iff]
    refine and_congr_right fun hr => ?_
    have hlength := FileTree.length_le_height (hr.isDirectory ⟨m, hdir⟩).choose_spec
    rw [List.length_append, List.length_reverse] at hlength
    rw [Path.fileName?_below (hr.isEntryName hw), and_iff_left (by omega)]

theorem Reaches.mem_names (h : ws.Reaches loc (name :: names)) :
    name ∈ (ws.tree.names loc).filter (ws.enters loc) := by
  obtain ⟨hname, -⟩ := h
  obtain ⟨mode, hm⟩ := hname.2
  exact List.mem_filter.mpr ⟨FileTree.mem_names_iff.mpr ⟨_, hm⟩, enters_iff.mpr hname⟩

end Workspace

/-- Directories `a` and `a-b`, each with one that counts, a link to one of them and build output. -/
def siblings (mode : Nat) : Workspace where
  tree := ((((((((FileTree.empty.insert ["r"] (.directory directoryMode)).insert
    ["a", "r"] (.directory directoryMode)).insert
    ["interfaces", "a", "r"] (.directory directoryMode)).insert
    ["x.json", "interfaces", "a", "r"] (.file ⟨#[]⟩ fileMode)).insert
    ["a-b", "r"] (.directory mode)).insert
    ["interfaces", "a-b", "r"] (.directory directoryMode)).insert
    ["y.json", "interfaces", "a-b", "r"] (.file ⟨#[]⟩ fileMode)).insert
    ["build", "r"] (.directory directoryMode)).insert
    ["l", "r"] (.link "a")
  workingDir := []

section Siblings

variable (mode : Nat)

theorem wellFormed_siblings : (siblings mode).tree.WellFormed := by
  refine ((((((((FileTree.wellFormed_empty.insert_new ⟨_, rfl⟩ ?_ rfl).insert_new ⟨_, rfl⟩ ?_
    rfl).insert_new ⟨_, rfl⟩ ?_ rfl).insert_new ⟨_, rfl⟩ ?_ rfl).insert_new ⟨_, rfl⟩ ?_ rfl).insert_new
    ⟨_, rfl⟩ ?_ rfl).insert_new ⟨_, rfl⟩ ?_ rfl).insert_new ⟨_, rfl⟩ ?_ rfl).insert_new ⟨_, rfl⟩ ?_ rfl
  all_goals decide

theorem eq_of_reaches_siblings {names : List String} (h : (siblings mode).Reaches ["r"] names) :
    names ∈ [[], ["a"], ["a", "interfaces"], ["a-b"], ["a-b", "interfaces"]] := by
  cases names with
  | nil => simp
  | cons top names =>
    have htop : top ∈ ["a", "a-b"] := h.mem_names
    cases names with
    | nil => simpa using htop
    | cons name names =>
      simp only [List.mem_cons, List.not_mem_nil, or_false] at htop
      obtain rfl | rfl := htop
      all_goals
        cases List.mem_singleton.mp (show name ∈ ["interfaces"] from h.2.mem_names)
        cases names with
        | nil => simp
        | cons other names => cases (show other ∈ [] from h.2.2.mem_names)

end Siblings

theorem discover_siblings :
    (siblings directoryMode).discover "r/a/interfaces" "json" = .ok ["r/a/interfaces/x.json"] ∧
      (siblings directoryMode).discover "r/a-b/interfaces" "json" = .ok ["r/a-b/interfaces/y.json"] := by
  have hs : (siblings directoryMode).stat "r/a/interfaces" =
    .ok (["interfaces", "a", "r"], .directory directoryMode) := rfl
  have hs' : (siblings directoryMode).stat "r/a-b/interfaces" =
    .ok (["interfaces", "a-b", "r"], .directory directoryMode) := rfl
  have hn : (siblings directoryMode).tree.names ["interfaces", "a", "r"] = ["x.json"] := rfl
  have hn' : (siblings directoryMode).tree.names ["interfaces", "a-b", "r"] = ["y.json"] := rfl
  exact ⟨Workspace.discover_of_names hs (by decide) hn (by decide) "json",
    Workspace.discover_of_names hs' (by decide) hn' (by decide) "json"⟩

theorem listable_siblings {names : List String}
    (h : (siblings directoryMode).Reaches ["r"] names) :
    (siblings directoryMode).Listable (Path.below "r" names) := by
  have hmem := eq_of_reaches_siblings directoryMode h
  simp only [List.mem_cons, List.not_mem_nil, or_false] at hmem
  obtain rfl | rfl | rfl | rfl | rfl := hmem
  all_goals exact ⟨_, Workspace.list_eq_ok_iff.mpr ⟨_, rfl, by decide, rfl⟩⟩

/-- What is below `a` comes before what is below `a-b`, although it is the other way round with the
paths. -/
theorem interfaceDirectories_siblings :
    (siblings directoryMode).entry .kept "r" = .ok (["r"], .directory directoryMode) ∧
      (siblings directoryMode).interfaceDirectories "json" "r" =
        .ok ["r/a/interfaces", "r/a-b/interfaces"] := by
  have hroot : (siblings directoryMode).entry .kept "r" = .ok (["r"], .directory directoryMode) := rfl
  obtain ⟨hsucceeds, hfinds⟩ := Workspace.interfaceDirectories_finds_exactly
    (wellFormed_siblings directoryMode) hroot "json"
  obtain ⟨dirs, hdirs⟩ := hsucceeds.mpr fun _ => listable_siblings
  obtain ⟨found, rfl, -, hsorted, hmem, -⟩ := hfinds dirs hdirs
  obtain ⟨hdocuments, hdocuments'⟩ := discover_siblings
  have hboth : ∀ names, names ∈ found ↔ names ∈ [["a", "interfaces"], ["a-b", "interfaces"]] := by
    intro names
    rw [hmem, List.mem_pair]
    constructor
    · rintro ⟨hreach, hname, -⟩
      have hwalked := eq_of_reaches_siblings directoryMode hreach
      simp only [List.mem_cons, List.not_mem_nil, or_false] at hwalked
      obtain rfl | rfl | rfl | rfl | rfl := hwalked
      · exact absurd hname (by decide)
      · exact absurd hname (by decide)
      · exact .inl rfl
      · exact absurd hname (by decide)
      · exact .inr rfl
    · rintro (rfl | rfl)
      · exact ⟨⟨⟨rfl, _, rfl⟩, ⟨rfl, _, rfl⟩, trivial⟩, rfl, _, hdocuments, by simp⟩
      · exact ⟨⟨⟨rfl, _, rfl⟩, ⟨rfl, _, rfl⟩, trivial⟩, rfl, _, hdocuments', by simp⟩
  have hfound : found = [["a", "interfaces"], ["a-b", "interfaces"]] := by
    have hpair : [["a", "interfaces"], ["a-b", "interfaces"]].Pairwise Path.Precedes :=
      List.pairwise_pair.mpr (.rel (utf8Bytes_lt (by decide)))
    have hperm := (List.perm_ext_iff_of_nodup (hsorted.imp Path.Precedes.ne)
      (hpair.imp Path.Precedes.ne)).mpr hboth
    exact hperm.eq_of_pairwise (fun _ _ _ _ => Path.Precedes.antisymm) hsorted hpair
  rw [hfound] at hdirs
  exact ⟨hroot, hdirs⟩

/-- One directory that may not be listed stops the search of all others. -/
theorem unlistable_directory_stops_search :
    ¬ ∀ (ws : Workspace) (extension : String) (root : Path) (home : Location) (mode : Nat),
      ws.tree.WellFormed → ws.entry .kept root = .ok (home, .directory mode) →
      ∃ dirs, ws.interfaceDirectories extension root = .ok dirs ∧
        ∀ names files, ws.Reaches home names → names.getLast? = some Workspace.interfacesName →
          ws.discover (root.below names) extension = .ok files → files ≠ [] →
          root.below names ∈ dirs := by
  intro h
  have hw := wellFormed_siblings 0
  obtain ⟨dirs, hfound, -⟩ := h (siblings 0) "json" "r" ["r"] directoryMode hw rfl
  have hreach : (siblings 0).Reaches ["r"] ["a-b"] := ⟨⟨by decide, _, rfl⟩, trivial⟩
  have hroot : (siblings 0).entry .kept "r" = .ok (["r"], .directory directoryMode) := rfl
  have hstat : (siblings 0).stat "r" = .ok (["r"], .directory directoryMode) := rfl
  rw [Workspace.interfaceDirectories_eq_searchAt hroot] at hfound
  obtain ⟨l, m, hs, hr⟩ := (hreach.listable hw hstat (by omega) hfound).exists_stat
  cases hs
  cases hr

end InterfaceTables
