import InterfaceTables.Proofs.PathSteps

/-!
Where paths lead, as a relation. A derivation of `Leads` lists the entries that a path passes, so
what a change to the tree does to a path is shown by induction on it.
-/

namespace InterfaceTables

/-- Where the entry is or would be. -/
def Target.place : Target → Location
  | .entry loc => loc
  | .absent dir name => name :: dir

end InterfaceTables

namespace InterfaceTables.FileTree

def IsDirectory (t : FileTree) (loc : Location) : Prop :=
  ∃ mode, t.get? loc = some (.directory mode)

def Searchable (t : FileTree) (loc : Location) : Prop :=
  ∃ mode, t.get? loc = some (.directory mode) ∧ maySearch mode = true

/-- A step that is looked up by its name in the directory `here`. -/
structure LooksUp (t : FileTree) (last : LastStep) (here : Location) (step : String)
    (rest : List String) : Prop where
  searchable : t.Searchable here
  ne_empty : step ≠ ""
  ne_dot : step ≠ "."
  ne_up : step ≠ ".."
  unblocked : last = .written → rest ≠ [] → Path.areSlashes rest = false
  fits : step.utf8ByteSize ≤ Path.maxName

/-- From a place, steps lead to a target through at most `links` links. -/
inductive Leads (t : FileTree) (last : LastStep) :
    (links : Nat) → Location → List String → Target → Prop where
  | done {links here} : Leads t last links here [] (.entry here)
  | blank {links here rest goal} (dir : t.IsDirectory here)
      (next : Leads t last links here rest goal) : Leads t last links here ("" :: rest) goal
  | dot {links here rest goal} (dir : t.Searchable here)
      (next : Leads t last links here rest goal) : Leads t last links here ("." :: rest) goal
  | up {links here rest goal} (dir : t.Searchable here)
      (next : Leads t last links here.tail rest goal) : Leads t last links here (".." :: rest) goal
  | absent {links here step rest} (look : t.LooksUp last here step rest)
      (gone : t.get? (step :: here) = none) (slashes : Path.areSlashes rest = true) :
      Leads t last links here (step :: rest) (.absent here step)
  | enter {links here step rest goal e} (look : t.LooksUp last here step rest)
      (found : t.get? (step :: here) = some e) (solid : ∀ target, e ≠ .link target)
      (next : Leads t last links (step :: here) rest goal) :
      Leads t last links here (step :: rest) goal
  | stop {links here step target} (look : t.LooksUp last here step [])
      (found : t.get? (step :: here) = some (.link target)) (kept : last = .kept) :
      Leads t last links here [step] (.entry (step :: here))
  | follow {links here step rest goal target} (look : t.LooksUp last here step rest)
      (found : t.get? (step :: here) = some (.link target)) (more : rest ≠ [] ∨ last ≠ .kept)
      (next : Leads t last links (if target.isAbsolute then [] else here) (target.steps ++ rest) goal) :
      Leads t last (links + 1) here (step :: rest) goal

variable {t : FileTree} {last : LastStep} {links : Nat} {here : Location} {steps : List String}
  {goal : Target}

/-- What a walk does with the steps of a link when `links` more may be followed. -/
def following (t : FileTree) (last : LastStep) :
    (links : Nat) → Location → List String → Except IoError Target
  | 0 => fun _ _ => .error .tooManyLinks
  | links + 1 => t.resolveFrom last links

theorem resolveFrom_eq_walk (t : FileTree) (last : LastStep) (links : Nat) :
    t.resolveFrom last links = t.walk last (t.following last links) := by
  cases links <;> rfl

theorem walk_blank (dir : t.IsDirectory here)
    (follow : Location → List String → Except IoError Target) (rest : List String) :
    t.walk last follow here ("" :: rest) = t.walk last follow here rest := by
  obtain ⟨mode, hd⟩ := dir
  rw [walk, hd]
  simp

theorem walk_dot (dir : t.Searchable here)
    (follow : Location → List String → Except IoError Target) (rest : List String) :
    t.walk last follow here ("." :: rest) = t.walk last follow here rest := by
  obtain ⟨mode, hd, hs⟩ := dir
  rw [walk, hd]
  simp [hs]

theorem walk_up (dir : t.Searchable here)
    (follow : Location → List String → Except IoError Target) (rest : List String) :
    t.walk last follow here (".." :: rest) = t.walk last follow here.tail rest := by
  obtain ⟨mode, hd, hs⟩ := dir
  rw [walk, hd]
  simp [hs]

theorem walk_of_looksUp {step : String} {rest : List String} (look : t.LooksUp last here step rest)
    (follow : Location → List String → Except IoError Target) :
    t.walk last follow here (step :: rest) =
      match t.get? (step :: here) with
      | none => if Path.areSlashes rest then .ok (.absent here step) else .error .notFound
      | some (.link target) =>
        if rest.isEmpty && last = .kept then .ok (.entry (step :: here))
        else follow (if target.isAbsolute then [] else here) (target.steps ++ rest)
      | some _ => t.walk last follow (step :: here) rest := by
  obtain ⟨⟨mode, hd, hs⟩, h0, h1, h2, hb, hf⟩ := look
  have hblock : (decide (last = .written) && !rest.isEmpty && Path.areSlashes rest) = false := by
    cases rest with
    | nil => simp
    | cons a rest =>
      by_cases hw : last = .written
      · simp [hb hw]
      · simp [hw]
  have hlong : ¬ Path.maxName < step.utf8ByteSize := Nat.not_lt.mpr hf
  rw [walk, hd]
  cases t.get? (step :: here) with
  | none => simp [h0, h1, h2, hs, hblock, hlong]
  | some e => cases e <;> simp [h0, h1, h2, hs, hblock, hlong]

theorem walk_enter {step : String} {rest : List String} {e : Entry}
    (look : t.LooksUp last here step rest) (found : t.get? (step :: here) = some e)
    (solid : ∀ target, e ≠ .link target)
    (follow : Location → List String → Except IoError Target) :
    t.walk last follow here (step :: rest) = t.walk last follow (step :: here) rest := by
  rw [walk_of_looksUp look, found]
  cases e with
  | link target => exact absurd rfl (solid target)
  | directory mode => rfl
  | file contents mode => rfl

section Inversion

variable {step : String} {rest : List String}
  {follow : Location → List String → Except IoError Target}

theorem isDirectory_of_walk (h : t.walk last follow here (step :: rest) = .ok goal) :
    t.IsDirectory here := by
  rw [walk] at h
  split at h
  case h_1 mode hd => exact ⟨mode, hd⟩
  case h_2 => cases h

theorem searchable_of_walk (h0 : step ≠ "") (h : t.walk last follow here (step :: rest) = .ok goal) :
    t.Searchable here := by
  obtain ⟨mode, hd⟩ := isDirectory_of_walk h
  cases hs : maySearch mode with
  | true => exact ⟨mode, hd, hs⟩
  | false =>
    rw [walk, hd] at h
    simp [h0, hs] at h

theorem looksUp_of_walk (h0 : step ≠ "") (h1 : step ≠ ".") (h2 : step ≠ "..")
    (h : t.walk last follow here (step :: rest) = .ok goal) : t.LooksUp last here step rest := by
  obtain ⟨mode, hd, hs⟩ := searchable_of_walk h0 h
  rw [walk, hd] at h
  simp only [h0, h1, h2, hs, if_false, Bool.not_true, Bool.false_eq_true] at h
  split at h
  · cases h
  · rename_i hblock
    split at h
    · cases h
    · rename_i hfits
      refine ⟨⟨mode, hd, hs⟩, h0, h1, h2, fun hw hr => ?_, Nat.le_of_not_lt hfits⟩
      simpa [hw, hr] using hblock

end Inversion

/-- A walk that ends well follows a derivation, if the steps of links do. -/
theorem leads_of_walk
    (hf : ∀ fewer, links = fewer + 1 → ∀ here steps,
      t.resolveFrom last fewer here steps = .ok goal → t.Leads last fewer here steps goal)
    (h : t.walk last (t.following last links) here steps = .ok goal) :
    t.Leads last links here steps goal := by
  induction steps generalizing here with
  | nil =>
    cases h
    exact .done
  | cons step rest ih =>
    by_cases h0 : step = ""
    · subst h0
      have hd := isDirectory_of_walk h
      rw [walk_blank hd] at h
      exact .blank hd (ih h)
    by_cases h1 : step = "."
    · subst h1
      have hd := searchable_of_walk (by simp) h
      rw [walk_dot hd] at h
      exact .dot hd (ih h)
    by_cases h2 : step = ".."
    · subst h2
      have hd := searchable_of_walk (by simp) h
      rw [walk_up hd] at h
      exact .up hd (ih h)
    have look := looksUp_of_walk h0 h1 h2 h
    rw [walk_of_looksUp look] at h
    cases hg : t.get? (step :: here) with
    | none =>
      simp only [hg] at h
      split at h
      · cases h
        exact .absent look hg (by assumption)
      · cases h
    | some e =>
      cases e with
      | directory mode =>
        rw [hg] at h
        exact .enter look hg (by simp) (ih h)
      | file contents mode =>
        rw [hg] at h
        exact .enter look hg (by simp) (ih h)
      | link target =>
        simp only [hg] at h
        by_cases hk : rest = [] ∧ last = .kept
        · obtain ⟨rfl, hk⟩ := hk
          simp only [hk, List.isEmpty_nil, decide_true, Bool.and_self, if_true] at h
          cases h
          exact .stop look hg hk
        · have hm : (rest.isEmpty && decide (last = .kept)) = false := by
            simpa using hk
          rw [hm] at h
          cases links with
          | zero => cases h
          | succ fewer =>
            exact .follow look hg (Decidable.not_and_iff_or_not.mp hk) (hf fewer rfl _ _ h)

theorem leads_of_resolveFrom (h : t.resolveFrom last links here steps = .ok goal) :
    t.Leads last links here steps goal := by
  induction links generalizing here steps with
  | zero => exact leads_of_walk (fun fewer h => by cases h) h
  | succ links ih =>
    refine leads_of_walk (fun fewer hl here steps hs => ?_) h
    cases hl
    exact ih hs

theorem resolveFrom_of_leads (h : t.Leads last links here steps goal) :
    t.resolveFrom last links here steps = .ok goal := by
  induction h with
  | done => rw [resolveFrom_eq_walk, walk]
  | blank dir next ih =>
    rw [resolveFrom_eq_walk] at ih ⊢
    rw [walk_blank dir, ih]
  | dot dir next ih =>
    rw [resolveFrom_eq_walk] at ih ⊢
    rw [walk_dot dir, ih]
  | up dir next ih =>
    rw [resolveFrom_eq_walk] at ih ⊢
    rw [walk_up dir, ih]
  | absent look gone slashes =>
    rw [resolveFrom_eq_walk, walk_of_looksUp look]
    simp [gone, slashes]
  | enter look found solid next ih =>
    rw [resolveFrom_eq_walk] at ih ⊢
    rw [walk_enter look found solid, ih]
  | stop look found kept =>
    rw [resolveFrom_eq_walk, walk_of_looksUp look]
    simp [found, kept]
  | @follow links here step rest goal target look found more next ih =>
    have hm : (rest.isEmpty && decide (last = .kept)) = false := by
      simpa using Decidable.not_and_iff_or_not.mpr more
    rw [resolveFrom_eq_walk, walk_of_looksUp look]
    simp only [found, hm]
    exact ih

theorem resolveFrom_eq_ok_iff :
    t.resolveFrom last links here steps = .ok goal ↔ t.Leads last links here steps goal :=
  ⟨leads_of_resolveFrom, resolveFrom_of_leads⟩

theorem Leads.unique {other : Target} (h : t.Leads last links here steps goal)
    (h' : t.Leads last links here steps other) : goal = other := by
  have he := resolveFrom_of_leads h
  rw [resolveFrom_of_leads h'] at he
  exact (Except.ok.inj he).symm

/-! ## One step -/

section OneStep

variable {last' : LastStep} {step : String} {rest rest' : List String}

theorem leads_blank_iff :
    t.Leads last links here ("" :: rest) goal ↔
      t.IsDirectory here ∧ t.Leads last links here rest goal := by
  rw [← resolveFrom_eq_ok_iff, ← resolveFrom_eq_ok_iff, resolveFrom_eq_walk]
  constructor
  · intro h
    have dir := isDirectory_of_walk h
    rw [walk_blank dir] at h
    exact ⟨dir, h⟩
  · rintro ⟨dir, h⟩
    rw [walk_blank dir, h]

theorem leads_dot_iff :
    t.Leads last links here ("." :: rest) goal ↔
      t.Searchable here ∧ t.Leads last links here rest goal := by
  rw [← resolveFrom_eq_ok_iff, ← resolveFrom_eq_ok_iff, resolveFrom_eq_walk]
  constructor
  · intro h
    have dir := searchable_of_walk (by simp) h
    rw [walk_dot dir] at h
    exact ⟨dir, h⟩
  · rintro ⟨dir, h⟩
    rw [walk_dot dir, h]

theorem leads_up_iff :
    t.Leads last links here (".." :: rest) goal ↔
      t.Searchable here ∧ t.Leads last links here.tail rest goal := by
  rw [← resolveFrom_eq_ok_iff, ← resolveFrom_eq_ok_iff, resolveFrom_eq_walk]
  constructor
  · intro h
    have dir := searchable_of_walk (by simp) h
    rw [walk_up dir] at h
    exact ⟨dir, h⟩
  · rintro ⟨dir, h⟩
    rw [walk_up dir, h]

/-- A step to a file or a directory. -/
theorem Leads.of_enter {e : Entry} (look : t.LooksUp last' here step rest')
    (found : t.get? (step :: here) = some e) (solid : ∀ target, e ≠ .link target)
    (h : t.Leads last links here (step :: rest) goal) :
    t.Leads last links (step :: here) rest goal := by
  rw [← resolveFrom_eq_ok_iff, resolveFrom_eq_walk] at h ⊢
  have look' := looksUp_of_walk look.ne_empty look.ne_dot look.ne_up h
  rw [walk_enter look' found solid] at h
  exact h

/-- A step to a link, which is followed unless it is the last. -/
theorem Leads.of_link {target : Path} (look : t.LooksUp last' here step rest')
    (found : t.get? (step :: here) = some (.link target))
    (h : t.Leads last links here (step :: rest) goal) :
    (rest = [] ∧ goal = .entry (step :: here)) ∨
      ∃ fewer, t.Leads last fewer (if target.isAbsolute then [] else here) (target.steps ++ rest)
        goal := by
  rw [← resolveFrom_eq_ok_iff, resolveFrom_eq_walk] at h
  have look' := looksUp_of_walk look.ne_empty look.ne_dot look.ne_up h
  rw [walk_of_looksUp look'] at h
  simp only [found] at h
  split at h
  · rename_i hlast
    cases h
    exact Or.inl ⟨by simpa using (Bool.and_eq_true_iff.mp hlast).1, rfl⟩
  · cases links with
    | zero => cases h
    | succ fewer => exact Or.inr ⟨fewer, leads_of_resolveFrom h⟩

end OneStep

/-! ## What a path passes -/

theorem LooksUp.isEntryName {step : String} {rest : List String}
    (h : t.LooksUp last here step rest) (hs : '/' ∉ step.toList) : Path.IsEntryName step :=
  ⟨h.ne_empty, h.ne_dot, h.ne_up, hs⟩

/-- Only a search of links to files that are written looks at what comes after a step. -/
theorem LooksUp.of_ne_written {step : String} {rest rest' : List String} {last' : LastStep}
    (h : t.LooksUp last here step rest) (hl : last' ≠ .written) : t.LooksUp last' here step rest' :=
  { h with unblocked := fun hw => absurd hw hl }

/-- A path that leads nowhere ends at a name that its directory does not have. -/
theorem Leads.missing {dir : Location} {name : String}
    (h : t.Leads last links here steps (.absent dir name)) :
    t.get? (name :: dir) = none ∧
      ((∀ step ∈ steps, '/' ∉ step.toList) → Path.IsEntryName name) := by
  generalize hg : Target.absent dir name = goal at h
  induction h with
  | done => cases hg
  | blank _ _ ih => exact ⟨(ih hg).1, fun hs => (ih hg).2 fun s hm => hs s (.tail _ hm)⟩
  | dot _ _ ih => exact ⟨(ih hg).1, fun hs => (ih hg).2 fun s hm => hs s (.tail _ hm)⟩
  | up _ _ ih => exact ⟨(ih hg).1, fun hs => (ih hg).2 fun s hm => hs s (.tail _ hm)⟩
  | absent look gone slashes =>
    cases hg
    exact ⟨gone, fun hs => look.isEntryName (hs _ (.head _))⟩
  | enter _ _ _ _ ih => exact ⟨(ih hg).1, fun hs => (ih hg).2 fun s hm => hs s (.tail _ hm)⟩
  | stop => cases hg
  | follow _ _ _ _ ih =>
    refine ⟨(ih hg).1, fun hs => (ih hg).2 fun s hm => ?_⟩
    cases List.mem_append.mp hm with
    | inl h => exact Path.no_slash_of_mem_steps h
    | inr h => exact hs s (.tail _ h)

/-- A slash at the end leads no further. -/
theorem Leads.eq_of_slash (h : t.Leads last links here [""] goal) : goal = .entry here := by
  obtain ⟨-, next⟩ := leads_blank_iff.mp h
  cases next
  rfl

theorem getLast?_cons_eq_some {step leaf : String} {rest : List String}
    (h : (step :: rest).getLast? = some leaf) :
    (rest = [] ∧ step = leaf) ∨ (rest ≠ [] ∧ rest.getLast? = some leaf) := by
  cases rest with
  | nil => exact Or.inl ⟨rfl, by simpa using h⟩
  | cons a rest => exact Or.inr ⟨by simp, by simpa using h⟩

/-- A path that ends in a name leads to an entry of that name or to a directory without one. Links
before the name are followed, and one at the name itself is not. -/
theorem Leads.at_leaf {leaf : String} (hn : leaf ≠ "" ∧ leaf ≠ "." ∧ leaf ≠ "..")
    (h : t.Leads .kept links here steps goal) (hs : steps.getLast? = some leaf) :
    ∃ dir, t.Searchable dir ∧
      ((goal = .absent dir leaf ∧ t.get? (leaf :: dir) = none) ∨
        (goal = .entry (leaf :: dir) ∧ ∃ e, t.get? (leaf :: dir) = some e)) := by
  obtain ⟨h0, h1, h2⟩ := hn
  induction h with
  | done => simp at hs
  | blank _ _ ih =>
    cases getLast?_cons_eq_some hs with
    | inl h => exact absurd h.2.symm h0
    | inr h => exact ih h.2
  | dot _ _ ih =>
    cases getLast?_cons_eq_some hs with
    | inl h => exact absurd h.2.symm h1
    | inr h => exact ih h.2
  | up _ _ ih =>
    cases getLast?_cons_eq_some hs with
    | inl h => exact absurd h.2.symm h2
    | inr h => exact ih h.2
  | @absent _ here _ rest look gone slashes =>
    cases getLast?_cons_eq_some hs with
    | inl h => exact ⟨here, look.searchable, Or.inl ⟨by rw [h.2], by rw [← h.2, gone]⟩⟩
    | inr h =>
      have hm := List.mem_of_getLast? h.2
      exact absurd (by simpa using List.all_eq_true.mp slashes leaf hm) h0
  | @enter _ here step rest _ e look found _ next ih =>
    cases getLast?_cons_eq_some hs with
    | inl h =>
      obtain ⟨rfl, rfl⟩ := h
      cases next
      exact ⟨here, look.searchable, Or.inr ⟨rfl, e, found⟩⟩
    | inr h => exact ih h.2
  | @stop _ here step target look found _ =>
    have he : step = leaf := by simpa using hs
    subst he
    exact ⟨here, look.searchable, Or.inr ⟨rfl, _, found⟩⟩
  | @follow _ _ _ rest _ target _ _ more _ ih =>
    cases getLast?_cons_eq_some hs with
    | inl h => exact absurd h.1 (more.resolve_right (by simp))
    | inr h => exact ih (by simp [List.getLast?_append, h.2])

/-- Where a last step is looked up, another name that is no longer is found or missed. -/
theorem LooksUp.exists_leads {leaf leaf' : String} (look : t.LooksUp .kept here leaf [])
    (hn' : leaf' ≠ "" ∧ leaf' ≠ "." ∧ leaf' ≠ "..") (hf : leaf'.utf8ByteSize ≤ leaf.utf8ByteSize) :
    ∃ goal', t.Leads .kept links here [leaf'] goal' ∧ goal'.place = leaf' :: here := by
  obtain ⟨h0, h1, h2⟩ := hn'
  have look' : t.LooksUp .kept here leaf' [] :=
    ⟨look.searchable, h0, h1, h2, by simp, Nat.le_trans hf look.fits⟩
  cases hg : t.get? (leaf' :: here) with
  | none => exact ⟨_, .absent look' hg rfl, rfl⟩
  | some e =>
    cases e with
    | directory mode => exact ⟨_, .enter look' hg (by simp) .done, rfl⟩
    | file contents mode => exact ⟨_, .enter look' hg (by simp) .done, rfl⟩
    | link target => exact ⟨_, .stop look' hg rfl, rfl⟩

/-- Where a path can be followed to a name, it can be followed to another name in its place that is no
longer. -/
theorem Leads.sibling {front : List String} {leaf leaf' : String}
    (hn : leaf ≠ "" ∧ leaf ≠ "." ∧ leaf ≠ "..") (hn' : leaf' ≠ "" ∧ leaf' ≠ "." ∧ leaf' ≠ "..")
    (hf : leaf'.utf8ByteSize ≤ leaf.utf8ByteSize)
    (h : t.Leads .kept links here (front ++ [leaf]) goal) :
    ∃ dir goal', t.Leads .kept links here (front ++ [leaf']) goal' ∧
      goal.place = leaf :: dir ∧ goal'.place = leaf' :: dir := by
  generalize hs : front ++ [leaf] = steps at h
  induction h generalizing front with
  | done => simp at hs
  | blank dir _ ih =>
    cases front with
    | nil => exact absurd (List.cons.inj hs).1 hn.1
    | cons a front =>
      obtain ⟨rfl, rfl⟩ := List.cons.inj hs
      obtain ⟨d, goal', hl, hp⟩ := ih rfl
      exact ⟨d, goal', .blank dir hl, hp⟩
  | dot dir _ ih =>
    cases front with
    | nil => exact absurd (List.cons.inj hs).1 hn.2.1
    | cons a front =>
      obtain ⟨rfl, rfl⟩ := List.cons.inj hs
      obtain ⟨d, goal', hl, hp⟩ := ih rfl
      exact ⟨d, goal', .dot dir hl, hp⟩
  | up dir _ ih =>
    cases front with
    | nil => exact absurd (List.cons.inj hs).1 hn.2.2
    | cons a front =>
      obtain ⟨rfl, rfl⟩ := List.cons.inj hs
      obtain ⟨d, goal', hl, hp⟩ := ih rfl
      exact ⟨d, goal', .up dir hl, hp⟩
  | @absent _ here step rest look gone slashes =>
    cases front with
    | nil =>
      obtain ⟨rfl, rfl⟩ := List.cons.inj hs
      obtain ⟨goal', hl, hp⟩ := look.exists_leads hn' hf
      exact ⟨here, goal', hl, rfl, hp⟩
    | cons a front =>
      obtain ⟨rfl, rfl⟩ := List.cons.inj hs
      have he : leaf = "" := by simpa using List.all_eq_true.mp slashes leaf (by simp)
      exact absurd he hn.1
  | @enter _ here step rest _ e look found solid next ih =>
    cases front with
    | nil =>
      obtain ⟨rfl, rfl⟩ := List.cons.inj hs
      cases next
      obtain ⟨goal', hl, hp⟩ := look.exists_leads hn' hf
      exact ⟨here, goal', hl, rfl, hp⟩
    | cons a front =>
      obtain ⟨rfl, rfl⟩ := List.cons.inj hs
      obtain ⟨d, goal', hl, hp⟩ := ih rfl
      exact ⟨d, goal', .enter (look.of_ne_written (by simp)) found solid hl, hp⟩
  | @stop _ here step target look found kept =>
    cases front with
    | nil =>
      obtain ⟨rfl, _⟩ := List.cons.inj hs
      obtain ⟨goal', hl, hp⟩ := look.exists_leads hn' hf
      exact ⟨here, goal', hl, rfl, hp⟩
    | cons a front => simp at hs
  | @follow _ here step rest _ target look found more next ih =>
    cases front with
    | nil =>
      obtain ⟨rfl, rfl⟩ := List.cons.inj hs
      simp at more
    | cons a front =>
      obtain ⟨rfl, rfl⟩ := List.cons.inj hs
      obtain ⟨d, goal', hl, hp⟩ := ih (List.append_assoc _ _ _)
      rw [List.append_assoc] at hl
      exact ⟨d, goal', .follow (look.of_ne_written (by simp)) found (Or.inl (by simp)) hl, hp⟩

end InterfaceTables.FileTree

namespace InterfaceTables.Workspace

variable {ws : Workspace} {last : LastStep} {p : Path} {loc : Location}

theorem resolve_eq_ok_iff {goal : Target} :
    ws.resolve last p = .ok goal ↔
      p.fault? = none ∧ ws.tree.Leads last FileTree.maxLinks (ws.start p) p.steps goal := by
  unfold resolve resolveSteps
  cases p.fault? with
  | none => simp [FileTree.resolveFrom_eq_ok_iff]
  | some e => simp

theorem entry_eq_ok_iff {e : Entry} :
    ws.entry last p = .ok (loc, e) ↔
      ws.resolve last p = .ok (.entry loc) ∧ ws.tree.get? loc = some e := by
  unfold entry
  cases ws.resolve last p with
  | error e => simp
  | ok goal =>
    cases goal with
    | absent dir name => simp
    | entry loc' =>
      cases hg : ws.tree.get? loc' with
      | none =>
        simp only [hg, reduceCtorEq, false_iff, not_and]
        intro he
        cases he
        simp [hg]
      | some e' =>
        simp only [hg, Except.ok.injEq, Prod.mk.injEq, Target.entry.injEq]
        constructor
        · rintro ⟨rfl, rfl⟩
          exact ⟨rfl, hg⟩
        · rintro ⟨rfl, he⟩
          exact ⟨rfl, by rw [hg] at he; exact Option.some.inj he⟩

theorem isDirectory_iff : ws.isDirectory p = true ↔ ∃ loc mode, ws.stat p = .ok (loc, .directory mode) := by
  unfold isDirectory
  cases ws.stat p with
  | error e => simp
  | ok found =>
    obtain ⟨loc, e⟩ := found
    cases e <;> simp

theorem isFile_iff : ws.isFile p = true ↔ ∃ loc contents mode, ws.stat p = .ok (loc, .file contents mode) := by
  unfold isFile
  cases ws.stat p with
  | error e => simp
  | ok found =>
    obtain ⟨loc, e⟩ := found
    cases e <;> simp

end InterfaceTables.Workspace
