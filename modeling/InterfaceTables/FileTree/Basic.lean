import InterfaceTables.Path

/-!
A tree of files, held flat: every entry with the place where it stands. The root is always there and
is a directory. What a tree holds at a place is read with `get?`; `insert` changes one place, `erase`
all places at and below one, and `clear` only those below.
-/

namespace InterfaceTables

/-- Where an entry stands: the names that lead to it, innermost first. The root is `[]`. -/
abbrev Location := List String

inductive Entry where
  | directory (mode : Nat)
  | file (contents : ByteArray) (mode : Nat)
  | link (target : Path)

def directoryMode : Nat := 0o755

def fileMode : Nat := 0o644

def permissionBits (mode : Nat) : Nat := mode % 0o1000

/-! Who uses a tree owns all that is in it, so what the owner of an entry may do decides. -/

def mayRead (mode : Nat) : Bool := mode.testBit 8

def mayWrite (mode : Nat) : Bool := mode.testBit 7

def maySearch (mode : Nat) : Bool := mode.testBit 6

structure FileTree where
  entries : List (Location × Entry)
  nodup : (entries.map Prod.fst).Nodup

namespace FileTree

def empty : FileTree := ⟨[], by simp⟩

def get? (t : FileTree) : Location → Option Entry
  | [] => some (.directory directoryMode)
  | loc => t.entries.lookup loc

def put (loc : Location) (e : Entry) : List (Location × Entry) → List (Location × Entry)
  | [] => [(loc, e)]
  | (l, x) :: rest => if l = loc then (l, e) :: rest else (l, x) :: put loc e rest

theorem mem_keys_put {loc : Location} {e : Entry} {entries : List (Location × Entry)}
    {l : Location} :
    l ∈ (put loc e entries).map Prod.fst ↔ l = loc ∨ l ∈ entries.map Prod.fst := by
  induction entries with
  | nil => simp [put]
  | cons x rest ih =>
    obtain ⟨k, v⟩ := x
    by_cases h : k = loc
    · subst h; simp [put]
    · simp only [put, h, if_false, List.map_cons, List.mem_cons, ih]
      constructor <;> (rintro (h | h | h) <;> simp [h])

theorem nodup_keys_put (loc : Location) (e : Entry) (entries : List (Location × Entry))
    (h : (entries.map Prod.fst).Nodup) : ((put loc e entries).map Prod.fst).Nodup := by
  induction entries with
  | nil => simp [put]
  | cons x rest ih =>
    obtain ⟨k, v⟩ := x
    simp only [List.map_cons, List.nodup_cons] at h
    by_cases hk : k = loc
    · simpa [put, hk] using h
    · simp only [put, hk, if_false, List.map_cons, List.nodup_cons, mem_keys_put]
      exact ⟨by simpa [hk] using h.1, ih h.2⟩

def insert (t : FileTree) (loc : Location) (e : Entry) : FileTree :=
  ⟨put loc e t.entries, nodup_keys_put loc e t.entries t.nodup⟩

theorem nodup_keys_filter (keep : Location × Entry → Bool) (entries : List (Location × Entry))
    (h : (entries.map Prod.fst).Nodup) : ((entries.filter keep).map Prod.fst).Nodup :=
  h.sublist (List.filter_sublist.map Prod.fst)

def erase (t : FileTree) (loc : Location) : FileTree :=
  ⟨t.entries.filter fun (l, _) => !loc.isSuffixOf l, nodup_keys_filter _ _ t.nodup⟩

def clear (t : FileTree) (loc : Location) : FileTree :=
  ⟨t.entries.filter fun (l, _) => l = loc || !loc.isSuffixOf l, nodup_keys_filter _ _ t.nodup⟩

theorem lookup_cons_of_ne {l k : Location} (h : l ≠ k) (v : Entry)
    (rest : List (Location × Entry)) : ((k, v) :: rest).lookup l = rest.lookup l := by
  have hb : (l == k) = false := beq_eq_false_iff_ne.mpr h
  rw [List.lookup_cons, hb]

theorem lookup_put (loc l : Location) (e : Entry) (entries : List (Location × Entry)) :
    (put loc e entries).lookup l = if l = loc then some e else entries.lookup l := by
  induction entries with
  | nil =>
    by_cases h : l = loc
    · simp [put, h]
    · simp [put, lookup_cons_of_ne h, h]
  | cons x rest ih =>
    obtain ⟨k, v⟩ := x
    by_cases hk : k = loc
    · subst hk
      by_cases h : l = k
      · simp [put, h]
      · simp [put, lookup_cons_of_ne h, h]
    · by_cases h : l = k
      · subst h; simp [put, hk]
      · simp [put, hk, lookup_cons_of_ne h, ih]

@[simp] theorem get?_insert_self (t : FileTree) (loc : Location) (e : Entry) (h : loc ≠ []) :
    (t.insert loc e).get? loc = some e := by
  cases loc with
  | nil => simp at h
  | cons name dir => simp [get?, insert, lookup_put]

theorem get?_insert_of_ne (t : FileTree) {loc l : Location} (e : Entry) (h : l ≠ loc) :
    (t.insert loc e).get? l = t.get? l := by
  cases l with
  | nil => rfl
  | cons name dir => simp [get?, insert, lookup_put, h]

def names (t : FileTree) (dir : Location) : List String :=
  t.entries.filterMap fun (l, _) =>
    match l with
    | name :: parent => if parent = dir then some name else none
    | [] => none

/-- The names of the entries in a directory, in the order of their characters, which is also that of
their bytes. -/
def sortedNames (t : FileTree) (dir : Location) : List String :=
  (t.names dir).mergeSort fun a b => decide (a ≤ b)

/-- A name that no entry of a directory has: it is longer than all of them. -/
def spareName (t : FileTree) (dir : Location) : String :=
  ".tmp" ++ String.ofList
    (List.replicate (((t.names dir).map fun name => name.length).foldl max 6) '0')

def height (t : FileTree) : Nat := (t.entries.map fun (l, _) => l.length).foldl max 0

end FileTree

end InterfaceTables
