import BraceTemplate.Files.Path

/-! A file system: what stands at each location, and the directory that relative
paths start from. Every entry but the root lies in a directory.

Entries are directories, regular files and symbolic links, and each has one name, which
is a text. A second name of one file, names that are not UTF-8, devices, pipes and modes
are left out. A file is written as a whole or not at all: the disk is never full, and
nobody else changes the file system in between. -/
namespace BraceTemplate

inductive Entry where
  | directory
  | file (bytes : ByteArray)
  | link (target : Text)

/-- A regular file. -/
def Entry.isFile : Entry → Bool
  | .file _ => true
  | _ => false

/-- Whether a directory was found is decided without a look at the octets of files. -/
instance : (found : Option Entry) → Decidable (found = some .directory)
  | none => isFalse nofun
  | some .directory => isTrue rfl
  | some (.file _) => isFalse nofun
  | some (.link _) => isFalse nofun

structure FileSystem where
  entries : Std.ExtTreeMap Location Entry
  home : Location
  root_directory : entries[([] : Location)]? = some .directory
  home_directory : entries[home]? = some .directory
  parent_directory : ∀ (dir : Location) (name : FileName) (e : Entry),
    entries[dir ++ [name]]? = some e → entries[dir]? = some .directory

namespace FileSystem

def entry? (fs : FileSystem) (l : Location) : Option Entry := fs.entries[l]?

/-- An entry is put only into a directory and never in the place of a directory; otherwise
nothing changes. -/
def put (fs : FileSystem) (dir : Location) (name : FileName) (e : Entry) : FileSystem :=
  if h : fs.entry? dir = some .directory ∧ fs.entry? (dir ++ [name]) ≠ some .directory then
    { fs with
      entries := fs.entries.insert (dir ++ [name]) e
      root_directory := by
        rw [Std.ExtTreeMap.getElem?_insert, if_neg (by simp)]
        exact fs.root_directory
      home_directory := by
        rw [Std.ExtTreeMap.getElem?_insert, if_neg]
        · exact fs.home_directory
        · intro same
          exact h.2 (Std.LawfulEqCmp.eq_of_compare same ▸ fs.home_directory)
      parent_directory := by
        intro d n found hf
        rw [Std.ExtTreeMap.getElem?_insert] at hf ⊢
        have keep : fs.entries[d]? = some .directory := by
          split at hf
          · next same =>
            obtain ⟨rfl, -⟩ := List.append_inj' (Std.LawfulEqCmp.eq_of_compare same) rfl
            exact h.1
          · exact fs.parent_directory d n found hf
        rw [if_neg]
        · exact keep
        · intro same
          rw [← Std.LawfulEqCmp.eq_of_compare same] at keep
          exact h.2 keep }
  else fs

/-- Nothing but the root. -/
def bare : FileSystem where
  entries := (∅ : Std.ExtTreeMap Location Entry).insert [] .directory
  home := []
  root_directory := by simp
  home_directory := by simp
  parent_directory := by
    intro dir name e h
    rw [Std.ExtTreeMap.getElem?_insert, if_neg (by simp)] at h
    simp at h

/-- Nothing but an empty home below the root. -/
def withHome (name : FileName) : FileSystem :=
  { bare.put [] name .directory with
    home := [name]
    home_directory := by
      have free : bare.entry? [] = some .directory ∧
          bare.entry? ([] ++ [name]) ≠ some .directory := by
        simp [bare, entry?]
      rw [put, dif_pos free]
      simp }

/-- The names in a directory. -/
def children (fs : FileSystem) (dir : Location) : List FileName :=
  fs.entries.keys.filterMap fun l =>
    match l.getLast? with
    | some name => if l.dropLast = dir then some name else none
    | none => none

theorem mem_children {fs : FileSystem} {dir : Location} {name : FileName} :
    name ∈ fs.children dir ↔ (fs.entry? (dir ++ [name])).isSome := by
  simp only [children, List.mem_filterMap, Std.ExtTreeMap.mem_keys, entry?,
    ← Std.ExtTreeMap.mem_iff_isSome_getElem?]
  constructor
  · rintro ⟨l, hl, hn⟩
    split at hn
    · next last hlast =>
      split at hn
      · next hdir =>
        obtain rfl := Option.some.inj hn
        obtain ⟨front, rfl⟩ := List.getLast?_eq_some_iff.mp hlast
        rw [List.dropLast_concat] at hdir
        exact hdir ▸ hl
      · cases hn
    · cases hn
  · intro h
    exact ⟨dir ++ [name], h, by simp⟩

/-- No location is longer than this. -/
def height (fs : FileSystem) : Nat :=
  fs.entries.keys.foldr (fun l bound => max l.length bound) 0

theorem length_le_height {fs : FileSystem} {l : Location} {e : Entry}
    (h : fs.entry? l = some e) : l.length ≤ fs.height := by
  have hm : l ∈ fs.entries.keys :=
    Std.ExtTreeMap.mem_keys.mpr (Std.ExtTreeMap.mem_iff_isSome_getElem?.mpr (by
      rw [show fs.entries[l]? = some e from h]; rfl))
  have bound : ∀ ls : List Location, l ∈ ls →
      l.length ≤ ls.foldr (fun l bound => max l.length bound) 0 := by
    intro ls
    induction ls with
    | nil => intro h; cases h
    | cons first rest ih =>
      intro h
      simp only [List.foldr_cons]
      rcases List.mem_cons.mp h with rfl | h
      · exact Nat.le_max_left _ _
      · exact Nat.le_trans (ih h) (Nat.le_max_right _ _)
  exact bound _ hm

/-- The locations of all directories. -/
def directories (fs : FileSystem) : List Location :=
  fs.entries.keys.filter fun l => fs.entry? l = some .directory

theorem mem_directories {fs : FileSystem} {l : Location} :
    l ∈ fs.directories ↔ fs.entry? l = some .directory := by
  simp only [directories, List.mem_filter, Std.ExtTreeMap.mem_keys, decide_eq_true_eq,
    and_iff_right_iff_imp]
  intro h
  exact Std.ExtTreeMap.mem_iff_isSome_getElem?.mpr (by
    rw [show fs.entries[l]? = some .directory from h]; rfl)

/-- Everything below the home with its path from there, in the order of the path texts. -/
def listing (fs : FileSystem) : List (Text × Entry) :=
  let below := fs.entries.toList.filter fun found =>
    fs.home.isPrefixOf found.1 && found.1 ≠ fs.home
  let named := below.map fun found =>
    (Location.pathFrom [] (found.1.drop fs.home.length), found.2)
  (Std.ExtTreeMap.ofList named).toList

end FileSystem
end BraceTemplate
