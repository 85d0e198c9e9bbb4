import BraceTemplate.Proofs.Following
import BraceTemplate.Proofs.Outputs
import BraceTemplate.Proofs.PathOrder
import Mathlib.Data.List.Nodup

/-!
# Finding templates

`Descends` says which directories can be walked to from a path, by nothing but what path
texts lead to: a name leads on if the longer path leads to a directory, and through a
link only if that is none of the directories that the walk is in. The templates of a path
are the regular files with the right extension in those directories, each listed once and
in the order of their paths. No walk is longer than the file system allows.
-/
namespace BraceTemplate

theorem Route.octets_ofText (t : Text) : (ofText t).octets = Text.octets t := by
  induction t with
  | nil => rfl
  | cons c rest ih =>
    have size : Text.octets (c :: rest) = c.utf8Size + Text.octets rest := rfl
    rw [size, ← ih, ofText, ofText, octets, octets, Text.pieces]
    split
    · next slash =>
      have some : 0 < (Text.pieces rest).length :=
        List.length_pos_iff.mpr (Text.pieces_ne_nil rest)
      have one : ('/' : Char).utf8Size = 1 := by decide
      rw [slash, one]
      simp only [List.foldr_cons, List.length_cons]
      have empty : Text.octets [] = 0 := rfl
      omega
    · cases h : Text.pieces rest with
      | nil => exact absurd h (Text.pieces_ne_nil rest)
      | cons piece more =>
        have size : Text.octets (c :: piece) = c.utf8Size + Text.octets piece := rfl
        simp only [List.foldr_cons, List.length_cons, size]
        omega

theorem Text.octets_append (s t : Text) : octets (s ++ t) = octets s + octets t := by
  induction s with
  | nil => simp [octets]
  | cons c rest ih =>
    have size (t : Text) : octets (c :: t) = c.utf8Size + octets t := rfl
    rw [List.cons_append, size, size, ih, Nat.add_assoc]

/-- A path below which something can be looked up can itself be looked up, unless it is empty. -/
theorem Route.refusal?_of_below {path name : Text} (filled : path ≠ []) (slashless : '/' ∉ name)
    (accepted : (ofText (Text.below path name)).refusal? = none) :
    (ofText path).refusal? = none := by
  obtain ⟨clean, -, short⟩ := refusal?_eq_none.mp accepted
  obtain ⟨front, below, before⟩ := Text.pieces_below path slashless
  refine refusal?_eq_none.mpr ⟨fun piece listed => ?_, ?_, Nat.lt_of_le_of_lt ?_ short⟩
  · rcases before with same | same
    · exact clean piece (by simp_all [ofText])
    · rw [ofText, same, List.mem_append, List.mem_singleton] at listed
      rcases listed with listed | rfl
      · exact clean piece (by simp_all [ofText])
      · exact List.not_mem_nil
  · rw [octets_ofText]
    obtain ⟨c, rest, rfl⟩ := List.exists_cons_of_ne_nil filled
    exact Nat.ne_of_gt (Nat.add_pos_left c.utf8Size_pos _)
  · rw [octets_ofText, octets_ofText, Text.below]
    split
    · rw [Text.octets_append]
      exact Nat.le_add_right _ _
    · rw [Text.octets_append]
      exact Nat.le_add_right _ _

theorem Text.below_ne_nil (path : Text) {name : Text} (named : name ≠ []) :
    below path name ≠ [] := by
  rw [below]
  split
  · simp [named]
  · simp

theorem Location.pathFrom_ne_nil {path : Text} (filled : path ≠ []) (trail : Location) :
    pathFrom path trail ≠ [] := by
  cases trail using List.reverseRecOn with
  | nil => exact filled
  | append_singleton trail name =>
    rw [pathFrom_concat]
    exact Text.below_ne_nil _ name.valid.1

/-- The text after the last dot of a name is the extension, unless that dot is the first character
of the name. -/
def Text.HasExtension (name extension : Text) : Prop :=
  ∃ base : Text, base ≠ [] ∧ '.' ∉ extension ∧ name = base ++ '.' :: extension

theorem Text.lastPiece_below (path : Text) (name : FileName) :
    lastPiece (below path name.text) = name.text := by
  obtain ⟨front, below, -⟩ := pieces_below path name.valid.2.2.2
  rw [lastPiece, below]
  simp

namespace FileSystem
variable {fs : FileSystem} {path : Text} {trail : Location} {name : FileName} {here l : Location}

theorem ne_nil_of_locate (h : fs.locate path = .ok l) : path ≠ [] := by
  rintro rfl
  cases h

/-- The names of the trail are followed from where the path leads. -/
theorem leads_of_locate (h : fs.locate (Location.pathFrom path trail) = .ok l) :
    ∃ left, fs.Leads linkLimit ((Route.ofText path).startFrom fs.home)
      ((Route.ofText path).steps ++ trail.map .down) l left := by
  obtain ⟨-, left, leads⟩ := locateRoute_iff_leads.mp h
  rw [Route.walk, Location.startFrom_pathFrom, Location.steps_pathFrom] at leads
  split at leads
  · obtain ⟨mid, between, first, last⟩ := leads.split
    obtain ⟨-, rfl, rfl⟩ := leads_stay_iff.mp last
    exact ⟨_, first⟩
  · rw [List.append_nil] at leads
    exact ⟨left, leads⟩

/-- Where a path with one more name leads: to the entry of that name in the directory that the
path leads to, unless this is a link. -/
theorem locate_concat (h : fs.locate (Location.pathFrom path (trail ++ [name])) = .ok l)
    (filled : path ≠ []) : ∃ here, fs.locate (Location.pathFrom path trail) = .ok here ∧
      ∃ e, fs.entry? (here ++ [name]) = some e ∧
        ((∀ target, e ≠ .link target) → l = here ++ [name]) := by
  obtain ⟨left, leads⟩ := leads_of_locate h
  rw [List.map_append, ← List.append_assoc] at leads
  obtain ⟨here, between, way, last⟩ := leads.split
  have accepted := (locateRoute_iff_leads.mp h).1
  rw [Location.pathFrom_concat] at accepted
  have accepted := Route.refusal?_of_below (Location.pathFrom_ne_nil filled trail)
    name.valid.2.2.2 accepted
  cases last with
  | step turn on =>
    have located (dir : fs.entry? here = some .directory) :
        fs.locate (Location.pathFrom path trail) = .ok here := by
      refine locateRoute_iff_leads.mpr ⟨accepted, between, ?_⟩
      rw [Route.walk, Location.startFrom_pathFrom, Location.steps_pathFrom]
      refine way.append ?_
      split
      · exact leads_stay_iff.mpr ⟨dir, rfl, rfl⟩
      · exact .done
    cases turn with
    | @down _ _ _ e dir _ entry =>
      cases on
      exact ⟨here, located dir, e, entry, fun _ => rfl⟩
    | link dir _ entry =>
      exact ⟨here, located dir, _, entry, fun noLink => absurd rfl (noLink _)⟩

/-- The name leads the walk in the directory `here` on to the directory `next`. -/
inductive Opens (fs : FileSystem) (path : Text) (trail here : Location) (inside : List Location)
    (name : FileName) : Location → Prop where
  | child (dir : fs.entry? (here ++ [name]) = some .directory) :
      Opens fs path trail here inside name (here ++ [name])
  | link {target : Text} {next : Location}
      (entry : fs.entry? (here ++ [name]) = some (.link target))
      (found : fs.locate (Location.pathFrom path (trail ++ [name])) = .ok next)
      (dir : fs.entry? next = some .directory) (fresh : next ∉ here :: inside) :
      Opens fs path trail here inside name next

/-- The name is that of a regular file, or of a link to one. -/
inductive Shows (fs : FileSystem) (path : Text) (trail here : Location) (name : FileName) :
    Prop where
  | file {bytes : ByteArray} (entry : fs.entry? (here ++ [name]) = some (.file bytes))
  | link {target : Text} {bytes : ByteArray} {l : Location}
      (entry : fs.entry? (here ++ [name]) = some (.link target))
      (found : fs.locate (Location.pathFrom path (trail ++ [name])) = .ok l)
      (file : fs.entry? l = some (.file bytes))

section Walk
variable {inside : List Location} {next found : Location}

theorem Opens.isSome_entry (opens : fs.Opens path trail here inside name next) :
    (fs.entry? (here ++ [name])).isSome := by
  cases opens with
  | child dir => simp [dir]
  | link entry => simp [entry]

theorem Shows.isSome_entry (shown : fs.Shows path trail here name) :
    (fs.entry? (here ++ [name])).isSome := by
  cases shown with
  | file entry => simp [entry]
  | link entry => simp [entry]

theorem Opens.remaining_lt (opens : fs.Opens path trail here inside name next) :
    fs.remaining next (here :: inside) < fs.remaining here inside := by
  cases opens with
  | child dir => exact remaining_of_child dir
  | link _ _ dir fresh => exact remaining_of_link dir fresh

/-- All that the walk does in one directory. -/
theorem mem_filesBelow_iff : found ∈ fs.filesBelow path trail here inside ↔
    ∃ name, (fs.Shows path trail here name ∧ found = trail ++ [name]) ∨
      ∃ next, fs.Opens path trail here inside name next ∧
        found ∈ fs.filesBelow path (trail ++ [name]) next (here :: inside) := by
  rw [filesBelow, List.mem_flatMap]
  constructor
  · rintro ⟨name, -, listed⟩
    refine ⟨name, ?_⟩
    split at listed
    · next entry => exact .inl ⟨.file entry, List.mem_singleton.mp listed⟩
    · next dir => exact .inr ⟨_, .child dir, listed⟩
    · next entry =>
      split at listed
      · cases listed
      · next located =>
        split at listed
        · next file => exact .inl ⟨.link entry located file, List.mem_singleton.mp listed⟩
        · next dir =>
          split at listed
          · cases listed
          · next fresh => exact .inr ⟨_, .link entry located dir fresh, listed⟩
        · cases listed
    · cases listed
  · rintro ⟨name, ⟨shown, rfl⟩ | ⟨next, opens, listed⟩⟩
    · refine ⟨name, mem_children.mpr shown.isSome_entry, ?_⟩
      cases shown with
      | file entry =>
        split
        all_goals simp_all
      | link entry located file =>
        split
        all_goals simp_all
        split
        all_goals simp_all
    · refine ⟨name, mem_children.mpr opens.isSome_entry, ?_⟩
      cases opens with
      | child dir =>
        split
        all_goals simp_all
      | link entry located dir fresh =>
        split
        all_goals simp_all
        split
        all_goals simp_all

/-- What a walk lists that is in the directory `here`, reached by `trail`. -/
inductive Lists (fs : FileSystem) (path : Text) :
    Location → Location → List Location → Location → Prop where
  | file {trail here : Location} {inside : List Location} {name : FileName}
      (shown : fs.Shows path trail here name) : Lists fs path trail here inside (trail ++ [name])
  | deeper {trail here next found : Location} {inside : List Location} {name : FileName}
      (opens : fs.Opens path trail here inside name next)
      (on : Lists fs path (trail ++ [name]) next (here :: inside) found) :
      Lists fs path trail here inside found

theorem lists_of_mem {trail here : Location} {inside : List Location}
    (h : found ∈ fs.filesBelow path trail here inside) :
    fs.Lists path trail here inside found := by
  obtain ⟨name, ⟨shown, rfl⟩ | ⟨next, opens, listed⟩⟩ := mem_filesBelow_iff.mp h
  · exact .file shown
  · have fewer := opens.remaining_lt
    exact .deeper opens (lists_of_mem listed)
termination_by fs.remaining here inside

theorem Lists.mem (h : fs.Lists path trail here inside found) :
    found ∈ fs.filesBelow path trail here inside := by
  induction h with
  | file shown => exact mem_filesBelow_iff.mpr ⟨_, .inl ⟨shown, rfl⟩⟩
  | deeper opens _ ih => exact mem_filesBelow_iff.mpr ⟨_, .inr ⟨_, opens, ih⟩⟩

theorem Lists.extends_trail (h : fs.Lists path trail here inside found) : trail <+: found := by
  induction h with
  | file => exact List.prefix_append _ _
  | deeper _ _ ih => exact (List.prefix_append _ _).trans ih

/-- By the names `trail` one gets from the path into the directory `here`, being in those of
`inside` on the way. A link leads on only into a directory that the walk is not in. -/
inductive Descends (fs : FileSystem) (path : Text) :
    Location → Location → List Location → Prop where
  | start {here : Location} (found : fs.locate path = .ok here)
      (dir : fs.entry? here = some .directory) : Descends fs path [] here []
  | into {trail here next : Location} {inside : List Location} {name : FileName}
      (walk : Descends fs path trail here inside)
      (found : fs.locate (Location.pathFrom path (trail ++ [name])) = .ok next)
      (dir : fs.entry? next = some .directory)
      (fresh : ∀ target, fs.entry? (here ++ [name]) = some (.link target) →
        next ∉ here :: inside) :
      Descends fs path (trail ++ [name]) next (here :: inside)

namespace Descends

theorem locate (walk : fs.Descends path trail here inside) :
    fs.locate (Location.pathFrom path trail) = .ok here := by
  cases walk with
  | start found => exact found
  | into _ found => exact found

theorem ne_nil (walk : fs.Descends path trail here inside) : path ≠ [] := by
  induction walk with
  | start found => exact ne_nil_of_locate found
  | into _ _ _ _ ih => exact ih

/-- The entry that the next name of a walk is looked up from. -/
theorem entry_of_locate (walk : fs.Descends path trail here inside)
    (found : fs.locate (Location.pathFrom path (trail ++ [name])) = .ok next) :
    ∃ e, fs.entry? (here ++ [name]) = some e ∧
      ((∀ target, e ≠ .link target) → next = here ++ [name]) := by
  obtain ⟨here', found', e, entry, same⟩ := locate_concat found walk.ne_nil
  obtain rfl : here' = here := Except.ok.inj (found'.symm.trans walk.locate)
  exact ⟨e, entry, same⟩

/-- A name on which a walk goes on is opened. -/
theorem opens (walk : fs.Descends path trail here inside)
    (found : fs.locate (Location.pathFrom path (trail ++ [name])) = .ok next)
    (dir : fs.entry? next = some .directory)
    (fresh : ∀ target, fs.entry? (here ++ [name]) = some (.link target) →
      next ∉ here :: inside) : fs.Opens path trail here inside name next := by
  obtain ⟨e, entry, same⟩ := walk.entry_of_locate found
  by_cases link : ∃ target, e = .link target
  · obtain ⟨target, rfl⟩ := link
    exact .link entry found dir (fresh target entry)
  · obtain rfl := same fun target isLink => link ⟨target, isLink⟩
    exact .child dir

theorem shows_of_isFile (walk : fs.Descends path trail here inside)
    (file : fs.isFile (Location.pathFrom path (trail ++ [name])) = true) :
    fs.Shows path trail here name := by
  obtain ⟨l, bytes, found, file⟩ := isFile_eq_true.mp file
  obtain ⟨e, entry, same⟩ := walk.entry_of_locate found
  by_cases link : ∃ target, e = .link target
  · obtain ⟨target, rfl⟩ := link
    exact .link entry found file
  · obtain rfl := same fun target isLink => link ⟨target, isLink⟩
    exact .file file

/-- Each name of a walk uses up some of what the file system allows. -/
theorem length_add_remaining_lt (walk : fs.Descends path trail here inside) :
    trail.length + fs.remaining here inside < fs.directories.length * (fs.height + 1) := by
  induction walk with
  | @start here _ dir =>
    have fewer := Nat.mul_le_mul_right (fs.height + 1)
      (length_outside_cons_lt dir (List.not_mem_nil (a := here)))
    have all : fs.outside [] = fs.directories := List.filter_eq_self.mpr (by simp)
    rw [all, Nat.succ_mul] at fewer
    rw [remaining, List.length_nil]
    omega
  | into walk found dir fresh ih =>
    have less := (walk.opens found dir fresh).remaining_lt
    rw [List.length_append, List.length_singleton]
    omega

theorem mem_files (walk : fs.Descends path trail here inside)
    (listed : fs.Lists path trail here inside found) : found ∈ fs.files path := by
  induction walk with
  | start located dir =>
    simp only [files, located, dir]
    exact listed.mem
  | into walk located dir fresh ih => exact ih (.deeper (walk.opens located dir fresh) listed)

end Descends

/-- If a longer path leads somewhere, each shorter one does. -/
theorem exists_locate_of_append {rest : Location} (filled : path ≠ [])
    (h : fs.locate (Location.pathFrom path (trail ++ rest)) = .ok l) :
    ∃ here, fs.locate (Location.pathFrom path trail) = .ok here := by
  induction rest using List.reverseRecOn generalizing l with
  | nil => exact ⟨l, by rwa [List.append_nil] at h⟩
  | append_singleton rest name ih =>
    rw [← List.append_assoc] at h
    obtain ⟨here, found, -⟩ := locate_concat h filled
    exact ih found

/-- What the walk opens on the way to a file is where the path so far leads; the walk enters it
without a lookup, but the file further on is looked up through it. -/
theorem Opens.descends (opens : fs.Opens path trail here inside name next)
    (walk : fs.Descends path trail here inside) {rest : Location}
    (h : fs.locate (Location.pathFrom path (trail ++ [name] ++ rest)) = .ok l) :
    fs.Descends path (trail ++ [name]) next (here :: inside) := by
  cases opens with
  | link entry found dir fresh => exact .into walk found dir fun _ _ => fresh
  | child dir =>
    obtain ⟨next, found⟩ := exists_locate_of_append walk.ne_nil h
    obtain ⟨e, entry, same⟩ := walk.entry_of_locate found
    obtain rfl : .directory = e := Option.some.inj (dir.symm.trans entry)
    obtain rfl := same (by simp)
    exact .into walk found dir fun target link => by simp [dir] at link

theorem Lists.exists_descends (listed : fs.Lists path trail here inside found)
    (walk : fs.Descends path trail here inside)
    (file : fs.isFile (Location.pathFrom path found) = true) :
    ∃ front last inside' name, fs.Descends path front last inside' ∧ found = front ++ [name] := by
  induction listed with
  | file => exact ⟨_, _, _, _, walk, rfl⟩
  | deeper opens on ih =>
    obtain ⟨rest, rfl⟩ := on.extends_trail
    obtain ⟨l, -, located, -⟩ := isFile_eq_true.mp file
    exact ih (opens.descends walk located) file

/-- The files that the walk lists are those in the directories that can be walked to. -/
theorem mem_files_iff_descends (file : fs.isFile (Location.pathFrom path trail) = true) :
    trail ∈ fs.files path ↔ trail = [] ∨
      ∃ front last inside name, fs.Descends path front last inside ∧ trail = front ++ [name] := by
  constructor
  · intro listed
    rw [files] at listed
    split at listed
    · cases listed
    · next start found =>
      split at listed
      · exact .inl (List.mem_singleton.mp listed)
      · next dir => exact .inr ((lists_of_mem listed).exists_descends (.start found dir) file)
      · cases listed
  · rintro (rfl | ⟨front, last, inside, name, walk, rfl⟩)
    · obtain ⟨l, bytes, found, file⟩ := isFile_eq_true.mp file
      have found : fs.locate path = .ok l := found
      simp [files, found, file]
    · exact walk.mem_files (.file (walk.shows_of_isFile file))

end Walk

theorem nodup_children (fs : FileSystem) (dir : Location) : (fs.children dir).Nodup := by
  have unique : fs.entries.keys.Nodup := Std.ExtTreeMap.nodup_keys
  refine unique.filterMap fun l l' name h h' => ?_
  split at h
  · next last ends =>
    split at h'
    · next last' ends' =>
      obtain ⟨front, rfl⟩ := List.getLast?_eq_some_iff.mp ends
      obtain ⟨front', rfl⟩ := List.getLast?_eq_some_iff.mp ends'
      simp only [List.dropLast_concat, Option.mem_def, Option.ite_none_right_eq_some,
        Option.some.injEq] at h h'
      rw [h.1, h.2, h'.1, h'.2]
    · cases h'
  · cases h

/-- A list of branches in which each goes on with its own name has no duplicates. -/
theorem nodup_flatMap_of_names {names : List FileName} (nodup : names.Nodup) (trail : Location)
    {branch : FileName → List Location}
    (each : ∀ name, (branch name).Nodup ∧ ∀ found ∈ branch name, trail ++ [name] <+: found) :
    (names.flatMap branch).Nodup := by
  refine List.nodup_flatMap.mpr ⟨fun name _ => (each name).1, nodup.imp ?_⟩
  intro name other differ found listed listed'
  obtain ⟨rest, rfl⟩ := (each name).2 found listed
  obtain ⟨rest', same⟩ := (each other).2 _ listed'
  simp only [List.append_assoc, List.append_cancel_left_eq] at same
  exact differ (List.cons.inj same).1.symm

theorem nodup_filesBelow (fs : FileSystem) (path : Text) (trail here : Location)
    (inside : List Location) : (fs.filesBelow path trail here inside).Nodup := by
  rw [filesBelow]
  refine nodup_flatMap_of_names (fs.nodup_children here) trail fun name => ?_
  have single : [trail ++ [name]].Nodup ∧ ∀ found ∈ [trail ++ [name]], trail ++ [name] <+: found :=
    ⟨List.nodup_singleton _, fun found listed => List.mem_singleton.mp listed ▸ List.prefix_rfl⟩
  have nothing : ([] : List Location).Nodup ∧ ∀ found ∈ [], trail ++ [name] <+: found :=
    ⟨List.nodup_nil, fun _ listed => absurd listed List.not_mem_nil⟩
  split
  · exact single
  · next dir =>
    have fewer : fs.remaining (here ++ [name]) (here :: inside) < fs.remaining here inside :=
      remaining_of_child dir
    exact ⟨nodup_filesBelow fs path _ _ _, fun _ listed => (lists_of_mem listed).extends_trail⟩
  · split
    · exact nothing
    · split
      · exact single
      · next dir =>
        split
        · exact nothing
        · next fresh =>
          have fewer := remaining_of_link dir fresh
          exact ⟨nodup_filesBelow fs path _ _ _,
            fun _ listed => (lists_of_mem listed).extends_trail⟩
      · exact nothing
  · exact nothing
termination_by fs.remaining here inside

theorem nodup_files (fs : FileSystem) (path : Text) : (fs.files path).Nodup := by
  rw [files]
  split
  · exact List.nodup_nil
  · split
    · exact List.nodup_singleton _
    · exact fs.nodup_filesBelow path _ _ _
    · exact List.nodup_nil

theorem isSome_templateStem? {name : Text} :
    (templateStem? name).isSome ↔ name.HasExtension sourceExtension := by
  rw [Option.isSome_iff_exists]
  constructor
  · rintro ⟨stem, named⟩
    obtain ⟨base, filled, -, text⟩ := templateStem?_eq_some.mp named
    exact ⟨base, filled, by decide, text⟩
  · rintro ⟨base, filled, -, text⟩
    exact ⟨_, templateStem?_eq_some.mpr ⟨base, filled, rfl, text⟩⟩

theorem lastPiece_pathFrom (path : Text) (trail : Location) :
    (Location.pathFrom path trail).lastPiece = endName path trail := by
  cases trail using List.reverseRecOn with
  | nil => rfl
  | append_singleton trail name =>
    rw [Location.pathFrom_concat, Text.lastPiece_below, endName, List.getLast?_concat]

theorem mem_templates_iff_descends : trail ∈ fs.templates path ↔
    (trail = [] ∨ ∃ front last inside name,
      fs.Descends path front last inside ∧ trail = front ++ [name]) ∧
    fs.isFile (Location.pathFrom path trail) = true ∧
    (Location.pathFrom path trail).lastPiece.HasExtension sourceExtension := by
  rw [mem_templates, lastPiece_pathFrom, isSome_templateStem?]
  constructor
  · rintro ⟨listed, file, named⟩
    exact ⟨(mem_files_iff_descends file).mp listed, file, named⟩
  · rintro ⟨reached, file, named⟩
    exact ⟨(mem_files_iff_descends file).mpr reached, file, named⟩

/-- A walk from a path is bounded by the file system, so that it ends. It meets no file twice;
the templates are the regular files with the right extension that it meets, in strictly
increasing order. -/
theorem templatePaths_exact (fs : FileSystem) (path : Text) :
    (∀ trail here inside, fs.Descends path trail here inside →
      trail.length < fs.directories.length * (fs.height + 1)) ∧
    (fs.files path).Nodup ∧ (fs.templatePaths path).Nodup ∧
    (fs.templatePaths path).Pairwise Text.PathBefore ∧
    ∀ p, p ∈ fs.templatePaths path ↔
      (p = path ∨ ∃ trail here inside name, fs.Descends path trail here inside ∧
        p = Location.pathFrom path (trail ++ [name])) ∧
      fs.isFile p = true ∧ p.lastPiece.HasExtension sourceExtension := by
  refine ⟨fun trail here inside walk => ?_, fs.nodup_files path, ?_, ?_, fun p => ?_⟩
  · exact Nat.lt_of_le_of_lt (Nat.le_add_right _ _) walk.length_add_remaining_lt
  · exact (fs.nodup_templates path).map (Location.pathFrom_injective path)
  · have ordered : (fs.templates path).Pairwise (compare · · = .lt) :=
      Std.ExtTreeSet.ordered_toList
    exact List.pairwise_map.mpr (ordered.imp (Location.pathBefore_pathFrom path))
  · simp only [templatePaths, List.mem_map, mem_templates_iff_descends]
    constructor
    · rintro ⟨trail, ⟨rfl | ⟨front, last, inside, name, walk, rfl⟩, file⟩, rfl⟩
      · exact ⟨.inl rfl, file⟩
      · exact ⟨.inr ⟨front, last, inside, name, walk, rfl⟩, file⟩
    · rintro ⟨rfl | ⟨front, last, inside, name, walk, rfl⟩, file⟩
      · exact ⟨[], ⟨.inl rfl, file⟩, rfl⟩
      · exact ⟨_, ⟨.inr ⟨front, last, inside, name, walk, rfl⟩, file⟩, rfl⟩

end FileSystem
end BraceTemplate
