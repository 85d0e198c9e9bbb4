import BraceTemplate.Files.Lookup

/-! All regular files below a directory, links followed. A link to a directory that
the walk is in is passed over; a directory that is no link is always entered. The
walk ends because each link enters a directory that the walk is not in, and between
two links it only goes down. -/
namespace BraceTemplate.FileSystem

/-- The directories that a walk is not in. -/
def outside (fs : FileSystem) (inside : List Location) : List Location :=
  fs.directories.filter fun l => l ∉ inside

theorem length_outside_cons_le (fs : FileSystem) (l : Location) (inside : List Location) :
    (fs.outside (l :: inside)).length ≤ (fs.outside inside).length := by
  simp only [outside, ← List.countP_eq_length_filter]
  apply List.countP_mono_left
  intro k _ h
  simp only [List.mem_cons, not_or, decide_eq_true_eq] at h ⊢
  exact h.2

theorem length_outside_cons_lt {fs : FileSystem} {l : Location} {inside : List Location}
    (dir : fs.entry? l = some .directory) (new : l ∉ inside) :
    (fs.outside (l :: inside)).length < (fs.outside inside).length := by
  have split : fs.outside (l :: inside) = (fs.outside inside).filter fun k => k ≠ l := by
    simp only [outside, List.filter_filter]
    apply List.filter_congr
    intro k _
    simp [not_or]
  rw [split, ← List.countP_eq_length_filter]
  refine Nat.lt_of_le_of_ne List.countP_le_length ?_
  intro all
  have hl : l ∈ fs.outside inside :=
    List.mem_filter.mpr ⟨mem_directories.mpr dir, by simpa using new⟩
  have := List.countP_eq_length.mp all l hl
  simp at this

/-- Bounds what a walk in the directory `here` still has to do: the directories that a link can
enter weigh more than all levels below. -/
def remaining (fs : FileSystem) (here : Location) (inside : List Location) : Nat :=
  (fs.outside (here :: inside)).length * (fs.height + 1) + (fs.height - here.length)

theorem remaining_of_child {fs : FileSystem} {here : Location} {inside : List Location}
    {name : FileName} (dir : fs.entry? (here ++ [name]) = some .directory) :
    fs.remaining (here ++ [name]) (here :: inside) < fs.remaining here inside := by
  have down := length_le_height dir
  have fewer := Nat.mul_le_mul_right (fs.height + 1)
    (fs.length_outside_cons_le (here ++ [name]) (here :: inside))
  simp only [List.length_append, List.length_singleton] at down
  simp only [remaining, List.length_append, List.length_singleton]
  omega

theorem remaining_of_link {fs : FileSystem} {here target : Location} {inside : List Location}
    (dir : fs.entry? target = some .directory) (new : target ∉ here :: inside) :
    fs.remaining target (here :: inside) < fs.remaining here inside := by
  have fewer := Nat.mul_le_mul_right (fs.height + 1) (length_outside_cons_lt dir new)
  simp only [Nat.succ_mul] at fewer
  simp only [remaining]
  omega

/-- The names that lead from the path to each regular file. The walk is in the directory `here`,
reached from the path by the names `trail`, and in those of `inside`. -/
def filesBelow (fs : FileSystem) (path : Text) (trail : Location) (here : Location)
    (inside : List Location) : List Location :=
  (fs.children here).flatMap fun name =>
    match _ : fs.entry? (here ++ [name]) with
    | some (.file _) => [trail ++ [name]]
    | some .directory =>
      fs.filesBelow path (trail ++ [name]) (here ++ [name]) (here :: inside)
    | some (.link _) =>
      match fs.locate (Location.pathFrom path (trail ++ [name])) with
      | .error _ => []
      | .ok target =>
        match _ : fs.entry? target with
        | some (.file _) => [trail ++ [name]]
        | some .directory =>
          if _ : target ∈ here :: inside then []
          else fs.filesBelow path (trail ++ [name]) target (here :: inside)
        | _ => []
    | none => []
termination_by fs.remaining here inside
decreasing_by
  · exact remaining_of_child ‹_›
  · exact remaining_of_link ‹_› ‹_›

/-- The names from a path to the regular files at it or below it. -/
def files (fs : FileSystem) (path : Text) : List Location :=
  match fs.locate path with
  | .error _ => []
  | .ok start =>
    match fs.entry? start with
    | some (.file _) => [[]]
    | some .directory => fs.filesBelow path [] start []
    | _ => []

end BraceTemplate.FileSystem
