import BraceTemplate.Files.Change
import BraceTemplate.Proofs.Paths

/-!
# File systems without links

Where no entry is a link, each step of a path leads to the place that its name says, and
looking a path up is a fold over its steps. A file system grows when its directories stay
and its files stay files; what could be found is then still found.
-/
namespace BraceTemplate.FileSystem

/-- No entry is a link. -/
def Plain (fs : FileSystem) : Prop := ∀ l target, fs.entry? l ≠ some (.link target)

theorem ext_entry? {fs fs' : FileSystem} (home : fs.home = fs'.home)
    (entries : ∀ l, fs.entry? l = fs'.entry? l) : fs = fs' := by
  obtain ⟨es, h, _, _, _⟩ := fs
  obtain ⟨es', h', _, _, _⟩ := fs'
  obtain rfl : es = es' := Std.ExtTreeMap.ext_getElem? entries
  obtain rfl : h = h' := home
  rfl

theorem directory_of_entry?_concat {fs : FileSystem} {dir : Location} {name : FileName}
    {e : Entry} (h : fs.entry? (dir ++ [name]) = some e) : fs.entry? dir = some .directory :=
  fs.parent_directory dir name e h

theorem directory_dropLast {fs : FileSystem} {l : Location} (h : fs.entry? l = some .directory) :
    fs.entry? l.dropLast = some .directory := by
  cases l using List.reverseRecOn with
  | nil => exact fs.root_directory
  | append_singleton dir name =>
    rw [List.dropLast_concat]
    exact directory_of_entry?_concat h

theorem directory_of_prefix {fs : FileSystem} {k l : Location}
    (dir : fs.entry? l = some .directory) (h : k <+: l) : fs.entry? k = some .directory := by
  induction l using List.reverseRecOn with
  | nil =>
    rw [List.prefix_nil.mp h]
    exact dir
  | append_singleton l name ih =>
    rcases List.prefix_concat_iff.mp h with rfl | h
    · exact dir
    · exact ih (directory_of_entry?_concat dir) h

/-- What has something below it is a directory. -/
theorem directory_of_entry?_append {fs : FileSystem} {l below : Location} {e : Entry}
    (filled : below ≠ []) (h : fs.entry? (l ++ below) = some e) :
    fs.entry? l = some .directory := by
  cases below using List.reverseRecOn with
  | nil => exact absurd rfl filled
  | append_singleton front name =>
    rw [← List.append_assoc] at h
    exact directory_of_prefix (directory_of_entry?_concat h) (List.prefix_append l front)

theorem directory_startFrom (fs : FileSystem) (r : Route) :
    fs.entry? (r.startFrom fs.home) = some .directory := by
  rw [Route.startFrom]
  split
  · exact fs.root_directory
  · exact fs.home_directory

section Put
variable {fs : FileSystem} {dir : Location} {name : FileName}
variable (inside : fs.entry? dir = some .directory)
variable (free : fs.entry? (dir ++ [name]) ≠ some .directory) (e : Entry)
include inside free

theorem entry?_put (l : Location) :
    entry? (fs.put dir name e) l = if l = dir ++ [name] then some e else fs.entry? l := by
  rw [put, dif_pos ⟨inside, free⟩, entry?, Std.ExtTreeMap.getElem?_insert]
  by_cases same : l = dir ++ [name]
  · rw [if_pos same, if_pos (same ▸ Std.ReflCmp.compare_self)]
  · rw [if_neg same, if_neg fun h => same (Std.LawfulEqCmp.eq_of_compare h).symm]
    rfl

theorem home_put : (fs.put dir name e).home = fs.home := by
  rw [put, dif_pos ⟨inside, free⟩]

end Put

/-- Where one step leads if no links are there. -/
def step? (fs : FileSystem) (here : Location) (s : PathStep) : Except Cause Location :=
  if fs.entry? here = some .directory then
    match s with
    | .stay => .ok here
    | .up => .ok here.dropLast
    | .down name =>
      if name.isTooLong then .error .nameTooLong
      else if (fs.entry? (here ++ [name])).isSome then .ok (here ++ [name])
      else .error .notFound
  else .error .notDirectory

/-- Where the steps lead if no links are there. -/
def look (fs : FileSystem) (here : Location) (steps : List PathStep) : Except Cause Location :=
  steps.foldlM fs.step? here

theorem look_append (fs : FileSystem) (here : Location) (steps more : List PathStep) :
    fs.look here (steps ++ more) = fs.look here steps >>= fun l => fs.look l more :=
  List.foldlM_append

theorem look_concat (fs : FileSystem) (here : Location) (steps : List PathStep) (s : PathStep) :
    fs.look here (steps ++ [s]) = fs.look here steps >>= fun l => fs.step? l s := by
  rw [look_append]
  simp only [look, List.foldlM_cons, List.foldlM_nil, bind_pure]

theorem look_concat_eq_ok {fs : FileSystem} {here l : Location} {steps : List PathStep}
    {s : PathStep} (h : fs.look here (steps ++ [s]) = .ok l) :
    ∃ k, fs.look here steps = .ok k ∧ fs.step? k s = .ok l := by
  rw [look_concat] at h
  cases before : fs.look here steps with
  | error cause =>
    rw [before] at h
    cases h
  | ok k =>
    rw [before] at h
    exact ⟨k, rfl, h⟩

/-- The place that steps lead to by their names alone. -/
def reach (here : Location) (steps : List PathStep) : Location :=
  steps.foldl (fun l s => match s with
    | .stay => l
    | .up => l.dropLast
    | .down name => l ++ [name]) here

theorem step?_eq_ok {fs : FileSystem} {here l : Location} {s : PathStep}
    (h : fs.step? here s = .ok l) : fs.entry? here = some .directory ∧ l = reach here [s] ∧
      (fs.entry? l).isSome := by
  unfold step? at h
  split at h
  · next dir =>
    refine ⟨dir, ?_⟩
    split at h
    · cases h
      exact ⟨rfl, by rw [dir]; rfl⟩
    · cases h
      exact ⟨rfl, by rw [directory_dropLast dir]; rfl⟩
    · split at h
      · cases h
      · split at h
        · next found =>
          cases h
          exact ⟨rfl, found⟩
        · cases h
  · cases h

theorem step?_down {fs : FileSystem} {here : Location} {name : FileName}
    (dir : fs.entry? here = some .directory) (short : name.isTooLong = false)
    (found : (fs.entry? (here ++ [name])).isSome) :
    fs.step? here (.down name) = .ok (here ++ [name]) := by
  rw [step?, if_pos dir, if_neg (by simp [short]), if_pos found]

theorem short_of_step? {fs : FileSystem} {here l : Location} {name : FileName}
    (h : fs.step? here (.down name) = .ok l) : name.isTooLong = false := by
  unfold step? at h
  split at h
  · simp only at h
    split at h
    · cases h
    · next short => exact eq_false_of_ne_true short
  · cases h

theorem reach_append (here : Location) (steps more : List PathStep) :
    reach here (steps ++ more) = reach (reach here steps) more := List.foldl_append

theorem reach_down (here trail : Location) : reach here (trail.map .down) = here ++ trail := by
  induction trail generalizing here with
  | nil => exact (List.append_nil here).symm
  | cons name trail ih =>
    change reach (here ++ [name]) (trail.map .down) = _
    rw [ih, List.append_assoc, List.singleton_append]

theorem look_eq_ok {fs : FileSystem} {here l : Location} {steps : List PathStep}
    (start : fs.entry? here = some .directory) (h : fs.look here steps = .ok l) :
    l = reach here steps ∧ (fs.entry? l).isSome := by
  induction steps using List.reverseRecOn generalizing l with
  | nil =>
    cases h
    exact ⟨rfl, by rw [start]; rfl⟩
  | append_singleton steps s ih =>
    obtain ⟨k, before, after⟩ := look_concat_eq_ok h
    obtain ⟨rfl, -⟩ := ih before
    obtain ⟨-, last, found⟩ := step?_eq_ok after
    exact ⟨last.trans (reach_append here steps [s]).symm, found⟩

theorem descend_eq_look {fs : FileSystem} (plain : fs.Plain) (links : Nat)
    (jump : Location → Text → List PathStep → Except Cause (Location × Nat)) (here : Location)
    (steps : List PathStep) :
    fs.descend links jump here steps = (fs.look here steps).map fun l => (l, links) := by
  induction steps generalizing here with
  | nil => rfl
  | cons s rest ih =>
    have split : fs.look here (s :: rest) = fs.step? here s >>= fun l => fs.look l rest := rfl
    rw [split]
    unfold descend step?
    by_cases dir : fs.entry? here = some .directory
    · rw [if_pos dir, if_pos dir]
      cases s with
      | stay => exact ih here
      | up => exact ih here.dropLast
      | down name =>
        simp only
        by_cases long : name.isTooLong
        · rw [if_pos long, if_pos long]
          rfl
        · rw [if_neg long, if_neg long]
          cases found : fs.entry? (here ++ [name]) with
          | none => rfl
          | some e =>
            cases e with
            | directory => exact ih (here ++ [name])
            | file bytes => exact ih (here ++ [name])
            | link target => exact absurd found (plain _ _)
    · rw [if_neg dir, if_neg dir]
      rfl

theorem follow_eq_look {fs : FileSystem} (plain : fs.Plain) (links : Nat) (here : Location)
    (steps : List PathStep) :
    fs.follow links here steps = (fs.look here steps).map fun l => (l, links) := by
  cases links with
  | zero => exact descend_eq_look plain 0 _ here steps
  | succ left => exact descend_eq_look plain (left + 1) _ here steps

theorem locateRoute_eq_look {fs : FileSystem} (plain : fs.Plain) {r : Route}
    (accepted : r.refusal? = none) :
    fs.locateRoute r = fs.look (r.startFrom fs.home) r.walk := by
  rw [locateRoute, accepted]
  simp only [follow_eq_look plain]
  cases fs.look (r.startFrom fs.home) r.walk with
  | error cause => rfl
  | ok l => rfl

theorem locateRoute_eq_ok {fs : FileSystem} (plain : fs.Plain) {r : Route} {l : Location} :
    fs.locateRoute r = .ok l ↔
      r.refusal? = none ∧ fs.look (r.startFrom fs.home) r.walk = .ok l := by
  cases refused : r.refusal? with
  | none => simp [locateRoute_eq_look plain refused]
  | some cause => simp [locateRoute, refused]

/-- The place that a path names by itself, whether or not something is there. -/
def place (fs : FileSystem) (path : Text) : Location :=
  reach ((Route.ofText path).startFrom fs.home) (Route.ofText path).steps

theorem place_pathFrom (fs : FileSystem) (path : Text) (trail : Location) :
    fs.place (Location.pathFrom path trail) = fs.place path ++ trail := by
  rw [place, Location.startFrom_pathFrom, Location.steps_pathFrom, reach_append, reach_down]
  rfl

theorem look_steps_of_locate {fs : FileSystem} (plain : fs.Plain) {path : Text} {l : Location}
    (h : fs.locate path = .ok l) :
    fs.look ((Route.ofText path).startFrom fs.home) (Route.ofText path).steps = .ok l := by
  obtain ⟨-, found⟩ := (locateRoute_eq_ok plain).mp h
  rw [Route.walk] at found
  split at found
  · obtain ⟨k, before, last⟩ := look_concat_eq_ok found
    obtain ⟨-, rfl, -⟩ := step?_eq_ok last
    exact before
  · rwa [List.append_nil] at found

theorem locate_eq_place {fs : FileSystem} (plain : fs.Plain) {path : Text} {l : Location}
    (h : fs.locate path = .ok l) : l = fs.place path :=
  (look_eq_ok (fs.directory_startFrom _) (look_steps_of_locate plain h)).1

/-- The file system with a directory, or a file with these octets, at the place of the path. -/
def plant (fs : FileSystem) (path : Text) (bytes? : Option ByteArray) : FileSystem :=
  match (fs.place path).getLast? with
  | some name => fs.put (fs.place path).dropLast name (bytes?.elim .directory .file)
  | none => fs

/-- The name of the home that trees are planted in. -/
def homeName : FileName := ⟨"home".toList, by decide⟩

/-- A home with what is planted in it, one after the other. -/
def planted (plants : List (Text × Option ByteArray)) : FileSystem :=
  plants.foldl (fun fs p => fs.plant p.1 p.2) (withHome homeName)

theorem Plain.put {fs : FileSystem} (plain : fs.Plain) (dir : Location) (name : FileName)
    {e : Entry} (noLink : ∀ target, e ≠ .link target) : (fs.put dir name e).Plain := by
  intro l target
  by_cases fits : fs.entry? dir = some .directory ∧ fs.entry? (dir ++ [name]) ≠ some .directory
  · rw [entry?_put fits.1 fits.2]
    split
    · exact fun same => noLink target (Option.some.inj same)
    · exact plain l target
  · rw [FileSystem.put, dif_neg fits]
    exact plain l target

theorem plain_withHome (home : FileName) : (withHome home).Plain := by
  have bare : bare.Plain := by
    intro l target found
    rw [ entry?, bare, Std.ExtTreeMap.getElem?_insert] at found
    split at found
    · cases found
    · simp at found
  exact bare.put [] home nofun

theorem plain_planted (plants : List (Text × Option ByteArray)) : (planted plants).Plain := by
  induction plants using List.reverseRecOn with
  | nil => exact plain_withHome homeName
  | append_singleton plants p ih =>
    rw [planted, List.foldl_append]
    change (plant (planted plants) p.1 p.2).Plain
    rw [plant]
    split
    · refine ih.put _ _ fun target => ?_
      cases p.2 with
      | none => exact nofun
      | some bytes => exact nofun
    · exact ih

/-- Something stands here that is no directory. -/
def blocks (fs : FileSystem) (l : Location) : Bool :=
  match fs.entry? l with
  | none => false
  | some .directory => false
  | some _ => true

theorem blocks_eq_false {fs : FileSystem} {l : Location} :
    fs.blocks l = false ↔ fs.entry? l = none ∨ fs.entry? l = some .directory := by
  rw [blocks]
  cases fs.entry? l with
  | none => simp
  | some e =>
    cases e with
    | directory => simp
    | file bytes => simp
    | link target => simp

theorem blocks_eq_true {fs : FileSystem} {l : Location} :
    fs.blocks l = true ↔ (fs.entry? l).isSome ∧ fs.entry? l ≠ some .directory := by
  rw [← Bool.not_eq_false, blocks_eq_false, not_or, Option.isSome_iff_ne_none]

theorem blocks_of_file {fs : FileSystem} {l : Location} {bytes : ByteArray}
    (h : fs.entry? l = some (.file bytes)) : fs.blocks l = true := by
  rw [blocks, h]

/-- Directories stay, and what is no directory does not become one. -/
structure Grows (fs fs' : FileSystem) : Prop where
  home : fs'.home = fs.home
  directory : ∀ l, fs.entry? l = some .directory → fs'.entry? l = some .directory
  blocks : ∀ l, fs.blocks l = true → fs'.blocks l = true

namespace Grows
variable {fs fs' fs'' : FileSystem}

theorem refl (fs : FileSystem) : fs.Grows fs := ⟨rfl, fun _ h => h, fun _ h => h⟩

theorem trans (h : fs.Grows fs') (h' : fs'.Grows fs'') : fs.Grows fs'' where
  home := h'.home.trans h.home
  directory := fun l dir => h'.directory l (h.directory l dir)
  blocks := fun l block => h'.blocks l (h.blocks l block)

theorem isSome (grows : fs.Grows fs') {l : Location} (h : (fs.entry? l).isSome) :
    (fs'.entry? l).isSome := by
  cases block : fs.blocks l with
  | true => exact (blocks_eq_true.mp (grows.blocks l block)).1
  | false =>
    rcases blocks_eq_false.mp block with missing | dir
    · rw [missing] at h
      cases h
    · rw [grows.directory l dir]
      rfl

theorem step? (grows : fs.Grows fs') {here l : Location} {s : PathStep}
    (h : fs.step? here s = .ok l) : fs'.step? here s = .ok l := by
  unfold FileSystem.step? at h ⊢
  split at h
  · next dir =>
    rw [if_pos (grows.directory here dir)]
    cases s with
    | stay => exact h
    | up => exact h
    | down name =>
      simp only at h ⊢
      split at h
      · cases h
      · next short =>
        rw [if_neg short]
        split at h
        · next found =>
          rw [if_pos (grows.isSome found)]
          exact h
        · cases h
  · cases h

theorem look (grows : fs.Grows fs') {here l : Location} {steps : List PathStep}
    (h : fs.look here steps = .ok l) : fs'.look here steps = .ok l := by
  induction steps using List.reverseRecOn generalizing l with
  | nil => exact h
  | append_singleton steps s ih =>
    obtain ⟨k, before, after⟩ := look_concat_eq_ok h
    rw [look_concat, ih before]
    exact grows.step? after

theorem locate (grows : fs.Grows fs') (plain : fs.Plain) (plain' : fs'.Plain) {path : Text}
    {l : Location} (h : fs.locate path = .ok l) : fs'.locate path = .ok l := by
  obtain ⟨accepted, found⟩ := (locateRoute_eq_ok plain).mp h
  refine (locateRoute_eq_ok plain').mpr ⟨accepted, ?_⟩
  rw [grows.home]
  exact grows.look found

end Grows
end BraceTemplate.FileSystem
