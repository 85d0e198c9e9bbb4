import BraceTemplate.Files.Lookup
import Mathlib.Data.List.Basic
import Mathlib.Data.List.Induction

/-!
# The steps of a path text

A name that is set below a path adds one step at its end, whether the path ends in a
slash or not, and leaves the place where it starts. The trail of an entry can therefore
be read off its path text, given the text that it starts from.
-/
namespace BraceTemplate

namespace Text

theorem pieces_of_slashless {t : Text} (h : '/' ∉ t) : pieces t = [t] := by
  induction t with
  | nil => rfl
  | cons c rest ih =>
    rw [List.mem_cons, not_or] at h
    rw [pieces, if_neg (Ne.symm h.1), ih h.2]

theorem pieces_ne_nil (t : Text) : pieces t ≠ [] := by
  cases t with
  | nil => exact List.cons_ne_nil _ _
  | cons c rest =>
    rw [pieces]
    split
    · exact List.cons_ne_nil _ _
    · split
      · exact List.cons_ne_nil _ _
      · exact List.cons_ne_nil _ _

theorem pieces_append_slash (t u : Text) : pieces (t ++ '/' :: u) = pieces t ++ pieces u := by
  induction t with
  | nil => rfl
  | cons c rest ih =>
    rw [List.cons_append, pieces, pieces, ih]
    split
    · rfl
    · cases h : pieces rest with
      | nil => exact absurd h (pieces_ne_nil rest)
      | cons piece more => rfl

theorem slashless_of_mem_pieces {t piece : Text} (h : piece ∈ pieces t) : '/' ∉ piece := by
  induction t generalizing piece with
  | nil =>
    rw [List.mem_singleton.mp h]
    exact List.not_mem_nil
  | cons c rest ih =>
    rw [pieces] at h
    split at h
    · rcases List.mem_cons.mp h with rfl | h
      · exact List.not_mem_nil
      · exact ih h
    · next other =>
      cases hrest : pieces rest with
      | nil => exact absurd hrest (pieces_ne_nil rest)
      | cons first more =>
        rw [hrest] at h ih
        rcases List.mem_cons.mp h with rfl | h
        · rw [List.mem_cons, not_or]
          exact ⟨Ne.symm other, ih List.mem_cons_self⟩
        · exact ih (List.mem_cons_of_mem first h)

/-- The name becomes the last piece; an empty piece at the end of the path gives way to it. -/
theorem pieces_below (path : Text) {name : Text} (h : '/' ∉ name) :
    ∃ front, pieces (below path name) = front ++ [name] ∧
      (pieces path = front ∨ pieces path = front ++ [[]]) := by
  by_cases empty : path = []
  · subst empty
    exact ⟨[], pieces_of_slashless h, Or.inr rfl⟩
  · by_cases slash : path.getLast? = some '/'
    · obtain ⟨front, rfl⟩ := List.getLast?_eq_some_iff.mp slash
      refine ⟨pieces front, ?_, Or.inr (pieces_append_slash front [])⟩
      rw [below, if_pos (Or.inr slash), List.append_assoc, List.singleton_append,
        pieces_append_slash, pieces_of_slashless h]
    · refine ⟨pieces path, ?_, Or.inl rfl⟩
      rw [below, if_neg (not_or.mpr ⟨empty, slash⟩), pieces_append_slash, pieces_of_slashless h]

theorem head?_below {path name : Text} (named : name ≠ []) (h : '/' ∉ name) :
    (below path name).head? = some '/' ↔ path.head? = some '/' := by
  cases path with
  | nil =>
    cases name with
    | nil => exact absurd rfl named
    | cons c rest =>
      have : c ≠ '/' := fun same => h (same ▸ List.mem_cons_self)
      simp [below, this]
  | cons c rest =>
    rw [below]
    split
    · rfl
    · rfl

end Text

namespace PathStep

@[simp] theorem ofPiece?_text (name : FileName) : ofPiece? name.text = some (.down name) := by
  have valid := name.valid
  rw [ofPiece?, if_neg valid.2.1, if_neg valid.2.2.1, dif_pos valid]

theorem text_of_ofPiece? {piece : Text} {name : FileName} (h : ofPiece? piece = some (.down name)) :
    name.text = piece := by
  unfold ofPiece? at h
  split at h
  · cases h
  · split at h
    · cases h
    · split at h
      · cases h
        rfl
      · cases h

@[simp] theorem ofPiece?_nil : ofPiece? [] = none := by decide

theorem filterMap_singleton (piece : Text) :
    [piece].filterMap ofPiece? = (ofPiece? piece).toList := by
  rw [List.filterMap_cons, List.filterMap_nil]
  cases ofPiece? piece with
  | none => rfl
  | some step => rfl

end PathStep

namespace Route

theorem isAbsolute_ofText (t : Text) : (ofText t).isAbsolute = decide (t.head? = some '/') := by
  cases t with
  | nil => rfl
  | cons c rest =>
    have some : 0 < (Text.pieces rest).length :=
      List.length_pos_iff.mpr (Text.pieces_ne_nil rest)
    rw [ofText, isAbsolute, Text.pieces]
    split
    · next slash => simp [slash, some]
    · next other =>
      cases h : Text.pieces rest with
      | nil => exact absurd h (Text.pieces_ne_nil rest)
      | cons piece more => simp [other]

theorem startFrom_below (path : Text) {name : Text} (named : name ≠ []) (h : '/' ∉ name)
    (home : Location) :
    (ofText (Text.below path name)).startFrom home = (ofText path).startFrom home := by
  rw [startFrom, startFrom, isAbsolute_ofText, isAbsolute_ofText,
    decide_eq_decide.mpr (Text.head?_below named h)]

theorem steps_below (path : Text) {name : Text} (h : '/' ∉ name) :
    (ofText (Text.below path name)).steps =
      (ofText path).steps ++ (PathStep.ofPiece? name).toList := by
  obtain ⟨front, below, before⟩ := Text.pieces_below path h
  have path_steps : (ofText path).steps = front.filterMap PathStep.ofPiece? := by
    rw [steps, ofText]
    rcases before with before | before
    · rw [before]
    · rw [before, List.filterMap_append, PathStep.filterMap_singleton, PathStep.ofPiece?_nil,
        Option.toList_none, List.append_nil]
  rw [path_steps, steps, ofText, below, List.filterMap_append, PathStep.filterMap_singleton]

theorem endsInSlash_below (path : Text) {name : Text} (named : name ≠ []) (h : '/' ∉ name) :
    (ofText (Text.below path name)).endsInSlash = false := by
  obtain ⟨front, below, -⟩ := Text.pieces_below path h
  rw [endsInSlash, ofText, below, List.getLast?_concat]
  simp [named]

theorem walk_below (path : Text) {name : Text} (named : name ≠ []) (h : '/' ∉ name) :
    (ofText (Text.below path name)).walk = (ofText (Text.below path name)).steps := by
  rw [walk, endsInSlash_below path named h]
  exact List.append_nil _

end Route

namespace Location

theorem pathFrom_concat (base : Text) (trail : Location) (name : FileName) :
    pathFrom base (trail ++ [name]) = Text.below (pathFrom base trail) name.text := by
  rw [pathFrom, List.foldl_append]
  rfl

theorem startFrom_pathFrom (base : Text) (trail home : Location) :
    (Route.ofText (pathFrom base trail)).startFrom home = (Route.ofText base).startFrom home := by
  induction trail using List.reverseRecOn with
  | nil => rfl
  | append_singleton trail name ih =>
    rw [pathFrom_concat, Route.startFrom_below _ name.valid.1 name.valid.2.2.2, ih]

theorem steps_pathFrom (base : Text) (trail : Location) :
    (Route.ofText (pathFrom base trail)).steps =
      (Route.ofText base).steps ++ trail.map PathStep.down := by
  induction trail using List.reverseRecOn with
  | nil => exact (List.append_nil _).symm
  | append_singleton trail name ih =>
    rw [pathFrom_concat, Route.steps_below _ name.valid.2.2.2, ih, PathStep.ofPiece?_text,
      Option.toList_some, List.map_append, List.map_singleton, List.append_assoc]

theorem pathFrom_injective (base : Text) : Function.Injective (pathFrom base) := by
  intro trail other same
  have steps : (Route.ofText base).steps ++ trail.map PathStep.down =
      (Route.ofText base).steps ++ other.map PathStep.down := by
    rw [← steps_pathFrom, same, steps_pathFrom]
  refine List.map_injective_iff.mpr ?_ (List.append_cancel_left steps)
  intro name name' h
  exact PathStep.down.inj h

end Location
end BraceTemplate
