import BraceTemplate.Proofs.Survey

/-!
# Making directories does what the survey says

In a file system without links, making a directory with all that it lies in makes the
places that the survey of its way passes, changes nothing else, and ends with the
survey's verdict. The recursion tries the whole path first and shortens it while
something is missing; the induction is on the pieces of the path, last piece first.
-/
namespace BraceTemplate

namespace Survey

def verdict (v : Survey) : Except Cause Unit :=
  match v.cause with
  | none => .ok ()
  | some cause => .error cause

theorem verdict_of_cause {v : Survey} {cause : Cause} (h : v.cause = some cause) :
    v.verdict = .error cause := by
  rw [verdict, h]

theorem verdict_of_clear {v : Survey} (h : v.cause = none) : v.verdict = .ok () := by
  rw [verdict, h]

/-- The places passed are directories now, and everything else is as it was. -/
structure Laid (v : Survey) (fs fs' : FileSystem) : Prop where
  home : fs'.home = fs.home
  made : ∀ l ∈ v.passed, fs'.entry? l = some .directory
  kept : ∀ l, l ∉ v.passed → fs'.entry? l = fs.entry? l

namespace Laid
variable {fs fs' : FileSystem} {v : Survey}

theorem grows (laid : v.Laid fs fs') (sound : v.Sound fs) : fs.Grows fs' where
  home := laid.home
  directory := fun l dir => by
    by_cases listed : l ∈ v.passed
    · exact laid.made l listed
    · exact (laid.kept l listed).trans dir
  blocks := fun l block => by
    by_cases listed : l ∈ v.passed
    · rw [sound.free l listed l (List.prefix_refl l)] at block
      cases block
    · rwa [FileSystem.blocks, laid.kept l listed]

theorem plain (laid : v.Laid fs fs') (plain : fs.Plain) : fs'.Plain := by
  intro l target found
  by_cases listed : l ∈ v.passed
  · cases (laid.made l listed).symm.trans found
  · exact plain l target ((laid.kept l listed).symm.trans found)

theorem trans {fs'' : FileSystem} {w w' : Survey} (laid : v.Laid fs fs') (laid' : w'.Laid fs' fs'')
    (passed : w'.passed = w.passed) (more : v.passed ⊆ w.passed) : w.Laid fs fs'' where
  home := laid'.home.trans laid.home
  made := fun l listed => laid'.made l (passed ▸ listed)
  kept := fun l absent =>
    (laid'.kept l (passed ▸ absent)).trans (laid.kept l fun listed => absent (more listed))

end Laid

/-- Nothing is made if nothing is missing. -/
theorem laid_of_there {fs : FileSystem} {v : Survey} (sound : v.Sound fs) (there : v.made = false) :
    v.Laid fs fs :=
  ⟨rfl, sound.unmade.mp there, fun _ _ => rfl⟩

end Survey

namespace FileSystem
variable {fs : FileSystem}

section Ensure
variable (plain : fs.Plain) {r : Route} (accepted : r.refusal? = none)
variable (noSlash : r.endsInSlash = false) {way : List PathStep} {s : PathStep}
variable (steps : r.steps = way ++ [s])
include plain accepted steps

theorem newPlace_eq : fs.newPlace r = fs.look (r.startFrom fs.home) way >>= fun dir =>
    if fs.entry? dir = some .directory then
      match s with
      | .down name =>
        if name.isTooLong then .error .nameTooLong
        else if (fs.entry? (dir ++ [name])).isSome then .error .alreadyExists
        else .ok (dir, name)
      | _ => .error .alreadyExists
    else .error .notDirectory := by
  rw [newPlace, accepted]
  simp only [follow_eq_look plain, steps, List.dropLast_concat, List.getLast?_concat]
  cases fs.look (r.startFrom fs.home) way with
  | error cause => rfl
  | ok dir =>
    cases s with
    | stay => rfl
    | up => rfl
    | down name => rfl

include noSlash

theorem locateRoute_eq : fs.locateRoute r =
    fs.look (r.startFrom fs.home) way >>= fun dir => fs.step? dir s := by
  rw [locateRoute_eq_look plain accepted, Route.walk, noSlash, steps]
  simp only [Bool.false_eq_true, if_false, List.append_nil]
  exact look_concat _ _ _ _

theorem ensureDirectory_of_error {cause : Cause}
    (h : fs.look (r.startFrom fs.home) way = .error cause) :
    fs.ensureDirectory r = .error cause := by
  have place : fs.makeDirectory r = .error cause := by
    rw [makeDirectory, newPlace_eq plain accepted steps, h]
    rfl
  have absent : fs.isDirectoryRoute r = false := by
    rw [isDirectoryRoute, locateRoute_eq plain accepted noSlash steps, h]
    rfl
  simp [ensureDirectory, place, absent]

theorem ensureDirectory_of_file {l : Location} (h : fs.look (r.startFrom fs.home) way = .ok l)
    (block : fs.entry? l ≠ some .directory) : fs.ensureDirectory r = .error .notDirectory := by
  have place : fs.makeDirectory r = .error .notDirectory := by
    rw [makeDirectory, newPlace_eq plain accepted steps, h]
    simp [bind, Except.bind, block]
  have absent : fs.isDirectoryRoute r = false := by
    rw [isDirectoryRoute, locateRoute_eq plain accepted noSlash steps, h]
    simp [bind, Except.bind, step?, block]
  simp [ensureDirectory, place, absent]

/-- With all directories of the way there, the last one is found or made, or it stops the way. -/
theorem ensureDirectory_of_clear {v w : Survey} (move : v.Moves fs s w) (sound : v.Sound fs)
    (moving : s ≠ .stay) (there : v.made = false) (clear : v.cause = none)
    (h : fs.look (r.startFrom fs.home) way = .ok v.here) :
    (∃ cause, w.cause = some cause ∧ cause ≠ .notFound ∧ fs.ensureDirectory r = .error cause ∧
      w.Laid fs fs) ∨
    w.cause = none ∧ ∃ fs', fs.ensureDirectory r = .ok fs' ∧ w.Laid fs fs' := by
  have dir := sound.unmade.mp there v.here sound.here
  have place := newPlace_eq plain accepted steps
  have found := locateRoute_eq plain accepted noSlash steps
  have sound' := move.sound sound
  rw [h] at place found
  simp only [bind, Except.bind, dir, if_true, step?] at place found
  cases move with
  | stay => exact absurd rfl moving
  | halt _ stuck => exact absurd clear stuck
  | up =>
    right
    refine ⟨clear, fs, ?_, Survey.laid_of_there sound' there⟩
    simp [ensureDirectory, makeDirectory, place, isDirectoryRoute, found, bind, Except.bind,
      directory_dropLast dir]
  | long _ long =>
    left
    refine ⟨.nameTooLong, rfl, by simp, ?_, Survey.laid_of_there sound' there⟩
    simp only [long, if_true] at place found
    simp [ensureDirectory, makeDirectory, place, isDirectoryRoute, found, bind, Except.bind]
  | @block name _ short block =>
    left
    refine ⟨.alreadyExists, rfl, by simp, ?_, Survey.laid_of_there sound' there⟩
    obtain ⟨some, other⟩ := blocks_eq_true.mp block
    simp only [short, some, Bool.false_eq_true, if_true, if_false] at place found
    simp [ensureDirectory, makeDirectory, place, isDirectoryRoute, found, bind, Except.bind, other]
  | @down name _ short free =>
    right
    refine ⟨rfl, ?_⟩
    rcases blocks_eq_false.mp free with missing | old
    · simp only [short, missing, Option.isSome_none, Bool.false_eq_true, if_false] at place
      refine ⟨fs.put v.here name .directory, ?_, ?_⟩
      · simp [ensureDirectory, makeDirectory, place, bind, Except.bind, pure, Except.pure]
      · have new : fs.entry? (v.here ++ [name]) ≠ some .directory := by simp [missing]
        refine ⟨home_put dir new _, ?_, ?_⟩
        · intro l listed
          rw [entry?_put dir new]
          rcases List.mem_cons.mp listed with rfl | listed
          · rw [if_pos rfl]
          · split
            · rfl
            · exact sound.unmade.mp there l listed
        · intro l absent
          rw [entry?_put dir new, if_neg]
          rintro rfl
          exact absent List.mem_cons_self
    · simp only [short, old, Option.isSome_some, Bool.false_eq_true, if_true,
        if_false] at place found
      refine ⟨fs, ?_, Survey.laid_of_there sound' (by simp [there, old])⟩
      simp [ensureDirectory, makeDirectory, place, isDirectoryRoute, found, bind, Except.bind, old]

/-- A path with no directory missing before its last piece is settled in one attempt. -/
theorem ensureDirectory_of_there (moving : s ≠ .stay)
    (there : (fs.survey (r.startFrom fs.home) way).made = false) :
    (∃ cause, (fs.survey (r.startFrom fs.home) (way ++ [s])).cause = some cause ∧
      cause ≠ .notFound ∧ fs.ensureDirectory r = .error cause ∧
      (fs.survey (r.startFrom fs.home) (way ++ [s])).Laid fs fs) ∨
    (fs.survey (r.startFrom fs.home) (way ++ [s])).cause = none ∧
      ∃ fs', fs.ensureDirectory r = .ok fs' ∧
        (fs.survey (r.startFrom fs.home) (way ++ [s])).Laid fs fs' := by
  have sound := sound_survey (fs.directory_startFrom r) way
  have sees := sees_survey (fs.directory_startFrom r) way
  have move := fs.moves_survey (r.startFrom fs.home) way s
  have stopped {cause : Cause} (stuck : (fs.survey (r.startFrom fs.home) way).cause ≠ none)
      (other : cause ≠ .notFound)
      (halted : (fs.survey (r.startFrom fs.home) way).halt.cause = some cause)
      (refused : fs.ensureDirectory r = .error cause) :
      ∃ cause, (fs.survey (r.startFrom fs.home) (way ++ [s])).cause = some cause ∧
        cause ≠ .notFound ∧ fs.ensureDirectory r = .error cause ∧
        (fs.survey (r.startFrom fs.home) (way ++ [s])).Laid fs fs := by
    have halt := survey_concat fs (r.startFrom fs.home) way s
    rw [Survey.next_of_stuck moving stuck] at halt
    refine ⟨cause, halt ▸ halted, other, refused, ?_⟩
    exact Survey.laid_of_there (move.sound sound) (by rw [halt, Survey.made_halt, there])
  generalize found : fs.look (r.startFrom fs.home) way = result at sees
  cases sees with
  | missing made =>
    rw [made] at there
    cases there
  | clear _ clear =>
    exact ensureDirectory_of_clear plain accepted noSlash steps move sound moving there clear found
  | atFile _ file block =>
    exact Or.inl (stopped (by simp [file]) (by simp)
      (Survey.cause_halt_of_file there (Or.inl file))
      (ensureDirectory_of_file plain accepted noSlash steps found block))
  | throughFile _ file =>
    exact Or.inl (stopped (by rcases file with file | file <;> simp [file]) (by simp)
      (Survey.cause_halt_of_file there file)
      (ensureDirectory_of_error plain accepted noSlash steps found))
  | longName _ long =>
    exact Or.inl (stopped (by simp [long]) (by simp)
      (by rw [Survey.halt_of_cause (by simp [long]), long])
      (ensureDirectory_of_error plain accepted noSlash steps found))

theorem ensureDirectory_of_missing (made : (fs.survey (r.startFrom fs.home) way).made = true) :
    fs.ensureDirectory r = .error .notFound := by
  have sees := sees_survey (fs.directory_startFrom r) way
  apply ensureDirectory_of_error plain accepted noSlash steps
  generalize fs.look (r.startFrom fs.home) way = result at sees
  cases sees with
  | missing => rfl
  | clear there => simp [there] at made
  | atFile there => simp [there] at made
  | throughFile there => simp [there] at made
  | longName there => simp [there] at made

/-- A path whose directories have just been made before its last piece is settled by the second
attempt. -/
theorem ensureDirectory_of_laid (moving : s ≠ .stay) {fs₁ : FileSystem}
    (clear : (fs.survey (r.startFrom fs.home) way).cause = none)
    (laid : (fs.survey (r.startFrom fs.home) way).Laid fs fs₁) :
    (∃ cause, (fs.survey (r.startFrom fs.home) (way ++ [s])).cause = some cause ∧
      fs₁.ensureDirectory r = .error cause ∧
      (fs.survey (r.startFrom fs.home) (way ++ [s])).Laid fs fs₁) ∨
    (fs.survey (r.startFrom fs.home) (way ++ [s])).cause = none ∧
      ∃ fs₂, fs₁.ensureDirectory r = .ok fs₂ ∧
        (fs.survey (r.startFrom fs.home) (way ++ [s])).Laid fs fs₂ := by
  have dir := fs.directory_startFrom r
  have sound := sound_survey dir way
  have move := fs.moves_survey (r.startFrom fs.home) way s
  have grows := laid.grows sound
  have same := matches_survey_of_passed grows laid.made
  have same' : (fs.survey (r.startFrom fs.home) (way ++ [s])).Matches
      (fs₁.survey (r.startFrom fs.home) (way ++ [s])) := by
    apply matches_survey grows
    intro l listed
    by_cases old : l ∈ (fs.survey (r.startFrom fs.home) way).passed
    · exact blocks_eq_false.mpr (Or.inr (laid.made l old))
    · rw [blocks, laid.kept l old]
      exact (sound_survey dir (way ++ [s])).free l listed l (List.prefix_refl l)
  have cause : (fs₁.survey (r.startFrom fs.home) (way ++ [s])).cause =
      (fs.survey (r.startFrom fs.home) (way ++ [s])).cause := by
    rcases same'.cause with cause | ⟨-, -, through⟩
    · exact cause
    · exact absurd through
        ((fs₁.moves_survey _ way s).cause_ne_notDirectory (same.clear_iff.mpr clear))
  have there : (fs₁.survey (r.startFrom fs₁.home) way).made = false := by
    rw [laid.home]
    exact made_survey_of_passed grows laid.made dir
  have settled := ensureDirectory_of_there (laid.plain plain) accepted noSlash steps moving there
  rw [laid.home, cause] at settled
  rcases settled with ⟨c, stuck, -, refused, laid'⟩ | ⟨free, fs₂, found, laid'⟩
  · exact Or.inl ⟨c, stuck, refused, laid.trans laid' same'.passed move.passed_subset⟩
  · exact Or.inr ⟨free, fs₂, found, laid.trans laid' same'.passed move.passed_subset⟩

end Ensure

end FileSystem

namespace PathStep

theorem ofPiece?_of_idle {piece : Text} (idle : Route.isIdle piece = true) :
    ofPiece? piece = none ∨ ofPiece? piece = some .stay := by
  rcases Bool.or_eq_true_iff.mp idle with h | h
  · rw [of_decide_eq_true h]
    exact Or.inl ofPiece?_nil
  · rw [of_decide_eq_true h]
    exact Or.inr rfl

theorem exists_ofPiece? {piece : Text} (leads : Route.isIdle piece = false)
    (slashless : '/' ∉ piece) : ∃ s, ofPiece? piece = some s ∧ s ≠ .stay := by
  obtain ⟨some, other⟩ := Bool.or_eq_false_iff.mp leads
  have some := of_decide_eq_false some
  have other := of_decide_eq_false other
  by_cases up : piece = ['.', '.']
  · exact ⟨.up, by rw [ofPiece?, if_neg other, if_pos up], by simp⟩
  · have name : IsFileName piece := ⟨some, other, up, slashless⟩
    exact ⟨.down ⟨piece, name⟩, by rw [ofPiece?, if_neg other, if_neg up, dif_pos name], by simp⟩

end PathStep

/-- The paths along a way, each up to a piece that leads on, are accepted and start from one
place. The pieces stand in reverse. -/
structure Charted (home here : Location) (pieces : List Text) : Prop where
  slashless : ∀ piece ∈ pieces, '/' ∉ piece
  accepted : ∀ piece before, (piece :: before) <:+ pieces → Route.isIdle piece = false →
    (⟨(piece :: before).reverse⟩ : Route).refusal? = none
  starts : ∀ piece before, (piece :: before) <:+ pieces → Route.isIdle piece = false →
    (⟨(piece :: before).reverse⟩ : Route).startFrom home = here

theorem Charted.tail {home here : Location} {piece : Text} {before : List Text}
    (charted : Charted home here (piece :: before)) : Charted home here before where
  slashless := fun p listed => charted.slashless p (List.mem_cons_of_mem piece listed)
  accepted := fun p front h =>
    charted.accepted p front (h.trans (List.suffix_cons piece before))
  starts := fun p front h => charted.starts p front (h.trans (List.suffix_cons piece before))

theorem Route.steps_reverse_cons (piece : Text) (before : List Text) :
    (⟨(piece :: before).reverse⟩ : Route).steps =
      (⟨before.reverse⟩ : Route).steps ++ (PathStep.ofPiece? piece).toList := by
  rw [steps, List.reverse_cons, List.filterMap_append, PathStep.filterMap_singleton]
  rfl

theorem Route.endsInSlash_reverse_cons {piece : Text} (leads : isIdle piece = false)
    (before : List Text) : (⟨(piece :: before).reverse⟩ : Route).endsInSlash = false := by
  have filled : piece ≠ [] := of_decide_eq_false (Bool.or_eq_false_iff.mp leads).1
  rw [endsInSlash, List.reverse_cons, List.getLast?_concat]
  simp [filled]

namespace FileSystem
variable {fs : FileSystem}

theorem laid_makeDirectories (plain : fs.Plain) {here : Location}
    (dir : fs.entry? here = some .directory) {pieces : List Text}
    (charted : Charted fs.home here pieces) :
    ∃ fs', makeDirectories pieces fs =
        ((fs.survey here (⟨pieces.reverse⟩ : Route).steps).verdict, fs') ∧
      (fs.survey here (⟨pieces.reverse⟩ : Route).steps).Laid fs fs' := by
  induction pieces with
  | nil => exact ⟨fs, rfl, Survey.laid_of_there (Survey.sound_start dir) rfl⟩
  | cons piece before ih =>
    obtain ⟨fs₁, done, laid⟩ := ih charted.tail
    rw [Route.steps_reverse_cons, makeDirectories]
    cases leads : Route.isIdle piece with
    | true =>
      rw [if_pos rfl, done]
      rcases PathStep.ofPiece?_of_idle leads with none | stay
      · rw [none, Option.toList_none, List.append_nil]
        exact ⟨fs₁, rfl, laid⟩
      · rw [stay, Option.toList_some, survey_concat]
        exact ⟨fs₁, rfl, laid⟩
    | false =>
      obtain ⟨s, reads, moving⟩ :=
        PathStep.exists_ofPiece? leads (charted.slashless piece List.mem_cons_self)
      have steps := Route.steps_reverse_cons piece before
      rw [reads, Option.toList_some] at steps
      have accepted := charted.accepted piece before (List.suffix_refl _) leads
      have starts := charted.starts piece before (List.suffix_refl _) leads
      have noSlash := Route.endsInSlash_reverse_cons leads before
      rw [if_neg Bool.false_ne_true, reads, Option.toList_some]
      generalize (⟨before.reverse⟩ : Route).steps = way at done laid steps ⊢
      generalize (⟨(piece :: before).reverse⟩ : Route) = r at steps accepted starts noSlash ⊢
      subst starts
      cases made : (fs.survey (r.startFrom fs.home) way).made with
      | false =>
        rcases ensureDirectory_of_there plain accepted noSlash steps moving made with
          ⟨cause, stuck, other, refused, laid'⟩ | ⟨free, fs', found, laid'⟩
        · refine ⟨fs, ?_, laid'⟩
          rw [Survey.verdict_of_cause stuck, refused]
          cases cause with
          | notFound => exact absurd rfl other
          | _ => rfl
        · exact ⟨fs', by rw [Survey.verdict_of_clear free, found], laid'⟩
      | true =>
        rw [ensureDirectory_of_missing plain accepted noSlash steps made]
        cases clear : (fs.survey (r.startFrom fs.home) way).cause with
        | some cause =>
          have halted := survey_concat fs (r.startFrom fs.home) way s
          rw [Survey.next_of_stuck moving (by simp [clear]), Survey.halt_of_made made] at halted
          simp only [done, halted, Survey.verdict_of_cause clear]
          exact ⟨fs₁, rfl, laid⟩
        | none =>
          simp only [done, Survey.verdict_of_clear clear]
          rcases ensureDirectory_of_laid plain accepted noSlash steps moving clear laid with
            ⟨cause, stuck, refused, laid'⟩ | ⟨free, fs₂, found, laid'⟩
          · exact ⟨fs₁, by rw [refused, Survey.verdict_of_cause stuck], laid'⟩
          · exact ⟨fs₂, by rw [found, Survey.verdict_of_clear free], laid'⟩

theorem makeDirectories_dropWhile (pieces : List Text) (fs : FileSystem) :
    makeDirectories (pieces.dropWhile Route.isIdle) fs = makeDirectories pieces fs := by
  induction pieces with
  | nil => rfl
  | cons piece before ih =>
    cases leads : Route.isIdle piece with
    | true => rw [List.dropWhile_cons_of_pos leads, ih, makeDirectories, if_pos leads]
    | false => rw [List.dropWhile_cons_of_neg (by simp [leads])]

end FileSystem

namespace Route

theorem refusal?_eq_none {r : Route} : r.refusal? = none ↔
    (∀ piece ∈ r.pieces, '\x00' ∉ piece) ∧ r.octets ≠ 0 ∧ r.octets < octetLimit := by
  rw [refusal?]
  split
  · next nul => simpa using fun clean => absurd nul (by simpa using clean)
  · next clean =>
    have clean : ∀ piece ∈ r.pieces, '\x00' ∉ piece := by simpa using clean
    split
    · next zero => simp [zero]
    · next more =>
      split
      · next long => simp [Nat.not_lt.mpr long]
      · next short => simpa using ⟨clean, more, Nat.not_le.mp short⟩

theorem octets_pos {piece : Text} (filled : piece ≠ []) {pieces : List Text}
    (listed : piece ∈ pieces) : 0 < octets ⟨pieces⟩ := by
  have size : 0 < piece.octets := by
    cases piece with
    | nil => exact absurd rfl filled
    | cons c rest => exact Nat.add_pos_left c.utf8Size_pos _
  have sum : 0 < pieces.foldr (fun piece n => piece.octets + n) 0 := by
    induction pieces with
    | nil => cases listed
    | cons first rest ih =>
      rw [List.foldr_cons]
      rcases List.mem_cons.mp listed with rfl | listed
      · exact Nat.add_pos_left size _
      · exact Nat.add_pos_right _ (ih listed)
  exact Nat.add_pos_left sum _

theorem refusal?_ne_notFound {piece : Text} (filled : piece ≠ []) {pieces : List Text}
    (listed : piece ∈ pieces) : (⟨pieces⟩ : Route).refusal? ≠ some .notFound := by
  have more := Nat.ne_of_gt (octets_pos filled listed)
  rw [refusal?, if_neg more]
  split
  · simp
  · split
    · simp
    · simp

theorem octets_le_append (pieces more : List Text) : octets ⟨pieces⟩ ≤ octets ⟨pieces ++ more⟩ := by
  have sum : pieces.foldr (fun piece n => piece.octets + n) 0 ≤
      (pieces ++ more).foldr (fun piece n => piece.octets + n) 0 := by
    induction pieces with
    | nil => exact Nat.zero_le _
    | cons first rest ih => exact Nat.add_le_add_left ih _
  simp only [octets, List.length_append]
  omega

theorem refusal?_of_prefix {pieces more : List Text} {piece : Text} (filled : piece ≠ [])
    (listed : piece ∈ pieces) (accepted : (⟨pieces ++ more⟩ : Route).refusal? = none) :
    (⟨pieces⟩ : Route).refusal? = none := by
  obtain ⟨clean, -, short⟩ := refusal?_eq_none.mp accepted
  refine refusal?_eq_none.mpr ⟨fun p h => clean p (List.mem_append_left more h), ?_, ?_⟩
  · exact Nat.ne_of_gt (octets_pos filled listed)
  · exact Nat.lt_of_le_of_lt (octets_le_append pieces more) short

theorem isAbsolute_of_prefix {front more : List Text} {piece : Text} (filled : piece ≠ []) :
    (⟨front ++ [piece]⟩ : Route).isAbsolute = (⟨front ++ [piece] ++ more⟩ : Route).isAbsolute := by
  cases front with
  | nil => simp [isAbsolute, filled]
  | cons first rest =>
    have longer : 1 < rest.length + (more.length + 2) := by omega
    simp [isAbsolute, Nat.add_assoc, longer]

/-- Why a path cannot be made a directory; its pieces that lead nowhere at the end do not count. -/
def wayRefusal? (path : Text) : Option Cause :=
  match (Text.pieces path).reverse.dropWhile isIdle with
  | [] => none
  | piece :: before => refusal? ⟨(piece :: before).reverse⟩

theorem suffix_dropWhile_isIdle {piece : Text} {before pieces : List Text}
    (h : (piece :: before) <:+ pieces) (leads : isIdle piece = false) :
    (piece :: before) <:+ pieces.dropWhile isIdle := by
  induction pieces with
  | nil => exact h
  | cons first rest ih =>
    rcases List.suffix_cons_iff.mp h with same | h
    · obtain ⟨rfl, rfl⟩ := List.cons.inj same
      have kept : (piece :: before).dropWhile isIdle = piece :: before :=
        List.dropWhile_cons_of_neg (by simp [leads])
      exact kept.symm ▸ List.suffix_refl _
    · cases idle : isIdle first with
      | true =>
        rw [List.dropWhile_cons_of_pos idle]
        exact ih h
      | false =>
        rw [List.dropWhile_cons_of_neg (by simp [idle])]
        exact h.trans (List.suffix_cons first rest)

end Route

theorem charted_pieces {path : Text} (accepted : Route.wayRefusal? path = none)
    (home : Location) :
    Charted home ((Route.ofText path).startFrom home) (Text.pieces path).reverse where
  slashless := fun piece listed => Text.slashless_of_mem_pieces (List.mem_reverse.mp listed)
  accepted := by
    intro piece before h leads
    have filled : piece ≠ [] := of_decide_eq_false (Bool.or_eq_false_iff.mp leads).1
    have h := Route.suffix_dropWhile_isIdle h leads
    rw [Route.wayRefusal?] at accepted
    split at accepted
    · next none =>
      rw [none] at h
      cases List.suffix_nil.mp h
    · next pieces =>
      rw [pieces] at h
      obtain ⟨more, h⟩ := h
      rw [← h, List.reverse_append] at accepted
      exact Route.refusal?_of_prefix filled (by simp) accepted
  starts := by
    intro piece before h leads
    have filled : piece ≠ [] := of_decide_eq_false (Bool.or_eq_false_iff.mp leads).1
    obtain ⟨more, h⟩ := h
    have pieces : Text.pieces path = before.reverse ++ [piece] ++ more.reverse := by
      rw [← List.reverse_reverse (Text.pieces path), ← h]
      simp
    rw [Route.startFrom, Route.startFrom, Route.ofText, pieces, List.reverse_cons,
      Route.isAbsolute_of_prefix filled]

namespace FileSystem
variable {fs : FileSystem}

theorem makeDirectories_of_accepted (plain : fs.Plain) {path : Text}
    (accepted : Route.wayRefusal? path = none) :
    ∃ fs', makeDirectories (Text.pieces path).reverse fs = ((fs.surveyPath path).verdict, fs') ∧
      (fs.surveyPath path).Laid fs fs' := by
  have laid := laid_makeDirectories plain (fs.directory_startFrom (.ofText path))
    (charted_pieces accepted fs.home)
  rwa [List.reverse_reverse] at laid

theorem ensureDirectory_of_refused {r : Route} {cause : Cause} (refused : r.refusal? = some cause) :
    fs.ensureDirectory r = .error cause := by
  simp [ensureDirectory, makeDirectory, newPlace, isDirectoryRoute, locateRoute, refused, bind,
    Except.bind]

theorem makeDirectories_of_refused {path : Text} {cause : Cause}
    (refused : Route.wayRefusal? path = some cause) :
    makeDirectories (Text.pieces path).reverse fs = (.error cause, fs) := by
  have leads := List.head?_dropWhile_not Route.isIdle (Text.pieces path).reverse
  rw [← makeDirectories_dropWhile]
  rw [Route.wayRefusal?] at refused
  split at refused
  · cases refused
  · next piece before pieces =>
    rw [pieces] at leads ⊢
    have leads : Route.isIdle piece = false := leads
    have filled : piece ≠ [] := of_decide_eq_false (Bool.or_eq_false_iff.mp leads).1
    rw [makeDirectories, if_neg (by simp [leads]), ensureDirectory_of_refused refused]
    cases cause with
    | notFound => exact absurd refused (Route.refusal?_ne_notFound filled (by simp))
    | _ => rfl

end FileSystem
end BraceTemplate
