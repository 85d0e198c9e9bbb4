import BraceTemplate.Proofs.Delivery
import BraceTemplate.Proofs.Following

/-!
# What saving touches

Links included, saving a file leaves every entry in place and of its kind. It adds the
directories that the path names on its way, and these stay also when a later step fails;
it changes one file, the one that the path leads to afterwards, and only if it succeeds.
-/
namespace BraceTemplate

/-- A path whose pieces are cut in two is a text, a slash and a text. -/
theorem Text.exists_of_pieces_eq_append {t : Text} {front back : List Text} (before : front ≠ [])
    (after : back ≠ []) (h : pieces t = front ++ back) :
    ∃ u v, t = u ++ '/' :: v ∧ pieces u = front := by
  induction t generalizing front with
  | nil =>
    have length := congrArg List.length h
    have := List.length_pos_iff.mpr before
    have := List.length_pos_iff.mpr after
    simp only [pieces, List.length_append, List.length_singleton] at length
    omega
  | cons c rest ih =>
    obtain ⟨first, front, rfl⟩ := List.exists_cons_of_ne_nil before
    rw [pieces] at h
    split at h
    · next slash =>
      obtain ⟨rfl, rest_eq⟩ : [] = first ∧ pieces rest = front ++ back := List.cons.inj h
      subst slash
      cases front with
      | nil => exact ⟨[], rest, rfl, rfl⟩
      | cons second front =>
        obtain ⟨u, v, rfl, reads⟩ := ih (List.cons_ne_nil _ _) rest_eq
        exact ⟨'/' :: u, v, rfl, by rw [pieces, if_pos rfl, reads]⟩
    · next other =>
      cases pieces_rest : pieces rest with
      | nil => exact absurd pieces_rest (pieces_ne_nil rest)
      | cons piece more =>
        rw [pieces_rest] at h
        obtain ⟨rfl, rfl⟩ : c :: piece = first ∧ more = front ++ back := List.cons.inj h
        have filled : piece :: front ≠ [] := List.cons_ne_nil _ _
        obtain ⟨u, v, rfl, reads⟩ := ih filled pieces_rest
        exact ⟨c :: u, v, rfl, by rw [pieces, if_neg other, reads]⟩

namespace FileSystem
variable {fs fs' fs'' : FileSystem}

theorem Keeps.refl (fs : FileSystem) : fs.Keeps fs :=
  ⟨rfl, fun _ h => h, fun _ _ h => h, fun _ bytes h => ⟨bytes, h⟩⟩

/-- Every entry is as it was, and what is new are directories that parts of the way lead to. The
pieces of the way stand in reverse. -/
structure Paves (fs fs' : FileSystem) (pieces : List Text) : Prop where
  home : fs'.home = fs.home
  kept : ∀ l e, fs.entry? l = some e → fs'.entry? l = some e
  new : ∀ l e, fs.entry? l = none → fs'.entry? l = some e →
    e = .directory ∧ ∃ part, part ≠ [] ∧ part <:+ pieces ∧
      fs'.locateRoute ⟨part.reverse⟩ = .ok l

namespace Paves
variable {pieces pieces' : List Text}

theorem keeps (paves : fs.Paves fs' pieces) : fs.Keeps fs' where
  home := paves.home
  directory := fun l h => paves.kept l _ h
  link := fun l _ h => paves.kept l _ h
  file := fun l bytes h => ⟨bytes, paves.kept l _ h⟩

theorem refl (fs : FileSystem) (pieces : List Text) : fs.Paves fs pieces where
  home := rfl
  kept := fun _ _ h => h
  new := fun l e missing found => by rw [missing] at found; cases found

theorem mono (paves : fs.Paves fs' pieces) (longer : pieces <:+ pieces') :
    fs.Paves fs' pieces' where
  home := paves.home
  kept := paves.kept
  new := fun l e missing found => by
    obtain ⟨rfl, part, filled, h, leads⟩ := paves.new l e missing found
    exact ⟨rfl, part, filled, h.trans longer, leads⟩

theorem trans (first : fs.Paves fs' pieces) (second : fs'.Paves fs'' pieces) :
    fs.Paves fs'' pieces where
  home := second.home.trans first.home
  kept := fun l e h => second.kept l e (first.kept l e h)
  new := fun l e missing found => by
    cases middle : fs'.entry? l with
    | none => exact second.new l e middle found
    | some e' =>
      obtain rfl : e' = e := Option.some.inj ((second.kept l e' middle).symm.trans found)
      obtain ⟨rfl, part, filled, h, leads⟩ := first.new l e' missing middle
      exact ⟨rfl, part, filled, h, second.keeps.locateRoute leads⟩

end Paves

theorem newPlace_eq_ok {r : Route} {dir : Location} {name : FileName}
    (h : fs.newPlace r = .ok (dir, name)) : r.refusal? = none ∧
      (∃ left, fs.Leads linkLimit (r.startFrom fs.home) r.steps.dropLast dir left) ∧
      fs.entry? dir = some .directory ∧ r.steps.getLast? = some (.down name) ∧
      name.isTooLong = false ∧ fs.entry? (dir ++ [name]) = none := by
  rw [newPlace] at h
  cases refused : r.refusal? with
  | some cause =>
    rw [refused] at h
    cases h
  | none =>
    rw [refused] at h
    cases found : fs.follow linkLimit (r.startFrom fs.home) r.steps.dropLast with
    | error cause =>
      rw [found] at h
      cases h
    | ok pair =>
      obtain ⟨place, left⟩ := pair
      simp only [found, bind, Except.bind] at h
      split at h
      · next there =>
        split at h
        · next last same =>
          split at h
          · cases h
          · next short =>
            split at h
            · cases h
            · next free =>
              obtain ⟨rfl, rfl⟩ := Prod.mk.inj (Except.ok.inj h)
              exact ⟨rfl, ⟨left, leads_of_follow found⟩, there, same, eq_false_of_ne_true short,
                Option.not_isSome_iff_eq_none.mp free⟩
        · cases h
      · cases h

/-- A directory that was just made is found by its route. -/
theorem paves_makeDirectory {piece : Text} {before : List Text}
    (leads : Route.isIdle piece = false)
    (h : fs.makeDirectory ⟨(piece :: before).reverse⟩ = .ok fs') :
    fs.Paves fs' (piece :: before) := by
  have noSlash := Route.endsInSlash_reverse_cons leads before
  rw [makeDirectory] at h
  cases place : fs.newPlace ⟨(piece :: before).reverse⟩ with
  | error cause =>
    rw [place] at h
    cases h
  | ok pair =>
    obtain ⟨dir, name⟩ := pair
    obtain ⟨accepted, ⟨left, way⟩, there, last, short, free⟩ := newPlace_eq_ok place
    have new : fs.entry? (dir ++ [name]) ≠ some .directory := by simp [free]
    obtain rfl : fs.put dir name .directory = fs' := by
      rw [place] at h
      exact Except.ok.inj h
    have kept : ∀ l e, fs.entry? l = some e → entry? (fs.put dir name .directory) l = some e := by
      intro l e found
      rw [entry?_put there new, if_neg]
      · exact found
      · rintro rfl
        simp [free] at found
    have home := home_put there new .directory
    refine ⟨home, kept, fun l e missing found => ?_⟩
    rw [entry?_put there new] at found
    split at found
    · next same =>
      refine ⟨(Option.some.inj found).symm, piece :: before, List.cons_ne_nil _ _,
        List.suffix_refl _, locateRoute_iff_leads.mpr ⟨accepted, left, ?_⟩⟩
      obtain ⟨front, steps⟩ := List.getLast?_eq_some_iff.mp last
      rw [steps, List.dropLast_concat] at way
      rw [Route.walk, noSlash, steps, home, same]
      have keeps : fs.Keeps (fs.put dir name .directory) :=
        ⟨home, fun l h => kept l _ h, fun l _ h => kept l _ h, fun l b h => ⟨b, kept l _ h⟩⟩
      have made : entry? (fs.put dir name .directory) (dir ++ [name]) = some .directory := by
        rw [entry?_put there new, if_pos rfl]
      simp only [Bool.false_eq_true, if_false, List.append_nil]
      exact (way.keeps keeps).append (.step (.down (kept _ _ there) short made (by simp)) .done)
    · rw [missing] at found
      cases found

theorem paves_ensureDirectory {piece : Text} {before : List Text}
    (leads : Route.isIdle piece = false)
    (h : fs.ensureDirectory ⟨(piece :: before).reverse⟩ = .ok fs') :
    fs.Paves fs' (piece :: before) := by
  rw [ensureDirectory] at h
  split at h
  · next made =>
    cases h
    exact paves_makeDirectory leads made
  · split at h
    · cases h
      exact .refl fs _
    · cases h

/-- What was made before a failure stays, and it is on the way too. -/
theorem paves_makeDirectories (pieces : List Text) (fs : FileSystem) :
    fs.Paves (makeDirectories pieces fs).2 pieces := by
  induction pieces generalizing fs with
  | nil => exact .refl fs []
  | cons piece before ih =>
    have longer := List.suffix_cons piece before
    have parents := (ih fs).mono longer
    rw [makeDirectories]
    cases leads : Route.isIdle piece with
    | true => exact parents
    | false =>
      simp only [Bool.false_eq_true, if_false]
      split
      · next made => exact paves_ensureDirectory leads made
      · split
        · next done =>
          rw [done] at parents
          exact parents
        · next done =>
          rw [done] at parents
          split
          · next made => exact parents.trans (paves_ensureDirectory leads made)
          · exact parents
      · exact .refl fs _

/-- A route under which a file is written: it goes through a directory to a name that is free or
that of a file, or to that of a link and on along its target. -/
inductive Targets (fs : FileSystem) : Nat → Location → Route → Location → FileName → Prop where
  | place {links left : Nat} {start dir : Location} {r : Route} {front : List PathStep}
      {name : FileName} (walk : r.walk = front ++ [.down name])
      (way : fs.Leads links start front dir left) (there : fs.entry? dir = some .directory)
      (short : name.isTooLong = false)
      (kind : ∀ e, fs.entry? (dir ++ [name]) = some e → e.isFile = true) :
      Targets fs links start r dir name
  | link {links left : Nat} {start here dir : Location} {r : Route} {front : List PathStep}
      {last name : FileName} {target : Text} (walk : r.walk = front ++ [.down last])
      (way : fs.Leads links start front here (left + 1))
      (there : fs.entry? here = some .directory) (short : last.isTooLong = false)
      (entry : fs.entry? (here ++ [last]) = some (.link target))
      (on : Targets fs left ((Route.ofText target).startFrom here) (.ofText target) dir name) :
      Targets fs links start r dir name

/-- The way to a link leaves no more links than there were, and the link takes one of them. -/
theorem targets_of_writeTarget {links : Nat} {start dir : Location} {r : Route} {name : FileName}
    (h : fs.writeTarget links start r = .ok (dir, name)) : fs.Targets links start r dir name := by
  induction links using Nat.strongRecOn generalizing start r with
  | ind links ih =>
    rw [writeTarget] at h
    split at h
    · next last same =>
      obtain ⟨front, steps⟩ := List.getLast?_eq_some_iff.mp same
      split at h
      · cases h
      · next here left found =>
        have way := leads_of_follow found
        rw [steps, List.dropLast_concat] at way
        split at h
        · next there =>
          split at h
          · cases h
          · next noSlash =>
            have walk : r.walk = front ++ [.down last] := by
              rw [Route.walk, if_neg noSlash, List.append_nil, steps]
            split at h
            · cases h
            · next short =>
              have short := eq_false_of_ne_true short
              split at h
              · cases h
              · next target entry =>
                split at h
                · cases h
                · next found =>
                  have fewer := follow_links_le found
                  exact .link walk way there short entry (ih _ fewer h)
              · next noDirectory noLink =>
                obtain ⟨rfl, rfl⟩ := Prod.mk.inj (Except.ok.inj h)
                refine .place walk way there short fun e entry => ?_
                cases e with
                | file bytes => rfl
                | directory => exact absurd entry noDirectory
                | link target => exact absurd entry (noLink target)
        · cases h
    · split at h
      · cases h
      · cases h

namespace Targets
variable {links : Nat} {start dir : Location} {r : Route} {name : FileName}

theorem there (targets : fs.Targets links start r dir name) :
    fs.entry? dir = some .directory := by
  induction targets with
  | place _ _ there => exact there
  | link _ _ _ _ _ _ ih => exact ih

theorem kind (targets : fs.Targets links start r dir name) {e : Entry}
    (entry : fs.entry? (dir ++ [name]) = some e) : e.isFile = true := by
  induction targets with
  | place _ _ _ _ kind => exact kind e entry
  | link _ _ _ _ _ _ ih => exact ih entry

/-- Whoever puts a file there finds it by the route. -/
theorem leads (targets : fs.Targets links start r dir name) (keeps : fs.Keeps fs')
    {bytes : ByteArray} (written : fs'.entry? (dir ++ [name]) = some (.file bytes)) :
    ∃ left, fs'.Leads links start r.walk (dir ++ [name]) left := by
  induction targets with
  | place walk way there short =>
    rw [walk]
    refine ⟨_, (way.keeps keeps).append (.step (.down ?_ short written ?_) .done)⟩
    · exact keeps.directory _ there
    · simp
  | link walk way there short entry _ ih =>
    rw [walk]
    obtain ⟨left, on⟩ := ih written
    refine ⟨left, (way.keeps keeps).append (.step (.link ?_ short (keeps.link _ _ entry)) ?_)⟩
    · exact keeps.directory _ there
    · rwa [List.append_nil]

end Targets

/-- The file at `target` has these octets, is found under the path, and was a file before if
anything; everything else is as it was. -/
structure Writes (fs fs' : FileSystem) (path : Text) (bytes : ByteArray) (target : Location) :
    Prop where
  home : fs'.home = fs.home
  kept : ∀ l, l ≠ target → fs'.entry? l = fs.entry? l
  kind : ∀ e, fs.entry? target = some e → e.isFile = true
  written : fs'.entry? target = some (.file bytes)
  found : fs'.locate path = .ok target

theorem keeps_of_written {target : Location} {bytes : ByteArray} (home : fs'.home = fs.home)
    (kept : ∀ l, l ≠ target → fs'.entry? l = fs.entry? l)
    (kind : ∀ e, fs.entry? target = some e → e.isFile = true)
    (written : fs'.entry? target = some (.file bytes)) : fs.Keeps fs' where
  home := home
  directory := fun l entry => by
    rw [kept l, entry]
    rintro rfl
    cases kind _ entry
  link := fun l target' entry => by
    rw [kept l, entry]
    rintro rfl
    cases kind _ entry
  file := fun l bytes' entry => by
    by_cases same : l = target
    · exact ⟨bytes, same ▸ written⟩
    · exact ⟨bytes', (kept l same).trans entry⟩

theorem Writes.keeps {path : Text} {bytes : ByteArray} {target : Location}
    (writes : fs.Writes fs' path bytes target) : fs.Keeps fs' :=
  keeps_of_written writes.home writes.kept writes.kind writes.written

theorem writes_of_writeBytes {path : Text} {bytes : ByteArray}
    (h : fs.writeBytes path bytes = .ok fs') : ∃ target, fs.Writes fs' path bytes target := by
  rw [writeBytes] at h
  cases refused : (Route.ofText path).refusal? with
  | some cause =>
    rw [refused] at h
    cases h
  | none =>
    simp only [refused] at h
    cases place : fs.writeTarget linkLimit ((Route.ofText path).startFrom fs.home)
        (Route.ofText path) with
    | error cause =>
      rw [place] at h
      cases h
    | ok pair =>
      obtain ⟨dir, name⟩ := pair
      have targets := targets_of_writeTarget place
      obtain rfl : fs.put dir name (.file bytes) = fs' := by
        rw [place] at h
        exact Except.ok.inj h
      have free : fs.entry? (dir ++ [name]) ≠ some .directory := by
        intro taken
        cases targets.kind taken
      have put := entry?_put targets.there free (.file bytes)
      have home := home_put targets.there free (.file bytes)
      have kept : ∀ l, l ≠ dir ++ [name] →
          entry? (fs.put dir name (.file bytes)) l = fs.entry? l := by
        intro l other
        rw [put, if_neg other]
      have written : entry? (fs.put dir name (.file bytes)) (dir ++ [name]) =
          some (.file bytes) := by
        rw [put, if_pos rfl]
      refine ⟨dir ++ [name], home, kept, fun e => targets.kind, written, ?_⟩
      have keeps := keeps_of_written home kept (fun e => targets.kind) written
      exact locateRoute_iff_leads.mpr ⟨refused, home.symm ▸ targets.leads keeps written⟩

/-- The parts of the way to a file are texts before a slash of its path. -/
theorem exists_front_of_part {path : Text} {part : List Text} (filled : part ≠ [])
    (h : part <:+ (Route.ofText path).aboveReversed) :
    ∃ front rest, path = front ++ '/' :: rest ∧ Route.ofText front = ⟨part.reverse⟩ := by
  have above : (Route.ofText path).aboveReversed =
      ((Text.pieces path).reverse.dropWhile Route.isIdle).tail := rfl
  obtain ⟨idle, split⟩ := List.dropWhile_suffix (l := (Text.pieces path).reverse) Route.isIdle
  rw [above] at h
  cases led : (Text.pieces path).reverse.dropWhile Route.isIdle with
  | nil =>
    rw [led] at h
    exact absurd (List.suffix_nil.mp h) filled
  | cons last tail =>
    rw [led] at h split
    obtain ⟨more, rfl⟩ : ∃ more, more ++ part = tail := h
    have pieces : Text.pieces path = part.reverse ++ (idle ++ last :: more).reverse := by
      rw [← List.reverse_append, ← List.reverse_eq_iff, ← split]
      simp
    obtain ⟨front, rest, whole, reads⟩ :=
      Text.exists_of_pieces_eq_append (by simpa using filled) (by simp) pieces
    exact ⟨front, rest, whole, by rw [Route.ofText, reads]⟩

/-- What a save leaves behind. A save that succeeded can be read back; one that failed has changed
no entry. The only entry that may be replaced is a file, by the one that the path then leads to;
what is new are directories that the path names on its way, and that file. -/
structure Footprint (fs fs' : FileSystem) (path code : Text) (result : Except StoreError Unit) :
    Prop where
  home : fs'.home = fs.home
  read : result = .ok () → fs'.readText path = .ok code ∧ fs'.readTemplate path = .parse code
  failed : ∀ error, result = .error error → (∃ cause, error = .write path cause) ∧
    ∀ l e, fs.entry? l = some e → fs'.entry? l = some e
  kept : ∀ l e, fs.entry? l = some e → fs'.entry? l = some e ∨
    result = .ok () ∧ fs'.locate path = .ok l ∧ e.isFile = true ∧
      fs'.entry? l = some (.file (Text.toUtf8 code))
  new : ∀ l e, fs.entry? l = none → fs'.entry? l = some e →
    (e = .directory ∧ ∃ front rest, path = front ++ '/' :: rest ∧ fs'.locate front = .ok l) ∨
    result = .ok () ∧ fs'.locate path = .ok l ∧ e = .file (Text.toUtf8 code)

section Save
variable {path code : Text}

theorem Paves.new_front (paves : fs.Paves fs' (Route.ofText path).aboveReversed)
    (keeps : fs'.Keeps fs'') {l : Location} {e : Entry} (missing : fs.entry? l = none)
    (found : fs'.entry? l = some e) :
    e = .directory ∧ ∃ front rest, path = front ++ '/' :: rest ∧ fs''.locate front = .ok l := by
  obtain ⟨rfl, part, filled, h, leads⟩ := paves.new l e missing found
  obtain ⟨front, rest, whole, route⟩ := exists_front_of_part filled h
  refine ⟨rfl, front, rest, whole, ?_⟩
  rw [locate, route]
  exact keeps.locateRoute leads

theorem Paves.footprint_of_failed (paves : fs.Paves fs' (Route.ofText path).aboveReversed)
    (cause : Cause) : fs.Footprint fs' path code (.error (.write path cause)) where
  home := paves.home
  read := by simp
  failed := fun error same => ⟨⟨cause, (Except.error.inj same).symm⟩, paves.kept⟩
  kept := fun l e entry => Or.inl (paves.kept l e entry)
  new := fun l e missing found => Or.inl (paves.new_front (Keeps.refl fs') missing found)

theorem Paves.footprint_of_written (paves : fs.Paves fs' (Route.ofText path).aboveReversed)
    {target : Location} (writes : fs'.Writes fs'' path (Text.toUtf8 code) target) :
    fs.Footprint fs'' path code (.ok ()) where
  home := writes.home.trans paves.home
  read := fun _ => by
    have text := readText_of_locate writes.found writes.written
    exact ⟨text, by rw [readTemplate, text]⟩
  failed := by simp
  kept := fun l e entry => by
    have middle := paves.kept l e entry
    by_cases same : l = target
    · subst same
      exact Or.inr ⟨rfl, writes.found, writes.kind e middle, writes.written⟩
    · exact Or.inl ((writes.kept l same).trans middle)
  new := fun l e missing found => by
    by_cases same : l = target
    · subst same
      exact Or.inr ⟨rfl, writes.found, Option.some.inj (found.symm.trans writes.written)⟩
    · rw [writes.kept l same] at found
      exact Or.inl (paves.new_front writes.keeps missing found)

end Save

/-- Saving touches only its target, in every file system and under every path. -/
theorem save_footprint (fs : FileSystem) (path code : Text) :
    fs.Footprint (fs.save path code).2 path code (fs.save path code).1 := by
  have paves := paves_makeDirectories (Route.ofText path).aboveReversed fs
  rw [save, makeParents]
  split
  · next cause fs₁ done =>
    rw [done] at paves
    exact paves.footprint_of_failed cause
  · next fs₁ done =>
    rw [done] at paves
    split
    · next cause _ => exact paves.footprint_of_failed cause
    · next fs₂ written =>
      obtain ⟨target, writes⟩ := writes_of_writeBytes written
      exact paves.footprint_of_written writes

/-- A home with one file in it. -/
def loneTree : FileSystem := planted [("a.php".toList, some (Text.toUtf8 "A".toList))]

/-- Two directories are made on the way, the code is read back, and the other file is as it was. -/
theorem save_footprint_missing_directory :
    loneTree.isDirectory "d".toList = false ∧
    (loneTree.save "d/e/b.php".toList "B".toList).1 = .ok () ∧
    (loneTree.save "d/e/b.php".toList "B".toList).2.isDirectory "d/e".toList = true ∧
    (loneTree.save "d/e/b.php".toList "B".toList).2.readText "d/e/b.php".toList =
      .ok "B".toList ∧
    (loneTree.save "d/e/b.php".toList "B".toList).2.readText "a.php".toList = .ok "A".toList := by
  have saved : (loneTree.save "d/e/b.php".toList "B".toList).1 = .ok () := by decide +kernel
  have footprint := save_footprint loneTree "d/e/b.php".toList "B".toList
  exact ⟨by decide +kernel, saved, by decide +kernel, (footprint.read saved).1, by decide +kernel⟩

end FileSystem
end BraceTemplate
