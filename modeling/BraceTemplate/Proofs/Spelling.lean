import BraceTemplate.Directive.Spelling

/-!
# References are read as they are written

A reference is well formed when its names are names; slots may have empty ones. What the
reader accepts is exactly the text of a well-formed spelling, and it finds that
spelling. Each kind of item has two lemmas: what was read is well formed and stands at
the front of the text, and a well-formed item is read from in front of any text that
could not prolong it.
-/
namespace BraceTemplate

/-- No name character stands at the front, so that a name read up to here is complete. -/
def Stops (t : Text) : Prop := t.head?.any isNameChar = false

theorem stops_cons {c : Char} {t : Text} : Stops (c :: t) ↔ isNameChar c = false := Iff.rfl

theorem stops_afterName (t : Text) : Stops (afterName t) := by
  cases h : afterName t with
  | nil => rfl
  | cons c rest =>
    have := List.head?_dropWhile_not isNameChar t
    rw [show t.dropWhile isNameChar = c :: rest from h] at this
    simpa [Stops] using this

theorem all_nameRun (t : Text) : (nameRun t).all isNameChar := List.all_takeWhile

section Runs
variable {kind : Char → Bool} {run rest : Text} (inside : run.all kind)
  (stops : rest.head?.any kind = false)
include inside stops

theorem takeWhile_run : (run ++ rest).takeWhile kind = run := by
  have none : rest.takeWhile kind = [] := by
    cases rest with
    | nil => rfl
    | cons c rest => exact List.takeWhile_cons_of_neg (Bool.eq_false_iff.mp stops)
  rw [List.takeWhile_append_of_pos (by simpa using inside), none, List.append_nil]

theorem dropWhile_run : (run ++ rest).dropWhile kind = rest := by
  rw [List.dropWhile_append_of_pos (by simpa using inside)]
  cases rest with
  | nil => rfl
  | cons c rest => exact List.dropWhile_cons_of_neg (Bool.eq_false_iff.mp stops)

/-- A run of one kind of characters, as far as it goes, splits a text in only one way. -/
theorem run_unique {run' rest' : Text} (inside' : run'.all kind)
    (stops' : rest'.head?.any kind = false) (same : run ++ rest = run' ++ rest') :
    run = run' ∧ rest = rest' := by
  constructor
  · rw [← takeWhile_run inside stops, same, takeWhile_run inside' stops']
  · rw [← dropWhile_run inside stops, same, dropWhile_run inside' stops']

end Runs

section Names
variable {name rest : Text} (inside : name.all isNameChar) (stops : Stops rest)
include inside stops

theorem nameRun_append : nameRun (name ++ rest) = name := takeWhile_run inside stops

theorem afterName_append : afterName (name ++ rest) = rest := dropWhile_run inside stops

end Names

theorem isName_iff {name : Text} : isName name = true ↔ name ≠ [] ∧ name.all isNameChar := by
  simp [isName]

theorem isName_nameRun {t : Text} (h : nameRun t ≠ []) : isName (nameRun t) = true :=
  isName_iff.mpr ⟨h, all_nameRun t⟩

namespace Root

def WellFormed : Root → Prop
  | var name => isName name
  | constant owner name => isName owner ∧ isName name
  | property owner name => isName owner ∧ isName name

theorem of_read? {t rest : Text} {root : Root} (h : read? t = some (root, rest)) :
    root.WellFormed ∧ t = root.text ++ rest ∧ Stops rest := by
  unfold read? at h
  split at h
  · next t =>
    split at h
    · cases h
    · next named =>
      obtain ⟨rfl, rfl⟩ := Prod.mk.inj (Option.some.inj h)
      exact ⟨isName_nameRun named, by simp [text], stops_afterName t⟩
  · next t =>
    split at h
    · cases h
    · next owned =>
      have whole := nameRun_append_afterName t
      split at h
      · next u hu =>
        split at h
        · cases h
        · next named =>
          obtain ⟨rfl, rfl⟩ := Prod.mk.inj (Option.some.inj h)
          rw [hu] at whole
          exact ⟨⟨isName_nameRun owned, isName_nameRun named⟩, by simp [text, whole],
            stops_afterName u⟩
      · next u hu =>
        split at h
        · cases h
        · next named =>
          obtain ⟨rfl, rfl⟩ := Prod.mk.inj (Option.some.inj h)
          rw [hu] at whole
          exact ⟨⟨isName_nameRun owned, isName_nameRun named⟩, by simp [text, whole],
            stops_afterName u⟩
      · cases h
  · cases h

theorem read?_text {root : Root} {rest : Text} (ok : root.WellFormed) (stops : Stops rest) :
    read? (root.text ++ rest) = some (root, rest) := by
  cases root with
  | var name =>
    obtain ⟨named, inside⟩ := isName_iff.mp ok
    simp [text, read?, nameRun_append inside stops, afterName_append inside stops, named]
  | constant owner name =>
    obtain ⟨owned, outer⟩ := isName_iff.mp ok.1
    obtain ⟨named, inside⟩ := isName_iff.mp ok.2
    have colon : Stops (':' :: (name ++ rest)) := stops_cons.mpr (by decide)
    simp [text, read?, nameRun_append outer colon, afterName_append outer colon, owned,
      nameRun_append inside stops, afterName_append inside stops, named]
  | property owner name =>
    obtain ⟨owned, outer⟩ := isName_iff.mp ok.1
    obtain ⟨named, inside⟩ := isName_iff.mp ok.2
    have dot : Stops ('.' :: (name ++ rest)) := stops_cons.mpr (by decide)
    simp [text, read?, nameRun_append outer dot, afterName_append outer dot, owned,
      nameRun_append inside stops, afterName_append inside stops, named]

end Root

section Many
variable {α : Type} {read? : Text → Option (α × Text)}
variable {shorter : ∀ {t rest : Text} {a : α}, read? t = some (a, rest) → rest.length < t.length}

theorem readMany_of_none {t : Text} (h : read? t = none) : readMany read? shorter t = ([], t) := by
  rw [readMany]
  split
  · rfl
  · next found =>
    rw [h] at found
    cases found

theorem readMany_of_some {t rest : Text} {a : α} (h : read? t = some (a, rest)) :
    readMany read? shorter t =
      (a :: (readMany read? shorter rest).1, (readMany read? shorter rest).2) := by
  rw [readMany]
  split
  · next absent =>
    rw [h] at absent
    cases absent
  · next found =>
    obtain ⟨rfl, rfl⟩ := Prod.mk.inj (Option.some.inj (found.symm.trans h))
    rfl

theorem of_readMany {write : α → Text} {Good : α → Prop}
    (sound : ∀ {t rest a}, read? t = some (a, rest) → Good a ∧ t = write a ++ rest)
    {t rest : Text} {items : List α} (h : readMany read? shorter t = (items, rest)) :
    (∀ a ∈ items, Good a) ∧ t = items.flatMap write ++ rest := by
  induction hn : t.length using Nat.strongRecOn generalizing t items with
  | ind n ih =>
    cases hread : read? t with
    | none =>
      rw [readMany_of_none hread] at h
      obtain ⟨rfl, rfl⟩ := Prod.mk.inj h
      simp
    | some found =>
      obtain ⟨a, u⟩ := found
      rw [readMany_of_some hread] at h
      obtain ⟨rfl, hrest⟩ := Prod.mk.inj h
      obtain ⟨good, whole⟩ := sound hread
      obtain ⟨later, split⟩ := ih u.length (hn ▸ shorter hread) (Prod.ext rfl hrest) rfl
      refine ⟨?_, ?_⟩
      · intro b hb
        rcases List.mem_cons.mp hb with rfl | hb
        · exact good
        · exact later b hb
      · rw [List.flatMap_cons, List.append_assoc, ← split, whole]

/-- A list is read back if each item is, in front of whatever may come after an item. -/
theorem readMany_flatMap {write : α → Text} {Good : α → Prop} {Follows : Text → Prop}
    (complete : ∀ {a rest}, Good a → Follows rest → read? (write a ++ rest) = some (a, rest))
    (follows : ∀ {a rest}, Good a → Follows (write a ++ rest))
    {items : List α} (good : ∀ a ∈ items, Good a) {rest : Text} (last : Follows rest)
    (done : read? rest = none) :
    readMany read? shorter (items.flatMap write ++ rest) = (items, rest) := by
  induction items with
  | nil => exact readMany_of_none done
  | cons a items ih =>
    have later : ∀ b ∈ items, Good b := fun b hb => good b (List.mem_cons_of_mem a hb)
    have next : Follows (items.flatMap write ++ rest) := by
      cases items with
      | nil => exact last
      | cons b items =>
        rw [List.flatMap_cons, List.append_assoc]
        exact follows (later b List.mem_cons_self)
    rw [List.flatMap_cons, List.append_assoc,
      readMany_of_some (complete (good a List.mem_cons_self) next), ih later]

end Many

namespace Access

def WellFormed : Access → Prop
  | key name => isName name
  | member name => isName name

theorem of_read? {t rest : Text} {access : Access} (h : read? t = some (access, rest)) :
    access.WellFormed ∧ t = access.text ++ rest := by
  unfold read? at h
  split at h
  · split at h
    · cases h
    · next named =>
      obtain ⟨rfl, rfl⟩ := Prod.mk.inj (Option.some.inj h)
      exact ⟨isName_nameRun named, by simp [text]⟩
  · split at h
    · cases h
    · next named =>
      obtain ⟨rfl, rfl⟩ := Prod.mk.inj (Option.some.inj h)
      exact ⟨isName_nameRun named, by simp [text]⟩
  · cases h

theorem read?_text {access : Access} {rest : Text} (ok : access.WellFormed)
    (stops : Stops rest) : read? (access.text ++ rest) = some (access, rest) := by
  cases access with
  | key name =>
    obtain ⟨named, inside⟩ := isName_iff.mp ok
    simp [text, read?, nameRun_append inside stops, afterName_append inside stops, named]
  | member name =>
    obtain ⟨named, inside⟩ := isName_iff.mp ok
    simp [text, read?, nameRun_append inside stops, afterName_append inside stops, named]

theorem stops_text (access : Access) (rest : Text) : Stops (access.text ++ rest) := by
  cases access with
  | key name => exact stops_cons.mpr (by decide)
  | member name => exact stops_cons.mpr (by decide)

end Access

namespace Slot

def WellFormed (slot : Slot) : Prop :=
  slot.name.all isNameChar ∧ ∀ key ∈ slot.subKey, key.all isNameChar

/-- What stands here belongs to no slot before it. -/
def Follows (t : Text) : Prop := Stops t ∧ t.head? ≠ some '.'

theorem of_read? {t rest : Text} {slot : Slot} (h : read? t = some (slot, rest)) :
    slot.WellFormed ∧ t = slot.text ++ rest := by
  unfold read? at h
  split at h
  · next t =>
    have whole := nameRun_append_afterName t
    split at h
    · next u hu =>
      obtain ⟨rfl, rfl⟩ := Prod.mk.inj (Option.some.inj h)
      rw [hu] at whole
      refine ⟨⟨all_nameRun t, ?_⟩, by simp [text, whole]⟩
      rintro key ⟨⟩
      exact all_nameRun u
    · obtain ⟨rfl, rfl⟩ := Prod.mk.inj (Option.some.inj h)
      refine ⟨⟨all_nameRun t, ?_⟩, by simp [text, whole]⟩
      rintro key ⟨⟩
  · cases h

theorem read?_text {slot : Slot} {rest : Text} (ok : slot.WellFormed) (next : Follows rest) :
    read? (slot.text ++ rest) = some (slot, rest) := by
  obtain ⟨name, subKey⟩ := slot
  cases subKey with
  | none =>
    have dotless : ∀ u, rest ≠ '.' :: u := by
      rintro u rfl
      exact next.2 rfl
    simp only [text, List.cons_append, List.append_nil, read?, nameRun_append ok.1 next.1,
      afterName_append ok.1 next.1]
  | some key =>
    have inside := ok.2 key rfl
    have dot : Stops ('.' :: (key ++ rest)) := stops_cons.mpr (by decide)
    simp [text, read?, nameRun_append ok.1 dot, afterName_append ok.1 dot,
      nameRun_append inside next.1, afterName_append inside next.1]

theorem follows_text (slot : Slot) (rest : Text) : Follows (slot.text ++ rest) :=
  ⟨stops_cons.mpr (by decide), by simp [text]⟩

end Slot

namespace Spelling

structure WellFormed (s : Spelling) : Prop where
  root : s.root.WellFormed
  accesses : ∀ access ∈ s.accesses, access.WellFormed
  slots : ∀ slot ∈ s.slots, slot.WellFormed

/-- What may follow the slots. -/
def ending (newline : Bool) : Text := if newline then ['\n'] else []

/-- What follows the accesses. -/
def slotsText (slots : List Slot) (newline : Bool) : Text :=
  slots.flatMap Slot.text ++ ending newline

/-- What follows the root. -/
def accessesText (s : Spelling) : Text :=
  s.accesses.flatMap Access.text ++ slotsText s.slots s.newline

theorem text_eq (s : Spelling) : s.text = s.root.text ++ s.accessesText := rfl

theorem slotsText_cons (slot : Slot) (slots : List Slot) (newline : Bool) :
    slotsText (slot :: slots) newline = slot.text ++ slotsText slots newline := by
  rw [slotsText, List.flatMap_cons, List.append_assoc]
  rfl

theorem follows_ending (newline : Bool) : Slot.Follows (ending newline) := by
  cases newline with
  | false => exact ⟨rfl, by decide⟩
  | true => exact ⟨rfl, by decide⟩

theorem read?_ending (newline : Bool) : Slot.read? (ending newline) = none := by
  cases newline with
  | false => rfl
  | true => rfl

theorem follows_slotsText (slots : List Slot) (newline : Bool) :
    Slot.Follows (slotsText slots newline) := by
  cases slots with
  | nil => exact follows_ending newline
  | cons slot slots =>
    rw [slotsText_cons]
    exact slot.follows_text _

theorem access_read?_slotsText (slots : List Slot) (newline : Bool) :
    Access.read? (slotsText slots newline) = none := by
  cases slots with
  | cons slot slots => rfl
  | nil =>
    cases newline with
    | false => rfl
    | true => rfl

theorem stops_accessesText (s : Spelling) : Stops s.accessesText := by
  rw [accessesText]
  cases s.accesses with
  | nil => exact (follows_slotsText s.slots s.newline).1
  | cons access accesses =>
    rw [List.flatMap_cons, List.append_assoc]
    exact access.stops_text _

theorem ofText?_text {s : Spelling} (ok : s.WellFormed) : ofText? s.text = some s := by
  have root := Root.read?_text ok.root s.stops_accessesText
  have accesses : Access.readAll s.accessesText = (s.accesses, slotsText s.slots s.newline) :=
    readMany_flatMap Access.read?_text (fun _ => Access.stops_text _ _) ok.accesses
      (follows_slotsText s.slots s.newline).1 (access_read?_slotsText s.slots s.newline)
  have slots : Slot.readAll (slotsText s.slots s.newline) = (s.slots, ending s.newline) :=
    readMany_flatMap Slot.read?_text (fun _ => Slot.follows_text _ _) ok.slots
      (follows_ending s.newline) (read?_ending s.newline)
  rw [ofText?, text_eq, root]
  simp only [accesses, slots]
  obtain ⟨root, accesses, slots, newline⟩ := s
  cases newline with
  | false => rfl
  | true => rfl

theorem of_ofText? {body : Text} {s : Spelling} (h : ofText? body = some s) :
    s.WellFormed ∧ s.text = body := by
  unfold ofText? at h
  split at h
  · cases h
  · next root t found =>
    obtain ⟨hroot, rfl, -⟩ := Root.of_read? found
    rcases haccesses : Access.readAll t with ⟨accesses, u⟩
    obtain ⟨goodAccesses, rfl⟩ := of_readMany Access.of_read? haccesses
    rcases hslots : Slot.readAll u with ⟨slots, v⟩
    obtain ⟨goodSlots, rfl⟩ := of_readMany Slot.of_read? hslots
    simp only [haccesses, hslots] at h
    split at h
    · cases h
      exact ⟨⟨hroot, goodAccesses, goodSlots⟩, rfl⟩
    · cases h
      exact ⟨⟨hroot, goodAccesses, goodSlots⟩, rfl⟩
    · cases h

/-- The reader accepts the texts of well-formed spellings and reads each as what it spells. -/
theorem ofText?_eq_some {body : Text} {s : Spelling} :
    ofText? body = some s ↔ s.WellFormed ∧ s.text = body := by
  constructor
  · exact of_ofText?
  · rintro ⟨ok, rfl⟩
    exact ofText?_text ok

end Spelling
end BraceTemplate
