import BraceTemplate.Modifier.Default
import BraceTemplate.Proofs.Spelling

/-!
# Filling empty slots

Filling works on the characters of a body: whatever stands behind a pipe that no name
follows. On the text of a reference it does what it should do to the reference: each
slot without a name gets one and keeps its sub-key, and all else stays.
-/
namespace BraceTemplate

namespace Text

theorem startsEmptySlot_pipe (t : Text) : startsEmptySlot ('|' :: t) = true ↔ Stops t := by
  simp [startsEmptySlot, Stops]

theorem startsEmptySlot_pipe_of_name {t : Text} (named : ¬ Stops t) :
    startsEmptySlot ('|' :: t) = false :=
  Bool.eq_false_iff.mpr (mt (startsEmptySlot_pipe t).mp named)

theorem startsEmptySlot_of_ne {c : Char} (other : c ≠ '|') (t : Text) :
    startsEmptySlot (c :: t) = false := by
  unfold startsEmptySlot
  split
  · next same => exact absurd (List.cons.inj same).1 other
  · rfl

theorem fillSlots_of_hasEmptySlot {filler t : Text} (h : hasEmptySlot t = false) :
    fillSlots filler t = t := by
  induction t with
  | nil => rfl
  | cons c rest ih =>
    rw [hasEmptySlot, Bool.or_eq_false_iff] at h
    simp [fillSlots, h.1, ih h.2]

theorem getD_fillSlots? (filler body : Text) :
    (fillSlots? filler body).getD body = fillSlots filler body := by
  rw [fillSlots?]
  split
  · rfl
  · next full => exact (fillSlots_of_hasEmptySlot (by simpa using full)).symm

theorem fillSlots_append_of_free {u : Text} (free : '|' ∉ u) (filler v : Text) :
    fillSlots filler (u ++ v) = u ++ fillSlots filler v := by
  induction u with
  | nil => rfl
  | cons c u ih =>
    have other : c ≠ '|' := fun h => free (h ▸ List.mem_cons_self)
    have later : '|' ∉ u := fun h => free (List.mem_cons_of_mem c h)
    rw [List.cons_append, fillSlots, startsEmptySlot_of_ne other, ih later]
    rfl

theorem fillSlots_pipe_of_stops {t : Text} (stops : Stops t) (filler : Text) :
    fillSlots filler ('|' :: t) = filler ++ fillSlots filler t := by
  rw [fillSlots, if_pos ((startsEmptySlot_pipe t).mpr stops)]

theorem fillSlots_pipe_of_name {t : Text} (named : ¬ Stops t) (filler : Text) :
    fillSlots filler ('|' :: t) = '|' :: fillSlots filler t := by
  rw [fillSlots, startsEmptySlot_pipe_of_name named]
  rfl

theorem hasEmptySlot_append_of_free {u : Text} (free : '|' ∉ u) (v : Text) :
    hasEmptySlot (u ++ v) = hasEmptySlot v := by
  induction u with
  | nil => rfl
  | cons c u ih =>
    have other : c ≠ '|' := fun h => free (h ▸ List.mem_cons_self)
    have later : '|' ∉ u := fun h => free (List.mem_cons_of_mem c h)
    rw [List.cons_append, hasEmptySlot, startsEmptySlot_of_ne other, ih later]
    rfl

end Text

theorem not_mem_of_all {name : Text} (inside : name.all isNameChar) {c : Char}
    (outside : isNameChar c = false) : c ∉ name := by
  intro h
  rw [List.all_eq_true.mp inside c h] at outside
  cases outside

theorem not_stops_append {name : Text} (named : isName name = true) (rest : Text) :
    ¬ Stops (name ++ rest) := by
  obtain ⟨nonempty, inside⟩ := isName_iff.mp named
  obtain ⟨c, more, rfl⟩ := List.exists_cons_of_ne_nil nonempty
  have hc : isNameChar c = true := List.all_eq_true.mp inside c List.mem_cons_self
  simp [Stops, hc]

namespace Text

/-- Each step of filling keeps the character that it reads. -/
theorem fillSlots_cons (name : Text) (c : Char) (rest : Text) :
    fillSlots ('|' :: name) (c :: rest) =
      c :: ((if startsEmptySlot (c :: rest) then name else []) ++
        fillSlots ('|' :: name) rest) := by
  rw [fillSlots]
  by_cases pipe : c = '|'
  · subst pipe
    split <;> rfl
  · rw [startsEmptySlot_of_ne pipe]
    rfl

theorem head?_fillSlots (name t : Text) : (fillSlots ('|' :: name) t).head? = t.head? := by
  cases t with
  | nil => rfl
  | cons c rest =>
    rw [fillSlots_cons]
    rfl

theorem stops_fillSlots {name t : Text} : Stops (fillSlots ('|' :: name) t) ↔ Stops t := by
  rw [Stops, head?_fillSlots, Stops]

/-- After filling no slot is empty, whatever the text was. -/
theorem hasEmptySlot_fillSlots {name : Text} (named : isName name = true) (t : Text) :
    hasEmptySlot (fillSlots ('|' :: name) t) = false := by
  have free : '|' ∉ name := not_mem_of_all (isName_iff.mp named).2 (by decide)
  induction t with
  | nil => rfl
  | cons c rest ih =>
    by_cases pipe : c = '|'
    · subst pipe
      by_cases stops : Stops rest
      · rw [fillSlots_pipe_of_stops stops, List.cons_append, hasEmptySlot,
          startsEmptySlot_pipe_of_name (not_stops_append named _),
          hasEmptySlot_append_of_free free, ih]
        rfl
      · rw [fillSlots_pipe_of_name stops, hasEmptySlot,
          startsEmptySlot_pipe_of_name (mt stops_fillSlots.mp stops), ih]
        rfl
    · rw [fillSlots, startsEmptySlot_of_ne pipe]
      change hasEmptySlot (c :: fillSlots ('|' :: name) rest) = false
      rw [hasEmptySlot, startsEmptySlot_of_ne pipe, ih]
      rfl

/-- A default is a name behind a pipe. -/
theorem of_defaultOf? {candidate slot : Text} (h : defaultOf? candidate = some slot) :
    ∃ name, isName name = true ∧ slot = '|' :: name := by
  unfold defaultOf? at h
  obtain ⟨named, same⟩ := Option.ite_none_right_eq_some.mp h
  exact ⟨_, named, (Option.some.inj same).symm⟩

end Text

namespace Slot

/-- A slot without a name takes the given one. -/
def fill (name : Text) (slot : Slot) : Slot :=
  if slot.name.isEmpty then { slot with name } else slot

theorem fill_fill (name : Text) (slot : Slot) :
    (slot.fill name).fill name = slot.fill name := by
  by_cases empty : slot.name.isEmpty = true
  · simp [fill, empty]
  · simp [fill, empty]

/-- The sub-key as it stands behind the name. -/
def subText (slot : Slot) : Text :=
  match slot.subKey with
  | none => []
  | some key => '.' :: key

theorem text_eq (slot : Slot) : slot.text = '|' :: (slot.name ++ slot.subText) := rfl

theorem WellFormed.fill {slot : Slot} (ok : slot.WellFormed) {name : Text}
    (named : isName name = true) : (slot.fill name).WellFormed := by
  rw [Slot.fill]
  split
  · exact ⟨(isName_iff.mp named).2, ok.2⟩
  · exact ok

theorem WellFormed.subText_free {slot : Slot} (ok : slot.WellFormed) : '|' ∉ slot.subText := by
  rw [subText]
  cases h : slot.subKey with
  | none => simp
  | some key => simpa using not_mem_of_all (ok.2 key h) (by decide)

theorem stops_subText {slot : Slot} {rest : Text} (stops : Stops rest) :
    Stops (slot.subText ++ rest) := by
  rw [subText]
  cases slot.subKey with
  | none => exact stops
  | some key => exact stops_cons.mpr (by decide)

theorem fillSlots_text {slot : Slot} (ok : slot.WellFormed) {rest : Text} (stops : Stops rest)
    (name : Text) : Text.fillSlots ('|' :: name) (slot.text ++ rest) =
      (slot.fill name).text ++ Text.fillSlots ('|' :: name) rest := by
  have sub : ∀ t, Text.fillSlots ('|' :: name) (slot.subText ++ t) =
      slot.subText ++ Text.fillSlots ('|' :: name) t :=
    Text.fillSlots_append_of_free ok.subText_free _
  rw [text_eq, List.cons_append, List.append_assoc]
  by_cases empty : slot.name = []
  · have filled : (slot.fill name).text = '|' :: (name ++ slot.subText) := by
      simp [fill, empty, text_eq, subText]
    rw [empty, List.nil_append, Text.fillSlots_pipe_of_stops (stops_subText stops), sub, filled]
    simp
  · have named : isName slot.name = true := isName_iff.mpr ⟨empty, ok.1⟩
    have kept : slot.fill name = slot := by simp [fill, empty]
    rw [Text.fillSlots_pipe_of_name (not_stops_append named _),
      Text.fillSlots_append_of_free (not_mem_of_all ok.1 (by decide)), sub, kept, text_eq]
    simp

end Slot

namespace Root

theorem WellFormed.text_free {root : Root} (ok : root.WellFormed) {c : Char}
    (outside : isNameChar c = false) (marks : c ∉ ['$', '&', ':', '.']) : c ∉ root.text := by
  have free : ∀ {name}, isName name = true → c ∉ name := fun named =>
    not_mem_of_all (isName_iff.mp named).2 outside
  simp only [List.mem_cons, List.not_mem_nil, or_false, not_or] at marks
  cases root with
  | var name => simp [text, marks, free ok]
  | constant owner name => simp [text, marks, free ok.1, free ok.2]
  | property owner name => simp [text, marks, free ok.1, free ok.2]

end Root

namespace Access

theorem WellFormed.text_free {access : Access} (ok : access.WellFormed) {c : Char}
    (outside : isNameChar c = false) (marks : c ∉ ['.', '-', '>']) : c ∉ access.text := by
  have free : ∀ {name}, isName name = true → c ∉ name := fun named =>
    not_mem_of_all (isName_iff.mp named).2 outside
  simp only [List.mem_cons, List.not_mem_nil, or_false, not_or] at marks
  cases access with
  | key name => simp [text, marks, free ok]
  | member name => simp [text, marks, free ok]

theorem flatMap_text_free {accesses : List Access} (ok : ∀ access ∈ accesses, access.WellFormed)
    {c : Char} (outside : isNameChar c = false) (marks : c ∉ ['.', '-', '>']) :
    c ∉ accesses.flatMap text := by
  simp only [List.mem_flatMap, not_exists, not_and]
  intro access h
  exact (ok access h).text_free outside marks

end Access

theorem Slot.WellFormed.text_free {slot : Slot} (ok : slot.WellFormed) {c : Char}
    (outside : isNameChar c = false) (marks : c ∉ ['|', '.']) : c ∉ slot.text := by
  simp only [List.mem_cons, List.not_mem_nil, or_false, not_or] at marks
  have sub : c ∉ slot.subText := by
    rw [subText]
    cases h : slot.subKey with
    | none => simp
    | some key => simp [marks, not_mem_of_all (ok.2 key h) outside]
  simp [text_eq, marks, not_mem_of_all ok.1 outside, sub]

namespace Spelling

def fill (name : Text) (s : Spelling) : Spelling :=
  { s with slots := s.slots.map (Slot.fill name) }

theorem fill_fill (name : Text) (s : Spelling) : (s.fill name).fill name = s.fill name := by
  simp [fill, Function.comp_def, Slot.fill_fill]

theorem WellFormed.fill {s : Spelling} (ok : s.WellFormed) {name : Text}
    (named : isName name = true) : (s.fill name).WellFormed := by
  refine ⟨ok.root, ok.accesses, ?_⟩
  intro slot h
  obtain ⟨slot, hslot, rfl⟩ := List.mem_map.mp h
  exact (ok.slots slot hslot).fill named

/-- What stands before the slots. -/
def front (s : Spelling) : Text := s.root.text ++ s.accesses.flatMap Access.text

theorem text_eq_front (s : Spelling) : s.text = s.front ++ slotsText s.slots s.newline := by
  rw [text_eq, accessesText, front, List.append_assoc]

theorem WellFormed.front_free {s : Spelling} (ok : s.WellFormed) {c : Char}
    (outside : isNameChar c = false) (marks : c ∉ ['$', '&', ':', '.', '-', '>']) :
    c ∉ s.front := by
  simp only [List.mem_cons, List.not_mem_nil, or_false, not_or] at marks
  have root : c ∉ s.root.text := ok.root.text_free outside (by simp [marks])
  have accesses : c ∉ s.accesses.flatMap Access.text :=
    Access.flatMap_text_free ok.accesses outside (by simp [marks])
  simp [front, root, accesses]

/-- Only a few marks stand in a reference beside the characters of names. -/
theorem WellFormed.text_free {s : Spelling} (ok : s.WellFormed) {c : Char}
    (outside : isNameChar c = false)
    (marks : c ∉ ['$', '&', ':', '.', '-', '>', '|', '\n']) : c ∉ s.text := by
  simp only [List.mem_cons, List.not_mem_nil, or_false, not_or] at marks
  have front : c ∉ s.front := ok.front_free outside (by simp [marks])
  have slots : c ∉ s.slots.flatMap Slot.text := by
    simp only [List.mem_flatMap, not_exists, not_and]
    intro slot h
    exact (ok.slots slot h).text_free outside (by simp [marks])
  have last : c ∉ ending s.newline := by
    cases s.newline with
    | false => simp [ending]
    | true => simp [ending, marks]
  simp [text_eq_front, slotsText, front, slots, last]

theorem fillSlots_ending (filler : Text) (newline : Bool) :
    Text.fillSlots filler (ending newline) = ending newline := by
  cases newline with
  | false => rfl
  | true => rfl

theorem fillSlots_slotsText {slots : List Slot} (ok : ∀ slot ∈ slots, slot.WellFormed)
    (newline : Bool) (name : Text) : Text.fillSlots ('|' :: name) (slotsText slots newline) =
      slotsText (slots.map (Slot.fill name)) newline := by
  induction slots with
  | nil => exact fillSlots_ending _ newline
  | cons slot slots ih =>
    have later : ∀ other ∈ slots, other.WellFormed := fun other h =>
      ok other (List.mem_cons_of_mem slot h)
    rw [slotsText_cons, Slot.fillSlots_text (ok slot List.mem_cons_self)
      (follows_slotsText slots newline).1, ih later, List.map_cons, slotsText_cons]

theorem fillSlots_text {s : Spelling} (ok : s.WellFormed) (name : Text) :
    Text.fillSlots ('|' :: name) s.text = (s.fill name).text := by
  have free : '|' ∉ s.front := ok.front_free (by decide) (by decide)
  rw [text_eq_front, Text.fillSlots_append_of_free free, fillSlots_slotsText ok.slots,
    text_eq_front]
  rfl

end Spelling
end BraceTemplate
