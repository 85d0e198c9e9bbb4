import BraceTemplate.Proofs.Filling
import BraceTemplate.Text.Utf8

/-!
# Filling leaves nothing to fill

Filling decides each pipe by the next character of the text it reads, while the text it
writes has other neighbours. They do not disturb each other, for runs of pipes of any
length and whatever stands around them: a name goes in right behind each pipe of an empty
slot, and all else stays as it was. No pipe is added or lost, the one before the name is
no longer empty, and the character behind every other pipe is the one it had.
-/
namespace BraceTemplate

namespace Text

/-- A pipe stands at this place and no name character right behind it. -/
def emptySlotAt (t : Text) (i : Nat) : Bool :=
  t[i]?.any (· == '|') && !(t[i + 1]?.any isNameChar)

/-- At how many places there is an empty slot. -/
def emptySlots (t : Text) : Nat := (List.range t.length).countP (emptySlotAt t)

/-- Right behind every pipe stands a name character. -/
def SlotsNamed (t : Text) : Prop :=
  ∀ i, t[i]? = some '|' → ∃ c, t[i + 1]? = some c ∧ isNameChar c = true

/-- The characters of the text, each followed by the name if it is the pipe of an empty slot. -/
def insertNames (name t : Text) : Text :=
  t.zipIdx.flatMap fun place =>
    if emptySlotAt t place.2 then place.1 :: name else [place.1]

section Places
variable (c : Char) (rest : Text)

theorem emptySlotAt_zero : emptySlotAt (c :: rest) 0 = startsEmptySlot (c :: rest) := by
  by_cases pipe : c = '|'
  · subst pipe
    simp [emptySlotAt, startsEmptySlot, List.head?_eq_getElem?]
  · simp [emptySlotAt, startsEmptySlot_of_ne pipe, pipe]

theorem emptySlotAt_succ (i : Nat) : emptySlotAt (c :: rest) (i + 1) = emptySlotAt rest i := rfl

theorem emptySlots_cons : emptySlots (c :: rest) =
    (if startsEmptySlot (c :: rest) then 1 else 0) + emptySlots rest := by
  have later : emptySlotAt (c :: rest) ∘ Nat.succ = emptySlotAt rest :=
    funext (emptySlotAt_succ c rest)
  rw [emptySlots, List.length_cons, List.range_succ_eq_map, List.countP_cons, List.countP_map,
    later, emptySlotAt_zero, Nat.add_comm]
  rfl

theorem insertNames_cons (name : Text) : insertNames name (c :: rest) =
    c :: ((if startsEmptySlot (c :: rest) then name else []) ++ insertNames name rest) := by
  rw [insertNames, List.zipIdx_cons', List.flatMap_cons, List.flatMap_map, emptySlotAt_zero]
  split <;> rfl

end Places

theorem fillSlots_eq_insertNames (name t : Text) :
    fillSlots ('|' :: name) t = insertNames name t := by
  induction t with
  | nil => rfl
  | cons c rest ih => rw [fillSlots_cons, insertNames_cons, ih]

/-- Filling only arranges: the text and one copy of the name for each empty slot. -/
theorem fillSlots_perm (name t : Text) : (fillSlots ('|' :: name) t).Perm
    (t ++ (List.replicate (emptySlots t) name).flatten) := by
  induction t with
  | nil => exact .refl []
  | cons c rest ih =>
    rw [fillSlots_cons, emptySlots_cons, List.cons_append]
    refine .cons c ?_
    split
    · have moved : (name ++ (rest ++ (List.replicate (emptySlots rest) name).flatten)).Perm
          (rest ++ (name ++ (List.replicate (emptySlots rest) name).flatten)) := by
        rw [← List.append_assoc, ← List.append_assoc]
        exact List.perm_append_comm.append_right _
      rw [Nat.add_comm, List.replicate_succ, List.flatten_cons]
      exact (ih.append_left name).trans moved
    · rw [Nat.zero_add]
      exact ih

theorem emptySlots_pos_iff (t : Text) : 0 < emptySlots t ↔ hasEmptySlot t = true := by
  induction t with
  | nil => simp [emptySlots, hasEmptySlot]
  | cons c rest ih =>
    rw [emptySlots_cons, hasEmptySlot, Bool.or_eq_true, ← ih]
    split
    · next starts =>
      simp only [starts, true_or, iff_true]
      omega
    · next full => simp [full]

theorem emptySlotAt_eq_false_iff (t : Text) (i : Nat) : emptySlotAt t i = false ↔
    (t[i]? = some '|' → ∃ c, t[i + 1]? = some c ∧ isNameChar c = true) := by
  simp [emptySlotAt, Option.any_eq_true]

theorem slotsNamed_iff (t : Text) : SlotsNamed t ↔ hasEmptySlot t = false := by
  simp only [SlotsNamed, ← emptySlotAt_eq_false_iff]
  induction t with
  | nil => simp [emptySlotAt, hasEmptySlot]
  | cons c rest ih =>
    rw [hasEmptySlot, Bool.or_eq_false_iff, ← ih, ← emptySlotAt_zero]
    constructor
    · intro full
      exact ⟨full 0, fun i => full (i + 1)⟩
    · rintro ⟨first, later⟩ i
      cases i with
      | zero => exact first
      | succ i => exact later i

theorem fillSlots?_eq_none_iff (filler t : Text) : fillSlots? filler t = none ↔ SlotsNamed t := by
  rw [slotsNamed_iff, fillSlots?]
  simp

theorem slotsNamed_fillSlots {name : Text} (named : isName name = true) (t : Text) :
    SlotsNamed (fillSlots ('|' :: name) t) :=
  (slotsNamed_iff _).mpr (hasEmptySlot_fillSlots named t)

theorem count_pipe_fillSlots {name : Text} (named : isName name = true) (t : Text) :
    (fillSlots ('|' :: name) t).count '|' = t.count '|' := by
  have free : name.count '|' = 0 :=
    List.count_eq_zero.mpr (not_mem_of_all (isName_iff.mp named).2 (by decide))
  rw [(fillSlots_perm name t).count_eq, List.count_append, List.count_flatten, List.map_replicate,
    free]
  simp

theorem length_fillSlots (name t : Text) :
    (fillSlots ('|' :: name) t).length = t.length + emptySlots t * name.length := by
  rw [(fillSlots_perm name t).length_eq]
  simp

theorem size_toUtf8 (t : Text) : (toUtf8 t).size = (t.flatMap String.utf8EncodeChar).length := by
  rw [← toList_data_toUtf8]
  rfl

theorem size_toUtf8_fillSlots (name t : Text) : (toUtf8 (fillSlots ('|' :: name) t)).size =
    (toUtf8 t).size + emptySlots t * (toUtf8 name).size := by
  have copies : ((List.replicate (emptySlots t) name).flatten.flatMap
      String.utf8EncodeChar).length = emptySlots t * (toUtf8 name).size := by
    rw [← List.flatMap_id, List.flatMap_assoc, List.flatMap_replicate, size_toUtf8]
    simp
  rw [size_toUtf8, ((fillSlots_perm name t).flatMap_right _).length_eq, List.flatMap_append,
    List.length_append, copies, size_toUtf8 t]

end Text

/-- Filling any text with a default has nothing to do exactly if every slot has a name, and
otherwise gives a text of that kind, so that no filler has anything to do there. It puts the name
in at the empty slots and changes nothing else; lengths are counted in characters and in octets. -/
theorem fillSlots?_normal_form {candidate filler : Text}
    (default : Text.defaultOf? candidate = some filler) (body : Text) :
    ∃ name : Text, isName name = true ∧ filler = '|' :: name ∧
      (Text.fillSlots? filler body = none ↔ Text.SlotsNamed body) ∧
      ∀ filled : Text, Text.fillSlots? filler body = some filled →
        filled.count '|' = body.count '|' ∧ Text.SlotsNamed filled ∧
        (∀ again : Text, Text.fillSlots? again filled = none) ∧
        filled = Text.insertNames name body ∧ 0 < Text.emptySlots body ∧
        filled.length = body.length + Text.emptySlots body * name.length ∧
        (Text.toUtf8 filled).size =
          (Text.toUtf8 body).size + Text.emptySlots body * (Text.toUtf8 name).size := by
  obtain ⟨name, named, rfl⟩ := Text.of_defaultOf? default
  refine ⟨name, named, rfl, Text.fillSlots?_eq_none_iff _ body, ?_⟩
  intro filled found
  obtain ⟨empty, rfl⟩ : Text.hasEmptySlot body = true ∧
      Text.fillSlots ('|' :: name) body = filled := by
    simpa [Text.fillSlots?] using found
  have normal := Text.slotsNamed_fillSlots named body
  exact ⟨Text.count_pipe_fillSlots named body, normal,
    fun again => (Text.fillSlots?_eq_none_iff again _).mpr normal,
    Text.fillSlots_eq_insertNames name body, (Text.emptySlots_pos_iff body).mpr empty,
    Text.length_fillSlots name body, Text.size_toUtf8_fillSlots name body⟩

/-- Empty slots before a pipe, before a dot and at the end, in a text that is no reference. -/
theorem fillSlots?_normal_form_run_of_pipes :
    Text.defaultOf? "|up".toList = some "|up".toList ∧
    Text.fillSlots? "|up".toList "é||a|.|".toList = some "é|up|a|up.|up".toList ∧
    Text.SlotsNamed "é|up|a|up.|up".toList ∧
    Text.fillSlots? "|e".toList "é|up|a|up.|up".toList = none ∧
    Text.insertNames "up".toList "é||a|.|".toList = "é|up|a|up.|up".toList ∧
    Text.emptySlots "é||a|.|".toList = 3 ∧
    (Text.toUtf8 "é|up|a|up.|up".toList).size = (Text.toUtf8 "é||a|.|".toList).size + 3 * 2 := by
  have default : Text.defaultOf? "|up".toList = some "|up".toList := by decide
  have found : Text.fillSlots? "|up".toList "é||a|.|".toList = some "é|up|a|up.|up".toList := by
    decide
  have three : Text.emptySlots "é||a|.|".toList = 3 := by decide
  obtain ⟨name, -, same, -, filled⟩ := fillSlots?_normal_form default "é||a|.|".toList
  obtain rfl : "up".toList = name := (List.cons.inj same).2
  obtain ⟨-, normal, again, inserted, -, -, octets⟩ := filled _ found
  rw [three] at octets
  exact ⟨default, found, normal, again _, inserted.symm, three, octets⟩

end BraceTemplate
