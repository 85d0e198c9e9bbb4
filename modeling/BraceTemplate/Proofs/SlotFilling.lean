import BraceTemplate.Proofs.Rendering

/-!
# Filling goes slot by slot

Filling sees pipes and the character behind each of them, and knows nothing of
references. On the text of a reference it still does what is meant: a pipe that no name
character follows is a slot without a name, whether a dot, another pipe, the final newline
or nothing comes next, and the name that is put in behind it is read as the name of that
slot. The text is a reference before and after, so that a default never costs a directive.
-/
namespace BraceTemplate

/-- A slot without a name is an empty one in the text, since its pipe is the only one in it. -/
theorem Slot.hasEmptySlot_text {slot : Slot} (ok : slot.WellFormed) {rest : Text}
    (stops : Stops rest) :
    Text.hasEmptySlot (slot.text ++ rest) = (slot.name.isEmpty || Text.hasEmptySlot rest) := by
  have inside : Text.hasEmptySlot (slot.name ++ (slot.subText ++ rest)) =
      Text.hasEmptySlot rest := by
    rw [Text.hasEmptySlot_append_of_free (not_mem_of_all ok.1 (by decide)),
      Text.hasEmptySlot_append_of_free ok.subText_free]
  have starts : Text.startsEmptySlot ('|' :: (slot.name ++ (slot.subText ++ rest))) =
      slot.name.isEmpty := by
    by_cases empty : slot.name = []
    · rw [empty]
      exact (Text.startsEmptySlot_pipe _).mpr (stops_subText stops)
    · have named : isName slot.name = true := isName_iff.mpr ⟨empty, ok.1⟩
      rw [Text.startsEmptySlot_pipe_of_name (not_stops_append named _)]
      simpa using empty
  rw [text_eq, List.cons_append, List.append_assoc, Text.hasEmptySlot, starts, inside]

namespace Spelling

theorem hasEmptySlot_slotsText {slots : List Slot} (ok : ∀ slot ∈ slots, slot.WellFormed)
    (newline : Bool) : Text.hasEmptySlot (slotsText slots newline) =
      slots.any fun slot => slot.name.isEmpty := by
  induction slots with
  | nil =>
    cases newline with
    | false => rfl
    | true => rfl
  | cons slot slots ih =>
    obtain ⟨first, later⟩ := List.forall_mem_cons.mp ok
    rw [slotsText_cons, Slot.hasEmptySlot_text first (follows_slotsText slots newline).1, ih later,
      List.any_cons]

theorem hasEmptySlot_text {s : Spelling} (ok : s.WellFormed) :
    Text.hasEmptySlot s.text = s.slots.any fun slot => slot.name.isEmpty := by
  have free : '|' ∉ s.front := ok.front_free (by decide) (by decide)
  rw [text_eq_front, Text.hasEmptySlot_append_of_free free, hasEmptySlot_slotsText ok.slots]

theorem fillSlots?_text {s : Spelling} (ok : s.WellFormed) (name : Text) :
    Text.fillSlots? ('|' :: name) s.text =
      if s.slots.any fun slot => slot.name.isEmpty then some (s.fill name).text else none := by
  rw [Text.fillSlots?, hasEmptySlot_text ok, fillSlots_text ok]

theorem fillSlots?_text_eq_none_iff {s : Spelling} (ok : s.WellFormed) (name : Text) :
    Text.fillSlots? ('|' :: name) s.text = none ↔ ∀ slot ∈ s.slots, slot.name ≠ [] := by
  rw [fillSlots?_text ok]
  simp

theorem ofText?_of_filled {s : Spelling} (ok : s.WellFormed) {name : Text}
    (named : isName name = true) {filled : Text}
    (h : Text.fillSlots? ('|' :: name) s.text = some filled) :
    ofText? filled = some (s.fill name) := by
  rw [fillSlots?_text ok, Option.ite_none_right_eq_some] at h
  obtain ⟨-, ⟨⟩⟩ := h
  exact ofText?_text (ok.fill named)

end Spelling

/-- Filling has nothing to do exactly if every slot of the reference has a name. Otherwise it gives
the text of the same reference in which each slot without a name has taken that of the default
and kept its sub-key. So a default makes no compiler that can be reached drop a directive. -/
theorem fillSlots?_slot_by_slot :
    (∀ (body : Text) (target : Reference),
      Directive.reference? body = some (.reference target) →
      ∀ candidate filler : Text, Text.defaultOf? candidate = some filler →
        ∃ (s : Spelling) (name : Text), Spelling.ofText? body = some s ∧ s.reference = target ∧
          filler = '|' :: name ∧
          (Text.fillSlots? filler body = none ↔ ∀ slot ∈ s.slots, slot.name ≠ []) ∧
          ∀ filled : Text, Text.fillSlots? filler body = some filled →
            Spelling.ofText? filled = some (s.fill name) ∧
            Directive.reference? filled = some (.reference (s.fill name).reference)) ∧
    ∀ c : Compiler, c.Reachable → ∀ (body : Text) (target : Reference),
      Directive.ofBody body = .reference target →
        (∃ filled : Reference, Reference.ofText? (c.filledBody body) = some filled) ∧
        c.render body ≠ .skipped := by
  constructor
  · intro body target accepted candidate filler default
    obtain ⟨s, read, same⟩ : ∃ s, Spelling.ofText? body = some s ∧ s.reference = target := by
      simpa [Directive.reference?, Reference.ofText?] using accepted
    obtain ⟨ok, rfl⟩ := Spelling.ofText?_eq_some.mp read
    obtain ⟨name, named, rfl⟩ := Text.of_defaultOf? default
    refine ⟨s, name, read, same, rfl, Spelling.fillSlots?_text_eq_none_iff ok name, ?_⟩
    intro filled h
    have again := Spelling.ofText?_of_filled ok named h
    exact ⟨again, by rw [Directive.reference?, Reference.ofText?, again]; rfl⟩
  · intro c reached body target read
    have accepted : Reference.ofText? body = some target := Directive.spells_ofBody read (by simp)
    obtain ⟨s, spelled, -⟩ := Option.map_eq_some_iff.mp accepted
    obtain ⟨ok, rfl⟩ := Spelling.ofText?_eq_some.mp spelled
    have named := reached.defaultNamed
    refine ⟨⟨_, Compiler.ofText?_filledBody named ok⟩, ?_⟩
    rw [Compiler.render_text named ok, Compiler.renderReference]
    simp

/-- Empty slots before a pipe and before a dot, the latter with a newline behind it, and a slot
that has a name between them. -/
theorem fillSlots?_slot_by_slot_around_name :
    Directive.reference? "$x||t.k|.\n".toList =
      some (.reference ⟨.var "x".toList, [], [⟨"t".toList, some "k".toList⟩]⟩) ∧
    Text.defaultOf? "e".toList = some "|e".toList ∧
    Text.fillSlots? "|e".toList "$x||t.k|.\n".toList = some "$x|e|t.k|e.\n".toList ∧
    Spelling.ofText? "$x|e|t.k|e.\n".toList = some ⟨.var "x".toList, [],
      [⟨"e".toList, none⟩, ⟨"t".toList, some "k".toList⟩, ⟨"e".toList, some []⟩], true⟩ ∧
    ((Compiler.ofShared .empty).perform (.setDefault "e".toList)).Reachable ∧
    Directive.ofBody "$x||t.k|.\n".toList =
      .reference ⟨.var "x".toList, [], [⟨"t".toList, some "k".toList⟩]⟩ ∧
    ((Compiler.ofShared .empty).perform (.setDefault "e".toList)).render "$x||t.k|.\n".toList ≠
      .skipped := by
  have accepted : Directive.reference? "$x||t.k|.\n".toList =
      some (.reference ⟨.var "x".toList, [], [⟨"t".toList, some "k".toList⟩]⟩) := by
    decide +kernel
  have default : Text.defaultOf? "e".toList = some "|e".toList := by decide
  have read : Directive.ofBody "$x||t.k|.\n".toList =
      .reference ⟨.var "x".toList, [], [⟨"t".toList, some "k".toList⟩]⟩ := by
    decide +kernel
  have reached : ((Compiler.ofShared .empty).perform (.setDefault "e".toList)).Reachable :=
    (Compiler.Reachable.ofShared .empty).perform trivial
  have filled : Text.fillSlots? "|e".toList "$x||t.k|.\n".toList =
      some "$x|e|t.k|e.\n".toList := by decide
  obtain ⟨s, name, spelled, -, same, -, again⟩ :=
    fillSlots?_slot_by_slot.1 _ _ accepted _ _ default
  have spelling : Spelling.ofText? "$x||t.k|.\n".toList = some ⟨.var "x".toList, [],
      [⟨[], none⟩, ⟨"t".toList, some "k".toList⟩, ⟨[], some []⟩], true⟩ := by decide +kernel
  obtain rfl := Option.some.inj (spelled.symm.trans spelling)
  obtain rfl : "e".toList = name := (List.cons.inj same).2
  exact ⟨accepted, default, filled, (again _ filled).1, reached, read,
    (fillSlots?_slot_by_slot.2 _ reached _ _ read).2⟩

end BraceTemplate
