import BraceTemplate.Proofs.Containment
import BraceTemplate.Proofs.Grammar

/-!
# An expression tells where it comes from

In an expression names and marks take turns, and the marks before a name say what kind of
root or access it belongs to. So the text of an expression can be taken apart in only one
way, and two references with the same expression have the same root and the same
accesses. Two directives without modifiers that are printed alike are then written alike,
but for a final newline.
-/
namespace BraceTemplate

def isMark (c : Char) : Bool := !isNameChar c

/-- Marks end where a name begins. -/
theorem isMark_head?_append {name : Text} (named : isName name = true) (rest : Text) :
    (name ++ rest).head?.any isMark = false := by
  obtain ⟨nonempty, inside⟩ := isName_iff.mp named
  obtain ⟨c, more, rfl⟩ := List.exists_cons_of_ne_nil nonempty
  have first : isNameChar c = true := List.all_eq_true.mp inside c List.mem_cons_self
  simp [isMark, first]

namespace Root

/-- The class that the root belongs to, if there is one. -/
def owner : Root → Text
  | var _ => []
  | constant owner _ => owner
  | property owner _ => owner

/-- What stands before the name. -/
def mark : Root → Text
  | var _ => ['$']
  | constant _ _ => [':', ':']
  | property _ _ => [':', ':', '$']

def name : Root → Text
  | var name => name
  | constant _ name => name
  | property _ name => name

theorem expression_eq (root : Root) :
    root.expression = root.owner ++ (root.mark ++ root.name) := by
  cases root with
  | var name => rfl
  | constant owner name => exact List.append_assoc ..
  | property owner name => exact List.append_assoc ..

theorem WellFormed.owner {root : Root} (ok : root.WellFormed) : root.owner.all isNameChar := by
  cases root with
  | var name => rfl
  | constant owner name => exact (isName_iff.mp ok.1).2
  | property owner name => exact (isName_iff.mp ok.1).2

theorem WellFormed.name {root : Root} (ok : root.WellFormed) : isName root.name = true := by
  cases root with
  | var name => exact ok
  | constant owner name => exact ok.2
  | property owner name => exact ok.2

theorem stops_mark (root : Root) (rest : Text) : Stops (root.mark ++ rest) := by
  cases root with
  | var name => exact stops_cons.mpr (by decide)
  | constant owner name => exact stops_cons.mpr (by decide)
  | property owner name => exact stops_cons.mpr (by decide)

theorem all_mark (root : Root) : root.mark.all isMark := by
  cases root with
  | var name => rfl
  | constant owner name => rfl
  | property owner name => rfl

theorem eq_of_parts {root root' : Root} (owners : root.owner = root'.owner)
    (marks : root.mark = root'.mark) (names : root.name = root'.name) : root = root' := by
  cases root with
  | var name =>
    cases root' with
    | var name' => exact congrArg var names
    | constant owner' name' => cases marks
    | property owner' name' => cases marks
  | constant owner name =>
    cases root' with
    | var name' => cases marks
    | constant owner' name' => exact congrArg₂ constant owners names
    | property owner' name' => cases marks
  | property owner name =>
    cases root' with
    | var name' => cases marks
    | constant owner' name' => cases marks
    | property owner' name' => exact congrArg₂ property owners names

/-- Owner, mark and name are runs of which each is ended by the next. -/
theorem expression_append_inj {root root' : Root} (ok : root.WellFormed)
    (ok' : root'.WellFormed) {rest rest' : Text} (stops : Stops rest) (stops' : Stops rest')
    (same : root.expression ++ rest = root'.expression ++ rest') :
    root = root' ∧ rest = rest' := by
  simp only [expression_eq, List.append_assoc] at same
  obtain ⟨owners, same⟩ := run_unique ok.owner (root.stops_mark _) ok'.owner
    (root'.stops_mark _) same
  obtain ⟨marks, same⟩ := run_unique root.all_mark (isMark_head?_append ok.name rest)
    root'.all_mark (isMark_head?_append ok'.name rest') same
  obtain ⟨names, same⟩ := run_unique (isName_iff.mp ok.name).2 stops (isName_iff.mp ok'.name).2
    stops' same
  exact ⟨eq_of_parts owners marks names, same⟩

end Root

namespace Access

/-- What stands before the name. -/
def mark : Access → Text
  | key _ => ['[', '\'']
  | member _ => ['-', '>']

/-- What stands behind the name. -/
def closing : Access → Text
  | key _ => ['\'', ']']
  | member _ => []

theorem expression_eq (access : Access) :
    access.expression = access.mark ++ (access.name ++ access.closing) := by
  cases access with
  | key name => exact List.append_assoc ..
  | member name => exact congrArg (['-', '>'] ++ ·) (List.append_nil name).symm

theorem WellFormed.isName_name {access : Access} (ok : access.WellFormed) :
    isName access.name = true := by
  cases access with
  | key name => exact ok
  | member name => exact ok

theorem all_mark (access : Access) : access.mark.all isMark := by
  cases access with
  | key name => rfl
  | member name => rfl

theorem stops_closing (access : Access) {rest : Text} (stops : Stops rest) :
    Stops (access.closing ++ rest) := by
  cases access with
  | key name => exact stops_cons.mpr (by decide)
  | member name => exact stops

theorem stops_expression (access : Access) (rest : Text) : Stops (access.expression ++ rest) := by
  cases access with
  | key name => exact stops_cons.mpr (by decide)
  | member name => exact stops_cons.mpr (by decide)

/-- The mark before a name tells the kind of the access. -/
theorem expression_append_inj {access access' : Access} (ok : access.WellFormed)
    (ok' : access'.WellFormed) {rest rest' : Text} (stops : Stops rest) (stops' : Stops rest')
    (same : access.expression ++ rest = access'.expression ++ rest') :
    access = access' ∧ rest = rest' := by
  simp only [expression_eq, List.append_assoc] at same
  obtain ⟨marks, same⟩ := run_unique access.all_mark (isMark_head?_append ok.isName_name _)
    access'.all_mark (isMark_head?_append ok'.isName_name _) same
  obtain ⟨names, same⟩ := run_unique ok.name (access.stops_closing stops) ok'.name
    (access'.stops_closing stops') same
  cases access with
  | key name =>
    cases access' with
    | key name' => exact ⟨congrArg key names, List.append_cancel_left same⟩
    | member name' => cases marks
  | member name =>
    cases access' with
    | key name' => cases marks
    | member name' => exact ⟨congrArg member names, same⟩

theorem stops_flatMap_expression (accesses : List Access) :
    Stops (accesses.flatMap expression) := by
  cases accesses with
  | nil => rfl
  | cons access accesses => exact access.stops_expression _

theorem flatMap_expression_inj {accesses accesses' : List Access}
    (ok : ∀ access ∈ accesses, access.WellFormed) (ok' : ∀ access ∈ accesses', access.WellFormed)
    (same : accesses.flatMap expression = accesses'.flatMap expression) :
    accesses = accesses' := by
  have nonempty : ∀ (access : Access) (rest : Text), access.expression ++ rest ≠ [] := by
    intro access rest
    cases access <;> simp [expression]
  induction accesses generalizing accesses' with
  | nil =>
    cases accesses' with
    | nil => rfl
    | cons access' accesses' => exact absurd same.symm (nonempty access' _)
  | cons access accesses ih =>
    cases accesses' with
    | nil => exact absurd same (nonempty access _)
    | cons access' accesses' =>
      obtain ⟨first, later⟩ := List.forall_mem_cons.mp ok
      obtain ⟨first', later'⟩ := List.forall_mem_cons.mp ok'
      obtain ⟨rfl, rest⟩ := expression_append_inj first first' (stops_flatMap_expression accesses)
        (stops_flatMap_expression accesses') same
      rw [ih later later' rest]

end Access

theorem Reference.expression_inj {r r' : Reference} (root : r.root.WellFormed)
    (accesses : ∀ access ∈ r.accesses, access.WellFormed) (root' : r'.root.WellFormed)
    (accesses' : ∀ access ∈ r'.accesses, access.WellFormed)
    (same : r.expression = r'.expression) : r.root = r'.root ∧ r.accesses = r'.accesses := by
  obtain ⟨roots, rest⟩ := Root.expression_append_inj root root'
    (Access.stops_flatMap_expression r.accesses) (Access.stops_flatMap_expression r'.accesses) same
  exact ⟨roots, Access.flatMap_expression_inj accesses accesses' rest⟩

namespace Spelling
variable {s s' : Spelling}

theorem slots_eq_nil_of_free (free : '|' ∉ s.text) : s.slots = [] := by
  cases h : s.slots with
  | nil => rfl
  | cons slot slots =>
    rw [text_eq_front, h, slotsText_cons, Slot.text_eq] at free
    simp at free

theorem text_of_slots_eq_nil (none : s.slots = []) : s.text = s.front ++ ending s.newline := by
  rw [text_eq_front, none]
  rfl

theorem dropNewline_text (ok : s.WellFormed) (none : s.slots = []) :
    Text.dropNewline s.text = s.front := by
  rw [text_of_slots_eq_nil none]
  cases s.newline with
  | true => simp [ending, Text.dropNewline]
  | false =>
    have free : '\n' ∉ s.front := ok.front_free (by decide) (by decide)
    have last : s.front.getLast? ≠ some '\n' := fun h => free (List.mem_of_getLast? h)
    simp [ending, Text.dropNewline, last]

/-- What stands before the slots is itself a text of the grammar, with one spelling. -/
theorem front_inj (ok : s.WellFormed) (ok' : s'.WellFormed) :
    s.front = s'.front ↔ s.root = s'.root ∧ s.accesses = s'.accesses := by
  constructor
  · intro same
    have bare : Spelling.mk s.root s.accesses [] false = ⟨s'.root, s'.accesses, [], false⟩ := by
      refine eq_of_text ⟨ok.root, ok.accesses, by simp⟩ ⟨ok'.root, ok'.accesses, by simp⟩ ?_
      rw [text_of_slots_eq_nil rfl, text_of_slots_eq_nil rfl]
      exact congrArg (· ++ []) same
    obtain ⟨root, accesses, -⟩ := Spelling.mk.inj bare
    exact ⟨root, accesses⟩
  · rintro ⟨root, accesses⟩
    rw [front, root, accesses]
    rfl

theorem expression_eq_iff (ok : s.WellFormed) (ok' : s'.WellFormed) :
    s.reference.expression = s'.reference.expression ↔ s.front = s'.front := by
  rw [front_inj ok ok']
  constructor
  · exact Reference.expression_inj ok.root ok.accesses ok'.root ok'.accesses
  · rintro ⟨root, accesses⟩
    rw [Reference.expression, reference, root, accesses]
    rfl

end Spelling

theorem printStatement_inj {e e' : Text} :
    printStatement e none = printStatement e' none ↔ e = e' := by
  constructor
  · intro same
    have code : "echo ".toList ++ e ++ ";".toList ++ [] =
        "echo ".toList ++ e' ++ ";".toList ++ [] :=
      List.append_cancel_left (List.append_cancel_right same)
    exact List.append_cancel_left (List.append_cancel_right (List.append_cancel_right code))
  · rintro rfl
    rfl

namespace Compiler
variable (c : Compiler)

theorem filledBody_of_free {body : Text} (free : '|' ∉ body) : c.filledBody body = body := by
  have full : Text.hasEmptySlot body = false := by
    simpa [Text.hasEmptySlot] using Text.hasEmptySlot_append_of_free free []
  cases h : c.defaultSlot with
  | none => simp [filledBody, h]
  | some filler => simp [filledBody, h, Text.fillSlots?, full]

/-- Without modifiers, every compiler prints the bare expression. -/
theorem render_of_free (quiet : c.debug = false) {s : Spelling} (ok : s.WellFormed)
    (free : '|' ∉ s.text) :
    c.render s.text = .rendered (printStatement s.reference.expression none) [] := by
  have applied : s.reference.applied c.registry = ⟨s.reference.expression, []⟩ := by
    rw [Reference.applied, Spelling.reference, Spelling.slots_eq_nil_of_free free]
    rfl
  have read : Reference.ofText? s.text = some s.reference := by
    rw [Reference.ofText?, Spelling.ofText?_text ok]
    rfl
  simp [render, s.isEmpty_text, Spelling.ofBody_text ok, c.filledBody_of_free free, read,
    renderReference, applied, quiet]

end Compiler

/-- References with the same expression have the same root and the same accesses. Directives
without modifiers are therefore printed alike only if they are the same but for a final
newline, and then they are. -/
theorem expression_injective :
    (∀ r r' : Reference, r.root.WellFormed → (∀ access ∈ r.accesses, access.WellFormed) →
      r'.root.WellFormed → (∀ access ∈ r'.accesses, access.WellFormed) →
      r.expression = r'.expression → r.root = r'.root ∧ r.accesses = r'.accesses) ∧
    ∀ c : Compiler, c.debug = false → ∀ (body body' : Text) (target target' : Reference),
      '|' ∉ body → '|' ∉ body' →
      Directive.reference? body = some (.reference target) →
      Directive.reference? body' = some (.reference target') →
        ∃ text text' : Text, c.render body = .rendered text [] ∧
          c.render body' = .rendered text' [] ∧
          (text = text' ↔ Text.dropNewline body = Text.dropNewline body') := by
  constructor
  · intro r r' root accesses root' accesses' same
    exact Reference.expression_inj root accesses root' accesses' same
  · intro c quiet body body' target target' free free' read read'
    obtain ⟨s, ok, rfl, -⟩ := Directive.reference?_eq_some_iff.mp read
    obtain ⟨s', ok', rfl, -⟩ := Directive.reference?_eq_some_iff.mp read'
    refine ⟨_, _, c.render_of_free quiet ok free, c.render_of_free quiet ok' free', ?_⟩
    rw [printStatement_inj, Spelling.expression_eq_iff ok ok',
      Spelling.dropNewline_text ok (Spelling.slots_eq_nil_of_free free),
      Spelling.dropNewline_text ok' (Spelling.slots_eq_nil_of_free free')]

/-- A dot as the mark of a property and as that of a key; the references differ in what the
expression does not show, and the bodies in their newline. -/
theorem expression_injective_newline :
    ∃ r r' : Reference, r.root.WellFormed ∧ (∀ access ∈ r.accesses, access.WellFormed) ∧
      r'.root.WellFormed ∧ (∀ access ∈ r'.accesses, access.WellFormed) ∧ r ≠ r' ∧
      r.expression = "c::$n['k']".toList ∧ r'.expression = "c::$n['k']".toList ∧
      r.root = r'.root ∧ r.accesses = r'.accesses ∧
      Directive.reference? "&c.n.k".toList = some (.reference r) ∧
      Directive.reference? "&c.n.k\n".toList = some (.reference r) ∧
      (Compiler.ofShared .empty).render "&c.n.k".toList =
        (Compiler.ofShared .empty).render "&c.n.k\n".toList := by
  let r : Reference := ⟨.property "c".toList "n".toList, [.key "k".toList], []⟩
  let r' : Reference := { r with chain := [⟨"x".toList, none⟩] }
  have root : r.root.WellFormed := ⟨by decide, by decide⟩
  have accesses : ∀ access ∈ r.accesses, access.WellFormed :=
    List.forall_mem_singleton.mpr (show isName _ = true by decide)
  have same := expression_injective.1 r r' root accesses root accesses rfl
  have read : Directive.reference? "&c.n.k".toList = some (.reference r) := by decide +kernel
  have read' : Directive.reference? "&c.n.k\n".toList = some (.reference r) := by decide +kernel
  obtain ⟨text, text', rendered, rendered', alike⟩ := expression_injective.2
    (.ofShared .empty) rfl _ _ r r (by decide) (by decide) read read'
  refine ⟨r, r', root, accesses, root, accesses, by decide, by decide, by decide, same.1, same.2,
    read, read', ?_⟩
  rw [rendered, rendered', alike.mpr (by decide)]

end BraceTemplate
