import BraceTemplate.Proofs.Layers
import BraceTemplate.Proofs.Occurrence
import BraceTemplate.Proofs.Rendering

/-!
# What a template can put into the code

The texts that a reference takes from a template are made of name characters. In the
expression they stand between marks of the compiler's own and texts of the registered
modifiers, so that every other character of the expression comes from these. If no
modifier brings a question mark, the code of a reference has none, and the mark that ends
it occurs only at its end.
-/
namespace BraceTemplate

namespace Text

/-- What is left of a text without its name characters: quotes, brackets and all other marks. -/
def outline (t : Text) : Text := t.filter fun c => !isNameChar c

@[simp] theorem outline_append (t u : Text) : outline (t ++ u) = outline t ++ outline u :=
  List.filter_append t u

theorem outline_of_all {t : Text} (inside : t.all isNameChar) : outline t = [] := by
  simpa [outline] using inside

end Text

namespace Root

def texts : Root → List Text
  | var name => [name]
  | constant owner name => [owner, name]
  | property owner name => [owner, name]

/-- The root with its texts left out. -/
def blank : Root → Root
  | var _ => var []
  | constant _ _ => constant [] []
  | property _ _ => property [] []

theorem WellFormed.texts {root : Root} (ok : root.WellFormed) :
    ∀ text ∈ root.texts, text.all isNameChar := by
  have inside : ∀ {name}, isName name = true → name.all isNameChar := fun named =>
    (isName_iff.mp named).2
  cases root with
  | var name => exact List.forall_mem_singleton.mpr (inside ok)
  | constant owner name =>
    exact List.forall_mem_cons.mpr ⟨inside ok.1, List.forall_mem_singleton.mpr (inside ok.2)⟩
  | property owner name =>
    exact List.forall_mem_cons.mpr ⟨inside ok.1, List.forall_mem_singleton.mpr (inside ok.2)⟩

end Root

namespace Access

def name : Access → Text
  | key name => name
  | member name => name

def blank : Access → Access
  | key _ => key []
  | member _ => member []

theorem WellFormed.name {access : Access} (ok : access.WellFormed) :
    access.name.all isNameChar := by
  cases access with
  | key name => exact (isName_iff.mp ok).2
  | member name => exact (isName_iff.mp ok).2

end Access

namespace Slot

def texts (slot : Slot) : List Text := slot.name :: slot.subKey.toList

/-- The slot without its sub-key; its name is kept, since it finds the modifier. -/
def blank (slot : Slot) : Slot := { slot with subKey := slot.subKey.map fun _ => [] }

end Slot

namespace Reference

/-- Every text that the reference takes from the template. -/
def texts (r : Reference) : List Text :=
  r.root.texts ++ (r.accesses.map Access.name ++ r.chain.flatMap Slot.texts)

/-- The reference with all texts left out that go into its expression. -/
def blank (r : Reference) : Reference :=
  ⟨r.root.blank, r.accesses.map Access.blank, r.chain.map Slot.blank⟩

end Reference

theorem Spelling.WellFormed.texts_reference {s : Spelling} (ok : s.WellFormed) :
    ∀ text ∈ s.reference.texts, text.all isNameChar := by
  intro text listed
  simp only [Reference.texts, List.mem_append, List.mem_map, List.mem_flatMap] at listed
  rcases listed with root | ⟨access, listed, rfl⟩ | ⟨slot, listed, here⟩
  · exact ok.root.texts text root
  · exact (ok.accesses access listed).name
  · obtain ⟨inside, keys⟩ := ok.slots slot (List.mem_filter.mp listed).1
    rcases List.mem_cons.mp here with rfl | key
    · exact inside
    · exact keys text (Option.mem_toList.mp key)

theorem Root.outline_expression {root : Root} (names : ∀ text ∈ root.texts, text.all isNameChar) :
    Text.outline root.expression = Text.outline root.blank.expression := by
  cases root with
  | var name =>
    have inside := Text.outline_of_all (names name (by simp [texts]))
    change Text.outline (['$'] ++ name) = Text.outline (['$'] ++ [])
    rw [Text.outline_append, inside]
    rfl
  | constant owner name =>
    have outer := Text.outline_of_all (names owner (by simp [texts]))
    have inside := Text.outline_of_all (names name (by simp [texts]))
    simp only [expression, blank, Text.outline_append, outer, inside]
    rfl
  | property owner name =>
    have outer := Text.outline_of_all (names owner (by simp [texts]))
    have inside := Text.outline_of_all (names name (by simp [texts]))
    simp only [expression, blank, Text.outline_append, outer, inside]
    rfl

theorem Access.outline_expression {access : Access} (inside : access.name.all isNameChar) :
    Text.outline access.expression = Text.outline access.blank.expression := by
  cases access with
  | key name =>
    have empty : Text.outline name = [] := Text.outline_of_all inside
    simp only [expression, blank, Text.outline_append, empty]
    rfl
  | member name =>
    have empty : Text.outline name = [] := Text.outline_of_all inside
    simp only [expression, blank, Text.outline_append, empty]
    rfl

theorem Access.outline_flatMap_expression {accesses : List Access}
    (names : ∀ access ∈ accesses, access.name.all isNameChar) :
    Text.outline (accesses.flatMap expression) =
      Text.outline ((accesses.map blank).flatMap expression) := by
  induction accesses with
  | nil => rfl
  | cons access rest ih =>
    obtain ⟨first, later⟩ := List.forall_mem_cons.mp names
    rw [List.map_cons, List.flatMap_cons, List.flatMap_cons, Text.outline_append,
      Text.outline_append, outline_expression first, ih later]

theorem Modifier.outline_opening (m : Modifier) {subKey : Option Text}
    (names : ∀ key ∈ subKey, key.all isNameChar) :
    Text.outline (m.opening subKey) = Text.outline (m.opening (subKey.map fun _ => [])) := by
  cases m with
  | wrap before after => rfl
  | call function =>
    cases subKey with
    | none => rfl
    | some key =>
      simp only [opening, Option.map_some, Text.outline_append,
        Text.outline_of_all (names key rfl)]
      rfl

theorem Registry.outline_applyChain (r : Registry) {chain : List Slot}
    (names : ∀ slot ∈ chain, ∀ key ∈ slot.subKey, key.all isNameChar) {e e' : Text}
    (same : Text.outline e = Text.outline e') :
    Text.outline (r.applyChain e chain).expression =
      Text.outline (r.applyChain e' (chain.map Slot.blank)).expression := by
  induction chain generalizing e e' with
  | nil => exact same
  | cons slot rest ih =>
    have later : ∀ other ∈ rest, ∀ key ∈ other.subKey, key.all isNameChar := fun other h =>
      names other (List.mem_cons_of_mem slot h)
    have name : slot.blank.name = slot.name := rfl
    rw [List.map_cons, applyChain, applyChain, name]
    cases r.find? slot.name with
    | none => exact ih later same
    | some m =>
      apply ih later
      simp [Modifier.apply, same, m.outline_opening (names slot List.mem_cons_self), Slot.blank]

/-- Name characters apart, an expression is what it would be if the template had given no text
at all. -/
theorem Reference.outline_applied {r : Reference} (names : ∀ text ∈ r.texts, text.all isNameChar)
    (registry : Registry) : Text.outline (r.applied registry).expression =
      Text.outline (r.blank.applied registry).expression := by
  simp only [texts, List.forall_mem_append, List.forall_mem_map, List.forall_mem_flatMap] at names
  obtain ⟨root, accesses, slots⟩ := names
  apply registry.outline_applyChain
  · intro slot listed key hkey
    exact slots slot listed key (List.mem_cons_of_mem _ (Option.mem_toList.mpr hkey))
  · rw [expression, Text.outline_append, Root.outline_expression root,
      Access.outline_flatMap_expression accesses, ← Text.outline_append]
    rfl

def Modifier.texts : Modifier → List Text
  | call function => [function]
  | wrap before after => [before, after]

/-- The characters that the compiler itself writes into an expression. -/
def ownMarks : List Char := ['$', ':', '[', '\'', ']', '-', '>', '(', ' ', ')']

section Free
variable {c : Char} (marks : c ∉ ownMarks)
include marks

theorem Root.not_mem_expression {root : Root} (free : ∀ text ∈ root.texts, c ∉ text) :
    c ∉ root.expression := by
  simp only [ownMarks, List.mem_cons, List.not_mem_nil, or_false, not_or] at marks
  cases root with
  | var name =>
    have inside := free name (by simp [texts])
    simp [expression, marks, inside]
  | constant owner name =>
    have outer := free owner (by simp [texts])
    have inside := free name (by simp [texts])
    simp [expression, marks, outer, inside]
  | property owner name =>
    have outer := free owner (by simp [texts])
    have inside := free name (by simp [texts])
    simp [expression, marks, outer, inside]

theorem Access.not_mem_expression {access : Access} (free : c ∉ access.name) :
    c ∉ access.expression := by
  simp only [ownMarks, List.mem_cons, List.not_mem_nil, or_false, not_or] at marks
  cases access with
  | key name =>
    have inside : c ∉ name := free
    simp [expression, marks, inside]
  | member name =>
    have inside : c ∉ name := free
    simp [expression, marks, inside]

theorem Modifier.not_mem_apply {m : Modifier} (free : ∀ text ∈ m.texts, c ∉ text)
    {subKey : Option Text} (keys : ∀ key ∈ subKey, c ∉ key) {e : Text} (he : c ∉ e) :
    c ∉ m.apply subKey e := by
  simp only [ownMarks, List.mem_cons, List.not_mem_nil, or_false, not_or] at marks
  cases m with
  | wrap before after =>
    have first := free before (by simp [texts])
    have last := free after (by simp [texts])
    simp [apply, opening, closing, first, last, he]
  | call function =>
    have name := free function (by simp [texts])
    cases subKey with
    | none => simp [apply, opening, closing, name, he, marks]
    | some key =>
      have inside := keys key rfl
      simp [apply, opening, closing, name, inside, he, marks]

theorem Registry.not_mem_applyChain {r : Registry}
    (modifiers : ∀ name m, r.find? name = some m → ∀ text ∈ m.texts, c ∉ text)
    {chain : List Slot} (keys : ∀ slot ∈ chain, ∀ key ∈ slot.subKey, c ∉ key) {e : Text}
    (he : c ∉ e) : c ∉ (r.applyChain e chain).expression := by
  induction chain generalizing e with
  | nil => exact he
  | cons slot rest ih =>
    obtain ⟨first, later⟩ := List.forall_mem_cons.mp keys
    rw [applyChain]
    cases found : r.find? slot.name with
    | none => exact ih later he
    | some m =>
      exact ih later (Modifier.not_mem_apply marks (modifiers slot.name m found) first he)

theorem Reference.not_mem_applied {r : Reference} (free : ∀ text ∈ r.texts, c ∉ text)
    {registry : Registry}
    (modifiers : ∀ name m, registry.find? name = some m → ∀ text ∈ m.texts, c ∉ text) :
    c ∉ (r.applied registry).expression := by
  simp only [texts, List.forall_mem_append, List.forall_mem_map, List.forall_mem_flatMap] at free
  obtain ⟨root, accesses, slots⟩ := free
  apply Registry.not_mem_applyChain marks modifiers
  · intro slot listed key hkey
    exact slots slot listed key (List.mem_cons_of_mem _ (Option.mem_toList.mpr hkey))
  · simp only [expression, List.mem_append, List.mem_flatMap, not_or, not_exists, not_and]
    exact ⟨Root.not_mem_expression marks root,
      fun access listed => Access.not_mem_expression marks (accesses access listed)⟩

end Free

/-- Code without a question mark is ended by the closing mark alone, since a letter follows the
question mark of the opening one. -/
theorem phpCode_eq_append_iff {code : Text} (free : '?' ∉ code) {before after : Text} :
    phpCode code = before ++ ("?>".toList ++ after) ↔
      before = "<?php ".toList ++ code ++ [' '] ∧ after = [] := by
  have whole : phpCode code = '<' :: '?' :: ("php ".toList ++ (code ++ [' ']) ++ '?' :: ['>']) := by
    change "<?php ".toList ++ code ++ " ?>".toList = _
    rw [List.append_assoc, List.append_assoc, List.append_assoc]
    rfl
  constructor
  · intro same
    rw [whole] at same
    match before with
    | [] => exact absurd (List.cons.inj same).1 (by decide)
    | [first] =>
      have letter := (List.cons.inj (List.cons.inj (List.cons.inj same).2).2).1
      exact absurd letter (by decide)
    | first :: second :: rest =>
      obtain ⟨hfirst, same⟩ := List.cons.inj same
      obtain ⟨hsecond, same⟩ := List.cons.inj same
      have inside : '?' ∉ "php ".toList ++ (code ++ [' ']) := by simp [free]
      obtain ⟨hrest, same⟩ := Text.eq_of_append_cons_eq_of_once inside (by decide) same
      rw [← hfirst, ← hsecond, ← hrest]
      exact ⟨rfl, (List.cons.inj same).2.symm⟩
  · rintro ⟨rfl, rfl⟩
    rw [List.append_assoc]
    rfl

namespace Compiler

/-- What stands between the marks when a reference is printed; the body is noted for debugging. -/
def referenceCode (c : Compiler) (body : Text) (target : Reference) : Text :=
  "echo ".toList ++ (target.applied c.registry).expression ++ ";".toList ++
    if c.debug then " /* ".toList ++ body ++ " */".toList else []

theorem renderReference_eq (c : Compiler) (body : Text) (target : Reference) :
    c.renderReference body target =
      .rendered (phpCode (c.referenceCode body target)) (target.applied c.registry).missing := by
  obtain ⟨registry, slot, debug⟩ := c
  cases debug with
  | false => rfl
  | true => rfl

theorem not_mem_referenceCode {c : Compiler} {body : Text} {target : Reference}
    (expression : '?' ∉ (target.applied c.registry).expression) (note : '?' ∉ body) :
    '?' ∉ c.referenceCode body target := by
  change '?' ∉ "echo ".toList ++ (target.applied c.registry).expression ++ ";".toList ++
    if c.debug then " /* ".toList ++ body ++ " */".toList else []
  cases c.debug with
  | false => simp [expression]
  | true => simp [expression, note]

end Compiler

/-- A reference becomes one piece of code, which nothing in the template can end early or
add marks to. The default modifier may have been filled in. -/
theorem reference_code_contained {c : Compiler} (reached : c.Reachable)
    (safe : ∀ name m, c.registry.find? name = some m → ∀ text ∈ m.texts, '?' ∉ text)
    {body : Text} {source : Reference} (accepted : Reference.ofText? body = some source) :
    (∀ text ∈ source.texts, text.all isNameChar) ∧
    ∃ target : Reference, Reference.ofText? (c.filledBody body) = some target ∧
      (∀ text ∈ target.texts, text.all isNameChar) ∧
      Text.outline (target.applied c.registry).expression =
        Text.outline (target.blank.applied c.registry).expression ∧
      c.render body = .rendered (phpCode (c.referenceCode (c.filledBody body) target))
        (target.applied c.registry).missing ∧
      '?' ∉ c.referenceCode (c.filledBody body) target ∧
      ∀ before after, phpCode (c.referenceCode (c.filledBody body) target) =
          before ++ ("?>".toList ++ after) ↔
        before = "<?php ".toList ++ c.referenceCode (c.filledBody body) target ++ [' '] ∧
          after = [] := by
  obtain ⟨s, read, rfl⟩ := Option.map_eq_some_iff.mp accepted
  obtain ⟨ok, rfl⟩ := Spelling.ofText?_eq_some.mp read
  have named := reached.defaultNamed
  have filled := Compiler.wellFormed_fillSpelling named ok
  have texts := filled.texts_reference
  have free : '?' ∉ c.referenceCode (c.fillSpelling s).text (c.fillSpelling s).reference := by
    apply Compiler.not_mem_referenceCode
    · apply Reference.not_mem_applied (by decide) _ safe
      intro text listed
      exact not_mem_of_all (texts text listed) (by decide)
    · exact filled.text_free (by decide) (by decide)
  rw [Compiler.filledBody_text named ok]
  refine ⟨ok.texts_reference, (c.fillSpelling s).reference, ?_, texts,
    Reference.outline_applied texts c.registry, ?_, free, ?_⟩
  · rw [Reference.ofText?, Spelling.ofText?_text filled]
    rfl
  · rw [Compiler.render_text named ok, Compiler.renderReference_eq]
  · intro before after
    exact phpCode_eq_append_iff free

/-- A default with an entry in the shared layer fills the slot, and the body is noted. -/
theorem reference_code_contained_default :
    Compiler.Reachable ⟨⟨Layer.empty.insert "h".toList (.call "f".toList), .empty⟩,
      some "|h".toList, true⟩ ∧
    (∀ name m, Registry.find? ⟨Layer.empty.insert "h".toList (.call "f".toList), .empty⟩ name =
      some m → ∀ text ∈ m.texts, '?' ∉ text) ∧
    Reference.ofText? "$a.k|".toList = some ⟨.var "a".toList, [.key "k".toList], []⟩ ∧
    ∃ code, Compiler.render ⟨⟨Layer.empty.insert "h".toList (.call "f".toList), .empty⟩,
        some "|h".toList, true⟩ "$a.k|".toList = .rendered (phpCode code) [] ∧
      code = "echo f( $a['k'] ); /* $a.k|h */".toList ∧ '?' ∉ code := by
  have reached : Compiler.Reachable ⟨⟨Layer.empty.insert "h".toList (.call "f".toList), .empty⟩,
      some "|h".toList, true⟩ :=
    ((Compiler.Reachable.ofShared (.insert .empty "h".toList (.call "f".toList))).perform
      (show Command.Built (.setDefault "h".toList) from trivial)).perform
        (show Command.Built (.setDebug true) from trivial)
  have safe : ∀ name m, Registry.find? ⟨Layer.empty.insert "h".toList (.call "f".toList), .empty⟩
      name = some m → ∀ text ∈ m.texts, '?' ∉ text := by
    intro name m found
    rw [Registry.find?, Layer.get?_empty, Layer.get?_insert] at found
    split at found
    · cases found
      decide
    · cases found
  have accepted : Reference.ofText? "$a.k|".toList =
      some ⟨.var "a".toList, [.key "k".toList], []⟩ := by decide +kernel
  obtain ⟨-, target, filled, -, -, rendered, free, -⟩ :=
    reference_code_contained reached safe accepted
  obtain rfl : (⟨.var "a".toList, [.key "k".toList], [⟨"h".toList, none⟩]⟩ : Reference) = target :=
    Option.some.inj (Eq.trans (by decide +kernel) filled)
  exact ⟨reached, safe, accepted, _, rendered, by decide +kernel, free⟩

end BraceTemplate
