import BraceTemplate.Proofs.Exclusion
import BraceTemplate.Proofs.Rendering

/-!
# Blocks and their operands

A block is opened by a keyword, and the operand is everything behind the blanks that
follow it, copied as it stands. No keyword begins another, so that a body which begins
with a keyword is either that block or nothing; two keywords that open the same block
can be put in each other's place.
-/
namespace BraceTemplate

namespace Opener
variable {keyword keyword' : Text} {opener opener' : Opener}

theorem Names.eq_of_prefix (h : Names keyword opener) (h' : Names keyword' opener')
    (begins : keyword <+: keyword') : keyword = keyword' := by
  have apart : spellings.all fun a => spellings.all fun b =>
      !a.1.isPrefixOf b.1 || a.1 == b.1 := by decide
  have pair := List.all_eq_true.mp (List.all_eq_true.mp apart _ (names_iff_mem.mp h)) _
    (names_iff_mem.mp h')
  rw [List.isPrefixOf_iff_prefix.mpr begins] at pair
  exact eq_of_beq pair

/-- Behind a keyword, what opens a block does so behind any keyword of the same block. -/
theorem Opening.respell (names : Names keyword opener) (names' : Names keyword' opener)
    {found : Opener} {rest word blanks operand : Text}
    (h : Opening (keyword ++ rest) found word blanks operand) :
    Opening (keyword' ++ rest) found keyword' blanks operand := by
  have begins : keyword <+: keyword ++ rest := List.prefix_append keyword rest
  have word_begins : word <+: keyword ++ rest := h.whole ▸ List.prefix_append word _
  obtain rfl : keyword = word := by
    rcases List.prefix_or_prefix_of_prefix begins word_begins with shorter | longer
    · exact names.eq_of_prefix h.names shorter
    · exact (h.names.eq_of_prefix names longer).symm
  obtain rfl : rest = blanks ++ operand := List.append_cancel_left h.whole
  obtain rfl : opener = found := Option.some.inj (names.lookup.symm.trans h.names.lookup)
  exact ⟨names', rfl, h.nonempty, h.blank, h.begins⟩

theorem read?_respell (names : Names keyword opener) (names' : Names keyword' opener)
    (rest : Text) : read? (keyword ++ rest) = read? (keyword' ++ rest) := by
  apply Option.ext
  rintro ⟨found, operand⟩
  rw [read?_eq_some_iff, read?_eq_some_iff]
  constructor
  · rintro ⟨_, blanks, h⟩
    exact ⟨keyword', blanks, h.respell names names'⟩
  · rintro ⟨_, blanks, h⟩
    exact ⟨keyword, blanks, h.respell names' names⟩

theorem statement_eq (opener : Opener) (operand : Text) : opener.statement operand =
    "<?php ".toList ++ opener.keyword ++ "( ".toList ++ operand ++ " ): ?>".toList := by
  have close : " ): ?>".toList = " ):".toList ++ " ?>".toList := rfl
  rw [close]
  change "<?php ".toList ++ (opener.keyword ++ "( ".toList ++ operand ++ " ):".toList) ++
    " ?>".toList = _
  simp only [List.append_assoc]

end Opener

theorem Directive.block?_eq_some_iff {body operand : Text} {opener : Opener} :
    block? body = some (.block opener operand) ↔
      ∃ keyword blanks, Opener.Opening body opener keyword blanks operand := by
  rw [← Opener.read?_eq_some_iff, block?, Option.map_eq_some_iff]
  constructor
  · rintro ⟨⟨_, _⟩, found, ⟨⟩⟩
    exact found
  · intro found
    exact ⟨_, found, rfl⟩

/-- Only blocks begin with a keyword. -/
theorem Directive.ofBody_of_keyword {keyword : Text} {opener : Opener}
    (names : Opener.Names keyword opener) (rest : Text) :
    ofBody (keyword ++ rest) = (block? (keyword ++ rest)).getD .unrecognized := by
  obtain ⟨c, listed, head⟩ := names.head?_append rest
  have refused : comment? (keyword ++ rest) = none ∧ verbatim? (keyword ++ rest) = none ∧
      reference? (keyword ++ rest) = none := by
    simp only [List.mem_cons, List.not_mem_nil, or_false] at listed
    rcases listed with rfl | rfl | rfl
    all_goals
      exact ⟨comment?_eq_none (by simp [head]), verbatim?_eq_none (by simp [head]),
        reference?_eq_none (by simp [head])⟩
  have fixed := fixed?_append_eq_none names.not_begins_fixed rest
  simp [ofBody, readers, refused, fixed]

namespace Compiler
variable (c : Compiler)

theorem render_of_block {body operand : Text} {opener : Opener}
    (h : Directive.block? body = some (.block opener operand)) :
    c.render body = .rendered (opener.statement operand) [] := by
  have listed : Directive.block? ∈ Directive.readers := by simp [Directive.readers]
  simp [render, Directive.isEmpty_of_reader listed h, Directive.ofBody_of_reader listed h]

theorem render_of_keyword_alone {keyword : Text} {opener : Opener}
    (names : Opener.Names keyword opener) {rest : Text}
    (h : Directive.block? (keyword ++ rest) = none) : c.render (keyword ++ rest) = .skipped := by
  have read : Directive.ofBody (keyword ++ rest) = .unrecognized := by
    rw [Directive.ofBody_of_keyword names, h]
    rfl
  have nonempty : (keyword ++ rest).isEmpty = false := by
    cases names <;> rfl
  simp [render, nonempty, read]

theorem render_respell {keyword keyword' : Text} {opener : Opener}
    (names : Opener.Names keyword opener) (names' : Opener.Names keyword' opener) (rest : Text) :
    c.render (keyword ++ rest) = c.render (keyword' ++ rest) := by
  have same : Directive.block? (keyword ++ rest) = Directive.block? (keyword' ++ rest) := by
    rw [Directive.block?, Opener.read?_respell names names', Directive.block?]
  cases h : Opener.read? (keyword ++ rest) with
  | none =>
    have refused : Directive.block? (keyword ++ rest) = none := by rw [Directive.block?, h]; rfl
    rw [c.render_of_keyword_alone names refused, c.render_of_keyword_alone names' (same ▸ refused)]
  | some found =>
    have accepted : Directive.block? (keyword ++ rest) = some (.block found.1 found.2) := by
      rw [Directive.block?, h]
      rfl
    rw [c.render_of_block accepted, c.render_of_block (same ▸ accepted)]

end Compiler

/-- A body opens a block exactly if it is a keyword, blanks and an operand that begins with no
blank, and it is so in one way only. Every compiler copies the operand into the statement and
misses no modifier, and the short keyword of a loop does what the long one does. -/
theorem blocks_open_in_one_way :
    (∀ (body : Text) (opener : Opener) (operand : Text),
      Directive.block? body = some (.block opener operand) ↔
        ∃ keyword blanks, Opener.Opening body opener keyword blanks operand) ∧
    (∀ (body keyword blanks operand keyword' blanks' operand' : Text) (opener opener' : Opener),
      Opener.Opening body opener keyword blanks operand →
      Opener.Opening body opener' keyword' blanks' operand' →
        opener = opener' ∧ keyword = keyword' ∧ blanks = blanks' ∧ operand = operand') ∧
    (∀ (c : Compiler) (body : Text) (opener : Opener) (operand : Text),
      Directive.block? body = some (.block opener operand) →
        c.render body = .rendered ("<?php ".toList ++ opener.keyword ++ "( ".toList ++ operand ++
          " ): ?>".toList) []) ∧
    ∀ (c : Compiler) (rest : Text),
      c.render ("each".toList ++ rest) = c.render ("foreach".toList ++ rest) := by
  refine ⟨fun _ _ _ => Directive.block?_eq_some_iff, ?_, ?_, ?_⟩
  · intro _ _ _ _ _ _ _ _ _ h h'
    exact h.unique h'
  · intro c body opener operand h
    rw [c.render_of_block h, Opener.statement_eq]
  · intro c rest
    exact c.render_respell .shortLoop .loop rest

/-- The blanks are a wide one and a newline, and those inside and behind the operand are kept. -/
theorem blocks_open_in_one_way_wide_blank :
    Opener.Opening "each\u3000\n$a as $b ".toList .loop "each".toList "\u3000\n".toList
      "$a as $b ".toList ∧
    Directive.block? "each\u3000\n$a as $b ".toList = some (.block .loop "$a as $b ".toList) ∧
    (∀ (opener : Opener) (keyword blanks operand : Text),
      Opener.Opening "each\u3000\n$a as $b ".toList opener keyword blanks operand →
        operand = "$a as $b ".toList) ∧
    (Compiler.ofShared .empty).render "each\u3000\n$a as $b ".toList =
      .rendered "<?php foreach( $a as $b  ): ?>".toList [] := by
  have opening : Opener.Opening "each\u3000\n$a as $b ".toList .loop "each".toList
      "\u3000\n".toList "$a as $b ".toList :=
    ⟨.shortLoop, by decide, by decide, by decide, by decide⟩
  have read := (blocks_open_in_one_way.1 _ _ _).mpr ⟨_, _, opening⟩
  refine ⟨opening, read, ?_, ?_⟩
  · intro opener keyword blanks operand h
    exact (blocks_open_in_one_way.2.1 _ _ _ _ _ _ _ _ _ h opening).2.2.2
  · rw [blocks_open_in_one_way.2.2.1 _ _ _ _ read]
    decide

end BraceTemplate
