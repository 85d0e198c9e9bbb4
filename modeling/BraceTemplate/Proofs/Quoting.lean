import BraceTemplate.Proofs.Classification
import BraceTemplate.Proofs.Composition

/-!
# Text that is not read

A template has three ways to keep text from being read. What stands in a comment is left
out and what stands in a verbatim passage is copied, whatever braces, directives and
halves of closing marks are in it; each ends at the first mark that closes it, and closed
text before it and any text after it compile as they would without it. Where the closing
tag itself is to be printed, every brace can be written as a directive.
-/
namespace BraceTemplate

theorem closeBody_comment {u : Text} (free : ¬ ['*', '}'] <:+: '*' :: u) (rest : Text) :
    closeBody ('*' :: (u ++ '*' :: '}' :: rest)) = some ('*' :: (u ++ ['*']), rest) := by
  have starts : Fence.comment.opening <+: '*' :: u := ⟨u, rfl⟩
  have closes := Fence.close_append_of_free rfl (by decide) starts free rest
  exact closeBody_eq_some_cases.mpr (Or.inl closes)

/-- A verbatim passage ends at the first closing tag, and none begins inside the opening one. -/
theorem closeBody_verbatim {t : Text} (free : ¬ "\x7b/literal\x7d".toList <:+: t) (rest : Text) :
    closeBody ("literal\x7d".toList ++ (t ++ ("\x7b/literal\x7d".toList ++ rest))) =
      some ("literal\x7d".toList ++ (t ++ "\x7b/literal".toList), rest) := by
  have starts : Fence.verbatim.opening <+: Fence.verbatim.opening ++ t := List.prefix_append _ t
  have clear : ¬ Fence.verbatim.closing <:+: Fence.verbatim.opening ++ t :=
    mt (Text.infix_append_iff_of_free (by decide) _ t).mp free
  have closes := Fence.close_append_of_free rfl (by decide) starts clear rest
  rw [List.append_assoc, List.append_assoc] at closes
  have noComment : ¬ Fence.comment.Fits
      (Fence.verbatim.opening ++ (t ++ (Fence.verbatim.closing ++ rest))) := fun comment =>
    Fence.not_verbatim_opens comment.1 (List.prefix_append _ _)
  exact closeBody_eq_some_cases.mpr (Or.inr ⟨noComment, Or.inl closes⟩)

namespace Compiler
variable (c : Compiler)

theorem render_comment (u : Text) : c.render ('*' :: (u ++ ['*'])) = .rendered [] [] := by
  have read : Directive.ofBody ('*' :: (u ++ ['*'])) = .comment := by
    apply Directive.ofBody_eq_comment_iff.mpr
    exact Text.isComment_iff.mpr ⟨⟨_, rfl⟩, Or.inl ⟨'*' :: u, rfl⟩⟩
  rw [render, read]
  rfl

theorem render_verbatim (t : Text) :
    c.render ("literal\x7d".toList ++ (t ++ "\x7b/literal".toList)) = .rendered t [] := by
  have read : Directive.ofBody ("literal\x7d".toList ++ (t ++ "\x7b/literal".toList)) =
      .verbatim t :=
    Directive.ofBody_eq_verbatim_iff.mpr (Text.verbatim?_eq_some_iff.mpr rfl)
  rw [render, read]
  rfl

/-- A directive at the front of a text is rendered and the rest is compiled after it. -/
theorem compileText_directive {inside body rest : Text}
    (closes : closeBody inside = some (body, rest)) :
    c.compileText ('{' :: inside) = (c.render body).output ++ c.compileText rest := by
  obtain ⟨rfl, isBody⟩ := closeBody_eq_some_iff.mp closes
  have step : c.compileText ([] ++ '{' :: (body ++ '}' :: rest)) = _ :=
    c.compileText_step List.not_mem_nil isBody
  exact step.trans (Output.empty_append _)

theorem compileText_comment {u : Text} (free : ¬ ['*', '}'] <:+: '*' :: u) (q : Text) :
    c.compileText ("\x7b*".toList ++ (u ++ ("*\x7d".toList ++ q))) =
      ⟨[], 0, ∅⟩ ++ c.compileText q := by
  have step := c.compileText_directive (closeBody_comment free q)
  rwa [render_comment] at step

theorem compileText_verbatim {t : Text} (free : ¬ "\x7b/literal\x7d".toList <:+: t) (q : Text) :
    c.compileText ("\x7bliteral\x7d".toList ++ (t ++ ("\x7b/literal\x7d".toList ++ q))) =
      ⟨t, 0, ∅⟩ ++ c.compileText q := by
  have step := c.compileText_directive (closeBody_verbatim free q)
  rwa [render_verbatim] at step

end Compiler

/-- An output with a text between the codes of two others and their counts added. -/
structure Output.Joins (out first : Output) (between : Text) (second : Output) : Prop where
  code : out.code = first.code ++ (between ++ second.code)
  skipped : out.skipped = first.skipped + second.skipped
  unresolved : ∀ name : Text, out.unresolved[name]? =
    Option.merge (fun m n : Nat => m + n) first.unresolved[name]? second.unresolved[name]?

theorem Output.joins_append (a b : Output) (t : Text) : (a ++ (⟨t, 0, ∅⟩ ++ b)).Joins a t b := by
  refine ⟨rfl, ?_, ?_⟩
  · change a.skipped + (0 + b.skipped) = a.skipped + b.skipped
    omega
  · intro name
    change (a.unresolved.merge (Tally.merge ∅ b.unresolved))[name]? = _
    rw [Tally.empty_merge, Tally.getElem?_merge]

/-- Behind closed text and before any text, a verbatim passage is copied as it stands and a
comment is left out, and neither counts for anything. -/
theorem passages_not_read {p : Text} (closed : Closed p) (q : Text) (c : Compiler) :
    (∀ t : Text, ¬ "\x7b/literal\x7d".toList <:+: t →
      (c.compileText (p ++ ("\x7bliteral\x7d".toList ++
        (t ++ ("\x7b/literal\x7d".toList ++ q))))).Joins
          (c.compileText p) t (c.compileText q)) ∧
    ∀ u : Text, ¬ "*\x7d".toList <:+: '*' :: u →
      (c.compileText (p ++ ("\x7b*".toList ++ (u ++ ("*\x7d".toList ++ q))))).Joins
        (c.compileText p) [] (c.compileText q) := by
  constructor
  · intro t free
    rw [c.compileText_append closed, c.compileText_verbatim free]
    exact Output.joins_append _ _ t
  · intro u free
    rw [c.compileText_append closed, c.compileText_comment free]
    exact Output.joins_append _ _ []

/-- The passage has the opening of a comment and most of its own closing tag in it, the comment
has the opening tag of a passage in it and two stars at its end, and what follows starts like
the end of a comment. -/
theorem passages_not_read_half_tag :
    Closed "a\x7b$x\x7d".toList ∧
    ¬ "\x7b/literal\x7d".toList <:+: "\x7b*\x7b$y\x7d\x7b/literal".toList ∧
    ¬ "*\x7d".toList <:+: '*' :: "\x7bliteral\x7d\x7b?\x7d*".toList ∧
    ((Compiler.ofShared .empty).compileText ("a\x7b$x\x7d".toList ++ ("\x7bliteral\x7d".toList ++
      ("\x7b*\x7b$y\x7d\x7b/literal".toList ++ ("\x7b/literal\x7d".toList ++
        "*\x7d\x7b?\x7d".toList))))).code =
      "a<?php echo $x; ?>\x7b*\x7b$y\x7d\x7b/literal*\x7d".toList ∧
    ((Compiler.ofShared .empty).compileText ("a\x7b$x\x7d".toList ++ ("\x7b*".toList ++
      ("\x7bliteral\x7d\x7b?\x7d*".toList ++ ("*\x7d".toList ++
        "*\x7d\x7b?\x7d".toList))))).skipped = 1 := by
  have closed : Closed "a\x7b$x\x7d".toList := by decide +kernel
  have tag : ¬ "\x7b/literal\x7d".toList <:+: "\x7b*\x7b$y\x7d\x7b/literal".toList := by
    decide +kernel
  have mark : ¬ "*\x7d".toList <:+: '*' :: "\x7bliteral\x7d\x7b?\x7d*".toList := by
    decide +kernel
  obtain ⟨copied, left⟩ :=
    passages_not_read closed "*\x7d\x7b?\x7d".toList (.ofShared .empty)
  refine ⟨closed, tag, mark, ?_, ?_⟩
  · exact (copied _ tag).code.trans (by decide +kernel)
  · exact (left _ mark).skipped.trans (by decide +kernel)

namespace Text

/-- A brace is written as a directive, with the long or the short word for it. -/
def escapeChar (long : Bool) (x : Char) : Text :=
  if x = '{' then
    if long then "\x7bldelim\x7d".toList else "\x7bld\x7d".toList
  else if x = '}' then
    if long then "\x7brdelim\x7d".toList else "\x7brd\x7d".toList
  else [x]

/-- The text with all its braces written as directives; which word is taken is chosen for each
place on its own. -/
def escape (long : Nat → Bool) : Text → Text
  | [] => []
  | x :: t => escapeChar (long 0) x ++ escape (fun place => long (place + 1)) t

end Text

namespace Compiler
variable (c : Compiler)

theorem compileText_fixed (word : Text) (meaning : FixedWord)
    (listed : (word, meaning) ∈ FixedWord.spellings) (rest : Text) :
    c.compileText ('{' :: (word ++ '}' :: rest)) =
      ⟨meaning.output, 0, ∅⟩ ++ c.compileText rest := by
  have plain : ∀ entry ∈ FixedWord.spellings, '}' ∉ entry.1 ∧ entry.1.head? ≠ some '*' ∧
      entry.1 ≠ "literal".toList ∧ entry.1.isEmpty = false := by decide
  have read : ∀ entry ∈ FixedWord.spellings, Directive.ofBody entry.1 = .fixed entry.2 := by
    decide
  obtain ⟨free, star, tag, nonempty⟩ := plain _ listed
  have closes : closeBody (word ++ '}' :: rest) = some (word, rest) :=
    closeBody_eq_some_iff.mpr ⟨rfl, .of_plain free star tag rest⟩
  have rendered : c.render word = .rendered meaning.output [] := by
    simp [render, nonempty, read _ listed]
  rw [c.compileText_directive closes, rendered]
  rfl

theorem compileText_escapeChar (long : Bool) (x : Char) (rest : Text) :
    c.compileText (Text.escapeChar long x ++ rest) = ⟨[x], 0, ∅⟩ ++ c.compileText rest := by
  by_cases left : x = '{'
  · subst left
    cases long with
    | true => exact c.compileText_fixed "ldelim".toList .leftBrace (by decide) rest
    | false => exact c.compileText_fixed "ld".toList .leftBrace (by decide) rest
  by_cases right : x = '}'
  · subst right
    cases long with
    | true => exact c.compileText_fixed "rdelim".toList .rightBrace (by decide) rest
    | false => exact c.compileText_fixed "rd".toList .rightBrace (by decide) rest
  · rw [Text.escapeChar, if_neg left, if_neg right]
    exact c.compileText_append_of_free (by simpa using Ne.symm left) rest

/-- Each character is settled in front of whatever follows, so that no mark is made of pieces on
both sides of it. -/
theorem compileText_escape_append (t : Text) (long : Nat → Bool) (rest : Text) :
    c.compileText (Text.escape long t ++ rest) = ⟨t, 0, ∅⟩ ++ c.compileText rest := by
  induction t generalizing long with
  | nil => exact (Output.empty_append _).symm
  | cons x t ih =>
    have pieces : (⟨x :: t, 0, ∅⟩ : Output) = ⟨[x], 0, ∅⟩ ++ ⟨t, 0, ∅⟩ := rfl
    rw [Text.escape, List.append_assoc, compileText_escapeChar, ih, pieces, Output.append_assoc]

end Compiler

/-- Any text at all is printed by a template that has a directive in the place of each of its
braces, and the template compiles without complaint. -/
theorem compileText_escape (c : Compiler) (t : Text) (long : Nat → Bool) :
    (c.compileText (Text.escape long t)).code = t ∧
      (c.compileText (Text.escape long t)).isClean = true := by
  have whole := c.compileText_escape_append t long []
  have nothing : c.compileText [] = .empty := by
    rw [Compiler.compileText, Template.parse_of_unclosed (unclosed_of_free List.not_mem_nil)]
    rfl
  rw [List.append_nil, nothing, Output.append_empty] at whole
  rw [whole]
  exact ⟨rfl, rfl⟩

/-- Nothing is left of the marks of a comment; the first brace is given by its long word. -/
example : Text.escape (fun place => place == 0) "\x7b*\x7d".toList =
    "\x7bldelim\x7d*\x7brd\x7d".toList := by
  decide

end BraceTemplate
