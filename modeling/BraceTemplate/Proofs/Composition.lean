import BraceTemplate.Proofs.Compiling
import BraceTemplate.Proofs.Tokenization

/-!
# Templates put one after the other

Text that is appended to a template can reach back: it may close a brace that was left
open, and it may turn a plain body into a comment or a verbatim passage by bringing the
closing mark that was missing. A closed template has no place where this could happen.
Closedness is shown to be exactly what makes the parts of two templates the parts of
the whole, and the outputs of closed templates add up.
-/
namespace BraceTemplate

/-- No text that comes later can make anything else of the body. -/
def Settled (body : Text) : Prop :=
  (body.head? = some '*' → body.getLast? = some '*') ∧ body ≠ "literal".toList

structure Closed (s : Text) : Prop where
  tail : ∀ last ∈ (Template.parse s).parts.getLast?, '{' ∉ last
  settled : ∀ body ∈ (Template.parse s).directives, Settled body

instance (body : Text) : Decidable (Settled body) :=
  inferInstanceAs (Decidable ((body.head? = some '*' → body.getLast? = some '*') ∧
    body ≠ "literal".toList))

instance (s : Text) : Decidable (Closed s) :=
  decidable_of_iff ((∀ last ∈ (Template.parse s).parts.getLast?, '{' ∉ last) ∧
    ∀ body ∈ (Template.parse s).directives, Settled body)
    ⟨fun h => ⟨h.1, h.2⟩, fun h => ⟨h.tail, h.settled⟩⟩

/-- The last of the first parts and the first of the second parts are joined. -/
def glue (first second : List Text) : List Text :=
  first.dropLast ++ (first.getLastD [] ++ second.headD []) :: second.tail

section Bodies
variable {body rest : Text}

theorem comment_fits_of_settled (settled : Settled body) (head : body.head? = some '*') :
    Fence.comment.Fits (body ++ '}' :: rest) :=
  Fence.comment_fits_of_stars (List.singleton_prefix_iff_head?_eq_some.mpr head)
    (List.singleton_suffix_iff_getLast?_eq_some.mpr (settled.1 head)) rest

/-- A settled body is one in front of any text, since a plain body that begins a verbatim passage
would be its whole tag. -/
theorem IsBody.append (h : IsBody body (body ++ '}' :: rest)) (settled : Settled body)
    (u : Text) : IsBody body (body ++ '}' :: (rest ++ u)) := by
  have whole : body ++ '}' :: (rest ++ u) = body ++ '}' :: rest ++ u := by simp
  apply h.transfer
  · constructor
    · rintro ⟨starts, -⟩
      exact comment_fits_of_settled settled (Fence.comment_opens_iff.mp starts)
    · intro fits
      rw [whole]
      exact fits.append u
  · constructor
    · intro fits
      by_contra unfit
      have noComment : ¬ Fence.comment.Fits (body ++ '}' :: rest) := by
        intro comment
        have starts := (comment.append u).1
        rw [← whole] at starts
        exact Fence.not_verbatim_opens starts fits.1
      have free : '}' ∉ body := h.plain noComment unfit
      exact settled.2 ((Fence.verbatim_opens_iff free).mp fits.1)
    · intro fits
      rw [whole]
      exact fits.append u

theorem settled_of_append (h : ∀ u, IsBody body (body ++ '}' :: (rest ++ u))) :
    Settled body := by
  constructor
  · intro head
    have shortest := (h ['*', '}']).comment (Fence.comment_opens_iff.mpr head)
      ⟨body ++ '}' :: rest, [], by simp⟩
    obtain ⟨front, hfront⟩ := shortest.ends
    have hbody : front ++ ['*'] = body := by
      have ends : front ++ ['*'] ++ ['}'] = body ++ ['}'] := by simpa using hfront
      exact List.append_cancel_right ends
    rw [← hbody]
    simp
  · rintro rfl
    have starts : Fence.verbatim.opening <+:
        "literal".toList ++ '}' :: (rest ++ Fence.verbatim.closing) := ⟨_, rfl⟩
    have occurs : Fence.verbatim.closing <:+:
        "literal".toList ++ '}' :: (rest ++ Fence.verbatim.closing) :=
      ⟨"literal".toList ++ '}' :: rest, [], by
        simp only [List.append_assoc, List.cons_append, List.append_nil]⟩
    have shortest := (h Fence.verbatim.closing).verbatim
      (fun comment => Fence.not_verbatim_opens comment.1 starts) starts occurs
    exact absurd shortest.ends (by decide +kernel)

end Bodies

theorem Unclosed.append {t u : Text} (free : '{' ∉ t) (h : Unclosed u) : Unclosed (t ++ u) := by
  intro before after same
  rcases List.append_eq_append_iff.mp same with ⟨gap, rfl, hgap⟩ | ⟨gap, rfl, hgap⟩
  · exact h gap after hgap
  · cases gap with
    | nil => exact h [] after hgap.symm
    | cons c gap =>
      obtain ⟨rfl, -⟩ := List.cons.inj hgap
      simp at free

theorem Template.parts_ne_nil (s : Text) : (parse s).parts ≠ [] := by
  intro empty
  have odd := (isTokenization_parts s).odd
  rw [empty] at odd
  cases odd

/-- Text without an opening brace joins the literal text that follows it. -/
theorem segmentsOf_append_of_free {t : Text} (free : '{' ∉ t) (u : Text) :
    ∃ text rest, segmentsOf u = .literal text :: rest ∧
      segmentsOf (t ++ u) = .literal (t ++ text) :: rest := by
  induction u using segment_induction with
  | tail u unclosed =>
    exact ⟨u, [], segmentsOf_of_unclosed unclosed, segmentsOf_of_unclosed (unclosed.append free)⟩
  | step text body rest clear closes _ =>
    refine ⟨text, _, segmentsOf_step clear closes, ?_⟩
    rw [← List.append_assoc]
    exact segmentsOf_step (by simp [free, clear]) closes

theorem glue_cons_cons (x y : Text) (first second : List Text) :
    glue (x :: y :: first) second = x :: glue (y :: first) second := rfl

theorem parts_append_of_free {t : Text} (free : '{' ∉ t) (u : Text) :
    (Template.parse (t ++ u)).parts = glue [t] (Template.parse u).parts := by
  obtain ⟨text, rest, hu, htu⟩ := segmentsOf_append_of_free free u
  rw [Template.parse, Template.parse, hu, htu]
  rfl

theorem closed_of_unclosed_iff {t : Text} (unclosed : Unclosed t) : Closed t ↔ '{' ∉ t := by
  constructor
  · intro h
    exact h.tail t (by rw [Template.parts_of_unclosed unclosed]; rfl)
  · intro free
    constructor
    · intro last hlast
      rw [Template.parts_of_unclosed unclosed] at hlast
      obtain rfl : t = last := Option.some.inj hlast
      exact free
    · intro body hbody
      rw [Template.directives_of_unclosed unclosed] at hbody
      cases hbody

theorem closed_step_iff {text body rest : Text} (free : '{' ∉ text)
    (closes : IsBody body (body ++ '}' :: rest)) :
    Closed (text ++ '{' :: (body ++ '}' :: rest)) ↔ Settled body ∧ Closed rest := by
  have last : (text :: body :: (Template.parse rest).parts).getLast? =
      (Template.parse rest).parts.getLast? := by
    obtain ⟨x, more, hparts⟩ := List.exists_cons_of_ne_nil (Template.parts_ne_nil rest)
    rw [hparts, List.getLast?_cons_cons, List.getLast?_cons_cons]
  constructor
  · rintro ⟨tail, settled⟩
    rw [Template.directives_step free closes] at settled
    rw [Template.parts_step free closes, last] at tail
    exact ⟨settled body List.mem_cons_self, tail,
      fun other h => settled other (List.mem_cons_of_mem body h)⟩
  · rintro ⟨hbody, later⟩
    constructor
    · rw [Template.parts_step free closes, last]
      exact later.tail
    · rw [Template.directives_step free closes]
      intro other h
      rcases List.mem_cons.mp h with rfl | h
      · exact hbody
      · exact later.settled other h

theorem Closed.parts_append {s : Text} (h : Closed s) (u : Text) :
    (Template.parse (s ++ u)).parts = glue (Template.parse s).parts (Template.parse u).parts := by
  induction s using segment_induction with
  | tail t unclosed =>
    rw [Template.parts_of_unclosed unclosed]
    exact parts_append_of_free ((closed_of_unclosed_iff unclosed).mp h) u
  | step text body rest free closes ih =>
    obtain ⟨settled, hrest⟩ := (closed_step_iff free closes).mp h
    have whole : text ++ '{' :: (body ++ '}' :: rest) ++ u =
        text ++ '{' :: (body ++ '}' :: (rest ++ u)) := by simp
    rw [whole, Template.parts_step free (closes.append settled u), ih hrest,
      Template.parts_step free closes]
    obtain ⟨x, more, hparts⟩ := List.exists_cons_of_ne_nil (Template.parts_ne_nil rest)
    rw [hparts]
    rfl

/-- Only a closed template can be followed by any text: behind an open brace, a closing one would
make a directive of what is between. -/
theorem closed_of_parts_append {s : Text} (h : ∀ u, (Template.parse (s ++ u)).parts =
    glue (Template.parse s).parts (Template.parse u).parts) : Closed s := by
  induction s using segment_induction with
  | tail t unclosed =>
    refine (closed_of_unclosed_iff unclosed).mpr ?_
    intro opens
    obtain ⟨before, after, rfl⟩ := List.append_of_mem opens
    have brace : Unclosed ['}'] := unclosed_of_free (by decide)
    have joined := h ['}']
    rw [Template.parts_of_unclosed unclosed, Template.parts_of_unclosed brace] at joined
    have tail := (isTokenization_parts (before ++ '{' :: after ++ ['}'])).tail [] _ joined
    exact tail before (after ++ ['}']) (by simp) (by simp)
  | step text body rest free closes ih =>
    have split : ∀ u, IsBody body (body ++ '}' :: (rest ++ u)) ∧
        (Template.parse (rest ++ u)).parts =
          glue (Template.parse rest).parts (Template.parse u).parts := by
      intro u
      have whole := isTokenization_parts (text ++ '{' :: (body ++ '}' :: rest) ++ u)
      obtain ⟨x, more, hparts⟩ := List.exists_cons_of_ne_nil (Template.parts_ne_nil rest)
      rw [h u, Template.parts_step free closes, hparts, glue_cons_cons, glue_cons_cons,
        ← hparts] at whole
      obtain ⟨other, same, -, body_closes, other_parts⟩ := whole.uncons
      obtain rfl : rest ++ u = other := by simpa using same
      exact ⟨body_closes, other_parts.parts_eq⟩
    exact (closed_step_iff free closes).mpr
      ⟨settled_of_append fun u => (split u).1, ih fun u => (split u).2⟩

namespace Compiler
variable (c : Compiler)

theorem compileText_append_of_free {t : Text} (free : '{' ∉ t) (u : Text) :
    c.compileText (t ++ u) = c.compileSegment (.literal t) ++ c.compileText u := by
  obtain ⟨text, rest, hu, htu⟩ := segmentsOf_append_of_free free u
  rw [compileText, compileText, Template.parse, Template.parse, hu, htu]
  exact c.compile_literal_append t text rest

theorem compileText_step {text body rest : Text} (free : '{' ∉ text)
    (closes : IsBody body (body ++ '}' :: rest)) :
    c.compileText (text ++ '{' :: (body ++ '}' :: rest)) =
      c.compileSegment (.literal text) ++ (c.compileSegment (.directive body) ++
        c.compileText rest) := by
  rw [compileText, Template.parse_step free closes]
  rfl

theorem compileText_append {s : Text} (h : Closed s) (u : Text) :
    c.compileText (s ++ u) = c.compileText s ++ c.compileText u := by
  induction s using segment_induction with
  | tail t unclosed =>
    have free := (closed_of_unclosed_iff unclosed).mp h
    have alone : c.compileText t = c.compileSegment (.literal t) := by
      rw [compileText, Template.parse_of_unclosed unclosed]
      exact Output.append_empty _
    rw [c.compileText_append_of_free free, alone]
  | step text body rest free closes ih =>
    obtain ⟨settled, hrest⟩ := (closed_step_iff free closes).mp h
    have whole : text ++ '{' :: (body ++ '}' :: rest) ++ u =
        text ++ '{' :: (body ++ '}' :: (rest ++ u)) := by simp
    rw [whole, c.compileText_step free (closes.append settled u), ih hrest,
      c.compileText_step free closes]
    simp only [Output.append_assoc]

end Compiler

/-- Closed templates, and no others, can be followed by any text without a part of theirs
being read differently; their outputs are then added. -/
theorem closed_compositional (s : Text) :
    (Closed s ↔ ∀ u, (Template.parse (s ++ u)).parts =
      glue (Template.parse s).parts (Template.parse u).parts) ∧
    (Closed s → ∀ (u : Text) (c : Compiler),
      (c.compileText (s ++ u)).code = (c.compileText s).code ++ (c.compileText u).code ∧
      (c.compileText (s ++ u)).skipped = (c.compileText s).skipped + (c.compileText u).skipped ∧
      ∀ name : Text, (c.compileText (s ++ u)).unresolved[name]? =
        Option.merge (fun m n : Nat => m + n) (c.compileText s).unresolved[name]?
          (c.compileText u).unresolved[name]?) := by
  refine ⟨⟨fun h u => h.parts_append u, closed_of_parts_append⟩, ?_⟩
  intro h u c
  rw [c.compileText_append h u]
  exact ⟨rfl, rfl, Tally.getElem?_merge _ _⟩

/-- A comment with a closing brace in it, a closing mark left over and a reference; whatever is
compiled behind it follows the statement of the reference. -/
theorem closed_compositional_comment :
    Closed "a\x7b*b\x7dc*\x7d*\x7d\x7b$x|e\x7d".toList ∧
    (∀ (u : Text) (c : Compiler),
      (c.compileText ("a\x7b*b\x7dc*\x7d*\x7d\x7b$x|e\x7d".toList ++ u)).code =
        (c.compileText "a\x7b*b\x7dc*\x7d*\x7d\x7b$x|e\x7d".toList).code ++
          (c.compileText u).code) ∧
    ∀ u : Text, ((Compiler.ofShared .empty).compileText
        ("a\x7b*b\x7dc*\x7d*\x7d\x7b$x|e\x7d".toList ++ u)).code =
      "a*\x7d<?php echo $x; ?>".toList ++ ((Compiler.ofShared .empty).compileText u).code := by
  have closed : Closed "a\x7b*b\x7dc*\x7d*\x7d\x7b$x|e\x7d".toList := by decide +kernel
  have joined (u : Text) (c : Compiler) := ((closed_compositional _).2 closed u c).1
  have code : ((Compiler.ofShared .empty).compileText
      "a\x7b*b\x7dc*\x7d*\x7d\x7b$x|e\x7d".toList).code =
        "a*\x7d<?php echo $x; ?>".toList := by decide +kernel
  refine ⟨closed, joined, fun u => ?_⟩
  rw [joined, code]

end BraceTemplate
