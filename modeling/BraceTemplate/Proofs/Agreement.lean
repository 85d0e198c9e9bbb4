import BraceTemplate.Proofs.Rendering
import BraceTemplate.Proofs.Tokenization

/-!
# How a body was closed and how it is read

A body is cut out of a template by the fence that closes it, and later read without any
knowledge of that fence. The two agree: what a comment fence closed is read as a comment,
what a verbatim fence closed as a verbatim passage, and a plain body as neither, but for
the one comment that the fences do not see, with a newline behind its last star.
-/
namespace BraceTemplate

/-- Every directive stands in the template behind the segments before it, and the text after
its opening brace has it for its body. -/
theorem isBody_of_segmentsOf {s : Text} {before after : List Segment} {body : Text}
    (h : segmentsOf s = before ++ .directive body :: after) :
    ∃ rest, s = (Template.mk before).source ++ '{' :: (body ++ '}' :: rest) ∧
      IsBody body (body ++ '}' :: rest) := by
  induction s using segment_induction generalizing before with
  | tail t unclosed =>
    rw [segmentsOf_of_unclosed unclosed] at h
    cases before with
    | nil => cases h
    | cons segment before => simp at h
  | step text other rest free closes ih =>
    rw [segmentsOf_step free closes] at h
    rcases cons_cons_eq_append_cons h with ⟨-, same, -⟩ | ⟨rfl, same, -⟩ | ⟨inner, rfl, later⟩
    · cases same
    · cases same
      exact ⟨rest, by simp [Template.source, Segment.source], closes⟩
    · obtain ⟨more, rfl, isBody⟩ := ih later
      exact ⟨more, by simp [Template.source, Segment.source], isBody⟩

/-- A star at the end of a body would have made a comment of it, so only a star and a newline
are left. -/
theorem Text.isComment_iff_of_not_fits {body rest : Text}
    (unfit : ¬ Fence.comment.Fits (body ++ '}' :: rest)) :
    isComment body = true ↔ ['*'] <+: body ∧ ['*', '\n'] <:+ body := by
  rw [isComment_iff]
  constructor
  · rintro ⟨starts, ends | ends⟩
    · exact absurd (Fence.comment_fits_of_stars starts ends rest) unfit
    · exact ⟨starts, ends⟩
  · rintro ⟨starts, ends⟩
    exact ⟨starts, Or.inr ends⟩

namespace IsBody
variable {body rest : Text} (closes : IsBody body (body ++ '}' :: rest))
include closes

theorem ofBody_of_comment (fits : Fence.comment.Fits (body ++ '}' :: rest)) :
    Directive.ofBody body = .comment := by
  have starts : ['*'] <+: body :=
    List.singleton_prefix_iff_head?_eq_some.mpr (Fence.comment_opens_iff.mp fits.1)
  have ends : ['*'] <:+ body :=
    Fence.comment_braceLast.ends_iff.mp (closes.comment fits.1 fits.2).ends
  exact Directive.ofBody_eq_comment_iff.mpr (Text.isComment_iff.mpr ⟨starts, Or.inl ends⟩)

/-- A verbatim passage is read as one, since its opening tag ends before the closing one begins. -/
theorem ofBody_of_verbatim (fits : Fence.verbatim.Fits (body ++ '}' :: rest)) :
    ∃ raw, Directive.ofBody body = .verbatim raw ∧
      body = "literal\x7d".toList ++ (raw ++ "\x7b/literal".toList) ∧
      ¬ Fence.verbatim.closing <:+: raw := by
  have noComment : ¬ Fence.comment.Fits (body ++ '}' :: rest) := fun comment =>
    Fence.not_verbatim_opens comment.1 fits.1
  have shortest : Text.ShortestTo Fence.verbatim.closing _ _ :=
    closes.verbatim noComment fits.1 fits.2
  obtain ⟨front, rfl⟩ := Fence.verbatim_braceLast.ends_iff.mp shortest.ends
  have whole : front ++ Fence.verbatim.closing.dropLast ++ ['}'] =
      front ++ Fence.verbatim.closing := by
    rw [List.append_assoc, ← Fence.verbatim_braceLast]
  have free : ¬ Fence.verbatim.closing <:+: front := by
    rw [whole] at shortest
    exact shortest.free Fence.verbatim_braceLast.closing_ne_nil
  have starts : Fence.verbatim.opening <+: front := by
    apply Text.prefix_of_free (c := '{') (by decide)
    rw [List.append_assoc] at fits
    exact fits.1
  obtain ⟨raw, rfl⟩ := starts
  have tags : Fence.verbatim.opening ++ raw ++ Fence.verbatim.closing.dropLast =
      "literal\x7d".toList ++ (raw ++ "\x7b/literal".toList) := List.append_assoc ..
  refine ⟨raw, ?_, tags, fun inside => free (List.infix_append_of_infix_right inside)⟩
  exact Directive.ofBody_eq_verbatim_iff.mpr (Text.verbatim?_eq_some_iff.mpr tags)

theorem ofBody_of_plain (noComment : ¬ Fence.comment.Fits (body ++ '}' :: rest))
    (noVerbatim : ¬ Fence.verbatim.Fits (body ++ '}' :: rest)) :
    '}' ∉ body ∧ (∀ raw, Directive.ofBody body ≠ .verbatim raw) ∧
      (Directive.ofBody body = .comment ↔ ['*'] <+: body ∧ ['*', '\n'] <:+ body) := by
  have free : '}' ∉ body := closes.plain noComment noVerbatim
  refine ⟨free, ?_, ?_⟩
  · intro raw same
    rw [Text.verbatim?_eq_some_iff.mp (Directive.ofBody_eq_verbatim_iff.mp same)] at free
    simp at free
  · rw [Directive.ofBody_eq_comment_iff]
    exact Text.isComment_iff_of_not_fits noComment

theorem ofBody_of_brace (brace : '}' ∈ body) :
    Directive.ofBody body = .comment ∨ ∃ raw, Directive.ofBody body = .verbatim raw := by
  by_cases comment : Fence.comment.Fits (body ++ '}' :: rest)
  · exact Or.inl (closes.ofBody_of_comment comment)
  by_cases verbatim : Fence.verbatim.Fits (body ++ '}' :: rest)
  · obtain ⟨raw, same, -⟩ := closes.ofBody_of_verbatim verbatim
    exact Or.inr ⟨raw, same⟩
  exact absurd brace (closes.plain comment verbatim)

end IsBody

theorem Compiler.render_ne_skipped {body : Text} (c : Compiler)
    (h : Directive.ofBody body = .comment ∨ ∃ raw, Directive.ofBody body = .verbatim raw) :
    c.render body ≠ .skipped := by
  rw [render]
  split
  · simp
  · rcases h with comment | ⟨raw, verbatim⟩
    · simp [comment]
    · simp [verbatim]

/-- A body is read as what the fence that closed it stands for. -/
theorem ofBody_agrees_with_fence {s : Text} {before after : List Segment} {body : Text}
    (h : (Template.parse s).segments = before ++ .directive body :: after) {inside : Text}
    (behind : inside = s.drop ((Template.mk before).source.length + 1)) :
    (['*'] <+: inside ∧ ['*', '}'] <:+: inside → Directive.ofBody body = .comment) ∧
    ("literal\x7d".toList <+: inside ∧ "\x7b/literal\x7d".toList <:+: inside →
      ∃ raw, Directive.ofBody body = .verbatim raw ∧
        body = "literal\x7d".toList ++ (raw ++ "\x7b/literal".toList) ∧
        ¬ "\x7b/literal\x7d".toList <:+: raw) ∧
    (¬ (['*'] <+: inside ∧ ['*', '}'] <:+: inside) →
      ¬ ("literal\x7d".toList <+: inside ∧ "\x7b/literal\x7d".toList <:+: inside) →
      '}' ∉ body ∧ (∀ raw, Directive.ofBody body ≠ .verbatim raw) ∧
        (Directive.ofBody body = .comment ↔ ['*'] <+: body ∧ ['*', '\n'] <:+ body)) ∧
    ('}' ∈ body →
      (Directive.ofBody body = .comment ∨ ∃ raw, Directive.ofBody body = .verbatim raw) ∧
        ∀ c : Compiler, c.render body ≠ .skipped) := by
  obtain ⟨rest, place, closes⟩ := isBody_of_segmentsOf h
  obtain rfl : inside = body ++ '}' :: rest := by
    rw [behind, place, List.drop_length_add_append]
    rfl
  refine ⟨closes.ofBody_of_comment, closes.ofBody_of_verbatim, closes.ofBody_of_plain, ?_⟩
  intro brace
  have known := closes.ofBody_of_brace brace
  exact ⟨known, fun c => c.render_ne_skipped known⟩

/-- A comment, and behind it a passage with most of a closing tag in it. -/
theorem ofBody_agrees_with_fence_half_tag :
    (Template.parse "\x7b*a*\x7d\x7bliteral\x7d\x7b/literal\x7b/literal\x7d".toList).segments =
      [.literal [], .directive "*a*".toList, .literal []] ++
        .directive "literal\x7d\x7b/literal\x7b/literal".toList :: [.literal []] ∧
    ∃ raw, Directive.ofBody "literal\x7d\x7b/literal\x7b/literal".toList = .verbatim raw ∧
      "literal\x7d\x7b/literal\x7b/literal".toList =
        "literal\x7d".toList ++ (raw ++ "\x7b/literal".toList) := by
  have segments : (Template.parse
      "\x7b*a*\x7d\x7bliteral\x7d\x7b/literal\x7b/literal\x7d".toList).segments =
      [.literal [], .directive "*a*".toList, .literal []] ++
        .directive "literal\x7d\x7b/literal\x7b/literal".toList :: [.literal []] := by
    decide +kernel
  have behind : "literal\x7d\x7b/literal\x7b/literal\x7d".toList =
      "\x7b*a*\x7d\x7bliteral\x7d\x7b/literal\x7b/literal\x7d".toList.drop
        ((Template.mk [.literal [], .directive "*a*".toList, .literal []]).source.length + 1) := by
    decide +kernel
  obtain ⟨raw, same, tags, -⟩ := (ofBody_agrees_with_fence segments behind).2.1
    ⟨by decide +kernel, by decide +kernel⟩
  exact ⟨segments, raw, same, tags⟩

end BraceTemplate
