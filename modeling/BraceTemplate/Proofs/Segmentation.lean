import BraceTemplate.Proofs.Closing

/-!
# Segments one after the other

A text has no directive in it, or it is literal text, a directive and a text again. The
segments of both kinds of text are given by one equation each, and what holds of the
first kind and is handed on by the second holds of every text.
-/
namespace BraceTemplate

/-- No closing brace stands anywhere after an opening one. -/
def Unclosed (t : Text) : Prop :=
  ∀ before after, t = before ++ '{' :: after → '}' ∉ after

theorem unclosed_of_free {t : Text} (free : '{' ∉ t) : Unclosed t := by
  rintro before after rfl
  simp at free

theorem unclosed_append_iff {text inside : Text} (free : '{' ∉ text) :
    Unclosed (text ++ '{' :: inside) ↔ '}' ∉ inside := by
  constructor
  · intro h
    exact h text inside rfl
  · intro h before after same closed
    rcases List.append_eq_append_iff.mp same with ⟨gap, rfl, hgap⟩ | ⟨gap, rfl, hgap⟩
    · cases gap with
      | nil =>
        cases hgap
        exact h closed
      | cons c gap =>
        obtain ⟨rfl, rfl⟩ := List.cons.inj hgap
        exact h (by simp [closed])
    · cases gap with
      | nil =>
        cases hgap
        exact h closed
      | cons c gap =>
        obtain ⟨rfl, -⟩ := List.cons.inj hgap
        simp at free

@[elab_as_elim]
theorem segment_induction {motive : Text → Prop} (tail : ∀ t, Unclosed t → motive t)
    (step : ∀ text body rest, '{' ∉ text → IsBody body (body ++ '}' :: rest) → motive rest →
      motive (text ++ '{' :: (body ++ '}' :: rest))) (s : Text) : motive s := by
  induction s using segmentsOf.induct with
  | case1 s uncut =>
    exact tail s (unclosed_of_free (Text.cut_singleton_eq_none_iff.mp uncut))
  | case2 s before inside hcut endless =>
    obtain ⟨rfl, free⟩ := Text.cut_singleton_eq_some_iff.mp hcut
    exact tail _ ((unclosed_append_iff free).mpr (closeBody_eq_none_iff.mp endless))
  | case3 s before inside hcut body rest hclose ih =>
    obtain ⟨rfl, free⟩ := Text.cut_singleton_eq_some_iff.mp hcut
    obtain ⟨rfl, closes⟩ := closeBody_eq_some_iff.mp hclose
    exact step before body rest free closes ih

theorem segmentsOf_of_unclosed {t : Text} (unclosed : Unclosed t) :
    segmentsOf t = [.literal t] := by
  rw [segmentsOf]
  split
  · rfl
  · next before inside hcut =>
    obtain ⟨rfl, free⟩ := Text.cut_singleton_eq_some_iff.mp hcut
    have endless := closeBody_eq_none_iff.mpr ((unclosed_append_iff free).mp unclosed)
    split
    · rfl
    · next body rest hclose =>
      rw [endless] at hclose
      cases hclose

theorem segmentsOf_step {text body rest : Text} (free : '{' ∉ text)
    (closes : IsBody body (body ++ '}' :: rest)) :
    segmentsOf (text ++ '{' :: (body ++ '}' :: rest)) =
      .literal text :: .directive body :: segmentsOf rest := by
  have hcut : Text.cut ['{'] (text ++ '{' :: (body ++ '}' :: rest)) =
      some (text, body ++ '}' :: rest) := Text.cut_singleton_eq_some_iff.mpr ⟨rfl, free⟩
  have hclose : closeBody (body ++ '}' :: rest) = some (body, rest) :=
    closeBody_eq_some_iff.mpr ⟨rfl, closes⟩
  rw [segmentsOf]
  split
  · next uncut =>
    rw [uncut] at hcut
    cases hcut
  · next before inside found =>
    obtain ⟨rfl, rfl⟩ := Prod.mk.inj (Option.some.inj (found.symm.trans hcut))
    split
    · next endless =>
      rw [endless] at hclose
      cases hclose
    · next found =>
      obtain ⟨rfl, rfl⟩ := Prod.mk.inj (Option.some.inj (found.symm.trans hclose))
      rfl

namespace Template
variable {t text body rest : Text}

theorem parse_of_unclosed (unclosed : Unclosed t) : parse t = ⟨[.literal t]⟩ :=
  congrArg mk (segmentsOf_of_unclosed unclosed)

theorem parts_of_unclosed (unclosed : Unclosed t) : (parse t).parts = [t] := by
  rw [parse_of_unclosed unclosed]
  rfl

theorem directives_of_unclosed (unclosed : Unclosed t) : (parse t).directives = [] := by
  rw [parse_of_unclosed unclosed]
  rfl

section Step
variable (free : '{' ∉ text) (closes : IsBody body (body ++ '}' :: rest))
include free closes

theorem parse_step : parse (text ++ '{' :: (body ++ '}' :: rest)) =
    ⟨.literal text :: .directive body :: (parse rest).segments⟩ :=
  congrArg mk (segmentsOf_step free closes)

theorem parts_step : (parse (text ++ '{' :: (body ++ '}' :: rest))).parts =
    text :: body :: (parse rest).parts := by
  rw [parse_step free closes]
  rfl

theorem directives_step : (parse (text ++ '{' :: (body ++ '}' :: rest))).directives =
    body :: (parse rest).directives := by
  rw [parse_step free closes]
  rfl

end Step
end Template
end BraceTemplate
