import BraceTemplate.Proofs.Occurrence
import BraceTemplate.Template

/-!
# Where a directive ends

The body behind an opening brace is settled by the whole text that follows the brace:
a comment or a verbatim passage runs to the first of its closing marks if there is one,
and only a text that neither of them fits ends at its first closing brace. The rule is
stated in `IsBody` and shown to be what `closeBody` computes.
-/
namespace BraceTemplate

/-- The body that belongs to an opening brace with the given text after it. -/
structure IsBody (body inside : Text) : Prop where
  comment : ['*'] <+: inside → ['*', '}'] <:+: inside →
    Text.ShortestTo ['*', '}'] inside (body ++ ['}'])
  verbatim : ¬ (['*'] <+: inside ∧ ['*', '}'] <:+: inside) →
    "literal\x7d".toList <+: inside → "\x7b/literal\x7d".toList <:+: inside →
    Text.ShortestTo "\x7b/literal\x7d".toList inside (body ++ ['}'])
  plain : ¬ (['*'] <+: inside ∧ ['*', '}'] <:+: inside) →
    ¬ ("literal\x7d".toList <+: inside ∧ "\x7b/literal\x7d".toList <:+: inside) → '}' ∉ body

namespace Fence

/-- The text begins as the fence does and the mark that closes the fence is in it. -/
def Fits (fence : Fence) (t : Text) : Prop :=
  fence.opening <+: t ∧ fence.closing <:+: t

theorem Fits.append {fence : Fence} {t : Text} (h : fence.Fits t) (u : Text) :
    fence.Fits (t ++ u) :=
  ⟨h.1.trans (List.prefix_append t u), List.infix_append_of_infix_left h.2⟩

/-- The closing brace is the last character of the closing mark. -/
def BraceLast (fence : Fence) : Prop :=
  fence.closing = fence.closing.dropLast ++ ['}']

theorem comment_braceLast : comment.BraceLast := rfl

theorem verbatim_braceLast : verbatim.BraceLast := rfl

theorem plain_braceLast : plain.BraceLast := rfl

theorem plain_fits_iff {t : Text} : plain.Fits t ↔ '}' ∈ t := by
  constructor
  · intro h
    exact h.2.mem (by decide)
  · intro h
    exact ⟨List.nil_prefix, (List.singleton_infix_iff '}' t).mpr h⟩

theorem comment_opens_iff {body rest : Text} :
    comment.opening <+: body ++ '}' :: rest ↔ body.head? = some '*' := by
  change ['*'] <+: _ ↔ _
  rw [List.singleton_prefix_iff_head?_eq_some]
  cases body with
  | nil => simp
  | cons c body => simp

theorem comment_fits_of_stars {body : Text} (starts : ['*'] <+: body) (ends : ['*'] <:+ body)
    (rest : Text) : comment.Fits (body ++ '}' :: rest) := by
  obtain ⟨front, rfl⟩ := ends
  exact ⟨starts.trans (List.prefix_append _ _), front, rest, by simp [comment]⟩

theorem verbatim_opens_iff {body rest : Text} (free : '}' ∉ body) :
    verbatim.opening <+: body ++ '}' :: rest ↔ body = "literal".toList := by
  constructor
  · rintro ⟨after, same⟩
    change "literal".toList ++ '}' :: after = body ++ '}' :: rest at same
    exact (Text.eq_of_append_cons_eq (by decide) free same).1.symm
  · rintro rfl
    exact ⟨rest, rfl⟩

/-- No text begins both as a comment and as a verbatim passage. -/
theorem not_verbatim_opens {t : Text} (h : comment.opening <+: t) : ¬ verbatim.opening <+: t := by
  intro other
  have inside : comment.opening <+: verbatim.opening :=
    List.prefix_of_prefix_length_le h other (by decide)
  exact absurd inside (by decide)

namespace BraceLast
variable {fence : Fence} (brace : fence.BraceLast)
include brace

theorem closing_ne_nil : fence.closing ≠ [] := by
  intro empty
  rw [BraceLast, empty] at brace
  cases brace

theorem mem_of_fits {t : Text} (h : fence.Fits t) : '}' ∈ t := by
  apply h.2.mem
  rw [brace]
  simp

/-- A body ends in the closing mark, its brace apart. -/
theorem ends_iff {body : Text} :
    fence.closing <:+ body ++ ['}'] ↔ fence.closing.dropLast <:+ body := by
  constructor
  · rintro ⟨front, whole⟩
    rw [brace, ← List.append_assoc] at whole
    exact ⟨front, List.append_cancel_right whole⟩
  · rintro ⟨front, rfl⟩
    exact ⟨front, by rw [List.append_assoc, ← brace]⟩

theorem close_eq_none_iff {t : Text} : fence.close t = none ↔ ¬ fence.Fits t := by
  have hcut := Text.cut_eq_none_iff (t := t) brace.closing_ne_nil
  by_cases starts : fence.opening.isPrefixOf t = true
  · have hp := List.isPrefixOf_iff_prefix.mp starts
    simp [close, Fits, starts, hp, hcut]
  · have hp : ¬ fence.opening <+: t := fun hp => starts (List.isPrefixOf_iff_prefix.mpr hp)
    simp [close, Fits, starts, hp]

theorem close_eq_some_iff {t body rest : Text} :
    fence.close t = some (body, rest) ↔ fence.Fits t ∧ t = body ++ '}' :: rest ∧
      Text.ShortestTo fence.closing t (body ++ ['}']) := by
  constructor
  · intro h
    have fits : fence.Fits t := by
      by_contra unfit
      rw [brace.close_eq_none_iff.mpr unfit] at h
      cases h
    have starts := List.isPrefixOf_iff_prefix.mpr fits.1
    rw [close, if_pos starts] at h
    obtain ⟨⟨before, after⟩, hc, he⟩ := Option.map_eq_some_iff.mp h
    obtain ⟨rfl, rfl⟩ := Prod.mk.inj he
    have whole : before ++ fence.closing.dropLast ++ ['}'] = before ++ fence.closing := by
      rw [List.append_assoc, ← brace]
    refine ⟨fits, ?_, ?_⟩
    · rw [Text.eq_append_of_cut hc, ← List.append_assoc, ← whole]
      simp
    · rw [whole]
      exact Text.shortestTo_of_cut hc
  · rintro ⟨fits, rfl, shortest⟩
    obtain ⟨before, hb⟩ := shortest.ends
    have split : before ++ fence.closing.dropLast = body := by
      rw [brace, ← List.append_assoc] at hb
      exact List.append_cancel_right hb
    have hc : Text.cut fence.closing (body ++ '}' :: rest) = some (before, rest) := by
      apply (Text.cut_eq_some_iff brace.closing_ne_nil).mpr
      refine ⟨?_, by rw [hb]; exact shortest⟩
      rw [← List.append_assoc, hb]
      simp
    rw [close, if_pos (List.isPrefixOf_iff_prefix.mpr fits.1), hc]
    simp [split]

end BraceLast

/-- A fence closes at the mark that is put behind a text without one. -/
theorem close_append_of_free {fence : Fence} {m : Char} {mark : Text}
    (closing : fence.closing = m :: mark) (once : m ∉ mark) {t : Text}
    (starts : fence.opening <+: t) (free : ¬ fence.closing <:+: t) (rest : Text) :
    fence.close (t ++ (fence.closing ++ rest)) = some (t ++ fence.closing.dropLast, rest) := by
  have begins : fence.opening.isPrefixOf (t ++ (fence.closing ++ rest)) = true :=
    List.isPrefixOf_iff_prefix.mpr (starts.trans (List.prefix_append _ _))
  have found : Text.cut fence.closing (t ++ (fence.closing ++ rest)) = some (t, rest) := by
    rw [closing] at free ⊢
    exact Text.cut_append_of_free once free rest
  rw [close, if_pos begins, found]
  rfl

end Fence

/-- The fences are tried in order: each closes a body that no earlier one fits. -/
theorem closeBody_eq_some_cases {t : Text} {found : Text × Text} :
    closeBody t = some found ↔ Fence.comment.close t = some found ∨
      ¬ Fence.comment.Fits t ∧ (Fence.verbatim.close t = some found ∨
        ¬ Fence.verbatim.Fits t ∧ Fence.plain.close t = some found) := by
  simp only [closeBody, Option.orElse_eq_orElse, Option.orElse_eq_or, Option.or_eq_some_iff,
    Fence.comment_braceLast.close_eq_none_iff, Fence.verbatim_braceLast.close_eq_none_iff]

theorem closeBody_eq_some_iff {t body rest : Text} :
    closeBody t = some (body, rest) ↔ t = body ++ '}' :: rest ∧ IsBody body t := by
  rw [closeBody_eq_some_cases, Fence.comment_braceLast.close_eq_some_iff,
    Fence.verbatim_braceLast.close_eq_some_iff, Fence.plain_braceLast.close_eq_some_iff]
  constructor
  · rintro (⟨hc, ht, shortest⟩ | ⟨hc, ⟨hv, ht, shortest⟩ | ⟨hv, -, ht, shortest⟩⟩)
    · exact ⟨ht, fun _ _ => shortest, fun unfit => absurd hc unfit, fun unfit => absurd hc unfit⟩
    · exact ⟨ht, fun h₁ h₂ => absurd ⟨h₁, h₂⟩ hc, fun _ _ _ => shortest,
        fun _ unfit => absurd hv unfit⟩
    · subst ht
      exact ⟨rfl, fun h₁ h₂ => absurd ⟨h₁, h₂⟩ hc, fun _ h₁ h₂ => absurd ⟨h₁, h₂⟩ hv,
        fun _ _ => Text.shortestTo_singleton_iff.mp shortest⟩
  · rintro ⟨rfl, h⟩
    by_cases hc : Fence.comment.Fits (body ++ '}' :: rest)
    · exact Or.inl ⟨hc, rfl, h.comment hc.1 hc.2⟩
    refine Or.inr ⟨hc, ?_⟩
    by_cases hv : Fence.verbatim.Fits (body ++ '}' :: rest)
    · exact Or.inl ⟨hv, rfl, h.verbatim hc hv.1 hv.2⟩
    exact Or.inr ⟨hv, Fence.plain_fits_iff.mpr (by simp), rfl,
      Text.shortestTo_singleton_iff.mpr (h.plain hc hv)⟩

/-- A body stays what it is when the text behind it is changed, as long as no fence begins
or ceases to fit. -/
theorem IsBody.transfer {body rest other : Text} (h : IsBody body (body ++ '}' :: rest))
    (comment : Fence.comment.Fits (body ++ '}' :: other) ↔
      Fence.comment.Fits (body ++ '}' :: rest))
    (verbatim : Fence.verbatim.Fits (body ++ '}' :: other) ↔
      Fence.verbatim.Fits (body ++ '}' :: rest)) : IsBody body (body ++ '}' :: other) := by
  have begins : body ++ ['}'] <+: body ++ '}' :: other := ⟨other, by simp⟩
  refine ⟨?_, ?_, ?_⟩
  · intro starts occurs
    have fits := comment.mp ⟨starts, occurs⟩
    exact (h.comment fits.1 fits.2).transfer begins
  · intro unfit starts occurs
    have fits := verbatim.mp ⟨starts, occurs⟩
    exact (h.verbatim (fun fits => unfit (comment.mpr fits)) fits.1 fits.2).transfer begins
  · intro noComment noVerbatim
    exact h.plain (fun fits => noComment (comment.mpr fits))
      (fun fits => noVerbatim (verbatim.mpr fits))

/-- A body that begins no other fence runs to its first closing brace whatever comes after it. -/
theorem IsBody.of_plain {body : Text} (free : '}' ∉ body) (star : body.head? ≠ some '*')
    (tag : body ≠ "literal".toList) (rest : Text) : IsBody body (body ++ '}' :: rest) := by
  refine ⟨?_, ?_, fun _ _ => free⟩
  · intro starts
    exact absurd (Fence.comment_opens_iff.mp starts) star
  · intro _ starts
    exact absurd ((Fence.verbatim_opens_iff free).mp starts) tag

theorem closeBody_eq_none_iff {t : Text} : closeBody t = none ↔ '}' ∉ t := by
  simp only [closeBody, Option.orElse_eq_orElse, Option.orElse_eq_or, Option.or_eq_none_iff,
    Fence.comment_braceLast.close_eq_none_iff, Fence.verbatim_braceLast.close_eq_none_iff,
    Fence.plain_braceLast.close_eq_none_iff, Fence.plain_fits_iff]
  constructor
  · rintro ⟨-, -, hb⟩
    exact hb
  · intro hb
    exact ⟨fun fits => hb (Fence.comment_braceLast.mem_of_fits fits),
      fun fits => hb (Fence.verbatim_braceLast.mem_of_fits fits), hb⟩

end BraceTemplate
