import BraceTemplate.Proofs.Segmentation

/-!
# The parts of a template

A template is handed out as a flat list of texts: literal text at the even places,
bodies of directives at the odd ones. `IsTokenization` lists what can be asked of such a
list, each part seen in its place, and the parts of a template are the only list that
meets all of it. That the braces can be put back is one of the conditions.
-/
namespace BraceTemplate

/-- The parts with the braces around the bodies put back. -/
def rejoin : List Text → Text
  | [] => []
  | [literal] => literal
  | literal :: body :: rest => literal ++ '{' :: (body ++ '}' :: rejoin rest)

structure IsTokenization (s : Text) (parts : List Text) : Prop where
  odd : parts.length % 2 = 1
  rejoins : rejoin parts = s
  literals : ∀ before literal after, parts = before ++ literal :: after →
    before.length % 2 = 0 → after ≠ [] → '{' ∉ literal
  tail : ∀ before last, parts = before ++ [last] → Unclosed last
  /-- A body is judged by all of the text after its opening brace. -/
  bodies : ∀ before body after, parts = before ++ body :: after → before.length % 2 = 1 →
    IsBody body (s.drop ((rejoin before).length + 1))

theorem cons_cons_eq_append_cons {α : Type} {literal body x : α} {parts before after : List α}
    (h : literal :: body :: parts = before ++ x :: after) :
    (before = [] ∧ literal = x ∧ body :: parts = after) ∨
    (before = [literal] ∧ body = x ∧ parts = after) ∨
    ∃ inner, before = literal :: body :: inner ∧ parts = inner ++ x :: after := by
  match before, h with
  | [], h =>
    obtain ⟨hx, hafter⟩ := List.cons.inj h
    exact Or.inl ⟨rfl, hx, hafter⟩
  | [y], h =>
    obtain ⟨hy, h⟩ := List.cons.inj h
    obtain ⟨hx, hafter⟩ := List.cons.inj h
    exact Or.inr (Or.inl ⟨by rw [hy], hx, hafter⟩)
  | y :: z :: inner, h =>
    obtain ⟨hy, h⟩ := List.cons.inj h
    obtain ⟨hz, h⟩ := List.cons.inj h
    exact Or.inr (Or.inr ⟨inner, by rw [hy, hz], h⟩)

theorem drop_rejoin_singleton (literal inside : Text) :
    (literal ++ '{' :: inside).drop ((rejoin [literal]).length + 1) = inside := by
  rw [rejoin, List.drop_length_add_append]
  rfl

/-- Past the first literal and the first body, places are counted in the rest. -/
theorem drop_rejoin_cons_cons (literal body rest : Text) (before : List Text) :
    (literal ++ '{' :: (body ++ '}' :: rest)).drop
      ((rejoin (literal :: body :: before)).length + 1) =
        rest.drop ((rejoin before).length + 1) := by
  have front : ∀ t : Text, literal ++ '{' :: (body ++ '}' :: t) =
      (literal ++ '{' :: (body ++ ['}'])) ++ t := by simp
  rw [rejoin, front rest, front (rejoin before), List.length_append, Nat.add_assoc,
    List.drop_length_add_append]

namespace IsTokenization

theorem singleton {t : Text} (unclosed : Unclosed t) : IsTokenization t [t] := by
  have only : ∀ {before x after}, [t] = before ++ x :: after →
      before = [] ∧ t = x ∧ after = [] := by
    intro before x after h
    cases before with
    | nil =>
      obtain ⟨hx, hafter⟩ := List.cons.inj h
      exact ⟨rfl, hx, hafter.symm⟩
    | cons y before => simp at h
  refine ⟨rfl, rfl, ?_, ?_, ?_⟩
  · intro before literal after h _ more
    exact absurd (only h).2.2 more
  · intro before last h
    obtain ⟨-, rfl, -⟩ := only h
    exact unclosed
  · intro before body after h place
    obtain ⟨rfl, -, -⟩ := only h
    cases place

theorem cons_cons {literal body rest : Text} {parts : List Text} (free : '{' ∉ literal)
    (closes : IsBody body (body ++ '}' :: rest)) (later : IsTokenization rest parts) :
    IsTokenization (literal ++ '{' :: (body ++ '}' :: rest)) (literal :: body :: parts) := by
  refine ⟨?_, ?_, ?_, ?_, ?_⟩
  · have := later.odd
    simp only [List.length_cons]
    omega
  · rw [rejoin, later.rejoins]
  · intro before x after h place more
    rcases cons_cons_eq_append_cons h with ⟨-, rfl, -⟩ | ⟨rfl, -, -⟩ | ⟨inner, rfl, hinner⟩
    · exact free
    · cases place
    · exact later.literals inner x after hinner (by simp at place; omega) more
  · intro before last h
    rcases cons_cons_eq_append_cons h with ⟨-, -, hnil⟩ | ⟨-, -, rfl⟩ | ⟨inner, -, hinner⟩
    · cases hnil
    · cases later.odd
    · exact later.tail inner last hinner
  · intro before x after h place
    rcases cons_cons_eq_append_cons h with ⟨rfl, -, -⟩ | ⟨rfl, rfl, -⟩ | ⟨inner, rfl, hinner⟩
    · cases place
    · rw [drop_rejoin_singleton]
      exact closes
    · rw [drop_rejoin_cons_cons]
      exact later.bodies inner x after hinner (by simp at place; omega)

/-- The first literal and the first body can be taken off. -/
theorem uncons {s literal body : Text} {parts : List Text}
    (h : IsTokenization s (literal :: body :: parts)) :
    ∃ rest, s = literal ++ '{' :: (body ++ '}' :: rest) ∧ '{' ∉ literal ∧
      IsBody body (body ++ '}' :: rest) ∧ IsTokenization rest parts := by
  have hs : s = literal ++ '{' :: (body ++ '}' :: rejoin parts) := by
    rw [← h.rejoins, rejoin]
  refine ⟨rejoin parts, hs, h.literals [] literal (body :: parts) rfl rfl (by simp), ?_,
    ?_, rfl, ?_, ?_, ?_⟩
  · have closes := h.bodies [literal] body parts rfl rfl
    rwa [hs, drop_rejoin_singleton] at closes
  · have := h.odd
    simp only [List.length_cons] at this
    omega
  · rintro before x after rfl place more
    exact h.literals (literal :: body :: before) x after rfl (by simp; omega) more
  · rintro before last rfl
    exact h.tail (literal :: body :: before) last rfl
  · rintro before x after rfl place
    have closes := h.bodies (literal :: body :: before) x after rfl (by simp; omega)
    rwa [hs, drop_rejoin_cons_cons] at closes

theorem parts_eq {s : Text} {parts : List Text} (h : IsTokenization s parts) :
    (Template.parse s).parts = parts := by
  induction parts using rejoin.induct generalizing s with
  | case1 => cases h.odd
  | case2 literal =>
    obtain rfl : literal = s := h.rejoins
    exact Template.parts_of_unclosed (h.tail [] literal rfl)
  | case3 literal body parts ih =>
    obtain ⟨rest, rfl, free, closes, later⟩ := h.uncons
    rw [Template.parts_step free closes, ih later]

end IsTokenization

theorem isTokenization_parts (s : Text) : IsTokenization s (Template.parse s).parts := by
  induction s using segment_induction with
  | tail t unclosed =>
    rw [Template.parts_of_unclosed unclosed]
    exact .singleton unclosed
  | step text body rest free closes ih =>
    rw [Template.parts_step free closes]
    exact .cons_cons free closes ih

/-- The parts of a template are the one list of texts that gives the template back and
has its braces where the directives open and close. -/
theorem parts_eq_iff_isTokenization (s : Text) (parts : List Text) :
    (Template.parse s).parts = parts ↔ IsTokenization s parts := by
  constructor
  · rintro rfl
    exact isTokenization_parts s
  · exact IsTokenization.parts_eq

/-- A comment runs past the first closing brace, and the last opening brace stays literal. -/
example : (Template.parse "a\x7b*b\x7dc*\x7dd\x7b$e".toList).parts =
    ["a".toList, "*b\x7dc*".toList, "d\x7b$e".toList] := by
  decide +kernel

end BraceTemplate
