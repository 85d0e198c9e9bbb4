import BraceTemplate.Text.Cut
import Mathlib.Data.List.Infix

/-! Cutting a text finds the first place where a mark stands: the text up to the end
of that place is the shortest prefix that ends in the mark. Which prefix is the
shortest one is decided inside it; what follows has no say. -/
namespace BraceTemplate.Text

/-- Of all prefixes of a text that end in the mark, the shortest. -/
structure ShortestTo (mark t p : Text) : Prop where
  begins : p <+: t
  ends : mark <:+ p
  least : ∀ q, q <+: t → mark <:+ q → p.length ≤ q.length

namespace ShortestTo

theorem unique {mark t p q : Text} (hp : ShortestTo mark t p) (hq : ShortestTo mark t q) :
    p = q := by
  have hpq : p.length ≤ q.length := hp.least q hq.begins hq.ends
  have hqp : q.length ≤ p.length := hq.least p hp.begins hp.ends
  exact (List.prefix_of_prefix_length_le hp.begins hq.begins hpq).eq_of_length (by omega)

/-- A text with the same prefix has the same shortest one. -/
theorem transfer {mark t u p : Text} (h : ShortestTo mark t p) (hu : p <+: u) :
    ShortestTo mark u p := by
  refine ⟨hu, h.ends, ?_⟩
  intro q hq hm
  by_cases shorter : q.length ≤ p.length
  · have inside : q <+: p := List.prefix_of_prefix_length_le hq hu shorter
    exact h.least q (inside.trans h.begins) hm
  · omega

/-- What stands before the first mark has none in it. -/
theorem free {mark t before : Text} (nonempty : mark ≠ [])
    (h : ShortestTo mark t (before ++ mark)) : ¬ mark <:+: before := by
  rintro ⟨u, v, rfl⟩
  have begins : u ++ mark <+: t :=
    List.IsPrefix.trans ⟨v ++ mark, by simp⟩ h.begins
  have least := h.least (u ++ mark) begins (List.suffix_append u mark)
  have positive : 0 < mark.length := List.length_pos_iff.mpr nonempty
  simp only [List.length_append] at least
  omega

end ShortestTo

theorem cut_eq_none_iff {mark t : Text} (nonempty : mark ≠ []) :
    cut mark t = none ↔ ¬ mark <:+: t := by
  induction t with
  | nil => simp [cut, nonempty]
  | cons c rest ih =>
    rw [cut, List.infix_cons_iff]
    by_cases starts : mark.isPrefixOf (c :: rest) = true
    · have hp := List.isPrefixOf_iff_prefix.mp starts
      simp [starts, hp]
    · have hp : ¬ mark <+: c :: rest := fun hp => starts (List.isPrefixOf_iff_prefix.mpr hp)
      simp [starts, hp, ih]

/-- A cut is made at the first mark: a shorter prefix would have one at the front, or one character
further on. -/
theorem shortestTo_of_cut {mark t before after : Text} (h : cut mark t = some (before, after)) :
    ShortestTo mark t (before ++ mark) := by
  refine ⟨⟨after, ?_⟩, List.suffix_append before mark, ?_⟩
  · rw [eq_append_of_cut h, List.append_assoc]
  induction t generalizing before with
  | nil => cases h
  | cons c rest ih =>
    intro q hq hm
    rw [cut] at h
    split at h
    · obtain ⟨rfl, -⟩ := Prod.mk.inj (Option.some.inj h)
      exact hm.length_le
    · next starts =>
      obtain ⟨⟨b, a⟩, hc, he⟩ := Option.map_eq_some_iff.mp h
      obtain ⟨rfl, rfl⟩ := Prod.mk.inj he
      rcases List.prefix_cons_iff.mp hq with rfl | ⟨r, rfl, hr⟩
      · have : mark = [] := List.suffix_nil.mp hm
        subst this
        exact absurd rfl starts
      · rcases List.suffix_cons_iff.mp hm with rfl | hm
        · exact absurd (List.isPrefixOf_iff_prefix.mpr hq) starts
        · have := ih hc r hr hm
          simp only [List.cons_append, List.length_cons]
          omega

theorem cut_eq_some_iff {mark t before after : Text} (nonempty : mark ≠ []) :
    cut mark t = some (before, after) ↔
      t = before ++ (mark ++ after) ∧ ShortestTo mark t (before ++ mark) := by
  constructor
  · intro h
    exact ⟨eq_append_of_cut h, shortestTo_of_cut h⟩
  · rintro ⟨rfl, shortest⟩
    cases hc : cut mark (before ++ (mark ++ after)) with
    | none => exact absurd (List.infix_append' before mark after) ((cut_eq_none_iff nonempty).mp hc)
    | some found =>
      obtain ⟨b, a⟩ := found
      have hb : b = before :=
        List.append_cancel_right ((shortestTo_of_cut hc).unique shortest)
      subst hb
      have ha := List.append_cancel_left (List.append_cancel_left (eq_append_of_cut hc))
      rw [ha]

/-- A mark of one character is first reached where that character is first reached. -/
theorem shortestTo_singleton_iff {c : Char} {p rest : Text} :
    ShortestTo [c] (p ++ c :: rest) (p ++ [c]) ↔ c ∉ p := by
  constructor
  · intro h hc
    obtain ⟨u, v, rfl⟩ := List.append_of_mem hc
    have := h.least (u ++ [c]) ⟨v ++ c :: rest, by simp⟩ (List.suffix_append u [c])
    simp only [List.length_append, List.length_cons] at this
    omega
  · intro hc
    refine ⟨⟨rest, by simp⟩, List.suffix_append p [c], ?_⟩
    rintro q hq ⟨u, rfl⟩
    by_cases shorter : (u ++ [c]).length ≤ p.length
    · have inside : u ++ [c] <+: p :=
        List.prefix_of_prefix_length_le hq (List.prefix_append p (c :: rest)) shorter
      exact absurd (inside.mem (by simp)) hc
    · simp only [List.length_append, List.length_cons, List.length_nil] at shorter ⊢
      omega

theorem cut_singleton_eq_none_iff {c : Char} {t : Text} : cut [c] t = none ↔ c ∉ t := by
  rw [cut_eq_none_iff (List.cons_ne_nil c []), List.singleton_infix_iff]

theorem cut_singleton_eq_some_iff {c : Char} {t before after : Text} :
    cut [c] t = some (before, after) ↔ t = before ++ c :: after ∧ c ∉ before := by
  rw [cut_eq_some_iff (List.cons_ne_nil c [])]
  constructor
  · rintro ⟨rfl, shortest⟩
    exact ⟨rfl, shortestTo_singleton_iff.mp shortest⟩
  · rintro ⟨rfl, free⟩
    exact ⟨rfl, shortestTo_singleton_iff.mpr free⟩

/-- The first place of a character splits a text in only one way. -/
theorem eq_of_append_cons_eq {c : Char} {p q u v : Text} (hp : c ∉ p) (hq : c ∉ q)
    (h : p ++ c :: u = q ++ c :: v) : p = q ∧ u = v := by
  have first : cut [c] (p ++ c :: u) = some (p, u) := cut_singleton_eq_some_iff.mpr ⟨rfl, hp⟩
  have second : cut [c] (p ++ c :: u) = some (q, v) := cut_singleton_eq_some_iff.mpr ⟨h, hq⟩
  exact Prod.mk.inj (Option.some.inj (first.symm.trans second))

/-- So does its only place. -/
theorem eq_of_append_cons_eq_of_once {c : Char} {p q u v : Text} (hp : c ∉ p) (hu : c ∉ u)
    (h : p ++ c :: u = q ++ c :: v) : p = q ∧ u = v := by
  have hq : c ∉ q := by
    have counts := congrArg (List.count c) h
    simp only [List.count_append, List.count_cons_self, List.count_eq_zero_of_not_mem hp,
      List.count_eq_zero_of_not_mem hu] at counts
    exact List.count_eq_zero.mp (by omega)
  exact eq_of_append_cons_eq hp hq h

/-- A prefix without a character ends before the first place where that character stands. -/
theorem prefix_of_free {c : Char} {p before after : Text} (free : c ∉ p)
    (h : p <+: before ++ c :: after) : p <+: before := by
  by_cases long : p.length ≤ before.length
  · exact List.prefix_of_prefix_length_le h (List.prefix_append before (c :: after)) long
  · have begins : before ++ [c] <+: before ++ c :: after := ⟨after, by simp⟩
    have inside : before ++ [c] <+: p :=
      List.prefix_of_prefix_length_le begins h (by simp; omega)
    exact absurd (inside.mem (by simp)) free

/-- A mark cannot begin in a text without its first character. -/
theorem infix_append_iff_of_free {m : Char} {p : Text} (free : m ∉ p) (mark t : Text) :
    m :: mark <:+: p ++ t ↔ m :: mark <:+: t := by
  induction p with
  | nil => rfl
  | cons c p ih =>
    have other : m ≠ c := fun same => free (same ▸ List.mem_cons_self)
    have later : m ∉ p := fun h => free (List.mem_cons_of_mem c h)
    rw [List.cons_append, List.infix_cons_iff, List.cons_prefix_cons, ih later]
    simp [other]

/-- A mark whose first character does not come again in it cannot overlap itself, so that the
first one stands where it was put. -/
theorem cut_append_of_free {m : Char} {mark t : Text} (once : m ∉ mark)
    (free : ¬ m :: mark <:+: t) (rest : Text) :
    cut (m :: mark) (t ++ (m :: mark ++ rest)) = some (t, rest) := by
  induction t with
  | nil => simp [cut]
  | cons c t ih =>
    have later : ¬ m :: mark <:+: t := fun h => free (List.infix_cons_iff.mpr (Or.inr h))
    have starts : ¬ m :: mark <+: c :: (t ++ (m :: mark ++ rest)) := by
      intro h
      obtain ⟨rfl, inside⟩ := List.cons_prefix_cons.mp h
      have short : mark <+: t := prefix_of_free once inside
      exact free (List.IsPrefix.isInfix (List.cons_prefix_cons.mpr ⟨rfl, short⟩))
    rw [List.cons_append, cut, if_neg (mt List.isPrefixOf_iff_prefix.mp starts), ih later]
    rfl

end BraceTemplate.Text
