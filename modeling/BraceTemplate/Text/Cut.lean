/-! Texts are lists of characters, so that every grammar below is a recursion on
them. A text is cut at the first place where a mark stands; marks are never empty. -/
namespace BraceTemplate

abbrev Text := List Char

namespace Text

/-- What stands before the first occurrence of the mark, and what stands after it. -/
def cut (mark : Text) : Text → Option (Text × Text)
  | [] => none
  | c :: rest =>
    if mark.isPrefixOf (c :: rest) then some ([], (c :: rest).drop mark.length)
    else (cut mark rest).map fun found => (c :: found.1, found.2)

theorem append_drop_of_isPrefixOf {mark t : Text} (h : mark.isPrefixOf t = true) :
    mark ++ t.drop mark.length = t := by
  obtain ⟨after, rfl⟩ := List.isPrefixOf_iff_prefix.mp h
  simp

theorem eq_append_of_cut {mark t before after : Text}
    (h : cut mark t = some (before, after)) : t = before ++ (mark ++ after) := by
  induction t generalizing before after with
  | nil => cases h
  | cons c rest ih =>
    rw [cut] at h
    split at h
    · next starts =>
      obtain ⟨rfl, rfl⟩ := Prod.mk.inj (Option.some.inj h)
      exact (append_drop_of_isPrefixOf starts).symm
    · obtain ⟨⟨b, a⟩, hc, he⟩ := Option.map_eq_some_iff.mp h
      obtain ⟨rfl, rfl⟩ := Prod.mk.inj he
      rw [ih hc]
      rfl

theorem length_of_cut {mark t before after : Text}
    (h : cut mark t = some (before, after)) :
    t.length = before.length + mark.length + after.length := by
  rw [eq_append_of_cut h]
  simp [Nat.add_assoc]

end Text
end BraceTemplate
