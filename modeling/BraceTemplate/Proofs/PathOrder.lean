import BraceTemplate.Proofs.Paths
import Mathlib.Data.List.Lex

/-!
# The order of paths

Paths are compared component by component, and names octet by octet. A comparison of
names by their characters comes to the same, since UTF-8 keeps the order of code points:
a character with fewer octets has the smaller first octet, and among those with as many
octets the first one that differs decides.
-/
namespace BraceTemplate

section Lexicographic
variable {α β : Type} {cmp : α → α → Ordering} {R : β → β → Prop} {f : α → List β}

/-- Lists that are compared item by item are compared in the same way after each item has been
spelled out, if two items in order differ within their spellings. -/
theorem lex_flatMap_of_compareLex (filled : ∀ a, f a ≠ [])
    (spells : ∀ a b, cmp a b = .lt → ∀ u v, List.Lex R (f a ++ u) (f b ++ v))
    (equal : ∀ a b, cmp a b = .eq → a = b) {s t : List α} (h : List.compareLex cmp s t = .lt) :
    List.Lex R (s.flatMap f) (t.flatMap f) := by
  induction s generalizing t with
  | nil =>
    cases t with
    | nil => cases h
    | cons b t =>
      obtain ⟨first, rest, spelled⟩ := List.exists_cons_of_ne_nil (filled b)
      rw [List.flatMap_cons, spelled]
      exact .nil
  | cons a s ih =>
    cases t with
    | nil => cases h
    | cons b t =>
      rw [List.compareLex_cons_cons, Ordering.then_eq_lt] at h
      rw [List.flatMap_cons, List.flatMap_cons]
      rcases h with first | ⟨same, rest⟩
      · exact spells a b first _ _
      · rw [equal a b same]
        exact List.Lex.append_left R (ih rest) (f b)

end Lexicographic

theorem lex_octet {m n : Nat} {s t : List UInt8} (hm : m < 256) (hn : n < 256) (le : m ≤ n)
    (rest : m = n → List.Lex (· < ·) s t) :
    List.Lex (· < ·) (UInt8.ofNat m :: s) (UInt8.ofNat n :: t) := by
  rcases Nat.lt_or_eq_of_le le with less | rfl
  · refine .rel (UInt8.lt_iff_toNat_lt.mpr ?_)
    rwa [UInt8.toNat_ofNat_of_lt' hm, UInt8.toNat_ofNat_of_lt' hn]
  · exact .cons (rest rfl)

/-- UTF-8 keeps the order of characters, whatever follows them. -/
theorem lex_utf8EncodeChar {c d : Char} (h : c < d) (u v : List UInt8) :
    List.Lex (· < ·) (String.utf8EncodeChar c ++ u) (String.utf8EncodeChar d ++ v) := by
  have less : c.val.toNat < d.val.toNat := h
  have bound : d.val.toNat < 0x110000 := by
    rcases d.valid with low | high
    · exact Nat.lt_trans low (by decide)
    · exact high.2
  simp only [String.utf8EncodeChar]
  generalize c.val.toNat = m at less
  generalize d.val.toNat = n at less bound
  have shorter {m n : Nat} {s t : List UInt8} (hn : n < 256) (first : m < n) :
      List.Lex (· < ·) (UInt8.ofNat m :: s) (UInt8.ofNat n :: t) :=
    lex_octet (Nat.lt_trans first hn) hn (Nat.le_of_lt first)
      fun same => absurd same (Nat.ne_of_lt first)
  by_cases m1 : m ≤ 0x7f
  · rw [if_pos m1]
    split
    · exact shorter (by omega) less
    · split
      · exact shorter (by omega) (by omega)
      · split
        · exact shorter (by omega) (by omega)
        · exact shorter (by omega) (by omega)
  · have n1 : ¬ n ≤ 0x7f := by omega
    rw [if_neg m1, if_neg n1]
    by_cases m2 : m ≤ 0x7ff
    · rw [if_pos m2]
      split
      · exact lex_octet (by omega) (by omega) (by omega) fun _ => shorter (by omega) (by omega)
      · split
        · exact shorter (by omega) (by omega)
        · exact shorter (by omega) (by omega)
    · have n2 : ¬ n ≤ 0x7ff := by omega
      rw [if_neg m2, if_neg n2]
      by_cases m3 : m ≤ 0xffff
      · rw [if_pos m3]
        split
        · exact lex_octet (by omega) (by omega) (by omega) fun _ =>
            lex_octet (by omega) (by omega) (by omega) fun _ => shorter (by omega) (by omega)
        · exact shorter (by omega) (by omega)
      · have n3 : ¬ n ≤ 0xffff := by omega
        rw [if_neg m3, if_neg n3]
        exact lex_octet (by omega) (by omega) (by omega) fun _ =>
          lex_octet (by omega) (by omega) (by omega) fun _ =>
            lex_octet (by omega) (by omega) (by omega) fun _ => shorter (by omega) (by omega)

theorem lex_toUtf8 {s t : Text} (h : compare s t = .lt) :
    List.Lex (· < ·) (Text.toUtf8 s).data.toList (Text.toUtf8 t).data.toList := by
  rw [Text.toList_data_toUtf8, Text.toList_data_toUtf8]
  refine lex_flatMap_of_compareLex ?_ ?_ (fun c d => Std.LawfulEqCmp.eq_of_compare) h
  · intro c
    exact String.utf8EncodeChar_ne_nil
  · intro c d less u v
    exact lex_utf8EncodeChar (compareOfLessAndEq_eq_lt.mp less) u v

/-- What a path is compared by: the root, a dot at its front, two dots or a name. -/
inductive Component where
  | root
  | dot
  | dots
  | name (octets : List UInt8)

namespace Component

def rank : Component → Nat
  | root => 0
  | dot => 1
  | dots => 2
  | name _ => 3

/-- Components of different kinds stand in the order of the kinds, names in that of their
octets. -/
inductive Before : Component → Component → Prop where
  | rank {a b : Component} (less : a.rank < b.rank) : Before a b
  | octets {s t : List UInt8} (less : List.Lex (· < ·) s t) : Before (.name s) (.name t)

def ofPiece? (piece : Text) : Option Component :=
  if Route.isIdle piece then none
  else if piece = ['.', '.'] then some dots
  else some (name (Text.toUtf8 piece).data.toList)

def ofName (name : FileName) : Component := .name (Text.toUtf8 name.text).data.toList

theorem ofPiece?_text (name : FileName) : ofPiece? name.text = some (ofName name) := by
  obtain ⟨text, filled, other, up, -⟩ := name
  simp [ofPiece?, ofName, Route.isIdle, filled, other, up]

end Component

namespace Text

/-- Pieces that lead nowhere do not count, except for a dot at the front. -/
def components (path : Text) : List Component :=
  (if (Route.ofText path).isAbsolute then [.root]
    else if (pieces path).head? = some ['.'] then [.dot] else []) ++
  (pieces path).filterMap Component.ofPiece?

/-- The path stands before the other, component by component. -/
def PathBefore (p q : Text) : Prop := List.Lex Component.Before (components p) (components q)

theorem components_below (path : Text) (name : FileName) :
    components (below path name.text) = components path ++ [Component.ofName name] := by
  obtain ⟨filled, other, -, slashless⟩ := name.valid
  obtain ⟨front, below, before⟩ := pieces_below path slashless
  have absolute : (Route.ofText (Text.below path name.text)).isAbsolute =
      (Route.ofText path).isAbsolute := by
    rw [Route.isAbsolute_ofText, Route.isAbsolute_ofText,
      decide_eq_decide.mpr (head?_below filled slashless)]
  have idle : Component.ofPiece? [] = none := rfl
  have tail : (pieces (Text.below path name.text)).filterMap Component.ofPiece? =
      (pieces path).filterMap Component.ofPiece? ++ [Component.ofName name] := by
    rcases before with same | same
    · simp [below, same, Component.ofPiece?_text]
    · simp [below, same, Component.ofPiece?_text, idle]
  have head : (pieces (Text.below path name.text)).head? = some ['.'] ↔
      (pieces path).head? = some ['.'] := by
    cases front with
    | nil =>
      rcases before with same | same
      · exact absurd same (pieces_ne_nil path)
      · simp [below, same, other]
    | cons first front =>
      rcases before with same | same
      · simp [below, same]
      · simp [below, same]
  rw [components, components, absolute, tail, List.append_assoc]
  simp only [head]

end Text

namespace Location

theorem components_pathFrom (base : Text) (trail : Location) :
    (pathFrom base trail).components = base.components ++ trail.map Component.ofName := by
  induction trail using List.reverseRecOn with
  | nil => exact (List.append_nil _).symm
  | append_singleton trail name ih =>
    rw [pathFrom_concat, Text.components_below, ih, List.map_append, List.append_assoc]
    rfl

/-- Trails in the order of their names give paths in order. -/
theorem pathBefore_pathFrom (base : Text) {trail other : Location}
    (h : compare trail other = .lt) : (pathFrom base trail).PathBefore (pathFrom base other) := by
  rw [Text.PathBefore, components_pathFrom, components_pathFrom]
  refine List.Lex.append_left _ ?_ _
  rw [List.map_eq_flatMap, List.map_eq_flatMap]
  refine lex_flatMap_of_compareLex ?_ ?_ (fun a b => Std.LawfulEqCmp.eq_of_compare) h
  · intro name
    exact List.cons_ne_nil _ _
  · intro a b less u v
    exact .rel (.octets (lex_toUtf8 less))

end Location
end BraceTemplate
