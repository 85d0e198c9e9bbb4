import BraceTemplate.Proofs.Classification
import BraceTemplate.Proofs.Grammar

/-!
# No body has two readings

The readers are tried one after another, but their order settles nothing. Most of them
accept only bodies whose first character no other reader takes. A fixed word and a
verbatim passage may begin alike, and so may a fixed word and a block, but no fixed word
goes on as the tag or as a keyword does. Within references, a text has one spelling and
so does not start both from a variable and from a member of a class.
-/
namespace BraceTemplate

section Order
variable {α β : Type} {f : α → Option β} {l : List α}

theorem length_filterMap_le_one
    (exclusive : l.Pairwise fun a b => ∀ found, f a = some found → f b = none) :
    (l.filterMap f).length ≤ 1 := by
  induction exclusive with
  | nil => exact Nat.zero_le 1
  | @cons a rest first _ ih =>
    cases h : f a with
    | none => rwa [List.filterMap_cons_none h]
    | some found =>
      have refused : rest.filterMap f = [] :=
        List.filterMap_eq_nil_iff.mpr fun b listed => first b listed found h
      rw [List.filterMap_cons_some h, refused]
      exact Nat.le_refl 1

theorem findSome?_of_mem (few : (l.filterMap f).length ≤ 1) {a : α} (listed : a ∈ l) {found : β}
    (h : f a = some found) : l.findSome? f = some found := by
  have here : found ∈ l.filterMap f := List.mem_filterMap.mpr ⟨a, listed, h⟩
  rw [← List.head?_filterMap]
  cases all : l.filterMap f with
  | nil => simp [all] at here
  | cons first rest =>
    rw [all, List.length_cons] at few
    obtain rfl : rest = [] := List.length_eq_zero_iff.mp (by omega)
    simpa [all, eq_comm] using here

/-- If at most one of them finds something, it is found in any order. -/
theorem findSome?_of_perm (few : (l.filterMap f).length ≤ 1) {order : List α}
    (perm : order.Perm l) : order.findSome? f = l.findSome? f := by
  cases h : order.findSome? f with
  | none =>
    refine (List.findSome?_eq_none_iff.mpr ?_).symm
    intro a listed
    exact List.findSome?_eq_none_iff.mp h a (perm.mem_iff.mpr listed)
  | some found =>
    obtain ⟨a, listed, here⟩ := List.exists_of_findSome?_eq_some h
    exact (findSome?_of_mem few (perm.mem_iff.mp listed) here).symm

end Order

namespace Directive
variable {body : Text}

theorem exists_spelling {d : Directive} (h : reference? body = some d) :
    ∃ s : Spelling, s.WellFormed ∧ s.text = body := by
  obtain ⟨target, found, -⟩ := Option.map_eq_some_iff.mp h
  obtain ⟨s, read, -⟩ := Option.map_eq_some_iff.mp found
  exact ⟨s, Spelling.ofText?_eq_some.mp read⟩

theorem exists_opening {d : Directive} (h : block? body = some d) :
    ∃ opener keyword blanks operand, Opener.Opening body opener keyword blanks operand := by
  obtain ⟨⟨opener, operand⟩, found, -⟩ := Option.map_eq_some_iff.mp h
  obtain ⟨keyword, blanks, opening⟩ := Opener.read?_eq_some_iff.mp found
  exact ⟨opener, keyword, blanks, operand, opening⟩

theorem reference?_eq_none (h : ∀ c ∈ body.head?, c ∉ ['$', '&']) : reference? body = none := by
  rw [Option.eq_none_iff_forall_ne_some]
  intro d found
  obtain ⟨s, -, rfl⟩ := exists_spelling found
  rcases s.head?_text with head | head
  · exact h _ head (by decide)
  · exact h _ head (by decide)

theorem block?_eq_none (h : ∀ c ∈ body.head?, c ∉ ['i', 'e', 'f']) : block? body = none := by
  rw [Option.eq_none_iff_forall_ne_some]
  intro d found
  obtain ⟨opener, keyword, blanks, operand, opening⟩ := exists_opening found
  obtain ⟨c, listed, head⟩ := opening.names.head?_append (blanks ++ operand)
  rw [← opening.whole] at head
  exact h c head listed

/-- What begins no fixed word cannot be prolonged to one. -/
theorem fixed?_append_eq_none {start : Text}
    (other : FixedWord.spellings.all fun entry => !start.isPrefixOf entry.1) (rest : Text) :
    fixed? (start ++ rest) = none := by
  rw [fixed?, Option.map_eq_none_iff, FixedWord.ofText?, List.lookup_eq_none_iff]
  intro entry listed
  have differs := List.all_eq_true.mp other entry listed
  rw [bne_iff_ne]
  intro same
  rw [← same, Bool.not_eq_true', ← Bool.not_eq_true, List.isPrefixOf_iff_prefix] at differs
  exact differs (List.prefix_append start rest)

theorem refused_of_comment {d : Directive} (h : comment? body = some d) :
    verbatim? body = none ∧ fixed? body = none ∧ reference? body = none ∧ block? body = none := by
  have head : body.head? = some '*' := by
    obtain ⟨found, -⟩ := Option.ite_none_right_eq_some.mp h
    exact List.singleton_prefix_iff_head?_eq_some.mp (Text.isComment_iff.mp found).1
  refine ⟨verbatim?_eq_none ?_, fixed?_eq_none ?_, reference?_eq_none ?_, block?_eq_none ?_⟩
  all_goals simp [head]

theorem refused_of_verbatim {d : Directive} (h : verbatim? body = some d) :
    fixed? body = none ∧ reference? body = none ∧ block? body = none := by
  obtain ⟨raw, found, -⟩ := Option.map_eq_some_iff.mp h
  have whole := Text.verbatim?_eq_some_iff.mp found
  have head : body.head? = some 'l' := by
    rw [whole]
    rfl
  refine ⟨?_, reference?_eq_none ?_, block?_eq_none ?_⟩
  · rw [whole]
    exact fixed?_append_eq_none (by decide) _
  all_goals simp [head]

theorem refused_of_fixed {d : Directive} (h : fixed? body = some d) :
    reference? body = none ∧ block? body = none := by
  constructor
  · rw [Option.eq_none_iff_forall_ne_some]
    intro d found
    obtain ⟨s, -, rfl⟩ := exists_spelling found
    rw [s.fixed?_text] at h
    cases h
  · rw [Option.eq_none_iff_forall_ne_some]
    intro d found
    obtain ⟨opener, keyword, blanks, operand, opening⟩ := exists_opening found
    rw [opening.whole, fixed?_append_eq_none opening.names.not_begins_fixed] at h
    cases h

theorem refused_of_reference {d : Directive} (h : reference? body = some d) :
    block? body = none := by
  obtain ⟨s, -, rfl⟩ := exists_spelling h
  apply block?_eq_none
  rcases s.head?_text with head | head
  · simp [head]
  · simp [head]

/-- What one reader accepts, every later one refuses. -/
theorem exclusive (body : Text) :
    readers.Pairwise fun read other => ∀ found, read body = some found → other body = none := by
  simp only [readers, List.pairwise_cons, List.forall_mem_cons, List.not_mem_nil, false_implies,
    implies_true, List.Pairwise.nil, and_true]
  refine ⟨⟨?_, ?_, ?_, ?_⟩, ⟨?_, ?_, ?_⟩, ⟨?_, ?_⟩, ?_⟩
  · exact fun _ h => (refused_of_comment h).1
  · exact fun _ h => (refused_of_comment h).2.1
  · exact fun _ h => (refused_of_comment h).2.2.1
  · exact fun _ h => (refused_of_comment h).2.2.2
  · exact fun _ h => (refused_of_verbatim h).1
  · exact fun _ h => (refused_of_verbatim h).2.1
  · exact fun _ h => (refused_of_verbatim h).2.2
  · exact fun _ h => (refused_of_fixed h).1
  · exact fun _ h => (refused_of_fixed h).2
  · exact fun _ h => refused_of_reference h

theorem length_readings_le_one (body : Text) :
    (readers.filterMap fun read => read body).length ≤ 1 :=
  length_filterMap_le_one (exclusive body)

/-- The one reader that accepts a body settles what it says. -/
theorem ofBody_of_reader {read : Text → Option Directive} (listed : read ∈ readers)
    {d : Directive} (h : read body = some d) : ofBody body = d := by
  rw [ofBody, findSome?_of_mem (length_readings_le_one body) listed h]
  rfl

theorem isEmpty_of_reader {read : Text → Option Directive} (listed : read ∈ readers)
    {d : Directive} (h : read body = some d) : body.isEmpty = false := by
  cases body with
  | nil =>
    have refused : ∀ other ∈ readers, other [] = none :=
      ofBody_eq_unrecognized_iff.mp (by decide +kernel)
    rw [refused read listed] at h
    cases h
  | cons _ _ => rfl

end Directive

def Root.isVar : Root → Bool
  | var _ => true
  | constant _ _ => false
  | property _ _ => false

/-- The two grammars of references: those that start from a variable, and those that start from
a member of a class. -/
def Spelling.Writes (fromVar : Bool) (body : Text) : Prop :=
  ∃ s : Spelling, s.WellFormed ∧ s.root.isVar = fromVar ∧ s.text = body

theorem Spelling.Writes.unique {body : Text} {fromVar fromVar' : Bool}
    (h : Writes fromVar body) (h' : Writes fromVar' body) : fromVar = fromVar' := by
  obtain ⟨s, ok, rfl, rfl⟩ := h
  obtain ⟨s', ok', rfl, same⟩ := h'
  rw [eq_of_text ok' ok same]

theorem Directive.reference?_isVar_iff {body : Text} {fromVar : Bool} :
    (∃ target : Reference, reference? body = some (.reference target) ∧
      target.root.isVar = fromVar) ↔ Spelling.Writes fromVar body := by
  constructor
  · rintro ⟨target, found, rfl⟩
    obtain ⟨s, ok, same, rfl⟩ := reference?_eq_some_iff.mp found
    exact ⟨s, ok, rfl, same⟩
  · rintro ⟨s, ok, rfl, same⟩
    exact ⟨s.reference, reference?_eq_some_iff.mpr ⟨s, ok, same, rfl⟩, rfl⟩

/-- At most one reader accepts a body, so that in whatever order they are tried it is read as the
same directive. A reference is read by one of two grammars, and no body belongs to both. -/
theorem readers_exclusive (body : Text) :
    (Directive.readers.filterMap fun read => read body).length ≤ 1 ∧
    (∀ order : List (Text → Option Directive), order.Perm Directive.readers →
      (order.findSome? fun read => read body).getD .unrecognized = Directive.ofBody body) ∧
    (∀ fromVar : Bool, (∃ target : Reference,
      Directive.reference? body = some (.reference target) ∧
        target.root.isVar = fromVar) ↔ Spelling.Writes fromVar body) ∧
    ¬ (Spelling.Writes true body ∧ Spelling.Writes false body) := by
  have few := Directive.length_readings_le_one body
  refine ⟨few, ?_, fun _ => Directive.reference?_isVar_iff, ?_⟩
  · intro order perm
    rw [findSome?_of_perm few perm]
    rfl
  · rintro ⟨first, second⟩
    exact Bool.noConfusion (first.unique second)

/-- With blocks tried before fixed words, the keyword that a fixed word begins is still read as a
keyword. -/
theorem readers_exclusive_reversed :
    Directive.readers.reverse.Perm Directive.readers ∧
    (Directive.readers.reverse.findSome? fun read => read "elseif x".toList).getD .unrecognized =
      .block .elseCond "x".toList := by
  have perm := Directive.readers.reverse_perm
  exact ⟨perm, ((readers_exclusive "elseif x".toList).2.1 _ perm).trans (by decide +kernel)⟩

end BraceTemplate
