import BraceTemplate.Directive.Reading
import BraceTemplate.Proofs.Filling

/-!
# Which reader takes a body

For each form of directive, the bodies that its reader accepts are described by what they
are put together from. A body is left unrecognized only if every reader refuses it.
References are the one form that begins with a dollar sign or an ampersand, so no earlier
reader takes one away.
-/
namespace BraceTemplate

namespace Text

theorem isComment_iff {body : Text} : isComment body = true ↔
    ['*'] <+: body ∧ (['*'] <:+ body ∨ ['*', '\n'] <:+ body) := by
  rw [isComment, Bool.and_eq_true, decide_eq_true_iff, decide_eq_true_iff,
    List.singleton_prefix_iff_head?_eq_some, List.singleton_suffix_iff_getLast?_eq_some]
  refine and_congr_right fun _ => ?_
  by_cases newline : body.getLast? = some '\n'
  · obtain ⟨front, rfl⟩ := List.getLast?_eq_some_iff.mp newline
    have dropped : dropNewline (front ++ ['\n']) = front := by simp [dropNewline]
    have ends : ['*'] ++ ['\n'] <:+ front ++ ['\n'] ↔ ['*'] <:+ front :=
      List.suffix_append_self_iff
    change _ ↔ _ ∨ ['*'] ++ ['\n'] <:+ _
    rw [dropped, ends, List.singleton_suffix_iff_getLast?_eq_some]
    simp
  · have kept : dropNewline body = body := by simp [dropNewline, newline]
    have ends : ¬ ['*', '\n'] <:+ body := by
      rintro ⟨front, rfl⟩
      simp at newline
    rw [kept]
    simp [ends]

theorem verbatim?_eq_some_iff {body raw : Text} : verbatim? body = some raw ↔
    body = "literal\x7d".toList ++ (raw ++ "\x7b/literal".toList) := by
  constructor
  · intro h
    unfold verbatim? at h
    obtain ⟨both, same⟩ := Option.ite_none_right_eq_some.mp h
    rw [Bool.and_eq_true, List.isPrefixOf_iff_prefix, List.isSuffixOf_iff_suffix] at both
    obtain ⟨⟨rest, rfl⟩, ends⟩ := both
    rw [List.drop_left] at ends same
    obtain ⟨front, rfl⟩ := ends
    simpa using same
  · rintro rfl
    simp [verbatim?]

end Text

namespace Opener

/-- The keywords of a template and what they open. -/
inductive Names : Text → Opener → Prop where
  | cond : Names "if".toList .cond
  | elseCond : Names "elseif".toList .elseCond
  | loop : Names "foreach".toList .loop
  | shortLoop : Names "each".toList .loop

theorem names_iff_mem {keyword : Text} {opener : Opener} :
    Names keyword opener ↔ (keyword, opener) ∈ spellings := by
  constructor
  · intro h
    cases h <;> simp [spellings]
  · intro listed
    simp only [spellings, List.mem_cons, Prod.mk.injEq, List.not_mem_nil, or_false] at listed
    rcases listed with ⟨rfl, rfl⟩ | ⟨rfl, rfl⟩ | ⟨rfl, rfl⟩ | ⟨rfl, rfl⟩
    · exact .cond
    · exact .elseCond
    · exact .loop
    · exact .shortLoop

namespace Names
variable {keyword : Text} {opener : Opener}

theorem lookup (h : Names keyword opener) : spellings.lookup keyword = some opener := by
  cases h <;> rfl

theorem unblank (h : Names keyword opener) : keyword.all fun c => !isBlank c := by
  cases h <;> rfl

theorem not_begins_fixed (h : Names keyword opener) :
    FixedWord.spellings.all fun entry => !keyword.isPrefixOf entry.1 := by
  cases h <;> rfl

theorem head?_append (h : Names keyword opener) (rest : Text) :
    ∃ c ∈ ['i', 'e', 'f'], (keyword ++ rest).head? = some c := by
  cases h <;> simp

end Names

/-- A body that opens a block: a keyword, at least one blank, and an operand, which may be empty
and does not begin with a blank. -/
structure Opening (body : Text) (opener : Opener) (keyword blanks operand : Text) : Prop where
  names : Names keyword opener
  whole : body = keyword ++ (blanks ++ operand)
  nonempty : blanks ≠ []
  blank : blanks.all isBlank
  begins : operand.head?.any isBlank = false

/-- A keyword has no blank in it and ends at the first one, and the blanks go as far as they can,
so that a body opens a block in only one way. -/
theorem Opening.unique {body keyword blanks operand keyword' blanks' operand' : Text}
    {opener opener' : Opener} (h : Opening body opener keyword blanks operand)
    (h' : Opening body opener' keyword' blanks' operand') :
    opener = opener' ∧ keyword = keyword' ∧ blanks = blanks' ∧ operand = operand' := by
  have stops : ∀ {blanks operand : Text}, blanks ≠ [] → blanks.all isBlank →
      (blanks ++ operand).head?.any (fun c => !isBlank c) = false := by
    intro blanks operand nonempty blank
    cases blanks with
    | nil => exact absurd rfl nonempty
    | cons c blanks =>
      have first : isBlank c = true := List.all_eq_true.mp blank c List.mem_cons_self
      simp [first]
  obtain ⟨rfl, after⟩ := run_unique h.names.unblank (stops h.nonempty h.blank) h'.names.unblank
    (stops h'.nonempty h'.blank) (h.whole.symm.trans h'.whole)
  obtain ⟨rfl, rfl⟩ := run_unique h.blank h.begins h'.blank h'.begins after
  exact ⟨Option.some.inj (h.names.lookup.symm.trans h'.names.lookup), rfl, rfl, rfl⟩

theorem readWith?_eq_some_iff {body operand : Text} {entry : Text × Opener} {opener : Opener} :
    readWith? body entry = some (opener, operand) ↔ entry.2 = opener ∧
      ∃ blanks, body = entry.1 ++ (blanks ++ operand) ∧ blanks ≠ [] ∧ blanks.all isBlank ∧
        operand.head?.any isBlank = false := by
  constructor
  · intro h
    unfold readWith? at h
    obtain ⟨starts, h⟩ := Option.ite_none_right_eq_some.mp h
    obtain ⟨after, rfl⟩ := List.isPrefixOf_iff_prefix.mp starts
    rw [List.drop_left] at h
    cases after with
    | nil => cases h
    | cons c rest =>
      obtain ⟨first, ⟨⟩⟩ := Option.ite_none_right_eq_some.mp h
      have blank : (rest.takeWhile isBlank).all isBlank := List.all_takeWhile
      have begins := List.head?_dropWhile_not isBlank rest
      refine ⟨rfl, c :: rest.takeWhile isBlank, by simp, by simp, ?_, ?_⟩
      · rw [List.all_cons, first, blank]
        rfl
      · cases head : (rest.dropWhile isBlank).head? with
        | none => rfl
        | some d => simpa [head] using begins
  · rintro ⟨rfl, blanks, rfl, nonempty, blank, begins⟩
    obtain ⟨c, blanks, rfl⟩ := List.exists_cons_of_ne_nil nonempty
    rw [List.all_cons, Bool.and_eq_true] at blank
    simp [readWith?, blank.1, dropWhile_run blank.2 begins]

theorem read?_eq_some_iff {body operand : Text} {opener : Opener} :
    read? body = some (opener, operand) ↔
      ∃ keyword blanks, Opening body opener keyword blanks operand := by
  have sound : ∀ {opener operand}, read? body = some (opener, operand) →
      ∃ keyword blanks, Opening body opener keyword blanks operand := by
    intro opener operand h
    obtain ⟨⟨keyword, meant⟩, listed, found⟩ := List.exists_of_findSome?_eq_some h
    obtain ⟨rfl, blanks, whole, nonempty, blank, begins⟩ := readWith?_eq_some_iff.mp found
    exact ⟨keyword, blanks, names_iff_mem.mpr listed, whole, nonempty, blank, begins⟩
  constructor
  · exact sound
  · rintro ⟨keyword, blanks, h⟩
    have accepted : readWith? body (keyword, opener) = some (opener, operand) :=
      readWith?_eq_some_iff.mpr ⟨rfl, blanks, h.whole, h.nonempty, h.blank, h.begins⟩
    cases found : read? body with
    | none =>
      rw [List.findSome?_eq_none_iff.mp found _ (names_iff_mem.mp h.names)] at accepted
      cases accepted
    | some other =>
      obtain ⟨keyword', blanks', h'⟩ := sound found
      obtain ⟨rfl, -, -, rfl⟩ := h.unique h'
      rfl

end Opener

namespace Directive

theorem comment?_eq_none {body : Text} (h : body.head? ≠ some '*') : comment? body = none := by
  simp [comment?, Text.isComment, h]

theorem verbatim?_eq_none {body : Text} (h : body.head? ≠ some 'l') : verbatim? body = none := by
  rw [verbatim?, Option.map_eq_none_iff, Option.eq_none_iff_forall_ne_some]
  intro raw found
  rw [Text.verbatim?_eq_some_iff.mp found] at h
  exact h rfl

theorem fixed?_eq_none {body : Text} (h : ∀ c ∈ body.head?, c ∉ ['l', 'r', '/', 'e']) :
    fixed? body = none := by
  rw [fixed?, Option.map_eq_none_iff, FixedWord.ofText?]
  cases found : FixedWord.spellings.lookup body with
  | none => rfl
  | some word =>
    obtain ⟨before, after, hwords, -⟩ := List.lookup_eq_some_iff.mp found
    have listed : (body, word) ∈ FixedWord.spellings := by simp [hwords]
    have heads : FixedWord.spellings.all fun entry =>
        entry.1.head?.any ['l', 'r', '/', 'e'].contains := rfl
    obtain ⟨c, hc, bad⟩ := (Option.any_eq_true _ _).mp (List.all_eq_true.mp heads _ listed)
    exact absurd (List.contains_iff_mem.mp bad) (h c hc)

/-- What the body says if it is read as this directive. -/
def Spells (body : Text) : Directive → Prop
  | comment => Text.isComment body = true
  | verbatim raw => Text.verbatim? body = some raw
  | fixed word => FixedWord.ofText? body = some word
  | reference target => Reference.ofText? body = some target
  | block opener operand => Opener.read? body = some (opener, operand)
  | unrecognized => False

/-- Each reader gives directives of one kind only. -/
theorem spells_of_reader {read : Text → Option Directive} (hread : read ∈ readers) {body : Text}
    {d : Directive} (h : read body = some d) : Spells body d := by
  simp only [readers, List.mem_cons, List.not_mem_nil, or_false] at hread
  rcases hread with rfl | rfl | rfl | rfl | rfl
  · obtain ⟨found, ⟨⟩⟩ := Option.ite_none_right_eq_some.mp h
    exact found
  · obtain ⟨raw, found, rfl⟩ := Option.map_eq_some_iff.mp h
    exact found
  · obtain ⟨word, found, rfl⟩ := Option.map_eq_some_iff.mp h
    exact found
  · obtain ⟨target, found, rfl⟩ := Option.map_eq_some_iff.mp h
    exact found
  · obtain ⟨⟨opener, operand⟩, found, rfl⟩ := Option.map_eq_some_iff.mp h
    exact found

theorem ofBody_cases (body : Text) :
    (∀ read ∈ readers, read body = none) ∧ ofBody body = unrecognized ∨
      ∃ read ∈ readers, read body = some (ofBody body) := by
  rw [ofBody]
  cases found : readers.findSome? fun read => read body with
  | none => exact Or.inl ⟨List.findSome?_eq_none_iff.mp found, rfl⟩
  | some d => exact Or.inr (List.exists_of_findSome?_eq_some found)

theorem spells_ofBody {body : Text} {d : Directive} (h : ofBody body = d)
    (recognized : d ≠ unrecognized) : Spells body d := by
  subst h
  rcases ofBody_cases body with ⟨-, other⟩ | ⟨read, hread, found⟩
  · exact absurd other recognized
  · exact spells_of_reader hread found

theorem ofBody_eq_unrecognized_iff {body : Text} :
    ofBody body = unrecognized ↔ ∀ read ∈ readers, read body = none := by
  rcases ofBody_cases body with ⟨refused, same⟩ | ⟨read, hread, found⟩
  · exact iff_of_true same refused
  · refine iff_of_false ?_ fun refused => ?_
    · intro same
      rw [same] at found
      exact spells_of_reader hread found
    · rw [refused read hread] at found
      cases found

theorem ofBody_ne_reference {body : Text} (h : Spelling.ofText? body = none)
    (target : Reference) : ofBody body ≠ reference target := by
  intro same
  have accepted : Reference.ofText? body = some target := spells_ofBody same (by simp)
  simp [Reference.ofText?, h] at accepted

theorem ofBody_eq_comment_iff {body : Text} :
    ofBody body = comment ↔ Text.isComment body = true := by
  constructor
  · intro same
    exact spells_ofBody same (by simp)
  · intro found
    simp [ofBody, readers, comment?, found]

theorem ofBody_eq_verbatim_iff {body raw : Text} :
    ofBody body = verbatim raw ↔ Text.verbatim? body = some raw := by
  constructor
  · intro same
    exact spells_ofBody same (by simp)
  · intro found
    have refused : comment? body = none := by
      apply comment?_eq_none
      rw [Text.verbatim?_eq_some_iff.mp found]
      simp
    simp [ofBody, readers, refused, verbatim?, found]

end Directive

namespace Spelling

theorem head?_text (s : Spelling) : s.text.head? = some '$' ∨ s.text.head? = some '&' := by
  rw [text_eq]
  cases s.root with
  | var name => exact Or.inl rfl
  | constant owner name => exact Or.inr rfl
  | property owner name => exact Or.inr rfl

theorem isEmpty_text (s : Spelling) : s.text.isEmpty = false := by
  cases h : s.text with
  | nil => simpa [h] using s.head?_text
  | cons _ _ => rfl

theorem head?_text_ne (s : Spelling) {c : Char} (dollar : c ≠ '$') (ampersand : c ≠ '&') :
    s.text.head? ≠ some c := by
  intro h
  rcases s.head?_text with h' | h'
  · exact dollar (Option.some.inj (h.symm.trans h'))
  · exact ampersand (Option.some.inj (h.symm.trans h'))

theorem fixed?_text (s : Spelling) : Directive.fixed? s.text = none := by
  apply Directive.fixed?_eq_none
  rintro c hc word
  exact s.head?_text_ne (by rintro rfl; revert word; decide)
    (by rintro rfl; revert word; decide) hc

theorem ofBody_text {s : Spelling} (ok : s.WellFormed) :
    Directive.ofBody s.text = .reference s.reference := by
  have comment := Directive.comment?_eq_none (s.head?_text_ne (by decide) (by decide))
  have verbatim := Directive.verbatim?_eq_none (s.head?_text_ne (by decide) (by decide))
  have reference : Directive.reference? s.text = some (.reference s.reference) := by
    rw [Directive.reference?, Reference.ofText?, ofText?_text ok]
    rfl
  simp [Directive.ofBody, Directive.readers, comment, verbatim, s.fixed?_text, reference]

end Spelling

end BraceTemplate
