import BraceTemplate.Directive.Reading
import BraceTemplate.Proofs.Spelling

/-!
# The grammar of references

A body is a reference exactly when it is the text of a well-formed spelling. No body has
two spellings, so that the root, the accesses and the slots are found without loss. A
reference itself can be written with no empty slot and no final newline, and is read
from that text again.
-/
namespace BraceTemplate

namespace Reference

/-- All names are names; the part that a modifier call asks for may be empty. -/
structure WellFormed (target : Reference) : Prop where
  root : target.root.WellFormed
  accesses : ∀ access ∈ target.accesses, access.WellFormed
  named : ∀ slot ∈ target.chain, isName slot.name
  subKeys : ∀ slot ∈ target.chain, ∀ key ∈ slot.subKey, key.all isNameChar

/-- A reference without an empty slot and without a newline. -/
def spelling (target : Reference) : Spelling := ⟨target.root, target.accesses, target.chain, false⟩

theorem WellFormed.spelling {target : Reference} (ok : target.WellFormed) :
    target.spelling.WellFormed where
  root := ok.root
  accesses := ok.accesses
  slots := fun slot listed =>
    ⟨(isName_iff.mp (ok.named slot listed)).2, ok.subKeys slot listed⟩

theorem WellFormed.reference_spelling {target : Reference} (ok : target.WellFormed) :
    target.spelling.reference = target := by
  have kept : target.chain.filter (fun slot => !slot.name.isEmpty) = target.chain := by
    rw [List.filter_eq_self]
    intro slot listed
    have named := (isName_iff.mp (ok.named slot listed)).1
    simpa using named
  rw [Spelling.reference, Reference.spelling, kept]

end Reference

theorem Spelling.eq_of_text {s t : Spelling} (hs : s.WellFormed) (ht : t.WellFormed)
    (same : s.text = t.text) : s = t :=
  Option.some.inj ((ofText?_text hs).symm.trans (same ▸ ofText?_text ht))

theorem Directive.reference?_eq_some_iff {body : Text} {target : Reference} :
    reference? body = some (.reference target) ↔
      ∃ s : Spelling, s.WellFormed ∧ s.text = body ∧ s.reference = target := by
  simp only [reference?, Reference.ofText?, Option.map_eq_some_iff, reference.injEq,
    exists_eq_right, Spelling.ofText?_eq_some, and_assoc]

/-- The reader of references accepts the texts of well-formed spellings and no others, each text
has one spelling, and what is read are its root, its accesses and its slots that have a name.
A reference that is written out is read back. -/
theorem reference?_reads_grammar :
    (∀ (body : Text) (target : Reference),
      Directive.reference? body = some (.reference target) ↔
        ∃ s : Spelling, s.WellFormed ∧ s.text = body ∧ s.reference = target) ∧
    (∀ s t : Spelling, s.WellFormed → t.WellFormed → s.text = t.text → s = t) ∧
    ∀ target : Reference, target.WellFormed →
      Directive.reference? target.spelling.text = some (.reference target) := by
  refine ⟨fun _ _ => Directive.reference?_eq_some_iff, fun _ _ => Spelling.eq_of_text, ?_⟩
  intro target ok
  exact Directive.reference?_eq_some_iff.mpr
    ⟨target.spelling, ok.spelling, rfl, ok.reference_spelling⟩

/-- A dot in each of its three roles, a call with an empty part, an empty slot and a newline; the
reference that is read is written shorter. -/
theorem reference?_reads_property :
    ∃ (s : Spelling) (target : Reference), s.WellFormed ∧ target.WellFormed ∧
      s.text = "&c.n.k->m|a.||b.s\n".toList ∧ target.spelling.text = "&c.n.k->m|a.|b.s".toList ∧
      Directive.reference? s.text = some (.reference target) ∧
      (∀ t : Spelling, t.WellFormed → t.text = s.text → t = s) ∧
      Directive.reference? target.spelling.text = some (.reference target) := by
  have accesses : ∀ access ∈ [Access.key "k".toList, .member "m".toList], access.WellFormed := by
    intro access listed
    simp only [List.mem_cons, List.not_mem_nil, or_false] at listed
    rcases listed with rfl | rfl
    · exact show isName _ = true by decide
    · exact show isName _ = true by decide
  let s : Spelling := ⟨.property "c".toList "n".toList, [.key "k".toList, .member "m".toList],
    [⟨"a".toList, some []⟩, ⟨[], none⟩, ⟨"b".toList, some "s".toList⟩], true⟩
  have spelled : s.WellFormed := by
    refine ⟨⟨by decide, by decide⟩, accesses, ?_⟩
    intro slot listed
    simp only [s, List.mem_cons, List.not_mem_nil, or_false] at listed
    rcases listed with rfl | rfl | rfl
    · exact ⟨by decide, by decide⟩
    · exact ⟨by decide, by decide⟩
    · exact ⟨by decide, by decide⟩
  have formed : s.reference.WellFormed :=
    ⟨⟨by decide, by decide⟩, accesses, by decide, by decide⟩
  exact ⟨s, s.reference, spelled, formed, by decide, by decide,
    (reference?_reads_grammar.1 s.text s.reference).mpr ⟨s, spelled, rfl, rfl⟩,
    fun t ok same => reference?_reads_grammar.2.1 t s ok spelled same,
    reference?_reads_grammar.2.2 s.reference formed⟩

end BraceTemplate
