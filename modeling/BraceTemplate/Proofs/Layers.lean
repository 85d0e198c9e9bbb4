import BraceTemplate.Modifier.Layer
import Mathlib.Tactic.Tauto

/-!
# What a layer holds

A modifier is offered to a layer by itself or as the member of a JSON object, and the
layer enters it or refuses it. `Registers` says which offers are entered, without the
functions that decide it. A lookup shows the last offer that was entered under the name,
and what was there before if there is none.
-/
namespace BraceTemplate

section Last
variable {α β : Type} {Gives : α → β → Prop} {items : List α} {b : β}

/-- The last item of the list that gives anything gives this. -/
def LastGives (Gives : α → β → Prop) (items : List α) (b : β) : Prop :=
  ∃ before item after, items = before ++ item :: after ∧ Gives item b ∧
    ∀ later ∈ after, ∀ other, ¬ Gives later other

theorem not_lastGives_nil : ¬ LastGives Gives [] b := by
  rintro ⟨before, item, after, same, -⟩
  simp at same

theorem lastGives_cons_iff {item : α} : LastGives Gives (item :: items) b ↔
    LastGives Gives items b ∨ (∀ later ∈ items, ∀ other, ¬ Gives later other) ∧ Gives item b := by
  constructor
  · rintro ⟨before, last, after, same, gives, quiet⟩
    cases before with
    | nil =>
      obtain ⟨rfl, rfl⟩ := List.cons.inj same
      exact Or.inr ⟨quiet, gives⟩
    | cons first before =>
      obtain ⟨-, rfl⟩ := List.cons.inj same
      exact Or.inl ⟨before, last, after, rfl, gives, quiet⟩
  · rintro (⟨before, last, after, rfl, gives, quiet⟩ | ⟨quiet, gives⟩)
    · exact ⟨item :: before, last, after, rfl, gives, quiet⟩
    · exact ⟨[], item, items, rfl, gives, quiet⟩

theorem exists_lastGives (given : ∃ item ∈ items, ∃ b, Gives item b) :
    ∃ b, LastGives Gives items b := by
  induction items with
  | nil =>
    obtain ⟨item, absent, -⟩ := given
    cases absent
  | cons first items ih =>
    by_cases later : ∃ item ∈ items, ∃ b, Gives item b
    · obtain ⟨b, last⟩ := ih later
      exact ⟨b, lastGives_cons_iff.mpr (Or.inl last)⟩
    · obtain ⟨item, listed, b, gives⟩ := given
      rcases List.mem_cons.mp listed with rfl | listed
      · refine ⟨b, lastGives_cons_iff.mpr (Or.inr ⟨?_, gives⟩)⟩
        exact fun other h c hc => later ⟨other, h, c, hc⟩
      · exact absurd ⟨item, listed, b, gives⟩ later

/-- Where every item overwrites what is seen of a state or leaves it, the last item that
gives anything is seen in the end. -/
theorem foldl_eq_some_iff {σ : Type} {step : σ → α → σ} (seen : σ → Option β)
    (one : ∀ s item b, seen (step s item) = some b ↔
      Gives item b ∨ (∀ other, ¬ Gives item other) ∧ seen s = some b) (s : σ) :
    seen (items.foldl step s) = some b ↔
      LastGives Gives items b ∨ (∀ item ∈ items, ∀ other, ¬ Gives item other) ∧
        seen s = some b := by
  induction items generalizing s with
  | nil => simp [not_lastGives_nil]
  | cons item items ih =>
    rw [List.foldl_cons, ih, one, lastGives_cons_iff, List.forall_mem_cons]
    tauto

end Last

/-- A JSON value that is well formed, with the modifier it describes. -/
inductive Describes : Json → Modifier → Prop where
  | call (function : Text) : Describes (.text function) (.call function)
  | wrap (before after : Text) (more : List Json) :
      Describes (.array (.text before :: .text after :: more)) (.wrap before after)

theorem Modifier.ofJson?_eq_some_iff {value : Json} {m : Modifier} :
    ofJson? value = some m ↔ Describes value m := by
  constructor
  · intro h
    unfold ofJson? at h
    split at h
    · cases h
      exact .call _
    · cases h
      exact .wrap _ _ _
    · cases h
  · intro h
    cases h with
    | call function => rfl
    | wrap before after more => rfl

/-- What may be entered in a layer: a modifier, or a JSON value that may describe one. -/
inductive Offer where
  | modifier (name : Text) (m : Modifier)
  | member (name : Text) (value : Json)

namespace Offer

def ofMember (member : Text × Json) : Offer := .member member.1 member.2

/-- The offer is entered under this name as this modifier. -/
inductive Registers : Offer → Text → Modifier → Prop where
  | modifier {name : Text} (identifier : isIdentifier name = true) (m : Modifier) :
      Registers (.modifier name m) name m
  | member {name : Text} (identifier : isIdentifier name = true) {value : Json} {m : Modifier}
      (describes : Describes value m) : Registers (.member name value) name m

theorem Registers.identifier {offer : Offer} {name : Text} {m : Modifier}
    (h : offer.Registers name m) : isIdentifier name = true := by
  cases h with
  | modifier identifier => exact identifier
  | member identifier describes => exact identifier

theorem registers_modifier_iff {name a : Text} {m n : Modifier} :
    (Offer.modifier name m).Registers a n ↔ (isIdentifier name = true ∧ name = a) ∧ m = n := by
  constructor
  · rintro ⟨identifier⟩
    exact ⟨⟨identifier, rfl⟩, rfl⟩
  · rintro ⟨⟨identifier, rfl⟩, rfl⟩
    exact .modifier identifier m

theorem registers_member_iff {name a : Text} {value : Json} {n : Modifier} :
    (Offer.member name value).Registers a n ↔
      (isIdentifier name = true ∧ name = a) ∧ Modifier.ofJson? value = some n := by
  rw [Modifier.ofJson?_eq_some_iff]
  constructor
  · rintro ⟨⟩
    exact ⟨⟨‹_›, rfl⟩, ‹_›⟩
  · rintro ⟨⟨identifier, rfl⟩, describes⟩
    exact .member identifier describes

end Offer

namespace Layer

@[simp] theorem get?_empty (name : Text) : empty.get? name = none :=
  Std.ExtTreeMap.getElem?_empty

theorem get?_insert (t : Layer) (name a : Text) (m : Modifier) :
    (t.insert name m).get? a =
      if isIdentifier name = true ∧ name = a then some m else t.get? a := by
  by_cases identifier : isIdentifier name = true
  · have entered : (t.insert name m).get? a = (t.entries.insert name m)[a]? := by
      simp [insert, insert?, identifier, get?]
    rw [entered, Std.ExtTreeMap.getElem?_insert]
    simp [identifier, get?]
  · simp [insert, insert?, identifier]

theorem insert_of_refused (t : Layer) {name : Text} (refused : isIdentifier name = false)
    (m : Modifier) : t.insert name m = t := by
  simp [insert, insert?, refused]

/-- Enters an offer or leaves the layer as it is. -/
def take (t : Layer) : Offer → Layer
  | .modifier name m => t.insert name m
  | .member name value => ((Modifier.ofJson? value).map (t.insert name)).getD t

theorem take_ofMember (t : Layer) (member : Text × Json) : t.take (Offer.ofMember member) =
    ((entryOfMember? member).map fun entry => t.insert entry.1 entry.2).getD t := by
  cases identifier : isIdentifier member.1 with
  | true => simp [take, Offer.ofMember, entryOfMember?, identifier, Function.comp_def]
  | false =>
    cases h : Modifier.ofJson? member.2 with
    | none => simp [take, Offer.ofMember, entryOfMember?, identifier, h]
    | some m =>
      simp [take, Offer.ofMember, entryOfMember?, identifier, h, t.insert_of_refused identifier]

theorem extend_eq_foldl_take (t : Layer) (members : List (Text × Json)) :
    (t.extend members).1 = (members.map Offer.ofMember).foldl take t := by
  rw [extend, List.foldl_map]
  induction members generalizing t with
  | nil => rfl
  | cons member members ih =>
    rw [List.foldl_cons, ← ih, take_ofMember, List.filterMap_cons]
    cases entryOfMember? member with
    | none => rfl
    | some entry => rfl

theorem get?_take_eq_some_iff (t : Layer) (name : Text) (offer : Offer) (m : Modifier) :
    (t.take offer).get? name = some m ↔ offer.Registers name m ∨
      (∀ other, ¬ offer.Registers name other) ∧ t.get? name = some m := by
  cases offer with
  | modifier key n =>
    simp only [take, get?_insert, Offer.registers_modifier_iff]
    by_cases here : isIdentifier key = true ∧ key = name
    · obtain ⟨identifier, rfl⟩ := here
      simp [identifier]
    · simp [here]
  | member key value =>
    simp only [Offer.registers_member_iff]
    cases h : Modifier.ofJson? value with
    | none => simp [take, h]
    | some n =>
      simp only [take, h, Option.map_some, Option.getD_some, get?_insert]
      by_cases here : isIdentifier key = true ∧ key = name
      · obtain ⟨identifier, rfl⟩ := here
        simp [identifier]
      · simp [here]

/-- After any number of offers a name stands for the last one entered under it. -/
theorem get?_foldl_take_eq_some_iff (t : Layer) (offers : List Offer) (name : Text)
    (m : Modifier) : (offers.foldl take t).get? name = some m ↔
      LastGives (fun offer m => offer.Registers name m) offers m ∨
        (∀ offer ∈ offers, ∀ other, ¬ offer.Registers name other) ∧ t.get? name = some m :=
  foldl_eq_some_iff (fun t : Layer => t.get? name)
    (fun t offer m => t.get?_take_eq_some_iff name offer m) t

end Layer
end BraceTemplate
