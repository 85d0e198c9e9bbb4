import BraceTemplate.Proofs.Layers
import BraceTemplate.Settings.Basic
import Mathlib.Data.Set.Card

/-!
# Entering many modifiers at once

A JSON object that gives each key once enters its well-formed members and drops the
others, whatever the order in which they are visited. How many members are accepted, how
large the layer is afterwards and what each name stands for are three readings of one
set, the names that the object enters.
-/
namespace BraceTemplate

/-- Each key is given once. -/
def UniqueKeys (members : List (Text × Json)) : Prop := (members.map Prod.fst).Nodup

/-- The object gives the name a value that is well formed, and that describes this modifier. -/
def Enters (members : List (Text × Json)) (name : Text) (m : Modifier) : Prop :=
  isIdentifier name = true ∧ ∃ value, (name, value) ∈ members ∧ Describes value m

section Members
variable {members order : List (Text × Json)} {name : Text} {m n : Modifier}

theorem UniqueKeys.value_eq (unique : UniqueKeys members) {value value' : Json}
    (given : (name, value) ∈ members) (given' : (name, value') ∈ members) : value = value' :=
  congrArg Prod.snd (List.inj_on_of_nodup_map unique given given' rfl)

theorem UniqueKeys.perm (unique : UniqueKeys members) (perm : order.Perm members) :
    UniqueKeys order :=
  (perm.map Prod.fst).nodup_iff.mpr unique

theorem Enters.unique (unique : UniqueKeys members) (enters : Enters members name m)
    (enters' : Enters members name n) : m = n := by
  obtain ⟨-, value, given, describes⟩ := enters
  obtain ⟨-, value', given', describes'⟩ := enters'
  obtain rfl := unique.value_eq given given'
  rw [← Modifier.ofJson?_eq_some_iff] at describes describes'
  exact Option.some.inj (describes.symm.trans describes')

theorem enters_perm (perm : order.Perm members) : Enters order name m ↔ Enters members name m := by
  simp only [Enters, perm.mem_iff]

theorem enters_iff_registers :
    Enters members name m ↔ ∃ offer ∈ members.map Offer.ofMember, offer.Registers name m := by
  constructor
  · rintro ⟨identifier, value, given, describes⟩
    exact ⟨_, List.mem_map_of_mem given, .member identifier describes⟩
  · rintro ⟨offer, listed, registers⟩
    obtain ⟨⟨key, value⟩, given, rfl⟩ := List.mem_map.mp listed
    obtain ⟨⟨identifier, rfl⟩, reads⟩ := Offer.registers_member_iff.mp registers
    exact ⟨identifier, value, given, Modifier.ofJson?_eq_some_iff.mp reads⟩

/-- With unique keys the last offer under a name is the only one. -/
theorem lastGives_iff_enters (unique : UniqueKeys members) :
    LastGives (fun offer m => offer.Registers name m) (members.map Offer.ofMember) m ↔
      Enters members name m := by
  have entered {m : Modifier} (last : LastGives (fun offer m => offer.Registers name m)
      (members.map Offer.ofMember) m) : Enters members name m := by
    obtain ⟨before, offer, after, same, registers, -⟩ := last
    exact enters_iff_registers.mpr ⟨offer, by simp [same], registers⟩
  refine ⟨entered, fun enters => ?_⟩
  obtain ⟨offer, listed, registers⟩ := enters_iff_registers.mp enters
  have given : ∃ offer ∈ members.map Offer.ofMember, ∃ n, offer.Registers name n :=
    ⟨offer, listed, m, registers⟩
  obtain ⟨n, last⟩ := exists_lastGives given
  rwa [enters.unique unique (entered last)]

theorem mem_filterMap_entryOfMember? :
    (name, m) ∈ members.filterMap Layer.entryOfMember? ↔ Enters members name m := by
  rw [List.mem_filterMap]
  constructor
  · rintro ⟨⟨key, value⟩, given, entry⟩
    simp only [Layer.entryOfMember?, Option.ite_none_right_eq_some, Option.map_eq_some_iff] at entry
    obtain ⟨identifier, _, reads, same⟩ := entry
    obtain ⟨rfl, rfl⟩ := Prod.mk.inj same
    exact ⟨identifier, value, given, Modifier.ofJson?_eq_some_iff.mp reads⟩
  · rintro ⟨identifier, value, given, describes⟩
    refine ⟨(name, value), given, ?_⟩
    simp [Layer.entryOfMember?, identifier, Modifier.ofJson?_eq_some_iff.mpr describes]

/-- Dropping members keeps the keys unique. -/
theorem UniqueKeys.nodup_entries (unique : UniqueKeys members) :
    ((members.filterMap Layer.entryOfMember?).map Prod.fst).Nodup := by
  have key {member : Text × Json} {entry : Text × Modifier}
      (h : Layer.entryOfMember? member = some entry) : entry.1 = member.1 := by
    simp only [Layer.entryOfMember?, Option.ite_none_right_eq_some, Option.map_eq_some_iff] at h
    obtain ⟨-, m, -, rfl⟩ := h
    rfl
  rw [UniqueKeys, List.nodup_iff_pairwise_ne, List.pairwise_map] at unique
  rw [List.nodup_iff_pairwise_ne, List.pairwise_map, List.pairwise_filterMap]
  refine unique.imp fun differ entry h entry' h' => ?_
  rwa [key h, key h']

end Members

/-- The names that an object enters. -/
def enteredNames (members : List (Text × Json)) : Set Text := {name | ∃ m, Enters members name m}

/-- The names that a layer holds. -/
def Layer.names (t : Layer) : Set Text := {name | ∃ m, t.get? name = some m}

namespace Layer
variable {members order : List (Text × Json)} {name : Text} {m : Modifier}

theorem ext_get? {t t' : Layer} (same : ∀ name m, t.get? name = some m ↔ t'.get? name = some m) :
    t = t' := by
  obtain ⟨entries⟩ := t
  obtain ⟨entries'⟩ := t'
  have equal : entries = entries' :=
    Std.ExtTreeMap.ext_getElem? fun name => Option.ext fun m => same name m
  rw [equal]

theorem encard_names (t : Layer) : t.names.encard = t.size := by
  have listed : t.names = t.entries.keys.toFinset := by
    ext name
    simp only [names, get?, Set.mem_ofPred_eq, List.coe_toFinset, Std.ExtTreeMap.mem_keys,
      Std.ExtTreeMap.mem_iff_isSome_getElem?, Option.isSome_iff_exists]
  rw [listed, Set.encard_coe_eq_coe_finsetCard,
    List.toFinset_card_of_nodup Std.ExtTreeMap.nodup_keys, Std.ExtTreeMap.length_keys]
  rfl

/-- A name stands for what the object enters under it, and otherwise for what it did before. -/
theorem get?_extend (t : Layer) (unique : UniqueKeys members) :
    (t.extend members).1.get? name = some m ↔ Enters members name m ∨
      (∀ other, ¬ Enters members name other) ∧ t.get? name = some m := by
  have absent : (∀ offer ∈ members.map Offer.ofMember, ∀ other, ¬ offer.Registers name other) ↔
      ∀ other, ¬ Enters members name other := by
    simp only [enters_iff_registers]
    exact ⟨fun h other ⟨offer, listed, gives⟩ => h offer listed other gives,
      fun h offer listed other gives => h other ⟨offer, listed, gives⟩⟩
  rw [extend_eq_foldl_take, get?_foldl_take_eq_some_iff, lastGives_iff_enters unique, absent]

theorem get?_extend_empty (unique : UniqueKeys members) :
    (empty.extend members).1.get? name = some m ↔ Enters members name m := by
  simp [empty.get?_extend unique]

theorem encard_enteredNames (t : Layer) (unique : UniqueKeys members) :
    (enteredNames members).encard = (t.extend members).2 := by
  have listed : enteredNames members =
      ((members.filterMap entryOfMember?).map Prod.fst).toFinset := by
    ext name
    simp only [enteredNames, Set.mem_ofPred_eq, List.coe_toFinset, List.mem_map, Prod.exists,
      mem_filterMap_entryOfMember?]
    exact ⟨fun ⟨m, enters⟩ => ⟨name, m, enters, rfl⟩,
      fun ⟨_, m, enters, same⟩ => ⟨m, same ▸ enters⟩⟩
  rw [listed, Set.encard_coe_eq_coe_finsetCard,
    List.toFinset_card_of_nodup unique.nodup_entries, List.length_map]
  rfl

theorem names_extend (t : Layer) (unique : UniqueKeys members) :
    (t.extend members).1.names = t.names ∪ enteredNames members := by
  ext name
  simp only [names, enteredNames, Set.mem_union, Set.mem_ofPred_eq, t.get?_extend unique]
  by_cases enters : ∃ m, Enters members name m
  · obtain ⟨m, enters⟩ := enters
    exact ⟨fun _ => Or.inr ⟨m, enters⟩, fun _ => ⟨m, Or.inl enters⟩⟩
  · have absent : ∀ other, ¬ Enters members name other := fun other h => enters ⟨other, h⟩
    simp [absent]

theorem extend_perm (t : Layer) (unique : UniqueKeys members) (perm : order.Perm members) :
    t.extend order = t.extend members := by
  refine Prod.ext (ext_get? fun name m => ?_) (perm.filterMap _).length_eq
  simp only [t.get?_extend unique, t.get?_extend (unique.perm perm), enters_perm perm]

theorem extend_extend (t : Layer) (unique : UniqueKeys members) :
    (t.extend members).1.extend members = t.extend members := by
  refine Prod.ext (ext_get? fun name m => ?_) rfl
  rw [get?_extend _ unique, get?_extend _ unique]
  tauto

end Layer

namespace Compiler

theorem registry_ofSettings (s : Settings) (shared : Layer) :
    (ofSettings s shared).registry = ⟨shared, (Layer.empty.extend s.modifiers).1⟩ := by
  obtain ⟨defaultModifier, debug, sharedModifiers, modifiers⟩ := s
  cases defaultModifier with
  | none => rfl
  | some candidate =>
    cases h : Text.defaultOf? candidate with
    | none => simp [ofSettings, withDefault?, h, registerAll, withOwn, withDebug, ofShared]
    | some slot => simp [ofSettings, withDefault?, h, registerAll, withOwn, withDebug, ofShared]

/-- What belongs to the compiler is found first, what is shared second. -/
theorem find?_ofSettings {s : Settings} (own : UniqueKeys s.modifiers)
    (shared : UniqueKeys s.sharedModifiers) {name : Text} {m : Modifier} :
    (ofSettings s s.sharedLayer).registry.find? name = some m ↔ Enters s.modifiers name m ∨
      (∀ other, ¬ Enters s.modifiers name other) ∧ Enters s.sharedModifiers name m := by
  have missing : (Layer.empty.extend s.modifiers).1.get? name = none ↔
      ∀ other, ¬ Enters s.modifiers name other := by
    simp only [Option.eq_none_iff_forall_ne_some, ne_eq, Layer.get?_extend_empty own]
  rw [registry_ofSettings, Settings.sharedLayer, Registry.find?, Option.orElse_eq_orElse,
    Option.orElse_eq_or, Option.or_eq_some_iff, missing, Layer.get?_extend_empty own,
    Layer.get?_extend_empty shared]

end Compiler

/-- Entering an object with unique keys does not depend on the order of its members: each name
that it enters stands for what its value describes, every other name for what it did before;
the count is that of the names entered, the size that of all names, and entering the object
again changes nothing. A compiler made from settings looks in its own object first and in the
shared one second. -/
theorem extend_overrides (t : Layer) {members : List (Text × Json)} (unique : UniqueKeys members) :
    (∀ order : List (Text × Json), order.Perm members → t.extend order = t.extend members) ∧
    (∀ (name : Text) (m : Modifier), (t.extend members).1.get? name = some m ↔
      Enters members name m ∨
        (∀ other, ¬ Enters members name other) ∧ t.get? name = some m) ∧
    (enteredNames members).encard = (t.extend members).2 ∧
    (t.names ∪ enteredNames members).encard = (t.extend members).1.size ∧
    (t.extend members).1.extend members = t.extend members ∧
    ∀ s : Settings, UniqueKeys s.modifiers → UniqueKeys s.sharedModifiers →
      ∀ (name : Text) (m : Modifier),
        (Compiler.ofSettings s s.sharedLayer).registry.find? name = some m ↔
          Enters s.modifiers name m ∨
            (∀ other, ¬ Enters s.modifiers name other) ∧ Enters s.sharedModifiers name m := by
  refine ⟨fun order perm => t.extend_perm unique perm, fun name m => t.get?_extend unique,
    t.encard_enteredNames unique, ?_, t.extend_extend unique, ?_⟩
  · rw [← t.names_extend unique, Layer.encard_names]
  · intro s own shared name m
    exact Compiler.find?_ofSettings own shared

/-- Members that are entered, and some that are not: a key that is no identifier, a list that is
too short. -/
def mixedMembers : List (Text × Json) :=
  [("7up".toList, .text "up".toList), ("cut".toList, .array [.text "a(".toList]),
    ("raw".toList, .array [.text [], .text [], .null]), ("up".toList, .text "strtoupper".toList)]

theorem extend_overrides_mixed :
    UniqueKeys mixedMembers ∧
    Layer.empty.extend mixedMembers.reverse = Layer.empty.extend mixedMembers ∧
    (enteredNames mixedMembers).encard = 2 ∧
    (Compiler.ofSettings ⟨none, false, mixedMembers, []⟩
      (Settings.sharedLayer ⟨none, false, mixedMembers, []⟩)).registry.find? "up".toList =
        some (.call "strtoupper".toList) := by
  have unique : UniqueKeys mixedMembers :=
    show (mixedMembers.map Prod.fst).Nodup by decide
  have entered : Enters mixedMembers "up".toList (.call "strtoupper".toList) :=
    ⟨by decide, _, by simp [mixedMembers], .call _⟩
  obtain ⟨order, -, count, -, -, settings⟩ := extend_overrides Layer.empty unique
  have accepted : (Layer.empty.extend mixedMembers).2 = 2 := by decide
  rw [accepted] at count
  refine ⟨unique, order _ (List.reverse_perm _), count, ?_⟩
  refine (settings ⟨none, false, mixedMembers, []⟩ List.nodup_nil unique _ _).mpr ?_
  refine Or.inr ⟨?_, entered⟩
  rintro other ⟨-, value, given, -⟩
  cases given

end BraceTemplate
