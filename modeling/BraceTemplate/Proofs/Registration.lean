import BraceTemplate.Proofs.Diagnostics
import BraceTemplate.Proofs.Layers

/-!
# Registering one more modifier

Two compilers that differ only in what they have registered take a template apart alike,
and render alike every directive whose names they agree on. A modifier that is newly
registered therefore changes what names it, and nothing else: its own name is no longer
unresolved.
-/
namespace BraceTemplate

namespace Registry

theorem applyChain_congr {r r' : Registry} {chain : List Slot}
    (same : ∀ slot ∈ chain, r'.find? slot.name = r.find? slot.name) (expression : Text) :
    r'.applyChain expression chain = r.applyChain expression chain := by
  induction chain generalizing expression with
  | nil => rfl
  | cons slot rest ih =>
    have first := same slot List.mem_cons_self
    have later : ∀ other ∈ rest, r'.find? other.name = r.find? other.name := fun other h =>
      same other (List.mem_cons_of_mem slot h)
    rw [applyChain, applyChain, first]
    cases r.find? slot.name with
    | none => simp only [ih later]
    | some m => exact ih later _

theorem find?_insert (r : Registry) {name : Text} (identifier : isIdentifier name = true)
    (m : Modifier) (a : Text) : { r with own := r.own.insert name m }.find? a =
      if name = a then some m else r.find? a := by
  by_cases same : name = a
  · subst same
    simp [find?, Layer.get?_insert, identifier]
  · simp [find?, Layer.get?_insert, same]

end Registry

namespace Compiler
variable {c : Compiler}

/-- The names that the slots of a directive stand for. -/
def slotNames (c : Compiler) (body : Text) : List Text :=
  ((Spelling.ofText? body).toList.flatMap Spelling.slots).filterMap c.slotName?

/-- Compilers with the same default and the same flag render a directive alike if they agree
on the names in its slots. -/
theorem render_congr (named : c.DefaultNamed) (c' : Compiler)
    (default : c'.defaultSlot = c.defaultSlot) (debug : c'.debug = c.debug)
    {body : Text}
    (same : ∀ name ∈ c.slotNames body, c'.registry.find? name = c.registry.find? name) :
    c'.render body = c.render body := by
  cases h : Spelling.ofText? body with
  | none =>
    obtain ⟨r, always, -⟩ := render_of_not_reference h
    rw [always, always]
  | some s =>
    obtain ⟨ok, rfl⟩ := Spelling.ofText?_eq_some.mp h
    have named' : c'.DefaultNamed := by
      rw [DefaultNamed, default]
      exact named
    have filled : c'.fillSpelling s = c.fillSpelling s := by
      rw [fillSpelling, default, fillSpelling]
    have applied : (c.fillSpelling s).reference.applied c'.registry =
        (c.fillSpelling s).reference.applied c.registry := by
      apply Registry.applyChain_congr
      intro slot listed
      apply same
      rw [slotNames, h, Option.toList_some, List.flatMap_singleton, ← map_name_chain named]
      exact List.mem_map_of_mem listed
    rw [render_text named' ok, render_text named ok, filled, renderReference, renderReference,
      applied, debug]

/-- The compiler with one more entry in its own layer. -/
def withEntry (c : Compiler) (name : Text) (m : Modifier) : Compiler :=
  c.withOwn (c.registry.own.insert name m)

section Entry
variable {name : Text} (identifier : isIdentifier name = true) (m : Modifier)
include identifier

theorem register?_eq_some : c.register? name m = some (c.withEntry name m) := by
  simp [register?, withEntry, Layer.insert, Layer.insert?, identifier]

theorem find?_withEntry (a : Text) : (c.withEntry name m).registry.find? a =
    if name = a then some m else c.registry.find? a :=
  c.registry.find?_insert identifier m a

theorem render_withEntry (named : c.DefaultNamed) {body : Text}
    (absent : name ∉ c.slotNames body) : (c.withEntry name m).render body = c.render body := by
  have same : ∀ a ∈ c.slotNames body,
      (c.withEntry name m).registry.find? a = c.registry.find? a := by
    intro a listed
    have other : name ≠ a := by
      rintro rfl
      exact absent listed
    rw [find?_withEntry identifier, if_neg other]
  exact render_congr named (c.withEntry name m) rfl rfl same

theorem unresolved_withEntry (named : c.DefaultNamed) (s : Text) :
    ((c.withEntry name m).compileText s).unresolved =
      (c.compileText s).unresolved.erase name := by
  have named' : (c.withEntry name m).DefaultNamed := named
  have slots : (c.withEntry name m).slotName? = c.slotName? := rfl
  apply Std.ExtTreeMap.ext_getElem?
  intro a
  apply Option.ext
  intro n
  rw [getElem?_unresolved_compileText named', find?_withEntry identifier, slots,
    Std.ExtTreeMap.getElem?_erase]
  by_cases same : name = a
  · simp [same]
  · simp [same, getElem?_unresolved_compileText named]

end Entry
end Compiler

/-- Registering a modifier leaves the directives alone that do not name it, and takes its name,
and no other, off what is unresolved. -/
theorem register_erases_name {c : Compiler} (reached : c.Reachable) {name : Text}
    (identifier : isIdentifier name = true) (m : Modifier) :
    ∃ c', c.register? name m = some c' ∧
      (∀ s : Text, (c'.compileText s).skipped = (c.compileText s).skipped ∧
        (c'.compileText s).unresolved = (c.compileText s).unresolved.erase name) ∧
      ∀ body : Text, name ∉ c.slotNames body → c'.render body = c.render body := by
  have named := reached.defaultNamed
  have named' : (c.withEntry name m).DefaultNamed := named
  refine ⟨c.withEntry name m, Compiler.register?_eq_some identifier m, ?_, ?_⟩
  · intro s
    refine ⟨?_, Compiler.unresolved_withEntry identifier m named s⟩
    rw [Compiler.skipped_compileText named', Compiler.skipped_compileText named]
  · intro body absent
    exact Compiler.render_withEntry identifier m named absent

/-- The default itself is registered: the empty slot is resolved, and a slot that names
another modifier is rendered as before. -/
theorem register_erases_default :
    ((Compiler.ofShared .empty).perform (.setDefault "h".toList)).Reachable ∧
    isIdentifier "h".toList = true ∧
    (((Compiler.ofShared .empty).perform (.setDefault "h".toList)).compileText
      "\x7b$a|\x7d\x7b$b|x\x7d".toList).unresolved["h".toList]? = some 1 ∧
    ∃ c', ((Compiler.ofShared .empty).perform (.setDefault "h".toList)).register? "h".toList
        (.call "f".toList) = some c' ∧
      (c'.compileText "\x7b$a|\x7d\x7b$b|x\x7d".toList).unresolved["h".toList]? = none ∧
      c'.render "$b|x".toList =
        ((Compiler.ofShared .empty).perform (.setDefault "h".toList)).render "$b|x".toList := by
  have reached : ((Compiler.ofShared .empty).perform (.setDefault "h".toList)).Reachable :=
    (Compiler.Reachable.ofShared .empty).perform trivial
  obtain ⟨c', registered, sources, bodies⟩ :=
    register_erases_name reached (show isIdentifier "h".toList = true by decide) (.call "f".toList)
  refine ⟨reached, by decide, by decide +kernel, c', registered, ?_, bodies _ (by decide +kernel)⟩
  rw [(sources _).2]
  simp

end BraceTemplate
