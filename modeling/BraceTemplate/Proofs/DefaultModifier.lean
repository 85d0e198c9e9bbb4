import BraceTemplate.Proofs.Rendering
import BraceTemplate.Proofs.Segmentation

/-!
# A default modifier may be written out

Filling puts names behind pipes, and none of the marks by which bodies are closed has a
pipe in it or starts like a name. A template in which the empty slots of all references
are filled is therefore read segment by segment as before, and compiles without the
default to what the first one compiles to with it.
-/
namespace BraceTemplate

/-- The second text is the first with name characters put in behind some pipes. -/
inductive Inserted : Text → Text → Prop where
  | nil : Inserted [] []
  | keep (c : Char) {t u : Text} (h : Inserted t u) : Inserted (c :: t) (c :: u)
  | name {name : Text} (inside : name.all isNameChar) {t u : Text} (h : Inserted t u) :
      Inserted ('|' :: t) ('|' :: (name ++ u))

namespace Inserted
variable {t u t' u' : Text}

theorem refl : (t : Text) → Inserted t t
  | [] => nil
  | c :: t => (refl t).keep c

theorem append (h : Inserted t u) (h' : Inserted t' u') : Inserted (t ++ t') (u ++ u') := by
  induction h with
  | nil => exact h'
  | keep c _ ih => exact ih.keep c
  | name inside _ ih =>
    rw [List.cons_append, List.cons_append, List.append_assoc]
    exact ih.name inside

theorem fillSlots {name : Text} (named : isName name = true) (t : Text) :
    Inserted t (Text.fillSlots ('|' :: name) t) := by
  induction t with
  | nil => exact nil
  | cons c rest ih =>
    by_cases starts : Text.startsEmptySlot (c :: rest) = true
    · obtain rfl : c = '|' := by
        by_contra other
        rw [Text.startsEmptySlot_of_ne other] at starts
        cases starts
      rw [Text.fillSlots, if_pos starts]
      exact ih.name (isName_iff.mp named).2
    · rw [Text.fillSlots, if_neg starts]
      exact ih.keep c

theorem prefix_iff (h : Inserted t u) {mark : Text} (free : '|' ∉ mark) :
    mark <+: u ↔ mark <+: t := by
  induction h generalizing mark with
  | nil => rfl
  | keep c _ ih =>
    cases mark with
    | nil => simp
    | cons m mark =>
      rw [List.cons_prefix_cons, List.cons_prefix_cons,
        ih fun h => free (List.mem_cons_of_mem m h)]
  | name inside _ ih =>
    cases mark with
    | nil => simp
    | cons m mark =>
      have other : m ≠ '|' := fun same => free (same ▸ List.mem_cons_self)
      simp [List.cons_prefix_cons, other]

/-- What is put in neither makes nor breaks a mark that does not start like a name. -/
theorem infix_iff (h : Inserted t u) {m : Char} (outside : isNameChar m = false) {mark : Text}
    (free : '|' ∉ m :: mark) : m :: mark <:+: u ↔ m :: mark <:+: t := by
  induction h with
  | nil => rfl
  | keep c later ih =>
    rw [List.infix_cons_iff, List.infix_cons_iff, (later.keep c).prefix_iff free, ih]
  | name inside later ih =>
    rw [List.infix_cons_iff, List.infix_cons_iff, (later.name inside).prefix_iff free,
      Text.infix_append_iff_of_free (not_mem_of_all inside outside), ih]

theorem comment_fits_iff (h : Inserted t u) : Fence.comment.Fits u ↔ Fence.comment.Fits t :=
  and_congr (h.prefix_iff (by decide)) (h.infix_iff (by decide) (by decide))

theorem verbatim_fits_iff (h : Inserted t u) : Fence.verbatim.Fits u ↔ Fence.verbatim.Fits t :=
  and_congr (h.prefix_iff (by decide)) (h.infix_iff (by decide) (by decide))

end Inserted

/-- A body stays what it is when names are put in behind it. -/
theorem IsBody.inserted {body rest other : Text} (h : IsBody body (body ++ '}' :: rest))
    (inserted : Inserted rest other) : IsBody body (body ++ '}' :: other) := by
  have whole : Inserted (body ++ '}' :: rest) (body ++ '}' :: other) :=
    (Inserted.refl body).append (inserted.keep '}')
  exact h.transfer whole.comment_fits_iff whole.verbatim_fits_iff

/-- A reference ends at the first closing brace whatever comes after it. -/
theorem Spelling.WellFormed.isBody {s : Spelling} (ok : s.WellFormed) (rest : Text) :
    IsBody s.text (s.text ++ '}' :: rest) := by
  apply IsBody.of_plain (ok.text_free (by decide) (by decide))
    (s.head?_text_ne (by decide) (by decide))
  intro same
  exact s.head?_text_ne (c := 'l') (by decide) (by decide) (by rw [same]; rfl)

/-- A body with the filler in its empty slots, if it is that of a reference. -/
def fillBody (filler body : Text) : Text :=
  if (Directive.reference? body).isSome then (Text.fillSlots? filler body).getD body else body

theorem fillBody_of_not_reference {body : Text} (h : Spelling.ofText? body = none)
    (filler : Text) : fillBody filler body = body := by
  simp [fillBody, Directive.reference?, Reference.ofText?, h]

theorem fillBody_text {s : Spelling} (ok : s.WellFormed) (name : Text) :
    fillBody ('|' :: name) s.text = (s.fill name).text := by
  have accepted : (Directive.reference? s.text).isSome := by
    simp [Directive.reference?, Reference.ofText?, Spelling.ofText?_text ok]
  rw [fillBody, if_pos accepted, Text.getD_fillSlots?, Spelling.fillSlots_text ok]

def Segment.fill (filler : Text) : Segment → Segment
  | literal text => literal text
  | directive body => directive (fillBody filler body)

def Template.fill (filler : Text) (t : Template) : Template :=
  ⟨t.segments.map (Segment.fill filler)⟩

theorem Template.source_fill_of_unclosed {t : Text} (unclosed : Unclosed t) (filler : Text) :
    ((parse t).fill filler).source = t := by
  rw [parse_of_unclosed unclosed]
  exact List.append_nil t

theorem Template.source_fill_step {text body rest : Text} (free : '{' ∉ text)
    (closes : IsBody body (body ++ '}' :: rest)) (filler : Text) :
    ((parse (text ++ '{' :: (body ++ '}' :: rest))).fill filler).source =
      text ++ '{' :: (fillBody filler body ++ '}' :: ((parse rest).fill filler).source) := by
  rw [parse_step free closes]
  simp [fill, source, Segment.fill, Segment.source]

section Named
variable {name : Text} (named : isName name = true)
include named

theorem inserted_fillBody (body : Text) : Inserted body (fillBody ('|' :: name) body) := by
  rw [fillBody]
  split
  · rw [Text.getD_fillSlots?]
    exact .fillSlots named body
  · exact .refl body

theorem IsBody.filled {body rest other : Text} (h : IsBody body (body ++ '}' :: rest))
    (inserted : Inserted rest other) :
    IsBody (fillBody ('|' :: name) body) (fillBody ('|' :: name) body ++ '}' :: other) := by
  cases found : Spelling.ofText? body with
  | none =>
    rw [fillBody_of_not_reference found]
    exact h.inserted inserted
  | some s =>
    obtain ⟨ok, rfl⟩ := Spelling.ofText?_eq_some.mp found
    rw [fillBody_text ok]
    exact (ok.fill named).isBody other

theorem inserted_source_fill (s : Text) :
    Inserted s ((Template.parse s).fill ('|' :: name)).source := by
  induction s using segment_induction with
  | tail t unclosed =>
    rw [Template.source_fill_of_unclosed unclosed]
    exact .refl t
  | step text body rest free closes ih =>
    rw [Template.source_fill_step free closes]
    exact (Inserted.refl text).append
      (((inserted_fillBody named body).append (ih.keep '}')).keep '{')

/-- The filled segments are the segments of their source. -/
theorem parse_source_fill (s : Text) :
    Template.parse ((Template.parse s).fill ('|' :: name)).source =
      (Template.parse s).fill ('|' :: name) := by
  induction s using segment_induction with
  | tail t unclosed =>
    rw [Template.source_fill_of_unclosed unclosed, Template.parse_of_unclosed unclosed]
    rfl
  | step text body rest free closes ih =>
    have filled := closes.filled named (inserted_source_fill named rest)
    rw [Template.source_fill_step free closes, Template.parse_step free filled, ih,
      Template.parse_step free closes]
    rfl

end Named

namespace Compiler

/-- Once a body is filled, the default has nothing left to do and may as well be gone. -/
theorem render_fillBody {c : Compiler} (named : c.DefaultNamed) {slot : Text}
    (h : c.defaultSlot = some slot) {kept : Option Text} (hkept : kept = none ∨ kept = some slot)
    (body : Text) :
    { c with defaultSlot := kept }.render (fillBody slot body) = c.render body := by
  obtain ⟨name, hname, rfl⟩ := named slot h
  cases found : Spelling.ofText? body with
  | none =>
    obtain ⟨r, same, -, -⟩ := render_of_not_reference found
    rw [fillBody_of_not_reference found, same, same]
  | some s =>
    obtain ⟨ok, rfl⟩ := Spelling.ofText?_eq_some.mp found
    have keptNamed : { c with defaultSlot := kept }.DefaultNamed := by
      rcases hkept with rfl | rfl
      · rintro _ ⟨⟩
      · rintro _ ⟨⟩
        exact ⟨name, hname, rfl⟩
    have full : { c with defaultSlot := kept }.fillSpelling (s.fill name) = s.fill name := by
      rcases hkept with rfl | rfl
      · exact fillSpelling_of_none rfl _
      · rw [fillSpelling_of_some rfl, Spelling.fill_fill]
    rw [fillBody_text ok, render_text keptNamed (ok.fill hname), full, render_text named ok,
      fillSpelling_of_some h]
    rfl

theorem compileText_fill {c : Compiler} (named : c.DefaultNamed) {slot : Text}
    (h : c.defaultSlot = some slot) {kept : Option Text} (hkept : kept = none ∨ kept = some slot)
    (s : Text) : { c with defaultSlot := kept }.compileText
      ((Template.parse s).fill slot).source = c.compileText s := by
  obtain ⟨name, hname, rfl⟩ := named slot h
  rw [compileText, parse_source_fill hname]
  apply compile_map
  rintro (text | body)
  · rfl
  · exact congrArg Rendering.output (render_fillBody named h hkept body)

end Compiler

/-- A template compiles to the same output as the template in which its references have the
default written out, whether that one is compiled with the default or without it. -/
theorem compileText_eq_compileText_fill {c : Compiler} (reached : c.Reachable) {slot : Text}
    (h : c.defaultSlot = some slot) (s : Text) :
    c.compileText s =
      { c with defaultSlot := none }.compileText ((Template.parse s).fill slot).source ∧
    c.compileText s = c.compileText ((Template.parse s).fill slot).source := by
  have named := reached.defaultNamed
  refine ⟨(Compiler.compileText_fill named h (Or.inl rfl) s).symm, ?_⟩
  exact (Compiler.compileText_fill named h (Or.inr h) s).symm

/-- A compiler that knows one modifier and has it as its default. -/
def defaultedCompiler : Compiler :=
  (Compiler.ofShared (.ofList [("h".toList, .call "f".toList)])).perform (.setDefault "h".toList)

/-- The slot of the reference is filled, and the one inside the comment is not. -/
theorem compileText_fill_beside_comment :
    defaultedCompiler.Reachable ∧ defaultedCompiler.defaultSlot = some "|h".toList ∧
    ((Template.parse "\x7b$a|.k\x7d\x7b*\x7b$b|\x7d*\x7d".toList).fill "|h".toList).source =
      "\x7b$a|h.k\x7d\x7b*\x7b$b|\x7d*\x7d".toList ∧
    defaultedCompiler.compileText "\x7b$a|.k\x7d\x7b*\x7b$b|\x7d*\x7d".toList =
      { defaultedCompiler with defaultSlot := none }.compileText
        "\x7b$a|h.k\x7d\x7b*\x7b$b|\x7d*\x7d".toList ∧
    (defaultedCompiler.compileText "\x7b$a|.k\x7d\x7b*\x7b$b|\x7d*\x7d".toList).code =
      "<?php echo f['k']( $a ); ?>".toList := by
  have reached : defaultedCompiler.Reachable :=
    (Compiler.Reachable.ofShared (Layer.built_ofList _)).perform trivial
  have default : defaultedCompiler.defaultSlot = some "|h".toList := by decide +kernel
  have filled : ((Template.parse "\x7b$a|.k\x7d\x7b*\x7b$b|\x7d*\x7d".toList).fill
      "|h".toList).source = "\x7b$a|h.k\x7d\x7b*\x7b$b|\x7d*\x7d".toList := by decide +kernel
  obtain ⟨without, -⟩ := compileText_eq_compileText_fill reached default
    "\x7b$a|.k\x7d\x7b*\x7b$b|\x7d*\x7d".toList
  rw [filled] at without
  refine ⟨reached, default, filled, without, ?_⟩
  rw [without]
  decide +kernel

end BraceTemplate
