import BraceTemplate.Proofs.Rendering

/-!
# Modifiers nest around an expression

A modifier that is found writes something before and something after the expression and
never looks at it. A chain therefore sets one frame around another, the first call
innermost: what is written before the expression comes in the reverse order of the calls
and what is written after it in their order. A call that is not found sets no frame.
-/
namespace BraceTemplate

/-- What is written around an expression. -/
structure Frame where
  before : Text
  after : Text
  deriving DecidableEq, Repr

namespace Frame

def around (frame : Frame) (expression : Text) : Text :=
  frame.before ++ expression ++ frame.after

/-- What all frames write before the expression, the first of them next to it. -/
def openings (frames : List Frame) : Text := frames.reverse.flatMap before

/-- What all frames write after the expression, the first of them next to it. -/
def closings (frames : List Frame) : Text := frames.flatMap after

/-- A frame that is set first stands inside all others. -/
theorem openings_around_closings (frame : Frame) (frames : List Frame) (expression : Text) :
    openings frames ++ frame.around expression ++ closings frames =
      openings (frame :: frames) ++ expression ++ closings (frame :: frames) := by
  simp [openings, closings, around]

end Frame

/-- A call names the function, and the entry of it that the sub-key picks; for a wrapping the
sub-key does not matter. -/
def Modifier.frame : Modifier → Option Text → Frame
  | call function, none => ⟨function ++ "( ".toList, " )".toList⟩
  | call function, some key => ⟨function ++ "['".toList ++ key ++ "']( ".toList, " )".toList⟩
  | wrap before after, _ => ⟨before, after⟩

theorem Modifier.apply_eq_around (m : Modifier) (subKey : Option Text) (expression : Text) :
    m.apply subKey expression = (m.frame subKey).around expression := by
  cases m with
  | wrap before after => rfl
  | call function =>
    cases subKey with
    | none => rfl
    | some key => rfl

namespace Registry
variable (r : Registry)

def frame? (slot : Slot) : Option Frame :=
  (r.find? slot.name).map fun m => m.frame slot.subKey

/-- The frames of the calls whose modifiers are found. -/
def frames (calls : List Slot) : List Frame := calls.filterMap r.frame?

/-- The calls whose modifiers are found. -/
def found (calls : List Slot) : List Slot := calls.filter fun slot => (r.find? slot.name).isSome

/-- The rest of a chain is set around what its first call has made of the expression. -/
theorem expression_applyChain (expression : Text) (calls : List Slot) :
    (r.applyChain expression calls).expression =
      Frame.openings (r.frames calls) ++ expression ++ Frame.closings (r.frames calls) := by
  induction calls generalizing expression with
  | nil => simp [applyChain, frames, Frame.openings, Frame.closings]
  | cons slot rest ih =>
    rw [applyChain]
    cases h : r.find? slot.name with
    | none =>
      have same : r.frames (slot :: rest) = r.frames rest := by simp [frames, frame?, h]
      rw [same]
      exact ih expression
    | some m =>
      have more : r.frames (slot :: rest) = m.frame slot.subKey :: r.frames rest := by
        simp [frames, frame?, h]
      rw [more, ← Frame.openings_around_closings, ← m.apply_eq_around]
      exact ih (m.apply slot.subKey expression)

theorem frames_found (calls : List Slot) : r.frames (r.found calls) = r.frames calls := by
  have unframed : ∀ slot, (if (r.find? slot.name).isSome then r.frame? slot else none) =
      r.frame? slot := by
    intro slot
    cases h : r.find? slot.name with
    | none => simp [frame?, h]
    | some m => rfl
  rw [frames, found, List.filterMap_filter]
  simp only [unframed]
  rfl

theorem missing_found (expression : Text) (calls : List Slot) :
    (r.applyChain expression (r.found calls)).missing = [] := by
  rw [missing_applyChain, List.filter_eq_nil_iff]
  intro name listed
  obtain ⟨slot, kept, rfl⟩ := List.mem_map.mp listed
  obtain ⟨m, known⟩ := Option.isSome_iff_exists.mp (List.mem_filter.mp kept).2
  simp [known]

end Registry

/-- A chain writes two texts around the expression that are settled by the registry and the calls
alone: the openings of the calls that are found, last to first, and their closings, first to
last. The names that are not found are listed in order, and without their calls the expression
is the same. -/
theorem applyChain_nests (r : Registry) (calls : List Slot) :
    (∀ expression : Text, (r.applyChain expression calls).expression =
      Frame.openings (r.frames calls) ++ expression ++ Frame.closings (r.frames calls)) ∧
    (∀ expression : Text, (r.applyChain expression calls).missing =
      (calls.map Slot.name).filter fun name => (r.find? name).isNone) ∧
    ∀ expression : Text, r.applyChain expression (r.found calls) =
      ⟨(r.applyChain expression calls).expression, []⟩ := by
  refine ⟨fun e => r.expression_applyChain e calls, fun e => r.missing_applyChain e calls, ?_⟩
  intro e
  have same : (r.applyChain e (r.found calls)).expression = (r.applyChain e calls).expression := by
    rw [r.expression_applyChain, r.frames_found, r.expression_applyChain]
  have none := r.missing_found e calls
  rw [← same, ← none]

/-- The call in the middle is not found, and the last one stands outermost. -/
example : (Registry.mk .empty (.ofList [("a".toList, .wrap "(".toList ")".toList),
    ("b".toList, .call "f".toList)])).applyChain "$x".toList [⟨"a".toList, some "k".toList⟩,
      ⟨"n".toList, none⟩, ⟨"b".toList, some "k".toList⟩] =
    ⟨"f['k']( ($x) )".toList, ["n".toList]⟩ := by
  decide +kernel

end BraceTemplate
