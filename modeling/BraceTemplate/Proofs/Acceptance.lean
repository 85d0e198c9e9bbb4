import BraceTemplate.Proofs.Numerals

/-!
# What reading accepts

However settings with whole numbers were given, the values that are kept are in one form:
the members of an object are sorted by key, each key once, and the brackets are nested no
deeper than the limit allows at the place where the value is kept. The reader keeps this
at each character for all that it has read so far, and it is inside a number or a string
exactly where the text is.
-/
namespace BraceTemplate

namespace Json

/-- The keys strictly increase. -/
def SortedKeys (members : List (Text × Json)) : Prop :=
  members.Pairwise fun a b => compare a.1 b.1 = .lt

section Members
variable {key : Text} {value : Json} {member : Text × Json} {members : List (Text × Json)}

theorem mem_putMember (h : member ∈ putMember key value members) :
    member = (key, value) ∨ member ∈ members := by
  induction members with
  | nil => exact .inl (List.mem_singleton.mp h)
  | cons first rest ih =>
    rw [putMember] at h
    split at h
    · exact List.mem_cons.mp h
    · rcases List.mem_cons.mp h with same | listed
      · exact .inl same
      · exact .inr (List.mem_cons_of_mem _ listed)
    · rcases List.mem_cons.mp h with same | listed
      · exact .inr (List.mem_cons.mpr (.inl same))
      · exact (ih listed).imp_right (List.mem_cons_of_mem _)

theorem SortedKeys.putMember (sorted : SortedKeys members) (key : Text) (value : Json) :
    SortedKeys (putMember key value members) := by
  induction members with
  | nil => exact List.pairwise_singleton _ _
  | cons first rest ih =>
    obtain ⟨before, sorted'⟩ := List.pairwise_cons.mp sorted
    rw [Json.putMember]
    split
    · next less =>
      refine List.pairwise_cons.mpr ⟨fun member listed => ?_, sorted⟩
      rcases List.mem_cons.mp listed with rfl | listed
      · exact less
      · exact Std.TransCmp.lt_trans less (before member listed)
    · next same =>
      obtain rfl : key = first.1 := Std.LawfulEqCmp.eq_of_compare same
      exact List.pairwise_cons.mpr ⟨before, sorted'⟩
    · next greater =>
      refine List.pairwise_cons.mpr ⟨fun member listed => ?_, ih sorted'⟩
      rcases mem_putMember listed with rfl | listed
      · exact Std.OrientedCmp.gt_iff_lt.mp greater
      · exact before member listed

end Members

/-- A value in the form in which values are kept, with brackets at most `depth` deep. -/
inductive Fits : Nat → Json → Prop where
  | null {depth : Nat} : Fits depth .null
  | bool {depth : Nat} (flag : Bool) : Fits depth (.bool flag)
  | number {depth : Nat} {n : Number} (whole : n.IsWhole) : Fits depth (.number n)
  | text {depth : Nat} (t : Text) : Fits depth (.text t)
  | array {depth : Nat} {items : List Json} (each : ∀ v ∈ items, Fits depth v) :
      Fits (depth + 1) (.array items)
  | object {depth : Nat} {members : List (Text × Json)} (sorted : SortedKeys members)
      (each : ∀ member ∈ members, Fits depth member.2) : Fits (depth + 1) (.object members)

end Json

namespace Settings

/-- Maps stand inside one bracket. -/
structure Fits (s : Settings) : Prop where
  shared : (Json.object s.sharedModifiers).Fits (depthLimit - 1)
  own : (Json.object s.modifiers).Fits (depthLimit - 1)

structure Draft.Fits (d : Draft) : Prop where
  shared : ∀ members ∈ d.sharedModifiers, (Json.object members).Fits (depthLimit - 1)
  own : ∀ members ∈ d.modifiers, (Json.object members).Fits (depthLimit - 1)

/-- What is kept in an open bracket has room for as many more as the limit allows. -/
inductive StackFits : List Frame → Prop where
  | nil : StackFits []
  | record {d : Draft} {f : Option Field} (draft : d.Fits) : StackFits [.record d f]
  | row {d : Draft} {coming : List Field} (draft : d.Fits) : StackFits [.row d coming]
  | array {items : List Json} {stack : List Frame} {depth : Nat} (under : StackFits stack)
      (room : stack.length + 1 + depth = depthLimit) (each : ∀ v ∈ items, v.Fits depth) :
      StackFits (.array items :: stack)
  | object {members : List (Text × Json)} {key : Text} {stack : List Frame} {depth : Nat}
      (under : StackFits stack) (room : stack.length + 1 + depth = depthLimit)
      (sorted : Json.SortedKeys members) (each : ∀ member ∈ members, member.2.Fits depth) :
      StackFits (.object members key :: stack)
  | skippedArray {stack : List Frame} (under : StackFits stack) :
      StackFits (.skippedArray :: stack)
  | skippedObject {stack : List Frame} (under : StackFits stack) :
      StackFits (.skippedObject :: stack)

/-- Where a string stands by its escape. One whose escape is lost is never closed. -/
inductive EscapeFits : Json.Escape → Place → Prop where
  | outside : EscapeFits .outside .string
  | backslash : EscapeFits .backslash .escape
  | hex {high : Option Nat} {count code : Nat} : EscapeFits (.hex high count (some code)) .string
  | lost {high : Option Nat} {count : Nat} {place : Place} :
      EscapeFits (.hex high count none) place
  | half {high : Nat} : EscapeFits (.half high) .string
  | halfMark {high : Nat} : EscapeFits (.halfMark high) .escape

/-- A string that is open agrees with the place, and one that is closed has been left. -/
def StringFits : Json.Quoted ⊕ Text → Place → Prop
  | .inl q, place => EscapeFits q.escape place
  | .inr _, place => place = .outside

/-- The letters of words after the first. -/
def wordLetters : Text := ['a', 'e', 'l', 'r', 's', 'u']

/-- What is due agrees with the place, and what has been read of a value is part of one that
fits. -/
inductive PhaseFits (stack : List Frame) : Phase → Place → Prop where
  | value {mayClose : Bool} : PhaseFits stack (.value mayClose) .outside
  | word {meaning : Json} {next : Char} {later : Text} (fits : ∀ depth, meaning.Fits depth)
      (letters : (next :: later).all wordLetters.contains = true) :
      PhaseFits stack (.word meaning next later) .outside
  | number {n : Json.Numeral} {seen : Text} {mayClose : Bool}
      (read : State.run (.reading stack (.value mayClose)) seen.reverse =
        .ok (.reading stack (.number n))) : PhaseFits stack (.number n) (.number seen)
  | string {q : Json.Quoted} {place : Place} (inside : EscapeFits q.escape place) :
      PhaseFits stack (.string q) place
  | key {mayClose : Bool} : PhaseFits stack (.key mayClose) .outside
  | keyString {q : Json.Quoted} {place : Place} (inside : EscapeFits q.escape place) :
      PhaseFits stack (.keyString q) place
  | colon : PhaseFits stack .colon .outside
  | after : PhaseFits stack .after .outside

def State.Fits : State → Place → Prop
  | .reading stack phase, place => StackFits stack ∧ PhaseFits stack phase place
  | .finished result, place => result.Fits ∧ place = .outside

section Results
variable {α β : Type} {x : Except Fault α} {b : β}

theorem exists_of_bind_eq_ok {g : α → Except Fault β} (h : x >>= g = .ok b) :
    ∃ a, x = .ok a ∧ g a = .ok b := by
  cases x with
  | error cause => cases h
  | ok a => exact ⟨a, rfl, h⟩

theorem exists_of_map_eq_ok {g : α → β} (h : x.map g = .ok b) : ∃ a, x = .ok a ∧ g a = b := by
  cases x with
  | error cause => cases h
  | ok a => exact ⟨a, rfl, Except.ok.inj h⟩

end Results

/-- The characters between values. -/
def marks : Text := [' ', '\t', '\n', '\r', ',', ':', '[', ']', '{', '}']

theorem enter_mark {c : Char} (h : c ∈ marks) :
    Place.enter c = .outside ∧ Place.inNumber c = false := by
  have all : marks.all (fun c => Place.enter c = .outside ∧ Place.inNumber c = false) = true := by
    decide
  exact of_decide_eq_true (List.all_eq_true.mp all c h)

theorem enter_wordLetter {c : Char} (h : wordLetters.contains c = true) :
    Place.enter c = .outside := by
  have all : wordLetters.all (fun c => Place.enter c = .outside) = true := by decide
  exact of_decide_eq_true (List.all_eq_true.mp all c (List.contains_iff_mem.mp h))

theorem mem_marks_of_isSpace {c : Char} (h : isSpace c = true) : c ∈ marks := by
  simp only [isSpace, Bool.or_eq_true, decide_eq_true_eq] at h
  rcases h with ((rfl | rfl) | rfl) | rfl
  all_goals simp [marks]

theorem startsNumber_of_start {c : Char} {n : Json.Numeral} (h : Json.Numeral.start c = some n) :
    Place.startsNumber c = true := by
  rw [Json.Numeral.start] at h
  rw [Place.startsNumber, Bool.or_eq_true, decide_eq_true_eq]
  split at h
  · next minus => exact .inl minus
  · split at h
    · next zero =>
      rw [zero]
      exact .inr rfl
    · exact .inr (Option.ite_none_right_eq_some.mp h).1

theorem enter_of_startsNumber {c : Char} (h : Place.startsNumber c = true) :
    Place.enter c = .number [c] := by
  rw [Place.enter, if_neg, if_pos h]
  rintro rfl
  cases h

theorem inNumber_of_step {n n' : Json.Numeral} {c : Char} (h : n.step c = .ok (some n')) :
    Place.inNumber c = true := by
  by_contra other
  simp only [Place.inNumber, Bool.or_eq_true, decide_eq_true_eq, not_or] at other
  obtain ⟨⟨⟨⟨⟨noMinus, noDigit⟩, noPlus⟩, noPoint⟩, noMark⟩, noMark'⟩ := other
  have noZero : c ≠ '0' := by
    rintro rfl
    exact noDigit rfl
  cases part : n.part
  all_goals
    simp [Json.Numeral.step, part, Json.Numeral.continuation, noMinus, noDigit, noPlus, noPoint,
      noMark, noMark', noZero] at h

section Strings
variable {q q' : Json.Quoted} {place : Place} {strict : Bool} {c : Char}

theorem ne_of_hexDigit? {d : Nat} (h : Json.hexDigit? c = some d) : c ≠ '"' ∧ c ≠ '\\' := by
  constructor
  · rintro rfl
    cases h
  · rintro rfl
    cases h

theorem escapeFits_pushCode {high : Option Nat} {code : Nat}
    (h : q.pushCode strict high code = .ok q') : EscapeFits q'.escape .string := by
  unfold Json.Quoted.pushCode at h
  split at h
  · split at h
    · cases h
      exact .outside
    · cases h
  · split at h
    · cases h
      exact .outside
    split at h
    · cases h
    split at h
    · cases h
      exact .half
    · cases h
      exact .outside

/-- Reader and text may part inside an escape, but then the string is refused. -/
theorem EscapeFits.step {r : Json.Quoted ⊕ Text} (inside : EscapeFits q.escape place)
    (h : q.step strict c = .ok r) : StringFits r (place.next c) := by
  obtain ⟨seen, escape⟩ := q
  cases inside with
  | outside =>
    simp only [Json.Quoted.step] at h
    split at h
    · next same =>
      subst same
      cases h
      rfl
    split at h
    · next same =>
      subst same
      cases h
      exact .backslash
    split at h
    · cases h
    · next noQuote noBackslash _ =>
      cases h
      rw [Place.next, if_neg noQuote, if_neg noBackslash]
      exact .outside
  | backslash =>
    simp only [Json.Quoted.step] at h
    split at h
    · cases h
      exact .hex
    split at h
    · cases h
      exact .outside
    split at h
    · cases h
      exact .outside
    · cases h
  | hex =>
    simp only [Json.Quoted.step, Option.bind_some] at h
    cases digit : Json.hexDigit? c with
    | none =>
      simp only [digit, Option.map_none] at h
      split at h
      · cases h
        exact .lost
      · cases h
    | some d =>
      obtain ⟨noQuote, noBackslash⟩ := ne_of_hexDigit? digit
      rw [Place.next, if_neg noQuote, if_neg noBackslash]
      simp only [digit, Option.map_some] at h
      split at h
      · cases h
        exact .hex
      · obtain ⟨q', pushed, rfl⟩ := exists_of_map_eq_ok h
        exact escapeFits_pushCode pushed
  | lost =>
    simp only [Json.Quoted.step, Option.bind_none] at h
    split at h
    · cases h
      exact .lost
    · cases h
  | half =>
    simp only [Json.Quoted.step] at h
    split at h
    · next same =>
      subst same
      cases h
      exact .halfMark
    · cases h
  | halfMark =>
    simp only [Json.Quoted.step] at h
    split at h
    · cases h
      exact .hex
    · cases h

end Strings

section Step
variable {d d' : Draft} {f : Field} {v : Json} {stack : List Frame} {st : State} {c : Char}

theorem Draft.Fits.put (fits : d.Fits) (value : v.Fits (depthLimit - 1))
    (h : d.put f v = .ok d') : d'.Fits := by
  unfold Draft.put at h
  split at h
  case h_1 | h_2 | h_3 =>
    cases h
    exact ⟨fits.shared, fits.own⟩
  case h_4 =>
    cases h
    exact ⟨fun _ same => Option.some.inj same ▸ value, fits.own⟩
  case h_5 =>
    cases h
    exact ⟨fits.shared, fun _ same => Option.some.inj same ▸ value⟩
  case h_6 => cases h

/-- The defaults have the form that reading leaves. -/
theorem fits_default : Settings.default.Fits := by
  have empty : (Json.object []).Fits (depthLimit - 1) :=
    .object List.Pairwise.nil fun _ listed => absurd listed List.not_mem_nil
  exact ⟨empty, empty⟩

theorem Draft.Fits.settings (fits : d.Fits) : d.settings.Fits := by
  obtain ⟨shared, own⟩ := fits
  constructor
  · cases given : d.sharedModifiers with
    | none => simpa [Draft.settings, given] using fits_default.shared
    | some members => simpa [Draft.settings, given] using shared members given
  · cases given : d.modifiers with
    | none => simpa [Draft.settings, given] using fits_default.own
    | some members => simpa [Draft.settings, given] using own members given

theorem fits_deliver (fits : StackFits stack)
    (value : ∀ depth, stack.length + depth = depthLimit → v.Fits depth)
    (h : State.deliver v stack = .ok st) : st.Fits .outside := by
  cases fits with
  | nil => cases h
  | @record d f draft =>
    cases f with
    | none =>
      cases h
      exact ⟨.record draft, .after⟩
    | some f =>
      obtain ⟨d', put, same⟩ := exists_of_bind_eq_ok h
      cases same
      exact ⟨.record (draft.put (value _ rfl) put), .after⟩
  | @row d coming draft =>
    cases coming with
    | nil =>
      cases h
      exact ⟨.row draft, .after⟩
    | cons f coming =>
      obtain ⟨d', put, same⟩ := exists_of_bind_eq_ok h
      cases same
      exact ⟨.row (draft.put (value _ rfl) put), .after⟩
  | array under room each =>
    cases h
    refine ⟨.array under room fun w listed => ?_, .after⟩
    rcases List.mem_cons.mp listed with rfl | listed
    · exact value _ room
    · exact each w listed
  | object under room sorted each =>
    cases h
    refine ⟨.object under room (sorted.putMember _ _) fun member listed => ?_, .after⟩
    rcases Json.mem_putMember listed with rfl | listed
    · exact value _ room
    · exact each member listed
  | skippedArray under =>
    cases h
    exact ⟨.skippedArray under, .after⟩
  | skippedObject under =>
    cases h
    exact ⟨.skippedObject under, .after⟩

theorem after_of_deliver (h : State.deliver v stack = .ok st) :
    ∃ stack', st = .reading stack' .after := by
  unfold State.deliver at h
  split at h
  case h_1 => cases h
  case h_2 | h_3 =>
    obtain ⟨d, -, same⟩ := exists_of_bind_eq_ok h
    exact ⟨_, (Except.ok.inj same).symm⟩
  all_goals exact ⟨_, (Except.ok.inj h).symm⟩

/-- What closes still fits, since its bracket is one level more than what it holds. -/
theorem fits_close (fits : StackFits stack) (h : State.close stack = .ok st) :
    st.Fits .outside := by
  cases fits with
  | nil => cases h
  | record draft =>
    cases h
    exact ⟨draft.settings, rfl⟩
  | row draft =>
    cases h
    exact ⟨draft.settings, rfl⟩
  | @array items stack depth under room each =>
    refine fits_deliver under (fun deeper room' => ?_) h
    obtain rfl : deeper = depth + 1 := by omega
    exact .array fun v listed => each v (List.mem_reverse.mp listed)
  | @object members key stack depth under room sorted each =>
    refine fits_deliver under (fun deeper room' => ?_) h
    obtain rfl : deeper = depth + 1 := by omega
    exact .object sorted each
  | skippedArray under =>
    cases h
    exact ⟨under, .after⟩
  | skippedObject under =>
    cases h
    exact ⟨under, .after⟩

theorem eq_nil_of_demand (h : demand stack = .settings) : stack = [] := by
  unfold demand at h
  split at h
  case h_1 => rfl
  all_goals cases h

theorem fits_empty : Draft.empty.Fits :=
  ⟨fun _ given => absurd given (by simp [Draft.empty]),
    fun _ given => absurd given (by simp [Draft.empty])⟩

/-- A bracket that is opened is empty, and the limit leaves room in it. -/
theorem fits_nest {frame : Frame} {phase : Phase} (h : State.nest frame phase stack = .ok st)
    (fits : ∀ depth, stack.length + 1 + depth = depthLimit → StackFits (frame :: stack))
    (ready : PhaseFits (frame :: stack) phase .outside) : st.Fits .outside := by
  rw [State.nest] at h
  split at h
  · next room =>
    cases h
    exact ⟨fits (depthLimit - (stack.length + 1)) (by omega), ready⟩
  · cases h

theorem fits_openArray (fits : StackFits stack) (h : State.openArray stack = .ok st) :
    st.Fits .outside := by
  rw [State.openArray] at h
  split at h
  · next due =>
    obtain rfl := eq_nil_of_demand due
    exact fits_nest h (fun _ _ => .row fits_empty) .value
  · cases h
  · refine fits_nest h (fun depth room => .array fits room ?_) .value
    exact fun _ listed => absurd listed List.not_mem_nil
  · cases h
    exact ⟨.skippedArray fits, .value⟩

theorem fits_openObject (fits : StackFits stack) (h : State.openObject stack = .ok st) :
    st.Fits .outside := by
  have empty (depth : Nat) (room : stack.length + 1 + depth = depthLimit) :
      StackFits (.object [] [] :: stack) :=
    .object fits room List.Pairwise.nil fun _ listed => absurd listed List.not_mem_nil
  rw [State.openObject] at h
  split at h
  · next due =>
    obtain rfl := eq_nil_of_demand due
    exact fits_nest h (fun _ _ => .record fits_empty) .key
  · split at h
    · exact fits_nest h empty .key
    · cases h
  · exact fits_nest h empty .key
  · cases h
    exact ⟨.skippedObject fits, .key⟩

theorem fits_beginValue (fits : StackFits stack) (h : State.beginValue stack c = .ok st) :
    st.Fits (Place.enter c) := by
  have begun := h
  rw [State.beginValue] at h
  split at h
  · next same =>
    subst same
    exact fits_openArray fits h
  split at h
  · next same =>
    subst same
    exact fits_openObject fits h
  split at h
  · next same =>
    subst same
    cases h
    exact ⟨fits, .string .outside⟩
  split at h
  · next same =>
    subst same
    cases h
    exact ⟨fits, .word (fun _ => .null) (by decide)⟩
  split at h
  · next same =>
    subst same
    cases h
    exact ⟨fits, .word (fun _ => .bool true) (by decide)⟩
  split at h
  · next same =>
    subst same
    cases h
    exact ⟨fits, .word (fun _ => .bool false) (by decide)⟩
  split at h
  · next started =>
    cases h
    have starts := startsNumber_of_start started
    have visible : isSpace c = false := by
      refine Bool.eq_false_iff.mpr fun space => ?_
      have outside := (enter_mark (mem_marks_of_isSpace space)).1
      rw [enter_of_startsNumber starts] at outside
      cases outside
    have inside : c ≠ ']' := by
      rintro rfl
      cases starts
    rw [enter_of_startsNumber starts]
    exact ⟨fits, .number (State.run_cons_of_step
      ((State.step_value false visible inside).trans begun) [])⟩
  · cases h

theorem fits_deliverNumber {n : Json.Numeral} (fits : StackFits stack)
    (whole : ∀ v, n.value? = some v → v.IsWhole) (h : State.deliverNumber n stack = .ok st) :
    st.Fits .outside := by
  rw [State.deliverNumber] at h
  split at h
  · cases h
    exact ⟨fits, .after⟩
  · split at h
    · next v value => exact fits_deliver fits (fun _ _ => .number (whole v value)) h
    · cases h

theorem after_of_deliverNumber {n : Json.Numeral} (h : State.deliverNumber n stack = .ok st) :
    ∃ stack', st = .reading stack' .after := by
  rw [State.deliverNumber] at h
  split at h
  · exact ⟨stack, (Except.ok.inj h).symm⟩
  · split at h
    · exact after_of_deliver h
    · cases h

theorem fits_deliverKey {key : Text} (fits : StackFits stack)
    (h : State.deliverKey key stack = .ok st) : st.Fits .outside := by
  unfold State.deliverKey at h
  split at h
  · cases fits with
    | record draft =>
      split at h
      · split at h
        · cases h
        · cases h
          exact ⟨.record draft, .colon⟩
      · cases h
        exact ⟨.record draft, .colon⟩
  · cases h
    cases fits with
    | object under room sorted each => exact ⟨.object under room sorted each, .colon⟩
  · cases h
    exact ⟨fits, .colon⟩

theorem fits_nextItem (fits : StackFits stack) (h : State.nextItem stack = .ok st) :
    st.Fits .outside := by
  unfold State.nextItem at h
  split at h
  case h_1 | h_2 | h_3 =>
    cases h
    exact ⟨fits, .value⟩
  case h_4 | h_5 | h_6 =>
    cases h
    exact ⟨fits, .key⟩
  case h_7 => cases h

theorem fits_stepAfter (fits : StackFits stack) (h : State.stepAfter stack c = .ok st) :
    st.Fits .outside := by
  rw [State.stepAfter] at h
  split at h
  · cases h
    exact ⟨fits, .after⟩
  split at h
  · exact fits_nextItem fits h
  split at h
  · exact fits_close fits h
  · cases h

theorem mem_marks_of_stepAfter (h : State.stepAfter stack c = .ok st) : c ∈ marks := by
  rw [State.stepAfter] at h
  split at h
  · next space => exact mem_marks_of_isSpace space
  split at h
  · next comma =>
    rw [comma]
    simp [marks]
  split at h
  · next closing =>
    unfold State.closingBracket at closing
    split at closing
    · cases closing
    all_goals
      cases closing
      simp [marks]
  · cases h

/-- A number ends before a character that is in none, and then it is one of the text; that
character is read once more after it. -/
theorem fits_number {n : Json.Numeral} {seen : Text} {mayClose : Bool} (fits : StackFits stack)
    (read : State.run (.reading stack (.value mayClose)) seen.reverse =
      .ok (.reading stack (.number n)))
    (integers : ∀ t ∈ (Place.number seen).ended c, IsInteger t)
    (h : State.stepReading stack c (.number n) = .ok st) :
    st.Fits ((Place.number seen).next c) := by
  obtain ⟨step, stepped, h⟩ := exists_of_bind_eq_ok h
  cases step with
  | some n' =>
    cases h
    have taken : State.step (.reading stack (.number n)) c =
        .ok (.reading stack (.number n')) := by
      simp only [State.step, State.stepReading, stepped]
      rfl
    have read' : State.run (.reading stack (.value mayClose)) (c :: seen).reverse =
        .ok (.reading stack (.number n')) := by
      rw [List.reverse_cons, State.run_append_of_run read]
      exact State.run_cons_of_step taken []
    rw [Place.next, if_pos (inNumber_of_step stepped)]
    exact ⟨fits, .number read'⟩
  | none =>
    obtain ⟨between, delivered, h⟩ := exists_of_bind_eq_ok h
    obtain ⟨stack', rfl⟩ := after_of_deliverNumber delivered
    obtain ⟨outside, noNumber⟩ := enter_mark (mem_marks_of_stepAfter h)
    rw [Place.ended, noNumber] at integers
    have integer : IsInteger seen.reverse := integers _ (List.mem_singleton_self _)
    have fits := fits_deliverNumber fits
      (fun v value => State.isWhole_of_isInteger integer read value) delivered
    rw [Place.next, noNumber, outside]
    exact fits_stepAfter fits.1 h

theorem fits_stepReading {phase : Phase} {place : Place} (fits : StackFits stack)
    (ready : PhaseFits stack phase place) (integers : ∀ t ∈ place.ended c, IsInteger t)
    (h : State.stepReading stack c phase = .ok st) : st.Fits (place.next c) := by
  cases ready with
  | value =>
    rw [State.stepReading] at h
    split at h
    · next space =>
      cases h
      rw [Place.next, (enter_mark (mem_marks_of_isSpace space)).1]
      exact ⟨fits, .value⟩
    split at h
    · next closing =>
      simp only [Bool.and_eq_true, decide_eq_true_eq] at closing
      obtain ⟨-, rfl⟩ := closing
      exact fits_close fits h
    · exact fits_beginValue fits h
  | @word meaning next later value letters =>
    have same : c = next := by
      by_contra other
      cases later with
      | nil =>
        rw [State.stepReading, if_pos other] at h
        cases h
      | cons after later =>
        rw [State.stepReading, if_pos other] at h
        cases h
    rw [List.all_cons, Bool.and_eq_true] at letters
    rw [Place.next, same, enter_wordLetter letters.1]
    cases later with
    | nil =>
      rw [State.stepReading] at h
      split at h
      · cases h
      · exact fits_deliver fits (fun depth _ => value depth) h
    | cons after later =>
      rw [State.stepReading] at h
      split at h
      · cases h
      · cases h
        exact ⟨fits, .word value letters.2⟩
  | number read => exact fits_number fits read integers h
  | string inside =>
    obtain ⟨read, stepped, h⟩ := exists_of_bind_eq_ok h
    cases read with
    | inl q =>
      cases h
      exact ⟨fits, .string (inside.step stepped)⟩
    | inr t =>
      have closed : place.next c = .outside := inside.step stepped
      rw [closed]
      exact fits_deliver fits (fun _ _ => .text t) h
  | key =>
    simp only [State.stepReading] at h
    split at h
    · next space =>
      cases h
      rw [Place.next, (enter_mark (mem_marks_of_isSpace space)).1]
      exact ⟨fits, .key⟩
    split at h
    · next closing =>
      simp only [Bool.and_eq_true, decide_eq_true_eq] at closing
      obtain ⟨-, rfl⟩ := closing
      exact fits_close fits h
    split at h
    · next same =>
      subst same
      cases h
      exact ⟨fits, .keyString .outside⟩
    · cases h
  | keyString inside =>
    obtain ⟨read, stepped, h⟩ := exists_of_bind_eq_ok h
    cases read with
    | inl q =>
      cases h
      exact ⟨fits, .keyString (inside.step stepped)⟩
    | inr key =>
      have closed : place.next c = .outside := inside.step stepped
      rw [closed]
      exact fits_deliverKey fits h
  | colon =>
    rw [State.stepReading] at h
    split at h
    · next space =>
      cases h
      rw [Place.next, (enter_mark (mem_marks_of_isSpace space)).1]
      exact ⟨fits, .colon⟩
    split at h
    · next same =>
      subst same
      cases h
      exact ⟨fits, .value⟩
    · cases h
  | after =>
    rw [Place.next, (enter_mark (mem_marks_of_stepAfter h)).1]
    exact fits_stepAfter fits h

theorem State.Fits.step {place : Place} (fits : st.Fits place)
    (integers : ∀ t ∈ place.ended c, IsInteger t) {st' : State} (h : st.step c = .ok st') :
    st'.Fits (place.next c) := by
  cases st with
  | reading stack phase => exact fits_stepReading fits.1 fits.2 integers h
  | finished result =>
    obtain ⟨fits, rfl⟩ := fits
    rw [State.step] at h
    split at h
    · next space =>
      cases h
      exact ⟨fits, (enter_mark (mem_marks_of_isSpace space)).1⟩
    · cases h

end Step

theorem State.Fits.finished {st : State} {place : Place} (fits : st.Fits place) {text : Text}
    {s : Settings} (integers : ∀ t ∈ numbersFrom place text, IsInteger t)
    (h : st.run text = .ok (.finished s)) : s.Fits := by
  induction text generalizing st place with
  | nil =>
    cases h
    exact fits.1
  | cons c rest ih =>
    rw [numbersFrom, List.forall_mem_append] at integers
    obtain ⟨next, stepped, h⟩ := exists_of_bind_eq_ok h
    exact ih (fits.step integers.1 stepped) integers.2 h

theorem eq_finished_of_finish {st : State} {s : Settings} (h : st.finish = .ok s) :
    st = .finished s := by
  unfold State.finish at h
  split at h
  · cases h
    rfl
  · split at h
    · obtain ⟨-, -, h⟩ := exists_of_bind_eq_ok h
      cases h
    · split at h
      · cases h
      · cases h
  · cases h

theorem fits_of_read {text : Text} {s : Settings} (h : read text = .ok s)
    (integers : ∀ t ∈ numbers text, IsInteger t) : s.Fits := by
  obtain ⟨st, ran, finished⟩ := exists_of_bind_eq_ok h
  obtain rfl := eq_finished_of_finish finished
  have fits : State.start.Fits .outside := ⟨.nil, .value⟩
  exact fits.finished integers ran

end Settings
end BraceTemplate
