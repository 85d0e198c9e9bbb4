import BraceTemplate.Proofs.Acceptance

/-!
# Written values read again

Reading what was written for a value comes down to delivering the value, wherever the
value may stand, as long as its numbers are whole and the brackets stay within the limit.
Each part of the text is read by itself: a character of a string, the digits of a number,
an item or a member. Members come in the order of their keys, so that each is put last.
-/
namespace BraceTemplate

namespace Json

theorem putMember_of_last {key : Text} {value : Json} {members : List (Text × Json)}
    (last : ∀ member ∈ members, compare member.1 key = .lt) :
    putMember key value members = members ++ [(key, value)] := by
  induction members with
  | nil => rfl
  | cons first rest ih =>
    have greater : compare key first.1 = .gt :=
      Std.OrientedCmp.gt_iff_lt.mpr (last first List.mem_cons_self)
    rw [putMember, greater, ih fun member listed => last member (List.mem_cons_of_mem _ listed)]
    rfl

theorem write_number (n : Number) : write (.number n) = n.text := rfl

theorem write_text (t : Text) : write (.text t) = quote t := rfl

theorem write_array (items : List Json) :
    write (.array items) = '[' :: (writeItems items ++ [']']) := rfl

theorem write_object (members : List (Text × Json)) :
    write (.object members) = '{' :: (writeMembers members ++ ['}']) := rfl

/-- All items but the first are written behind a comma. -/
theorem writeItems_cons (item : Json) (rest : List Json) :
    writeItems (item :: rest) = write item ++ rest.flatMap fun v => ',' :: write v := by
  induction rest generalizing item with
  | nil => simp [writeItems]
  | cons next rest ih =>
    rw [writeItems, ih, List.flatMap_cons]
    rfl

def writeMember (member : Text × Json) : Text := quote member.1 ++ ':' :: write member.2

theorem writeMembers_cons (member : Text × Json) (rest : List (Text × Json)) :
    writeMembers (member :: rest) =
      writeMember member ++ rest.flatMap fun member => ',' :: writeMember member := by
  induction rest generalizing member with
  | nil => simp [writeMembers, writeMember]
  | cons next rest ih =>
    rw [writeMembers, ih, List.flatMap_cons]
    simp [writeMember]

end Json

namespace Settings
namespace State

variable {stack : List Frame}

section Strings
variable {phase : Json.Quoted → Phase}

/-- The phase reads a string, and reads it strictly. -/
def ReadsString (stack : List Frame) (phase : Json.Quoted → Phase) : Prop :=
  ∀ q q' c, q.step true c = .ok (.inl q') →
    step (.reading stack (phase q)) c = .ok (.reading stack (phase q'))

theorem step_shortEscape : ∀ short ∈ Json.shortEscapes, ∀ seen : Text,
    Json.Quoted.step true ⟨seen, .backslash⟩ short.1 = .ok (.inl ⟨short.2 :: seen, .outside⟩) := by
  intro short listed seen
  simp only [Json.shortEscapes, List.mem_cons, List.not_mem_nil, or_false] at listed
  rcases listed with rfl | rfl | rfl | rfl | rfl
  all_goals rfl

theorem hexDigit?_digitChar : ∀ d < 16, Json.hexDigit? (Nat.digitChar d) = some d := by
  decide

theorem utf8Size_digitChar : ∀ d < 16, (Nat.digitChar d).utf8Size = 1 := by
  decide

theorem step_hex (seen : Text) {count code d : Nat} (digit : d < 16) (more : count + 1 < 4) :
    Json.Quoted.step true ⟨seen, .hex none count (some code)⟩ (Nat.digitChar d) =
      .ok (.inl ⟨seen, .hex none (count + 1) (some (code * 16 + d))⟩) := by
  simp [Json.Quoted.step, hexDigit?_digitChar d digit, utf8Size_digitChar d digit, more]

/-- The fourth digit; a control character is no half of a pair. -/
theorem step_lastHex (seen : Text) (code d : Nat) (digit : d < 16)
    (control : code * 16 + d < 0x20) :
    Json.Quoted.step true ⟨seen, .hex none 3 (some code)⟩ (Nat.digitChar d) =
      .ok (.inl ⟨Char.ofNat (code * 16 + d) :: seen, .outside⟩) := by
  have notLow : Json.isLowSurrogate (code * 16 + d) = false := by
    simp [Json.isLowSurrogate]
    omega
  have notHigh : Json.isHighSurrogate (code * 16 + d) = false := by
    simp [Json.isHighSurrogate]
    omega
  simp [Json.Quoted.step, hexDigit?_digitChar d digit, utf8Size_digitChar d digit,
    Json.Quoted.pushCode, notLow, notHigh, Json.Quoted.push, Except.map]

theorem run_controlEscape (reads : ReadsString stack phase) (seen : Text) {c : Char}
    (control : c.toNat < 0x20) :
    run (.reading stack (phase ⟨seen, .outside⟩))
      ['\\', 'u', '0', '0', Nat.digitChar (c.toNat / 16), Nat.digitChar (c.toNat % 16)] =
      .ok (.reading stack (phase ⟨c :: seen, .outside⟩)) := by
  have last := step_lastHex seen (c.toNat / 16) (c.toNat % 16) (by omega) (by omega)
  rw [Nat.div_add_mod', Char.ofNat_toNat] at last
  rw [run_cons_of_step (reads _ ⟨seen, .backslash⟩ _ rfl),
    run_cons_of_step (reads _ ⟨seen, .hex none 0 (some 0)⟩ _ rfl),
    run_cons_of_step (reads _ ⟨seen, .hex none 1 (some 0)⟩ _ rfl),
    run_cons_of_step (reads _ ⟨seen, .hex none 2 (some 0)⟩ _ rfl),
    run_cons_of_step (reads _ _ _ (step_hex seen (by omega) (by omega)))]
  rw [Nat.zero_mul, Nat.zero_add]
  exact run_cons_of_step (reads _ _ _ last) []

theorem run_escapeChar (reads : ReadsString stack phase) (seen : Text) (c : Char) :
    run (.reading stack (phase ⟨seen, .outside⟩)) (Json.escapeChar c) =
      .ok (.reading stack (phase ⟨c :: seen, .outside⟩)) := by
  have escape : step (.reading stack (phase ⟨seen, .outside⟩)) '\\' =
      .ok (.reading stack (phase ⟨seen, .backslash⟩)) := reads _ _ _ rfl
  rw [Json.escapeChar]
  split
  · next quote =>
    rw [quote, run_cons_of_step escape]
    exact run_cons_of_step (reads _ _ _ rfl) []
  split
  · next backslash =>
    rw [backslash, run_cons_of_step escape]
    exact run_cons_of_step (reads _ _ _ rfl) []
  split
  · next short found =>
    obtain rfl : short.2 = c := by simpa using List.find?_some found
    rw [run_cons_of_step escape]
    exact run_cons_of_step (reads _ _ _ (step_shortEscape _ (List.mem_of_find?_eq_some found) _)) []
  split
  · next control => exact run_controlEscape reads seen (of_decide_eq_true control)
  · next noQuote noBackslash _ _ noControl =>
    refine run_cons_of_step (reads _ _ _ ?_) []
    simp [Json.Quoted.step, noQuote, noBackslash, noControl, Json.Quoted.push]

theorem run_escaped (reads : ReadsString stack phase) (seen t : Text) :
    run (.reading stack (phase ⟨seen, .outside⟩)) (t.flatMap Json.escapeChar) =
      .ok (.reading stack (phase ⟨t.reverse ++ seen, .outside⟩)) := by
  induction t generalizing seen with
  | nil => rfl
  | cons c rest ih =>
    rw [List.flatMap_cons, run_append_of_run (run_escapeChar reads seen c), ih]
    simp

end Strings

theorem run_text (wanted : isSkipping stack = false) (mayClose : Bool) (t rest : Text) :
    run (.reading stack (.value mayClose)) (Json.quote t ++ rest) =
      deliver (.text t) stack >>= fun st => st.run rest := by
  have opened : step (.reading stack (.value mayClose)) '"' =
      .ok (.reading stack (.string .start)) := step_value mayClose rfl (by decide)
  have reads : ReadsString stack .string := by
    intro q q' c stepped
    simp only [step, stepReading, wanted, Bool.not_false, stepped]
    rfl
  have closed : step (.reading stack (.string ⟨t.reverse, .outside⟩)) '"' =
      deliver (.text t) stack := by
    change deliver (.text t.reverse.reverse) stack = _
    rw [List.reverse_reverse]
  rw [Json.quote, List.cons_append, List.append_assoc, run_cons_of_step opened, Json.Quoted.start,
    run_append_of_run (run_escaped reads [] t), List.append_nil, List.singleton_append, run_cons,
    closed]

theorem readsString_keyString (frame : Frame) (kept : frame ≠ .skippedObject)
    (stack : List Frame) : ReadsString (frame :: stack) .keyString := by
  intro q q' c stepped
  cases frame
  case skippedObject => exact absurd rfl kept
  all_goals
    simp only [step, stepReading, List.head?_cons, Option.any_some, Bool.not_false, stepped]
    rfl

theorem run_key {stack' : List Frame} {key : Text} (reads : ReadsString stack .keyString)
    (delivered : deliverKey key stack = .ok (.reading stack' .colon)) (mayClose : Bool)
    (rest : Text) : run (.reading stack (.key mayClose)) (Json.quote key ++ ':' :: rest) =
      run (.reading stack' (.value false)) rest := by
  have opened : step (.reading stack (.key mayClose)) '"' =
      .ok (.reading stack (.keyString .start)) := by
    cases mayClose with
    | false => rfl
    | true => rfl
  have closed : step (.reading stack (.keyString ⟨key.reverse, .outside⟩)) '"' =
      .ok (.reading stack' .colon) := by
    change deliverKey key.reverse.reverse stack = _
    rw [List.reverse_reverse, delivered]
  rw [Json.quote, List.cons_append, List.append_assoc, run_cons_of_step opened, Json.Quoted.start,
    run_append_of_run (run_escaped reads [] key), List.append_nil, List.singleton_append,
    run_cons_of_step closed]
  rfl

/-- The next character ends a value before it. -/
def EndsValue : Text → Prop
  | [] => False
  | c :: _ => c = ',' ∨ c = ']' ∨ c = '}'

theorem run_numeral {m : Json.Numeral} {n : Number} {rest : Text}
    (wanted : isSkipping stack = false) (value : m.value? = some n)
    (stops : ∀ c, c = ',' ∨ c = ']' ∨ c = '}' → m.step c = .ok none) (ends : EndsValue rest) :
    run (.reading stack (.number m)) rest =
      deliver (.number n) stack >>= fun st => st.run rest := by
  cases rest with
  | nil => exact ends.elim
  | cons c rest =>
    have taken : deliverNumber m stack = deliver (.number n) stack := by
      simp only [deliverNumber, wanted, Bool.false_eq_true, if_false, value]
    simp only [run_cons, step, stepReading, stops c ends, taken]
    cases delivered : deliver (.number n) stack with
    | error cause => rfl
    | ok st =>
      obtain ⟨stack', rfl⟩ := after_of_deliver delivered
      rfl

theorem stops_intNumeral (value : Int) :
    ∀ c, c = ',' ∨ c = ']' ∨ c = '}' → (intNumeral value).step c = .ok none := by
  have stops (negative : Bool) (n : Nat) :
      ∀ c, c = ',' ∨ c = ']' ∨ c = '}' → (digitNumeral negative n).step c = .ok none := by
    rintro c (rfl | rfl | rfl)
    all_goals
      simp only [digitNumeral]
      split
      · rfl
      · rfl
  cases value with
  | ofNat n => exact stops false n
  | negSucc n => exact stops true (n + 1)

theorem run_number {n : Number} (whole : n.IsWhole) {rest : Text}
    (wanted : isSkipping stack = false) (mayClose : Bool) (ends : EndsValue rest) :
    run (.reading stack (.value mayClose)) (n.text ++ rest) =
      deliver (.number n) stack >>= fun st => st.run rest := by
  cases n with
  | int value =>
    rw [Number.text, run_append_of_run (run_intText whole mayClose)]
    exact run_numeral wanted (value?_intNumeral whole) (stops_intNumeral value) ends
  | double negative magnitude =>
    obtain ⟨rfl, rfl⟩ := whole
    have text : Number.text (.double true .zero) = '-' :: ['0', '.', '0'] := rfl
    have read : run (.reading stack (.number ⟨.sign, true, 0, false, 0, false, 0⟩))
        ['0', '.', '0'] =
          .ok (.reading stack (.number ⟨.fraction, true, 0, false, -1, false, 0⟩)) := rfl
    rw [text, List.cons_append, run_cons_of_step (step_sign mayClose), run_append_of_run read]
    refine run_numeral wanted (value?_negativeZero rfl rfl) ?_ ends
    rintro c (rfl | rfl | rfl)
    all_goals rfl

/-- A value of this kind may stand here and is kept. -/
def Accepts (stack : List Frame) : Json → Prop
  | .array _ => openArray stack = nest (.array []) (.value true) stack
  | .object _ => openObject stack = nest (.object [] []) (.key true) stack
  | _ => isSkipping stack = false

theorem accepts_of_anything (due : demand stack = .anything) (v : Json) : Accepts stack v := by
  cases v
  case array => simp only [Accepts, openArray, due]
  case object => simp only [Accepts, openObject, due]
  all_goals simp only [Accepts, isSkipping, due]

/-- Wherever the value may stand with room for its brackets, its text is read as the value. -/
def ReadsBack (depth : Nat) (v : Json) : Prop :=
  ∀ (stack : List Frame) (mayClose : Bool) (rest : Text), stack.length + depth ≤ depthLimit →
    Accepts stack v → EndsValue rest →
      run (.reading stack (.value mayClose)) (v.write ++ rest) =
        deliver v stack >>= fun st => st.run rest

section Brackets
variable {depth : Nat} {items : List Json} {members : List (Text × Json)}

theorem nest_of_room {frame : Frame} {phase : Phase} (room : stack.length < depthLimit) :
    nest frame phase stack = .ok (.reading (frame :: stack) phase) := by
  rw [nest, if_pos room]

/-- What follows an item begins with a comma or with the bracket. -/
theorem endsValue_flatMap {α : Type} (l : List α) (text : α → Text) {rest : Text}
    (ends : EndsValue rest) : EndsValue ((l.flatMap fun a => ',' :: text a) ++ rest) := by
  cases l with
  | nil => exact ends
  | cons a l => exact .inl rfl

theorem run_items (each : ∀ v ∈ items, ReadsBack depth v)
    (room : stack.length + 1 + depth ≤ depthLimit) (seen : List Json) (rest : Text) :
    run (.reading (.array seen :: stack) .after)
        ((items.flatMap fun v => ',' :: v.write) ++ ']' :: rest) =
      deliver (.array (seen.reverse ++ items)) stack >>= fun st => st.run rest := by
  induction items generalizing seen with
  | nil =>
    rw [List.append_nil]
    rfl
  | cons v items ih =>
    have ends : EndsValue (']' :: rest) := .inr (.inl rfl)
    have back := each v List.mem_cons_self (.array seen :: stack) false _ room
      (accepts_of_anything rfl v) (endsValue_flatMap items Json.write ends)
    have more := ih (fun w listed => each w (List.mem_cons_of_mem _ listed)) (v :: seen)
    rw [List.reverse_cons, List.append_assoc, List.singleton_append] at more
    rw [List.flatMap_cons, List.append_assoc, List.cons_append]
    exact (run_cons_of_step rfl _).trans (back.trans more)

theorem readsBack_array (each : ∀ v ∈ items, ReadsBack depth v) :
    ReadsBack (depth + 1) (.array items) := by
  intro stack mayClose rest room accepts _
  have opened : step (.reading stack (.value mayClose)) '[' =
      .ok (.reading (.array [] :: stack) (.value true)) := by
    have nested : openArray stack = .ok (.reading (.array [] :: stack) (.value true)) :=
      Eq.trans accepts (nest_of_room (by omega))
    exact (step_value mayClose rfl (by decide)).trans nested
  rw [Json.write_array, List.cons_append, run_cons_of_step opened, List.append_assoc]
  cases items with
  | nil => rfl
  | cons v items =>
    have room : stack.length + 1 + depth ≤ depthLimit := by omega
    have ends : EndsValue (']' :: rest) := .inr (.inl rfl)
    have back := each v List.mem_cons_self (.array [] :: stack) true _ room
      (accepts_of_anything rfl v) (endsValue_flatMap items Json.write ends)
    have more := run_items (fun w listed => each w (List.mem_cons_of_mem _ listed)) room [v] rest
    rw [Json.writeItems_cons, List.append_assoc]
    exact back.trans more

/-- One member, with a key behind all those before it. -/
theorem run_member {member : Text × Json} (seen : List (Text × Json)) (key : Text)
    (mayClose : Bool) {rest : Text} (back : ReadsBack depth member.2)
    (room : stack.length + 1 + depth ≤ depthLimit)
    (last : ∀ before ∈ seen, compare before.1 member.1 = .lt) (ends : EndsValue rest) :
    run (.reading (.object seen key :: stack) (.key mayClose)) (Json.writeMember member ++ rest) =
      run (.reading (.object (seen ++ [member]) member.1 :: stack) .after) rest := by
  have reads := readsString_keyString (.object seen key) (by simp) stack
  have value := back (.object seen member.1 :: stack) false rest room
    (accepts_of_anything rfl member.2) ends
  rw [Json.writeMember, List.append_assoc, List.cons_append, run_key reads rfl, value]
  rw [deliver, Json.putMember_of_last last]
  rfl

theorem run_members (each : ∀ member ∈ members, ReadsBack depth member.2)
    (room : stack.length + 1 + depth ≤ depthLimit) (seen : List (Text × Json)) (key : Text)
    (sorted : Json.SortedKeys (seen ++ members)) (rest : Text) :
    run (.reading (.object seen key :: stack) .after)
        ((members.flatMap fun member => ',' :: Json.writeMember member) ++ '}' :: rest) =
      deliver (.object (seen ++ members)) stack >>= fun st => st.run rest := by
  induction members generalizing seen key with
  | nil =>
    rw [List.append_nil]
    rfl
  | cons member members ih =>
    have last : ∀ before ∈ seen, compare before.1 member.1 = .lt := fun before listed =>
      (List.pairwise_append.mp sorted).2.2 before listed member List.mem_cons_self
    have ends : EndsValue ('}' :: rest) := .inr (.inr rfl)
    have first := run_member seen key false (each member List.mem_cons_self) room last
      (endsValue_flatMap members Json.writeMember ends)
    have more := ih (fun other listed => each other (List.mem_cons_of_mem _ listed))
      (seen ++ [member]) member.1 (by rwa [List.append_assoc])
    rw [List.append_assoc, List.singleton_append] at more
    rw [List.flatMap_cons, List.append_assoc, List.cons_append]
    exact (run_cons_of_step rfl _).trans (first.trans more)

theorem readsBack_object (sorted : Json.SortedKeys members)
    (each : ∀ member ∈ members, ReadsBack depth member.2) :
    ReadsBack (depth + 1) (.object members) := by
  intro stack mayClose rest room accepts _
  have opened : step (.reading stack (.value mayClose)) '{' =
      .ok (.reading (.object [] [] :: stack) (.key true)) := by
    have nested : openObject stack = .ok (.reading (.object [] [] :: stack) (.key true)) :=
      Eq.trans accepts (nest_of_room (by omega))
    exact (step_value mayClose rfl (by decide)).trans nested
  rw [Json.write_object, List.cons_append, run_cons_of_step opened, List.append_assoc]
  cases members with
  | nil => rfl
  | cons member members =>
    have room : stack.length + 1 + depth ≤ depthLimit := by omega
    have ends : EndsValue ('}' :: rest) := .inr (.inr rfl)
    have first := run_member [] [] true (each member List.mem_cons_self) room
      (fun _ listed => absurd listed List.not_mem_nil)
      (endsValue_flatMap members Json.writeMember ends)
    have more := run_members (fun other listed => each other (List.mem_cons_of_mem _ listed))
      room [member] member.1 sorted rest
    rw [Json.writeMembers_cons, List.append_assoc]
    exact first.trans more

end Brackets

theorem readsBack_of_fits {depth : Nat} {v : Json} (fits : v.Fits depth) : ReadsBack depth v := by
  induction fits with
  | null =>
    intro stack mayClose rest _ _ _
    cases mayClose with
    | false => rfl
    | true => rfl
  | bool flag =>
    intro stack mayClose rest _ _ _
    cases flag
    all_goals
      cases mayClose with
      | false => rfl
      | true => rfl
  | number whole =>
    intro stack mayClose rest _ accepts ends
    rw [Json.write_number]
    exact run_number whole accepts mayClose ends
  | text t =>
    intro stack mayClose rest _ accepts _
    rw [Json.write_text]
    exact run_text accepts mayClose t rest
  | array _ ih => exact readsBack_array ih
  | object sorted _ ih => exact readsBack_object sorted ih

theorem ofKey?_key (f : Field) : Field.ofKey? f.key = some f := by
  cases f
  all_goals decide

/-- One field that has not come before. -/
theorem run_field {d d' : Draft} (f : Field) {v : Json} (before : Option Field) (mayClose : Bool)
    {rest : Text} (new : d.has f = false) (put : d.put f v = .ok d')
    (back : ReadsBack (depthLimit - 1) v) (accepts : Accepts [.record d (some f)] v)
    (ends : EndsValue rest) :
    run (.reading [.record d before] (.key mayClose)) (Json.writeMember (f.key, v) ++ rest) =
      run (.reading [.record d' (some f)] .after) rest := by
  have reads := readsString_keyString (.record d before) (by simp) []
  have delivered : deliverKey f.key [.record d before] =
      .ok (.reading [.record d (some f)] .colon) := by
    simp only [deliverKey, ofKey?_key, new, Bool.false_eq_true, if_false]
  have value := back [.record d (some f)] false rest (Nat.le_refl _) accepts ends
  rw [Json.writeMember, List.append_assoc, List.cons_append, run_key reads delivered, value,
    deliver, put]
  rfl

theorem run_nextField {d d' : Draft} (f : Field) {v : Json} (before : Option Field) {rest : Text}
    (new : d.has f = false) (put : d.put f v = .ok d') (back : ReadsBack (depthLimit - 1) v)
    (accepts : Accepts [.record d (some f)] v) (ends : EndsValue rest) :
    run (.reading [.record d before] .after) (',' :: (Json.writeMember (f.key, v) ++ rest)) =
      run (.reading [.record d' (some f)] .after) rest :=
  (run_cons_of_step rfl _).trans (run_field f before false new put back accepts ends)

theorem run_write {s : Settings} (fits : s.Fits) : start.run s.write = .ok (.finished s) := by
  obtain ⟨name, debug, sharedModifiers, modifiers⟩ := s
  have written : Settings.write ⟨name, debug, sharedModifiers, modifiers⟩ =
      '{' :: (Json.writeMember (Field.defaultModifier.key, name.elim .null .text) ++
        ',' :: (Json.writeMember (Field.debug.key, .bool debug) ++
        ',' :: (Json.writeMember (Field.sharedModifiers.key, .object sharedModifiers) ++
        ',' :: (Json.writeMember (Field.modifiers.key, .object modifiers) ++ ['}'])))) := by
    simp [Settings.write, toJson, Json.write_object, Json.writeMembers_cons]
  have ends (rest : Text) : EndsValue (',' :: rest) := .inl rfl
  have closed : EndsValue ['}'] := .inr (.inr rfl)
  have nameRead (rest : Text) : run (.reading [.record .empty none] (.key true))
      (Json.writeMember (Field.defaultModifier.key, name.elim .null .text) ++ ',' :: rest) =
        run (.reading [.record ⟨some name, none, none, none⟩ (some .defaultModifier)] .after)
          (',' :: rest) := by
    cases name with
    | none => exact run_field _ none true rfl rfl (readsBack_of_fits .null) rfl (ends rest)
    | some t =>
      exact run_field _ none true rfl rfl (readsBack_of_fits (.text t)) rfl (ends rest)
  rw [written]
  refine Eq.trans (run_cons_of_step rfl _) (Eq.trans (nameRead _) ?_)
  refine Eq.trans (run_nextField .debug _ rfl rfl ?_ rfl (ends _)) ?_
  · exact readsBack_of_fits (.bool debug)
  refine Eq.trans (run_nextField .sharedModifiers _ rfl rfl ?_ rfl (ends _)) ?_
  · exact readsBack_of_fits fits.shared
  refine Eq.trans (run_nextField .modifiers _ rfl rfl ?_ rfl closed) ?_
  · exact readsBack_of_fits fits.own
  rfl

end State

/-- Settings whose text has no numbers but integers of 64 bits survive being written and read
again, however the text gave them. -/
theorem read_write {text : Text} {s : Settings} (h : read text = .ok s)
    (integers : ∀ t ∈ numbers text, IsInteger t) : read s.write = .ok s := by
  have written := State.run_write (fits_of_read h integers)
  change State.start.run s.write >>= State.finish = .ok s
  rw [written]
  rfl

/-- A field with no known key, a key given twice, an escape, values that define no modifier, a
negative zero and a number at each end of the range. -/
def raggedText : Text :=
  ("\x7b\"x\": [7], \"modifiers\": \x7b\"b\": \x7b\x7d, \"a\\u0001\": [\"f(\"], " ++
    "\"b\": [-9223372036854775808, -0, 18446744073709551615]\x7d, \"debug\": true\x7d").toList

def raggedSettings : Settings where
  defaultModifier := none
  debug := true
  sharedModifiers := []
  modifiers := [
    (['a', '\x01'], .array [.text ['f', '(']]),
    (['b'], .array [.number (.int (-9223372036854775808)), .number (.double true .zero),
      .number (.int 18446744073709551615)])]

theorem read_write_ragged :
    read raggedText = .ok raggedSettings ∧ numbers raggedText =
      [['7'], "-9223372036854775808".toList, ['-', '0'], "18446744073709551615".toList] ∧
    read raggedSettings.write = .ok raggedSettings := by
  have given : read raggedText = .ok raggedSettings := by
    set_option maxRecDepth 4000 in
    with_unfolding_all rfl
  have found : numbers raggedText =
      [['7'], "-9223372036854775808".toList, ['-', '0'], "18446744073709551615".toList] := by
    decide +kernel
  refine ⟨given, found, read_write given fun t listed => ?_⟩
  rw [found] at listed
  simp only [List.mem_cons, List.not_mem_nil, or_false] at listed
  rcases listed with rfl | rfl | rfl | rfl
  · exact .inr ⟨7, ⟨by decide, by decide⟩, by decide⟩
  · exact .inr ⟨-9223372036854775808, ⟨by decide, by decide⟩, by decide⟩
  · exact .inl rfl
  · exact .inr ⟨18446744073709551615, ⟨by decide, by decide⟩, by decide⟩

end Settings
end BraceTemplate
