import BraceTemplate.Proofs.PlainTree

/-!
# Following paths through links

`Turn` lists all that one step of a lookup can do; a link adds the steps of its target to
those that remain. `Leads` says which lookups succeed, and where. A way can be cut into
parts that are followed one after the other. A way that leads somewhere still leads there
when entries are added, as long as no entry is removed or becomes one of another kind.
-/
namespace BraceTemplate.FileSystem

/-- One step from `here`, with the links that may be followed before and after it, the place that
it leads to and the steps that a link adds. -/
inductive Turn (fs : FileSystem) :
    Nat → Location → PathStep → Nat → Location → List PathStep → Prop where
  | stay {links : Nat} {here : Location} (dir : fs.entry? here = some .directory) :
      Turn fs links here .stay links here []
  | up {links : Nat} {here : Location} (dir : fs.entry? here = some .directory) :
      Turn fs links here .up links here.dropLast []
  | down {links : Nat} {here : Location} {name : FileName} {e : Entry}
      (dir : fs.entry? here = some .directory) (short : name.isTooLong = false)
      (entry : fs.entry? (here ++ [name]) = some e) (noLink : ∀ target, e ≠ .link target) :
      Turn fs links here (.down name) links (here ++ [name]) []
  | link {links : Nat} {here : Location} {name : FileName} {target : Text}
      (dir : fs.entry? here = some .directory) (short : name.isTooLong = false)
      (entry : fs.entry? (here ++ [name]) = some (.link target)) :
      Turn fs (links + 1) here (.down name) links ((Route.ofText target).startFrom here)
        (Route.ofText target).walk

/-- Following the steps from `here`, with at most `links` links, ends at `found` with `left` links
to spare. -/
inductive Leads (fs : FileSystem) : Nat → Location → List PathStep → Location → Nat → Prop where
  | done {links : Nat} {here : Location} : Leads fs links here [] here links
  | step {links links' left : Nat} {here here' found : Location} {s : PathStep}
      {detour rest : List PathStep} (turn : Turn fs links here s links' here' detour)
      (on : Leads fs links' here' (detour ++ rest) found left) :
      Leads fs links here (s :: rest) found left

section Follow
variable {fs fs' : FileSystem} {links links' left : Nat} {here here' found : Location}
variable {s : PathStep} {steps more detour : List PathStep}

theorem follow_nil (fs : FileSystem) (links : Nat) (here : Location) :
    fs.follow links here [] = .ok (here, links) := by
  cases links with
  | zero => rfl
  | succ links => rfl

theorem follow_cons (fs : FileSystem) (links : Nat) (here : Location) (s : PathStep)
    (rest : List PathStep) : fs.follow links here (s :: rest) =
      if fs.entry? here = some .directory then
        match s with
        | .stay => fs.follow links here rest
        | .up => fs.follow links here.dropLast rest
        | .down name =>
          if name.isTooLong then .error .nameTooLong
          else match fs.entry? (here ++ [name]) with
            | none => .error .notFound
            | some (.link target) =>
              match links with
              | 0 => .error .tooManyLinks
              | links + 1 => fs.follow links ((Route.ofText target).startFrom here)
                ((Route.ofText target).walk ++ rest)
            | some _ => fs.follow links (here ++ [name]) rest
      else .error .notDirectory := by
  cases links with
  | zero => rfl
  | succ links => rfl

theorem Turn.follow_cons (turn : fs.Turn links here s links' here' detour)
    (rest : List PathStep) :
    fs.follow links here (s :: rest) = fs.follow links' here' (detour ++ rest) := by
  rw [FileSystem.follow_cons]
  cases turn with
  | stay dir => simp only [dir, if_true, List.nil_append]
  | up dir => simp only [dir, if_true, List.nil_append]
  | down dir short entry noLink =>
    simp only [dir, short, entry, if_true, Bool.false_eq_true, if_false, List.nil_append]
  | link dir short entry =>
    simp only [dir, short, entry, if_true, Bool.false_eq_true, if_false]

theorem exists_turn {rest : List PathStep}
    (h : fs.follow links here (s :: rest) = .ok (found, left)) :
    ∃ links' here' detour, fs.Turn links here s links' here' detour := by
  rw [follow_cons] at h
  split at h
  · next dir =>
    cases s with
    | stay => exact ⟨_, _, _, .stay dir⟩
    | up => exact ⟨_, _, _, .up dir⟩
    | down name =>
      simp only at h
      split at h
      · cases h
      · next short =>
        have short := eq_false_of_ne_true short
        split at h
        · cases h
        · next target entry =>
          cases links with
          | zero => cases h
          | succ links => exact ⟨_, _, _, .link dir short entry⟩
        · next e noLink entry =>
          exact ⟨_, _, _, .down dir short entry fun target same => noLink target same⟩
  · cases h

/-- A lookup that succeeds leads to what it found; a link takes one from its budget, any other step
one from its way. -/
theorem leads_of_follow (h : fs.follow links here steps = .ok (found, left)) :
    fs.Leads links here steps found left := by
  induction links using Nat.strongRecOn generalizing here steps with
  | ind links jump =>
    induction steps generalizing here with
    | nil =>
      rw [follow_nil] at h
      cases h
      exact .done
    | cons s rest ih =>
      obtain ⟨links', here', detour, turn⟩ := exists_turn h
      rw [turn.follow_cons] at h
      refine .step turn ?_
      cases turn with
      | stay => exact ih h
      | up => exact ih h
      | down => exact ih h
      | link => exact jump links' (Nat.lt_succ_self links') h

theorem Leads.follow (leads : fs.Leads links here steps found left) :
    fs.follow links here steps = .ok (found, left) := by
  induction leads with
  | done => exact follow_nil fs _ _
  | step turn _ ih => rw [turn.follow_cons, ih]

theorem follow_eq_ok :
    fs.follow links here steps = .ok (found, left) ↔ fs.Leads links here steps found left :=
  ⟨leads_of_follow, Leads.follow⟩

theorem Leads.append {mid : Location} {between : Nat}
    (first : fs.Leads links here steps mid between)
    (second : fs.Leads between mid more found left) :
    fs.Leads links here (steps ++ more) found left := by
  induction first with
  | done => exact second
  | step turn _ ih =>
    refine .step turn ?_
    have on := ih second
    rwa [List.append_assoc] at on

/-- A way can be cut between two parts; what a link adds belongs to the first of them. -/
theorem Leads.split (whole : fs.Leads links here (steps ++ more) found left) :
    ∃ mid between, fs.Leads links here steps mid between ∧
      fs.Leads between mid more found left := by
  generalize same : steps ++ more = way at whole
  induction whole generalizing steps with
  | done =>
    obtain ⟨rfl, rfl⟩ := List.append_eq_nil_iff.mp same
    exact ⟨_, _, .done, .done⟩
  | @step _ _ _ _ _ _ _ detour _ turn on ih =>
    cases steps with
    | nil =>
      obtain rfl : more = _ := same
      exact ⟨_, _, .done, .step turn on⟩
    | cons s steps =>
      obtain ⟨rfl, rfl⟩ : s = _ ∧ steps ++ more = _ := List.cons.inj same
      obtain ⟨mid, between, first, second⟩ := ih (List.append_assoc detour steps more)
      exact ⟨mid, between, .step turn first, second⟩

theorem leads_stay_iff : fs.Leads links here [.stay] found left ↔
    fs.entry? here = some .directory ∧ found = here ∧ left = links := by
  constructor
  · intro leads
    cases leads with
    | step turn on =>
      cases turn with
      | stay dir =>
        cases on
        exact ⟨dir, rfl, rfl⟩
  · rintro ⟨dir, rfl, rfl⟩
    exact .step (.stay dir) .done

/-- No entry is removed, and each stays of its kind; only the octets of files may change. -/
structure Keeps (fs fs' : FileSystem) : Prop where
  home : fs'.home = fs.home
  directory : ∀ l, fs.entry? l = some .directory → fs'.entry? l = some .directory
  link : ∀ l target, fs.entry? l = some (.link target) → fs'.entry? l = some (.link target)
  file : ∀ l bytes, fs.entry? l = some (.file bytes) →
    ∃ bytes', fs'.entry? l = some (.file bytes')

theorem Turn.keeps (turn : fs.Turn links here s links' here' detour) (keeps : fs.Keeps fs') :
    fs'.Turn links here s links' here' detour := by
  cases turn with
  | stay dir => exact .stay (keeps.directory _ dir)
  | up dir => exact .up (keeps.directory _ dir)
  | @down _ _ _ e dir short entry noLink =>
    have dir := keeps.directory _ dir
    cases e with
    | directory => exact .down dir short (keeps.directory _ entry) noLink
    | file bytes =>
      obtain ⟨bytes', entry⟩ := keeps.file _ bytes entry
      exact .down dir short entry (by simp)
    | link target => exact absurd rfl (noLink target)
  | link dir short entry => exact .link (keeps.directory _ dir) short (keeps.link _ _ entry)

theorem Leads.keeps (leads : fs.Leads links here steps found left) (keeps : fs.Keeps fs') :
    fs'.Leads links here steps found left := by
  induction leads with
  | done => exact .done
  | step turn _ ih => exact .step (turn.keeps keeps) ih

end Follow

section Route
variable {fs fs' : FileSystem} {r : Route} {l : Location}

theorem locateRoute_iff_leads : fs.locateRoute r = .ok l ↔ r.refusal? = none ∧
    ∃ left, fs.Leads linkLimit (r.startFrom fs.home) r.walk l left := by
  rw [locateRoute]
  cases refused : r.refusal? with
  | some cause => simp
  | none =>
    simp only [true_and, ← follow_eq_ok]
    cases found : fs.follow linkLimit (r.startFrom fs.home) r.walk with
    | error cause => simp [Except.map]
    | ok pair => simp [Except.map, Prod.ext_iff]

theorem Keeps.locateRoute (keeps : fs.Keeps fs') (h : fs.locateRoute r = .ok l) :
    fs'.locateRoute r = .ok l := by
  obtain ⟨accepted, left, leads⟩ := locateRoute_iff_leads.mp h
  exact locateRoute_iff_leads.mpr ⟨accepted, left, keeps.home ▸ leads.keeps keeps⟩

end Route
end BraceTemplate.FileSystem
