import BraceTemplate.Tally

/-!
# What a tally counts

A tally is known by its lookups. Adding, merging and counting a list of names are
each described by one equation for the lookup of a name, and all other laws of
tallies follow from these without opening a map again.
-/
namespace BraceTemplate.Tally

theorem getElem?_add (t : Tally) (name a : Text) (n : Nat) :
    (t.add name n)[a]? = if name = a then some (t[a]?.getD 0 + n) else t[a]? := by
  rw [add, Std.ExtTreeMap.getElem?_alter]
  by_cases h : name = a
  · subst h
    simp
  · simp [h]

theorem getElem?_foldl_add_of_absent {entries : List (Text × Nat)} {a : Text}
    (absent : ∀ entry ∈ entries, entry.1 ≠ a) (s : Tally) :
    (entries.foldl (fun t entry => t.add entry.1 entry.2) s)[a]? = s[a]? := by
  induction entries generalizing s with
  | nil => rfl
  | cons entry rest ih =>
    have other := absent entry List.mem_cons_self
    rw [List.foldl_cons, ih (fun e he => absent e (List.mem_cons_of_mem entry he)), getElem?_add,
      if_neg other]

theorem getElem?_foldl_add_of_mem {entries : List (Text × Nat)} {a : Text} {n : Nat}
    (distinct : entries.Pairwise fun e f => e.1 ≠ f.1) (h : (a, n) ∈ entries) (s : Tally) :
    (entries.foldl (fun t entry => t.add entry.1 entry.2) s)[a]? = some (s[a]?.getD 0 + n) := by
  induction entries generalizing s with
  | nil => cases h
  | cons entry rest ih =>
    obtain ⟨first, later⟩ := List.pairwise_cons.mp distinct
    rw [List.foldl_cons]
    rcases List.mem_cons.mp h with rfl | h
    · have absent : ∀ entry ∈ rest, entry.1 ≠ a := fun entry he => (first entry he).symm
      rw [getElem?_foldl_add_of_absent absent, getElem?_add, if_pos rfl]
    · have other : entry.1 ≠ a := first (a, n) h
      rw [ih later h, getElem?_add, if_neg other]

theorem distinct_toList (t : Tally) : t.toList.Pairwise fun e f => e.1 ≠ f.1 := by
  refine Std.ExtTreeMap.distinct_keys_toList.imp ?_
  intro e f apart same
  exact apart (by rw [same]; exact Std.ReflCmp.compare_self)

theorem getElem?_merge (s t : Tally) (a : Text) :
    (s.merge t)[a]? = Option.merge (· + ·) s[a]? t[a]? := by
  rw [merge, Std.ExtTreeMap.foldl_eq_foldl_toList]
  cases ht : t[a]? with
  | none =>
    have absent : ∀ entry ∈ t.toList, entry.1 ≠ a := by
      rintro ⟨name, n⟩ he rfl
      rw [Std.ExtTreeMap.mem_toList_iff_getElem?_eq_some, ht] at he
      cases he
    rw [getElem?_foldl_add_of_absent absent, Option.merge_none_right]
  | some n =>
    have found : (a, n) ∈ t.toList := Std.ExtTreeMap.mem_toList_iff_getElem?_eq_some.mpr ht
    rw [getElem?_foldl_add_of_mem t.distinct_toList found]
    cases s[a]? <;> simp

theorem mem_merge {s t : Tally} {a : Text} : a ∈ s.merge t ↔ a ∈ s ∨ a ∈ t := by
  simp only [Std.ExtTreeMap.mem_iff_isSome_getElem?, getElem?_merge]
  cases s[a]? <;> cases t[a]? <;> simp

theorem getD_merge (s t : Tally) (a : Text) :
    (s.merge t)[a]?.getD 0 = s[a]?.getD 0 + t[a]?.getD 0 := by
  rw [getElem?_merge]
  cases s[a]? <;> cases t[a]? <;> simp

/-- Whether a name is listed and how often it was counted are all there is to know. -/
theorem getElem?_eq_some_iff_mem {t : Tally} {a : Text} {n : Nat} :
    t[a]? = some n ↔ a ∈ t ∧ n = t[a]?.getD 0 := by
  rw [Std.ExtTreeMap.mem_iff_isSome_getElem?]
  cases t[a]? <;> simp [eq_comm]

theorem merge_assoc (s t u : Tally) : (s.merge t).merge u = s.merge (t.merge u) := by
  apply Std.ExtTreeMap.ext_getElem?
  intro a
  simp only [getElem?_merge]
  cases s[a]? <;> cases t[a]? <;> cases u[a]? <;> simp [Nat.add_assoc]

theorem empty_merge (t : Tally) : merge ∅ t = t := by
  apply Std.ExtTreeMap.ext_getElem?
  intro a
  simp [getElem?_merge]

theorem merge_empty (t : Tally) : t.merge ∅ = t := by
  apply Std.ExtTreeMap.ext_getElem?
  intro a
  simp [getElem?_merge]

theorem getElem?_foldl_names (names : List Text) (s : Tally) (a : Text) :
    (names.foldl (fun t name => t.add name 1) s)[a]? =
      if a ∈ names then some (s[a]?.getD 0 + names.count a) else s[a]? := by
  induction names generalizing s with
  | nil => simp
  | cons name rest ih =>
    rw [List.foldl_cons, ih, getElem?_add]
    by_cases same : name = a
    · subst same
      by_cases again : name ∈ rest
      · simp [again, Nat.add_assoc, Nat.add_comm 1]
      · simp [again, List.count_eq_zero_of_not_mem again]
    · have other : a ≠ name := fun h => same h.symm
      simp [same, other]

theorem getElem?_ofNames (names : List Text) (a : Text) :
    (ofNames names)[a]? = if a ∈ names then some (names.count a) else none := by
  rw [ofNames, getElem?_foldl_names]
  simp

theorem getElem?_ofNames_eq_some_iff {names : List Text} {a : Text} {n : Nat} :
    (ofNames names)[a]? = some n ↔ 0 < n ∧ n = names.count a := by
  rw [getElem?_ofNames]
  by_cases h : a ∈ names
  · have := List.count_pos_iff.mpr h
    simp only [if_pos h, Option.some.injEq]
    omega
  · have := List.count_eq_zero_of_not_mem h
    simp only [if_neg h, reduceCtorEq, false_iff]
    omega

theorem ofNames_append (xs ys : List Text) :
    ofNames (xs ++ ys) = (ofNames xs).merge (ofNames ys) := by
  apply Std.ExtTreeMap.ext_getElem?
  intro a
  rw [getElem?_merge, ofNames, List.foldl_append, getElem?_foldl_names, getElem?_ofNames ys]
  change (if a ∈ ys then some ((ofNames xs)[a]?.getD 0 + ys.count a) else (ofNames xs)[a]?) = _
  by_cases h : a ∈ ys
  · rw [if_pos h, if_pos h]
    cases (ofNames xs)[a]? <;> simp
  · rw [if_neg h, if_neg h, Option.merge_none_right]

theorem isEmpty_ofNames_iff {names : List Text} : (ofNames names).isEmpty ↔ names = [] := by
  rw [Std.ExtTreeMap.isEmpty_iff]
  constructor
  · intro h
    rw [List.eq_nil_iff_forall_not_mem]
    intro a ha
    have found := getElem?_ofNames names a
    rw [h, if_pos ha] at found
    simp at found
  · rintro rfl
    rfl

theorem le_total {t : Tally} {a : Text} {n : Nat} (h : t[a]? = some n) : n ≤ t.total := by
  have found : (a, n) ∈ t.toList := Std.ExtTreeMap.mem_toList_iff_getElem?_eq_some.mpr h
  rw [total]
  generalize t.toList = entries at found ⊢
  induction entries with
  | nil => cases found
  | cons entry rest ih =>
    rw [List.foldr_cons]
    rcases List.mem_cons.mp found with rfl | later
    · omega
    · have := ih later
      omega

/-- The total of the counts is zero only if nothing was counted. -/
theorem total_ofNames_eq_zero_iff {names : List Text} : (ofNames names).total = 0 ↔ names = [] := by
  constructor
  · intro h
    rw [List.eq_nil_iff_forall_not_mem]
    intro a ha
    have counted : (ofNames names)[a]? = some (names.count a) := by
      rw [getElem?_ofNames, if_pos ha]
    have bound := le_total counted
    have := List.count_pos_iff.mpr ha
    omega
  · rintro rfl
    rfl

end BraceTemplate.Tally
