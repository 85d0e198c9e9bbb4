import BraceTemplate.Proofs.Counting
import BraceTemplate.Site.Report

/-!
# What a report adds up

A report adds the counts of its files in the order in which they were compiled, and
decides by another walk over them whether it is clean. Neither the order nor the two
walks matter: a name is listed in the whole exactly if some file lists it, its count is
the sum of the counts in the files, and the whole is empty exactly if each part is. A
name that is listed with the count zero is therefore enough for a report not to be clean.
-/
namespace BraceTemplate

namespace Report

/-- The amounts of all files, added. -/
def addUp (amount : CompiledFile → Nat) (files : List CompiledFile) : Nat :=
  files.foldr (fun file n => amount file + n) 0

/-- How often the name was not found, over all files. -/
def missed (r : Report) (name : Text) : Nat :=
  addUp (fun file => file.unresolved[name]?.getD 0) r.files

section Amounts
variable (amount : CompiledFile → Nat)

theorem addUp_cons (file : CompiledFile) (files : List CompiledFile) :
    addUp amount (file :: files) = amount file + addUp amount files := rfl

theorem addUp_perm {files files' : List CompiledFile} (perm : files.Perm files') :
    addUp amount files = addUp amount files' :=
  perm.foldr_eq' (fun file _ file' _ n => Nat.add_left_comm (amount file') (amount file) n) 0

theorem addUp_append (files files' : List CompiledFile) :
    addUp amount (files ++ files') = addUp amount files + addUp amount files' := by
  induction files with
  | nil => simp [addUp]
  | cons file files ih =>
    rw [List.cons_append, addUp_cons, addUp_cons, ih]
    omega

theorem addUp_eq_zero_iff (files : List CompiledFile) :
    addUp amount files = 0 ↔ ∀ file ∈ files, amount file = 0 := by
  induction files with
  | nil => simp [addUp]
  | cons file files ih =>
    rw [addUp_cons, Nat.add_eq_zero_iff, ih, List.forall_mem_cons]

end Amounts

theorem skipped_eq_addUp (r : Report) : r.skipped = addUp CompiledFile.skipped r.files := rfl

/-- What was counted before the first file is only added. -/
theorem foldl_merge (files : List CompiledFile) (before : Tally) :
    files.foldl (fun total file => total.merge file.unresolved) before =
      before.merge (files.foldl (fun total file => total.merge file.unresolved) ∅) := by
  induction files generalizing before with
  | nil => exact before.merge_empty.symm
  | cons file files ih =>
    rw [List.foldl_cons, List.foldl_cons, ih, ih (Tally.merge ∅ file.unresolved),
      Tally.empty_merge, Tally.merge_assoc]

variable {r s t : Report} {name : Text}

theorem unresolved_of_append (joined : r.files = s.files ++ t.files) :
    r.unresolved = s.unresolved.merge t.unresolved := by
  rw [unresolved, joined, List.foldl_append, foldl_merge]
  rfl

theorem unresolved_cons (file : CompiledFile) (files : List CompiledFile)
    (failures : List FailedFile) : (Report.mk (file :: files) failures).unresolved =
      file.unresolved.merge (Report.mk files failures).unresolved := by
  rw [unresolved, List.foldl_cons, foldl_merge, Tally.empty_merge]
  rfl

theorem mem_unresolved_iff :
    name ∈ r.unresolved ↔ ∃ file ∈ r.files, name ∈ file.unresolved := by
  obtain ⟨files, failures⟩ := r
  induction files with
  | nil => simp [unresolved]
  | cons file files ih => simp [unresolved_cons, Tally.mem_merge, ih]

theorem getD_unresolved (r : Report) (name : Text) :
    r.unresolved[name]?.getD 0 = r.missed name := by
  obtain ⟨files, failures⟩ := r
  induction files with
  | nil => simp [unresolved, missed, addUp]
  | cons file files ih =>
    rw [unresolved_cons, Tally.getD_merge, ih]
    rfl

theorem getElem?_unresolved_eq_some_iff {n : Nat} : r.unresolved[name]? = some n ↔
    (∃ file ∈ r.files, name ∈ file.unresolved) ∧ n = r.missed name := by
  rw [Tally.getElem?_eq_some_iff_mem, mem_unresolved_iff, getD_unresolved]

/-- The order of the files enters neither what is listed nor what is added. -/
theorem unresolved_perm (perm : s.files.Perm r.files) : s.unresolved = r.unresolved := by
  apply Std.ExtTreeMap.ext_getElem?
  intro name
  have listed : (∃ file ∈ s.files, name ∈ file.unresolved) ↔
      ∃ file ∈ r.files, name ∈ file.unresolved := by
    simp only [perm.mem_iff]
  have added : s.missed name = r.missed name :=
    addUp_perm (fun file => file.unresolved[name]?.getD 0) perm
  ext n
  rw [getElem?_unresolved_eq_some_iff, getElem?_unresolved_eq_some_iff, listed, added]

theorem unresolved_eq_empty_iff : r.unresolved = ∅ ↔ ∀ file ∈ r.files, file.unresolved = ∅ := by
  simp only [Std.ExtTreeMap.eq_empty_iff_forall_not_mem, mem_unresolved_iff, not_exists, not_and]
  exact ⟨fun none file listed name => none name file listed,
    fun none name file listed => none file listed name⟩

theorem isClean_iff :
    r.isClean = true ↔ r.failures = [] ∧ r.skipped = 0 ∧ r.unresolved = ∅ := by
  rw [skipped_eq_addUp, addUp_eq_zero_iff, unresolved_eq_empty_iff]
  simp [isClean, forall_and]

end Report

/-- What a report says of all its files together is the sum of what it says of each, in whatever
order and however they are divided; it is clean exactly if there is nothing to say. -/
theorem report_sums_files (r : Report) :
    (∀ (name : Text) (n : Nat), r.unresolved[name]? = some n ↔
      (∃ file ∈ r.files, name ∈ file.unresolved) ∧ n = r.missed name) ∧
    (∀ s : Report, s.files.Perm r.files →
      s.skipped = r.skipped ∧ s.unresolved = r.unresolved) ∧
    (∀ s t : Report, r.files = s.files ++ t.files →
      r.skipped = s.skipped + t.skipped ∧ ∀ name : Text,
        r.unresolved[name]? = Option.merge (· + ·) s.unresolved[name]? t.unresolved[name]?) ∧
    (r.isClean = true ↔ r.failures = [] ∧ r.skipped = 0 ∧ r.unresolved = ∅) := by
  refine ⟨fun name n => Report.getElem?_unresolved_eq_some_iff, ?_, ?_, Report.isClean_iff⟩
  · intro s perm
    exact ⟨Report.addUp_perm CompiledFile.skipped perm, Report.unresolved_perm perm⟩
  · intro s t joined
    constructor
    · rw [Report.skipped_eq_addUp, joined, Report.addUp_append]
      rfl
    · intro name
      rw [Report.unresolved_of_append joined, Tally.getElem?_merge]

/-- A file that lists a name without a count. -/
def listingFile : CompiledFile :=
  ⟨"a.tpl".toList, "a.php".toList, 0, Tally.add ∅ "m".toList 0⟩

/-- A file that counts the same name and skips a directive. -/
def countingFile : CompiledFile :=
  ⟨"b.tpl".toList, "b.php".toList, 1, Tally.add ∅ "m".toList 3⟩

/-- The name counts three times in either order of the two files. The first of them alone adds
nothing to a sum, but it is not clean, since it lists the name. -/
theorem report_sums_files_listing :
    [countingFile, listingFile].Perm [listingFile, countingFile] ∧
    (Report.mk [countingFile, listingFile] []).unresolved =
      (Report.mk [listingFile, countingFile] []).unresolved ∧
    [listingFile, countingFile] = [listingFile] ++ [countingFile] ∧
    (Report.mk [listingFile, countingFile] []).skipped =
      (Report.mk [listingFile] []).skipped + (Report.mk [countingFile] []).skipped ∧
    (Report.mk [listingFile, countingFile] []).unresolved["m".toList]? = some 3 ∧
    (Report.mk [listingFile] []).unresolved["m".toList]? = some 0 ∧
    (Report.mk [listingFile] []).skipped = 0 ∧ (Report.mk [listingFile] []).isClean = false := by
  have perm : [countingFile, listingFile].Perm [listingFile, countingFile] := .swap ..
  obtain ⟨both, anyOrder, divided, -⟩ := report_sums_files ⟨[listingFile, countingFile], []⟩
  obtain ⟨alone, -, -, clean⟩ := report_sums_files ⟨[listingFile], []⟩
  have listed : (Report.mk [listingFile] []).unresolved["m".toList]? = some 0 :=
    (alone _ _).mpr ⟨⟨listingFile, by simp, by decide +kernel⟩, by decide +kernel⟩
  refine ⟨perm, (anyOrder ⟨_, []⟩ perm).2, rfl, (divided ⟨_, []⟩ ⟨_, []⟩ rfl).1, ?_, listed, rfl,
    ?_⟩
  · exact (both _ _).mpr ⟨⟨listingFile, by simp, by decide +kernel⟩, by decide +kernel⟩
  · rw [Bool.eq_false_iff]
    intro isClean
    rw [(clean.mp isClean).2.2] at listed
    cases listed

end BraceTemplate
