import CssPrune.Proofs.Targets
import Mathlib.Data.List.DropRight

/-!
# Paths of targets

The suffix of an output goes in front of the last dot of the whole path. If that dot belongs to the
name of the file, or if there is none at all, then the output lies beside its stylesheet. If all
dots are in front of the last slash, then the suffix changes the name of a directory instead
(`Output.liesBeside_targetOf_iff`).
-/

namespace CssPrune

/-! ## Directories and names of files -/

namespace Path

/-- A path up to and with its last slash. -/
def directory (path : Text) : Text :=
  path.rdropWhile (· != '/')

/-- What follows the last slash of a path. -/
def fileName (path : Text) : Text :=
  Text.afterLast '/' path

/-- A text that a name of a file can follow: none, or one that ends in a slash. -/
def IsFront (front : Text) : Prop :=
  front = [] ∨ ∃ init, front = init ++ ['/']

variable {front name : Text}

/-- A path is its directory and the name of its file. -/
lemma directory_append_fileName (path : Text) : directory path ++ fileName path = path :=
  List.rdropWhile_append_rtakeWhile

/-- No slash belongs to the name of a file. -/
lemma not_mem_fileName (path : Text) : '/' ∉ fileName path :=
  Text.not_mem_afterLast '/' path

/-- What stands without a slash behind a front is the name of the file. -/
lemma fileName_append (hfront : IsFront front) (hname : '/' ∉ name) :
    fileName (front ++ name) = name := by
  rw [fileName, Text.afterLast_append hname]
  rcases hfront with rfl | ⟨init, rfl⟩
  · rfl
  · rw [Text.afterLast_concat, List.nil_append]

/-- A front with a name without a slash behind it is the directory. -/
lemma directory_append (hfront : IsFront front) (hname : '/' ∉ name) :
    directory (front ++ name) = front := by
  have hsplit := directory_append_fileName (front ++ name)
  rw [fileName_append hfront hname] at hsplit
  exact List.append_cancel_right hsplit

/-- What stands in front of the name of a file ends in a slash, if it is anything. -/
lemma isFront_directory (path : Text) : IsFront (directory path) := by
  by_cases hslash : '/' ∈ path
  · obtain ⟨init, name, rfl, hname⟩ := Text.exists_last hslash
    have hfront : IsFront (init ++ ['/']) := Or.inr ⟨init, rfl⟩
    rw [List.append_cons, directory_append hfront hname]
    exact hfront
  · have hpath := directory_append (Or.inl rfl) hslash
    exact Or.inl hpath

end Path

open CssPrune.Path (IsFront)

namespace Output

/-! ## Suffixes -/

/-- A suffix stands in front of the last dot of a name, or behind a name without dots. -/
inductive Suffixed (suffix : Text) : Text → Text → Prop where
  | dotted {front extension} : '.' ∉ extension →
    Suffixed suffix (front ++ '.' :: extension) (front ++ suffix ++ '.' :: extension)
  | plain {name} : '.' ∉ name → Suffixed suffix name (name ++ suffix)

variable {suffix front name : Text}

/-- An inserted suffix stands where it should in the name. -/
lemma suffixed_insertSuffix (suffix name : Text) :
    Suffixed suffix name (insertSuffix suffix name) := by
  by_cases hdot : '.' ∈ name
  · obtain ⟨front, extension, rfl, hextension⟩ := Text.exists_last hdot
    rw [insertSuffix_append hextension]
    exact .dotted hextension
  · rw [insertSuffix_of_not_mem hdot]
    exact .plain hdot

/-- A dot behind a front is the last one. -/
lemma insertSuffix_append_of_mem (h : '.' ∈ name) (suffix front : Text) :
    insertSuffix suffix (front ++ name) = front ++ insertSuffix suffix name := by
  obtain ⟨init, extension, rfl, hextension⟩ := Text.exists_last h
  rw [← List.append_assoc, insertSuffix_append hextension, insertSuffix_append hextension]
  simp only [List.append_assoc]

/-- Without dots behind it, the last dot of a front counts. -/
lemma insertSuffix_append_of_not_mem (hfront : '.' ∈ front) (hname : '.' ∉ name) (suffix : Text) :
    insertSuffix suffix (front ++ name) = insertSuffix suffix front ++ name := by
  obtain ⟨init, extension, rfl, hextension⟩ := Text.exists_last hfront
  have hdots : '.' ∉ extension ++ name := by simp [hextension, hname]
  rw [List.append_assoc, List.cons_append, insertSuffix_append hdots,
    insertSuffix_append hextension]
  simp only [List.append_assoc, List.cons_append]

/-- An inserted suffix brings no characters along but its own. -/
lemma not_mem_insertSuffix {c : Char} (hsuffix : c ∉ suffix) (hname : c ∉ name) :
    c ∉ insertSuffix suffix name := by
  rw [← List.count_eq_zero] at hsuffix hname ⊢
  rw [count_insertSuffix, hsuffix, hname]

/-- A suffix that is not empty changes the name. -/
lemma insertSuffix_ne_self (h : suffix ≠ []) (name : Text) : insertSuffix suffix name ≠ name := by
  obtain ⟨c, hc⟩ := List.exists_mem_of_ne_nil suffix h
  intro hsame
  have hcount := count_insertSuffix suffix name c
  rw [hsame] at hcount
  have hpos : 0 < suffix.count c := List.count_pos_iff.2 hc
  omega

/-- A suffix in a front leaves a front if it has a dot to stand before. -/
lemma isFront_insertSuffix (hfront : IsFront front) (hdot : '.' ∈ front) (suffix : Text) :
    IsFront (insertSuffix suffix front) := by
  rcases hfront with rfl | ⟨init, rfl⟩
  · cases hdot
  · have hinit : '.' ∈ init := by simpa using hdot
    exact Or.inr ⟨_, insertSuffix_append_of_not_mem hinit (by decide) suffix⟩

/-! ## Targets -/

/-- A target lies in the directory of a path, under the name of the file there with a suffix. -/
structure LiesBeside (suffix path target : Text) : Prop where
  directory : Path.directory target = Path.directory path
  fileName : Suffixed suffix (Path.fileName path) (Path.fileName target)

/-- The suffix goes into the name of the file if that has a dot, or if nothing has one. -/
lemma liesBeside_insertSuffix (hsuffix : '/' ∉ suffix) (hfront : IsFront front)
    (hname : '/' ∉ name) (hdots : '.' ∈ name ∨ '.' ∉ front) :
    LiesBeside suffix (front ++ name) (insertSuffix suffix (front ++ name)) := by
  have htarget : insertSuffix suffix (front ++ name) = front ++ insertSuffix suffix name := by
    by_cases hdot : '.' ∈ name
    · exact insertSuffix_append_of_mem hdot suffix front
    · have hnone : '.' ∉ front ++ name := by simp [hdots.resolve_left hdot, hdot]
      rw [insertSuffix_of_not_mem hnone, insertSuffix_of_not_mem hdot, List.append_assoc]
  have hslash : '/' ∉ insertSuffix suffix name := not_mem_insertSuffix hsuffix hname
  rw [htarget]
  constructor
  · rw [Path.directory_append hfront hslash, Path.directory_append hfront hname]
  · rw [Path.fileName_append hfront hslash, Path.fileName_append hfront hname]
    exact suffixed_insertSuffix suffix name

/-- The suffix goes into the directory if only that has a dot. -/
lemma directory_insertSuffix (hfront : IsFront front) (hname : '/' ∉ name) (hdot : '.' ∈ front)
    (hplain : '.' ∉ name) (suffix : Text) :
    Path.directory (insertSuffix suffix (front ++ name)) = insertSuffix suffix front ∧
      Path.fileName (insertSuffix suffix (front ++ name)) = name := by
  have htarget := isFront_insertSuffix hfront hdot suffix
  rw [insertSuffix_append_of_not_mem hdot hplain]
  exact ⟨Path.directory_append htarget hname, Path.fileName_append htarget hname⟩

/-- An output lies beside its stylesheet exactly if the name of the file has a dot or the directory
has none. Otherwise the suffix goes into the directory, and the name of the file stays. -/
theorem liesBeside_targetOf_iff {suffix : String} (hne : suffix ≠ "")
    (hslash : '/' ∉ suffix.toList) (path : String) :
    let target := (targetOf (some suffix) path).toList
    let front := Path.directory path.toList
    let name := Path.fileName path.toList
    (LiesBeside suffix.toList path.toList target ↔ '.' ∈ name ∨ '.' ∉ front) ∧
    ('.' ∉ name → '.' ∈ front →
      Path.directory target = insertSuffix suffix.toList front ∧ Path.fileName target = name) := by
  intro target front name
  have hfront : IsFront front := Path.isFront_directory path.toList
  have hname : '/' ∉ name := Path.not_mem_fileName path.toList
  have hpath : path.toList = front ++ name := (Path.directory_append_fileName path.toList).symm
  have htarget : target = insertSuffix suffix.toList (front ++ name) := by
    rw [← hpath]
    exact String.toList_ofList
  have hother : '.' ∉ name → '.' ∈ front →
      Path.directory target = insertSuffix suffix.toList front ∧ Path.fileName target = name := by
    intro hplain hdot
    rw [htarget]
    exact directory_insertSuffix hfront hname hdot hplain suffix.toList
  refine ⟨⟨fun hbeside => ?_, fun hdots => ?_⟩, hother⟩
  · by_contra hdots
    obtain ⟨hplain, hdot⟩ := not_or.1 hdots
    have hsuffix : suffix.toList ≠ [] := by simpa using hne
    have hdirectory := (hother hplain (not_not.1 hdot)).1
    exact insertSuffix_ne_self hsuffix front (hdirectory.symm.trans hbeside.directory)
  · rw [htarget, hpath]
    exact liesBeside_insertSuffix hslash hfront hname hdots

/-- Dots in the directories do not count if the name of the file has one. -/
theorem liesBeside_targetOf_dotted :
    ".min" ≠ "" ∧ '/' ∉ ".min".toList ∧
      targetOf (some ".min") "../css.d/site.v2.css" = "../css.d/site.v2.min.css" ∧
      LiesBeside ".min".toList "../css.d/site.v2.css".toList
        (targetOf (some ".min") "../css.d/site.v2.css").toList := by
  have hne : ".min" ≠ "" := by decide
  have hslash : '/' ∉ ".min".toList := by decide
  refine ⟨hne, hslash, by decide +kernel, ?_⟩
  exact (liesBeside_targetOf_iff hne hslash _).1.2 (by decide +kernel)

/-- The dot of a directory is taken for that of a file without dots. -/
theorem targetOf_elsewhere :
    targetOf (some ".pared") "css.d/site" = "css.pared.d/site" ∧
      targetOf (some ".pared") "../site" = "..pared./site" ∧
      ¬ LiesBeside ".pared".toList "css.d/site".toList
        (targetOf (some ".pared") "css.d/site").toList := by
  refine ⟨by decide +kernel, by decide +kernel, fun hbeside => ?_⟩
  exact absurd hbeside.directory (by decide +kernel)

end Output

end CssPrune
