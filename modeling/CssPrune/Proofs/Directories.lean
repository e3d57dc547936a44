import CssPrune.Files.Tree
import CssPrune.Proofs.Writes

/-!
# Directories

What runs rely on in a directory (`Directory.Lawful`): looking around changes nothing, and a write
shows in the file that its path leads to and in no other one. A tree of files is such a directory
(`FileTree.lawful_access`). Where a path leads to there depends on the directories on the way to it,
and a write makes none and hides none (`FileTree.directoryAt?_insert`).
-/

namespace CssPrune

/-! ## Actions that change nothing -/

/-- An action changes no state. -/
def Keeps {σ α : Type} (action : StateM σ α) : Prop :=
  ∀ state, (action.run state).2 = state

section Keeps

variable {σ α β : Type}

/-- Giving a value back changes no state. -/
lemma keeps_pure (a : α) : Keeps (pure a : StateM σ α) := fun _ => rfl

/-- Two actions that change no state change none one after the other. -/
lemma Keeps.bind {action : StateM σ α} {next : α → StateM σ β} (h : Keeps action)
    (hnext : ∀ a, Keeps (next a)) : Keeps (action >>= next) := by
  intro state
  rw [StateT.run_bind]
  exact (hnext _ _).trans (h state)

/-- An action that changes no state in either case changes none. -/
lemma keeps_ite {p : Prop} [Decidable p] {first second : StateM σ α} (hfirst : Keeps first)
    (hsecond : Keeps second) : Keeps (if p then first else second) := by
  split
  · exact hfirst
  · exact hsecond

/-- A run of an action that changes no state ends where it starts. -/
lemma Keeps.run_eq {action : StateM σ α} (h : Keeps action) (state : σ) :
    action.run state = ((action.run state).1, state) :=
  Prod.ext rfl (h state)

/-- A filter whose test changes no state changes none. -/
lemma keeps_filterM {p : α → StateM σ Bool} (h : ∀ a, Keeps (p a)) (items : List α) :
    Keeps (items.filterM p) := by
  have haux : ∀ kept, Keeps (List.filterAuxM p items kept) := by
    induction items with
    | nil => exact fun kept => keeps_pure _
    | cons a items ih => exact fun kept => (h a).bind fun _ => ih _
  exact (haux []).bind fun _ => keeps_pure _

end Keeps

/-- Looking around in a directory changes nothing. -/
structure Directory.LawfulReads {σ : Type} (directory : Directory (StateM σ)) : Prop where
  read : ∀ path, Keeps (directory.read path)
  isPresent : ∀ path, Keeps (directory.isPresent path)
  isDirectory : ∀ path, Keeps (directory.isDirectory path)
  names : ∀ path, Keeps (directory.names path)

/-- Looking around changes nothing, and a write shows in its file only. -/
structure Directory.Lawful {σ φ κ : Type} [DecidableEq φ] (directory : Directory (StateM σ))
    (view : FileView σ φ κ) : Prop extends
    directory.LawfulReads, directory.toFileAccess.LawfulWrites view

/-! ## Trees of files -/

namespace FileTree

/-- The directory that some steps lead to from a node. -/
def directoryAt? (tree : FileTree) (node : Node) (names : List String) : Option (List String) :=
  match tree.walk node names with
  | .ok (.directory names) => some names
  | _ => none

/-- The file that a path leads to, whether it is there or not. -/
def target? (tree : FileTree) (path : String) : Option (List String) :=
  if (pathFailure? path).isSome || namesDirectory path then none
  else (tree.directoryAt? (start path) (namesOf path).dropLast).map fun above =>
    above ++ [(namesOf path).getLast?.getD ""]

/-- What the files of a tree hold. -/
def view : FileView FileTree (List String) ByteArray where
  contents tree names := tree.files.get? names
  leadsTo := target?
  stored := id

section Insert

variable {tree : FileTree} {above : List String} {name : String} (contents : ByteArray)

/-- A file in a place that no directory takes is all that an insertion adds. -/
lemma child_insert (hplace : ∀ names, tree.child above name ≠ .ok (.directory names))
    (names : List String) (other : String) :
    let next : FileTree := { tree with files := tree.files.insert (above ++ [name]) contents }
    next.child names other = tree.child names other ∨
      tree.child names other = .error .noSuchFile ∧
        next.child names other = .ok (.file (names ++ [other])) := by
  intro next
  have hget : next.files.get? (names ++ [other]) =
      if names ++ [other] = above ++ [name] then some contents
      else tree.files.get? (names ++ [other]) := by
    show (tree.files.insert (above ++ [name]) contents).get? (names ++ [other]) = _
    rw [OrderedMap.insert, OrderedMap.get?_update]
    simp only [beq_iff_eq]
  have hdirectories : next.directories = tree.directories := rfl
  rw [child, child, hget, hdirectories]
  by_cases hlong : maxName < other.utf8ByteSize
  · rw [if_pos hlong, if_pos hlong]
    exact Or.inl rfl
  · rw [if_neg hlong, if_neg hlong]
    by_cases hsame : names ++ [other] = above ++ [name]
    · obtain ⟨rfl, hlast⟩ := List.append_inj' hsame rfl
      obtain rfl : other = name := List.singleton_inj.1 hlast
      rw [if_pos rfl, Option.isSome_some, if_pos rfl]
      by_cases hfile : (tree.files.get? (names ++ [other])).isSome = true
      · rw [if_pos hfile]
        exact Or.inl rfl
      · have hnot : ¬ tree.directories.contains (names ++ [other]) = true := by
          intro htaken
          apply hplace (names ++ [other])
          rw [child, if_neg hlong, if_neg hfile, if_pos htaken]
        rw [if_neg hfile, if_neg hnot]
        exact Or.inr ⟨rfl, rfl⟩
    · rw [if_neg hsame]
      exact Or.inl rfl

/-- A step leads where it led to before, or to a file that was not there. -/
lemma step_insert (hplace : ∀ names, tree.child above name ≠ .ok (.directory names))
    (node : Node) (other : String) :
    let next : FileTree := { tree with files := tree.files.insert (above ++ [name]) contents }
    next.step node other = tree.step node other ∨
      tree.step node other = .error .noSuchFile ∧
        ∃ names, next.step node other = .ok (.file names) := by
  intro next
  cases node with
  | file names => exact Or.inl rfl
  | outside => exact Or.inl rfl
  | directory names =>
    rw [step, step]
    by_cases hhere : (other = "" || other = ".") = true
    · rw [if_pos hhere, if_pos hhere]
      exact Or.inl rfl
    · rw [if_neg hhere, if_neg hhere]
      by_cases habove : other = ".."
      · rw [if_pos habove, if_pos habove]
        exact Or.inl rfl
      · rw [if_neg habove, if_neg habove]
        rcases child_insert contents hplace names other with hsame | ⟨hbefore, hafter⟩
        · exact Or.inl hsame
        · exact Or.inr ⟨hbefore, _, hafter⟩

/-- A path is followed by its first step and then by the others. -/
lemma directoryAt?_cons (tree : FileTree) (node : Node) (other : String) (names : List String) :
    tree.directoryAt? node (other :: names) =
      match tree.step node other with
      | .ok node => tree.directoryAt? node names
      | .error _ => none := by
  rw [directoryAt?, walk, List.foldlM_cons]
  cases tree.step node other with
  | ok node => rfl
  | error failure => rfl

/-- No way leads to a directory through a file. -/
lemma directoryAt?_file (tree : FileTree) (file names : List String) :
    tree.directoryAt? (.file file) names = none := by
  cases names with
  | nil => rfl
  | cons other names => rw [directoryAt?_cons, step]

/-- An insertion of a file makes no directory and hides none. -/
lemma directoryAt?_insert (hplace : ∀ names, tree.child above name ≠ .ok (.directory names))
    (node : Node) (names : List String) :
    let next : FileTree := { tree with files := tree.files.insert (above ++ [name]) contents }
    next.directoryAt? node names = tree.directoryAt? node names := by
  intro next
  induction names generalizing node with
  | nil => rfl
  | cons other names ih =>
    rw [directoryAt?_cons, directoryAt?_cons]
    rcases step_insert contents hplace node other with hsame | ⟨hbefore, file, hafter⟩
    · rw [show next.step node other = tree.step node other from hsame]
      cases tree.step node other with
      | ok node => exact ih node
      | error failure => rfl
    · rw [hbefore, show next.step node other = .ok (.file file) from hafter]
      exact directoryAt?_file next file names

end Insert

/-- Bytes are stored under a name that no directory has. -/
lemma of_stored {tree next : FileTree} {above : List String} {name : String} {bytes : ByteArray}
    (h : tree.store above name bytes = .ok next) :
    (∀ names, tree.child above name ≠ .ok (.directory names)) ∧
      next = { tree with files := tree.files.insert (above ++ [name]) bytes } := by
  rw [store] at h
  split at h
  · cases h
  · cases h
  · rename_i hchild
    cases h
    refine ⟨fun names hdirectory => ?_, rfl⟩
    rw [hchild] at hdirectory
    cases hdirectory
  · rename_i hchild
    cases h
    refine ⟨fun names hdirectory => ?_, rfl⟩
    rw [hchild] at hdirectory
    cases hdirectory
  · cases h

/-- A write that is not refused puts the bytes into the file that the path leads to, where no
directory is; or the path leads out of the tree. -/
lemma of_written {tree next : FileTree} {path : String} {bytes : ByteArray}
    (h : tree.write path bytes = .ok next) :
    next = tree ∧ tree.target? path = none ∨
      ∃ above name, tree.target? path = some (above ++ [name]) ∧
        (∀ names, tree.child above name ≠ .ok (.directory names)) ∧
        next = { tree with files := tree.files.insert (above ++ [name]) bytes } := by
  rw [write] at h
  cases hfailure : pathFailure? path with
  | some failure =>
    rw [hfailure] at h
    cases h
  | none =>
    rw [hfailure] at h
    change (tree.walk (start path) (namesOf path).dropLast >>= _) = _ at h
    cases hwalk : tree.walk (start path) (namesOf path).dropLast with
    | error failure =>
      rw [hwalk] at h
      cases h
    | ok node =>
      rw [hwalk] at h
      by_cases hname : namesDirectory path = true
      · cases node with
        | file names => cases h
        | outside =>
          change (if _ then _ else _) = _ at h
          rw [if_pos hname] at h
          cases h
        | directory above =>
          change (if _ then _ else _) = _ at h
          rw [if_pos hname] at h
          cases h
      · have htarget : tree.target? path =
            (tree.directoryAt? (start path) (namesOf path).dropLast).map
              fun above => above ++ [(namesOf path).getLast?.getD ""] := by
          rw [target?, hfailure, if_neg (by simpa using hname)]
        rw [htarget, directoryAt?, hwalk]
        cases node with
        | file names => cases h
        | outside =>
          change (if _ then _ else _) = _ at h
          rw [if_neg hname] at h
          cases h
          exact Or.inl ⟨rfl, rfl⟩
        | directory above =>
          change (if _ then _ else _) = _ at h
          rw [if_neg hname] at h
          obtain ⟨hplace, rfl⟩ := of_stored h
          exact Or.inr ⟨above, _, rfl, hplace, rfl⟩

/-- A write in the tree changes the tree, or it is refused and leaves it as it is. -/
lemma run_write (tree : FileTree) (path : String) (bytes : ByteArray) :
    (access.write path bytes).run tree =
      match tree.write path bytes with
      | .error failure => (.error failure, tree)
      | .ok next => (.ok (), next) := by
  have hget : (get : StateM FileTree FileTree).run tree = (tree, tree) := rfl
  dsimp only [access]
  rw [run_bind_of_run hget]
  cases tree.write path bytes with
  | error failure => rfl
  | ok next => rfl

/-- A write leaves every path where it leads to. -/
lemma target?_of_written {tree next : FileTree} {path : String} {bytes : ByteArray}
    (h : tree.write path bytes = .ok next) : next.target? = tree.target? := by
  rcases of_written h with ⟨rfl, -⟩ | ⟨above, name, -, hplace, rfl⟩
  · rfl
  · funext other
    rw [target?, target?, directoryAt?_insert bytes hplace]

/-- Looking around in a tree changes nothing, and a write shows in its file only. -/
theorem lawful_access : access.Lawful view where
  read _ _ := rfl
  isPresent _ _ := rfl
  isDirectory _ _ := rfl
  names _ _ := rfl
  leadsTo path bytes tree := by
    show target? ((access.write path bytes).run tree).2 = tree.target?
    rw [run_write]
    cases hwrite : tree.write path bytes with
    | error failure => rfl
    | ok next => exact target?_of_written hwrite
  written {path bytes tree next} h file := by
    rw [run_write] at h
    cases hwrite : tree.write path bytes with
    | error failure =>
      rw [hwrite] at h
      cases h
    | ok written =>
      rw [hwrite] at h
      cases h
      show next.files.get? file =
        if tree.target? path = some file then some bytes else tree.files.get? file
      rcases of_written hwrite with ⟨rfl, houtside⟩ | ⟨above, name, htarget, -, rfl⟩
      · rw [houtside, if_neg (Option.some_ne_none file).symm]
      · rw [htarget]
        show (tree.files.insert (above ++ [name]) bytes).get? file = _
        rw [OrderedMap.insert, OrderedMap.get?_update]
        simp only [beq_iff_eq, Option.some.injEq, eq_comm (a := file)]
  refused {path bytes tree next failure} h file _ := by
    rw [run_write] at h
    cases hwrite : tree.write path bytes with
    | error failure =>
      rw [hwrite] at h
      cases h
      rfl
    | ok written =>
      rw [hwrite] at h
      cases h

end FileTree

end CssPrune
