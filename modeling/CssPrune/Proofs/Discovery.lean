import CssPrune.CommandLine.Discovery
import CssPrune.Proofs.Directories

/-!
# Finding files

Finding files changes nothing, for every action of the search is a sequence of looks
(`keeps_findAll`). A text without slashes and wildcards stands for itself, whatever is in the
directory (`run_filesOf_name`).
-/

namespace CssPrune

namespace Glob

/-! ## Looking around -/

section Looks

variable {σ : Type} {directory : Directory (StateM σ)} (hlook : directory.LawfulReads)

/-- Lists that are found without a change are put one behind the other. -/
lemma run_concatM {α β : Type} {action : α → StateM σ (List β)} (h : ∀ a, Keeps (action a))
    (items : List α) (state : σ) :
    (concatM action items).run state =
      (items.flatMap fun a => ((action a).run state).1, state) := by
  induction items with
  | nil => rfl
  | cons a items ih =>
    rw [concatM, run_bind_of_run ((h a).run_eq state), run_bind_of_run ih]
    rfl

/-- Lists that are found without a change are found together without one. -/
lemma keeps_concatM {α β : Type} {action : α → StateM σ (List β)} (h : ∀ a, Keeps (action a))
    (items : List α) : Keeps (concatM action items) := by
  intro state
  rw [run_concatM h]

include hlook

/-- Looking up the names of a directory changes nothing. -/
lemma keeps_sortedNames (path : String) : Keeps (sortedNames directory path) :=
  (hlook.names path).bind fun _ => keeps_pure _

/-- Arriving at a path changes nothing if the search from there does not. -/
lemma keeps_arrive {directoriesOnly : Bool} {fuel : Nat}
    (hsearch : ∀ path parts, Keeps (search directory directoriesOnly fuel path parts))
    (path : String) (parts : List Part) :
    Keeps (arrive directory directoriesOnly fuel path parts) := by
  rw [arrive]
  refine keeps_ite ?_ (hsearch path parts)
  exact (hlook.isDirectory path).bind fun _ => keeps_ite (keeps_pure _) (keeps_pure _)

/-- A search changes nothing. -/
lemma keeps_search (directoriesOnly : Bool) (fuel : Nat) (path : String) (parts : List Part) :
    Keeps (search directory directoriesOnly fuel path parts) := by
  induction fuel generalizing path parts with
  | zero =>
    cases parts with
    | nil => rw [search]; exact keeps_pure _
    | cons part parts => rw [search]; exact keeps_pure _
  | succ fuel ih =>
    have harrive := keeps_arrive hlook ih
    cases parts with
    | nil => rw [search]; exact keeps_pure _
    | cons part parts =>
      rw [search]
      refine (hlook.isDirectory path).bind fun isDirectory => ?_
      cases part with
      | name text =>
        have hfound : ∀ found : Bool, Keeps (if found = true then
            arrive directory directoriesOnly fuel (childPath path (String.ofList text)) parts
            else pure []) := fun found => keeps_ite (harrive _ _) (keeps_pure _)
        exact keeps_ite ((keeps_pure _).bind hfound) ((hlook.isPresent _).bind hfound)
      | wildcards tokens =>
        refine keeps_ite (keeps_pure _) ?_
        refine (keeps_sortedNames hlook path).bind fun names => ?_
        refine (keeps_concatM (fun name => harrive _ _) _).bind fun above => ?_
        exact (keeps_concatM (fun name => harrive _ _) _).bind fun below => keeps_pure _
      | anyDepth =>
        refine keeps_ite (keeps_pure _) ?_
        refine (keeps_sortedNames hlook path).bind fun names => keeps_concatM (fun name => ?_) _
        refine (hlook.isDirectory _).bind fun isDirectory => ?_
        have hdeeper : ∀ found : List String, Keeps (if isDirectory = true then do
              let deeper ←
                search directory directoriesOnly fuel (childPath path name) (.anyDepth :: parts)
              pure (found ++ deeper)
            else do
              let deeper ← pure []
              pure (found ++ deeper)) := fun found =>
          keeps_ite ((ih _ _).bind fun _ => keeps_pure _)
            ((keeps_pure _).bind fun _ => keeps_pure _)
        cases parts with
        | nil => exact (keeps_pure _).bind hdeeper
        | cons part parts =>
          exact keeps_ite ((harrive _ _).bind hdeeper) ((keeps_pure _).bind hdeeper)

/-- Looking for the files of a text changes nothing. -/
lemma keeps_filesOf (text : String) : Keeps (filesOf directory text) := by
  have hfiles (found : List String) : Keeps (do
      let files ← found.filterM fun path => return !(← directory.isDirectory path)
      return if files.isEmpty then [text] else files) :=
    (keeps_filterM (fun path => (hlook.isDirectory path).bind fun _ => keeps_pure _) found).bind
      fun files => keeps_pure _
  rw [filesOf]
  cases Pattern.parse? text.toList with
  | none => exact (keeps_pure _).bind hfiles
  | some pattern => exact (keeps_search hlook _ _ _ _).bind hfiles

/-- What is found for texts is what is found for each of them, and finding it changes nothing. -/
lemma run_findAll (texts : List String) (state : σ) :
    (findAll directory texts).run state =
      (distinctPaths (texts.flatMap fun text => ((filesOf directory text).run state).1),
        state) := by
  rw [findAll, run_bind_of_run (run_concatM (keeps_filesOf hlook) texts state)]
  rfl

/-- Looking for the files of many texts changes nothing. -/
lemma keeps_findAll (texts : List String) : Keeps (findAll directory texts) := by
  intro state
  rw [run_findAll hlook]

end Looks

/-! ## Names that stand for themselves -/

/-- No slashes and no wildcards. -/
def IsPlain (text : Text) : Prop :=
  ∀ c ∈ text, c ∉ ['/', '?', '*', '[']

instance (text : Text) : Decidable (IsPlain text) :=
  List.decidableBAll _ _

/-- The tokens of a plain name are its characters. -/
lemma tokens?_of_isPlain {text : Text} (h : IsPlain text) (inName : Bool) :
    tokens? inName text = some (text.map .char) := by
  induction text generalizing inName with
  | nil => rw [tokens?, List.map_nil]
  | cons c rest ih =>
    obtain ⟨hc, hrest⟩ := List.forall_mem_cons.1 h
    simp only [List.mem_cons, List.not_mem_nil, or_false, not_or] at hc
    rw [tokens?, ih hrest, Option.map_some, List.map_cons]
    all_goals simp [hc]

/-- Tokens for characters alone stand for their text. -/
lemma plainText?_map_char (text : Text) : plainText? (text.map .char) = some text := by
  induction text with
  | nil => rfl
  | cons c rest ih =>
    rw [plainText?] at ih ⊢
    rw [List.map_cons, List.mapM_cons, ih]
    rfl

/-- A part made of characters alone is a name. -/
lemma ofTokens_map_char (text : Text) : Part.ofTokens (text.map .char) = .name text := by
  have hdepth : text.map Token.char ≠ [.anyDepth] := by
    intro h
    have hmem : Token.anyDepth ∈ text.map Token.char := by
      rw [h]
      exact List.mem_singleton.2 rfl
    simp at hmem
  rw [Part.ofTokens, if_neg hdepth, plainText?_map_char]

/-- A text without slashes and wildcards is a pattern of one name. -/
lemma parse?_of_isPlain {text : Text} (h : IsPlain text) :
    Pattern.parse? text = some ⟨false, [.name text], false⟩ := by
  cases text with
  | nil =>
    rw [Pattern.parse?, tokens?_of_isPlain h]
    rfl
  | cons c rest =>
    have hslash : '/' ∉ c :: rest := fun hmem => h '/' hmem List.mem_cons_self
    have hc : c ≠ '/' := fun heq => hslash (by simp [heq])
    have hrelative : (c :: rest).dropWhile (· = '/') = c :: rest :=
      List.dropWhile_cons_of_neg (by simpa using hc)
    have hnames : splitNames (c :: rest) = [c :: rest] := by
      rw [splitNames, List.splitOn_eq_singleton hslash, List.getLast?_singleton, if_neg (by simp)]
    have hlast : (c :: rest).getLast? ≠ some '/' := fun hlast =>
      hslash (List.mem_of_getLast? hlast)
    rw [Pattern.parse?, hrelative, tokens?_of_isPlain h]
    dsimp only
    rw [hnames, List.mapM_cons, tokens?_of_isPlain h, Option.map_some, ofTokens_map_char,
      decide_eq_false hlast, List.head?_cons, decide_eq_false (by simpa using hc)]
    rfl

section Found

variable {σ : Type} {directory : Directory (StateM σ)} (hlook : directory.LawfulReads)

include hlook

/-- A search for a name finds it or nothing, and changes nothing. -/
lemma run_search_name (fuel : Nat) (name : String) (state : σ) :
    ∃ found ∈ [[], [name]],
      (search directory false (fuel + 1) "." [.name name.toList]).run state = (found, state) := by
  have harrive (present : Bool) : ∃ found ∈ [[], [name]],
      StateT.run (if present = true then
        arrive directory false fuel (childPath "." name) [] else pure []) state =
      (found, state) := by
    cases present with
    | false => exact ⟨[], List.mem_cons_self, rfl⟩
    | true =>
      refine ⟨[name], List.mem_cons_of_mem _ List.mem_cons_self, ?_⟩
      have hdot : Path.steps "." = ["."] := by decide +kernel
      rw [childPath, if_pos hdot, if_pos rfl, arrive, if_pos List.isEmpty_nil]
      exact run_bind_of_run ((hlook.isDirectory _).run_eq state) _
  rw [search, run_bind_of_run ((hlook.isDirectory ".").run_eq state)]
  dsimp only
  rw [String.ofList_toList]
  split
  · exact harrive _
  · rw [run_bind_of_run ((hlook.isPresent _).run_eq state)]
    exact harrive _

/-- A text without slashes and wildcards stands for itself, whether it is there or not. -/
lemma run_filesOf_name {name : String} (h : IsPlain name.toList) (state : σ) :
    (filesOf directory name).run state = ([name], state) := by
  obtain ⟨found, hfound, hrun⟩ := run_search_name hlook depthLimit name state
  rw [Nat.add_comm] at hrun
  rw [filesOf, parse?_of_isPlain h]
  refine (run_bind_of_run hrun _).trans ?_
  simp only [List.mem_cons, List.not_mem_nil, or_false] at hfound
  rcases hfound with rfl | rfl
  · rfl
  · simp only [List.filterM, List.filterAuxM, bind_assoc, pure_bind]
    rw [run_bind_of_run ((hlook.isDirectory _).run_eq state)]
    cases ((directory.isDirectory name).run state).1 with
    | false => rfl
    | true => rfl

end Found

end Glob

end CssPrune
