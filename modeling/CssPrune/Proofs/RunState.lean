import CssPrune.Proofs.Runs

/-!
# The state of a run

What a run holds at any time (`Session.wellFormed_from_start`): its stylesheets are well formed, and
so are the tokens of its documents. These begin with the universal selector, none comes twice, and
none is empty or holds a blank, for a document only adds words between marks without blanks.
-/

namespace CssPrune

/-! ## Tokens -/

namespace Text

/-- Texts without blanks one behind the other have none. -/
lemma noBlank_append {first second : Text} (hfirst : NoBlank first) (hsecond : NoBlank second) :
    NoBlank (first ++ second) := List.forall_mem_append.2 ⟨hfirst, hsecond⟩

/-- A word holds no blank. -/
lemma noBlank_of_mem_words {word text : Text} (h : word ∈ words text) : NoBlank word := by
  induction text using wordInduction with
  | nil => simp at h
  | blank c rest hc ih =>
    rw [words_cons_blank hc] at h
    exact ih h
  | word text hne hword =>
    rw [words_of_noBlank hne hword] at h
    obtain rfl := List.mem_singleton.1 h
    exact hword
  | split text c rest hne hword hc ih =>
    rw [words_append_blank hc, words_of_noBlank hne hword] at h
    rcases List.mem_append.1 h with h | h
    · obtain rfl := List.mem_singleton.1 h
      exact hword
    · exact ih h

end Text

/-- A text that can stand as a token. -/
structure IsTokenText (text : Text) : Prop where
  nonempty : text ≠ []
  noBlank : Text.NoBlank text

namespace Html

/-- The marks around tokens hold no blank. -/
lemma noBlank_of_mem_extractions :
    ∀ extraction ∈ extractions,
      Text.NoBlank extraction.opening ∧ Text.NoBlank extraction.closing := by
  decide

/-- The tokens of a document are texts of tokens. -/
lemma isTokenText_of_mem_documentTokens {document token : Text}
    (h : token ∈ documentTokens document) : IsTokenText token := by
  obtain ⟨extraction, hextraction, htoken⟩ := List.mem_flatMap.1 h
  obtain ⟨found, -, htoken⟩ := List.mem_flatMap.1 htoken
  obtain ⟨fragment, hfragment, rfl⟩ := List.mem_map.1 htoken
  obtain ⟨hopening, hclosing⟩ := noBlank_of_mem_extractions extraction hextraction
  constructor
  · simp [Text.mem_words hfragment]
  · have hword := Text.noBlank_of_mem_words hfragment
    exact Text.noBlank_append (Text.noBlank_append hopening hword) hclosing

end Html

namespace References

/-- The universal selector stands first, no token occurs twice, and each can stand as such. -/
structure WellFormed (references : References) : Prop where
  first : references.tokens.head? = some universal
  nodup : references.tokens.Nodup
  token : ∀ token ∈ references.tokens, IsTokenText token

variable {references : References}

/-- The references at the start are well formed. -/
lemma wellFormed_initial : initial.WellFormed where
  first := rfl
  nodup := List.nodup_singleton _
  token := by
    intro token hmem
    obtain rfl := List.mem_singleton.1 hmem
    exact ⟨List.cons_ne_nil _ _, by decide⟩

/-- Inserting the text of a token keeps the references well formed. -/
lemma WellFormed.insert (h : references.WellFormed) {token : Text} (htoken : IsTokenText token) :
    (references.insert token).WellFormed := by
  rw [References.insert]
  split
  · exact h
  · rename_i hnew
    rw [contains_iff_mem] at hnew
    constructor
    · rw [List.head?_append, h.first]
      rfl
    · exact List.nodup_append.2 ⟨h.nodup, List.nodup_singleton _, by
        rintro a ha b hb rfl
        exact hnew (List.mem_singleton.1 hb ▸ ha)⟩
    · intro other hmem
      rcases List.mem_append.1 hmem with hmem | hmem
      · exact h.token other hmem
      · obtain rfl := List.mem_singleton.1 hmem
        exact htoken

/-- Inserting the texts of tokens keeps the references well formed. -/
lemma WellFormed.insertAll (h : references.WellFormed) {tokens : List Text}
    (htokens : ∀ token ∈ tokens, IsTokenText token) : (references.insertAll tokens).WellFormed := by
  induction tokens generalizing references with
  | nil => exact h
  | cons token tokens ih =>
    obtain ⟨htoken, hrest⟩ := List.forall_mem_cons.1 htokens
    exact ih (h.insert htoken) hrest

/-- Scanning a document keeps the references well formed. -/
lemma WellFormed.scan (h : references.WellFormed) (document : Text) :
    (references.scan document).WellFormed :=
  h.insertAll fun _ => Html.isTokenText_of_mem_documentTokens

end References

/-! ## Steps -/

namespace Session

/-- The stylesheets and the tokens of a run are well formed. -/
structure WellFormed (session : Session) : Prop where
  sheets : session.sheets.WellFormed
  references : session.references.WellFormed

/-- Only a document adds tokens. -/
lemma references_step (session : Session) (step : Step) :
    (session.step step).references =
      match step with
      | .document html => session.references.scan html
      | _ => session.references := by
  cases step with
  | document html => rfl
  | sheet name css => exact references_report _ _
  | inline css => exact references_report _ _
  | prune => exact references_report _ _

/-- A step keeps the session well formed. -/
lemma WellFormed.step {session : Session} (h : session.WellFormed) (step : Step) :
    (session.step step).WellFormed := by
  refine ⟨wellFormed_step h.sheets step, ?_⟩
  rw [references_step]
  cases step with
  | document html => exact h.references.scan html
  | sheet name css => exact h.references
  | inline css => exact h.references
  | prune => exact h.references

/-- A run keeps the session well formed. -/
lemma WellFormed.run {session : Session} (h : session.WellFormed) (steps : List Step) :
    (session.run steps).WellFormed := by
  induction steps generalizing session with
  | nil => exact h
  | cons step steps ih => exact ih (h.step step)

/-- Whatever the steps of a run are, no name, scope or selector list of its stylesheets occurs
twice, each text can stand where it stands and each rule has declarations; and the tokens begin with
the universal selector, without repetitions, empty tokens or blanks. -/
theorem wellFormed_from_start (settings : Settings) (steps : List Step) :
    ((start settings).run steps).WellFormed :=
  WellFormed.run ⟨wellFormed_start settings, References.wellFormed_initial⟩ steps

end Session

end CssPrune
