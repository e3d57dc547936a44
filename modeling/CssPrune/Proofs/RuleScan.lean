import CssPrune.Proofs.PlainReading
import CssPrune.Proofs.Words

/-!
# The scan for rules

How the rules of a text depend on its parts. A closing brace always ends what was being read, so
the rules of a text are those of its stretches up to each closing brace, one after the other
(`rawRules_append_close`), and text without a closing brace gives none. Blanks at the ends of a
text count only where an opening brace follows the first ones (`ruleContents_trim`).
-/

namespace CssPrune.Css

/-! ## Items of any kind -/

section Items

variable {α : Type} {char : α → Char}

/-- One step of the scan: what the item completes, then the rules from the next state on. -/
lemma rules_cons (state : RuleState α) (a : α) (rest : List α) :
    state.rules char (a :: rest) =
      (state.step char a).2.toList ++ (state.step char a).1.rules char rest := by
  rw [RuleState.rules]
  rcases state.step char a with ⟨next, _ | rule⟩ <;> rfl

/-- Only a closing brace completes a rule. -/
lemma rule_of_ne_close {a : α} (h : char a ≠ '}') (state : RuleState α) :
    (state.step char a).2 = none := by
  cases state with
  | outside run =>
    cases run with
    | nil => simp only [RuleState.step]; split <;> rfl
    | cons b run => simp only [RuleState.step]; split <;> [rfl; (split <;> rfl)]
  | opening selector brace repeated =>
    simp only [RuleState.step, h, if_false]
    split <;> rfl
  | body selector declarations =>
    simp only [RuleState.step, h, if_false]

/-- Without a closing brace no rule ends, whatever its items are. -/
lemma rules_eq_nil_of_no_close {items : List α} (h : ∀ a ∈ items, char a ≠ '}')
    (state : RuleState α) : state.rules char items = [] := by
  induction items generalizing state with
  | nil => rfl
  | cons a rest ih =>
    obtain ⟨ha, hrest⟩ := List.forall_mem_cons.1 h
    rw [rules_cons, rule_of_ne_close ha, ih hrest]
    rfl

/-- Outside of rules, all but an opening brace leads outside again. -/
lemma exists_step_outside {a : α} (h : char a ≠ '{') (run : List α) :
    ∃ next, (RuleState.outside run).step char a = (.outside next, none) := by
  by_cases hend : char a = '}' ∨ char a = ';'
  · refine ⟨[], ?_⟩
    cases run <;> simp [RuleState.step, h, hend]
  · refine ⟨a :: run, ?_⟩
    cases run <;> simp [RuleState.step, h, hend]

/-- Without an opening brace no rule begins. -/
lemma rules_eq_nil_of_no_open {items : List α} (h : ∀ a ∈ items, char a ≠ '{') (run : List α) :
    (RuleState.outside run).rules char items = [] := by
  induction items generalizing run with
  | nil => rfl
  | cons a rest ih =>
    obtain ⟨ha, hrest⟩ := List.forall_mem_cons.1 h
    obtain ⟨next, hnext⟩ := exists_step_outside ha run
    rw [rules_cons, hnext, ih hrest]
    rfl

/-- The declarations up to a closing brace. -/
lemma rules_body_close {items : List α} (h : ∀ a ∈ items, char a ≠ '}') {close : α}
    (hclose : char close = '}') (selector declarations rest : List α) :
    (RuleState.body selector declarations).rules char (items ++ close :: rest) =
      ⟨selector, declarations.reverse ++ items⟩ :: rawRules char rest := by
  induction items generalizing declarations with
  | nil => simp [rules_cons, RuleState.step, rawRules, hclose]
  | cons a items ih =>
    obtain ⟨ha, hitems⟩ := List.forall_mem_cons.1 h
    rw [List.cons_append, rules_cons]
    simp only [RuleState.step, ha, if_false]
    rw [ih hitems]
    simp

end Items

/-! ## Closing braces -/

/-- A closing brace ends what was being read. -/
lemma step_close (state : RuleState Char) : (state.step id '}').1 = .outside [] := by
  cases state with
  | outside run => cases run <;> rfl
  | opening selector brace repeated => rfl
  | body selector declarations => rfl

/-- Without a closing brace no rule ends. -/
lemma rules_of_no_close {text : Text} (h : '}' ∉ text) (state : RuleState Char) :
    state.rules id text = [] := by
  apply rules_eq_nil_of_no_close
  rintro _ hmem rfl
  exact h hmem

/-- A tail without a closing brace adds no rule. -/
lemma rules_append_of_no_close {back : Text} (h : '}' ∉ back) (state : RuleState Char)
    (text : Text) : state.rules id (text ++ back) = state.rules id text := by
  induction text generalizing state with
  | nil => exact rules_of_no_close h state
  | cons c rest ih => rw [List.cons_append, rules_cons, ih, rules_cons]

/-- Behind a closing brace the scan starts anew. -/
lemma rules_append_close (state : RuleState Char) (text rest : Text) :
    state.rules id (text ++ '}' :: rest) = state.rules id (text ++ ['}']) ++ rawRules id rest := by
  induction text generalizing state with
  | nil =>
    rw [List.nil_append, List.nil_append, rules_cons, step_close, rules_cons, step_close]
    simp [rawRules, RuleState.rules]
  | cons c text ih =>
    rw [List.cons_append, List.cons_append, rules_cons, ih, rules_cons, List.append_assoc]

/-- The rules of a text that ends with a closing brace come before those of what follows it. -/
lemma rawRules_append_close (text rest : Text) :
    rawRules id (text ++ ['}'] ++ rest) = rawRules id (text ++ ['}']) ++ rawRules id rest := by
  rw [List.append_assoc]
  exact rules_append_close (.outside []) text rest

/-- Without an opening brace no rule begins. -/
lemma rules_of_no_open {text : Text} (h : '{' ∉ text) (run : Text) :
    (RuleState.outside run).rules id text = [] := by
  apply rules_eq_nil_of_no_open
  rintro _ hmem rfl
  exact h hmem

/-- An opening brace with nothing in front of it is passed over. -/
lemma rawRules_cons_open (rest : Text) : rawRules id ('{' :: rest) = rawRules id rest := rfl

/-! ## The run in front of an opening brace -/

/-- The characters that a selector list can hold. -/
def IsPlain (c : Char) : Prop :=
  c ≠ '{' ∧ c ≠ '}' ∧ c ≠ ';'

instance (c : Char) : Decidable (IsPlain c) :=
  inferInstanceAs (Decidable (_ ∧ _))

/-- A character that is not plain is a brace or a semicolon. -/
lemma not_isPlain_iff {c : Char} : ¬ IsPlain c ↔ c = '{' ∨ c = '}' ∨ c = ';' := by
  rw [IsPlain]
  tauto

/-- A blank is plain. -/
lemma isPlain_of_isBlank {c : Char} (h : Text.isBlank c = true) : IsPlain c := by
  refine ⟨?_, ?_, ?_⟩ <;> (rintro rfl; revert h; decide)

section Items

variable {α : Type} {char : α → Char}

/-- A plain item extends the run. -/
lemma step_outside_of_plain {a : α} (h : IsPlain (char a)) (run : List α) :
    (RuleState.outside run).step char a = (.outside (a :: run), none) := by
  obtain ⟨hopen, hclose, hsemi⟩ := h
  cases run <;> simp [RuleState.step, hopen, hclose, hsemi]

/-- Items of a selector list extend the run. -/
lemma rules_outside_plain {items : List α} (h : ∀ a ∈ items, IsPlain (char a))
    (run rest : List α) :
    (RuleState.outside run).rules char (items ++ rest) =
      (RuleState.outside (items.reverse ++ run)).rules char rest := by
  induction items generalizing run with
  | nil => rfl
  | cons a items ih =>
    obtain ⟨ha, hitems⟩ := List.forall_mem_cons.1 h
    rw [List.cons_append, rules_cons, step_outside_of_plain ha, ih hitems]
    simp

end Items

/-- A plain character extends the run. -/
lemma step_outside_plain {c : Char} (h : IsPlain c) (run : Text) :
    (RuleState.outside run).step id c = (.outside (c :: run), none) :=
  @step_outside_of_plain _ id c h run

/-- Characters of a selector list extend the run. -/
lemma rules_outside_append {text : Text} (h : ∀ c ∈ text, IsPlain c) (run rest : Text) :
    (RuleState.outside run).rules id (text ++ rest) =
      (RuleState.outside (text.reverse ++ run)).rules id rest :=
  @rules_outside_plain _ id text h run rest

/-- The declarations up to a closing brace. -/
lemma rules_body_append {text : Text} (h : '}' ∉ text) (selector declarations rest : Text) :
    (RuleState.body selector declarations).rules id (text ++ '}' :: rest) =
      ⟨selector, declarations.reverse ++ text⟩ :: rawRules id rest := by
  have hclose : ∀ c ∈ text, id c ≠ '}' := fun c hc heq => h (heq ▸ hc)
  exact rules_body_close hclose rfl selector declarations rest

/-- The rules that a state gives say the same whatever stands in front of its selector list, but
for the first one, whose selector list it begins. -/
def FrontIndependent (state : Text → RuleState Char) (text : Text) : Prop :=
  (∃ rules, ∀ front, (state front).rules id text = rules) ∨
    ∃ tail declarations rules, ∀ front,
      (state front).rules id text = ⟨front ++ tail, declarations⟩ :: rules

/-- The rules of a body begin with its selector list. -/
lemma frontIndependent_body (selector declarations text : Text) :
    FrontIndependent (fun front => .body (front ++ selector) declarations) text := by
  induction text generalizing declarations with
  | nil => exact Or.inl ⟨[], fun _ => rfl⟩
  | cons c rest ih =>
    by_cases hc : c = '}'
    · subst hc
      refine Or.inr ⟨selector, declarations.reverse, rawRules id rest, fun front => ?_⟩
      rfl
    · simpa [FrontIndependent, rules_cons, RuleState.step, hc] using ih (c :: declarations)

/-- The rules behind opening braces begin with their selector list. -/
lemma frontIndependent_opening (selector : Text) (brace : Char) (repeated : Bool) (text : Text) :
    FrontIndependent (fun front => .opening (front ++ selector) brace repeated) text := by
  induction text generalizing brace repeated with
  | nil => exact Or.inl ⟨[], fun _ => rfl⟩
  | cons c rest ih =>
    by_cases hopen : c = '{'
    · subst hopen
      simpa [FrontIndependent, rules_cons, RuleState.step] using ih '{' true
    · by_cases hclose : c = '}'
      · subst hclose
        cases repeated with
        | false => exact Or.inl ⟨rawRules id rest, fun _ => rfl⟩
        | true => exact Or.inr ⟨selector, [brace], rawRules id rest, fun _ => rfl⟩
      · -- the declarations begin here
        simpa [FrontIndependent, rules_cons, RuleState.step, hopen, hclose] using
          frontIndependent_body selector [c] rest

/-- The rules of a run begin with what stands in front of it. -/
lemma frontIndependent_outside (c : Char) (run text : Text) :
    FrontIndependent (fun front => .outside (c :: run ++ front.reverse)) text := by
  induction text generalizing c run with
  | nil => exact Or.inl ⟨[], fun _ => rfl⟩
  | cons a rest ih =>
    by_cases hopen : a = '{'
    · subst hopen
      simpa [FrontIndependent, rules_cons, RuleState.step] using
        frontIndependent_opening (c :: run).reverse '{' false rest
    · by_cases hend : a = '}' ∨ a = ';'
      · refine Or.inl ⟨rawRules id rest, fun _ => ?_⟩
        simp [rules_cons, RuleState.step, hopen, hend, rawRules]
      · simpa [FrontIndependent, rules_cons, RuleState.step, hopen, hend] using ih a (c :: run)

/-! ## The scan brace by brace -/

section Scan

variable {α : Type} {char : α → Char} {front run braces declarations rest : List α}
  {brace close : α}

/-- The end of a statement leads outside of rules. -/
lemma rules_outside_end {last : α} (hfront : ∀ a ∈ front, char a ≠ '{')
    (hlast : char last = '}' ∨ char last = ';') (start : List α) :
    (RuleState.outside start).rules char (front ++ last :: rest) = rawRules char rest := by
  induction front generalizing start with
  | nil =>
    rw [List.nil_append, rules_cons]
    rcases hlast with h | h <;> cases start <;> simp [RuleState.step, h, rawRules]
  | cons a front ih =>
    obtain ⟨ha, hfront⟩ := List.forall_mem_cons.1 hfront
    obtain ⟨next, hnext⟩ := exists_step_outside ha start
    rw [List.cons_append, rules_cons, hnext, ih hfront]
    rfl

/-- The scan comes to the end of a run of plain items. -/
lemma rawRules_run (hrun : ∀ a ∈ run, IsPlain (char a)) :
    rawRules char (run ++ rest) = (RuleState.outside run.reverse).rules char rest := by
  rw [rawRules, rules_outside_plain hrun, List.append_nil]

/-- In front of an opening brace, what counts is the run of plain characters. -/
lemma rawRules_front (hfront : ∀ a ∈ front, char a ≠ '{')
    (hlast : ∀ a ∈ front.getLast?, ¬ IsPlain (char a)) (hrun : ∀ a ∈ run, IsPlain (char a)) :
    rawRules char (front ++ run ++ rest) = (RuleState.outside run.reverse).rules char rest := by
  rw [← rawRules_run hrun]
  rcases List.eq_nil_or_concat' front with rfl | ⟨init, last, rfl⟩
  · rfl
  · have hopen := hfront last (by simp)
    have hend := (not_isPlain_iff.1 (hlast last (by simp))).resolve_left hopen
    rw [List.append_assoc, List.append_assoc, List.singleton_append]
    exact rules_outside_end (fun a ha => hfront a (List.mem_append_left _ ha)) hend []

/-- An opening brace behind a run opens its rule. -/
lemma rules_open_brace (hrun : run ≠ []) (hbrace : char brace = '{') :
    (RuleState.outside run.reverse).rules char (brace :: rest) =
      (RuleState.opening run brace false).rules char rest := by
  obtain ⟨a, back, hback⟩ := List.exists_cons_of_ne_nil (List.reverse_ne_nil_iff.2 hrun)
  have hreverse : (a :: back).reverse = run := by rw [← hback, List.reverse_reverse]
  rw [hback, rules_cons]
  simp [RuleState.step, hbrace, hreverse]

/-- Of several braces the last one is kept. -/
lemma rules_opening_braces (hbraces : ∀ a ∈ braces, char a = '{') (repeated : Bool) :
    (RuleState.opening run brace repeated).rules char (braces ++ rest) =
      (RuleState.opening run (braces.getLastD brace) (repeated || !braces.isEmpty)).rules char
        rest := by
  induction braces generalizing brace repeated with
  | nil => simp
  | cons a braces ih =>
    obtain ⟨ha, hbraces⟩ := List.forall_mem_cons.1 hbraces
    rw [List.cons_append, rules_cons]
    simp only [RuleState.step, ha, if_true]
    rw [ih hbraces, List.getLastD_cons]
    simp

/-- Declarations end at the first closing brace. -/
lemma rules_opening_declarations (hne : declarations ≠ [])
    (hfirst : ∀ a ∈ declarations.head?, char a ≠ '{') (hbody : ∀ a ∈ declarations, char a ≠ '}')
    (hclose : char close = '}') (repeated : Bool) :
    (RuleState.opening run brace repeated).rules char (declarations ++ close :: rest) =
      ⟨run, declarations⟩ :: rawRules char rest := by
  obtain ⟨a, behind, rfl⟩ := List.exists_cons_of_ne_nil hne
  obtain ⟨ha, hbehind⟩ := List.forall_mem_cons.1 hbody
  have hopen := hfirst a rfl
  rw [List.cons_append, rules_cons]
  simp only [RuleState.step, hopen, ha, if_false]
  rw [rules_body_close hbehind hclose]
  rfl

/-- A closing brace right behind the opening ones ends a rule only if they are more than one. -/
lemma rules_opening_close (hclose : char close = '}') (repeated : Bool) :
    (RuleState.opening run brace repeated).rules char (close :: rest) =
      (if repeated then [⟨run, [brace]⟩] else []) ++ rawRules char rest := by
  rw [rules_cons]
  cases repeated <;> simp [RuleState.step, hclose, rawRules]

/-- With nothing in front of it, a character that belongs to no selector list is passed over. -/
lemma rawRules_cons_of_not_plain {a : α} (h : ¬ IsPlain (char a)) :
    rawRules char (a :: rest) = rawRules char rest := by
  rw [rawRules, rules_cons]
  rcases not_isPlain_iff.1 h with h | h | h <;> simp [RuleState.step, h, rawRules]

end Scan

/-! ## Blanks at the ends -/

/-- No character that is not blank belongs to blanks. -/
lemma not_mem_of_allBlank {c : Char} (hc : Text.isBlank c = false) {text : Text}
    (h : Text.AllBlank text) : c ∉ text := fun hmem => by
  simp [h c hmem] at hc

/-- Blanks behind a text say no more. -/
lemma ruleContents_append_allBlank (scope : Scope) (text : Text) {blanks : Text}
    (h : Text.AllBlank blanks) :
    ruleContents scope (text ++ blanks) = ruleContents scope text := by
  rw [ruleContents, rawRules, rules_append_of_no_close (not_mem_of_allBlank (by decide) h)]
  rfl

/-- Blanks in front of a character other than an opening brace do not count. -/
lemma ruleContents_allBlank_append (scope : Scope) {blanks : Text} (h : Text.AllBlank blanks)
    {text : Text} (htext : text.head? ≠ some '{') :
    ruleContents scope (blanks ++ text) = ruleContents scope text := by
  have hplain : ∀ c ∈ blanks, IsPlain c := fun c hc => isPlain_of_isBlank (h c hc)
  rw [ruleContents, rawRules, rules_outside_append hplain, ruleContents, rawRules]
  cases text with
  | nil => rfl
  | cons c rest =>
    have hopen : c ≠ '{' := by simpa using htext
    rw [rules_cons, rules_cons]
    by_cases hend : c = '}' ∨ c = ';'
    · -- the run is dropped, with or without the blanks
      cases blanks.reverse ++ [] <;> rcases hend with rfl | rfl <;> rfl
    · rw [not_or] at hend
      rw [step_outside_plain ⟨hopen, hend⟩, step_outside_plain ⟨hopen, hend⟩]
      obtain ⟨rules, hrules⟩ | ⟨tail, declarations, rules, hrules⟩ :=
        frontIndependent_outside c [] rest
      · have hwith : (RuleState.outside (c :: blanks.reverse)).rules id rest = rules :=
          hrules blanks
        have hwithout : (RuleState.outside [c]).rules id rest = rules := hrules []
        simp [hwith, hwithout]
      · have hwith : (RuleState.outside (c :: blanks.reverse)).rules id rest =
            ⟨blanks ++ tail, declarations⟩ :: rules := hrules blanks
        have hwithout : (RuleState.outside [c]).rules id rest = ⟨tail, declarations⟩ :: rules :=
          hrules []
        simp [hwith, hwithout, Text.collapse_allBlank_append h]

/-- A text opens with a brace exactly if a brace comes first behind its blanks. -/
lemma opensWithBrace_eq_false_iff {text : Text} :
    opensWithBrace id text = false ↔ (Text.trim text).head? ≠ some '{' := by
  have hfirst : opensWithBrace id text = (Text.trim text).head?.any (· = '{') := by
    rw [← Text.find?_eq_head?_trim]
    rfl
  rw [hfirst]
  cases (Text.trim text).head? with
  | none => simp
  | some c => simp

/-- Trimming a text keeps its rules unless it uncovers an opening brace. -/
lemma ruleContents_trim (scope : Scope) {text : Text} (h : opensWithBrace id text = false) :
    ruleContents scope (Text.trim text) = ruleContents scope text := by
  obtain ⟨front, back, hfront, hback, heq⟩ := Text.exists_trim text
  conv_rhs => rw [heq]
  rw [ruleContents_append_allBlank scope _ hback,
    ruleContents_allBlank_append scope hfront (opensWithBrace_eq_false_iff.1 h)]

end CssPrune.Css
