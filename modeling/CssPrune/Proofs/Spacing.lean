import CssPrune.Proofs.CommentScan

/-!
# Spacing

Blanks and closed comments may stand between any two parts of a stylesheet. A comment is taken out
without a trace, and a pair that ends a line may lie across the border of a part. So what is left of
a part between fillers is not its text, but `exists_bare_around` says that it has the same words,
and that it is empty only if nothing but comments stood there.
-/

namespace CssPrune.Css

/-! ## Line ends -/

/-- Making line ends uniform keeps the words, also those that begin in front of the text. -/
lemma words_append_unifyLineEnds (front text : Text) :
    Text.words (front ++ unifyLineEnds text) = Text.words (front ++ text) := by
  fun_induction unifyLineEnds text generalizing front with
  | case1 => rfl
  | case2 c rest hpair ih =>
    obtain ⟨rfl, hhead⟩ := hpair
    obtain ⟨rest, rfl⟩ := List.head?_eq_some_iff.1 hhead
    rw [ih, Text.words_append_blank (by decide), Text.words_append_blank (by decide),
      Text.words_cons_blank (by decide)]
  | case3 c rest hpair hend ih =>
    have hblank : Text.isBlank c = true := by
      rcases hend with rfl | rfl
      · decide
      · decide
    have hrest := ih []
    rw [List.nil_append, List.nil_append] at hrest
    rw [Text.words_append_blank (by decide), Text.words_append_blank hblank, hrest]
  | case4 c rest hpair hend ih =>
    have hmore := ih (front ++ [c])
    rw [List.append_assoc, List.append_assoc] at hmore
    exact hmore

/-- Making line ends uniform keeps the words. -/
lemma collapse_unifyLineEnds (text : Text) :
    Text.collapse (unifyLineEnds text) = Text.collapse text := by
  apply Text.collapse_congr
  exact words_append_unifyLineEnds [] text

/-- Making line ends uniform keeps which words without blanks a text holds. -/
lemma infix_unifyLineEnds_iff {word : Text} (h : Text.NoBlank word) (text : Text) :
    word <:+: unifyLineEnds text ↔ word <:+: text := by
  rw [← Text.infix_collapse_iff h, collapse_unifyLineEnds, Text.infix_collapse_iff h]

/-- Making line ends uniform leaves something of every text that is not empty. -/
lemma unifyLineEnds_eq_nil_iff {text : Text} : unifyLineEnds text = [] ↔ text = [] := by
  fun_induction unifyLineEnds text with
  | case1 => simp
  | case2 c rest hpair ih =>
    obtain ⟨-, hhead⟩ := hpair
    obtain ⟨rest, rfl⟩ := List.head?_eq_some_iff.1 hhead
    simpa using ih
  | case3 c rest hpair hend ih => simp
  | case4 c rest hpair hend ih => simp

/-- Only a line feed reaches over to what stands in front of it. -/
lemma unifyLineEnds_append {rest : Text} (h : rest.head? ≠ some '\n') (text : Text) :
    unifyLineEnds (text ++ rest) = unifyLineEnds text ++ unifyLineEnds rest := by
  induction text with
  | nil => rfl
  | cons c text ih =>
    have hpair : (c = '\r' ∧ (text ++ rest).head? = some '\n') ↔
        (c = '\r' ∧ text.head? = some '\n') := by
      cases text with
      | nil => simp [h]
      | cons d text => rfl
    rw [List.cons_append, unifyLineEnds, unifyLineEnds, ih]
    simp only [hpair]
    split_ifs with hboth hend
    · rfl
    · rfl
    · rfl

/-! ## What is left -/

/-- A character that ends no line and belongs to no mark of a comment. -/
def IsFirm (c : Char) : Prop :=
  c ∉ ['\r', '\n', '\x0c', '/', '*']

instance (c : Char) : Decidable (IsFirm c) := inferInstanceAs (Decidable (c ∉ _))

/-- With uniform line ends and without its comments, the text is `bare`. -/
def Leaves (text bare : Text) : Prop :=
  stripComments id (unifyLineEnds text) = ⟨bare, none⟩

/-- The text is `bare` in front of a firm character or a comment, and at the end. -/
def LeavesBefore (text bare : Text) : Prop :=
  ∀ rest behind, (∀ c ∈ rest.head?, c = '/' ∨ IsFirm c) → Leaves rest behind →
    Leaves (text ++ rest) (bare ++ behind)

/-- A character that ends no line stays in front of what follows it. -/
lemma unifyLineEnds_cons {c : Char} (h : c = '/' ∨ c = '*' ∨ IsFirm c) (rest : Text) :
    unifyLineEnds (c :: rest) = c :: unifyLineEnds rest := by
  have hend : c ≠ '\r' ∧ c ≠ '\x0c' := by
    rcases h with rfl | rfl | hfirm
    · decide
    · decide
    · exact ⟨fun heq => hfirm (by simp [heq]), fun heq => hfirm (by simp [heq])⟩
  rw [unifyLineEnds, if_neg fun hpair => hend.1 hpair.1, if_neg (not_or.2 hend)]

/-- A stretch that opens no comment is kept. -/
lemma leavesBefore_unifyLineEnds {text : Text} (h : ¬ commentMark <:+: text) :
    LeavesBefore text (unifyLineEnds text) := by
  intro rest behind hfirst hrest
  have hmark : ¬ commentMark <:+: unifyLineEnds text := by
    rwa [infix_unifyLineEnds_iff noBlank_commentMark]
  have hfeed : rest.head? ≠ some '\n' := by
    intro hhead
    rcases hfirst _ hhead with heq | hfirm
    · cases heq
    · exact hfirm (by decide)
  have hstar : (unifyLineEnds rest).head? ≠ some '*' := by
    cases rest with
    | nil => nofun
    | cons c rest =>
      rw [unifyLineEnds_cons ((hfirst c rfl).imp_right Or.inr)]
      intro hhead
      obtain rfl := Option.some.inj hhead
      rcases hfirst _ rfl with heq | hfirm
      · cases heq
      · exact hfirm (by decide)
  rw [Leaves, unifyLineEnds_append hfeed, stripComments, stripFrom_append hmark hstar, stripFrom_eq,
    ← stripComments, hrest]
  simp

namespace Leaves

variable {rest behind : Text}

/-- A firm character is left in front of what follows it. -/
lemma cons {c : Char} (hc : IsFirm c) (h : Leaves rest behind) :
    Leaves (c :: rest) (c :: behind) := by
  have hslash : c ≠ '/' := fun heq => hc (by simp [heq])
  rw [Leaves, unifyLineEnds_cons (.inr (.inr hc)), stripComments_cons hslash, h]

/-- A word of firm characters is left in front of what follows it. -/
lemma word {word : Text} (hword : ∀ c ∈ word, IsFirm c) (h : Leaves rest behind) :
    Leaves (word ++ rest) (word ++ behind) := by
  induction word with
  | nil => exact h
  | cons c word ih =>
    obtain ⟨hc, hword⟩ := List.forall_mem_cons.1 hword
    exact cons hc (ih hword)

/-- A closed comment leaves nothing. -/
lemma comment {body : Text} (hbody : ¬ ['*', '/'] <:+: body) (h : Leaves rest behind) :
    Leaves ('/' :: '*' :: (body ++ '*' :: '/' :: rest)) behind := by
  have hclosed : ¬ ['*', '/'] <:+: unifyLineEnds body := by
    rwa [infix_unifyLineEnds_iff]
    decide
  have hend : unifyLineEnds ('*' :: '/' :: rest) = '*' :: '/' :: unifyLineEnds rest := by
    rw [unifyLineEnds_cons (.inr (.inl rfl)), unifyLineEnds_cons (.inl rfl)]
  rw [Leaves, unifyLineEnds_cons (.inl rfl), unifyLineEnds_cons (.inr (.inl rfl)),
    unifyLineEnds_append (by simp), hend, stripComments,
    stripFrom_closed [] rfl (afterComment?_append hclosed _)]
  exact h

end Leaves

/-! ## Fillers -/

/-- What may stand between two parts of a stylesheet. -/
inductive Filler where
  | blanks (text : Text)
  | comment (body : Text)

namespace Filler

/-- A filler as it is written. -/
def text : Filler → Text
  | blanks text => text
  | comment body => '/' :: '*' :: (body ++ ['*', '/'])

/-- Fillers as they are written, one behind the other. -/
def textAll (fillers : List Filler) : Text :=
  fillers.flatMap text

/-- A filler once comments are removed. -/
def bare : Filler → Text
  | blanks text => text
  | comment _ => []

/-- What is left of fillers without their comments. -/
def bareAll (fillers : List Filler) : Text :=
  fillers.flatMap bare

/-- Blanks are blank, and a comment ends at its first `*/`. -/
def WellFormed : Filler → Prop
  | blanks text => Text.AllBlank text
  | comment body => ¬ ['*', '/'] <:+: body

instance : (filler : Filler) → Decidable filler.WellFormed
  | blanks _ => inferInstanceAs (Decidable (Text.AllBlank _))
  | comment _ => inferInstanceAs (Decidable (¬ _))

end Filler

/-- Blanks behind a text begin no comment. -/
lemma not_mark_append_blanks {text blanks : Text} (h : ¬ commentMark <:+: text)
    (hblanks : Text.AllBlank blanks) : ¬ commentMark <:+: text ++ blanks := by
  rw [← Text.infix_collapse_iff noBlank_commentMark, Text.collapse_append_allBlank _ hblanks]
  rwa [Text.infix_collapse_iff noBlank_commentMark]

/-- A comment is taken out of what stands around it. -/
lemma leavesBefore_comment {run bare body text : Text} (hbody : ¬ ['*', '/'] <:+: body)
    (hrun : ¬ commentMark <:+: run) (h : LeavesBefore text bare) :
    LeavesBefore (run ++ ((Filler.comment body).text ++ text)) (unifyLineEnds run ++ bare) := by
  intro rest behind hfirst hrest
  have hcomment := (h rest behind hfirst hrest).comment hbody
  have hleaves := leavesBefore_unifyLineEnds hrun _ _ (by simp) hcomment
  simpa [Filler.text] using hleaves

/-- Fillers behind a stretch leave its words. -/
lemma exists_bare_behind {run : Text} (hrun : ¬ commentMark <:+: run) {fillers : List Filler}
    (h : ∀ filler ∈ fillers, filler.WellFormed) :
    ∃ bare, LeavesBefore (run ++ Filler.textAll fillers) bare ∧
      Text.collapse bare = Text.collapse run ∧
      (bare = [] ↔ run ++ Filler.bareAll fillers = []) := by
  induction fillers generalizing run with
  | nil =>
    refine ⟨unifyLineEnds run, ?_, collapse_unifyLineEnds run, ?_⟩
    · simpa [Filler.textAll] using leavesBefore_unifyLineEnds hrun
    · simp [Filler.bareAll, unifyLineEnds_eq_nil_iff]
  | cons filler fillers ih =>
    obtain ⟨hfiller, hfillers⟩ := List.forall_mem_cons.1 h
    cases filler with
    | blanks text =>
      obtain ⟨bare, hleaves, hwords, hempty⟩ := ih (not_mark_append_blanks hrun hfiller) hfillers
      rw [Text.collapse_append_allBlank _ hfiller] at hwords
      rw [List.append_assoc] at hleaves hempty
      exact ⟨bare, hleaves, hwords, hempty⟩
    | comment body =>
      obtain ⟨bare, hleaves, hwords, hempty⟩ := @ih [] (by simp [commentMark]) hfillers
      refine ⟨unifyLineEnds run ++ bare, leavesBefore_comment hfiller hrun hleaves, ?_, ?_⟩
      · rw [Text.collapse_append_allBlank, collapse_unifyLineEnds]
        rw [← Text.collapse_eq_nil_iff, hwords, Text.collapse_nil]
      · rw [List.append_eq_nil_iff, hempty, unifyLineEnds_eq_nil_iff, List.nil_append,
          List.append_eq_nil_iff]
        rfl

/-- Blanks stay blank with uniform line ends. -/
lemma allBlank_unifyLineEnds {text : Text} (h : Text.AllBlank text) :
    Text.AllBlank (unifyLineEnds text) := by
  rw [← Text.collapse_eq_nil_iff, collapse_unifyLineEnds]
  exact Text.collapse_of_allBlank h

/-- Blanks in front of a text begin no comment. -/
lemma not_mark_blanks_append {blanks text : Text} (hblanks : Text.AllBlank blanks)
    (h : ¬ commentMark <:+: text) : ¬ commentMark <:+: blanks ++ text := by
  rwa [Text.infix_allBlank_append_iff noBlank_commentMark (by decide) hblanks]

/-- Fillers on both sides of a stretch leave its words, and nothing only if they are comments. -/
theorem exists_bare_around {blanks core : Text} (hblanks : Text.AllBlank blanks)
    (hcore : ¬ commentMark <:+: core) {before behind : List Filler}
    (hbefore : ∀ filler ∈ before, filler.WellFormed)
    (hbehind : ∀ filler ∈ behind, filler.WellFormed) :
    ∃ bare,
      LeavesBefore (blanks ++ (Filler.textAll before ++ (core ++ Filler.textAll behind))) bare ∧
      Text.collapse bare = Text.collapse core ∧
      (bare = [] ↔ blanks ++ (Filler.bareAll before ++ (core ++ Filler.bareAll behind)) = []) := by
  -- the blanks behind the last comment belong to the stretch of the core
  induction before generalizing blanks with
  | nil =>
    obtain ⟨bare, hleaves, hwords, hempty⟩ :=
      exists_bare_behind (not_mark_blanks_append hblanks hcore) hbehind
    rw [Text.collapse_allBlank_append hblanks] at hwords
    rw [List.append_assoc] at hleaves hempty
    exact ⟨bare, hleaves, hwords, hempty⟩
  | cons filler before ih =>
    obtain ⟨hfiller, hothers⟩ := List.forall_mem_cons.1 hbefore
    cases filler with
    | blanks text =>
      obtain ⟨bare, hleaves, hwords, hempty⟩ :=
        ih (Text.allBlank_append.2 ⟨hblanks, hfiller⟩) hothers
      rw [List.append_assoc, ← List.append_assoc text] at hleaves hempty
      exact ⟨bare, hleaves, hwords, hempty⟩
    | comment body =>
      obtain ⟨bare, hleaves, hwords, hempty⟩ := ih Text.allBlank_nil hothers
      have hmark : ¬ commentMark <:+: blanks := by
        simpa using @not_mark_blanks_append blanks [] hblanks (by simp [commentMark])
      refine ⟨unifyLineEnds blanks ++ bare, ?_, ?_, ?_⟩
      · rw [Filler.textAll, List.flatMap_cons, List.append_assoc]
        exact leavesBefore_comment hfiller hmark hleaves
      · rw [Text.collapse_allBlank_append (allBlank_unifyLineEnds hblanks), hwords]
      · rw [List.append_eq_nil_iff, hempty, unifyLineEnds_eq_nil_iff, List.nil_append,
          ← List.append_eq_nil_iff]
        rfl

/-- Well formed fillers leave blanks. -/
lemma exists_blanks {fillers : List Filler} (h : ∀ filler ∈ fillers, filler.WellFormed) :
    ∃ bare, Text.AllBlank bare ∧ LeavesBefore (Filler.textAll fillers) bare := by
  obtain ⟨bare, hleaves, hwords, -⟩ := @exists_bare_behind [] (by simp [commentMark]) _ h
  refine ⟨bare, ?_, hleaves⟩
  rw [← Text.collapse_eq_nil_iff, hwords, Text.collapse_nil]

end CssPrune.Css
