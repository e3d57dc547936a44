import CssPrune.Proofs.PlainReading
import CssPrune.Proofs.Words

/-!
# The scan for comments

A text keeps its characters unless it holds a comment, an opening `/*` with a `*/` behind it
(`withoutComments_eq_self`). Taking comments out never adds a character, and takes slashes out as
soon as there is one (`count_withoutComments_lt`).
-/

namespace CssPrune.Css

/-- An opening mark with a closing mark behind it. -/
def HoldsComment (text : Text) : Prop :=
  ∃ front body back, text = front ++ '/' :: '*' :: (body ++ '*' :: '/' :: back)

/-- The mark that opens a comment. -/
def commentMark : Text := ['/', '*']

/-- The opening mark holds no blank. -/
lemma noBlank_commentMark : Text.NoBlank commentMark := by decide

/-- A comment stays one behind another character. -/
lemma holdsComment_cons {text : Text} (h : HoldsComment text) (c : Char) :
    HoldsComment (c :: text) := by
  obtain ⟨front, body, back, rfl⟩ := h
  exact ⟨c :: front, body, back, rfl⟩

/-! ## The end of a comment -/

/-- A character that begins no closing mark does not end a comment. -/
lemma afterComment?_cons {a : Char} {rest : Text} (h : ¬ (a = '*' ∧ rest.head? = some '/')) :
    afterComment? id (a :: rest) = afterComment? id rest := by
  cases rest with
  | nil => rfl
  | cons b rest =>
    rw [afterComment?, if_neg]
    simpa using h

/-- The first closing mark ends a comment. -/
lemma afterComment?_append {body : Text} (h : ¬ ['*', '/'] <:+: body) (rest : Text) :
    afterComment? id (body ++ '*' :: '/' :: rest) = some rest := by
  induction body with
  | nil => rfl
  | cons a body ih =>
    have hbody : ¬ ['*', '/'] <:+: body := fun hin =>
      h (List.infix_cons hin)
    -- a mark that begins in the body ends in it, for the next character behind it is a star
    have hfirst : ¬ (a = '*' ∧ (body ++ '*' :: '/' :: rest).head? = some '/') := by
      rintro ⟨rfl, hhead⟩
      cases body with
      | nil => simp at hhead
      | cons b body =>
        obtain rfl : b = '/' := by simpa using hhead
        exact h ⟨[], body, rfl⟩
    rw [List.cons_append, afterComment?_cons hfirst, ih hbody]

/-- What ends a comment stands behind a closing mark. -/
lemma exists_of_afterComment? {text rest : Text} (h : afterComment? id text = some rest) :
    ∃ body, text = body ++ '*' :: '/' :: rest := by
  induction text with
  | nil => cases h
  | cons a text ih =>
    by_cases hfirst : a = '*' ∧ text.head? = some '/'
    · obtain ⟨rfl, hhead⟩ := hfirst
      cases text with
      | nil => cases hhead
      | cons b text =>
        obtain rfl : b = '/' := by simpa using hhead
        obtain rfl : text = rest := by simpa [afterComment?] using h
        exact ⟨[], rfl⟩
    · rw [afterComment?_cons hfirst] at h
      obtain ⟨body, rfl⟩ := ih h
      exact ⟨a :: body, rfl⟩

/-- A closing mark ends a comment. -/
lemma afterComment?_ne_none (body rest : Text) :
    afterComment? id (body ++ '*' :: '/' :: rest) ≠ none := by
  induction body with
  | nil => nofun
  | cons a body ih =>
    by_cases hfirst : a = '*' ∧ (body ++ '*' :: '/' :: rest).head? = some '/'
    · obtain ⟨rfl, hhead⟩ := hfirst
      cases body with
      | nil => cases hhead
      | cons b body =>
        obtain rfl : b = '/' := by simpa using hhead
        simp [afterComment?]
    · rwa [List.cons_append, afterComment?_cons hfirst]

/-- A comment is not closed if no closing mark follows. -/
lemma afterComment?_eq_none_iff {text : Text} :
    afterComment? id text = none ↔ ¬ ['*', '/'] <:+: text := by
  constructor
  · rintro hnone ⟨front, back, rfl⟩
    rw [List.append_assoc] at hnone
    exact afterComment?_ne_none front back hnone
  · intro h
    cases hclosed : afterComment? id text with
    | none => rfl
    | some behind =>
      obtain ⟨body, rfl⟩ := exists_of_afterComment? hclosed
      exact absurd ⟨body, behind, by simp⟩ h

/-! ## What is left -/

/-- Only a slash begins a comment. -/
lemma stripComments_cons {c : Char} (hc : c ≠ '/') (text : Text) :
    stripComments id (c :: text) =
      ⟨c :: (stripComments id text).kept, (stripComments id text).unclosed?⟩ := by
  cases text with
  | nil => rw [stripComments, stripComments, stripFrom_singleton, stripFrom_nil]; rfl
  | cons d text =>
    have hmark : ¬ (id c = '/' && id d = '*') = true := by simp [hc]
    rw [stripComments, stripFrom_cons [] hmark, stripFrom_eq]
    rfl

/-- A character that begins no mark of a comment is kept. -/
lemma withoutComments_cons {c : Char} {text : Text} (h : ¬ (c = '/' ∧ text.head? = some '*')) :
    withoutComments (c :: text) = c :: withoutComments text := by
  cases text with
  | nil =>
    rw [withoutComments, withoutComments, stripComments, stripComments, stripFrom_singleton,
      stripFrom_nil]
    rfl
  | cons d text =>
    have hmark : ¬ (id c = '/' && id d = '*') = true := by simpa using h
    rw [withoutComments, stripComments, stripFrom_cons [] hmark, stripFrom_eq]
    rfl

/-- A stretch without an opening mark is kept, whatever follows it. -/
lemma stripFrom_append {text rest : Text} (h : ¬ commentMark <:+: text)
    (hrest : rest.head? ≠ some '*') (kept : Text) :
    stripFrom id kept (text ++ rest) = stripFrom id (text.reverse ++ kept) rest := by
  induction text generalizing kept with
  | nil => rfl
  | cons a text ih =>
    have htext : ¬ commentMark <:+: text := fun hin =>
      h (List.infix_cons hin)
    have hkept : (a :: text).reverse ++ kept = text.reverse ++ (a :: kept) := by simp
    rw [hkept, ← ih htext (a :: kept), List.cons_append]
    cases hall : text ++ rest with
    | nil => rw [stripFrom_singleton, stripFrom_nil, List.reverse_cons]
    | cons b tail =>
      apply stripFrom_cons
      intro hab
      obtain ⟨rfl, rfl⟩ : a = '/' ∧ b = '*' := by simpa using hab
      cases text with
      | nil => exact hrest (congrArg List.head? hall)
      | cons c text =>
        obtain rfl : c = '*' := (List.cons.inj hall).1
        exact h ⟨[], text, rfl⟩

/-- Without an opening mark there is no comment, closed or not. -/
lemma stripFrom_of_no_mark {text : Text} (h : ¬ commentMark <:+: text) (kept : Text) :
    stripFrom id kept text = ⟨kept.reverse ++ text, none⟩ := by
  have happend := @stripFrom_append text [] h nofun kept
  rw [List.append_nil, stripFrom_nil, List.reverse_append, List.reverse_reverse] at happend
  exact happend

/-- A text without an opening mark is left as it is, and nothing is unclosed. -/
lemma stripComments_of_no_mark {text : Text} (h : ¬ commentMark <:+: text) :
    stripComments id text = ⟨text, none⟩ :=
  stripFrom_of_no_mark h []

/-- A text without an opening mark is left as it is. -/
lemma withoutComments_of_no_mark {text : Text} (h : ¬ commentMark <:+: text) :
    withoutComments text = text := by
  rw [withoutComments, stripComments_of_no_mark h]

section Kept

variable (kept : Text) {text : Text}

/-- A text without a closed comment is left as it is. -/
lemma stripFrom_of_no_comment (h : ¬ HoldsComment text) :
    (stripFrom id kept text).kept = kept.reverse ++ text := by
  fun_induction stripFrom id kept text with
  | case1 kept a b rest hab behind hb ih =>
    obtain ⟨rfl, rfl⟩ : a = '/' ∧ b = '*' := by simpa using hab
    obtain ⟨body, rfl⟩ := exists_of_afterComment? hb
    exact absurd ⟨[], body, behind, rfl⟩ h
  | case2 kept a b rest hab hb => rfl
  | case3 kept a b rest hab ih =>
    rw [ih fun hin => h (holdsComment_cons hin a)]
    simp
  | case4 kept items hitems => rfl

/-- No character occurs more often without the comments. -/
lemma count_stripFrom_le (c : Char) :
    (stripFrom id kept text).kept.count c ≤ kept.count c + text.count c := by
  fun_induction stripFrom id kept text with
  | case1 kept a b rest hab behind hb ih =>
    obtain ⟨body, rfl⟩ := exists_of_afterComment? hb
    simp only [List.count_cons, List.count_append] at ih ⊢
    omega
  | case2 kept a b rest hab hb => simp [List.count_append]
  | case3 kept a b rest hab ih =>
    simp only [List.count_cons] at ih ⊢
    omega
  | case4 kept items hitems => simp [List.count_append]

/-- A comment takes its slashes with it. -/
lemma count_stripFrom_lt (h : HoldsComment text) :
    (stripFrom id kept text).kept.count '/' < kept.count '/' + text.count '/' := by
  fun_induction stripFrom id kept text with
  | case1 kept a b rest hab behind hb ih =>
    obtain ⟨rfl, rfl⟩ : a = '/' ∧ b = '*' := by simpa using hab
    obtain ⟨body, rfl⟩ := exists_of_afterComment? hb
    have hle := @count_stripFrom_le kept behind '/'
    simp only [List.count_cons, List.count_append] at hle ⊢
    simp
    omega
  | case2 kept a b rest hab hb =>
    -- a closing mark behind any opening mark is behind the first one
    obtain ⟨rfl, rfl⟩ : a = '/' ∧ b = '*' := by simpa using hab
    obtain ⟨front, body, back, heq⟩ := h
    match front, heq with
    | [], heq =>
      obtain rfl : rest = body ++ '*' :: '/' :: back := by simpa using heq
      exact absurd hb (afterComment?_ne_none body back)
    | [_], heq => simp at heq
    | _ :: _ :: front, heq =>
      have hrest : rest = front ++ '/' :: '*' :: (body ++ '*' :: '/' :: back) := by
        simpa using congrArg (List.drop 2) heq
      obtain rfl : rest = (front ++ '/' :: '*' :: body) ++ '*' :: '/' :: back := by simp [hrest]
      exact absurd hb (afterComment?_ne_none _ back)
  | case3 kept a b rest hab ih =>
    obtain ⟨front, body, back, heq⟩ := h
    cases front with
    | nil =>
      obtain ⟨rfl, rfl, -⟩ : a = '/' ∧ b = '*' ∧ _ := by simpa using heq
      simp at hab
    | cons c front =>
      obtain ⟨-, hrest⟩ := List.cons_eq_cons.1 heq
      have hlt := ih ⟨front, body, back, hrest⟩
      simp only [List.count_cons] at hlt ⊢
      omega
  | case4 kept items hitems =>
    obtain ⟨front, body, back, rfl⟩ := h
    cases front with
    | nil => exact absurd rfl (hitems '/' '*' _)
    | cons c front =>
      cases front with
      | nil => exact absurd rfl (hitems c '/' _)
      | cons d front => exact absurd rfl (hitems c d _)

end Kept

/-- A text without a comment keeps its characters. -/
theorem withoutComments_eq_self {text : Text} (h : ¬ HoldsComment text) :
    withoutComments text = text :=
  stripFrom_of_no_comment [] h

/-- A text with a comment loses slashes. -/
theorem count_withoutComments_lt {text : Text} (h : HoldsComment text) :
    (withoutComments text).count '/' < text.count '/' := by
  have := count_stripFrom_lt [] h
  rwa [List.count_nil, Nat.zero_add] at this

end CssPrune.Css
