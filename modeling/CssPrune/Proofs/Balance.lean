import CssPrune.Proofs.Outline

/-!
# Balanced braces

A text is balanced if it closes as many braces as it opens, and none that it has not opened. That
is so exactly if its braces are well nested (`Nested.balanced`, `Balanced.nested`), and a well
nested text is a list of chunks and a text without braces (`Nested.exists_sound`).
-/

namespace CssPrune.Css

/-- As many braces are closed as opened, and at no point more. -/
structure Balanced (text : Text) : Prop where
  total : text.count '}' = text.count '{'
  front : ∀ front, front <+: text → front.count '}' ≤ front.count '{'

instance (text : Text) : Decidable (Balanced text) :=
  decidable_of_iff (text.count '}' = text.count '{' ∧
      ∀ front ∈ text.inits, front.count '}' ≤ front.count '{')
    ⟨fun ⟨total, front⟩ => ⟨total, fun part hpart => front part ((List.mem_inits _ _).2 hpart)⟩,
      fun h => ⟨h.total, fun part hpart => h.front part ((List.mem_inits _ _).1 hpart)⟩⟩

/-- What two texts begin with together ends in the first or in the second one. -/
lemma prefix_append_cases {front first second : Text} (h : front <+: first ++ second) :
    front <+: first ∨ ∃ back, back <+: second ∧ front = first ++ back := by
  rcases List.prefix_or_prefix_of_prefix h (List.prefix_append first second) with hin | hin
  · exact Or.inl hin
  · obtain ⟨back, rfl⟩ := hin
    exact Or.inr ⟨back, (List.prefix_append_right_inj first).1 h, rfl⟩

/-- A well nested text is balanced. -/
lemma Nested.balanced {text : Text} (h : Nested text) : Balanced text := by
  induction h with
  | nil =>
    refine ⟨rfl, fun front hfront => ?_⟩
    rw [List.prefix_nil.1 hfront]
    exact Nat.le_refl _
  | @char c rest hopen hclose _ ih =>
    refine ⟨by rw [List.count_cons_of_ne hclose, List.count_cons_of_ne hopen, ih.total], ?_⟩
    intro front hfront
    rcases List.prefix_cons_iff.1 hfront with rfl | ⟨front, rfl, hrest⟩
    · exact Nat.le_refl _
    · rw [List.count_cons_of_ne hclose, List.count_cons_of_ne hopen]
      exact ih.front front hrest
  | @group inner rest _ _ ihInner ihRest =>
    have hinner := ihInner.total
    have hrest := ihRest.total
    refine ⟨by simp; omega, fun front hfront => ?_⟩
    rw [List.cons_append] at hfront
    rcases List.prefix_cons_iff.1 hfront with rfl | ⟨front, rfl, hpre⟩
    · exact Nat.le_refl _
    rcases prefix_append_cases hpre with hpre | ⟨back, hback, rfl⟩
    · have hle := ihInner.front front hpre
      simp
      omega
    · rcases List.prefix_cons_iff.1 hback with rfl | ⟨back, rfl, hin⟩
      · simp
        omega
      · have hle := ihRest.front back hin
        simp
        omega

/-- A text that at some point has closed a brace too many has a well nested part in front of the
first such brace. -/
lemma exists_nested_close {text front : Text} (hfront : front <+: text)
    (hlt : front.count '{' < front.count '}') :
    ∃ inner rest, text = inner ++ '}' :: rest ∧ Nested inner := by
  induction hn : text.length using Nat.strong_induction_on generalizing text front with
  | _ n ih =>
    cases text with
    | nil =>
      rw [List.prefix_nil.1 hfront] at hlt
      exact absurd hlt (Nat.lt_irrefl _)
    | cons c text =>
      rcases List.prefix_cons_iff.1 hfront with rfl | ⟨front, rfl, hpre⟩
      · exact absurd hlt (Nat.lt_irrefl _)
      by_cases hclose : c = '}'
      · subst hclose
        exact ⟨[], text, rfl, .nil⟩
      by_cases hopen : c = '{'
      · -- the group that begins here is closed, and behind it the excess is still there
        subst hopen
        simp at hlt
        obtain ⟨inner, more, rfl, hinner⟩ :=
          ih text.length (by simp at hn; omega) hpre (by omega) rfl
        rcases prefix_append_cases hpre with hin | ⟨back, hback, rfl⟩
        · have := hinner.balanced.front front hin
          omega
        have htotal := hinner.balanced.total
        rcases List.prefix_cons_iff.1 hback with rfl | ⟨back, rfl, hmore⟩
        · simp at hlt
          omega
        simp at hlt
        obtain ⟨second, rest, rfl, hsecond⟩ :=
          ih more.length (by simp at hn; omega) hmore (by omega) rfl
        exact ⟨'{' :: inner ++ '}' :: second, rest, by simp, .group hinner hsecond⟩
      · rw [List.count_cons_of_ne hclose, List.count_cons_of_ne hopen] at hlt
        obtain ⟨inner, rest, rfl, hinner⟩ := ih text.length (by simp at hn; omega) hpre hlt rfl
        exact ⟨c :: inner, rest, rfl, .char hopen hclose hinner⟩

/-- A balanced text is well nested. -/
lemma Balanced.nested {text : Text} (h : Balanced text) : Nested text := by
  induction hn : text.length using Nat.strong_induction_on generalizing text with
  | _ n ih =>
    have htotal := h.total
    cases text with
    | nil => exact .nil
    | cons c text =>
      by_cases hclose : c = '}'
      · subst hclose
        have := h.front ['}'] ⟨text, rfl⟩
        simp at this
      by_cases hopen : c = '{'
      · subst hopen
        simp at htotal
        obtain ⟨inner, rest, rfl, hinner⟩ := exists_nested_close (List.prefix_refl text) (by omega)
        have hinnerTotal := hinner.balanced.total
        have hrest : Balanced rest := by
          refine ⟨by simp at htotal; omega, fun front hfront => ?_⟩
          have := h.front ('{' :: inner ++ '}' :: front) (by simpa using hfront)
          simp at this
          omega
        exact .group hinner (ih rest.length (by simp at hn; omega) hrest rfl)
      · rw [List.count_cons_of_ne hclose, List.count_cons_of_ne hopen] at htotal
        have hrest : Balanced text := by
          refine ⟨htotal, fun front hfront => ?_⟩
          have := h.front (c :: front) (List.cons_prefix_cons.2 ⟨rfl, hfront⟩)
          rwa [List.count_cons_of_ne hclose, List.count_cons_of_ne hopen] at this
        exact .char hopen hclose (ih text.length (by simp at hn; omega) hrest rfl)

/-! ## Well nested text in chunks -/

/-- A well nested text is a list of chunks and a text without braces. -/
lemma Nested.exists_chunks {text : Text} (h : Nested text) :
    ∃ chunks tail, text = Chunk.textAll chunks ++ tail ∧ NoBrace tail ∧
      ∀ chunk ∈ chunks, NoBrace chunk.head ∧ Nested chunk.inner := by
  induction h with
  | nil => exact ⟨[], [], rfl, by decide, nofun⟩
  | @char c rest hopen hclose _ ih =>
    obtain ⟨chunks, tail, rfl, htail, hchunks⟩ := ih
    have hc : NoBrace [c] := ⟨by simpa using hopen.symm, by simpa using hclose.symm⟩
    -- the character stands in front of the first chunk, or of the tail
    cases chunks with
    | nil => exact ⟨[], c :: tail, rfl, noBrace_append.2 ⟨hc, htail⟩, nofun⟩
    | cons chunk chunks =>
      obtain ⟨⟨hhead, hinner⟩, hrest⟩ := List.forall_mem_cons.1 hchunks
      refine ⟨⟨c :: chunk.head, chunk.inner⟩ :: chunks, tail, rfl, htail, ?_⟩
      exact List.forall_mem_cons.2 ⟨⟨noBrace_append.2 ⟨hc, hhead⟩, hinner⟩, hrest⟩
  | @group inner rest hinner _ _ ih =>
    obtain ⟨chunks, tail, rfl, htail, hchunks⟩ := ih
    refine ⟨⟨[], inner⟩ :: chunks, tail, ?_, htail, ?_⟩
    · simp [Chunk.textAll_cons, Chunk.text]
    · exact List.forall_mem_cons.2 ⟨⟨⟨List.not_mem_nil, List.not_mem_nil⟩, hinner⟩, hchunks⟩

/-- The chunks of a text without `@media` are sound. -/
lemma Nested.exists_sound {text : Text} (h : Nested text) (hword : ¬ mediaWord <:+: text) :
    ∃ chunks tail, text = Chunk.textAll chunks ++ tail ∧ (∀ chunk ∈ chunks, chunk.Sound) ∧
      NoBrace tail ∧ ¬ mediaWord <:+: tail := by
  obtain ⟨chunks, tail, rfl, htail, hchunks⟩ := h.exists_chunks
  have hpart {chunk : Chunk} (hchunk : chunk ∈ chunks) :
      chunk.text <:+: Chunk.textAll chunks ++ tail := by
    obtain ⟨before, behind, rfl⟩ := List.append_of_mem hchunk
    exact ⟨Chunk.textAll before, Chunk.textAll behind ++ tail, by simp [Chunk.textAll]⟩
  refine ⟨chunks, tail, rfl, fun chunk hchunk => ?_, htail,
    fun hin => hword (hin.trans (List.suffix_append _ _).isInfix)⟩
  obtain ⟨hhead, hinner⟩ := hchunks chunk hchunk
  refine ⟨hhead, hinner, fun hin => hword ?_, fun hin => hword ?_⟩
  · exact (hin.trans ⟨[], '{' :: chunk.inner ++ ['}'], by simp [Chunk.text]⟩).trans (hpart hchunk)
  · exact (hin.trans ⟨chunk.head ++ ['{'], ['}'], by simp [Chunk.text]⟩).trans (hpart hchunk)

end CssPrune.Css
