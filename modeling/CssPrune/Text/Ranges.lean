/-!
# Ranges of code points

A character class is given as a list of ranges of code points in ascending order. `inRanges` looks
a code point up and stops at the first range that starts beyond it; by `inRanges_iff` nothing is
missed that way.
-/

namespace CssPrune.Text

/-- A code point lies in one of the ranges `(first, last)`, which are listed in ascending
order. -/
def inRanges (point : Nat) : List (Nat × Nat) → Bool
  | [] => false
  | (first, last) :: rest =>
    if point < first then false else point ≤ last || inRanges point rest

/-- Each range starts at or behind the start of the one before it. -/
def ascending : List (Nat × Nat) → Bool
  | (a, _) :: (b, last) :: rest => a ≤ b && ascending ((b, last) :: rest)
  | _ => true

/-- No range of an ascending list begins in front of the first one. -/
theorem le_of_ascending {first last : Nat} {rest : List (Nat × Nat)}
    (h : ascending ((first, last) :: rest) = true) : ∀ range ∈ rest, first ≤ range.1 := by
  induction rest generalizing first last with
  | nil => simp
  | cons next rest ih =>
    simp only [ascending, Bool.and_eq_true, decide_eq_true_eq] at h
    intro range hr
    rcases List.mem_cons.1 hr with rfl | hr
    · exact h.1
    · exact Nat.le_trans h.1 (ih h.2 range hr)

/-- Behind its first range, an ascending list ascends as well. -/
theorem ascending_tail {range : Nat × Nat} {rest : List (Nat × Nat)}
    (h : ascending (range :: rest) = true) : ascending rest = true := by
  cases rest with
  | nil => rfl
  | cons next rest =>
    simp only [ascending, Bool.and_eq_true] at h
    exact h.2

/-- The look-up finds a code point exactly if some range holds it. -/
theorem inRanges_iff {point : Nat} {ranges : List (Nat × Nat)} (h : ascending ranges = true) :
    inRanges point ranges = true ↔ ∃ range ∈ ranges, range.1 ≤ point ∧ point ≤ range.2 := by
  induction ranges with
  | nil => simp [inRanges]
  | cons range ranges ih =>
    obtain ⟨first, last⟩ := range
    simp only [inRanges, List.mem_cons, exists_eq_or_imp]
    split
    · rename_i hlt
      simp only [Bool.false_eq_true, false_iff, not_or, not_and, not_exists]
      refine ⟨fun hle => by omega, fun range hr hle => ?_⟩
      have := le_of_ascending h range hr
      omega
    · rename_i hge
      rw [Bool.or_eq_true, decide_eq_true_eq, ih (ascending_tail h)]
      constructor
      · rintro (hle | hr)
        · exact Or.inl ⟨by omega, hle⟩
        · exact Or.inr hr
      · rintro (hle | hr)
        · exact Or.inl hle.2
        · exact Or.inr hr

end CssPrune.Text
