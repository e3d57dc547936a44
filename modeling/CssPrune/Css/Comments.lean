import CssPrune.Text.Basic

/-!
# Comments

A comment goes from `/*` through the first `*/` behind it, and the search for the next one goes on
behind that. What is left is joined without a gap. A comment that is never closed is no comment:
it stays in the text, with everything behind it.
-/

namespace CssPrune.Css

variable {α : Type}

/-- What follows the first `*/`. -/
def afterComment? (char : α → Char) : List α → Option (List α)
  | a :: b :: rest =>
    if char a = '*' && char b = '/' then some rest else afterComment? char (b :: rest)
  | _ => none

/-- Behind a closing mark at least its two characters are missing. -/
theorem length_le_of_afterComment? {char : α → Char} {items rest : List α}
    (h : afterComment? char items = some rest) : rest.length + 2 ≤ items.length := by
  fun_induction afterComment? char items with
  | case1 a b tail _ =>
    obtain rfl := Option.some.inj h
    simp
  | case2 a b tail _ ih =>
    have := ih h
    simp only [List.length_cons] at this ⊢
    omega
  | case3 => simp at h

/-- A text without its comments, and the slash of a comment that is not closed. -/
structure Uncommented (α : Type) where
  kept : List α
  unclosed? : Option α

/-- Removes the comments of the items that are left; `kept` holds what stands before them, the
last item first. -/
def stripFrom (char : α → Char) (kept : List α) : List α → Uncommented α
  | a :: b :: rest =>
    if char a = '/' && char b = '*' then
      match _h : afterComment? char rest with
      | some behind => stripFrom char kept behind
      | none => ⟨kept.reverse ++ a :: b :: rest, some a⟩
    else stripFrom char (a :: kept) (b :: rest)
  | items => ⟨kept.reverse ++ items, none⟩
termination_by items => items.length
decreasing_by
  · have := length_le_of_afterComment? _h
    simp only [List.length_cons]
    omega
  · simp

section Steps

variable {char : α → Char} {a b : α} {rest behind : List α}

/-- A closed comment is passed over. -/
theorem stripFrom_closed (kept : List α) (h : (char a = '/' && char b = '*') = true)
    (hb : afterComment? char rest = some behind) :
    stripFrom char kept (a :: b :: rest) = stripFrom char kept behind := by
  rw [stripFrom, if_pos h]
  split
  · rename_i other ho
    rw [hb] at ho
    rw [Option.some.inj ho]
  · rename_i ho
    rw [hb] at ho
    cases ho

/-- A comment that is not closed stays, with everything behind it. -/
theorem stripFrom_unclosed (kept : List α) (h : (char a = '/' && char b = '*') = true)
    (hb : afterComment? char rest = none) :
    stripFrom char kept (a :: b :: rest) = ⟨kept.reverse ++ a :: b :: rest, some a⟩ := by
  rw [stripFrom, if_pos h]
  split
  · rename_i other ho
    rw [hb] at ho
    cases ho
  · rfl

/-- An item that begins no comment is kept. -/
theorem stripFrom_cons (kept : List α) (h : ¬ (char a = '/' && char b = '*') = true) :
    stripFrom char kept (a :: b :: rest) = stripFrom char (a :: kept) (b :: rest) := by
  rw [stripFrom, if_neg h]

/-- At the end of the items, what was kept is all that is left. -/
@[simp]
theorem stripFrom_nil (kept : List α) : stripFrom char kept [] = ⟨kept.reverse, none⟩ := by
  rw [stripFrom]
  · rw [List.append_nil]
  · nofun

/-- A single item that is left opens no comment. -/
@[simp]
theorem stripFrom_singleton (kept : List α) :
    stripFrom char kept [a] = ⟨kept.reverse ++ [a], none⟩ := by
  rw [stripFrom]
  nofun

end Steps

/-- What is kept already only stands in front. -/
theorem stripFrom_eq (char : α → Char) (kept items : List α) :
    stripFrom char kept items =
      ⟨kept.reverse ++ (stripFrom char [] items).kept, (stripFrom char [] items).unclosed?⟩ := by
  refine stripFrom.induct char
    (motive := fun _ items => ∀ kept, stripFrom char kept items =
      ⟨kept.reverse ++ (stripFrom char [] items).kept, (stripFrom char [] items).unclosed?⟩)
    ?_ ?_ ?_ ?_ kept items kept
  · intro _ a b rest h behind hb ih kept
    rw [stripFrom_closed kept h hb, stripFrom_closed [] h hb]
    exact ih kept
  · intro _ a b rest h hb kept
    rw [stripFrom_unclosed kept h hb, stripFrom_unclosed [] h hb]
    simp
  · intro _ a b rest h ih kept
    rw [stripFrom_cons kept h, stripFrom_cons [] h, ih (a :: kept), ih [a]]
    simp
  · intro _ items h kept
    match items with
    | [] => simp
    | [a] => simp
    | a :: b :: rest => exact (h a b rest rfl).elim

/-- Removes the comments. -/
def stripComments (char : α → Char) (items : List α) : Uncommented α :=
  stripFrom char [] items

end CssPrune.Css
