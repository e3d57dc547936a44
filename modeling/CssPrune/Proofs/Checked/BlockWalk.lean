import CssPrune.Css.MediaText
import CssPrune.Proofs.Checked.Tokens

/-!
# The checked walk over blocks

The braces behind an `@media`, counted index by index. Where the count comes back to zero a block
ends, and the first of its characters that is not blank tells whether it is the block of the media
rule. One step of the walk is one step of the cut into blocks (`blockStep_is`), so the walk ends
with the ranges of those blocks (`walkBlocks_is`). The count stays within its bounds, for it is
never further from zero than the index.
-/

namespace CssPrune.Checked

open Css

/-- How far a walk over blocks has come. -/
structure BlockWalk where
  depth : Int := 0
  /-- Where the current block begins. -/
  start : Nat
  /-- The range of the last block that begins with a brace. -/
  body? : Option (Nat × Nat) := none
  /-- The ranges of the other blocks, in order. -/
  trailing : List (Nat × Nat) := []

/-- Ends the current block behind an index. -/
def endBlock (tokens : List PlacedChar) (walk : BlockWalk) (i : Nat) : Except Fault BlockWalk := do
  let (first, _) ← trimRange PlacedChar.isBlank tokens walk.start (i + 1)
  let head ← item tokens first
  if head.char = '{' then return { walk with start := i + 1, body? := some (walk.start, i + 1) }
  else return { walk with start := i + 1, trailing := walk.trailing ++ [(walk.start, i + 1)] }

/-- Walks over the character at an index. -/
def blockStep (tokens : List PlacedChar) (walk : BlockWalk) (i : Nat) :
    Except Fault BlockWalk := do
  let placed ← item tokens i
  if placed.char = '{' then do
    let depth ← signed (walk.depth + 1)
    return { walk with depth }
  else if placed.char = '}' then do
    let depth ← signed (walk.depth - 1)
    if depth = 0 then endBlock tokens { walk with depth } i else return { walk with depth }
  else return walk

/-- Walks from one index up to and with another. -/
def walkBlocks (tokens : List PlacedChar) (first last : Nat) : Except Fault BlockWalk :=
  (List.range' first (last + 1 - first)).foldlM (blockStep tokens) { start := first }

/-! ## Blocks -/

/-- A block behind others is the body if it opens with a brace. -/
lemma mediaBody?_concat (done : List (List PlacedChar)) (block : List PlacedChar) :
    mediaBody? PlacedChar.char (done ++ [block]) =
      if opensWithBrace PlacedChar.char block then some block
      else mediaBody? PlacedChar.char done := by
  rw [mediaBody?, List.filter_append]
  by_cases h : opensWithBrace PlacedChar.char block
  · rw [if_pos h, List.filter_cons_of_pos h, List.filter_nil, List.getLast?_concat]
  · rw [if_neg h, List.filter_cons_of_neg h, List.filter_nil, List.append_nil, mediaBody?]

/-- A block behind others trails unless it opens with a brace. -/
lemma trailingBlocks_concat (done : List (List PlacedChar)) (block : List PlacedChar) :
    trailingBlocks PlacedChar.char (done ++ [block]) =
      trailingBlocks PlacedChar.char done ++
        if opensWithBrace PlacedChar.char block then [] else [block] := by
  rw [trailingBlocks, List.filter_append]
  cases h : opensWithBrace PlacedChar.char block <;> simp [h, trailingBlocks]

/-! ## The walk -/

/-- The walk has come to an index; `block` and `done` are what the cut has there. -/
structure BlockWalk.Is (walk : BlockWalk) (tokens : List PlacedChar) (i : Nat)
    (block : List PlacedChar) (done : List (List PlacedChar)) : Prop where
  depth : walk.depth.natAbs ≤ i
  current : Stands tokens walk.start block.reverse
  index : i = walk.start + block.length
  body : Option.Rel (IsRange tokens) walk.body? (mediaBody? PlacedChar.char done.reverse)
  trailing : List.Forall₂ (IsRange tokens) walk.trailing
    (trailingBlocks PlacedChar.char done.reverse)

section Walk

variable {tokens block rest part : List PlacedChar} {done : List (List PlacedChar)}
  {walk : BlockWalk} {i : Nat} {a : PlacedChar}

/-- A character joins the current block. -/
lemma BlockWalk.Is.push (h : walk.Is tokens i block done) (ha : Stands tokens i (a :: rest))
    {depth : Int} (hdepth : depth.natAbs ≤ i + 1) :
    { walk with depth }.Is tokens (i + 1) (a :: block) done where
  depth := hdepth
  current := by
    have hi : i = walk.start + block.reverse.length := by rw [List.length_reverse, h.index]
    rw [List.reverse_cons]
    exact h.current.append (hi ▸ ha.head)
  index := by
    rw [List.length_cons, ← Nat.add_assoc, ← h.index]
  body := h.body
  trailing := h.trailing

/-- The first character of a block that is not blank. -/
lemma exists_blockHead {start : Nat} (hpart : Stands tokens start part)
    (hsolid : ∃ b ∈ part, PlacedChar.isBlank b = false) :
    ∃ first last head,
      trimRange PlacedChar.isBlank tokens start (start + part.length) = .ok (first, last) ∧
      item tokens first = .ok head ∧
      opensWithBrace PlacedChar.char part = decide (head.char = '{') := by
  obtain ⟨front, back, hsplit, hhead, -, htrim⟩ := hpart.trimRange PlacedChar.isBlank
  obtain ⟨head, hfind⟩ : ∃ head, part.find? (!PlacedChar.isBlank ·) = some head := by
    obtain ⟨b, hb, hblank⟩ := hsolid
    exact Option.isSome_iff_exists.1 (List.find?_isSome.2 ⟨b, hb, by rw [hblank]; rfl⟩)
  obtain ⟨behind, hbehind⟩ := List.head?_eq_some_iff.1 (hhead.trans hfind)
  refine ⟨_, _, head, htrim, ?_, ?_⟩
  · rw [hbehind] at hsplit
    rw [hsplit, List.append_assoc] at hpart
    exact hpart.right.item
  · rw [opensWithBrace]
    show (part.find? (!PlacedChar.isBlank ·)).any _ = _
    rw [hfind]
    rfl

/-- A block ends behind its last character. -/
lemma endBlock_is (h : walk.Is tokens (i + 1) (a :: block) done)
    (ha : PlacedChar.isBlank a = false) :
    Succeeds (endBlock tokens walk i) fun next =>
      next.depth = walk.depth ∧ next.Is tokens (i + 1) [] ((a :: block).reverse :: done) := by
  have hstop : i + 1 = walk.start + (a :: block).reverse.length := by
    rw [List.length_reverse, h.index]
  obtain ⟨first, last, head, htrim, hitem, hopens⟩ :=
    exists_blockHead h.current ⟨a, by simp, ha⟩
  have hrange : IsRange tokens (walk.start, i + 1) (a :: block).reverse := ⟨h.current, hstop⟩
  have hbehind : Stands tokens (i + 1) [] := by
    apply stands_nil
    rw [hstop]
    exact h.current.stop_le
  have hbody := mediaBody?_concat done.reverse (a :: block).reverse
  have htrailing := trailingBlocks_concat done.reverse (a :: block).reverse
  rw [← hstop] at htrim
  rw [endBlock, htrim, ok_bind]
  show Succeeds (item tokens first >>= _) _
  rw [hitem, ok_bind]
  by_cases hbrace : head.char = '{'
  · have hopens : opensWithBrace PlacedChar.char (a :: block).reverse = true := by
      rw [hopens, decide_eq_true hbrace]
    rw [if_pos hopens] at hbody htrailing
    rw [if_pos hbrace]
    refine succeeds_ok ⟨rfl, h.depth, hbehind, rfl, ?_, ?_⟩
    · rw [List.reverse_cons, hbody]
      exact .some hrange
    · rw [List.reverse_cons, htrailing, List.append_nil]
      exact h.trailing
  · have hopens : ¬ opensWithBrace PlacedChar.char (a :: block).reverse = true := by
      rw [hopens, decide_eq_false hbrace]
      simp
    rw [if_neg hopens] at hbody htrailing
    rw [if_neg hbrace]
    refine succeeds_ok ⟨rfl, h.depth, hbehind, rfl, ?_, ?_⟩
    · rw [List.reverse_cons, hbody]
      exact h.body
    · rw [List.reverse_cons, htrailing]
      exact List.rel_append h.trailing (.cons hrange .nil)

/-- One step of the walk is one step of the cut. -/
lemma blockStep_is (hsize : tokens.length < 2 ^ 31) (h : walk.Is tokens i block done)
    (ha : Stands tokens i (a :: rest)) :
    Succeeds (blockStep tokens walk i) fun next => ∃ block' done',
      next.Is tokens (i + 1) block' done' ∧
      blocksFrom PlacedChar.char walk.depth block done (a :: rest) =
        blocksFrom PlacedChar.char next.depth block' done' rest := by
  have hi : i + 1 < 2 ^ 31 := by
    have hle := ha.stop_le
    rw [List.length_cons] at hle
    omega
  have hdepth := h.depth
  rw [blockStep, ha.item, ok_bind]
  by_cases hopen : a.char = '{'
  · rw [if_pos hopen, signed_eq (by omega), ok_bind]
    refine succeeds_ok ⟨a :: block, done, h.push ha (by omega), ?_⟩
    rw [blocksFrom, if_pos hopen]
  · rw [if_neg hopen]
    by_cases hclose : a.char = '}'
    · rw [if_pos hclose, signed_eq (by omega), ok_bind]
      have hnext := h.push ha (show (walk.depth - 1).natAbs ≤ i + 1 by omega)
      by_cases hzero : walk.depth - 1 = 0
      · have hsolid : PlacedChar.isBlank a = false := by
          rw [PlacedChar.isBlank, hclose]
          decide
        rw [if_pos hzero]
        refine (endBlock_is hnext hsolid).mono fun next hended => ⟨_, _, hended.2, ?_⟩
        rw [blocksFrom, if_neg hopen, if_pos hclose, if_pos (by omega), hended.1, hzero]
      · rw [if_neg hzero]
        refine succeeds_ok ⟨a :: block, done, hnext, ?_⟩
        rw [blocksFrom, if_neg hopen, if_pos hclose, if_neg (by omega)]
    · rw [if_neg hclose]
      refine succeeds_ok ⟨a :: block, done, h.push ha (by omega), ?_⟩
      rw [blocksFrom, if_neg hopen, if_neg hclose]

/-- The walk over a part is the cut of the part. -/
lemma foldlM_blockStep_is (hsize : tokens.length < 2 ^ 31) (h : walk.Is tokens i block done)
    (hpart : Stands tokens i part) :
    Succeeds ((List.range' i part.length).foldlM (blockStep tokens) walk) fun last =>
      ∃ block' done', last.Is tokens (i + part.length) block' done' ∧
        blocksFrom PlacedChar.char walk.depth block done part =
          ⟨done'.reverse, block'.reverse⟩ := by
  induction part generalizing i walk block done with
  | nil => exact succeeds_ok ⟨block, done, h, rfl⟩
  | cons a rest ih =>
    rw [List.length_cons, List.range'_succ, List.foldlM_cons]
    refine (blockStep_is hsize h hpart).bind fun next ⟨block', done', hnext, hcut⟩ => ?_
    rw [hcut, Nat.add_comm rest.length 1, ← Nat.add_assoc]
    exact ih hnext hpart.tail

/-- The walk finds the blocks of a part, and what it leaves over. -/
lemma walkBlocks_is (hsize : tokens.length < 2 ^ 31) (hpart : Stands tokens i (a :: part)) :
    Succeeds (walkBlocks tokens i (i + part.length)) fun walk =>
      let stretch := blocksOf PlacedChar.char (a :: part)
      IsRange tokens (walk.start, i + part.length + 1) stretch.leftover ∧
      Option.Rel (IsRange tokens) walk.body? (mediaBody? PlacedChar.char stretch.blocks) ∧
      List.Forall₂ (IsRange tokens) walk.trailing
        (trailingBlocks PlacedChar.char stretch.blocks) := by
  have hstart : BlockWalk.Is { start := i } tokens i [] [] :=
    ⟨Nat.zero_le i, stands_nil hpart.within, rfl, .none, .nil⟩
  have hcount : i + part.length + 1 - i = (a :: part).length := by
    rw [List.length_cons]
    omega
  rw [walkBlocks, hcount]
  refine (foldlM_blockStep_is hsize hstart hpart).mono fun walk ⟨block, done, hwalk, hcut⟩ => ?_
  rw [blocksOf, hcut]
  refine ⟨⟨hwalk.current, ?_⟩, hwalk.body, hwalk.trailing⟩
  rw [List.length_reverse, ← hwalk.index, List.length_cons, Nat.add_assoc]

end Walk

end CssPrune.Checked
