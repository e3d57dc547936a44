import CssPrune.Text.Basic

/-!
# Media text

A stylesheet without comments is cut at each literal `@media`. What follows one, up to the next,
begins with the query, goes on with the block of the media rule, and often ends with rules that
belong to no media rule. The braces tell them apart: a block ends at each closing brace that
leaves no brace open.
-/

namespace CssPrune.Css

variable {α : Type}

/-- The word that begins a media rule. -/
def mediaWord : Text := ['@', 'm', 'e', 'd', 'i', 'a']

/-- A stretch of a stylesheet between two occurrences of `@media`. -/
structure MediaPiece (α : Type) where
  items : List α
  /-- The at sign of the `@media` behind the stretch. -/
  next? : Option α

/-- Cuts at each literal `@media`; `piece` holds the items since the last one, the last item
first. -/
def cutFrom (char : α → Char) (piece : List α) : List α → List (MediaPiece α)
  | [] => [⟨piece.reverse, none⟩]
  | a :: rest =>
    match _h : Text.dropLiteral? char mediaWord (a :: rest) with
    | some behind => ⟨piece.reverse, some a⟩ :: cutFrom char [] behind
    | none => cutFrom char (a :: piece) rest
termination_by items => items.length
decreasing_by
  · have := Text.length_of_dropLiteral? _h
    simp only [mediaWord, List.length_cons] at this ⊢
    omega
  · simp

/-- The stretch before the first `@media`, and the one behind each. -/
def mediaPieces (char : α → Char) (items : List α) : List (MediaPiece α) :=
  cutFrom char [] items

/-- What stands before the first occurrence of a character, and what begins with it. -/
def cutBefore (char : α → Char) (c : Char) (items : List α) : List α × List α :=
  items.span (char · != c)

/-- The items through the last occurrence of a character; none if it does not occur. -/
def throughLast (char : α → Char) (c : Char) (items : List α) : List α :=
  (items.reverse.dropWhile (char · != c)).reverse

/-- A text cut into blocks, each of which ends where its braces are first closed, and the rest. -/
structure Blocks (α : Type) where
  blocks : List (List α)
  leftover : List α

/-- Cuts into blocks what follows a text with `depth` open braces; `block` holds the items of the
current block and `done` the blocks before it, the last one first. -/
def blocksFrom (char : α → Char) (depth : Int) (block : List α) (done : List (List α)) :
    List α → Blocks α
  | [] => ⟨done.reverse, block.reverse⟩
  | a :: rest =>
    if char a = '{' then blocksFrom char (depth + 1) (a :: block) done rest
    else if char a = '}' then
      if depth = 1 then blocksFrom char 0 [] ((a :: block).reverse :: done) rest
      else blocksFrom char (depth - 1) (a :: block) done rest
    else blocksFrom char depth (a :: block) done rest

/-- The blocks that ended already only stand in front. -/
theorem blocksFrom_done (char : α → Char) (depth : Int) (block : List α) (done : List (List α))
    (items : List α) :
    blocksFrom char depth block done items =
      ⟨done.reverse ++ (blocksFrom char depth block [] items).blocks,
        (blocksFrom char depth block [] items).leftover⟩ := by
  induction items generalizing depth block done with
  | nil => simp [blocksFrom]
  | cons a rest ih =>
    simp only [blocksFrom]
    split
    · exact ih _ _ done
    · split
      · split
        · rw [ih 0 [] (_ :: done), ih 0 [] [_]]
          simp
        · exact ih _ _ done
      · exact ih _ _ done

/-- Blocks and leftover make up the text. -/
theorem flatten_blocksFrom (char : α → Char) (depth : Int) (block : List α) (done : List (List α))
    (items : List α) :
    (blocksFrom char depth block done items).blocks.flatten
        ++ (blocksFrom char depth block done items).leftover =
      done.reverse.flatten ++ block.reverse ++ items := by
  induction items generalizing depth block done with
  | nil => simp [blocksFrom]
  | cons a rest ih =>
    simp only [blocksFrom]
    split
    · simp [ih]
    · split
      · split
        · simp [ih]
        · simp [ih]
      · simp [ih]

/-- Cuts a text into blocks. -/
def blocksOf (char : α → Char) (items : List α) : Blocks α :=
  blocksFrom char 0 [] [] items

/-- The blocks and what is left over behind them are the items that were walked. -/
theorem flatten_blocksOf (char : α → Char) (items : List α) :
    (blocksOf char items).blocks.flatten ++ (blocksOf char items).leftover = items := by
  simp [blocksOf, flatten_blocksFrom]

/-- Whether the first character that is not blank is an opening brace. -/
def opensWithBrace (char : α → Char) (items : List α) : Bool :=
  (items.find? fun a => !Text.isBlank (char a)).any fun a => char a = '{'

/-- The block of a media rule: of the blocks that begin with a brace, the last one. -/
def mediaBody? (char : α → Char) (blocks : List (List α)) : Option (List α) :=
  (blocks.filter (opensWithBrace char)).getLast?

/-- The blocks that belong to no media rule: those that begin with something else than a brace. -/
def trailingBlocks (char : α → Char) (blocks : List (List α)) : List (List α) :=
  blocks.filter fun block => !opensWithBrace char block

end CssPrune.Css
