import CssPrune.Proofs.MediaScan

/-!
# The walk over the blocks of a media rule

The walk over the braces behind an `@media` cuts the text from the first opening brace through the
last closing one into blocks and a rest. A block ends at the first closing brace at which as many
braces were closed as opened, and the rest holds no such brace (`Partitions`). There is one way only
to cut a text like this (`partitions_iff`), and nothing is left over exactly if the braces of the
text are even (`Partitions.leftover_eq_nil_iff`). What is read behind an `@media` are the blocks of
this text (`Reading.ofMedia_partition`).
-/

namespace CssPrune

namespace Css

/-! ## Counting braces -/

/-- How many more braces a text opens than it closes. -/
def excess (text : Text) : Int :=
  text.count '{' - text.count '}'

/-- An empty text opens as many braces as it closes. -/
@[simp]
lemma excess_nil : excess [] = 0 := rfl

/-- The excess of two texts is the sum of theirs. -/
@[simp]
lemma excess_append (first second : Text) :
    excess (first ++ second) = excess first + excess second := by
  simp only [excess, List.count_append]
  omega

/-- An opening brace adds one to the excess. -/
@[simp]
lemma excess_cons_open (text : Text) : excess ('{' :: text) = excess text + 1 := by
  simp [excess]
  omega

/-- A closing brace takes one off the excess. -/
@[simp]
lemma excess_cons_close (text : Text) : excess ('}' :: text) = excess text - 1 := by
  simp [excess]
  omega

/-- A character that is no brace leaves the excess as it is. -/
lemma excess_cons_char {c : Char} (hopen : c ≠ '{') (hclose : c ≠ '}') (text : Text) :
    excess (c :: text) = excess text := by
  rw [excess, excess, List.count_cons_of_ne hopen, List.count_cons_of_ne hclose]

/-- A text without braces has no excess. -/
lemma NoBrace.excess_eq {text : Text} (h : NoBrace text) : excess text = 0 := by
  rw [excess, List.count_eq_zero.2 h.1, List.count_eq_zero.2 h.2]
  rfl

/-! ## Blocks -/

section Items

variable {α : Type} {char : α → Char}

/-- Items that end with a closing brace and close as many braces as they open. -/
def Closes (char : α → Char) (items : List α) : Prop :=
  (∃ a ∈ items.getLast?, char a = '}') ∧ excess (items.map char) = 0

/-- No closing brace of the items closes as many braces as they opened. -/
def NeverCloses (char : α → Char) (items : List α) : Prop :=
  ∀ front, front <+: items → ¬ Closes char front

/-- A text cut into blocks, each of which closes at its end and not before, and a rest that never
closes. -/
structure Partitions (char : α → Char) (items : List α) (walk : Blocks α) : Prop where
  parts : walk.blocks.flatten ++ walk.leftover = items
  closes : ∀ block ∈ walk.blocks, Closes char block
  first : ∀ block ∈ walk.blocks, NeverCloses char block.dropLast
  leftover : NeverCloses char walk.leftover

/-- Nothing does not close. -/
lemma Closes.ne_nil {items : List α} (h : Closes char items) : items ≠ [] := by
  rintro rfl
  obtain ⟨a, ha, -⟩ := h.1
  cases ha

/-- Items close if the last one is a closing brace and those before leave one brace open. -/
lemma closes_concat_iff {front : List α} {a : α} :
    Closes char (front ++ [a]) ↔ char a = '}' ∧ excess (front.map char) = 1 := by
  rw [Closes, List.getLast?_concat, List.map_append, List.map_singleton]
  constructor
  · rintro ⟨⟨_, ⟨⟩, hclose⟩, heven⟩
    rw [hclose, excess_append, excess_cons_close, excess_nil] at heven
    exact ⟨hclose, by omega⟩
  · rintro ⟨hclose, heven⟩
    refine ⟨⟨a, rfl, hclose⟩, ?_⟩
    rw [hclose, excess_append, excess_cons_close, excess_nil, heven]
    rfl

/-- Nothing never closes. -/
lemma neverCloses_nil : NeverCloses char [] := by
  intro front hfront hcloses
  exact hcloses.ne_nil (List.prefix_nil.1 hfront)

/-- What never closes goes on so if it does not close at the next item. -/
lemma NeverCloses.concat {front : List α} {a : α} (h : NeverCloses char front)
    (ha : ¬ Closes char (front ++ [a])) : NeverCloses char (front ++ [a]) := by
  intro part hpart
  rcases List.prefix_concat_iff.1 hpart with rfl | hpart
  · exact ha
  · exact h part hpart

/-- Without blocks, all items are left over, and they never close. -/
lemma partitions_nil_iff {items leftover : List α} :
    Partitions char items ⟨[], leftover⟩ ↔ leftover = items ∧ NeverCloses char items := by
  constructor
  · intro h
    obtain rfl : leftover = items := h.parts
    exact ⟨rfl, h.leftover⟩
  · rintro ⟨rfl, h⟩
    exact ⟨rfl, nofun, nofun, h⟩

/-- The first block closes at its end and not before, and the rest is cut in the same way. -/
lemma partitions_cons_iff {block items leftover : List α} {blocks : List (List α)} :
    Partitions char items ⟨block :: blocks, leftover⟩ ↔
      Closes char block ∧ NeverCloses char block.dropLast ∧
        ∃ rest, items = block ++ rest ∧ Partitions char rest ⟨blocks, leftover⟩ := by
  constructor
  · rintro ⟨rfl, hcloses, hfirst, hleftover⟩
    obtain ⟨hblock, hblocks⟩ := List.forall_mem_cons.1 hcloses
    obtain ⟨hblock', hblocks'⟩ := List.forall_mem_cons.1 hfirst
    exact ⟨hblock, hblock', _, by simp, ⟨rfl, hblocks, hblocks', hleftover⟩⟩
  · rintro ⟨hblock, hblock', rest, rfl, hparts, hblocks, hblocks', hleftover⟩
    exact ⟨by simpa using hparts, List.forall_mem_cons.2 ⟨hblock, hblocks⟩,
      List.forall_mem_cons.2 ⟨hblock', hblocks'⟩, hleftover⟩

/-! ## The walk -/

/-- Behind a block that has not closed yet, the walk goes on with it. -/
lemma partitions_blocksFrom {depth : Int} {block : List α} (items : List α)
    (hdepth : excess (block.reverse.map char) = depth) (hblock : NeverCloses char block.reverse) :
    Partitions char (block.reverse ++ items) (blocksFrom char depth block [] items) := by
  induction items generalizing depth block with
  | nil => exact ⟨by simp [blocksFrom], nofun, nofun, hblock⟩
  | cons a items ih =>
    have hnext (h : ¬ Closes char (block.reverse ++ [a])) :
        Partitions char (block.reverse ++ a :: items)
          (blocksFrom char (depth + excess [char a]) (a :: block) [] items) := by
      have hwalk := @ih (depth + excess [char a]) (a :: block)
      simp only [List.reverse_cons, List.map_append, List.map_singleton, excess_append,
        List.append_assoc, List.singleton_append] at hwalk
      exact hwalk (by rw [hdepth]) (hblock.concat h)
    rw [closes_concat_iff, hdepth] at hnext
    rw [blocksFrom]
    by_cases hopen : char a = '{'
    · rw [if_pos hopen]
      rw [hopen, excess_cons_open, excess_nil, Int.zero_add] at hnext
      exact hnext (by simp)
    rw [if_neg hopen]
    by_cases hclose : char a = '}'
    · rw [if_pos hclose]
      by_cases hlast : depth = 1
      · -- the block ends here, and the next one begins with no brace open
        have hcloses : Closes char (a :: block).reverse := by
          rw [List.reverse_cons]
          exact closes_concat_iff.2 ⟨hclose, hdepth.trans hlast⟩
        have hbefore : NeverCloses char (a :: block).reverse.dropLast := by
          rwa [List.reverse_cons, List.dropLast_concat]
        have hbehind : Partitions char items (blocksFrom char 0 [] [] items) :=
          @ih 0 [] rfl neverCloses_nil
        rw [if_pos hlast, blocksFrom_done]
        exact partitions_cons_iff.2 ⟨hcloses, hbefore, items, by simp, hbehind⟩
      · rw [if_neg hlast]
        rw [hclose, excess_cons_close, excess_nil, Int.zero_sub, ← Int.sub_eq_add_neg] at hnext
        exact hnext (by simp [hlast])
    · rw [if_neg hclose]
      rw [excess_cons_char hopen hclose, excess_nil, Int.add_zero] at hnext
      exact hnext (by simp [hclose])

/-- The walk cuts a text into blocks that close at their ends. -/
theorem partitions_blocksOf (char : α → Char) (items : List α) :
    Partitions char items (blocksOf char items) :=
  @partitions_blocksFrom _ char 0 [] items rfl neverCloses_nil

/-! ## The only way to cut -/

/-- A proper front of a block is a front of it without its last item. -/
lemma prefix_dropLast {front block : List α} (h : front <+: block) (hne : front ≠ block) :
    front <+: block.dropLast := by
  obtain ⟨back, rfl⟩ := h
  have hback : back ≠ [] := by
    rintro rfl
    exact hne (List.append_nil front).symm
  rw [List.dropLast_append_of_ne_nil hback]
  exact List.prefix_append front _

/-- Of two beginnings of a text that close at their ends only, neither is shorter. -/
lemma eq_of_closes {first second rest rest' : List α} (heq : first ++ rest = second ++ rest')
    (hfirst : Closes char first) (hfirst' : NeverCloses char first.dropLast)
    (hsecond : Closes char second) (hsecond' : NeverCloses char second.dropLast) :
    first = second := by
  have hprefix : second <+: first ++ rest := heq ▸ List.prefix_append second rest'
  by_contra hne
  rcases List.prefix_or_prefix_of_prefix (List.prefix_append first rest) hprefix with h | h
  · exact hsecond' first (prefix_dropLast h hne) hfirst
  · exact hfirst' second (prefix_dropLast h (Ne.symm hne)) hsecond

/-- A text that begins with a block is not a rest. -/
lemma not_neverCloses_append {block : List α} (h : Closes char block) (rest : List α) :
    ¬ NeverCloses char (block ++ rest) :=
  fun hnever => hnever block (List.prefix_append block rest) h

/-- There is one way to cut items into blocks and a rest. -/
lemma Partitions.unique {items : List α} {walk other : Blocks α}
    (h : Partitions char items walk) (hother : Partitions char items other) : walk = other := by
  obtain ⟨blocks, leftover⟩ := walk
  obtain ⟨blocks', leftover'⟩ := other
  induction blocks generalizing items blocks' with
  | nil =>
    obtain ⟨rfl, hnever⟩ := partitions_nil_iff.1 h
    cases blocks' with
    | nil =>
      obtain ⟨rfl, -⟩ := partitions_nil_iff.1 hother
      rfl
    | cons block' blocks' =>
      obtain ⟨hcloses, -, rest, rfl, -⟩ := partitions_cons_iff.1 hother
      exact absurd hnever (not_neverCloses_append hcloses rest)
  | cons block blocks ih =>
    obtain ⟨hcloses, hfirst, rest, rfl, hbehind⟩ := partitions_cons_iff.1 h
    cases blocks' with
    | nil =>
      obtain ⟨-, hnever⟩ := partitions_nil_iff.1 hother
      exact absurd hnever (not_neverCloses_append hcloses rest)
    | cons block' blocks' =>
      obtain ⟨hcloses', hfirst', rest', heq, hbehind'⟩ := partitions_cons_iff.1 hother
      obtain rfl := eq_of_closes heq hcloses hfirst hcloses' hfirst'
      obtain rfl := List.append_cancel_left heq
      have hsame := ih hbehind blocks' hbehind'
      rw [Blocks.mk.injEq] at hsame ⊢
      exact ⟨congrArg (block :: ·) hsame.1, hsame.2⟩

/-- There is one way only to cut a text into blocks. -/
theorem partitions_iff {items : List α} {walk : Blocks α} :
    Partitions char items walk ↔ walk = blocksOf char items := by
  constructor
  · exact fun h => h.unique (partitions_blocksOf char items)
  · rintro rfl
    exact partitions_blocksOf char items

/-! ## What is left over -/

/-- Blocks that close have no excess together. -/
lemma excess_flatten {blocks : List (List α)} (h : ∀ block ∈ blocks, Closes char block) :
    excess (blocks.flatten.map char) = 0 := by
  induction blocks with
  | nil => rfl
  | cons block blocks ih =>
    obtain ⟨hblock, hblocks⟩ := List.forall_mem_cons.1 h
    rw [List.flatten_cons, List.map_append, excess_append, hblock.2, ih hblocks]
    rfl

/-- Nothing is left over of a text that ends with a closing brace exactly if its braces are even. -/
theorem Partitions.leftover_eq_nil_iff {items : List α} {walk : Blocks α}
    (h : Partitions char items walk) (hlast : ∃ a ∈ items.getLast?, char a = '}') :
    walk.leftover = [] ↔ excess (items.map char) = 0 := by
  have hexcess : excess (items.map char) = excess (walk.leftover.map char) := by
    rw [← h.parts, List.map_append, excess_append, excess_flatten h.closes, Int.zero_add]
  rw [hexcess]
  constructor
  · intro hnil
    rw [hnil]
    rfl
  · intro heven
    -- a rest with even braces would end with the last brace of the text, and close there
    by_contra hne
    refine h.leftover walk.leftover (List.prefix_refl _) ⟨?_, heven⟩
    rwa [← h.parts, List.getLast?_append_of_ne_nil _ hne] at hlast

/-! ## The text behind an `@media` -/

/-- A text whose first opening and last closing brace enclose a stretch, the braces included. -/
structure Encloses (char : α → Char) (items query stretch tail : List α) : Prop where
  parts : items = query ++ stretch ++ tail
  query : ∀ a ∈ query, char a ≠ '{'
  opening : ∃ a ∈ stretch.head?, char a = '{'
  closing : ∃ a ∈ stretch.getLast?, char a = '}'
  tail : ∀ a ∈ tail, char a ≠ '}'

/-- A text with an opening brace in front of a closing one encloses a stretch. -/
lemma exists_encloses {items : List α} (h : ['{', '}'].Sublist (items.map char)) :
    ∃ query stretch tail, Encloses char items query stretch tail := by
  obtain ⟨name, rest, htext, hname⟩ := List.eq_append_cons_of_mem (h.subset List.mem_cons_self)
  have hclose : '}' ∈ rest := by
    rw [htext, List.sublist_append_iff] at h
    obtain ⟨first, second, heq, hfirst, hsecond⟩ := h
    cases first with
    | nil =>
      obtain rfl : ['{', '}'] = second := heq
      exact List.singleton_sublist.1 (List.cons_sublist_cons.1 hsecond)
    | cons c first =>
      obtain rfl : '{' = c := (List.cons.inj heq).1
      exact absurd (hfirst.subset List.mem_cons_self) hname
  obtain ⟨inner, back, rfl, hback⟩ := Text.exists_last hclose
  obtain ⟨query, _, rfl, rfl, hopened⟩ := List.map_eq_append_iff.1 htext
  obtain ⟨brace, _, rfl, hbrace, hinner⟩ := List.map_eq_cons_iff.1 hopened
  obtain ⟨body, _, rfl, -, hclosed⟩ := List.map_eq_append_iff.1 hinner
  obtain ⟨close, tail, rfl, hlast, rfl⟩ := List.map_eq_cons_iff.1 hclosed
  have hend : (brace :: (body ++ [close])).getLast? = some close :=
    List.getLast?_concat (l := brace :: body)
  refine ⟨query, brace :: (body ++ [close]), tail, by simp, ?_, ⟨brace, rfl, hbrace⟩,
    ⟨close, hend, hlast⟩, ?_⟩
  · exact fun a ha heq => hname (heq ▸ List.mem_map_of_mem ha)
  · exact fun a ha heq => hback (heq ▸ List.mem_map_of_mem ha)

end Items

end Css

/-! ## What is read behind an `@media` -/

namespace Reading

open Css

section Media

variable {source : Source} {last? : Option PlacedChar} {piece : MediaPiece PlacedChar}
  {query stretch tail : List PlacedChar}

/-- Blanks in front of placed characters do not change their words. -/
lemma collapse_dropWhile (placed : List PlacedChar) :
    PlacedChar.collapse (placed.dropWhile PlacedChar.isBlank) = PlacedChar.collapse placed := by
  have htext : PlacedChar.text (placed.dropWhile PlacedChar.isBlank) =
      (PlacedChar.text placed).dropWhile Text.isBlank := List.dropWhile_map.symm
  rw [PlacedChar.collapse, htext, Text.collapse_dropWhile, PlacedChar.collapse]

/-- The walk goes over what the braces enclose. -/
lemma ofMedia_of_encloses (h : Encloses PlacedChar.char piece.items query stretch tail) :
    ofMedia source last? piece =
      ofBlocks source (PlacedChar.collapse query) (blocksOf PlacedChar.char stretch) := by
  obtain ⟨brace, hhead, hbrace⟩ := h.opening
  obtain ⟨rest, rfl⟩ := List.head?_eq_some_iff.1 hhead
  obtain ⟨close, hlast, hclose⟩ := h.closing
  obtain ⟨init, hinit⟩ := List.getLast?_eq_some_iff.1 hlast
  have hcut : cutBefore PlacedChar.char '{' (Text.trimWhere PlacedChar.isBlank piece.items) =
      (query.dropWhile PlacedChar.isBlank,
        ((brace :: (rest ++ tail)).reverse.dropWhile PlacedChar.isBlank).reverse) := by
    have hblank : brace.isBlank = false := by
      rw [PlacedChar.isBlank, hbrace]
      decide
    rw [h.parts, List.append_assoc]
    exact cutBefore_trimWhere h.query hbrace hblank (rest ++ tail)
  have hthrough : throughLast PlacedChar.char '}'
      ((brace :: (rest ++ tail)).reverse.dropWhile PlacedChar.isBlank).reverse = brace :: rest := by
    have hblank (b : PlacedChar) (hb : b.isBlank = true) : b.char ≠ '}' :=
      (isPlain_of_isBlank hb).2.1
    rw [throughLast_trimEnd hblank, ← List.cons_append, throughLast_append_of_forall h.tail, hinit,
      throughLast_concat_of_eq hclose]
  have hblock : ((brace :: (rest ++ tail)).reverse.dropWhile PlacedChar.isBlank).reverse ≠ [] := by
    intro hnil
    rw [hnil] at hthrough
    cases hthrough
  rw [ofMedia, hcut]
  simp only [hthrough, collapse_dropWhile, List.isEmpty_iff, hblock, if_false]
  rfl

/-- A warning comes from blocks that leave something over. -/
lemma warnings_ofBlocks_eq_nil_iff {name : Text} {walk : Blocks PlacedChar} :
    (ofBlocks source name walk).warnings = [] ↔ walk.leftover = [] := by
  have hnotices : (ofBlocks source name walk).warnings = [] ↔
      (ofBlocks source name walk).notices = [] := List.map_eq_nil_iff.symm
  rw [hnotices, notices_ofBlocks]
  simp

/-- Whether the first character of a block that is not blank is an opening brace. -/
def headed (block : List PlacedChar) : Bool :=
  (Text.trim (PlacedChar.text block)).head? = some '{'

/-- A block opens with a brace exactly if it is headed by one. -/
lemma opensWithBrace_eq_headed : opensWithBrace PlacedChar.char = headed := by
  funext block
  rw [← opensWithBrace_map, Bool.eq_iff_iff, ← not_iff_not, Bool.not_eq_true,
    opensWithBrace_eq_false_iff, headed, decide_eq_true_iff]
  rfl

/-- The last block with a brace in front has the rules of the query, and the others are at top
level. -/
lemma entries_ofBlocks (name : Text) (walk : Blocks PlacedChar) :
    (ofBlocks source name walk).entries =
      ((walk.blocks.filter headed).getLast?.toList.flatMap fun block =>
          (ofRules source (.media name) block).entries) ++
        (walk.blocks.filter (!headed ·)).flatMap fun block =>
          (ofRules source .topLevel block).entries := by
  have hleftover : (if walk.leftover.isEmpty then empty
      else warn source .unbalancedBraces walk.leftover).entries = [] := by
    split <;> rfl
  rw [ofBlocks, entries_append, entries_append, hleftover, List.nil_append, entries_join,
    List.flatMap_map, mediaBody?, trailingBlocks, opensWithBrace_eq_headed]
  congr 1
  cases (walk.blocks.filter headed).getLast? with
  | none => rfl
  | some block => exact (List.flatMap_singleton _ _).symm

/-- What braces enclose behind an `@media` is cut into blocks and a rest, in one way only. The rest
is empty exactly if the braces are even, and then there is no warning. The last of the blocks that
begin with a brace gives the rules of the media rule, and those that begin otherwise give the rules
behind it. -/
theorem ofMedia_partition (source : Source) (last? : Option PlacedChar)
    (piece : MediaPiece PlacedChar)
    (h : ['{', '}'].Sublist (PlacedChar.text piece.items)) :
    ∃ query stretch tail walk,
      Encloses PlacedChar.char piece.items query stretch tail ∧
      (∀ other, Partitions PlacedChar.char stretch other ↔ other = walk) ∧
      (walk.leftover = [] ↔ excess (PlacedChar.text stretch) = 0) ∧
      ((ofMedia source last? piece).warnings = [] ↔ walk.leftover = []) ∧
      (ofMedia source last? piece).entries =
        ((walk.blocks.filter headed).getLast?.toList.flatMap fun block =>
            (ofRules source (.media (PlacedChar.collapse query)) block).entries) ++
          (walk.blocks.filter (!headed ·)).flatMap fun block =>
            (ofRules source .topLevel block).entries := by
  obtain ⟨query, stretch, tail, henclosed⟩ := exists_encloses h
  have hwalk := partitions_blocksOf PlacedChar.char stretch
  refine ⟨query, stretch, tail, blocksOf PlacedChar.char stretch, henclosed,
    fun other => partitions_iff, hwalk.leftover_eq_nil_iff henclosed.closing, ?_, ?_⟩
  · rw [ofMedia_of_encloses henclosed]
    exact warnings_ofBlocks_eq_nil_iff
  · rw [ofMedia_of_encloses henclosed]
    exact entries_ofBlocks _ _

/-- Two bodies, a rule between them, and a closing brace too many. -/
theorem ofMedia_partition_uneven :
    let source : Source :=
      ⟨"a.css", " print\x7ba\x7bb\x7d\x7d c\x7bd\x7d\x7be\x7bf\x7d\x7d\x7d\x7b x".toList⟩
    let piece : MediaPiece PlacedChar := ⟨PlacedChar.ofText source.text, none⟩
    ['{', '}'].Sublist (PlacedChar.text piece.items) ∧
    ∃ query stretch tail walk,
      Encloses PlacedChar.char piece.items query stretch tail ∧
      Partitions PlacedChar.char stretch walk ∧
      walk.leftover ≠ [] ∧ excess (PlacedChar.text stretch) ≠ 0 := by
  intro source piece
  have hbraces : ['{', '}'].Sublist (PlacedChar.text piece.items) := by decide +kernel
  have hwarned : (ofMedia source none piece).warnings ≠ [] := by decide +kernel
  obtain ⟨query, stretch, tail, walk, hstretch, hwalk, heven, hwarnings, -⟩ :=
    ofMedia_partition source none piece hbraces
  have hleftover : walk.leftover ≠ [] := hwarnings.not.1 hwarned
  exact ⟨hbraces, query, stretch, tail, walk, hstretch, (hwalk walk).2 rfl, hleftover,
    heven.not.1 hleftover⟩

end Media

end Reading

end CssPrune
