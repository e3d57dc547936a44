import CssPrune.Css.Comments
import CssPrune.Css.MediaText
import CssPrune.Css.PlacedChar
import CssPrune.Proofs.Checked.SourceMap
import Mathlib.Data.List.Basic

/-!
# Checked tokens

The characters of a stylesheet without its comments, found and cut by index. `read_eq` and
`piecesFrom_eq` say that the checked readers give what the plain ones give. The spans of these
characters can be built and looked up, for each begins and ends at the boundary of a character and
they come in the order of the text (`Placed`).
-/

namespace CssPrune.Checked

open Css

/-! ## Reading -/

/-- The placed characters of a text that starts at `cursor`. -/
def charsFrom (cursor : Nat) : Text → Except Fault (List PlacedChar)
  | [] => .ok []
  | '\r' :: '\n' :: rest => do
    let feed ← unsigned (cursor + 1)
    let next ← unsigned (feed + 1)
    let behind ← charsFrom next rest
    return ⟨'\n', feed⟩ :: behind
  | c :: rest => do
    let next ← unsigned (cursor + (PlacedChar.lineEnd c).utf8Size)
    let behind ← charsFrom next rest
    return ⟨PlacedChar.lineEnd c, cursor⟩ :: behind

/-- The index behind the comment whose text starts at `start`. -/
def commentEnd (raw : List PlacedChar) (start : Nat) : Except Fault (Option Nat) := do
  let body ← slice raw start raw.length
  return ((body.zip body.tail).findIdx? fun pair => pair.1.char = '*' && pair.2.char = '/').map
    (start + · + 2)

/-- Removes the comments from an index on; `kept` holds what stands before them, the last
character first. -/
def stripAt (raw kept : List PlacedChar) (i : Nat) : Except Fault (Uncommented PlacedChar) :=
  if i < raw.length then do
    let first ← item raw i
    if first.char = '/' && raw[i + 1]?.any (·.char = '*') then
      match ← commentEnd raw (i + 2) with
      | some next => if i < next then stripAt raw kept next else .error .stuck
      | none => do
        let back ← slice raw i raw.length
        return ⟨kept.reverse ++ back, some first⟩
    else stripAt raw (first :: kept) (i + 1)
  else return ⟨kept.reverse, none⟩
termination_by raw.length - i

/-- The characters of a file without its comments. -/
structure Lexer where
  tokens : List PlacedChar
  /-- The span of the file. -/
  span : MapSpan
  /-- The offset of a comment that is not closed. -/
  unclosed? : Option Nat

/-- Reads a file. -/
def Lexer.read (span : MapSpan) (text : Text) : Except Fault Lexer := do
  let raw ← charsFrom 0 text
  let sheet ← stripAt raw [] 0
  return ⟨sheet.kept, span, sheet.unclosed?.map (·.offset)⟩

/-- The ranges between the literal `@media` from `i` on, the first of which begins at `start`. -/
def piecesFrom (tokens : List PlacedChar) (start i : Nat) : Except Fault (List (Nat × Nat)) :=
  if i + mediaWord.length ≤ tokens.length then do
    let window ← slice tokens i (i + mediaWord.length)
    if window.map (·.char) = mediaWord then do
      let behind ← piecesFrom tokens (i + mediaWord.length) (i + mediaWord.length)
      return (start, i) :: behind
    else piecesFrom tokens start (i + 1)
  else return [(start, tokens.length)]
termination_by tokens.length + 1 - i
decreasing_by
  · simp only [mediaWord, List.length_cons, List.length_nil] at *
    omega
  · omega

/-! ## Spans -/

section Spans

variable {Map : Type} (maps : SourceMap Map)

/-- The span of the character at an index: behind the last one that of the last, and without
characters the empty span at the start of the file. -/
def Lexer.spanAt (lexer : Lexer) (i : Nat) : Except Fault MapSpan :=
  match lexer.tokens[i]? <|> lexer.tokens.getLast? with
  | some placed => maps.subspan lexer.span placed.offset placed.stop
  | none => maps.subspan lexer.span 0 0

/-- The span of a range. -/
def Lexer.spanOf (lexer : Lexer) (start stop : Nat) : Except Fault MapSpan :=
  if stop ≤ start then lexer.spanAt maps start
  else do
    let first ← lexer.spanAt maps start
    let last ← lexer.spanAt maps (stop - 1)
    return first.merge last

/-- The span of the mark of a comment that is not closed. -/
def Lexer.unclosedSpan? (lexer : Lexer) : Except Fault (Option MapSpan) :=
  match lexer.unclosed? with
  | some offset => do
    let span ← maps.subspan lexer.span offset (offset + 2)
    return some span
  | none => return none

end Spans

/-! ## What is read -/

/-- A line end that becomes a line feed keeps its size. -/
lemma utf8Size_lineEnd (c : Char) : (PlacedChar.lineEnd c).utf8Size = c.utf8Size := by
  rw [PlacedChar.lineEnd]
  split
  · rename_i h
    rcases (by simpa using h : c = '\r' ∨ c = '\x0c') with rfl | rfl <;> decide
  · rfl

/-- A text begins with a pair of line ends, with another character, or not at all. -/
lemma placeInduction {motive : Text → Prop} (nil : motive [])
    (pair : ∀ rest, motive rest → motive ('\r' :: '\n' :: rest))
    (char : ∀ c rest, ¬ (c = '\r' ∧ rest.head? = some '\n') → motive rest → motive (c :: rest))
    (text : Text) : motive text := by
  induction hn : text.length using Nat.strong_induction_on generalizing text with
  | _ n ih =>
    subst hn
    cases text with
    | nil => exact nil
    | cons c rest =>
      by_cases hpair : c = '\r' ∧ rest.head? = some '\n'
      · obtain ⟨rfl, hhead⟩ := hpair
        obtain ⟨rest, rfl⟩ := List.head?_eq_some_iff.1 hhead
        exact pair rest (ih rest.length (by simp only [List.length_cons]; omega) rest rfl)
      · exact char c rest hpair (ih rest.length (by simp) rest rfl)

/-- A pair is placed as one line feed, at the offset of its second character. -/
lemma placeFrom_pair (offset : Nat) (rest : Text) :
    PlacedChar.placeFrom offset [] ('\r' :: '\n' :: rest) =
      ⟨'\n', offset + 1⟩ :: PlacedChar.placeFrom (offset + 2) [] rest := by
  rw [PlacedChar.placeFrom, PlacedChar.placeFrom_eq]
  rfl

/-- A character that begins no pair is placed at its offset. -/
lemma placeFrom_cons (offset : Nat) {c : Char} {rest : Text}
    (h : ¬ (c = '\r' ∧ rest.head? = some '\n')) :
    PlacedChar.placeFrom offset [] (c :: rest) =
      ⟨PlacedChar.lineEnd c, offset⟩ :: PlacedChar.placeFrom (offset + c.utf8Size) [] rest := by
  rw [PlacedChar.placeFrom, PlacedChar.placeFrom_eq]
  · rfl
  · rintro behind rfl rfl
    exact h ⟨rfl, rfl⟩

/-- A character that begins no pair is read at the cursor, and the cursor goes on by its size. -/
lemma charsFrom_cons (cursor : Nat) {c : Char} {rest : Text}
    (h : ¬ (c = '\r' ∧ rest.head? = some '\n')) :
    charsFrom cursor (c :: rest) = (do
      let next ← unsigned (cursor + (PlacedChar.lineEnd c).utf8Size)
      let behind ← charsFrom next rest
      return ⟨PlacedChar.lineEnd c, cursor⟩ :: behind) := by
  rw [charsFrom]
  rintro behind rfl rfl
  exact h ⟨rfl, rfl⟩

/-- Within 32 bits the characters are placed. -/
lemma charsFrom_eq {cursor : Nat} {text : Text} (h : cursor + Text.utf8Size text < 2 ^ 32) :
    charsFrom cursor text = .ok (PlacedChar.placeFrom cursor [] text) := by
  induction text using placeInduction generalizing cursor with
  | nil => rfl
  | pair rest ih =>
    have hsize : Text.utf8Size ('\r' :: '\n' :: rest) = 1 + (1 + Text.utf8Size rest) := rfl
    rw [hsize] at h
    rw [charsFrom, unsigned_eq (by omega), ok_bind, unsigned_eq (by omega), ok_bind,
      ih (by omega), placeFrom_pair]
    rfl
  | char c rest hpair ih =>
    rw [Text.utf8Size] at h
    rw [charsFrom_cons cursor hpair, utf8Size_lineEnd, unsigned_eq (by omega), ok_bind,
      ih (by omega), placeFrom_cons cursor hpair]
    rfl

/-- A comment ends behind the first star with a slash behind it. -/
lemma afterComment?_eq (body : List PlacedChar) :
    afterComment? PlacedChar.char body =
      ((body.zip body.tail).findIdx? fun pair => pair.1.char = '*' && pair.2.char = '/').map
        fun k => body.drop (k + 2) := by
  induction body with
  | nil => rfl
  | cons a body ih =>
    cases body with
    | nil => rfl
    | cons b rest =>
      rw [afterComment?, List.tail_cons, List.zip_cons_cons, List.findIdx?_cons]
      split
      · rfl
      · rw [ih, Option.map_map]
        rfl

/-- The comment at an index ends where the plain reader goes on. -/
lemma commentEnd_eq {raw : List PlacedChar} {start : Nat} (h : start ≤ raw.length) :
    ∃ next?, commentEnd raw start = .ok next? ∧
      afterComment? PlacedChar.char (raw.drop start) = next?.map (raw.drop ·) ∧
      ∀ next ∈ next?, start < next ∧ next ≤ raw.length := by
  have hslice : slice raw start raw.length = .ok (raw.drop start) := by
    have hwhole := (stands_drop h).slice
    rwa [List.length_drop, Nat.add_sub_cancel' h] at hwhole
  refine ⟨_, by rw [commentEnd, hslice, ok_bind]; rfl, ?_, ?_⟩
  · rw [afterComment?_eq, Option.map_map]
    congr 1
    funext k
    rw [Function.comp_apply, List.drop_drop, Nat.add_assoc]
  · intro next hnext
    obtain ⟨k, hk, rfl⟩ := Option.map_eq_some_iff.1 hnext
    have hlt := (List.findIdx?_eq_some_iff_getElem.1 hk).1
    rw [List.length_zip, List.length_tail, List.length_drop] at hlt
    omega

/-- The comments from an index on are removed. -/
lemma stripAt_eq {raw : List PlacedChar} {i : Nat} (h : i ≤ raw.length) (kept : List PlacedChar) :
    stripAt raw kept i = .ok (stripFrom PlacedChar.char kept (raw.drop i)) := by
  -- a closed comment is passed over in one step, so the induction is on what is left
  induction hn : raw.length - i using Nat.strong_induction_on generalizing i kept with
  | _ n ih =>
    subst hn
    by_cases hi : i < raw.length
    · obtain ⟨a, rest, hdrop⟩ := List.exists_cons_of_ne_nil
        (show raw.drop i ≠ [] by simpa using hi)
      have hstands : Stands raw i (a :: rest) := hdrop ▸ stands_drop h
      have hnext : raw.drop (i + 1) = rest := by
        rw [← List.drop_drop, hdrop]
        rfl
      have hstep (kept : List PlacedChar) := ih (raw.length - (i + 1)) (by omega)
        (show i + 1 ≤ raw.length by omega) kept rfl
      rw [stripAt, if_pos hi, hstands.item, ok_bind, hdrop]
      cases rest with
      | nil =>
        have hnone : raw[i + 1]? = none := by
          have hlength := congrArg List.length hnext
          rw [List.length_drop, List.length_nil] at hlength
          exact List.getElem?_eq_none (by omega)
        rw [hnone, if_neg (by simp), hstep, hnext, stripFrom_nil, stripFrom_singleton,
          List.reverse_cons]
      | cons b rest =>
        rw [hstands.tail.getElem?, Option.any_some]
        by_cases hmark : (a.char = '/' && b.char = '*') = true
        · have hlength : i + 2 ≤ raw.length := by
            have hle := hstands.stop_le
            simp only [List.length_cons] at hle
            omega
          have hbody : raw.drop (i + 2) = rest := by
            rw [← List.drop_drop, hdrop]
            rfl
          obtain ⟨next?, hend, hafter, hbound⟩ := commentEnd_eq hlength
          rw [hbody] at hafter
          rw [if_pos hmark, hend, ok_bind]
          cases next? with
          | none =>
            have hslice : slice raw i raw.length = .ok (a :: b :: rest) := by
              have hwhole := (stands_drop h).slice
              rwa [List.length_drop, Nat.add_sub_cancel' h, hdrop] at hwhole
            rw [stripFrom_unclosed kept hmark hafter]
            show (do
              let back ← slice raw i raw.length
              return Uncommented.mk (kept.reverse ++ back) (some a)) = _
            rw [hslice]
            rfl
          | some next =>
            obtain ⟨hlt, hle⟩ := hbound next rfl
            rw [stripFrom_closed kept hmark hafter]
            show (if i < next then stripAt raw kept next else .error .stuck) = _
            rw [if_pos (by omega)]
            exact ih (raw.length - next) (by omega) hle kept rfl
        · rw [if_neg hmark, hstep, hnext, stripFrom_cons kept hmark]
    · have hi : i = raw.length := by omega
      rw [stripAt, if_neg (by omega), hi, List.drop_length, stripFrom_nil]
      rfl

/-- A file within 32 bits is read. -/
lemma read_eq (span : MapSpan) {text : Text} (h : Text.utf8Size text < 2 ^ 32) :
    Lexer.read span text =
      .ok ⟨(stripComments PlacedChar.char (PlacedChar.ofText text)).kept, span,
        (stripComments PlacedChar.char (PlacedChar.ofText text)).unclosed?.map (·.offset)⟩ := by
  have hchars := @charsFrom_eq 0 text (by omega)
  rw [Lexer.read, hchars, ok_bind, stripAt_eq (Nat.zero_le _) []]
  rfl

/-! ## The cut at `@media` -/

/-- A literal can be dropped if the items begin with its characters. -/
lemma dropLiteral?_eq (literal : Text) (items : List PlacedChar) :
    Text.dropLiteral? PlacedChar.char literal items =
      if (items.take literal.length).map (·.char) = literal then some (items.drop literal.length)
      else none := by
  induction literal generalizing items with
  | nil => simp [Text.dropLiteral?]
  | cons c literal ih =>
    cases items with
    | nil => simp [Text.dropLiteral?]
    | cons a items =>
      rw [Text.dropLiteral?, ih]
      by_cases hc : a.char = c <;> simp [hc]

section Cut

variable {a : PlacedChar} {rest behind : List PlacedChar} (piece : List PlacedChar)

/-- A literal `@media` ends the piece in front of it. -/
lemma cutFrom_cons_some
    (h : Text.dropLiteral? PlacedChar.char mediaWord (a :: rest) = some behind) :
    cutFrom PlacedChar.char piece (a :: rest) =
      ⟨piece.reverse, some a⟩ :: cutFrom PlacedChar.char [] behind := by
  rw [cutFrom]
  split
  · rename_i other hother
    obtain rfl := Option.some.inj (h.symm.trans hother)
    rfl
  · rename_i hnone
    cases h.symm.trans hnone

/-- A character that begins no `@media` belongs to the piece. -/
lemma cutFrom_cons_none (h : Text.dropLiteral? PlacedChar.char mediaWord (a :: rest) = none) :
    cutFrom PlacedChar.char piece (a :: rest) = cutFrom PlacedChar.char (a :: piece) rest := by
  rw [cutFrom]
  split
  · rename_i other hother
    cases h.symm.trans hother
  · rfl

/-- A text that is shorter than `@media` is not cut. -/
lemma cutFrom_of_short {items : List PlacedChar} (h : items.length < mediaWord.length) :
    cutFrom PlacedChar.char piece items = [⟨piece.reverse ++ items, none⟩] := by
  induction items generalizing piece with
  | nil => rw [cutFrom, List.append_nil]
  | cons a rest ih =>
    have hnone : Text.dropLiteral? PlacedChar.char mediaWord (a :: rest) = none := by
      rw [dropLiteral?_eq, if_neg]
      intro heq
      have hlength := congrArg List.length heq
      rw [List.length_map, List.length_take] at hlength
      omega
    rw [cutFrom_cons_none piece hnone, ih (a :: piece) (by rw [List.length_cons] at h; omega)]
    simp

end Cut

/-- A range holds the characters of a stretch, and the next `@media` begins behind it. -/
structure IsPiece (tokens : List PlacedChar) (range : Nat × Nat) (piece : MediaPiece PlacedChar) :
    Prop extends IsRange tokens range piece.items where
  next : piece.next? = tokens[range.2]?

/-- The ranges hold the stretches. -/
lemma piecesFrom_eq {tokens piece : List PlacedChar} {start i : Nat}
    (hpiece : Stands tokens start piece.reverse) (hi : i = start + piece.length) :
    ∃ ranges, piecesFrom tokens start i = .ok ranges ∧
      List.Forall₂ (IsPiece tokens) ranges (cutFrom PlacedChar.char piece (tokens.drop i)) := by
  induction hn : tokens.length - i using Nat.strong_induction_on generalizing start i piece with
  | _ n ih =>
    subst hn
    have hle : i ≤ tokens.length := by
      have hstop := hpiece.stop_le
      rwa [List.length_reverse, ← hi] at hstop
    have hreverse : i = start + piece.reverse.length := by rwa [List.length_reverse]
    have hlong : mediaWord.length = 6 := rfl
    by_cases hword : i + mediaWord.length ≤ tokens.length
    · obtain ⟨a, rest, hdrop⟩ := List.exists_cons_of_ne_nil
        (show tokens.drop i ≠ [] by rw [Ne, List.drop_eq_nil_iff]; omega)
      have hstands : Stands tokens i (a :: rest) := hdrop ▸ stands_drop hle
      have hslice : slice tokens i (i + mediaWord.length) =
          .ok ((a :: rest).take mediaWord.length) := by
        rw [slice, if_pos ⟨by omega, hword⟩, Nat.add_sub_cancel_left, hdrop]
      have hliteral := dropLiteral?_eq mediaWord (a :: rest)
      rw [piecesFrom, if_pos hword, hslice, ok_bind, hdrop]
      by_cases hfound : ((a :: rest).take mediaWord.length).map (·.char) = mediaWord
      · have hbehind : (a :: rest).drop mediaWord.length =
            tokens.drop (i + mediaWord.length) := by
          rw [← List.drop_drop, hdrop]
        rw [if_pos hfound, hbehind] at hliteral
        obtain ⟨ranges, hranges, hall⟩ := @ih (tokens.length - (i + mediaWord.length)) (by omega)
          [] (i + mediaWord.length) (i + mediaWord.length) (stands_nil hword) rfl rfl
        refine ⟨(start, i) :: ranges, ?_, ?_⟩
        · rw [if_pos hfound, hranges]
          rfl
        · rw [cutFrom_cons_some piece hliteral]
          exact .cons ⟨⟨hpiece, hreverse⟩, hstands.getElem?.symm⟩ hall
      · rw [if_neg hfound] at hliteral
        have hlonger : Stands tokens start (a :: piece).reverse := by
          rw [List.reverse_cons]
          exact hpiece.append (hreverse ▸ hstands.head)
        have hnext : rest = tokens.drop (i + 1) := by
          rw [← List.drop_drop, hdrop]
          rfl
        rw [if_neg hfound, cutFrom_cons_none piece hliteral, hnext]
        exact ih (tokens.length - (i + 1)) (by omega) hlonger
          (by rw [List.length_cons]; omega) rfl
    · have hshort : (tokens.drop i).length < mediaWord.length := by
        rw [List.length_drop]
        omega
      refine ⟨[(start, tokens.length)], by rw [piecesFrom, if_neg hword]; rfl, ?_⟩
      rw [cutFrom_of_short piece hshort]
      refine .cons ⟨⟨hpiece.append (hreverse ▸ stands_drop hle), ?_⟩, ?_⟩ .nil
      · rw [List.length_append, List.length_drop]
        show tokens.length = start + _
        omega
      · exact (List.getElem?_eq_none (Nat.le_refl _)).symm

/-! ## Places -/

/-- Characters of a source in order, each of which begins and ends at a boundary. -/
structure Placed (source : Source) (tokens : List PlacedChar) : Prop where
  offset : ∀ placed ∈ tokens, ∃ place, source.position? placed.offset = some place
  stop : ∀ placed ∈ tokens, ∃ place, source.position? placed.stop = some place
  order : tokens.Pairwise fun first second => first.stop ≤ second.offset

/-- A part of placed characters is placed. -/
lemma Placed.sublist {source : Source} {tokens part : List PlacedChar} (h : Placed source tokens)
    (hpart : part.Sublist tokens) : Placed source part where
  offset placed hplaced := h.offset placed (hpart.subset hplaced)
  stop placed hplaced := h.stop placed (hpart.subset hplaced)
  order := h.order.sublist hpart

/-- No character is placed in front of the offset at which the text starts. -/
lemma le_of_mem_placeFrom {offset : Nat} {text : Text} {placed : PlacedChar}
    (h : placed ∈ PlacedChar.placeFrom offset [] text) : offset ≤ placed.offset := by
  induction text using placeInduction generalizing offset with
  | nil => cases h
  | pair rest ih =>
    rw [placeFrom_pair] at h
    rcases List.mem_cons.1 h with rfl | hin
    · exact Nat.le_succ offset
    · have := ih hin
      omega
  | char c rest hpair ih =>
    rw [placeFrom_cons offset hpair] at h
    rcases List.mem_cons.1 h with rfl | hin
    · exact Nat.le_refl _
    · have := ih hin
      omega

/-- The characters of a source are placed in it. -/
lemma placed_placeFrom {source : Source} {front text : Text} (h : source.text = front ++ text) :
    Placed source (PlacedChar.placeFrom (Text.utf8Size front) [] text) := by
  have boundary {before behind : Text} (hsplit : source.text = before ++ behind) :
      ∃ place, source.position? (Text.utf8Size before) = some place := by
    rw [Source.position?, hsplit]
    exact seek?_append _ before behind
  have hconcat (before : Text) (c : Char) :
      Text.utf8Size (before ++ [c]) = Text.utf8Size before + c.utf8Size :=
    utf8Size_append before [c]
  induction text using placeInduction generalizing front with
  | nil => exact ⟨nofun, nofun, .nil⟩
  | pair rest ih =>
    have hreturn : Text.utf8Size (front ++ ['\r']) = Text.utf8Size front + 1 := hconcat front '\r'
    have hfeed : Text.utf8Size (front ++ ['\r'] ++ ['\n']) = Text.utf8Size front + 2 := by
      rw [hconcat, hreturn]
      rfl
    have hbetween : source.text = (front ++ ['\r']) ++ '\n' :: rest := by simp [h]
    have hbehind : source.text = (front ++ ['\r'] ++ ['\n']) ++ rest := by simp [h]
    obtain ⟨hoffset, hstop, horder⟩ := ih hbehind
    rw [hfeed] at hoffset hstop horder
    rw [placeFrom_pair]
    refine ⟨List.forall_mem_cons.2 ⟨?_, hoffset⟩, List.forall_mem_cons.2 ⟨?_, hstop⟩,
      List.pairwise_cons.2 ⟨fun placed hplaced => le_of_mem_placeFrom hplaced, horder⟩⟩
    · rw [← hreturn]
      exact boundary hbetween
    · show ∃ place, source.position? (Text.utf8Size front + 2) = some place
      rw [← hfeed]
      exact boundary hbehind
  | char c rest hpair ih =>
    have hlonger := hconcat front c
    have hbehind : source.text = (front ++ [c]) ++ rest := by simp [h]
    obtain ⟨hoffset, hstop, horder⟩ := ih hbehind
    rw [hlonger] at hoffset hstop horder
    have hend : (PlacedChar.mk (PlacedChar.lineEnd c) (Text.utf8Size front)).stop =
        Text.utf8Size front + c.utf8Size := by
      rw [PlacedChar.stop, utf8Size_lineEnd]
    rw [placeFrom_cons _ hpair]
    refine ⟨List.forall_mem_cons.2 ⟨boundary h, hoffset⟩, List.forall_mem_cons.2 ⟨?_, hstop⟩,
      List.pairwise_cons.2 ⟨fun placed hplaced => ?_, horder⟩⟩
    · rw [hend, ← hlonger]
      exact boundary hbehind
    · rw [hend]
      exact le_of_mem_placeFrom hplaced

/-- The characters of a source are placed. -/
lemma placed_ofText (source : Source) : Placed source (PlacedChar.ofText source.text) :=
  @placed_placeFrom source [] source.text rfl

/-- A comment only takes characters out. -/
lemma sublist_stripFrom (kept items : List PlacedChar) :
    (stripFrom PlacedChar.char kept items).kept.Sublist (kept.reverse ++ items) := by
  fun_induction stripFrom PlacedChar.char kept items with
  | case1 kept a b rest hmark behind hbehind ih =>
    rw [afterComment?_eq] at hbehind
    obtain ⟨k, -, rfl⟩ := Option.map_eq_some_iff.1 hbehind
    have hrest : (rest.drop (k + 2)).Sublist (a :: b :: rest) :=
      (List.drop_sublist _ rest).trans (((List.Sublist.refl rest).cons b).cons a)
    exact ih.trans (hrest.append_left kept.reverse)
  | case2 kept a b rest hmark hnone => exact List.Sublist.refl _
  | case3 kept a b rest hmark ih => simpa using ih
  | case4 kept items hshort => exact List.Sublist.refl _

/-- A comment that is not closed begins with its mark. -/
lemma exists_mark_of_unclosed {kept items : List PlacedChar} {slash : PlacedChar}
    (h : (stripFrom PlacedChar.char kept items).unclosed? = some slash) :
    ∃ front star back, items = front ++ slash :: star :: back ∧ slash.char = '/' ∧
      star.char = '*' := by
  fun_induction stripFrom PlacedChar.char kept items with
  | case1 kept a b rest hmark behind hbehind ih =>
    rw [afterComment?_eq] at hbehind
    obtain ⟨k, -, rfl⟩ := Option.map_eq_some_iff.1 hbehind
    obtain ⟨front, star, back, heq, hslash, hstar⟩ := ih h
    refine ⟨a :: b :: rest.take (k + 2) ++ front, star, back, ?_, hslash, hstar⟩
    rw [List.append_assoc, ← heq]
    simp
  | case2 kept a b rest hmark hnone =>
    obtain rfl := Option.some.inj h
    obtain ⟨hslash, hstar⟩ : a.char = '/' ∧ b.char = '*' := by simpa using hmark
    exact ⟨[], b, rest, rfl, hslash, hstar⟩
  | case3 kept a b rest hmark ih =>
    obtain ⟨front, star, back, heq, hslash, hstar⟩ := ih h
    exact ⟨a :: front, star, back, by rw [heq]; rfl, hslash, hstar⟩
  | case4 kept items hshort => cases h

/-- A character that is not placed as a line feed is placed as it is. -/
lemma lineEnd_eq_self {c : Char} (h : PlacedChar.lineEnd c ≠ '\n') : PlacedChar.lineEnd c = c := by
  rw [PlacedChar.lineEnd] at h ⊢
  split
  · rename_i hend
    exact absurd (if_pos hend) h
  · rfl

/-- A character that ends no line is the one that stands there. -/
lemma exists_of_placeFrom_eq_cons {offset : Nat} {text : Text} {placed : PlacedChar}
    {back : List PlacedChar} (h : PlacedChar.placeFrom offset [] text = placed :: back)
    (hchar : placed.char ≠ '\n') :
    ∃ rest, text = placed.char :: rest ∧ placed.offset = offset ∧
      PlacedChar.placeFrom (offset + placed.char.utf8Size) [] rest = back := by
  induction text using placeInduction with
  | nil => cases h
  | pair rest _ =>
    rw [placeFrom_pair] at h
    obtain ⟨rfl, -⟩ := List.cons.inj h
    exact absurd rfl hchar
  | char c rest hpair _ =>
    rw [placeFrom_cons offset hpair] at h
    obtain ⟨rfl, rfl⟩ := List.cons.inj h
    refine ⟨rest, ?_, rfl, ?_⟩
    · rw [lineEnd_eq_self hchar]
    · rw [utf8Size_lineEnd]

/-- Only in front of a line feed can a character be left out. -/
lemma stop_eq_offset {offset : Nat} {text : Text} {front back : List PlacedChar}
    {first second : PlacedChar}
    (h : PlacedChar.placeFrom offset [] text = front ++ first :: second :: back)
    (hchar : second.char ≠ '\n') : first.stop = second.offset := by
  induction text using placeInduction generalizing offset front with
  | nil => simp [PlacedChar.placeFrom] at h
  | pair rest ih =>
    rw [placeFrom_pair] at h
    cases front with
    | nil =>
      obtain ⟨rfl, hrest⟩ := List.cons.inj h
      obtain ⟨-, -, hoffset, -⟩ := exists_of_placeFrom_eq_cons hrest hchar
      exact hoffset.symm
    | cons placed front => exact ih (List.cons.inj h).2
  | char c rest hpair ih =>
    rw [placeFrom_cons offset hpair] at h
    cases front with
    | nil =>
      obtain ⟨rfl, hrest⟩ := List.cons.inj h
      obtain ⟨-, -, hoffset, -⟩ := exists_of_placeFrom_eq_cons hrest hchar
      rw [hoffset, PlacedChar.stop, utf8Size_lineEnd]
    | cons placed front => exact ih (List.cons.inj h).2

/-! ## Spans -/

/-- A span of a source map is a span of one of its files and can be looked up. -/
structure Locates (file : MapFile) (mapSpan : MapSpan) (span : Span) : Prop where
  source : span.source = file.source
  order : span.start ≤ span.stop
  low : mapSpan.low = file.low + span.start
  high : mapSpan.high = file.low + span.stop
  start : ∃ place, file.source.position? span.start = some place
  stop : ∃ place, file.source.position? span.stop = some place

/-- The tokens are those of a file. -/
structure Lexer.Of (file : MapFile) (lexer : Lexer) : Prop where
  span : lexer.span = file.span
  placed : Placed file.source lexer.tokens

section Spans

variable {Map : Type} {maps : SourceMap Map} {file : MapFile} {mapSpan : MapSpan} {span : Span}
  {lexer : Lexer} {i : Nat} {part : List PlacedChar}

/-- A look-up gives the location of the span. -/
lemma Locates.lookUp (h : Locates file mapSpan span) (hmaps : maps.Lawful) {map : Map}
    (hfile : file ∈ maps.files map) :
    ∃ location, maps.lookUp map mapSpan = .ok location ∧ span.location? = some location := by
  obtain ⟨hsource, horder, hlow, hhigh, ⟨first, hfirst⟩, ⟨last, hlast⟩⟩ := h
  refine ⟨⟨file.source.name, first, last⟩, ?_, ?_⟩
  · rw [← hmaps.lookUp map file hfile _ _ first last horder hfirst hlast, ← hlow, ← hhigh]
  · rw [Span.location?, hsource, hfirst, hlast]
    rfl

/-- A lawful source map finds the span between two positions of a file. -/
lemma subspan_eq (hmaps : maps.Lawful) {start stop : Nat} (hle : start ≤ stop)
    (hstart : ∃ place, file.source.position? start = some place)
    (hstop : ∃ place, file.source.position? stop = some place) :
    Succeeds (maps.subspan file.span start stop)
      (Locates file · ⟨file.source, start, stop⟩) := by
  obtain ⟨place, hplace⟩ := hstop
  have hsize := le_of_seek? hplace
  exact ⟨_, hmaps.subspan file.span start stop hle (Nat.add_le_add_left hsize _),
    rfl, hle, rfl, rfl, hstart, place, hplace⟩

/-- The span of a token. -/
lemma subspan_token (hmaps : maps.Lawful) (hlexer : lexer.Of file) {placed : PlacedChar}
    (h : placed ∈ lexer.tokens) :
    Succeeds (maps.subspan lexer.span placed.offset placed.stop)
      (Locates file · ⟨file.source, placed.offset, placed.stop⟩) := by
  rw [hlexer.span]
  exact subspan_eq hmaps (Nat.le_add_right _ _) (hlexer.placed.offset placed h)
    (hlexer.placed.stop placed h)

/-- The span at an index covers the character there, or else the last one. -/
lemma spanAt_covers (hmaps : maps.Lawful) (hlexer : lexer.Of file) (i : Nat) :
    Succeeds (lexer.spanAt maps i)
      (Locates file · (.covering file.source
        (lexer.tokens[i]? <|> lexer.tokens.getLast?).toList)) := by
  rw [Lexer.spanAt]
  cases hplaced : (lexer.tokens[i]? <|> lexer.tokens.getLast?) with
  | none =>
    have hstart : ∃ place, file.source.position? 0 = some place :=
      ⟨⟨0, 0⟩, by rw [Source.position?, Position.seek?]⟩
    rw [hlexer.span]
    exact subspan_eq hmaps (Nat.le_refl 0) hstart hstart
  | some placed =>
    apply subspan_token hmaps hlexer
    cases hi : lexer.tokens[i]? with
    | some other =>
      rw [hi] at hplaced
      obtain rfl := Option.some.inj hplaced
      exact List.mem_of_getElem? hi
    | none =>
      rw [hi] at hplaced
      exact List.mem_of_getLast? hplaced

/-- The span of a range covers its characters. -/
lemma spanOf_covers (hmaps : maps.Lawful) (hlexer : lexer.Of file)
    (hpart : Stands lexer.tokens i part) (hne : part ≠ []) :
    Succeeds (lexer.spanOf maps i (i + part.length))
      (Locates file · (.covering file.source part)) := by
  obtain ⟨first, rest, rfl⟩ := List.exists_cons_of_ne_nil hne
  obtain ⟨front, last, hlast⟩ := (List.eq_nil_or_concat' (first :: rest)).resolve_left hne
  have hspanLast : lexer.tokens[i + (first :: rest).length - 1]? = some last := by
    have hend : i + (first :: rest).length - 1 = i + front.length := by
      rw [hlast, List.length_append, List.length_singleton]
      omega
    rw [hlast] at hpart
    rw [hend, hpart.right.getElem?]
  have hcovering : Span.covering file.source (first :: rest) =
      ⟨file.source, first.offset, last.stop⟩ := by
    rw [Span.covering, hlast, List.getLast?_concat, ← hlast]
    rfl
  -- the first token begins first, and the last one ends last
  have horder : first.offset ≤ last.offset ∧ first.stop ≤ last.stop := by
    have hsorted := hlexer.placed.order.sublist
      (hpart.front.sublist.trans (List.drop_sublist i lexer.tokens))
    have hmem : last ∈ first :: rest := by
      rw [hlast]
      exact List.mem_append_right _ List.mem_cons_self
    rcases List.mem_cons.1 hmem with rfl | hin
    · exact ⟨Nat.le_refl _, Nat.le_refl _⟩
    · have hle := (List.pairwise_cons.1 hsorted).1 last hin
      rw [PlacedChar.stop] at hle ⊢
      rw [PlacedChar.stop]
      omega
  have hspanFirst := spanAt_covers hmaps hlexer i
  have hspanBack := spanAt_covers hmaps hlexer (i + (first :: rest).length - 1)
  rw [hpart.getElem?] at hspanFirst
  rw [hspanLast] at hspanBack
  rw [Lexer.spanOf, if_neg (by rw [List.length_cons]; omega), hcovering]
  refine hspanFirst.bind fun spanFirst hfirst => hspanBack.bind fun spanLast hback => ?_
  apply succeeds_ok
  have hlow : min spanFirst.low spanLast.low = file.low + first.offset := by
    rw [hfirst.low, hback.low]
    exact Nat.min_eq_left (Nat.add_le_add_left horder.1 _)
  have hhigh : max spanFirst.high spanLast.high = file.low + last.stop := by
    rw [hfirst.high, hback.high]
    exact Nat.max_eq_right (Nat.add_le_add_left horder.2 _)
  exact ⟨rfl, horder.1.trans (Nat.le_add_right _ _), hlow, hhigh, hfirst.start, hback.stop⟩

/-- The span of a comment that is not closed covers its mark. -/
lemma unclosedSpan?_covers (hmaps : maps.Lawful) {tokens : List PlacedChar} {slash : PlacedChar}
    (h : (stripComments PlacedChar.char (PlacedChar.ofText file.source.text)).unclosed? =
      some slash) :
    Succeeds (Lexer.unclosedSpan? maps ⟨tokens, file.span, some slash.offset⟩) fun span? =>
      ∃ mapSpan, span? = some mapSpan ∧
        Locates file mapSpan ⟨file.source, slash.offset, slash.offset + 2⟩ := by
  obtain ⟨front, star, back, heq, hslash, hstar⟩ := exists_mark_of_unclosed h
  have hplaced := placed_ofText file.source
  have hadjacent : slash.stop = star.offset := stop_eq_offset heq (by rw [hstar]; decide)
  have hstop : star.stop = slash.offset + 2 := by
    have hsize : slash.stop = slash.offset + 1 := by
      rw [PlacedChar.stop, hslash]
      rfl
    rw [PlacedChar.stop, ← hadjacent, hsize, hstar]
    rfl
  have hstart := hplaced.offset slash (heq ▸ by simp)
  have hend := hplaced.stop star (heq ▸ by simp)
  rw [hstop] at hend
  refine (subspan_eq hmaps (Nat.le_add_right _ 2) hstart hend).bind fun mapSpan hspan => ?_
  exact succeeds_ok ⟨mapSpan, rfl, hspan⟩

end Spans

end CssPrune.Checked
