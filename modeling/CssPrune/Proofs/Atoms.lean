import CssPrune.Css.Minifier
import CssPrune.Proofs.Words

/-!
# Atoms

A stylesheet taken apart into quoted literals and the characters outside of them that are not blank,
each with the blanks in front of it (`split`). A literal goes from a quote through the next equal
quote that no backslash takes. If there is none it goes to the end of the text, so only the last
atom can be such a literal.

A split of this shape (`Split.Sound`) is the one of its text, and every text has one: `split` and
`Split.text` undo each other (`text_split`, `Split.Sound.split_text`).
-/

namespace CssPrune.Css

open Text

/-! ## Literals -/

/-- Whether a character opens a literal. -/
def isQuote (c : Char) : Bool :=
  c = doubleQuote || c = singleQuote

/-- Whether a backslash takes what follows the inside of a literal; none if a quote ends the literal
before. `taken` tells whether a backslash takes the first character. -/
def takesNext? (quote : Char) (taken : Bool) : Text → Option Bool
  | [] => some taken
  | c :: rest =>
    if c = quote && !taken then none else takesNext? quote (c = '\\' && !taken) rest

/-- The inside of a literal, and what stands behind its closing quote; nothing does if it is not
closed. -/
def cutLiteral (quote : Char) (taken : Bool) : Text → Text × Option Text
  | [] => ([], none)
  | c :: rest =>
    if c = quote && !taken then ([], some rest)
    else
      let (body, behind?) := cutLiteral quote (c = '\\' && !taken) rest
      (c :: body, behind?)

section Literals

variable {quote : Char} {taken : Bool} {body behind text : Text}

/-- A body that leaves its closing quote free is cut off at that quote. -/
lemma cutLiteral_closed (h : takesNext? quote taken body = some false) (behind : Text) :
    cutLiteral quote taken (body ++ quote :: behind) = (body, some behind) := by
  induction body generalizing taken with
  | nil =>
    obtain rfl : taken = false := Option.some.inj h
    simp [cutLiteral]
  | cons c rest ih =>
    rw [takesNext?] at h
    rw [List.cons_append, cutLiteral]
    split at h
    · cases h
    · rename_i hend
      rw [if_neg hend, ih h]

/-- A body without a free closing quote is the whole text. -/
lemma cutLiteral_unclosed (h : (takesNext? quote taken body).isSome = true) :
    cutLiteral quote taken body = (body, none) := by
  induction body generalizing taken with
  | nil => rfl
  | cons c rest ih =>
    rw [takesNext?] at h
    rw [cutLiteral]
    split at h
    · cases h
    · rename_i hend
      rw [if_neg hend, ih h]

/-- A closed literal is followed by its quote, which nothing in its body takes or is. -/
lemma of_cutLiteral_closed (h : cutLiteral quote taken text = (body, some behind)) :
    text = body ++ quote :: behind ∧ takesNext? quote taken body = some false := by
  induction text generalizing taken body with
  | nil => cases h
  | cons c rest ih =>
    rw [cutLiteral] at h
    split at h
    · rename_i hend
      obtain ⟨rfl, hbehind⟩ := Prod.mk.inj h
      obtain ⟨rfl, rfl⟩ : c = quote ∧ taken = false := by simpa using hend
      obtain rfl := Option.some.inj hbehind
      exact ⟨rfl, rfl⟩
    · rename_i hend
      obtain ⟨rfl, hbehind⟩ := Prod.mk.inj h
      obtain ⟨hrest, hinside⟩ := ih (Prod.ext rfl hbehind)
      refine ⟨congrArg (c :: ·) hrest, ?_⟩
      rw [takesNext?, if_neg hend]
      exact hinside

/-- The body of an unclosed literal is the whole text and holds no free closing quote. -/
lemma of_cutLiteral_unclosed (h : cutLiteral quote taken text = (body, none)) :
    text = body ∧ (takesNext? quote taken body).isSome = true := by
  induction text generalizing taken body with
  | nil =>
    obtain ⟨rfl, -⟩ := Prod.mk.inj h
    exact ⟨rfl, rfl⟩
  | cons c rest ih =>
    rw [cutLiteral] at h
    split at h
    · cases h
    · rename_i hend
      obtain ⟨rfl, hbehind⟩ := Prod.mk.inj h
      obtain ⟨hrest, hinside⟩ := ih (Prod.ext rfl hbehind)
      refine ⟨congrArg (c :: ·) hrest, ?_⟩
      rw [takesNext?, if_neg hend]
      exact hinside

/-- There are two quotes. -/
lemma isQuote_iff : isQuote quote = true ↔ quote = doubleQuote ∨ quote = singleQuote := by
  rw [isQuote, Bool.or_eq_true, decide_eq_true_eq, decide_eq_true_eq]

/-- What holds of both quotes holds of a quote. -/
lemma of_isQuote (h : isQuote quote = true) :
    isBlank quote = false ∧ quote ≠ '\\' ∧ isSeparator quote = false := by
  rcases isQuote_iff.1 h with rfl | rfl
  · decide
  · decide

end Literals

/-! ## Atoms and splits -/

/-- What a stylesheet is made of, its blanks apart. -/
inductive Atom where
  /-- A literal with what stands behind its first quote, up to the closing one if there is one. -/
  | literal (quote : Char) (body : Text) (closed : Bool)
  /-- A character outside of literals. -/
  | sign (c : Char)
  deriving DecidableEq, Repr

namespace Atom

/-- An atom as it is written. -/
def text : Atom → Text
  | literal quote body closed => quote :: (body ++ if closed then [quote] else [])
  | sign c => [c]

/-- Whether something can stand behind the atom. -/
def isClosed : Atom → Bool
  | literal _ _ closed => closed
  | sign _ => true

/-- Whether blanks beside the atom say nothing. -/
def isSeparator : Atom → Bool
  | literal _ _ _ => false
  | sign c => Css.isSeparator c

/-- A literal ends at the first quote that can end it, and a sign is neither blank nor a quote. -/
def WellFormed : Atom → Prop
  | literal quote body true => isQuote quote = true ∧ takesNext? quote false body = some false
  | literal quote body false => isQuote quote = true ∧ (takesNext? quote false body).isSome = true
  | sign c => isBlank c = false ∧ isQuote c = false

end Atom

/-- An atom and the blanks in front of it. -/
structure SpacedAtom where
  blanks : Text
  atom : Atom
  deriving DecidableEq, Repr

/-- The text of some atoms with their blanks. -/
def piecesText (pieces : List SpacedAtom) : Text :=
  pieces.flatMap fun piece => piece.blanks ++ piece.atom.text

/-- A text taken apart: its atoms, and the blanks behind the last one. -/
structure Split where
  pieces : List SpacedAtom
  tail : Text
  deriving DecidableEq, Repr

namespace Split

/-- A split with one more piece in front. -/
def cons (piece : SpacedAtom) (split : Split) : Split :=
  ⟨piece :: split.pieces, split.tail⟩

/-- The text that was taken apart. -/
def text (split : Split) : Text :=
  piecesText split.pieces ++ split.tail

/-- The atoms without their blanks. -/
def atoms (split : Split) : List Atom :=
  split.pieces.map (·.atom)

/-- What stands between atoms is blank, each atom ends where it has to, and only the last one can
be a literal that is not closed, with nothing behind it. -/
structure Sound (split : Split) : Prop where
  atoms : ∀ piece ∈ split.pieces, piece.atom.WellFormed
  blanks : ∀ piece ∈ split.pieces, AllBlank piece.blanks
  tail : AllBlank split.tail
  closed : split.pieces.Pairwise fun first _ => first.atom.isClosed = true
  unclosed : ∀ piece ∈ split.pieces, piece.atom.isClosed = false → split.tail = []

end Split

/-- Nothing longer than the text stands behind a literal. -/
lemma length_cutLiteral_le {quote : Char} {taken : Bool} {text body behind : Text}
    (h : cutLiteral quote taken text = (body, some behind)) : behind.length ≤ text.length := by
  obtain ⟨rfl, -⟩ := of_cutLiteral_closed h
  simp only [List.length_append, List.length_cons]
  omega

/-- Takes apart what follows some blanks, the last of which comes first. -/
def splitFrom (blanks : Text) : Text → Split
  | [] => ⟨[], blanks.reverse⟩
  | c :: rest =>
    if isBlank c then splitFrom (c :: blanks) rest
    else if isQuote c then
      match _h : cutLiteral c false rest with
      | (body, some behind) => (splitFrom [] behind).cons ⟨blanks.reverse, .literal c body true⟩
      | (body, none) => ⟨[⟨blanks.reverse, .literal c body false⟩], []⟩
    else (splitFrom [] rest).cons ⟨blanks.reverse, .sign c⟩
termination_by text => text.length
decreasing_by
  · simp
  · have := length_cutLiteral_le _h
    simp only [List.length_cons]
    omega
  · simp

/-- Takes a text apart. -/
def split (text : Text) : Split :=
  splitFrom [] text

/-! ## A split is one of its text -/

/-- A piece that is put in front of a split is written in front of it. -/
lemma Split.text_cons (piece : SpacedAtom) (split : Split) :
    (split.cons piece).text = piece.blanks ++ (piece.atom.text ++ split.text) := by
  simp [cons, text, piecesText]

/-- The pieces that a text is split into are the text again, behind the blanks that wait. -/
lemma text_splitFrom (blanks text : Text) :
    (splitFrom blanks text).text = blanks.reverse ++ text := by
  fun_induction splitFrom blanks text with
  | case1 blanks => simp [Split.text, piecesText]
  | case2 blanks c rest _ ih => simp [ih]
  | case3 blanks c rest _ _ body behind h ih =>
    obtain ⟨rfl, -⟩ := of_cutLiteral_closed h
    rw [Split.text_cons, ih]
    simp [Atom.text]
  | case4 blanks c rest _ _ body h =>
    obtain ⟨rfl, -⟩ := of_cutLiteral_unclosed h
    simp [Split.text, piecesText, Atom.text]
  | case5 blanks c rest _ _ ih =>
    rw [Split.text_cons, ih]
    simp [Atom.text]

/-- The pieces of a text make it up. -/
lemma text_split (text : Text) : (split text).text = text :=
  text_splitFrom [] text

/-- A piece in front of a sound split makes a sound split if something can stand behind it. -/
lemma Split.Sound.cons {split : Split} (h : split.Sound) {piece : SpacedAtom}
    (hatom : piece.atom.WellFormed) (hblanks : AllBlank piece.blanks)
    (hclosed : piece.atom.isClosed = true) : (split.cons piece).Sound where
  atoms := List.forall_mem_cons.2 ⟨hatom, h.atoms⟩
  blanks := List.forall_mem_cons.2 ⟨hblanks, h.blanks⟩
  tail := h.tail
  closed := List.pairwise_cons.2 ⟨fun _ _ => hclosed, h.closed⟩
  unclosed := List.forall_mem_cons.2 ⟨fun hopen => by simp [hclosed] at hopen, h.unclosed⟩

/-- Blanks are blanks from behind as well. -/
lemma allBlank_reverse {blanks : Text} (h : AllBlank blanks) : AllBlank blanks.reverse :=
  fun c hc => h c (List.mem_reverse.1 hc)

/-- What follows some blanks is split into a sound split. -/
lemma sound_splitFrom {blanks : Text} (hblanks : AllBlank blanks) (text : Text) :
    (splitFrom blanks text).Sound := by
  fun_induction splitFrom blanks text with
  | case1 blanks =>
    exact ⟨nofun, nofun, allBlank_reverse hblanks, .nil, nofun⟩
  | case2 blanks c rest hc ih => exact ih (allBlank_cons.2 ⟨hc, hblanks⟩)
  | case3 blanks c rest _ hquote body behind h ih =>
    have hatom : (Atom.literal c body true).WellFormed := ⟨hquote, (of_cutLiteral_closed h).2⟩
    exact (ih allBlank_nil).cons hatom (allBlank_reverse hblanks) rfl
  | case4 blanks c rest _ hquote body h =>
    obtain ⟨-, hinside⟩ := of_cutLiteral_unclosed h
    have hatom : (Atom.literal c body false).WellFormed := ⟨hquote, hinside⟩
    have hfirst : AllBlank blanks.reverse := allBlank_reverse hblanks
    exact ⟨List.forall_mem_singleton.2 hatom, List.forall_mem_singleton.2 hfirst, allBlank_nil,
      List.pairwise_singleton _ _, fun _ _ _ => rfl⟩
  | case5 blanks c rest hc hquote ih =>
    have hatom : (Atom.sign c).WellFormed := ⟨by simpa using hc, by simpa using hquote⟩
    exact (ih allBlank_nil).cons hatom (allBlank_reverse hblanks) rfl

/-- Every text is split into a sound split. -/
lemma sound_split (text : Text) : (split text).Sound :=
  sound_splitFrom allBlank_nil text

/-! ## A text has one split -/

section Steps

variable (done : Text)

/-- Blanks wait for the atom behind them. -/
lemma splitFrom_blanks {blanks : Text} (h : AllBlank blanks) (text : Text) :
    splitFrom done (blanks ++ text) = splitFrom (blanks.reverse ++ done) text := by
  induction blanks generalizing done with
  | nil => rfl
  | cons c blanks ih =>
    obtain ⟨hc, hblanks⟩ := allBlank_cons.1 h
    rw [List.cons_append, splitFrom, if_pos hc, ih _ hblanks, List.reverse_cons, List.append_assoc]
    rfl

/-- A sign outside of literals is an atom of its own and takes the blanks that wait. -/
lemma splitFrom_sign {c : Char} (h : (Atom.sign c).WellFormed) (text : Text) :
    splitFrom done (c :: text) = (splitFrom [] text).cons ⟨done.reverse, .sign c⟩ := by
  obtain ⟨hblank, hquote⟩ := h
  rw [splitFrom, if_neg (by simp [hblank]), if_neg (by simp [hquote])]

/-- A literal that is closed is one atom, and the split goes on behind it. -/
lemma splitFrom_closed {quote : Char} {body : Text} (h : (Atom.literal quote body true).WellFormed)
    (behind : Text) :
    splitFrom done (quote :: (body ++ quote :: behind)) =
      (splitFrom [] behind).cons ⟨done.reverse, .literal quote body true⟩ := by
  obtain ⟨hquote, hinside⟩ := h
  have hcut := cutLiteral_closed hinside behind
  rw [splitFrom, if_neg (by simp [(of_isQuote hquote).1]), if_pos hquote]
  split
  · rename_i other rest heq
    obtain ⟨rfl, hrest⟩ := Prod.mk.inj (hcut.symm.trans heq)
    rw [Option.some.inj hrest]
  · rename_i other heq
    cases hcut.symm.trans heq

/-- A literal that is not closed is the last atom. -/
lemma splitFrom_unclosed {quote : Char} {body : Text}
    (h : (Atom.literal quote body false).WellFormed) :
    splitFrom done (quote :: body) = ⟨[⟨done.reverse, .literal quote body false⟩], []⟩ := by
  obtain ⟨hquote, hinside⟩ := h
  have hcut := cutLiteral_unclosed hinside
  rw [splitFrom, if_neg (by simp [(of_isQuote hquote).1]), if_pos hquote]
  split
  · rename_i other rest heq
    cases hcut.symm.trans heq
  · rename_i other heq
    obtain ⟨rfl, -⟩ := Prod.mk.inj (hcut.symm.trans heq)
    rfl

end Steps

/-- A split is taken apart piece by piece: the first atom is closed or nothing stands behind it. -/
lemma Split.Sound.of_cons {piece : SpacedAtom} {split : Split} (h : (split.cons piece).Sound) :
    split.Sound ∧ (piece.atom.isClosed = true ∨ split = ⟨[], []⟩) := by
  obtain ⟨hatoms, hblanks, htail, hclosed, hunclosed⟩ := h
  obtain ⟨hfirst, hrest⟩ := List.pairwise_cons.1 hclosed
  obtain ⟨hopen, hopenRest⟩ := List.forall_mem_cons.1 hunclosed
  refine ⟨⟨(List.forall_mem_cons.1 hatoms).2, (List.forall_mem_cons.1 hblanks).2, htail, hrest,
    hopenRest⟩, ?_⟩
  cases hpiece : piece.atom.isClosed with
  | true => exact Or.inl rfl
  | false =>
    obtain ⟨pieces, tail⟩ := split
    obtain rfl : tail = [] := hopen hpiece
    cases pieces with
    | nil => exact Or.inr rfl
    | cons second pieces => exact absurd (hfirst second List.mem_cons_self) (by simp [hpiece])

/-- A sound split is the split of its text. -/
lemma Split.Sound.split_text {s : Split} (h : s.Sound) : split s.text = s := by
  obtain ⟨pieces, tail⟩ := s
  induction pieces with
  | nil =>
    have hblanks := splitFrom_blanks [] h.tail []
    rw [List.append_nil, List.append_nil] at hblanks
    show splitFrom [] tail = _
    rw [hblanks, splitFrom, List.reverse_reverse]
  | cons piece pieces ih =>
    obtain ⟨blanks, atom⟩ := piece
    have hcons : (Split.cons ⟨blanks, atom⟩ ⟨pieces, tail⟩).Sound := h
    obtain ⟨hrest, hlast⟩ := hcons.of_cons
    have hatom : atom.WellFormed := h.atoms _ List.mem_cons_self
    have hsplit : splitFrom [] (Split.text ⟨pieces, tail⟩) = ⟨pieces, tail⟩ := ih hrest
    have htext := Split.text_cons ⟨blanks, atom⟩ ⟨pieces, tail⟩
    show splitFrom [] ((Split.cons ⟨blanks, atom⟩ ⟨pieces, tail⟩).text) = _
    rw [htext, splitFrom_blanks _ (h.blanks _ List.mem_cons_self), List.append_nil]
    cases atom with
    | sign c =>
      rw [Atom.text, List.singleton_append, splitFrom_sign _ hatom, hsplit, List.reverse_reverse]
      rfl
    | literal quote body closed =>
      cases closed with
      | true =>
        have hwritten : (Atom.literal quote body true).text ++ Split.text ⟨pieces, tail⟩ =
            quote :: (body ++ quote :: Split.text ⟨pieces, tail⟩) := by simp [Atom.text]
        rw [hwritten, splitFrom_closed _ hatom, hsplit, List.reverse_reverse]
        rfl
      | false =>
        obtain ⟨rfl, rfl⟩ := Split.mk.inj (hlast.resolve_left nofun)
        have hwritten : (Atom.literal quote body false).text ++ Split.text ⟨[], []⟩ =
            quote :: body := by simp [Atom.text, Split.text, piecesText]
        rw [hwritten, splitFrom_unclosed _ hatom, List.reverse_reverse]

end CssPrune.Css
