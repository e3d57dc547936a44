import CssPrune.Proofs.Atoms

/-!
# What the minifier keeps

The minifier reads a text from left to right and looks back at the output that it has written. Seen
atom by atom it drops each semicolon that stands directly before a closing brace and writes the
other atoms with a space or nothing between them; its output splits into exactly these
(`minify_split`).

It drops one semicolon before a brace and not all of them, so a second pass drops the next one.
Minifying twice is minifying once exactly if no closing brace follows two semicolons
(`minify_minify_iff`).
-/

namespace CssPrune.Css

open Text

/-! ## Semicolons before closing braces -/

section Semicolons

variable {α : Type}

/-- Drops each semicolon that stands directly before a closing brace. -/
def dropSemicolons (atom : α → Atom) : List α → List α
  | [] => []
  | [item] => [item]
  | first :: second :: rest =>
    if atom first = .sign ';' ∧ atom second = .sign '}' then second :: dropSemicolons atom rest
    else first :: dropSemicolons atom (second :: rest)

/-- Dropping semicolons leaves some of the items, in order. -/
lemma sublist_dropSemicolons (atom : α → Atom) (items : List α) :
    (dropSemicolons atom items).Sublist items := by
  fun_induction dropSemicolons atom items with
  | case1 => exact List.Sublist.refl []
  | case2 item => exact List.Sublist.refl [item]
  | case3 first second rest _ ih => exact (ih.cons_cons second).cons first
  | case4 first second rest _ ih => exact ih.cons_cons first

/-- Semicolons are dropped by their atoms alone. -/
lemma map_dropSemicolons (atom : α → Atom) (items : List α) :
    (dropSemicolons atom items).map atom = dropSemicolons id (items.map atom) := by
  fun_induction dropSemicolons atom items with
  | case1 => rfl
  | case2 item => rfl
  | case3 first second rest h ih =>
    rw [List.map_cons, ih]
    exact (if_pos h).symm
  | case4 first second rest h ih =>
    rw [List.map_cons, ih]
    exact (if_neg h).symm

/-- The pair of atoms of which the first is dropped. -/
def semicolonBrace : List Atom :=
  [.sign ';', .sign '}']

/-- The pair stands at the front if the first two atoms are its atoms. -/
lemma semicolonBrace_prefix_iff {first second : Atom} {rest : List Atom} :
    semicolonBrace <+: first :: second :: rest ↔ first = .sign ';' ∧ second = .sign '}' := by
  simp only [semicolonBrace, List.cons_prefix_cons, List.nil_prefix, and_true]
  exact and_congr eq_comm eq_comm

/-- A closing brace is at the front afterwards if it was, or if a semicolon stood before it. -/
lemma brace_prefix_dropSemicolons (atoms : List Atom) :
    [.sign '}'] <+: dropSemicolons id atoms ↔ [.sign '}'] <+: atoms ∨ semicolonBrace <+: atoms := by
  fun_induction dropSemicolons id atoms with
  | case1 => simp [semicolonBrace]
  | case2 item => simp [semicolonBrace, List.cons_prefix_cons]
  | case3 first second rest h _ =>
    obtain ⟨rfl, rfl⟩ : first = .sign ';' ∧ second = .sign '}' := h
    simp [semicolonBrace, List.cons_prefix_cons]
  | case4 first second rest h _ =>
    have hpair : ¬ semicolonBrace <+: first :: second :: rest :=
      mt semicolonBrace_prefix_iff.1 h
    simp [hpair, List.cons_prefix_cons]

/-- A pair is left where two semicolons stood before a brace. -/
lemma semicolonBrace_infix_dropSemicolons (atoms : List Atom) :
    semicolonBrace <:+: dropSemicolons id atoms ↔ .sign ';' :: semicolonBrace <:+: atoms := by
  fun_induction dropSemicolons id atoms with
  | case1 => simp [semicolonBrace]
  | case2 item =>
    refine iff_of_false ?_ ?_
    · exact fun h => absurd h.length_le (by simp [semicolonBrace])
    · exact fun h => absurd h.length_le (by simp [semicolonBrace])
  | case3 first second rest h ih =>
    obtain ⟨rfl, rfl⟩ : first = .sign ';' ∧ second = .sign '}' := h
    rw [List.infix_cons_iff, ih, List.infix_cons_iff, List.infix_cons_iff]
    simp [semicolonBrace, List.cons_prefix_cons]
  | case4 first second rest h ih =>
    have hfirst : semicolonBrace <+: first :: dropSemicolons id (second :: rest) ↔
        .sign ';' :: semicolonBrace <+: first :: second :: rest := by
      rw [List.cons_prefix_cons (b := first), semicolonBrace, List.cons_prefix_cons (b := first),
        brace_prefix_dropSemicolons]
      refine and_congr_right ?_
      intro hsemicolon
      refine or_iff_right ?_
      intro hbrace
      exact h ⟨hsemicolon.symm, (List.cons_prefix_cons.1 hbrace).1.symm⟩
    rw [List.infix_cons_iff, hfirst, ih, ← List.infix_cons_iff]

/-- Nothing is dropped exactly if there is no such pair. -/
lemma dropSemicolons_eq_self_iff (atoms : List Atom) :
    dropSemicolons id atoms = atoms ↔ ¬ semicolonBrace <:+: atoms := by
  fun_induction dropSemicolons id atoms with
  | case1 => simp [semicolonBrace]
  | case2 item => simp [semicolonBrace, List.infix_cons_iff, List.cons_prefix_cons]
  | case3 first second rest h ih =>
    obtain ⟨rfl, rfl⟩ : first = .sign ';' ∧ second = .sign '}' := h
    simp [semicolonBrace, List.infix_cons_iff, List.cons_prefix_cons]
  | case4 first second rest h ih =>
    have hpair : ¬ semicolonBrace <+: first :: second :: rest :=
      mt semicolonBrace_prefix_iff.1 h
    have hrest : semicolonBrace <:+: first :: second :: rest ↔ semicolonBrace <:+: second :: rest :=
      List.infix_cons_iff.trans (or_iff_right hpair)
    rw [List.cons_inj_right, ih, hrest]

end Semicolons

/-! ## Blanks between atoms -/

/-- What is left of the blanks between an atom and the piece behind it. -/
def spaceBehind (before : Atom) (piece : SpacedAtom) : Text :=
  if !piece.blanks.isEmpty && !piece.atom.isSeparator && !before.isSeparator then [' '] else []

/-- A piece with what is left of its blanks behind an atom, or at the start of a text. -/
def SpacedAtom.respaced (before? : Option Atom) (piece : SpacedAtom) : SpacedAtom :=
  ⟨before?.elim [] (spaceBehind · piece), piece.atom⟩

/-- Pieces with what is left of their blanks. -/
def respace (before? : Option Atom) : List SpacedAtom → List SpacedAtom
  | [] => []
  | piece :: rest => piece.respaced before? :: respace (some piece.atom) rest

/-- Blanks that are left out do not change the atom. -/
@[simp]
lemma SpacedAtom.atom_respaced (before? : Option Atom) (piece : SpacedAtom) :
    (piece.respaced before?).atom = piece.atom := rfl

/-- A separator has no blanks left. -/
lemma blanks_respaced_separator {piece : SpacedAtom} (h : piece.atom.isSeparator = true)
    (before? : Option Atom) : (piece.respaced before?).blanks = [] := by
  cases before? with
  | none => rfl
  | some before => simp [SpacedAtom.respaced, spaceBehind, h]

/-- Blanks that were reduced stay as they are. -/
lemma SpacedAtom.respaced_respaced (before? : Option Atom) (piece : SpacedAtom) :
    (piece.respaced before?).respaced before? = piece.respaced before? := by
  cases before? with
  | none => rfl
  | some before =>
    obtain ⟨blanks, atom⟩ := piece
    simp only [respaced, Option.elim_some, spaceBehind, SpacedAtom.mk.injEq, and_true]
    split <;> simp_all

/-- Pieces whose blanks were reduced stay as they are. -/
lemma respace_respace (before? : Option Atom) (pieces : List SpacedAtom) :
    respace before? (respace before? pieces) = respace before? pieces := by
  induction pieces generalizing before? with
  | nil => rfl
  | cons piece rest ih => exact congrArg₂ List.cons (piece.respaced_respaced before?) (ih _)

/-- Reducing the blanks keeps the atoms. -/
lemma map_atom_respace (before? : Option Atom) (pieces : List SpacedAtom) :
    (respace before? pieces).map (·.atom) = pieces.map (·.atom) := by
  induction pieces generalizing before? with
  | nil => rfl
  | cons piece rest ih => exact congrArg (piece.atom :: ·) (ih _)

/-- Behind the first piece, the blanks are what is left between neighbours. -/
lemma tail_respace (before? : Option Atom) (pieces : List SpacedAtom) :
    (respace before? pieces).tail.map (·.blanks) =
      List.zipWith spaceBehind (pieces.map (·.atom)) pieces.tail := by
  induction pieces generalizing before? with
  | nil => rfl
  | cons piece rest ih =>
    cases rest with
    | nil => rfl
    | cons second rest => exact congrArg (spaceBehind piece.atom second :: ·) (ih (some piece.atom))

/-- What is left of blanks is blank. -/
lemma allBlank_blanks_respaced (before? : Option Atom) (piece : SpacedAtom) :
    AllBlank (piece.respaced before?).blanks := by
  cases before? with
  | none => exact allBlank_nil
  | some before =>
    simp only [SpacedAtom.respaced, Option.elim_some, spaceBehind]
    split
    · exact allBlank_cons.2 ⟨by decide, allBlank_nil⟩
    · exact allBlank_nil

/-- What is left of the blanks of pieces is blank. -/
lemma allBlank_blanks_respace (before? : Option Atom) (pieces : List SpacedAtom) :
    ∀ piece ∈ respace before? pieces, AllBlank piece.blanks := by
  induction pieces generalizing before? with
  | nil => nofun
  | cons piece rest ih =>
    exact List.forall_mem_cons.2 ⟨allBlank_blanks_respaced before? piece, ih _⟩

/-! ## The output atom by atom -/

/-- The output of the minifier behind a piece. -/
def writePiece (out : Text) (piece : SpacedAtom) : Text :=
  let spaced :=
    if !piece.blanks.isEmpty && !piece.atom.isSeparator && out.head?.any (!isSeparator ·)
    then ' ' :: out else out
  piece.atom.text.reverse ++ if piece.atom = .sign '}' then dropSemicolon spaced else spaced

section Machine

variable {quote : Char} {out : Text}

/-- Where the minifier stands in a literal. -/
def insideMode (quote : Char) (taken : Bool) : MinifyMode :=
  if taken then .escaped quote else .quoted quote

/-- Blanks outside of literals are remembered and not written. -/
lemma foldl_minifyStep_blanks {blanks : Text} (h : AllBlank blanks) (blank : Bool) (out : Text) :
    blanks.foldl minifyStep (.plain blank, out) = (.plain (blank || !blanks.isEmpty), out) := by
  induction blanks generalizing blank with
  | nil => simp
  | cons c blanks ih =>
    obtain ⟨hc, hblanks⟩ := allBlank_cons.1 h
    rw [List.foldl_cons, minifyStep, if_pos hc, ih hblanks]
    simp

/-- What stands inside of a literal is written as it is. -/
lemma foldl_minifyStep_inside {taken next : Bool} {body : Text}
    (h : takesNext? quote taken body = some next) (out : Text) :
    body.foldl minifyStep (insideMode quote taken, out) =
      (insideMode quote next, body.reverse ++ out) := by
  induction body generalizing taken out with
  | nil =>
    obtain rfl := Option.some.inj h
    rfl
  | cons c rest ih =>
    rw [takesNext?] at h
    split at h
    · cases h
    · rename_i hend
      have hstep : minifyStep (insideMode quote taken, out) c =
          (insideMode quote (c = '\\' && !taken), c :: out) := by
        cases taken with
        | true => simp [insideMode, minifyStep]
        | false =>
          have hne : c ≠ quote := by simpa using hend
          by_cases hc : c = '\\' <;> simp [insideMode, minifyStep, hc, hne]
      rw [List.foldl_cons, hstep, ih h, List.reverse_cons, List.append_assoc]
      rfl

/-- A quote outside of literals opens one, behind a space if one is due. -/
lemma minifyStep_quote (h : isQuote quote = true) (blank : Bool) (out : Text) :
    minifyStep (.plain blank, out) quote =
      (insideMode quote false, quote :: spaceBefore blank quote out) := by
  have hquote : (quote = doubleQuote || quote = singleQuote) = true := h
  simp only [minifyStep, (of_isQuote h).1, Bool.false_eq_true, ↓reduceIte, hquote]
  rfl

/-- The closing quote ends a literal. -/
lemma minifyStep_end (h : isQuote quote = true) (out : Text) :
    minifyStep (insideMode quote false, out) quote = (.plain false, quote :: out) := by
  simp [insideMode, minifyStep, (of_isQuote h).2.1]

/-- A literal is written with its quotes, behind a space if one is due. -/
lemma writePiece_literal (h : isQuote quote = true) (blanks body : Text) (closed : Bool)
    (out : Text) :
    writePiece out ⟨blanks, .literal quote body closed⟩ =
      (if closed then [quote] else []) ++ body.reverse ++
        quote :: spaceBefore (!blanks.isEmpty) quote out := by
  cases closed <;> simp [writePiece, Atom.text, Atom.isSeparator, spaceBefore,
    (of_isQuote h).2.2]

/-- The minifier reads a piece that something can stand behind. -/
lemma foldl_minifyStep_piece {piece : SpacedAtom} (hatom : piece.atom.WellFormed)
    (hblanks : AllBlank piece.blanks) (hclosed : piece.atom.isClosed = true) (out : Text) :
    (piece.blanks ++ piece.atom.text).foldl minifyStep (.plain false, out) =
      (.plain false, writePiece out piece) := by
  obtain ⟨blanks, atom⟩ := piece
  rw [List.foldl_append, foldl_minifyStep_blanks hblanks, Bool.false_or]
  cases atom with
  | sign c =>
    obtain ⟨hblank, hquote⟩ : isBlank c = false ∧ isQuote c = false := hatom
    have hquote : (c = doubleQuote || c = singleQuote) = false := hquote
    simp only [Atom.text, List.foldl_cons, List.foldl_nil, minifyStep, hblank, hquote,
      Bool.false_eq_true, ↓reduceIte]
    by_cases hbrace : c = '}'
    · simp [hbrace, writePiece, Atom.text, Atom.isSeparator, spaceBefore]
    · simp [hbrace, writePiece, Atom.text, Atom.isSeparator, spaceBefore]
  | literal quote body closed =>
    obtain rfl : closed = true := hclosed
    obtain ⟨hquote, hinside⟩ :
      isQuote quote = true ∧ takesNext? quote false body = some false := hatom
    rw [Atom.text, List.foldl_cons, minifyStep_quote hquote, List.foldl_append,
      foldl_minifyStep_inside hinside, writePiece_literal hquote]
    exact minifyStep_end hquote _

/-- The minifier reads a literal that is not closed. -/
lemma foldl_minifyStep_unclosed {piece : SpacedAtom} (hatom : piece.atom.WellFormed)
    (hblanks : AllBlank piece.blanks) (hopen : piece.atom.isClosed = false) (out : Text) :
    ((piece.blanks ++ piece.atom.text).foldl minifyStep (.plain false, out)).2 =
      writePiece out piece := by
  obtain ⟨blanks, atom⟩ := piece
  rw [List.foldl_append, foldl_minifyStep_blanks hblanks, Bool.false_or]
  cases atom with
  | sign c => cases hopen
  | literal quote body closed =>
    obtain rfl : closed = false := hopen
    obtain ⟨hquote, hinside⟩ :
      isQuote quote = true ∧ (takesNext? quote false body).isSome = true := hatom
    obtain ⟨next, hinside⟩ := Option.isSome_iff_exists.1 hinside
    rw [Atom.text, List.foldl_cons, minifyStep_quote hquote, List.foldl_append,
      foldl_minifyStep_inside hinside, writePiece_literal hquote]
    rfl

/-- Character by character or piece by piece, the minifier writes the same. -/
lemma foldl_minifyStep_text {split : Split} (h : split.Sound) (out : Text) :
    (split.text.foldl minifyStep (.plain false, out)).2 = split.pieces.foldl writePiece out := by
  obtain ⟨pieces, tail⟩ := split
  induction pieces generalizing out with
  | nil => exact congrArg Prod.snd (foldl_minifyStep_blanks h.tail false out)
  | cons piece pieces ih =>
    have hcons : (Split.cons piece ⟨pieces, tail⟩).Sound := h
    obtain ⟨hrest, hlast⟩ := hcons.of_cons
    have hatom := h.atoms piece List.mem_cons_self
    have hblanks := h.blanks piece List.mem_cons_self
    have htext := Split.text_cons piece ⟨pieces, tail⟩
    show ((Split.cons piece ⟨pieces, tail⟩).text.foldl minifyStep (.plain false, out)).2 = _
    rw [htext, ← List.append_assoc, List.foldl_append, List.foldl_cons]
    cases hclosed : piece.atom.isClosed with
    | true => rw [foldl_minifyStep_piece hatom hblanks hclosed, ih _ hrest]
    | false =>
      obtain ⟨rfl, rfl⟩ := Split.mk.inj (hlast.resolve_left (by simp [hclosed]))
      exact foldl_minifyStep_unclosed hatom hblanks hclosed out

end Machine

/-! ## What is written -/

/-- The end of the output behind an atom, or at the start, as far as the minifier looks back. -/
structure EndsWith (before? : Option Atom) (out : Text) : Prop where
  separator : out.head?.any (!isSeparator ·) = before?.any (!·.isSeparator)
  semicolon : before? ≠ some (.sign ';') → out.head? ≠ some ';'

/-- Nothing ends in no atom. -/
lemma endsWith_nil : EndsWith none [] :=
  ⟨rfl, nofun⟩

/-- What an atom is written behind ends in that atom. -/
lemma endsWith_atom {atom : Atom} (h : atom.WellFormed) (hclosed : atom.isClosed = true)
    (out : Text) : EndsWith (some atom) (atom.text.reverse ++ out) := by
  cases atom with
  | sign c => exact ⟨rfl, by simp [Atom.text]⟩
  | literal quote body closed =>
    obtain rfl : closed = true := hclosed
    have hquote : isSeparator quote = false := (of_isQuote h.1).2.2
    have hsemicolon : quote ≠ ';' := by
      rintro rfl
      exact absurd hquote (by decide)
    exact ⟨by simp [Atom.text, Atom.isSeparator, hquote], by simp [Atom.text, hsemicolon]⟩

/-- Without a semicolon at its end, the output is kept. -/
lemma dropSemicolon_eq {out : Text} (h : out.head? ≠ some ';') : dropSemicolon out = out := by
  match out with
  | [] => rfl
  | c :: out =>
    rw [dropSemicolon]
    rintro rest heq
    exact h (congrArg List.head? heq)

/-- A piece is written behind what is left of its blanks. -/
lemma writePiece_eq {before? : Option Atom} {out : Text} {piece : SpacedAtom}
    (hends : EndsWith before? out)
    (hkept : ¬ (before? = some (.sign ';') ∧ piece.atom = .sign '}')) :
    writePiece out piece =
      piece.atom.text.reverse ++ ((piece.respaced before?).blanks.reverse ++ out) := by
  have hspaced : (if !piece.blanks.isEmpty && !piece.atom.isSeparator &&
        out.head?.any (!isSeparator ·) then ' ' :: out else out) =
      (piece.respaced before?).blanks.reverse ++ out := by
    rw [hends.separator]
    cases before? with
    | none => simp [SpacedAtom.respaced]
    | some before =>
      simp only [SpacedAtom.respaced, Option.elim_some, Option.any_some, spaceBehind]
      split <;> rfl
  rw [writePiece, hspaced]
  split
  · rename_i hbrace
    have hhead : out.head? ≠ some ';' := hends.semicolon fun hbefore => hkept ⟨hbefore, hbrace⟩
    have hseparator : piece.atom.isSeparator = true := by rw [hbrace]; rfl
    have hblanks := blanks_respaced_separator hseparator before?
    rw [hblanks, List.reverse_nil, List.nil_append, dropSemicolon_eq hhead]
  · rfl

/-- The minifier writes the atoms that it keeps with what is left of their blanks. -/
lemma foldl_writePiece {pieces : List SpacedAtom} (hatoms : ∀ piece ∈ pieces, piece.atom.WellFormed)
    (hclosed : pieces.Pairwise fun first _ => first.atom.isClosed = true) {before? : Option Atom}
    {out : Text} (hends : EndsWith before? out)
    (hkept : ∀ piece ∈ pieces.head?, ¬ (before? = some (.sign ';') ∧ piece.atom = .sign '}')) :
    pieces.foldl writePiece out =
      (piecesText (respace before? (dropSemicolons SpacedAtom.atom pieces))).reverse ++ out := by
  fun_induction dropSemicolons SpacedAtom.atom pieces generalizing before? out with
  | case1 => simp [respace, piecesText]
  | case2 piece =>
    rw [List.foldl_cons, List.foldl_nil, writePiece_eq hends (hkept piece rfl)]
    simp [respace, piecesText]
  | case3 first second rest h ih =>
    obtain ⟨hsemicolon, hbrace⟩ := h
    obtain ⟨hfirst, hrest⟩ := List.forall_mem_cons.1 hatoms
    obtain ⟨hsecond, hrest⟩ := List.forall_mem_cons.1 hrest
    have hwritten : writePiece (writePiece out first) second = second.atom.text.reverse ++ out := by
      simp [writePiece, hsemicolon, hbrace, Atom.isSeparator, isSeparator, Atom.text, dropSemicolon]
    have hseparator : second.atom.isSeparator = true := by rw [hbrace]; rfl
    have hblanks := blanks_respaced_separator hseparator before?
    have hpairs := (List.pairwise_cons.1 (List.pairwise_cons.1 hclosed).2).2
    have hsecondClosed : second.atom.isClosed = true := by rw [hbrace]; rfl
    rw [List.foldl_cons, List.foldl_cons, hwritten,
      ih hrest hpairs (endsWith_atom hsecond hsecondClosed out) (by simp [hbrace])]
    simp [respace, piecesText, hblanks]
  | case4 first second rest h ih =>
    obtain ⟨hfirst, hrest⟩ := List.forall_mem_cons.1 hatoms
    obtain ⟨hbehind, hpairs⟩ := List.pairwise_cons.1 hclosed
    have hfirstClosed := hbehind second List.mem_cons_self
    rw [List.foldl_cons, writePiece_eq hends (hkept first rfl), ih hrest hpairs
      (endsWith_atom hfirst hfirstClosed _) (by simpa using h)]
    simp [respace, piecesText]

/-- A sound split stays sound without its semicolons and with its blanks reduced. -/
lemma respace_sound {split : Split} (h : split.Sound) :
    (⟨respace none (dropSemicolons SpacedAtom.atom split.pieces), []⟩ : Split).Sound := by
  have hatoms := map_atom_respace none (dropSemicolons SpacedAtom.atom split.pieces)
  have hsublist := sublist_dropSemicolons SpacedAtom.atom split.pieces
  refine ⟨?_, allBlank_blanks_respace _ _, allBlank_nil, ?_, fun _ _ _ => rfl⟩
  · rw [← List.forall_mem_map (P := Atom.WellFormed), hatoms, List.forall_mem_map]
    exact fun piece hpiece => h.atoms piece (hsublist.subset hpiece)
  · rw [← List.pairwise_map (f := SpacedAtom.atom) (R := fun first _ => first.isClosed = true),
      hatoms, List.pairwise_map]
    exact h.closed.sublist hsublist

/-- What is written is taken apart into the atoms that were kept. -/
lemma split_minify_eq (css : Text) :
    split (minify css) =
      ⟨respace none (dropSemicolons SpacedAtom.atom (split css).pieces), []⟩ := by
  have hsound := sound_split css
  have hwritten := foldl_writePiece hsound.atoms hsound.closed endsWith_nil (by simp)
  have hfold := foldl_minifyStep_text hsound []
  rw [text_split, hwritten, List.append_nil] at hfold
  have htext : minify css =
      Split.text ⟨respace none (dropSemicolons SpacedAtom.atom (split css).pieces), []⟩ := by
    rw [minify, hfold, List.reverse_reverse, Split.text, List.append_nil]
  rw [htext, (respace_sound hsound).split_text]

/-- The output of the minifier is made of the atoms of the text but for one semicolon before each
closing brace that follows one. Between two of them stands a space if there were blanks and neither
is a separator, and nothing otherwise. -/
theorem minify_split (css : Text) :
    let left := dropSemicolons SpacedAtom.atom (split css).pieces
    let printed := split (minify css)
    printed.atoms = dropSemicolons id (split css).atoms ∧
      (∀ first ∈ printed.pieces.head?, first.blanks = []) ∧
      printed.pieces.tail.map (·.blanks) = List.zipWith spaceBehind printed.atoms left.tail ∧
      printed.tail = [] := by
  intro left printed
  have hprinted : printed = ⟨respace none left, []⟩ := split_minify_eq css
  have hatoms : printed.atoms = left.map (·.atom) := by
    rw [hprinted]
    exact map_atom_respace none left
  refine ⟨?_, ?_, ?_, ?_⟩
  · rw [hatoms]
    exact map_dropSemicolons SpacedAtom.atom (split css).pieces
  · rw [hprinted]
    cases left with
    | nil => simp [respace]
    | cons piece rest => simp [respace, SpacedAtom.respaced]
  · rw [hatoms, hprinted]
    exact tail_respace none left
  · rw [hprinted]

example : minify "a , b \x7b c : \x22 ; \x7d \x22 ;; \x7d ".toList =
    "a,b\x7bc : \x22 ; \x7d \x22;\x7d".toList := by
  decide

/-! ## Minifying twice -/

/-- Pieces with reduced blanks keep all semicolons exactly if none stands before a closing brace. -/
lemma respace_dropSemicolons_eq_self_iff {pieces : List SpacedAtom}
    (h : respace none pieces = pieces) :
    respace none (dropSemicolons SpacedAtom.atom pieces) = pieces ↔
      ¬ semicolonBrace <:+: pieces.map SpacedAtom.atom := by
  rw [← dropSemicolons_eq_self_iff, ← map_dropSemicolons]
  constructor
  · intro hsame
    have hatoms := congrArg (List.map SpacedAtom.atom) hsame
    rwa [map_atom_respace] at hatoms
  · intro hatoms
    have hlength := congrArg List.length hatoms
    rw [List.length_map, List.length_map] at hlength
    have hsublist := sublist_dropSemicolons SpacedAtom.atom pieces
    rw [hsublist.eq_of_length hlength, h]

/-- A second pass changes nothing exactly if no two semicolons stand before a closing brace. -/
theorem minify_minify_iff (css : Text) :
    minify (minify css) = minify css ↔
      ¬ [.sign ';', .sign ';', .sign '}'] <:+: (split css).atoms := by
  have hsame :
      minify (minify css) = minify css ↔ split (minify (minify css)) = split (minify css) :=
    ⟨congrArg split, fun h => by rw [← text_split (minify (minify css)), h, text_split]⟩
  have hspaced : respace none (split (minify css)).pieces = (split (minify css)).pieces := by
    rw [split_minify_eq]
    exact respace_respace none _
  have hpieces : split (minify (minify css)) = split (minify css) ↔
      respace none (dropSemicolons SpacedAtom.atom (split (minify css)).pieces) =
        (split (minify css)).pieces := by
    rw [split_minify_eq (minify css), Split.mk.injEq, split_minify_eq css]
    exact and_iff_left rfl
  have hatoms : (split (minify css)).pieces.map SpacedAtom.atom =
      dropSemicolons id (split css).atoms := by
    rw [split_minify_eq, map_atom_respace, map_dropSemicolons]
    rfl
  rw [hsame, hpieces, respace_dropSemicolons_eq_self_iff hspaced, hatoms,
    semicolonBrace_infix_dropSemicolons]
  rfl

/-- Of two semicolons the second pass drops the one that the first pass kept. -/
theorem minify_minify_two_semicolons :
    minify (minify "a\x7bb;;\x7d".toList) ≠ minify "a\x7bb;;\x7d".toList := by
  decide

end CssPrune.Css
