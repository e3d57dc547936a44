import CssPrune.Proofs.Checked.BlockWalk
import CssPrune.Proofs.Checked.RuleWalk
import CssPrune.Proofs.MediaScan

/-!
# The checked reading of a stylesheet

A file is read, cut at `@media`, and the rules of its parts are found, all by index. Each warning
has its span built, and the span is looked up unless the run is quiet. The result is that of
`Reading.ofSource`: the same rules, each with a span that can be looked up, and the same warnings,
each at its place (`readSheet_of`).
-/

namespace CssPrune.Checked

open Css

/-- A notice and the place that it is about. -/
structure Report where
  notice : Notice
  location : Location
  deriving DecidableEq, Repr

/-- The rules that were found and what was reported on the way. -/
structure Findings where
  founds : List Found := []
  reports : List Report := []

namespace Findings

/-- Findings and those that follow them. -/
def append (first second : Findings) : Findings :=
  ⟨first.founds ++ second.founds, first.reports ++ second.reports⟩

/-- Findings one after the other. -/
def join (all : List Findings) : Findings :=
  all.foldr append {}

end Findings

section Segments

variable {Map : Type} (maps : SourceMap Map) (map : Map) (quiet : Bool)

/-- Reports a notice about a span. -/
def warn (notice : Notice) (span : MapSpan) : Except Fault Findings :=
  if quiet then return {}
  else do
    let location ← maps.lookUp map span
    return { reports := [⟨notice, location⟩] }

variable (lexer : Lexer)

/-- Reports a notice about a range. -/
def warnAt (notice : Notice) (start stop : Nat) : Except Fault Findings := do
  let span ← lexer.spanOf maps start stop
  warn maps map quiet notice span

/-- The rules of a range. -/
def segmentRules (scope : Scope) (range : Nat × Nat) : Except Fault Findings := do
  let founds ← rulesFrom maps lexer scope range.1 range.2
  return { founds }

/-- Reports what stands behind the last block. -/
def segmentLeftover (start last : Nat) : Except Fault Findings :=
  if start ≤ last then warnAt maps map quiet lexer .unbalancedBraces start (last + 1)
  else return {}

/-- The rules of the block of a media rule. -/
def segmentBody (query : Text) : Option (Nat × Nat) → Except Fault Findings
  | some range => segmentRules maps lexer (.media query) range
  | none => return {}

/-- The rules between two braces behind an `@media`. -/
def segmentBlocks (query : Text) (first last : Nat) : Except Fault Findings := do
  let walk ← walkBlocks lexer.tokens first last
  let leftover ← segmentLeftover maps map quiet lexer walk.start last
  let body ← segmentBody maps lexer query walk.body?
  let trailing ← walk.trailing.mapM (segmentRules maps lexer .topLevel)
  return (leftover.append body).append (.join trailing)

/-- The rules behind the query of a media rule. -/
def segmentBlock (query : Text) (brace stop : Nat) : Except Fault Findings := do
  match ← lastIn (·.char = '}') lexer.tokens brace stop with
  | none => warnAt maps map quiet lexer .missingClosingBrace brace stop
  | some close => segmentBlocks maps map quiet lexer query brace close

/-- The rules of what follows an `@media`. -/
def segmentMedia (range : Nat × Nat) : Except Fault Findings := do
  let (start, stop) ← trimRange PlacedChar.isBlank lexer.tokens range.1 range.2
  match ← firstIn (·.char = '{') lexer.tokens start stop with
  | none => warnAt maps map quiet lexer .missingOpeningBrace start stop
  | some brace => do
    let query ← rawText lexer.tokens start brace
    segmentBlock maps map quiet lexer (Text.collapse query) brace stop

/-- The rules of the ranges between the literal `@media`. -/
def segmentRanges : List (Nat × Nat) → Except Fault Findings
  | [] => return {}
  | first :: ranges => do
    let range ← trimRange PlacedChar.isBlank lexer.tokens first.1 first.2
    let top ← segmentRules maps lexer .topLevel range
    let media ← ranges.mapM (segmentMedia maps map quiet lexer)
    return top.append (.join media)

/-- Reports a comment that is not closed. -/
def segmentUnclosed : Except Fault Findings := do
  match ← lexer.unclosedSpan? maps with
  | some span => warn maps map quiet .unclosedComment span
  | none => return {}

/-- The rules of a file that was read. -/
def segment : Except Fault Findings := do
  let unclosed ← segmentUnclosed maps map quiet lexer
  let ranges ← piecesFrom lexer.tokens 0 0
  let pieces ← segmentRanges maps map quiet lexer ranges
  return unclosed.append pieces

/-- Reads a file. -/
def readSheet (span : MapSpan) (text : Text) : Except Fault Findings := do
  let lexer ← Lexer.read span text
  segment maps map quiet lexer

end Segments

/-! ## What is reported -/

/-- A report is that of an event. -/
structure Report.Is (report : Report) (event : Event) : Prop where
  notice : report.notice = event.notice
  location : event.span.location? = some report.location

/-- The event of a report can be printed: the line that a warning quotes is there. -/
lemma Report.Is.exists_report {report : Report} {event : Event} (h : report.Is event) :
    ∃ text, event.report? = some text := by
  have hlocation := h.location
  rw [Span.location?] at hlocation
  obtain ⟨first, hfirst, -⟩ := Option.bind_eq_some_iff.1 hlocation
  obtain ⟨line, hline⟩ : ∃ line, event.span.source.line? first.line = some line := by
    have hlt := line_lt_of_seek? hfirst
    rw [Nat.zero_add] at hlt
    exact ⟨_, List.getElem?_eq_getElem hlt⟩
  rw [Event.report?, hfirst]
  cases hlevel : event.notice.level with
  | note => exact ⟨_, rfl⟩
  | warning =>
    simp only [Option.bind_eq_bind, Option.bind_some, hline]
    exact ⟨_, rfl⟩

/-- The reports are those of some events, and none in a quiet run. -/
def Reported (quiet : Bool) (reports : List Report) (events : List Event) : Prop :=
  List.Forall₂ Report.Is reports (if quiet then [] else events)

/-- Without events nothing is reported. -/
lemma reported_nil (quiet : Bool) : Reported quiet [] [] := by
  rw [Reported, ite_self]
  exact .nil

/-- Reports one behind the other are those of the events one behind the other. -/
lemma Reported.append {quiet : Bool} {first second : List Report} {events later : List Event}
    (hfirst : Reported quiet first events) (hsecond : Reported quiet second later) :
    Reported quiet (first ++ second) (events ++ later) := by
  cases quiet with
  | true => exact List.rel_append hfirst hsecond
  | false => exact List.rel_append hfirst hsecond

/-- The findings are those of a reading. -/
structure Findings.Of (findings : Findings) (file : MapFile) (quiet : Bool) (reading : Reading) :
    Prop where
  founds : List.Forall₂ (Found.Is file) findings.founds reading.entries
  reports : Reported quiet findings.reports reading.warnings

section Findings

variable {file : MapFile} {quiet : Bool}

/-- Empty findings are those of an empty reading. -/
lemma Findings.of_empty : Findings.Of {} file quiet .empty :=
  ⟨.nil, reported_nil quiet⟩

/-- Findings one behind the other are those of the readings one behind the other. -/
lemma Findings.Of.append {first second : Findings} {reading behind : Reading}
    (hfirst : first.Of file quiet reading) (hsecond : second.Of file quiet behind) :
    (first.append second).Of file quiet (reading ++ behind) :=
  ⟨List.rel_append hfirst.founds hsecond.founds, hfirst.reports.append hsecond.reports⟩

/-- Joined findings are those of the joined readings. -/
lemma Findings.of_join {all : List Findings} {readings : List Reading}
    (h : List.Forall₂ (Findings.Of · file quiet ·) all readings) :
    (Findings.join all).Of file quiet (.join readings) := by
  induction h with
  | nil => exact of_empty
  | cons hfirst _ ih => exact hfirst.append ih

end Findings

/-! ## What is read -/

section Segments

variable {Map : Type} {maps : SourceMap Map} {map : Map} {quiet : Bool} {file : MapFile}
  {lexer : Lexer} {start : Nat} {part : List PlacedChar} {range : Nat × Nat}

/-- A warning at a span that the map locates is the warning of the reading there. -/
lemma warn_of (hmaps : maps.Lawful) (hfile : file ∈ maps.files map) {mapSpan : MapSpan}
    {span : Span} (h : Locates file mapSpan span) (notice : Notice) :
    Succeeds (warn maps map quiet notice mapSpan)
      (·.Of file quiet { warnings := [⟨notice, span⟩] }) := by
  cases quiet with
  | true => exact succeeds_ok ⟨.nil, .nil⟩
  | false =>
    obtain ⟨location, hlook, hlocation⟩ := h.lookUp hmaps hfile
    rw [warn, if_neg (by simp), hlook]
    exact succeeds_ok ⟨.nil, .cons ⟨rfl, hlocation⟩ .nil⟩

/-- A warning about tokens is the warning of the reading about them. -/
lemma warnAt_of (hmaps : maps.Lawful) (hfile : file ∈ maps.files map) (hlexer : lexer.Of file)
    (hpart : Stands lexer.tokens start part) (hne : part ≠ []) (notice : Notice) :
    Succeeds (warnAt maps map quiet lexer notice start (start + part.length))
      (·.Of file quiet (.warn file.source notice part)) :=
  (spanOf_covers hmaps hlexer hpart hne).bind fun _ hspan => warn_of hmaps hfile hspan notice

/-- A warning about no characters points at the one that stands there, or else at the last one. -/
lemma spanOf_nil_covers (hmaps : maps.Lawful) (hlexer : lexer.Of file) (start : Nat) :
    Succeeds (lexer.spanOf maps start start)
      (Locates file · (.covering file.source
        (lexer.tokens[start]? <|> lexer.tokens.getLast?).toList)) := by
  rw [Lexer.spanOf, if_pos (Nat.le_refl start)]
  exact spanAt_covers hmaps hlexer start

/-- The rules of a range are those that are read from its part. -/
lemma segmentRules_of (hmaps : maps.Lawful) (hlexer : lexer.Of file) (scope : Scope)
    (hrange : IsRange lexer.tokens range part) :
    Succeeds (segmentRules maps lexer scope range)
      (·.Of file quiet (.ofRules file.source scope part)) := by
  rw [segmentRules, hrange.stop]
  refine (rulesFrom_is hmaps hlexer hrange.stands).bind fun founds hfounds => ?_
  exact succeeds_ok ⟨hfounds, reported_nil quiet⟩

/-- What is left over behind the blocks is reported if there is any. -/
lemma segmentLeftover_of (hmaps : maps.Lawful) (hfile : file ∈ maps.files map)
    (hlexer : lexer.Of file) {last : Nat} (hrange : IsRange lexer.tokens (start, last + 1) part) :
    Succeeds (segmentLeftover maps map quiet lexer start last)
      (·.Of file quiet
        (if part.isEmpty then .empty else .warn file.source .unbalancedBraces part)) := by
  obtain ⟨hpart, hstop⟩ := hrange
  change last + 1 = start + part.length at hstop
  rw [segmentLeftover]
  by_cases hempty : part = []
  · rw [hempty, List.length_nil] at hstop
    rw [if_neg (by omega), if_pos (by simpa using hempty)]
    exact succeeds_ok Findings.of_empty
  · have hpos := List.length_pos_iff.2 hempty
    rw [if_pos (by omega), hstop, if_neg (by simpa using hempty)]
    exact warnAt_of hmaps hfile hlexer hpart hempty _

/-- The body of a media query has the rules that are read from it, if there is a body. -/
lemma segmentBody_of (hmaps : maps.Lawful) (hlexer : lexer.Of file) (query : Text)
    {range? : Option (Nat × Nat)} {body? : Option (List PlacedChar)}
    (h : Option.Rel (IsRange lexer.tokens) range? body?) :
    Succeeds (segmentBody maps lexer query range?)
      (·.Of file quiet
        ((body?.map (Reading.ofRules file.source (.media query))).getD .empty)) := by
  cases h with
  | none => exact succeeds_ok Findings.of_empty
  | some hrange => exact segmentRules_of hmaps hlexer (.media query) hrange

/-- The blocks behind a media query have what is read from them. -/
lemma segmentBlocks_of (hmaps : maps.Lawful) (hfile : file ∈ maps.files map)
    (hlexer : lexer.Of file) (hsize : lexer.tokens.length < 2 ^ 31) {a : PlacedChar}
    (hpart : Stands lexer.tokens start (a :: part)) (query : Text) :
    Succeeds (segmentBlocks maps map quiet lexer query start (start + part.length))
      (·.Of file quiet
        (.ofBlocks file.source query (blocksOf PlacedChar.char (a :: part)))) := by
  rw [segmentBlocks, Reading.ofBlocks]
  refine (walkBlocks_is hsize hpart).bind fun walk hwalk => ?_
  obtain ⟨hleftover, hbody, htrailing⟩ := hwalk
  refine (segmentLeftover_of hmaps hfile hlexer hleftover).bind fun leftover hleftover => ?_
  refine (segmentBody_of hmaps hlexer query hbody).bind
    fun body (hbody : body.Of file quiet _) => ?_
  have hblocks : Succeeds (walk.trailing.mapM (segmentRules maps lexer .topLevel))
      (List.Forall₂ (fun findings part =>
        findings.Of file quiet (.ofRules file.source .topLevel part)) ·
        (trailingBlocks PlacedChar.char (blocksOf PlacedChar.char (a :: part)).blocks)) :=
    succeeds_mapM (fun _ _ hrange => segmentRules_of hmaps hlexer .topLevel hrange) htrailing
  refine hblocks.bind fun trailing htrailing => ?_
  exact succeeds_ok ((hleftover.append hbody).append
    (Findings.of_join (List.forall₂_map_right_iff.2 htrailing)))

/-- What begins with the brace of a media query has what is read from it. -/
lemma segmentBlock_of (hmaps : maps.Lawful) (hfile : file ∈ maps.files map)
    (hlexer : lexer.Of file) (hsize : lexer.tokens.length < 2 ^ 31)
    (hblock : Stands lexer.tokens start part) (hne : part ≠ []) (query : Text) :
    Succeeds (segmentBlock maps map quiet lexer query start (start + part.length))
      (·.Of file quiet
        (let stretch := throughLast PlacedChar.char '}' part
        if stretch.isEmpty then .warn file.source .missingClosingBrace part
        else .ofBlocks file.source query (blocksOf PlacedChar.char stretch))) := by
  rw [segmentBlock]
  rcases hblock.lastIn (·.char = '}') with
    ⟨hnone, hlast⟩ | ⟨body, close, back, rfl, hclose, hback, hlast⟩
  · rw [hlast, throughLast_eq_nil (by simpa using hnone)]
    exact warnAt_of hmaps hfile hlexer hblock hne _
  · obtain ⟨a, rest, hstretch⟩ : ∃ a rest, body ++ [close] = a :: rest :=
      List.exists_cons_of_ne_nil (by simp)
    have hlength : body.length = rest.length := by
      have h := congrArg List.length hstretch
      rw [List.length_append, List.length_singleton, List.length_cons] at h
      omega
    rw [hlast, List.append_cons, throughLast_append_of_forall (by simpa using hback),
      throughLast_concat_of_eq (by simpa using hclose), hstretch, hlength]
    rw [List.append_cons, hstretch] at hblock
    exact segmentBlocks_of hmaps hfile hlexer hsize hblock.left query

/-- What follows an `@media` has what is read from it. -/
lemma segmentMedia_of (hmaps : maps.Lawful) (hfile : file ∈ maps.files map)
    (hlexer : lexer.Of file) (hsize : lexer.tokens.length < 2 ^ 31)
    {piece : MediaPiece PlacedChar} (hpiece : IsPiece lexer.tokens range piece) :
    Succeeds (segmentMedia maps map quiet lexer range)
      (·.Of file quiet (.ofMedia file.source lexer.tokens.getLast? piece)) := by
  obtain ⟨start, htrim, htext, hempty⟩ := hpiece.toIsRange.trim PlacedChar.isBlank
  rw [segmentMedia, htrim, ok_bind, Reading.ofMedia, hpiece.next]
  generalize Text.trimWhere PlacedChar.isBlank piece.items = text at htext hempty
  show Succeeds (firstIn (·.char = '{') lexer.tokens start (start + text.length) >>= _) _
  rcases htext.firstIn (·.char = '{') with
    ⟨hnone, hfind⟩ | ⟨query, brace, block, rfl, hbrace, hquery, hfind⟩
  · rw [cutBefore_eq_self (by simpa using hnone), hfind]
    show Succeeds (warnAt maps map quiet lexer .missingOpeningBrace start (start + text.length))
      (·.Of file quiet (.warn file.source .missingOpeningBrace _))
    by_cases hne : text = []
    · subst hne
      refine (spanOf_nil_covers hmaps hlexer start).bind fun span hspan => ?_
      rw [← hempty rfl]
      exact warn_of hmaps hfile hspan _
    · rw [if_neg (by simpa using hne)]
      exact warnAt_of hmaps hfile hlexer htext hne _
  · have hstop : start + (query ++ brace :: block).length =
        start + query.length + (brace :: block).length := by
      rw [List.length_append, Nat.add_assoc]
    rw [cutBefore_append_of_eq (by simpa using hquery) (by simpa using hbrace), hfind]
    show Succeeds (rawText lexer.tokens start (start + query.length) >>= _) _
    rw [rawText_eq htext.left, ok_bind, hstop]
    exact segmentBlock_of hmaps hfile hlexer hsize htext.right (by simp) _

/-- The stretches of a stylesheet have what is read from them. -/
lemma segmentRanges_of (hmaps : maps.Lawful) (hfile : file ∈ maps.files map)
    (hlexer : lexer.Of file) (hsize : lexer.tokens.length < 2 ^ 31) {ranges : List (Nat × Nat)}
    {pieces : List (MediaPiece PlacedChar)}
    (h : List.Forall₂ (IsPiece lexer.tokens) ranges pieces) :
    Succeeds (segmentRanges maps map quiet lexer ranges)
      (·.Of file quiet (.ofPieces file.source lexer.tokens.getLast? pieces)) := by
  cases h with
  | nil => exact succeeds_ok Findings.of_empty
  | @cons range piece ranges pieces hpiece hpieces =>
    obtain ⟨start, htrim, htext, -⟩ := hpiece.toIsRange.trim PlacedChar.isBlank
    have hmedia : Succeeds (ranges.mapM (segmentMedia maps map quiet lexer))
        (List.Forall₂ (fun findings piece =>
          findings.Of file quiet (.ofMedia file.source lexer.tokens.getLast? piece)) · pieces) :=
      succeeds_mapM (fun _ _ hpiece => segmentMedia_of hmaps hfile hlexer hsize hpiece) hpieces
    rw [segmentRanges, htrim, ok_bind]
    refine (segmentRules_of hmaps hlexer .topLevel ⟨htext, rfl⟩).bind
      fun top (htop : top.Of file quiet _) => hmedia.bind fun media hmedia => ?_
    exact succeeds_ok (htop.append (Findings.of_join (List.forall₂_map_right_iff.2 hmedia)))

/-! ## A file -/

/-- A text has at most as many placed characters as bytes. -/
lemma length_placeFrom_le (offset : Nat) (text : Text) :
    (PlacedChar.placeFrom offset [] text).length ≤ Text.utf8Size text := by
  induction text using placeInduction generalizing offset with
  | nil => exact Nat.le_refl 0
  | pair rest ih =>
    have hsize : Text.utf8Size ('\r' :: '\n' :: rest) = 1 + (1 + Text.utf8Size rest) := rfl
    have := ih (offset + 2)
    rw [placeFrom_pair, List.length_cons, hsize]
    omega
  | char c rest hpair ih =>
    have := ih (offset + c.utf8Size)
    have := c.utf8Size_pos
    rw [placeFrom_cons offset hpair, List.length_cons, Text.utf8Size]
    omega

/-- A comment that is not closed is reported as it is read. -/
lemma segmentUnclosed_of (hmaps : maps.Lawful) (hfile : file ∈ maps.files map)
    {sheet : Uncommented PlacedChar}
    (hsheet : sheet = stripComments PlacedChar.char (PlacedChar.ofText file.source.text)) :
    Succeeds (segmentUnclosed maps map quiet
        ⟨sheet.kept, file.span, sheet.unclosed?.map (·.offset)⟩)
      (·.Of file quiet
        ((sheet.unclosed?.map (Reading.ofUnclosed file.source)).getD .empty)) := by
  rw [segmentUnclosed]
  cases hslash : sheet.unclosed? with
  | none => exact succeeds_ok Findings.of_empty
  | some slash =>
    rw [hsheet] at hslash
    refine (unclosedSpan?_covers hmaps hslash).bind fun span? ⟨span, hspan, hcovers⟩ => ?_
    rw [hspan]
    exact warn_of hmaps hfile hcovers .unclosedComment

/-- A file that is not too large is read without a fault. -/
theorem readSheet_of (hmaps : maps.Lawful) (hfile : file ∈ maps.files map)
    (hsize : Text.utf8Size file.source.text < 2 ^ 31) :
    Succeeds (readSheet maps map quiet file.span file.source.text)
      (·.Of file quiet (.ofSource file.source)) := by
  have hsheet := sublist_stripFrom [] (PlacedChar.ofText file.source.text)
  rw [readSheet, read_eq file.span (by omega), ok_bind, Reading.ofSource]
  rw [← stripComments] at hsheet
  generalize heq : stripComments PlacedChar.char (PlacedChar.ofText file.source.text) = sheet
    at hsheet ⊢
  have hlexer : Lexer.Of file ⟨sheet.kept, file.span, sheet.unclosed?.map (·.offset)⟩ :=
    ⟨rfl, (placed_ofText file.source).sublist hsheet⟩
  have hlength : sheet.kept.length < 2 ^ 31 :=
    Nat.lt_of_le_of_lt (hsheet.length_le.trans (length_placeFrom_le 0 _)) hsize
  obtain ⟨ranges, hranges, hpieces⟩ :=
    @piecesFrom_eq sheet.kept [] 0 0 (stands_nil (Nat.zero_le _)) rfl
  rw [segment]
  refine (segmentUnclosed_of hmaps hfile heq.symm).bind
    fun unclosed (hunclosed : unclosed.Of file quiet _) => ?_
  rw [hranges, ok_bind]
  refine (segmentRanges_of hmaps hfile hlexer hlength hpieces).bind
    fun pieces (hall : pieces.Of file quiet _) => ?_
  exact succeeds_ok (hunclosed.append hall)

end Segments

end CssPrune.Checked
