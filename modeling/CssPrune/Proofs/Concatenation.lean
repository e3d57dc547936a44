import CssPrune.Proofs.Seam
import CssPrune.Proofs.Spacing
import CssPrune.Proofs.StoredSheets

/-!
# Texts added one after the other

Two texts that are added one after the other under a name leave the rules that their concatenation
leaves, in the same order (`Session.addSheet_append`). A listing depends on what was listed before
and on what a text says (`listing_insertAll_foldl`), so it is enough that the concatenation says
what the two texts say: no comment and no pair of line ends may reach over the seam, and then
`sheetContents_append` applies.
-/

namespace CssPrune

/-! ## Listings entry by entry -/

/-- Adds what was read of one rule to a listing. -/
def Listing.insert (listing : Listing) (content : Content) : Listing :=
  OrderedMap.updateEntries content.scope (fun rules? =>
    OrderedMap.updateEntries content.selector
      (fun declarations? => declarations?.getD [] ++ [content.declarations]) (rules?.getD []))
    listing

/-- Adds what a text says to a listing. -/
def Listing.insertAll (listing : Listing) (contents : List Content) : Listing :=
  contents.foldl insert listing

/-- Inserting an entry inserts what it says into the listing. -/
lemma Stylesheet.listing_insert (sheet : Stylesheet) (entry : Entry) :
    (sheet.insert entry).listing = sheet.listing.insert entry.content := by
  apply OrderedMap.map_updateEntries
  intro rules?
  have hrule : ∀ rule? : Option Rule,
      (extendRule entry.declarations entry.span rule?).declarations =
        (rule?.map Rule.declarations).getD [] ++ [entry.declarations] := by
    rintro (_ | rule) <;> rfl
  have hrules := @OrderedMap.map_updateEntries _ _ _ _ _
    (fun declarations? => declarations?.getD [] ++ [entry.declarations]) Rule.declarations hrule
    entry.selector (rules?.getD .empty).entries
  cases rules? with
  | none => exact hrules
  | some rules => exact hrules

/-- Inserting entries inserts what they say into the listing, one after the other. -/
lemma Stylesheet.listing_insertAll_foldl (sheet : Stylesheet) (entries : List Entry) :
    (sheet.insertAll entries).listing = sheet.listing.insertAll (entries.map Entry.content) := by
  induction entries generalizing sheet with
  | nil => rfl
  | cons entry entries ih =>
    have hrest := ih (sheet.insert entry)
    rw [listing_insert] at hrest
    exact hrest

/-- The listings of stylesheets by name, in order. -/
def Sheets.listings (sheets : Sheets) : List (String × Listing) :=
  sheets.byName.entries.map fun (name, sheet) => (name, sheet.listing)

/-- Adding a stylesheet inserts what its text says into the listing of its name. -/
lemma Session.listings_addSheet (session : Session) (name : String) (css : Text) :
    (session.addSheet name css).sheets.listings =
      OrderedMap.updateEntries name
        (fun listing? => Listing.insertAll (listing?.getD []) (Css.textContents css))
        session.sheets.listings := by
  rw [sheets_addSheet]
  apply OrderedMap.map_updateEntries
  intro sheet?
  rw [Stylesheet.listing_insertAll_foldl, Reading.contents_eq_textContents]
  cases sheet? with
  | none => rfl
  | some sheet => rfl

namespace Css

/-! ## Comments and line ends at a seam -/

/-- What ends a comment ends it also with more text behind. -/
lemma afterComment?_append_right {text rest : Text} (h : afterComment? id text = some rest)
    (more : Text) : afterComment? id (text ++ more) = some (rest ++ more) := by
  fun_induction afterComment? id text with
  | case1 a b tail hmark =>
    obtain rfl := Option.some.inj h
    rw [List.cons_append, List.cons_append, afterComment?, if_pos hmark]
  | case2 a b tail hmark ih =>
    rw [List.cons_append, List.cons_append, afterComment?, if_neg hmark]
    exact ih h
  | case3 => cases h

/-- What follows a text whose comments are closed and that does not end with a slash is read as if
it stood alone. -/
lemma stripFrom_append_right {kept text : Text} (h : (stripFrom id kept text).unclosed? = none)
    (hlast : ∀ c ∈ (stripFrom id kept text).kept.getLast?, c ≠ '/') (more : Text) :
    stripFrom id kept (text ++ more) =
      ⟨(stripFrom id kept text).kept ++ (stripComments id more).kept,
        (stripComments id more).unclosed?⟩ := by
  fun_induction stripFrom id kept text with
  | case1 kept a b rest hmark behind hbehind ih =>
    rw [List.cons_append, List.cons_append,
      stripFrom_closed kept hmark (afterComment?_append_right hbehind more)]
    exact ih h hlast
  | case2 kept a b rest hmark hnone => cases h
  | case3 kept a b rest hmark ih =>
    rw [List.cons_append, List.cons_append, stripFrom_cons kept hmark]
    exact ih h hlast
  | case4 kept items hshort =>
    cases items with
    | nil =>
      rw [List.nil_append, List.append_nil, stripFrom_eq]
      rfl
    | cons a items =>
      cases items with
      | cons b rest => exact absurd rfl (hshort a b rest)
      | nil =>
        have ha : a ≠ '/' := hlast a (by simp)
        have hcons := stripComments_cons ha more
        rw [stripComments] at hcons
        rw [List.singleton_append, stripFrom_eq, hcons]
        simp

/-- Without an open comment at their seam, two texts lose their comments apart. -/
lemma stripComments_append {text : Text} (h : (stripComments id text).unclosed? = none)
    (hlast : ∀ c ∈ (withoutComments text).getLast?, c ≠ '/') (more : Text) :
    withoutComments (text ++ more) = withoutComments text ++ withoutComments more := by
  rw [withoutComments, stripComments, stripFrom_append_right h hlast]
  rfl

/-- Two texts get uniform line ends apart if no carriage return ends the first one. -/
lemma unifyLineEnds_append_of_last {text : Text} (h : text.getLast? ≠ some '\r') (rest : Text) :
    unifyLineEnds (text ++ rest) = unifyLineEnds text ++ unifyLineEnds rest := by
  induction text with
  | nil => rfl
  | cons c text ih =>
    cases text with
    | nil =>
      have hc : c ≠ '\r' := by simpa using h
      have hpair (behind : Text) : ¬ (c = '\r' ∧ behind.head? = some '\n') := fun hin => hc hin.1
      rw [List.singleton_append, unifyLineEnds_single (hpair rest), unifyLineEnds_single (hpair [])]
      rfl
    | cons d text =>
      have hrest := ih (by simpa using h)
      have hstep (behind : Text) : unifyLineEnds (c :: d :: behind) =
          (if c = '\r' ∧ d = '\n' then [] else [PlacedChar.lineEnd c]) ++
            unifyLineEnds (d :: behind) := by
        split_ifs with hpair
        · obtain ⟨rfl, rfl⟩ := hpair
          rw [unifyLineEnds, if_pos ⟨rfl, rfl⟩, List.nil_append]
        · rw [unifyLineEnds_single (by simpa using hpair), List.singleton_append]
      rw [List.cons_append, List.cons_append, hstep, hstep, ← List.cons_append, hrest,
        List.append_assoc]

/-- Two line ends that meet at a seam may be one. -/
lemma exists_unifyLineEnds_behind (first second : Text) :
    ∃ behind, unifyLineEnds (first ++ second) = unifyLineEnds first ++ behind ∧
      (unifyLineEnds second = behind ∨ unifyLineEnds second = '\n' :: behind) := by
  by_cases hfeed : second.head? = some '\n'
  · by_cases hreturn : first.getLast? = some '\r'
    · obtain ⟨front, rfl⟩ := List.getLast?_eq_some_iff.1 hreturn
      obtain ⟨rest, rfl⟩ := List.head?_eq_some_iff.1 hfeed
      have hhead : ('\r' :: '\n' :: rest).head? ≠ some '\n' := by simp
      have hlast : ['\r'].head? ≠ some '\n' := by simp
      refine ⟨unifyLineEnds rest, ?_, Or.inr (unifyLineEnds_single (by simp))⟩
      rw [List.append_assoc, List.singleton_append, unifyLineEnds_append hhead, unifyLineEnds_pair,
        unifyLineEnds_append hlast, List.append_assoc]
      rfl
    · exact ⟨unifyLineEnds second, unifyLineEnds_append_of_last hreturn second, Or.inl rfl⟩
  · exact ⟨unifyLineEnds second, unifyLineEnds_append hfeed first, Or.inl rfl⟩

/-- What ends closed does not end in a slash. -/
lemma EndsClosed.getLast?_ne {last : Text} (h : EndsClosed last) :
    ∀ c ∈ last.getLast?, c ≠ '/' := by
  rintro c hc rfl
  have hmem := List.mem_of_getLast? hc
  by_cases hblank : Text.AllBlank last
  · exact not_mem_of_allBlank (by decide) hblank hmem
  · obtain ⟨front, blanks, rfl, hblanks⟩ := h.exists_close hblank
    rcases List.eq_nil_or_concat' blanks with rfl | ⟨init, d, rfl⟩
    · simp at hc
    · rw [← List.append_assoc, List.getLast?_concat] at hc
      obtain rfl := Option.some.inj hc
      have hslash : '/' ∉ init ++ ['/'] := not_mem_of_allBlank (by decide) hblanks
      simp at hslash

/-- A text that ends with whole groups does not end with a slash. -/
lemma Concluded.getLast?_ne {text : Text} (h : Concluded text) : ∀ c ∈ text.getLast?, c ≠ '/' := by
  obtain ⟨first, others, rfl, hpieces⟩ := exists_pieces text
  obtain ⟨-, hclosed, hgroup⟩ := h
  rcases List.eq_nil_or_concat' others with rfl | ⟨before, last, rfl⟩
  · rw [hpieces.lastPiece_nil] at hclosed
    simpa [joinPieces] using hclosed.getLast?_ne
  · have hgroup := hgroup (infix_joinPieces_concat first last before)
    rw [hpieces.lastPiece_concat] at hclosed hgroup
    have hne : last ≠ [] := by
      rintro rfl
      exact hgroup Text.allBlank_nil
    have hjoin : joinPieces first (before ++ [last]) =
        (joinPieces first before ++ mediaWord) ++ last := by
      simp [joinPieces]
    rw [hjoin, List.getLast?_append_of_ne_nil _ hne]
    exact hclosed.getLast?_ne

/-- A blank in front of a text does not matter. -/
lemma Continuing.of_cons_blank {c : Char} (hc : Text.isBlank c = true) {text : Text}
    (h : Continuing (c :: text)) :
    Continuing text ∧ sheetContents (c :: text) = sheetContents text := by
  obtain ⟨first, others, rfl, hpieces⟩ := exists_pieces text
  have hblank : Text.AllBlank [c] := Text.allBlank_cons.2 ⟨hc, Text.allBlank_nil⟩
  have hlonger : Pieces (c :: first) others := by
    refine ⟨?_, hpieces.others⟩
    rw [← List.singleton_append,
      Text.infix_allBlank_append_iff noBlank_mediaWord (by decide) hblank]
    exact hpieces.first
  have hjoin : c :: joinPieces first others = joinPieces (c :: first) others := rfl
  obtain ⟨hbraces, hheaded⟩ := h
  rw [hjoin, hlonger.firstPiece_eq] at hbraces hheaded
  have htrim : Text.trim (c :: first) = Text.trim first := by
    rw [Text.trim, Text.trimWhere, List.dropWhile_cons_of_pos hc]
    rfl
  refine ⟨⟨?_, ?_⟩, by rw [hjoin, hlonger.sheetContents_eq, htrim, hpieces.sheetContents_eq]⟩
  · rw [hpieces.firstPiece_eq]
    exact (balanced_allBlank_append hblank).1 hbraces
  · rw [hpieces.firstPiece_eq]
    exact hheaded.of_allBlank_append hblank

/-- A concatenation says what the two texts say. -/
theorem textContents_append {first second : Text}
    (hcomments : (stripComments id (unifyLineEnds first)).unclosed? = none)
    (hfirst : Concluded (withoutComments (unifyLineEnds first)))
    (hsecond : Continuing (withoutComments (unifyLineEnds second))) :
    textContents (first ++ second) = textContents first ++ textContents second := by
  obtain ⟨behind, hboth, hbehind⟩ := exists_unifyLineEnds_behind first second
  rw [textContents, hboth, stripComments_append hcomments hfirst.getLast?_ne]
  rcases hbehind with hsame | hfeed
  · rw [← hsame, sheetContents_append hfirst hsecond]
    rfl
  · have hbare : withoutComments (unifyLineEnds second) = '\n' :: withoutComments behind := by
      rw [hfeed, withoutComments, stripComments_cons (by decide)]
      rfl
    rw [hbare] at hsecond
    obtain ⟨hrest, hcontents⟩ := hsecond.of_cons_blank (by decide)
    rw [sheetContents_append hfirst hrest, ← hcontents, ← hbare]
    rfl

end Css

open Css

/-- Adding two texts under a name one after the other leaves the same stylesheets as adding their
concatenation. -/
theorem Session.addSheet_append (session : Session) (name : String) {first second : Text}
    (hcomments : (stripComments id (unifyLineEnds first)).unclosed? = none)
    (hfirst : Concluded (withoutComments (unifyLineEnds first)))
    (hsecond : Continuing (withoutComments (unifyLineEnds second))) :
    ((session.addSheet name first).addSheet name second).sheets.listings =
      (session.addSheet name (first ++ second)).sheets.listings := by
  rw [listings_addSheet, listings_addSheet, listings_addSheet,
    OrderedMap.updateEntries_updateEntries, textContents_append hcomments hfirst hsecond]
  simp only [Listing.insertAll, List.foldl_append, Option.getD_some]

/-- The seam lies inside of a pair of line ends, behind a media rule and in front of a comment. -/
theorem Session.addSheet_append_line_ends :
    let first := "a\x7bb\x7d @media c\x7bd\x7be\x7d\x7d f\x7bg\x7d /*h*/\r".toList
    let second := "\n/*\x7d*/ i\x7bj\x7bk\x7d\x7d a\x7bl\x7d @media m\x7b\x7d /*n".toList
    (((start {}).addSheet "a.css" first).addSheet "a.css" second).sheets.listings =
      ((start {}).addSheet "a.css" (first ++ second)).sheets.listings := by
  apply addSheet_append
  · decide +kernel
  · exact ⟨by decide +kernel, by decide +kernel, fun _ => by decide +kernel⟩
  · exact ⟨by decide +kernel, by decide +kernel⟩

end CssPrune
