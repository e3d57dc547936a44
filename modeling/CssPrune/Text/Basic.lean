import CssPrune.Text.Blank

/-!
# Text

Text is worked on as the list of its characters. The operations here cut blanks off, collapse runs
of blanks, and find literals. Those that only look at characters take a function `char`, so that
they work alike on characters and on characters that carry more, such as their place in a file.
-/

namespace CssPrune

/-- A text as the list of its characters. -/
abbrev Text := List Char

namespace Text

variable {α : Type}

/-- The character `"`. -/
def doubleQuote : Char := '\x22'

/-- The character `'`. -/
def singleQuote : Char := '\x27'

/-- Drops the leading and the trailing items that satisfy `p`. -/
def trimWhere (p : α → Bool) (items : List α) : List α :=
  ((items.dropWhile p).reverse.dropWhile p).reverse

/-- Drops the leading and the trailing blanks. -/
def trim (text : Text) : Text :=
  trimWhere isBlank text

/-- Drops the trailing blanks. -/
def trimEnd (text : Text) : Text :=
  (text.reverse.dropWhile isBlank).reverse

/-- The longest runs of characters that are not blank. -/
def words (text : Text) : List Text :=
  (text.splitOnP isBlank).filter (!·.isEmpty)

/-- The words of a text with a single space between neighbours. -/
def collapse (text : Text) : Text :=
  [' '].intercalate (words text)

/-- What follows the last occurrence of a character; the whole text if it does not occur. -/
def afterLast (c : Char) (text : Text) : Text :=
  (text.reverse.takeWhile (· != c)).reverse

/-- The number of bytes of the UTF-8 form. -/
def utf8Size : Text → Nat
  | [] => 0
  | c :: rest => c.utf8Size + utf8Size rest

/-- The items after a literal, if the list starts with it. -/
def dropLiteral? (char : α → Char) : Text → List α → Option (List α)
  | [], items => some items
  | _ :: _, [] => none
  | c :: literal, a :: items => if char a = c then dropLiteral? char literal items else none

/-- A dropped literal and the rest have the length of the items together. -/
theorem length_of_dropLiteral? {char : α → Char} {literal : Text} {items rest : List α}
    (h : dropLiteral? char literal items = some rest) :
    items.length = literal.length + rest.length := by
  induction literal generalizing items with
  | nil => simp_all [dropLiteral?]
  | cons c literal ih =>
    cases items with
    | nil => simp [dropLiteral?] at h
    | cons a items =>
      simp only [dropLiteral?] at h
      split at h
      · simp [ih h]; omega
      · simp at h

end Text

end CssPrune
