import CssPrune.Html.Pattern
import CssPrune.Html.References
import CssPrune.Text.WordChar

/-!
# Scanning HTML

A document is not parsed: five patterns are searched in its text, and each occurrence names
tokens. A captured text that holds a single quote is taken for an expression such as
`active ? 'btn-on' : 'btn-off'`, and only its quoted literals count.
-/

namespace CssPrune.Html

open Text (isBlank isWordChar doubleQuote singleQuote)

/-- A pattern to search for, and what encloses the tokens that it names. -/
structure Extraction where
  pattern : Pattern
  opening : Text := []
  closing : Text := []

/-- The characters of the name of a data attribute. -/
def isNameChar (c : Char) : Bool :=
  c.isAlphanum || c = '_' || c = '-'

/-- A tag: a less-than sign and a word. -/
def tagPattern : Pattern where
  before := [.literal ['<']]
  captured := [.someOf isWordChar]
  after := []

/-- A class attribute: its value in double quotes. -/
def classPattern : Pattern where
  before := [.literal ['c', 'l', 'a', 's', 's'], .anyOf isBlank, .literal ['='], .anyOf isBlank,
    .literal [doubleQuote]]
  captured := [.anyOf (· != doubleQuote)]
  after := [.literal [doubleQuote]]

/-- An id attribute: in double quotes, a value of letters, digits, underscores, hyphens and
blanks. -/
def idPattern : Pattern where
  before := [.literal ['i', 'd'], .anyOf isBlank, .literal ['='], .anyOf isBlank,
    .literal [doubleQuote]]
  captured := [.someOf fun c => isNameChar c || isBlank c]
  after := [.literal [doubleQuote]]

/-- A blank and the name of a data attribute. -/
def dataNamePattern : Pattern where
  before := [.oneOf isBlank]
  captured := [.literal ['d', 'a', 't', 'a', '-'], .someOf isNameChar]
  after := []

/-- A blank and a data attribute with its value. -/
def dataValuePattern : Pattern where
  before := [.oneOf isBlank]
  captured := [.literal ['d', 'a', 't', 'a', '-'], .someOf isNameChar, .literal ['=', doubleQuote],
    .anyOf (· != doubleQuote), .literal [doubleQuote]]
  after := []

/-- The extractions in the order in which a document is searched. -/
def extractions : List Extraction :=
  [{ pattern := tagPattern },
    { pattern := classPattern, opening := ['.'] },
    { pattern := idPattern, opening := ['#'] },
    { pattern := dataNamePattern, opening := ['['], closing := [']'] },
    { pattern := dataValuePattern, opening := ['['], closing := [']'] }]

/-- A literal in single quotes, which does not go over the end of a line. -/
def literalPattern : Pattern where
  before := [.literal [singleQuote]]
  captured := [.anyOf fun c => c != singleQuote && c != '\n']
  after := [.literal [singleQuote]]

/-- The quoted literals of an expression with a space between neighbours. Those of at most one
byte are left out: they are more likely keys or flags than names. -/
def quotedLiterals (expression : Text) : Text :=
  [' '].intercalate ((literalPattern.captures expression).filter (1 < Text.utf8Size ·))

/-- The words that a captured text stands for. -/
def fragments (found : Text) : List Text :=
  Text.words (if found.contains singleQuote then quotedLiterals found else found)

/-- The tokens that an extraction finds in a document, in order and with repetitions. -/
def Extraction.tokens (extraction : Extraction) (document : Text) : List Text :=
  (extraction.pattern.captures document).flatMap fun found =>
    (fragments found).map fun fragment => extraction.opening ++ fragment ++ extraction.closing

/-- The tokens of a document, extraction by extraction. -/
def documentTokens (document : Text) : List Text :=
  extractions.flatMap (·.tokens document)

end CssPrune.Html

namespace CssPrune.References

/-- Adds what a document refers to. -/
def scan (references : References) (document : Text) : References :=
  references.insertAll (Html.documentTokens document)

end CssPrune.References
