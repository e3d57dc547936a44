import CssPrune.Text.Basic

/-!
# Minifying

A run of blanks becomes one space, or nothing at the ends of the text and beside a brace, a
semicolon or a comma; a semicolon in front of a closing brace is dropped. Quoted texts stay as
they are. The text is read from left to right; the output is kept with its last character first.
-/

namespace CssPrune.Css

/-- The characters beside which blanks say nothing. -/
def isSeparator (c : Char) : Bool :=
  c = '{' || c = '}' || c = ';' || c = ','

/-- Where the minifier stands. -/
inductive MinifyMode where
  /-- Outside of quotes, and whether blanks were read since the last character. -/
  | plain (blank : Bool)
  /-- In a text that ends with this quote. -/
  | quoted (quote : Char)
  /-- Behind a backslash in such a text. -/
  | escaped (quote : Char)
  deriving DecidableEq, Repr

/-- The output before a character, with the space that blanks in front of it leave. -/
def spaceBefore (blank : Bool) (c : Char) (out : Text) : Text :=
  if blank && !isSeparator c && out.head?.any (!isSeparator ·) then ' ' :: out else out

/-- The output before a closing brace, without a semicolon at its end. -/
def dropSemicolon : Text → Text
  | ';' :: out => out
  | out => out

/-- Reads one character. -/
def minifyStep (state : MinifyMode × Text) (c : Char) : MinifyMode × Text :=
  match state with
  | (.plain blank, out) =>
    if Text.isBlank c then (.plain true, out)
    else if c = Text.doubleQuote || c = Text.singleQuote then
      (.quoted c, c :: spaceBefore blank c out)
    else if c = '}' then (.plain false, c :: dropSemicolon (spaceBefore blank c out))
    else (.plain false, c :: spaceBefore blank c out)
  | (.quoted quote, out) =>
    if c = '\\' then (.escaped quote, c :: out)
    else if c = quote then (.plain false, c :: out)
    else (.quoted quote, c :: out)
  | (.escaped quote, out) => (.quoted quote, c :: out)

/-- Minifies a stylesheet. -/
def minify (css : Text) : Text :=
  (css.foldl minifyStep (.plain false, [])).2.reverse

end CssPrune.Css
