import CssPrune.Text.Basic

/-!
# Glob patterns

A pattern is a path whose names may hold wildcards: `?` for one character, `*` for any text,
`[a-z]` and `[!a-z]` for one character in or out of a class, and `**` as a whole name for
directories at any depth. Letter case counts, and wildcards take a leading dot like any other
character.
-/

namespace CssPrune.Glob

/-- An item of a character class. -/
inductive ClassItem where
  | single (c : Char)
  | range (first last : Char)
  deriving DecidableEq, Repr

/-- Whether an item holds a character. -/
def ClassItem.holds (c : Char) : ClassItem → Bool
  | single d => c = d
  | range first last => first ≤ c && c ≤ last

/-- An element of a pattern. -/
inductive Token where
  | char (c : Char)
  | anyChar
  | anyText
  | oneOf (items : List ClassItem)
  | noneOf (items : List ClassItem)
  /-- Two stars. -/
  | anyDepth
  deriving DecidableEq, Repr

/-- The items between the brackets of a class. A hyphen between two characters makes a range. -/
def classItems : Text → List ClassItem
  | first :: '-' :: last :: rest => .range first last :: classItems rest
  | c :: rest => .single c :: classItems rest
  | [] => []

/-- The text before a closing bracket and the text behind it. -/
def cutBracket? (text : Text) : Option (Text × Text) :=
  match text.dropWhile (· != ']') with
  | [] => none
  | _ :: rest => some (text.takeWhile (· != ']'), rest)

/-- Reads a class behind its opening bracket. The first character of a class is never its end. -/
def readClass? : Text → Option (Token × Text)
  | '!' :: c :: rest =>
    (cutBracket? rest).map fun (items, rest) => (.noneOf (classItems (c :: items)), rest)
  | ['!'] => none
  | c :: rest =>
    (cutBracket? rest).map fun (items, rest) => (.oneOf (classItems (c :: items)), rest)
  | [] => none

/-- A bracket leaves no more text than it was cut from. -/
theorem length_le_of_cutBracket? {text items rest : Text}
    (h : cutBracket? text = some (items, rest)) : rest.length ≤ text.length := by
  have hle : (text.dropWhile (· != ']')).length ≤ text.length :=
    (List.dropWhile_suffix _).length_le
  simp only [cutBracket?] at h
  split at h
  · simp at h
  · rename_i heq
    simp only [Option.some.injEq, Prod.mk.injEq] at h
    obtain ⟨_, rfl⟩ := h
    rw [heq, List.length_cons] at hle
    omega

/-- A class of characters leaves no more text than it was read from. -/
theorem length_le_of_readClass? {text rest : Text} {token : Token}
    (h : readClass? text = some (token, rest)) : rest.length ≤ text.length := by
  unfold readClass? at h
  split at h
  · simp only [Option.map_eq_some_iff, Prod.exists, Prod.mk.injEq] at h
    obtain ⟨_, _, h, _, rfl⟩ := h
    have := length_le_of_cutBracket? h
    simp only [List.length_cons]
    omega
  · simp at h
  · simp only [Option.map_eq_some_iff, Prod.exists, Prod.mk.injEq] at h
    obtain ⟨_, _, h, _, rfl⟩ := h
    have := length_le_of_cutBracket? h
    simp only [List.length_cons]
    omega
  · simp at h

/-- The elements of a pattern; `inName` tells whether the text continues a name. Three stars in a
row and two stars beside other characters of a name make no pattern, and neither does a class
without an end. -/
def tokens? (inName : Bool) : Text → Option (List Token)
  | [] => some []
  | '?' :: rest => (tokens? true rest).map (.anyChar :: ·)
  | '*' :: '*' :: '*' :: _ => none
  | ['*', '*'] => if inName then none else some [.anyDepth]
  | '*' :: '*' :: '/' :: rest => if inName then none else (tokens? false rest).map (.anyDepth :: ·)
  | '*' :: '*' :: _ :: _ => none
  | '*' :: rest => (tokens? true rest).map (.anyText :: ·)
  | '[' :: rest =>
    match _h : readClass? rest with
    | some (token, rest) => (tokens? true rest).map (token :: ·)
    | none => none
  | c :: rest => (tokens? (c != '/') rest).map (.char c :: ·)
termination_by text => text.length
decreasing_by
  all_goals simp only [List.length_cons]
  all_goals try omega
  have := length_le_of_readClass? _h
  omega

/-- Whether a token takes a character. A star takes any text and is not asked. -/
def Token.takes (c : Char) : Token → Bool
  | .char d => c = d
  | .anyChar => true
  | .oneOf items => items.any (·.holds c)
  | .noneOf items => !items.any (·.holds c)
  | .anyText | .anyDepth => false

/-- A text is made up as tokens say. A star stops anywhere; two stars stand for no text. -/
inductive Fits : List Token → Text → Prop where
  | nil : Fits [] []
  | take {token tokens c rest} :
    token.takes c = true → Fits tokens rest → Fits (token :: tokens) (c :: rest)
  | stop {tokens text} : Fits tokens text → Fits (.anyText :: tokens) text
  | goOn {tokens c rest} : Fits (.anyText :: tokens) rest → Fits (.anyText :: tokens) (c :: rest)

/-- For tokens and each of their tails, whether they fit the empty text. -/
def emptyRow : List Token → List Bool
  | [] => [true]
  | token :: tokens =>
    let row := emptyRow tokens
    (token = .anyText && row.headD false) :: row

/-- For tokens and each of their tails, whether they fit a text that begins with `c`, given the
same for the rest of the text. -/
def extendRow (c : Char) : List Token → List Bool → List Bool
  | token :: tokens, fits :: row =>
    let next := extendRow c tokens row
    (token.takes c && row.headD false || token = .anyText && (fits || next.headD false)) :: next
  | _, _ => [false]

/-- For tokens and each of their tails, whether they fit a text. A row for each character keeps
the work at the length of the text times the number of the tokens, however many stars there
are. -/
def fitsRow (tokens : List Token) (text : Text) : List Bool :=
  text.foldr (fun c row => extendRow c tokens row) (emptyRow tokens)

/-- Whether a text is made up as its tokens say. -/
def matchesTokens (tokens : List Token) (text : Text) : Bool :=
  (fitsRow tokens text).headD false

/-- The row of a token begins with the answer for the whole text and goes on with that for its
rest. -/
theorem fitsRow_cons (token : Token) (tokens : List Token) (text : Text) :
    ∃ fits, fitsRow (token :: tokens) text = fits :: fitsRow tokens text := by
  induction text with
  | nil => exact ⟨_, rfl⟩
  | cons c rest ih =>
    obtain ⟨fits, h⟩ := ih
    exact ⟨_, by simp only [fitsRow, List.foldr_cons] at h ⊢; rw [h, extendRow]⟩

/-- A token takes the first character, or it stands for any text and takes it or nothing. -/
theorem matchesTokens_cons_cons (token : Token) (tokens : List Token) (c : Char) (rest : Text) :
    matchesTokens (token :: tokens) (c :: rest) =
      (token.takes c && matchesTokens tokens rest ||
        token = .anyText &&
          (matchesTokens (token :: tokens) rest || matchesTokens tokens (c :: rest))) := by
  obtain ⟨fits, h⟩ := fitsRow_cons token tokens rest
  simp only [matchesTokens, h, List.headD_cons]
  simp only [fitsRow, List.foldr_cons] at h ⊢
  rw [h, extendRow, List.headD_cons]

/-- The rows decide the fit. -/
theorem matchesTokens_iff {tokens : List Token} {text : Text} :
    matchesTokens tokens text = true ↔ Fits tokens text := by
  induction text generalizing tokens with
  | nil =>
    induction tokens with
    | nil => exact ⟨fun _ => .nil, fun _ => rfl⟩
    | cons token tokens ih =>
      have hrow : matchesTokens (token :: tokens) [] =
          (token = .anyText && matchesTokens tokens []) := rfl
      rw [hrow, Bool.and_eq_true, decide_eq_true_eq, ih]
      constructor
      · rintro ⟨rfl, h⟩
        exact .stop h
      · rintro (_ | _ | h)
        exact ⟨rfl, h⟩
  | cons c rest ihText =>
    induction tokens with
    | nil => exact ⟨(nomatch ·), (nomatch ·)⟩
    | cons token tokens ih =>
      rw [matchesTokens_cons_cons, Bool.or_eq_true, Bool.and_eq_true, Bool.and_eq_true,
        Bool.or_eq_true, decide_eq_true_eq, ihText, ihText, ih]
      constructor
      · rintro (⟨htakes, h⟩ | ⟨rfl, h | h⟩)
        · exact .take htakes h
        · exact .goOn h
        · exact .stop h
      · intro h
        cases h with
        | take htakes h => exact Or.inl ⟨htakes, h⟩
        | stop h => exact Or.inr ⟨rfl, Or.inr h⟩
        | goOn h => exact Or.inr ⟨rfl, Or.inl h⟩

/-- A name of a pattern. -/
inductive Part where
  /-- A name without wildcards. -/
  | name (text : Text)
  | wildcards (tokens : List Token)
  | anyDepth
  deriving DecidableEq, Repr

/-- The characters that tokens without wildcards stand for. -/
def plainText? (tokens : List Token) : Option Text :=
  tokens.mapM fun
    | .char c => some c
    | _ => none

/-- A name of a pattern from its tokens. -/
def Part.ofTokens (tokens : List Token) : Part :=
  if tokens = [.anyDepth] then .anyDepth
  else match plainText? tokens with
    | some text => .name text
    | none => .wildcards tokens

/-- Whether a name in a directory fits. -/
def Part.accepts (name : Text) : Part → Bool
  | .name text => name = text
  | .wildcards tokens => matchesTokens tokens name
  | .anyDepth => false

/-- Whether a name of a pattern begins with a dot of its own. Wildcards alone do not stand for the
directory itself or for the one above it. -/
def Part.opensWithDot : Part → Bool
  | .wildcards (.char '.' :: _) => true
  | _ => false

/-- Several `**` in a row say no more than one. -/
def mergeDepths : List Part → List Part
  | .anyDepth :: .anyDepth :: parts => mergeDepths (.anyDepth :: parts)
  | part :: parts => part :: mergeDepths parts
  | [] => []

/-- A pattern: whether it starts at the root of the file system, its names, and whether it ends in
a slash and so takes directories alone. -/
structure Pattern where
  absolute : Bool
  parts : List Part
  directoriesOnly : Bool
  deriving DecidableEq, Repr

/-- The names of a pattern without its leading slashes; a slash at its end begins no further
name. -/
def splitNames (text : Text) : List Text :=
  let names := text.splitOn '/'
  if names.getLast? = some [] then names.dropLast else names

/-- Reads a pattern. It has to make sense as a whole and name by name. -/
def Pattern.parse? (text : Text) : Option Pattern := do
  let _ ← tokens? false text
  let relative := text.dropWhile (· = '/')
  let names := splitNames relative
  let parts ← names.mapM fun name => (tokens? false name).map Part.ofTokens
  return {
    absolute := text.head? = some '/'
    parts := mergeDepths (if relative.isEmpty then [.name []] else parts)
    directoriesOnly := text.getLast? = some '/' }

end CssPrune.Glob
