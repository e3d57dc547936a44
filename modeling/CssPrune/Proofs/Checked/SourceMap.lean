import CssPrune.Proofs.Checked.Access
import CssPrune.Source

/-!
# Source maps

A source map gives each source that is added to it a range of positions, and tells the line and
column of a position. What a run relies on is `SourceMap.Lawful`: ranges come one after the other
with one position left out between them, a span inside of a file has its parts, and a span between
boundaries of characters can be looked up. `SourceMap.table` is a source map of this kind.
-/

namespace CssPrune.Checked

/-- A stretch of the positions of a source map. -/
structure MapSpan where
  low : Nat
  high : Nat
  deriving DecidableEq, Repr

/-- The shortest span that holds two others. -/
def MapSpan.merge (first second : MapSpan) : MapSpan :=
  ⟨min first.low second.low, max first.high second.high⟩

/-- A source and the position of its first byte. -/
structure MapFile where
  low : Nat
  source : Source
  deriving DecidableEq, Repr

/-- The span of a whole file. -/
def MapFile.span (file : MapFile) : MapSpan :=
  ⟨file.low, file.low + Text.utf8Size file.source.text⟩

/-- The first position behind some files, with one left out in front of it. -/
def freePosition (files : List MapFile) : Nat :=
  (files.getLast?.map fun file => file.span.high).getD 0 + 1

/-- The operations of a source map. -/
structure SourceMap (Map : Type) where
  empty : Map
  /-- The files that were added, in order. -/
  files : Map → List MapFile
  addFile : Map → Source → Except Fault (Map × MapSpan)
  subspan : MapSpan → Nat → Nat → Except Fault MapSpan
  lookUp : Map → MapSpan → Except Fault Location

/-- What a run relies on. -/
structure SourceMap.Lawful {Map : Type} (maps : SourceMap Map) : Prop where
  files_empty : maps.files maps.empty = []
  /-- A new file has the next free range, as long as positions fit into 32 bits. -/
  addFile : ∀ map source, freePosition (maps.files map) + Text.utf8Size source.text < 2 ^ 32 →
    ∃ next, maps.addFile map source =
        .ok (next, (MapFile.mk (freePosition (maps.files map)) source).span) ∧
      maps.files next = maps.files map ++ [⟨freePosition (maps.files map), source⟩]
  /-- Two offsets inside of a span make a span. -/
  subspan : ∀ span start stop, start ≤ stop → span.low + stop ≤ span.high →
    maps.subspan span start stop = .ok ⟨span.low + start, span.low + stop⟩
  /-- A span between boundaries of characters has a line and a column at each end. -/
  lookUp : ∀ map, ∀ file ∈ maps.files map, ∀ start stop first last, start ≤ stop →
    file.source.position? start = some first → file.source.position? stop = some last →
      maps.lookUp map ⟨file.low + start, file.low + stop⟩ = .ok ⟨file.source.name, first, last⟩

/-! ## Positions in a text -/

/-- The size of two texts one behind the other is the sum of their sizes. -/
lemma utf8Size_append (front back : Text) :
    Text.utf8Size (front ++ back) = Text.utf8Size front + Text.utf8Size back := by
  induction front with
  | nil => rw [List.nil_append, Text.utf8Size, Nat.zero_add]
  | cons c front ih => rw [List.cons_append, Text.utf8Size, Text.utf8Size, ih, Nat.add_assoc]

/-- Behind the first character of a text the offset is that of the rest. -/
lemma exists_utf8Size_cons (c : Char) (rest : Text) :
    ∃ offset, Text.utf8Size (c :: rest) = offset + 1 ∧ ¬ offset + 1 < c.utf8Size ∧
      offset + 1 - c.utf8Size = Text.utf8Size rest := by
  obtain ⟨offset, hoffset⟩ := Nat.exists_eq_succ_of_ne_zero
    (Nat.ne_of_gt (Nat.add_pos_left c.utf8Size_pos (Text.utf8Size rest)))
  exact ⟨offset, hoffset, by omega, by omega⟩

/-- The offset behind a front of a text has a position. -/
lemma seek?_append (position : Position) (front back : Text) :
    ∃ place, Position.seek? position (front ++ back) (Text.utf8Size front) = some place := by
  induction front generalizing position with
  | nil =>
    cases back with
    | nil => exact ⟨position, by rw [Text.utf8Size, List.append_nil, Position.seek?]⟩
    | cons c back => exact ⟨position, by rw [Text.utf8Size, List.nil_append, Position.seek?]⟩
  | cons c front ih =>
    obtain ⟨place, hplace⟩ := ih (position.advance c)
    obtain ⟨offset, hsize, hle, hrest⟩ := exists_utf8Size_cons c front
    exact ⟨place, by rw [hsize, List.cons_append, Position.seek?, if_neg hle, hrest, hplace]⟩

/-- An offset with a position lies within the text. -/
lemma le_of_seek? {position place : Position} {text : Text} {offset : Nat}
    (h : Position.seek? position text offset = some place) : offset ≤ Text.utf8Size text := by
  fun_induction Position.seek? position text offset with
  | case1 => exact Nat.zero_le _
  | case2 => cases h
  | case3 => cases h
  | case4 position c rest offset hsize ih =>
    have := ih h
    rw [Text.utf8Size]
    omega

/-- A line feed adds a line. -/
lemma length_splitOn_cons (c : Char) (rest : Text) :
    ((c :: rest).splitOn '\n').length =
      (if c = '\n' then 1 else 0) + (rest.splitOn '\n').length := by
  rw [List.splitOn, List.splitOnP_cons_eq_if_modifyHead, List.splitOn]
  by_cases h : c = '\n'
  · simp [h, Nat.add_comm]
  · simp [h]

/-- A position lies on one of the lines of its text. -/
lemma line_lt_of_seek? {position place : Position} {text : Text} {offset : Nat}
    (h : Position.seek? position text offset = some place) :
    place.line < position.line + (text.splitOn '\n').length := by
  fun_induction Position.seek? position text offset with
  | case1 position text =>
    obtain rfl := Option.some.inj h
    exact Nat.lt_add_of_pos_right (List.length_pos_iff.2 (List.splitOn_ne_nil _ _))
  | case2 => cases h
  | case3 => cases h
  | case4 position c rest offset hsize ih =>
    have hline := ih h
    rw [length_splitOn_cons]
    rw [Position.advance] at hline
    split at hline
    · rename_i hc
      rw [if_pos hc, ← Nat.add_assoc]
      exact hline
    · rename_i hc
      rw [if_neg hc, Nat.zero_add]
      exact hline

/-! ## A source map -/

/-- The last position of some sources, the last one first. -/
def lastPosition : List Source → Nat
  | [] => 0
  | source :: older => lastPosition older + 1 + Text.utf8Size source.text

/-- The files of some sources, the last one first. -/
def tableFiles : List Source → List MapFile
  | [] => []
  | source :: older => tableFiles older ++ [⟨lastPosition older + 1, source⟩]

/-- The source that a position belongs to, and its line and column there. -/
def tablePlace? : List Source → Nat → Option (Source × Position)
  | [], _ => none
  | source :: older, position =>
    if lastPosition older < position then
      (source.position? (position - (lastPosition older + 1))).map (source, ·)
    else tablePlace? older position

/-- The source map that keeps the sources themselves, the last one first. -/
def SourceMap.table : SourceMap (List Source) where
  empty := []
  files := tableFiles
  addFile sources source :=
    let low := lastPosition sources + 1
    if low + Text.utf8Size source.text < 2 ^ 32 then
      .ok (source :: sources, ⟨low, low + Text.utf8Size source.text⟩)
    else .error .overflow
  subspan span start stop :=
    if start ≤ stop ∧ span.low + stop ≤ span.high then .ok ⟨span.low + start, span.low + stop⟩
    else .error .span
  lookUp sources span :=
    if span.low ≤ span.high then
      match tablePlace? sources span.low, tablePlace? sources span.high with
      | some (source, first), some (_, last) => .ok ⟨source.name, first, last⟩
      | _, _ => .error .place
    else .error .span

/-- The next file begins behind the last position. -/
lemma freePosition_tableFiles (sources : List Source) :
    freePosition (tableFiles sources) = lastPosition sources + 1 := by
  cases sources with
  | nil => rfl
  | cons source older =>
    rw [freePosition, tableFiles, List.getLast?_concat]
    rfl

/-- A file lies in front of the positions that are still free. -/
lemma le_lastPosition {sources : List Source} {file : MapFile} (h : file ∈ tableFiles sources) :
    file.span.high ≤ lastPosition sources := by
  induction sources with
  | nil => cases h
  | cons source older ih =>
    rw [lastPosition]
    rcases List.mem_append.1 h with hin | hin
    · have := ih hin
      omega
    · rw [List.mem_singleton.1 hin]
      exact Nat.le_refl _

/-- The table finds a file again at each offset of its text. -/
lemma tablePlace?_eq {sources : List Source} {file : MapFile} (h : file ∈ tableFiles sources)
    {offset : Nat} {place : Position} (hplace : file.source.position? offset = some place) :
    tablePlace? sources (file.low + offset) = some (file.source, place) := by
  induction sources with
  | nil => cases h
  | cons source older ih =>
    rw [tablePlace?]
    rcases List.mem_append.1 h with hin | hin
    · have hhigh : file.low + Text.utf8Size file.source.text ≤ lastPosition older :=
        le_lastPosition hin
      have hoffset := le_of_seek? hplace
      rw [if_neg (by omega), ih hin]
    · obtain rfl := List.mem_singleton.1 hin
      show (if lastPosition older < lastPosition older + 1 + offset then
        (source.position? (lastPosition older + 1 + offset - (lastPosition older + 1))).map
          (source, ·) else _) = _
      rw [if_pos (by omega), Nat.add_sub_cancel_left, hplace]
      rfl

/-- The table of sources is a lawful source map. -/
lemma lawful_table : SourceMap.table.Lawful where
  files_empty := rfl
  addFile sources source h := by
    have hfree : freePosition (SourceMap.table.files sources) = lastPosition sources + 1 :=
      freePosition_tableFiles sources
    rw [hfree] at h ⊢
    exact ⟨source :: sources, if_pos h, rfl⟩
  subspan span start stop hstart hstop := if_pos ⟨hstart, hstop⟩
  lookUp sources file hfile start stop first last hle hfirst hlast := by
    have horder : file.low + start ≤ file.low + stop := Nat.add_le_add_left hle _
    simp only [SourceMap.table, tablePlace?_eq hfile hfirst, tablePlace?_eq hfile hlast, horder,
      if_true]

end CssPrune.Checked
