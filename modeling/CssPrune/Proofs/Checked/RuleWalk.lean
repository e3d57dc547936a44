import CssPrune.Css.Reading
import CssPrune.Proofs.Checked.Tokens
import CssPrune.Proofs.RuleScan

/-!
# The checked walk over rules

The rules of a range, found by index: the next opening brace, the characters in front of it that
can belong to a selector list, the braces behind it, and the next closing brace. One round of the
walk gives the rule that the scan gives next, and leaves the range behind it (`nextRule_round`); so
the walk finds the rules of the scan (`rulesFrom_is`).
-/

namespace CssPrune.Checked

open Css

/-- A rule that was found. -/
structure Found where
  scope : Scope
  selector : Text
  declarations : Text
  span : MapSpan

/-- The text of a range. -/
def rawText (tokens : List PlacedChar) (start stop : Nat) : Except Fault Text := do
  let part ← slice tokens start stop
  return PlacedChar.text part

/-- Where the declarations begin that end at `close`, behind braces from `brace` up to `behind`. If
nothing else stands there, they are the last of several braces. -/
def bodyStart? (brace behind close : Nat) : Except Fault (Option Nat) :=
  if close = behind then do
    let braces ← minus behind brace
    if 1 < braces then do
      let last ← minus behind 1
      return some last
    else return none
  else return some behind

section Walk

variable {Map : Type} (maps : SourceMap Map) (lexer : Lexer) (scope : Scope)

/-- The rule between given indices. -/
def ruleBetween (start brace body close : Nat) : Except Fault Found := do
  let selector ← rawText lexer.tokens start brace
  let declarations ← rawText lexer.tokens body close
  let span ← lexer.spanOf maps start brace
  return ⟨scope, Text.collapse selector, Text.collapse declarations, span⟩

/-- The rule that ends at a closing brace, if it has declarations, and the index from which the next
one goes on. -/
def ruleUpTo (start brace behind close : Nat) : Except Fault (Option Found × Option Nat) := do
  match ← bodyStart? brace behind close with
  | none => return (none, some close)
  | some body => do
    let found ← ruleBetween maps lexer scope start brace body close
    return (some found, some (close + 1))

/-- The rule whose selector list ends at an opening brace, and the index from which the next one
goes on. -/
def ruleAt (start brace stop : Nat) : Except Fault (Option Found × Option Nat) := do
  let behind ← skipFront (·.char = '{') lexer.tokens brace stop
  match ← firstIn (·.char = '}') lexer.tokens behind stop with
  | none => return (none, none)
  | some close => ruleUpTo maps lexer scope start brace behind close

/-- One round of the walk, up to the next opening brace or to the rule that begins in front of
it. -/
def nextRule (cursor stop : Nat) : Except Fault (Option Found × Option Nat) := do
  match ← firstIn (·.char = '{') lexer.tokens cursor stop with
  | none => return (none, none)
  | some brace => do
    let start ← skipBack (fun placed => IsPlain placed.char) lexer.tokens cursor brace
    if start = brace then return (none, some (brace + 1))
    else ruleAt maps lexer scope start brace stop

/-- The rules of a range. -/
def rulesFrom (cursor stop : Nat) : Except Fault (List Found) := do
  match ← nextRule maps lexer scope cursor stop with
  | (found?, none) => return found?.toList
  | (found?, some next) =>
    if cursor < next ∧ next ≤ stop then do
      let founds ← rulesFrom next stop
      return found?.toList ++ founds
    else .error .stuck
termination_by stop - cursor

end Walk

/-! ## The walk -/

/-- What was found is an entry of the reading. -/
structure Found.Is (file : MapFile) (found : Found) (entry : Entry) : Prop where
  scope : found.scope = entry.scope
  selector : found.selector = entry.selector
  declarations : found.declarations = entry.declarations
  span : Locates file found.span entry.span

section Walk

variable {Map : Type} {maps : SourceMap Map} {file : MapFile} {lexer : Lexer} {scope : Scope}
  {cursor : Nat} {part : List PlacedChar}

/-- A body begins behind its braces; without declarations the last brace is taken for them. -/
lemma bodyStart?_eq (brace more : Nat) (declarations : List PlacedChar) :
    bodyStart? brace (brace + 1 + more) (brace + 1 + more + declarations.length) =
      .ok (if declarations = [] then if 0 < more then some (brace + more) else none
        else some (brace + 1 + more)) := by
  cases declarations with
  | nil =>
    have hbraces : minus (brace + 1 + more) brace = .ok (1 + more) := by
      rw [minus, if_pos (by omega)]
      congr 1
      omega
    have hlast : minus (brace + 1 + more) 1 = .ok (brace + more) := by
      rw [minus, if_pos (by omega)]
      congr 1
      omega
    rw [bodyStart?, if_pos (by simp), hbraces, ok_bind, if_pos rfl]
    by_cases hmore : 0 < more
    · rw [if_pos (by omega), if_pos hmore, hlast]
      rfl
    · rw [if_neg (by omega), if_neg hmore]
      rfl
  | cons a rest =>
    rw [bodyStart?, if_neg (by simp), if_neg (by simp)]
    rfl

/-- What one round gives, if `rules` are the rules of the scan between two indices: either they are
none, or the first of them is found and the others come behind. -/
inductive Round (file : MapFile) (lexer : Lexer) (scope : Scope) (start stop : Nat)
    (rules : List (RawRule PlacedChar)) : Option Found × Option Nat → Prop where
  | last (none_left : rules = []) : Round file lexer scope start stop rules (none, none)
  | next {found? : Option Found} {rule? : Option (RawRule PlacedChar)} {next : Nat}
      {rest : List PlacedChar} (moves : start < next) (stands : Stands lexer.tokens next rest)
      (ends : stop = next + rest.length)
      (rules_eq : rules = rule?.toList ++ rawRules PlacedChar.char rest)
      (found : Option.Rel
        (fun found rule => Found.Is file found (Reading.entryOf file.source scope rule))
        found? rule?) :
      Round file lexer scope start stop rules (found?, some next)

/-- A round from a later index is one from an earlier index. -/
lemma Round.widen {start stop : Nat} {rules : List (RawRule PlacedChar)}
    {round : Option Found × Option Nat} (hle : cursor ≤ start)
    (h : Round file lexer scope start stop rules round) :
    Round file lexer scope cursor stop rules round := by
  cases h with
  | last none_left => exact .last none_left
  | next moves stands ends rules_eq found =>
    exact .next (Nat.lt_of_le_of_lt hle moves) stands ends rules_eq found

/-- The text of a part that stands in the tokens can be read. -/
lemma rawText_eq {start : Nat} (h : Stands lexer.tokens start part) :
    rawText lexer.tokens start (start + part.length) = .ok (PlacedChar.text part) := by
  rw [rawText, h.slice]
  rfl

/-- A rule whose two parts stand in the tokens is found as it is read. -/
lemma ruleBetween_is (hmaps : maps.Lawful) (hlexer : lexer.Of file) {start body : Nat}
    {run declarations : List PlacedChar} (hrun : Stands lexer.tokens start run) (hne : run ≠ [])
    (hbody : Stands lexer.tokens body declarations) :
    Succeeds (ruleBetween maps lexer scope start (start + run.length) body
        (body + declarations.length))
      (Found.Is file · (Reading.entryOf file.source scope ⟨run, declarations⟩)) := by
  rw [ruleBetween, rawText_eq hrun, ok_bind, rawText_eq hbody, ok_bind]
  refine (spanOf_covers hmaps hlexer hrun hne).bind fun span hspan => ?_
  exact succeeds_ok ⟨rfl, rfl, rfl, hspan⟩

section Braces

variable {start : Nat} {run more declarations rest : List PlacedChar} {brace close : PlacedChar}

/-- A rule with declarations or doubled braces that is closed is found, and the walk goes on behind
it. -/
lemma ruleUpTo_round (hmaps : maps.Lawful) (hlexer : lexer.Of file) (hne : run ≠ [])
    (hbrace : brace.char = '{') (hmore : ∀ a ∈ more, a.char = '{')
    (hfirst : ∀ a ∈ declarations.head?, a.char ≠ '{') (hbody : ∀ a ∈ declarations, a.char ≠ '}')
    (hclose : close.char = '}')
    (hpart : Stands lexer.tokens start
      (run ++ brace :: (more ++ (declarations ++ close :: rest)))) :
    Succeeds
      (ruleUpTo maps lexer scope start (start + run.length) (start + run.length + 1 + more.length)
        (start + run.length + 1 + more.length + declarations.length))
      (Round file lexer scope start
        (start + (run ++ brace :: (more ++ (declarations ++ close :: rest))).length)
        ((RuleState.outside run.reverse).rules PlacedChar.char
          (brace :: (more ++ (declarations ++ close :: rest))))) := by
  have hmoreStands := hpart.right.tail
  have hdeclarations := hmoreStands.right
  have hcloseStands := hdeclarations.right
  have hlength : (run ++ brace :: (more ++ (declarations ++ close :: rest))).length =
      run.length + 1 + more.length + declarations.length + 1 + rest.length := by
    simp only [List.length_append, List.length_cons]
    omega
  rw [ruleUpTo, bodyStart?_eq, ok_bind, rules_open_brace hne hbrace, rules_opening_braces hmore,
    hlength]
  by_cases hempty : declarations = []
  -- nothing stands in front of the closing brace, so the last of several braces takes its place
  · subst hempty
    rcases List.eq_nil_or_concat' more with rfl | ⟨init, last, rfl⟩
    · refine succeeds_ok (.next ?_ hcloseStands ?_ ?_ .none)
      · simp only [List.length_nil]
        omega
      · simp only [List.length_nil, List.length_cons]
        omega
      · rw [rawRules_cons_of_not_plain fun h => h.2.1 hclose]
        exact rules_opening_close hclose false
    · have hlast : Stands lexer.tokens (start + run.length + (init ++ [last]).length) [last] := by
        have h := hmoreStands.left.right
        rw [Nat.add_right_comm] at h
        rwa [List.length_append, List.length_singleton, ← Nat.add_assoc]
      have hbetween := @ruleBetween_is Map maps file lexer scope hmaps hlexer start
        (start + run.length + (init ++ [last]).length) run [last] hpart.left hne hlast
      have hend : start + run.length + (init ++ [last]).length + [last].length =
          start + run.length + 1 + (init ++ [last]).length := Nat.add_right_comm _ _ _
      rw [hend] at hbetween
      rw [if_pos rfl, if_pos (by simp)]
      refine hbetween.bind fun found hfound => ?_
      refine succeeds_ok (.next ?_ hcloseStands.tail ?_ ?_ (.some hfound))
      · rw [List.length_nil]
        omega
      · rw [List.length_nil]
        omega
      · have hlastD : (init ++ [last]).getLastD brace = last := by simp
        rw [hlastD, List.nil_append, rules_opening_close hclose]
        simp
  · rw [if_neg hempty]
    refine (ruleBetween_is hmaps hlexer hpart.left hne hdeclarations.left).bind
      fun found hfound => ?_
    refine succeeds_ok (.next ?_ hcloseStands.tail ?_ ?_ (.some hfound))
    · omega
    · omega
    · exact rules_opening_declarations hempty hfirst hbody hclose _

/-- A rule behind a run is found if it is closed; else the walk ends. -/
lemma ruleAt_round {back : List PlacedChar} (hmaps : maps.Lawful) (hlexer : lexer.Of file)
    (hne : run ≠ []) (hbrace : brace.char = '{')
    (hpart : Stands lexer.tokens start (run ++ brace :: back)) :
    Succeeds (ruleAt maps lexer scope start (start + run.length)
        (start + (run ++ brace :: back).length))
      (Round file lexer scope start (start + (run ++ brace :: back).length)
        ((RuleState.outside run.reverse).rules PlacedChar.char (brace :: back))) := by
  obtain ⟨more, tail, rfl, hmore, hfirst, htake⟩ : ∃ more tail, back = more ++ tail ∧
      (∀ a ∈ more, a.char = '{') ∧ (∀ a ∈ tail.head?, a.char ≠ '{') ∧
      back.takeWhile (fun placed => placed.char = '{') = more := by
    refine ⟨_, _, List.takeWhile_append_dropWhile.symm, fun a ha => ?_, fun a ha => ?_, rfl⟩
    · simpa using List.mem_takeWhile_imp ha
    · have hnot := List.head?_dropWhile_not (fun placed : PlacedChar => placed.char = '{') back
      rw [Option.mem_def.1 ha] at hnot
      simpa using hnot
  have hskip : skipFront (·.char = '{') lexer.tokens (start + run.length)
      (start + (run ++ brace :: (more ++ tail)).length) =
        .ok (start + run.length + 1 + more.length) := by
    have h := hpart.right.skipFront (fun placed => placed.char = '{')
    rw [List.takeWhile_cons_of_pos (by simp [hbrace]), htake] at h
    rw [List.length_append, ← Nat.add_assoc, h, List.length_cons]
    congr 1
    omega
  have htail := hpart.right.tail.right
  have hstop : start + (run ++ brace :: (more ++ tail)).length =
      start + run.length + 1 + more.length + tail.length := by
    simp only [List.length_append, List.length_cons]
    omega
  rw [ruleAt, hskip, ok_bind]
  rcases htail.firstIn (·.char = '}') with
    ⟨hnone, hfind⟩ | ⟨declarations, close, rest, rfl, hclose, hbody, hfind⟩
  · rw [hstop, hfind]
    refine succeeds_ok (.last (rules_eq_nil_of_no_close ?_ _))
    intro a ha
    rcases List.mem_cons.1 ha with rfl | ha
    · simp [hbrace]
    · rcases List.mem_append.1 ha with ha | ha
      · simp [hmore a ha]
      · simpa using hnone a ha
  · rw [← hstop] at hfind
    rw [hfind]
    refine ruleUpTo_round hmaps hlexer hne hbrace hmore ?_ (by simpa using hbody)
      (by simpa using hclose) hpart
    intro a ha
    apply hfirst
    cases declarations with
    | nil => cases ha
    | cons b declarations => exact ha

end Braces

/-- A round of the walk finds the first rule of what is left. -/
lemma nextRule_round (hmaps : maps.Lawful) (hlexer : lexer.Of file)
    (hpart : Stands lexer.tokens cursor part) :
    Succeeds (nextRule maps lexer scope cursor (cursor + part.length))
      (Round file lexer scope cursor (cursor + part.length)
        (rawRules PlacedChar.char part)) := by
  rw [nextRule]
  rcases hpart.firstIn (·.char = '{') with
    ⟨hnone, hfind⟩ | ⟨front, brace, back, rfl, hbrace, hfront, hfind⟩
  · rw [hfind]
    exact succeeds_ok (.last (rules_eq_nil_of_no_open (by simpa using hnone) []))
  -- the run begins behind the last character that no selector list can hold
  · obtain ⟨pre, run, rfl, hrun, hpre, hskip⟩ :=
      hpart.left.skipBack (fun placed => IsPlain placed.char)
    have hrules : rawRules PlacedChar.char (pre ++ run ++ brace :: back) =
        (RuleState.outside run.reverse).rules PlacedChar.char (brace :: back) := by
      refine rawRules_front (fun a ha => ?_) (by simpa using hpre) (by simpa using hrun)
      simpa using hfront a (List.mem_append_left run ha)
    rw [hfind, ok_bind]
    show Succeeds (skipBack (fun placed => IsPlain placed.char) lexer.tokens cursor
      (cursor + (pre ++ run).length) >>= _) _
    rw [hskip, ok_bind]
    by_cases hempty : run = []
    · subst hempty
      rw [if_pos (by simp)]
      refine succeeds_ok (.next ?_ hpart.right.tail ?_ ?_ .none)
      · omega
      · simp only [List.length_append, List.length_cons]
        omega
      · rw [hrules]
        exact rawRules_cons_of_not_plain fun h => h.1 (by simpa using hbrace)
    · have hstart : ¬ cursor + pre.length = cursor + (pre ++ run).length := by
        have := List.length_pos_iff.2 hempty
        rw [List.length_append]
        omega
      have hbehind : Stands lexer.tokens (cursor + pre.length) (run ++ brace :: back) :=
        Stands.right (by rwa [← List.append_assoc])
      have hround := @ruleAt_round Map maps file lexer scope _ run brace back hmaps hlexer hempty
        (by simpa using hbrace) hbehind
      have hbrace : cursor + (pre ++ run).length = cursor + pre.length + run.length := by
        rw [List.length_append, Nat.add_assoc]
      have hstop : cursor + (pre ++ run ++ brace :: back).length =
          cursor + pre.length + (run ++ brace :: back).length := by
        rw [List.append_assoc, List.length_append, Nat.add_assoc]
      rw [if_neg hstart, hrules, hbrace, hstop]
      exact hround.mono fun round => Round.widen (Nat.le_add_right _ _)

/-- The walk finds the rules of the scan. -/
lemma rulesFrom_is (hmaps : maps.Lawful) (hlexer : lexer.Of file)
    (hpart : Stands lexer.tokens cursor part) :
    Succeeds (rulesFrom maps lexer scope cursor (cursor + part.length))
      (List.Forall₂ (Found.Is file) · (Reading.ofRules file.source scope part).entries) := by
  -- a round moves on, so what it leaves is shorter
  induction hn : part.length using Nat.strong_induction_on generalizing cursor part with
  | _ n ih =>
    subst hn
    rw [rulesFrom]
    refine (@nextRule_round Map maps file lexer scope cursor part hmaps hlexer hpart).bind
      fun round hround => ?_
    rw [Reading.ofRules]
    cases hround with
    | last none_left =>
      rw [none_left]
      exact succeeds_ok .nil
    | @next found? rule? next rest moves stands ends rules_eq found =>
      have hle : next ≤ cursor + part.length := by omega
      have hrest := ih rest.length (by omega) stands rfl
      rw [← ends] at hrest
      show Succeeds (if cursor < next ∧ next ≤ cursor + part.length then _ else _) _
      rw [if_pos ⟨moves, hle⟩, rules_eq, List.map_append]
      refine hrest.bind fun founds hfounds => succeeds_ok (List.rel_append ?_ hfounds)
      cases found with
      | none => exact .nil
      | some hfound => exact .cons hfound .nil

end Walk

end CssPrune.Checked
