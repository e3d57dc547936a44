import CssPrune.Text.Basic
import Mathlib.Tactic.Lemma

/-!
# Expressions

Regular expressions with backtracking, over items of any kind that have a character each. At a place
an expression has a list of ways to match, the one it tries first in front (`Expression.ways`). A
search takes the first way at the leftmost place that has one and goes on behind it
(`Needle.search`).

A run that is followed by something which begins with none of its characters matches in one way
only: it takes all of them (`Expression.flatMap_ways_run`).
-/

namespace CssPrune

/-- One way to match at a place: the items it takes, the groups it captures of them, and the items
behind it. -/
structure Way (α : Type) where
  taken : List α
  groups : List (List α)
  rest : List α

namespace Way

variable {α : Type}

/-- Takes nothing. -/
def stay (items : List α) : Way α :=
  ⟨[], [], items⟩

/-- Takes an item, then goes on. -/
def behind (a : α) (way : Way α) : Way α :=
  { way with taken := a :: way.taken }

/-- Captures what it takes. -/
def captured (way : Way α) : Way α :=
  { way with groups := way.taken :: way.groups }

/-- Goes on where the first way ends. -/
def andThen (first second : Way α) : Way α :=
  ⟨first.taken ++ second.taken, first.groups ++ second.groups, second.rest⟩

/-- Going on from the start of the items changes no way. -/
lemma map_stay_andThen (items : List α) (ways : List (Way α)) :
    ways.map (Way.andThen (.stay items)) = ways :=
  List.map_id ways

end Way

/-- Regular expressions whose repetitions are of one class of characters. -/
inductive Expression where
  /-- One character. -/
  | one (accepts : Char → Bool)
  /-- Any number of characters, the longest run first if it is greedy, else the shortest first. -/
  | run (accepts : Char → Bool) (greedy : Bool)
  /-- A group, which is captured. -/
  | group (inner : Expression)
  /-- One expression behind the other. -/
  | followedBy (first second : Expression)

namespace Expression

variable {α β : Type} {char : α → Char} {accepts : Char → Bool}

/-- At least one character, the longest run first. -/
def someOf (accepts : Char → Bool) : Expression :=
  .followedBy (.one accepts) (.run accepts true)

/-- The ways of a run: stop, or take an item and go on. -/
def runWays (char : α → Char) (accepts : Char → Bool) (greedy : Bool) : List α → List (Way α)
  | [] => [.stay []]
  | a :: rest =>
    if accepts (char a) then
      let more := (runWays char accepts greedy rest).map (Way.behind a)
      if greedy then more ++ [.stay (a :: rest)] else .stay (a :: rest) :: more
    else [.stay (a :: rest)]

/-- The ways to match at the start of the items, the one that is tried first in front. -/
def ways (char : α → Char) : Expression → List α → List (Way α)
  | one _, [] => []
  | one accepts, a :: rest => if accepts (char a) then [(Way.stay rest).behind a] else []
  | run accepts greedy, items => runWays char accepts greedy items
  | group inner, items => (inner.ways char items).map Way.captured
  | followedBy first second, items =>
    (first.ways char items).flatMap fun way => (second.ways char way.rest).map way.andThen

/-- Whether every way takes an item. -/
def consumes : Expression → Bool
  | one _ => true
  | run _ _ => false
  | group inner => inner.consumes
  | followedBy first second => first.consumes || second.consumes

/-! ## What a way takes -/

/-- A way of a single item takes that item. -/
lemma exists_of_mem_ways_one {items : List α} {way : Way α}
    (h : way ∈ (one accepts).ways char items) :
    ∃ a rest, items = a :: rest ∧ accepts (char a) = true ∧ way = (Way.stay rest).behind a := by
  cases items with
  | nil => cases h
  | cons a rest =>
    rw [ways] at h
    split at h
    · rename_i ha
      exact ⟨a, rest, rfl, ha, List.mem_singleton.1 h⟩
    · cases h

/-- What a way of a run takes stands in front of its rest. -/
lemma taken_append_rest_of_mem_runWays {greedy : Bool} {items : List α} {way : Way α}
    (h : way ∈ runWays char accepts greedy items) : way.taken ++ way.rest = items := by
  induction items generalizing way with
  | nil =>
    obtain rfl := List.mem_singleton.1 h
    rfl
  | cons a rest ih =>
    have hmore : ∀ way ∈ (runWays char accepts greedy rest).map (Way.behind a),
        way.taken ++ way.rest = a :: rest := by
      intro way hway
      obtain ⟨later, hlater, rfl⟩ := List.mem_map.1 hway
      exact congrArg (a :: ·) (ih hlater)
    rw [runWays] at h
    split at h
    · split at h
      · rcases List.mem_append.1 h with h | h
        · exact hmore way h
        · obtain rfl := List.mem_singleton.1 h
          rfl
      · rcases List.mem_cons.1 h with rfl | h
        · rfl
        · exact hmore way h
    · obtain rfl := List.mem_singleton.1 h
      rfl

/-- A way takes items from the front and leaves the others. -/
lemma taken_append_rest {e : Expression} {items : List α} {way : Way α}
    (h : way ∈ e.ways char items) : way.taken ++ way.rest = items := by
  induction e generalizing items way with
  | one accepts =>
    obtain ⟨a, rest, rfl, -, rfl⟩ := exists_of_mem_ways_one h
    rfl
  | run accepts greedy => exact taken_append_rest_of_mem_runWays h
  | group inner ih =>
    obtain ⟨way, hway, rfl⟩ := List.mem_map.1 h
    have hparts := ih hway
    exact hparts
  | followedBy first second ihfirst ihsecond =>
    obtain ⟨before, hbefore, h⟩ := List.mem_flatMap.1 h
    obtain ⟨after, hafter, rfl⟩ := List.mem_map.1 h
    rw [Way.andThen, List.append_assoc, ihsecond hafter, ihfirst hbefore]

/-- A way of an expression that consumes takes at least one item. -/
lemma taken_ne_nil {e : Expression} (he : e.consumes = true) {items : List α} {way : Way α}
    (h : way ∈ e.ways char items) : way.taken ≠ [] := by
  induction e generalizing items way with
  | one accepts =>
    obtain ⟨a, rest, rfl, -, rfl⟩ := exists_of_mem_ways_one h
    exact List.cons_ne_nil a []
  | run accepts greedy => cases he
  | group inner ih =>
    obtain ⟨way, hway, rfl⟩ := List.mem_map.1 h
    have hne := ih he hway
    exact hne
  | followedBy first second ihfirst ihsecond =>
    obtain ⟨before, hbefore, h⟩ := List.mem_flatMap.1 h
    obtain ⟨after, hafter, rfl⟩ := List.mem_map.1 h
    rw [consumes, Bool.or_eq_true] at he
    rcases he with he | he
    · exact List.append_ne_nil_of_left_ne_nil (ihfirst he hbefore) _
    · exact List.append_ne_nil_of_right_ne_nil _ (ihsecond he hafter)

/-- A way of an expression that consumes leaves fewer items. -/
lemma length_rest_lt {e : Expression} (he : e.consumes = true) {items : List α} {way : Way α}
    (h : way ∈ e.ways char items) : way.rest.length < items.length := by
  rw [← taken_append_rest h, List.length_append]
  exact Nat.lt_add_of_pos_left (List.length_pos_iff.2 (taken_ne_nil he h))

/-! ## The ways of each expression -/

/-- A single item does not match where nothing is left. -/
@[simp]
lemma ways_one_nil : (one accepts).ways char [] = [] := by
  rw [ways]

/-- A single item matches where its test accepts. -/
lemma ways_one_cons {a : α} (h : accepts (char a) = true) (rest : List α) :
    (one accepts).ways char (a :: rest) = [(Way.stay rest).behind a] := by
  rw [ways, if_pos h]

/-- A single item does not match where its test rejects. -/
lemma ways_one_eq_nil {items : List α} (h : ∀ a ∈ items.head?, accepts (char a) = false) :
    (one accepts).ways char items = [] := by
  cases items with
  | nil => exact ways_one_nil
  | cons a rest => rw [ways, if_neg (by simp [h a rfl])]

/-- A run in front of an item that its test rejects takes nothing. -/
lemma ways_run_stop {greedy : Bool} {items : List α}
    (h : ∀ a ∈ items.head?, accepts (char a) = false) :
    (run accepts greedy).ways char items = [.stay items] := by
  cases items with
  | nil => rfl
  | cons a rest => rw [ways, runWays, if_neg (by simp [h a rfl])]

/-- A greedy run takes what its test accepts before it stops. -/
lemma ways_greedy_cons {a : α} (h : accepts (char a) = true) (rest : List α) :
    (run accepts true).ways char (a :: rest) =
      ((run accepts true).ways char rest).map (Way.behind a) ++ [.stay (a :: rest)] := by
  rw [ways, runWays, if_pos h, if_pos rfl]
  rfl

/-- A lazy run stops before it takes what its test accepts. -/
lemma ways_lazy_cons {a : α} (h : accepts (char a) = true) (rest : List α) :
    (run accepts false).ways char (a :: rest) =
      .stay (a :: rest) :: ((run accepts false).ways char rest).map (Way.behind a) := by
  rw [ways, runWays, if_pos h, if_neg (by decide)]
  rfl

/-- An expression behind another one goes on from each of the ways of that one. -/
lemma ways_followedBy (first second : Expression) (items : List α) :
    (followedBy first second).ways char items =
      (first.ways char items).flatMap fun way => (second.ways char way.rest).map way.andThen := by
  rw [ways]

/-- A group captures what its inner expression takes. -/
lemma ways_group (inner : Expression) (items : List α) :
    (group inner).ways char items = (inner.ways char items).map Way.captured := by
  rw [ways]

section One

variable {second : Expression}

/-- One character, then what follows it. -/
lemma ways_one_followedBy {a : α} (h : accepts (char a) = true) (rest : List α) :
    (followedBy (one accepts) second).ways char (a :: rest) =
      (second.ways char rest).map (Way.behind a) := by
  rw [ways_followedBy, ways_one_cons h]
  exact List.flatMap_singleton _ _

/-- Nothing matches if a single item at the front is rejected. -/
lemma ways_one_followedBy_eq_nil {items : List α}
    (h : ∀ a ∈ items.head?, accepts (char a) = false) :
    (followedBy (one accepts) second).ways char items = [] := by
  rw [ways_followedBy, ways_one_eq_nil h]
  rfl

end One

/-! ## Runs -/

section Runs

variable {front rest : List α}

/-- The longest run comes first, and gives its items back one by one. -/
lemma exists_ways_run_append (accepts : Char → Bool) (hfront : ∀ a ∈ front, accepts (char a) = true)
    (items : List α) : ∃ shorter, (run accepts true).ways char (front ++ items) =
      ((run accepts true).ways char items).map (Way.andThen ⟨front, [], items⟩) ++ shorter := by
  induction front with
  | nil =>
    refine ⟨[], ?_⟩
    rw [List.append_nil]
    exact (Way.map_stay_andThen items _).symm
  | cons a front ih =>
    obtain ⟨ha, hfront⟩ := List.forall_mem_cons.1 hfront
    obtain ⟨shorter, hways⟩ := ih hfront
    refine ⟨shorter.map (Way.behind a) ++ [.stay (a :: (front ++ items))], ?_⟩
    rw [List.cons_append, ways_greedy_cons ha, hways, List.map_append, List.map_map,
      List.append_assoc]
    rfl

/-- A run takes all of its items if what goes on behind it begins with none of them. -/
lemma flatMap_ways_run {f : Way α → List β} (hfront : ∀ a ∈ front, accepts (char a) = true)
    (hrest : ∀ a ∈ rest.head?, accepts (char a) = false)
    (hf : ∀ way a, a ∈ way.rest.head? → accepts (char a) = true → f way = []) :
    ((run accepts true).ways char (front ++ rest)).flatMap f = f ⟨front, [], rest⟩ := by
  induction front generalizing f with
  | nil =>
    rw [List.nil_append, ways_run_stop hrest]
    exact List.flatMap_singleton _ _
  | cons a front ih =>
    obtain ⟨ha, hfront⟩ := List.forall_mem_cons.1 hfront
    have hstay : f (.stay (a :: (front ++ rest))) = [] := hf _ a rfl ha
    have hmore := ih hfront fun way => hf (way.behind a)
    rw [List.cons_append, ways_greedy_cons ha, List.flatMap_append, List.flatMap_map, hmore,
      List.flatMap_singleton, hstay, List.append_nil]
    rfl

/-- An expression that begins with no character of a class. -/
def Rejects (char : α → Char) (accepts : Char → Bool) (e : Expression) : Prop :=
  ∀ items a, a ∈ items.head? → accepts (char a) = true → e.ways char items = []

/-- A captured run is all of its items if what follows it begins with none of them. -/
lemma ways_captured_run {second : Expression} (hsecond : second.Rejects char accepts)
    (hne : front ≠ []) (hfront : ∀ a ∈ front, accepts (char a) = true)
    (hrest : ∀ a ∈ rest.head?, accepts (char a) = false) :
    (followedBy (group (someOf accepts)) second).ways char (front ++ rest) =
      (second.ways char rest).map (Way.andThen ⟨front, [front], rest⟩) := by
  obtain ⟨a, front, rfl⟩ := List.exists_cons_of_ne_nil hne
  obtain ⟨ha, hfront⟩ := List.forall_mem_cons.1 hfront
  rw [ways_followedBy, ways_group, List.cons_append, someOf, ways_one_followedBy ha,
    List.flatMap_map, List.flatMap_map, flatMap_ways_run hfront hrest]
  · rfl
  · intro way b hb haccepts
    exact List.map_eq_nil_iff.2 (hsecond way.rest b hb haccepts)

/-- Nothing matches if a run of at least one item at the front is rejected. -/
lemma ways_captured_run_eq_nil {second : Expression} {items : List α}
    (h : ∀ a ∈ items.head?, accepts (char a) = false) :
    (followedBy (group (someOf accepts)) second).ways char items = [] := by
  rw [ways_followedBy, ways_group, someOf, ways_one_followedBy_eq_nil h]
  rfl

end Runs

/-! ## What every match takes -/

/-- An expression of which every match takes a certain character. -/
def Takes (char : α → Char) (c : Char) (e : Expression) : Prop :=
  ∀ items, ∀ way ∈ e.ways char items, ∃ a ∈ way.taken, char a = c

/-- A single item takes the character that it tests for. -/
lemma takes_one (c : Char) : (one (· == c)).Takes char c := by
  intro items way hway
  obtain ⟨a, rest, rfl, ha, rfl⟩ := exists_of_mem_ways_one hway
  exact ⟨a, List.mem_cons_self, by simpa using ha⟩

/-- What the second expression takes, the two take together. -/
lemma Takes.followedBy {c : Char} {second : Expression} (h : second.Takes char c)
    (first : Expression) : (Expression.followedBy first second).Takes char c := by
  intro items way hway
  obtain ⟨before, -, hway⟩ := List.mem_flatMap.1 hway
  obtain ⟨after, hafter, rfl⟩ := List.mem_map.1 hway
  obtain ⟨a, ha, hc⟩ := h _ after hafter
  exact ⟨a, List.mem_append_right _ ha, hc⟩

/-- Without the character that it takes, an expression does not match. -/
lemma Takes.ways_eq_nil {c : Char} {e : Expression} (h : e.Takes char c) {items : List α}
    (hitems : ∀ a ∈ items, char a ≠ c) : e.ways char items = [] := by
  refine List.eq_nil_iff_forall_not_mem.2 fun way hway => ?_
  obtain ⟨a, ha, hc⟩ := h items way hway
  refine hitems a ?_ hc
  rw [← taken_append_rest hway]
  exact List.mem_append_left _ ha

end Expression

/-! ## Searching -/

/-- An expression to search for. It takes an item in every match. -/
structure Needle where
  expression : Expression
  consumes : expression.consumes = true

namespace Needle

variable {α : Type} {char : α → Char} {needle : Needle}

/-- The match at the start of the items. -/
def matchAt? (needle : Needle) (char : α → Char) (items : List α) : Option (Way α) :=
  (needle.expression.ways char items).head?

/-- A match leaves fewer items. -/
lemma length_rest_lt {items : List α} {way : Way α}
    (h : needle.matchAt? char items = some way) : way.rest.length < items.length :=
  Expression.length_rest_lt needle.consumes (List.mem_of_head? h)

/-- Searches the items from left to right: the matches, each of which goes on behind the one before
it, and the places that are in none of them. -/
def search (needle : Needle) (char : α → Char) : List α → List (Way α ⊕ List α)
  | [] => []
  | a :: rest =>
    match _h : needle.matchAt? char (a :: rest) with
    | some way => .inl way :: search needle char way.rest
    | none => .inr (a :: rest) :: search needle char rest
termination_by items => items.length
decreasing_by
  · exact length_rest_lt _h
  · simp

/-- The matches, in order. -/
def findings (needle : Needle) (char : α → Char) (items : List α) : List (Way α) :=
  (needle.search char items).filterMap Sum.getLeft?

/-- The places outside of the matches, each as the items from there on. -/
def outside (needle : Needle) (char : α → Char) (items : List α) : List (List α) :=
  (needle.search char items).filterMap Sum.getRight?

/-- The items without the matches. -/
def remove (needle : Needle) (char : α → Char) (items : List α) : List α :=
  (needle.outside char items).filterMap List.head?

/-- A search that finds a match goes on behind it. -/
lemma search_of_match {items : List α} {way : Way α}
    (h : needle.matchAt? char items = some way) :
    needle.search char items = .inl way :: needle.search char way.rest := by
  cases items with
  | nil => exact absurd (length_rest_lt h) (Nat.not_lt_zero _)
  | cons a rest =>
    rw [search]
    split
    · rename_i other hother
      rw [Option.some.inj (hother.symm.trans h)]
    · rename_i hother
      cases hother.symm.trans h

/-- A search that finds no match passes an item. -/
lemma search_of_no_match {a : α} {rest : List α} (h : needle.matchAt? char (a :: rest) = none) :
    needle.search char (a :: rest) = .inr (a :: rest) :: needle.search char rest := by
  rw [search]
  split
  · rename_i other hother
    cases hother.symm.trans h
  · rfl

section Steps

variable {items rest : List α} {a : α} {way : Way α}

/-- Nothing is found where nothing is left. -/
@[simp]
lemma findings_nil : needle.findings char ([] : List α) = [] := by
  rw [findings, search]
  rfl

/-- A match is found, and the others are found behind it. -/
lemma findings_of_match (h : needle.matchAt? char items = some way) :
    needle.findings char items = way :: needle.findings char way.rest := by
  rw [findings, search_of_match h]
  rfl

/-- Where nothing matches, the others are found behind the first item. -/
lemma findings_of_no_match (h : needle.matchAt? char (a :: rest) = none) :
    needle.findings char (a :: rest) = needle.findings char rest := by
  rw [findings, search_of_no_match h]
  rfl

/-- Nothing stands outside of matches where nothing is left. -/
@[simp]
lemma outside_nil : needle.outside char ([] : List α) = [] := by
  rw [outside, search]
  rfl

/-- A match is left out of what stands outside. -/
lemma outside_of_match (h : needle.matchAt? char items = some way) :
    needle.outside char items = needle.outside char way.rest := by
  rw [outside, search_of_match h]
  rfl

/-- Where nothing matches, the search stands outside of matches. -/
lemma outside_of_no_match (h : needle.matchAt? char (a :: rest) = none) :
    needle.outside char (a :: rest) = (a :: rest) :: needle.outside char rest := by
  rw [outside, search_of_no_match h]
  rfl

/-- Nothing remains where nothing is left. -/
@[simp]
lemma remove_nil : needle.remove char ([] : List α) = [] := by
  rw [remove, outside_nil]
  rfl

/-- A match is removed. -/
lemma remove_of_match (h : needle.matchAt? char items = some way) :
    needle.remove char items = needle.remove char way.rest := by
  rw [remove, outside_of_match h]
  rfl

/-- Where nothing matches, the first item remains. -/
lemma remove_of_no_match (h : needle.matchAt? char (a :: rest) = none) :
    needle.remove char (a :: rest) = a :: needle.remove char rest := by
  rw [remove, outside_of_no_match h]
  rfl

end Steps

end Needle

end CssPrune
