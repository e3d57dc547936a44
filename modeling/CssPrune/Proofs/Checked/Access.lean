import CssPrune.Text.Basic
import Mathlib.Algebra.Group.Int.Defs
import Mathlib.Algebra.Group.Nat.Defs
import Mathlib.Data.List.Forall2
import Mathlib.Data.List.Induction
import Mathlib.Data.List.TakeWhile
import Mathlib.Tactic.Lemma

/-!
# Checked access

Lists read by index, with each index and each range checked. A computation that reads outside of
what is there ends with a fault. What an access gives is said by the part of the list that stands
at an index (`Stands`): a loop over indices then becomes a recursion over that part.
-/

namespace CssPrune.Checked

/-- What ends a computation that checks what it does. -/
inductive Fault where
  /-- An index or a range lies outside of a list. -/
  | bounds
  /-- A byte offset is not the boundary of a character. -/
  | boundary
  /-- A number leaves its type. -/
  | overflow
  /-- A key that is looked up is not there. -/
  | key
  /-- A span leaves its file. -/
  | span
  /-- A position belongs to no file, or is not the boundary of a character. -/
  | place
  /-- A loop does not move on. -/
  | stuck
  deriving DecidableEq, Repr

/-! ## Runs without a fault -/

section Runs

variable {α β : Type}

/-- A computation without a fault goes on with its result. -/
@[simp]
lemma ok_bind (a : α) (next : α → Except Fault β) : (Except.ok a >>= next) = next a := rfl

/-- Giving a result back is no fault. -/
@[simp]
lemma pure_eq_ok (a : α) : (pure a : Except Fault α) = .ok a := rfl

/-- A computation ends without a fault, and its result satisfies `p`. -/
def Succeeds (run : Except Fault α) (p : α → Prop) : Prop :=
  ∃ a, run = .ok a ∧ p a

variable {p : α → Prop} {q : β → Prop}

/-- A result that satisfies a property succeeds with it. -/
lemma succeeds_ok {a : α} (h : p a) : Succeeds (.ok a) p := ⟨a, rfl, h⟩

/-- Computations that succeed one after the other succeed together. -/
lemma Succeeds.bind {run : Except Fault α} {next : α → Except Fault β} (h : Succeeds run p)
    (hnext : ∀ a, p a → Succeeds (next a) q) : Succeeds (run >>= next) q := by
  obtain ⟨a, rfl, ha⟩ := h
  exact hnext a ha

/-- What succeeds with a property succeeds with a weaker one. -/
lemma Succeeds.mono {run : Except Fault α} {p' : α → Prop} (h : Succeeds run p)
    (hp : ∀ a, p a → p' a) : Succeeds run p' := by
  obtain ⟨a, rfl, ha⟩ := h
  exact ⟨a, rfl, hp a ha⟩

/-- A computation for each of some values, one after the other. -/
lemma succeeds_mapM {γ : Type} {run : α → Except Fault β} {r : α → γ → Prop} {s : β → γ → Prop}
    (hrun : ∀ a c, r a c → Succeeds (run a) (s · c)) {as : List α} {cs : List γ}
    (h : List.Forall₂ r as cs) : Succeeds (as.mapM run) (List.Forall₂ s · cs) := by
  induction h with
  | nil => exact succeeds_ok .nil
  | cons hac _ ih =>
    rw [List.mapM_cons]
    exact (hrun _ _ hac).bind fun b hb => ih.bind fun bs hbs => succeeds_ok (.cons hb hbs)

end Runs

/-- A list that is related item by item has a partner for each item. -/
lemma exists_rel_of_mem {α β : Type} {r : α → β → Prop} {as : List α} {bs : List β}
    (h : List.Forall₂ r as bs) {b : β} (hb : b ∈ bs) : ∃ a, r a b := by
  induction h with
  | nil => cases hb
  | cons hab _ ih =>
    rcases List.mem_cons.1 hb with rfl | hin
    · exact ⟨_, hab⟩
    · exact ih hin

/-! ## Numbers -/

/-- A number that has to fit into 32 bits. -/
def unsigned (n : Nat) : Except Fault Nat :=
  if n < 2 ^ 32 then .ok n else .error .overflow

/-- A number with a sign that has to fit into 32 bits. -/
def signed (n : Int) : Except Fault Int :=
  if -2 ^ 31 ≤ n ∧ n < 2 ^ 31 then .ok n else .error .overflow

/-- A difference that must not be negative. -/
def minus (a b : Nat) : Except Fault Nat :=
  if b ≤ a then .ok (a - b) else .error .overflow

/-- A number below the bound of 32 bits is kept. -/
lemma unsigned_eq {n : Nat} (h : n < 2 ^ 32) : unsigned n = .ok n := if_pos h

/-- A signed number within the bounds of 32 bits is kept. -/
lemma signed_eq {n : Int} (h : -2 ^ 31 ≤ n ∧ n < 2 ^ 31) : signed n = .ok n := if_pos h

/-- What was added can be taken away. -/
lemma minus_add (a b : Nat) : minus (a + b) b = .ok a := by
  rw [minus, if_pos (Nat.le_add_left b a), Nat.add_sub_cancel]

/-! ## Items and ranges -/

section Items

variable {α : Type}

/-- The item at an index. -/
def item (items : List α) (i : Nat) : Except Fault α :=
  match items[i]? with
  | some a => .ok a
  | none => .error .bounds

/-- The items from `start` up to but without `stop`. -/
def slice (items : List α) (start stop : Nat) : Except Fault (List α) :=
  if start ≤ stop ∧ stop ≤ items.length then .ok ((items.drop start).take (stop - start))
  else .error .bounds

/-- The index of the first item of a range that satisfies `p`. -/
def firstIn (p : α → Bool) (items : List α) (start stop : Nat) : Except Fault (Option Nat) := do
  let part ← slice items start stop
  return (part.findIdx? p).map (start + ·)

/-- The index of the last item of a range that satisfies `p`. -/
def lastIn (p : α → Bool) (items : List α) (start stop : Nat) : Except Fault (Option Nat) := do
  let part ← slice items start stop
  return (part.reverse.findIdx? p).map fun back => start + (part.length - 1 - back)

/-- Moves the start of a range over the items that satisfy `p`. -/
def skipFront (p : α → Bool) (items : List α) (start stop : Nat) : Except Fault Nat :=
  if start < stop then do
    let first ← item items start
    if p first then skipFront p items (start + 1) stop else return start
  else return start
termination_by stop - start

/-- Moves the end of a range back over the items that satisfy `p`. -/
def skipBack (p : α → Bool) (items : List α) (start stop : Nat) : Except Fault Nat :=
  if start < stop then do
    let last ← item items (stop - 1)
    if p last then skipBack p items start (stop - 1) else return stop
  else return stop
termination_by stop - start

/-- Drops the items that satisfy `p` from both ends of a range. -/
def trimRange (p : α → Bool) (items : List α) (start stop : Nat) : Except Fault (Nat × Nat) := do
  let first ← skipFront p items start stop
  let last ← skipBack p items first stop
  return (first, last)

end Items

/-! ## The part of a list at an index -/

/-- A part stands at an index of a list. -/
structure Stands {α : Type} (items : List α) (start : Nat) (part : List α) : Prop where
  within : start ≤ items.length
  front : part <+: items.drop start

/-- A range holds a part of a list. -/
structure IsRange {α : Type} (items : List α) (range : Nat × Nat) (part : List α) : Prop where
  stands : Stands items range.1 part
  stop : range.2 = range.1 + part.length

section Stands

variable {α : Type} {items first second part : List α} {start stop : Nat} {a : α} {p : α → Bool}

/-- What is left behind a start stands there. -/
lemma stands_drop (h : start ≤ items.length) : Stands items start (items.drop start) :=
  ⟨h, List.prefix_refl _⟩

/-- A part that stands in a list ends within it. -/
lemma Stands.stop_le (h : Stands items start part) : start + part.length ≤ items.length := by
  have hlength := h.front.length_le
  have hwithin := h.within
  rw [List.length_drop] at hlength
  omega

/-- The front of a part stands where the part stands. -/
lemma Stands.left (h : Stands items start (first ++ second)) : Stands items start first :=
  ⟨h.within, (List.prefix_append _ _).trans h.front⟩

/-- The back of a part stands behind its front. -/
lemma Stands.right (h : Stands items start (first ++ second)) :
    Stands items (start + first.length) second := by
  refine ⟨h.left.stop_le, ?_⟩
  obtain ⟨back, hback⟩ := h.front
  rw [← List.drop_drop, ← hback, List.append_assoc, List.drop_left]
  exact List.prefix_append _ _

/-- Parts that stand one behind the other stand there as one. -/
lemma Stands.append (hfirst : Stands items start first)
    (hsecond : Stands items (start + first.length) second) :
    Stands items start (first ++ second) := by
  refine ⟨hfirst.within, ?_⟩
  obtain ⟨back, hback⟩ := hfirst.front
  have hrest := hsecond.front
  rw [← List.drop_drop, ← hback, List.drop_left] at hrest
  rw [← hback]
  exact (List.prefix_append_right_inj first).2 hrest

/-- The first item of a part stands where the part stands. -/
lemma Stands.head (h : Stands items start (a :: part)) : Stands items start [a] :=
  @Stands.left α items [a] part start h

/-- The other items of a part stand one further on. -/
lemma Stands.tail (h : Stands items start (a :: part)) : Stands items (start + 1) part :=
  @Stands.right α items [a] part start h

/-- Nothing stands at every place of a list. -/
lemma stands_nil (h : start ≤ items.length) : Stands items start [] :=
  ⟨h, List.nil_prefix⟩

/-- The first item of a part is the item of the list at its start. -/
lemma Stands.getElem? (h : Stands items start (a :: part)) : items[start]? = some a := by
  obtain ⟨back, hback⟩ := h.front
  have hhead : (items.drop start)[0]? = some a := by
    rw [← hback]
    rfl
  simpa using hhead

/-- The first item of a part can be read at its start. -/
lemma Stands.item (h : Stands items start (a :: part)) : item items start = .ok a := by
  rw [Checked.item, h.getElem?]

/-- A part can be cut out of the list that it stands in. -/
lemma Stands.slice (h : Stands items start part) :
    slice items start (start + part.length) = .ok part := by
  rw [Checked.slice, if_pos ⟨Nat.le_add_right _ _, h.stop_le⟩, Nat.add_sub_cancel_left,
    ← List.prefix_iff_eq_take.1 h.front]

/-- No item of a part satisfies a test, or there is a first one that does. -/
lemma findIdx?_cases (p : α → Bool) (part : List α) :
    ((∀ b ∈ part, p b = false) ∧ part.findIdx? p = none) ∨
      ∃ front a back, part = front ++ a :: back ∧ p a = true ∧ (∀ b ∈ front, p b = false) ∧
        part.findIdx? p = some front.length := by
  induction part with
  | nil => exact Or.inl ⟨nofun, rfl⟩
  | cons b part ih =>
    rw [List.findIdx?_cons]
    cases hb : p b with
    | true => exact Or.inr ⟨[], b, part, rfl, hb, nofun, rfl⟩
    | false =>
      rcases ih with ⟨hnone, hfind⟩ | ⟨front, a, back, rfl, ha, hfront, hfind⟩
      · exact Or.inl ⟨List.forall_mem_cons.2 ⟨hb, hnone⟩, by simp [hfind]⟩
      · exact Or.inr ⟨b :: front, a, back, rfl, ha, List.forall_mem_cons.2 ⟨hb, hfront⟩,
          by simp [hfind]⟩

/-- The first item with a property stands behind items without it. -/
lemma Stands.firstIn (h : Stands items start part) (p : α → Bool) :
    ((∀ b ∈ part, p b = false) ∧ firstIn p items start (start + part.length) = .ok none) ∨
      ∃ front a back, part = front ++ a :: back ∧ p a = true ∧ (∀ b ∈ front, p b = false) ∧
        firstIn p items start (start + part.length) = .ok (some (start + front.length)) := by
  rw [Checked.firstIn, h.slice, ok_bind]
  rcases findIdx?_cases p part with ⟨hnone, hfind⟩ | ⟨front, a, back, heq, ha, hfront, hfind⟩
  · exact Or.inl ⟨hnone, by rw [hfind]; rfl⟩
  · exact Or.inr ⟨front, a, back, heq, ha, hfront, by rw [hfind]; rfl⟩

/-- The last item with a property stands in front of items without it. -/
lemma Stands.lastIn (h : Stands items start part) (p : α → Bool) :
    ((∀ b ∈ part, p b = false) ∧ lastIn p items start (start + part.length) = .ok none) ∨
      ∃ front a back, part = front ++ a :: back ∧ p a = true ∧ (∀ b ∈ back, p b = false) ∧
        lastIn p items start (start + part.length) = .ok (some (start + front.length)) := by
  rw [Checked.lastIn, h.slice, ok_bind]
  rcases findIdx?_cases p part.reverse with
    ⟨hnone, hfind⟩ | ⟨back, a, front, heq, ha, hback, hfind⟩
  · exact Or.inl ⟨fun b hb => hnone b (List.mem_reverse.2 hb), by rw [hfind]; rfl⟩
  · have hpart : part = front.reverse ++ a :: back.reverse := by
      rw [← List.reverse_reverse part, heq]
      simp
    refine Or.inr ⟨front.reverse, a, back.reverse, hpart, ha,
      fun b hb => hback b (List.mem_reverse.1 hb), ?_⟩
    have hindex : part.length - 1 - back.length = front.reverse.length := by
      rw [hpart]
      simp
    rw [hfind, Option.map_some, hindex]
    rfl

/-- The start of a range moves over its longest front with a property. -/
lemma Stands.skipFront (h : Stands items start part) (p : α → Bool) :
    skipFront p items start (start + part.length) =
      .ok (start + (part.takeWhile p).length) := by
  induction part generalizing start with
  | nil =>
    rw [Checked.skipFront, if_neg (by simp)]
    rfl
  | cons a part ih =>
    rw [Checked.skipFront, if_pos (by simp), h.item, ok_bind]
    cases ha : p a with
    | true =>
      have hstop : start + (a :: part).length = start + 1 + part.length := by
        rw [List.length_cons]
        omega
      rw [if_pos rfl, hstop, ih h.tail, List.takeWhile_cons_of_pos ha, List.length_cons]
      congr 1
      omega
    | false =>
      rw [if_neg (by simp), List.takeWhile_cons_of_neg (by simp [ha])]
      rfl

/-- The end of a range moves back over its longest back with a property. -/
lemma Stands.skipBack (h : Stands items start part) (p : α → Bool) :
    ∃ front back, part = front ++ back ∧ (∀ b ∈ back, p b = true) ∧
      (∀ b ∈ front.getLast?, p b = false) ∧
      skipBack p items start (start + part.length) = .ok (start + front.length) := by
  induction part using List.reverseRecOn with
  | nil =>
    refine ⟨[], [], rfl, nofun, nofun, ?_⟩
    rw [Checked.skipBack, if_neg (by simp)]
    rfl
  | append_singleton part a ih =>
    have hlast : start + (part ++ [a]).length - 1 = start + part.length := by
      simp
    have hitem : Checked.item items (start + part.length) = .ok a := h.right.item
    rw [Checked.skipBack, if_pos (by simp), hlast, hitem, ok_bind]
    cases ha : p a with
    | true =>
      obtain ⟨front, back, rfl, hback, hfront, hskip⟩ := ih h.left
      refine ⟨front, back ++ [a], by simp, ?_, hfront, ?_⟩
      · exact List.forall_mem_append.2 ⟨hback, by simpa using ha⟩
      · rw [if_pos rfl, hskip]
    | false =>
      refine ⟨part ++ [a], [], by simp, nofun, by simpa using ha, ?_⟩
      rw [if_neg (by simp)]
      rfl

/-- What is left of a range without its ends is the trimmed part. It begins with the first item
that is not dropped, and nothing stands behind it if it is empty. -/
lemma Stands.trimRange (h : Stands items start part) (p : α → Bool) :
    ∃ front back, part = front ++ Text.trimWhere p part ++ back ∧
      (Text.trimWhere p part).head? = part.find? (!p ·) ∧
      (Text.trimWhere p part = [] → back = []) ∧
      trimRange p items start (start + part.length) =
        .ok (start + front.length, start + front.length + (Text.trimWhere p part).length) := by
  have hsplit := List.takeWhile_append_dropWhile (p := p) (l := part)
  have hfind : part.find? (!p ·) = (part.dropWhile p).head? := part.find?_not_eq_head?_dropWhile p
  have hrest : Stands items (start + (part.takeWhile p).length) (part.dropWhile p) :=
    Stands.right (by rwa [hsplit])
  obtain ⟨mid, back, hmid, hback, hlast, hskip⟩ := hrest.skipBack p
  have htrim : Text.trimWhere p part = mid := by
    have hall : ∀ b ∈ back.reverse, p b = true := fun b hb => hback b (List.mem_reverse.1 hb)
    have hstop : mid.reverse.dropWhile p = mid.reverse := by
      cases hr : mid.reverse with
      | nil => rfl
      | cons b rest =>
        have hb : b ∈ mid.getLast? := by
          rw [← List.head?_reverse, hr]
          rfl
        exact List.dropWhile_cons_of_neg (by simp [hlast b hb])
    rw [Text.trimWhere, hmid, List.reverse_append, List.dropWhile_append_of_pos hall, hstop,
      List.reverse_reverse]
  -- what is left begins with an item that is not skipped
  have hempty : mid = [] → back = [] := by
    rintro rfl
    cases back with
    | nil => rfl
    | cons b back =>
      have hhead := List.head?_dropWhile_not p part
      rw [hmid] at hhead
      simp [hback b List.mem_cons_self] at hhead
  have hstop : start + part.length =
      start + (part.takeWhile p).length + (part.dropWhile p).length := by
    rw [← congrArg List.length hsplit, List.length_append, Nat.add_assoc]
  refine ⟨part.takeWhile p, back, ?_, ?_, ?_, ?_⟩
  · rw [htrim, List.append_assoc, ← hmid, hsplit]
  · rw [htrim, hfind, hmid]
    cases mid with
    | nil => rw [hempty rfl, List.append_nil]
    | cons a mid => rfl
  · rw [htrim]
    exact hempty
  · rw [Checked.trimRange, h.skipFront, ok_bind, hstop, hskip, htrim]
    rfl

/-- A range that is trimmed holds the trimmed part, and if that is empty it is the end of the
range. -/
lemma IsRange.trim {range : Nat × Nat} (h : IsRange items range part) (p : α → Bool) :
    ∃ start, trimRange p items range.1 range.2 =
        .ok (start, start + (Text.trimWhere p part).length) ∧
      Stands items start (Text.trimWhere p part) ∧
      (Text.trimWhere p part = [] → start = range.2) := by
  obtain ⟨front, back, hsplit, -, hempty, htrim⟩ := h.stands.trimRange p
  refine ⟨range.1 + front.length, h.stop ▸ htrim, ?_, fun hnil => ?_⟩
  · have hpart := h.stands
    rw [hsplit, List.append_assoc] at hpart
    exact hpart.right.left
  · have hstop := h.stop
    rw [hsplit, hempty hnil, hnil, List.append_nil, List.append_nil] at hstop
    exact hstop.symm

end Stands

end CssPrune.Checked
