import CssPrune.Output
import CssPrune.Proofs.Checked.SourceMap
import CssPrune.Proofs.Targets
import CssPrune.Selector.LiveSet

/-!
# Checked byte offsets

Texts that are cut at byte offsets: a selector in front of its first colon, and a name at its last
dot. An offset has to be the boundary of a character. Both cuts are made where a character was
found, so they succeed (`isLive_eq`, `outputName_eq`).
-/

namespace CssPrune.Checked

/-! ## Cuts -/

/-- What stands in front of a byte offset. -/
def takeBytes : Text → Nat → Except Fault Text
  | _, 0 => .ok []
  | [], _ + 1 => .error .bounds
  | c :: rest, offset + 1 =>
    if offset + 1 < c.utf8Size then .error .boundary
    else do
      let front ← takeBytes rest (offset + 1 - c.utf8Size)
      return c :: front

/-- What stands behind a byte offset. -/
def dropBytes : Text → Nat → Except Fault Text
  | text, 0 => .ok text
  | [], _ + 1 => .error .bounds
  | c :: rest, offset + 1 =>
    if offset + 1 < c.utf8Size then .error .boundary
    else dropBytes rest (offset + 1 - c.utf8Size)

section Cuts

variable (front back : Text)

/-- As many bytes as a front has are the front. -/
lemma takeBytes_append : takeBytes (front ++ back) (Text.utf8Size front) = .ok front := by
  induction front with
  | nil => rw [Text.utf8Size, takeBytes]
  | cons c front ih =>
    obtain ⟨offset, hsize, hle, hrest⟩ := exists_utf8Size_cons c front
    rw [hsize, List.cons_append, takeBytes, if_neg hle, hrest, ih]
    rfl

/-- What follows as many bytes as a front has is the back. -/
lemma dropBytes_append : dropBytes (front ++ back) (Text.utf8Size front) = .ok back := by
  induction front with
  | nil => rw [Text.utf8Size, dropBytes, List.nil_append]
  | cons c front ih =>
    obtain ⟨offset, hsize, hle, hrest⟩ := exists_utf8Size_cons c front
    rw [hsize, List.cons_append, dropBytes, if_neg hle, hrest, ih]

end Cuts

/-! ## Selectors -/

/-- The byte offset of the first colon that does not follow a backslash. -/
def colonOffset? (previous : Option Char) (offset : Nat) : Text → Option Nat
  | [] => none
  | c :: rest =>
    if c = ':' && previous != some '\\' then some offset
    else colonOffset? (some c) (offset + c.utf8Size) rest

/-- A selector without its pseudo classes, and with its colons and slashes unescaped. -/
def stripPseudo (selector : Text) : Except Fault Text := do
  let stop := (colonOffset? none 0 selector).getD (Text.utf8Size selector)
  let front ← takeBytes selector stop
  return Selector.unescape '/' (Selector.unescape ':' front)

/-- Whether a member of a selector list is live. -/
def isLiveMember (live : LiveSet) (member : Text) : Except Fault Bool := do
  let plain ← stripPseudo member
  return live.contains plain || live.contains (Selector.simple plain)

/-- Whether a selector list is live. -/
def isLive (live : LiveSet) (list : Text) : Except Fault Bool :=
  (Selector.members list).anyM (isLiveMember live)

/-- What stands in front of a colon is a front of the text. -/
lemma beforeColon_prefix (escaped : Bool) (text : Text) :
    Selector.beforeColon escaped text <+: text := by
  induction text generalizing escaped with
  | nil => exact List.prefix_refl []
  | cons c rest ih =>
    rw [Selector.beforeColon]
    split
    · exact List.nil_prefix
    · exact (List.prefix_cons_inj c).2 (ih _)

/-- The offset of the colon is the size of what stands in front of it. -/
lemma colonOffset?_getD (previous : Option Char) (offset : Nat) (text : Text) :
    (colonOffset? previous offset text).getD (offset + Text.utf8Size text) =
      offset + Text.utf8Size (Selector.beforeColon (previous == some '\\') text) := by
  induction text generalizing previous offset with
  | nil => rfl
  | cons c rest ih =>
    rw [colonOffset?, Selector.beforeColon]
    by_cases hcolon : (c = ':' && previous != some '\\') = true
    · rw [if_pos hcolon, if_pos (by simpa using hcolon)]
      rfl
    · have hescaped : decide (c = '\\') = (some c == some '\\') := by
        rw [Option.some_beq_some, Bool.eq_iff_iff]
        simp
      rw [if_neg hcolon, if_neg (by simpa using hcolon), Text.utf8Size, ← Nat.add_assoc, ih,
        Text.utf8Size, hescaped, Nat.add_assoc]

/-- A selector without its pseudo part can be cut out by bytes. -/
lemma stripPseudo_eq (selector : Text) : stripPseudo selector = .ok (Selector.plain selector) := by
  obtain ⟨back, hback⟩ := beforeColon_prefix false selector
  have hoffset := colonOffset?_getD none 0 selector
  rw [Nat.zero_add, Nat.zero_add] at hoffset
  have htake := takeBytes_append (Selector.beforeColon false selector) back
  rw [hback] at htake
  rw [stripPseudo, hoffset]
  show (takeBytes selector (Text.utf8Size (Selector.beforeColon false selector)) >>= _) = _
  rw [htake]
  rfl

/-- Whether a selector list is live is found without a fault. -/
lemma isLive_eq (live : LiveSet) (list : Text) : isLive live list = .ok (live.isLive list) := by
  rw [isLive, LiveSet.isLive]
  induction Selector.members list with
  | nil => rfl
  | cons member members ih =>
    have hmember : isLiveMember live member = .ok (live.isLiveMember member) := by
      rw [isLiveMember, stripPseudo_eq]
      rfl
    rw [List.anyM, hmember, ok_bind, List.any_cons]
    cases live.isLiveMember member with
    | true => rfl
    | false => exact ih

/-! ## Names -/

/-- The byte offset of the last occurrence of a character; `found?` is that of the last one so
far. -/
def lastOffset? (c : Char) (found? : Option Nat) (offset : Nat) : Text → Option Nat
  | [] => found?
  | a :: rest =>
    lastOffset? c (if a = c then some offset else found?) (offset + a.utf8Size) rest

/-- The name that a stylesheet is written to. -/
def outputName (suffix? : Option String) (name : String) : Except Fault String :=
  match suffix? with
  | none => return name
  | some suffix =>
    if suffix = "" then return name
    else
      match lastOffset? '.' none 0 name.toList with
      | none => return String.ofList (name.toList ++ suffix.toList)
      | some dot => do
        let front ← takeBytes name.toList dot
        let back ← dropBytes name.toList dot
        return String.ofList (front ++ suffix.toList ++ back)

/-- Without the character the last offset stays as it was found. -/
lemma lastOffset?_of_not_mem {c : Char} {text : Text} (h : c ∉ text) (found? : Option Nat)
    (offset : Nat) : lastOffset? c found? offset text = found? := by
  induction text generalizing offset with
  | nil => rfl
  | cons a rest ih =>
    obtain ⟨ha, hrest⟩ := List.ne_and_not_mem_of_not_mem_cons h
    rw [lastOffset?, if_neg ha.symm, ih hrest]

/-- The last offset of a character is the size of what stands in front of it. -/
lemma lastOffset?_append {c : Char} {back : Text} (h : c ∉ back) (front : Text)
    (found? : Option Nat) (offset : Nat) :
    lastOffset? c found? offset (front ++ c :: back) = some (offset + Text.utf8Size front) := by
  induction front generalizing found? offset with
  | nil => rw [List.nil_append, lastOffset?, if_pos rfl, lastOffset?_of_not_mem h]; rfl
  | cons a front ih => rw [List.cons_append, lastOffset?, ih, Text.utf8Size, Nat.add_assoc]

/-- The name that a stylesheet is written to is found without a fault. -/
lemma outputName_eq (suffix? : Option String) (name : String) :
    outputName suffix? name = .ok (Output.targetOf suffix? name) := by
  cases suffix? with
  | none => rfl
  | some suffix =>
    rw [outputName, Output.targetOf]
    by_cases hdot : '.' ∈ name.toList
    · obtain ⟨front, back, hname, hback⟩ := Text.exists_last hdot
      rw [hname, Output.insertSuffix_append hback, lastOffset?_append hback, Nat.zero_add]
      by_cases hempty : suffix = ""
      · have hsame : front ++ suffix.toList ++ '.' :: back = name.toList := by
          rw [hempty, hname]
          simp
        rw [if_pos hempty, hsame, String.ofList_toList]
        rfl
      · rw [if_neg hempty]
        show (takeBytes (front ++ '.' :: back) _ >>= _) = _
        rw [takeBytes_append, ok_bind, dropBytes_append]
        rfl
    · rw [Output.insertSuffix_of_not_mem hdot, lastOffset?_of_not_mem hdot]
      by_cases hempty : suffix = ""
      · rw [if_pos hempty, hempty, String.toList_empty, List.append_nil, String.ofList_toList]
        rfl
      · rw [if_neg hempty]
        rfl

end CssPrune.Checked
