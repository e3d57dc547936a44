import CssPrune.Proofs.Layout
import CssPrune.Proofs.Runs
import CssPrune.Proofs.Spacing

/-!
# Spaced stylesheets

A stylesheet of rules, statements and media rules around rules is read exactly, however blanks and
closed comments stand between its parts (`Session.addSheet_spaced`). What is left of it once line
ends are uniform and comments are removed is a layout of sound items: each part has the words that
were written, and the fillers between parts are gaps.
-/

namespace CssPrune

namespace Css

/-! ## Parts between fillers -/

/-- A text with fillers around it. -/
structure SpacedText where
  before : List Filler
  core : Text
  behind : List Filler

namespace SpacedText

/-- A part as it is written, with its fillers. -/
def text (part : SpacedText) : Text :=
  Filler.textAll part.before ++ (part.core ++ Filler.textAll part.behind)

/-- The text once comments are removed. -/
def bare (part : SpacedText) : Text :=
  Filler.bareAll part.before ++ (part.core ++ Filler.bareAll part.behind)

/-- Between well-formed fillers stands no brace, no `@media` and no beginning of a comment. -/
structure WellFormed (part : SpacedText) : Prop where
  before : ∀ filler ∈ part.before, filler.WellFormed
  behind : ∀ filler ∈ part.behind, filler.WellFormed
  braces : NoBrace part.core
  mediaWord : ¬ mediaWord <:+: part.core
  commentMark : ¬ commentMark <:+: part.core

instance (part : SpacedText) : Decidable part.WellFormed :=
  decidable_of_iff ((∀ filler ∈ part.before, filler.WellFormed) ∧
      (∀ filler ∈ part.behind, filler.WellFormed) ∧ NoBrace part.core ∧
      ¬ Css.mediaWord <:+: part.core ∧ ¬ Css.commentMark <:+: part.core)
    ⟨fun ⟨before, behind, braces, word, mark⟩ => ⟨before, behind, braces, word, mark⟩,
      fun ⟨before, behind, braces, word, mark⟩ => ⟨before, behind, braces, word, mark⟩⟩

/-- What is left of a part in front of a mark. -/
structure LeftAs (part : SpacedText) (bare : Text) : Prop where
  leaves : LeavesBefore part.text bare
  words : Text.collapse bare = Text.collapse part.core
  empty : bare = [] ↔ part.bare = []

variable {part : SpacedText} {bare : Text}

/-- Something is left of a well formed part in front of a mark. -/
lemma exists_leftAs (h : part.WellFormed) : ∃ bare, part.LeftAs bare := by
  obtain ⟨bare, hleaves, hwords, hempty⟩ :=
    exists_bare_around Text.allBlank_nil h.commentMark h.before h.behind
  exact ⟨bare, hleaves, hwords, hempty⟩

/-- What is left of a part holds its characters, blanks apart. -/
lemma LeftAs.mem_iff (h : part.LeftAs bare) {c : Char} (hc : Text.isBlank c = false) :
    c ∈ bare ↔ c ∈ part.core := by
  rw [← Text.mem_collapse_iff hc, h.words, Text.mem_collapse_iff hc]

/-- What is left of a part without braces has none. -/
lemma LeftAs.noBrace (h : part.LeftAs bare) (hbraces : NoBrace part.core) : NoBrace bare := by
  constructor
  · rw [h.mem_iff (by decide)]
    exact hbraces.1
  · rw [h.mem_iff (by decide)]
    exact hbraces.2

/-- What is left of a part without `@media` holds none. -/
lemma LeftAs.noMedia (h : part.LeftAs bare) (hword : ¬ Css.mediaWord <:+: part.core) :
    ¬ Css.mediaWord <:+: bare := by
  rwa [← Text.infix_collapse_iff noBlank_mediaWord, h.words,
    Text.infix_collapse_iff noBlank_mediaWord]

end SpacedText

/-- The text leaves `bare`, whatever follows. -/
def LeavesAnywhere (text bare : Text) : Prop :=
  ∀ rest behind, Leaves rest behind → Leaves (text ++ rest) (bare ++ behind)

/-- Texts one behind the other leave what each of them leaves. -/
lemma LeavesAnywhere.append {first second front back : Text} (hfirst : LeavesAnywhere first front)
    (hsecond : LeavesAnywhere second back) : LeavesAnywhere (first ++ second) (front ++ back) := by
  intro rest behind hrest
  rw [List.append_assoc, List.append_assoc]
  exact hfirst _ _ (hsecond rest behind hrest)

/-- A word of firm characters is left as it is. -/
lemma leavesAnywhere_word {word : Text} (h : ∀ c ∈ word, IsFirm c) : LeavesAnywhere word word :=
  fun _ _ hrest => hrest.word h

/-- A text in front of a firm character leaves what it leaves in front of marks. -/
lemma LeavesBefore.append {first second front back : Text} (hfirst : LeavesBefore first front)
    (hsecond : LeavesAnywhere second back) {c : Char} (hc : second.head? = some c)
    (hfirm : IsFirm c) : LeavesAnywhere (first ++ second) (front ++ back) := by
  intro rest behind hrest
  rw [List.append_assoc, List.append_assoc]
  apply hfirst _ _ _ (hsecond rest behind hrest)
  obtain ⟨tail, rfl⟩ := List.head?_eq_some_iff.1 hc
  rintro _ ⟨⟩
  exact Or.inr hfirm

/-- A text with a firm character behind it leaves the character as well. -/
lemma LeavesBefore.mark {text bare : Text} (h : LeavesBefore text bare) {c : Char} (hc : IsFirm c) :
    LeavesAnywhere (text ++ [c]) (bare ++ [c]) :=
  h.append (leavesAnywhere_word (List.forall_mem_singleton.2 hc)) rfl hc

/-! ## Rules -/

/-- A selector list and its declarations. -/
structure SpacedRule where
  selector : SpacedText
  declarations : SpacedText

namespace SpacedRule

/-- A rule as it is written. -/
def text (rule : SpacedRule) : Text :=
  (rule.selector.text ++ ['{']) ++ (rule.declarations.text ++ ['}'])

/-- Rules as they are written, one behind the other. -/
def textAll (rules : List SpacedRule) : Text :=
  rules.flatMap text

/-- What a rule says, unless nothing but comments stands between its braces. -/
def contents (scope : Scope) (rule : SpacedRule) : List Content :=
  if rule.declarations.bare = [] then []
  else [⟨scope, Text.collapse rule.selector.core, Text.collapse rule.declarations.core⟩]

/-- A selector list is not blank and holds no semicolon. -/
structure WellFormed (rule : SpacedRule) : Prop where
  selector : rule.selector.WellFormed
  declarations : rule.declarations.WellFormed
  nonblank : ¬ Text.AllBlank rule.selector.core
  semicolon : ';' ∉ rule.selector.core

instance (rule : SpacedRule) : Decidable rule.WellFormed :=
  decidable_of_iff (rule.selector.WellFormed ∧ rule.declarations.WellFormed ∧
      ¬ Text.AllBlank rule.selector.core ∧ ';' ∉ rule.selector.core)
    ⟨fun ⟨selector, declarations, nonblank, semicolon⟩ =>
        ⟨selector, declarations, nonblank, semicolon⟩,
      fun ⟨selector, declarations, nonblank, semicolon⟩ =>
        ⟨selector, declarations, nonblank, semicolon⟩⟩

/-- A rule leaves a sound part that says the same. -/
lemma exists_part {rule : SpacedRule} (h : rule.WellFormed) :
    ∃ part : Part, part.Sound ∧ part.Headed ∧ (∀ scope, part.contents scope = rule.contents scope) ∧
      LeavesAnywhere rule.text part.text := by
  obtain ⟨head, hhead⟩ := SpacedText.exists_leftAs h.selector
  obtain ⟨body, hbody⟩ := SpacedText.exists_leftAs h.declarations
  obtain ⟨hheadOpen, hheadClose⟩ := hhead.noBrace h.selector.braces
  have hbraces := hbody.noBrace h.declarations.braces
  have hheaded : ¬ Text.AllBlank head := by
    rw [← Text.collapse_eq_nil_iff, hhead.words, Text.collapse_eq_nil_iff]
    exact h.nonblank
  have hne : head ≠ [] := by
    rintro rfl
    exact hheaded Text.allBlank_nil
  refine ⟨.rule head body [], ?_, hheaded, ?_, ?_⟩
  · have hplain : ∀ c ∈ head, IsPlain c := by
      intro c hc
      refine ⟨?_, ?_, ?_⟩
      · rintro rfl
        exact hheadOpen hc
      · rintro rfl
        exact hheadClose hc
      · rintro rfl
        exact h.semicolon ((hhead.mem_iff (by decide)).1 hc)
    have hfirst : body.head? ≠ some '{' := fun hopen => hbraces.1 (List.mem_of_mem_head? hopen)
    apply Part.Sound.rule hplain hne (hhead.noMedia h.selector.mediaWord) hbraces.2 hfirst
    · nofun
    · nofun
    · rw [List.append_nil]
      exact hbraces.nested
    · rw [List.append_nil]
      exact hbody.noMedia h.declarations.mediaWord
  · intro scope
    rw [Part.contents, contents, hhead.words, hbody.words]
    simp only [hbody.empty]
  · have hleaves := (hhead.leaves.mark (c := '{') (by decide)).append
      (hbody.leaves.mark (c := '}') (by decide))
    have htext : (Part.rule head body []).text = (head ++ ['{']) ++ (body ++ ['}']) := by
      simp [Part.text]
    rw [htext]
    exact hleaves

/-- Well formed rules leave sound parts that say the same. -/
lemma exists_parts {rules : List SpacedRule} (h : ∀ rule ∈ rules, rule.WellFormed) :
    ∃ parts : List Part, (∀ part ∈ parts, part.Sound) ∧
      (∀ scope, parts.flatMap (Part.contents scope) = rules.flatMap (contents scope)) ∧
      LeavesAnywhere (textAll rules) (Part.textAll parts) := by
  induction rules with
  | nil => exact ⟨[], nofun, fun scope => rfl, fun rest behind hrest => hrest⟩
  | cons rule rules ih =>
    obtain ⟨hrule, hrules⟩ := List.forall_mem_cons.1 h
    obtain ⟨part, hsound, -, hcontents, hleaves⟩ := exists_part hrule
    obtain ⟨parts, hsounds, hothers, hrest⟩ := ih hrules
    refine ⟨part :: parts, List.forall_mem_cons.2 ⟨hsound, hsounds⟩, ?_, hleaves.append hrest⟩
    intro scope
    rw [List.flatMap_cons, List.flatMap_cons, hcontents, hothers]

end SpacedRule

/-! ## Items -/

/-- Sound items that say `contents`, with a selector list before each brace of the top level. -/
structure Item.Say (items : List Item) (contents : List Content) : Prop where
  sound : ∀ item ∈ items, item.Sound
  headed : ∀ part, .plain part ∈ items → part.Headed
  contents : items.flatMap Item.contents = contents

namespace Item.Say

/-- No items say nothing. -/
lemma nil : Say [] [] := ⟨nofun, nofun, rfl⟩

/-- A sound part at top level says its rule. -/
lemma plain {part : Part} (hsound : part.Sound) (hheaded : part.Headed) :
    Say [.plain part] (part.contents .topLevel) where
  sound := List.forall_mem_singleton.2 (.plain hsound)
  headed := by
    intro other hother
    obtain rfl := Item.plain.inj (List.mem_singleton.1 hother)
    exact hheaded
  contents := List.flatMap_singleton ..

/-- A media rule around sound parts says their rules under its query. -/
lemma media {query : Text} {parts : List Part} (hopen : '{' ∉ query)
    (hword : ¬ mediaWord <:+: query) (hparts : ∀ part ∈ parts, part.Sound) :
    Say [.media query parts] (parts.flatMap (Part.contents (.media (Text.collapse query)))) where
  sound := List.forall_mem_singleton.2 (.media hopen hword hparts)
  headed := by
    intro other hother
    cases List.mem_singleton.1 hother
  contents := List.flatMap_singleton ..

/-- Items one behind the other say what each of them says. -/
lemma append {items others : List Item} {contents more : List Content} (h : Say items contents)
    (hothers : Say others more) : Say (items ++ others) (contents ++ more) where
  sound := List.forall_mem_append.2 ⟨h.sound, hothers.sound⟩
  headed := by
    intro part hpart
    rcases List.mem_append.1 hpart with hpart | hpart
    · exact h.headed part hpart
    · exact hothers.headed part hpart
  contents := by rw [List.flatMap_append, h.contents, hothers.contents]

/-- The text of items is read as what they say. -/
lemma sheetContents {items : List Item} {contents : List Content} (h : Say items contents) :
    sheetContents (Item.textAll items) = contents := by
  rw [Item.sheetContents_textAll h.sound (Item.placed_outline h.sound h.headed), h.contents]

end Item.Say

/-- A rule or a statement at top level, or a media rule around rules. -/
inductive SpacedItem where
  | rule (written : SpacedRule)
  | statement (body : SpacedText)
  | media (before : List Filler) (query : SpacedText) (rules : List SpacedRule)
      (behind : List Filler)

namespace SpacedItem

/-- An item as it is written. -/
def text : SpacedItem → Text
  | rule written => written.text
  | statement body => body.text ++ [';']
  | media before query rules behind =>
    Filler.textAll before ++ (mediaWord ++ ((query.text ++ ['{']) ++
      (SpacedRule.textAll rules ++ (Filler.textAll behind ++ ['}']))))

/-- Items as they are written, one behind the other. -/
def textAll (items : List SpacedItem) : Text :=
  items.flatMap text

/-- The rules of an item, in order. -/
def contents : SpacedItem → List Content
  | rule written => written.contents .topLevel
  | statement _ => []
  | media _ query rules _ =>
    rules.flatMap (SpacedRule.contents (.media (Text.collapse query.core)))

/-- An item whose parts are well formed is well formed. -/
inductive WellFormed : SpacedItem → Prop where
  | rule {written : SpacedRule} : written.WellFormed → WellFormed (rule written)
  | statement {body : SpacedText} : body.WellFormed → WellFormed (statement body)
  | media {before behind : List Filler} {query : SpacedText} {rules : List SpacedRule} :
      (∀ filler ∈ before, filler.WellFormed) → query.WellFormed →
      (∀ rule ∈ rules, rule.WellFormed) → (∀ filler ∈ behind, filler.WellFormed) →
      WellFormed (media before query rules behind)

/-- A well formed media rule leaves items that say the same. -/
lemma exists_say_media {before behind : List Filler} {query : SpacedText} {rules : List SpacedRule}
    (hbefore : ∀ filler ∈ before, filler.WellFormed) (hquery : query.WellFormed)
    (hrules : ∀ rule ∈ rules, rule.WellFormed) (hbehind : ∀ filler ∈ behind, filler.WellFormed) :
    ∃ items, Item.Say items (media before query rules behind).contents ∧
      LeavesAnywhere (media before query rules behind).text (Item.textAll items) := by
  obtain ⟨gap, hgap, hfront⟩ := exists_blanks hbefore
  obtain ⟨bare, hbare⟩ := SpacedText.exists_leftAs hquery
  obtain ⟨parts, hparts, hcontents, hbody⟩ := SpacedRule.exists_parts hrules
  obtain ⟨closing, hclosing, hback⟩ := exists_blanks hbehind
  have hall : ∀ part ∈ parts ++ [.gap closing], part.Sound :=
    List.forall_mem_append.2 ⟨hparts, List.forall_mem_singleton.2 (.blanks hclosing)⟩
  have hsay := (Item.Say.plain (.blanks hgap) trivial).append
    (.media (hbare.noBrace hquery.braces).1 (hbare.noMedia hquery.mediaWord) hall)
  have htext : Item.textAll ([.plain (.gap gap)] ++ [.media bare (parts ++ [.gap closing])]) =
      gap ++ (mediaWord ++ ((bare ++ ['{']) ++ (Part.textAll parts ++ (closing ++ ['}'])))) := by
    simp [Item.textAll, Item.text, Part.textAll, Part.text]
  refine ⟨[.plain (.gap gap)] ++ [.media bare (parts ++ [.gap closing])], ?_, ?_⟩
  · rw [List.flatMap_append, hcontents, hbare.words] at hsay
    simpa [contents, Part.contents] using hsay
  · rw [htext]
    have hquery := (hbare.leaves.mark (c := '{') (by decide)).append
      (hbody.append (hback.mark (c := '}') (by decide)))
    have hfirm : ∀ c ∈ mediaWord, IsFirm c := by simp [mediaWord, IsFirm]
    have hword := (leavesAnywhere_word hfirm).append hquery
    exact hfront.append hword rfl (by decide)

/-- A well formed item leaves items that say the same. -/
lemma exists_say {item : SpacedItem} (h : item.WellFormed) :
    ∃ items, Item.Say items item.contents ∧ LeavesAnywhere item.text (Item.textAll items) := by
  cases h with
  | @rule written hrule =>
    obtain ⟨part, hsound, hheaded, hcontents, hleaves⟩ := SpacedRule.exists_part hrule
    refine ⟨[.plain part], ?_, ?_⟩
    · have hsay := Item.Say.plain hsound hheaded
      rwa [hcontents] at hsay
    · simpa [text, Item.textAll, Item.text] using hleaves
  | @statement body hbody =>
    obtain ⟨bare, hbare⟩ := SpacedText.exists_leftAs hbody
    have hsound : (Part.gap (bare ++ [';'])).Sound :=
      .statement (hbare.noBrace hbody.braces) (hbare.noMedia hbody.mediaWord)
    refine ⟨[.plain (.gap (bare ++ [';']))], Item.Say.plain hsound trivial, ?_⟩
    have hleaves := hbare.leaves.mark (c := ';') (by decide)
    simpa [text, Item.textAll, Item.text, Part.text] using hleaves
  | media hbefore hquery hrules hbehind => exact exists_say_media hbefore hquery hrules hbehind

/-- Well formed items leave items that say the same. -/
lemma exists_say_all {items : List SpacedItem} (h : ∀ item ∈ items, item.WellFormed) :
    ∃ others, Item.Say others (items.flatMap contents) ∧
      LeavesAnywhere (textAll items) (Item.textAll others) := by
  induction items with
  | nil => exact ⟨[], .nil, fun rest behind hrest => hrest⟩
  | cons item items ih =>
    obtain ⟨hitem, hitems⟩ := List.forall_mem_cons.1 h
    obtain ⟨first, hfirst, hleaves⟩ := exists_say hitem
    obtain ⟨others, hothers, hrest⟩ := ih hitems
    refine ⟨first ++ others, hfirst.append hothers, ?_⟩
    have htext : Item.textAll (first ++ others) = Item.textAll first ++ Item.textAll others :=
      List.flatMap_append ..
    rw [htext]
    exact hleaves.append hrest

end SpacedItem

/-! ## Stylesheets -/

/-- Items, and what stands behind the last. -/
structure SpacedSheet where
  items : List SpacedItem
  behind : List Filler

namespace SpacedSheet

/-- A stylesheet as it is written. -/
def text (sheet : SpacedSheet) : Text :=
  SpacedItem.textAll sheet.items ++ Filler.textAll sheet.behind

/-- The rules of a stylesheet in the order in which they are written. -/
def contents (sheet : SpacedSheet) : List Content :=
  sheet.items.flatMap SpacedItem.contents

/-- The items of a stylesheet and the fillers behind them are well formed. -/
structure WellFormed (sheet : SpacedSheet) : Prop where
  items : ∀ item ∈ sheet.items, item.WellFormed
  behind : ∀ filler ∈ sheet.behind, filler.WellFormed

/-- A well formed stylesheet leaves items that say the same. -/
lemma exists_say {sheet : SpacedSheet} (h : sheet.WellFormed) :
    ∃ items, Item.Say items sheet.contents ∧ Leaves sheet.text (Item.textAll items) := by
  obtain ⟨items, hitems, hleaves⟩ := SpacedItem.exists_say_all h.items
  obtain ⟨gap, hgap, hbehind⟩ := exists_blanks h.behind
  have hsay := hitems.append (.plain (.blanks hgap) trivial)
  rw [Part.contents, List.append_nil] at hsay
  refine ⟨items ++ [.plain (.gap gap)], hsay, ?_⟩
  have hend : Leaves [] [] := stripFrom_nil []
  have hall := hleaves _ _ (hbehind [] [] (by simp) hend)
  simpa [text, Item.textAll, Item.text, Part.text] using hall

end SpacedSheet

end Css

/-- A spaced stylesheet is read exactly: each rule with anything but comments between its braces is
stored under its scope and its selector list, in order, and nothing else is; nothing is logged. -/
theorem Session.addSheet_spaced {sheet : Css.SpacedSheet} (h : sheet.WellFormed) (session : Session)
    {name : String}
    (hempty : ∀ old, session.sheets.sheet? name = some old → old = Stylesheet.empty) :
    ((session.addSheet name sheet.text).sheets.sheet? name).map Stylesheet.listing =
        some (gatherContents sheet.contents) ∧
      (session.addSheet name sheet.text).log = session.log := by
  obtain ⟨items, hsay, hleaves⟩ := Css.SpacedSheet.exists_say h
  constructor
  · rw [listing_addSheet hempty, Css.withoutComments, hleaves, hsay.sheetContents]
  · apply log_addSheet
    rw [Css.sheetNotices, Css.withoutComments, hleaves, Css.Item.notices_textAll hsay.sound]
    rfl

/-- A statement, a media rule with a rule that says nothing, a selector list that comes again, and a
line end that lies across the border of its declarations. -/
theorem Session.addSheet_spaced_comments :
    let sheet : Css.SpacedSheet := {
      items := [
        .statement ⟨[], "@charset".toList, [.comment ['*']]⟩,
        .rule ⟨⟨[.blanks [' ']], ['a'], []⟩, ⟨[.comment ['}']], "x\r".toList, [.blanks ['\n']]⟩⟩,
        .media [.comment []] ⟨[], " print".toList, []⟩
          [⟨⟨[], ['b'], []⟩, ⟨[.comment ['/']], [], []⟩⟩, ⟨⟨[], ['b'], []⟩, ⟨[], ['y'], []⟩⟩]
          [.blanks ['\n']],
        .rule ⟨⟨[.blanks ['\n']], ['a'], []⟩, ⟨[], ['z', ';'], []⟩⟩]
      behind := [.blanks ['\n']] }
    (((start {}).addSheet "a.css" sheet.text).sheets.sheet? "a.css").map Stylesheet.listing =
        some [(.topLevel, [(['a'], [['x'], ['z', ';']])]),
          (.media "print".toList, [(['b'], [['y']])])] ∧
      ((start {}).addSheet "a.css" sheet.text).log = [] := by
  intro sheet
  have h : sheet.WellFormed := by
    refine ⟨?_, by decide⟩
    intro item hitem
    simp only [sheet, List.mem_cons, List.not_mem_nil, or_false] at hitem
    rcases hitem with rfl | rfl | rfl | rfl
    · exact .statement (by decide)
    · exact .rule (by decide)
    · exact .media (by decide) (by decide) (by decide) (by decide)
    · exact .rule (by decide)
  have hempty : ∀ old, (start {}).sheets.sheet? "a.css" = some old → old = Stylesheet.empty := nofun
  have hread := addSheet_spaced h (start {}) hempty
  have hlisting : gatherContents sheet.contents =
      [(.topLevel, [(['a'], [['x'], ['z', ';']])]),
        (.media "print".toList, [(['b'], [['y']])])] := by
    decide +kernel
  rwa [hlisting] at hread

end CssPrune
