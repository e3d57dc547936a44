import CssPrune.Proofs.RoundTrip

/-!
# Where empty selector lists stand

An empty selector list is printed as blanks in front of a brace. It is read as such inside a media
rule, and at top level behind another rule. It is lost at the beginning of the text, and at top
level behind a media rule, where its block is taken for a second body. `placed_outline_iff` says
which printed stylesheets lose none. The scopes of a listing are distinct, so its top level comes
either first, or behind a media rule.
-/

namespace CssPrune

open Css

/-- An empty selector list is printed as blanks in front of a brace. It is read as such neither at
the beginning of the text nor at top level behind a media rule. -/
structure Listing.Placed (listing : Listing) : Prop where
  first : ∀ rules, listing.head? = some (.topLevel, rules) → ∀ rule ∈ rules.head?, rule.1 ≠ []
  behind : ∀ group ∈ listing.tail, group.1 = .topLevel → ∀ rule ∈ group.2, rule.1 ≠ []

namespace Css

/-! ## Printed parts -/

/-- Between printed rules stand blanks. -/
lemma allBlank_of_gap_mem {listing : Listing} {text : Text}
    (h : Item.plain (.gap text) ∈ listingItems listing) : Text.AllBlank text := by
  rcases eq_of_mem_listingItems h with ⟨other, hblank, heq⟩ | ⟨group, -, -, rule, -, heq⟩
  · obtain rfl := Part.gap.inj heq
    exact hblank
  · obtain ⟨body, closing, hpart⟩ := exists_rulePart_eq 0 rule.1 rule.2
    rw [hpart] at heq
    cases heq

/-- A rule at top level is an item of its listing. -/
lemma rulePart_mem_listingItems {listing : Listing} {rules : List (Text × List Text)}
    (h : (.topLevel, rules) ∈ listing) {rule : Text × List Text} (hrule : rule ∈ rules) :
    Item.plain (rulePart 0 rule.1 rule.2) ∈ listingItems listing := by
  apply List.mem_flatMap.2
  refine ⟨_, h, ?_⟩
  obtain ⟨first, others, rfl⟩ := List.exists_cons_of_ne_nil (List.ne_nil_of_mem hrule)
  apply List.mem_map_of_mem
  exact List.mem_flatMap.2 ⟨rule, hrule, List.mem_cons_self⟩

/-! ## The top level first -/

section TopLevel

variable {rule : Text × List Text} {others : List (Text × List Text)} {rest : Listing}

/-- The outline of a listing with the top level first begins with its rules. -/
lemma outline_topLevel :
    Item.outline (listingItems ((.topLevel, rule :: others) :: rest)) =
      ⟨Part.chunksFrom [] (ruleParts 0 (rule :: others) ++ Item.leading (listingItems rest)),
        Part.tailFrom [] (ruleParts 0 (rule :: others) ++ Item.leading (listingItems rest)),
        Item.groups (listingItems rest)⟩ := by
  have hitems : listingItems ((.topLevel, rule :: others) :: rest) =
      (ruleParts 0 (rule :: others)).map .plain ++ listingItems rest := rfl
  rw [hitems, Item.outline, Item.leading_append, Item.groups_append]

/-- The first brace opens a rule exactly if the first selector list is not empty. -/
lemma opensWithBrace_first_iff (hselector : IsSelectorText rule.1)
    (hsound : (rulePart 0 rule.1 rule.2).Sound) :
    (∀ chunk ∈ (Item.outline (listingItems ((.topLevel, rule :: others) :: rest))).first.head?,
        opensWithBrace id chunk.text = false) ↔ rule.1 ≠ [] := by
  obtain ⟨body, closing, hrule⟩ := exists_rulePart_eq 0 rule.1 rule.2
  have hhead : (Item.outline (listingItems ((.topLevel, rule :: others) :: rest))).first.head? =
      some ⟨[] ++ (indentText 0 ++ rule.1 ++ [' ']), body ++ closing⟩ := by
    rw [outline_topLevel, ruleParts, List.flatMap_cons]
    show (Part.chunksFrom [] (rulePart 0 rule.1 rule.2 :: _)).head? = _
    rw [hrule]
    rfl
  rw [hrule] at hsound
  have hopens := (Part.sound_chunk .nil hsound).opensWithBrace_iff
  rw [List.nil_append, allBlank_head_iff 0 hselector] at hopens
  rw [hhead, Ne, ← hopens, Bool.not_eq_true]
  simp

/-- With the top level first, all rules stay if the first of them has a selector list. -/
lemma placed_outline_topLevel_iff
    (hselector : ∀ group ∈ (.topLevel, rule :: others) :: rest, ∀ rule ∈ group.2,
      IsSelectorText rule.1)
    (hsound : ∀ item ∈ listingItems ((.topLevel, rule :: others) :: rest), item.Sound)
    (hrest : ∀ group ∈ rest, group.1 ≠ .topLevel) :
    (Item.outline (listingItems ((.topLevel, rule :: others) :: rest))).Placed ↔ rule.1 ≠ [] := by
  obtain ⟨hfirst, hothers⟩ := List.forall_mem_cons.1 hselector
  have hitem := hsound _ (rulePart_mem_listingItems List.mem_cons_self List.mem_cons_self)
  have hpart : (rulePart 0 rule.1 rule.2).Sound := by
    cases hitem with
    | plain hpart => exact hpart
  have hiff := @opensWithBrace_first_iff rule others rest (hfirst rule List.mem_cons_self) hpart
  constructor
  · intro h
    exact hiff.1 h.first
  · intro h
    refine ⟨hiff.2 h, ?_⟩
    rw [outline_topLevel]
    -- the media rules are those of the other scopes, which are all media rules
    have hsounds : ∀ item ∈ listingItems rest, item.Sound := fun item hmem =>
      hsound item (List.mem_append_right _ hmem)
    have hheaded := headed_of_mem_listingItems hothers fun group hmem heq =>
      absurd heq (hrest group hmem)
    exact (Item.placed_outline hsounds hheaded).media

end TopLevel

/-! ## A media rule first -/

/-- With a media rule first, all rules stay if each one at top level has a selector list. -/
lemma placed_outline_media_iff {query : Text} {rules : List (Text × List Text)} (hne : rules ≠ [])
    {rest : Listing}
    (hselector : ∀ group ∈ (.media query, rules) :: rest, ∀ rule ∈ group.2, IsSelectorText rule.1)
    (hsound : ∀ item ∈ listingItems ((.media query, rules) :: rest), item.Sound) :
    (Item.outline (listingItems ((.media query, rules) :: rest))).Placed ↔
      ∀ group ∈ rest, group.1 = .topLevel → ∀ rule ∈ group.2, rule.1 ≠ [] := by
  obtain ⟨-, hothers⟩ := List.forall_mem_cons.1 hselector
  constructor
  · intro h
    rintro ⟨scope, others⟩ hmem heq rule hrule
    obtain rfl : scope = .topLevel := heq
    obtain ⟨first, tail, rfl⟩ := List.exists_cons_of_ne_nil hne
    have hitems : listingItems ((.media query, first :: tail) :: rest) =
        .media (' ' :: query ++ [' ']) (.gap ['\n'] :: ruleParts indentWidth (first :: tail)) ::
          .plain (.gap ['\n', '\n']) :: listingItems rest := rfl
    rw [hitems] at h hsound
    have hblank : ∀ text, Item.plain (.gap text) ∈
        .plain (.gap ['\n', '\n']) :: listingItems rest → Text.AllBlank text := by
      intro text hin
      rcases List.mem_cons.1 hin with heq | hin
      · obtain rfl := Part.gap.inj (Item.plain.inj heq)
        decide
      · exact allBlank_of_gap_mem hin
    obtain ⟨hafter, hgroups⟩ := List.forall_mem_cons.1 h.media
    have hheaded := Item.headed_of_placed (List.forall_mem_cons.1 hsound).2 hblank
      Text.allBlank_nil hafter hgroups (rulePart 0 rule.1 rule.2)
    rw [headed_rulePart_iff 0 (hothers _ hmem rule hrule)] at hheaded
    exact hheaded (List.mem_cons_of_mem _ (rulePart_mem_listingItems hmem hrule))
  · intro h
    apply Item.placed_outline hsound
    apply headed_of_mem_listingItems hselector
    intro group hmem heq
    rcases List.mem_cons.1 hmem with rfl | hmem
    · cases heq
    · exact h group hmem heq

/-- A printed listing loses no brace exactly if no empty selector list stands where it is lost. -/
theorem placed_outline_iff {listing : Listing}
    (hselector : ∀ group ∈ listing, ∀ rule ∈ group.2, IsSelectorText rule.1)
    (hsound : ∀ item ∈ listingItems listing, item.Sound)
    (hrules : ∀ group ∈ listing, group.2 ≠ []) (hscopes : (listing.map (·.1)).Nodup) :
    (Item.outline (listingItems listing)).Placed ↔ listing.Placed := by
  cases listing with
  | nil =>
    constructor
    · intro _
      exact ⟨nofun, nofun⟩
    · intro _
      exact ⟨nofun, nofun⟩
  | cons group rest =>
    obtain ⟨scope, rules⟩ := group
    obtain ⟨hscope, -⟩ := List.nodup_cons.1 hscopes
    have hne := hrules _ List.mem_cons_self
    cases scope with
    | topLevel =>
      have hrest : ∀ group ∈ rest, group.1 ≠ .topLevel := fun group hmem heq =>
        hscope (List.mem_map.2 ⟨group, hmem, heq⟩)
      obtain ⟨rule, others, rfl⟩ := List.exists_cons_of_ne_nil hne
      rw [placed_outline_topLevel_iff hselector hsound hrest]
      constructor
      · intro h
        refine ⟨?_, fun group hmem heq => absurd heq (hrest group hmem)⟩
        intro rules hhead first hfirst
        obtain rfl : rule :: others = rules := by simpa using hhead
        obtain rfl : rule = first := by simpa using hfirst
        exact h
      · intro h
        exact h.first _ rfl rule rfl
    | media query =>
      rw [placed_outline_media_iff hne hselector hsound]
      constructor
      · intro h
        exact ⟨fun rules hhead => by simp at hhead, h⟩
      · intro h
        exact h.behind

end Css

end CssPrune
