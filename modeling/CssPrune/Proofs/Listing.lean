import CssPrune.Proofs.Maps
import CssPrune.Proofs.PlainReading
import Mathlib.Algebra.BigOperators.Group.List.Basic
import Mathlib.Algebra.GroupWithZero.Nat

/-!
# Listings

A stylesheet without the spans of its rules is a listing: the scopes in order, each with its
selector lists in order, each with its declarations in order. A stylesheet that is filled entry by
entry holds the entries grouped by scope, and in a scope by selector list, both in the order of
first occurrence (`Stylesheet.listing_insertAll`).
-/

namespace CssPrune

/-! ## Groups -/

section Groups

variable {κ γ : Type} [BEq κ]

/-- Items grouped by key: the keys in the order of their first occurrence, each with its items. -/
def gather (items : List (κ × γ)) : List (κ × List γ) :=
  (items.map (·.1)).eraseDups.map fun key => (key, (items.filter (·.1 == key)).map (·.2))

variable [LawfulBEq κ]

/-- A group whose key does not come again stands first. -/
lemma gather_append {key : κ} {group : List γ} (hgroup : group ≠ []) {items : List (κ × γ)}
    (hkey : key ∉ items.map (·.1)) :
    gather (group.map (key, ·) ++ items) = (key, group) :: gather items := by
  have hother {item : κ × γ} (hitem : item ∈ items) : ¬ item.1 = key := fun e =>
    hkey (List.mem_map.2 ⟨item, hitem, e⟩)
  have hkeys : ((group.map (key, ·) ++ items).map (·.1)).eraseDups =
      key :: (items.map (·.1)).eraseDups := by
    obtain ⟨first, rest, rfl⟩ := List.exists_cons_of_ne_nil hgroup
    have hrest : ((rest.map (key, ·)).map (·.1)).filter (fun k => !k == key) = [] := by
      simp
    have hitems : (items.map (·.1)).filter (fun k => !k == key) = items.map (·.1) := by
      rw [List.filter_eq_self]
      rintro _ hmem
      obtain ⟨item, hitem, rfl⟩ := List.mem_map.1 hmem
      simpa using hother hitem
    rw [List.map_cons, List.cons_append, List.map_cons, List.eraseDups_cons, List.map_append,
      List.filter_append, hrest, hitems, List.nil_append]
  rw [gather, hkeys, List.map_cons, gather]
  -- the key selects its group and nothing else, and the other keys nothing of the group
  congr 1
  · have hnone : items.filter (·.1 == key) = [] := by
      rw [List.filter_eq_nil_iff]
      exact fun item hitem => by simpa using hother hitem
    rw [List.filter_append, hnone]
    simp [List.filter_map, Function.comp_def]
  · refine List.map_congr_left fun other hmem => ?_
    have hne : ¬ key = other := by
      rintro rfl
      exact hkey (List.mem_eraseDups.1 hmem)
    rw [List.filter_append]
    simp [List.filter_map, Function.comp_def, hne]

/-- Groups with keys of their own are found again. -/
lemma gather_flatMap {groups : List (κ × List γ)} (hkeys : (groups.map (·.1)).Nodup)
    (hne : ∀ group ∈ groups, group.2 ≠ []) :
    gather (groups.flatMap fun (key, group) => group.map (key, ·)) = groups := by
  induction groups with
  | nil => rfl
  | cons first groups ih =>
    obtain ⟨key, group⟩ := first
    obtain ⟨hkey, hrest⟩ := List.nodup_cons.1 hkeys
    obtain ⟨hgroup, hgroups⟩ := List.forall_mem_cons.1 hne
    have hfresh : key ∉ (groups.flatMap fun (key, group) => group.map (key, ·)).map (·.1) := by
      intro hmem
      obtain ⟨item, hitem, rfl⟩ := List.mem_map.1 hmem
      obtain ⟨other, hother, hitem⟩ := List.mem_flatMap.1 hitem
      obtain ⟨_, _, rfl⟩ := List.mem_map.1 hitem
      exact hkey (List.mem_map.2 ⟨other, hother, rfl⟩)
    rw [List.flatMap_cons, gather_append hgroup hfresh, ih hrest hgroups]

/-- The first item opens the first group. -/
lemma gather_cons (key : κ) (value : γ) (items : List (κ × γ)) :
    gather ((key, value) :: items) =
      (key, value :: (items.filter (·.1 == key)).map (·.2)) ::
        gather (items.filter (!·.1 == key)) := by
  have hkeys : (items.map (·.1)).filter (fun k => !k == key) =
      (items.filter (!·.1 == key)).map (·.1) := by
    rw [List.filter_map]
    rfl
  rw [gather, List.map_cons, List.eraseDups_cons, List.map_cons, hkeys, gather]
  congr 1
  · simp
  · apply List.map_congr_left
    intro other hmem
    have hne : ¬ key = other := by
      rintro rfl
      simpa using List.mem_eraseDups.1 hmem
    have hsame : (items.filter (!·.1 == key)).filter (·.1 == other) =
        items.filter (·.1 == other) := by
      rw [List.filter_filter]
      apply List.filter_congr
      rintro ⟨k, v⟩ -
      by_cases hk : k = other
      · subst hk
        simp [Ne.symm hne]
      · simp [hk]
    rw [hsame, List.filter_cons_of_neg (by simpa using hne)]

/-- No key occurs twice once repetitions are dropped. -/
lemma nodup_eraseDups (keys : List κ) : keys.eraseDups.Nodup := by
  have h := OrderedMap.keys_updateAll id (fun _ _ => ()) keys
  rw [List.map_id] at h
  rw [← h]
  exact OrderedMap.nodup_keys_updateAll _ _ _ OrderedMap.nodup_keys_empty

/-- A sum over groups is bounded item by item. -/
lemma sum_gather_le {f : κ → List γ → Nat} {g : κ → γ → Nat}
    (h : ∀ key values, values ≠ [] → f key values ≤ (values.map (g key)).sum)
    (items : List (κ × γ)) :
    ((gather items).map fun group => f group.1 group.2).sum ≤
      (items.map fun item => g item.1 item.2).sum := by
  induction hn : items.length using Nat.strongRecOn generalizing items with
  | ind n ih =>
    cases items with
    | nil => simp [gather]
    | cons item items =>
      obtain ⟨key, value⟩ := item
      have hshorter : (items.filter (!·.1 == key)).length < n := by
        have := List.length_filter_le (!·.1 == key) items
        simp at hn
        omega
      have hrest := ih _ hshorter (items.filter (!·.1 == key)) rfl
      have hgroup := h key (value :: (items.filter (·.1 == key)).map (·.2)) (List.cons_ne_nil _ _)
      have hsame : ((items.filter (·.1 == key)).map (·.2)).map (g key) =
          (items.filter (·.1 == key)).map fun item => g item.1 item.2 := by
        rw [List.map_map]
        apply List.map_congr_left
        rintro ⟨k, v⟩ hmem
        obtain rfl : k = key := by simpa using (List.mem_filter.1 hmem).2
        rfl
      have hsum := List.sum_map_filter_add_sum_map_filter_not
        (fun item : κ × γ => (item.1 == key) = true) (fun item => g item.1 item.2) items
      simp only [Bool.decide_eq_true, Bool.not_eq_true, Bool.decide_eq_false] at hsum
      rw [List.map_cons, hsame, List.sum_cons] at hgroup
      rw [gather_cons, List.map_cons, List.sum_cons, List.map_cons, List.sum_cons]
      apply Nat.le_trans (Nat.add_le_add hgroup hrest)
      show g key value + _ + _ ≤ g key value + _
      omega

end Groups

/-! ## Stylesheets -/

/-- A stylesheet without spans: scopes, selector lists and declarations in order. -/
abbrev Listing := List (Scope × List (Text × List Text))

instance : DecidableEq (Scope × List (Text × List Text)) := instDecidableEqProd

/-- The rules of a scope without spans. -/
def RuleSet.listing (rules : RuleSet) : List (Text × List Text) :=
  rules.entries.map fun (selector, rule) => (selector, rule.declarations)

/-- The listing of a stylesheet. -/
def Stylesheet.listing (sheet : Stylesheet) : Listing :=
  sheet.scopes.entries.map fun (scope, rules) => (scope, RuleSet.listing rules)

/-- Rules grouped by scope, and in a scope by selector list. -/
def gatherContents (contents : List Content) : Listing :=
  (gather (contents.map fun rule => (rule.scope, (rule.selector, rule.declarations)))).map
    fun (scope, rules) => (scope, gather rules)

/-- The rules of a listing one after the other. -/
def Listing.contents (listing : Listing) : List Content :=
  listing.flatMap fun (scope, rules) =>
    rules.flatMap fun (selector, declarations) => declarations.map (⟨scope, selector, ·⟩)

/-- A listing whose keys are distinct at each level is what its rules are grouped to. -/
lemma gatherContents_contents {listing : Listing} (hscopes : (listing.map (·.1)).Nodup)
    (hselectors : ∀ scope rules, (scope, rules) ∈ listing → (rules.map (·.1)).Nodup)
    (hrules : ∀ scope rules, (scope, rules) ∈ listing → rules ≠ [])
    (hdeclarations : ∀ scope rules, (scope, rules) ∈ listing → ∀ rule ∈ rules, rule.2 ≠ []) :
    gatherContents listing.contents = listing := by
  let flat (rules : List (Text × List Text)) : List (Text × Text) :=
    rules.flatMap fun (selector, declarations) => declarations.map (selector, ·)
  have hflat : (listing.contents.map fun rule => (rule.scope, (rule.selector, rule.declarations))) =
      (listing.map fun (scope, rules) => (scope, flat rules)).flatMap
        fun (scope, rules) => rules.map (scope, ·) := by
    simp [Listing.contents, flat, List.map_flatMap, List.flatMap_map, Function.comp_def]
  have hkeys : (listing.map fun (scope, rules) => (scope, flat rules)).map (·.1) =
      listing.map (·.1) := by
    simp [Function.comp_def]
  have hgroups : ∀ group ∈ listing.map fun (scope, rules) => (scope, flat rules),
      group.2 ≠ [] := by
    intro group hmem hnil
    obtain ⟨⟨scope, rules⟩, hin, rfl⟩ := List.mem_map.1 hmem
    obtain ⟨rule, hrule⟩ := List.exists_mem_of_ne_nil _ (hrules scope rules hin)
    have := List.flatMap_eq_nil_iff.1 hnil rule hrule
    exact hdeclarations scope rules hin rule hrule (List.map_eq_nil_iff.1 this)
  rw [gatherContents, hflat, gather_flatMap (hkeys ▸ hscopes) hgroups, List.map_map]
  conv_rhs => rw [← List.map_id listing]
  apply List.map_congr_left
  rintro ⟨scope, rules⟩ hmem
  have hrules := gather_flatMap (hselectors scope rules hmem) (hdeclarations scope rules hmem)
  show (scope, gather (flat rules)) = (scope, rules)
  rw [hrules]

namespace Stylesheet

/-- The rules of a scope with one more entry. -/
def extendRules (entry : Entry) (rules? : Option RuleSet) : RuleSet :=
  (rules?.getD .empty).update entry.selector (extendRule entry.declarations entry.span)

/-- Inserted entries update the scopes of a stylesheet one after the other. -/
lemma scopes_insertAll (sheet : Stylesheet) (entries : List Entry) :
    (sheet.insertAll entries).scopes =
      OrderedMap.updateAll Entry.scope extendRules entries sheet.scopes := by
  induction entries generalizing sheet with
  | nil => rfl
  | cons entry entries ih => exact ih (sheet.insert entry)

/-- Entries extend the rules of a scope as updates of their selector lists. -/
lemma foldl_extendRules (entries : List Entry) (rules? : Option RuleSet) :
    entries.foldl (fun rules? entry => some (extendRules entry rules?)) rules? =
      if entries.isEmpty then rules?
      else some (OrderedMap.updateAll Entry.selector
        (fun entry => extendRule entry.declarations entry.span) entries
        (rules?.getD .empty)) := by
  induction entries generalizing rules? with
  | nil => rfl
  | cons entry entries ih =>
    rw [List.foldl_cons, ih]
    cases entries <;> rfl

/-- Entries extend a rule by their declarations, in order. -/
lemma foldl_extendRule (entries : List Entry) (rule? : Option Rule) :
    (entries.foldl (fun rule? entry => some (extendRule entry.declarations entry.span rule?))
        rule?).map Rule.declarations =
      if entries.isEmpty then rule?.map Rule.declarations
      else some ((rule?.map Rule.declarations).getD [] ++ entries.map Entry.declarations) := by
  induction entries generalizing rule? with
  | nil => rfl
  | cons entry entries ih =>
    rw [List.foldl_cons, ih]
    cases rule? <;> cases entries <;> simp [extendRule]

/-- The listing of inserted entries is their grouping by selector list. -/
lemma listing_updateAll (entries : List Entry) :
    RuleSet.listing (OrderedMap.updateAll Entry.selector
        (fun entry => extendRule entry.declarations entry.span) entries .empty) =
      gather (entries.map fun entry => (entry.selector, entry.declarations)) := by
  have hkeys : (entries.map fun entry => (entry.selector, entry.declarations)).map (·.1) =
      entries.map Entry.selector := by simp
  rw [RuleSet.listing, gather, hkeys, ← OrderedMap.keys_updateAll Entry.selector
    (fun entry => extendRule entry.declarations entry.span)]
  refine OrderedMap.map_entries
    (OrderedMap.nodup_keys_updateAll _ _ _ OrderedMap.nodup_keys_empty) _ _ fun selector hmem => ?_
  rw [OrderedMap.keys_updateAll, List.mem_eraseDups] at hmem
  obtain ⟨entry, hentry, rfl⟩ := List.mem_map.1 hmem
  have hne : (entries.filter (·.selector == entry.selector)).isEmpty = false := by
    simpa using ⟨entry, hentry, rfl⟩
  rw [OrderedMap.get?_updateAll, foldl_extendRule, hne]
  simp [List.filter_map, Function.comp_def]

/-- A stylesheet that is filled entry by entry holds the entries grouped. -/
theorem listing_insertAll (entries : List Entry) :
    (empty.insertAll entries).listing = gatherContents (entries.map Entry.content) := by
  have hkeys : ((entries.map Entry.content).map fun rule =>
      (rule.scope, (rule.selector, rule.declarations))).map (·.1) = entries.map Entry.scope := by
    simp [Entry.content]
  have hempty : (empty : Stylesheet).scopes = .empty := rfl
  rw [listing, scopes_insertAll, hempty, gatherContents, gather, hkeys, List.map_map,
    ← OrderedMap.keys_updateAll Entry.scope extendRules]
  refine OrderedMap.map_entries
    (OrderedMap.nodup_keys_updateAll _ _ _ OrderedMap.nodup_keys_empty) _ _ fun scope hmem => ?_
  rw [OrderedMap.keys_updateAll, List.mem_eraseDups] at hmem
  obtain ⟨entry, hentry, rfl⟩ := List.mem_map.1 hmem
  have hne : (entries.filter (·.scope == entry.scope)).isEmpty = false := by
    simpa using ⟨entry, hentry, rfl⟩
  rw [OrderedMap.get?_updateAll, foldl_extendRules, hne]
  simp [List.filter_map, Function.comp_def, listing_updateAll, Entry.content]

end Stylesheet

end CssPrune
