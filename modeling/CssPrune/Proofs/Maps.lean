import CssPrune.OrderedMap
import Mathlib.Data.List.Forall2
import Mathlib.Data.List.Induction
import Mathlib.Data.List.Nodup

/-!
# Laws of ordered maps

A map is determined by its keys and its look-ups, so the run of updates that fills it is described
by one lemma for the keys and one for the look-ups, both by induction on the last update. An update
shows in a map whose values are changed as an update there, and in a map of which some keys are kept
not at all unless its key is kept.

Two maps with the same keys in the same order can be compared value by value (`Related`), and a
property of all entries (`Holds`) is kept by the updates that keep it at their key.
-/

namespace CssPrune

/-! ## Items of one key -/

section Keys

variable {α β κ : Type}

/-- If the items that come from `a` are selected together, it is enough to select `a`. -/
lemma filter_flatMap_eq {f : α → List β} {p : β → Bool} {q : α → Bool} {items : List α}
    (h : ∀ a ∈ items, ∀ b ∈ f a, p b = q a) :
    (items.flatMap f).filter p = (items.filter q).flatMap f := by
  induction items with
  | nil => rfl
  | cons a items ih =>
    obtain ⟨ha, hitems⟩ := List.forall_mem_cons.1 h
    rw [List.flatMap_cons, List.filter_append, ih hitems]
    cases hq : q a with
    | true =>
      rw [List.filter_cons_of_pos hq, List.flatMap_cons,
        List.filter_eq_self.2 fun b hb => (ha b hb).trans hq]
    | false =>
      rw [List.filter_cons_of_neg (by simp [hq]), List.filter_eq_nil_iff.2 fun b hb => by
        rw [ha b hb, hq]
        exact Bool.false_ne_true, List.nil_append]

variable [BEq κ] [LawfulBEq κ]

/-- A key is listed as the last one when it first occurs. -/
lemma eraseDups_concat (keys : List κ) (key : κ) :
    (keys ++ [key]).eraseDups =
      if keys.contains key then keys.eraseDups else keys.eraseDups ++ [key] := by
  rw [List.eraseDups_append]
  by_cases hmem : key ∈ keys
  · simp [List.removeAll, hmem]
  · simp [List.removeAll, hmem, List.eraseDups_cons]

/-- A filter of keys without repetitions is the filter of the keys, without repetitions. -/
lemma filter_eraseDups (p : κ → Bool) (keys : List κ) :
    keys.eraseDups.filter p = (keys.filter p).eraseDups := by
  induction keys using List.reverseRecOn with
  | nil => rfl
  | append_singleton keys key ih =>
    rw [eraseDups_concat, List.filter_append]
    cases hkey : p key with
    | true =>
      have hkept : (keys.filter p).contains key = keys.contains key := by
        rw [Bool.eq_iff_iff, List.contains_iff_mem, List.contains_iff_mem, List.mem_filter, hkey]
        exact and_iff_left rfl
      rw [List.filter_cons_of_pos hkey, List.filter_nil, eraseDups_concat, hkept, ← ih]
      split
      · rfl
      · rw [List.filter_append, List.filter_cons_of_pos hkey, List.filter_nil]
    | false =>
      have hdropped : [key].filter p = [] := List.filter_cons_of_neg (by simp [hkey])
      rw [hdropped, List.append_nil, ← ih]
      split
      · rfl
      · rw [List.filter_append, hdropped, List.append_nil]

/-- If no two items have the same key, the key of an item selects it alone. -/
lemma filter_eq_singleton {key : α → κ} {items : List α} (h : (items.map key).Nodup) {a : α}
    (ha : a ∈ items) : items.filter (key · == key a) = [a] := by
  induction items with
  | nil => cases ha
  | cons b items ih =>
    obtain ⟨hb, hitems⟩ := List.nodup_cons.1 h
    rcases List.mem_cons.1 ha with rfl | hin
    · have hnone : items.filter (key · == key a) = [] := by
        rw [List.filter_eq_nil_iff]
        exact fun c hc heq => hb (List.mem_map.2 ⟨c, hc, by simpa using heq⟩)
      rw [List.filter_cons, if_pos (beq_self_eq_true _), hnone]
    · have hne : ¬ (key b == key a) = true := by
        intro heq
        exact hb (List.mem_map.2 ⟨a, hin, by simpa using (beq_iff_eq.1 heq).symm⟩)
      rw [List.filter_cons, if_neg hne, ih hitems hin]

end Keys

/-! ## Runs of updates -/

namespace OrderedMap

variable {κ β γ δ : Type} [BEq κ] [LawfulBEq κ]

/-- Updates a map by items one after the other, each at its key. -/
def updateAll (key : γ → κ) (step : γ → Option β → β) (items : List γ)
    (map : OrderedMap κ β) : OrderedMap κ β :=
  items.foldl (fun map item => map.update (key item) (step item)) map

/-- A second update of a key finds the value of the first one. -/
lemma updateEntries_updateEntries (key : κ) (f g : Option β → β) (entries : List (κ × β)) :
    updateEntries key g (updateEntries key f entries) =
      updateEntries key (fun value? => g (some (f value?))) entries := by
  induction entries with
  | nil => simp [updateEntries]
  | cons entry entries ih =>
    obtain ⟨other, value⟩ := entry
    by_cases h : (other == key) = true
    · simp [updateEntries, h]
    · simp [updateEntries, h, ih]

/-- An update keeps the keys apart. -/
lemma nodup_keys_update {map : OrderedMap κ β} (h : map.keys.Nodup) (key : κ)
    (f : Option β → β) : (map.update key f).keys.Nodup := by
  rw [keys_update]
  split
  · exact h
  · rename_i hkey
    exact List.nodup_append.2 ⟨h, List.nodup_singleton _, by
      rintro a ha b hb rfl
      exact hkey (List.mem_singleton.1 hb ▸ ha)⟩

omit [BEq κ] [LawfulBEq κ] in
/-- An empty map has no keys. -/
lemma nodup_keys_empty : (empty : OrderedMap κ β).keys.Nodup := List.nodup_nil

/-- An entry of a map whose keys are apart is found. -/
lemma get?_eq_some {map : OrderedMap κ β} (h : map.keys.Nodup) {key : κ} {value : β}
    (hmem : (key, value) ∈ map.entries) : map.get? key = some value := by
  obtain ⟨entries⟩ := map
  simp only [get?, keys] at *
  induction entries with
  | nil => simp at hmem
  | cons entry entries ih =>
    obtain ⟨known, first⟩ := entry
    obtain ⟨hknown, hrest⟩ := List.nodup_cons.1 h
    rw [lookup_cons_pair]
    rcases List.mem_cons.1 hmem with heq | hin
    · obtain ⟨rfl, rfl⟩ := Prod.mk.inj heq
      simp
    · have hne : key ≠ known := by
        rintro rfl
        exact hknown (List.mem_map.2 ⟨(key, value), hin, rfl⟩)
      simpa [hne] using ih hrest hin

/-- A map is determined by its keys and its look-ups. -/
lemma map_entries {map : OrderedMap κ β} (h : map.keys.Nodup) (f : β → δ) (g : κ → δ)
    (hget : ∀ key ∈ map.keys, (map.get? key).map f = some (g key)) :
    (map.entries.map fun (key, value) => (key, f value)) =
      map.keys.map fun key => (key, g key) := by
  rw [keys, List.map_map]
  apply List.map_congr_left
  rintro ⟨key, value⟩ hmem
  have := hget key (List.mem_map_of_mem hmem)
  rw [get?_eq_some h hmem] at this
  simpa using this

variable (key : γ → κ) (step : γ → Option β → β)

omit [LawfulBEq κ] in
/-- The last of some updates comes last. -/
lemma updateAll_concat (items : List γ) (item : γ) (map : OrderedMap κ β) :
    updateAll key step (items ++ [item]) map =
      (updateAll key step items map).update (key item) (step item) := by
  simp [updateAll]

/-- The keys of the items come in the order of their first occurrence. -/
lemma keys_updateAll (items : List γ) :
    (updateAll key step items (empty : OrderedMap κ β)).keys = (items.map key).eraseDups := by
  induction items using List.reverseRecOn with
  | nil => rfl
  | append_singleton items item ih =>
    rw [updateAll_concat, keys_update, ih, List.map_append, List.map_singleton, eraseDups_concat]
    simp only [List.mem_eraseDups, List.contains_iff_mem]

/-- The items of a key make up its value. -/
lemma get?_updateAll (items : List γ) (other : κ) :
    (updateAll key step items (empty : OrderedMap κ β)).get? other =
      (items.filter (key · == other)).foldl (fun value item => some (step item value)) none := by
  induction items using List.reverseRecOn with
  | nil => rfl
  | append_singleton items item ih =>
    rw [updateAll_concat, get?_update, List.filter_append]
    by_cases h : key item = other
    · subst h
      simp [ih]
    · have h' : ¬ other = key item := fun e => h e.symm
      simp [ih, h, h']

/-- Updates keep the keys apart. -/
lemma nodup_keys_updateAll (items : List γ) {map : OrderedMap κ β} (h : map.keys.Nodup) :
    (updateAll key step items map).keys.Nodup := by
  induction items generalizing map with
  | nil => exact h
  | cons item items ih => exact ih (nodup_keys_update h _ _)

end OrderedMap

/-! ## Updates of a changed map -/

namespace OrderedMap

variable {κ β γ : Type} [BEq κ]

/-- A change of the values commutes with an update that it commutes with at each value. -/
lemma map_updateEntries {f : Option β → β} {f' : Option γ → γ} {g : β → γ}
    (h : ∀ value?, g (f value?) = f' (value?.map g)) (key : κ) (entries : List (κ × β)) :
    (updateEntries key f entries).map (fun (key, value) => (key, g value)) =
      updateEntries key f' (entries.map fun (key, value) => (key, g value)) := by
  induction entries with
  | nil =>
    have hnone := h none
    simp [updateEntries, hnone]
  | cons entry entries ih =>
    obtain ⟨other, value⟩ := entry
    have hsome := h (some value)
    simp only [updateEntries, List.map_cons]
    split
    · simp [hsome]
    · simp [ih]

/-- Changing every value behind an update is an update of the changed map. -/
lemma mapValues_update {f : Option β → β} {f' : Option γ → γ} {g : β → γ}
    (h : ∀ value?, g (f value?) = f' (value?.map g)) (key : κ) (map : OrderedMap κ β) :
    (map.update key f).mapValues g = (map.mapValues g).update key f' :=
  congrArg mk (map_updateEntries h key map.entries)

variable [LawfulBEq κ]

/-- A filter by keys keeps the update of a key that it keeps, and leaves out the others. -/
lemma filter_updateEntries (p : κ → Bool) (key : κ) (f : Option β → β) (entries : List (κ × β)) :
    (updateEntries key f entries).filter (fun (key, _) => p key) =
      if p key then updateEntries key f (entries.filter fun (key, _) => p key)
      else entries.filter fun (key, _) => p key := by
  induction entries with
  | nil => cases hp : p key <;> simp [updateEntries, hp]
  | cons entry entries ih =>
    obtain ⟨other, value⟩ := entry
    by_cases hkey : other = key
    · subst hkey
      cases hp : p other <;> simp [updateEntries, hp]
    · cases hp : p key <;> cases hother : p other <;>
        simp [updateEntries, hkey, ih, hp, hother]

/-- An update shows among the kept keys only if its key is kept. -/
lemma filterKeys_update (p : κ → Bool) (key : κ) (f : Option β → β) (map : OrderedMap κ β) :
    (map.update key f).filterKeys p =
      if p key then (map.filterKeys p).update key f else map.filterKeys p := by
  have hentries := congrArg mk (filter_updateEntries p key f map.entries)
  rw [apply_ite mk] at hentries
  exact hentries

omit [BEq κ] [LawfulBEq κ] in
/-- A second filter by keys leaves the map as it is. -/
@[simp]
lemma filterKeys_filterKeys (p : κ → Bool) (map : OrderedMap κ β) :
    (map.filterKeys p).filterKeys p = map.filterKeys p := by
  simp [filterKeys]

end OrderedMap

/-! ## What holds of every entry -/

namespace OrderedMap

variable {κ β γ : Type}

/-- No key occurs twice, and `p` holds of every entry. -/
structure Holds (p : κ → β → Prop) (map : OrderedMap κ β) : Prop where
  nodup : map.keys.Nodup
  entry : ∀ key value, (key, value) ∈ map.entries → p key value

variable {p : κ → β → Prop} {map : OrderedMap κ β}

/-- Everything holds of the entries of an empty map. -/
lemma holds_empty : (empty : OrderedMap κ β).Holds p := ⟨nodup_keys_empty, nofun⟩

/-- What holds of every entry holds of the changed entries if the change keeps it. -/
lemma Holds.mapValues {q : κ → γ → Prop} {f : β → γ} (h : map.Holds p)
    (hf : ∀ key value, p key value → q key (f value)) : (map.mapValues f).Holds q := by
  constructor
  · rw [keys_mapValues]
    exact h.nodup
  · intro key value hmem
    obtain ⟨⟨_, first⟩, hin, heq⟩ := List.mem_map.1 hmem
    obtain ⟨rfl, rfl⟩ := Prod.mk.inj heq
    apply hf
    exact h.entry _ _ hin

/-- What holds of every entry holds of those that are kept. -/
lemma Holds.filterKeys (h : map.Holds p) (keep : κ → Bool) : (map.filterKeys keep).Holds p := by
  constructor
  · rw [keys_filterKeys]
    exact h.nodup.filter _
  · intro key value hmem
    exact h.entry key value (List.mem_filter.1 hmem).1

variable [BEq κ] [LawfulBEq κ]

/-- A value that is found is that of an entry. -/
lemma mem_of_get? {key : κ} {value : β} (h : map.get? key = some value) :
    (key, value) ∈ map.entries := by
  obtain ⟨front, back, heq, -⟩ := List.lookup_eq_some_iff.1 h
  rw [heq]
  simp

/-- What holds of every entry holds of the value that is found. -/
lemma Holds.get? (h : map.Holds p) {key : κ} {value : β} (hget : map.get? key = some value) :
    p key value := h.entry key value (mem_of_get? hget)

/-- What holds of every entry holds after an update that keeps it at its key. -/
lemma Holds.update (h : map.Holds p) {key : κ} {f : Option β → β}
    (hf : ∀ value?, (∀ value ∈ value?, p key value) → p key (f value?)) :
    (map.update key f).Holds p := by
  have hnodup := nodup_keys_update h.nodup key f
  refine ⟨hnodup, fun other value hmem => ?_⟩
  have hget := get?_eq_some hnodup hmem
  rw [get?_update] at hget
  by_cases hkey : other = key
  · subst hkey
    obtain rfl : f (map.get? other) = value := by simpa using hget
    apply hf
    intro value hvalue
    exact h.get? hvalue
  · apply h.get?
    simpa [hkey] using hget

end OrderedMap

/-! ## Related maps -/

namespace OrderedMap

variable {κ β γ δ : Type} {r s : β → γ → Prop}

/-- Two maps have the same keys in the same order, and related values. -/
def Related (r : β → γ → Prop) (first : OrderedMap κ β) (second : OrderedMap κ γ) : Prop :=
  List.Forall₂ (fun entry other => entry.1 = other.1 ∧ r entry.2 other.2) first.entries
    second.entries

/-- Related values that may be missing are related once a related value stands in for both. -/
lemma rel_getD {value? : Option β} {other? : Option γ} (h : Option.Rel r value? other?) {value : β}
    {other : γ} (hnone : r value other) : r (value?.getD value) (other?.getD other) := by
  cases h with
  | none => exact hnone
  | some hsome => exact hsome

/-- Empty maps are related. -/
lemma related_empty : Related r (empty : OrderedMap κ β) empty := .nil

/-- Related maps are related by every weaker relation. -/
lemma Related.mono {first : OrderedMap κ β} {second : OrderedMap κ γ} (h : first.Related r second)
    (hrs : ∀ value other, r value other → s value other) : first.Related s second :=
  h.imp fun _ _ ⟨hkey, hvalue⟩ => ⟨hkey, hrs _ _ hvalue⟩

/-- Two changes of one map are related if the changed values are. -/
lemma related_mapValues {f : γ → β} {g : γ → δ} {r : β → δ → Prop} (map : OrderedMap κ γ)
    (h : ∀ value, r (f value) (g value)) : (map.mapValues f).Related r (map.mapValues g) := by
  obtain ⟨entries⟩ := map
  show List.Forall₂ _ (entries.map _) (entries.map _)
  rw [List.forall₂_map_left_iff, List.forall₂_map_right_iff, List.forall₂_same]
  exact fun entry _ => ⟨rfl, h entry.2⟩

variable [BEq κ]

/-- Related maps stay related by updates that relate the values at their key. -/
lemma Related.update {first : OrderedMap κ β} {second : OrderedMap κ γ} (h : first.Related r second)
    (key : κ) {f : Option β → β} {g : Option γ → γ}
    (hfg : ∀ value? other?, Option.Rel r value? other? → r (f value?) (g other?)) :
    (first.update key f).Related r (second.update key g) := by
  obtain ⟨entries⟩ := first
  obtain ⟨others⟩ := second
  change List.Forall₂ _ entries others at h
  show List.Forall₂ _ (updateEntries key f entries) (updateEntries key g others)
  induction h with
  | nil => exact .cons ⟨rfl, hfg _ _ .none⟩ .nil
  | @cons entry other entries others hhead htail ih =>
    obtain ⟨known, value⟩ := entry
    obtain ⟨known', value'⟩ := other
    obtain ⟨hkey, hvalue⟩ := hhead
    change known = known' at hkey
    subst hkey
    simp only [updateEntries]
    split
    · exact .cons ⟨rfl, hfg _ _ (.some hvalue)⟩ htail
    · exact .cons ⟨rfl, hvalue⟩ ih

variable [LawfulBEq κ]

/-- Related maps have related values at each key, or none. -/
lemma Related.get? {first : OrderedMap κ β} {second : OrderedMap κ γ} (h : first.Related r second)
    (key : κ) : Option.Rel r (first.get? key) (second.get? key) := by
  obtain ⟨entries⟩ := first
  obtain ⟨others⟩ := second
  change List.Forall₂ _ entries others at h
  show Option.Rel r (entries.lookup key) (others.lookup key)
  induction h with
  | nil => exact .none
  | @cons entry other entries others hhead htail ih =>
    obtain ⟨known, value⟩ := entry
    obtain ⟨known', value'⟩ := other
    obtain ⟨hkey, hvalue⟩ := hhead
    change known = known' at hkey
    subst hkey
    rw [lookup_cons_pair, lookup_cons_pair]
    split
    · exact .some hvalue
    · exact ih

/-- An update is the insertion of what it makes of the present value. -/
lemma update_eq_insert (key : κ) (f : Option β → β) (map : OrderedMap κ β) :
    map.update key f = map.insert key (f (map.get? key)) := by
  obtain ⟨entries⟩ := map
  show mk (updateEntries key f entries) =
    mk (updateEntries key (fun _ => f (entries.lookup key)) entries)
  congr 1
  induction entries with
  | nil => rfl
  | cons entry entries ih =>
    obtain ⟨known, value⟩ := entry
    rw [updateEntries, updateEntries, lookup_cons_pair]
    by_cases h : known = key
    · simp [h]
    · have h' : ¬ key = known := fun e => h e.symm
      simp [h, h', ih]

end OrderedMap

end CssPrune
