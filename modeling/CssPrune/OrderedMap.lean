/-!
# Ordered maps

Maps that keep their keys in the order in which they were first inserted. `entries` is the whole
of a map, so an order law is a statement about lists.
-/

namespace CssPrune

/-- A map as the list of its entries, in the order of their first insertion. -/
structure OrderedMap (κ : Type) (β : Type) where
  entries : List (κ × β) := []
  deriving DecidableEq, Repr

namespace OrderedMap

variable {κ β γ : Type}

/-- The map without entries. -/
def empty : OrderedMap κ β := ⟨[]⟩

/-- The keys, in the order of their first insertion. -/
def keys (map : OrderedMap κ β) : List κ :=
  map.entries.map (·.1)

/-- The values, in the order of their keys. -/
def values (map : OrderedMap κ β) : List β :=
  map.entries.map (·.2)

/-- Whether there is no entry. -/
def isEmpty (map : OrderedMap κ β) : Bool :=
  map.entries.isEmpty

/-- The number of entries. -/
def size (map : OrderedMap κ β) : Nat :=
  map.entries.length

/-- Changes every value and leaves the keys in place. -/
def mapValues (f : β → γ) (map : OrderedMap κ β) : OrderedMap κ γ :=
  ⟨map.entries.map fun (key, value) => (key, f value)⟩

/-- Keeps the entries whose key satisfies `p`, in order. -/
def filterKeys (p : κ → Bool) (map : OrderedMap κ β) : OrderedMap κ β :=
  ⟨map.entries.filter fun (key, _) => p key⟩

/-- Changed values leave the keys in place. -/
@[simp]
theorem keys_mapValues (f : β → γ) (map : OrderedMap κ β) : (map.mapValues f).keys = map.keys := by
  simp [keys, mapValues, Function.comp_def]

/-- A filter by keys keeps the keys that satisfy it, in order. -/
@[simp]
theorem keys_filterKeys (p : κ → Bool) (map : OrderedMap κ β) :
    (map.filterKeys p).keys = map.keys.filter p := by
  simp [keys, filterKeys, List.filter_map, Function.comp_def]

variable [BEq κ]

/-- The value of a key. -/
def get? (key : κ) (map : OrderedMap κ β) : Option β :=
  map.entries.lookup key

/-- Replaces the value of a key in place, or adds the key as the last one of the list. -/
@[specialize]
def updateEntries (key : κ) (f : Option β → β) : List (κ × β) → List (κ × β)
  | [] => [(key, f none)]
  | (other, value) :: rest =>
    if other == key then (other, f (some value)) :: rest
    else (other, value) :: updateEntries key f rest

/-- Gives a key the value that `f` makes of its present one: in place if the key is there, else
last. -/
@[specialize]
def update (key : κ) (f : Option β → β) (map : OrderedMap κ β) : OrderedMap κ β :=
  ⟨updateEntries key f map.entries⟩

/-- Gives a key a value: in place if the key is there, else last. -/
def insert (key : κ) (value : β) (map : OrderedMap κ β) : OrderedMap κ β :=
  map.update key fun _ => value

variable [LawfulBEq κ]

/-- An update adds its key at the end if it is not there yet. -/
theorem map_fst_updateEntries (key : κ) (f : Option β → β) (entries : List (κ × β)) :
    (updateEntries key f entries).map (·.1) =
      if key ∈ entries.map (·.1) then entries.map (·.1) else entries.map (·.1) ++ [key] := by
  induction entries with
  | nil => simp [updateEntries]
  | cons entry entries ih =>
    obtain ⟨other, value⟩ := entry
    by_cases h : other = key
    · simp [updateEntries, h]
    · have h' : ¬ key = other := fun e => h e.symm
      simp only [updateEntries, beq_iff_eq, h, if_false, List.map_cons, ih, List.mem_cons, h',
        false_or]
      split <;> simp

/-- A new key comes last, and a known one keeps its place. -/
theorem keys_update (key : κ) (f : Option β → β) (map : OrderedMap κ β) :
    (map.update key f).keys = if key ∈ map.keys then map.keys else map.keys ++ [key] :=
  map_fst_updateEntries key f map.entries

/-- A look-up stops at the first entry with its key. -/
theorem lookup_cons_pair (key other : κ) (value : β) (entries : List (κ × β)) :
    ((key, value) :: entries).lookup other =
      if other == key then some value else entries.lookup other := by
  by_cases h : other = key
  · simp [h]
  · have : (other == key) = false := by simpa using h
    simp [List.lookup_cons, this]

/-- An update shows at its key and at no other one. -/
theorem lookup_updateEntries (key other : κ) (f : Option β → β) (entries : List (κ × β)) :
    (updateEntries key f entries).lookup other =
      if other == key then some (f (entries.lookup key)) else entries.lookup other := by
  induction entries with
  | nil => simp [updateEntries, lookup_cons_pair]
  | cons entry entries ih =>
    obtain ⟨known, value⟩ := entry
    by_cases hk : known = key
    · subst hk
      simp only [updateEntries, beq_self_eq_true, if_true, lookup_cons_pair]
      split <;> rfl
    · have hk' : ¬ key = known := fun e => hk e.symm
      simp only [updateEntries, beq_iff_eq, hk, if_false, lookup_cons_pair, ih, hk']
      by_cases h : other = key
      · subst h
        simp [hk']
      · simp [h]

/-- An update shows at its key alone. -/
theorem get?_update (key other : κ) (f : Option β → β) (map : OrderedMap κ β) :
    (map.update key f).get? other =
      if other == key then some (f (map.get? key)) else map.get? other :=
  lookup_updateEntries key other f map.entries

/-- A look-up in a map with changed values gives the changed value. -/
theorem get?_mapValues (f : β → γ) (key : κ) (map : OrderedMap κ β) :
    (map.mapValues f).get? key = (map.get? key).map f := by
  obtain ⟨entries⟩ := map
  simp only [get?, mapValues]
  induction entries with
  | nil => rfl
  | cons entry entries ih =>
    obtain ⟨known, value⟩ := entry
    simp only [List.map_cons, lookup_cons_pair, ih]
    split <;> rfl

/-- A look-up in a filtered map finds the keys that satisfy the filter. -/
theorem get?_filterKeys (p : κ → Bool) (key : κ) (map : OrderedMap κ β) :
    (map.filterKeys p).get? key = if p key then map.get? key else none := by
  obtain ⟨entries⟩ := map
  simp only [get?, filterKeys]
  induction entries with
  | nil => simp
  | cons entry entries ih =>
    obtain ⟨known, value⟩ := entry
    simp only [List.filter_cons, lookup_cons_pair]
    by_cases hp : p known = true
    · simp only [hp, if_true, lookup_cons_pair, ih]
      by_cases h : key = known
      · simp [h, hp]
      · simp [h]
    · rw [if_neg hp, ih]
      by_cases h : key = known
      · simp [h, hp]
      · simp [h]

end OrderedMap

end CssPrune
