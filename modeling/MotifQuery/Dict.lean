/-!
# `MotifQuery.Dict`: finite maps with string keys in ascending order

A `Dict` lists its entries by strictly ascending key, so two dictionaries with the same
entries are equal and every listing of one comes in key order. `insert` overrides,
`get?` looks up, `merge` lets the second dictionary win.
-/

set_option autoImplicit false

namespace MotifQuery

/-- The entries come by strictly ascending key. -/
def Ascending {α : Type} (entries : List (String × α)) : Prop :=
  entries.Pairwise fun a b => a.1 < b.1

/-- Puts `value` at `key`, keeping the order of the entries. -/
def insertEntry {α : Type} (key : String) (value : α) :
    List (String × α) → List (String × α)
  | [] => [(key, value)]
  | entry :: rest =>
    if key < entry.1 then (key, value) :: entry :: rest
    else if key = entry.1 then (key, value) :: rest
    else entry :: insertEntry key value rest

/-- The value at `key` in a list of entries. -/
def lookupEntry {α : Type} (key : String) : List (String × α) → Option α
  | [] => none
  | entry :: rest => if key = entry.1 then some entry.2 else lookupEntry key rest

theorem mem_insertEntry {α : Type} {key : String} {value : α} {entry : String × α}
    {entries : List (String × α)} (h : entry ∈ insertEntry key value entries) :
    entry = (key, value) ∨ entry ∈ entries := by
  induction entries with
  | nil => simpa [insertEntry] using h
  | cons first rest ih =>
    rw [insertEntry] at h
    split at h
    · simpa using h
    · split at h
      · rcases List.mem_cons.1 h with h | h
        · exact .inl h
        · exact .inr (List.mem_cons_of_mem _ h)
      · rcases List.mem_cons.1 h with h | h
        · exact .inr (h ▸ List.mem_cons_self)
        · rcases ih h with h | h
          · exact .inl h
          · exact .inr (List.mem_cons_of_mem _ h)

/-- Insertion keeps the entries in ascending order. -/
theorem Ascending.insertEntry {α : Type} {entries : List (String × α)}
    (h : Ascending entries) (key : String) (value : α) :
    Ascending (insertEntry key value entries) := by
  induction entries with
  | nil => simp [MotifQuery.insertEntry, Ascending]
  | cons first rest ih =>
    have hrest := List.pairwise_cons.1 h
    rw [MotifQuery.insertEntry]
    split
    · next hlt =>
      refine List.pairwise_cons.2 ⟨fun entry hmem => ?_, h⟩
      rcases List.mem_cons.1 hmem with rfl | hmem
      · exact hlt
      · exact String.lt_trans hlt (hrest.1 _ hmem)
    · next hnlt =>
      split
      · next heq => exact List.pairwise_cons.2 ⟨fun entry hmem => heq ▸ hrest.1 _ hmem, hrest.2⟩
      · next hne =>
        refine List.pairwise_cons.2 ⟨fun entry hmem => ?_, ih hrest.2⟩
        rcases mem_insertEntry hmem with rfl | hmem
        · exact Decidable.byContradiction fun hn =>
            hne (String.le_antisymm (String.not_lt.1 hn) (String.not_lt.1 hnlt))
        · exact hrest.1 _ hmem

/-- A finite map from strings, listed in key order. -/
structure Dict (α : Type) where
  /-- The entries, by ascending key. -/
  entries : List (String × α)
  ascending : Ascending entries
deriving DecidableEq

namespace Dict

variable {α β : Type}

/-- The dictionary without entries. -/
def empty : Dict α := ⟨[], List.Pairwise.nil⟩

instance : EmptyCollection (Dict α) := ⟨empty⟩

instance : Inhabited (Dict α) := ⟨empty⟩

/-- Puts `value` at `key`, overriding what was there. -/
def insert (d : Dict α) (key : String) (value : α) : Dict α :=
  ⟨insertEntry key value d.entries, d.ascending.insertEntry key value⟩

/-- The value at `key`. -/
def get? (d : Dict α) (key : String) : Option α :=
  lookupEntry key d.entries

/-- Is there a value at `key`? -/
def contains (d : Dict α) (key : String) : Bool :=
  (d.get? key).isSome

/-- Removes the entry at `key`. -/
def erase (d : Dict α) (key : String) : Dict α :=
  ⟨d.entries.filter fun entry => entry.1 != key, d.ascending.filter _⟩

/-- Keeps the entries that satisfy `keep`. -/
def filter (d : Dict α) (keep : String → α → Bool) : Dict α :=
  ⟨d.entries.filter fun entry => keep entry.1 entry.2, d.ascending.filter _⟩

/-- The keys in order. -/
def keys (d : Dict α) : List String :=
  d.entries.map Prod.fst

/-- The values by ascending key. -/
def values (d : Dict α) : List α :=
  d.entries.map Prod.snd

/-- Is the dictionary without entries? -/
def isEmpty (d : Dict α) : Bool :=
  d.entries.isEmpty

/-- The number of entries. -/
def size (d : Dict α) : Nat :=
  d.entries.length

/-- The dictionary of a list of entries; a later entry overrides an earlier one. -/
def ofList (entries : List (String × α)) : Dict α :=
  entries.foldl (fun d entry => d.insert entry.1 entry.2) empty

/-- Both dictionaries together; where both have a key the second wins. -/
def merge (d other : Dict α) : Dict α :=
  other.entries.foldl (fun d entry => d.insert entry.1 entry.2) d

/-- Applies `f` to the value at `key`, taking `default` where there is none. -/
def update (d : Dict α) (key : String) (default : α) (f : α → α) : Dict α :=
  d.insert key (f ((d.get? key).getD default))

/-- Applies `f` to every value. -/
def map (f : α → β) (d : Dict α) : Dict β :=
  ⟨d.entries.map fun entry => (entry.1, f entry.2), by
    rw [Ascending, List.pairwise_map]
    exact d.ascending⟩

end Dict

end MotifQuery
