/-!
# Keyed collections — one entry per key, in order of first insertion

`Keyed α` maps texts to values and remembers the order in which the keys came. Rows,
tables, indexes and groups are all of this kind. The view is `get?`:

* `get?_insert` — after writing a key, that key reads the new value and no other changed;
* `get?_alter` — the same for a write that looks at the old value;
* `keys_nodup` — no key is there twice, by construction.
-/

namespace DocQuery

/-- Entries in order of first insertion, one for each key. -/
structure Keyed (α : Type) where
  entries : List (String × α)
  nodup : (entries.map Prod.fst).Nodup
  deriving DecidableEq

namespace Keyed

variable {α β : Type}

-- ── Reading ─────────────────────────────────────────────────────────────────

/-- No entries. -/
def empty : Keyed α :=
  ⟨[], List.nodup_nil⟩

instance : Inhabited (Keyed α) :=
  ⟨empty⟩

/-- The keys, in order of first insertion. -/
def keys (m : Keyed α) : List String :=
  m.entries.map Prod.fst

/-- The values, in the order of their keys. -/
def values (m : Keyed α) : List α :=
  m.entries.map Prod.snd

/-- The value of the first entry with the key. -/
def findEntry (key : String) : List (String × α) → Option α
  | [] => none
  | (k, v) :: rest => if k = key then some v else findEntry key rest

/-- The value under a key. -/
def get? (m : Keyed α) (key : String) : Option α :=
  findEntry key m.entries

/-- The key has a value. -/
def contains (m : Keyed α) (key : String) : Bool :=
  (m.get? key).isSome

theorem keys_nodup (m : Keyed α) : m.keys.Nodup :=
  m.nodup

-- ── Writing ─────────────────────────────────────────────────────────────────

/-- Entries with the value under `key` replaced by what `f` makes of it; a key that was
    missing comes last. -/
def alterEntries (key : String) (f : Option α → α) : List (String × α) → List (String × α)
  | [] => [(key, f none)]
  | (k, v) :: rest =>
    if k = key then (k, f (some v)) :: rest else (k, v) :: alterEntries key f rest

theorem mem_keys_alterEntries {key k : String} {f : Option α → α} {l : List (String × α)} :
    k ∈ (alterEntries key f l).map Prod.fst ↔ k = key ∨ k ∈ l.map Prod.fst := by
  induction l with
  | nil => simp [alterEntries]
  | cons e rest ih =>
    obtain ⟨k', v⟩ := e
    by_cases h : k' = key
    · simp only [alterEntries, h, if_true, List.map_cons, List.mem_cons]
      exact ⟨fun hk => Or.inr hk, fun hk => hk.elim Or.inl id⟩
    · simp only [alterEntries, h, if_false, List.map_cons, List.mem_cons, ih]
      exact ⟨fun hk => hk.elim (Or.inr ∘ Or.inl) (Or.imp id Or.inr),
        fun hk => hk.elim (Or.inr ∘ Or.inl) (Or.imp id Or.inr)⟩

theorem nodup_keys_alterEntries {key : String} {f : Option α → α} {l : List (String × α)}
    (h : (l.map Prod.fst).Nodup) : ((alterEntries key f l).map Prod.fst).Nodup := by
  induction l with
  | nil => simp [alterEntries]
  | cons e rest ih =>
    obtain ⟨k, v⟩ := e
    simp only [List.map_cons, List.nodup_cons] at h
    by_cases hk : k = key
    · simp only [alterEntries, hk, if_true, List.map_cons, List.nodup_cons]
      exact ⟨hk ▸ h.1, h.2⟩
    · simp only [alterEntries, hk, if_false, List.map_cons, List.nodup_cons]
      exact ⟨fun hm => (mem_keys_alterEntries.mp hm).elim hk h.1, ih h.2⟩

/-- Replace the value under `key` by what `f` makes of it, `none` standing for a missing
    one. -/
def alter (m : Keyed α) (key : String) (f : Option α → α) : Keyed α :=
  ⟨alterEntries key f m.entries, nodup_keys_alterEntries m.nodup⟩

/-- Write a value under a key. -/
def insert (m : Keyed α) (key : String) (value : α) : Keyed α :=
  m.alter key fun _ => value

/-- Write the entries one after the other; a later one wins over an earlier one. -/
def insertAll (m : Keyed α) (entries : List (String × α)) : Keyed α :=
  entries.foldl (fun m e => m.insert e.1 e.2) m

/-- The collection that holds the entries, a later one winning over an earlier one. -/
def ofList (entries : List (String × α)) : Keyed α :=
  empty.insertAll entries

/-- The items collected under the keys that are made of them, in their order; an item
    without a key is dropped. -/
def collect (key? : β → Option String) (items : List β) : Keyed (List β) :=
  items.foldl (fun m x =>
    match key? x with
    | some key => m.alter key fun collected => collected.getD [] ++ [x]
    | none => m) empty

/-- The first item under each of the keys that are made of them. -/
def firsts (key : β → String) (items : List β) : Keyed β :=
  items.foldl (fun m x => m.alter (key x) fun first => first.getD x) empty

/-- The same keys with other values. -/
def map (f : α → β) (m : Keyed α) : Keyed β :=
  ⟨m.entries.map fun e => (e.1, f e.2), by
    simpa [List.map_map, Function.comp_def] using m.nodup⟩

-- ── Laws ────────────────────────────────────────────────────────────────────

@[simp] theorem get?_empty (key : String) : (empty : Keyed α).get? key = none :=
  rfl

theorem findEntry_alterEntries (key k : String) (f : Option α → α) (l : List (String × α)) :
    findEntry k (alterEntries key f l)
      = if key = k then some (f (findEntry key l)) else findEntry k l := by
  induction l with
  | nil => by_cases h : key = k <;> simp [alterEntries, findEntry, h]
  | cons e rest ih =>
    obtain ⟨k', v⟩ := e
    by_cases h : k' = key <;> by_cases hk : key = k <;> by_cases hk' : k' = k <;>
      simp_all [alterEntries, findEntry]

theorem get?_alter (m : Keyed α) (key k : String) (f : Option α → α) :
    (m.alter key f).get? k = if key = k then some (f (m.get? key)) else m.get? k :=
  findEntry_alterEntries key k f m.entries

theorem get?_insert (m : Keyed α) (key k : String) (value : α) :
    (m.insert key value).get? k = if key = k then some value else m.get? k :=
  get?_alter m key k _

end Keyed

end DocQuery
