import DocQuery.Keyed
import Mathlib.Data.List.Induction
import Mathlib.Data.List.Nodup
import Mathlib.Data.List.Perm.Basic

/-!
# What keyed collections hold

The view of a keyed collection is `get?`. Here each way of building one is read through
that view: writing many entries, renaming keys, collecting items under their keys, and
keeping the first item of each key. The last two are what hash tables of rows and lists of
distinct values are made of.

What is collected under keys are the `classes` of the items (`values_collect`): the items of each
key in their order, the classes in order of first appearance, every item in just one of them
(`flatten_classes_perm`).
-/

namespace DocQuery.Keyed

variable {α β : Type}

-- ── Entries ─────────────────────────────────────────────────────────────────

theorem mem_of_findEntry {l : List (String × α)} {key : String} {v : α}
    (h : findEntry key l = some v) : (key, v) ∈ l := by
  induction l with
  | nil => exact nomatch h
  | cons e rest ih =>
      obtain ⟨k, w⟩ := e
      by_cases hkey : k = key
      · simp only [findEntry, hkey, if_true, Option.some.injEq] at h
        rw [hkey, h]
        exact List.mem_cons_self
      · simp only [findEntry, hkey, if_false] at h
        exact List.mem_cons_of_mem _ (ih h)

/-- Where no key occurs twice, an entry is found if it is there. -/
theorem findEntry_eq_some_iff {l : List (String × α)} (h : (l.map Prod.fst).Nodup)
    {key : String} {v : α} : findEntry key l = some v ↔ (key, v) ∈ l := by
  refine ⟨mem_of_findEntry, ?_⟩
  intro hmem
  induction l with
  | nil => exact nomatch hmem
  | cons e rest ih =>
      obtain ⟨k, w⟩ := e
      rw [List.map_cons, List.nodup_cons] at h
      obtain ⟨hk, hrest⟩ := h
      rcases List.mem_cons.mp hmem with heq | htail
      · cases heq
        simp [findEntry]
      · have hne : k ≠ key := by
          intro heq
          refine hk ?_
          rw [heq]
          exact List.mem_map.mpr ⟨(key, v), htail, rfl⟩
        rw [findEntry, if_neg hne]
        exact ih hrest htail

/-- The first of two lists is searched first. -/
theorem findEntry_append (key : String) (l₁ l₂ : List (String × α)) :
    findEntry key (l₁ ++ l₂) = (findEntry key l₁).or (findEntry key l₂) := by
  induction l₁ with
  | nil => rfl
  | cons e rest ih =>
      obtain ⟨k, w⟩ := e
      by_cases hkey : k = key
      · simp [findEntry, hkey]
      · simp [findEntry, hkey, ih]

/-- Where no key is there twice, the first entry of a key is its last one. -/
theorem findEntry_reverse {l : List (String × α)} (h : (l.map Prod.fst).Nodup)
    (key : String) : findEntry key l.reverse = findEntry key l := by
  have hr : (l.reverse.map Prod.fst).Nodup := by
    rw [List.map_reverse]
    exact List.nodup_reverse.mpr h
  refine Option.ext fun v => ?_
  rw [findEntry_eq_some_iff hr, findEntry_eq_some_iff h, List.mem_reverse]

/-- Renaming keys without making two of them one, and changing the values. -/
theorem findEntry_map {name : String → String} (hname : Function.Injective name) (f : α → β)
    (key : String) (l : List (String × α)) :
    findEntry (name key) (l.map fun e => (name e.1, f e.2)) = (findEntry key l).map f := by
  induction l with
  | nil => rfl
  | cons e rest ih =>
      obtain ⟨k, w⟩ := e
      by_cases hkey : k = key
      · simp [findEntry, hkey]
      · have hne : name k ≠ name key := fun heq => hkey (hname heq)
        simp only [List.map_cons, findEntry, hkey, hne, if_false, ih]

-- ── The view ────────────────────────────────────────────────────────────────

theorem get?_eq_some_iff {m : Keyed α} {key : String} {v : α} :
    m.get? key = some v ↔ (key, v) ∈ m.entries :=
  findEntry_eq_some_iff m.nodup

/-- The values are what the keys have. -/
theorem mem_values_iff {m : Keyed α} {v : α} : v ∈ m.values ↔ ∃ key, m.get? key = some v := by
  constructor
  · intro h
    obtain ⟨⟨key, w⟩, hmem, rfl⟩ := List.mem_map.mp h
    exact ⟨key, get?_eq_some_iff.mpr hmem⟩
  · rintro ⟨key, h⟩
    exact List.mem_map.mpr ⟨(key, v), get?_eq_some_iff.mp h, rfl⟩

@[simp] theorem get?_map (f : α → β) (m : Keyed α) (key : String) :
    (m.map f).get? key = (m.get? key).map f :=
  findEntry_map Function.injective_id f key m.entries

-- ── Writing many entries ────────────────────────────────────────────────────

/-- Of entries written one after the other, the last one of a key is what remains. -/
theorem get?_insertAll (m : Keyed α) (l : List (String × α)) (key : String) :
    (m.insertAll l).get? key = (findEntry key l.reverse).or (m.get? key) := by
  induction l generalizing m with
  | nil => rfl
  | cons e rest ih =>
      obtain ⟨k, v⟩ := e
      have hstep : m.insertAll ((k, v) :: rest) = (m.insert k v).insertAll rest := rfl
      rw [hstep, ih, List.reverse_cons, findEntry_append, get?_insert, Option.or_assoc]
      by_cases hkey : k = key <;> simp [findEntry, hkey]

/-- Writing a whole collection: its keys are overwritten, the others stay. -/
theorem get?_insertAll_entries (m n : Keyed α) (key : String) :
    (m.insertAll n.entries).get? key = (n.get? key).or (m.get? key) := by
  rw [get?_insertAll, findEntry_reverse n.nodup]
  rfl

theorem get?_ofList (l : List (String × α)) (key : String) :
    (ofList l).get? key = findEntry key l.reverse := by
  rw [ofList, get?_insertAll, get?_empty, Option.or_none]

theorem not_mem_of_findEntry_eq_none {l : List (String × α)} {key : String}
    (h : findEntry key l = none) (v : α) : (key, v) ∉ l := by
  induction l with
  | nil => exact List.not_mem_nil
  | cons e rest ih =>
      obtain ⟨k, w⟩ := e
      by_cases hkey : k = key
      · rw [findEntry, if_pos hkey] at h
        cases h
      · rw [findEntry, if_neg hkey] at h
        intro hmem
        rcases List.mem_cons.mp hmem with heq | hrest
        · exact hkey (Prod.mk.inj heq).1.symm
        · exact ih h hrest

/-- A new key is entered at the end. -/
theorem alterEntries_of_not_mem {key : String} {l : List (String × α)} (h : key ∉ l.map Prod.fst)
    (f : Option α → α) : alterEntries key f l = l ++ [(key, f none)] := by
  induction l with
  | nil => rfl
  | cons e rest ih =>
      obtain ⟨k, v⟩ := e
      rw [List.map_cons, List.mem_cons, not_or] at h
      rw [alterEntries, if_neg (Ne.symm h.1), ih h.2, List.cons_append]

/-- Entries under new keys come last, in their order. -/
theorem entries_insertAll {m : Keyed α} {l : List (String × α)}
    (h : ((m.entries ++ l).map Prod.fst).Nodup) : (m.insertAll l).entries = m.entries ++ l := by
  induction l generalizing m with
  | nil => exact (List.append_nil _).symm
  | cons e rest ih =>
      obtain ⟨k, v⟩ := e
      have hnew : k ∉ m.entries.map Prod.fst := by
        rw [List.map_append, List.nodup_append] at h
        exact fun hmem => h.2.2 k hmem k List.mem_cons_self rfl
      have hstep : (m.insert k v).entries = m.entries ++ [(k, v)] :=
        alterEntries_of_not_mem hnew _
      have hmore := ih (m := m.insert k v) (by rwa [hstep, List.append_assoc])
      rw [hstep, List.append_assoc] at hmore
      exact hmore

theorem entries_ofList {l : List (String × α)} (h : (l.map Prod.fst).Nodup) :
    (ofList l).entries = l :=
  entries_insertAll (m := empty) h

/-- The entries determine the map. -/
theorem eq_of_entries_eq {m n : Keyed α} (h : m.entries = n.entries) : m = n := by
  cases m
  cases n
  cases h
  rfl

/-- A collection is made of its own entries. -/
theorem ofList_entries (m : Keyed α) : ofList m.entries = m :=
  eq_of_entries_eq (entries_ofList m.nodup)

/-- A key reads what is written under it last, if that is one value. -/
theorem get?_ofList_append (before : List (String × α)) {l : List (String × α)} {key : String}
    {v : α} (hmem : (key, v) ∈ l) (hone : ∀ w, (key, w) ∈ l → w = v) :
    (ofList (before ++ l)).get? key = some v := by
  rw [get?_ofList, List.reverse_append, findEntry_append]
  cases hfind : findEntry key l.reverse with
  | none => exact absurd (List.mem_reverse.mpr hmem) (not_mem_of_findEntry_eq_none hfind v)
  | some w =>
      rw [hone w (List.mem_reverse.mp (mem_of_findEntry hfind))]
      rfl

/-- What is written later under other keys does not matter. -/
theorem get?_ofList_append_of_not_mem (before : List (String × α)) {l : List (String × α)}
    {key : String} (h : ∀ w, (key, w) ∉ l) :
    (ofList (before ++ l)).get? key = (ofList before).get? key := by
  rw [get?_ofList, get?_ofList, List.reverse_append, findEntry_append]
  cases hfind : findEntry key l.reverse with
  | none => exact Option.none_or
  | some w => exact absurd (List.mem_reverse.mp (mem_of_findEntry hfind)) (h w)

/-- Of items written under their keys the last one of a key is read. -/
theorem get?_ofList_map (key : β → String) (value : β → α) (items : List β) (k : String) :
    (ofList (items.map fun x => (key x, value x))).get? k
      = (items.reverse.find? fun x => key x == k).map value := by
  rw [get?_ofList, ← List.map_reverse]
  induction items.reverse with
  | nil => rfl
  | cons x rest ih =>
      rw [List.map_cons, findEntry, List.find?_cons]
      by_cases hk : key x = k
      · rw [if_pos hk, beq_iff_eq.mpr hk]
        rfl
      · rw [if_neg hk, beq_eq_false_iff_ne.mpr hk]
        exact ih

-- ── Collecting under keys ───────────────────────────────────────────────────

/-- Steps that each add their item under its key collect the items with the key, in their
    order. -/
theorem getD_get?_foldl {key? : β → Option String}
    {step : Keyed (List β) → β → Keyed (List β)}
    (hstep : ∀ m x k, ((step m x).get? k).getD []
      = (m.get? k).getD [] ++ [x].filter fun y => key? y == some k)
    (items : List β) (m : Keyed (List β)) (key : String) :
    ((items.foldl step m).get? key).getD []
      = (m.get? key).getD [] ++ items.filter fun y => key? y == some key := by
  induction items generalizing m with
  | nil => exact (List.append_nil _).symm
  | cons x rest ih =>
      rw [List.foldl_cons, ih, hstep, List.append_assoc, ← List.filter_append,
        List.singleton_append]

/-- Under each key the items with that key are collected, in their order. -/
theorem getD_get?_collect (key? : β → Option String) (items : List β) (key : String) :
    ((collect key? items).get? key).getD [] = items.filter fun x => key? x == some key := by
  refine getD_get?_foldl ?_ items empty key
  intro m x k
  cases hx : key? x with
  | none => simp [hx]
  | some kx =>
      simp only [get?_alter]
      by_cases hk : kx = k
      · subst hk
        simp [hx]
      · simp [hx, hk]

/-- What each step keeps true of every value is true of every value in the end. -/
theorem forall_get?_foldl {P : α → Prop} {step : Keyed α → β → Keyed α}
    (hstep : ∀ m x, (∀ k v, m.get? k = some v → P v) → ∀ k v, (step m x).get? k = some v → P v)
    (items : List β) {m : Keyed α} (hm : ∀ k v, m.get? k = some v → P v) :
    ∀ k v, (items.foldl step m).get? k = some v → P v := by
  induction items generalizing m with
  | nil => exact hm
  | cons x rest ih => exact ih (hstep m x hm)

/-- Nothing is collected under a key without an item. -/
theorem ne_nil_of_mem_values_collect {key? : β → Option String} {items : List β}
    {collected : List β} (h : collected ∈ (collect key? items).values) : collected ≠ [] := by
  obtain ⟨key, hkey⟩ := mem_values_iff.mp h
  have hempty : ∀ k v, (empty : Keyed (List β)).get? k = some v → v ≠ [] := by
    intro k v hv
    rw [get?_empty] at hv
    exact nomatch hv
  refine forall_get?_foldl ?_ items hempty key collected hkey
  intro m x hm k v hv
  cases hx : key? x with
  | none =>
      simp only [hx] at hv
      exact hm k v hv
  | some kx =>
      simp only [hx, get?_alter] at hv
      split at hv
      · rw [← Option.some.inj hv]
        exact List.append_ne_nil_of_right_ne_nil _ (List.cons_ne_nil _ _)
      · exact hm k v hv

-- ── The first item of each key ──────────────────────────────────────────────

/-- What is known of a collection of first items: each entry stands under its own key, is
    one of the items, and stands for all items of that key. -/
structure Firsts (key : β → String) (items : List β) (m : Keyed β) : Prop where
  own : ∀ k x, m.get? k = some x → key x = k
  mem : ∀ k x, m.get? k = some x → x ∈ items
  all : ∀ x ∈ items, ∃ y, m.get? (key x) = some y

/-- The items found first for their keys are those, by induction on the items. -/
theorem firsts_spec (key : β → String) (items : List β) : Firsts key items (firsts key items) := by
  suffices h : ∀ (done : List β) (m : Keyed β), Firsts key done m →
      Firsts key (done ++ items)
        (items.foldl (fun m x => m.alter (key x) fun first => first.getD x) m) by
    refine h [] empty ⟨?_, ?_, ?_⟩
    · intro k x hx
      exact nomatch hx
    · intro k x hx
      exact nomatch hx
    · intro x hx
      exact nomatch hx
  induction items with
  | nil =>
      intro done m hm
      rw [List.append_nil]
      exact hm
  | cons x rest ih =>
      intro done m hm
      have happ : done ++ x :: rest = (done ++ [x]) ++ rest := by simp
      rw [List.foldl_cons, happ]
      refine ih (done ++ [x]) _ ⟨?_, ?_, ?_⟩
      · intro k y hy
        rw [get?_alter] at hy
        by_cases hk : key x = k
        · rw [if_pos hk, Option.some.injEq] at hy
          cases hx : m.get? (key x) with
          | none => rw [hx, Option.getD_none] at hy; rw [← hy]; exact hk
          | some z =>
              rw [hx, Option.getD_some] at hy
              rw [← hy, hm.own _ _ hx]
              exact hk
        · rw [if_neg hk] at hy
          exact hm.own k y hy
      · intro k y hy
        rw [get?_alter] at hy
        by_cases hk : key x = k
        · rw [if_pos hk, Option.some.injEq] at hy
          cases hx : m.get? (key x) with
          | none => rw [hx, Option.getD_none] at hy; simp [← hy]
          | some z =>
              rw [hx, Option.getD_some] at hy
              rw [← hy]
              exact List.mem_append_left _ (hm.mem _ _ hx)
        · rw [if_neg hk] at hy
          exact List.mem_append_left _ (hm.mem k y hy)
      · intro y hy
        rw [get?_alter]
        by_cases hk : key x = key y
        · rw [if_pos hk]
          exact ⟨_, rfl⟩
        · rw [if_neg hk]
          rcases List.mem_append.mp hy with hdone | hx
          · exact hm.all y hdone
          · rw [List.mem_singleton.mp hx] at hk
            exact absurd rfl hk

/-- The first items have pairwise different keys. -/
theorem nodup_keys_firsts (key : β → String) (items : List β) :
    ((firsts key items).values.map key).Nodup := by
  have hspec := firsts_spec key items
  have hkeys : (firsts key items).values.map key = (firsts key items).keys := by
    rw [values, keys, List.map_map]
    refine List.map_congr_left ?_
    rintro ⟨k, x⟩ hmem
    exact hspec.own k x (get?_eq_some_iff.mpr hmem)
  rw [hkeys]
  exact keys_nodup _

theorem mem_of_mem_firsts {key : β → String} {items : List β} {x : β}
    (h : x ∈ (firsts key items).values) : x ∈ items := by
  obtain ⟨k, hk⟩ := mem_values_iff.mp h
  exact (firsts_spec key items).mem k x hk

/-- Every item has a first item of its key. -/
theorem exists_mem_firsts {key : β → String} {items : List β} {x : β} (h : x ∈ items) :
    ∃ y ∈ (firsts key items).values, key y = key x := by
  obtain ⟨y, hy⟩ := (firsts_spec key items).all x h
  exact ⟨y, mem_values_iff.mpr ⟨_, hy⟩, (firsts_spec key items).own _ _ hy⟩

-- ── The classes of items ────────────────────────────────────────────────────

/-- To alter an entry adds its key at the end, if it is new. -/
theorem keys_alter (m : Keyed α) (key : String) (f : Option α → α) :
    (m.alter key f).keys = if key ∈ m.keys then m.keys else m.keys ++ [key] := by
  show (alterEntries key f m.entries).map Prod.fst
    = if key ∈ m.entries.map Prod.fst then m.entries.map Prod.fst
      else m.entries.map Prod.fst ++ [key]
  induction m.entries with
  | nil => rfl
  | cons e rest ih =>
      obtain ⟨k, v⟩ := e
      by_cases hk : k = key
      · rw [alterEntries, if_pos hk, List.map_cons, List.map_cons,
          if_pos (List.mem_cons.mpr (Or.inl hk.symm))]
      · rw [alterEntries, if_neg hk, List.map_cons, List.map_cons, ih]
        by_cases hmem : key ∈ rest.map Prod.fst
        · rw [if_pos hmem, if_pos (List.mem_cons_of_mem _ hmem)]
        · have hnot : key ∉ k :: rest.map Prod.fst := by
            rw [List.mem_cons, not_or]
            exact ⟨Ne.symm hk, hmem⟩
          rw [if_neg hmem, if_neg hnot]
          rfl

/-- Keys that are written one after the other come in order of first appearance. -/
theorem keys_foldl_alter (key : β → String) (f : β → Option α → α) (items : List β) :
    (items.foldl (fun m x => m.alter (key x) (f x)) empty).keys = (items.map key).eraseDups := by
  induction items using List.reverseRecOn with
  | nil => rfl
  | append_singleton items x ih =>
      rw [List.foldl_append, List.foldl_cons, List.foldl_nil, keys_alter, ih, List.map_append,
        List.eraseDups_append]
      by_cases hmem : key x ∈ items.map key
      · have hnone : [key x].removeAll (items.map key) = [] := by
          rw [List.removeAll, List.filter_cons_of_neg (by simpa using hmem), List.filter_nil]
        rw [if_pos (List.mem_eraseDups.mpr hmem), List.map_singleton, hnone]
        exact (List.append_nil _).symm
      · have hone : [key x].removeAll (items.map key) = [key x] := by
          rw [List.removeAll, List.filter_cons_of_pos (by simpa using hmem), List.filter_nil]
        rw [if_neg fun h => hmem (List.mem_eraseDups.mp h), List.map_singleton, hone]
        rfl

/-- The keys under which items are collected come in order of first appearance. -/
theorem keys_collect (key : β → String) (items : List β) :
    (collect (fun x => some (key x)) items).keys = (items.map key).eraseDups :=
  keys_foldl_alter key (fun x collected => collected.getD [] ++ [x]) items

/-- The keys of a list of entries are in the order of their first occurrence. -/
theorem keys_ofList (l : List (String × α)) : (ofList l).keys = (l.map Prod.fst).eraseDups :=
  keys_foldl_alter Prod.fst (fun e _ => e.2) l

theorem eraseDups_of_nodup {keys : List String} (h : keys.Nodup) : keys.eraseDups = keys := by
  induction keys with
  | nil => rfl
  | cons k rest ih =>
      obtain ⟨hk, hrest⟩ := List.nodup_cons.mp h
      have hkeep : (rest.filter fun b => !b == k) = rest := by
        refine List.filter_eq_self.mpr ?_
        intro b hb
        rw [Bool.not_eq_true', beq_eq_false_iff_ne]
        rintro rfl
        exact hk hb
      rw [List.eraseDups_cons, hkeep, ih hrest]

/-- The values in order are those of the keys in order. -/
theorem values_eq_map_keys (m : Keyed (List β)) :
    m.values = m.keys.map fun k => (m.get? k).getD [] := by
  rw [values, keys, List.map_map]
  refine List.map_congr_left ?_
  rintro ⟨k, v⟩ hmem
  have hget : m.get? k = some v := get?_eq_some_iff.mpr hmem
  show v = (m.get? k).getD []
  rw [hget]
  rfl

/-- Items are classed by a key: the items of each key in their order, the classes in order of
    first appearance. -/
def classes (key : β → String) (items : List β) : List (List β) :=
  (items.eraseDupsBy fun x y => key x == key y).map fun x => items.filter fun y => key y == key x

/-- What holds of no items, and of items if it holds of any selection of those after the first,
    holds of all items. -/
theorem induction_filter {P : List β → Prop} (nil : P [])
    (cons : ∀ x rest, (∀ p : β → Bool, P (rest.filter p)) → P (x :: rest)) (items : List β) :
    P items := by
  suffices h : ∀ n, ∀ items : List β, items.length ≤ n → P items from h _ items (Nat.le_refl _)
  intro n
  induction n with
  | zero =>
      intro items hn
      rw [List.eq_nil_of_length_eq_zero (Nat.le_zero.mp hn)]
      exact nil
  | succ n ih =>
      intro items hn
      cases items with
      | nil => exact nil
      | cons x rest =>
          refine cons x rest fun p => ih _ ?_
          exact Nat.le_trans (List.length_filter_le p rest) (Nat.le_of_succ_le_succ hn)

theorem eraseDupsBy_sublist (r : β → β → Bool) (items : List β) :
    (items.eraseDupsBy r).Sublist items := by
  induction items using induction_filter with
  | nil => exact List.Sublist.refl _
  | cons y rest ih =>
      rw [List.eraseDupsBy_cons]
      exact ((ih _).trans List.filter_sublist).cons_cons y

theorem mem_of_mem_eraseDupsBy {r : β → β → Bool} {items : List β} {x : β}
    (h : x ∈ items.eraseDupsBy r) : x ∈ items :=
  (eraseDupsBy_sublist r items).subset h

/-- What remains are no duplicates of what comes before them. -/
theorem pairwise_eraseDupsBy (r : β → β → Bool) (items : List β) :
    (items.eraseDupsBy r).Pairwise fun x y => r y x = false := by
  induction items using induction_filter with
  | nil => exact List.Pairwise.nil
  | cons y rest ih =>
      rw [List.eraseDupsBy_cons]
      refine List.Pairwise.cons ?_ (ih _)
      intro x hx
      exact of_decide_eq_true (List.mem_filter.mp (mem_of_mem_eraseDupsBy hx)).2

/-- What is a duplicate needs to be said of the items only. -/
theorem eraseDupsBy_congr {r r' : β → β → Bool} {items : List β}
    (h : ∀ x ∈ items, ∀ y ∈ items, r x y = r' x y) :
    items.eraseDupsBy r = items.eraseDupsBy r' := by
  induction items using induction_filter with
  | nil => rfl
  | cons y rest ih =>
      have hrest : (rest.filter fun x => decide (r x y = false))
          = rest.filter fun x => decide (r' x y = false) := by
        refine List.filter_congr ?_
        intro x hx
        rw [h x (List.mem_cons_of_mem _ hx) y List.mem_cons_self]
      rw [List.eraseDupsBy_cons, List.eraseDupsBy_cons, hrest]
      refine congrArg (y :: ·) (ih _ ?_)
      intro x hx z hz
      exact h x (List.mem_cons_of_mem _ (List.mem_of_mem_filter hx)) z
        (List.mem_cons_of_mem _ (List.mem_of_mem_filter hz))

/-- Items that are kept for their keys have different keys. -/
theorem nodup_keys_eraseDupsBy (key : β → String) (items : List β) :
    ((items.eraseDupsBy fun x y => key x == key y).map key).Nodup := by
  refine List.pairwise_map.mpr ((pairwise_eraseDupsBy _ items).imp ?_)
  intro x y hne heq
  rw [heq, beq_self_eq_true] at hne
  exact nomatch hne

/-- The keys of the items that are left are the distinct keys. -/
theorem map_eraseDupsBy (key : β → String) (items : List β) :
    (items.eraseDupsBy fun x y => key x == key y).map key = (items.map key).eraseDups := by
  induction items using induction_filter with
  | nil => rfl
  | cons y rest ih =>
      have hrest : (rest.filter fun x => decide ((key x == key y) = false)).map key
          = (rest.map key).filter fun k => !k == key y := by
        rw [List.filter_map]
        refine congrArg (List.map key) (List.filter_congr ?_)
        intro x _
        cases hx : key x == key y <;> simp [hx]
      rw [List.eraseDupsBy_cons, List.map_cons, List.map_cons, List.eraseDups_cons, ← hrest]
      exact congrArg (key y :: ·) (ih _)

/-- What is collected under keys are the classes of the items. -/
theorem values_collect (key : β → String) (items : List β) :
    (collect (fun x => some (key x)) items).values = classes key items := by
  rw [values_eq_map_keys, keys_collect, ← map_eraseDupsBy, List.map_map, classes]
  refine List.map_congr_left ?_
  intro x _
  show ((collect (fun x => some (key x)) items).get? (key x)).getD [] = _
  rw [getD_get?_collect]
  refine List.filter_congr ?_
  intro y _
  exact Option.some_beq_some

/-- Leaving out one class leaves the others. -/
theorem filter_class_cons {key : β → String} {x y : β} (hne : key y ≠ key x) (rest : List β) :
    (x :: rest).filter (fun z => key z == key y)
      = (rest.filter fun z => decide ((key z == key x) = false)).filter
          fun z => key z == key y := by
  have hx : ¬(key x == key y) = true := fun h => hne (beq_iff_eq.mp h).symm
  rw [List.filter_cons, if_neg hx, List.filter_filter]
  refine List.filter_congr ?_
  intro z _
  by_cases hz : key z = key y
  · simp [hz, hne]
  · simp [hz]

theorem key_ne_of_mem_eraseDupsBy {key : β → String} {r : β → β → Bool} {x y : β} {rest : List β}
    (h : y ∈ (rest.filter fun z => decide ((key z == key x) = false)).eraseDupsBy r) :
    key y ≠ key x := by
  simpa using (List.mem_filter.mp (mem_of_mem_eraseDupsBy h)).2

/-- The first class is that of the first item, and the others are those of the rest. -/
theorem classes_cons (key : β → String) (x : β) (rest : List β) :
    classes key (x :: rest) = (x :: rest.filter fun y => key y == key x)
      :: classes key (rest.filter fun y => !key y == key x) := by
  have hrest : (rest.filter fun y => decide ((key y == key x) = false))
      = rest.filter fun y => !key y == key x := by
    refine List.filter_congr ?_
    intro y _
    cases key y == key x <;> rfl
  have hx : (x :: rest).filter (fun y => key y == key x)
      = x :: rest.filter fun y => key y == key x := List.filter_cons_of_pos (beq_self_eq_true _)
  rw [classes, List.eraseDupsBy_cons, List.map_cons, hx, ← hrest]
  refine congrArg (_ :: ·) (List.map_congr_left ?_)
  intro y hy
  exact filter_class_cons (key_ne_of_mem_eraseDupsBy hy) rest

/-- An item that is kept for its class comes first in it. -/
theorem head?_class {key : β → String} {items : List β} {x : β}
    (h : x ∈ items.eraseDupsBy fun x y => key x == key y) :
    (items.filter fun y => key y == key x).head? = some x := by
  induction items using induction_filter with
  | nil => exact nomatch h
  | cons y rest ih =>
      rw [List.eraseDupsBy_cons] at h
      rcases List.mem_cons.mp h with rfl | h
      · rw [List.filter_cons, if_pos (beq_self_eq_true _)]
        rfl
      · rw [filter_class_cons (key_ne_of_mem_eraseDupsBy h)]
        exact ih _ h

/-- A relation that holds of items just when they have one key makes the same classes. -/
theorem classes_eq_of_beq {key : β → String} {r : β → β → Bool} {items : List β}
    (h : ∀ x ∈ items, ∀ y ∈ items, (key x == key y) = r x y) :
    classes key items = (items.eraseDupsBy r).map fun x => items.filter fun y => r y x := by
  rw [classes, eraseDupsBy_congr h]
  refine List.map_congr_left ?_
  intro x hx
  refine List.filter_congr ?_
  intro y hy
  exact h y hy x (mem_of_mem_eraseDupsBy hx)

/-- Every item is in one class. -/
theorem flatten_classes_perm (key : β → String) (items : List β) :
    (classes key items).flatten.Perm items := by
  induction items using induction_filter with
  | nil => exact List.Perm.refl _
  | cons x rest ih =>
      rw [classes_cons, List.flatten_cons, List.cons_append]
      exact List.Perm.cons x (((ih _).append_left _).trans (List.filter_append_perm _ _))

/-- Every item has one key with just one of the items that are kept for their keys. -/
theorem existsUnique_mem_eraseDupsBy (key : β → String) {items : List β} {x : β} (h : x ∈ items) :
    ∃! y, y ∈ (items.eraseDupsBy fun x y => key x == key y) ∧ key x = key y := by
  have hmem := (flatten_classes_perm key items).mem_iff.mpr h
  obtain ⟨collected, hcollected, hx⟩ := List.mem_flatten.mp hmem
  obtain ⟨y, hy, rfl⟩ := List.mem_map.mp hcollected
  have hkey := beq_iff_eq.mp (List.mem_filter.mp hx).2
  refine ⟨y, ⟨hy, hkey⟩, ?_⟩
  rintro z ⟨hz, hzkey⟩
  exact List.inj_on_of_nodup_map (nodup_keys_eraseDupsBy key items) hz hy (hzkey.symm.trans hkey)

end DocQuery.Keyed
