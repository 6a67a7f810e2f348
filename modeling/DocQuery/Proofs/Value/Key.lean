import DocQuery.Proofs.Number.Numeral
import DocQuery.Proofs.Row
import DocQuery.Proofs.Text.Quoted
import DocQuery.Proofs.Value.Order

/-!
# Keys tell values apart exactly as equality does

The key of a value is the compact text of its document. The first character says the type:
a quote for texts, a sign or a digit for numbers, a letter for the others. Within a type
the rest is one to one up to equality: numbers are read back, and quoting is injective.

* `key_eq_iff` — two values have one key iff they are equal, if their numbers are finite;
* `key_eq_iff_of_keyable` — the same of values other than null that a store can hold;
* `map_key_inj_of_intercalate` — keys with bars between them can be told apart, also where
  there are bars in texts;
* `key_tells_apart` — keys follow equality, and no text has the key of a value of another type.
-/

namespace DocQuery

namespace Number

theorem isFinite_of_toInt? {x : Number} {n : Int} (h : x.toInt? = some n) :
    x.isFinite = true :=
  (toInt?_eq_some h).1

/-- Numbers of one rank are the same, or both zero. -/
theorem eq_or_zero_of_rank_eq {x y : Number} (h : x.rank = y.rank) :
    x = y ∨ x.magnitude = 0 ∧ y.magnitude = 0 := by
  obtain ⟨nx, mx, hx⟩ := x
  obtain ⟨ny, my, hy⟩ := y
  simp only [rank] at h
  cases nx <;> cases ny <;> simp at h ⊢ <;> omega

end Number

namespace Value

variable {v w : Value} {x y : Number}

-- ── Keys by type ────────────────────────────────────────────────────────────

@[simp] theorem key_text (s : String) : (text s).key = Text.quote s :=
  rfl

/-- The key of a finite number writes the number, up to the sign of zero. -/
theorem writes_key_number (hx : x.isFinite = true) :
    ∃ y, Number.Writes (number x).key y ∧ y.rank = x.rank := by
  rw [key, toDocument]
  cases hn : x.toInt? with
  | some n => exact Number.writes_toString hn
  | none =>
      refine ⟨x, ?_, rfl⟩
      simp only [hx, if_true, Document.render]
      exact Number.writes_finiteText hx

/-- Infinity and what is no number have the key of null. -/
theorem key_number_of_not_isFinite (hx : x.isFinite = false) : (number x).key = "null" := by
  have hn : x.toInt? = none := by
    cases hn : x.toInt? with
    | none => rfl
    | some n => rw [Number.isFinite_of_toInt? hn] at hx; exact nomatch hx
  rw [key, toDocument, hn]
  simp only [hx, Bool.false_eq_true, if_false]
  rfl

/-- The first character of a key. -/
def keyHead (v : Value) : Option Char :=
  v.key.toList.head?

theorem keyHead_text (s : String) : (text s).keyHead = some '"' := by
  rw [keyHead, key_text, Text.quote, String.toList_ofList]
  rfl

/-- The key of a number opens with a sign or a digit. -/
theorem keyHead_number (hx : x.isFinite = true) :
    (number x).keyHead = some '-' ∨ ∃ c, (number x).keyHead = some c ∧ c.isDigit = true := by
  obtain ⟨y, hwrites, -⟩ := writes_key_number hx
  obtain ⟨c, rest, hlist, hc⟩ := hwrites.head
  rw [keyHead, hlist]
  rcases hc with rfl | hc
  · exact Or.inl rfl
  · exact Or.inr ⟨c, rfl, hc⟩

/-- No key of another type begins like the key of a finite number. -/
theorem keyHead_number_ne (hx : x.isFinite = true) {c : Char} (hc : c.isDigit = false)
    (hm : c ≠ '-') : (number x).keyHead ≠ some c := by
  intro h
  rcases keyHead_number hx with hhead | ⟨d, hhead, hd⟩
  · rw [h] at hhead
    exact hm (Option.some.inj hhead)
  · rw [h] at hhead
    rw [Option.some.inj hhead, hd] at hc
    exact nomatch hc

-- ── Equal keys ──────────────────────────────────────────────────────────────

/-- Finite numbers with one key have one rank. -/
theorem rank_eq_of_key_eq (hx : x.isFinite = true) (hy : y.isFinite = true)
    (h : (number x).key = (number y).key) : x.rank = y.rank := by
  obtain ⟨x', hwx, hrx⟩ := writes_key_number hx
  obtain ⟨y', hwy, hry⟩ := writes_key_number hy
  have hread := hwx.ofText?_eq
  rw [h, hwy.ofText?_eq] at hread
  rw [← hrx, ← hry, Option.some.inj hread]

/-- Both zeros have one key. -/
theorem key_of_magnitude_eq_zero (h : x.magnitude = 0) : (number x).key = "0" := by
  have hboth : ∀ b, (number (Number.ofMagnitude b 0)).key = "0" := by decide +kernel
  have hx : x = Number.ofMagnitude x.negative 0 := by
    cases x
    simp_all [Number.ofMagnitude]
  rw [hx]
  exact hboth x.negative

/-- Numbers of one rank have one key. -/
theorem key_eq_of_rank_eq (h : x.rank = y.rank) : (number x).key = (number y).key := by
  rcases Number.eq_or_zero_of_rank_eq h with rfl | ⟨hx, hy⟩
  · rfl
  · rw [key_of_magnitude_eq_zero hx, key_of_magnitude_eq_zero hy]

/-- Values that are equal have one key, whatever their numbers. -/
theorem key_eq_of_equal (h : v.equal w = true) : v.key = w.key := by
  rcases equal_iff.mp h with ⟨_, rfl⟩ | ⟨x, y, rfl, rfl, hxy⟩
  · rfl
  · exact key_eq_of_rank_eq (Number.equal_iff.mp hxy).2.2

/-- The numbers of the value are finite. -/
def IsFinite (v : Value) : Prop :=
  ∀ x, v = number x → x.isFinite = true

/-- Finite values of one key are equal. -/
theorem equal_of_key_eq (hv : v.IsFinite) (hw : w.IsFinite) (h : v.key = w.key) :
    v.equal w = true := by
  have hhead : v.keyHead = w.keyHead := by rw [keyHead, keyHead, h]
  cases v with
  | null =>
      cases w with
      | null => rfl
      | boolean b => cases b <;> exact nomatch hhead
      | number y => exact absurd hhead.symm (keyHead_number_ne (hw y rfl) rfl (by decide))
      | text t => rw [keyHead_text] at hhead; exact nomatch hhead
  | boolean a =>
      cases w with
      | null => cases a <;> exact nomatch hhead
      | boolean b => cases a <;> cases b <;> first | rfl | exact nomatch hhead
      | number y =>
          cases a <;> exact absurd hhead.symm (keyHead_number_ne (hw y rfl) rfl (by decide))
      | text t => rw [keyHead_text] at hhead; cases a <;> exact nomatch hhead
  | number x =>
      have hx := hv x rfl
      cases w with
      | null => exact absurd hhead (keyHead_number_ne hx rfl (by decide))
      | boolean b => cases b <;> exact absurd hhead (keyHead_number_ne hx rfl (by decide))
      | number y =>
          refine Number.equal_iff.mpr ⟨Number.isNaN_of_isFinite hx,
            Number.isNaN_of_isFinite (hw y rfl), rank_eq_of_key_eq hx (hw y rfl) h⟩
      | text t =>
          rw [keyHead_text] at hhead
          exact absurd hhead (keyHead_number_ne hx rfl (by decide))
  | text s =>
      cases w with
      | null => rw [keyHead_text] at hhead; exact nomatch hhead
      | boolean b => rw [keyHead_text] at hhead; cases b <;> exact nomatch hhead
      | number y =>
          rw [keyHead_text] at hhead
          exact absurd hhead.symm (keyHead_number_ne (hw y rfl) rfl (by decide))
      | text t =>
          rw [key_text, key_text] at h
          exact beq_iff_eq.mpr (Text.quote_injective h)

/-- Two values whose numbers are finite have one key iff they are equal. -/
theorem key_eq_iff (hv : v.IsFinite) (hw : w.IsFinite) : v.key = w.key ↔ v.equal w = true :=
  ⟨equal_of_key_eq hv hw, key_eq_of_equal⟩

-- ── Values that a store can hold ────────────────────────────────────────────

/-- The numbers of the value are finite or, as only a creation time can be, infinite and
    positive. -/
def Keyable (v : Value) : Prop :=
  ∀ x, v = number x → x.isFinite = true ∨ x = Number.infinity false

/-- Every value but a number can be a key. -/
theorem Keyable.of_ne_number (h : v.number? = none) : Keyable v := by
  intro x hx
  rw [hx] at h
  exact nomatch h

/-- A number that can be a key is a number indeed. -/
theorem Keyable.isNaN (h : Keyable v) : ∀ x, v = number x → x.isNaN = false := by
  intro x hx
  rcases h x hx with hfin | rfl
  · exact Number.isNaN_of_isFinite hfin
  · exact Number.isNaN_ofMagnitude _ _

/-- The key of infinity is the one of null, so null is left out. -/
theorem key_ne_null (hv : v.IsFinite) (hn : v.isNull = false) : v.key ≠ "null" := by
  intro h
  have heq := equal_of_key_eq (w := null) hv (by intro x hx; exact nomatch hx) h
  rw [isNull_eq_of_equal heq] at hn
  exact nomatch hn

/-- Keyable values other than null have one key iff they are equal. -/
theorem key_eq_iff_of_keyable (hv : Keyable v) (hw : Keyable w) (hvn : v.isNull = false)
    (hwn : w.isNull = false) : v.key = w.key ↔ v.equal w = true := by
  refine ⟨?_, key_eq_of_equal⟩
  intro h
  have hcase : ∀ {u : Value}, Keyable u → u.IsFinite ∨ u = number (Number.infinity false) := by
    intro u hu
    by_cases hinf : u = number (Number.infinity false)
    · exact Or.inr hinf
    · refine Or.inl ?_
      rintro x rfl
      refine (hu x rfl).resolve_right ?_
      rintro rfl
      exact hinf rfl
  have hinfinite : (number (Number.infinity false)).key = "null" :=
    key_number_of_not_isFinite (by decide)
  rcases hcase hv with hvf | rfl
  · rcases hcase hw with hwf | rfl
    · exact equal_of_key_eq hvf hwf h
    · rw [hinfinite] at h
      exact absurd h (key_ne_null hvf hvn)
  · rcases hcase hw with hwf | rfl
    · rw [hinfinite] at h
      exact absurd h.symm (key_ne_null hwf hwn)
    · decide

-- ── Keys with bars between them ─────────────────────────────────────────────

/-- In the key of a value other than a text there is no bar and no quote. -/
theorem ne_of_mem_key (hv : ∀ s, v ≠ text s) : ∀ c ∈ v.key.toList, c ≠ '|' ∧ c ≠ '"' := by
  have hword : ∀ word : String, (word.toList.all fun c => c != '|' && c != '"') = true →
      ∀ c ∈ word.toList, c ≠ '|' ∧ c ≠ '"' := by
    intro word hall c hc
    simpa using List.all_eq_true.mp hall c hc
  cases v with
  | null => exact hword "null" (by decide)
  | boolean b =>
      cases b with
      | true => exact hword "true" (by decide)
      | false => exact hword "false" (by decide)
  | number x =>
      cases hx : x.isFinite with
      | true =>
          obtain ⟨y, hwrites, -⟩ := writes_key_number hx
          intro c hc
          rcases hwrites.isNumeralChar c hc with hdigit | hmem
          · constructor
            · rintro rfl
              exact nomatch hdigit
            · rintro rfl
              exact nomatch hdigit
          · constructor
            · rintro rfl
              exact absurd hmem (by decide)
            · rintro rfl
              exact absurd hmem (by decide)
      | false =>
          rw [key_number_of_not_isFinite hx]
          exact hword "null" (by decide)
  | text s => exact absurd rfl (hv s)

/-- The key of a text is no front of another key, even with others behind both. -/
theorem key_text_append_ne {s : String} (hw : ∀ t, w ≠ text t) (r r' : List Char) :
    (text s).key.toList ++ r ≠ w.key.toList ++ '|' :: r' := by
  intro h
  rw [key_text, Text.quote, String.toList_ofList, List.cons_append] at h
  cases hkey : w.key.toList with
  | nil =>
      rw [hkey] at h
      exact absurd (List.cons.inj h).1 (by decide)
  | cons c cs =>
      rw [hkey] at h
      have hc := ne_of_mem_key hw c (by rw [hkey]; exact List.mem_cons_self)
      exact hc.2 (List.cons.inj h).1.symm

/-- A key can be told from what follows it, if that begins with a bar. -/
theorem key_append_inj {r r' : List Char}
    (h : v.key.toList ++ '|' :: r = w.key.toList ++ '|' :: r') : v.key = w.key ∧ r = r' := by
  by_cases hv : ∃ s, v = text s
  · obtain ⟨s, rfl⟩ := hv
    by_cases hw : ∃ t, w = text t
    · obtain ⟨t, rfl⟩ := hw
      rw [key_text, key_text] at h
      obtain ⟨rfl, hrest⟩ := Text.quote_append_inj h
      exact ⟨rfl, (List.cons.inj hrest).2⟩
    · exact absurd h (key_text_append_ne (not_exists.mp hw) _ _)
  · by_cases hw : ∃ t, w = text t
    · obtain ⟨t, rfl⟩ := hw
      exact absurd h.symm (key_text_append_ne (not_exists.mp hv) _ _)
    · have hbar : ∀ {u : Value}, (¬ ∃ s, u = text s) → '|' ∉ u.key.toList :=
        fun hu hmem => (ne_of_mem_key (not_exists.mp hu) _ hmem).1 rfl
      obtain ⟨hkeys, hrest⟩ := append_cons_inj_of_not_mem (hbar hv) (hbar hw) h
      exact ⟨String.toList_injective hkeys, hrest⟩

/-- As many keys, with bars between them, are told apart. -/
theorem map_key_inj_of_intercalate {vs ws : List Value} (hlength : vs.length = ws.length)
    (h : "|".intercalate (vs.map key) = "|".intercalate (ws.map key)) :
    vs.map key = ws.map key := by
  -- with a bar after the last key as well, every key is followed by one
  have hbars : ∀ us : List Value, us ≠ [] → ("|".intercalate (us.map key)).toList ++ ['|']
      = us.flatMap fun u => u.key.toList ++ ['|'] := by
    intro us
    induction us with
    | nil => exact fun hne => absurd rfl hne
    | cons u us ih =>
        intro _
        cases us with
        | nil => simp
        | cons u' us =>
            have hrest := ih (List.cons_ne_nil _ _)
            rw [List.map_cons] at hrest
            rw [List.map_cons, List.map_cons, String.intercalate_cons_cons, List.flatMap_cons,
              ← hrest]
            simp
  have hflat : ∀ us us' : List Value, (us.flatMap fun u => u.key.toList ++ ['|'])
      = (us'.flatMap fun u => u.key.toList ++ ['|']) → us.map key = us'.map key := by
    intro us
    induction us with
    | nil =>
        intro us' heq
        cases us' with
        | nil => rfl
        | cons u' us' => simp at heq
    | cons u us ih =>
        intro us' heq
        cases us' with
        | nil => simp at heq
        | cons u' us' =>
            rw [List.flatMap_cons, List.flatMap_cons, List.append_assoc, List.append_assoc] at heq
            obtain ⟨hkey, hrest⟩ := key_append_inj heq
            rw [List.map_cons, List.map_cons, hkey, ih us' hrest]
  by_cases hvs : vs = []
  · subst hvs
    rw [List.eq_nil_of_length_eq_zero hlength.symm]
  · have hws : ws ≠ [] := by
      rintro rfl
      exact hvs (List.eq_nil_of_length_eq_zero hlength)
    refine hflat vs ws ?_
    rw [← hbars vs hvs, ← hbars ws hws, h]

-- ── Texts and other values ──────────────────────────────────────────────────

/-- No text has the key of a value of another type: that key has no quote in it. -/
theorem key_text_ne (hw : ∀ t, w ≠ text t) (s : String) : (text s).key ≠ w.key := by
  intro h
  have hquote : '"' ∈ w.key.toList := by
    rw [← h, key_text, Text.quote, String.toList_ofList]
    exact List.mem_cons_self
  exact (ne_of_mem_key hw _ hquote).2 rfl

/-- **Keys are faithful.** Two values whose numbers are finite have one key if and only if they are
    equal; and whatever a text spells, it does not share the key of a number, a truth value or
    null. -/
theorem key_tells_apart (hv : v.IsFinite) (hw : w.IsFinite) :
    (v.key = w.key ↔ v.equal w = true) ∧
      ∀ s, (∀ t, w ≠ text t) → (text s).key ≠ w.key :=
  ⟨key_eq_iff hv hw, fun s hother => key_text_ne hother s⟩

/-- The last number that is written as an integer and the first that is not. -/
theorem key_tells_apart_sample :
    (number (.ofNat 0x1fffffffffffff)).key = "9007199254740991" ∧
      (number (.ofNat 0x20000000000000)).key = "9007199254740992.0" ∧
      (number (.ofNat 0x1fffffffffffff)).key ≠ (number (.ofNat 0x20000000000000)).key ∧
      (text "9007199254740992.0").key ≠ (number (.ofNat 0x20000000000000)).key := by
  have hbelow : (number (.ofNat 0x1fffffffffffff)).IsFinite := by
    rintro x ⟨⟩
    decide +kernel
  have hbound : (number (.ofNat 0x20000000000000)).IsFinite := by
    rintro x ⟨⟩
    decide +kernel
  obtain ⟨hequal, htexts⟩ := key_tells_apart hbelow hbound
  refine ⟨by decide +kernel, by decide +kernel, ?_, htexts _ fun t ht => nomatch ht⟩
  intro hkey
  exact absurd (hequal.mp hkey) (by decide +kernel)

end Value

end DocQuery
