import DocQuery.Text.Quoted
import Mathlib.Data.Char

/-!
# Quoting is one to one

The escapes of characters are a prefix code: the escape of one character never begins the
escape of another. So a quoted text can be split into characters in one way only.

* `escapeChar_append_inj` — the first character and what follows its escape are determined;
* `quote_append_inj` — a quoted text can be told from what follows it;
* `quote_injective` — different texts have different quoted texts.
-/

namespace DocQuery.Text

/-- The characters that do not stand for themselves between quotes. -/
def escapedChars : List Char :=
  '"' :: '\\' :: (List.range 32).map Char.ofNat

/-- A character is its own escape unless it is one of those escaped. -/
theorem escapeChar_of_not_mem {c : Char} (h : c ∉ escapedChars) : escapeChar c = [c] := by
  have hcontrol : ¬ c.toNat < 0x20 := by
    intro hlt
    refine h (List.mem_cons_of_mem _ (List.mem_cons_of_mem _ ?_))
    exact List.mem_map.mpr ⟨c.toNat, List.mem_range.mpr hlt, Char.ofNat_toNat c⟩
  have hsub : (['"', '\\', '\x08', '\x0c', '\n', '\r', '\t'].all
      fun d => escapedChars.contains d) = true := by decide
  have hne : ∀ d ∈ ['"', '\\', '\x08', '\x0c', '\n', '\r', '\t'], c ≠ d := by
    intro d hd heq
    refine h ?_
    rw [heq]
    exact List.contains_iff_mem.mp (List.all_eq_true.mp hsub d hd)
  simp only [List.mem_cons, List.not_mem_nil, or_false, forall_eq_or_imp, forall_eq] at hne
  obtain ⟨h₁, h₂, h₃, h₄, h₅, h₆, h₇⟩ := hne
  simp only [escapeChar, if_neg h₁, if_neg h₂, if_neg h₃, if_neg h₄, if_neg h₅, if_neg h₆,
    if_neg h₇, if_neg hcontrol]

/-- The escapes are a prefix code on the characters that are escaped. -/
theorem eq_of_prefix_of_mem :
    ∀ c ∈ escapedChars, ∀ d ∈ escapedChars, escapeChar c <+: escapeChar d → c = d := by
  have hall : (escapedChars.all fun c => escapedChars.all fun d =>
      decide (escapeChar c <+: escapeChar d → c = d)) = true := by decide +kernel
  intro c hc d hd
  exact of_decide_eq_true (List.all_eq_true.mp (List.all_eq_true.mp hall c hc) d hd)

/-- An escape opens with a backslash. -/
theorem head_of_mem : ∀ c ∈ escapedChars, (escapeChar c).head? = some '\\' := by
  have hall : (escapedChars.all fun c => (escapeChar c).head? == some '\\') = true := by
    decide +kernel
  intro c hc
  exact beq_iff_eq.mp (List.all_eq_true.mp hall c hc)

/-- What is escaped first, and what follows it, can be told from the text. -/
theorem escapeChar_append_inj {c d : Char} {r s : List Char}
    (h : escapeChar c ++ r = escapeChar d ++ s) : c = d ∧ r = s := by
  have hheads : ∀ e ∈ escapedChars, ∀ f, f ∉ escapedChars → ∀ r s,
      escapeChar e ++ r ≠ escapeChar f ++ s := by
    intro e he f hf r s heq
    have hhead := congrArg List.head? heq
    rw [List.head?_append, head_of_mem e he, escapeChar_of_not_mem hf] at hhead
    refine hf ?_
    have hfe : '\\' = f := Option.some.inj hhead
    rw [← hfe]
    decide
  have hcd : c = d := by
    by_cases hc : c ∈ escapedChars
    · by_cases hd : d ∈ escapedChars
      · rcases List.append_eq_append_iff.mp h with ⟨t, ht, -⟩ | ⟨t, ht, -⟩
        · exact eq_of_prefix_of_mem c hc d hd ⟨t, ht.symm⟩
        · exact (eq_of_prefix_of_mem d hd c hc ⟨t, ht.symm⟩).symm
      · exact absurd h (hheads c hc d hd r s)
    · by_cases hd : d ∈ escapedChars
      · exact absurd h.symm (hheads d hd c hc s r)
      · rw [escapeChar_of_not_mem hc, escapeChar_of_not_mem hd] at h
        exact (List.cons.inj h).1
  subst hcd
  exact ⟨rfl, List.append_cancel_left h⟩

/-- No escape begins with a quote. -/
theorem escapeChar_append_ne_quote (c : Char) (r s : List Char) :
    escapeChar c ++ r ≠ '"' :: s := by
  intro h
  by_cases hc : c ∈ escapedChars
  · have hhead := congrArg List.head? h
    rw [List.head?_append, head_of_mem c hc] at hhead
    exact nomatch hhead
  · rw [escapeChar_of_not_mem hc] at h
    refine hc ?_
    rw [(List.cons.inj h).1]
    decide

/-- An escaped text is read back up to its quote, by induction on the text. -/
theorem flatMap_escapeChar_append_inj {cs ds r s : List Char}
    (h : cs.flatMap escapeChar ++ '"' :: r = ds.flatMap escapeChar ++ '"' :: s) :
    cs = ds ∧ r = s := by
  induction cs generalizing ds with
  | nil =>
      cases ds with
      | nil => exact ⟨rfl, (List.cons.inj h).2⟩
      | cons d ds =>
          rw [List.flatMap_nil, List.nil_append, List.flatMap_cons, List.append_assoc] at h
          exact absurd h.symm (escapeChar_append_ne_quote d _ _)
  | cons c cs ih =>
      cases ds with
      | nil =>
          rw [List.flatMap_nil, List.nil_append, List.flatMap_cons, List.append_assoc] at h
          exact absurd h (escapeChar_append_ne_quote c _ _)
      | cons d ds =>
          rw [List.flatMap_cons, List.flatMap_cons, List.append_assoc, List.append_assoc] at h
          obtain ⟨rfl, hrest⟩ := escapeChar_append_inj h
          obtain ⟨rfl, htail⟩ := ih hrest
          exact ⟨rfl, htail⟩

/-- The end of a quoted text can be told, whatever follows it. -/
theorem quote_append_inj {s t : String} {r r' : List Char}
    (h : (quote s).toList ++ r = (quote t).toList ++ r') : s = t ∧ r = r' := by
  rw [quote, quote, String.toList_ofList, String.toList_ofList, List.cons_append,
    List.cons_append, List.cons_append, List.cons_append, List.append_assoc,
    List.append_assoc] at h
  obtain ⟨hchars, hrest⟩ := flatMap_escapeChar_append_inj (List.cons.inj h).2
  exact ⟨String.toList_injective hchars, hrest⟩

/-- Different texts have different quoted texts. -/
theorem quote_injective : Function.Injective quote := by
  intro s t h
  have hends : (quote s).toList ++ [] = (quote t).toList ++ [] := by rw [h]
  exact (quote_append_inj hends).1

end DocQuery.Text
