import DocQuery.Proofs.Text.Case
import DocQuery.Proofs.Token.Exact

/-!
# Layout does not count

A text whose tokens are written back one after the other, with layout between any two, has the
same tokens. What spells a lexeme can depend on the text behind it, but blanks and comments end
every lexeme (`Respelled.spelled`); so the written text is cut where it was put together
(`Respaced.exists_cut`), and what is cut is read.

* `ofText_respaced` — every list of tokens that is read can be written back, and is read again
  from each text that writes it.
-/

namespace DocQuery

variable {c : Char} {cs rest gap : List Char}

-- ── Keywords ────────────────────────────────────────────────────────────────

namespace Text

/-- What has a capital letter as its upper case is ASCII. -/
theorem lt_of_isUpper_toUpper (h : c.toUpper.isUpper = true) : c.toNat < 0x80 := by
  by_cases hlower : 'a'.val ≤ c.val ∧ c.val ≤ 'z'.val
  · have hle : c.toNat ≤ 122 := hlower.2
    omega
  · have hself : c.toUpper = c := dif_neg hlower
    rw [hself] at h
    have hle : c.toNat ≤ 90 := (of_decide_eq_true h).2
    omega

/-- What has a capital letter as its upper case starts a word. -/
theorem startsWord_of_isUpper_toUpper (h : c.toUpper.isUpper = true) : startsWord c = true := by
  have hall : ∀ n < 0x80, (Char.ofNat n).toUpper.isUpper = true →
      startsWord (Char.ofNat n) = true := by
    decide +kernel
  have hascii := lt_of_isUpper_toUpper h
  rw [← Char.ofNat_toNat c] at h ⊢
  exact hall _ hascii h

/-- What becomes Latin capitals letter by letter has no other upper case. -/
theorem upper_ofList {letters : String} (hmap : cs.map Char.toUpper = letters.toList)
    (hletters : ∀ d ∈ letters.toList, d.isUpper = true) : upper (String.ofList cs) = letters := by
  have hsingle : ∀ c ∈ cs, upperChar c = [c.toUpper] := by
    intro c hc
    have hupper := hletters c.toUpper (hmap ▸ List.mem_map_of_mem hc)
    rw [upperChar, if_pos (lt_of_isUpper_toUpper hupper)]
  rw [upper, String.toList_ofList, List.flatMap_congr hsingle, ← List.map_eq_flatMap, hmap,
    String.ofList_toList]

end Text

namespace Token

theorem isUpper_of_mem_keywords :
    ∀ word ∈ keywords, word.toList ≠ [] ∧ word.toList.all Char.isUpper = true := by
  decide +kernel

/-- A keyword is spelled by its letters in any case. -/
theorem spelled_keyword {word : String} (hword : word ∈ keywords)
    (hmap : cs.map Char.toUpper = word.toList) (hrest : Stops Text.continuesWord rest) :
    Spelled .keyword word cs rest := by
  obtain ⟨hne, hletters⟩ := isUpper_of_mem_keywords word hword
  rw [List.all_eq_true] at hletters
  have hstart : ∀ d ∈ cs, Text.startsWord d = true := fun d hd =>
    Text.startsWord_of_isUpper_toUpper (hletters d.toUpper (hmap ▸ List.mem_map_of_mem hd))
  have hupper := Text.upper_ofList hmap hletters
  cases cs with
  | nil => exact absurd hmap.symm hne
  | cons c tail =>
      rw [← hupper] at hword ⊢
      exact .keyword (hstart c List.mem_cons_self)
        (fun d hd => Text.continuesWord_of_startsWord (hstart d (List.mem_cons_of_mem _ hd)))
        hrest hword

-- ── Written back ────────────────────────────────────────────────────────────

/-- A token of a kind and a text is written back: a keyword in any case, a string between two
    equal quotes that it does not contain, and any other token as its text. -/
inductive Respelled : TokenKind → String → List Char → Prop where
  | keyword {word : String} {cs : List Char} : cs.map Char.toUpper = word.toList →
      Respelled .keyword word cs
  | string {text : String} {quote : Char} : quote = '\'' ∨ quote = '"' →
      quote ∉ text.toList → Respelled .string text (quote :: text.toList ++ [quote])
  | plain {kind : TokenKind} {text : String} : kind ≠ .keyword → kind ≠ .string →
      Respelled kind text text.toList

/-- Tokens are written back one after the other, with layout behind each. Only behind the last
    one there may be none. -/
inductive Respaced : List Token → List Char → Prop where
  | nil : Respaced [] []
  | cons {t : Token} {ts : List Token} {cs gap rest : List Char} :
      Respelled t.kind t.text cs → Layout gap → (ts ≠ [] → gap ≠ []) → Respaced ts rest →
      Respaced (t :: ts) (cs ++ gap ++ rest)

/-- A token's kind and text. -/
def shape (t : Token) : TokenKind × String :=
  (t.kind, t.text)

-- ── Layout ends every lexeme ────────────────────────────────────────────────

/-- The text is at its end, or goes on with a blank or with a dash. -/
def Apart (rest : List Char) : Prop :=
  ∀ c ∈ rest.head?, Text.isBlank c = true ∨ c = '-'

/-- A gap that is not empty keeps tokens apart. -/
theorem Layout.apart (h : Layout gap) (hne : gap ≠ []) : Apart (gap ++ rest) := by
  cases h with
  | nil => exact absurd rfl hne
  | blank hblank _ =>
      intro c hc
      rw [← Option.some.inj hc]
      exact Or.inl hblank
  | comment _ _ =>
      intro c hc
      exact Or.inr (Option.some.inj hc).symm

/-- Layout that is not empty ends a word. -/
theorem Apart.stops_word (h : Apart rest) : Stops Text.continuesWord rest := by
  intro c hc
  rcases h c hc with hblank | rfl
  · exact Text.continuesWord_of_isBlank hblank
  · decide

/-- Layout that is not empty ends a number. -/
theorem Apart.numberEnds (h : Apart rest) (fraction : List Char) : NumberEnds fraction rest := by
  constructor
  · intro c hc
    rw [← Bool.not_eq_true]
    intro hdigit
    have hword := h.stops_word c hc
    rw [Text.continuesWord_of_isDigit hdigit] at hword
    exact nomatch hword
  · rintro - tail rfl
    exact absurd (h '.' rfl) (by decide)

/-- Layout that is not empty makes no sign a longer one. -/
theorem Apart.ne_longer (h : Apart rest) :
    ∀ d ∈ rest.head?, ∀ s ∈ signs, s.2.2 ≠ cs ++ [d] := by
  intro d hd s hs heq
  have hmem : d ∈ s.2.2 := by
    rw [heq]
    exact List.mem_append_right _ List.mem_cons_self
  obtain ⟨hblank, hdash, -⟩ := chars_of_mem_signs hs d hmem
  rcases h d hd with h | h
  · rw [hblank] at h
    exact nomatch h
  · exact hdash h

/-- A lexeme written back in front of layout is the same lexeme. -/
theorem Respelled.spelled {kind : TokenKind} {text : String} {spelling after : List Char}
    (h : Respelled kind text cs) (hspelled : Spelled kind text spelling after)
    (hrest : Apart rest) : Spelled kind text cs rest := by
  cases hspelled with
  | keyword _ _ _ hkey =>
      cases h with
      | keyword hmap => exact spelled_keyword hkey hmap hrest.stops_word
      | plain hkind _ => exact absurd rfl hkind
  | identifier hstart htail _ hkey =>
      cases h with
      | plain _ _ =>
          rw [String.toList_ofList]
          exact .identifier hstart htail hrest.stops_word hkey
  | @number _ _ fraction _ hsign hwhole hfraction _ =>
      cases h with
      | plain _ _ =>
          rw [String.toList_ofList]
          exact .number hsign hwhole hfraction (hrest.numberEnds fraction)
  | string _ _ =>
      cases h with
      | string hquote hbody =>
          rw [String.toList_ofList] at hbody ⊢
          exact .string hquote hbody
      | plain _ hkind => exact absurd rfl hkind
  | sign hmem _ =>
      have hall : ∀ s ∈ signs, s.1 ≠ .keyword ∧ s.1 ≠ .string ∧
          (s.1, s.2.1, s.2.1.toList) ∈ signs := by decide
      obtain ⟨hkeyword, hstring, hplain⟩ := hall _ hmem
      cases h with
      | keyword _ => exact absurd rfl hkeyword
      | string _ _ => exact absurd rfl hstring
      | plain _ _ => exact .sign hplain hrest.ne_longer

/-- Every lexeme can be written back: a string lacks the quote that closed it. -/
theorem Spelled.exists_respelled {kind : TokenKind} {text : String} {spelling after : List Char}
    (h : Spelled kind text spelling after) : ∃ cs, Respelled kind text cs := by
  cases h with
  | keyword _ _ _ hkey =>
      have hall : ∀ word ∈ keywords, word.toList.map Char.toUpper = word.toList := by
        decide +kernel
      exact ⟨_, .keyword (hall _ hkey)⟩
  | identifier _ _ _ _ | number _ _ _ _ =>
      exact ⟨_, .plain TokenKind.noConfusion TokenKind.noConfusion⟩
  | string hquote hbody =>
      refine ⟨_, .string hquote ?_⟩
      rw [String.toList_ofList]
      exact hbody
  | sign hmem _ =>
      have hall : ∀ s ∈ signs, s.1 ≠ .keyword ∧ s.1 ≠ .string := by decide
      obtain ⟨hkeyword, hstring⟩ := hall _ hmem
      exact ⟨_, .plain hkeyword hstring⟩

-- ── The text that is written ────────────────────────────────────────────────

section Respaced

variable {ts : List Token}

/-- The gap behind a token keeps it from the next one. -/
theorem Respaced.apart (h : Respaced ts rest) (hgap : Layout gap) (hne : ts ≠ [] → gap ≠ []) :
    Apart (gap ++ rest) := by
  cases h with
  | nil =>
      cases gap with
      | nil => exact fun c hc => nomatch hc
      | cons c gap => exact hgap.apart (List.cons_ne_nil _ _)
  | cons _ _ _ _ => exact hgap.apart (hne (List.cons_ne_nil _ _))

/-- What tokens are written back as is cut into these tokens. -/
theorem Respaced.exists_cut (h : Respaced ts cs)
    (hts : ∀ t ∈ ts, ∃ spelling after, Spelled t.kind t.text spelling after) (hgap : Layout gap)
    (position : Nat) : ∃ us start last, Cut position (gap ++ cs) us start last ∧
      LastLayout last ∧ us.map shape = ts.map shape := by
  induction h generalizing gap position with
  | nil =>
      rw [List.append_nil]
      exact ⟨[], position, gap, .nil, .layout hgap, rfl⟩
  | @cons t ts cs between rest hcs hbetween hne hrest ih =>
      obtain ⟨⟨spelling, after, hspelled⟩, hts⟩ := List.forall_mem_cons.mp hts
      obtain ⟨us, start, last, hcut, hlast, hshape⟩ :=
        ih hts hbetween (position + gap.length + cs.length)
      have hmore := Cut.token hgap (hcs.spelled hspelled (hrest.apart hbetween hne)) hcut
      rw [List.append_assoc, ← List.append_assoc cs] at hmore
      refine ⟨_, start, last, hmore, hlast, ?_⟩
      rw [List.map_cons, List.map_cons, hshape]
      rfl

/-- Tokens that have spellings can be spelled one behind the other. -/
theorem exists_respaced
    (hts : ∀ t ∈ ts, ∃ spelling after, Spelled t.kind t.text spelling after) :
    ∃ cs, Respaced ts cs := by
  induction ts with
  | nil => exact ⟨[], .nil⟩
  | cons t ts ih =>
      obtain ⟨⟨spelling, after, hspelled⟩, hts⟩ := List.forall_mem_cons.mp hts
      obtain ⟨cs, hcs⟩ := hspelled.exists_respelled
      obtain ⟨rest, hrest⟩ := ih hts
      exact ⟨_, .cons hcs (.blank (c := ' ') (by decide) .nil)
        (fun _ => List.cons_ne_nil _ _) hrest⟩

end Respaced

/-- **Layout does not matter.** The tokens of a text can be written back, and whatever they are
    written back as, with layout between any two and perhaps at both ends, has tokens of the same
    kinds and texts. -/
theorem ofText_respaced {source : String} {ts : List Token} (h : ofText source = .ok ts) :
    ∃ front offset, ts = front ++ [⟨.endOfInput, "", offset⟩] ∧ (∃ cs, Respaced front cs) ∧
      ∀ gap cs, Layout gap → Respaced front cs →
        ∃ us, ofText (String.ofList (gap ++ cs)) = .ok us ∧ us.map shape = ts.map shape := by
  obtain ⟨front, _, _, rfl, hcut, -⟩ := exists_cut_of_ofText h
  have hspelled : ∀ t ∈ front, ∃ spelling after, Spelled t.kind t.text spelling after := by
    intro t ht
    obtain ⟨_, spelling, after, -, hspelled, -⟩ := hcut.exists_lexeme ht
    exact ⟨spelling, after, hspelled⟩
  refine ⟨front, _, rfl, exists_respaced hspelled, ?_⟩
  intro gap cs hgap hcs
  obtain ⟨us, start, rest, hcut, hrest, hshape⟩ := hcs.exists_cut hspelled hgap 0
  refine ⟨us ++ [⟨.endOfInput, "", start + rest.length⟩], ?_, ?_⟩
  · rw [ofText, String.toList_ofList]
    exact hcut.tokensFrom_eq hrest
  · rw [List.map_append, hshape, List.map_append]
    rfl

/-- A text without any layout, and the same tokens with comments between them. -/
theorem ofText_respaced_sample :
    (∃ ts, ofText "SELECT-1<>'\"'" = .ok ts ∧
      ts.map shape = [(.keyword, "SELECT"), (.number, "-1"), (.operator, "!="), (.string, "\""),
        (.endOfInput, "")]) ∧
    ∃ us, ofText "--a\nsElEcT\t-1--b\n!= '\"'" = .ok us ∧
      us.map shape = [(.keyword, "SELECT"), (.number, "-1"), (.operator, "!="), (.string, "\""),
        (.endOfInput, "")] := by
  have hread : ofText "SELECT-1<>'\"'" = .ok [⟨.keyword, "SELECT", 0⟩, ⟨.number, "-1", 6⟩,
      ⟨.operator, "!=", 8⟩, ⟨.string, "\"", 10⟩, ⟨.endOfInput, "", 13⟩] :=
    eq_ok_of_toOption (by decide +kernel)
  refine ⟨⟨_, hread, rfl⟩, ?_⟩
  obtain ⟨front, offset, hfront, -, hwritten⟩ := ofText_respaced hread
  obtain ⟨rfl, -⟩ := List.append_inj' (show [_, _, _, _] ++ [_] = _ from hfront) rfl
  have hcomment : ∀ c, c ≠ '\n' → Layout ('-' :: '-' :: [c] ++ '\n' :: []) :=
    fun c hc => .comment (fun hmem => hc (List.mem_singleton.mp hmem).symm) .nil
  have hblank : ∀ c, Text.isBlank c = true → Layout [c] := fun c hc => .blank hc .nil
  have hstring : Respaced [⟨.string, "\"", 10⟩] (['\'', '"', '\''] ++ [] ++ []) :=
    .cons (.string (by decide) (by decide)) .nil (fun hne => absurd rfl hne) .nil
  have hsign : Respaced [⟨.operator, "!=", 8⟩, ⟨.string, "\"", 10⟩] "!= '\"'".toList :=
    .cons (.plain (by decide) (by decide)) (hblank ' ' (by decide)) (fun _ => by decide) hstring
  have hnumber : Respaced [⟨.number, "-1", 6⟩, ⟨.operator, "!=", 8⟩, ⟨.string, "\"", 10⟩]
      "-1--b\n!= '\"'".toList :=
    .cons (.plain (by decide) (by decide)) (hcomment 'b' (by decide)) (fun _ => by decide) hsign
  have hkeyword : Respaced [⟨.keyword, "SELECT", 0⟩, ⟨.number, "-1", 6⟩, ⟨.operator, "!=", 8⟩,
      ⟨.string, "\"", 10⟩] ("sElEcT".toList ++ ['\t'] ++ "-1--b\n!= '\"'".toList) :=
    .cons (.keyword (by decide)) (hblank '\t' (by decide)) (fun _ => by decide) hnumber
  exact hwritten "--a\n".toList _ (hcomment 'a' (by decide)) hkeyword

end Token

end DocQuery
