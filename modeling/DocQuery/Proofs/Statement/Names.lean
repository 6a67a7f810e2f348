import DocQuery.Proofs.Row
import DocQuery.Proofs.Statement.Soundness
import Mathlib.Data.List.TakeWhile

/-!
# The names in a query are words

The characters of a word are letters, digits and underscores, so there is no point and no
parenthesis in it, and the rules of the grammar take every name of a table or a field, and every
label, from an identifier.

* `words_ofText` — the identifiers among the tokens of a text are words;
* `plainNames_ofText` — so the names in the query that a text writes have no point in them;
* `inWords_ofText` — the columns and the group keys of the query are named by words.
-/

namespace DocQuery

-- ── Tokens ──────────────────────────────────────────────────────────────────

/-- The name is made of letters, digits and underscores. -/
def IsWord (name : String) : Prop :=
  ∀ c ∈ name.toList, Text.continuesWord c = true

/-- A character that continues no word is in no word. -/
theorem IsWord.not_mem {name : String} (h : IsWord name) {c : Char}
    (hc : Text.continuesWord c = false) : c ∉ name.toList := by
  intro hmem
  rw [h c hmem] at hc
  exact nomatch hc

theorem IsWord.plain {name : String} (h : IsWord name) : Plain name :=
  h.not_mem (by decide)

/-- Every identifier among the tokens is a word. -/
def Words (ts : List Token) : Prop :=
  ∀ t ∈ ts, t.kind = .identifier → IsWord t.text

theorem Words.tail {t : Token} {ts : List Token} (h : Words (t :: ts)) : Words ts := by
  intro u hu
  exact h u (List.mem_cons_of_mem _ hu)

/-- What a rule leaves of words are words. -/
theorem Words.rest {ts rest : List Token} (h : Words ts) (hrest : Grammar.Consumes ts rest) :
    Words rest := by
  obtain ⟨front, rfl, -⟩ := hrest
  intro t ht
  exact h t (List.mem_append_right _ ht)

/-- The text of a word that is not a keyword is what was spelled. -/
theorem isWord_word {c : Char} {cs : List Char} (hc : Text.startsWord c = true)
    (h : (Lexeme.word c cs).kind = .identifier) : IsWord (Lexeme.word c cs).text := by
  simp only [Lexeme.word] at h ⊢
  split at h
  · exact nomatch h
  · rename_i hkey
    rw [if_neg hkey, IsWord, String.toList_ofList]
    intro d hd
    rcases List.mem_cons.mp hd with rfl | hd
    · rw [Text.startsWord, Bool.or_eq_true] at hc
      rw [Text.continuesWord, Bool.or_eq_true, Bool.or_eq_true]
      exact hc.imp_left Or.inl
    · exact List.mem_takeWhile_imp hd

/-- What a quote opens is a string. -/
theorem kind_string? {quote : Char} {cs : List Char} {l : Lexeme (quote :: cs)}
    (h : Lexeme.string? quote cs = some l) : l.kind = .string := by
  unfold Lexeme.string? at h
  split at h
  · exact nomatch h
  · rw [← Option.some.inj h]

/-- A sign is no identifier. -/
theorem kind_sign? {cs : List Char} {l : Lexeme cs} (h : Lexeme.sign? cs = some l) :
    l.kind ≠ .identifier := by
  unfold Lexeme.sign? at h
  split at h
  all_goals first | (rw [← Option.some.inj h]; exact TokenKind.noConfusion) | exact nomatch h

/-- A lexeme that is an identifier is a word. -/
theorem isWord_read {position : Nat} {c : Char} {cs : List Char} {l : Lexeme (c :: cs)}
    (h : Lexeme.read position c cs = .ok l) (hkind : l.kind = .identifier) : IsWord l.text := by
  rw [Lexeme.read] at h
  split at h
  · rw [← Except.ok.inj h] at hkind
    exact nomatch hkind
  · split at h
    · split at h
      · rename_i l' hl'
        have hl := Except.ok.inj h
        subst hl
        rw [kind_string? hl'] at hkind
        exact nomatch hkind
      · exact nomatch h
    · split at h
      · rename_i hstarts
        have hl := Except.ok.inj h
        subst hl
        exact isWord_word hstarts hkind
      · split at h
        · rename_i l' hl'
          have hl := Except.ok.inj h
          subst hl
          exact absurd hkind (kind_sign? hl')
        · exact nomatch h

/-- Every identifier among the tokens of a text is a word, by induction on the text. -/
theorem words_tokensFrom (position : Nat) (cs : List Char) :
    ∀ ts, Token.tokensFrom position cs = .ok ts → Words ts := by
  induction position, cs using Token.tokensFrom.induct with
  | case1 position cs start hskip =>
      intro ts h
      rw [Token.tokensFrom] at h
      split at h
      · rw [← Except.ok.inj h]
        intro t ht hkind
        rw [List.mem_singleton.mp ht] at hkind
        exact nomatch hkind
      · rename_i hskip'
        rw [hskip] at hskip'
        exact nomatch hskip'
  | case2 position cs start c rest hskip ih =>
      intro ts h
      rw [Token.tokensFrom] at h
      split at h
      · rename_i hskip'
        rw [hskip] at hskip'
        exact nomatch hskip'
      · rename_i start' c' rest' hskip'
        rw [hskip] at hskip'
        obtain ⟨rfl, hcons⟩ := Prod.mk.inj hskip'
        obtain ⟨rfl, rfl⟩ := List.cons.inj hcons
        obtain ⟨l, hread, h⟩ := bind_eq_ok_iff.mp h
        obtain ⟨others, hothers, h⟩ := bind_eq_ok_iff.mp h
        rw [← Except.ok.inj h]
        intro t ht hkind
        rcases List.mem_cons.mp ht with rfl | ht
        · exact isWord_read hread hkind
        · exact ih l others hothers t ht hkind

/-- The tokens of a text are words. -/
theorem words_ofText {source : String} {ts : List Token} (h : Token.ofText source = .ok ts) :
    Words ts :=
  words_tokensFrom 0 source.toList ts h

-- ── Plain names ─────────────────────────────────────────────────────────────

/-- A column is named without a point, and so is its table if it has one. -/
def Subject.PlainNames : Subject → Prop
  | .column table field => (∀ t, table = some t → Plain t) ∧ Plain field
  | .call _ => True

/-- The columns that the condition reads are named without a point. -/
def Condition.PlainNames (c : Condition) : Prop :=
  ∀ cmp ∈ c.comparisons, cmp.subject.PlainNames

theorem Condition.PlainNames.and {left right : Condition} (hl : left.PlainNames)
    (hr : right.PlainNames) : (Condition.and left right).PlainNames := by
  intro cmp hcmp
  rcases List.mem_append.mp hcmp with hcmp | hcmp
  · exact hl cmp hcmp
  · exact hr cmp hcmp

theorem Condition.PlainNames.or {left right : Condition} (hl : left.PlainNames)
    (hr : right.PlainNames) : (Condition.or left right).PlainNames := by
  intro cmp hcmp
  rcases List.mem_append.mp hcmp with hcmp | hcmp
  · exact hl cmp hcmp
  · exact hr cmp hcmp

/-- The tables of the query and the columns of its condition on rows are named without a
    point. -/
structure Select.PlainNames (s : Select) : Prop where
  tables : ∀ t ∈ s.tables, Plain t
  filter : ∀ c, s.filter = some c → c.PlainNames

/-- A name that may be qualified is made of words. -/
def IsWordName (table : Option String) (name : String) : Prop :=
  (∀ t, table = some t → IsWord t) ∧ IsWord name

/-- A column that is an argument is named by words. -/
def Argument.InWords : Argument → Prop
  | .column table name => IsWordName table name
  | _ => True

/-- A column is named by words: its own name, its label and those of its arguments. -/
def Column.InWords : Column → Prop
  | .field table name label => IsWordName table name ∧ ∀ a, label = some a → IsWord a
  | .call c label => (∀ a ∈ c.arguments, a.InWords) ∧ ∀ a, label = some a → IsWord a
  | _ => True

/-- The columns and the group keys of the query are named by words. -/
structure Select.InWords (s : Select) : Prop where
  columns : ∀ c ∈ s.columns, c.InWords
  groupBy : ∀ k ∈ s.groupBy, IsWordName k.table k.field

-- ── What words write ────────────────────────────────────────────────────────

namespace Grammar

variable {ts rest : List Token}

/-- A name that is written is a word. -/
theorem WritesName.isWord {name : String} (h : WritesName ts name rest) (hw : Words ts) :
    IsWord name := by
  cases h with
  | identifier hkind => exact hw _ List.mem_cons_self hkind

theorem WritesName.plain {name : String} (h : WritesName ts name rest) (hw : Words ts) :
    Plain name :=
  (h.isWord hw).plain

theorem WritesTable.plain {name : String} {hint : Option String}
    (h : WritesTable ts name hint rest) (hw : Words ts) : Plain name := by
  cases h with
  | bare hname => exact hname.plain hw
  | hinted hname _ _ => exact hname.plain hw

/-- No name of a joined table has a dot. -/
theorem WritesJoins.plain {joins : List Join} (h : WritesJoins ts joins rest) (hw : Words ts) :
    ∀ j ∈ joins, Plain j.table := by
  induction h with
  | nil =>
      intro j hj
      cases hj
  | cons hjoin _ ih =>
      intro j hj
      rcases List.mem_cons.mp hj with rfl | hj
      · cases hjoin with
        | join hwords htable _ _ => exact htable.plain (hw.rest hwords.consumes)
      · exact ih (hw.rest hjoin.consumes) j hj

/-- A name of a column is made of words. -/
theorem WritesColumnName.isWordName {table : Option String} {name : String}
    (h : WritesColumnName ts table name rest) (hw : Words ts) : IsWordName table name := by
  cases h with
  | bare hname => exact ⟨fun t ht => (nomatch ht), hname.isWord hw⟩
  | qualified htable _ hname =>
      refine ⟨?_, hname.isWord (hw.rest htable.consumes).tail⟩
      intro t ht
      rw [← Option.some.inj ht]
      exact htable.isWord hw

theorem WritesLabel.isWord {label : Option String} (h : WritesLabel ts label rest)
    (hw : Words ts) : ∀ a, label = some a → IsWord a := by
  rintro a rfl
  cases h with
  | present _ hname => exact hname.isWord hw.tail

/-- What a comparison is about has plain names. -/
theorem WritesSubject.plainNames {subject : Subject} (h : WritesSubject ts subject rest)
    (hw : Words ts) : subject.PlainNames := by
  cases h with
  | column hname =>
      obtain ⟨htable, hfield⟩ := hname.isWordName hw
      exact ⟨fun t ht => (htable t ht).plain, hfield.plain⟩
  | call _ => trivial

/-- An argument is made of words. -/
theorem WritesArgument.inWords {arg : Argument} (h : WritesArgument ts arg rest)
    (hw : Words ts) : arg.InWords := by
  cases h with
  | star => trivial
  | column hname => exact hname.isWordName hw
  | tableStar => trivial
  | call => trivial

theorem WritesMoreArguments.inWords {ts rest : List Token} {args : List Argument} :
    WritesMoreArguments ts args rest → Words ts → ∀ a ∈ args, a.InWords
  | .close _, _ => fun _ ha => nomatch ha
  | .comma _ harg hargs, hw =>
      List.forall_mem_cons.mpr
        ⟨harg.inWords hw.tail, hargs.inWords (hw.tail.rest harg.consumes)⟩

theorem WritesArguments.inWords {args : List Argument} (h : WritesArguments ts args rest)
    (hw : Words ts) : ∀ a ∈ args, a.InWords := by
  cases h with
  | none => exact fun _ ha => nomatch ha
  | some harg hargs =>
      exact List.forall_mem_cons.mpr ⟨harg.inWords hw, hargs.inWords (hw.rest harg.consumes)⟩

/-- A column is made of words, with its label. -/
theorem WritesColumn.inWords {column : Column} (h : WritesColumn ts column rest)
    (hw : Words ts) : column.InWords := by
  cases h with
  | field hname hlabel => exact ⟨hname.isWordName hw, hlabel.isWord (hw.rest hname.consumes)⟩
  | tableStar => trivial
  | call hcall hlabel =>
      refine ⟨?_, hlabel.isWord (hw.rest hcall.consumes)⟩
      cases hcall with
      | call hname _ hargs => exact hargs.inWords (hw.rest hname.consumes).tail

mutual

/-- A test has plain names, by recursion over its parentheses. -/
theorem WritesTest.plainNames {ts rest : List Token} {c : Condition} :
    WritesTest ts c rest → Words ts → c.PlainNames
  | .compare hsubject _ _ _, hw => by
      intro cmp hcmp
      rw [List.mem_singleton.mp hcmp]
      exact hsubject.plainNames hw
  | .parens _ h _, hw => h.plainNames hw.tail

/-- A conjunction has plain names. -/
theorem WritesConjunction.plainNames {ts rest : List Token} {c : Condition} :
    WritesConjunction ts c rest → Words ts → c.PlainNames
  | .test h, hw => h.plainNames hw
  | .and hleft _ hright, hw =>
      (hleft.plainNames hw).and (hright.plainNames (hw.rest hleft.consumes).tail)

theorem WritesDisjunction.plainNames {ts rest : List Token} {c : Condition} :
    WritesDisjunction ts c rest → Words ts → c.PlainNames
  | .conjunction h, hw => h.plainNames hw
  | .or hleft _ hright, hw =>
      (hleft.plainNames hw).or (hright.plainNames (hw.rest hleft.consumes).tail)

end

/-- The names in a query that words write are plain. -/
theorem WritesQuery.plainNames {s : Select} (h : WritesQuery ts s rest) (hw : Words ts) :
    s.PlainNames := by
  cases h with
  | select _ hcolumns _ htable hjoins hfilter _ _ _ _ =>
      have hsource := (hw.tail.rest hcolumns.consumes).tail
      have hjoined := hsource.rest htable.consumes
      constructor
      · intro t hmem
        rcases List.mem_cons.mp hmem with rfl | hmem
        · exact htable.plain hsource
        · obtain ⟨j, hj, rfl⟩ := List.mem_map.mp hmem
          exact hjoins.plain hjoined j hj
      · rintro c rfl
        cases hfilter with
        | present _ hc => exact hc.plainNames (hjoined.rest hjoins.consumes).tail

/-- What words write as an item is true of the items of a list that words write. -/
theorem WritesList.forall_mem {α : Type} {separates : Token → Prop}
    {Item : List Token → α → List Token → Prop} {P : α → Prop} {xs : List α}
    (h : WritesList separates Item ts xs rest)
    (hitem : ∀ ts x rest, Item ts x rest → Words ts → P x)
    (hconsumes : ∀ ts x rest, Item ts x rest → Consumes ts rest) (hw : Words ts) :
    ∀ x ∈ xs, P x := by
  induction h with
  | one hx => exact List.forall_mem_singleton.mpr (hitem _ _ _ hx hw)
  | cons hx _ _ ih =>
      refine List.forall_mem_cons.mpr ⟨hitem _ _ _ hx hw, ih ?_⟩
      exact (hw.rest (hconsumes _ _ _ hx)).tail

/-- The columns and the group keys of a query that words write are named by words. -/
theorem WritesQuery.inWords {s : Select} (h : WritesQuery ts s rest) (hw : Words ts) :
    s.InWords := by
  cases h with
  | select _ hcolumns _ htable hjoins hfilter hgroupBy _ _ _ =>
      have hgrouped := (((hw.tail.rest hcolumns.consumes).tail.rest htable.consumes).rest
        hjoins.consumes).rest (hfilter.consumes fun _ _ _ => WritesDisjunction.consumes)
      constructor
      · cases hcolumns with
        | star => exact List.forall_mem_singleton.mpr trivial
        | list hlist =>
            exact hlist.forall_mem (fun _ _ _ => WritesColumn.inWords)
              (fun _ _ _ => WritesColumn.consumes) hw.tail
      · cases hgroupBy with
        | absent => exact fun _ hk => nomatch hk
        | present _ hby =>
            cases hby with
            | word _ hlist =>
                refine hlist.forall_mem ?_ (fun _ _ _ => WritesGroupKey.consumes)
                  hgrouped.tail.tail
                rintro _ _ _ ⟨hname⟩ hw
                exact hname.isWordName hw

end Grammar

/-- The query that a text writes is written by its tokens. -/
theorem Select.exists_tokens_of_ofText {source : String} {s : Select} (h : ofText source = .ok s) :
    ∃ ts rest, Token.ofText source = .ok ts ∧ Grammar.WritesQuery ts s rest := by
  obtain ⟨ts, hts, h⟩ := bind_eq_ok_iff.mp h
  obtain ⟨q, hq, h⟩ := bind_eq_ok_iff.mp (Grammar.whole_of_ofTokens h)
  obtain ⟨_, -, h⟩ := bind_eq_ok_iff.mp h
  rw [← Except.ok.inj h]
  exact ⟨ts, _, hts, Grammar.derives_query ts q hq⟩

/-- These are words. -/
theorem Select.writesQuery_of_ofText {source : String} {s : Select} (h : ofText source = .ok s) :
    ∃ ts rest, Words ts ∧ Grammar.WritesQuery ts s rest := by
  obtain ⟨ts, rest, hts, hwrites⟩ := exists_tokens_of_ofText h
  exact ⟨ts, rest, words_ofText hts, hwrites⟩

/-- The names in the query that a text writes are plain. -/
theorem Select.plainNames_ofText {source : String} {s : Select} (h : ofText source = .ok s) :
    s.PlainNames := by
  obtain ⟨ts, rest, hwords, hwrites⟩ := writesQuery_of_ofText h
  exact hwrites.plainNames hwords

/-- The columns and the group keys of the query that a text writes are named by words. -/
theorem Select.inWords_ofText {source : String} {s : Select} (h : ofText source = .ok s) :
    s.InWords := by
  obtain ⟨ts, rest, hwords, hwrites⟩ := writesQuery_of_ofText h
  exact hwrites.inWords hwords

end DocQuery
