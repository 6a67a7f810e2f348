import DocQuery.Proofs.Statement.Calls
import DocQuery.Proofs.Text.Case
import DocQuery.Proofs.Token.Exact

/-!
# Signatures never collide

A signature is a call written out, with points, stars, commas and parentheses between its names.
No name in a query has one of these marks in it, and upper case brings none in. So the end of a
name can be seen, and with it which kind of argument it belongs to.

* `Argument.Named.ends` — an argument can be told from what follows it, by induction on its depth;
* `Call.Named.eq_of_signature_eq` — so calls of one signature are one call;
* `signatures_apart` — the calls that texts make are such, and no identifier is a signature.
-/

namespace DocQuery

-- ── Marks ───────────────────────────────────────────────────────────────────

/-- The characters that stand between the names of a signature. -/
def signatureMarks : List Char :=
  ['*', '.', '(', ',', ')']

/-- The character is none of the marks. -/
def unmarked (c : Char) : Bool :=
  !signatureMarks.contains c

/-- There is no mark in the name. -/
def Unmarked (name : String) : Prop :=
  ∀ c ∈ name.toList, unmarked c = true

theorem unmarked_eq_false_iff {c : Char} : unmarked c = false ↔ c ∈ signatureMarks := by
  rw [unmarked, Bool.not_eq_false', List.contains_iff_mem]

/-- No mark of a signature is in a word. -/
theorem IsWord.unmarked {name : String} (h : IsWord name) : Unmarked name := by
  have hmarks : signatureMarks.all (fun c => !Text.continuesWord c) = true := by decide
  intro c hc
  refine Bool.of_not_eq_false fun hmark => ?_
  have hcontinues := List.all_eq_true.mp hmarks c (unmarked_eq_false_iff.mp hmark)
  exact h.not_mem ((Bool.not_eq_true' _).mp hcontinues) hc

/-- A word in upper case need not be a word, but it has no mark in it. -/
theorem IsWord.unmarked_upper {name : String} (h : IsWord name) : Unmarked (Text.upper name) := by
  have hmarks : signatureMarks.all (fun c => decide (c.toNat < 'A'.toNat)) = true := by decide
  intro d hd
  rw [Text.upper, String.toList_ofList] at hd
  obtain ⟨c, hc, hd⟩ := List.mem_flatMap.mp hd
  refine Bool.of_not_eq_false fun hmark => ?_
  have hlow := List.all_eq_true.mp hmarks d (unmarked_eq_false_iff.mp hmark)
  obtain rfl := Text.eq_of_mem_upperChar hd (of_decide_eq_true hlow)
  exact Bool.eq_false_iff.mp hmark (h.unmarked d hc)

/-- A name without marks ends before the first mark. -/
theorem append_inj_of_unmarked {cs ds r s : List Char} (hcs : ∀ c ∈ cs, unmarked c = true)
    (hds : ∀ c ∈ ds, unmarked c = true) (hr : Stops unmarked r) (hs : Stops unmarked s)
    (h : cs ++ r = ds ++ s) : cs = ds ∧ r = s := by
  constructor
  · rw [← hr.takeWhile_append hcs, h, hs.takeWhile_append hds]
  · rw [← hr.dropWhile_append hcs, h, hs.dropWhile_append hds]

/-- An argument ends here: a comma or the closing parenthesis is next. -/
inductive Closes : List Char → Prop where
  | comma {r : List Char} : Closes (',' :: r)
  | paren {r : List Char} : Closes (')' :: r)

/-- What may follow a call opens with a mark. -/
theorem Closes.stops {r : List Char} (h : Closes r) : Stops unmarked r := by
  cases h with
  | comma | paren => exact stops_cons.mpr (by decide)

/-- The other marks do not end an argument. -/
theorem Closes.ne_cons {r s : List Char} (h : Closes r) {c : Char} (hc : c ∈ ['*', '.', '(']) :
    r ≠ c :: s := by
  have hcomma : ',' ∉ ['*', '.', '('] := by decide
  have hparen : ')' ∉ ['*', '.', '('] := by decide
  rintro rfl
  cases h with
  | comma => exact hcomma hc
  | paren => exact hparen hc

namespace Argument

variable {a b : Argument} {as bs : List Argument} {r s : List Char}

-- ── Arguments cut behind their first name ───────────────────────────────────

/-- No name in the argument has a mark in it, and no call has an argument without a name. -/
inductive Named : Argument → Prop where
  | star : Named .star
  | tableStar {table : String} : Unmarked table → Named (.tableStar table)
  | bare {name : String} : Unmarked name → Named (.column none name)
  | qualified {table name : String} : Unmarked table → Unmarked name →
      Named (.column (some table) name)
  | call {name : String} {arguments : List Argument} : Unmarked name →
      (∀ a ∈ arguments, Named a) → (∀ a ∈ arguments, a ≠ .column none "") →
      Named (.call name arguments)

/-- The name that the argument starts with; a star starts with none. -/
def firstName : Argument → String
  | .star => ""
  | .tableStar table => table
  | .column none name => name
  | .column (some table) _ => table
  | .call name _ => name

/-- What is written behind that name, in front of what follows the argument. -/
def behindName : Argument → List Char → List Char
  | .star, r => '*' :: r
  | .tableStar _, r => '.' :: '*' :: r
  | .column none _, r => r
  | .column (some _) name, r => '.' :: (name.toList ++ r)
  | .call _ arguments, r => '(' :: ((renderAll arguments).toList ++ ')' :: r)

/-- The text of an argument is its first name and what is behind that. -/
theorem render_append (a : Argument) (r : List Char) :
    a.render.toList ++ r = a.firstName.toList ++ a.behindName r := by
  cases a with
  | column table name => cases table <;> simp [render, firstName, behindName]
  | star | tableStar _ | call _ _ => simp [render, firstName, behindName]

/-- The first name of an argument has no mark in it. -/
theorem Named.unmarked_firstName (h : a.Named) : Unmarked a.firstName := by
  cases h with
  | star => exact fun c hc => nomatch hc
  | tableStar hname | bare hname | qualified hname _ | call hname _ _ => exact hname

/-- Behind the first name there is a mark. -/
theorem Named.stops_behindName (h : a.Named) (hr : Closes r) : Stops unmarked (a.behindName r) := by
  cases h with
  | bare _ => exact hr.stops
  | star | tableStar _ | qualified _ _ | call _ _ _ => exact stops_cons.mpr (by decide)

/-- Arguments that are written alike have one first name, and go on alike. -/
theorem Named.cut (ha : a.Named) (hb : b.Named) (hr : Closes r) (hs : Closes s)
    (h : a.render.toList ++ r = b.render.toList ++ s) :
    a.firstName = b.firstName ∧ a.behindName r = b.behindName s := by
  rw [render_append, render_append] at h
  obtain ⟨hname, hbehind⟩ := append_inj_of_unmarked ha.unmarked_firstName hb.unmarked_firstName
    (ha.stops_behindName hr) (hb.stops_behindName hs) h
  exact ⟨String.toList_injective hname, hbehind⟩

/-- An argument does not start with the closing parenthesis, unless it has no name. -/
theorem Named.render_append_ne (h : a.Named) (hname : a ≠ .column none "") (hr : Closes r) :
    a.render.toList ++ r ≠ ')' :: s := by
  intro heq
  rw [render_append] at heq
  obtain ⟨hfirst, hbehind⟩ := append_inj_of_unmarked h.unmarked_firstName (List.forall_mem_nil _)
    (h.stops_behindName hr) Closes.paren.stops heq
  cases h with
  | bare _ => exact hname (congrArg _ (String.toList_injective hfirst))
  | star | tableStar _ | qualified _ _ | call _ _ _ =>
      exact absurd (List.cons.inj hbehind).1 (by decide)

-- ── Lists of arguments ──────────────────────────────────────────────────────

/-- The argument can be told from the comma or the parenthesis that follows it. -/
def Ends (a : Argument) : Prop :=
  ∀ {b : Argument} {r s : List Char}, b.Named → Closes r → Closes s →
    a.render.toList ++ r = b.render.toList ++ s → a = b ∧ r = s

/-- What follows an argument in a list: the others, each behind a comma, and a parenthesis. -/
def behindOne : List Argument → List Char → List Char
  | [], r => ')' :: r
  | a :: as, r => ',' :: ' ' :: ((renderAll (a :: as)).toList ++ ')' :: r)

/-- The text of a list of arguments is that of the first one and what is behind it. -/
theorem renderAll_cons_append (a : Argument) (as : List Argument) (r : List Char) :
    (renderAll (a :: as)).toList ++ ')' :: r = a.render.toList ++ behindOne as r := by
  cases as <;> simp [renderAll, behindOne]

/-- Behind an argument there is a comma or the closing parenthesis. -/
theorem closes_behindOne (as : List Argument) (r : List Char) : Closes (behindOne as r) := by
  cases as with
  | nil => exact .paren
  | cons a as => exact .comma

/-- So a list of such arguments can be told from what follows its closing parenthesis. -/
theorem renderAll_append_inj (hends : ∀ a ∈ as, a.Ends) (has : ∀ a ∈ as, a.Named)
    (hbs : ∀ b ∈ bs, b.Named) (has' : ∀ a ∈ as, a ≠ .column none "")
    (hbs' : ∀ b ∈ bs, b ≠ .column none "")
    (h : (renderAll as).toList ++ ')' :: r = (renderAll bs).toList ++ ')' :: s) :
    as = bs ∧ r = s := by
  induction as generalizing bs with
  | nil =>
      cases bs with
      | nil => exact ⟨rfl, (List.cons.inj h).2⟩
      | cons b bs =>
          rw [renderAll_cons_append] at h
          exact absurd h.symm ((hbs b List.mem_cons_self).render_append_ne
            (hbs' b List.mem_cons_self) (closes_behindOne bs s))
  | cons a as ih =>
      cases bs with
      | nil =>
          rw [renderAll_cons_append] at h
          exact absurd h ((has a List.mem_cons_self).render_append_ne
            (has' a List.mem_cons_self) (closes_behindOne as r))
      | cons b bs =>
          rw [renderAll_cons_append, renderAll_cons_append] at h
          obtain ⟨rfl, hmore⟩ := hends a List.mem_cons_self (hbs b List.mem_cons_self)
            (closes_behindOne as r) (closes_behindOne bs s) h
          rw [List.forall_mem_cons] at hends has hbs has' hbs'
          cases as with
          | nil =>
              cases bs with
              | nil => exact ⟨rfl, (List.cons.inj hmore).2⟩
              | cons b' bs => exact absurd (List.cons.inj hmore).1 (by decide)
          | cons a' as =>
              cases bs with
              | nil => exact absurd (List.cons.inj hmore).1 (by decide)
              | cons b' bs =>
                  obtain ⟨hsame, hrest⟩ := ih hends.2 has.2 hbs.2 has'.2 hbs'.2
                    (List.cons.inj (List.cons.inj hmore).2).2
                  exact ⟨congrArg _ hsame, hrest⟩

-- ── Arguments of any depth ──────────────────────────────────────────────────

/-- No field begins with the star of a table. -/
theorem star_cons_ne {name : String} (hname : Unmarked name) (hs : Closes s) :
    '*' :: r ≠ name.toList ++ s := by
  intro heq
  obtain ⟨-, hstar⟩ := append_inj_of_unmarked (List.forall_mem_nil _) hname
    (stops_cons.mpr (by decide)) hs.stops heq
  exact hs.ne_cons (by decide) hstar.symm

/-- Every argument without marks in its names can be told from what follows it. The induction is on
    its depth: behind the first name stands a mark that tells the kind of the argument, and the
    lists of a call agree by the hypothesis on their members. -/
theorem Named.ends (h : a.Named) : a.Ends := by
  intro b r s hb hr hs heq
  obtain ⟨hname, hbehind⟩ := h.cut hb hr hs heq
  clear heq
  induction h generalizing b r s with
  | star =>
      cases hb with
      | star => exact ⟨rfl, (List.cons.inj hbehind).2⟩
      | bare _ => exact absurd hbehind.symm (hs.ne_cons (by decide))
      | tableStar _ | qualified _ _ | call _ _ _ =>
          exact absurd (List.cons.inj hbehind).1 (by decide)
  | tableStar _ =>
      cases hb with
      | tableStar _ => exact ⟨congrArg _ hname, (List.cons.inj (List.cons.inj hbehind).2).2⟩
      | qualified _ hfield => exact absurd (List.cons.inj hbehind).2 (star_cons_ne hfield hs)
      | bare _ => exact absurd hbehind.symm (hs.ne_cons (by decide))
      | star | call _ _ _ => exact absurd (List.cons.inj hbehind).1 (by decide)
  | bare _ =>
      cases hb with
      | bare _ => exact ⟨congrArg _ hname, hbehind⟩
      | star | tableStar _ | qualified _ _ | call _ _ _ =>
          exact absurd hbehind (hr.ne_cons (by decide))
  | qualified _ hfield =>
      cases hb with
      | qualified _ hfield' =>
          obtain ⟨hfields, hrest⟩ := append_inj_of_unmarked hfield hfield' hr.stops hs.stops
            (List.cons.inj hbehind).2
          exact ⟨congrArg₂ _ (congrArg _ hname) (String.toList_injective hfields), hrest⟩
      | tableStar _ => exact absurd (List.cons.inj hbehind).2.symm (star_cons_ne hfield hr)
      | bare _ => exact absurd hbehind.symm (hs.ne_cons (by decide))
      | star | call _ _ _ => exact absurd (List.cons.inj hbehind).1 (by decide)
  | @call _ arguments _ hargs hnamed ih =>
      cases hb with
      | call _ hargs' hnamed' =>
          have hends : ∀ a ∈ arguments, a.Ends := by
            intro a ha b r s hb hr hs heq
            obtain ⟨hfirst, hmore⟩ := (hargs a ha).cut hb hr hs heq
            exact ih a ha hb hr hs hfirst hmore
          obtain ⟨hsame, hrest⟩ := renderAll_append_inj hends hargs hargs' hnamed hnamed'
            (List.cons.inj hbehind).2
          exact ⟨congrArg₂ _ hname hsame, hrest⟩
      | bare _ => exact absurd hbehind.symm (hs.ne_cons (by decide))
      | star | tableStar _ | qualified _ _ => exact absurd (List.cons.inj hbehind).1 (by decide)

end Argument

/-- A name made of words is an argument whose parts can be told apart. -/
theorem IsWordName.named {table : Option String} {name : String} (h : IsWordName table name) :
    (Argument.column table name).Named := by
  cases table with
  | none => exact .bare h.2.unmarked
  | some t => exact .qualified (h.1 t rfl).unmarked h.2.unmarked

-- ── Calls ───────────────────────────────────────────────────────────────────

namespace Call

variable {call call' : Call} {name : String}

/-- No name in the call has a mark in it, and no argument is without a name. -/
def Named (call : Call) : Prop :=
  (Argument.call call.name call.arguments).Named

/-- Calls of one signature are one call. -/
theorem Named.eq_of_signature_eq (h : call.Named) (h' : call'.Named)
    (heq : call.signature = call'.signature) : call = call' := by
  have hclosed : (Argument.call call.name call.arguments).render.toList ++ [')']
      = (Argument.call call'.name call'.arguments).render.toList ++ [')'] :=
    congrArg (fun text => text.toList ++ [')']) heq
  obtain ⟨hsame, -⟩ := h.ends h' .paren .paren hclosed
  obtain ⟨hname, harguments⟩ := Argument.call.inj hsame
  obtain ⟨name, arguments⟩ := call
  obtain ⟨name', arguments'⟩ := call'
  exact congrArg₂ Call.mk hname harguments

/-- A signature is its name, its arguments and the parentheses around them. -/
theorem toList_signature (call : Call) : call.signature.toList
    = call.name.toList ++ '(' :: ((Argument.renderAll call.arguments).toList ++ [')']) := by
  rw [signature, String.toList_append, String.toList_append, String.toList_append]
  simp

/-- No word is a signature. -/
theorem signature_ne_of_isWord (h : IsWord name) (call : Call) : call.signature ≠ name := by
  intro heq
  refine h.not_mem (c := '(') (by decide) ?_
  rw [← heq, toList_signature]
  exact List.mem_append_right _ List.mem_cons_self

/-- No name that ends in a word after a point is a signature. -/
theorem signature_ne_qualify {t f : String} (h : IsWord f) (call : Call) :
    call.signature ≠ qualify t f := by
  intro heq
  have hlists := congrArg (fun name => name.toList.getLast?) heq
  simp only [toList_signature, toList_qualify] at hlists
  rw [List.getLast?_append_of_ne_nil _ (List.cons_ne_nil _ _),
    List.getLast?_append_of_ne_nil _ (List.cons_ne_nil _ _), ← List.cons_append,
    List.getLast?_concat] at hlists
  rcases List.mem_cons.mp (List.mem_of_getLast? hlists.symm) with hpoint | hmem
  · exact absurd hpoint (by decide)
  · exact h.not_mem (by decide) hmem

end Call

-- ── What tokens write ───────────────────────────────────────────────────────

/-- No identifier among the tokens of a text is empty. -/
theorem Token.text_ne_of_ofText {source : String} {ts : List Token} (h : ofText source = .ok ts) :
    ∀ t ∈ ts, t.kind = .identifier → t.text ≠ "" := by
  obtain ⟨front, start, rest, rfl, hcut, -⟩ := exists_cut_of_ofText h
  intro t ht hkind
  rcases List.mem_append.mp ht with ht | ht
  · obtain ⟨_, spelling, after, -, hspelled, -⟩ := hcut.exists_lexeme ht
    rw [hkind] at hspelled
    generalize t.text = text at hspelled
    cases hspelled with
    | identifier _ _ _ _ => exact fun hnil => nomatch String.ofList_eq_empty_iff.mp hnil
    | sign hmem _ =>
        have hsigns : ∀ s ∈ signs, s.1 ≠ .identifier := by decide
        exact absurd rfl (hsigns _ hmem)
  · rw [List.mem_singleton.mp ht] at hkind
    exact nomatch hkind

/-- Every identifier among the tokens is a word, and not an empty one. -/
structure ProperWords (ts : List Token) : Prop where
  words : Words ts
  nonempty : ∀ t ∈ ts, t.kind = .identifier → t.text ≠ ""

theorem ProperWords.tail {t : Token} {ts : List Token} (h : ProperWords (t :: ts)) :
    ProperWords ts :=
  ⟨h.words.tail, fun u hu => h.nonempty u (List.mem_cons_of_mem _ hu)⟩

/-- What a rule leaves of proper words are proper words. -/
theorem ProperWords.rest {ts rest : List Token} (h : ProperWords ts)
    (hrest : Grammar.Consumes ts rest) : ProperWords rest := by
  refine ⟨h.words.rest hrest, ?_⟩
  obtain ⟨front, rfl, -⟩ := hrest
  exact fun t ht => h.nonempty t (List.mem_append_right _ ht)

/-- No token of a text is an identifier without characters. -/
theorem properWords_ofText {source : String} {ts : List Token} (h : Token.ofText source = .ok ts) :
    ProperWords ts :=
  ⟨words_ofText h, Token.text_ne_of_ofText h⟩

namespace Grammar

variable {ts rest : List Token}

/-- A name that is written has a character. -/
theorem WritesName.ne_empty {name : String} (h : WritesName ts name rest) (hw : ProperWords ts) :
    name ≠ "" := by
  cases h with
  | identifier hkind => exact hw.nonempty _ List.mem_cons_self hkind

/-- No argument is the empty name, whose text would be that of no argument. -/
theorem WritesArgument.ne_empty {arg : Argument} (h : WritesArgument ts arg rest)
    (hw : ProperWords ts) : arg ≠ .column none "" := by
  rintro rfl
  cases h with
  | column hname =>
      generalize hempty : "" = name at hname
      cases hname with
      | bare hname => exact hname.ne_empty hw hempty.symm

mutual

/-- The parts of a written argument can be told apart. By recursion over nested calls. -/
theorem WritesArgument.named {ts rest : List Token} {arg : Argument} :
    WritesArgument ts arg rest → ProperWords ts → arg.Named
  | .star _, _ => .star
  | .column hname, hw => (hname.isWordName hw.words).named
  | .tableStar htable _ _, hw => .tableStar (htable.isWord hw.words).unmarked
  | .call hname _ hargs, hw =>
      have hargs := hargs.named (hw.rest hname.consumes).tail
      .call (hname.isWord hw.words).unmarked_upper (fun a ha => (hargs a ha).1)
        fun a ha => (hargs a ha).2

/-- The arguments of a call are such, and none is empty. -/
theorem WritesArguments.named {ts rest : List Token} {args : List Argument} :
    WritesArguments ts args rest → ProperWords ts → ∀ a ∈ args, a.Named ∧ a ≠ .column none ""
  | .none _, _ => fun _ ha => nomatch ha
  | .some harg hmore, hw => List.forall_mem_cons.mpr
      ⟨⟨harg.named hw, harg.ne_empty hw⟩, hmore.named (hw.rest harg.consumes)⟩

/-- The parts of the arguments behind a first one can be told apart. -/
theorem WritesMoreArguments.named {ts rest : List Token} {args : List Argument} :
    WritesMoreArguments ts args rest → ProperWords ts →
      ∀ a ∈ args, a.Named ∧ a ≠ .column none ""
  | .close _, _ => fun _ ha => nomatch ha
  | .comma _ harg hmore, hw => List.forall_mem_cons.mpr
      ⟨⟨harg.named hw.tail, harg.ne_empty hw.tail⟩, hmore.named (hw.tail.rest harg.consumes)⟩

end

/-- A call anywhere within the tokens of a text has parts that can be told apart. -/
theorem CallWithin.named {call : Call} (h : CallWithin ts call) (hw : ProperWords ts) :
    call.Named := by
  obtain ⟨us, rest, hus, hcall⟩ := h
  cases hcall with
  | call hname hparen hargs =>
      exact (WritesArgument.call hname hparen hargs).named (hw.rest hus)

end Grammar

namespace Select

/-- The query names a column, a label or a group key so. -/
inductive Names (s : Select) : String → Prop where
  | column {table label : Option String} {name : String}
      (mem : .field table name label ∈ s.columns) : s.Names name
  | columnLabel {table : Option String} {name label : String}
      (mem : .field table name (some label) ∈ s.columns) : s.Names label
  | callLabel {call : Call} {label : String} (mem : .call call (some label) ∈ s.columns) :
      s.Names label
  | groupKey {key : GroupKey} (mem : key ∈ s.groupBy) : s.Names key.field

/-- An identifier of a statement is a word. -/
theorem InWords.isWord_of_names {s : Select} (h : s.InWords) {name : String}
    (hname : s.Names name) :
    IsWord name := by
  cases hname with
  | column hmem => exact (h.columns _ hmem).1.2
  | columnLabel hmem => exact (h.columns _ hmem).2 _ rfl
  | callLabel hmem => exact (h.columns _ hmem).2 _ rfl
  | groupKey hmem => exact (h.groupBy _ hmem).2

/-- The calls of a parsed statement have parts that can be told apart. -/
theorem Calls.named {source : String} {s : Select} {call : Call} (h : s.Calls call)
    (hs : ofText source = .ok s) : call.Named := by
  obtain ⟨ts, hts, hwithin⟩ := callWithin_of_ofText hs h
  exact hwithin.named (properWords_ofText hts)

end Select

/-- **Signatures never collide.** Two calls that queries of any texts make, selected, in a condition
    or as arguments of other calls, have one signature if and only if they have one name and the
    same arguments; their labels do not matter. And no identifier of any text is a signature, so no
    label, column or group key takes the name of one. -/
theorem signatures_apart {text text' : String} {s s' : Select} (hs : Select.ofText text = .ok s)
    (hs' : Select.ofText text' = .ok s') {call call' : Call} (hcall : s.Calls call)
    (hcall' : s'.Calls call') :
    (call.signature = call'.signature ↔
      call.name = call'.name ∧ call.arguments = call'.arguments) ∧
    (∀ source ts, Token.ofText source = .ok ts → ∀ t ∈ ts, t.kind = .identifier →
      call.signature ≠ t.text) ∧
    ∀ name, s'.Names name → call.signature ≠ name := by
  refine ⟨⟨?_, ?_⟩, ?_, ?_⟩
  · intro heq
    rw [(hcall.named hs).eq_of_signature_eq (hcall'.named hs') heq]
    exact ⟨rfl, rfl⟩
  · rintro ⟨hname, harguments⟩
    rw [Call.signature, Call.signature, hname, harguments]
  · intro source ts hts t ht hkind
    exact Call.signature_ne_of_isWord (words_ofText hts t ht hkind) call
  · intro name hname
    exact Call.signature_ne_of_isWord ((Select.inWords_ofText hs').isWord_of_names hname) call

/-- Two calls of one name over the same names, in two orders of nesting. -/
def Select.sampleNested : Select :=
  { columns := [.field none "name" none,
      .call ⟨"MASS", [.call "F" [.column none "a", .column none "b"], .tableStar "u"]⟩
        (some "total")]
    source := "u"
    indexHint := none
    joins := []
    filter := none
    groupBy := [⟨none, "name"⟩]
    having := some (.compare ⟨.call ⟨"MASS", [.call "F" [.column none "a"], .column none "b",
      .tableStar "u"]⟩, .gt, .number (.ofNat 1)⟩)
    orderBy := []
    limit := none }

/-- Calls in `SELECT` and `HAVING` that differ in a nested call only. -/
theorem signatures_apart_sample :
    ∃ s nested flat, Select.ofText ("SELECT name, maß(f(a, b), u.*) AS total FROM u GROUP BY name "
        ++ "HAVING Mass(F(a), b, u.*) > 1") = .ok s ∧
      s.Calls nested ∧ nested.signature = "MASS(F(a, b), u.*)" ∧
      s.Calls flat ∧ flat.signature = "MASS(F(a), b, u.*)" ∧
      s.Calls ⟨"F", [.column none "a"]⟩ ∧
      nested.signature ≠ flat.signature ∧ s.Names "total" ∧ nested.signature ≠ "total" := by
  have hs : Select.ofText ("SELECT name, maß(f(a, b), u.*) AS total FROM u GROUP BY name "
      ++ "HAVING Mass(F(a), b, u.*) > 1") = .ok .sampleNested :=
    eq_ok_of_toOption (by decide +kernel)
  have hnested : Select.sampleNested.Calls
      ⟨"MASS", [.call "F" [.column none "a", .column none "b"], .tableStar "u"]⟩ :=
    .selected (by decide)
  have hflat : Select.sampleNested.Calls
      ⟨"MASS", [.call "F" [.column none "a"], .column none "b", .tableStar "u"]⟩ :=
    .having rfl (by decide)
  have hlabel : Select.sampleNested.Names "total" :=
    .callLabel (List.mem_cons_of_mem _ List.mem_cons_self)
  obtain ⟨hsame, -, hnames⟩ := signatures_apart hs hs hnested hflat
  refine ⟨_, _, _, hs, hnested, by decide +kernel, hflat, by decide +kernel,
    .argument hflat List.mem_cons_self, ?_, hlabel, hnames _ hlabel⟩
  intro heq
  exact absurd (hsame.mp heq).2 (by decide)

end DocQuery
