import DocQuery.Proofs.Statement.Reader
import DocQuery.Proofs.Statement.Spelling

/-!
# What is read is written

A reader follows the grammar (`Follows`) if what it takes writes what it reads, if what it took
before it stops can be gone on with, and if it looks no further than at the token where it ends
or stops. This is kept when readers are put together (`Follows.bind`, `Follows.perhaps`), so it
holds of every nonterminal; the recursive ones are followed on shorter and shorter tokens. The
conditions are read in one pass and written by rules that nest to the left, so what has been read
so far is carried along (`follows_conjunctionFrom`).
-/

namespace DocQuery

namespace Grammar

variable {α β : Type} {ts : List Token}

-- ── Following the grammar ───────────────────────────────────────────────────

/-- There are tokens that write something, whatever comes after them. -/
def Completable (W : List Token → α → List Token → Prop) : Prop :=
  ∃ more v, ∀ us, W (more ++ us) v us

/-- On these tokens the reader takes a front that writes what is read, or it stops behind a front
    that can be gone on with. It does the same on any tokens with this front and with the same
    token behind it. -/
structure Follows (W : List Token → α → List Token → Prop) (m : Reader α) (ts : List Token) :
    Prop where
  reads : ∀ v rest, m ts = .ok (v, rest) → ∃ front, ts = front ++ rest ∧
    (∀ us, W (front ++ us) v us) ∧
      ∀ us, us.head? = rest.head? → m (front ++ us) = .ok (v, us)
  stops : ∀ stop, m ts = .error stop → ∃ front, ts = front ++ stop.rest ∧
    Completable (fun us => W (front ++ us)) ∧
      ∀ us, us.head? = stop.rest.head? → m (front ++ us) = .error ⟨stop.expected, us⟩

namespace Follows

variable {W : List Token → α → List Token → Prop}

/-- What takes nothing follows a rule that takes nothing. -/
theorem pure {v : α} (h : ∀ us, W us v us) : Follows W (Pure.pure v) ts := by
  constructor
  · intro w rest hw
    obtain ⟨rfl, rfl⟩ := Prod.mk.inj (Except.ok.inj hw)
    exact ⟨[], rfl, h, fun us _ => rfl⟩
  · intro stop hstop
    cases hstop

/-- A reader that follows a rule follows a more liberal one. -/
theorem mono {V : List Token → α → List Token → Prop} {m : Reader α} (hm : Follows V m ts)
    (h : ∀ us v rest, V us v rest → W us v rest) : Follows W m ts := by
  constructor
  · intro v rest hv
    obtain ⟨front, hts, hwrites, hsame⟩ := hm.reads v rest hv
    exact ⟨front, hts, fun us => h _ _ _ (hwrites us), hsame⟩
  · intro stop hstop
    obtain ⟨front, hts, ⟨more, v, hwrites⟩, hsame⟩ := hm.stops stop hstop
    exact ⟨front, hts, ⟨more, v, fun us => h _ _ _ (hwrites us)⟩, hsame⟩

theorem head?_append {front us rest : List Token} (h : us.head? = rest.head?) :
    (front ++ us).head? = (front ++ rest).head? := by
  cases front with
  | nil => exact h
  | cons t front => rfl

/-- Readers that are the same on tokens with this first token. -/
theorem congr_head? {m m' : Reader α} (h : ∀ us, us.head? = ts.head? → m us = m' us)
    (hm : Follows W m' ts) : Follows W m ts := by
  have hfront : ∀ front rest us, ts = front ++ rest → us.head? = rest.head? →
      m (front ++ us) = m' (front ++ us) := by
    rintro front rest us rfl hus
    exact h _ (head?_append hus)
  constructor
  · intro v rest hv
    rw [h ts rfl] at hv
    obtain ⟨front, hts, hwrites, hsame⟩ := hm.reads v rest hv
    exact ⟨front, hts, hwrites, fun us hus => (hfront _ _ us hts hus).trans (hsame us hus)⟩
  · intro stop hstop
    rw [h ts rfl] at hstop
    obtain ⟨front, hts, hgo, hsame⟩ := hm.stops stop hstop
    exact ⟨front, hts, hgo, fun us hus => (hfront _ _ us hts hus).trans (hsame us hus)⟩

/-- One reader after another. If the first stops, what it took can be gone on with up to its end,
    and from there up to the end of the whole. -/
theorem bind {V : List Token → β → List Token → Prop} {m : Reader β} {f : β → Reader α}
    (hm : Follows V m ts)
    (hgo : ∀ front v, (∀ us, V (front ++ us) v us) → Completable fun us => W (front ++ us))
    (hf : ∀ front v rest, m ts = .ok (v, rest) → (∀ us, V (front ++ us) v us) →
      Follows (fun us => W (front ++ us)) (f v) rest) : Follows W (m >>= f) ts := by
  have hbind : ∀ us, (m >>= f) us = (m us >>= fun q => f q.1 q.2) := fun us => rfl
  constructor
  · intro w rest hw
    rw [hbind, bind_eq_ok_iff] at hw
    obtain ⟨⟨v, mid⟩, hv, hw⟩ := hw
    obtain ⟨front, hts, hwrites, hsame⟩ := hm.reads v mid hv
    obtain ⟨front', rfl, hwrites', hsame'⟩ := (hf front v mid hv hwrites).reads w rest hw
    refine ⟨front ++ front', ?_, ?_, ?_⟩
    · rw [hts, List.append_assoc]
    · intro us
      rw [List.append_assoc]
      exact hwrites' us
    · intro us hus
      rw [List.append_assoc, hbind, hsame _ (head?_append hus)]
      exact hsame' us hus
  · intro stop hstop
    rw [hbind] at hstop
    cases hv : m ts with
    | error stop' =>
        rw [hv] at hstop
        obtain rfl := Except.error.inj hstop
        obtain ⟨front, hts, ⟨more, v, hwrites⟩, hsame⟩ := hm.stops _ hv
        have hpart : ∀ us, V ((front ++ more) ++ us) v us := by
          intro us
          rw [List.append_assoc]
          exact hwrites us
        obtain ⟨more', w, hwhole⟩ := hgo _ v hpart
        refine ⟨front, hts, ⟨more ++ more', w, ?_⟩, ?_⟩
        · intro us
          have hus : W (front ++ more ++ (more' ++ us)) w us := hwhole us
          rw [List.append_assoc, ← List.append_assoc more] at hus
          exact hus
        · intro us hus
          rw [hbind, hsame us hus]
          rfl
    | ok q =>
        obtain ⟨v, mid⟩ := q
        rw [hv] at hstop
        obtain ⟨front, hts, hwrites, hsame⟩ := hm.reads v mid hv
        obtain ⟨front', hmid, ⟨more, w, hwrites'⟩, hsame'⟩ :=
          (hf front v mid hv hwrites).stops stop hstop
        refine ⟨front ++ front', ?_, ⟨more, w, ?_⟩, ?_⟩
        · rw [hts, hmid, List.append_assoc]
        · intro us
          rw [List.append_assoc]
          exact hwrites' us
        · intro us hus
          rw [List.append_assoc, hbind, hsame _ (by rw [hmid]; exact head?_append hus)]
          exact hsame' us hus

/-- A reader whose value is changed. -/
theorem map {V : List Token → β → List Token → Prop} {m : Reader β} {g : β → α}
    (hm : Follows V m ts)
    (h : ∀ front v, (∀ us, V (front ++ us) v us) → ∀ us, W (front ++ us) (g v) us) :
    Follows W (do let v ← m; return g v) ts :=
  hm.bind (fun front v hv => ⟨[], g v, h front v hv⟩)
    fun front v _ _ hv => .pure (h front v hv)

/-- What a reader does on its first token it does whatever is behind it. -/
theorem cons {m m' : Reader α} {t : Token} {us : List Token}
    (heq : ∀ us, m (t :: us) = m' us) (h : Follows (fun us => W (t :: us)) m' us) :
    Follows W m (t :: us) := by
  constructor
  · intro v rest hv
    rw [heq] at hv
    obtain ⟨front, rfl, hwrites, hsame⟩ := h.reads v rest hv
    refine ⟨t :: front, rfl, hwrites, ?_⟩
    intro us hus
    rw [List.cons_append, heq]
    exact hsame us hus
  · intro stop hstop
    rw [heq] at hstop
    obtain ⟨front, hus, hgo, hsame⟩ := h.stops stop hstop
    refine ⟨t :: front, congrArg (t :: ·) hus, hgo, ?_⟩
    intro us hus
    rw [List.cons_append, heq]
    exact hsame us hus

/-- A reader that stops at its first token, or for want of one. -/
theorem stop {m : Reader α} (expected : Expectation) (hgo : Completable W)
    (h : ∀ us, us.head? = ts.head? → m us = .error ⟨expected, us⟩) : Follows W m ts := by
  have hts := h ts rfl
  constructor
  · intro v rest hv
    rw [hts] at hv
    cases hv
  · intro stop hstop
    rw [hts] at hstop
    rw [← Except.error.inj hstop]
    exact ⟨[], rfl, hgo, h⟩

/-- A reader that takes a token by its value goes on behind it, and is not stuck in front of it. -/
theorem take_bind {value : Token → Except Expectation β} {expected : Expectation}
    {f : β → Reader α} (hgo : Completable W)
    (hf : ∀ t us v, ts = t :: us → value t = .ok v → Follows (fun us => W (t :: us)) (f v) us) :
    Follows W (take value expected >>= f) ts := by
  have hbind : ∀ us, (take value expected >>= f) us =
      (take value expected us >>= fun q => f q.1 q.2) := fun us => rfl
  cases ts with
  | nil =>
      refine .stop expected hgo ?_
      intro us hus
      rw [List.head?_eq_none_iff.mp hus]
      rfl
  | cons t us =>
      cases hv : value t with
      | error e =>
          refine .stop e hgo ?_
          intro vs hvs
          obtain ⟨tail, rfl⟩ := List.head?_eq_some_iff.mp hvs
          rw [hbind, take, hv]
          rfl
      | ok v =>
          refine .cons ?_ (hf t us v rfl hv)
          intro us
          rw [hbind, take, hv]
          rfl

/-- A reader follows a rule at an expected token if what it does behind that does. -/
theorem expect_bind {test : Token → Bool} {expected : Expectation} {f : Token → Reader α}
    (hgo : Completable W)
    (hf : ∀ t us, ts = t :: us → test t = true → Follows (fun us => W (t :: us)) (f t) us) :
    Follows W (expect test expected >>= f) ts := by
  refine .take_bind hgo ?_
  intro t us v hts hv
  split at hv
  · rename_i htest
    rw [← Except.ok.inj hv]
    exact hf t us hts htest
  · cases hv

/-- A reader follows a rule at a token of a kind if what it does behind that does. -/
theorem kind_bind {k : TokenKind} {expected : Expectation} {f : String → Reader α}
    (hgo : Completable W)
    (hf : ∀ t us, ts = t :: us → t.kind = k → Follows (fun us => W (t :: us)) (f t.text) us) :
    Follows W (reader (kind k expected) >>= f) ts := by
  rw [reader_kind, bind_assoc]
  exact .expect_bind hgo fun t us hts hk => hf t us hts (beq_iff_eq.mp hk)

/-- A reader follows a rule at a keyword if what it does behind that does. -/
theorem keyword_bind {word : String} {f : Token → Reader α} (hgo : Completable W)
    (hf : ∀ t us, ts = t :: us → t.isKeyword word = true →
      Follows (fun us => W (t :: us)) (f t) us) :
    Follows W (reader (keyword word) >>= f) ts := by
  rw [reader_keyword, bind_assoc]
  exact .expect_bind hgo hf

/-- A choice follows a rule if both of its ways do. -/
theorem perhaps {test : Token → Bool} {yes : Token → Reader α} {no : Reader α}
    (hyes : ∀ t us, ts = t :: us → test t = true → Follows (fun us => W (t :: us)) (yes t) us)
    (hno : Follows W no ts) : Follows W (perhaps test yes no) ts := by
  by_cases htest : ∃ t us, ts = t :: us ∧ test t = true
  · obtain ⟨t, us, rfl, htest⟩ := htest
    exact .cons (fun us => if_pos htest) (hyes t us rfl htest)
  · refine .congr_head? ?_ hno
    intro us hus
    cases us with
    | nil => rfl
    | cons t us =>
        refine if_neg fun ht => htest ?_
        obtain ⟨tail, hts⟩ := List.head?_eq_some_iff.mp hus.symm
        exact ⟨t, tail, hts, ht⟩

end Follows

-- ── Lists and clauses ───────────────────────────────────────────────────────

theorem length_of_eq_cons {t : Token} {us : List Token} (h : ts = t :: us) :
    us.length < ts.length := by
  rw [h]
  exact Nat.lt_succ_self _

/-- A list is read by its rule if its items are. The induction is on the tokens that are left. -/
theorem follows_separated {test : Token → Bool} {separates : Token → Prop}
    {item : (ts : List Token) → Parsed α ts.length} {Item : List Token → α → List Token → Prop}
    (hsep : ∀ t, test t = true → separates t) (hitem : ∀ ts, Follows Item (reader item) ts)
    (ts : List Token) :
    Follows (WritesList separates Item) (reader (separated (next? test) item)) ts := by
  rw [reader_separated]
  refine .bind (hitem ts) (fun front x hx => ⟨[], _, fun us => .one (hx us)⟩) ?_
  intro front first rest hrest hfirst
  have := length_lt_of_reader hrest
  refine .perhaps ?_ (.pure fun us => .one (hfirst us))
  intro sep us hus htest
  have := length_of_eq_cons hus
  refine .map (follows_separated hsep hitem us) ?_
  intro front' others hothers us
  exact .cons (hfirst _) (hsep sep htest) (hothers us)
termination_by ts.length
decreasing_by omega

theorem follows_commas {item : (ts : List Token) → Parsed α ts.length}
    {Item : List Token → α → List Token → Prop} (hitem : ∀ ts, Follows Item (reader item) ts)
    (ts : List Token) :
    Follows (WritesList (·.kind = .comma) Item) (reader (list item)) ts :=
  follows_separated (fun _ => beq_iff_eq.mp) hitem ts

/-- A clause is read by its rule if its body is. -/
theorem follows_clause? {word : String} {body : (ts : List Token) → Parsed α ts.length}
    {Body : List Token → α → List Token → Prop} (hbody : ∀ ts, Follows Body (reader body) ts)
    (ts : List Token) : Follows (WritesClause word Body) (reader (clause? word body)) ts := by
  rw [reader_clause?]
  refine .perhaps ?_ (.pure fun us => .absent)
  intro t us _ hword
  exact .map (hbody us) fun front v hv us => .present hword (hv us)

theorem follows_afterBy {body : (ts : List Token) → Parsed α ts.length}
    {Body : List Token → α → List Token → Prop} (hgo : Completable Body)
    (hbody : ∀ ts, Follows Body (reader body) ts) (ts : List Token) :
    Follows (WritesBy Body) (reader (afterBy body)) ts := by
  rw [reader_afterBy]
  obtain ⟨more, v, hmore⟩ := hgo
  refine .keyword_bind ⟨wordToken "BY" :: more, v, fun us => .word rfl (hmore us)⟩ ?_
  intro t us _ hword
  exact (hbody us).mono fun us v rest hv => .word hword hv

-- ── Names ───────────────────────────────────────────────────────────────────

/-- A name, to go on with where one is missing. -/
def someName : Token :=
  ⟨.identifier, "x", 0⟩

/-- A point. -/
def pointToken : Token :=
  ⟨.dot, ".", 0⟩

theorem writes_someName (us : List Token) : WritesName (someName :: us) "x" us :=
  .identifier rfl

/-- A name is read by its rule. -/
theorem follows_identifier (ts : List Token) : Follows WritesName (reader identifier) ts := by
  rw [← bind_pure (reader identifier)]
  refine .kind_bind ⟨[someName], _, fun us => .identifier rfl⟩ ?_
  intro t us _ hkind
  exact .pure fun us => .identifier hkind

/-- A name of a column is read by its rule, bare or qualified. -/
theorem follows_columnName (ts : List Token) :
    Follows (fun ts name => WritesColumnName ts name.1 name.2) (reader columnName) ts := by
  rw [reader_columnName]
  refine .kind_bind ⟨[someName], (none, _), fun us => .bare (writes_someName _)⟩ ?_
  intro name us _ hname
  refine .perhaps ?_ (.pure fun us => .bare (.identifier hname))
  intro dot us _ hdot
  have hdot := beq_iff_eq.mp hdot
  refine .kind_bind ⟨[someName], (some _, _),
    fun us => .qualified (.identifier hname) hdot (writes_someName _)⟩ ?_
  intro field us _ hfield
  exact .pure fun us => .qualified (.identifier hname) hdot (.identifier hfield)

theorem follows_table (ts : List Token) :
    Follows (fun ts name => WritesTable ts name.1 name.2) (reader table) ts := by
  rw [reader_table]
  refine .kind_bind ⟨[someName], (_, none), fun us => .bare (writes_someName _)⟩ ?_
  intro name us _ hname
  refine .perhaps ?_ (.pure fun us => .bare (.identifier hname))
  intro sign us _ hsign
  have hsign := beq_iff_eq.mp hsign
  refine .kind_bind ⟨[someName], (_, some _),
    fun us => .hinted (.identifier hname) hsign (writes_someName _)⟩ ?_
  intro index us _ hindex
  exact .pure fun us => .hinted (.identifier hname) hsign (.identifier hindex)

theorem follows_label? (ts : List Token) : Follows WritesLabel (reader label?) ts :=
  follows_clause? follows_identifier ts

-- ── Calls ───────────────────────────────────────────────────────────────────

mutual

/-- An argument is read by its rule, and by the same recursion its nested calls. -/
theorem follows_argument (ts : List Token) : Follows WritesArgument (reader argument) ts := by
  rw [reader_argument]
  refine .perhaps (fun star us _ hstar => .pure fun us => .star (beq_iff_eq.mp hstar)) ?_
  refine .kind_bind ⟨[someName], _, fun us => .column (.bare (writes_someName _))⟩ ?_
  intro name us hts hname
  have := length_of_eq_cons hts
  refine .perhaps ?_ (.perhaps ?_ (.pure fun us => .column (.bare (.identifier hname))))
  · intro paren us hus hparen
    have := length_of_eq_cons hus
    refine .map (follows_arguments us) ?_
    intro front args hargs us
    exact .call (.identifier hname) (beq_iff_eq.mp hparen) (hargs us)
  · intro dot us _ hdot
    have hdot := beq_iff_eq.mp hdot
    refine .perhaps ?_ ?_
    · intro star us _ hstar
      exact .pure fun us => .tableStar (.identifier hname) hdot (beq_iff_eq.mp hstar)
    · refine .kind_bind ⟨[someName], _,
        fun us => .column (.qualified (.identifier hname) hdot (writes_someName _))⟩ ?_
      intro field us _ hfield
      exact .pure fun us => .column (.qualified (.identifier hname) hdot (.identifier hfield))
termination_by 2 * ts.length
decreasing_by omega

theorem follows_arguments (ts : List Token) : Follows WritesArguments (reader arguments) ts := by
  rw [reader_arguments]
  refine .perhaps (fun paren us _ hparen => .pure fun us => .none (beq_iff_eq.mp hparen)) ?_
  refine .bind (follows_argument ts) ?_ ?_
  · intro front arg harg
    exact ⟨[⟨.rightParen, ")", 0⟩], _, fun us => .some (harg _) (.close rfl)⟩
  · intro front arg rest hrest harg
    have := length_lt_of_reader hrest
    exact .map (follows_moreArguments rest) fun front args hargs us => .some (harg _) (hargs us)
termination_by 2 * ts.length + 1
decreasing_by all_goals omega

theorem follows_moreArguments (ts : List Token) :
    Follows WritesMoreArguments (reader moreArguments) ts := by
  rw [reader_moreArguments]
  refine .perhaps ?_ ?_
  · intro comma us hus hcomma
    have hcomma := beq_iff_eq.mp hcomma
    have := length_of_eq_cons hus
    refine .bind (follows_argument us) ?_ ?_
    · intro front arg harg
      exact ⟨[⟨.rightParen, ")", 0⟩], _, fun us => .comma hcomma (harg _) (.close rfl)⟩
    · intro front arg rest hrest harg
      have := length_lt_of_reader hrest
      refine .map (follows_moreArguments rest) ?_
      intro front args hargs us
      exact .comma hcomma (harg _) (hargs us)
  · refine .kind_bind ⟨[⟨.rightParen, ")", 0⟩], _, fun us => .close rfl⟩ ?_
    intro paren us _ hparen
    exact .pure fun us => .close hparen
termination_by 2 * ts.length + 1
decreasing_by all_goals omega

end

-- ── Columns ─────────────────────────────────────────────────────────────────

theorem follows_column (ts : List Token) : Follows WritesColumn (reader column) ts := by
  rw [reader_column]
  refine .kind_bind ⟨[someName], _, fun us => .field (.bare (writes_someName _)) .absent⟩ ?_
  intro name us _ hname
  refine .perhaps ?_ (.perhaps ?_ ?_)
  · intro paren us _ hparen
    have hparen := beq_iff_eq.mp hparen
    refine .bind (follows_arguments us) ?_ ?_
    · intro front args hargs
      exact ⟨[], _, fun us => .call (.call (.identifier hname) hparen (hargs us)) .absent⟩
    · intro front args rest _ hargs
      refine .map (follows_label? rest) ?_
      intro front label hlabel us
      exact .call (.call (.identifier hname) hparen (hargs _)) (hlabel us)
  · intro dot us _ hdot
    have hdot := beq_iff_eq.mp hdot
    refine .perhaps ?_ ?_
    · intro star us _ hstar
      exact .pure fun us => .tableStar (.identifier hname) hdot (beq_iff_eq.mp hstar)
    · refine .kind_bind ⟨[someName], _,
        fun us => .field (.qualified (.identifier hname) hdot (writes_someName _)) .absent⟩ ?_
      intro field us _ hfield
      refine .map (follows_label? us) ?_
      intro front label hlabel us
      exact .field (.qualified (.identifier hname) hdot (.identifier hfield)) (hlabel us)
  · refine .map (follows_label? us) ?_
    intro front label hlabel us
    exact .field (.bare (.identifier hname)) (hlabel us)

theorem follows_columns (ts : List Token) : Follows WritesColumns (reader columns) ts := by
  rw [reader_columns]
  refine .perhaps (fun star us _ hstar => .pure fun us => .star (beq_iff_eq.mp hstar)) ?_
  exact (follows_commas follows_column ts).mono fun _ _ _ => .list

-- ── Joins ───────────────────────────────────────────────────────────────────

theorem follows_qualifiedName (ts : List Token) :
    Follows (fun ts name => WritesColumnName ts (some name.1) name.2) (reader qualifiedName)
      ts := by
  rw [reader_qualifiedName]
  refine .kind_bind ⟨[someName, pointToken, someName], (_, _),
    fun us => .qualified (writes_someName _) rfl (writes_someName _)⟩ ?_
  intro table us _ htable
  refine .kind_bind ⟨[pointToken, someName], (_, _),
    fun us => .qualified (.identifier htable) rfl (writes_someName _)⟩ ?_
  intro dot us _ hdot
  refine .kind_bind ⟨[someName], (_, _),
    fun us => .qualified (.identifier htable) hdot (writes_someName _)⟩ ?_
  intro field us _ hfield
  exact .pure fun us => .qualified (.identifier htable) hdot (.identifier hfield)

/-- An equality, to go on with where one is missing. -/
def someEquality : List Token :=
  [someName, pointToken, someName, ⟨.operator, "=", 0⟩, someName, pointToken, someName]

theorem writes_someEquality (us : List Token) :
    WritesEquality (someEquality ++ us) ⟨"x", "x", "x", "x"⟩ us :=
  .equals (.qualified (writes_someName _) rfl (writes_someName _)) rfl rfl
    (.qualified (writes_someName _) rfl (writes_someName _))

theorem follows_equality (ts : List Token) : Follows WritesEquality (reader equality) ts := by
  have hgo : ∀ front table field, (∀ us, WritesColumnName (front ++ us) (some table) field us) →
      Completable fun us => WritesEquality (front ++ us) := by
    intro front table field hname
    exact ⟨[⟨.operator, "=", 0⟩, someName, pointToken, someName], _, fun us =>
      .equals (hname _) rfl rfl (.qualified (writes_someName _) rfl (writes_someName _))⟩
  rw [reader_equality]
  refine .bind (follows_qualifiedName ts) (fun front left hleft => hgo front _ _ hleft) ?_
  intro front left rest _ hleft
  refine .expect_bind (hgo front _ _ hleft) ?_
  intro sign us _ hsign
  rw [Bool.and_eq_true, beq_iff_eq, beq_iff_eq] at hsign
  refine .map (follows_qualifiedName us) ?_
  intro front right hright us
  exact .equals (hleft _) hsign.1 hsign.2 (hright us)

/-- Behind the words of a join there is a joined table. -/
theorem follows_join (pre : List Token → List Token)
    (h : ∀ us, WritesJoinWords (pre us) us) (ts : List Token) :
    Follows (fun us => WritesJoin (pre us)) (reader join) ts := by
  have hgo : ∀ front table hint, (∀ us, WritesTable (front ++ us) table hint us) →
      Completable fun us => WritesJoin (pre (front ++ us)) := by
    intro front table hint htable
    exact ⟨wordToken "ON" :: someEquality, _,
      fun us => .join (h _) (htable _) rfl (.one (writes_someEquality us))⟩
  rw [reader_join]
  refine .bind (follows_table ts) (fun front table htable => hgo front _ _ htable) ?_
  intro front table rest _ htable
  refine .keyword_bind (hgo front _ _ htable) ?_
  intro on us _ hon
  refine .map (follows_separated (fun _ hand => hand) follows_equality us) ?_
  intro front conditions hconditions us
  exact .join (h _) (htable _) hon (hconditions us)

/-- The joins are read by their rule. The induction is on the tokens that are left. -/
theorem follows_joins (ts : List Token) : Follows WritesJoins (reader joins) ts := by
  have hafter : ∀ (pre : List Token → List Token) (us : List Token), us.length < ts.length →
      (∀ vs, WritesJoinWords (pre vs) vs) → Follows (fun vs => WritesJoins (pre vs)) (do
        let first ← reader join
        let others ← reader joins
        return first :: others) us := by
    intro pre us hlength hwords
    refine .bind (follows_join pre hwords us) ?_ ?_
    · intro front first hfirst
      exact ⟨[], _, fun us => .cons (hfirst us) .nil⟩
    · intro front first rest hrest hfirst
      have := length_lt_of_reader hrest
      refine .map (follows_joins rest) ?_
      intro front others hothers us
      exact .cons (hfirst _) (hothers us)
  rw [reader_joins]
  refine .perhaps ?_ (.perhaps ?_ (.pure fun us => .nil))
  · intro inner us hus hinner
    have := length_of_eq_cons hus
    refine .keyword_bind ⟨wordToken "JOIN" :: someName :: wordToken "ON" :: someEquality, _,
      fun us => .cons (.join (.inner hinner rfl) (.bare (writes_someName _)) rfl
        (.one (writes_someEquality us))) .nil⟩ ?_
    intro word us hus hjoin
    have := length_of_eq_cons hus
    exact hafter (fun vs => inner :: word :: vs) us (by omega) fun vs => .inner hinner hjoin
  · intro word us hus hjoin
    exact hafter (fun vs => word :: vs) us (length_of_eq_cons hus) fun vs => .join hjoin
termination_by ts.length
decreasing_by omega

-- ── Conditions ──────────────────────────────────────────────────────────────

theorem follows_subject (ts : List Token) : Follows WritesSubject (reader subject) ts := by
  rw [reader_subject]
  refine .kind_bind ⟨[someName], _, fun us => .column (.bare (writes_someName _))⟩ ?_
  intro name us _ hname
  refine .perhaps ?_ (.perhaps ?_ (.pure fun us => .column (.bare (.identifier hname))))
  · intro paren us _ hparen
    refine .map (follows_arguments us) ?_
    intro front args hargs us
    exact .call (.call (.identifier hname) (beq_iff_eq.mp hparen) (hargs us))
  · intro dot us _ hdot
    have hdot := beq_iff_eq.mp hdot
    refine .kind_bind ⟨[someName], _,
      fun us => .column (.qualified (.identifier hname) hdot (writes_someName _))⟩ ?_
    intro field us _ hfield
    exact .pure fun us => .column (.qualified (.identifier hname) hdot (.identifier hfield))

/-- The value of a literal is the one that it writes. -/
theorem literalOf_eq_ok_iff {t : Token} {value : Value} :
    literalOf t = .ok value ↔ WritesLiteral t value := by
  obtain ⟨kind, text, offset⟩ := t
  constructor
  · intro h
    rw [literalOf] at h
    split at h
    · rw [← Except.ok.inj h]
      exact .text ‹_›
    · split at h
      · rename_i x hx
        rw [← Except.ok.inj h]
        exact .number ‹_› hx
      · cases h
    · rename_i hkind
      have hword : ∀ word, text = word → (⟨kind, text, offset⟩ : Token).isKeyword word = true :=
        fun _ htext => Token.isKeyword_iff.mpr ⟨hkind, htext⟩
      split at h
      · rw [← Except.ok.inj h]
        exact .true (hword _ ‹_›)
      · split at h
        · rw [← Except.ok.inj h]
          exact .false (hword _ ‹_›)
        · split at h
          · rw [← Except.ok.inj h]
            exact .null (hword _ ‹_›)
          · cases h
    · cases h
  · intro h
    cases h with
    | text hkind =>
        cases hkind
        rfl
    | number hkind hx =>
        cases hkind
        rw [literalOf]
        simp only [hx]
    | true hword =>
        obtain ⟨rfl, rfl⟩ := Token.isKeyword_iff.mp hword
        rfl
    | false hword =>
        obtain ⟨rfl, rfl⟩ := Token.isKeyword_iff.mp hword
        rfl
    | null hword =>
        obtain ⟨rfl, rfl⟩ := Token.isKeyword_iff.mp hword
        rfl

/-- An operator is known by its sign. -/
theorem operatorOf_eq_ok {t : Token} {op : Operator} (h : operatorOf t = .ok op) :
    t.kind = .operator ∧ Operator.ofSymbol? t.text = some op := by
  rw [operatorOf] at h
  split at h
  · rename_i hkind
    split at h
    · rename_i op' hop
      rw [← Except.ok.inj h]
      exact ⟨hkind, hop⟩
    · cases h
  · cases h

mutual

/-- A test is read by its rule, and by the same recursion the condition in its parentheses. -/
theorem follows_test (ts : List Token) : Follows WritesTest (reader test) ts := by
  rw [reader_test, reader_operator, reader_literal]
  refine .perhaps ?_ ?_
  · intro paren us hus hparen
    have hparen := beq_iff_eq.mp hparen
    have := length_of_eq_cons hus
    have hgo : ∀ front c, (∀ us, WritesDisjunction (front ++ us) c us) →
        Completable fun us => WritesTest (paren :: (front ++ us)) := by
      intro front c hc
      exact ⟨[⟨.rightParen, ")", 0⟩], c, fun us => .parens hparen (hc _) rfl⟩
    refine .bind (follows_disjunction us) hgo ?_
    intro front inner rest _ hinner
    refine .kind_bind (hgo front inner hinner) ?_
    intro close us _ hclose
    exact .pure fun us => .parens hparen (hinner _) hclose
  · have hgo : ∀ front subject, (∀ us, WritesSubject (front ++ us) subject us) →
        Completable fun us => WritesTest (front ++ us) := by
      intro front subject hsubject
      exact ⟨[⟨.operator, "=", 0⟩, wordToken "NULL"], _,
        fun us => .compare (hsubject _) rfl rfl (.null rfl)⟩
    refine .bind (follows_subject ts) hgo ?_
    intro front subject rest _ hsubject
    refine .take_bind (hgo front subject hsubject) ?_
    intro sign us op _ hop
    obtain ⟨hsign, hop⟩ := operatorOf_eq_ok hop
    refine .take_bind ⟨[wordToken "NULL"], _,
      fun us => .compare (hsubject _) hsign hop (.null rfl)⟩ ?_
    intro literal us value _ hvalue
    exact .pure fun us => .compare (hsubject _) hsign hop (literalOf_eq_ok_iff.mp hvalue)
termination_by 4 * ts.length
decreasing_by omega

/-- A conjunction is read by its rule. -/
theorem follows_conjunction (ts : List Token) :
    Follows WritesConjunction (reader conjunction) ts := by
  rw [reader_conjunction]
  refine .bind (follows_test ts) (fun front c hc => ⟨[], c, fun us => .test (hc us)⟩) ?_
  intro front first rest hrest hfirst
  have := length_lt_of_reader hrest
  exact follows_conjunctionFrom (front ++ ·) (fun us => .test (hfirst us)) rest
termination_by 4 * ts.length + 1
decreasing_by all_goals omega

/-- What has been read so far stands in front of what is still to be read. -/
theorem follows_conjunctionFrom (pre : List Token → List Token) {left : Condition}
    (h : ∀ us, WritesConjunction (pre us) left us) (ts : List Token) :
    Follows (fun us => WritesConjunction (pre us)) (reader (conjunctionFrom left)) ts := by
  rw [reader_conjunctionFrom]
  refine .perhaps ?_ (.pure h)
  intro word us hus hword
  have := length_of_eq_cons hus
  refine .bind (follows_test us) ?_ ?_
  · intro front right hright
    exact ⟨[], _, fun us => .and (h _) hword (hright us)⟩
  · intro front right rest hrest hright
    have := length_lt_of_reader hrest
    exact follows_conjunctionFrom (fun us => pre (word :: (front ++ us)))
      (fun us => .and (h _) hword (hright us)) rest
termination_by 4 * ts.length + 2
decreasing_by all_goals omega

theorem follows_disjunction (ts : List Token) :
    Follows WritesDisjunction (reader disjunction) ts := by
  rw [reader_disjunction]
  refine .bind (follows_conjunction ts)
    (fun front c hc => ⟨[], c, fun us => .conjunction (hc us)⟩) ?_
  intro front first rest hrest hfirst
  have := length_lt_of_reader hrest
  exact follows_disjunctionFrom (front ++ ·) (fun us => .conjunction (hfirst us)) rest
termination_by 4 * ts.length + 2
decreasing_by all_goals omega

/-- What stands in front of a disjunction is kept as its left part. -/
theorem follows_disjunctionFrom (pre : List Token → List Token) {left : Condition}
    (h : ∀ us, WritesDisjunction (pre us) left us) (ts : List Token) :
    Follows (fun us => WritesDisjunction (pre us)) (reader (disjunctionFrom left)) ts := by
  rw [reader_disjunctionFrom]
  refine .perhaps ?_ (.pure h)
  intro word us hus hword
  have := length_of_eq_cons hus
  refine .bind (follows_conjunction us) ?_ ?_
  · intro front right hright
    exact ⟨[], _, fun us => .or (h _) hword (hright us)⟩
  · intro front right rest hrest hright
    have := length_lt_of_reader hrest
    exact follows_disjunctionFrom (fun us => pre (word :: (front ++ us)))
      (fun us => .or (h _) hword (hright us)) rest
termination_by 4 * ts.length + 3
decreasing_by all_goals omega

end

-- ── Groups, order and limit ─────────────────────────────────────────────────

theorem follows_groupKey (ts : List Token) : Follows WritesGroupKey (reader groupKey) ts := by
  rw [reader_groupKey]
  exact .map (follows_columnName ts) fun front name hname us => .name (hname us)

theorem follows_orderKey (ts : List Token) : Follows WritesOrderKey (reader orderKey) ts := by
  rw [reader_orderKey]
  refine .bind (follows_columnName ts) ?_ ?_
  · intro front name hname
    exact ⟨[], _, fun us => .key (hname us) .unsaid⟩
  · intro front name rest _ hname
    refine .perhaps ?_ (.perhaps ?_ (.pure fun us => .key (hname us) .unsaid))
    · intro word us _ hword
      exact .pure fun us => .key (hname _) (.descending hword)
    · intro word us _ hword
      exact .pure fun us => .key (hname _) (.ascending hword)

theorem follows_limitCount (ts : List Token) : Follows WritesCount (reader limitCount) ts := by
  rw [reader_limitCount, ← bind_pure (take _ _)]
  refine .take_bind ⟨[⟨.number, "1", 0⟩], 1, fun us => .number rfl ?_⟩ ?_
  · decide +kernel
  · intro t us n _ hn
    rw [countOf] at hn
    split at hn
    · rename_i n' hkind hcount
      rw [← Except.ok.inj hn]
      exact .pure fun us => .number hkind hcount
    · cases hn

-- ── Queries ─────────────────────────────────────────────────────────────────

/-- A query is read by its rule, clause by clause. -/
theorem follows_query (ts : List Token) : Follows WritesQuery (reader query) ts := by
  rw [reader_query]
  -- wherever it stops, the clauses that have not been read can be left out
  refine .keyword_bind ⟨[wordToken "SELECT", ⟨.star, "*", 0⟩, wordToken "FROM", someName], _,
    fun us => .select rfl (.star rfl) rfl (.bare (writes_someName _)) .nil .absent .absent .absent
      .absent .absent⟩ ?_
  intro word us _ hword
  refine .bind (follows_columns us) (fun front columns hcolumns => ⟨[wordToken "FROM", someName], _,
    fun us => .select hword (hcolumns _) rfl (.bare (writes_someName _)) .nil .absent .absent
      .absent .absent .absent⟩) ?_
  intro front columns rest _ hcolumns
  refine .keyword_bind ⟨[wordToken "FROM", someName], _, fun us => .select hword (hcolumns _) rfl
    (.bare (writes_someName _)) .nil .absent .absent .absent .absent .absent⟩ ?_
  intro fromWord us _ hfrom
  refine .bind (follows_table us) (fun front table htable => ⟨[], _,
    fun us => .select hword (hcolumns _) hfrom (htable us) .nil .absent .absent .absent .absent
      .absent⟩) ?_
  intro front table rest _ htable
  refine .bind (follows_joins rest) (fun front joins hjoins => ⟨[], _,
    fun us => .select hword (hcolumns _) hfrom (htable _) (hjoins us) .absent .absent .absent
      .absent .absent⟩) ?_
  intro front joins rest _ hjoins
  refine .bind (follows_clause? follows_disjunction rest) (fun front filter hfilter => ⟨[], _,
    fun us => .select hword (hcolumns _) hfrom (htable _) (hjoins _) (hfilter us) .absent .absent
      .absent .absent⟩) ?_
  intro front filter rest _ hfilter
  have hgroupBy : ∀ ts, Follows (WritesBy (WritesList (·.kind = .comma) WritesGroupKey))
      (reader (afterBy (list groupKey))) ts :=
    follows_afterBy ⟨[someName], _, fun us => .one (.name (.bare (writes_someName us)))⟩
      (follows_commas follows_groupKey)
  refine .bind (follows_clause? hgroupBy rest) (fun front groupBy hgroupBy => ⟨[], _,
    fun us => .select hword (hcolumns _) hfrom (htable _) (hjoins _) (hfilter _) (hgroupBy us)
      .absent .absent .absent⟩) ?_
  intro front groupBy rest _ hgroupBy
  refine .bind (follows_clause? follows_disjunction rest) (fun front having hhaving => ⟨[], _,
    fun us => .select hword (hcolumns _) hfrom (htable _) (hjoins _) (hfilter _) (hgroupBy _)
      (hhaving us) .absent .absent⟩) ?_
  intro front having rest _ hhaving
  have horderBy : ∀ ts, Follows (WritesBy (WritesList (·.kind = .comma) WritesOrderKey))
      (reader (afterBy (list orderKey))) ts :=
    follows_afterBy ⟨[someName], _, fun us => .one (.key (.bare (writes_someName us)) .unsaid)⟩
      (follows_commas follows_orderKey)
  refine .bind (follows_clause? horderBy rest) (fun front orderBy horderBy => ⟨[], _,
    fun us => .select hword (hcolumns _) hfrom (htable _) (hjoins _) (hfilter _) (hgroupBy _)
      (hhaving _) (horderBy us) .absent⟩) ?_
  intro front orderBy rest _ horderBy
  refine .map (follows_clause? follows_limitCount rest) ?_
  intro front limit hlimit us
  exact .select hword (hcolumns _) hfrom (htable _) (hjoins _) (hfilter _) (hgroupBy _) (hhaving _)
    (horderBy _) (hlimit us)

/-- What is read of a query is written in front of what is left. -/
theorem derives_query (ts : List Token) (q : Taken Select Token ts.length)
    (h : query ts = .ok q) : WritesQuery ts q.value q.rest := by
  have hread : reader query ts = .ok (q.value, q.rest) := map_eq_ok_iff.mpr ⟨q, h, rfl⟩
  obtain ⟨front, hts, hwrites, -⟩ := (follows_query ts).reads _ _ hread
  have hquery := hwrites q.rest
  rw [← hts] at hquery
  exact hquery

/-- A statement that is read is read whole. -/
theorem whole_of_ofTokens {s : Select} (h : Select.ofTokens ts = .ok s) : whole ts = .ok s := by
  rw [Select.ofTokens] at h
  cases hrefusal : Select.refusal? ts with
  | some e =>
      rw [hrefusal] at h
      cases h
  | none =>
      rw [hrefusal] at h
      cases hwhole : whole ts with
      | error e =>
          rw [hwhole] at h
          cases h
      | ok s' =>
          rw [hwhole] at h
          exact congrArg Except.ok (Except.ok.inj h)

end Grammar

end DocQuery
