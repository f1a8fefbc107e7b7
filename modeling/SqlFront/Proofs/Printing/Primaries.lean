import SqlFront.Proofs.Printing.Tiers

/-!
# Primary expressions from their words

A production recovers an expression on a level if it reads the words of the expression back
wherever no token follows that binds to the level.  The primary expressions are recovered if the
expressions inside them are.

The first word of an expression tells which production reads it: an expression of some level begins
with a token that opens expressions of that level (`Expression.Writable.level_le_opens`).
-/

namespace SqlFront

open Token

/-! ### First words -/

/-- The words for a name begin with a token that stands for a name, and a dot comes after it or
nothing. -/
theorem QualifiedName.words_eq_cons {name : QualifiedName} (hname : name.isWritable) :
  ∃ w ws k, name.words = w :: ws ∧ kindOf? w = some k ∧ k.isName ∧ ws.head?.all (· = ".")
  := by
  obtain ⟨_ | ⟨i, is⟩, span⟩ := name
  · contradiction
  simp only [isWritable, List.all_cons, Bool.and_eq_true] at hname
  obtain ⟨k, hk, hisName, -⟩ := Ident.ofWord_word hname.2.1
  refine ⟨i.word, _, k, by rw [words, List.map_cons, intersperse_cons], hk, hisName, ?_⟩
  cases is <;> rfl

theorem QualifiedName.isName_leading {name : QualifiedName} (hname : name.isWritable)
    (rest : List String) :
  (leading (name.words ++ rest)).isName
  := by
  obtain ⟨w, ws, k, hwords, hk, hisName, -⟩ := QualifiedName.words_eq_cons hname
  rwa [hwords, List.cons_append, leading_cons hk]

theorem Literal.opens_leading {value : Literal} (hvalue : value.isWritable) (rest : List String) :
  (leading (value.words ++ rest)).opens = 12
  := by
  cases value with
  | null =>
      rw [words, List.cons_append, leading_cons (Keyword.kindOf?_spelling (k := .NULL) (by decide))]
      rfl
  | boolean value =>
      rw [words, List.cons_append]
      cases value with
      | false =>
          rw [if_neg Bool.false_ne_true,
            leading_cons (Keyword.kindOf?_spelling (k := .FALSE) (by decide))]
          rfl
      | true =>
          rw [if_pos rfl, leading_cons (Keyword.kindOf?_spelling (k := .TRUE) (by decide))]
          rfl
  | string value =>
      rw [words, List.cons_append, leading_cons (Text.kindOf?_quote value)]
      rfl
  | number form text =>
      simp only [isWritable, decide_eq_true_eq] at hvalue
      rw [words, List.cons_append, leading_cons hvalue]
      rfl
  | typed type value =>
      simp only [isWritable, Bool.and_eq_true, decide_eq_true_eq] at hvalue
      rw [words, List.cons_append, leading_cons hvalue.1]
      rfl
  | interval fields => contradiction

theorem UnaryOp.level_le_opens {op : UnaryOp} (hop : op ≠ .not) (ws : List String) :
  11 ≤ (leading (op.word :: ws)).opens
  := by
  obtain ⟨k, hk, hsign⟩ := UnaryOp.kindOf?_word hop
  rw [leading_cons hk]
  unfold ofKind? at hsign
  split at hsign <;> simp_all [Kind.opens]

/-- An expression begins with a token that opens expressions of its level. -/
theorem Expression.Writable.level_le_opens {e : Expression} (he : e.Writable)
    (rest : List String) :
  e.form.level ≤ (leading (e.words ++ rest)).opens
  := by
  induction he generalizing rest with
  | literal valid => exact Nat.le_of_eq (Literal.opens_leading valid rest).symm
  | column valid =>
      exact Nat.le_of_eq (Kind.opens_of_isName (QualifiedName.isName_leading valid rest)).symm
  | star =>
      rw [words, Form.words, List.cons_append, leading_cons kindOf?_asterisk]
      apply Nat.le_refl
  | qualifiedStar valid =>
      rw [words, Form.words, List.append_assoc,
        Kind.opens_of_isName (QualifiedName.isName_leading valid _)]
      apply Nat.le_refl
  | @sign op _ _ isSign =>
      have hlevel := UnaryOp.level_le_opens isSign
      cases op with
      | not => contradiction
      | _ => apply hlevel
  | not =>
      rw [words, Form.words, List.cons_append, UnaryOp.word,
        leading_cons (Keyword.kindOf?_spelling (k := .NOT) (by decide))]
      apply Nat.le_refl
  | binary _ _ tight _ ihLeft _ =>
      rw [words, Form.words, List.append_assoc]
      apply Nat.le_trans tight (ihLeft _)
  | between _ _ _ tight _ _ ih _ _ =>
      rw [words, Form.words, List.append_assoc]
      exact Nat.le_trans (Nat.le_of_succ_le tight) (ih _)
  | inList _ _ tight _ ih _ =>
      rw [words, Form.words, List.append_assoc]
      exact Nat.le_trans (Nat.le_of_succ_le tight) (ih _)
  | like _ _ tight _ ih _ =>
      rw [words, Form.words, List.append_assoc]
      exact Nat.le_trans (Nat.le_of_succ_le tight) (ih _)
  | isNull _ tight ih =>
      rw [words, Form.words, List.append_assoc]
      exact Nat.le_trans (Nat.le_of_succ_le tight) (ih _)
  | call valid =>
      rw [words, Form.words, List.append_assoc,
        Kind.opens_of_isName (QualifiedName.isName_leading valid _)]
      apply Nat.le_refl
  | case =>
      rw [words, Form.words, List.cons_append,
        leading_cons (Keyword.kindOf?_spelling (k := .CASE) (by decide))]
      apply Nat.le_refl
  | cast =>
      rw [words, Form.words, List.cons_append,
        leading_cons (Keyword.kindOf?_spelling (k := .CAST) (by decide))]
      apply Nat.le_refl
  | currentDate =>
      rw [words, Form.words, List.cons_append,
        leading_cons (Keyword.kindOf?_spelling (k := .CURRENT_DATE) (by decide))]
      apply Nat.le_refl
  | currentTimestamp =>
      rw [words, Form.words, List.cons_append,
        leading_cons (Keyword.kindOf?_spelling (k := .CURRENT_TIMESTAMP) (by decide))]
      apply Nat.le_refl
  | row =>
      rw [words, Form.words, List.cons_append, leading_cons kindOf?_leftParen]
      apply Nat.le_refl
  | nested =>
      rw [words, Form.words, List.cons_append, leading_cons kindOf?_leftParen]
      apply Nat.le_refl

theorem Form.level_pos (form : Form) :
  1 ≤ form.level
  := by
  cases form with
  | unary op _ => cases op <;> simp [level]
  | binary op _ _ => cases op <;> simp [level, BinaryOp.level]
  | _ => simp [level]

/-- The token that an expression begins with opens expressions. -/
theorem Expression.Writable.opens_pos {e : Expression} (he : e.Writable) (rest : List String) :
  0 < (leading (e.words ++ rest)).opens
  := Nat.lt_of_lt_of_le (Form.level_pos e.form) (he.level_le_opens rest)

theorem Kind.ne_of_opens {k l : Kind} (hk : 0 < k.opens) (hl : l.opens = 0) :
  k ≠ l
  := by
  rintro rfl
  exact Nat.ne_of_gt hk hl

theorem Grammar.beginsQuery_of_opens {k : Kind} (hk : 0 < k.opens) :
  beginsQuery k = false
  := by
  simp [beginsQuery, Kind.ne_of_opens hk (l := .keyword .SELECT) rfl,
    Kind.ne_of_opens hk (l := .keyword .WITH) rfl, Kind.ne_of_opens hk (l := .keyword .VALUES) rfl,
    Kind.ne_of_opens hk (l := .keyword .TABLE) rfl]

/-! ### Recovering expressions -/

namespace Production

/-- The production reads the words of an expression back, wherever no token follows that binds to
the level. -/
def Recovers (p : Production Expression) (level : Nat) (e : Expression) : Prop :=
  ∀ rest, (leading rest).binds < level →
    p.Reads (.ofWords (e.words ++ rest)) (forget e) (.ofWords rest)

end Production

theorem Kind.ne_of_binds {k l : Kind} {level : Nat} (hk : k.binds < level) (hl : level ≤ l.binds) :
  k ≠ l
  := by
  rintro rfl
  exact Nat.not_lt_of_le hl hk

/-- Words between commas: the first one, and the others with a comma before each. -/
theorem commaWords_cons (e : Expression) (es : List Expression) :
  commaWords (e :: es) = e.words ++ es.flatMap fun y => "," :: y.words
  := by
  induction es generalizing e with
  | nil => rw [commaWords, List.flatMap_nil, List.append_nil]
  | cons y ys ih => rw [commaWords, ih, List.flatMap_cons, List.cons_append]; simp

namespace Grammar

open Production

variable {inner : Inner} {rest ws : List String} {form : Form} {span : Span}

/-! ### What begins a primary expression -/

theorem reads_primaryExpression_word {w : String}
    (h : (primaryForm inner (ofWord w)).Reads (.ofWords (w :: ws)) form (.ofWords rest)) :
  (primaryExpression inner).Reads (.ofWords (w :: ws)) ⟨form, .point .start⟩ (.ofWords rest)
  := by
  apply (reads_peek_word w ws).bind
  apply h.bind
  apply (reads_spanFrom_words rest).bind
  apply reads_done_self

/-- A name that no text follows begins a form that begins with a name. -/
theorem reads_primaryExpression_name {name : QualifiedName} (hname : name.isWritable)
    (hws : leading ws ≠ .string)
    (h : (nameForm inner).Reads (.ofWords (name.words ++ ws)) form (.ofWords rest)) :
  (primaryExpression inner).Reads (.ofWords (name.words ++ ws)) ⟨form, .point .start⟩
    (.ofWords rest)
  := by
  obtain ⟨w, tail, k, hwords, hk, hisName, hdot⟩ := QualifiedName.words_eq_cons hname
  have hsecond : leading (tail ++ ws) ≠ .string := by
    cases tail with
    | nil => apply hws
    | cons v tail =>
        rw [List.head?_cons, Option.all_some, decide_eq_true_eq] at hdot
        rw [hdot, List.cons_append, leading_cons kindOf?_dot]
        decide
  rw [hwords, List.cons_append] at h ⊢
  apply reads_primaryExpression_word
  obtain ⟨t, hpeek, hkind⟩ := reads_second_words w (tail ++ ws)
  unfold primaryForm
  rw [kind_ofWord hk]
  split
  case h_13 =>
    apply hpeek.bind
    rw [if_neg (by rwa [hkind])]
    apply h
  all_goals first
    | rw [if_pos hisName]
      apply h
    | simp [Kind.isName, Keyword.isReserved, Kind.isIdentifier] at hisName

/-! ### Literals and names -/

theorem recovers_literal {value : Literal} (hvalue : value.isWritable) (hbound : 1 < inner.bound) :
  (primaryExpression inner).Recovers 12 ⟨.literal value, span⟩
  := by
  intro rest hrest
  have hliteral := (reads_literal_words hvalue hbound
    (Kind.ne_of_binds hrest (l := .string) (by decide))).map Form.literal
  cases value with
  | null =>
      apply reads_primaryExpression_word
      rw [primaryForm, kind_ofWord (Keyword.kindOf?_spelling (k := .NULL) (by decide))]
      apply hliteral
  | boolean value =>
      apply reads_primaryExpression_word
      cases value with
      | false =>
          rw [if_neg Bool.false_ne_true, primaryForm,
            kind_ofWord (Keyword.kindOf?_spelling (k := .FALSE) (by decide))]
          apply hliteral
      | true =>
          rw [if_pos rfl, primaryForm,
            kind_ofWord (Keyword.kindOf?_spelling (k := .TRUE) (by decide))]
          apply hliteral
  | string value =>
      apply reads_primaryExpression_word
      rw [primaryForm, kind_ofWord (Text.kindOf?_quote value)]
      apply hliteral
  | number number text =>
      apply reads_primaryExpression_word
      simp only [Literal.isWritable, decide_eq_true_eq] at hvalue
      rw [primaryForm, kind_ofWord hvalue]
      apply hliteral
  | typed type value =>
      apply reads_primaryExpression_word
      simp only [Literal.isWritable, Bool.and_eq_true, decide_eq_true_eq] at hvalue
      rw [primaryForm, kind_ofWord hvalue.1]
      obtain ⟨t, hpeek, hkind⟩ := reads_second_words type (Text.quote value :: rest)
      apply hpeek.bind
      rw [if_pos (by rw [hkind, leading_cons (Text.kindOf?_quote value)])]
      apply hliteral
  | interval fields => contradiction

theorem recovers_column {name : QualifiedName} (hname : name.isWritable)
    (hbound : name.words.length ≤ inner.bound) :
  (primaryExpression inner).Recovers 12 ⟨.column name, span⟩
  := by
  intro rest hrest
  have hdot := Kind.ne_of_binds hrest (l := .dot) (by decide)
  have hparen := Kind.ne_of_binds hrest (l := .leftParen) (by decide)
  apply reads_primaryExpression_name hname (Kind.ne_of_binds hrest (l := .string) (by decide))
  apply (reads_qualifiedName_words hname hbound (reads_dottedIdent_not hdot)).bind
  apply (reads_nextAre_not hdot).bind_false
  apply (reads_accept_not (by decide) hparen).bind_false
  apply reads_done_self

theorem recovers_star :
  (primaryExpression inner).Recovers 12 ⟨.star none, span⟩
  := by
  intro rest _
  apply reads_primaryExpression_word
  rw [primaryForm, kind_ofWord kindOf?_asterisk]
  apply (reads_advance_word "*" rest).bind
  apply reads_done_self

theorem recovers_qualifiedStar {name : QualifiedName} (hname : name.isWritable)
    (hbound : name.words.length ≤ inner.bound) :
  (primaryExpression inner).Recovers 12 ⟨.star (some name), span⟩
  := by
  intro rest _
  have hdot := leading_cons kindOf?_dot ("*" :: rest)
  have hws : leading ("." :: "*" :: rest) ≠ .string := by
    rw [hdot]
    decide
  rw [Expression.words, Form.words, List.append_assoc]
  apply reads_primaryExpression_name hname hws
  apply (reads_qualifiedName_words hname hbound reads_dottedIdent_star).bind
  apply (reads_nextAre_words hdot (leading_cons kindOf?_asterisk _)).bind_true
  apply (reads_advance_word "." ("*" :: rest)).bind
  apply (reads_advance_word "*" rest).bind
  apply reads_done_self

/-! ### Calls and parentheses -/

/-- A list of expressions is read up to and with the closing parenthesis. -/
theorem reads_expressionsToParen_words {e : Expression} {es : List Expression}
    (hbound : (commaWords (e :: es)).length < inner.bound)
    (hrecovers : ∀ y ∈ e :: es, inner.expression.Recovers 1 y) :
  (expressionsToParen inner).Reads (.ofWords (commaWords (e :: es) ++ ")" :: rest))
    (forget (e :: es)) (.ofWords rest)
  := by
  have hright := leading_cons kindOf?_rightParen rest
  have hlength : es.length < inner.bound := by
    have hle := length_le_flatMap (fun y : Expression => "," :: y.words) (by simp) es
    rw [commaWords_cons, List.length_append] at hbound
    omega
  rw [commaWords_cons, List.append_assoc]
  apply (reads_commaList_words Expression.words forget hlength _ hright).bind
  · apply (reads_expect_word kindOf?_rightParen rest).bind
    apply reads_done_self
  · intro y hy ws hws
    apply hrecovers y hy
    rcases hws with hws | hws
    · rw [hws]; decide
    · rw [hws]; decide

theorem opens_commaWords {e : Expression} {es : List Expression} (he : e.Writable) :
  0 < (leading (commaWords (e :: es) ++ rest)).opens
  := by
  rw [commaWords_cons, List.append_assoc]
  apply he.opens_pos

/-- What stands between the parentheses of a call, after the words about duplicates. -/
theorem reads_arguments_words {name : QualifiedName} {distinct : Bool}
    {arguments : List Expression} (hbound : (commaWords arguments).length < inner.bound)
    (hwritable : ∀ y ∈ arguments, y.Writable)
    (hrecovers : ∀ y ∈ arguments, inner.expression.Recovers 1 y) :
  Reads (do
      if ← accept .rightParen then return Form.call name distinct []
      else return .call name distinct (← expressionsToParen inner))
    (.ofWords (commaWords arguments ++ ")" :: rest)) (.call name distinct (forget arguments))
    (.ofWords rest)
  := by
  cases arguments with
  | nil =>
      apply (reads_accept_word kindOf?_rightParen rest).bind_true
      apply reads_done_self
  | cons e es =>
      have hfirst : leading (commaWords (e :: es) ++ ")" :: rest) ≠ .rightParen :=
        Kind.ne_of_opens (opens_commaWords (hwritable e (by simp))) rfl
      apply (reads_accept_not (by decide) hfirst).bind_false
      apply (reads_expressionsToParen_words hbound hrecovers).bind
      apply reads_done_self

theorem forget_call (function : QualifiedName) (distinct : Bool) (arguments : List Expression)
    (span : Span) :
  forget (⟨.call function distinct arguments, span⟩ : Expression) =
    ⟨.call (forget function) distinct (forget arguments), .point .start⟩
  := by
  change (⟨.call _ _ (expressionsMove _ arguments), _⟩ : Expression) = _
  rw [expressionsMove_eq]
  rfl

theorem recovers_call {function : QualifiedName} {distinct : Bool} {arguments : List Expression}
    (hname : function.isWritable) (hfunction : function.words.length ≤ inner.bound)
    (hbound : (commaWords arguments).length < inner.bound)
    (hwritable : ∀ y ∈ arguments, y.Writable)
    (hrecovers : ∀ y ∈ arguments, inner.expression.Recovers 1 y) :
  (primaryExpression inner).Recovers 12 ⟨.call function distinct arguments, span⟩
  := by
  intro rest _
  have hdot : ∀ ws, leading ("(" :: ws) ≠ .dot := by
    intro ws
    rw [leading_cons kindOf?_leftParen]
    decide
  have hstring : ∀ ws, leading ("(" :: ws) ≠ .string := by
    intro ws
    rw [leading_cons kindOf?_leftParen]
    decide
  rw [forget_call]
  simp only [Expression.words, Form.words, List.append_assoc, List.cons_append, List.nil_append]
  apply reads_primaryExpression_name hname (hstring _)
  apply (reads_qualifiedName_words hname hfunction (reads_dottedIdent_not (hdot _))).bind
  apply (reads_nextAre_not (hdot _)).bind_false
  apply (reads_accept_word kindOf?_leftParen _).bind_true
  cases distinct with
  | true =>
      apply (reads_accept_word (Keyword.kindOf?_spelling (k := .DISTINCT) (by decide)) _).bind
      apply reads_arguments_words hbound hwritable hrecovers
  | false =>
      have hfirst : ∀ k : Kind, k.opens = 0 → k ≠ .rightParen →
          leading (commaWords arguments ++ ")" :: rest) ≠ k := by
        intro k hk hne
        cases arguments with
        | nil =>
            rw [commaWords, List.nil_append, leading_cons kindOf?_rightParen]
            exact hne.symm
        | cons e es => exact Kind.ne_of_opens (opens_commaWords (hwritable e (by simp))) hk
      apply (reads_accept_not (by decide) (hfirst (.keyword .DISTINCT) rfl (by decide))).bind
      apply (reads_accept_not (by decide) (hfirst (.keyword .ALL) rfl (by decide))).bind
      apply reads_arguments_words hbound hwritable hrecovers

theorem recovers_nested {e : Expression} (hwritable : e.Writable)
    (he : inner.expression.Recovers 1 e) :
  (primaryExpression inner).Recovers 12 ⟨.nested e, span⟩
  := by
  intro rest _
  have hright := leading_cons kindOf?_rightParen rest
  obtain ⟨t, hpeek, hkind⟩ := reads_second_words "(" (e.words ++ ")" :: rest)
  simp only [Expression.words, Form.words, List.append_assoc, List.cons_append, List.nil_append]
  apply reads_primaryExpression_word
  rw [primaryForm, kind_ofWord kindOf?_leftParen]
  apply hpeek.bind
  rw [hkind, beginsQuery_of_opens (hwritable.opens_pos _), if_neg Bool.false_ne_true]
  apply (reads_advance_word _ _).bind
  apply (he _ (by rw [hright]; decide)).bind
  apply (reads_accept_word kindOf?_rightParen _).bind_true
  apply reads_done_self

theorem forget_row (items : List Expression) (span : Span) :
  forget (⟨.row items, span⟩ : Expression) = ⟨.row (forget items), .point .start⟩
  := by
  change (⟨.row (expressionsMove _ items), _⟩ : Expression) = _
  rw [expressionsMove_eq]
  rfl

/-- A row has two items or more. -/
theorem recovers_row {e y : Expression} {es : List Expression}
    (hbound : (commaWords (y :: es)).length < inner.bound) (hwritable : e.Writable)
    (hfirst : inner.expression.Recovers 1 e)
    (hfurther : ∀ z ∈ y :: es, inner.expression.Recovers 1 z) :
  (primaryExpression inner).Recovers 12 ⟨.row (e :: y :: es), span⟩
  := by
  intro rest _
  have hcomma := leading_cons kindOf?_comma (commaWords (y :: es) ++ ")" :: rest)
  obtain ⟨t, hpeek, hkind⟩ :=
    reads_second_words "(" (e.words ++ "," :: (commaWords (y :: es) ++ ")" :: rest))
  have hitems : commaWords (e :: y :: es) = e.words ++ "," :: commaWords (y :: es) := rfl
  rw [forget_row]
  simp only [Expression.words, Form.words, hitems, List.append_assoc, List.cons_append,
    List.nil_append]
  apply reads_primaryExpression_word
  rw [primaryForm, kind_ofWord kindOf?_leftParen]
  apply hpeek.bind
  rw [hkind, beginsQuery_of_opens (hwritable.opens_pos _), if_neg Bool.false_ne_true]
  apply (reads_advance_word _ _).bind
  apply (hfirst _ (by rw [hcomma]; decide)).bind
  apply (reads_accept_not (by decide) (by rw [hcomma]; decide)).bind_false
  apply (reads_expect_word kindOf?_comma _).bind
  apply (reads_expressionsToParen_words hbound hfurther).bind
  apply reads_done_self

/-! ### Choices between branches and conversions -/

theorem branchesWords_cons (b : Branch) (bs : List Branch) :
  branchesWords (b :: bs) = Keyword.WHEN.spelling ::
    (b.condition.words ++ Keyword.THEN.spelling :: (b.result.words ++ branchesWords bs))
  := by
  cases b
  rfl

theorem length_le_branchesWords (branches : List Branch) :
  branches.length ≤ (branchesWords branches).length
  := by
  induction branches with
  | nil => apply Nat.zero_le
  | cons b bs ih =>
      simp only [branchesWords_cons, List.length_cons, List.length_append]
      omega

theorem leading_branchesWords {branches : List Branch} (hne : branches ≠ []) :
  leading (branchesWords branches ++ rest) = .keyword .WHEN
  := by
  obtain ⟨b, bs, rfl⟩ := List.exists_cons_of_ne_nil hne
  rw [branchesWords_cons, List.cons_append]
  apply leading_cons (Keyword.kindOf?_spelling (k := .WHEN) (by decide))

/-- Branches are read up to where no `WHEN` follows. -/
theorem reads_branches_words {branches : List Branch}
    (hconditions : ∀ b ∈ branches, inner.expression.Recovers 1 b.condition)
    (hresults : ∀ b ∈ branches, inner.expression.Recovers 1 b.result)
    (hbinds : (leading rest).binds = 0) (hrest : leading rest ≠ .keyword .WHEN) :
  ReadsEach (branch? inner) (.ofWords (branchesWords branches ++ rest)) (forget branches)
    (.ofWords rest)
  := by
  induction branches with
  | nil => exact .nil (reads_afterToken?_not (by decide) hrest)
  | cons b bs ih =>
      have hthen := Keyword.kindOf?_spelling (k := .THEN) (by decide)
      have hnext : (leading (branchesWords bs ++ rest)).binds < 1 := by
        cases bs with
        | nil => exact Nat.lt_of_le_of_lt (Nat.le_of_eq hbinds) Nat.zero_lt_one
        | cons b bs =>
            rw [leading_branchesWords (List.cons_ne_nil b bs)]
            decide
      simp only [branchesWords_cons, List.cons_append, List.append_assoc]
      apply ReadsEach.cons _
        (ih (fun b hb => hconditions b (by simp [hb])) fun b hb => hresults b (by simp [hb]))
      apply reads_afterToken?_word (Keyword.kindOf?_spelling (k := .WHEN) (by decide))
      apply (hconditions b (by simp) _ (by rw [leading_cons hthen]; decide)).bind
      apply (reads_expect_word hthen _).bind
      apply (hresults b (by simp) _ hnext).bind
      cases b
      apply reads_done_self

theorem reads_caseOperand?_words {operand : Option Expression}
    (hwritable : ∀ e ∈ operand, e.Writable)
    (hoperand : ∀ e ∈ operand, inner.expression.Recovers 1 e)
    (hrest : leading rest = .keyword .WHEN) :
  (caseOperand? inner).Reads (.ofWords (operandWords operand ++ rest)) (forget operand)
    (.ofWords rest)
  := by
  cases operand with
  | none =>
      apply (reads_nextIs_words hrest).bind_true
      apply reads_done_self
  | some e =>
      have hfirst := Kind.ne_of_opens ((hwritable e rfl).opens_pos rest) (l := .keyword .WHEN) rfl
      apply (reads_nextIs_not hfirst).bind_false
      exact (hoperand e rfl _ (by rw [hrest]; decide)).map some

theorem reads_otherwise_words {otherwise : Option Expression}
    (hotherwise : ∀ e ∈ otherwise, inner.expression.Recovers 1 e)
    (hrest : leading rest = .keyword .END) :
  (afterToken? (.keyword .ELSE) inner.expression).Reads
    (.ofWords (otherwiseWords otherwise ++ rest)) (forget otherwise) (.ofWords rest)
  := by
  cases otherwise with
  | none =>
      have hne : leading rest ≠ .keyword .ELSE := by
        rw [hrest]
        decide
      apply reads_afterToken?_not (by decide) hne
  | some e =>
      apply reads_afterToken?_word (Keyword.kindOf?_spelling (k := .ELSE) (by decide))
      exact hotherwise e rfl _ (by rw [hrest]; decide)

theorem forget_case (operand otherwise : Option Expression) (branches : List Branch)
    (span : Span) :
  forget (⟨.case operand branches otherwise, span⟩ : Expression) =
    ⟨.case (forget operand) (forget branches) (forget otherwise), .point .start⟩
  := by
  change (⟨.case (expression?Move _ operand) (branchesMove _ branches)
    (expression?Move _ otherwise), _⟩ : Expression) = _
  rw [branchesMove_eq, expression?Move_eq, expression?Move_eq]
  rfl

theorem recovers_case {operand otherwise : Option Expression} {branches : List Branch}
    (hbound : (branchesWords branches).length < inner.bound) (hne : branches ≠ [])
    (hwritable : ∀ e ∈ operand, e.Writable)
    (hoperand : ∀ e ∈ operand, inner.expression.Recovers 1 e)
    (hconditions : ∀ b ∈ branches, inner.expression.Recovers 1 b.condition)
    (hresults : ∀ b ∈ branches, inner.expression.Recovers 1 b.result)
    (hotherwise : ∀ e ∈ otherwise, inner.expression.Recovers 1 e) :
  (primaryExpression inner).Recovers 12 ⟨.case operand branches otherwise, span⟩
  := by
  intro rest _
  have hcase := Keyword.kindOf?_spelling (k := .CASE) (by decide)
  have hend := Keyword.kindOf?_spelling (k := .END) (by decide)
  have htail : leading (otherwiseWords otherwise ++ Keyword.END.spelling :: rest) = .keyword .END ∨
      leading (otherwiseWords otherwise ++ Keyword.END.spelling :: rest) = .keyword .ELSE := by
    cases otherwise with
    | none => exact .inl (leading_cons hend rest)
    | some e => exact .inr (leading_cons (Keyword.kindOf?_spelling (k := .ELSE) (by decide)) _)
  have hbinds : (leading (otherwiseWords otherwise ++ Keyword.END.spelling :: rest)).binds = 0 := by
    rcases htail with h | h <;> rw [h] <;> rfl
  have hwhen : leading (otherwiseWords otherwise ++ Keyword.END.spelling :: rest) ≠
      .keyword .WHEN := by
    rcases htail with h | h <;> rw [h] <;> decide
  have heach := reads_branches_words hconditions hresults hbinds hwhen
  have hlength : (forget branches).length < inner.bound := by
    have hle := length_le_branchesWords branches
    simp only [forget, move, List.length_map]
    omega
  have hnonempty : (forget branches).isEmpty = false := by
    simpa [forget, move] using hne
  rw [forget_case]
  simp only [Expression.words, Form.words, List.append_assoc, List.cons_append, List.nil_append]
  apply reads_primaryExpression_word
  rw [primaryForm, kind_ofWord hcase]
  apply (reads_expect_word hcase _).bind
  apply (reads_caseOperand?_words hwritable hoperand (leading_branchesWords hne)).bind
  apply (reads_collect.mpr ⟨_, hlength, rfl, heach⟩).bind
  rw [List.reverse_nil, List.nil_append, hnonempty, if_neg Bool.false_ne_true]
  apply (reads_otherwise_words hotherwise (leading_cons hend rest)).bind
  apply (reads_expect_word hend rest).bind
  apply reads_done_self

theorem recovers_cast {e : Expression} {type : DataType} (he : inner.expression.Recovers 1 e)
    (htype : ∀ rest, leading rest = .rightParen →
      (dataType inner).Reads (.ofWords (type.words ++ rest)) type (.ofWords rest)) :
  (primaryExpression inner).Recovers 12 ⟨.cast e type, span⟩
  := by
  intro rest _
  have hcast := Keyword.kindOf?_spelling (k := .CAST) (by decide)
  have has := Keyword.kindOf?_spelling (k := .AS) (by decide)
  simp only [Expression.words, Form.words, List.append_assoc, List.cons_append, List.nil_append]
  apply reads_primaryExpression_word
  rw [primaryForm, kind_ofWord hcast]
  apply (reads_expect_word hcast _).bind
  apply (reads_expect_word kindOf?_leftParen _).bind
  apply (he _ (by rw [leading_cons has]; decide)).bind
  apply (reads_expect_word has _).bind
  apply (htype _ (leading_cons kindOf?_rightParen rest)).bind
  apply (reads_expect_word kindOf?_rightParen _).bind
  apply reads_done_self

theorem recovers_currentDate :
  (primaryExpression inner).Recovers 12 ⟨.currentDate, span⟩
  := by
  intro rest _
  apply reads_primaryExpression_word
  rw [primaryForm, kind_ofWord (Keyword.kindOf?_spelling (k := .CURRENT_DATE) (by decide))]
  apply (reads_advance_word _ rest).bind
  apply reads_done_self

theorem recovers_currentTimestamp :
  (primaryExpression inner).Recovers 12 ⟨.currentTimestamp, span⟩
  := by
  intro rest _
  apply reads_primaryExpression_word
  rw [primaryForm, kind_ofWord (Keyword.kindOf?_spelling (k := .CURRENT_TIMESTAMP) (by decide))]
  apply (reads_advance_word _ rest).bind
  apply reads_done_self

end Grammar

end SqlFront
