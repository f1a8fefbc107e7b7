import SqlFront.Proofs.Grammar.StatementFollows
import SqlFront.Proofs.Printing.Operators
import SqlFront.Proofs.Printing.Texts

/-!
# The round trip of expressions

Every expression without queries that can be written, and that does not nest deeper than the grammar
allows, is read back from its words (`parseExpression_words`).  The induction is on how the expression
can be written.  It shows for all levels of nesting at once that the expression is recovered on every
level of operators up to its own, and that it begins the chains of these levels.
-/

namespace SqlFront

open Grammar Production Token

/-! ### Parts of lists -/

theorem length_words_le_commaWords {e : Expression} {items : List Expression} (he : e ∈ items) :
  e.words.length ≤ (commaWords items).length
  := by
  obtain ⟨y, ys, rfl⟩ := List.exists_cons_of_ne_nil (List.ne_nil_of_mem he)
  rw [commaWords_cons, List.length_append]
  rcases List.mem_cons.mp he with rfl | he
  · apply Nat.le_add_right
  · have hsub : (e.words).length ≤ (ys.flatMap fun z => "," :: z.words).length := by
      apply List.Sublist.length_le
      apply (List.sublist_cons_self "," e.words).trans
      rw [List.flatMap_def]
      apply List.sublist_flatten_of_mem (List.mem_map_of_mem he)
    omega

theorem inside_lt_deepest {e : Expression} {items : List Expression} (he : e ∈ items) :
  e.inside < deepest items
  := by
  induction items with
  | nil => contradiction
  | cons y ys ih =>
      rw [deepest]
      rcases List.mem_cons.mp he with rfl | he
      · omega
      · have := ih he
        omega

theorem length_words_lt_branchesWords {b : Branch} {branches : List Branch} (hb : b ∈ branches) :
  b.condition.words.length < (branchesWords branches).length ∧
    b.result.words.length < (branchesWords branches).length
  := by
  induction branches with
  | nil => contradiction
  | cons c cs ih =>
      simp only [branchesWords_cons, List.length_cons, List.length_append]
      rcases List.mem_cons.mp hb with rfl | hb
      · omega
      · have := ih hb
        omega

theorem inside_lt_deepestBranch {b : Branch} {branches : List Branch} (hb : b ∈ branches) :
  b.condition.inside < deepestBranch branches ∧ b.result.inside < deepestBranch branches
  := by
  induction branches with
  | nil => contradiction
  | cons c cs ih =>
      obtain ⟨condition, result⟩ := c
      rw [deepestBranch]
      rcases List.mem_cons.mp hb with rfl | hb
      · simp only
        omega
      · have := ih hb
        omega

/-! ### Expressions that are read back -/

/-- An expression is recovered on every level up to its own, and it begins the chains of these
levels. -/
structure ReadBack (inner : Inner) (e : Expression) : Prop where
  recovers {low : Nat} (pos : 1 ≤ low) (le : low ≤ e.form.level) : (tier inner low).Recovers low e
  begins (op : BinaryOp) (le : op.level ≤ e.form.level) :
    ∃ k ≤ e.words.length, Begins inner op.level k e

variable {inner : Inner} {e : Expression} {bound levels : Nat}

theorem Form.level_le (form : Form) :
  form.level ≤ 12
  := by
  cases form with
  | unary op _ => cases op <;> simp [level]
  | binary op _ _ => cases op <;> simp [level, BinaryOp.level]
  | _ => simp [level]

theorem BinaryOp.level_ne (op : BinaryOp) {level : Nat}
    (hlevel : level = 3 ∨ level = 4 ∨ 10 < level) :
  op.level ≠ level
  := by
  cases op <;> simp only [BinaryOp.level] <;> omega

/-- What is recovered on its own level is recovered on every lower one. -/
theorem Expression.Writable.recovers_of_le (he : e.Writable) (hbound : inner.bound ≠ 0) {low : Nat}
    (hle : low ≤ e.form.level)
    (h : (tier inner e.form.level).Recovers e.form.level e) :
  (tier inner low).Recovers low e
  := by
  intro rest hrest
  apply reads_tier_of_le hbound hle (Form.level_le e.form) hrest (he.level_le_opens rest)
  apply h rest (Nat.lt_of_lt_of_le hrest hle)

/-- An operation is read back if its operands are. -/
theorem Expression.Writable.readBack_binary {op : BinaryOp} {left right : Expression} {span : Span}
    (he : Writable ⟨.binary op left right, span⟩)
    (hbound : (Expression.words ⟨.binary op left right, span⟩).length < inner.bound)
    (hleft : ReadBack inner left) (hright : ReadBack inner right)
    (htight : op.level ≤ left.form.level) (htighter : op.level < right.form.level) :
  ReadBack inner ⟨.binary op left right, span⟩
  := by
  obtain ⟨k, hk, hbegins⟩ := hleft.begins op htight
  have hwhole : Begins inner op.level (k + 1) ⟨.binary op left right, span⟩ :=
    begins_operation hbegins (hright.recovers (Nat.le_add_left 1 _) htighter)
  have hcount : k + 1 ≤ (Expression.words ⟨.binary op left right, span⟩).length := by
    rw [Expression.words_binary, List.length_append, List.length_cons]
    omega
  have hown := recovers_of_begins hwhole (by omega)
  constructor
  · intro low _ hle
    apply he.recovers_of_le (by omega) hle hown
  · intro op' hle
    rcases Nat.lt_or_eq_of_le hle with hlt | heq
    · use 0, Nat.zero_le _
      apply begins_operand
      apply he.recovers_of_le (by omega) hlt hown
    · change op'.level = op.level at heq
      rw [heq]
      use k + 1

/-! ### One level further in -/

theorem ReadBack.expression (hdeep : e.inside < levels)
    (h : ∀ levels, e.inside ≤ levels → ReadBack (.nested bound levels) e) :
  (Inner.nested bound levels).expression.Recovers 1 e
  := by
  obtain ⟨levels, rfl⟩ : ∃ l, levels = l + 1 := ⟨levels - 1, by omega⟩
  exact (h levels (Nat.le_of_lt_succ hdeep)).recovers (Nat.le_refl 1) (Form.level_pos e.form)

theorem ReadBack.negation (hdeep : e.inside < levels) (hlevel : 3 ≤ e.form.level)
    (h : ∀ levels, e.inside ≤ levels → ReadBack (.nested bound levels) e) :
  (Inner.nested bound levels).negation.Recovers 3 e
  := by
  obtain ⟨levels, rfl⟩ : ∃ l, levels = l + 1 := ⟨levels - 1, by omega⟩
  exact (h levels (Nat.le_of_lt_succ hdeep)).recovers (by decide) hlevel

theorem ReadBack.signed (hdeep : e.inside < levels) (hlevel : 11 ≤ e.form.level)
    (h : ∀ levels, e.inside ≤ levels → ReadBack (.nested bound levels) e) :
  (Inner.nested bound levels).signed.Recovers 11 e
  := by
  obtain ⟨levels, rfl⟩ : ∃ l, levels = l + 1 := ⟨levels - 1, by omega⟩
  exact (h levels (Nat.le_of_lt_succ hdeep)).recovers (by decide) hlevel

/-! ### All expressions -/

theorem Expression.Writable.length_words_pos (he : e.Writable) :
  0 < e.words.length
  := by
  rw [List.length_pos_iff]
  intro hnil
  have hopens := he.opens_pos []
  rw [hnil] at hopens
  contradiction

/-- An expression whose level is not that of an operator between operands is read back if it is
recovered on its level. -/
theorem Expression.Writable.readBack_of_recovers (he : e.Writable)
    (hlength : e.words.length < bound) (own : Nat) (hown : e.form.level = own)
    (hlevel : own = 3 ∨ own = 4 ∨ 10 < own)
    (h : (tier (.nested bound levels) own).Recovers own e) :
  ReadBack (.nested bound levels) e
  := by
  subst hown
  have hbound : (Inner.nested bound levels).bound ≠ 0 := by
    rw [Inner.bound_nested]
    apply Nat.ne_zero_of_lt hlength
  constructor
  · intro low _ hle
    apply he.recovers_of_le hbound hle h
  · intro op hle
    use 0, Nat.zero_le _
    apply begins_operand
    apply he.recovers_of_le hbound (Nat.lt_of_le_of_ne hle (op.level_ne hlevel)) h

/-- Every expression that can be written is read back, if expressions nest no deeper in it than the
grammar lets them. -/
theorem Expression.Writable.readBack (he : e.Writable) (hlength : e.words.length < bound) :
  ∀ levels, e.inside ≤ levels → ReadBack (.nested bound levels) e
  := by
  induction he with
  | @literal value span valid =>
      intro levels _
      have hliteral : Writable ⟨.literal value, span⟩ := .literal valid
      have hpos := hliteral.length_words_pos
      apply hliteral.readBack_of_recovers hlength 12 rfl (by decide)
      apply recovers_literal valid
      rw [Inner.bound_nested]
      omega
  | column valid =>
      intro levels _
      apply (Writable.column valid).readBack_of_recovers hlength 12 rfl (by decide)
      apply recovers_column valid
      rw [Inner.bound_nested]
      apply Nat.le_of_lt hlength
  | star =>
      intro levels _
      apply Writable.star.readBack_of_recovers hlength 12 rfl (by decide) recovers_star
  | qualifiedStar valid =>
      intro levels _
      apply (Writable.qualifiedStar valid).readBack_of_recovers hlength 12 rfl (by decide)
      apply recovers_qualifiedStar valid
      rw [Inner.bound_nested]
      simp only [words, Form.words, List.length_append] at hlength
      omega
  | @sign op operand span isSign isOperand tight ih =>
      intro levels hinside
      have hown : (Form.unary op operand).level = 11 := by
        cases op <;> first | contradiction | rfl
      apply (Writable.sign isSign isOperand tight).readBack_of_recovers hlength 11 hown (by decide)
      simp only [words, Form.words, List.length_cons] at hlength
      simp only [inside, Form.inside] at hinside
      exact recovers_sign isSign (ReadBack.signed (by omega) tight (ih (by omega)))
  | not isOperand tight ih =>
      intro levels hinside
      apply (Writable.not isOperand tight).readBack_of_recovers hlength 3 rfl (by decide)
      simp only [words, Form.words, List.length_cons] at hlength
      simp only [inside, Form.inside] at hinside
      exact recovers_not (ReadBack.negation (by omega) tight (ih (by omega)))
  | binary isLeft isRight tight tighter ihLeft ihRight =>
      intro levels hinside
      have hbound := hlength
      rw [← Inner.bound_nested bound levels] at hbound
      rw [words_binary, List.length_append, List.length_cons] at hlength
      rw [inside_binary] at hinside
      apply (Writable.binary isLeft isRight tight tighter).readBack_binary hbound
      · apply ihLeft (by omega) levels (by omega)
      · apply ihRight (by omega) levels (by omega)
      · apply tight
      · apply tighter
  | between isSubject isLow isHigh tightSubject tightLow tightHigh ihSubject ihLow ihHigh =>
      intro levels hinside
      apply (Writable.between isSubject isLow isHigh tightSubject tightLow tightHigh).readBack_of_recovers
        hlength 4 rfl (by decide)
      simp only [words, Form.words, List.length_append, List.length_cons] at hlength
      simp only [inside, Form.inside] at hinside
      apply recovers_between
      · exact (ihSubject (by omega) levels (by omega)).recovers (by decide) tightSubject
      · exact (ihLow (by omega) levels (by omega)).recovers (by decide) tightLow
      · exact (ihHigh (by omega) levels (by omega)).recovers (by decide) tightHigh
  | @inList _ _ items _ isSubject areItems tight nonempty ih ihItems =>
      intro levels hinside
      apply (Writable.inList isSubject areItems tight nonempty).readBack_of_recovers hlength 4 rfl
        (by decide)
      simp only [words, Form.words, List.length_append, List.length_cons] at hlength
      simp only [inside, Form.inside] at hinside
      obtain ⟨y, ys, rfl⟩ := List.exists_cons_of_ne_nil nonempty
      apply recovers_inList
      · rw [Inner.bound_nested]
        omega
      · exact (ih (by omega) levels (by omega)).recovers (by decide) tight
      · apply areItems y (by simp)
      · intro z hz
        have hwords := length_words_le_commaWords hz
        have hdeep := inside_lt_deepest hz
        exact ReadBack.expression (by omega) (ihItems z hz (by omega))
  | like isSubject isPattern tightSubject tightPattern ihSubject ihPattern =>
      intro levels hinside
      apply (Writable.like isSubject isPattern tightSubject tightPattern).readBack_of_recovers
        hlength 4 rfl (by decide)
      simp only [words, Form.words, List.length_append, List.length_cons] at hlength
      simp only [inside, Form.inside] at hinside
      apply recovers_like
      · exact (ihSubject (by omega) levels (by omega)).recovers (by decide) tightSubject
      · exact (ihPattern (by omega) levels (by omega)).recovers (by decide) tightPattern
  | isNull isSubject tight ih =>
      intro levels hinside
      apply (Writable.isNull isSubject tight).readBack_of_recovers hlength 4 rfl (by decide)
      simp only [words, Form.words, List.length_append] at hlength
      simp only [inside, Form.inside] at hinside
      exact recovers_isNull ((ih (by omega) levels hinside).recovers (by decide) tight)
  | call valid areArguments ih =>
      intro levels hinside
      apply (Writable.call valid areArguments).readBack_of_recovers hlength 12 rfl (by decide)
      simp only [words, Form.words, List.length_append, List.length_cons] at hlength
      simp only [inside, Form.inside] at hinside
      apply recovers_call valid _ _ areArguments
      · intro z hz
        have hwords := length_words_le_commaWords hz
        have hdeep := inside_lt_deepest hz
        exact ReadBack.expression (by omega) (ih z hz (by omega))
      · rw [Inner.bound_nested]
        omega
      · rw [Inner.bound_nested]
        omega
  | @case operand otherwise branches _ isOperand areConditions areResults isOtherwise nonempty
      ihOperand ihConditions ihResults ihOtherwise =>
      intro levels hinside
      apply (Writable.case isOperand areConditions areResults isOtherwise
        nonempty).readBack_of_recovers hlength 12 rfl (by decide)
      simp only [words, Form.words, List.length_append, List.length_cons] at hlength
      simp only [inside, Form.inside] at hinside
      apply recovers_case _ nonempty isOperand
      · rintro z rfl
        simp only [operandWords] at hlength
        simp only [deepest?] at hinside
        exact ReadBack.expression (by omega) (ihOperand z rfl (by omega))
      · intro b hb
        have hwords := length_words_lt_branchesWords hb
        have hdeep := inside_lt_deepestBranch hb
        exact ReadBack.expression (by omega) (ihConditions b hb (by omega))
      · intro b hb
        have hwords := length_words_lt_branchesWords hb
        have hdeep := inside_lt_deepestBranch hb
        exact ReadBack.expression (by omega) (ihResults b hb (by omega))
      · rintro z rfl
        simp only [otherwiseWords, List.length_cons] at hlength
        simp only [deepest?] at hinside
        exact ReadBack.expression (by omega) (ihOtherwise z rfl (by omega))
      · rw [Inner.bound_nested]
        omega
  | @cast _ type _ isSubject valid ih =>
      intro levels hinside
      apply (Writable.cast isSubject valid).readBack_of_recovers hlength 12 rfl (by decide)
      simp only [words, Form.words, List.length_append, List.length_cons] at hlength
      simp only [inside, Form.inside] at hinside
      apply recovers_cast
      · exact ReadBack.expression (by omega) (ih (by omega))
      · intro rest hrest
        apply reads_dataType_words valid (by omega) (by omega)
        · rw [hrest]
          decide
        · rw [hrest]
          decide
  | currentDate =>
      intro levels _
      apply Writable.currentDate.readBack_of_recovers hlength 12 rfl (by decide)
      apply recovers_currentDate
  | currentTimestamp =>
      intro levels _
      apply Writable.currentTimestamp.readBack_of_recovers hlength 12 rfl (by decide)
      apply recovers_currentTimestamp
  | @row items _ areItems several ih =>
      intro levels hinside
      apply (Writable.row areItems several).readBack_of_recovers hlength 12 rfl (by decide)
      have hrecovers : ∀ z ∈ items, (Inner.nested bound levels).expression.Recovers 1 z := by
        intro z hz
        have hwords := length_words_le_commaWords hz
        have hdeep := inside_lt_deepest hz
        simp only [words, Form.words, List.length_append, List.length_cons] at hlength
        simp only [inside, Form.inside] at hinside
        exact ReadBack.expression (by omega) (ih z hz (by omega))
      obtain ⟨x, zs, rfl⟩ := List.exists_cons_of_length_pos (Nat.zero_lt_of_lt several)
      obtain ⟨y, ys, rfl⟩ := List.exists_cons_of_length_pos (Nat.lt_of_succ_lt_succ several)
      apply recovers_row
      · simp only [words, Form.words, commaWords, List.length_append, List.length_cons] at hlength
        rw [Inner.bound_nested]
        omega
      · apply areItems x (by simp)
      · apply hrecovers x (by simp)
      · intro z hz
        apply hrecovers z (List.mem_cons_of_mem x hz)
  | nested isInner ih =>
      intro levels hinside
      apply (Writable.nested isInner).readBack_of_recovers hlength 12 rfl (by decide)
      simp only [words, Form.words, List.length_append, List.length_cons] at hlength
      simp only [inside, Form.inside] at hinside
      exact recovers_nested isInner (ReadBack.expression (by omega) (ih (by omega)))

/-! ### Texts -/

/-- Each word of an expression that can be written is a token of its own. -/
theorem Expression.Writable.areTokens_words (he : e.Writable) :
  AreTokens e.words
  := by
  have hcomma : ∀ items : List Expression, (∀ y ∈ items, AreTokens y.words) →
      AreTokens (commaWords items) := by
    intro items hitems
    cases items with
    | nil => apply areTokens_nil
    | cons y ys =>
        rw [commaWords_cons, areTokens_append]
        use hitems y (by simp)
        apply areTokens_flatMap
        intro z hz
        simp [kindOf?_comma, hitems z (by simp [hz])]
  have hbranches : ∀ branches : List Branch, (∀ b ∈ branches, AreTokens b.condition.words) →
      (∀ b ∈ branches, AreTokens b.result.words) → AreTokens (branchesWords branches) := by
    intro branches hconditions hresults
    induction branches with
    | nil => apply areTokens_nil
    | cons b bs ih =>
        have hrest := ih (fun c hc => hconditions c (by simp [hc])) fun c hc =>
          hresults c (by simp [hc])
        simp [branchesWords_cons, Keyword.isSome_spelling (k := .WHEN) (by decide),
          Keyword.isSome_spelling (k := .THEN) (by decide), hconditions b (by simp),
          hresults b (by simp), hrest]
  induction he with
  | literal valid => apply Literal.areTokens_words valid
  | column valid => apply QualifiedName.areTokens_words valid
  | star => simp [words, Form.words, kindOf?_asterisk]
  | qualifiedStar valid =>
      simp [words, Form.words, kindOf?_dot, kindOf?_asterisk, QualifiedName.areTokens_words valid]
  | sign isSign _ _ ih =>
      obtain ⟨k, hk, -⟩ := UnaryOp.kindOf?_word isSign
      simp [words, Form.words, hk, ih]
  | not _ _ ih =>
      simp [words, Form.words, UnaryOp.word, Keyword.isSome_spelling (k := .NOT) (by decide), ih]
  | @binary op _ _ _ _ _ _ _ ihLeft ihRight =>
      obtain ⟨k, hk, -⟩ := op.kindOf?_word
      simp [words_binary, hk, ihLeft, ihRight]
  | between _ _ _ _ _ _ ihSubject ihLow ihHigh =>
      simp [words, Form.words, areTokens_notWords, Keyword.isSome_spelling (k := .BETWEEN) (by decide),
        Keyword.isSome_spelling (k := .AND) (by decide), ihSubject, ihLow, ihHigh]
  | inList _ _ _ _ ih ihItems =>
      simp [words, Form.words, areTokens_notWords, Keyword.isSome_spelling (k := .IN) (by decide),
        kindOf?_leftParen, kindOf?_rightParen, ih, hcomma _ ihItems]
  | @like _ _ _ regex _ _ _ _ _ ihSubject ihPattern =>
      have hlike := Keyword.isSome_spelling (k := .LIKE) (by decide)
      have hrlike := Keyword.isSome_spelling (k := .RLIKE) (by decide)
      cases regex <;>
        simp [words, Form.words, areTokens_notWords, hlike, hrlike, ihSubject, ihPattern]
  | isNull _ _ ih =>
      simp [words, Form.words, areTokens_notWords, Keyword.isSome_spelling (k := .IS) (by decide),
        Keyword.isSome_spelling (k := .NULL) (by decide), ih]
  | @call _ distinct _ _ valid _ ih =>
      have hdistinct := Keyword.isSome_spelling (k := .DISTINCT) (by decide)
      cases distinct <;>
        simp [words, Form.words, kindOf?_leftParen, kindOf?_rightParen, hdistinct, hcomma _ ih,
          QualifiedName.areTokens_words valid]
  | @case operand otherwise _ _ _ _ _ _ _ ihOperand ihConditions ihResults ihOtherwise =>
      have hoperand : AreTokens (operandWords operand) := by
        cases operand with
        | none => apply areTokens_nil
        | some y => apply ihOperand y rfl
      have hotherwise : AreTokens (otherwiseWords otherwise) := by
        cases otherwise with
        | none => apply areTokens_nil
        | some y =>
            simp [otherwiseWords, Keyword.isSome_spelling (k := .ELSE) (by decide), ihOtherwise y rfl]
      simp [words, Form.words, Keyword.isSome_spelling (k := .CASE) (by decide),
        Keyword.isSome_spelling (k := .END) (by decide), hoperand, hotherwise,
        hbranches _ ihConditions ihResults]
  | cast _ valid ih =>
      simp [words, Form.words, Keyword.isSome_spelling (k := .CAST) (by decide),
        Keyword.isSome_spelling (k := .AS) (by decide), kindOf?_leftParen, kindOf?_rightParen, ih,
        DataType.areTokens_words valid]
  | currentDate =>
      simp [words, Form.words, Keyword.isSome_spelling (k := .CURRENT_DATE) (by decide)]
  | currentTimestamp =>
      simp [words, Form.words, Keyword.isSome_spelling (k := .CURRENT_TIMESTAMP) (by decide)]
  | row _ _ ih => simp [words, Form.words, kindOf?_leftParen, kindOf?_rightParen, hcomma _ ih]
  | nested _ ih => simp [words, Form.words, kindOf?_leftParen, kindOf?_rightParen, ih]

/-- The expression is read back from the text of its words, up to positions. -/
def Expression.RoundTrips (e : Expression) : Prop :=
  ∃ e', parseExpression (" ".intercalate e.words) = .ok (.expression e') ∧ forget e' = forget e

/-- **The round trip of expressions.**  An expression that can be written, in which expressions nest
no deeper than the grammar allows, is read back from the text of its words, up to positions. -/
theorem parseExpression_words (e : Expression) (he : e.Writable) (hdeep : e.inside < maxNesting) :
  e.RoundTrips
  := by
  have hread : ∀ bound, e.words.length < bound → ∃ node s', node = .expression (forget e) ∧
      (soleExpression (.outermost bound)).Reads (.ofWords e.words) node s' := by
    intro bound hlength
    have hrecovers := ReadBack.expression hdeep (he.readBack hlength) [] (by decide)
    rw [List.append_nil] at hrecovers
    refine ⟨_, .ofWords [], rfl, ?_⟩
    apply hrecovers.bind
    apply reads_theEnd_words.bind
    apply reads_done_self
  obtain ⟨node, hnode, hforget⟩ := Stream.read_words he.areTokens_words
    (fun _ => soleExpression_follows (Inner.nested_natural (.refl _) maxNesting)) hread
  cases node with
  | statement s => contradiction
  | expression e' => exact ⟨e', hnode, Node.expression.inj hforget⟩

/-! ### What is not read back -/

/-- A column with a name of one word. -/
def Expression.ofColumn (name : String) : Expression :=
  ⟨.column ⟨[⟨name, false, default⟩], default⟩, default⟩

/-- The type that a literal is marked with or that an expression is converted to, if it is a name. -/
def Form.typeName? : Form → Option String
  | .literal (.typed type _) => some type
  | .cast _ (.primitive name _) => some name
  | _ => none

theorem Expression.typeName?_forget (e : Expression) :
  (forget e).form.typeName? = e.form.typeName?
  := by
  obtain ⟨form, span⟩ := e
  cases form with
  | literal value => cases value <;> rfl
  | cast _ type => cases type <;> rfl
  | _ => rfl

/-- An expression does not come back from its words if another name of a type does. -/
theorem Expression.not_roundTrips_of_typeName? {e : Expression} (name : String)
    (h : (match parseExpression (" ".intercalate e.words) with
      | .ok (.expression e') => e'.form.typeName?
      | _ => none) = some name)
    (hne : e.form.typeName? ≠ some name) :
  ¬ e.RoundTrips
  := by
  rintro ⟨e', hparse, hforget⟩
  rw [hparse] at h
  apply hne
  rw [← e.typeName?_forget, ← hforget, e'.typeName?_forget]
  apply h

/-- Lists of no items and choices of no branches are written but not read, and names of types are
read in capitals. -/
theorem parseExpression_words_exceptions :
  ¬ Expression.RoundTrips ⟨.inList (.ofColumn "x") false [], default⟩ ∧
  ¬ Expression.RoundTrips ⟨.case none [] none, default⟩ ∧
  ¬ Expression.RoundTrips ⟨.literal (.typed "date" "1"), default⟩ ∧
  ¬ Expression.RoundTrips ⟨.cast (.ofColumn "x") (.primitive "int" []), default⟩
  := by
  have hrefused : ∀ {e : Expression},
      (parseExpression (" ".intercalate e.words)).isOk = false → ¬ e.RoundTrips := by
    rintro e h ⟨e', hparse, -⟩
    rw [hparse] at h
    contradiction
  refine ⟨?_, ?_, ?_, ?_⟩
  · apply hrefused
    decide +kernel
  · apply hrefused
    decide +kernel
  · apply Expression.not_roundTrips_of_typeName? "DATE"
    · decide +kernel
    · decide
  · apply Expression.not_roundTrips_of_typeName? "INT"
    · decide +kernel
    · decide

/-- The tree of `NOT a NOT IN ( 1 , b )` is read back. -/
theorem parseExpression_words_negated :
  Expression.RoundTrips ⟨.unary .not ⟨.inList (.ofColumn "a") true
    [⟨.literal (.number .integer "1"), default⟩, .ofColumn "b"], default⟩, default⟩
  := by
  have ha : (Expression.ofColumn "a").Writable := .column <| by
    simp [QualifiedName.isWritable, Ident.isWritable, kindOf?_a, Kind.isName, Kind.isIdentifier]
  have hb : (Expression.ofColumn "b").Writable := .column <| by
    simp [QualifiedName.isWritable, Ident.isWritable, kindOf?_b, Kind.isName, Kind.isIdentifier]
  have hone : Expression.Writable ⟨.literal (.number .integer "1"), default⟩ :=
    .literal (decide_eq_true kindOf?_one)
  apply parseExpression_words
  · apply Expression.Writable.not
    · apply Expression.Writable.inList ha _ (by decide) (by simp)
      simp [hone, hb]
    · decide
  · decide

end SqlFront
