import SqlFront.Proofs.Grammar.QueryObeys
import SqlFront.Proofs.Nesting.Openings

/-!
# Each level opens one parenthesis

A rule reads tokens between which few parentheses are open at once: one more than the rules one
level further in allow.  Relations are the exception.  A parenthesis around one may hold a join, and
at the right of the join another parenthesis, for a query, so relations allow one parenthesis more
than what else is nested as deep.
-/

namespace SqlFront

theorem BinaryOp.isPlain_of_ofKind? {k : Kind} {op : BinaryOp} (h : ofKind? k = some op) :
  k.isPlain
  := by
  unfold ofKind? at h
  split at h <;> first | rfl | contradiction

theorem UnaryOp.isPlain_of_ofKind? {k : Kind} {op : UnaryOp} (h : ofKind? k = some op) :
  k.isPlain
  := by
  unfold ofKind? at h
  split at h <;> first | rfl | contradiction

theorem SetOp.isPlain_of_ofKind? {k : Kind} {op : SetOp} (h : ofKind? k = some op) :
  k.isPlain
  := by
  unfold ofKind? at h
  split at h <;> first | rfl | contradiction

namespace Grammar

variable {h : Nat}

/-! ### Names -/

theorem IdentRule.fits :
  RuleFits h IdentRule
  := by
  rintro _ _ ⟨name⟩ joined
  exact fits_nil.cons (Kind.isPlain_of_isName name)

theorem NameRule.fits :
  RuleFits h NameRule
  := by
  rintro _ _ ⟨dotted⟩
  apply RuleFits.separated IdentRule.fits rfl _ _ dotted

theorem LabelRule.fits :
  RuleFits h LabelRule
  := by
  rintro _ _ (name | name)
  · apply IdentRule.fits _ _ name
  · apply RuleFits.after IdentRule.fits rfl _ _ name

theorem IdentsRule.fits :
  RuleFits (h + 1) IdentsRule
  := (RuleFits.separated IdentRule.fits rfl).enclosed

theorem ParameterRule.fits :
  RuleFits h ParameterRule
  := by
  rintro _ _ ⟨number⟩ joined
  apply Fits.cons _ fits_nil
  rw [number]
  rfl

theorem QuantifierRule.fits :
  RuleFits h QuantifierRule
  := by
  rintro _ _ (word | word) joined
  all_goals
    apply Fits.cons _ fits_nil
    rw [word]
    rfl

/-! ### Operators -/

theorem ChainRule.fits {level : Nat} {operand : Expression → List Token → Prop}
    (hoperand : RuleFits h operand) :
  RuleFits h (ChainRule level operand)
  := by
  intro e u hu
  induction hu with
  | one only => apply hoperand _ _ only
  | more isLeft isOperator hasLevel isRight ih =>
      intro joined
      apply (ih joined).append
      intro joined
      apply Fits.cons (BinaryOp.isPlain_of_ofKind? isOperator)
      apply hoperand _ _ isRight

theorem CombinedRule.fits {op? : Kind → Option SetOp} {operand : Body → List Token → Prop}
    (hop : ∀ k op, op? k = some op → k.isPlain) (hoperand : RuleFits h operand) :
  RuleFits h (Rules.CombinedRule op? operand)
  := by
  intro b u hu
  induction hu with
  | one only => apply hoperand _ _ only
  | more isLeft isOperator isQuantifier isRight ih =>
      intro joined
      rw [List.append_assoc]
      apply (ih joined).append
      intro joined
      apply Fits.cons (hop _ _ isOperator)
      apply (QuantifierRule.fits.possible _ _ isQuantifier _).append
      apply hoperand _ _ isRight

/-! ### What is nested one level further in -/

/-- Everything fits that is nested one level further in; relations may take one parenthesis more. -/
structure Rules.Fit (h : Nat) (G : Rules) : Prop where
  expression : RuleFits h G.expression
  negation : RuleFits h G.negation
  signed : RuleFits h G.signed
  query : RuleFits h G.query
  primary : RuleFits (h + 1) G.primary
  dataType : RuleFits h G.dataType

namespace Rules

variable {G : Rules} (hG : G.Fit h) (hh : 0 < h)

include hG

theorem expressionsRule_fits :
  RuleFits h G.ExpressionsRule
  := hG.expression.separated rfl

include hh

theorem dataTypeRule_fits :
  RuleFits h G.DataTypeRule
  := by
  intro d u hu joined
  cases hu with
  | simple name => exact fits_nil.cons (Kind.isPlain_of_isName name)
  | parametrised name parameters =>
      apply Fits.cons (Kind.isPlain_of_isName name)
      apply RuleFits.mono (RuleFits.enclosed _) hh _ _ parameters
      exact ParameterRule.fits.separated rfl
  | array name opens inside closes =>
      apply Fits.cons (Kind.isPlain_of_isName name)
      apply Fits.cons (by rw [opens]; rfl)
      apply (hG.dataType _ _ inside _).append
      intro joined
      apply Fits.cons (by rw [closes]; rfl) fits_nil
  | map name opens first separator second closes =>
      apply Fits.cons (Kind.isPlain_of_isName name)
      apply Fits.cons (by rw [opens]; rfl)
      apply (hG.dataType _ _ first _).append
      intro joined
      apply Fits.cons (by rw [separator]; rfl)
      apply (hG.dataType _ _ second _).append
      intro joined
      apply Fits.cons (by rw [closes]; rfl) fits_nil

omit hh

theorem branchRule_fits :
  RuleFits h G.BranchRule
  := by
  rintro _ _ ⟨opens, isCondition, leads, isResult⟩ joined
  apply Fits.cons (by rw [opens]; rfl)
  apply (hG.expression _ _ isCondition _).append
  intro joined
  apply Fits.cons (by rw [leads]; rfl)
  apply hG.expression _ _ isResult

include hh

theorem formRule_fits :
  RuleFits (h + 1) G.FormRule
  := by
  have hle : h ≤ h + 1 := Nat.le_succ h
  intro form u hu joined
  cases hu with
  | literal literal => apply Plain.fits literal.2
  | column isName => apply NameRule.fits _ _ isName
  | star isStar => apply Fits.cons (by rw [isStar]; rfl) fits_nil
  | qualifiedStar isName isDot isStar =>
      apply (NameRule.fits _ _ isName _).append
      intro joined
      apply Fits.cons (by rw [isDot]; rfl)
      apply Fits.cons (by rw [isStar]; rfl) fits_nil
  | call isName opens words inside =>
      apply (NameRule.fits _ _ isName _).append
      intro joined
      obtain ⟨item, closing⟩ := inside
      rw [← List.append_assoc]
      apply Fits.enclose opens closing
      apply words.fits.append
      apply (expressionsRule_fits hG).listed _ _ item
  | case opens isOperand areBranches isOtherwise closes =>
      apply Fits.cons (by rw [opens]; rfl)
      rw [List.append_assoc, List.append_assoc]
      apply (hG.expression.possible.mono hle _ _ isOperand _).append
      intro joined
      apply ((branchRule_fits hG).repeated.mono hle _ _ areBranches _).append
      intro joined
      apply ((hG.expression.after rfl).possible.mono hle _ _ isOtherwise _).append
      intro joined
      apply Fits.cons (by rw [closes]; rfl) fits_nil
  | @cast t opening marker closing subject type u v isCast opens isSubject marks isType closes =>
      apply Fits.cons (by rw [isCast]; rfl)
      have hsplit : u ++ marker :: (v ++ [closing]) = (u ++ marker :: v) ++ [closing] := by simp
      rw [hsplit]
      apply Fits.enclose opens closes
      apply (hG.expression _ _ isSubject _).append
      intro joined
      apply Fits.cons (by rw [marks]; rfl)
      apply dataTypeRule_fits hG hh _ _ isType
  | currentDate word => apply Fits.cons (by rw [word]; rfl) fits_nil
  | currentTimestamp word => apply Fits.cons (by rw [word]; rfl) fits_nil
  | subquery inside => apply hG.query.enclosed _ _ inside
  | row inside => apply (expressionsRule_fits hG).enclosed _ _ inside
  | nested inside => apply hG.expression.enclosed _ _ inside

theorem signedRule_fits :
  RuleFits (h + 1) G.SignedRule
  := by
  intro e u hu joined
  cases hu with
  | sign isSign isOperand =>
      apply Fits.cons (UnaryOp.isPlain_of_ofKind? isSign)
      apply hG.signed.mono (Nat.le_succ h) _ _ isOperand
  | primary isForm => apply formRule_fits hG hh _ _ isForm

theorem comparisonRule_fits :
  RuleFits (h + 1) G.ComparisonRule
  := by
  iterate 6 apply ChainRule.fits
  apply signedRule_fits hG hh

theorem predicateFormRule_fits (subject : Expression) (negated : Bool) :
  RuleFits (h + 1) (G.PredicateFormRule subject negated)
  := by
  have hcomparison := comparisonRule_fits hG hh
  intro form u hu joined
  cases hu with
  | between word isLow conjoins isHigh =>
      apply Fits.cons (by rw [word]; rfl)
      apply (hcomparison _ _ isLow _).append
      intro joined
      apply Fits.cons (by rw [conjoins]; rfl)
      apply hcomparison _ _ isHigh
  | inQuery word inside =>
      apply Fits.cons (by rw [word]; rfl)
      apply hG.query.enclosed _ _ inside
  | inList word inside =>
      apply Fits.cons (by rw [word]; rfl)
      apply (expressionsRule_fits hG).enclosed _ _ inside
  | @like _ regex _ _ word isPattern =>
      apply Fits.cons (by rw [word]; cases regex <;> rfl)
      apply hcomparison _ _ isPattern
  | isNull word words =>
      apply Fits.cons (by rw [word]; rfl)
      apply words.fits

theorem predicateRule_fits :
  RuleFits (h + 1) G.PredicateRule
  := by
  have hcomparison := comparisonRule_fits hG hh
  intro e u hu joined
  cases hu with
  | comparison isSubject => apply hcomparison _ _ isSubject
  | positive isSubject isForm =>
      apply (hcomparison _ _ isSubject _).append
      apply predicateFormRule_fits hG hh _ _ _ _ isForm
  | negative isSubject word isForm =>
      apply (hcomparison _ _ isSubject _).append
      intro joined
      apply Fits.cons (by rw [word]; rfl)
      apply predicateFormRule_fits hG hh _ _ _ _ isForm

theorem negationRule_fits :
  RuleFits (h + 1) G.NegationRule
  := by
  intro e u hu joined
  cases hu with
  | not word isOperand =>
      apply Fits.cons (by rw [word]; rfl)
      apply hG.negation.mono (Nat.le_succ h) _ _ isOperand
  | exist word inside =>
      apply Fits.cons (by rw [word]; rfl)
      apply hG.query.enclosed _ _ inside
  | predicate isPredicate => apply predicateRule_fits hG hh _ _ isPredicate

theorem expressionRule_fits :
  RuleFits (h + 1) G.ExpressionRule
  := by
  iterate 2 apply ChainRule.fits
  apply negationRule_fits hG hh

/-! ### Queries -/

omit hh

theorem criterionRule_fits :
  RuleFits (h + 1) G.CriterionRule
  := by
  rintro _ _ (isCondition | areNames)
  · apply (hG.expression.after rfl).mono (Nat.le_succ h) _ _ isCondition
  · apply IdentsRule.fits.after rfl _ _ areNames

/-- A relation with joins fits if relations fit at the right of a join. -/
theorem relationWith_fits {primary : Primary → List Token → Prop}
    (hprimary : ∀ p u, primary p u → Fits (h + 1) true u) :
  RuleFits (h + 1) (G.RelationWith primary)
  := by
  have hjoin : RuleFits (h + 1) (G.JoinWith primary) := by
    rintro _ _ ⟨words, joins, isRight, isCriterion⟩ joined
    rw [List.append_assoc]
    apply words.fits.append
    intro joined
    apply Fits.cons (by rw [joins]; rfl)
    rw [joins, decide_eq_true rfl]
    apply (hprimary _ _ isRight).append
    apply (criterionRule_fits hG).possible _ _ isCriterion
  rintro _ _ ⟨isFirst, areJoins⟩ joined
  apply (hG.primary _ _ isFirst _).append
  apply hjoin.repeated _ _ areJoins

/-- At the right of a join, the parentheses around relations do not count. -/
theorem primaryUpTo_fits (n : Nat) :
  ∀ p u, G.PrimaryUpTo n p u → Fits (h + 1) true u
  := by
  induction n with
  | zero =>
      intro p u hu
      contradiction
  | succ n ih =>
      intro p u hu
      cases hu with
      | table isName isLabel =>
          apply (NameRule.fits _ _ isName _).append
          apply LabelRule.fits.possible _ _ isLabel
      | subquery inside isLabel =>
          apply (hG.query.enclosed _ _ inside _).append
          apply LabelRule.fits.possible _ _ isLabel
      | nested opens inside noQuery =>
          obtain ⟨item, closing⟩ := inside
          apply Fits.join opens closing noQuery
          apply relationWith_fits hG ih _ _ item

theorem primaryRule_fits :
  RuleFits (h + 2) G.PrimaryRule
  := by
  rintro p u ⟨n, hu⟩ joined
  cases n with
  | zero => contradiction
  | succ n =>
      cases hu with
      | table isName isLabel =>
          apply (NameRule.fits _ _ isName _).append
          apply LabelRule.fits.possible _ _ isLabel
      | subquery inside isLabel =>
          apply (hG.query.enclosed.mono (Nat.le_succ _) _ _ inside _).append
          apply LabelRule.fits.possible _ _ isLabel
      | nested opens inside noQuery =>
          obtain ⟨item, closing⟩ := inside
          apply Fits.enclose opens closing
          apply relationWith_fits hG (primaryUpTo_fits hG n) _ _ item

theorem relationRule_fits :
  RuleFits (h + 1) G.RelationRule
  := by
  rintro r u ⟨n, hu⟩
  apply relationWith_fits hG (primaryUpTo_fits hG n) _ _ hu

theorem selectItemRule_fits :
  RuleFits h G.SelectItemRule
  := by
  rintro _ _ ⟨isValue, isLabel⟩ joined
  apply (hG.expression _ _ isValue _).append
  apply LabelRule.fits.possible _ _ isLabel

include hh

theorem groupingSetRule_fits :
  RuleFits h G.GroupingSetRule
  := by
  rintro _ _ (⟨opens, closes⟩ | isRow | isNested | isSingle) joined
  · exact (Fits.enclose opens closes fits_nil).mono hh
  · apply hG.expression _ _ isRow
  · apply hG.expression _ _ isNested
  · apply hG.expression _ _ isSingle

theorem groupingRule_fits :
  RuleFits (h + 1) G.GroupingRule
  := by
  rintro _ _ (_ | words | words | ⟨words, inside⟩) joined
  · apply fits_nil
  · apply words.fits
  · apply words.fits
  · apply words.fits.append
    apply ((groupingSetRule_fits hG hh).separated rfl).enclosed _ _ inside

theorem groupByRule_fits :
  RuleFits (h + 1) G.GroupByRule
  := by
  rintro _ _ ⟨opens, areKeys, isGrouping⟩ joined
  apply Fits.append
  · apply Fits.cons (by rw [opens]; rfl)
    apply ((expressionsRule_fits hG).after rfl).mono (Nat.le_succ h) _ _ areKeys
  · apply groupingRule_fits hG hh _ _ isGrouping

theorem selectRule_fits :
  RuleFits (h + 1) G.SelectRule
  := by
  have hexpression : ∀ {k : Kind}, k.isPlain → RuleFits (h + 1) (Possible (After k G.expression)) :=
    fun hk => (hG.expression.after hk).possible.mono (Nat.le_succ h)
  rintro _ _ ⟨opens, isQuantifier, areItems, areRelations, isCondition, isGrouping, isHaving⟩ joined
  rw [List.append_assoc, List.append_assoc, List.append_assoc, List.append_assoc]
  apply Fits.append
  · apply Fits.cons (by rw [opens]; rfl)
    apply QuantifierRule.fits.possible _ _ isQuantifier
  intro joined
  apply (((selectItemRule_fits hG).separated rfl).mono (Nat.le_succ h) _ _ areItems _).append
  intro joined
  apply ((((relationRule_fits hG).separated rfl).after rfl).listed _ _ areRelations _).append
  intro joined
  apply (hexpression rfl _ _ isCondition _).append
  intro joined
  apply ((groupByRule_fits hG hh).possible _ _ isGrouping _).append
  apply hexpression rfl _ _ isHaving

theorem simpleBodyRule_fits :
  RuleFits (h + 1) G.SimpleBodyRule
  := by
  rintro _ _ (isSelect | isTable | areValues | inside)
  · apply selectRule_fits hG hh _ _ isSelect
  · apply NameRule.fits.after rfl _ _ isTable
  · apply ((expressionsRule_fits hG).after rfl).mono (Nat.le_succ h) _ _ areValues
  · apply hG.query.enclosed _ _ inside

theorem bodyRule_fits :
  RuleFits (h + 1) G.BodyRule
  := by
  apply CombinedRule.fits (fun _ _ => SetOp.isPlain_of_ofKind?)
  apply CombinedRule.fits _ (simpleBodyRule_fits hG hh)
  intro k op hop
  unfold intersect? at hop
  split at hop
  · next hk => rw [hk]; rfl
  · contradiction

omit hh

theorem sortItemRule_fits :
  RuleFits h G.SortItemRule
  := by
  rintro _ _ ⟨isKey, words⟩ joined
  apply (hG.expression _ _ isKey _).append
  exact fun _ => words.fits

theorem namedQueryRule_fits :
  RuleFits (h + 1) G.NamedQueryRule
  := by
  rintro _ _ ⟨isName, areColumns, words, inside⟩ joined
  rw [List.append_assoc, List.append_assoc]
  apply (IdentRule.fits _ _ isName _).append
  intro joined
  apply (IdentsRule.fits.listed _ _ areColumns _).append
  intro joined
  apply words.fits.append
  apply hG.query.enclosed _ _ inside

include hh

theorem queryRule_fits :
  RuleFits (h + 1) G.QueryRule
  := by
  rintro _ _ ⟨areNamed, isBody, isOrder, isLimit⟩ joined
  rw [List.append_assoc, List.append_assoc]
  apply ((((namedQueryRule_fits hG).separated rfl).after rfl).listed _ _ areNamed _).append
  intro joined
  apply (bodyRule_fits hG hh _ _ isBody _).append
  intro joined
  have hle := Nat.le_succ h
  apply (((((sortItemRule_fits hG).separated rfl).after rfl).after rfl).listed.mono hle
    _ _ isOrder _).append
  apply (hG.expression.after rfl).possible.mono hle _ _ isLimit

end Rules

/-- What may be nested so many levels deep opens one parenthesis a level and one more. -/
theorem Rules.within_fit (levels : Nat) :
  (within levels).Fit (levels + 1)
  := by
  induction levels with
  | zero => constructor <;> exact fun _ _ hu => hu.elim
  | succ levels ih =>
      have hpos := Nat.succ_pos levels
      constructor
      · apply expressionRule_fits ih hpos
      · apply negationRule_fits ih hpos
      · apply signedRule_fits ih hpos
      · apply queryRule_fits ih hpos
      · apply primaryRule_fits ih
      · apply (dataTypeRule_fits ih hpos).mono (Nat.le_succ _)

end Grammar

end SqlFront
