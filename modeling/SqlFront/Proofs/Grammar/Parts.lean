import SqlFront.Proofs.Grammar.Levels
import SqlFront.Proofs.Tree.Part

/-!
# How parts are read

Every part of a tree that is read by the rules has a rule of its own, and the children of a part
are read, one after the other, from the tokens that the part is read from.  So every part within
the tree of a text is read from some of the tokens of the text (`Part.reading_of_within`).
-/

namespace SqlFront

open Grammar

/-- A query, or one whose region has been widened to the parentheses around it. -/
inductive Grammar.Rules.WideQueryRule (G : Rules) : Query → List Token → Prop where
  | bare {q : Query} {u : List Token} (isQuery : G.QueryRule q u) : WideQueryRule G q u
  | wide {q : Query} {u : List Token} (inside : Enclosed G.QueryRule q u) :
      WideQueryRule G { q with span := Span.over u } u

namespace Part

/-- A part is read from tokens, by the rule for nodes of its type at some level. -/
def Reading : Part → List Token → Prop
  | ident i, u => IdentRule i u
  | name n, u => NameRule n u
  | constant c, u => ConstantRule c u
  | expression e, u => ∃ n level, (Rules.within n).LevelRule level e u
  | query q, u => ∃ n, (Rules.within n).WideQueryRule q u
  | namedQuery q, u => ∃ n, (Rules.within n).NamedQueryRule q u
  | body b, u => ∃ n, (Rules.within n).BodyRule b u
  | select s, u => ∃ n, (Rules.within n).SelectRule s u
  | selectItem item, u => ∃ n, (Rules.within n).SelectItemRule item u
  | groupBy g, u => ∃ n, (Rules.within n).GroupByRule g u
  | sortItem item, u => ∃ n, (Rules.within n).SortItemRule item u
  | relation r, u => ∃ n, (Rules.within n).RelationRule r u
  | primary p, u => ∃ n, (Rules.within n).PrimaryRule p u
  | join j, u => ∃ n m, (Rules.within n).JoinWith ((Rules.within n).PrimaryUpTo m) j u
  | assignment a, u => ∃ n, (Rules.within n).AssignmentRule a u
  | clause c, u => ∃ n, (Rules.within n).ClauseRule c u
  | merge m, u => ∃ n, (Rules.within n).MergeRule m u
  | partitionEntry e, u => PartitionEntryRule e u
  | partition p, u => PartitionRule p u
  | optionEntry e, u => OptionEntryRule e u
  | options o, u => OptionsRule o u
  | load l, u => LoadRule l u
  | exportRows e, u => ∃ n, (Rules.within n).ExportRule e u
  | verbatim v, u => VerbatimRule v u

/-- Parts are read one after the other, possibly with other tokens between them. -/
inductive ReadIn : List Part → List Token → Prop where
  | nil (u : List Token) : ReadIn [] u
  | cons {p : Part} {ps : List Part} {v w : List Token} (u : List Token) (first : p.Reading v)
      (others : ReadIn ps w) : ReadIn (p :: ps) (u ++ v ++ w)

variable {p : Part} {ps qs : List Part} {t : Token} {u v : List Token}

theorem ReadIn.behind (h : ReadIn ps v) (u : List Token) :
  ReadIn ps (u ++ v)
  := by
  cases h with
  | nil => apply ReadIn.nil
  | cons w first others =>
      rw [← List.append_assoc, ← List.append_assoc]
      apply ReadIn.cons _ first others

theorem ReadIn.append (h : ReadIn ps u) (h' : ReadIn qs v) :
  ReadIn (ps ++ qs) (u ++ v)
  := by
  induction h with
  | nil u => apply h'.behind u
  | cons u first others ih =>
      rw [List.append_assoc]
      apply ReadIn.cons u first ih

theorem ReadIn.before (h : ReadIn ps u) (v : List Token) :
  ReadIn ps (u ++ v)
  := by
  rw [← List.append_nil ps]
  apply h.append (.nil v)

theorem ReadIn.tail (h : ReadIn ps u) (t : Token) :
  ReadIn ps (t :: u)
  := h.behind [t]

theorem ReadIn.one (h : p.Reading u) :
  ReadIn [p] u
  := by
  have h' := ReadIn.cons [] h (.nil [])
  rwa [List.nil_append, List.append_nil] at h'

/-- A part among those that are read is read from some of the tokens. -/
theorem ReadIn.reading (h : ReadIn ps u) (hp : p ∈ ps) :
  ∃ v, v <:+: u ∧ p.Reading v
  := by
  induction h with
  | nil => contradiction
  | @cons q ps v w u first others ih =>
      rcases List.mem_cons.mp hp with rfl | hp
      · exact ⟨v, ⟨u, w, rfl⟩, first⟩
      · obtain ⟨x, hx, hreading⟩ := ih hp
        exact ⟨x, hx.trans (List.suffix_append _ _).isInfix, hreading⟩

end Part

namespace Grammar

/-! ### Lists and options -/

section

variable {α : Type} {k : Kind} {R : α → List Token → Prop} {a : α} {as : List α} {o : Option α}
  {u : List Token} {f : α → List Part} {ps : List Part}

open SqlFront.Part (ReadIn)

theorem Repeated.readIn (hR : ∀ a v, R a v → ReadIn (f a) v) (h : Repeated R as u) :
  ReadIn (as.flatMap f) u
  := by
  induction h with
  | nil => apply ReadIn.nil
  | cons first others ih => apply (hR _ _ first).append ih

theorem Separated.readIn (hR : ∀ a v, R a v → ReadIn (f a) v) (h : Separated k R as u) :
  ReadIn (as.flatMap f) u
  := by
  induction h with
  | one only =>
      rw [List.flatMap_cons, List.flatMap_nil, List.append_nil]
      apply hR _ _ only
  | more first separator others ih => apply (hR _ _ first).append (ih.tail _)

theorem Possible.readIn (hR : ∀ a v, R a v → ReadIn (f a) v) (h : Possible R o u) :
  ReadIn (o.toList.flatMap f) u
  := by
  cases h with
  | none => apply ReadIn.nil
  | some item =>
      rw [Option.toList_some, List.flatMap_cons, List.flatMap_nil, List.append_nil]
      apply hR _ _ item

theorem After.readIn (hR : ∀ v, R a v → ReadIn ps v) (h : After k R a u) :
  ReadIn ps u
  := by
  cases h with
  | intro opening item => apply (hR _ item).tail

theorem Closed.readIn (hR : ∀ v, R a v → ReadIn ps v) (h : Closed R a u) :
  ReadIn ps u
  := by
  cases h with
  | intro item closing => apply (hR _ item).before

theorem Enclosed.readIn (hR : ∀ v, R a v → ReadIn ps v) (h : Enclosed R a u) :
  ReadIn ps u
  := by
  apply After.readIn _ h
  intro v h
  apply h.readIn hR

variable {g : α → Part}

theorem Repeated.readIn_map (hR : ∀ a v, R a v → (g a).Reading v) (h : Repeated R as u) :
  ReadIn (as.map g) u
  := by
  rw [List.map_eq_flatMap]
  apply h.readIn
  intro a v h
  apply ReadIn.one (hR a v h)

theorem Separated.readIn_map (hR : ∀ a v, R a v → (g a).Reading v) (h : Separated k R as u) :
  ReadIn (as.map g) u
  := by
  rw [List.map_eq_flatMap]
  apply h.readIn
  intro a v h
  apply ReadIn.one (hR a v h)

theorem Possible.readIn_map (hR : ∀ a v, R a v → (g a).Reading v) (h : Possible R o u) :
  ReadIn (o.toList.map g) u
  := by
  rw [List.map_eq_flatMap]
  apply h.readIn
  intro a v h
  apply ReadIn.one (hR a v h)

theorem Listed.readIn_map {R : List α → List Token → Prop} (hR : ∀ v, R as v → ReadIn (as.map g) v)
    (h : Listed R as u) :
  ReadIn (as.map g) u
  := by
  cases h with
  | none => apply ReadIn.nil
  | some items => apply hR _ items

/-- An item that is read only behind a certain token. -/
theorem Possible.readIn_after (hR : ∀ a v, R a v → (g a).Reading v)
    (h : Possible (After k R) o u) :
  ReadIn (o.toList.map g) u
  := by
  rw [List.map_eq_flatMap]
  apply h.readIn
  intro a v h
  apply h.readIn
  intro v h
  apply ReadIn.one (hR a v h)

end

/-! ### Names -/

section

open SqlFront.Part (ReadIn)

variable {u : List Token}

theorem readIn_of_ident {i : Ident} (h : IdentRule i u) :
  ReadIn [.ident i] u
  := .one h

theorem readIn_of_name {name : QualifiedName} (h : NameRule name u) :
  ReadIn [.name name] u
  := .one h

theorem readIn_of_constant {c : Constant} (h : ConstantRule c u) :
  ReadIn [.constant c] u
  := .one h

theorem NameRule.readIn {name : QualifiedName} (h : NameRule name u) :
  ReadIn (name.parts.map .ident) u
  := by
  cases h with
  | intro dotted => apply dotted.readIn_map fun _ _ h => h

theorem readIn_of_label {label : Option Ident} (h : Possible LabelRule label u) :
  ReadIn (label.toList.map .ident) u
  := by
  rw [List.map_eq_flatMap]
  apply h.readIn
  intro i v h
  cases h with
  | bare name => apply readIn_of_ident name
  | marked name => apply name.readIn fun v h => readIn_of_ident h

theorem readIn_of_idents {names : List Ident} (h : IdentsRule names u) :
  ReadIn (names.map .ident) u
  := by
  apply h.readIn
  intro v h
  apply h.readIn_map fun _ _ h => h

theorem readIn_of_columns {names : List Ident} (h : Listed IdentsRule names u) :
  ReadIn (names.map .ident) u
  := h.readIn_map fun _ h => readIn_of_idents h

end

/-! ### What the levels hold -/

namespace Rules

open SqlFront.Part (ReadIn)

variable {n : Nat} {u : List Token}

theorem reading_of_expression {e : Expression} (h : (within n).expression e u) :
  (Part.expression e).Reading u
  := by
  cases n with
  | zero => exact h.elim
  | succ n => exact ⟨n, 1, ExpressionRule.levelRule h⟩

theorem reading_of_negation {e : Expression} (h : (within n).negation e u) :
  (Part.expression e).Reading u
  := by
  cases n with
  | zero => exact h.elim
  | succ n => exact ⟨n, 3, NegationRule.levelRule h⟩

theorem reading_of_signed {e : Expression} (h : (within n).signed e u) :
  (Part.expression e).Reading u
  := by
  cases n with
  | zero => exact h.elim
  | succ n => exact ⟨n, 11, SignedRule.levelRule h⟩

theorem reading_of_comparison {e : Expression} (h : (within n).ComparisonRule e u) :
  (Part.expression e).Reading u
  := ⟨n, 5, ComparisonRule.levelRule h⟩

theorem reading_of_query {q : Query} (h : (within n).query q u) :
  (Part.query q).Reading u
  := by
  cases n with
  | zero => exact h.elim
  | succ n => exact ⟨n, .bare h⟩

theorem reading_of_primary {p : Primary} (h : (within n).primary p u) :
  (Part.primary p).Reading u
  := by
  cases n with
  | zero => exact h.elim
  | succ n => exact ⟨n, h⟩

theorem readIn_of_expression {e : Expression} (h : (within n).expression e u) :
  ReadIn [.expression e] u
  := .one (reading_of_expression h)

theorem readIn_of_query {q : Query} (h : Enclosed (within n).query q u) :
  ReadIn [.query q] u
  := by
  apply h.readIn
  intro v h
  apply ReadIn.one (reading_of_query h)

theorem readIn_of_expressions {es : List Expression} (h : (within n).ExpressionsRule es u) :
  ReadIn (es.map .expression) u
  := by
  apply h.readIn_map
  intro e v h
  apply reading_of_expression h

/-! ### Expressions -/

theorem BranchRule.readIn {b : Branch} (h : (within n).BranchRule b u) :
  ReadIn [.expression b.condition, .expression b.result] u
  := by
  cases h with
  | intro opens isCondition leads isResult =>
      apply ReadIn.tail
      apply (readIn_of_expression isCondition).append ((readIn_of_expression isResult).tail _)

theorem FormRule.readIn {form : Form} (h : (within n).FormRule form u) :
  ReadIn form.parts u
  := by
  cases h with
  | literal => apply ReadIn.nil
  | column isName => apply readIn_of_name isName
  | star => apply ReadIn.nil
  | qualifiedStar isName => apply (readIn_of_name isName).before
  | call isName opens words inside =>
      apply (readIn_of_name isName).append
      apply ReadIn.tail
      apply ReadIn.behind
      apply inside.readIn
      intro v h
      apply h.readIn_map fun _ h => readIn_of_expressions h
  | case opens isOperand areBranches isOtherwise closes =>
      have hoperand := isOperand.readIn_map fun _ _ h => reading_of_expression h
      have hbranches := areBranches.readIn fun _ _ h => h.readIn
      have hotherwise := isOtherwise.readIn_after fun _ _ h => reading_of_expression h
      apply ReadIn.tail
      apply ReadIn.before
      apply (hoperand.append hbranches).append hotherwise
  | cast isCast opens isSubject => apply (((readIn_of_expression isSubject).before _).tail _).tail
  | currentDate => apply ReadIn.nil
  | currentTimestamp => apply ReadIn.nil
  | subquery inside => apply readIn_of_query inside
  | row inside => apply inside.readIn fun _ h => readIn_of_expressions h
  | nested inside => apply inside.readIn fun _ h => readIn_of_expression h

theorem PredicateFormRule.readIn {subject : Expression} {negated : Bool} {form : Form}
    (h : (within n).PredicateFormRule subject negated form u) :
  ∃ ps, form.parts = .expression subject :: ps ∧ ReadIn ps u
  := by
  cases h with
  | between word isLow conjoins isHigh =>
      have hlow := ReadIn.one (reading_of_comparison isLow)
      have hhigh := ReadIn.one (reading_of_comparison isHigh)
      exact ⟨_, rfl, (hlow.append (hhigh.tail _)).tail _⟩
  | inQuery word inside => exact ⟨_, rfl, (readIn_of_query inside).tail _⟩
  | inList word inside =>
      exact ⟨_, rfl, (inside.readIn fun _ h => readIn_of_expressions h).tail _⟩
  | like word isPattern => exact ⟨_, rfl, (ReadIn.one (reading_of_comparison isPattern)).tail _⟩
  | isNull => exact ⟨_, rfl, .nil _⟩

theorem LevelRule.readIn {level : Nat} {e : Expression} (h : (within n).LevelRule level e u) :
  ReadIn e.form.parts u
  := by
  induction h with
  | tighter _ ih => apply ih
  | operation isLeft isOperator isRight =>
      have hleft := ReadIn.one (p := .expression _) ⟨n, _, isLeft⟩
      have hright := ReadIn.one (p := .expression _) ⟨n, _, isRight⟩
      apply hleft.append (hright.tail _)
  | not word isOperand => apply (ReadIn.one (reading_of_negation isOperand)).tail
  | exist word inside => apply (readIn_of_query inside).tail
  | predicate isSubject words isForm =>
      obtain ⟨ps, hps, hreadIn⟩ := isForm.readIn
      have hsubject := ReadIn.one (p := .expression _) ⟨n, _, isSubject⟩
      rw [hps]
      apply (hsubject.before _).append hreadIn
  | sign isSign isOperand => apply (ReadIn.one (reading_of_signed isOperand)).tail
  | primary isForm => apply isForm.readIn

/-! ### Relations -/

theorem reading_of_relation {m : Nat} {r : Relation}
    (h : (within n).RelationWith ((within n).PrimaryUpTo m) r u) :
  (Part.relation r).Reading u
  := ⟨n, m, h⟩

theorem CriterionRule.readIn {c : Criterion} (h : (within n).CriterionRule c u) :
  ReadIn c.parts u
  := by
  cases h with
  | condition isCondition => apply isCondition.readIn fun _ h => readIn_of_expression h
  | columns areNames => apply areNames.readIn fun _ h => readIn_of_idents h

theorem JoinWith.readIn {m : Nat} {j : Join}
    (h : (within n).JoinWith ((within n).PrimaryUpTo m) j u) :
  ReadIn (Part.join j).children u
  := by
  cases h with
  | intro words joins isRight isCriterion =>
      have hright := ReadIn.one (p := .primary _) ⟨n, m, isRight⟩
      have hcriterion := isCriterion.readIn fun _ _ h => h.readIn
      rw [List.append_assoc]
      apply ReadIn.behind
      apply (hright.append hcriterion).tail

theorem RelationRule.readIn {r : Relation} (h : (within n).RelationRule r u) :
  ReadIn (Part.relation r).children u
  := by
  obtain ⟨m, h⟩ := h
  cases h with
  | intro isFirst areJoins =>
      have hfirst := ReadIn.one (reading_of_primary isFirst)
      apply hfirst.append
      apply areJoins.readIn_map
      intro j v h
      exact ⟨n, m, h⟩

theorem PrimaryRule.readIn {p : Primary} (h : (within n).PrimaryRule p u) :
  ReadIn p.parts u
  := by
  obtain ⟨m, h⟩ := h
  cases m with
  | zero => exact h.elim
  | succ m =>
      cases h with
      | table isName isLabel => apply (readIn_of_name isName).append (readIn_of_label isLabel)
      | subquery inside isLabel => apply (readIn_of_query inside).append (readIn_of_label isLabel)
      | nested opens inside =>
          apply ReadIn.tail
          apply inside.readIn
          intro v h
          apply ReadIn.one (reading_of_relation h)

/-! ### Selections and queries -/

theorem SelectItemRule.readIn {item : SelectItem} (h : (within n).SelectItemRule item u) :
  ReadIn (Part.selectItem item).children u
  := by
  cases h with
  | intro isValue isLabel =>
      apply (readIn_of_expression isValue).append (readIn_of_label isLabel)

/-- The parts below an expression are read from its tokens. -/
theorem readIn_of_form {form : Form} {region : Span} (h : (within n).expression ⟨form, region⟩ u) :
  ReadIn form.parts u
  := by
  obtain ⟨m, level, h⟩ := reading_of_expression h
  apply h.readIn

theorem GroupingSetRule.readIn {es : List Expression} (h : (within n).GroupingSetRule es u) :
  ReadIn (es.map .expression) u
  := by
  cases h with
  | empty => apply ReadIn.nil
  | row isRow => apply readIn_of_form isRow
  | nested isNested => apply readIn_of_form isNested
  | single isSingle => apply readIn_of_expression isSingle

theorem GroupingRule.readIn {g : Grouping} (h : (within n).GroupingRule g u) :
  ReadIn g.parts u
  := by
  cases h with
  | plain => apply ReadIn.nil
  | rollup => apply ReadIn.nil
  | cube => apply ReadIn.nil
  | sets words inside =>
      apply ReadIn.behind
      apply inside.readIn
      intro v h
      apply h.readIn fun _ _ h => h.readIn

theorem GroupByRule.readIn {g : GroupBy} (h : (within n).GroupByRule g u) :
  ReadIn (Part.groupBy g).children u
  := by
  cases h with
  | intro opens areKeys isGrouping =>
      have hkeys := areKeys.readIn fun _ h => readIn_of_expressions h
      apply (hkeys.tail _).append isGrouping.readIn

theorem SelectRule.readIn {s : Select} (h : (within n).SelectRule s u) :
  ReadIn (Part.select s).children u
  := by
  cases h with
  | intro opens isQuantifier areItems areRelations isCondition isGrouping isHaving =>
      have hitems := areItems.readIn_map (g := .selectItem) fun _ _ h => ⟨n, h⟩
      have hrelations : ReadIn _ _ := areRelations.readIn_map (g := .relation) fun _ h =>
        h.readIn fun _ h => h.readIn_map fun _ _ h => ⟨n, h⟩
      have hcondition := isCondition.readIn_after fun _ _ h => reading_of_expression h
      have hgrouping := isGrouping.readIn_map (g := .groupBy) fun _ _ h => ⟨n, h⟩
      have hhaving := isHaving.readIn_after fun _ _ h => reading_of_expression h
      apply ((((hitems.behind _).append hrelations).append hcondition).append hgrouping).append
        hhaving

theorem SimpleBodyRule.readIn {b : Body} (h : (within n).SimpleBodyRule b u) :
  ReadIn b.parts u
  := by
  cases h with
  | select isSelect => exact ReadIn.one (p := .select _) ⟨n, isSelect⟩
  | table isTable => apply isTable.readIn fun _ h => readIn_of_name h
  | values areValues => apply areValues.readIn fun _ h => readIn_of_expressions h
  | @nested q _ inside =>
      apply ReadIn.one
      cases n with
      | zero =>
          cases inside with
          | intro opening item =>
              cases item with
              | intro item closing => exact item.elim
      | succ n => exact ⟨n, .wide inside⟩

theorem CombinedRule.readIn {op? : Kind → Option SetOp} {operand : Body → List Token → Prop}
    {b : Body} (hrule : ∀ b v, CombinedRule op? operand b v → (within n).BodyRule b v)
    (hoperand : ∀ b v, operand b v → ReadIn b.parts v) (h : CombinedRule op? operand b u) :
  ReadIn b.parts u
  := by
  cases h with
  | one only => apply hoperand _ _ only
  | more isLeft isOperator isQuantifier isRight =>
      have hleft := ReadIn.one (p := .body _) ⟨n, hrule _ _ isLeft⟩
      have hright := ReadIn.one (p := .body _) ⟨n, hrule _ _ (.one isRight)⟩
      apply (hleft.before _).append hright

theorem BodyRule.readIn {b : Body} (h : (within n).BodyRule b u) :
  ReadIn b.parts u
  := by
  apply CombinedRule.readIn (fun _ _ h => h) _ h
  intro b v h
  apply CombinedRule.readIn (fun _ _ h => .one h) _ h
  intro b v h
  apply SimpleBodyRule.readIn h

theorem SortItemRule.readIn {item : SortItem} (h : (within n).SortItemRule item u) :
  ReadIn (Part.sortItem item).children u
  := by
  cases h with
  | intro isKey words => apply (readIn_of_expression isKey).before

theorem NamedQueryRule.readIn {q : NamedQuery} (h : (within n).NamedQueryRule q u) :
  ReadIn (Part.namedQuery q).children u
  := by
  cases h with
  | intro isName areColumns words inside =>
      have hnames := (readIn_of_ident isName).append (readIn_of_columns areColumns)
      apply (hnames.before _).append (readIn_of_query inside)

theorem QueryRule.readIn {q : Query} (h : (within n).QueryRule q u) :
  ReadIn (Part.query q).children u
  := by
  cases h with
  | intro areNamed isBody isOrder isLimit =>
      have hnamed : ReadIn _ _ := areNamed.readIn_map (g := .namedQuery) fun _ h =>
        h.readIn fun _ h => h.readIn_map fun _ _ h => ⟨n, h⟩
      have hbody := ReadIn.one (p := .body _) ⟨n, isBody⟩
      have horder : ReadIn _ _ := isOrder.readIn_map (g := .sortItem) fun _ h =>
        h.readIn fun _ h => h.readIn fun _ h => h.readIn_map fun _ _ h => ⟨n, h⟩
      have hlimit := isLimit.readIn_after fun _ _ h => reading_of_expression h
      simpa [Part.children] using ((hnamed.append hbody).append horder).append hlimit

theorem WideQueryRule.readIn {q : Query} (h : (within n).WideQueryRule q u) :
  ReadIn (Part.query q).children u
  := by
  cases h with
  | bare isQuery => apply isQuery.readIn
  | wide inside => apply inside.readIn fun _ h => h.readIn

/-! ### Statements -/

theorem AssignmentRule.readIn {a : Assignment} (h : (within n).AssignmentRule a u) :
  ReadIn (Part.assignment a).children u
  := by
  cases h with
  | intro isTarget isValue =>
      apply (readIn_of_name isTarget).append
      apply isValue.readIn fun _ h => readIn_of_expression h

theorem ActionRule.readIn {a : Action} (h : (within n).ActionRule a u) :
  ReadIn a.parts u
  := by
  cases h with
  | delete => apply ReadIn.nil
  | updateAll => apply ReadIn.nil
  | update words areAssignments =>
      apply ReadIn.behind
      apply areAssignments.readIn_map (g := .assignment) fun _ _ h => ⟨n, h⟩
  | insertAll => apply ReadIn.nil
  | insert word areColumns areValues =>
      have hvalues : ReadIn _ _ := areValues.readIn fun _ h =>
        h.readIn fun _ h => readIn_of_expressions h
      apply ((readIn_of_columns areColumns).tail _).append hvalues

theorem ClauseRule.readIn {c : Clause} (h : (within n).ClauseRule c u) :
  ReadIn (Part.clause c).children u
  := by
  cases h with
  | intro opens words isCondition leads isAction =>
      have hcondition := isCondition.readIn_after fun _ _ h => reading_of_expression h
      apply (hcondition.behind _).append (isAction.readIn.tail _)

theorem MergeSourceRule.readIn {source : MergeSource} (h : (within n).MergeSourceRule source u) :
  ReadIn [source.part] u
  := by
  cases h with
  | query inside => apply readIn_of_query inside
  | table isName => apply readIn_of_name isName

theorem MergeRule.readIn {m : Merge} (h : (within n).MergeRule m u) :
  ReadIn (Part.merge m).children u
  := by
  cases h with
  | @intro _ _ _ _ _ _ t _ _ _ _ _ _ opens isTarget isTargetLabel isSource isSourceLabel
      isCondition areClauses =>
      have htarget : ReadIn _ _ := isTarget.readIn fun _ h => readIn_of_name h
      have hsource : ReadIn _ _ := isSource.readIn fun _ h => h.readIn
      have hcondition : ReadIn _ _ := isCondition.readIn fun _ h => readIn_of_expression h
      have hclauses := areClauses.readIn_map (g := .clause) fun _ _ h => ⟨n, h⟩
      have h := (((((htarget.tail t).append (readIn_of_label isTargetLabel)).append hsource).append
        (readIn_of_label isSourceLabel)).append hcondition).append hclauses
      simpa [Part.children] using h

theorem ExportRule.readIn {e : Export} (h : (within n).ExportRule e u) :
  ReadIn (Part.exportRows e).children u
  := by
  cases h with
  | @intro _ _ _ _ t _ _ _ _ opens isQuery isPath isFormat areOptions =>
      have hquery := ReadIn.one (reading_of_query isQuery)
      have hpath : ReadIn _ _ := isPath.readIn fun _ h => readIn_of_constant h
      have hformat := isFormat.readIn_after (g := .ident) fun _ _ h => h
      have hoptions := areOptions.readIn_map (g := .options) fun _ _ h => h
      have h := (((hquery.tail t).append hpath).append hformat).append hoptions
      simpa [Part.children] using h

end Rules

section

open SqlFront.Part (ReadIn)

variable {u : List Token}

theorem PartitionEntryRule.readIn {e : PartitionEntry} (h : PartitionEntryRule e u) :
  ReadIn (Part.partitionEntry e).children u
  := by
  cases h with
  | intro isColumn isValue =>
      apply (readIn_of_ident isColumn).append
      apply isValue.readIn_after fun _ _ h => h

theorem PartitionRule.readIn {p : Partition} (h : PartitionRule p u) :
  ReadIn (Part.partition p).children u
  := by
  cases h with
  | intro opens areEntries =>
      apply ReadIn.tail
      apply areEntries.readIn fun _ h => h.readIn_map fun _ _ h => h

theorem OptionEntryRule.readIn {e : OptionEntry} (h : OptionEntryRule e u) :
  ReadIn (Part.optionEntry e).children u
  := by
  cases h with
  | intro isKey words isValue => apply (readIn_of_constant isValue).behind

theorem OptionsRule.readIn {o : OptionList} (h : OptionsRule o u) :
  ReadIn (Part.options o).children u
  := by
  cases h with
  | intro opens areEntries =>
      apply ReadIn.tail
      apply areEntries.readIn fun _ h => h.readIn_map fun _ _ h => h

theorem LoadRule.readIn {l : Load} (h : LoadRule l u) :
  ReadIn (Part.load l).children u
  := by
  cases h with
  | @intro _ _ _ _ _ _ t a _ c _ _ _ opens words isPath moreWords isTable isPartition areOptions =>
      have hpartition := isPartition.readIn_map (g := .partition) fun _ _ h => h
      have hoptions := areOptions.readIn_map (g := .options) fun _ _ h => h
      have h := ((((readIn_of_constant isPath).behind (t :: a)).before c).append
        (readIn_of_name isTable)).append hpartition |>.append hoptions
      simpa [Part.children] using h

end

end Grammar

namespace Part

variable {p q : Part} {u : List Token}

/-- The children of a part are read one after the other from the tokens of the part. -/
theorem readIn_of_reading (h : p.Reading u) :
  ReadIn p.children u
  := by
  cases p with
  | ident | constant | verbatim => apply ReadIn.nil
  | name => apply NameRule.readIn h
  | expression =>
      obtain ⟨n, level, h⟩ := h
      apply h.readIn
  | join =>
      obtain ⟨n, m, h⟩ := h
      apply h.readIn
  | partitionEntry => apply PartitionEntryRule.readIn h
  | partition => apply PartitionRule.readIn h
  | optionEntry => apply OptionEntryRule.readIn h
  | options => apply OptionsRule.readIn h
  | load => apply LoadRule.readIn h
  | _ =>
      obtain ⟨n, h⟩ := h
      apply h.readIn

/-- Every part within one that is read from tokens is read from some of them. -/
theorem reading_of_within (hp : p.Within q) (h : q.Reading u) :
  ∃ v, v <:+: u ∧ p.Reading v
  := by
  induction hp generalizing u with
  | refl => exact ⟨u, List.infix_rfl, h⟩
  | child _ isChild ih =>
      obtain ⟨v, hv, hreading⟩ := (readIn_of_reading h).reading isChild
      obtain ⟨w, hw, hreading'⟩ := ih hreading
      exact ⟨w, hw.trans hv, hreading'⟩

end Part

end SqlFront
