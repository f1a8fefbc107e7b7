import SqlFront.Proofs.Grammar.Consumption
import SqlFront.Proofs.Sessions.Statements

/-!
# Nonterminals and loops

The routines of the grammar, listed, and the rounds of their loops.  Wherever a routine is run, it is
not stuck, it leaves the count and the flag as they were, and it takes a token unless it reads
something that may be left out.  A round takes a token if it goes on.
-/

namespace SqlFront

/-- The calls are as many as may be made within each other at the depth. -/
def Calls.Suffice (calls : Calls) (depth : Nat) : Prop :=
  ∃ n, calls = upTo n ∧ 0 < n ∧ Grammar.maxNesting < depth + n

theorem Calls.outermost_suffice (depth : Nat) :
  outermost.Suffice depth
  := ⟨_, rfl, Nat.succ_pos _, by omega⟩

theorem Calls.Suffice.succ {calls : Calls} {depth : Nat} (h : calls.Suffice depth) :
  calls.Suffice (depth + 1)
  := by
  obtain ⟨n, hcalls, hn, hdepth⟩ := h
  exact ⟨n, hcalls, hn, by omega⟩

theorem Calls.Suffice.perform {calls : Calls} {depth : Nat} (h : calls.Suffice depth) (limit : Nat) :
  calls.Perform depth limit (.nested limit (Grammar.maxNesting - depth))
  := by
  obtain ⟨n, rfl, hn, hdepth⟩ := h
  exact upTo_perform (Nat.le_refl limit) hn hdepth

/-! ### What routines do at a depth -/

namespace Routine

variable {α β σ : Type} {depth : Nat} {vacant : α → Prop}

/-- In the sessions at the depth the routine amounts to a production by which something vacant is read
exactly where no token is taken. -/
def Amounts (r : Routine α) (depth : Nat) (vacant : α → Prop) : Prop :=
  ∀ words limit, ∃ p : Production α, r.Performs depth words limit p ∧ p.TakesUnless vacant

theorem Amounts.nested {r : Routine α} (h : r.Amounts (depth + 1) vacant) :
  r.nested.Amounts depth vacant
  := by
  intro words limit
  rcases Nat.lt_or_ge depth Grammar.maxNesting with hlt | hge
  · obtain ⟨p, hp, htakes⟩ := h words limit
    exact ⟨p, hp.nested hlt, htakes⟩
  · refine ⟨.fail fun _ => .tooDeep, performs_nested_tooDeep hge, ?_⟩
    intro s a s' hreads
    exact absurd hreads Production.reads_fail

theorem Amounts.withWords {r : Routine α} (h : r.Amounts depth vacant) (words : Bool) :
  (r.withWords words).Amounts depth vacant
  := by
  intro words' limit
  obtain ⟨p, hp, htakes⟩ := h words limit
  exact ⟨p, hp.withWords, htakes⟩

/-- What a routine makes of calls is told for the productions that the calls amount to. -/
theorem Amounts.of_suffice {calls : Calls} {r : Routine α} (h : calls.Suffice depth)
    (hr : ∀ {words limit inner}, calls.Perform depth limit inner → inner.Tidy →
      ∃ p : Production α, r.Performs depth words limit p ∧ p.TakesUnless vacant) :
  r.Amounts depth vacant
  := fun _ limit => hr (h.perform limit) (Grammar.Inner.nested_tidy _ _)

/-- What the production says of a session: an answer is given, the count and the flag are as before,
no token is put back, and something vacant is read exactly where none is taken. -/
theorem Amounts.run {r : Routine α} {s : Session} (h : r.Amounts s.depth vacant) :
  ∃ answer s', r s = some (answer, s') ∧ s'.depth = s.depth ∧ s'.words = s.words ∧
    s'.stream.tape.tokens <:+ s.stream.tape.tokens ∧
    ∀ a, answer = .ok a → (vacant a ↔ s.left ≤ s'.left)
  := by
  obtain ⟨p, hp, htakes⟩ := h s.words (s.left + 1)
  have heval := p.run_eq_eval s.stream
  have htape : (p.run s.stream).2.tape = (p.eval s.stream.tape).2 := congrArg Prod.snd heval
  refine ⟨_, _, hp s.stream (Nat.lt_succ_self _), rfl, rfl, ?_, ?_⟩
  · change (p.run s.stream).2.tape.tokens <:+ _
    rw [htape]
    apply p.tokens_eval_suffix
  · intro a ha
    apply htakes s.stream.tape a _
    rw [Production.Reads, ← heval, ha]

end Routine

/-! ### Nonterminals -/

/-- The nonterminals of the grammar, by what is read for them.  Each may be read one level further
in, and with the flag set or not. -/
inductive Nonterminal : Type → Type 1 where
  | ident : Nonterminal Ident
  | qualifiedName : Nonterminal QualifiedName
  | identList : Nonterminal (List Ident)
  | columns : Nonterminal (List Ident)
  | label? : Nonterminal (Option Ident)
  | intervalField : Nonterminal IntervalField
  | intervalFields : Nonterminal (List IntervalField)
  | literal : Nonterminal Literal
  | constant : Nonterminal Constant
  | textConstant : Nonterminal Constant
  | expressionsToParen : Nonterminal (List Expression)
  | queryToParen : Nonterminal Query
  | nameForm : Nonterminal Form
  | parenForm : Nonterminal Form
  | branch? : Nonterminal (Option Branch)
  | caseOperand? : Nonterminal (Option Expression)
  | caseForm : Nonterminal Form
  | castForm : Nonterminal Form
  | typeParameter : Nonterminal Nat
  | dataType : Nonterminal DataType
  | primaryExpression : Nonterminal Expression
  | signed : Nonterminal Expression
  | atLevels (levels : List Nat) : Nonterminal Expression
  | predicateForm? (subject : Expression) (negated : Bool) : Nonterminal (Option Form)
  | predicate : Nonterminal Expression
  | negation : Nonterminal Expression
  | conjunction : Nonterminal Expression
  | expression : Nonterminal Expression
  | primary : Nonterminal Primary
  | criterion? (natural : Bool) : Nonterminal (Option Criterion)
  | join? : Nonterminal (Option Join)
  | relation : Nonterminal Relation
  | selectItem : Nonterminal SelectItem
  | groupingSet : Nonterminal (List Expression)
  | groupingKind : Nonterminal Grouping
  | groupBy? : Nonterminal (Option GroupBy)
  | relations : Nonterminal (List Relation)
  | select : Nonterminal Select
  | quantifier? : Nonterminal (Option Quantifier)
  | simpleBody : Nonterminal Body
  | intersection : Nonterminal Body
  | body : Nonterminal Body
  | ascending? : Nonterminal (Option Bool)
  | sortItem : Nonterminal SortItem
  | namedQuery : Nonterminal NamedQuery
  | namedQueries : Nonterminal (List NamedQuery)
  | order : Nonterminal (List SortItem)
  | query : Nonterminal Query
  | assignment : Nonterminal Assignment
  | changeAction (fromSource : Bool) : Nonterminal Action
  | insertAction : Nonterminal Action
  | clause : Nonterminal Clause
  | mergeSource : Nonterminal MergeSource
  | clauses : Nonterminal (List Clause)
  | merge : Nonterminal Merge
  | partitionEntry : Nonterminal PartitionEntry
  | partition? : Nonterminal (Option Partition)
  | optionKey : Nonterminal String
  | optionEntry : Nonterminal OptionEntry
  | options? : Nonterminal (Option OptionList)
  | load : Nonterminal Load
  | exportRows : Nonterminal Export
  | verbatim : Nonterminal Verbatim
  | statement : Nonterminal Statement
  | nested {α : Type} (n : Nonterminal α) : Nonterminal α
  | withWords {α : Type} (words : Bool) (n : Nonterminal α) : Nonterminal α

namespace Nonterminal

open Routine (perform)

/-- The routine that reads what is read for a nonterminal. -/
def routine (calls : Calls) {α : Type} : Nonterminal α → Routine α
  | ident => perform Grammar.ident
  | qualifiedName => Routine.qualifiedName
  | identList => Routine.identList
  | columns => Routine.columns
  | label? => perform Grammar.label?
  | intervalField => perform Grammar.intervalField
  | intervalFields => Routine.intervalFields
  | literal => Routine.literal
  | constant => Routine.constant
  | textConstant => Routine.textConstant
  | expressionsToParen => Routine.expressionsToParen calls
  | queryToParen => Routine.queryToParen calls
  | nameForm => Routine.nameForm calls
  | parenForm => Routine.parenForm calls
  | branch? => Routine.branch? calls
  | caseOperand? => Routine.caseOperand? calls
  | caseForm => Routine.caseForm calls
  | castForm => Routine.castForm calls (Routine.dataType calls)
  | typeParameter => perform Grammar.typeParameter
  | dataType => Routine.dataType calls
  | primaryExpression => Routine.primaryExpression calls
  | signed => Routine.signed calls
  | atLevels levels => Routine.atLevels levels (Routine.signed calls)
  | predicateForm? subject negated => Routine.predicateForm? calls subject negated
  | predicate => Routine.predicate calls
  | negation => Routine.negation calls
  | conjunction => Routine.conjunction calls
  | expression => Routine.expression calls
  | primary => Routine.primary calls
  | criterion? natural => Routine.criterion? calls natural
  | join? => Routine.join? calls
  | relation => Routine.relation calls
  | selectItem => Routine.selectItem calls
  | groupingSet => Routine.groupingSet calls
  | groupingKind => Routine.groupingKind calls
  | groupBy? => Routine.groupBy? calls
  | relations => Routine.relations calls
  | select => Routine.select calls
  | quantifier? => perform Grammar.quantifier?
  | simpleBody => Routine.simpleBody calls
  | intersection => Routine.intersection calls
  | body => Routine.body calls
  | ascending? => perform Grammar.ascending?
  | sortItem => Routine.sortItem calls
  | namedQuery => Routine.namedQuery calls
  | namedQueries => Routine.namedQueries calls
  | order => Routine.order calls
  | query => Routine.query calls
  | assignment => Routine.assignment calls
  | changeAction fromSource => Routine.changeAction calls fromSource
  | insertAction => Routine.insertAction calls
  | clause => Routine.clause calls
  | mergeSource => Routine.mergeSource calls
  | clauses => Routine.clauses calls
  | merge => Routine.merge calls
  | partitionEntry => Routine.partitionEntry
  | partition? => Routine.partition?
  | optionKey => Routine.optionKey
  | optionEntry => Routine.optionEntry
  | options? => Routine.options?
  | load => Routine.load
  | exportRows => Routine.exportRows calls
  | verbatim => Routine.verbatim
  | statement => Routine.statement calls
  | nested n => (n.routine calls).nested
  | withWords words n => (n.routine calls).withWords words

/-- What is yielded where that which may be left out is left out. -/
def Vacant {α : Type} : Nonterminal α → α → Prop
  | columns, names => names = []
  | label?, label => label = none
  | branch?, branch => branch = none
  | caseOperand?, operand => operand = none
  | predicateForm? _ _, form => form = none
  | criterion? _, criterion => criterion = none
  | join?, join => join = none
  | groupingKind, grouping => grouping = .plain
  | groupBy?, grouping => grouping = none
  | relations, found => found = []
  | quantifier?, quantifier => quantifier = none
  | ascending?, ascending => ascending = none
  | namedQueries, named => named = []
  | order, items => items = []
  | partition?, partition => partition = none
  | options?, options => options = none
  | verbatim, v => v.tokens = []
  | nested n, a => n.Vacant a
  | withWords _ n, a => n.Vacant a
  | _, _ => False

open Grammar Production Routine Amounts

variable {calls : Calls} {depth : Nat}

/-- Where its words are plain names, a change is a deletion or refused. -/
theorem changeAction_amounts (h : calls.Suffice depth) (fromSource : Bool) :
  (Routine.changeAction calls fromSource).Amounts depth fun _ => False
  := by
  intro words limit
  cases words with
  | true =>
      exact ⟨_, changeAction_performs (h.perform limit) fromSource,
        (changeAction_consumes _ fromSource).takesUnless_false⟩
  | false =>
      refine ⟨_, changeAction_performs_false fromSource, Consumes.takesUnless_false ?_⟩
      apply consumes_accept_bind (by simp)
      apply consumes_expected

/-- Where its words are plain names, a clause is refused. -/
theorem clause_amounts (h : calls.Suffice depth) :
  (Routine.clause calls).Amounts depth fun _ => False
  := by
  intro words limit
  cases words with
  | true =>
      exact ⟨_, clause_performs (h.perform limit), (clause_consumes _).takesUnless_false⟩
  | false =>
      refine ⟨_, clause_performs_false, Consumes.takesUnless_false ?_⟩
      apply consumes_bind
      intro start
      apply (expect_consumes (by simp)).bind

/-- Every nonterminal is read as a production says, and takes a token unless what it reads is left
out. -/
theorem routine_amounts {α : Type} (n : Nonterminal α) (h : calls.Suffice depth) :
  (n.routine calls).Amounts depth n.Vacant
  := by
  induction n generalizing depth with
  | ident => exact of_suffice h fun _ _ => ⟨_, performs_lift _, ident_consumes.takesUnless_false⟩
  | qualifiedName =>
      exact of_suffice h fun hin _ =>
        ⟨_, qualifiedName_performs hin.bound, (qualifiedName_consumes _).takesUnless_false⟩
  | identList =>
      exact of_suffice h fun hin _ =>
        ⟨_, identList_performs hin.bound, (identList_consumes _).takesUnless_false⟩
  | columns =>
      exact of_suffice h fun hin _ => ⟨_, columns_performs hin.bound, columns_takesUnless _⟩
  | label? => exact of_suffice h fun _ _ => ⟨_, performs_lift _, label?_takesUnless⟩
  | intervalField =>
      exact of_suffice h fun _ _ => ⟨_, performs_lift _, intervalField_consumes.takesUnless_false⟩
  | intervalFields =>
      exact of_suffice h fun hin _ =>
        ⟨_, intervalFields_performs hin.bound, (intervalFields_consumes _).takesUnless_false⟩
  | literal =>
      exact of_suffice h fun hin _ =>
        ⟨_, literal_performs hin.bound, (literal_consumes _).takesUnless_false⟩
  | constant =>
      exact of_suffice h fun hin _ =>
        ⟨_, constant_performs hin.bound, (constant_consumes _).takesUnless_false⟩
  | textConstant =>
      exact of_suffice h fun hin _ =>
        ⟨_, textConstant_performs hin.bound, (textConstant_consumes _).takesUnless_false⟩
  | expressionsToParen =>
      exact of_suffice h fun hin htidy =>
        ⟨_, expressionsToParen_performs hin, (expressionsToParen_consumes htidy).takesUnless_false⟩
  | queryToParen =>
      exact of_suffice h fun hin _ =>
        ⟨_, queryToParen_performs hin, (queryToParen_consumes _).takesUnless_false⟩
  | nameForm =>
      exact of_suffice h fun hin _ =>
        ⟨_, nameForm_performs hin, (nameForm_consumes _).takesUnless_false⟩
  | parenForm =>
      exact of_suffice h fun hin htidy =>
        ⟨_, parenForm_performs hin, (parenForm_consumes htidy).takesUnless_false⟩
  | branch? =>
      exact of_suffice h fun hin _ => ⟨_, branch?_performs hin, takesUnless_afterToken? (by simp) _⟩
  | caseOperand? =>
      exact of_suffice h fun hin htidy =>
        ⟨_, caseOperand?_performs hin, caseOperand?_takesUnless htidy⟩
  | caseForm =>
      exact of_suffice h fun hin _ =>
        ⟨_, caseForm_performs hin, (caseForm_consumes _).takesUnless_false⟩
  | castForm =>
      exact of_suffice h fun hin _ =>
        ⟨_, castForm_performs hin (dataType_performs hin),
          (castForm_consumes _ _).takesUnless_false⟩
  | typeParameter =>
      exact of_suffice h fun _ _ => ⟨_, performs_lift _, typeParameter_consumes.takesUnless_false⟩
  | dataType =>
      exact of_suffice h fun hin _ =>
        ⟨_, dataType_performs hin, (dataType_consumes _).takesUnless_false⟩
  | primaryExpression =>
      exact of_suffice h fun hin htidy =>
        ⟨_, primaryExpression_performs hin, (primaryExpression_consumes htidy).takesUnless_false⟩
  | signed =>
      exact of_suffice h fun hin htidy =>
        ⟨_, signed_performs hin, (signed_consumes htidy).takesUnless_false⟩
  | atLevels levels =>
      exact of_suffice h fun hin htidy =>
        ⟨_, atLevels_performs (signed_performs hin) hin.bound levels,
          (levels_consumes htidy levels).takesUnless_false⟩
  | predicateForm? subject negated =>
      exact of_suffice h fun hin htidy =>
        ⟨_, predicateForm?_performs hin subject negated,
          predicateForm?_takesUnless htidy subject negated⟩
  | predicate =>
      exact of_suffice h fun hin htidy =>
        ⟨_, predicate_performs hin, (predicate_consumes htidy).takesUnless_false⟩
  | negation =>
      exact of_suffice h fun hin htidy =>
        ⟨_, negation_performs hin, (negation_consumes htidy).takesUnless_false⟩
  | conjunction =>
      exact of_suffice h fun hin htidy =>
        ⟨_, conjunction_performs hin, (conjunction_consumes htidy).takesUnless_false⟩
  | expression =>
      exact of_suffice h fun hin htidy =>
        ⟨_, expression_performs hin, (expression_consumes htidy).takesUnless_false⟩
  | primary =>
      exact of_suffice h fun hin htidy =>
        ⟨_, primary_performs hin, (primary_consumes htidy).takesUnless_false⟩
  | criterion? natural =>
      exact of_suffice h fun hin _ =>
        ⟨_, criterion?_performs hin natural, criterion?_takesUnless _ natural⟩
  | join? => exact of_suffice h fun hin _ => ⟨_, join?_performs hin, joinWith?_takesUnless _ _⟩
  | relation =>
      exact of_suffice h fun hin htidy =>
        ⟨_, relation_performs hin, (relation_consumes htidy).takesUnless_false⟩
  | selectItem =>
      exact of_suffice h fun hin htidy =>
        ⟨_, selectItem_performs hin, (selectItem_consumes htidy).takesUnless_false⟩
  | groupingSet =>
      exact of_suffice h fun hin htidy =>
        ⟨_, groupingSet_performs hin, (groupingSet_consumes htidy).takesUnless_false⟩
  | groupingKind =>
      exact of_suffice h fun hin _ => ⟨_, groupingKind_performs hin, groupingKind_takesUnless _⟩
  | groupBy? => exact of_suffice h fun hin _ => ⟨_, groupBy?_performs hin, groupBy?_takesUnless _⟩
  | relations =>
      exact of_suffice h fun hin _ => ⟨_, relations_performs hin, relations_takesUnless _⟩
  | select =>
      exact of_suffice h fun hin _ =>
        ⟨_, select_performs hin, (select_consumes _).takesUnless_false⟩
  | quantifier? => exact of_suffice h fun _ _ => ⟨_, performs_lift _, quantifier?_takesUnless⟩
  | simpleBody =>
      exact of_suffice h fun hin htidy =>
        ⟨_, simpleBody_performs hin, (simpleBody_consumes htidy).takesUnless_false⟩
  | intersection =>
      exact of_suffice h fun hin htidy =>
        ⟨_, intersection_performs hin,
          (combined_consumes _ _ (simpleBody_consumes htidy)).takesUnless_false⟩
  | body =>
      exact of_suffice h fun hin htidy =>
        ⟨_, body_performs hin, (body_consumes htidy).takesUnless_false⟩
  | ascending? => exact of_suffice h fun _ _ => ⟨_, performs_lift _, ascending?_takesUnless⟩
  | sortItem =>
      exact of_suffice h fun hin htidy =>
        ⟨_, sortItem_performs hin, (sortItem_consumes htidy).takesUnless_false⟩
  | namedQuery =>
      exact of_suffice h fun hin _ =>
        ⟨_, namedQuery_performs hin, (namedQuery_consumes _).takesUnless_false⟩
  | namedQueries =>
      exact of_suffice h fun hin _ => ⟨_, namedQueries_performs hin, namedQueries_takesUnless _⟩
  | order => exact of_suffice h fun hin _ => ⟨_, order_performs hin, order_takesUnless _⟩
  | query =>
      exact of_suffice h fun hin htidy =>
        ⟨_, query_performs hin, (query_consumes htidy).takesUnless_false⟩
  | assignment =>
      exact of_suffice h fun hin _ =>
        ⟨_, assignment_performs hin, (assignment_consumes _).takesUnless_false⟩
  | insertAction =>
      exact of_suffice h fun hin _ =>
        ⟨_, insertAction_performs hin, (insertAction_consumes _).takesUnless_false⟩
  | mergeSource =>
      exact of_suffice h fun hin _ =>
        ⟨_, mergeSource_performs hin, (mergeSource_consumes _).takesUnless_false⟩
  | clauses =>
      exact of_suffice h fun hin htidy =>
        ⟨_, clauses_performs hin, (clauses_consumes htidy).takesUnless_false⟩
  | merge =>
      exact of_suffice h fun hin _ => ⟨_, merge_performs hin, (merge_consumes _).takesUnless_false⟩
  | partitionEntry =>
      exact of_suffice h fun hin _ =>
        ⟨_, partitionEntry_performs hin.bound, (partitionEntry_consumes _).takesUnless_false⟩
  | partition? =>
      exact of_suffice h fun hin _ => ⟨_, partition?_performs hin.bound, partition?_takesUnless _⟩
  | optionKey =>
      exact of_suffice h fun hin _ =>
        ⟨_, optionKey_performs hin.bound, (optionKey_consumes _).takesUnless_false⟩
  | optionEntry =>
      exact of_suffice h fun hin _ =>
        ⟨_, optionEntry_performs hin.bound, (optionEntry_consumes _).takesUnless_false⟩
  | options? =>
      exact of_suffice h fun hin _ =>
        ⟨_, options?_performs hin.bound, takesUnless_afterToken? (by simp) _⟩
  | load =>
      exact of_suffice h fun hin _ =>
        ⟨_, load_performs hin.bound, (load_consumes _).takesUnless_false⟩
  | exportRows =>
      exact of_suffice h fun hin _ =>
        ⟨_, exportRows_performs hin, (exportRows_consumes _).takesUnless_false⟩
  | verbatim =>
      exact of_suffice h fun hin _ => ⟨_, verbatim_performs hin.bound, verbatim_takesUnless _⟩
  | statement =>
      exact of_suffice h fun hin htidy =>
        ⟨_, statement_performs hin, (statement_consumes htidy).takesUnless_false⟩
  | changeAction fromSource => exact changeAction_amounts h fromSource
  | clause => exact clause_amounts h
  | nested n ih => exact (ih h.succ).nested
  | withWords words n ih => exact (ih h).withWords words

end Nonterminal

/-! ### Loops -/

/-- The loops of the grammar, by what a round starts from and what the last one ends with. -/
inductive Loop : Type → Type → Type 1 where
  | parts : Loop (List Ident) (List Ident)
  | fields : Loop (List IntervalField) (List IntervalField)
  | literals : Loop (List Token) (List Token)
  | branches : Loop (List Branch) (List Branch)
  | joins : Loop (List Join) (List Join)
  | clauses : Loop (List Clause) (List Clause)
  | commas {α : Type} (n : Nonterminal α) : Loop (List α) (List α)
  | operations (level : Nat) (operand : Nonterminal Expression) : Loop Expression Expression
  | unions (start : Position) (operand : Nonterminal Body) : Loop Body Body
  | intersections (start : Position) (operand : Nonterminal Body) : Loop Body Body
  | tokens : Loop (Nat × List Token) (List Token)
  | statements : Loop (List Node) (List Node)

namespace Loop

open Production Routine

/-- One round of a loop. -/
def round (calls : Calls) {σ β : Type} : Loop σ β → σ → Routine (σ ⊕ β)
  | parts => entryRound (perform Grammar.dottedIdent)
  | fields => entryRound (perform furtherField)
  | literals => entryRound (perform (accept? .string))
  | branches => entryRound (branch? calls)
  | joins => entryRound (join? calls)
  | clauses => entryRound (clause? calls)
  | commas n => entryRound (afterToken? .comma (n.routine calls))
  | operations level n => operationRound level (n.routine calls)
  | unions start n => combinationRound SetOp.ofKind? start (n.routine calls)
  | intersections start n => combinationRound Grammar.Rules.intersect? start (n.routine calls)
  | tokens => fun state => perform (balancedRound state)
  | statements => statementRound calls

variable {calls : Calls} {depth : Nat} {σ β : Type}

/-- Every round is a production that takes a token if it goes on. -/
theorem round_advances (l : Loop σ β) (h : calls.Suffice depth) (a : σ) (words : Bool)
    (limit : Nat) :
  ∃ p : Production (σ ⊕ β), (l.round calls a).Performs depth words limit p ∧ p.Advances
  := by
  have hin := h.perform limit
  cases l with
  | parts =>
      exact ⟨_, entryRound_performs (performs_lift _) a,
        entryRoundOf_advances Grammar.dottedIdent_progresses a⟩
  | fields =>
      exact ⟨_, entryRound_performs (performs_lift _) a,
        entryRoundOf_advances furtherField_progresses a⟩
  | literals =>
      exact ⟨_, entryRound_performs (performs_lift _) a,
        entryRoundOf_advances (accept?_progresses (by simp)) a⟩
  | branches =>
      exact ⟨_, entryRound_performs (branch?_performs hin) a,
        entryRoundOf_advances (afterToken?_progresses (by simp) _) a⟩
  | joins =>
      exact ⟨_, entryRound_performs (join?_performs hin) a,
        entryRoundOf_advances (Grammar.joinWith?_progresses _ _) a⟩
  | clauses =>
      exact ⟨_, entryRound_performs (clause?_performs hin) a,
        entryRoundOf_advances (clauseEntry_progresses _) a⟩
  | commas n =>
      obtain ⟨p, hp, -⟩ := n.routine_amounts h words limit
      exact ⟨_, entryRound_performs (hp.afterToken? .comma) a,
        entryRoundOf_advances (afterToken?_progresses (by simp) p) a⟩
  | operations level n =>
      obtain ⟨p, hp, -⟩ := n.routine_amounts h words limit
      exact ⟨_, operationRound_performs hp level a, operationRoundOf_advances level p a⟩
  | unions start n =>
      obtain ⟨p, hp, -⟩ := n.routine_amounts h words limit
      exact ⟨_, combinationRound_performs start hp a, combinationRoundOf_advances rfl start p a⟩
  | intersections start n =>
      obtain ⟨p, hp, -⟩ := n.routine_amounts h words limit
      exact ⟨_, combinationRound_performs start hp a, combinationRoundOf_advances rfl start p a⟩
  | tokens => exact ⟨_, performs_lift _, balancedRound_advances a⟩
  | statements => exact ⟨_, statementRound_performs hin a, statementRoundOf_advances _ a⟩

/-- No round is stuck, and those that go on leave fewer tokens. -/
theorem round_run (l : Loop σ β) {s : Session} (h : calls.Suffice s.depth) (a : σ) :
  ∃ answer s', l.round calls a s = some (answer, s') ∧
    ∀ a', answer = .ok (.inl a') → s'.left < s.left
  := by
  obtain ⟨p, hp, hadvances⟩ := l.round_advances h a s.words (s.left + 1)
  refine ⟨_, _, hp s.stream (Nat.lt_succ_self _), ?_⟩
  intro a' ha'
  apply hadvances s.stream.tape a'
  rw [Production.Reads, ← p.run_eq_eval s.stream, ha']

end Loop

end SqlFront
