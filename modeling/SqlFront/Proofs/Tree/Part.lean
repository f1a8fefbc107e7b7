import SqlFront.Tree

/-!
# Parts of trees

A syntax tree has nodes of many types.  A part is a node of any of the types that carry a region,
its children are the parts directly below it, in the order of the text, and the parts within it are
its children, their children, and so on.
-/

namespace SqlFront

/-- A node of a syntax tree that carries a region. -/
inductive Part where
  | ident (i : Ident)
  | name (name : QualifiedName)
  | constant (c : Constant)
  | expression (e : Expression)
  | query (q : Query)
  | namedQuery (q : NamedQuery)
  | body (b : Body)
  | select (s : Select)
  | selectItem (item : SelectItem)
  | groupBy (g : GroupBy)
  | sortItem (item : SortItem)
  | relation (r : Relation)
  | primary (p : Primary)
  | join (j : Join)
  | assignment (a : Assignment)
  | clause (c : Clause)
  | merge (m : Merge)
  | partitionEntry (e : PartitionEntry)
  | partition (p : Partition)
  | optionEntry (e : OptionEntry)
  | options (o : OptionList)
  | load (l : Load)
  | exportRows (e : Export)
  | verbatim (v : Verbatim)

/-- The part that a statement consists of. -/
def Statement.part : Statement → Part
  | merge m => .merge m
  | load l => .load l
  | exportRows e => .exportRows e
  | query q => .query q
  | verbatim v => .verbatim v

/-- The part that a node is. -/
def Node.part : Node → Part
  | statement s => s.part
  | expression e => .expression e

/-! ### Children -/

/-- The parts below an expression with this form. -/
def Form.parts : Form → List Part
  | literal _ => []
  | column name => [.name name]
  | star qualifier => qualifier.toList.map .name
  | unary _ operand => [.expression operand]
  | binary _ left right => [.expression left, .expression right]
  | between subject _ low high => [.expression subject, .expression low, .expression high]
  | inList subject _ items => .expression subject :: items.map .expression
  | inQuery subject _ query => [.expression subject, .query query]
  | like subject _ _ pattern => [.expression subject, .expression pattern]
  | isNull subject _ => [.expression subject]
  | exist query => [.query query]
  | call function _ arguments => .name function :: arguments.map .expression
  | case operand branches otherwise =>
    operand.toList.map .expression ++
      branches.flatMap (fun b => [.expression b.condition, .expression b.result]) ++
      otherwise.toList.map .expression
  | cast subject _ => [.expression subject]
  | currentDate => []
  | currentTimestamp => []
  | subquery query => [.query query]
  | row items => items.map .expression
  | nested inner => [.expression inner]

/-- The parts below a body. -/
def Body.parts : Body → List Part
  | select s => [.select s]
  | combination _ _ left right _ => [.body left, .body right]
  | table name _ => [.name name]
  | values rows _ => rows.map .expression
  | nested query => [.query query]

/-- The parts of the groupings that a grouping names. -/
def Grouping.parts : Grouping → List Part
  | sets groups => groups.flatMap (·.map .expression)
  | _ => []

/-- The parts below a relation that stands for itself. -/
def Primary.parts : Primary → List Part
  | table name label _ => .name name :: label.toList.map .ident
  | subquery query label _ => .query query :: label.toList.map .ident
  | nested relation => [.relation relation]

/-- The parts of what a join keeps. -/
def Criterion.parts : Criterion → List Part
  | condition holds => [.expression holds]
  | columns names => names.map .ident

/-- The parts of what a clause does. -/
def Action.parts : Action → List Part
  | update assignments => assignments.map .assignment
  | insert columns values => columns.map .ident ++ values.map .expression
  | _ => []

/-- The part that a merge takes its rows from. -/
def MergeSource.part : MergeSource → Part
  | table name => .name name
  | query q => .query q

namespace Part

/-- The parts directly below a part. -/
def children : Part → List Part
  | ident _ => []
  | name n => n.parts.map ident
  | constant _ => []
  | expression e => e.form.parts
  | query q =>
    q.named.map namedQuery ++ body q.body :: q.order.map sortItem ++
      q.limit.toList.map expression
  | namedQuery q => ident q.name :: q.columns.map ident ++ [query q.query]
  | body b => b.parts
  | select s =>
    s.items.map selectItem ++ s.relations.map relation ++ s.condition.toList.map expression ++
      s.grouping.toList.map groupBy ++ s.having.toList.map expression
  | selectItem item => expression item.value :: item.label.toList.map ident
  | groupBy g => g.keys.map expression ++ g.grouping.parts
  | sortItem item => [expression item.key]
  | relation r => primary r.first :: r.joins.map join
  | primary p => p.parts
  | join j => primary j.relation :: j.criterion.toList.flatMap (·.parts)
  | assignment a => [name a.target, expression a.value]
  | clause c => c.condition.toList.map expression ++ c.action.parts
  | merge m =>
    name m.target :: m.targetLabel.toList.map ident ++ m.source.part ::
      m.sourceLabel.toList.map ident ++ expression m.condition :: m.clauses.map clause
  | partitionEntry e => ident e.column :: e.value.toList.map constant
  | partition p => p.entries.map partitionEntry
  | optionEntry e => [constant e.value]
  | options o => o.entries.map optionEntry
  | load l =>
    constant l.path :: name l.table :: l.partition.toList.map partition ++
      l.options.toList.map options
  | exportRows e =>
    query e.query :: constant e.path :: e.format.toList.map ident ++ e.options.toList.map options
  | verbatim _ => []

/-- The region of a part. -/
def span : Part → Span
  | ident i => i.span
  | name n => n.span
  | constant c => c.span
  | expression e => e.span
  | query q => q.span
  | namedQuery q => q.span
  | body b => b.span
  | select s => s.span
  | selectItem item => item.span
  | groupBy g => g.span
  | sortItem item => item.span
  | relation r => r.span
  | primary p => p.span
  | join j => j.span
  | assignment a => a.span
  | clause c => c.span
  | merge m => m.span
  | partitionEntry e => e.span
  | partition p => p.span
  | optionEntry e => e.span
  | options o => o.span
  | load l => l.span
  | exportRows e => e.span
  | verbatim v => v.span

/-- One part is, or is somewhere below, another. -/
inductive Within : Part → Part → Prop where
  | refl (p : Part) : Within p p
  | child {p c q : Part} (isWithin : Within p c) (isChild : c ∈ q.children) : Within p q

end Part

end SqlFront
