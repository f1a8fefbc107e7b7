import SqlFront.Fault
import SqlFront.Grammar.Constant

/-!
# Trees up to case

Some texts of a tree matter up to case: names that are not quoted, numbers and the tokens of
statements that are kept verbatim.  Trees are alike up to case if they are the same with all such
texts in capitals.

Two texts of a tree do not say themselves how they were written, the quantities of intervals and the
keys of options.  Both may be text literals, which matter as they are.  A `Spelling` says which of them
are: keys by where they begin, quantities by where the interval begins and by their number in it.
-/

namespace SqlFront

/-- What is known of how the texts of a tree were written. -/
structure Spelling where
  /-- Whether a text literal begins at a position. -/
  quotedAt : Position → Bool
  /-- Whether the quantities from a position on are text literals, one after the other. -/
  quotedFrom : Position → List Bool

/-- The key of an option that begins at `p`, in capitals unless it is a text literal. -/
def Spelling.key (s : Spelling) (p : Position) (text : String) : String :=
  if s.quotedAt p then text else text.toUpper

/-- Whether the quantities among tokens are text literals, one after the other. -/
def quotedQuantities (ts : List Token) : List Bool :=
  (ts.filter fun t => Grammar.isQuantity t.kind || t.kind = .string).map fun t => t.kind = .string

/-- What has texts that matter up to case. -/
class Cased (α : Type) where
  capitals : Spelling → α → α

export Cased (capitals)

/-- Whether the text of a token of this kind matters as it is. -/
def Kind.isQuoted (k : Kind) : Bool := k = .string || k = .quotedIdentifier

variable (s : Spelling)

/-! ### Names, tokens and constants -/

instance : Cased Nat := ⟨fun _ n => n⟩
instance : Cased Token :=
  ⟨fun _ t => { t with text := if t.kind.isQuoted then t.text else t.text.toUpper }⟩
instance : Cased Ident := ⟨fun _ i => { i with value := if i.quoted then i.value else i.value.toUpper }⟩

instance {α : Type} [Cased α] : Cased (Option α) := ⟨fun s => Option.map (capitals s)⟩
instance {α : Type} [Cased α] : Cased (List α) := ⟨fun s => List.map (capitals s)⟩

instance : Cased QualifiedName := ⟨fun s n => { n with parts := capitals s n.parts }⟩

/-- A field of an interval in capitals, unless its quantity is a text literal. -/
def IntervalField.capitals (quoted : Bool) (f : IntervalField) : IntervalField :=
  if quoted then f else { f with value := f.value.toUpper }

/-- The fields of an interval in capitals, but for those whose quantities are text literals. -/
def fieldsCapitals : List Bool → List IntervalField → List IntervalField
  | quoted :: others, f :: fs => f.capitals quoted :: fieldsCapitals others fs
  | _, fs => fs

/-- A literal that begins at `p` in capitals. -/
def Literal.capitals (p : Position) : Literal → Literal
  | .number form text => .number form text.toUpper
  | .interval fields => .interval (fieldsCapitals (s.quotedFrom p) fields)
  | value => value

instance : Cased Constant := ⟨fun s c => { c with value := c.value.capitals s c.span.start }⟩

/-- A cause with its token in capitals. -/
def Cause.capitals : Cause → Cause
  | .expected wanted found => .expected wanted (SqlFront.capitals s found)
  | cause => cause

instance : Cased Cause := ⟨Cause.capitals⟩
instance : Cased Fault := ⟨fun s e => { e with cause := capitals s e.cause }⟩

/-! ### Expressions, queries and relations -/

mutual

/-- An expression in capitals. -/
def Expression.capitals : Expression → Expression
  | ⟨form, span⟩ => ⟨form.capitals span.start, span⟩

/-- The form of an expression that begins at `p` in capitals. -/
def Form.capitals (p : Position) : Form → Form
  | .literal value => .literal (value.capitals s p)
  | .column name => .column (SqlFront.capitals s name)
  | .star qualifier => .star (SqlFront.capitals s qualifier)
  | .unary op operand => .unary op operand.capitals
  | .binary op left right => .binary op left.capitals right.capitals
  | .between subject negated low high => .between subject.capitals negated low.capitals high.capitals
  | .inList subject negated items => .inList subject.capitals negated (expressionsCapitals items)
  | .inQuery subject negated query => .inQuery subject.capitals negated query.capitals
  | .like subject negated regex pattern => .like subject.capitals negated regex pattern.capitals
  | .isNull subject negated => .isNull subject.capitals negated
  | .exist query => .exist query.capitals
  | .call function distinct arguments =>
    .call (SqlFront.capitals s function) distinct (expressionsCapitals arguments)
  | .case operand branches otherwise =>
    .case (expression?Capitals operand) (branchesCapitals branches) (expression?Capitals otherwise)
  | .cast subject type => .cast subject.capitals type
  | .currentDate => .currentDate
  | .currentTimestamp => .currentTimestamp
  | .subquery query => .subquery query.capitals
  | .row items => .row (expressionsCapitals items)
  | .nested inner => .nested inner.capitals

/-- Expressions in capitals. -/
def expressionsCapitals : List Expression → List Expression
  | [] => []
  | e :: rest => e.capitals :: expressionsCapitals rest

/-- An expression that may be left out in capitals. -/
def expression?Capitals : Option Expression → Option Expression
  | none => none
  | some e => some e.capitals

/-- A branch in capitals. -/
def Branch.capitals : Branch → Branch
  | ⟨condition, result⟩ => ⟨condition.capitals, result.capitals⟩

/-- Branches in capitals. -/
def branchesCapitals : List Branch → List Branch
  | [] => []
  | b :: rest => b.capitals :: branchesCapitals rest

/-- A query in capitals. -/
def Query.capitals : Query → Query
  | ⟨named, body, order, limit, span⟩ =>
    ⟨namedCapitals named, body.capitals, sortItemsCapitals order, expression?Capitals limit, span⟩

/-- A named query in capitals. -/
def NamedQuery.capitals : NamedQuery → NamedQuery
  | ⟨name, columns, query, span⟩ =>
    ⟨SqlFront.capitals s name, SqlFront.capitals s columns, query.capitals, span⟩

/-- Named queries in capitals. -/
def namedCapitals : List NamedQuery → List NamedQuery
  | [] => []
  | q :: rest => q.capitals :: namedCapitals rest

/-- A body in capitals. -/
def Body.capitals : Body → Body
  | .select s => .select s.capitals
  | .combination op quantifier left right span =>
    .combination op quantifier left.capitals right.capitals span
  | .table name span => .table (SqlFront.capitals s name) span
  | .values rows span => .values (expressionsCapitals rows) span
  | .nested query => .nested query.capitals

/-- A selection in capitals. -/
def Select.capitals : Select → Select
  | ⟨quantifier, items, relations, condition, grouping, having, span⟩ =>
    ⟨quantifier, selectItemsCapitals items, relationsCapitals relations, expression?Capitals condition,
      groupBy?Capitals grouping, expression?Capitals having, span⟩

/-- A selected expression in capitals. -/
def SelectItem.capitals : SelectItem → SelectItem
  | ⟨value, label, span⟩ => ⟨value.capitals, SqlFront.capitals s label, span⟩

/-- Selected expressions in capitals. -/
def selectItemsCapitals : List SelectItem → List SelectItem
  | [] => []
  | item :: rest => item.capitals :: selectItemsCapitals rest

/-- What rows are grouped by in capitals. -/
def GroupBy.capitals : GroupBy → GroupBy
  | ⟨keys, grouping, span⟩ => ⟨expressionsCapitals keys, grouping.capitals, span⟩

/-- What rows are grouped by, if that is said, in capitals. -/
def groupBy?Capitals : Option GroupBy → Option GroupBy
  | none => none
  | some g => some g.capitals

/-- A grouping in capitals. -/
def Grouping.capitals : Grouping → Grouping
  | .plain => .plain
  | .rollup => .rollup
  | .cube => .cube
  | .sets sets => .sets (setsCapitals sets)

/-- Grouping sets in capitals. -/
def setsCapitals : List (List Expression) → List (List Expression)
  | [] => []
  | set :: rest => expressionsCapitals set :: setsCapitals rest

/-- What rows are ordered by in capitals. -/
def SortItem.capitals : SortItem → SortItem
  | ⟨key, ascending, nullsFirst, span⟩ => ⟨key.capitals, ascending, nullsFirst, span⟩

/-- An order in capitals. -/
def sortItemsCapitals : List SortItem → List SortItem
  | [] => []
  | item :: rest => item.capitals :: sortItemsCapitals rest

/-- A relation in capitals. -/
def Relation.capitals : Relation → Relation
  | ⟨first, joins, span⟩ => ⟨first.capitals, joinsCapitals joins, span⟩

/-- Relations in capitals. -/
def relationsCapitals : List Relation → List Relation
  | [] => []
  | r :: rest => r.capitals :: relationsCapitals rest

/-- A relation that stands for itself in capitals. -/
def Primary.capitals : Primary → Primary
  | .table name label span =>
    .table (SqlFront.capitals s name) (SqlFront.capitals s label) span
  | .subquery query label span =>
    .subquery query.capitals (SqlFront.capitals s label) span
  | .nested relation => .nested relation.capitals

/-- A join in capitals. -/
def Join.capitals : Join → Join
  | ⟨kind, natural, relation, criterion, span⟩ =>
    ⟨kind, natural, relation.capitals, criterion?Capitals criterion, span⟩

/-- Joins in capitals. -/
def joinsCapitals : List Join → List Join
  | [] => []
  | j :: rest => j.capitals :: joinsCapitals rest

/-- What a join keeps in capitals. -/
def Criterion.capitals : Criterion → Criterion
  | .condition holds => .condition holds.capitals
  | .columns names => .columns (SqlFront.capitals s names)

/-- What a join keeps, if that is said, in capitals. -/
def criterion?Capitals : Option Criterion → Option Criterion
  | none => none
  | some c => some c.capitals

end

instance : Cased Expression := ⟨Expression.capitals⟩
instance : Cased Branch := ⟨Branch.capitals⟩
instance : Cased Query := ⟨Query.capitals⟩
instance : Cased NamedQuery := ⟨NamedQuery.capitals⟩
instance : Cased Body := ⟨Body.capitals⟩
instance : Cased Select := ⟨Select.capitals⟩
instance : Cased SelectItem := ⟨SelectItem.capitals⟩
instance : Cased GroupBy := ⟨GroupBy.capitals⟩
instance : Cased Grouping := ⟨Grouping.capitals⟩
instance : Cased SortItem := ⟨SortItem.capitals⟩
instance : Cased Relation := ⟨Relation.capitals⟩
instance : Cased Primary := ⟨Primary.capitals⟩
instance : Cased Join := ⟨Join.capitals⟩
instance : Cased Criterion := ⟨Criterion.capitals⟩

/-! ### Statements -/

instance : Cased Assignment :=
  ⟨fun s a => { a with target := capitals s a.target, value := capitals s a.value }⟩

/-- What a clause does in capitals. -/
def Action.capitals : Action → Action
  | .updateAll => .updateAll
  | .update assignments => .update (SqlFront.capitals s assignments)
  | .delete => .delete
  | .insertAll => .insertAll
  | .insert columns values => .insert (SqlFront.capitals s columns) (SqlFront.capitals s values)

instance : Cased Action := ⟨Action.capitals⟩
instance : Cased Clause :=
  ⟨fun s c => { c with condition := capitals s c.condition, action := capitals s c.action }⟩

/-- The source of a merge in capitals. -/
def MergeSource.capitals : MergeSource → MergeSource
  | .table name => .table (SqlFront.capitals s name)
  | .query q => .query (SqlFront.capitals s q)

instance : Cased MergeSource := ⟨MergeSource.capitals⟩
instance : Cased Merge :=
  ⟨fun s m => ⟨capitals s m.target, capitals s m.targetLabel, capitals s m.source,
    capitals s m.sourceLabel, capitals s m.condition, capitals s m.clauses, m.span⟩⟩
instance : Cased PartitionEntry :=
  ⟨fun s e => { e with column := capitals s e.column, value := capitals s e.value }⟩
instance : Cased Partition := ⟨fun s p => { p with entries := capitals s p.entries }⟩
instance : Cased OptionEntry :=
  ⟨fun s e => { e with key := s.key e.keySpan.start e.key, value := capitals s e.value }⟩
instance : Cased OptionList := ⟨fun s o => { o with entries := capitals s o.entries }⟩
instance : Cased Load :=
  ⟨fun s l => ⟨capitals s l.path, l.isLocal, l.overwrite, capitals s l.table,
    capitals s l.partition, capitals s l.options, l.span⟩⟩
instance : Cased Export :=
  ⟨fun s e => ⟨capitals s e.query, capitals s e.path, capitals s e.format, capitals s e.options,
    e.span⟩⟩
instance : Cased Verbatim := ⟨fun s v => { v with tokens := capitals s v.tokens }⟩

/-- A statement in capitals. -/
def Statement.capitals : Statement → Statement
  | .merge m => .merge (SqlFront.capitals s m)
  | .load l => .load (SqlFront.capitals s l)
  | .exportRows e => .exportRows (SqlFront.capitals s e)
  | .query q => .query (SqlFront.capitals s q)
  | .verbatim v => .verbatim (SqlFront.capitals s v)

instance : Cased Statement := ⟨Statement.capitals⟩

/-- A node in capitals. -/
def Node.capitals : Node → Node
  | .statement n => .statement (SqlFront.capitals s n)
  | .expression e => .expression (SqlFront.capitals s e)

instance : Cased Node := ⟨Node.capitals⟩

/-! ### Lists within trees -/

@[simp]
theorem expressionsCapitals_eq (es : List Expression) :
  expressionsCapitals s es = capitals s es
  := by
  induction es with
  | nil => rfl
  | cons e es ih => rw [expressionsCapitals, ih]; rfl

@[simp]
theorem branchesCapitals_eq (bs : List Branch) :
  branchesCapitals s bs = capitals s bs
  := by
  induction bs with
  | nil => rfl
  | cons b bs ih => rw [branchesCapitals, ih]; rfl

@[simp]
theorem namedCapitals_eq (qs : List NamedQuery) :
  namedCapitals s qs = capitals s qs
  := by
  induction qs with
  | nil => rfl
  | cons q qs ih => rw [namedCapitals, ih]; rfl

@[simp]
theorem selectItemsCapitals_eq (items : List SelectItem) :
  selectItemsCapitals s items = capitals s items
  := by
  induction items with
  | nil => rfl
  | cons item items ih => rw [selectItemsCapitals, ih]; rfl

@[simp]
theorem setsCapitals_eq (sets : List (List Expression)) :
  setsCapitals s sets = capitals s sets
  := by
  induction sets with
  | nil => rfl
  | cons set sets ih => rw [setsCapitals, ih, expressionsCapitals_eq]; rfl

@[simp]
theorem sortItemsCapitals_eq (items : List SortItem) :
  sortItemsCapitals s items = capitals s items
  := by
  induction items with
  | nil => rfl
  | cons item items ih => rw [sortItemsCapitals, ih]; rfl

@[simp]
theorem relationsCapitals_eq (rs : List Relation) :
  relationsCapitals s rs = capitals s rs
  := by
  induction rs with
  | nil => rfl
  | cons r rs ih => rw [relationsCapitals, ih]; rfl

@[simp]
theorem joinsCapitals_eq (js : List Join) :
  joinsCapitals s js = capitals s js
  := by
  induction js with
  | nil => rfl
  | cons j js ih => rw [joinsCapitals, ih]; rfl

@[simp]
theorem expression?Capitals_eq (o : Option Expression) :
  expression?Capitals s o = capitals s o
  := by
  cases o <;> rfl

@[simp]
theorem groupBy?Capitals_eq (o : Option GroupBy) :
  groupBy?Capitals s o = capitals s o
  := by
  cases o <;> rfl

@[simp]
theorem criterion?Capitals_eq (o : Option Criterion) :
  criterion?Capitals s o = capitals s o
  := by
  cases o <;> rfl

/-! ### Likeness -/

/-- How trees are compared: as they are, or up to case. -/
inductive Likeness where
  | exact
  | upTo (spelling : Spelling)

namespace Likeness

/-- What is compared of what has texts. -/
def view {α : Type} [Cased α] : Likeness → α → α
  | exact, a => a
  | upTo s, a => capitals s a

/-- What is compared of a text that matters up to case. -/
def letters : Likeness → String → String
  | exact, text => text
  | upTo _, text => text.toUpper

/-- What is compared of a field of an interval. -/
def field : Likeness → Bool → IntervalField → IntervalField
  | exact, _, f => f
  | upTo _, quoted, f => f.capitals quoted

/-- What is compared of the fields of an interval. -/
def fields : Likeness → List Bool → List IntervalField → List IntervalField
  | exact, _, fs => fs
  | upTo _, quoted, fs => fieldsCapitals quoted fs

/-- Which of the quantities from a position on are compared as they are. -/
def quotedFrom : Likeness → Position → List Bool
  | exact, _ => []
  | upTo s, p => s.quotedFrom p

/-- What is compared of a literal that begins at a position. -/
def literal : Likeness → Position → Literal → Literal
  | exact, _, l => l
  | upTo s, p, l => l.capitals s p

/-- What is compared of the form of an expression that begins at a position. -/
def form : Likeness → Position → Form → Form
  | exact, _, f => f
  | upTo s, p, f => f.capitals s p

/-- What is compared of the key of an option that begins at a position. -/
def key : Likeness → Position → String → String
  | exact, _, text => text
  | upTo s, p, text => s.key p text

/-- These look the same. -/
@[simp]
abbrev Same {α : Type} [Cased α] (m : Likeness) (a b : α) : Prop := m.view a = m.view b

/-- These fields look the same.  A field is given by its quantity and its units. -/
@[simp]
abbrev SameField (m : Likeness) (quoted : Bool) (f g : IntervalField) : Prop :=
  m.field quoted f = m.field quoted g

/-- These fields look the same where the quantities that are text literals are these. -/
@[simp]
abbrev SameFields (m : Likeness) (quoted : List Bool) (fs gs : List IntervalField) : Prop :=
  m.fields quoted fs = m.fields quoted gs

/-- These look the same as literals that begin at `p`. -/
@[simp]
abbrev SameLiteral (m : Likeness) (p : Position) (l l' : Literal) : Prop := m.literal p l = m.literal p l'

/-- These look the same as forms of expressions that begin at `p`. -/
@[simp]
abbrev SameForm (m : Likeness) (p : Position) (f g : Form) : Prop := m.form p f = m.form p g

variable (m : Likeness) {α : Type} [Cased α]

@[simp]
theorem view_nat (n : Nat) :
  m.view n = n
  := by
  cases m <;> rfl

@[simp]
theorem view_none :
  m.view (none : Option α) = none
  := by
  cases m <;> rfl

@[simp]
theorem view_some (a : α) :
  m.view (some a) = some (m.view a)
  := by
  cases m <;> rfl

@[simp]
theorem view_nil :
  m.view ([] : List α) = []
  := by
  cases m <;> rfl

@[simp]
theorem view_cons (a : α) (as : List α) :
  m.view (a :: as) = m.view a :: m.view as
  := by
  cases m <;> rfl

@[simp]
theorem view_nats (ns : List Nat) :
  m.view ns = ns
  := by
  induction ns with
  | nil => rw [view_nil]
  | cons n ns ih => rw [view_cons, view_nat, ih]

/-! ### What is compared of nodes -/

@[simp]
theorem view_token (kind : Kind) (text : String) (span : Span) :
  m.view (⟨kind, text, span⟩ : Token) = ⟨kind, if kind.isQuoted then text else m.letters text, span⟩
  := by
  cases m <;> cases h : kind.isQuoted <;> simp [view, capitals, letters, h]

@[simp]
theorem view_expected (wanted : String) (found : Token) :
  m.view (Cause.expected wanted found) = .expected wanted (m.view found)
  := by
  cases m <;> rfl

@[simp]
theorem view_fault (cause : Cause) (span : Span) :
  m.view (⟨cause, span⟩ : Fault) = ⟨m.view cause, span⟩
  := by
  cases m <;> rfl

@[simp]
theorem view_ident (value : String) (quoted : Bool) (span : Span) :
  m.view (⟨value, quoted, span⟩ : Ident) = ⟨if quoted then value else m.letters value, quoted, span⟩
  := by
  cases m <;> cases quoted <;> rfl

@[simp]
theorem view_qualifiedName (parts : List Ident) (span : Span) :
  m.view (⟨parts, span⟩ : QualifiedName) = ⟨m.view parts, span⟩
  := by
  cases m <;> rfl

theorem field_eq (quoted : Bool) (f : IntervalField) :
  m.field quoted f = if quoted then f else { f with value := m.letters f.value }
  := by
  cases m <;> cases quoted <;> rfl

@[simp]
theorem fields_cons (quoted : Bool) (others : List Bool) (f : IntervalField)
    (fs : List IntervalField) :
  m.fields (quoted :: others) (f :: fs) = m.field quoted f :: m.fields others fs
  := by
  cases m <;> rfl

@[simp]
theorem fields_nil (quoted : List Bool) :
  m.fields quoted [] = []
  := by
  cases m <;> cases quoted <;> rfl

theorem literal_eq (p : Position) (l : Literal) :
  m.literal p l = match l with
    | .number form text => .number form (m.letters text)
    | .interval fields => .interval (m.fields (m.quotedFrom p) fields)
    | value => value
  := by
  cases m <;> cases l <;> rfl

@[simp]
theorem view_constant (value : Literal) (span : Span) :
  m.view (⟨value, span⟩ : Constant) = ⟨m.literal span.start value, span⟩
  := by
  cases m <;> rfl

@[simp]
theorem view_expression (form : Form) (span : Span) :
  m.view (⟨form, span⟩ : Expression) = ⟨m.form span.start form, span⟩
  := by
  cases m <;> rfl

theorem form_eq (p : Position) (f : Form) :
  m.form p f = match f with
    | .literal value => .literal (m.literal p value)
    | .column name => .column (m.view name)
    | .star qualifier => .star (m.view qualifier)
    | .unary op operand => .unary op (m.view operand)
    | .binary op left right => .binary op (m.view left) (m.view right)
    | .between subject negated low high =>
      .between (m.view subject) negated (m.view low) (m.view high)
    | .inList subject negated items => .inList (m.view subject) negated (m.view items)
    | .inQuery subject negated query => .inQuery (m.view subject) negated (m.view query)
    | .like subject negated regex pattern => .like (m.view subject) negated regex (m.view pattern)
    | .isNull subject negated => .isNull (m.view subject) negated
    | .exist query => .exist (m.view query)
    | .call function distinct arguments => .call (m.view function) distinct (m.view arguments)
    | .case operand branches otherwise =>
      .case (m.view operand) (m.view branches) (m.view otherwise)
    | .cast subject type => .cast (m.view subject) type
    | .currentDate => .currentDate
    | .currentTimestamp => .currentTimestamp
    | .subquery query => .subquery (m.view query)
    | .row items => .row (m.view items)
    | .nested inner => .nested (m.view inner)
  := by
  cases m <;> cases f <;> simp [form, literal, view, capitals, Form.capitals]

@[simp]
theorem view_branch (condition result : Expression) :
  m.view (⟨condition, result⟩ : Branch) = ⟨m.view condition, m.view result⟩
  := by
  cases m <;> rfl

@[simp]
theorem view_query (named : List NamedQuery) (body : Body) (order : List SortItem)
    (limit : Option Expression) (span : Span) :
  m.view (⟨named, body, order, limit, span⟩ : Query) =
    ⟨m.view named, m.view body, m.view order, m.view limit, span⟩
  := by
  cases m <;> simp [view, capitals, Query.capitals]

@[simp]
theorem view_namedQuery (name : Ident) (columns : List Ident) (query : Query) (span : Span) :
  m.view (⟨name, columns, query, span⟩ : NamedQuery) =
    ⟨m.view name, m.view columns, m.view query, span⟩
  := by
  cases m <;> rfl

@[simp]
theorem view_body_select (s : Select) :
  m.view (Body.select s) = .select (m.view s)
  := by
  cases m <;> rfl

@[simp]
theorem view_body_combination (op : SetOp) (quantifier : Option Quantifier) (left right : Body)
    (span : Span) :
  m.view (Body.combination op quantifier left right span) =
    .combination op quantifier (m.view left) (m.view right) span
  := by
  cases m <;> rfl

@[simp]
theorem view_body_table (name : QualifiedName) (span : Span) :
  m.view (Body.table name span) = .table (m.view name) span
  := by
  cases m <;> rfl

@[simp]
theorem view_body_values (rows : List Expression) (span : Span) :
  m.view (Body.values rows span) = .values (m.view rows) span
  := by
  cases m <;> simp [view, capitals, Body.capitals]

@[simp]
theorem view_body_nested (query : Query) :
  m.view (Body.nested query) = .nested (m.view query)
  := by
  cases m <;> rfl

@[simp]
theorem view_select (quantifier : Option Quantifier) (items : List SelectItem)
    (relations : List Relation) (condition : Option Expression) (grouping : Option GroupBy)
    (having : Option Expression) (span : Span) :
  m.view (⟨quantifier, items, relations, condition, grouping, having, span⟩ : Select) =
    ⟨quantifier, m.view items, m.view relations, m.view condition, m.view grouping, m.view having,
     span⟩
  := by
  cases m <;> simp [view, capitals, Select.capitals]

@[simp]
theorem view_selectItem (value : Expression) (label : Option Ident) (span : Span) :
  m.view (⟨value, label, span⟩ : SelectItem) = ⟨m.view value, m.view label, span⟩
  := by
  cases m <;> rfl

@[simp]
theorem view_groupBy (keys : List Expression) (grouping : Grouping) (span : Span) :
  m.view (⟨keys, grouping, span⟩ : GroupBy) = ⟨m.view keys, m.view grouping, span⟩
  := by
  cases m <;> simp [view, capitals, GroupBy.capitals]

theorem view_grouping (g : Grouping) :
  m.view g = match g with
    | .plain => .plain
    | .rollup => .rollup
    | .cube => .cube
    | .sets sets => .sets (m.view sets)
  := by
  cases m <;> cases g <;> simp [view, capitals, Grouping.capitals]

@[simp]
theorem view_sortItem (key : Expression) (ascending nullsFirst : Option Bool) (span : Span) :
  m.view (⟨key, ascending, nullsFirst, span⟩ : SortItem) = ⟨m.view key, ascending, nullsFirst, span⟩
  := by
  cases m <;> rfl

@[simp]
theorem view_relation (first : Primary) (joins : List Join) (span : Span) :
  m.view (⟨first, joins, span⟩ : Relation) = ⟨m.view first, m.view joins, span⟩
  := by
  cases m <;> simp [view, capitals, Relation.capitals]

theorem view_primary (p : Primary) :
  m.view p = match p with
    | .table name label span => .table (m.view name) (m.view label) span
    | .subquery query label span => .subquery (m.view query) (m.view label) span
    | .nested relation => .nested (m.view relation)
  := by
  cases m <;> cases p <;> simp [view, capitals, Primary.capitals]

@[simp]
theorem view_join (kind : JoinKind) (natural : Bool) (relation : Primary)
    (criterion : Option Criterion) (span : Span) :
  m.view (⟨kind, natural, relation, criterion, span⟩ : Join) =
    ⟨kind, natural, m.view relation, m.view criterion, span⟩
  := by
  cases m <;> simp [view, capitals, Join.capitals]

theorem view_criterion (c : Criterion) :
  m.view c = match c with
    | .condition holds => .condition (m.view holds)
    | .columns names => .columns (m.view names)
  := by
  cases m <;> cases c <;> simp [view, capitals, Criterion.capitals]

@[simp]
theorem view_assignment (target : QualifiedName) (value : Expression) (span : Span) :
  m.view (⟨target, value, span⟩ : Assignment) = ⟨m.view target, m.view value, span⟩
  := by
  cases m <;> rfl

theorem view_action (a : Action) :
  m.view a = match a with
    | .updateAll => .updateAll
    | .update assignments => .update (m.view assignments)
    | .delete => .delete
    | .insertAll => .insertAll
    | .insert columns values => .insert (m.view columns) (m.view values)
  := by
  cases m <;> cases a <;> simp [view, capitals, Action.capitals]

@[simp]
theorem view_clause (rows : MergeRows) (condition : Option Expression) (action : Action)
    (span : Span) :
  m.view (⟨rows, condition, action, span⟩ : Clause) = ⟨rows, m.view condition, m.view action, span⟩
  := by
  cases m <;> rfl

theorem view_mergeSource (source : MergeSource) :
  m.view source = match source with
    | .table name => .table (m.view name)
    | .query query => .query (m.view query)
  := by
  cases m <;> cases source <;> simp [view, capitals, MergeSource.capitals]

@[simp]
theorem view_merge (target : QualifiedName) (targetLabel : Option Ident) (source : MergeSource)
    (sourceLabel : Option Ident) (condition : Expression) (clauses : List Clause) (span : Span) :
  m.view (⟨target, targetLabel, source, sourceLabel, condition, clauses, span⟩ : Merge) =
    ⟨m.view target, m.view targetLabel, m.view source, m.view sourceLabel, m.view condition,
     m.view clauses, span⟩
  := by
  cases m <;> rfl

@[simp]
theorem view_partitionEntry (column : Ident) (value : Option Constant) (span : Span) :
  m.view (⟨column, value, span⟩ : PartitionEntry) = ⟨m.view column, m.view value, span⟩
  := by
  cases m <;> rfl

@[simp]
theorem view_partition (entries : List PartitionEntry) (span : Span) :
  m.view (⟨entries, span⟩ : Partition) = ⟨m.view entries, span⟩
  := by
  cases m <;> rfl

@[simp]
theorem view_optionEntry (key : String) (keySpan : Span) (value : Constant) (span : Span) :
  m.view (⟨key, keySpan, value, span⟩ : OptionEntry) =
    ⟨m.key keySpan.start key, keySpan, m.view value, span⟩
  := by
  cases m <;> rfl

@[simp]
theorem view_optionList (entries : List OptionEntry) (span : Span) :
  m.view (⟨entries, span⟩ : OptionList) = ⟨m.view entries, span⟩
  := by
  cases m <;> rfl

@[simp]
theorem view_load (path : Constant) (isLocal overwrite : Bool) (table : QualifiedName)
    (partition : Option Partition) (options : Option OptionList) (span : Span) :
  m.view (⟨path, isLocal, overwrite, table, partition, options, span⟩ : Load) =
    ⟨m.view path, isLocal, overwrite, m.view table, m.view partition, m.view options, span⟩
  := by
  cases m <;> rfl

@[simp]
theorem view_export (query : Query) (path : Constant) (format : Option Ident)
    (options : Option OptionList) (span : Span) :
  m.view (⟨query, path, format, options, span⟩ : Export) =
    ⟨m.view query, m.view path, m.view format, m.view options, span⟩
  := by
  cases m <;> rfl

@[simp]
theorem view_verbatim (leading : String) (tokens : List Token) (span : Span) :
  m.view (⟨leading, tokens, span⟩ : Verbatim) = ⟨leading, m.view tokens, span⟩
  := by
  cases m <;> rfl

theorem view_statement (statement : Statement) :
  m.view statement = match statement with
    | .merge n => .merge (m.view n)
    | .load l => .load (m.view l)
    | .exportRows e => .exportRows (m.view e)
    | .query q => .query (m.view q)
    | .verbatim v => .verbatim (m.view v)
  := by
  cases m <;> cases statement <;> simp [view, capitals, Statement.capitals]

theorem view_node (node : Node) :
  m.view node = match node with
    | .statement n => .statement (m.view n)
    | .expression e => .expression (m.view e)
  := by
  cases m <;> cases node <;> simp [view, capitals, Node.capitals]

end Likeness

end SqlFront
