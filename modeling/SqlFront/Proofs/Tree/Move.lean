import Mathlib.Logic.Basic
import SqlFront.Fault
import SqlFront.Tree

/-!
# Moving positions

A function on positions moves whatever holds positions: regions, tokens, faults and all nodes of
syntax trees.  Moving every position to one place forgets where a tree was read from, so trees are
equal up to their regions if they are equal once moved there.
-/

namespace SqlFront

/-- What holds positions that a function can move. -/
class Movable (α : Type) where
  move : (Position → Position) → α → α

export Movable (move)

/-- What holds positions with all of them forgotten: moved to the start of a text. -/
abbrev forget {α : Type} [Movable α] (a : α) : α := move (fun _ => Position.start) a

variable (f : Position → Position)

/-! ### What holds no position -/

instance : Movable Unit := ⟨fun _ a => a⟩
instance : Movable Bool := ⟨fun _ a => a⟩
instance : Movable Nat := ⟨fun _ a => a⟩
instance : Movable String := ⟨fun _ a => a⟩
instance : Movable Literal := ⟨fun _ a => a⟩
instance : Movable IntervalField := ⟨fun _ a => a⟩
instance : Movable DataType := ⟨fun _ a => a⟩
instance : Movable Quantifier := ⟨fun _ a => a⟩
instance : Movable JoinKind := ⟨fun _ a => a⟩
instance : Movable MergeRows := ⟨fun _ a => a⟩

/-- What holds no position stays as it is. -/
class Fixed (α : Type) [Movable α] : Prop where
  move_eq (f : Position → Position) (a : α) : move f a = a

export Fixed (move_eq)

instance : Fixed Bool := ⟨fun _ _ => rfl⟩
instance : Fixed Nat := ⟨fun _ _ => rfl⟩
instance : Fixed String := ⟨fun _ _ => rfl⟩
instance : Fixed IntervalField := ⟨fun _ _ => rfl⟩
instance : Fixed Quantifier := ⟨fun _ _ => rfl⟩

/-! ### Regions, tokens and faults -/

instance : Movable Position := ⟨fun f p => f p⟩
instance : Movable Span := ⟨fun f a => ⟨f a.start, f a.stop⟩⟩
instance : Movable Token := ⟨fun f t => { t with span := move f t.span }⟩

instance {α : Type} [Movable α] : Movable (Option α) := ⟨fun f => Option.map (move f)⟩
instance {α : Type} [Movable α] : Movable (List α) := ⟨fun f => List.map (move f)⟩

instance {α : Type} [Movable α] [Fixed α] : Fixed (Option α) where
  move_eq f o := by
    cases o with
    | none => rfl
    | some a => exact congrArg some (move_eq f a)

instance {α : Type} [Movable α] [Fixed α] : Fixed (List α) where
  move_eq f as := by
    induction as with
    | nil => rfl
    | cons a as ih => exact congrArg₂ List.cons (move_eq f a) ih

/-- A cause with the positions of its token moved. -/
def Cause.move : Cause → Cause
  | .expected wanted found => .expected wanted (SqlFront.move f found)
  | cause => cause

instance : Movable Cause := ⟨Cause.move⟩

theorem Cause.kind_move (cause : Cause) :
  (SqlFront.move f cause).kind = cause.kind
  := by
  cases cause <;> rfl

theorem Cause.message_move (cause : Cause) :
  (SqlFront.move f cause).message = cause.message
  := by
  cases cause <;> rfl

instance : Movable Fault := ⟨fun f e => ⟨move f e.cause, move f e.span⟩⟩

instance {α : Type} [Movable α] : Movable (Except Fault α) where
  move f
    | .ok a => .ok (move f a)
    | .error e => .error (move f e)

/-! ### Names and constants -/

instance : Movable Ident := ⟨fun f i => { i with span := move f i.span }⟩
instance : Movable QualifiedName := ⟨fun f n => ⟨move f n.parts, move f n.span⟩⟩
instance : Movable Constant := ⟨fun f c => { c with span := move f c.span }⟩

/-! ### Expressions, queries and relations -/

mutual

/-- An expression with its positions moved. -/
def Expression.move : Expression → Expression
  | ⟨form, span⟩ => ⟨form.move, SqlFront.move f span⟩

/-- A form with its positions moved. -/
def Form.move : Form → Form
  | .literal value => .literal value
  | .column name => .column (SqlFront.move f name)
  | .star qualifier => .star (SqlFront.move f qualifier)
  | .unary op operand => .unary op operand.move
  | .binary op left right => .binary op left.move right.move
  | .between subject negated low high => .between subject.move negated low.move high.move
  | .inList subject negated items => .inList subject.move negated (expressionsMove items)
  | .inQuery subject negated query => .inQuery subject.move negated query.move
  | .like subject negated regex pattern => .like subject.move negated regex pattern.move
  | .isNull subject negated => .isNull subject.move negated
  | .exist query => .exist query.move
  | .call function distinct arguments =>
    .call (SqlFront.move f function) distinct (expressionsMove arguments)
  | .case operand branches otherwise =>
    .case (expression?Move operand) (branchesMove branches) (expression?Move otherwise)
  | .cast subject type => .cast subject.move type
  | .currentDate => .currentDate
  | .currentTimestamp => .currentTimestamp
  | .subquery query => .subquery query.move
  | .row items => .row (expressionsMove items)
  | .nested inner => .nested inner.move

/-- Expressions with their positions moved. -/
def expressionsMove : List Expression → List Expression
  | [] => []
  | e :: rest => e.move :: expressionsMove rest

/-- An expression that may be left out with its positions moved. -/
def expression?Move : Option Expression → Option Expression
  | none => none
  | some e => some e.move

/-- A branch with its positions moved. -/
def Branch.move : Branch → Branch
  | ⟨condition, result⟩ => ⟨condition.move, result.move⟩

/-- Branches with their positions moved. -/
def branchesMove : List Branch → List Branch
  | [] => []
  | b :: rest => b.move :: branchesMove rest

/-- A query with its positions moved. -/
def Query.move : Query → Query
  | ⟨named, body, order, limit, span⟩ =>
    ⟨namedMove named, body.move, sortItemsMove order, expression?Move limit, SqlFront.move f span⟩

/-- A named query with its positions moved. -/
def NamedQuery.move : NamedQuery → NamedQuery
  | ⟨name, columns, query, span⟩ =>
    ⟨SqlFront.move f name, SqlFront.move f columns, query.move, SqlFront.move f span⟩

/-- Named queries with their positions moved. -/
def namedMove : List NamedQuery → List NamedQuery
  | [] => []
  | q :: rest => q.move :: namedMove rest

/-- A body with its positions moved. -/
def Body.move : Body → Body
  | .select s => .select s.move
  | .combination op quantifier left right span =>
    .combination op quantifier left.move right.move (SqlFront.move f span)
  | .table name span => .table (SqlFront.move f name) (SqlFront.move f span)
  | .values rows span => .values (expressionsMove rows) (SqlFront.move f span)
  | .nested query => .nested query.move

/-- A selection with its positions moved. -/
def Select.move : Select → Select
  | ⟨quantifier, items, relations, condition, grouping, having, span⟩ =>
    ⟨quantifier, selectItemsMove items, relationsMove relations, expression?Move condition,
      groupBy?Move grouping, expression?Move having, SqlFront.move f span⟩

/-- A selected expression with its positions moved. -/
def SelectItem.move : SelectItem → SelectItem
  | ⟨value, label, span⟩ => ⟨value.move, SqlFront.move f label, SqlFront.move f span⟩

/-- Selected expressions with their positions moved. -/
def selectItemsMove : List SelectItem → List SelectItem
  | [] => []
  | item :: rest => item.move :: selectItemsMove rest

/-- What rows are grouped by with its positions moved. -/
def GroupBy.move : GroupBy → GroupBy
  | ⟨keys, grouping, span⟩ => ⟨expressionsMove keys, grouping.move, SqlFront.move f span⟩

/-- What rows are grouped by, if that is said, with its positions moved. -/
def groupBy?Move : Option GroupBy → Option GroupBy
  | none => none
  | some g => some g.move

/-- A grouping with its positions moved. -/
def Grouping.move : Grouping → Grouping
  | .plain => .plain
  | .rollup => .rollup
  | .cube => .cube
  | .sets sets => .sets (setsMove sets)

/-- Grouping sets with their positions moved. -/
def setsMove : List (List Expression) → List (List Expression)
  | [] => []
  | set :: rest => expressionsMove set :: setsMove rest

/-- What rows are ordered by with its positions moved. -/
def SortItem.move : SortItem → SortItem
  | ⟨key, ascending, nullsFirst, span⟩ => ⟨key.move, ascending, nullsFirst, SqlFront.move f span⟩

/-- An order with its positions moved. -/
def sortItemsMove : List SortItem → List SortItem
  | [] => []
  | item :: rest => item.move :: sortItemsMove rest

/-- A relation with its positions moved. -/
def Relation.move : Relation → Relation
  | ⟨first, joins, span⟩ => ⟨first.move, joinsMove joins, SqlFront.move f span⟩

/-- Relations with their positions moved. -/
def relationsMove : List Relation → List Relation
  | [] => []
  | r :: rest => r.move :: relationsMove rest

/-- A relation that stands for itself with its positions moved. -/
def Primary.move : Primary → Primary
  | .table name label span =>
    .table (SqlFront.move f name) (SqlFront.move f label) (SqlFront.move f span)
  | .subquery query label span =>
    .subquery query.move (SqlFront.move f label) (SqlFront.move f span)
  | .nested relation => .nested relation.move

/-- A join with its positions moved. -/
def Join.move : Join → Join
  | ⟨kind, natural, relation, criterion, span⟩ =>
    ⟨kind, natural, relation.move, criterion?Move criterion, SqlFront.move f span⟩

/-- Joins with their positions moved. -/
def joinsMove : List Join → List Join
  | [] => []
  | j :: rest => j.move :: joinsMove rest

/-- What a join keeps with its positions moved. -/
def Criterion.move : Criterion → Criterion
  | .condition holds => .condition holds.move
  | .columns names => .columns (SqlFront.move f names)

/-- What a join keeps, if that is said, with its positions moved. -/
def criterion?Move : Option Criterion → Option Criterion
  | none => none
  | some c => some c.move

end

instance : Movable Expression := ⟨Expression.move⟩
instance : Movable Form := ⟨Form.move⟩
instance : Movable Branch := ⟨Branch.move⟩
instance : Movable Query := ⟨Query.move⟩
instance : Movable NamedQuery := ⟨NamedQuery.move⟩
instance : Movable Body := ⟨Body.move⟩
instance : Movable Select := ⟨Select.move⟩
instance : Movable SelectItem := ⟨SelectItem.move⟩
instance : Movable GroupBy := ⟨GroupBy.move⟩
instance : Movable Grouping := ⟨Grouping.move⟩
instance : Movable SortItem := ⟨SortItem.move⟩
instance : Movable Relation := ⟨Relation.move⟩
instance : Movable Primary := ⟨Primary.move⟩
instance : Movable Join := ⟨Join.move⟩
instance : Movable Criterion := ⟨Criterion.move⟩

/-! ### Statements -/

instance : Movable Assignment :=
  ⟨fun f a => ⟨move f a.target, move f a.value, move f a.span⟩⟩

/-- What a clause does with its positions moved. -/
def Action.move : Action → Action
  | .updateAll => .updateAll
  | .update assignments => .update (SqlFront.move f assignments)
  | .delete => .delete
  | .insertAll => .insertAll
  | .insert columns values => .insert (SqlFront.move f columns) (SqlFront.move f values)

instance : Movable Action := ⟨Action.move⟩
instance : Movable Clause :=
  ⟨fun f c => ⟨c.rows, move f c.condition, move f c.action, move f c.span⟩⟩

/-- The source of a merge with its positions moved. -/
def MergeSource.move : MergeSource → MergeSource
  | .table name => .table (SqlFront.move f name)
  | .query q => .query (SqlFront.move f q)

instance : Movable MergeSource := ⟨MergeSource.move⟩
instance : Movable Merge :=
  ⟨fun f m => ⟨move f m.target, move f m.targetLabel, move f m.source, move f m.sourceLabel,
    move f m.condition, move f m.clauses, move f m.span⟩⟩
instance : Movable PartitionEntry :=
  ⟨fun f e => ⟨move f e.column, move f e.value, move f e.span⟩⟩
instance : Movable Partition := ⟨fun f p => ⟨move f p.entries, move f p.span⟩⟩
instance : Movable OptionEntry :=
  ⟨fun f e => ⟨e.key, move f e.keySpan, move f e.value, move f e.span⟩⟩
instance : Movable OptionList := ⟨fun f o => ⟨move f o.entries, move f o.span⟩⟩
instance : Movable Load :=
  ⟨fun f l => ⟨move f l.path, l.isLocal, l.overwrite, move f l.table, move f l.partition,
    move f l.options, move f l.span⟩⟩
instance : Movable Export :=
  ⟨fun f e => ⟨move f e.query, move f e.path, move f e.format, move f e.options, move f e.span⟩⟩
instance : Movable Verbatim := ⟨fun f v => ⟨v.leading, move f v.tokens, move f v.span⟩⟩

/-- A statement with its positions moved. -/
def Statement.move : Statement → Statement
  | .merge m => .merge (SqlFront.move f m)
  | .load l => .load (SqlFront.move f l)
  | .exportRows e => .exportRows (SqlFront.move f e)
  | .query q => .query (SqlFront.move f q)
  | .verbatim v => .verbatim (SqlFront.move f v)

instance : Movable Statement := ⟨Statement.move⟩

/-- A node with its positions moved. -/
def Node.move : Node → Node
  | .statement s => .statement (SqlFront.move f s)
  | .expression e => .expression (SqlFront.move f e)

instance : Movable Node := ⟨Node.move⟩

/-! ### Lists within trees -/

@[simp]
theorem expressionsMove_eq (es : List Expression) :
  expressionsMove f es = move f es
  := by
  induction es with
  | nil => rfl
  | cons e es ih => rw [expressionsMove, ih]; rfl

@[simp]
theorem expression?Move_eq (o : Option Expression) :
  expression?Move f o = move f o
  := by
  cases o <;> rfl

@[simp]
theorem branchesMove_eq (bs : List Branch) :
  branchesMove f bs = move f bs
  := by
  induction bs with
  | nil => rfl
  | cons b bs ih => rw [branchesMove, ih]; rfl

@[simp]
theorem namedMove_eq (qs : List NamedQuery) :
  namedMove f qs = move f qs
  := by
  induction qs with
  | nil => rfl
  | cons q qs ih => rw [namedMove, ih]; rfl

@[simp]
theorem selectItemsMove_eq (items : List SelectItem) :
  selectItemsMove f items = move f items
  := by
  induction items with
  | nil => rfl
  | cons item items ih => rw [selectItemsMove, ih]; rfl

@[simp]
theorem groupBy?Move_eq (o : Option GroupBy) :
  groupBy?Move f o = move f o
  := by
  cases o <;> rfl

@[simp]
theorem setsMove_eq (sets : List (List Expression)) :
  setsMove f sets = move f sets
  := by
  induction sets with
  | nil => rfl
  | cons set sets ih => rw [setsMove, ih, expressionsMove_eq]; rfl

@[simp]
theorem sortItemsMove_eq (items : List SortItem) :
  sortItemsMove f items = move f items
  := by
  induction items with
  | nil => rfl
  | cons item items ih => rw [sortItemsMove, ih]; rfl

@[simp]
theorem relationsMove_eq (rs : List Relation) :
  relationsMove f rs = move f rs
  := by
  induction rs with
  | nil => rfl
  | cons r rs ih => rw [relationsMove, ih]; rfl

@[simp]
theorem joinsMove_eq (js : List Join) :
  joinsMove f js = move f js
  := by
  induction js with
  | nil => rfl
  | cons j js ih => rw [joinsMove, ih]; rfl

@[simp]
theorem criterion?Move_eq (o : Option Criterion) :
  criterion?Move f o = move f o
  := by
  cases o <;> rfl

/-! ### Operations -/

theorem Form.move_binary (op : BinaryOp) (left right : Expression) :
  move f (binary op left right) = binary op (left.move f) (right.move f)
  := by
  rw [Form.move]

end SqlFront
