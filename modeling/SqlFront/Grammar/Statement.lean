import SqlFront.Grammar.Query

/-!
# Statements

The productions for merges, loads and exports, for queries as statements, and for all other
statements, which are taken verbatim: their tokens up to a semicolon or the end of the text,
with balanced parentheses.

`MATCHED`, `UPDATE`, `SOURCE` and `TARGET` are plain names.  Only the clauses of a merge read
them as the words of a clause.
-/

namespace SqlFront.Grammar

open Production

/-! ### Merges -/

/-- Whether the next token is the plain name `word`, in any case. -/
def nextIsWord (word : String) : Production Bool := do return (← peek).isWord word

/-- Takes the next token, which has to be the plain name `word`. -/
def expectWord (word : String) : Production Token := do
  if ← nextIsWord word then advance else expected ("'" ++ word ++ "'")

/-- A column and its new value. -/
def assignment (inner : Inner) : Production Assignment := do
  let start ← here
  let target ← qualifiedName inner.bound
  let _ ← expect .eq
  let value ← inner.expression
  return ⟨target, value, ← spanFrom start⟩

/-- Whether all columns are taken over, which only rows `fromSource` offer. -/
def allColumns (fromSource : Bool) : Production Bool :=
  if fromSource then accept .asterisk else return false

/-- What happens to rows of the target: a deletion or an update, which takes over all
columns only if `fromSource`. -/
def changeAction (inner : Inner) (fromSource : Bool) : Production Action := do
  if ← accept (.keyword .DELETE) then return .delete
  else if ← nextIsWord "UPDATE" then
    let _ ← advance
    let _ ← expect (.keyword .SET)
    if ← allColumns fromSource then return .updateAll
    else return .update (← commaList inner.bound (assignment inner))
  else expected "'UPDATE' or 'DELETE'"

/-- What happens to rows of the source: an insertion. -/
def insertAction (inner : Inner) : Production Action := do
  let _ ← expect (.keyword .INSERT)
  if ← accept .asterisk then return .insertAll
  else
    let columns ← columns inner.bound
    let _ ← expect (.keyword .VALUES)
    let _ ← expect .leftParen
    return .insert columns (← expressionsToParen inner)

/-- The rows that a clause concerns. -/
def clauseRows : Production MergeRows := do
  if ← accept (.keyword .NOT) then
    let _ ← expectWord "MATCHED"
    if ← accept (.keyword .BY) then
      if ← nextIsWord "SOURCE" then
        let _ ← advance
        return .notMatchedBySource
      else if ← nextIsWord "TARGET" then
        let _ ← advance
        return .notMatched
      else expected "'SOURCE' or 'TARGET'"
    else return .notMatched
  else
    let _ ← expectWord "MATCHED"
    return .matched

/-- A clause of a merge. -/
def clause (inner : Inner) : Production Clause := do
  let start ← here
  let _ ← expect (.keyword .WHEN)
  let rows ← clauseRows
  let condition ← afterToken? (.keyword .AND) inner.expression
  let _ ← expect (.keyword .THEN)
  let action ←
    match rows with
    | .notMatched => insertAction inner
    | .matched => changeAction inner true
    | .notMatchedBySource => changeAction inner false
  return ⟨rows, condition, action, ← spanFrom start⟩

/-- The source of a merge. -/
def mergeSource (inner : Inner) : Production MergeSource := do
  if ← accept .leftParen then return .query (← queryToParen inner)
  else return .table (← qualifiedName inner.bound)

/-- The clauses of a merge: at least one. -/
def clauses (inner : Inner) : Production (List Clause) := do
  let found ← collect
    (do if ← nextIs (.keyword .WHEN) then some <$> clause inner else return none)
    inner.bound []
  if found.isEmpty then expected "'WHEN'" else return found

/-- A merge. -/
def merge (inner : Inner) : Production Merge := do
  let start ← here
  let _ ← expect (.keyword .MERGE)
  let _ ← expect (.keyword .INTO)
  let target ← qualifiedName inner.bound
  let targetLabel ← label?
  let _ ← expect (.keyword .USING)
  let source ← mergeSource inner
  let sourceLabel ← label?
  let _ ← expect (.keyword .ON)
  let condition ← inner.expression
  let clauses ← clauses inner
  return ⟨target, targetLabel, source, sourceLabel, condition, clauses, ← spanFrom start⟩

/-! ### Loads and exports -/

/-- A partition column and its value, if it has one. -/
def partitionEntry (bound : Nat) : Production PartitionEntry := do
  let start ← here
  let column ← ident
  let value ← afterToken? .eq (constant bound)
  return ⟨column, value, ← spanFrom start⟩

/-- A partition, if one follows. -/
def partition? (bound : Nat) : Production (Option Partition) := do
  let start ← here
  afterToken? (.keyword .PARTITION) do
    let _ ← expect .leftParen
    let entries ← commaList bound (partitionEntry bound)
    let _ ← expect .rightParen
    return ⟨entries, ← spanFrom start⟩

/-- The key of an option: a text, or names joined by dots. -/
def optionKey (bound : Nat) : Production String := do
  match ← accept? .string with
  | some t => return Text.unescape t.text
  | none =>
    let name ← qualifiedName bound
    return ".".intercalate (name.parts.map (·.value))

/-- An option; the equals sign may be left out. -/
def optionEntry (bound : Nat) : Production OptionEntry := do
  let start ← here
  let key ← optionKey bound
  let keySpan ← spanFrom start
  let _ ← accept .eq
  let value ← constant bound
  return ⟨key, keySpan, value, ← spanFrom start⟩

/-- The options of a statement, if there are some. -/
def options? (bound : Nat) : Production (Option OptionList) :=
  afterToken? (.keyword .OPTIONS) do
    let start ← here
    let _ ← expect .leftParen
    let entries ← commaList bound (optionEntry bound)
    let _ ← expect .rightParen
    return ⟨entries, ← spanFrom start⟩

/-- A load. -/
def load (bound : Nat) : Production Load := do
  let start ← here
  let _ ← expect (.keyword .LOAD)
  let _ ← expect (.keyword .DATA)
  let isLocal ← accept (.keyword .LOCAL)
  let _ ← expect (.keyword .INPATH)
  let path ← textConstant bound
  let overwrite ← accept (.keyword .OVERWRITE)
  let _ ← expect (.keyword .INTO)
  let _ ← expect (.keyword .TABLE)
  let table ← qualifiedName bound
  let partition ← partition? bound
  let options ← options? bound
  return ⟨path, isLocal, overwrite, table, partition, options, ← spanFrom start⟩

/-- An export. -/
def exportRows (inner : Inner) : Production Export := do
  let start ← here
  let _ ← expect (.keyword .EXPORT)
  let q ← inner.query
  let _ ← expect (.keyword .TO)
  let path ← textConstant inner.bound
  let format ← afterToken? (.keyword .FORMAT) ident
  let options ← options? inner.bound
  return ⟨q, path, format, options, ← spanFrom start⟩

/-! ### Statements taken verbatim -/

/-- The tokens up to a semicolon or the end of the text, with `depth` parentheses open;
`found` are the tokens before them, the latest first. -/
def balanced : Nat → Nat → List Token → Production (List Token)
  | 0, _, _ => fail fun _ => .tooLong
  | n + 1, depth, found => do
    match (← peek).kind, depth with
    | .eof, 0 => return found.reverse
    | .eof, _ => expected "')'"
    | .semicolon, 0 => return found.reverse
    | .unrecognized, _ => expected "a valid token"
    | .rightParen, 0 => expected "';' or end of input"
    | .rightParen, depth + 1 => balanced n depth ((← advance) :: found)
    | .leftParen, depth => balanced n (depth + 1) ((← advance) :: found)
    | _, depth => balanced n depth ((← advance) :: found)

/-- A statement of no other kind. -/
def verbatim (bound : Nat) : Production Verbatim := do
  let t ← peek
  let tokens ← balanced bound 0 []
  return ⟨t.text.toUpper, tokens, ← spanFrom t.span.start⟩

/-! ### Statements, scripts and expressions -/

/-- A statement, without the semicolon after it. -/
def statement (inner : Inner) : Production Statement := do
  match (← peek).kind with
  | .keyword .MERGE => return .merge (← merge inner)
  | .keyword .LOAD => return .load (← load inner.bound)
  | .keyword .EXPORT => return .exportRows (← exportRows inner)
  | .keyword .WITH => return .query (← inner.query)
  | .keyword .SELECT => return .query (← inner.query)
  | .keyword .VALUES => return .query (← inner.query)
  | .keyword .TABLE => return .query (← inner.query)
  | .leftParen => return .query (← inner.query)
  | .keyword _ => return .verbatim (← verbatim inner.bound)
  | .identifier => return .verbatim (← verbatim inner.bound)
  | .jobIdentifier => return .verbatim (← verbatim inner.bound)
  | .quotedIdentifier => return .verbatim (← verbatim inner.bound)
  | _ => expected "statement"

/-- The end of the text. -/
def theEnd : Production Unit := do
  if ← nextIs .eof then return () else expected "end of input"

/-- One statement, with a semicolon after it or without, that ends the text. -/
def soleStatement (inner : Inner) : Production Node := do
  let s ← statement inner
  let _ ← accept .semicolon
  theEnd
  return .statement s

/-- Statements with semicolons between them, up to the end of the text; `found` are those
before them, the latest first.  Between semicolons there may be nothing. -/
def statements (inner : Inner) : Nat → List Node → Production (List Node)
  | 0, _ => fail fun _ => .tooLong
  | n + 1, found => do
    match (← peek).kind with
    | .eof => return found.reverse
    | .semicolon =>
      let _ ← advance
      statements inner n found
    | _ =>
      let s ← statement inner
      if ← accept .semicolon then statements inner n (.statement s :: found)
      else
        theEnd
        return (Node.statement s :: found).reverse

/-- The statements of a script. -/
def script (inner : Inner) : Production (List Node) := statements inner inner.bound []

/-- One expression that ends the text. -/
def soleExpression (inner : Inner) : Production Node := do
  let e ← inner.expression
  theEnd
  return .expression e

end SqlFront.Grammar
