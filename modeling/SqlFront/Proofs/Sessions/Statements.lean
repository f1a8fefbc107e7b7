import SqlFront.Proofs.Grammar.StatementObeys
import SqlFront.Proofs.Sessions.Queries

/-!
# Statements in sessions

The routines for statements.  The clauses of a merge are read with the flag set, and the expressions
in them without it.
-/

namespace SqlFront

/-- The calls of a clause, in whose expressions all words are plain names. -/
def Calls.plain (calls : Calls) : Calls :=
  { calls with expression := calls.expression.withWords false }

namespace Routine

open Production Grammar

variable (calls : Calls)

/-! ### Merges -/

/-- Whether the next token is the word `word`; with the flag not set, no token is. -/
def nextIsWord (word : String) : Routine Bool := ifWords (perform (Grammar.nextIsWord word)) false

/-- Takes the next token, which has to be the word `word`. -/
def expectWord (word : String) : Routine Token := do
  if ← nextIsWord word then advance else expected (α := Token) ("'" ++ word ++ "'")

/-- A column and its new value. -/
def assignment : Routine Assignment := do
  let start ← here
  let target ← qualifiedName
  let _ ← expect .eq
  let value ← calls.plain.expression
  return ⟨target, value, ← spanFrom start⟩

/-- What happens to rows of the target: a deletion or an update, which takes over all
columns only if `fromSource`. -/
def changeAction (fromSource : Bool) : Routine Action := do
  if ← accept (.keyword .DELETE) then return .delete
  else if ← nextIsWord "UPDATE" then
    let _ ← advance
    let _ ← expect (.keyword .SET)
    if ← allColumns fromSource then return .updateAll
    else return .update (← commaList (assignment calls))
  else expected (α := Action) "'UPDATE' or 'DELETE'"

/-- What happens to rows of the source: an insertion. -/
def insertAction : Routine Action := do
  let _ ← expect (.keyword .INSERT)
  if ← accept .asterisk then return .insertAll
  else
    let columns ← columns
    let _ ← expect (.keyword .VALUES)
    let _ ← expect .leftParen
    return .insert columns (← expressionsToParen calls.plain)

/-- The rows that a clause concerns. -/
def clauseRows : Routine MergeRows := do
  if ← accept (.keyword .NOT) then
    let _ ← expectWord "MATCHED"
    if ← accept (.keyword .BY) then
      if ← nextIsWord "SOURCE" then
        let _ ← advance
        return .notMatchedBySource
      else if ← nextIsWord "TARGET" then
        let _ ← advance
        return .notMatched
      else expected (α := MergeRows) "'SOURCE' or 'TARGET'"
    else return .notMatched
  else
    let _ ← expectWord "MATCHED"
    return .matched

/-- A clause of a merge. -/
def clause : Routine Clause := do
  let start ← here
  let _ ← expect (.keyword .WHEN)
  let rows ← clauseRows
  let condition ← afterToken? (.keyword .AND) calls.plain.expression
  let _ ← expect (.keyword .THEN)
  let action ←
    match rows with
    | .notMatched => insertAction calls
    | .matched => changeAction calls true
    | .notMatchedBySource => changeAction calls false
  return ⟨rows, condition, action, ← spanFrom start⟩

/-- The source of a merge. -/
def mergeSource : Routine MergeSource := do
  if ← accept .leftParen then return .query (← queryToParen calls)
  else return .table (← qualifiedName)

/-- A further clause of a merge, if one follows: its words are read as words. -/
def clause? : Routine (Option Clause) := do
  if ← nextIs (.keyword .WHEN) then some <$> withWords true (clause calls) else return none

/-- The clauses of a merge: at least one. -/
def clauses : Routine (List Clause) := do
  let found ← collect (clause? calls)
  if found.isEmpty then expected (α := List Clause) "'WHEN'" else return found

/-- A merge. -/
def merge : Routine Merge := do
  let start ← here
  let _ ← expect (.keyword .MERGE)
  let _ ← expect (.keyword .INTO)
  let target ← qualifiedName
  let targetLabel ← label?
  let _ ← expect (.keyword .USING)
  let source ← mergeSource calls
  let sourceLabel ← label?
  let _ ← expect (.keyword .ON)
  let condition ← calls.expression
  let clauses ← clauses calls
  return ⟨target, targetLabel, source, sourceLabel, condition, clauses, ← spanFrom start⟩

/-! ### Loads and exports -/

/-- A partition column and its value, if it has one. -/
def partitionEntry : Routine PartitionEntry := do
  let start ← here
  let column ← ident
  let value ← afterToken? .eq constant
  return ⟨column, value, ← spanFrom start⟩

/-- A partition, if one follows. -/
def partition? : Routine (Option Partition) := do
  let start ← here
  afterToken? (.keyword .PARTITION) do
    let _ ← expect .leftParen
    let entries ← commaList partitionEntry
    let _ ← expect .rightParen
    return ⟨entries, ← spanFrom start⟩

/-- The key of an option: a text, or names joined by dots. -/
def optionKey : Routine String := do
  match ← accept? .string with
  | some t => return Text.unescape t.text
  | none =>
    let name ← qualifiedName
    return ".".intercalate (name.parts.map (·.value))

/-- An option; the equals sign may be left out. -/
def optionEntry : Routine OptionEntry := do
  let start ← here
  let key ← optionKey
  let keySpan ← spanFrom start
  let _ ← accept .eq
  let value ← constant
  return ⟨key, keySpan, value, ← spanFrom start⟩

/-- The options of a statement, if there are some. -/
def options? : Routine (Option OptionList) :=
  afterToken? (.keyword .OPTIONS) do
    let start ← here
    let _ ← expect .leftParen
    let entries ← commaList optionEntry
    let _ ← expect .rightParen
    return ⟨entries, ← spanFrom start⟩

/-- A load. -/
def load : Routine Load := do
  let start ← here
  let _ ← expect (.keyword .LOAD)
  let _ ← expect (.keyword .DATA)
  let isLocal ← accept (.keyword .LOCAL)
  let _ ← expect (.keyword .INPATH)
  let path ← textConstant
  let overwrite ← accept (.keyword .OVERWRITE)
  let _ ← expect (.keyword .INTO)
  let _ ← expect (.keyword .TABLE)
  let table ← qualifiedName
  let partition ← partition?
  let options ← options?
  return ⟨path, isLocal, overwrite, table, partition, options, ← spanFrom start⟩

/-- An export. -/
def exportRows : Routine Export := do
  let start ← here
  let _ ← expect (.keyword .EXPORT)
  let q ← calls.query
  let _ ← expect (.keyword .TO)
  let path ← textConstant
  let format ← Production.afterToken? (.keyword .FORMAT) ident
  let options ← options?
  return ⟨q, path, format, options, ← spanFrom start⟩

/-! ### Statements taken verbatim -/

/-- A further token of a statement with a number of parentheses open, behind the tokens `found`, or
its end. -/
def balancedRound : Nat × List Token → Production ((Nat × List Token) ⊕ List Token)
  | (depth, found) => do
    match (← peek).kind, depth with
    | .eof, 0 => return .inr found.reverse
    | .eof, _ => expected "')'"
    | .semicolon, 0 => return .inr found.reverse
    | .unrecognized, _ => expected "a valid token"
    | .rightParen, 0 => expected "';' or end of input"
    | .rightParen, depth + 1 => return .inl (depth, (← advance) :: found)
    | .leftParen, depth => return .inl (depth + 1, (← advance) :: found)
    | _, depth => return .inl (depth, (← advance) :: found)

/-- The tokens up to a semicolon or the end of the text. -/
def balanced (state : Nat × List Token) : Routine (List Token) :=
  loop (fun state => perform (balancedRound state)) state

/-- A statement of no other kind. -/
def verbatim : Routine Verbatim := do
  let t ← peek
  let tokens ← balanced (0, [])
  return ⟨t.text.toUpper, tokens, ← spanFrom t.span.start⟩

/-! ### Statements, scripts and expressions -/

/-- A statement, without the semicolon after it. -/
def statement : Routine Statement := do
  match (← peek).kind with
  | .keyword .MERGE => return .merge (← merge calls)
  | .keyword .LOAD => return .load (← load)
  | .keyword .EXPORT => return .exportRows (← exportRows calls)
  | .keyword .WITH => return .query (← calls.query)
  | .keyword .SELECT => return .query (← calls.query)
  | .keyword .VALUES => return .query (← calls.query)
  | .keyword .TABLE => return .query (← calls.query)
  | .leftParen => return .query (← calls.query)
  | .keyword _ => return .verbatim (← verbatim)
  | .identifier => return .verbatim (← verbatim)
  | .jobIdentifier => return .verbatim (← verbatim)
  | .quotedIdentifier => return .verbatim (← verbatim)
  | _ => expected (α := Statement) "statement"

/-- One statement, with a semicolon after it or without, that ends the text. -/
def soleStatement : Routine Node := do
  let s ← statement calls
  let _ ← accept .semicolon
  theEnd
  return .statement s

/-- A semicolon, or a statement behind the nodes `found`, or the end of a script. -/
def statementRound (found : List Node) : Routine (List Node ⊕ List Node) := do
  match (← peek).kind with
  | .eof => return .inr found.reverse
  | .semicolon =>
    let _ ← advance
    return .inl found
  | _ =>
    let s ← statement calls
    if ← accept .semicolon then return .inl (.statement s :: found)
    else
      theEnd
      return .inr (Node.statement s :: found).reverse

/-- The statements of a script. -/
def script : Routine (List Node) := loop (statementRound calls) []

/-- One expression that ends the text. -/
def soleExpression : Routine Node := do
  let e ← calls.expression
  theEnd
  return .expression e

/-! ### Rounds -/

/-- The production for the tokens up to a semicolon or the end of the text, of which there are at
most `n`. -/
def balancedUpTo (n : Nat) (state : Nat × List Token) : Production (List Token) :=
  Grammar.balanced n state.1 state.2

theorem balancedUpTo_succ (n : Nat) (state : Nat × List Token) :
  balancedUpTo (n + 1) state = balancedRound state >>= Sum.elim (balancedUpTo n) pure
  := by
  obtain ⟨depth, found⟩ := state
  simp only [balancedUpTo, Grammar.balanced, balancedRound, Production.bind_assoc]
  apply congrArg (peek >>= ·)
  funext t
  -- Both sides split alike; the round is set aside so that the loop is split once.
  generalize hq : (_ >>= Sum.elim (balancedUpTo n) pure : Production (List Token)) = q
  split
  all_goals
    simp only [*] at hq
    subst hq
    rfl

theorem balancedRound_advances (state : Nat × List Token) :
  (balancedRound state).Advances
  := by
  obtain ⟨depth, found⟩ := state
  intro s a s' hreads
  obtain ⟨t, m, hpeek, hrest⟩ := reads_bind.mp hreads
  obtain ⟨ht, rfl⟩ := reads_peek.mp hpeek
  split at hrest
  · simp at hrest
  · simp at hrest
  · simp at hrest
  · simp at hrest
  · simp at hrest
  · next h => exact length_lt_of_advance ht (by simp [h]) hrest
  · next h => exact length_lt_of_advance ht (by simp [h]) hrest
  · next heof _ _ _ _ _ _ => exact length_lt_of_advance ht heof hrest

/-- A round of a script, as a production. -/
def statementRoundOf (inner : Inner) (found : List Node) :
    Production (List Node ⊕ List Node) := do
  match (← peek).kind with
  | .eof => return .inr found.reverse
  | .semicolon =>
    let _ ← advance
    return .inl found
  | _ =>
    let s ← Grammar.statement inner
    if ← accept .semicolon then return .inl (.statement s :: found)
    else
      theEnd
      return .inr (Node.statement s :: found).reverse

theorem statements_succ (inner : Inner) (n : Nat) (found : List Node) :
  statements inner (n + 1) found =
    statementRoundOf inner found >>= Sum.elim (statements inner n) pure
  := by
  rw [statements, statementRoundOf, Production.bind_assoc]
  apply congrArg (peek >>= ·)
  funext t
  generalize hq : (_ >>= Sum.elim (statements inner n) pure : Production (List Node)) = q
  split
  all_goals
    simp only [*] at hq
    subst hq
  · rfl
  · rfl
  · simp only [Production.bind_assoc]
    apply congrArg (Grammar.statement inner >>= ·)
    funext s
    apply congrArg (accept .semicolon >>= ·)
    funext b
    cases b with
    | true => rfl
    | false =>
        simp only [Bool.false_eq_true, if_false, Production.bind_assoc]
        rfl

theorem statementRoundOf_advances (inner : Inner) (found : List Node) :
  (statementRoundOf inner found).Advances
  := by
  intro s a s' hreads
  obtain ⟨t, m, hpeek, hrest⟩ := reads_bind.mp hreads
  obtain ⟨ht, rfl⟩ := reads_peek.mp hpeek
  split at hrest
  · simp at hrest
  · next h => exact length_lt_of_advance ht (by simp [h]) hrest
  · obtain ⟨stmt, n, hstatement, hrest⟩ := reads_bind.mp hrest
    rcases (reads_accept_bind (by simp)).mp hrest with ⟨u, r, -, htakes, hend⟩ | ⟨u, -, -, hend⟩
    · have hlength := hstatement.length_le
      have hlength' := hend.length_le
      rw [htakes.tokens_eq] at hlength
      simp only [List.singleton_append, List.length_cons] at hlength
      omega
    · obtain ⟨_, r, -, hend⟩ := reads_bind.mp hend
      simp at hend

/-- A change of rows, where its words are plain names. -/
def plainChange : Production Action := do
  if ← accept (.keyword .DELETE) then return .delete else expected "'UPDATE' or 'DELETE'"

/-- A clause, where its words are plain names: it fails at the first of them. -/
def plainClause : Production Clause := do
  let _ ← here
  let _ ← expect (.keyword .WHEN)
  let _ ← accept (.keyword .NOT)
  expected "'MATCHED'"

end Routine

/-! ### Productions -/

theorem Calls.Perform.plain {calls : Calls} {depth limit : Nat} {inner : Grammar.Inner}
    (h : calls.Perform depth limit inner) :
  calls.plain.Perform depth limit inner
  := { h with expression := fun _ => (h.expression false).withWords }

namespace Routine

open Production

section

variable {depth limit n : Nat} {words : Bool}

/-! ### Words -/

theorem expectWord_performs (word : String) :
  (expectWord word).Performs depth true limit (Grammar.expectWord word)
  := by
  apply Performs.bind_ite (performs_ifWords_true (performs_lift (Grammar.nextIsWord word)))
  · apply performs_lift
  · apply performs_lift

theorem expectWord_performs_false (word : String) :
  (expectWord word).Performs depth false limit (expected ("'" ++ word ++ "'"))
  := PerformsOn.bind_pure performs_ifWords_false (performs_lift _)

theorem clauseRows_performs :
  clauseRows.Performs depth true limit Grammar.clauseRows
  := by
  have hword : ∀ word, (nextIsWord word).Performs depth true limit (Grammar.nextIsWord word) :=
    fun _ => performs_ifWords_true (performs_lift _)
  apply Performs.bind_ite (performs_lift _)
  · apply Performs.bind (expectWord_performs _)
    intro _
    apply Performs.bind_ite (performs_lift _) _ (performs_pure _)
    apply Performs.bind_ite (hword _)
    · apply performs_lift_bind
      intro _
      apply performs_pure
    · apply Performs.bind_ite (hword _) _ (performs_lift _)
      apply performs_lift_bind
      intro _
      apply performs_pure
  · apply Performs.bind (expectWord_performs _)
    intro _
    apply performs_pure

theorem clauseRows_performs_false :
  clauseRows.Performs depth false limit (accept (.keyword .NOT) >>= fun _ => expected "'MATCHED'")
  := by
  apply performs_lift_bind
  intro b
  cases b
  · apply PerformsOn.bind_fail (expectWord_performs_false _)
  · apply PerformsOn.bind_fail (expectWord_performs_false _)

/-! ### Loads -/

theorem partitionEntry_performs (hn : limit ≤ n) :
  partitionEntry.Performs depth words limit (Grammar.partitionEntry n)
  := by
  apply performs_lift_bind
  intro start
  apply performs_lift_bind
  intro column
  apply Performs.bind ((constant_performs hn).afterToken? _)
  intro value
  apply performs_lift_bind
  intro region
  apply performs_pure

theorem partition?_performs (hn : limit ≤ n) :
  partition?.Performs depth words limit (Grammar.partition? n)
  := by
  apply performs_lift_bind
  intro start
  apply Performs.afterToken?
  apply performs_lift_bind
  intro _
  apply Performs.bind (Performs.commaList (partitionEntry_performs hn) hn)
  intro entries
  apply performs_lift_bind
  intro _
  apply performs_lift_bind
  intro region
  apply performs_pure

theorem optionKey_performs (hn : limit ≤ n) :
  optionKey.Performs depth words limit (Grammar.optionKey n)
  := by
  apply performs_lift_bind
  intro t?
  cases t? with
  | some t => apply performs_pure
  | none =>
      apply Performs.bind (qualifiedName_performs hn)
      intro name
      apply performs_pure

theorem optionEntry_performs (hn : limit ≤ n) :
  optionEntry.Performs depth words limit (Grammar.optionEntry n)
  := by
  apply performs_lift_bind
  intro start
  apply Performs.bind (optionKey_performs hn)
  intro key
  apply performs_lift_bind
  intro keySpan
  apply performs_lift_bind
  intro _
  apply Performs.bind (constant_performs hn)
  intro value
  apply performs_lift_bind
  intro region
  apply performs_pure

theorem options?_performs (hn : limit ≤ n) :
  options?.Performs depth words limit (Grammar.options? n)
  := by
  apply Performs.afterToken?
  apply performs_lift_bind
  intro start
  apply performs_lift_bind
  intro _
  apply Performs.bind (Performs.commaList (optionEntry_performs hn) hn)
  intro entries
  apply performs_lift_bind
  intro _
  apply performs_lift_bind
  intro region
  apply performs_pure

theorem load_performs (hn : limit ≤ n) :
  load.Performs depth words limit (Grammar.load n)
  := by
  apply performs_lift_bind
  intro start
  apply performs_lift_bind
  intro _
  apply performs_lift_bind
  intro _
  apply performs_lift_bind
  intro isLocal
  apply performs_lift_bind
  intro _
  apply Performs.bind (textConstant_performs hn)
  intro path
  apply performs_lift_bind
  intro overwrite
  apply performs_lift_bind
  intro _
  apply performs_lift_bind
  intro _
  apply Performs.bind (qualifiedName_performs hn)
  intro table
  apply Performs.bind (partition?_performs hn)
  intro partition
  apply Performs.bind (options?_performs hn)
  intro options
  apply performs_lift_bind
  intro region
  apply performs_pure

/-! ### Statements taken verbatim -/

theorem balanced_performs (hn : limit ≤ n) (state : Nat × List Token) :
  (balanced state).Performs depth words limit (balancedUpTo n state)
  := Performs.loop (fun state => performs_lift (balancedRound state)) balancedRound_advances
    balancedUpTo_succ hn state

theorem verbatim_performs (hn : limit ≤ n) :
  verbatim.Performs depth words limit (Grammar.verbatim n)
  := by
  apply performs_lift_bind
  intro t
  apply Performs.bind (balanced_performs hn (0, []))
  intro tokens
  apply performs_lift_bind
  intro region
  apply performs_pure

end

variable {calls : Calls} {depth limit : Nat} {inner : Grammar.Inner} {words : Bool}
  (hin : calls.Perform depth limit inner)

include hin

/-! ### Merges -/

theorem assignment_performs :
  (assignment calls).Performs depth words limit (Grammar.assignment inner)
  := by
  apply performs_lift_bind
  intro start
  apply Performs.bind (qualifiedName_performs hin.bound)
  intro target
  apply performs_lift_bind
  intro _
  apply Performs.bind (hin.plain.expression words)
  intro value
  apply performs_lift_bind
  intro region
  apply performs_pure

theorem changeAction_performs (fromSource : Bool) :
  (changeAction calls fromSource).Performs depth true limit (Grammar.changeAction inner fromSource)
  := by
  apply Performs.bind_ite (performs_lift _) (performs_pure _)
  apply Performs.bind_ite (performs_ifWords_true (performs_lift (Grammar.nextIsWord "UPDATE"))) _
    (performs_lift _)
  apply performs_lift_bind
  intro _
  apply performs_lift_bind
  intro _
  apply Performs.bind_ite (performs_lift _) (performs_pure _)
  apply (Performs.commaList (assignment_performs hin) hin.bound).map

omit hin in
theorem changeAction_performs_false (fromSource : Bool) :
  (changeAction calls fromSource).Performs depth false limit plainChange
  := by
  have hword : (nextIsWord "UPDATE").Performs depth false limit (pure false) :=
    performs_ifWords_false
  apply Performs.bind_ite (performs_lift _) (performs_pure _)
  apply PerformsOn.bind_pure hword (performs_lift _)

theorem insertAction_performs :
  (insertAction calls).Performs depth words limit (Grammar.insertAction inner)
  := by
  apply performs_lift_bind
  intro _
  apply Performs.bind_ite (performs_lift _) (performs_pure _)
  apply Performs.bind (columns_performs hin.bound)
  intro columns
  apply performs_lift_bind
  intro _
  apply performs_lift_bind
  intro _
  apply (expressionsToParen_performs hin.plain).map

theorem clause_performs :
  (clause calls).Performs depth true limit (Grammar.clause inner)
  := by
  apply performs_lift_bind
  intro start
  apply performs_lift_bind
  intro _
  apply Performs.bind clauseRows_performs
  intro rows
  apply Performs.bind ((hin.plain.expression true).afterToken? _)
  intro condition
  apply performs_lift_bind
  intro _
  cases rows with
  | notMatched =>
      apply Performs.bind (insertAction_performs hin)
      intro action
      apply performs_lift_bind
      intro region
      apply performs_pure
  | matched =>
      apply Performs.bind (changeAction_performs hin true)
      intro action
      apply performs_lift_bind
      intro region
      apply performs_pure
  | notMatchedBySource =>
      apply Performs.bind (changeAction_performs hin false)
      intro action
      apply performs_lift_bind
      intro region
      apply performs_pure

omit hin in
theorem clause_performs_false :
  (clause calls).Performs depth false limit plainClause
  := by
  have hfails : (accept (.keyword .NOT) >>= fun _ => expected (α := Clause) "'MATCHED'") =
      (accept (.keyword .NOT) >>= fun _ => expected (α := MergeRows) "'MATCHED'") >>=
        fun _ => expected "'MATCHED'" := by
    rw [Production.bind_assoc]
    rfl
  apply performs_lift_bind
  intro start
  apply performs_lift_bind
  intro _
  rw [hfails]
  apply PerformsOn.bind clauseRows_performs_false
  rintro rows stream ⟨s, -, hreads⟩
  simp at hreads

theorem mergeSource_performs :
  (mergeSource calls).Performs depth words limit (Grammar.mergeSource inner)
  := by
  apply Performs.bind_ite (performs_lift _)
  · apply (queryToParen_performs hin).map
  · apply (qualifiedName_performs hin.bound).map

theorem clause?_performs :
  (clause? calls).Performs depth words limit
    (do if ← nextIs (.keyword .WHEN) then some <$> Grammar.clause inner else return none)
  := by
  apply Performs.bind_ite (performs_lift _) _ (performs_pure _)
  apply (clause_performs hin).withWords.map

omit hin in
theorem clauseEntry_progresses (inner : Grammar.Inner) :
  (do if ← nextIs (.keyword .WHEN) then some <$> Grammar.clause inner else return none :
    Production (Option Clause)).Progresses
  := by
  apply progresses_bind
  intro b
  apply progresses_ite (Grammar.clause_consumes inner).some progresses_none

theorem clauses_performs :
  (clauses calls).Performs depth words limit (Grammar.clauses inner)
  := by
  apply Performs.bind
    (Performs.collect (clause?_performs hin) (clauseEntry_progresses inner) hin.bound)
  intro found
  apply performs_ite (performs_lift _) (performs_pure _)

theorem merge_performs :
  (merge calls).Performs depth words limit (Grammar.merge inner)
  := by
  apply performs_lift_bind
  intro start
  apply performs_lift_bind
  intro _
  apply performs_lift_bind
  intro _
  apply Performs.bind (qualifiedName_performs hin.bound)
  intro target
  apply performs_lift_bind
  intro targetLabel
  apply performs_lift_bind
  intro _
  apply Performs.bind (mergeSource_performs hin)
  intro source
  apply performs_lift_bind
  intro sourceLabel
  apply performs_lift_bind
  intro _
  apply Performs.bind (hin.expression words)
  intro condition
  apply Performs.bind (clauses_performs hin)
  intro clauses
  apply performs_lift_bind
  intro region
  apply performs_pure

theorem exportRows_performs :
  (exportRows calls).Performs depth words limit (Grammar.exportRows inner)
  := by
  apply performs_lift_bind
  intro start
  apply performs_lift_bind
  intro _
  apply Performs.bind (hin.query words)
  intro q
  apply performs_lift_bind
  intro _
  apply Performs.bind (textConstant_performs hin.bound)
  intro path
  apply performs_lift_bind
  intro format
  apply Performs.bind (options?_performs hin.bound)
  intro options
  apply performs_lift_bind
  intro region
  apply performs_pure

/-! ### Statements, scripts and expressions -/

theorem statement_performs :
  (statement calls).Performs depth words limit (Grammar.statement inner)
  := by
  have hquery : Performs (Statement.query <$> calls.query) depth words limit
      (Statement.query <$> inner.query) := (hin.query words).map _
  have hverbatim : Performs (Statement.verbatim <$> verbatim) depth words limit
      (Statement.verbatim <$> Grammar.verbatim inner.bound) := (verbatim_performs hin.bound).map _
  apply performs_lift_bind
  intro t
  apply PerformsOn.of_forall_eq
  intro q hq
  split
  all_goals
    simp only [*] at hq
    subst hq
  · apply (merge_performs hin).map
  · apply (load_performs hin.bound).map
  · apply (exportRows_performs hin).map
  · apply hquery
  · apply hquery
  · apply hquery
  · apply hquery
  · apply hquery
  · apply hverbatim
  · apply hverbatim
  · apply hverbatim
  · apply hverbatim
  · apply performs_lift

theorem soleStatement_performs :
  (soleStatement calls).Performs depth words limit (Grammar.soleStatement inner)
  := by
  apply Performs.bind (statement_performs hin)
  intro s
  apply performs_lift_bind
  intro _
  apply performs_lift_bind
  intro _
  apply performs_pure

theorem statementRound_performs (found : List Node) :
  (statementRound calls found).Performs depth words limit (statementRoundOf inner found)
  := by
  apply performs_lift_bind
  intro t
  split
  · apply performs_pure
  · apply performs_lift_bind
    intro _
    apply performs_pure
  · apply Performs.bind (statement_performs hin)
    intro s
    apply Performs.bind_ite (performs_lift _) (performs_pure _)
    apply performs_lift_bind
    intro _
    apply performs_pure

theorem script_performs :
  (script calls).Performs depth words limit (Grammar.script inner)
  := Performs.loop (statementRound_performs hin) (statementRoundOf_advances inner)
    (statements_succ inner) hin.bound []

theorem soleExpression_performs :
  (soleExpression calls).Performs depth words limit (Grammar.soleExpression inner)
  := by
  apply Performs.bind (hin.expression words)
  intro e
  apply performs_lift_bind
  intro _
  apply performs_pure

end Routine

end SqlFront
