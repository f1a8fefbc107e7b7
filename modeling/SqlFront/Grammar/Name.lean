import SqlFront.Production
import SqlFront.Tree

/-!
# Names

The productions for names, dotted names, lists of names and labels.  A keyword that is not
reserved stands for a name everywhere.
-/

namespace SqlFront.Grammar

open Production

/-- A name. -/
def ident : Production Ident := do
  let t ← peek
  if t.kind.isName then
    let _ ← advance
    return ⟨t.text, t.kind = .quotedIdentifier, t.span⟩
  else expected "identifier"

/-- A dot and the name after it.  A dot that no name follows stays. -/
def dottedIdent : Production (Option Ident) := do
  if (← peek).kind = .dot then
    if (← peekAt .second).kind.isName then
      let _ ← advance
      some <$> ident
    else return none
  else return none

/-- Names joined by dots. -/
def qualifiedName (bound : Nat) : Production QualifiedName := do
  let start ← here
  let first ← ident
  let further ← collect dottedIdent bound []
  return ⟨first :: further, ← spanFrom start⟩

/-- Names between parentheses. -/
def identList (bound : Nat) : Production (List Ident) := do
  let _ ← expect .leftParen
  let names ← commaList bound ident
  let _ ← expect .rightParen
  return names

/-- The names of columns between parentheses, if there are some. -/
def columns (bound : Nat) : Production (List Ident) := do
  if ← nextIs .leftParen then identList bound else return []

/-- A label, if there is one: a name, or `AS` and a name. -/
def label? : Production (Option Ident) := do
  if ← accept (.keyword .AS) then some <$> ident
  else if (← peek).kind.isName then some <$> ident
  else return none

end SqlFront.Grammar
