import SqlFront.Token.Stream

/-!
# Productions

A production describes what is read from a stream of tokens, as a decision tree: it looks at
one of the next three tokens and decides, or takes the next token, or ends with a value or
a fault.  Looking takes nothing, and no token is ever put back.

Two facts hold of every production because the tree has no other nodes.  No decision sees
further than two tokens past the next one, and a fault is reported either at the start of
the next token or on the token that was taken last.
-/

namespace SqlFront

/-- One of the next three tokens. -/
inductive Lookahead where
  | first | second | third
deriving DecidableEq, Repr

/-- The number of tokens before it. -/
def Lookahead.distance : Lookahead → Nat
  | first => 0
  | second => 1
  | third => 2

/-- A decision tree over the tokens of a stream that ends with a value of type `α`. -/
inductive Production (α : Type) where
  /-- Ends with a value. -/
  | done (value : α)
  /-- Looks at one of the next three tokens and goes on. -/
  | look (k : Lookahead) (go : Token → Production α)
  /-- Takes the next token and goes on. -/
  | take (go : Token → Production α)
  /-- Goes on with the region of the token that was taken last. -/
  | last (go : Span → Production α)
  /-- Ends with a fault at the start of the next token. -/
  | fail (cause : Token → Cause)
  /-- Ends with a fault on the token that was taken last. -/
  | failLast (cause : Cause)

namespace Production

/-- Goes on with `f` where `p` ends with a value. -/
def bind {α β : Type} (p : Production α) (f : α → Production β) : Production β :=
  match p with
  | done a => f a
  | look k go => look k fun t => (go t).bind f
  | take go => take fun t => (go t).bind f
  | last go => last fun a => (go a).bind f
  | fail cause => fail cause
  | failLast cause => failLast cause

instance : Monad Production where
  pure := done
  bind := bind

/-- Follows the decisions on a stream.  The stream is left where the tree ends, also with
a fault: what was taken stays taken. -/
def run {α : Type} (p : Production α) (s : Stream) : Except Fault α × Stream :=
  match p with
  | done a => (.ok a, s)
  | look k go =>
    match s.peek k.distance with
    | (.error e, s) => (.error e, s)
    | (.ok t, s) => (go t).run s
  | take go =>
    match s.next with
    | (.error e, s) => (.error e, s)
    | (.ok t, s) => (go t).run s
  | last go => (go s.last).run s
  | fail cause =>
    match s.peek 0 with
    | (.error e, s) => (.error e, s)
    | (.ok t, s) => (.error ⟨cause t, .point t.span.start⟩, s)
  | failLast cause => (.error ⟨cause, s.last⟩, s)

/-! ### Looking and taking -/

/-- The next token, which stays. -/
def peek : Production Token := look .first done

/-- One of the next three tokens, which stays. -/
def peekAt (k : Lookahead) : Production Token := look k done

/-- The start of the next token. -/
def here : Production Position := look .first fun t => done t.span.start

/-- Takes the next token. -/
def advance : Production Token := take done

/-- Ends with the fault that `wanted` was expected. -/
def expected {α : Type} (wanted : String) : Production α := fail (.expected wanted)

/-- The region from `start` to the end of the token that was taken last. -/
def spanFrom (start : Position) : Production Span := last fun a => done ⟨start, a.stop⟩

/-- Whether the next token is of kind `k`. -/
def nextIs (k : Kind) : Production Bool := look .first fun t => done (t.kind = k)

/-- Whether the next two tokens are of kinds `k` and `l`; the second one is looked at only
if the first is of kind `k`. -/
def nextAre (k l : Kind) : Production Bool :=
  look .first fun t => if t.kind = k then look .second fun u => done (u.kind = l) else done false

/-- Takes the next token if it is of kind `k`. -/
def accept? (k : Kind) : Production (Option Token) :=
  look .first fun t => if t.kind = k then take fun t => done (some t) else done none

/-- Takes the next token if it is of kind `k`, and says whether it was. -/
def accept (k : Kind) : Production Bool :=
  look .first fun t => if t.kind = k then take fun _ => done true else done false

/-- Takes the next token, which has to be of kind `k`. -/
def expect (k : Kind) : Production Token :=
  look .first fun t => if t.kind = k then take done else fail (.expected k.phrase)

/-! ### Lists

A list is read with a bound on the number of its entries.  A bound of one more than the
number of tokens ahead is never reached, because every entry takes a token. -/

/-- The entries that `entry` yields until it yields none. -/
def collect {α : Type} (entry : Production (Option α)) :
    Nat → List α → Production (List α)
  | 0, _ => fail fun _ => .tooLong
  | n + 1, found => do
    match ← entry with
    | some a => collect entry n (a :: found)
    | none => return found.reverse

/-- One entry and further entries, each after a comma. -/
def commaList {α : Type} (bound : Nat) (entry : Production α) : Production (List α) := do
  let first ← entry
  let further ← collect (do if ← accept .comma then some <$> entry else return none) bound []
  return first :: further

/-- Reads `production` if the next token is of kind `k`, which is taken. -/
def afterToken? {α : Type} (k : Kind) (production : Production α) :
    Production (Option α) := do
  if ← accept k then some <$> production else return none

end Production

end SqlFront
