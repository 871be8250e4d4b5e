import TypeStrip.Grammar.Complaint
import TypeStrip.Syntax.Tree

/-! A place in a stream of tokens, and what a parser sees from it. -/
namespace TypeStrip.Grammar
open TypeStrip.Token (Kind)

/-- A place in a token stream. Before the first move the previous token is the current one. The
stream ends with a token that marks the end. -/
structure Cursor where
  previous : Token
  current : Token
  following : List Token

namespace Cursor

def atEnd (c : Cursor) : Bool := c.current.kind == .eof

def at_ (c : Cursor) (kind : Kind) : Bool := !c.atEnd && c.current.kind == kind

/-- Whether the current token is the given word, which is not a reserved one. -/
def atWord (c : Cursor) (word : String) : Bool := c.at_ .identifier && c.current.value == word

def peek? (c : Cursor) : Nat → Option Token
  | 0 => some c.current
  | n + 1 => c.following[n]?

def sees (c : Cursor) (ahead : Nat) (kind : Kind) : Bool :=
  (c.peek? ahead).any (·.kind == kind)

def seesAny (c : Cursor) (ahead : Nat) (kinds : List Kind) : Bool :=
  (c.peek? ahead).any fun t => kinds.contains t.kind

def seesWord (c : Cursor) (ahead : Nat) (word : String) : Bool :=
  (c.peek? ahead).any fun t => t.kind == .identifier && t.value == word

/-- Whether the token so many places ahead is on the line of the token before it. -/
def sameLine (c : Cursor) (ahead : Nat) : Bool := (c.peek? ahead).any (!·.newlineBefore)

def remaining (c : Cursor) : Nat := c.following.length + 1

/-- Whether the current token may name a property: an identifier or a reserved word. -/
def atName (c : Cursor) : Bool := c.current.kind == .identifier || c.current.kind.isReserved

end Cursor

end TypeStrip.Grammar
