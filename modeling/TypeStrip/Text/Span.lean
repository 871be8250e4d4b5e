/-! Places in a source file. -/
namespace TypeStrip

/-- A stretch of one source file, counted in bytes from the file's start. -/
structure Span where
  start : Nat
  stop : Nat
  file : Nat
deriving DecidableEq, Inhabited, Repr

/-- The least stretch that covers both, in the file of the first. -/
def Span.merge (a b : Span) : Span :=
  ⟨min a.start b.start, max a.stop b.stop, a.file⟩

structure Name where
  span : Span
  text : String
deriving DecidableEq, Inhabited, Repr

def Text.byteCount : List Char → Nat
  | [] => 0
  | c :: rest => c.utf8Size + byteCount rest

end TypeStrip
