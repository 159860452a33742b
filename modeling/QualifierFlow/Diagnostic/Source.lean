import QualifierFlow.Program

/-! Source files by line. Offsets count bytes of UTF-8; a line keeps the line feed that ends it, and
a text that ends in a line feed has an empty last line. -/
namespace QualifierFlow

structure Source where
  name : String
  text : String

/-- A line of a source, with the offset of its first byte. -/
structure Line where
  start : Nat
  chars : List Char
  deriving DecidableEq, Repr

def byteCount : List Char → Nat
  | [] => 0
  | c :: rest => c.utf8Size + byteCount rest

namespace Source

private def cut (start : Nat) : List Char → List Char → List Line
  | line, [] => [⟨start, line.reverse⟩]
  | line, '\n' :: rest =>
    ⟨start, ('\n' :: line).reverse⟩ :: cut (start + byteCount ('\n' :: line)) [] rest
  | line, c :: rest => cut start (c :: line) rest

def lines (source : Source) : List Line := cut 0 [] source.text.toList

/-- The index of the line that an offset lies on; offsets past the end lie on the last line. -/
def lineIndex (source : Source) (offset : Nat) : Nat :=
  (source.lines.filter (·.start ≤ offset)).length - 1

def lineAt (source : Source) (index : Nat) : Line :=
  source.lines.getD index ⟨source.text.utf8ByteSize, []⟩

end Source

private def charsEnding (offset : Nat) (position : Nat) : List Char → Nat
  | [] => 0
  | c :: rest =>
    let stop := position + c.utf8Size
    if stop ≤ offset then charsEnding offset stop rest + 1 else 0

def Line.column (line : Line) (offset : Nat) : Nat :=
  charsEnding offset line.start line.chars + 1

end QualifierFlow
