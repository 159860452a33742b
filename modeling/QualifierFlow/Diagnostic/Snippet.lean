import QualifierFlow.Diagnostic.Basic
import QualifierFlow.Diagnostic.Source
import QualifierFlow.Text.Blank
import QualifierFlow.Text.Width

/-! The excerpt of a source that a diagnostic shows: the lines of its span between numbered margins,
with carets under a span within one line, and a bar along a span over several lines. -/
namespace QualifierFlow

structure SnippetStyle where
  tabWidth : Nat
  linesAfterStart : Nat
  linesBeforeStop : Nat

def SnippetStyle.standard : SnippetStyle := ⟨4, 3, 1⟩

/-- What is marked on a line, by offsets into the line. -/
inductive Mark
  | carets (start stop : Nat) (remark : String)
  /-- A span over several lines starts here. -/
  | opening (start : Nat)
  /-- The line lies between the first and last line of a span. -/
  | inside
  | closing (stop : Nat) (remark : String)
  deriving DecidableEq, Repr

/-- A character of a line, its offset into the line and the columns it takes. -/
structure Cell where
  char : Char
  offset : Nat
  width : Nat
  deriving DecidableEq, Repr

namespace Snippet

private def spaces (n : Nat) : String := String.ofList (List.replicate n ' ')

private def dashes (n : Nat) : String := String.ofList (List.replicate n '─')

def shown (chars : List Char) : List Char :=
  (chars.reverse.dropWhile fun c => c == '\n' || c == '\r' || c == '\x00').reverse

def cellsFrom (style : SnippetStyle) (offset column : Nat) : List Char → List Cell
  | [] => []
  | c :: rest =>
    let width := if c = '\t' then style.tabWidth - column % style.tabWidth else Text.charWidth c
    ⟨c, offset, width⟩ :: cellsFrom style (offset + c.utf8Size) (column + width) rest

def cells (style : SnippetStyle) (chars : List Char) : List Cell := cellsFrom style 0 0 chars

private def Cell.text (cell : Cell) : String :=
  if cell.char = '\t' then spaces cell.width else cell.char.toString

/-- Whether a span that starts here can start in front of the line, only blanks preceding it. -/
def startsLine (chars : List Char) (start : Nat) : Bool :=
  start ≤ byteCount (chars.takeWhile Text.isBlank)

/-- The margin of a line without a number, as wide as the largest number shown. -/
private def margin (digits : Nat) : String := spaces digits ++ " "

private def numberedMargin (digits number : Nat) : String :=
  let text := toString number
  spaces (digits - text.length) ++ text ++ " "

private def barBeside (chars : List Char) (spread : Bool) : Option Mark → String
  | some (.opening start) => if startsLine chars start then " ╭" else "  "
  | some .inside | some (.closing ..) => " │"
  | some (.carets ..) => ""
  | none => if spread then "  " else ""

private def barAcross : Mark → String
  | .opening _ => "  "
  | .inside | .closing .. => " │"
  | .carets .. => ""

private def remarkText (remark : String) : String := if remark.isEmpty then "" else " " ++ remark

/-- The carets under a line; the column after its end is marked too if the span reaches it. -/
private def caretLine (row : List Cell) (size start stop : Nat) : String :=
  let stop := max stop (start + 1)
  let atEnd : Cell := ⟨'\x00', size, 1⟩
  let marks := (row ++ [atEnd]).map fun cell =>
    let overlaps := max start cell.offset < min stop (cell.offset + cell.char.utf8Size)
    if overlaps then String.ofList (List.replicate cell.width '^')
    else if cell.offset < stop then spaces cell.width
    else ""
  String.join marks

private def widthBefore (offset : Nat) : List Cell → Nat
  | [] => 0
  | cell :: rest => if cell.offset < offset then cell.width + widthBefore offset rest else 0

private def underline (style : SnippetStyle) (chars : List Char) : Mark → Option String
  | .carets start stop remark =>
    some (" " ++ caretLine (cells style chars) (byteCount chars) start stop ++ remarkText remark)
  | .opening start =>
    if startsLine chars start then none
    else some (" ╭" ++ dashes (widthBefore (start + 1) (cells style chars)) ++ "^")
  | .inside => none
  | .closing stop remark =>
    some (" ╰" ++ dashes (widthBefore stop (cells style chars)) ++ "^" ++ remarkText remark)

private def sourceLines (style : SnippetStyle) (digits : Nat) (source : Source) (spread : Bool)
    (index : Nat) (mark : Option Mark) : List String :=
  let chars := shown (source.lineAt index).chars
  let text := String.join ((cells style chars).map Cell.text)
  let line := numberedMargin digits (index + 1) ++ "│" ++ barBeside chars spread mark ++ " " ++ text
  match mark.bind (underline style chars) with
  | some under => [line, margin digits ++ "│" ++ under]
  | none => [line]

/-- The marked lines of a span by index, increasing. -/
def marks (source : Source) (span : Span) (remark : String) : List (Nat × Mark) :=
  let first := source.lineIndex span.start
  let last := source.lineIndex span.stop
  let start := span.start - (source.lineAt first).start
  let stop := span.stop - (source.lineAt last).start
  if first = last then [(first, .carets start stop remark)]
  else if first < last then
    (first, .opening start) ::
      ((List.range (last - first - 1)).map fun i => (first + 1 + i, .inside)) ++
      [(last, .closing stop remark)]
  else [(last, .closing stop remark), (first, .opening start)]

/-- Lines far from both ends of a span are left out. -/
private def isShown (style : SnippetStyle) (first last : Nat) : Nat × Mark → Bool
  | (index, .inside) => index - first ≤ style.linesAfterStart || last - index ≤ style.linesBeforeStop
  | _ => true

/-- The shown lines; one missing line is shown after all, more are replaced by a break. -/
private def withGaps (style : SnippetStyle) (digits : Nat) (source : Source) (spread : Bool)
    (all : List (Nat × Mark)) : List (Nat × Mark) → List String
  | [] => []
  | (index, mark) :: rest =>
    let gap :=
      match rest with
      | [] => []
      | (next, _) :: _ =>
        if next = index + 1 then []
        else if next = index + 2 then
          sourceLines style digits source spread (index + 1) (all.lookup (index + 1))
        else [margin digits ++ "·" ++ barAcross mark]
    sourceLines style digits source spread index (some mark) ++ gap ++
      withGaps style digits source spread all rest

/-- The excerpt for a span, with the place where it starts above it. -/
def render (style : SnippetStyle) (source : Source) (span : Span) (remark : String) :
    List String :=
  let first := source.lineIndex span.start
  let last := source.lineIndex span.stop
  let digits := (toString (max first last + 1)).length
  let all := marks source span remark
  let spread := first ≠ last
  let column := (source.lineAt first).column span.start
  let place := source.name ++ ":" ++ toString (first + 1) ++ ":" ++ toString column
  [margin digits ++ "┌─ " ++ place, margin digits ++ "│" ++ if spread then "  " else ""] ++
    withGaps style digits source spread all (all.filter (isShown style first last))

end Snippet
end QualifierFlow
