import QualifierFlow.Diagnostic.Snippet

/-! Reports: diagnostics written out one after the other, each with the source lines that it is
about and an empty line after it. -/
namespace QualifierFlow

inductive ReportError
  | missingFile
  deriving DecidableEq, Repr

def ReportError.message : ReportError → String
  | .missingFile => "file missing"

namespace Diagnostic

def header (diagnostic : Diagnostic) : String :=
  let code := if diagnostic.code.isEmpty then "" else "[" ++ diagnostic.code ++ "]"
  diagnostic.severity.name ++ code ++ ": " ++ diagnostic.message

/-- A diagnostic as it is written, sources being numbered from zero. -/
def render (sources : List Source) (diagnostic : Diagnostic) : Except ReportError String :=
  match sources[diagnostic.span.file]? with
  | none => .error .missingFile
  | some source =>
    let snippet := Snippet.render .standard source diagnostic.span diagnostic.remark
    .ok (String.join ((diagnostic.header :: snippet ++ [""]).map (· ++ "\n")))

/-- Writes diagnostics in order until one fails; what was written before stays. -/
def renderAll (sources : List Source) : List Diagnostic → String × Option ReportError
  | [] => ("", none)
  | diagnostic :: rest =>
    match diagnostic.render sources with
    | .error failure => ("", some failure)
    | .ok text =>
      let (later, failure) := renderAll sources rest
      (text ++ later, failure)

def report (sources : List Source) (least : Severity) (diagnostics : List Diagnostic) :
    String × Option ReportError :=
  renderAll sources (diagnostics.filter fun d => least.rank ≤ d.severity.rank)

end Diagnostic
end QualifierFlow
