import QualifierFlow.Id

/-! Access paths: canonical descriptions of storage locations and of the expressions whose value
facts are about. All questions about a path are questions about the paths that occur in it. -/
namespace QualifierFlow

/-- A local variable or formal parameter. -/
structure Variable where
  id : Id .var
  name : String
  deriving DecidableEq, Repr

structure Field where
  id : Id .field
  name : String
  isFinal : Bool
  deriving DecidableEq, Repr

inductive Path
  | var (v : Variable)
  | field (owner : Path) (f : Field)
  /-- The object that the code of the class runs on. -/
  | self (type : Id .type)
  /-- A class named in the code, such as the owner of a static field. -/
  | type (type : Id .type)
  | element (array index : Path)
  /-- A call whose method is deterministic and without side effect. -/
  | call (receiver : Path) (method : Id .method) (arguments : List Path)
  /-- An expression that no path describes. -/
  | unknown (type : Id .type)
  deriving Repr

namespace Path

mutual
/-- The paths that occur in a path, itself first. -/
def subpaths : Path → List Path
  | .var v => [.var v]
  | .field owner f => .field owner f :: subpaths owner
  | .self t => [.self t]
  | .type t => [.type t]
  | .element array index => .element array index :: (subpaths array ++ subpaths index)
  | .call receiver m arguments =>
    .call receiver m arguments :: (subpaths receiver ++ subpathsOfAll arguments)
  | .unknown t => [.unknown t]

def subpathsOfAll : List Path → List Path
  | [] => []
  | path :: rest => subpaths path ++ subpathsOfAll rest
end

def isUnknown : Path → Bool
  | .unknown _ => true
  | _ => false

def isField : Path → Bool
  | .field .. => true
  | _ => false

def isVariable : Path → Bool
  | .var _ => true
  | _ => false

def isElement : Path → Bool
  | .element .. => true
  | _ => false

def isCall : Path → Bool
  | .call .. => true
  | _ => false

def field? : Path → Option Field
  | .field _ f => some f
  | _ => none

def hasUnknown (path : Path) : Bool := path.subpaths.any isUnknown

/-- No step of a path that is written here can be changed from outside the analysed code. -/
def hasFixedHead : Path → Bool
  | .var _ | .self _ | .type _ | .call .. => true
  | .field _ f => f.isFinal
  | .element .. | .unknown _ => false

/-- Whether only the analysed code can change what the path denotes. -/
def isStable (path : Path) : Bool := path.subpaths.all hasFixedHead

/-- Whether facts about the path may be recorded in a store. -/
def isRecordable (path : Path) : Bool := !path.isElement && !path.hasUnknown

mutual
def text : Path → String
  | .var v => v.name
  | .field owner f => text owner ++ "." ++ f.name
  | .self _ => "this"
  | .type t => t.text
  | .element array index => text array ++ "[" ++ text index ++ "]"
  | .call receiver m arguments =>
    text receiver ++ "." ++ m.text ++ "(" ++ textOfAll arguments ++ ")"
  | .unknown _ => "?"

def textOfAll : List Path → String
  | [] => ""
  | [path] => text path
  | path :: rest => text path ++ ", " ++ textOfAll rest
end

instance : ToString Path := ⟨text⟩

end Path
end QualifierFlow
