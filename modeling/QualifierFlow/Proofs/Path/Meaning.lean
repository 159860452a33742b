import Mathlib.Logic.Function.Basic
import QualifierFlow.Path.Containment

/-! What access paths denote. A path is evaluated from its parts, in an environment for the
variables and with any meaning at all for the other kinds of paths. Its value depends on those
variables only that occur in it; and there is a meaning under which it depends on each of them. -/
namespace QualifierFlow

/-- What paths denote that are no variables, those with parts by the values of their parts. -/
structure Meaning (α : Type*) where
  self : Id .type → α
  type : Id .type → α
  unknown : Id .type → α
  field : Field → α → α
  element : α → α → α
  call : Id .method → α → List α → α

namespace Path
variable {α : Type*} (meaning : Meaning α)

mutual
def eval (env : Variable → α) : Path → α
  | .var v => env v
  | .field owner f => meaning.field f (eval env owner)
  | .self t => meaning.self t
  | .type t => meaning.type t
  | .element array index => meaning.element (eval env array) (eval env index)
  | .call receiver m arguments => meaning.call m (eval env receiver) (evalAll env arguments)
  | .unknown t => meaning.unknown t

def evalAll (env : Variable → α) : List Path → List α
  | [] => []
  | path :: rest => eval env path :: evalAll env rest
end

section Congruence
variable {env env' : Variable → α}

mutual
/-- Only the variables that occur in a path are read. -/
theorem eval_congr : ∀ {path : Path}, (∀ v, .var v ∈ path.subpaths → env v = env' v) →
    eval meaning env path = eval meaning env' path
  | .var v, agree => agree v (by simp [subpaths])
  | .self _, _ | .type _, _ | .unknown _, _ => rfl
  | .field owner f, agree => by
    have owners : eval meaning env owner = eval meaning env' owner :=
      eval_congr fun v inside => agree v (by simp [subpaths, inside])
    rw [eval, eval, owners]
  | .element array index, agree => by
    have arrays : eval meaning env array = eval meaning env' array :=
      eval_congr fun v inside => agree v (by simp [subpaths, inside])
    have indices : eval meaning env index = eval meaning env' index :=
      eval_congr fun v inside => agree v (by simp [subpaths, inside])
    rw [eval, eval, arrays, indices]
  | .call receiver m arguments, agree => by
    have receivers : eval meaning env receiver = eval meaning env' receiver :=
      eval_congr fun v inside => agree v (by simp [subpaths, inside])
    have passed : evalAll meaning env arguments = evalAll meaning env' arguments :=
      evalAll_congr fun v inside => agree v (by simp [subpaths, inside])
    rw [eval, eval, receivers, passed]

theorem evalAll_congr : ∀ {paths : List Path},
    (∀ v, .var v ∈ subpathsOfAll paths → env v = env' v) →
    evalAll meaning env paths = evalAll meaning env' paths
  | [], _ => rfl
  | path :: rest, agree => by
    have first : eval meaning env path = eval meaning env' path :=
      eval_congr fun v inside => agree v (by simp [subpathsOfAll, inside])
    have others : evalAll meaning env rest = evalAll meaning env' rest :=
      evalAll_congr fun v inside => agree v (by simp [subpathsOfAll, inside])
    rw [evalAll, evalAll, first, others]
end

end Congruence

theorem eval_update [DecidableEq Variable] {path : Path} {x : Variable}
    (silent : .var x ∉ path.subpaths) (env : Variable → α) (new : α) :
    eval meaning (Function.update env x new) path = eval meaning env path := by
  apply eval_congr
  intro v inside
  have apart : v ≠ x := by
    rintro rfl
    exact silent inside
  exact Function.update_of_ne apart new env

end Path

/-- A path is true if a part of it is. -/
def Meaning.disjunction : Meaning Bool where
  self _ := false
  type _ := false
  unknown _ := false
  field _ owner := owner
  element array index := array || index
  call _ receiver arguments := receiver || arguments.any id

namespace Path
variable {env : Variable → Bool}

mutual
private theorem eval_disjunction : ∀ {path : Path}, eval .disjunction env path = true ↔
    ∃ v, .var v ∈ path.subpaths ∧ env v = true
  | .var v => by simp [eval, subpaths]
  | .self _ | .type _ | .unknown _ => by simp [eval, subpaths, Meaning.disjunction]
  | .field owner f => by
    have owners : eval .disjunction env owner = true ↔ _ := eval_disjunction
    simpa [eval, subpaths, Meaning.disjunction] using owners
  | .element array index => by
    have arrays : eval .disjunction env array = true ↔ _ := eval_disjunction
    have indices : eval .disjunction env index = true ↔ _ := eval_disjunction
    simp only [eval, Meaning.disjunction] at arrays indices ⊢
    rw [Bool.or_eq_true, arrays, indices]
    simp [subpaths, or_and_right, exists_or]
  | .call receiver m arguments => by
    have receivers : eval .disjunction env receiver = true ↔ _ := eval_disjunction
    have passed : (evalAll .disjunction env arguments).any id = true ↔ _ := evalAll_disjunction
    simp only [eval, Meaning.disjunction] at receivers passed ⊢
    rw [Bool.or_eq_true, receivers, passed]
    simp [subpaths, or_and_right, exists_or]

private theorem evalAll_disjunction : ∀ {paths : List Path},
    (evalAll .disjunction env paths).any id = true ↔
      ∃ v, .var v ∈ subpathsOfAll paths ∧ env v = true
  | [] => by simp [evalAll, subpathsOfAll]
  | path :: rest => by
    have first : eval .disjunction env path = true ↔ _ := eval_disjunction
    have others : (evalAll .disjunction env rest).any id = true ↔ _ := evalAll_disjunction
    rw [evalAll, List.any_cons, id, Bool.or_eq_true, first, others]
    simp [subpathsOfAll, or_and_right, exists_or]
end

/-- Whatever occurs in a path can make a difference to its value. -/
theorem exists_eval_ne {path : Path} {x : Variable} (inside : .var x ∈ path.subpaths) :
    ∃ (meaning : Meaning Bool) (env : Variable → Bool) (new : Bool),
      eval meaning (Function.update env x new) path ≠ eval meaning env path := by
  -- with all variables false the path is false, and raising one that occurs makes it true
  refine ⟨.disjunction, fun _ => false, true, fun same => ?_⟩
  have raised : eval .disjunction (Function.update (fun _ => false) x true) path = true :=
    eval_disjunction.2 ⟨x, inside, Function.update_self ..⟩
  obtain ⟨_, _, holds⟩ := eval_disjunction.1 (same.symm.trans raised)
  exact Bool.false_ne_true holds

end Path
end QualifierFlow
