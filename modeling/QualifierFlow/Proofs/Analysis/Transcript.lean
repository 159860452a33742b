import QualifierFlow.Proofs.Analysis.Invariance

/-! What is said between an analysis and its host. The parts of a run that do not use clauses of
contracts are calm: the host attends to a tree exactly while it is asked for a value of the tree, and
is asked nothing about support, scopes and resolutions. -/
namespace QualifierFlow
variable {σ γ V α : Type}

/-- A query that a host was asked, with its answer. -/
inductive Exchange (γ V : Type)
  | attend (tree : Option (Id .tree))
  | typeValue (tree : Tree) (value : Option V)
  | boundValue (tree : Tree) (value : Option V)
  | supports (qualifier : String) (answer : Bool)
  | meaning (qualifier : String) (value : Option V)
  | declarationScope (method : Method) (scope : γ)
  | callScope (call : Call) (scope : γ)
  | resolve (expression : String) (scope : γ) (answer : Resolution)
  | fieldValues (values : List (Field × V))
  | isSideEffectFree (method : Id .method) (answer : Bool)

namespace Exchange

def isAboutTree : Exchange γ V → Bool
  | .attend _ | .typeValue .. | .boundValue .. => true
  | _ => false

def isScope : Exchange γ V → Bool
  | .declarationScope .. | .callScope .. => true
  | _ => false

def isAboutClause : Exchange γ V → Bool
  | .supports .. | .declarationScope .. | .callScope .. | .resolve .. => true
  | _ => false

def isResolve : Exchange γ V → Bool
  | .resolve .. => true
  | _ => false

def isMeaning : Exchange γ V → Bool
  | .meaning .. => true
  | _ => false

theorem isAboutTree_of_isScope {exchange : Exchange γ V} (isScope : exchange.isScope = true) :
    exchange.isAboutTree = false := by
  cases exchange <;> first | rfl | contradiction

theorem isAboutTree_of_isMeaning {exchange : Exchange γ V} (isMeaning : exchange.isMeaning = true) :
    exchange.isAboutTree = false := by
  cases exchange <;> first | rfl | contradiction

theorem isScope_of_isMeaning {exchange : Exchange γ V} (isMeaning : exchange.isMeaning = true) :
    exchange.isScope = false := by
  cases exchange <;> first | rfl | contradiction

theorem isResolve_of_isMeaning {exchange : Exchange γ V} (isMeaning : exchange.isMeaning = true) :
    exchange.isResolve = false := by
  cases exchange <;> first | rfl | contradiction

theorem isResolve_of_isScope {exchange : Exchange γ V} (isScope : exchange.isScope = true) :
    exchange.isResolve = false := by
  cases exchange <;> first | rfl | contradiction

end Exchange

/-- The state of a host with what was said, in order. -/
structure Transcribed (σ γ V : Type) where
  state : σ
  exchanges : List (Exchange γ V) := []

def Transcribed.answer (exchange : α → Exchange γ V) (respond : StateM σ α) :
    StateM (Transcribed σ γ V) α := fun transcribed =>
  let (result, state) := respond.run transcribed.state
  (result, ⟨state, transcribed.exchanges ++ [exchange result]⟩)

/-- The host that answers alike and keeps a transcript. -/
def Host.transcribed (host : Host σ γ V) : Host (Transcribed σ γ V) γ V where
  attend tree := Transcribed.answer (fun _ => .attend tree) (host.attend tree)
  typeValue tree := Transcribed.answer (.typeValue tree) (host.typeValue tree)
  boundValue tree := Transcribed.answer (.boundValue tree) (host.boundValue tree)
  supports qualifier := Transcribed.answer (.supports qualifier) (host.supports qualifier)
  meaning qualifier := Transcribed.answer (.meaning qualifier) (host.meaning qualifier)
  declarationScope method :=
    Transcribed.answer (.declarationScope method) (host.declarationScope method)
  callScope call := Transcribed.answer (.callScope call) (host.callScope call)
  resolve expression scope :=
    Transcribed.answer (.resolve expression scope) (host.resolve expression scope)
  fieldValues := Transcribed.answer .fieldValues host.fieldValues
  isSideEffectFree method :=
    Transcribed.answer (.isSideEffectFree method) (host.isSideEffectFree method)

def Analysis.transcribed (analysis : Analysis σ γ V) : Analysis (Transcribed σ γ V) γ V where
  host := analysis.host.transcribed
  contracts := analysis.contracts
  assumptions := analysis.assumptions

/-- Each query for a value of a tree stands between attending to that tree and attending to none, and
the host is not told to attend to anything otherwise. -/
inductive Attentive : List (Exchange γ V) → Prop
  | nil : Attentive []
  | typeValue (tree : Tree) (value : Option V) {others : List (Exchange γ V)} : Attentive others →
    Attentive (.attend (some tree.id) :: .typeValue tree value :: .attend none :: others)
  | boundValue (tree : Tree) (value : Option V) {others : List (Exchange γ V)} : Attentive others →
    Attentive (.attend (some tree.id) :: .boundValue tree value :: .attend none :: others)
  | other {exchange : Exchange γ V} {others : List (Exchange γ V)} :
    exchange.isAboutTree = false → Attentive others → Attentive (exchange :: others)

def attendedAfter (asked : List (Exchange γ V)) : Option (Id .tree) :=
  asked.foldl (fun current exchange =>
    match exchange with
    | .attend tree => tree
    | _ => current) none

namespace Attentive
variable {asked others : List (Exchange γ V)}

theorem of_forall (apart : ∀ exchange ∈ asked, exchange.isAboutTree = false) :
    Attentive asked := by
  induction asked with
  | nil => exact .nil
  | cons exchange asked ih =>
    obtain ⟨here, others⟩ := List.forall_mem_cons.1 apart
    exact .other here (ih others)

theorem append (first : Attentive asked) (second : Attentive others) :
    Attentive (asked ++ others) := by
  induction first with
  | nil => exact second
  | typeValue tree value _ ih => exact .typeValue tree value ih
  | boundValue tree value _ ih => exact .boundValue tree value ih
  | other apart _ ih => exact .other apart ih

theorem attendedAfter_eq_none (attentive : Attentive asked) : attendedAfter asked = none := by
  induction attentive with
  | nil => rfl
  | typeValue tree value _ ih => exact ih
  | boundValue tree value _ ih => exact ih
  | @other exchange others apart _ ih =>
    cases exchange with
    | attend tree => contradiction
    | _ => exact ih

end Attentive

/-- Nothing is said about support, scopes or resolutions. -/
structure Calm (asked : List (Exchange γ V)) : Prop where
  attentive : Attentive asked
  clauseless : ∀ exchange ∈ asked, exchange.isAboutClause = false

theorem Calm.nil : Calm ([] : List (Exchange γ V)) := ⟨.nil, by simp⟩

theorem Calm.append {asked others : List (Exchange γ V)} (first : Calm asked)
    (second : Calm others) : Calm (asked ++ others) :=
  ⟨first.attentive.append second.attentive,
    List.forall_mem_append.2 ⟨first.clauseless, second.clauseless⟩⟩

theorem Calm.other {exchange : Exchange γ V} (treeless : exchange.isAboutTree = false)
    (clauseless : exchange.isAboutClause = false) : Calm [exchange] :=
  ⟨.other treeless .nil, by simpa using clauseless⟩

private theorem Calm.typeValue (tree : Tree) (value : Option V) :
    Calm ([.attend (some tree.id), .typeValue tree value, .attend none] :
      List (Exchange γ V)) :=
  ⟨.typeValue tree value .nil, by simp [Exchange.isAboutClause]⟩

private theorem Calm.boundValue (tree : Tree) (value : Option V) :
    Calm ([.attend (some tree.id), .boundValue tree value, .attend none] :
      List (Exchange γ V)) :=
  ⟨.boundValue tree value .nil, by simp [Exchange.isAboutClause]⟩

namespace Memory

/-- The later memory is reached by saying what is given and resolving nothing. -/
structure Says (m : Memory (Transcribed σ γ V) V) (asked : List (Exchange γ V))
    (after : Memory (Transcribed σ γ V) V) : Prop where
  said : after.host.exchanges = m.host.exchanges ++ asked
  resolutions : after.resolutions = m.resolutions

/-- Both memories are one, with nothing but calm talk since the start. -/
structure StaysCalm (start m n : Memory (Transcribed σ γ V) V) : Prop where
  same : m = n
  calm : ∃ asked, Calm asked ∧ start.Says asked m

end Memory

namespace Analysis
open Run
variable (analysis : Analysis σ γ V) {start : Memory (Transcribed σ γ V) V}

private theorem staysCalm_agrees {run : Run (Transcribed σ γ V) V α}
    (calm : ∀ m : Memory (Transcribed σ γ V) V,
      ∃ asked, Calm asked ∧ m.Says asked (run.run m).2) :
    Agrees (Memory.StaysCalm start) run := by
  rintro m _ ⟨rfl, before, earlier, reached⟩
  obtain ⟨asked, later, spoke⟩ := calm m
  refine ⟨rfl, rfl, before ++ asked, earlier.append later, ?_, ?_⟩
  · rw [spoke.said, reached.said, List.append_assoc]
  · rw [spoke.resolutions, reached.resolutions]

private theorem staysCalm_ask {query : StateM σ α} {exchange : α → Exchange γ V}
    (treeless : ∀ answer, (exchange answer).isAboutTree = false)
    (clauseless : ∀ answer, (exchange answer).isAboutClause = false) :
    Agrees (Memory.StaysCalm start) (ask (Transcribed.answer exchange query)) :=
  staysCalm_agrees fun _ => ⟨_, .other (treeless _) (clauseless _), rfl, rfl⟩

theorem respects_staysCalm : analysis.transcribed.Respects (Memory.StaysCalm start) where
  typeValue tree := staysCalm_agrees fun m => by
    let answered := (analysis.transcribed.typeValue tree).run m
    refine ⟨_, .typeValue tree answered.1, ?_, rfl⟩
    exact (List.append_assoc ..).trans (List.append_assoc ..)
  boundValue tree := staysCalm_agrees fun m => by
    let answered := (analysis.transcribed.boundValue tree).run m
    refine ⟨_, .boundValue tree answered.1, ?_, rfl⟩
    exact (List.append_assoc ..).trans (List.append_assoc ..)
  meaning _ := staysCalm_ask (fun _ => rfl) fun _ => rfl
  fieldValues := staysCalm_ask (fun _ => rfl) fun _ => rfl
  isSideEffectFree _ := staysCalm_ask (fun _ => rfl) fun _ => rfl
  note _ := staysCalm_agrees fun _ => ⟨[], .nil, (List.append_nil _).symm, rfl⟩

theorem exists_calm_of_keeps {P : α → Prop} {run : Run (Transcribed σ γ V) V α}
    (keeps : ∀ start, Keeps (Memory.StaysCalm start) (Memory.StaysCalm start) P run)
    (m : Memory (Transcribed σ γ V) V) :
    ∃ asked, Calm asked ∧ m.Says asked (run.run m).2 :=
  (keeps m m m ⟨rfl, [], .nil, (List.append_nil _).symm, rfl⟩).2.calm

end Analysis
end QualifierFlow
