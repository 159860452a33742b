import QualifierFlow.Host.Recorded
import QualifierFlow.Host.Table
import QualifierFlow.Proofs.Analysis.Invariance
import QualifierFlow.Proofs.Store.Keys

/-! Sessions: what is asked of one analysis, request after request, and how stores travel from
answers to later requests. A property that the operations on stores keep holds of all stores that a
session meets. So no store ever knows a path about which facts may not be recorded, although the
stores themselves do not check that. -/
namespace QualifierFlow

inductive Request (V : Type)
  | enter (unit : CodeUnit) (parameters : List Parameter)
  | step (node : Node) (values : Id .node → Option V) (incoming : Flow V)
  | takeComplaints

inductive Answer (V : Type)
  | entered (store : Store V)
  | stepped (result : Except (Violation V) (Outcome V))
  | complaints (diagnostics : List Diagnostic)

variable {σ γ V : Type}

namespace Analysis
variable [Domain V] [DecidableEq V] (analysis : Analysis σ γ V)

def answer : Request V → Run σ V (Answer V)
  | .enter unit parameters => return .entered (← analysis.entryStore unit parameters)
  | .step node values incoming => return .stepped (← (analysis.step node values incoming).run)
  | .takeComplaints => return .complaints (← Run.takeComplaints)

def session (requests : List (Request V)) : Run σ V (List (Answer V)) :=
  requests.mapM analysis.answer

theorem run_session_cons (request : Request V) (requests : List (Request V)) (m : Memory σ V) :
    (analysis.session (request :: requests)).run m =
      let answered := (analysis.answer request).run m
      let others := (analysis.session requests).run answered.2
      (answered.1 :: others.1, others.2) := by
  unfold session
  rw [List.mapM_cons]
  rfl

theorem run_session_append (earlier later : List (Request V)) (m : Memory σ V) :
    (analysis.session (earlier ++ later)).run m =
      let first := (analysis.session earlier).run m
      let others := (analysis.session later).run first.2
      (first.1 ++ others.1, others.2) := by
  induction earlier generalizing m with
  | nil => rfl
  | cons request earlier ih =>
    rw [List.cons_append, run_session_cons, run_session_cons]
    dsimp only
    rw [ih]
    rfl

theorem length_session (requests : List (Request V)) (m : Memory σ V) :
    ((analysis.session requests).run m).1.length = requests.length := by
  induction requests generalizing m with
  | nil => rfl
  | cons request requests ih =>
    rw [run_session_cons]
    exact congrArg (· + 1) (ih _)

theorem getElem?_session (earlier : List (Request V)) (request : Request V)
    (later : List (Request V)) (m : Memory σ V) :
    ((analysis.session (earlier ++ request :: later)).run m).1[earlier.length]? =
      some ((analysis.answer request).run ((analysis.session earlier).run m).2).1 := by
  have length := analysis.length_session earlier m
  rw [run_session_append]
  dsimp only
  rw [← length, List.getElem?_append_right (Nat.le_refl _), Nat.sub_self, run_session_cons]
  rfl

end Analysis

def Request.stores : Request V → List (Store V)
  | .step _ _ incoming => [incoming.on .whenTrue, incoming.on .whenFalse]
  | _ => []

def Answer.stores : Answer V → List (Store V)
  | .entered store => [store]
  | .stepped (.ok outcome) => [outcome.flow.on .whenTrue, outcome.flow.on .whenFalse]
  | _ => []

/-- Stores that can be had without an analysis: empty ones, copies of those met, and joins. -/
inductive Store.ComesFrom [Domain V] (met : List (Store V)) : Store V → Prop
  | empty (assumptions : Assumptions) : ComesFrom met (.empty assumptions)
  | copy {store : Store V} : store ∈ met → ComesFrom met store
  | join {store other : Store V} :
    ComesFrom met store → ComesFrom met other → ComesFrom met (store.join other)

/-- A session from a given memory has left another memory and met certain stores, if each of its
requests was made with stores that come from those met before. -/
inductive Analysis.Reaches [Domain V] [DecidableEq V] (analysis : Analysis σ γ V)
    (start : Memory σ V) : Memory σ V → List (Store V) → Prop
  | start : Reaches analysis start start []
  | request {memory : Memory σ V} {met : List (Store V)} (request : Request V) :
    Reaches analysis start memory met →
    (∀ store ∈ request.stores, store.ComesFrom met) →
    Reaches analysis start ((analysis.answer request).run memory).2
      (((analysis.answer request).run memory).1.stores ++ request.stores ++ met)

section Invariant
variable [Domain V] {P : Store V → Prop} (invariant : Store.IsInvariant P)
include invariant

private theorem Store.ComesFrom.holds {met : List (Store V)} {store : Store V}
    (source : store.ComesFrom met) (holds : ∀ store ∈ met, P store) : P store := by
  induction source with
  | empty assumptions => exact invariant.empty assumptions
  | copy member => exact holds _ member
  | join _ _ first second => exact invariant.join first second

variable [DecidableEq V] {analysis : Analysis σ γ V}

private theorem Analysis.answer_holds {request : Request V}
    (holds : ∀ store ∈ request.stores, P store) (memory : Memory σ V) :
    ∀ store ∈ ((analysis.answer request).run memory).1.stores, P store := by
  cases request with
  | enter unit parameters =>
    have keeps : Run.Keeps Eq Eq P (analysis.entryStore unit parameters) :=
      entryStore_keeps analysis.respects_eq invariant (fun _ _ _ => Run.agrees_eq _)
        (Run.agrees_eq Run.forgetCalls)
        (fun method _ => analysis.resolvesAlike_eq (.declaration method.id) _) parameters
    have entered : P ((analysis.entryStore unit parameters).run memory).1 :=
      (keeps memory memory rfl).1.2
    intro store member
    obtain rfl := List.mem_singleton.1 member
    exact entered
  | step node values incoming =>
    have flows : incoming.Holds P := by
      intro branch
      cases branch <;> exact holds _ (by simp [Request.stores])
    have keeps := step_keeps analysis.respects_eq invariant
      (fun call _ => analysis.resolvesAlike_eq (.call node.id call.method) _) flows values
    have stepped : ∀ outcome,
        ((analysis.step node values incoming).run.run memory).1 = .ok outcome →
        outcome.flow.Holds P := (keeps memory memory rfl).1.2
    have answered : ((analysis.answer (.step node values incoming)).run memory).1 =
        .stepped ((analysis.step node values incoming).run.run memory).1 := rfl
    rw [answered]
    cases result : ((analysis.step node values incoming).run.run memory).1 with
    | error violation => simp [Answer.stores]
    | ok outcome =>
      intro store member
      simp only [Answer.stores, List.mem_cons, List.not_mem_nil, or_false] at member
      rcases member with rfl | rfl
      · exact stepped outcome result .whenTrue
      · exact stepped outcome result .whenFalse
  | takeComplaints => exact fun _ member => absurd member List.not_mem_nil

theorem Analysis.Reaches.holds {start memory : Memory σ V} {met : List (Store V)}
    (reached : analysis.Reaches start memory met) : ∀ store ∈ met, P store := by
  induction reached with
  | start => exact fun _ member => absurd member List.not_mem_nil
  | @request memory met request _ sources ih =>
    have given : ∀ store ∈ request.stores, P store :=
      fun store member => (sources store member).holds invariant ih
    intro store member
    rw [List.mem_append, List.mem_append] at member
    rcases member with (answered | asked) | old
    · exact answer_holds invariant given memory store answered
    · exact given store asked
    · exact ih store old

end Invariant

def Store.KnowsRecordable (store : Store V) : Prop :=
  ∀ path, store.contains path = true → path.isRecordable = true

private theorem Store.isInvariant_knowsRecordable [Domain V] :
    Store.IsInvariant (KnowsRecordable (V := V)) where
  empty assumptions path known := absurd known (by simp [not_contains_empty])
  record value holds recordable path known := by
    rcases contains_record.1 known with ⟨rfl, _⟩ | known
    · exact recordable
    · exact holds path known
  assign value holds recordable path known := by
    rcases contains_of_contains_assign known with ⟨rfl, _⟩ | known
    · exact recordable
    · exact holds path known
  assignUnnamed target holds path known := holds path (contains_assignUnnamed.1 known).2.2
  afterCall call calleePure result holds path known := by
    rcases contains_of_contains_afterCall known with ⟨_, isCall, clean⟩ | known
    · cases path <;> simp_all [Path.isRecordable, Path.isElement, Path.isCall]
    · exact holds path known
  bindParameter parameter value holds path known := by
    rcases contains_bindParameter known with rfl | known
    · rfl
    · exact holds path known
  join holds _ path known := holds path (contains_join.1 known).1

theorem Path.isRecordable_iff {path : Path} : path.isRecordable = true ↔
    path.isElement = false ∧ ∀ part ∈ path.subpaths, part.isUnknown = false := by
  simp [isRecordable, hasUnknown]

/-- Whatever the host, the contracts, the domain and the assumptions, a session that starts without
stores never meets one that knows an array element, or a path with an unknown part at any depth. -/
theorem Analysis.recordable_of_reaches [Domain V] [DecidableEq V] (analysis : Analysis σ γ V)
    {start memory : Memory σ V} {met : List (Store V)}
    (reached : analysis.Reaches start memory met) :
    ∀ store ∈ met, ∀ path, store.contains path = true →
      path.isRecordable = true ∧ path.isElement = false ∧
        ∀ part ∈ path.subpaths, part.isUnknown = false := by
  intro store member path known
  have recordable := reached.holds Store.isInvariant_knowsRecordable store member path known
  exact ⟨recordable, Path.isRecordable_iff.1 recordable⟩

def argumentHost : Host (Recorded Unit) TableScope (Qualifier .diamond) :=
  (HostTable.host { meaning := Hierarchy.diamond.qualifier? }).recorded

/-- Every method promises something of its first argument. -/
def argumentAnalysis : Analysis (Recorded Unit) TableScope (Qualifier .diamond) where
  host := argumentHost
  contracts _ := { ensures := .ofList [(⟨"#1", "Left"⟩, ())] }
  assumptions := {}

def argumentNode (argument : Variable) : Node where
  id := ⟨5⟩
  tree := none
  operation := .invoke ⟨⟨0⟩, .unknown ⟨0⟩, [⟨⟨1⟩, .var argument, .declared, none⟩]⟩

theorem Analysis.recordable_of_reaches_argument :
    let x : Variable := ⟨⟨0⟩, "x"⟩
    let request : Request (Qualifier .diamond) :=
      .step (argumentNode x) (fun _ => none) (.plain (.empty {}))
    let answered := (argumentAnalysis.answer request).run { host := ⟨(), []⟩ }
    let met := answered.1.stores ++ request.stores ++ []
    argumentAnalysis.Reaches { host := ⟨(), []⟩ } answered.2 met ∧
      (∃ store ∈ met, store.contains (.var x) = true) ∧
      ∀ store ∈ met, ∀ path, store.contains path = true →
        path.isRecordable = true ∧ path.isElement = false ∧
          ∀ part ∈ path.subpaths, part.isUnknown = false := by
  intro x request answered met
  have reached : argumentAnalysis.Reaches { host := ⟨(), []⟩ } answered.2 met := by
    refine .request request .start fun store member => ?_
    simp only [request, Request.stores, List.mem_cons, List.not_mem_nil, or_false] at member
    rcases member with rfl | rfl <;> exact .empty {}
  have known : ∃ store ∈ met, store.contains (.var x) = true := by decide +kernel
  exact ⟨reached, known, recordable_of_reaches argumentAnalysis reached⟩

end QualifierFlow
