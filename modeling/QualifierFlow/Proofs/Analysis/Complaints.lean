import Mathlib.Data.List.Forall2
import QualifierFlow.Proofs.Analysis.EntryFacts

/-! What is complained of. Complaints come from the requirements that entries of methods meet without
resolving them, remembered failures among them; taken are, in order, those met since complaints were
taken before, one for each expression of each method. -/
namespace QualifierFlow
variable {σ γ V α κ S : Type}

/-- A requirement that did not resolve, met at the entry of its method. -/
structure Unresolved where
  method : Method
  expression : String
  error : ResolveError
  deriving DecidableEq

namespace Unresolved

def question (unresolved : Unresolved) : Question :=
  ⟨.declaration unresolved.method.id, unresolved.expression⟩

def diagnostic (unresolved : Unresolved) : Diagnostic :=
  .ofUnresolved unresolved.method unresolved.error

def isAbout (unresolved : Unresolved) (method : Id .method) (expression : String) : Bool :=
  unresolved.method.id = method && unresolved.expression = expression

private theorem isAbout_iff {a b : Unresolved} :
    a.isAbout b.method.id b.expression = true ↔ a.question = b.question := by
  simp [isAbout, question]

/-- The diagnostic is an error at the declaration of the method. It names the expression that did not
resolve and the method, and remarks on why. -/
structure IsShownBy (unresolved : Unresolved) (diagnostic : Diagnostic) : Prop where
  severity : diagnostic.severity = .error
  code : diagnostic.code = "flowexpr.parse.error"
  message : diagnostic.message =
    "cannot resolve contract expression `" ++ unresolved.error.expression ++ "` of `" ++
      unresolved.method.name ++ "`"
  span : diagnostic.span = unresolved.method.tree.span
  remark : diagnostic.remark = unresolved.error.reason

theorem isShownBy_iff {unresolved : Unresolved} {diagnostic : Diagnostic} :
    unresolved.IsShownBy diagnostic ↔ diagnostic = unresolved.diagnostic := by
  constructor
  · obtain ⟨severity, code, message, span, remark⟩ := diagnostic
    rintro ⟨rfl, rfl, rfl, rfl, rfl⟩
    rfl
  · rintro rfl
    exact ⟨rfl, rfl, rfl, rfl, rfl⟩

/-- By method, then by expression. -/
def Before (a b : Unresolved) : Prop :=
  a.method.id.index < b.method.id.index ∨
    a.method.id = b.method.id ∧ a.expression < b.expression

private theorem before_of_compare {a b : Unresolved} (less : compare a.question b.question = .lt) :
    a.Before b := by
  rcases Ordering.then_eq_lt.1 less with sites | ⟨sites, expressions⟩
  · have methods : compare a.method.id b.method.id = .lt := sites
    exact .inl (Nat.compare_eq_lt.1 methods)
  · have same : a.question.site = b.question.site := Std.LawfulEqOrd.eq_of_compare sites
    exact .inr ⟨Site.declaration.inj same, compareOfLessAndEq_eq_lt.1 expressions⟩

end Unresolved

def fileAll (complaints : SortedMap Question Diagnostic) (found : List Unresolved) :
    SortedMap Question Diagnostic :=
  found.foldl (fun filed unresolved => filed.insertNew unresolved.question unresolved.diagnostic)
    complaints

theorem get?_fileAll (complaints : SortedMap Question Diagnostic) (found : List Unresolved)
    (question : Question) :
    (fileAll complaints found).get? question =
      (complaints.get? question).or
        ((found.find? fun unresolved => unresolved.question = question).map (·.diagnostic)) := by
  induction found generalizing complaints with
  | nil => simp [fileAll]
  | cons first found ih =>
    have filed := ih (complaints.insertNew first.question first.diagnostic)
    rw [SortedMap.get?_insertNew, Option.or_assoc] at filed
    refine filed.trans (congrArg (Option.or _) ?_)
    rw [List.find?_cons]
    by_cases same : first.question = question
    · simp [same]
    · simp [same, Ne.symm same]

/-- What is on file, as what was found first of each expression of each method. -/
private theorem exists_reports (found : List Unresolved) :
    ∃ reports : List Unresolved,
      (fileAll {} found).values = reports.map (·.diagnostic) ∧
      reports.Pairwise Unresolved.Before ∧
      ∀ unresolved, unresolved ∈ reports ↔
        found.find? (·.isAbout unresolved.method.id unresolved.expression) = some unresolved := by
  let first (question : Question) : Option Unresolved :=
    found.find? fun unresolved => unresolved.question = question
  have asked {question : Question} {unresolved : Unresolved}
      (isFirst : first question = some unresolved) : unresolved.question = question := by
    simpa using List.find?_some isFirst
  have filed (question : Question) :
      (fileAll {} found).get? question = (first question).map (·.diagnostic) :=
    (get?_fileAll {} found question).trans (Option.none_or)
  refine ⟨(fileAll {} found).keys.filterMap first, ?_, ?_, fun unresolved => ?_⟩
  -- each entry on file is the complaint about what was found first of its question
  · have each : ∀ entry ∈ (fileAll {} found).toList,
        (first entry.1).map (·.diagnostic) = some entry.2 := by
      intro entry member
      rw [← filed]
      exact (SortedMap.get?_eq_some_iff _ _ _).2 member
    rw [SortedMap.keys, List.filterMap_map, List.map_filterMap, SortedMap.values,
      ← List.filterMap_eq_map]
    exact (List.filterMap_congr each).symm
  · refine (fileAll {} found).keys_increasing.filterMap first ?_
    intro question other less a isA b isB
    refine Unresolved.before_of_compare ?_
    rw [asked isA, asked isB]
    exact less
  · have same : first unresolved.question =
        found.find? (·.isAbout unresolved.method.id unresolved.expression) := by
      refine congrArg (List.find? · found) (funext fun other => ?_)
      rw [Bool.eq_iff_iff, Unresolved.isAbout_iff, decide_eq_true_iff]
    rw [← same, List.mem_filterMap]
    constructor
    · rintro ⟨question, -, isFirst⟩
      rw [asked isFirst]
      exact isFirst
    · intro isFirst
      have present : (fileAll {} found).get? unresolved.question = some unresolved.diagnostic := by
        rw [filed, isFirst]
        rfl
      have member := (SortedMap.get?_eq_some_iff _ _ _).1 present
      exact ⟨unresolved.question, List.mem_map_of_mem member, isFirst⟩

namespace Analysis
open Run
variable (analysis : Analysis σ γ V)

/-- The error of a clause that the host supports, if its expression does not resolve: now, or when it
was resolved before. -/
def failure? (use : ClauseUse σ γ V κ S) (item : κ) (scope : Option γ) (m : Memory σ V) :
    Option ResolveError :=
  let asked := (ask (analysis.host.supports (use.clause item).qualifier)).run m
  if asked.1 then
    match (((analysis.resolve use.site use.build (use.clause item).expression).run scope).run
      asked.2).1.1 with
    | .ok _ => none
    | .error error => some error
  else none

def failures (use : ClauseUse σ γ V κ S) : List κ → S → Option γ → Memory σ V →
    List (κ × ResolveError)
  | [], _, _, _ => []
  | item :: items, state, scope, m =>
    let used := ((analysis.useClause use state item).run scope).run m
    ((analysis.failure? use item scope m).map (item, ·)).toList ++
      failures use items used.1.1 used.1.2 used.2

/-- The requirements that an entry of a method meets unresolved: after its parameters are declared,
one clause after the other. -/
def unresolvedAt (method : Method) (parameters : List Parameter) (m : Memory σ V) :
    List Unresolved :=
  let declared := StateT.run (do
    forgetCalls
    note (.entered method.name)
    analysis.enterParameters parameters (.empty analysis.assumptions)) m
  (analysis.failures (analysis.requirementUse method) (analysis.contracts method.id).requires.keys
    declared.1 none declared.2).map fun (clause, error) => ⟨method, clause.expression, error⟩

def unresolvedBy (request : Request V) (m : Memory σ V) : List Unresolved :=
  match request with
  | .enter (.method method) parameters => analysis.unresolvedAt method parameters m
  | _ => []

variable [Domain V] [DecidableEq V]

/-- The requirements met unresolved since complaints were last taken, beginning with those given. -/
def pending : List (Request V) → List Unresolved → Memory σ V → List Unresolved
  | [], found, _ => found
  | request :: requests, found, m =>
    let after := ((analysis.answer request).run m).2
    match request with
    | .takeComplaints => pending requests [] after
    | _ => pending requests (found ++ analysis.unresolvedBy request m) after

end Analysis

/-- Memories that differ at most in what was logged, with the given complaints on file. -/
structure Memory.Holding (complaints : SortedMap Question Diagnostic) (m n : Memory σ V) : Prop where
  host : m.host = n.host
  resolutions : m.resolutions = n.resolutions
  left : m.complaints = complaints
  right : n.complaints = complaints

namespace Analysis
open Run

private theorem shares_holding (complaints : SortedMap Question Diagnostic) :
    Shares (σ := σ) (V := V) (Memory.Holding complaints) where
  host same := same.host
  resolutions same := same.resolutions
  answer same _ := ⟨rfl, same.resolutions, same.left, same.right⟩
  remember same _ := ⟨same.host, rfl, same.left, same.right⟩
  log same _ _ := ⟨same.host, same.resolutions, same.left, same.right⟩

private theorem complaints_of_keeps {P : α → Prop} {run : Run σ V α}
    (keeps : ∀ complaints, Keeps (Memory.Holding complaints) (Memory.Holding complaints) P run)
    (m : Memory σ V) : (run.run m).2.complaints = m.complaints :=
  (keeps m.complaints m m ⟨rfl, rfl, rfl, rfl⟩).2.left

variable (analysis : Analysis σ γ V)

private theorem complaints_resolve (site : Site) (build : StateM σ γ) (expression : String)
    (known : Option γ) (m : Memory σ V) :
    (((analysis.resolve site build expression).run known).run m).2.complaints = m.complaints := by
  cases found : m.resolutions.get? ⟨site, expression⟩ with
  | some answer => rw [run_resolve_of_some found]
  | none => rw [run_resolve_of_none found]

variable [Domain V]

private theorem complaints_establish (store : Store V) (path : Path) (qualifier : String)
    (m : Memory σ V) :
    ((analysis.establish store path qualifier).run m).2.complaints = m.complaints :=
  complaints_of_keeps (fun complaints =>
    establish_keeps ((shares_holding complaints).respects analysis) Store.isInvariant_true trivial
      path qualifier) m

private theorem complaints_enterParameters (parameters : List Parameter) (start : Store V)
    (m : Memory σ V) :
    ((analysis.enterParameters parameters start).run m).2.complaints = m.complaints :=
  complaints_of_keeps (fun complaints =>
    enterParameters_keeps ((shares_holding complaints).respects analysis) Store.isInvariant_true
      trivial parameters) m

theorem complaints_step [DecidableEq V] (node : Node) (values : Id .node → Option V)
    (incoming : Flow V) (m : Memory σ V) :
    ((analysis.step node values incoming).run.run m).2.complaints = m.complaints :=
  complaints_of_keeps (fun complaints =>
    step_keeps ((shares_holding complaints).respects analysis) Store.isInvariant_true
      (fun _ _ => (shares_holding complaints).resolvesAlike analysis _ _)
      (fun _ => trivial) values) m

private theorem complaints_useClause (method : Method) (state : Store V) (clause : Clause)
    (scope : Option γ) (m : Memory σ V) :
    (((analysis.useClause (analysis.requirementUse method) state clause).run scope).run
      m).2.complaints =
      fileAll m.complaints
        ((analysis.failure? (analysis.requirementUse method) clause scope m).map
          (⟨method, clause.expression, ·⟩)).toList := by
  have resolving (m : Memory σ V) := analysis.complaints_resolve (.declaration method.id)
    (analysis.host.declarationScope method) clause.expression scope m
  rcases analysis.run_useClause_cases (analysis.requirementUse method) state clause scope m with
    ⟨unsupported, used⟩ | ⟨supported, path, resolved, used⟩ | ⟨supported, error, failed, used⟩
  · have nothing : analysis.failure? (analysis.requirementUse method) clause scope m = none := by
      simp [failure?, unsupported]
    rw [used, nothing]
    rfl
  · have nothing : analysis.failure? (analysis.requirementUse method) clause scope m = none := by
      simp [failure?, supported, resolved]
    rw [used, nothing]
    exact (analysis.complaints_establish state path clause.qualifier _).trans (resolving _)
  · have failure : analysis.failure? (analysis.requirementUse method) clause scope m =
        some error := by
      simp [failure?, supported, failed]
    rw [used, failure]
    exact congrArg (SortedMap.insertNew · _ _) (resolving _)

private theorem complaints_foldlM (method : Method) (clauses : List Clause) (state : Store V)
    (scope : Option γ) (m : Memory σ V) :
    (((clauses.foldlM (analysis.useClause (analysis.requirementUse method)) state).run scope).run
      m).2.complaints =
      fileAll m.complaints
        ((analysis.failures (analysis.requirementUse method) clauses state scope m).map
          fun (clause, error) => ⟨method, clause.expression, error⟩) := by
  induction clauses generalizing state scope m with
  | nil => rfl
  | cons clause clauses ih =>
    let used := ((analysis.useClause (analysis.requirementUse method) state clause).run scope).run m
    have first := analysis.complaints_useClause method state clause scope m
    have others := ih used.1.1 used.1.2 used.2
    rw [List.foldlM_cons]
    refine others.trans ?_
    rw [first, failures, List.map_append, fileAll, fileAll, fileAll, List.foldl_append]
    cases analysis.failure? (analysis.requirementUse method) clause scope m <;> rfl

variable [DecidableEq V]

theorem complaints_answer (request : Request V) (m : Memory σ V) :
    ((analysis.answer request).run m).2.complaints =
      match request with
      | .takeComplaints => {}
      | _ => fileAll m.complaints (analysis.unresolvedBy request m) := by
  cases request with
  | enter unit parameters =>
    cases unit with
    | other => rfl
    | method method =>
      let declared := StateT.run (do
        forgetCalls
        note (.entered method.name)
        analysis.enterParameters parameters (.empty analysis.assumptions)) m
      have kept : declared.2.complaints = m.complaints :=
        analysis.complaints_enterParameters parameters _ _
      change ((analysis.enterRequirements method declared.1).run declared.2).2.complaints = _
      rw [enterRequirements_eq]
      refine (analysis.complaints_foldlM method _ declared.1 none declared.2).trans ?_
      rw [kept]
      rfl
  | step node values incoming => exact analysis.complaints_step node values incoming m
  | takeComplaints => rfl

end Analysis

def Oracle.failure? (oracle : Oracle γ V) (resolution : String → Resolution) (clause : Clause) :
    Option ResolveError :=
  if oracle.supports clause.qualifier then
    match resolution clause.expression with
    | .ok _ => none
    | .error error => some error
  else none

def Oracle.unresolved (oracle : Oracle γ V) (contract : Contract)
    (resolution : String → Resolution) (method : Method) : List Unresolved :=
  contract.requires.keys.filterMap fun clause =>
    (oracle.failure? resolution clause).map (⟨method, clause.expression, ·⟩)

namespace Analysis
open Run

section Oracle
variable {analysis : Analysis σ γ V} {oracle : Oracle γ V}
variable (answers : analysis.host.AnswersBy oracle)
include answers

private theorem failure?_of_answersBy {method : Method} {resolution : String → Resolution}
    (clause : Clause) {scope : Option γ} {m : Memory σ V}
    (resolves : Resolves oracle (.declaration method.id) (oracle.declared method) resolution
      scope m) :
    analysis.failure? (analysis.requirementUse method) clause scope m =
      oracle.failure? resolution clause := by
  have supported := answers.supports clause.qualifier m.host
  have resolved := (resolve_yields answers (answers.declarationScope method) clause.expression
    scope ((ask (analysis.host.supports clause.qualifier)).run m).2 resolves).1
  rw [Oracle.failure?, ← supported, ← resolved]
  rfl

omit answers in
private theorem resolutions_establish (store : Store V) (path : Path) (qualifier : String)
    (m : Memory σ V) :
    ((analysis.establish store path qualifier).run m).2.resolutions = m.resolutions := by
  rw [run_establish]
  split
  · dsimp only
    split <;> rfl
  · rfl

private theorem resolves_useClause {method : Method} {resolution : String → Resolution}
    (state : Store V) (clause : Clause) {scope : Option γ} {m : Memory σ V}
    (resolves : Resolves oracle (.declaration method.id) (oracle.declared method) resolution
      scope m) :
    let used :=
      ((analysis.useClause (analysis.requirementUse method) state clause).run scope).run m
    Resolves oracle (.declaration method.id) (oracle.declared method) resolution
      used.1.2 used.2 := by
  dsimp only
  have resolving := (resolve_yields answers (answers.declarationScope method) clause.expression
    scope ((ask (analysis.host.supports clause.qualifier)).run m).2 resolves).2
  rcases analysis.run_useClause_cases (analysis.requirementUse method) state clause scope m with
    ⟨-, ended⟩ | ⟨-, path, -, ended⟩ | ⟨-, error, -, ended⟩
  · rw [ended]
    exact resolves
  · rw [ended]
    refine ⟨resolving.1, ?_⟩
    unfold Memory.ResolvesTo
    dsimp only
    rw [requirementUse, resolutions_establish]
    exact resolving.2
  · rw [ended]
    exact resolving

private theorem failures_of_answersBy {method : Method} {resolution : String → Resolution}
    (clauses : List Clause) (state : Store V) {scope : Option γ} {m : Memory σ V}
    (resolves : Resolves oracle (.declaration method.id) (oracle.declared method) resolution
      scope m) :
    analysis.failures (analysis.requirementUse method) clauses state scope m =
      clauses.filterMap fun clause =>
        (oracle.failure? resolution clause).map (clause, ·) := by
  induction clauses generalizing state scope m with
  | nil => rfl
  | cons clause clauses ih =>
    have first := failure?_of_answersBy answers clause resolves
    have after := resolves_useClause answers state clause resolves
    rw [failures, first, ih _ after, List.filterMap_cons]
    cases oracle.failure? resolution clause <;> rfl

private theorem enterParameters_yields {I : Memory σ V → Prop}
    (kept : ∀ m host, I m → I { m with host := host }) (parameters : List Parameter)
    (start : Store V) :
    Yields I (analysis.enterParameters parameters start)
      (parameters.foldl (fun store parameter =>
        store.bindParameter parameter.var (oracle.typeValue parameter.tree)) start) := by
  refine Yields.foldlM (fun store parameter => ?_) parameters start
  exact (typeValue_yields answers kept (some parameter.tree)).bind (.pure _)

theorem unresolvedAt_of_answersBy (method : Method) (parameters : List Parameter)
    (m : Memory σ V) :
    analysis.unresolvedAt method parameters m =
      oracle.unresolved (analysis.contracts method.id)
        (m.resolutions.resolution (.declaration method.id)
          (oracle.denoted · (oracle.declared method))) method := by
  let resolving : Memory σ V → Prop :=
    Memory.ResolvesTo oracle (.declaration method.id) (oracle.declared method)
      (m.resolutions.resolution (.declaration method.id)
        (oracle.denoted · (oracle.declared method)))
  have forgotten : Yields resolving forgetCalls () := forgetCalls_yields method.id _ _
  have noted : Yields resolving (note (.entered method.name)) () := fun _ holds => ⟨rfl, holds⟩
  have bound : Yields resolving
      (analysis.enterParameters parameters (.empty analysis.assumptions)) _ :=
    enterParameters_yields answers (fun _ _ => id) parameters _
  have declared : Yields resolving (do
      forgetCalls
      note (.entered method.name)
      analysis.enterParameters parameters (.empty analysis.assumptions)) _ :=
    forgotten.bind (noted.bind bound)
  unfold unresolvedAt
  dsimp only
  rw [failures_of_answersBy answers _ _ ⟨by simp, (declared m rfl).2⟩, Oracle.unresolved,
    List.map_filterMap]
  refine List.filterMap_congr fun clause _ => ?_
  rw [Option.map_map]
  rfl

end Oracle

variable (analysis : Analysis σ γ V) [Domain V] [DecidableEq V]

theorem complaints_session (requests : List (Request V)) (found : List Unresolved)
    (m : Memory σ V) (filed : m.complaints = fileAll {} found) :
    ((analysis.session requests).run m).2.complaints =
      fileAll {} (analysis.pending requests found m) := by
  induction requests generalizing found m with
  | nil => exact filed
  | cons request requests ih =>
    have answered := analysis.complaints_answer request m
    rw [run_session_cons]
    -- complaints taken start from nothing, other requests add to what was found
    have others (found' : List Unresolved) (now : ((analysis.answer request).run m).2.complaints =
        fileAll {} found') := ih found' _ now
    cases request with
    | takeComplaints => exact others [] answered
    | enter unit parameters | step node values incoming =>
      refine others _ (answered.trans ?_)
      rw [filed]
      exact (List.foldl_append ..).symm

/-- Complaints are taken in the order of methods, then expressions, one for each expression of each
method of which a requirement was met unresolved since they were taken before. Each is an error at
its method, which says what did not resolve when the expression was met first, and why. Steps, and
entries of code units that are not methods, leave what is on file. For a host that answers by
functions, the last part says which requirements an entry meets unresolved. -/
theorem session_reports (analysis : Analysis σ γ V) (state : σ) (resolutions : ResolutionMemory)
    (earlier later : List (Request V)) :
    let start : Memory σ V := { host := state, resolutions := resolutions }
    let answers := ((analysis.session (earlier ++ .takeComplaints :: later)).run start).1
    (∃ (reports : List Unresolved) (diagnostics : List Diagnostic),
      answers[earlier.length]? = some (.complaints diagnostics) ∧
      List.Forall₂ Unresolved.IsShownBy reports diagnostics ∧
      reports.Pairwise Unresolved.Before ∧
      ∀ unresolved, unresolved ∈ reports ↔
        (analysis.pending earlier [] start).find?
          (·.isAbout unresolved.method.id unresolved.expression) = some unresolved) ∧
    (∀ node values incoming memory,
      ((analysis.answer (.step node values incoming)).run memory).2.complaints =
        memory.complaints) ∧
    (∀ parameters memory,
      ((analysis.answer (.enter .other parameters)).run memory).2.complaints =
        memory.complaints) ∧
    ∀ oracle : Oracle γ V, analysis.host.AnswersBy oracle → ∀ method parameters memory,
      analysis.unresolvedAt method parameters memory =
        oracle.unresolved (analysis.contracts method.id)
          (memory.resolutions.resolution (.declaration method.id)
            (oracle.denoted · (oracle.declared method))) method := by
  intro start answers
  refine ⟨?_, analysis.complaints_step, fun _ _ => rfl, fun oracle functions method =>
    unresolvedAt_of_answersBy functions method⟩
  let first := (analysis.session earlier).run start
  have filed : first.2.complaints = fileAll {} (analysis.pending earlier [] start) :=
    analysis.complaints_session earlier [] start rfl
  have taken : answers[earlier.length]? = some (.complaints first.2.complaints.values) :=
    analysis.getElem?_session earlier .takeComplaints later start
  obtain ⟨reports, values, increasing, members⟩ :=
    exists_reports (analysis.pending earlier [] start)
  have shown : List.Forall₂ Unresolved.IsShownBy reports (reports.map (·.diagnostic)) :=
    List.forall₂_map_right_iff.2 (List.forall₂_same.2 fun _ _ => Unresolved.isShownBy_iff.2 rfl)
  refine ⟨reports, reports.map (·.diagnostic), ?_, shown, increasing, members⟩
  rw [taken, filed, values]

end Analysis

theorem Host.AnswersBy.recorded {host : Host σ γ V} {oracle : Oracle γ V}
    (answers : host.AnswersBy oracle) : host.recorded.AnswersBy oracle where
  typeValue tree recorded := answers.typeValue tree recorded.state
  boundValue tree recorded := answers.boundValue tree recorded.state
  supports qualifier recorded := answers.supports qualifier recorded.state
  meaning qualifier recorded := answers.meaning qualifier recorded.state
  declarationScope method recorded := answers.declarationScope method recorded.state
  callScope call recorded := answers.callScope call recorded.state
  resolve expression scope recorded := answers.resolve expression scope recorded.state
  fieldValues recorded := answers.fieldValues recorded.state
  isSideEffectFree method recorded := answers.isSideEffectFree method recorded.state

namespace Analysis

/-- Every method requires two qualifiers of an expression that denotes nothing, and a qualifier that
is not supported. -/
def vainAnalysis : Analysis (Recorded Unit) TableScope (Qualifier .diamond) where
  host := argumentHost
  contracts _ :=
    { requires := .ofList [(⟨"gone", "Left"⟩, ()), (⟨"gone", "Right"⟩, ()), (⟨"gone", "Odd"⟩, ())] }
  assumptions := {}

/-- A method entered again is complained of again, though the host is not asked again, and after the
method of the lower handle, though that is entered later. -/
theorem session_reports_again :
    let first : Method := ⟨⟨0⟩, "first", ⟨0⟩, false, ⟨⟨0⟩, ⟨0, 10, 17⟩, false⟩⟩
    let second : Method := ⟨⟨1⟩, "second", ⟨0⟩, false, ⟨⟨1⟩, ⟨0, 30, 42⟩, false⟩⟩
    let error : ResolveError := ⟨"gone", "unknown identifier"⟩
    let entry (method : Method) : Request (Qualifier .diamond) := .enter (.method method) []
    let earlier := [entry second, .takeComplaints, entry second, entry first, .enter .other []]
    let start : Memory (Recorded Unit) (Qualifier .diamond) := { host := ⟨(), []⟩ }
    let ended := (vainAnalysis.session (earlier ++ [.takeComplaints])).run start
    let reentered := (vainAnalysis.session [entry second, .takeComplaints]).run start
    let diagnostics : List Diagnostic :=
      [⟨.error, "flowexpr.parse.error", "cannot resolve contract expression `gone` of `first`",
          ⟨0, 10, 17⟩, "unknown identifier"⟩,
        ⟨.error, "flowexpr.parse.error", "cannot resolve contract expression `gone` of `second`",
          ⟨0, 30, 42⟩, "unknown identifier"⟩]
    ended.1[5]? = some (.complaints diagnostics) ∧
    ended.2.host.queries.count (.resolve "gone") = 2 ∧
    vainAnalysis.unresolvedAt second [] reentered.2 =
      [⟨second, "gone", error⟩, ⟨second, "gone", error⟩] ∧
    ∃ reports : List Unresolved, List.Forall₂ Unresolved.IsShownBy reports diagnostics ∧
      reports.Pairwise Unresolved.Before := by
  intro first second error entry earlier start ended reentered diagnostics
  obtain ⟨⟨reports, told, answered, shown, increasing, -⟩, -, -, unresolved⟩ :=
    vainAnalysis.session_reports ⟨(), []⟩ {} earlier []
  let table : HostTable (Qualifier .diamond) := { meaning := Hierarchy.diamond.qualifier? }
  have answers : vainAnalysis.host.AnswersBy table.oracle := table.answersBy_oracle.recorded
  have filed : ((vainAnalysis.session earlier).run start).2.complaints.values = diagnostics := by
    decide +kernel
  have taken : ended.1[5]? = some (.complaints diagnostics) := by
    refine (vainAnalysis.getElem?_session earlier .takeComplaints [] start).trans ?_
    exact congrArg (fun values => some (Answer.complaints values)) filed
  have same : told = diagnostics :=
    Answer.complaints.inj (Option.some.inj (answered.symm.trans taken))
  refine ⟨taken, by decide +kernel, ?_, reports, same ▸ shown, increasing⟩
  refine (unresolved _ answers _ _ _).trans ?_
  decide +kernel

end Analysis
end QualifierFlow
