import Mathlib.Data.Finset.Dedup
import Mathlib.Data.Finset.Card
import Mathlib.Data.List.DropRight
import QualifierFlow.Proofs.Analysis.ClauseRuns

/-! What a memory of resolutions remembers, said by its history. A question is resolved exactly if it
was not asked before, for a call since the calls were last forgotten, and it is answered by what was
found when it was last resolved, failures included. -/
namespace QualifierFlow
variable {τ : Type}

/-- What can be done with a memory of resolutions. A question comes with a way to resolve it, whose
results may depend on a state and change it. -/
inductive Access (τ : Type)
  | consult (question : Question) (resolve : StateM τ Resolution)
  | forgetCalls

def Access.question? : Access τ → Option Question
  | .consult question _ => some question
  | .forgetCalls => none

/-- What came of an access: to a question, all that was found by resolving it now, and the answer. -/
inductive Reply
  | answered (question : Question) (found : List Resolution) (answer : Resolution)
  | forgot
  deriving DecidableEq

namespace Reply

def question? : Reply → Option Question
  | .answered question _ _ => some question
  | .forgot => none

def foundFor (question : Question) : Reply → List Resolution
  | .answered asked found _ => if asked = question then found else []
  | .forgot => []

def asked (history : List Reply) : List Question := history.filterMap question?

def sinceForgetting (history : List Reply) : List Reply :=
  history.rtakeWhile (·.question?.isSome)

/-- The questions to be remembered: those about declarations, and those about calls that were asked
since calls were last forgotten. -/
def live (history : List Reply) : List Question :=
  (asked history).filter (!·.site.isCall) ++ (asked (sinceForgetting history)).filter (·.site.isCall)

def findings (history : List Reply) (question : Question) : List Resolution :=
  history.flatMap (foundFor question)

variable {history : List Reply} {question : Question} {found : List Resolution}
variable {answer : Resolution}

theorem mem_live : question ∈ live history ↔
    question ∈ asked (if question.site.isCall then sinceForgetting history else history) := by
  cases call : question.site.isCall <;> simp [live, call]

private theorem mem_asked_append {other : Question} :
    other ∈ asked (history ++ [.answered question found answer]) ↔
      other = question ∨ other ∈ asked history := by
  simp [asked, question?, or_comm]

private theorem mem_live_answered {other : Question} :
    other ∈ live (history ++ [.answered question found answer]) ↔
      other = question ∨ other ∈ live history := by
  have since : sinceForgetting (history ++ [.answered question found answer]) =
      sinceForgetting history ++ [.answered question found answer] :=
    List.rtakeWhile_concat_pos _ _ _ rfl
  rw [mem_live, mem_live, since]
  cases other.site.isCall <;> exact mem_asked_append

private theorem mem_live_forgot {other : Question} :
    other ∈ live (history ++ [.forgot]) ↔ other.site.isCall = false ∧ other ∈ live history := by
  have since : sinceForgetting (history ++ [.forgot]) = [] :=
    List.rtakeWhile_concat_neg _ _ _ (by simp [question?])
  rw [mem_live, mem_live, since]
  cases other.site.isCall <;> simp [asked, question?]

private theorem findings_answered_self :
    findings (history ++ [.answered question found answer]) question =
      findings history question ++ found := by
  simp [findings, foundFor]

private theorem findings_answered_of_ne {other : Question} (apart : other ≠ question) :
    findings (history ++ [.answered question found answer]) other = findings history other := by
  simp [findings, foundFor, apart.symm]

private theorem findings_answered_nil {other : Question} :
    findings (history ++ [.answered question [] answer]) other = findings history other := by
  simp [findings, foundFor]

private theorem findings_forgot :
    findings (history ++ [.forgot]) question = findings history question := by
  simp [findings, foundFor]

/-- The question was resolved exactly if it was new, and the answer is the last that was found. -/
def Fits (history : List Reply) : Reply → Prop
  | .answered question found answer =>
    found = (if question ∈ live history then [] else [answer]) ∧
      (findings (history ++ [.answered question found answer]) question).getLast? = some answer
  | .forgot => True

end Reply

namespace ResolutionMemory
open Reply

/-- Resolves, and keeps a list of what was found. -/
def noting (resolve : StateM τ Resolution) : StateT (List Resolution) (StateM τ) Resolution := do
  let found ← resolve
  modify (· ++ [found])
  return found

def perform (memory : ResolutionMemory) : Access τ → StateM τ (Reply × ResolutionMemory)
  | .consult question resolve => do
    let ((answer, memory), found) ← (memory.consult question (noting resolve)).run []
    return (.answered question found answer, memory)
  | .forgetCalls => return (.forgot, memory.forgetCalls)

def extend (past : List Reply × ResolutionMemory) (access : Access τ) :
    StateM τ (List Reply × ResolutionMemory) := do
  let (reply, memory) ← past.2.perform access
  return (past.1 ++ [reply], memory)

/-- The replies to accesses from the start, one after the other, and the memory that these leave. -/
def performAll (accesses : List (Access τ)) : StateM τ (List Reply × ResolutionMemory) :=
  accesses.foldlM extend ([], {})

private theorem run_perform_of_some {memory : ResolutionMemory} {question : Question}
    {known : Resolution} (remembered : memory.get? question = some known)
    (resolve : StateM τ Resolution) (state : τ) :
    (memory.perform (.consult question resolve)).run state =
      ((.answered question [] known, memory), state) := by
  simp only [perform, consult_of_some remembered]
  rfl

private theorem run_perform_of_none {memory : ResolutionMemory} {question : Question}
    (unknown : memory.get? question = none) (resolve : StateM τ Resolution) (state : τ) :
    (memory.perform (.consult question resolve)).run state =
      let resolved := resolve.run state
      ((.answered question [resolved.1] resolved.1, memory.remember question resolved.1),
        resolved.2) := by
  simp only [perform, consult_of_none unknown]
  rfl

/-- The memory has what should be remembered after a history, each question with what was found for
it last. -/
structure Follows (memory : ResolutionMemory) (history : List Reply) : Prop where
  retains : memory.retains = true
  known (question : Question) : (memory.get? question).isSome = true ↔ question ∈ live history
  latest (question : Question) (answer : Resolution) : memory.get? question = some answer →
    (findings history question).getLast? = some answer

namespace Follows

private theorem start : Follows {} [] := ⟨rfl, fun _ => iff_of_false nofun nofun, nofun⟩

variable {memory : ResolutionMemory} {history : List Reply} (follows : memory.Follows history)
include follows

private theorem answered_of_some {question : Question} {answer : Resolution}
    (remembered : memory.get? question = some answer) :
    Fits history (.answered question [] answer) ∧
      memory.Follows (history ++ [.answered question [] answer]) := by
  have asked : question ∈ live history := (follows.known question).1 (by simp [remembered])
  refine ⟨⟨by rw [if_pos asked], ?_⟩, follows.retains, fun other => ?_, fun other known found => ?_⟩
  · rw [findings_answered_nil]
    exact follows.latest question answer remembered
  · rw [mem_live_answered, follows.known]
    exact ⟨.inr, fun recent => recent.elim (fun own => own ▸ asked) id⟩
  · rw [findings_answered_nil]
    exact follows.latest other known found

private theorem answered_of_none {question : Question} (unknown : memory.get? question = none)
    (answer : Resolution) :
    Fits history (.answered question [answer] answer) ∧
      (memory.remember question answer).Follows (history ++ [.answered question [answer] answer]) := by
  have fresh : question ∉ live history := fun asked => by
    have known := (follows.known question).2 asked
    simp [unknown] at known
  have found : (findings (history ++ [.answered question [answer] answer]) question).getLast? =
      some answer := by
    rw [findings_answered_self, List.getLast?_concat]
  have after (other : Question) : (memory.remember question answer).get? other =
      if other = question then some answer else memory.get? other := by
    simp [get?_remember_eq, follows.retains]
  refine ⟨⟨by rw [if_neg fresh], found⟩, ?_, fun other => ?_, fun other known recalled => ?_⟩
  · simp [remember, follows.retains]
  · rw [after, mem_live_answered, ← follows.known]
    by_cases own : other = question <;> simp [own]
  · rw [after] at recalled
    by_cases own : other = question
    · rw [if_pos own] at recalled
      rw [own, found, recalled]
    · rw [if_neg own] at recalled
      rw [findings_answered_of_ne own]
      exact follows.latest other known recalled

private theorem forgetCalls : memory.forgetCalls.Follows (history ++ [.forgot]) := by
  refine ⟨follows.retains, fun other => ?_, fun other answer recalled => ?_⟩
  · rw [get?_forgetCalls, mem_live_forgot, ← follows.known]
    cases other.site.isCall <;> simp
  · rw [get?_forgetCalls] at recalled
    split at recalled
    · contradiction
    · rw [findings_forgot]
      exact follows.latest other answer recalled

theorem perform (access : Access τ) (state : τ) :
    let performed := ((memory.perform access).run state).1
    performed.1.question? = access.question? ∧ Fits history performed.1 ∧
      performed.2.Follows (history ++ [performed.1]) := by
  cases access with
  | consult question resolve =>
    cases remembered : memory.get? question with
    | some answer =>
      rw [run_perform_of_some remembered]
      exact ⟨rfl, follows.answered_of_some remembered⟩
    | none =>
      rw [run_perform_of_none remembered]
      exact ⟨rfl, follows.answered_of_none remembered _⟩
  | forgetCalls => exact ⟨rfl, trivial, follows.forgetCalls⟩

private theorem size_eq : memory.size = (live history).toFinset.card := by
  have same : memory.answers.keys.toFinset = (live history).toFinset := by
    ext question
    rw [List.mem_toFinset, List.mem_toFinset, SortedMap.mem_keys]
    exact follows.known question
  rw [← same, List.toFinset_card_of_nodup memory.answers.keys_nodup, SortedMap.length_keys]
  rfl

end Follows

/-- The history replies to these questions, each reply fits what came before it, and the memory has
what the history leaves. -/
structure Records (questions : List (Option Question)) (past : List Reply × ResolutionMemory) :
    Prop where
  questions : past.1.map question? = questions
  fits : ∀ earlier reply, earlier ++ [reply] <+: past.1 → Fits earlier reply
  follows : past.2.Follows past.1

private theorem Records.extend {questions : List (Option Question)}
    {past : List Reply × ResolutionMemory} (records : Records questions past) (access : Access τ)
    (state : τ) :
    Records (questions ++ [access.question?]) ((extend past access).run state).1 := by
  let performed := ((past.2.perform access).run state).1
  obtain ⟨question, fits, follows⟩ := records.follows.perform access state
  refine ⟨?_, fun earlier reply within => ?_, follows⟩
  · change (past.1 ++ [performed.1]).map question? = _
    rw [List.map_append, records.questions, List.map_singleton, question]
  · rcases List.prefix_concat_iff.1 within with whole | before
    · obtain ⟨rfl, last⟩ := List.append_inj' whole rfl
      obtain rfl := List.singleton_inj.1 last
      exact fits
    · exact records.fits earlier reply before

theorem Records.foldlM {questions : List (Option Question)} {past : List Reply × ResolutionMemory}
    (records : Records questions past) (accesses : List (Access τ)) (state : τ) :
    Records (questions ++ accesses.map Access.question?)
      ((accesses.foldlM ResolutionMemory.extend past).run state).1 := by
  induction accesses generalizing questions past state with
  | nil =>
    rw [List.map_nil, List.append_nil]
    exact records
  | cons access accesses ih =>
    have extended := records.extend access state
    rw [List.foldlM_cons, List.map_cons, ← List.singleton_append, ← List.append_assoc]
    exact ih extended _

/-- In any sequence of accesses from the start, an expression is resolved for a site exactly if that
was not asked before: since the start at a declaration, since calls were last forgotten at a call.
The answer is what was found for it last. As many questions are remembered as were asked since
then. -/
theorem performAll_remembers_live (accesses : List (Access τ)) (state : τ) :
    let past := ((performAll accesses).run state).1
    let history := past.1
    let memory := past.2
    history.map question? = accesses.map Access.question? ∧
    (∀ earlier question found answer, earlier ++ [.answered question found answer] <+: history →
      found = (if question ∈ live earlier then [] else [answer]) ∧
      (findings (earlier ++ [.answered question found answer]) question).getLast? = some answer) ∧
    memory.size = (live history).toFinset.card ∧
    (memory.isEmpty = true ↔ memory.size = 0) := by
  have start : Records [] ([], {}) := ⟨rfl, fun earlier reply within => by simp at within, .start⟩
  have records : Records (accesses.map Access.question?) ((performAll accesses).run state).1 :=
    start.foldlM accesses state
  intro past history memory
  refine ⟨records.questions, fun earlier question found answer within => ?_,
    records.follows.size_eq, SortedMap.isEmpty_iff_size_eq_zero _⟩
  exact records.fits earlier (.answered question found answer) within

def wavering (question : Question) : Access Nat :=
  .consult question fun n => (.ok (.self ⟨n⟩), n + 1)

/-- A call is asked about twice, then once more after it was forgotten, a declaration before and
after that. -/
theorem performAll_remembers_live_wavering :
    let declared : Question := ⟨.declaration ⟨0⟩, "this"⟩
    let called : Question := ⟨.call ⟨4⟩ ⟨0⟩, "this"⟩
    let second : Resolution := .ok (.self ⟨1⟩)
    let third : Resolution := .ok (.self ⟨2⟩)
    let accesses : List (Access Nat) :=
      [wavering declared, wavering called, wavering called, .forgetCalls, wavering called,
        wavering declared]
    let past := ((performAll accesses).run 0).1
    past.1.take 4 ++ [.answered called [third] third] <+: past.1 ∧
      called ∉ live (past.1.take 4) ∧ past.1[2]? = some (.answered called [] second) ∧
      (findings (past.1.take 4 ++ [.answered called [third] third]) called).getLast? =
        some third ∧
      past.2.size = 2 := by
  intro declared called second third accesses past
  have history : past.1 = [.answered declared [.ok (.self ⟨0⟩)] (.ok (.self ⟨0⟩)),
      .answered called [second] second, .answered called [] second, .forgot,
      .answered called [third] third, .answered declared [] (.ok (.self ⟨0⟩))] := by
    decide +kernel
  -- What was run is known now; from here on it need not be looked into.
  clear_value accesses
  have again : past.1.take 4 ++ [.answered called [third] third] <+: past.1 := by
    rw [history]
    exact ⟨[.answered declared [] (.ok (.self ⟨0⟩))], rfl⟩
  obtain ⟨-, fits, size, -⟩ := performAll_remembers_live accesses 0
  obtain ⟨resolved, latest⟩ := fits _ _ _ _ again
  have fresh : called ∉ live (past.1.take 4) := fun asked => by
    rw [if_pos asked] at resolved
    contradiction
  refine ⟨again, fresh, by rw [history]; rfl, latest, size.trans ?_⟩
  change (live past.1).toFinset.card = 2
  rw [history]
  decide +kernel

end ResolutionMemory
end QualifierFlow
