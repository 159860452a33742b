/-! What can be reached in a finite graph that is given by the successors of a node: nodes are
collected in rounds, each of which looks at the successors of the nodes new in the last one. As many
rounds as there are nodes find exactly what is reachable. -/
namespace QualifierFlow.Closure
variable {α : Type}

inductive Reaches (next : α → List α) : α → α → Prop
  | refl (a : α) : Reaches next a a
  | step {a b c : α} : b ∈ next a → Reaches next b c → Reaches next a c

theorem Reaches.trans {next : α → List α} {a b c : α} (first : Reaches next a b)
    (second : Reaches next b c) : Reaches next a c := by
  induction first with
  | refl => exact second
  | step edge _ ih => exact .step edge (ih second)

/-- A chain between two different nodes ends with a step from a third one or from the start. -/
theorem Reaches.last_step {next : α → List α} {a c : α} (path : Reaches next a c)
    (apart : a ≠ c) : ∃ b, Reaches next a b ∧ c ∈ next b ∧ b ≠ c := by
  induction path with
  | refl => exact absurd rfl apart
  | @step a b c edge rest ih =>
    by_cases direct : b = c
    · exact ⟨a, .refl a, direct ▸ edge, apart⟩
    · obtain ⟨before, reached, last, different⟩ := ih direct
      exact ⟨before, .step edge reached, last, different⟩

variable [DecidableEq α]

def discover (next : α → List α) (seen frontier : List α) : List α :=
  ((frontier.flatMap next).filter fun node => !seen.contains node).eraseDups

def expand (next : α → List α) : Nat → List α → List α → List α
  | 0, seen, _ => seen
  | rounds + 1, seen, frontier =>
    match discover next seen frontier with
    | [] => seen
    | found => expand next rounds (seen ++ found) found

/-- The nodes reached from a start, nearest first. -/
def reachable (next : α → List α) (rounds : Nat) (start : α) : List α :=
  expand next rounds [start] [start]

private theorem mem_discover {next : α → List α} {seen frontier : List α} {node : α} :
    node ∈ discover next seen frontier ↔ (∃ a ∈ frontier, node ∈ next a) ∧ node ∉ seen := by
  simp [discover, List.mem_eraseDups]

private theorem eraseDups_nodup (l : List α) : l.eraseDups.Nodup := by
  generalize size : l.length = n
  induction n using Nat.strongRecOn generalizing l with
  | ind n ih =>
    cases l with
    | nil => simp
    | cons a rest =>
      rw [List.eraseDups_cons, List.nodup_cons]
      refine ⟨by simp [List.mem_eraseDups], ih _ ?_ _ rfl⟩
      have := List.length_filter_le (fun b => !b == a) rest
      simp only [List.length_cons] at size
      omega

private theorem length_le_of_nodup {l nodes : List α} (nodup : l.Nodup)
    (within : ∀ a ∈ l, a ∈ nodes) : l.length ≤ nodes.length := by
  induction l generalizing nodes with
  | nil => simp
  | cons a rest ih =>
    obtain ⟨fresh, nodup⟩ := List.nodup_cons.1 nodup
    have member := within a (by simp)
    have later : rest.length ≤ (nodes.erase a).length := ih nodup fun b inRest => by
      have apart : b ≠ a := fun same => fresh (same ▸ inRest)
      exact (List.mem_erase_of_ne apart).2 (within b (by simp [inRest]))
    rw [List.length_erase_of_mem member] at later
    have := List.length_pos_of_mem member
    simp only [List.length_cons]
    omega

/-- What holds between two rounds: nothing is listed twice, and the successors of the nodes behind
the frontier are seen. -/
private structure Progress (next : α → List α) (seen frontier : List α) : Prop where
  nodup : seen.Nodup
  frontier_seen : ∀ a ∈ frontier, a ∈ seen
  behind : ∀ a ∈ seen, a ∉ frontier → ∀ b ∈ next a, b ∈ seen

omit [DecidableEq α] in
private theorem Progress.start (next : α → List α) (a : α) : Progress next [a] [a] where
  nodup := by simp
  frontier_seen := by simp
  behind := by simp

private theorem Progress.advance {next : α → List α} {seen frontier : List α}
    (progress : Progress next seen frontier) :
    Progress next (seen ++ discover next seen frontier) (discover next seen frontier) where
  nodup := by
    refine List.nodup_append.2 ⟨progress.nodup, eraseDups_nodup _, fun a old b new same => ?_⟩
    exact (mem_discover.1 (same ▸ new)).2 old
  frontier_seen a new := by simp [new]
  behind a member settled b successor := by
    rw [List.mem_append] at member ⊢
    by_cases known : b ∈ seen
    · exact .inl known
    · have old := member.resolve_right settled
      by_cases edge : a ∈ frontier
      · exact .inr (mem_discover.2 ⟨⟨a, edge, successor⟩, known⟩)
      · exact absurd (progress.behind a old edge b successor) known

private theorem expand_nodup {next : α → List α} {rounds : Nat} {seen frontier : List α}
    (progress : Progress next seen frontier) : (expand next rounds seen frontier).Nodup := by
  fun_induction expand next rounds seen frontier with
  | case1 => exact progress.nodup
  | case2 => exact progress.nodup
  | case3 rounds seen frontier _ ih => exact ih progress.advance

theorem reachable_nodup (next : α → List α) (rounds : Nat) (start : α) :
    (reachable next rounds start).Nodup :=
  expand_nodup (Progress.start next start)

private theorem subset_expand (next : α → List α) (rounds : Nat) (seen frontier : List α) :
    ∀ a ∈ seen, a ∈ expand next rounds seen frontier := by
  fun_induction expand next rounds seen frontier with
  | case1 => simp
  | case2 => simp
  | case3 rounds seen frontier _ ih => exact fun a member => ih a (by simp [member])

private theorem expand_sound {next : α → List α} {rounds : Nat} {seen frontier : List α} {start : α}
    (reached : ∀ a ∈ seen, Reaches next start a) (frontier_seen : ∀ a ∈ frontier, a ∈ seen) :
    ∀ a ∈ expand next rounds seen frontier, Reaches next start a := by
  fun_induction expand next rounds seen frontier with
  | case1 => exact reached
  | case2 => exact reached
  | case3 rounds seen frontier _ ih =>
    refine ih (fun a member => ?_) (fun a new => by simp [new])
    rcases List.mem_append.1 member with old | new
    · exact reached a old
    · obtain ⟨⟨b, edge, successor⟩, _⟩ := mem_discover.1 new
      exact (reached b (frontier_seen b edge)).trans (.step successor (.refl a))

private theorem expand_closed {next : α → List α} {rounds : Nat} {seen frontier : List α}
    {nodes : List α} (closed : ∀ a ∈ nodes, ∀ b ∈ next a, b ∈ nodes)
    (within : ∀ a ∈ seen, a ∈ nodes) (progress : Progress next seen frontier)
    (enough : nodes.length < rounds + seen.length) :
    ∀ a ∈ expand next rounds seen frontier, ∀ b ∈ next a,
      b ∈ expand next rounds seen frontier := by
  fun_induction expand next rounds seen frontier with
  | case1 seen frontier =>
    have := length_le_of_nodup progress.nodup within
    omega
  | case2 rounds seen frontier none =>
    intro a member b successor
    by_cases edge : a ∈ frontier
    · refine Decidable.byContradiction fun unknown => ?_
      have := mem_discover.2 ⟨⟨a, edge, successor⟩, unknown⟩
      simp [none] at this
    · exact progress.behind a member edge b successor
  | case3 rounds seen frontier some ih =>
    refine ih (fun a member => ?_) progress.advance ?_
    · rcases List.mem_append.1 member with old | new
      · exact within a old
      · obtain ⟨⟨b, edge, successor⟩, _⟩ := mem_discover.1 new
        exact closed b (within b (progress.frontier_seen b edge)) a successor
    · have := List.length_pos_iff.2 some
      simp only [List.length_append]
      omega

theorem mem_reachable_iff {next : α → List α} {rounds : Nat} {nodes : List α} {start a : α}
    (closed : ∀ a ∈ nodes, ∀ b ∈ next a, b ∈ nodes) (member : start ∈ nodes)
    (enough : nodes.length ≤ rounds) :
    a ∈ reachable next rounds start ↔ Reaches next start a := by
  refine ⟨expand_sound (by simp [Reaches.refl]) (by simp) a, fun path => ?_⟩
  have settled := expand_closed closed (by simpa using member) (Progress.start next start)
    (by simpa using Nat.lt_succ_of_le enough)
  have inside : start ∈ expand next rounds [start] [start] := subset_expand _ _ _ _ _ (by simp)
  unfold reachable
  generalize expand next rounds [start] [start] = found at settled inside
  induction path with
  | refl => exact inside
  | step edge _ ih => exact ih (closed _ member _ edge) (settled _ inside _ edge)

end QualifierFlow.Closure
