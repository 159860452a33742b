import Mathlib.Data.List.Chain
import QualifierFlow.Hierarchy.Family
import QualifierFlow.Hierarchy.Order

/-! What the order of a hierarchy says of its declarations. One qualifier is below another exactly
when a lineage leads up to it: declared names, each listed as a supertype by some declaration of the
one before. So only the declared names and what is listed between them count. How the declarations
are ordered or split does not matter, nor which undeclared names they list. The same order is found
in the graph that has a node for every declaration, also those overruled by a later one. -/
namespace QualifierFlow

namespace Hierarchy

/-- Some declaration of the first name has the second one among its supertypes. -/
def Lists (H : Hierarchy) (sub sup : String) : Prop :=
  ∃ declaration ∈ H.declarations, declaration.name = sub ∧ sup ∈ declaration.supers

structure IsLineage (H : Hierarchy) (names : List String) : Prop where
  declared : ∀ name ∈ names, name ∈ H.names
  listed : names.IsChain H.Lists

/-- Both names are declared, and the first is below the second. -/
def Ranks (H : Hierarchy) (sub sup : String) : Prop :=
  ∃ a b, H.qualifier? sub = some a ∧ H.qualifier? sup = some b ∧ a ≤ b

/-- One declaration for each name, with all that the declarations of the name list. -/
def merged (H : Hierarchy) : Hierarchy where
  declarations := H.names.eraseDups.map fun name =>
    ⟨name, (H.declarations.filter (·.name == name)).flatMap (·.supers)⟩
  nonempty := by
    have first : H.top.name ∈ H.names.eraseDups := List.mem_eraseDups.2 H.top.declared
    simpa using List.ne_nil_of_mem first

/-- The same declarations without the undeclared names among their supertypes. -/
def pruned (H : Hierarchy) : Hierarchy where
  declarations := H.declarations.map fun declaration =>
    ⟨declaration.name, declaration.supers.filter H.contains⟩
  nonempty := by simpa using H.nonempty

/-- The node of a name is the position of its last declaration. -/
def node? (H : Hierarchy) (name : String) : Option Nat :=
  (H.qualifier? name).map (·.position)

/-- The edges that the declarations give, from first to last, between the nodes of declared names. -/
def edges (H : Hierarchy) : List (Nat × Nat) :=
  H.declarations.flatMap fun declaration => declaration.supers.filterMap fun sup => do
    return (← H.node? declaration.name, ← H.node? sup)

def successors (H : Hierarchy) (node : Nat) : List Nat :=
  (H.edges.filter (·.1 == node)).map (·.2)

end Hierarchy

variable {H K : Hierarchy}

namespace Qualifier

theorem eq_of_name_eq {a b : Qualifier H} (names : a.name = b.name) : a = b := by
  cases a
  cases b
  subst names
  rfl

theorem qualifier?_name (a : Qualifier H) : H.qualifier? a.name = some a := dif_pos a.declared

private theorem position_injective {a b : Qualifier H} (positions : a.position = b.position) :
    a = b := by
  have found : some a = some b := by
    rw [← a.atPosition?_position, ← b.atPosition?_position, positions]
  exact Option.some.inj found

end Qualifier

namespace Hierarchy

theorem qualifier?_eq_some_iff {name : String} {a : Qualifier H} :
    H.qualifier? name = some a ↔ a.name = name := by
  constructor
  · intro found
    unfold qualifier? at found
    split at found
    · cases found
      rfl
    · contradiction
  · rintro rfl
    exact a.qualifier?_name

theorem mem_names {name : String} : name ∈ H.names ↔ ∃ a : Qualifier H, a.name = name :=
  ⟨fun declared => ⟨⟨name, declared⟩, rfl⟩, fun ⟨a, named⟩ => named ▸ a.declared⟩

theorem IsLineage.cons {name next : String} {names : List String} (declared : name ∈ H.names)
    (listed : H.Lists name next) (lineage : H.IsLineage (next :: names)) :
    H.IsLineage (name :: next :: names) where
  declared := List.forall_mem_cons.2 ⟨declared, lineage.declared⟩
  listed := List.isChain_cons_cons.2 ⟨listed, lineage.listed⟩

theorem IsLineage.tail {name : String} {names : List String}
    (lineage : H.IsLineage (name :: names)) : H.IsLineage names where
  declared := (List.forall_mem_cons.1 lineage.declared).2
  listed := lineage.listed.tail

private theorem exists_lineage_of_reaches {a b : Qualifier H}
    (path : Closure.Reaches Qualifier.directSupers a b) :
    ∃ names, H.IsLineage (a.name :: names) ∧ (a.name :: names).getLast? = some b.name := by
  induction path with
  | refl a => exact ⟨[], ⟨by simpa using a.declared, List.isChain_singleton _⟩, rfl⟩
  | @step a b c edge _ ih =>
    obtain ⟨names, lineage, last⟩ := ih
    have listed : H.Lists a.name b.name := Qualifier.mem_directSupers.1 edge
    exact ⟨b.name :: names, lineage.cons a.declared listed, last⟩

private theorem reaches_of_lineage {a b : Qualifier H} {names : List String}
    (lineage : H.IsLineage (a.name :: names))
    (last : (a.name :: names).getLast? = some b.name) :
    Closure.Reaches Qualifier.directSupers a b := by
  induction names generalizing a with
  | nil =>
    have same : a = b := Qualifier.eq_of_name_eq (Option.some.inj last)
    exact same ▸ .refl a
  | cons name names ih =>
    obtain ⟨c, rfl⟩ := mem_names.1 (lineage.declared name (by simp))
    have listed : H.Lists a.name c.name := (List.isChain_cons_cons.1 lineage.listed).1
    exact .step (Qualifier.mem_directSupers.2 listed) (ih lineage.tail last)

theorem le_iff_exists_lineage {a b : Qualifier H} : a ≤ b ↔
    ∃ names, H.IsLineage names ∧ names.head? = some a.name ∧ names.getLast? = some b.name := by
  rw [Qualifier.le_iff_reaches]
  constructor
  · intro path
    obtain ⟨names, lineage, last⟩ := exists_lineage_of_reaches path
    exact ⟨a.name :: names, lineage, rfl, last⟩
  · rintro ⟨names, lineage, first, last⟩
    cases names with
    | nil => contradiction
    | cons name names =>
      obtain rfl : name = a.name := Option.some.inj first
      exact reaches_of_lineage lineage last

private theorem IsLineage.mono {names : List String} (lineage : H.IsLineage names)
    (declares : ∀ name ∈ H.names, name ∈ K.names)
    (lists : ∀ sub, ∀ sup ∈ H.names, H.Lists sub sup → K.Lists sub sup) : K.IsLineage names := by
  induction names with
  | nil => exact ⟨by simp, List.isChain_nil⟩
  | cons name names ih =>
    have here : name ∈ K.names := declares name (lineage.declared name (by simp))
    cases names with
    | nil => exact ⟨by simpa using here, List.isChain_singleton _⟩
    | cons next names =>
      have listed := (List.isChain_cons_cons.1 lineage.listed).1
      have known : next ∈ H.names := lineage.declared next (by simp)
      exact (ih lineage.tail).cons here (lists name next known listed)

private theorem Ranks.mono {sub sup : String} (ranks : H.Ranks sub sup)
    (declares : ∀ name ∈ H.names, name ∈ K.names)
    (lists : ∀ sub, ∀ sup ∈ H.names, H.Lists sub sup → K.Lists sub sup) : K.Ranks sub sup := by
  obtain ⟨a, b, first, second, below⟩ := ranks
  obtain rfl := qualifier?_eq_some_iff.1 first
  obtain rfl := qualifier?_eq_some_iff.1 second
  obtain ⟨names, lineage, head, last⟩ := le_iff_exists_lineage.1 below
  let c : Qualifier K := ⟨a.name, declares _ a.declared⟩
  let d : Qualifier K := ⟨b.name, declares _ b.declared⟩
  refine ⟨c, d, c.qualifier?_name, d.qualifier?_name, ?_⟩
  exact le_iff_exists_lineage.2 ⟨names, lineage.mono declares lists, head, last⟩

private theorem mem_names_merged {name : String} : name ∈ H.merged.names ↔ name ∈ H.names := by
  simp [names, merged, List.mem_eraseDups]

private theorem lists_merged {sub sup : String} : H.merged.Lists sub sup ↔ H.Lists sub sup := by
  simp only [Lists, merged, List.mem_map, List.mem_eraseDups]
  constructor
  · rintro ⟨_, ⟨name, _, rfl⟩, rfl, listed⟩
    obtain ⟨declaration, member, listed⟩ := List.mem_flatMap.1 listed
    obtain ⟨member, named⟩ := List.mem_filter.1 member
    exact ⟨declaration, member, by simpa using named, listed⟩
  · rintro ⟨declaration, member, rfl, listed⟩
    refine ⟨_, ⟨declaration.name, List.mem_map_of_mem member, rfl⟩, rfl, ?_⟩
    exact List.mem_flatMap.2 ⟨declaration, List.mem_filter.2 ⟨member, by simp⟩, listed⟩

private theorem ranks_merged {sub sup : String} : H.merged.Ranks sub sup ↔ H.Ranks sub sup := by
  constructor
  · intro ranks
    exact ranks.mono (fun _ => mem_names_merged.1) fun _ _ _ => lists_merged.1
  · intro ranks
    exact ranks.mono (fun _ => mem_names_merged.2) fun _ _ _ => lists_merged.2

private theorem mem_names_pruned {name : String} : name ∈ H.pruned.names ↔ name ∈ H.names := by
  simp [names, pruned]

private theorem lists_pruned {sub sup : String} :
    H.pruned.Lists sub sup ↔ H.Lists sub sup ∧ sup ∈ H.names := by
  simp only [Lists, pruned, List.mem_map]
  constructor
  · rintro ⟨_, ⟨declaration, member, rfl⟩, rfl, listed⟩
    obtain ⟨listed, declared⟩ := List.mem_filter.1 listed
    exact ⟨⟨declaration, member, rfl, listed⟩, by simpa [contains] using declared⟩
  · rintro ⟨⟨declaration, member, rfl, listed⟩, declared⟩
    refine ⟨_, ⟨declaration, member, rfl⟩, rfl, ?_⟩
    exact List.mem_filter.2 ⟨listed, by simpa [contains] using declared⟩

private theorem ranks_pruned {sub sup : String} : H.pruned.Ranks sub sup ↔ H.Ranks sub sup := by
  constructor
  · intro ranks
    exact ranks.mono (fun _ => mem_names_pruned.1) fun _ _ _ listed => (lists_pruned.1 listed).1
  · intro ranks
    exact ranks.mono (fun _ => mem_names_pruned.2) fun _ _ declared listed =>
      lists_pruned.2 ⟨listed, declared⟩

private theorem Ranks.perm {sub sup : String} (ranks : H.Ranks sub sup)
    (perm : H.declarations.Perm K.declarations) : K.Ranks sub sup := by
  apply ranks.mono
  · intro name declared
    exact (perm.map _).mem_iff.1 declared
  · rintro sub sup - ⟨declaration, member, named, listed⟩
    exact ⟨declaration, perm.mem_iff.1 member, named, listed⟩

private theorem mem_edges {i j : Nat} : (i, j) ∈ H.edges ↔
    ∃ a b : Qualifier H, b ∈ a.directSupers ∧ a.position = i ∧ b.position = j := by
  simp only [edges, node?, List.mem_flatMap, List.mem_filterMap]
  constructor
  · rintro ⟨declaration, member, sup, listed, joined⟩
    cases first : H.qualifier? declaration.name with
    | none => simp [first] at joined
    | some a =>
      cases second : H.qualifier? sup with
      | none => simp [second] at joined
      | some b =>
        obtain ⟨rfl, rfl⟩ : a.position = i ∧ b.position = j := by
          simpa [first, second] using joined
        obtain rfl := qualifier?_eq_some_iff.1 second
        have named := (qualifier?_eq_some_iff.1 first).symm
        exact ⟨a, b, Qualifier.mem_directSupers.2 ⟨declaration, member, named, listed⟩, rfl, rfl⟩
  · rintro ⟨a, b, edge, rfl, rfl⟩
    obtain ⟨declaration, member, named, listed⟩ := Qualifier.mem_directSupers.1 edge
    refine ⟨declaration, member, b.name, listed, ?_⟩
    simp [named, Qualifier.qualifier?_name]

private theorem mem_successors {a : Qualifier H} {node : Nat} :
    node ∈ H.successors a.position ↔ ∃ b ∈ a.directSupers, b.position = node := by
  simp only [successors, List.mem_map, List.mem_filter, beq_iff_eq]
  constructor
  · rintro ⟨⟨i, j⟩, ⟨edge, start⟩, rfl⟩
    obtain ⟨c, b, above, rfl, rfl⟩ := mem_edges.1 edge
    obtain rfl := Qualifier.position_injective start
    exact ⟨b, above, rfl⟩
  · rintro ⟨b, above, rfl⟩
    exact ⟨_, ⟨mem_edges.2 ⟨a, b, above, rfl, rfl⟩, rfl⟩, rfl⟩

theorem reaches_position_iff {a b : Qualifier H} :
    Closure.Reaches H.successors a.position b.position ↔
      Closure.Reaches Qualifier.directSupers a b := by
  constructor
  · intro path
    generalize start : a.position = i at path
    generalize stop : b.position = j at path
    induction path generalizing a with
    | refl i =>
      have same : a = b := Qualifier.position_injective (start.trans stop.symm)
      exact same ▸ .refl a
    | step edge _ ih =>
      subst start
      obtain ⟨c, above, rfl⟩ := mem_successors.1 edge
      exact .step above (ih rfl stop)
  · intro path
    induction path with
    | refl a => exact .refl a.position
    | step edge _ ih => exact .step (mem_successors.2 ⟨_, edge, rfl⟩) ih

/-- The order of a hierarchy, with cycles or without, is given by the lineages of its declarations,
and by the paths of the graph in which every declaration is a node. It is reflexive and transitive.
Declarations of one name count as one, undeclared supertypes do not count, and the order of the
declarations makes no difference. -/
theorem le_iff_lineage (H : Hierarchy) :
    (∀ a b : Qualifier H, a ≤ b ↔
      ∃ names, H.IsLineage names ∧ names.head? = some a.name ∧ names.getLast? = some b.name) ∧
    (∀ a b : Qualifier H, a ≤ b ↔ Closure.Reaches H.successors a.position b.position) ∧
    (∀ a : Qualifier H, a ≤ a) ∧ (∀ a b c : Qualifier H, a ≤ b → b ≤ c → a ≤ c) ∧
    (∀ sub sup, H.merged.Ranks sub sup ↔ H.Ranks sub sup) ∧
    (∀ sub sup, H.pruned.Ranks sub sup ↔ H.Ranks sub sup) ∧
    ∀ K : Hierarchy, K.declarations.Perm H.declarations →
      ∀ sub sup, K.Ranks sub sup ↔ H.Ranks sub sup := by
  refine ⟨fun _ _ => le_iff_exists_lineage, fun _ _ => ?_, Qualifier.le_refl,
    fun _ _ _ => Qualifier.le_trans, fun _ _ => ranks_merged, fun _ _ => ranks_pruned, ?_⟩
  · rw [Qualifier.le_iff_reaches, reaches_position_iff]
  · intro K perm sub sup
    exact ⟨fun ranks => ranks.perm perm, fun ranks => ranks.perm perm.symm⟩

/-- The two declarations of `A` lead up to `C`, which leads back through `B`. -/
def cyclic : Hierarchy where
  declarations := [⟨"Top", []⟩, ⟨"A", ["B", "Missing"]⟩, ⟨"B", ["A", "B"]⟩, ⟨"A", ["C", "C"]⟩,
    ⟨"C", ["B"]⟩]
  nonempty := by simp

theorem le_iff_lineage_cyclic :
    let K : Hierarchy := ⟨cyclic.declarations.reverse, by decide⟩
    K.declarations.Perm cyclic.declarations ∧ K.Ranks "B" "C" ∧
      cyclic.successors 3 = [2, 4, 4] ∧ cyclic.successors 1 = [] := by
  intro K
  obtain ⟨lineages, -, -, -, -, -, perms⟩ := cyclic.le_iff_lineage
  have perm : K.declarations.Perm cyclic.declarations := List.reverse_perm _
  let b : Qualifier cyclic := ⟨"B", by decide⟩
  let c : Qualifier cyclic := ⟨"C", by decide⟩
  have lineage : cyclic.IsLineage ["B", "A", "C"] := by
    refine ⟨by decide, ?_⟩
    simp [Lists, cyclic]
  have below : b ≤ c := (lineages b c).2 ⟨_, lineage, rfl, rfl⟩
  have ranks : cyclic.Ranks "B" "C" := ⟨b, c, b.qualifier?_name, c.qualifier?_name, below⟩
  exact ⟨perm, (perms K perm "B" "C").2 ranks, by decide +kernel, by decide +kernel⟩

end Hierarchy
end QualifierFlow
