import Mathlib.Data.Set.Finite.Basic
import Mathlib.Logic.Relation
import Mathlib.Order.WellFounded
import NodeMaterial.Proofs.GraphOperations

/-!
# Paths and cycles

A step of a graph is an edge between two of its nodes, without the sockets; a path
is a chain of steps.  A graph is acyclic if no chain of steps leads back to where it
started.

There are three ways in which the passes change the steps of a graph and keep it
acyclic: every new step shortens an old chain, the new steps start at a node into
which none leads, or two nodes that no path connects become one.  The other way round,
a graph is acyclic if it becomes so when steps through a node are taken as single steps.

A node behind a cycle is fed by another such node; from every other node the way back
comes to an end.
-/

namespace NodeMaterial.Graph

open Relation

/-- An edge leads from one node of a graph to another. -/
def Step (graph : Graph) (first second : NodeId) : Prop :=
  graph.contains first = true ∧ graph.contains second = true ∧
    ∃ edge ∈ graph.edges, edge.source = first ∧ edge.target = second

/-- A path leads from one node to another, perhaps the empty one. -/
def Reaches (graph : Graph) : NodeId → NodeId → Prop :=
  ReflTransGen graph.Step

/-- No path leads from a node back to it, except for the empty one. -/
def Acyclic (graph : Graph) : Prop :=
  ∀ id, ¬ TransGen graph.Step id id

variable {graph other : Graph}

theorem Step.source_present {first second : NodeId} (step : graph.Step first second) :
    graph.contains first = true :=
  step.1

theorem Step.target_present {first second : NodeId} (step : graph.Step first second) :
    graph.contains second = true :=
  step.2.1

/-- A path to a node starts at a node. -/
theorem Reaches.source_present
    {first second : NodeId} (path : graph.Reaches first second)
    (present : graph.contains second = true) :
    graph.contains first = true := by
  rcases ReflTransGen.cases_head path with rfl | ⟨middle, step, -⟩
  · exact present
  · exact step.source_present

/-- A path has both of its ends in the graph, or none. -/
theorem Reaches.present_iff {first second : NodeId} (path : graph.Reaches first second) :
    graph.contains first = true ↔ graph.contains second = true := by
  refine ⟨fun present => ?_, path.source_present⟩
  rcases ReflTransGen.cases_tail path with same | ⟨last, -, step⟩
  · rwa [same]
  · exact step.target_present

/-! ## Acyclic graphs -/

/-- An acyclic graph has no edge from a node to itself. -/
theorem Acyclic.source_ne_target
    (acyclic : graph.Acyclic) {edge : Edge} (member : edge ∈ graph.edges)
    (present : graph.contains edge.source = true) :
    edge.source ≠ edge.target := by
  intro loop
  exact acyclic edge.source (.single ⟨present, present, edge, member, rfl, loop.symm⟩)

/-- A graph whose steps shorten chains of an acyclic graph is acyclic. -/
theorem Acyclic.of_shortcuts
    (acyclic : graph.Acyclic)
    (shortcut : ∀ first second, other.Step first second → TransGen graph.Step first second) :
    other.Acyclic :=
  fun id cycle => acyclic id (TransGen.closed shortcut id id cycle)

/-- A graph is acyclic if it is so when steps through a node are taken as single steps. -/
theorem Acyclic.of_subdivided
    (acyclic : graph.Acyclic) (via : NodeId)
    (steps : ∀ first second, first ≠ via → second ≠ via → other.Step first second →
      graph.Step first second)
    (through : ∀ first second, other.Step first via → other.Step via second →
      graph.Step first second)
    (noLoop : ¬ other.Step via via) :
    other.Acyclic := by
  -- A path from the node itself is one from each node before it.
  have shortened : ∀ {first second}, TransGen other.Step first second → second ≠ via →
      (first ≠ via → TransGen graph.Step first second) ∧
        (first = via → ∀ before, other.Step before via → TransGen graph.Step before second) := by
    intro first second path away
    induction path using TransGen.head_induction_on with
    | single step =>
        refine ⟨fun firstAway => .single (steps _ _ firstAway away step), ?_⟩
        rintro rfl before into
        exact .single (through before _ into step)
    | head step path induction =>
        rename_i start middle
        constructor
        · intro startAway
          by_cases isVia : middle = via
          · exact induction.2 isVia start (isVia ▸ step)
          · exact .head (steps _ _ startAway isVia step) (induction.1 isVia)
        · rintro rfl before into
          have middleAway : middle ≠ start := by
            rintro rfl
            exact noLoop step
          exact .head (through before middle into step) (induction.1 middleAway)
  intro id cycle
  by_cases isVia : id = via
  · subst isVia
    rcases TransGen.tail'_iff.mp cycle with ⟨last, path, step⟩
    have away : last ≠ id := by
      rintro rfl
      exact noLoop step
    have around : TransGen other.Step last last := .head' step path
    exact acyclic last ((shortened around away).1 away)
  · exact acyclic id ((shortened cycle isVia).1 isVia)

/--
Steps that start at a node into which none leads close no cycle.
-/
theorem Acyclic.of_unfed_source
    (acyclic : graph.Acyclic) {source : NodeId}
    (unfed : ∀ first, ¬ other.Step first source)
    (steps : ∀ first second, other.Step first second →
      first = source ∨ graph.Step first second) :
    other.Acyclic := by
  have avoids : ∀ first second, TransGen other.Step first second →
      first = source ∨ TransGen graph.Step first second := by
    intro first second chain
    induction chain with
    | single step => exact (steps _ _ step).imp_right TransGen.single
    | @tail middle last _ step induction =>
        rcases induction with atSource | old
        · exact Or.inl atSource
        · rcases steps _ _ step with rfl | oldStep
          · rcases TransGen.tail'_iff.mp ‹TransGen other.Step first middle› with ⟨before, -, into⟩
            exact absurd into (unfed before)
          · exact Or.inr (old.tail oldStep)
  intro id cycle
  rcases avoids id id cycle with rfl | old
  · rcases TransGen.tail'_iff.mp cycle with ⟨before, -, into⟩
    exact unfed before into
  · exact acyclic id old

/-- The number of a node after one node has taken the place of another. -/
def identify (keeper candidate id : NodeId) : NodeId :=
  if id = candidate then keeper else id

theorem identify_self (keeper candidate : NodeId) :
    identify keeper candidate candidate = keeper :=
  if_pos rfl

theorem identify_of_ne {keeper candidate id : NodeId} (different : id ≠ candidate) :
    identify keeper candidate id = id :=
  if_neg different

/-- Only the two nodes that became one cannot be told apart. -/
theorem eq_or_identified
    {keeper candidate first second : NodeId}
    (same : identify keeper candidate first = identify keeper candidate second) :
    first = second ∨
      (first = keeper ∨ first = candidate) ∧ (second = keeper ∨ second = candidate) := by
  simp only [identify] at same
  split at same <;> split at same <;> grind

section Identifying

variable {keeper candidate : NodeId}

/-- No chain connects two nodes that are one node or that no path connects. -/
theorem Acyclic.not_transGen_of_apart
    (acyclic : graph.Acyclic)
    (apart : ¬ graph.Reaches keeper candidate) (apart' : ¬ graph.Reaches candidate keeper)
    {first second : NodeId} (firstJoined : first = keeper ∨ first = candidate)
    (secondJoined : second = keeper ∨ second = candidate) :
    ¬ TransGen graph.Step first second := by
  intro chain
  rcases firstJoined with rfl | rfl <;> rcases secondJoined with rfl | rfl
  · exact acyclic _ chain
  · exact apart chain.to_reflTransGen
  · exact apart' chain.to_reflTransGen
  · exact acyclic _ chain

/--
When two nodes become one that no path connects, a chain of the new graph is a chain of
the old one or falls into two of them, one that ends and one that starts at the two
nodes.  It cannot pass through them a second time, since that would take an old chain
between the two.
-/
theorem Acyclic.exists_chains
    (acyclic : graph.Acyclic)
    (apart : ¬ graph.Reaches keeper candidate) (apart' : ¬ graph.Reaches candidate keeper)
    (image : ∀ first second, other.Step first second →
      ∃ oldFirst oldSecond, graph.Step oldFirst oldSecond ∧
        identify keeper candidate oldFirst = first ∧
        identify keeper candidate oldSecond = second)
    {first second : NodeId} (chain : TransGen other.Step first second) :
    ∃ oldFirst oldSecond,
      identify keeper candidate oldFirst = first ∧
      identify keeper candidate oldSecond = second ∧
      (TransGen graph.Step oldFirst oldSecond ∨
        ∃ enter leave,
          (enter = keeper ∨ enter = candidate) ∧ (leave = keeper ∨ leave = candidate) ∧
          TransGen graph.Step oldFirst enter ∧ TransGen graph.Step leave oldSecond) := by
  induction chain with
  | single step =>
      rcases image _ _ step with ⟨oldFirst, oldSecond, oldStep, firstIs, secondIs⟩
      exact ⟨oldFirst, oldSecond, firstIs, secondIs, Or.inl (.single oldStep)⟩
  | tail _ step induction =>
      rcases induction with ⟨oldFirst, oldMiddle, firstIs, middleIs, chains⟩
      rcases image _ _ step with ⟨restart, oldLast, oldStep, restartIs, lastIs⟩
      refine ⟨oldFirst, oldLast, firstIs, lastIs, ?_⟩
      rcases eq_or_identified (middleIs.trans restartIs.symm) with
        rfl | ⟨middleJoined, restartJoined⟩
      · rcases chains with chain | ⟨enter, leave, entered, left, before, after⟩
        · exact Or.inl (chain.tail oldStep)
        · exact Or.inr ⟨enter, leave, entered, left, before, after.tail oldStep⟩
      · rcases chains with chain | ⟨enter, leave, entered, left, before, after⟩
        · exact Or.inr
            ⟨oldMiddle, restart, middleJoined, restartJoined, chain, .single oldStep⟩
        · exact absurd after (acyclic.not_transGen_of_apart apart apart' left middleJoined)

/-- A graph stays acyclic when two nodes become one that no path connects. -/
theorem Acyclic.of_identify
    (acyclic : graph.Acyclic)
    (apart : ¬ graph.Reaches keeper candidate) (apart' : ¬ graph.Reaches candidate keeper)
    (image : ∀ first second, other.Step first second →
      ∃ oldFirst oldSecond, graph.Step oldFirst oldSecond ∧
        identify keeper candidate oldFirst = first ∧
        identify keeper candidate oldSecond = second) :
    other.Acyclic := by
  intro id cycle
  rcases acyclic.exists_chains apart apart' image cycle with
    ⟨oldFirst, oldLast, firstIs, lastIs, chains⟩
  rcases eq_or_identified (firstIs.trans lastIs.symm) with rfl | ⟨firstJoined, lastJoined⟩
  · rcases chains with chain | ⟨enter, leave, entered, left, before, after⟩
    · exact acyclic _ chain
    · exact acyclic.not_transGen_of_apart apart apart' left entered (after.trans before)
  · rcases chains with chain | ⟨enter, leave, entered, left, before, after⟩
    · exact acyclic.not_transGen_of_apart apart apart' firstJoined lastJoined chain
    · exact acyclic.not_transGen_of_apart apart apart' firstJoined entered before

end Identifying

/-! ## Nodes behind cycles -/

/-- A node lies on a cycle, or a path leads to it from one. -/
def BehindCycle (graph : Graph) (id : NodeId) : Prop :=
  ∃ member, TransGen graph.Step member member ∧ graph.Reaches member id

theorem BehindCycle.step
    {first second : NodeId} (behind : graph.BehindCycle first) (step : graph.Step first second) :
    graph.BehindCycle second := by
  rcases behind with ⟨member, cycle, path⟩
  exact ⟨member, cycle, path.tail step⟩

/-- A node behind a cycle is fed by such a node, since going around the cycle comes first. -/
theorem BehindCycle.exists_step {id : NodeId} (behind : graph.BehindCycle id) :
    ∃ first, graph.BehindCycle first ∧ graph.Step first id := by
  rcases behind with ⟨member, cycle, path⟩
  rcases TransGen.tail'_iff.mp (cycle.trans_left path) with ⟨first, before, step⟩
  exact ⟨first, ⟨member, cycle, before⟩, step⟩

/-- Following steps backwards from a node that is behind no cycle comes to an end. -/
theorem acc_of_not_behindCycle {id : NodeId} (free : ¬ graph.BehindCycle id) :
    Acc graph.Step id := by
  let Free := { id // id ∈ graph.nodeIds ∧ ¬ graph.BehindCycle id }
  let chained (first second : Free) : Prop := TransGen graph.Step first.1 second.1
  have : Finite Free :=
    ((List.finite_toSet graph.nodeIds).subset fun _ member => member.1).to_subtype
  have : IsTrans Free chained := ⟨fun _ _ _ left right => left.trans right⟩
  have : Std.Irrefl chained := ⟨fun source cycle => source.2.2 ⟨source.1, cycle, .refl⟩⟩
  have chains : WellFounded chained := Finite.wellFounded_of_trans_of_irrefl chained
  have before : ∀ {first second}, ¬ graph.BehindCycle second → graph.Step first second →
      first ∈ graph.nodeIds ∧ ¬ graph.BehindCycle first :=
    fun secondFree step =>
      ⟨mem_nodeIds.mpr step.source_present, fun behind => secondFree (behind.step step)⟩
  have accessible : ∀ id : Free, Acc graph.Step id.1 := by
    intro id
    induction id using chains.induction with
    | h id induction =>
        exact Acc.intro _ fun first step =>
          induction ⟨first, before id.2.2 step⟩ (TransGen.single step)
  exact Acc.intro id fun first step => accessible ⟨first, before free step⟩

/-- Following steps backwards in an acyclic graph comes to an end. -/
theorem Acyclic.wellFounded (acyclic : graph.Acyclic) : WellFounded graph.Step :=
  ⟨fun _ => acc_of_not_behindCycle fun ⟨member, cycle, _⟩ => acyclic member cycle⟩

end NodeMaterial.Graph
