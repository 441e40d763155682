import NodeMaterial.Compilation

/-!
# Remembering compilations

A cache remembers the outcome of compiling a tree under an identity, be it a graph
or a failure, until it is emptied.  Only the first request for an identity compiles;
later ones get the same outcome, whatever tree they come with.

Emptying a cache forgets outcomes, but not how often it compiled and how many names
that took.
-/

namespace NodeMaterial

/-- The remembered outcomes, in the order of their first requests, and two counts. -/
structure Cache where
  entries : List (String × Except Failure Graph) := []
  /-- How often a tree was compiled. -/
  builds : Nat := 0
  /-- How many names all compilations issued. -/
  issued : Nat := 0

namespace Cache

def empty : Cache := {}

/-- The outcome remembered for an identity. -/
def get? (cache : Cache) (id : String) : Option (Except Failure Graph) :=
  (cache.entries.find? (·.1 == id)).map (·.2)

/-- Whether an outcome is remembered for an identity. -/
def contains (cache : Cache) (id : String) : Bool :=
  (cache.get? id).isSome

/-- How many outcomes are remembered. -/
def size (cache : Cache) : Nat :=
  cache.entries.length

/-- The diagnostic that closes a compilation. -/
def closing (id : String) : Except Failure Graph → Diagnostic
  | .ok graph =>
      { level := .info
        message := "graph '" ++ id ++ "' compiled: " ++ toString graph.nodeCount ++ " nodes, " ++
          toString graph.edgeCount ++ " edges"
        code := some .compiled }
  | .error failure => failure.diagnostic

/-- Counts a compilation and the names that it issued. -/
def count (context : Context) (cache : Cache) : Cache :=
  { cache with
    builds := cache.builds + 1
    issued := cache.issued + context.names.issued }

/-- Remembers the outcome for an identity that has none. -/
def insert (id : String) (outcome : Except Failure Graph) (cache : Cache) : Cache :=
  { cache with entries := cache.entries ++ [(id, outcome)] }

/-- A sink is told diagnostics.  It keeps a state, and can look into the cache meanwhile. -/
abbrev Sink (σ : Type) := Cache → Diagnostic → σ → σ

/-- The sink that keeps all diagnostics, in order. -/
def collecting : Sink (List Diagnostic) :=
  fun _ diagnostic kept => kept ++ [diagnostic]

/-- An action on a cache and on what a sink keeps. -/
abbrev Action (σ α : Type) := StateM (Cache × σ) α

/-- Changes the cache. -/
def change {σ : Type} (step : Cache → Cache) : Action σ Unit :=
  modify fun (cache, kept) => (step cache, kept)

/-- Tells a sink a diagnostic; what it sees is the cache at this time. -/
def emit {σ : Type} (sink : Sink σ) (diagnostic : Diagnostic) : Action σ Unit :=
  modify fun (cache, kept) => (cache, sink cache diagnostic kept)

/--
Requests the outcome for an identity.  The first request compiles, remembers the outcome and
then tells the sink; later ones tell it nothing.
-/
def compile {σ : Type} (id : String) (tree : Authored.Tree) (sink : Sink σ) :
    Action σ (Except Failure Graph) := do
  let (cache, _) ← get
  match cache.get? id with
  | some outcome => return outcome
  | none =>
      let (outcome, context) := tree.compile {}
      change (count context)
      change (insert id outcome)
      (context.diagnostics ++ [closing id outcome]).forM (emit sink)
      return outcome

/-- Forgets all outcomes, and counts them. -/
def cleanup (cache : Cache) : Cache × Nat :=
  ({ cache with entries := [] }, cache.size)

end Cache

end NodeMaterial
