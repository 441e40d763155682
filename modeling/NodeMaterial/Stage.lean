/-!
# The stages of a compilation

A compilation goes through eight stages.  Each needs the one before it, and each
establishes something that the later ones rely on.
-/

namespace NodeMaterial

/-- The stages of a compilation, in the order in which they run. -/
inductive Stage where
  | build
  | completeEdges
  | prune
  | eliminate
  | fixLinks
  | merge
  | optimizeChannels
  | validate
  deriving DecidableEq, Repr

namespace Stage

/-- The stages in order. -/
def all : List Stage :=
  [.build, .completeEdges, .prune, .eliminate, .fixLinks, .merge, .optimizeChannels, .validate]

/-- The name of a stage, by which a command may ask for it. -/
def name : Stage → String
  | .build => "build"
  | .completeEdges => "complete-edges"
  | .prune => "prune"
  | .eliminate => "rewrite"
  | .fixLinks => "fix-links"
  | .merge => "merge"
  | .optimizeChannels => "optimize-channels"
  | .validate => "validate"

/-- The stages whose results a stage works on. -/
def inputs : Stage → List Stage
  | .build => []
  | .completeEdges => [.build]
  | .prune => [.completeEdges]
  | .eliminate => [.prune]
  | .fixLinks => [.eliminate]
  | .merge => [.fixLinks]
  | .optimizeChannels => [.merge]
  | .validate => [.optimizeChannels]

/-- What holds after a stage. -/
def invariants : Stage → String
  | .build => "every node typed; edges address existing sockets"
  | .completeEdges => "translucency links drive their parameter socket"
  | .prune => "output located; every node reaches it"
  | .eliminate => "no selector or passthrough nodes; parallax inlined"
  | .fixLinks => "socket linked flags match edges"
  | .merge => "no duplicate accessors; samplers merged within cap"
  | .optimizeChannels => "splitter-only vertex colour reads collapsed"
  | .validate => "normal maps have a material"

/-- The stages up to and including a last one. -/
def required (terminal : Stage) : List Stage :=
  all.takeWhile (· != terminal) ++ [terminal]

/-- The stage of a name. -/
def ofName? (name : String) : Option Stage :=
  all.find? fun stage => stage.name == name

/-- The complaint about a text that names no stage. -/
def unknownMessage (name : String) : String :=
  "unknown pass '" ++ name ++ "' (expected one of: " ++
    ", ".intercalate (all.map Stage.name) ++ ")"

end Stage

end NodeMaterial
