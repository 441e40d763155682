/-!
# Diagnostics

A diagnostic has a level and a message, and may have a stable code, the name of
the node that it is about, and a hint.
-/

namespace NodeMaterial

/-- How serious a diagnostic is. -/
inductive Level where
  | info
  | warning
  | error
  deriving DecidableEq, Repr

/-- The word for a level. -/
def Level.text : Level → String
  | .info => "info"
  | .warning => "warning"
  | .error => "error"

/-- The codes, each with one meaning. -/
inductive Code where
  /-- There is no output node. -/
  | missingOutput
  /-- A node is set up in a way that is not supported. -/
  | configuration
  /-- The nodes of a graph do not go together. -/
  | combination
  /-- A node lacks its texture or material. -/
  | missingBinding
  /-- A link names a node that does not exist. -/
  | unknownNode
  /-- A graph cannot be composed. -/
  | internal
  /-- A selector selects nothing. -/
  | emptySelector
  /-- A graph has been compiled. -/
  | compiled
  deriving DecidableEq, Repr

/-- A code in writing: its level by a letter, and a number. -/
def Code.text : Code → String
  | .missingOutput => "E0001"
  | .configuration => "E0100"
  | .combination => "E0101"
  | .missingBinding => "E0200"
  | .unknownNode => "E0300"
  | .internal => "E0900"
  | .emptySelector => "W0100"
  | .compiled => "I0001"

/-- A message of the compiler, with the node that it is about and a hint if there is one. -/
structure Diagnostic where
  level : Level
  message : String
  code : Option Code := none
  node : Option String := none
  hint : Option String := none
  deriving DecidableEq, Repr

namespace Diagnostic

def isError (diagnostic : Diagnostic) : Bool :=
  diagnostic.level == .error

/-- A part of a text that depends on something optional. -/
def optionalPart {α : Type} (part : α → String) : Option α → String
  | some value => part value
  | none => ""

/-- A diagnostic in writing; a hint stands on a line of its own. -/
def text (diagnostic : Diagnostic) : String :=
  diagnostic.level.text ++
    optionalPart (fun code => "[" ++ code.text ++ "]") diagnostic.code ++
    ": " ++ diagnostic.message ++
    optionalPart (fun node => " (node '" ++ node ++ "')") diagnostic.node ++
    optionalPart (fun hint => "\n  hint: " ++ hint) diagnostic.hint

end Diagnostic

end NodeMaterial
