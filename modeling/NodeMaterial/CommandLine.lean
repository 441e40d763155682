import NodeMaterial.Authored.Format
import NodeMaterial.Cache
import NodeMaterial.Graph.Dot
import NodeMaterial.Graph.Listing
import NodeMaterial.Instruction

/-!
# The command line

Arguments are read from left to right.  A setting takes its value from the next
argument, which must not look like an option, or from the same argument.  No
setting may be given twice.  The first fault decides, and so does a request for the
version or for help.

What a command does is described by an outcome: an exit code, the text for the
standard output, a file to write, and what to report beside.
-/

namespace NodeMaterial.CommandLine

/-! ## Options -/

/-- What to show of a compilation. -/
inductive Emission where
  | elements
  | graph
  | dot
  | summary
  deriving DecidableEq, Repr

/-- The emission that is asked for by a name. -/
def Emission.ofName? : String → Option Emission
  | "elements" => some .elements
  | "graph" => some .graph
  | "dot" => some .dot
  | "summary" => some .summary
  | _ => none

/-- The settings that take a value. -/
inductive Setting where
  | output
  | graphId
  | emit
  | stopAfter
  deriving DecidableEq, Repr

/-- The setting that a long option names. -/
def Setting.ofName? : String → Option Setting
  | "output" => some .output
  | "graph-id" => some .graphId
  | "emit" => some .emit
  | "stop-after" => some .stopAfter
  | _ => none

/-- What arguments have given so far. -/
structure Options where
  source : Option String := none
  output : Option String := none
  graphId : Option String := none
  emission : Option Emission := none
  stopAfter : Option Stage := none
  verbose : Bool := false
  deriving DecidableEq, Repr

namespace Options

/-- Fills a place that is still empty. -/
def fill {α : Type} (place : Option α) (value : Option α) : Option α :=
  match place with
  | none => value
  | some _ => none

/-- A path is a text that is not empty. -/
def path? (text : String) : Option String :=
  if text.isEmpty then none else some text

/-- Takes the value of a setting; refuses a second or a wrong one. -/
def give (options : Options) (setting : Setting) (text : String) : Option Options :=
  match setting with
  | .output => (fill options.output (path? text)).map fun path =>
      { options with output := some path }
  | .graphId => (fill options.graphId (some text)).map fun id =>
      { options with graphId := some id }
  | .emit => (fill options.emission (Emission.ofName? text)).map fun emission =>
      { options with emission := some emission }
  | .stopAfter => (fill options.stopAfter (Stage.ofName? text)).map fun stage =>
      { options with stopAfter := some stage }

/-- Takes the source; refuses a second one. -/
def place (options : Options) (text : String) : Option Options :=
  (fill options.source (path? text)).map fun path => { options with source := some path }

end Options

/-! ## Reading arguments -/

/-- What an argument is when no value is due. -/
inductive Argument where
  | setting (setting : Setting) (value : Option String)
  | verbose
  | version
  | help
  | endOfOptions
  | positional (text : String)
  | unknown
  deriving DecidableEq, Repr

/-- The text before the first equality sign, and what follows it. -/
def splitValue (text : List Char) : List Char × Option (List Char) :=
  match text.dropWhile (· != '=') with
  | [] => (text, none)
  | _ :: value => (text.takeWhile (· != '='), some value)

/-- A flag, which takes no value. -/
def Argument.ofFlag (name : String) : Argument :=
  match name with
  | "verbose" => .verbose
  | "version" => .version
  | "help" => .help
  | _ => .unknown

/-- What follows two dashes. -/
def Argument.ofLong (text : List Char) : Argument :=
  let (name, value) := splitValue text
  match Setting.ofName? (String.ofList name), value with
  | some known, value => .setting known (value.map String.ofList)
  | none, none => .ofFlag (String.ofList name)
  | none, some _ => .unknown

/-- What follows one dash. -/
def Argument.ofShort : List Char → Argument
  | ['o'] => .setting .output none
  | 'o' :: '=' :: value => .setting .output (some (String.ofList value))
  | 'o' :: value => .setting .output (some (String.ofList value))
  | 'V' :: _ => .version
  | 'h' :: _ => .help
  | _ => .unknown

/-- What an argument is, by the dashes in front of it; a single dash is a path. -/
def Argument.ofText (text : String) : Argument :=
  match text.toList with
  | ['-'] => .positional text
  | ['-', '-'] => .endOfOptions
  | '-' :: '-' :: long => .ofLong long
  | '-' :: short => .ofShort short
  | _ => .positional text

/-- What a command line asks for. -/
inductive Command where
  | compile (source : String) (options : Options)
  | version
  | help
  | misuse
  deriving DecidableEq, Repr

/-- The command of options after the last argument. -/
def Command.ofOptions (options : Options) : Command :=
  match options.source with
  | some source => .compile source options
  | none => .misuse

/-- Reads arguments after the end of options: they can only be the source. -/
def readPlain : List String → Options → Command
  | [], options => .ofOptions options
  | text :: others, options =>
      match options.place text with
      | some options => readPlain others options
      | none => .misuse

/-- Reads arguments; a setting may be waiting for its value. -/
def readArguments : Option Setting → List String → Options → Command
  | some _, [], _ => .misuse
  | none, [], options => .ofOptions options
  | some setting, text :: others, options =>
      match Argument.ofText text with
      | .positional value =>
          match options.give setting value with
          | some options => readArguments none others options
          | none => .misuse
      | _ => .misuse
  | none, text :: others, options =>
      match Argument.ofText text with
      | .positional path =>
          match options.place path with
          | some options => readArguments none others options
          | none => .misuse
      | .setting setting none => readArguments (some setting) others options
      | .setting setting (some value) =>
          match options.give setting value with
          | some options => readArguments none others options
          | none => .misuse
      | .verbose =>
          if options.verbose then .misuse
          else readArguments none others { options with verbose := true }
      | .version => .version
      | .help => .help
      | .endOfOptions => readPlain others options
      | .unknown => .misuse

/-- The command of a list of arguments. -/
def Command.ofArguments (arguments : List String) : Command :=
  readArguments none arguments {}

/-! ## Outcomes -/

/-- What a command does. -/
structure Outcome where
  exitCode : Nat
  stdout : String := ""
  /-- The path and the content of a file to write. -/
  file : Option (String × String) := none
  diagnostics : List Diagnostic := []
  /-- The stage that failed, if stages were run one by one. -/
  failing : Option Stage := none

/-- The line that reports a failing stage. -/
def failureLine (stage : Stage) : String :=
  "nmc: pass '" ++ stage.name ++ "' failed"

def versionText : String := "nmc 0.3.2\n"

/-- The usage and all options. -/
def helpText : String :=
  "Usage: nmc [OPTIONS] <SOURCE>\n\n" ++
  "Options:\n" ++
  "  -o, --output <PATH>        write to a file\n" ++
  "      --graph-id <ID>        identity of the tree in the cache\n" ++
  "      --emit <STAGE>         elements, graph, dot or summary\n" ++
  "      --stop-after <PASS>    last pass to run\n" ++
  "      --verbose              report passes\n" ++
  "  -h, --help                 print help\n" ++
  "  -V, --version              print version\n"

/-- A text with blanks up to a width on its right. -/
def padRight (width : Nat) (text : String) : String :=
  text ++ String.ofList (List.replicate (width - text.length) ' ')

/-- A number with blanks up to a width on its left. -/
def padLeft (width number : Nat) : String :=
  let text := toString number
  String.ofList (List.replicate (width - text.length) ' ') ++ text

/-- A stage, the size of the graph that it left, and how much it changed. -/
def summaryLine (report : Report) : String :=
  padRight 18 report.stage.name ++ " " ++ padLeft 5 report.nodes ++ " nodes " ++
    padLeft 5 report.edges ++ " edges " ++ padLeft 5 report.changed ++ " changed\n"

/-- A line for each report, and one for the graph that they led to. -/
def summaryText (reports : List Report) (graph : Graph) : String :=
  String.join (reports.map summaryLine) ++
    "result: " ++ toString graph.nodeCount ++ " nodes, " ++ toString graph.edgeCount ++ " edges\n"

/-- The text that shows a compiled graph. -/
def Emission.text (emission : Emission) (reports : List Report) (graph : Graph) :
    Except Violation String :=
  match emission with
  | .elements => graph.compose.map Instruction.document
  | .graph => .ok graph.listing
  | .dot => .ok graph.dot
  | .summary => .ok (summaryText reports graph)

/-- What compiling a tree gave. -/
structure Compiled where
  reports : List Report
  outcome : Except (Option Stage) Graph
  diagnostics : List Diagnostic

/-- Compiles through a cache, where a failure is not traced to its stage. -/
def compileCached (tree : Authored.Tree) (graphId : Option String) : Compiled :=
  let id := graphId.getD (tree.fingerprint .shortest Text.Digest.sha256)
  let (outcome, _, diagnostics) := (Cache.compile id tree Cache.collecting).run (.empty, [])
  ⟨[], outcome.mapError fun _ => none, diagnostics⟩

/-- Compiles stage by stage, up to a last one. -/
def compileStaged (tree : Authored.Tree) (terminal : Stage) : Compiled :=
  let run := tree.compileTo terminal {}
  match run.outcome with
  | .ok graph => ⟨run.reports, .ok graph, run.context.diagnostics⟩
  | .error (stage, failure) =>
      ⟨run.reports, .error (some stage), run.context.diagnostics ++ [failure.diagnostic]⟩

/-- Compiles as options ask: stage by stage only where the stages matter. -/
def compileWith (options : Options) (emission : Emission) (tree : Authored.Tree) : Compiled :=
  if options.stopAfter.isNone && emission != .summary then
    compileCached tree options.graphId
  else
    compileStaged tree (options.stopAfter.getD .validate)

/-- Puts a text where options ask. -/
def deliver (options : Options) (writable : String → Bool) (diagnostics : List Diagnostic)
    (text : String) : Outcome :=
  match options.output with
  | none => { exitCode := 0, stdout := text, diagnostics }
  | some path =>
      if writable path then
        { exitCode := 0, file := some (path, text), diagnostics }
      else
        { exitCode := 2, diagnostics }

/-- Compiles a tree and shows the result. -/
def execute (options : Options) (writable : String → Bool) (tree : Authored.Tree) : Outcome :=
  let emission := options.emission.getD .elements
  let compiled := compileWith options emission tree
  match compiled.outcome with
  | .error failing => { exitCode := 1, diagnostics := compiled.diagnostics, failing }
  | .ok graph =>
      match emission.text compiled.reports graph with
      | .error violation =>
          { exitCode := 1, diagnostics := compiled.diagnostics ++ [violation.diagnostic] }
      | .ok text => deliver options writable compiled.diagnostics text

/--
Runs a command, given which paths hold a tree and which can be written.  A source that
cannot be read or holds no tree is reported like a misuse.
-/
def Command.run (command : Command) (load : String → Option Authored.Tree)
    (writable : String → Bool) : Outcome :=
  match command with
  | .version => { exitCode := 0, stdout := versionText }
  | .help => { exitCode := 0, stdout := helpText }
  | .misuse => { exitCode := 2 }
  | .compile source options =>
      match load source with
      | none => { exitCode := 2 }
      | some tree => execute options writable tree

end NodeMaterial.CommandLine
