import NodeMaterial.CommandLine

/-!
# The program

Reads the source, runs the command on it, and does what the outcome says.
-/

open NodeMaterial
open NodeMaterial.CommandLine

namespace NodeMaterial.Program

/-- The tree in a file, if there is one. -/
def loadTree (path : String) : IO (Option Authored.Tree) := do
  try
    match Authored.Tree.ofText .shortest (← IO.FS.readFile path) with
    | .ok tree => return some tree
    | .error _ => return none
  catch _ =>
    return none

/-- Loads the tree that a command is about. -/
def loadFor : Command → IO (Option Authored.Tree)
  | .compile source _ => do
      let tree ← loadTree source
      if tree.isNone then
        IO.eprintln ("nmc: error: " ++ source ++ ": no node tree can be read")
      return tree
  | .misuse => do
      IO.eprintln helpText
      return none
  | _ => return none

/-- Writes the file of an outcome; says whether that worked. -/
def writeFile : Option (String × String) → IO Bool
  | none => return true
  | some (path, content) => do
      try
        IO.FS.writeFile path content
        return true
      catch _ =>
        IO.eprintln ("nmc: error: " ++ path ++ ": cannot be written")
        return false

/-- Does what an outcome says. -/
def perform (outcome : Outcome) : IO UInt32 := do
  for diagnostic in outcome.diagnostics do
    IO.eprintln diagnostic.text
  if let some stage := outcome.failing then
    IO.eprintln (failureLine stage)
  IO.print outcome.stdout
  if ← writeFile outcome.file then
    return UInt32.ofNat outcome.exitCode
  else
    return 2

end NodeMaterial.Program

/-- Compiles the tree that the arguments name. -/
def main (arguments : List String) : IO UInt32 := do
  let command := Command.ofArguments arguments
  let tree ← Program.loadFor command
  Program.perform (command.run (fun _ => tree) (fun _ => true))
