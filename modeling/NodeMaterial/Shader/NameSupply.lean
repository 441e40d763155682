/-!
# A supply of shader names

The supply issues names that are made of a base and a number.  Each base counts
on its own, from zero, so a base never issues one name twice.  Blanks and
slashes, which shader names cannot hold, become underscores.
-/

namespace NodeMaterial

/-- How many names each base has issued, and how many were issued in all. -/
structure NameSupply where
  counters : List (String × Nat) := []
  issued : Nat := 0
  deriving DecidableEq, Repr

namespace NameSupply

/-- The number that the next name of a base gets. -/
def next (supply : NameSupply) (base : String) : Nat :=
  ((supply.counters.find? (·.1 == base)).map (·.2)).getD 0

/-- Replaces what shader names cannot hold. -/
def sanitize (name : List Char) : List Char :=
  name.map fun character => if character == ' ' || character == '/' then '_' else character

/-- The name of a base and a number. -/
def spell (base : String) (number : Nat) : String :=
  String.ofList (sanitize (base.toList ++ Nat.toDigits 10 number))

/-- The counters with one more name issued for a base. -/
def advance (base : String) : List (String × Nat) → List (String × Nat)
  | [] => [(base, 1)]
  | (other, count) :: counters =>
      if other == base then
        (other, count + 1) :: counters
      else
        (other, count) :: advance base counters

/-- Issues a name for a base. -/
def issue (supply : NameSupply) (base : String) : String × NameSupply :=
  (spell base (supply.next base), ⟨advance base supply.counters, supply.issued + 1⟩)

/-- Issues a name for each of several bases. -/
def issueAll (supply : NameSupply) : List String → List String × NameSupply
  | [] => ([], supply)
  | base :: bases =>
      let (name, supply) := supply.issue base
      let (names, supply) := supply.issueAll bases
      (name :: names, supply)

end NameSupply

end NodeMaterial
