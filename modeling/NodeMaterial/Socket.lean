import NodeMaterial.Number.Decimal

/-!
# Sockets

Nodes exchange values through sockets.  An input socket without a link reads its
default value, which is a scalar or a vector; a vector of one component is not
the same as a scalar.
-/

namespace NodeMaterial

/-- The default value of a socket. -/
inductive SocketValue where
  | scalar (component : Binary64)
  | vector (components : List Binary64)
  deriving DecidableEq, Repr

namespace SocketValue

def zero : SocketValue := .scalar .zero

/-- A vector keeps at most `length` components; a scalar stays as it is. -/
def truncated (length : Nat) : SocketValue → SocketValue
  | .scalar component => .scalar component
  | .vector components => .vector (components.take length)

/-- The numbers of a value, one for a scalar. -/
def components : SocketValue → List Binary64
  | .scalar component => [component]
  | .vector components => components

end SocketValue

/-- An input or output socket.  Links address it by its identifier. -/
structure Socket where
  name : String
  identifier : String
  isLinked : Bool := false
  defaultValue : SocketValue := .zero
  deriving DecidableEq, Repr

namespace Socket

/-- A socket that is named by its identifier. -/
def titled (identifier : String) (isLinked : Bool) (defaultValue : SocketValue) : Socket :=
  ⟨identifier, identifier, isLinked, defaultValue⟩

/-- The socket with its default value cut to `length` components. -/
def truncated (length : Nat) (socket : Socket) : Socket :=
  { socket with defaultValue := socket.defaultValue.truncated length }

end Socket

/-- Three coordinates. -/
structure Triple where
  x : Binary64
  y : Binary64
  z : Binary64
  deriving DecidableEq, Repr

namespace Triple

def zeros : Triple := ⟨.zero, .zero, .zero⟩

def ones : Triple := ⟨.one, .one, .one⟩

def toList (triple : Triple) : List Binary64 :=
  [triple.x, triple.y, triple.z]

/-- A triple as a vector of three components. -/
def toValue (triple : Triple) : SocketValue :=
  .vector triple.toList

/-- Whether every coordinate is a zero of either sign. -/
def isZero (triple : Triple) : Bool :=
  triple.toList.all Binary64.isZero

end Triple

end NodeMaterial
