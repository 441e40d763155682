/-!
# Digests

`Digest.hex` writes the bytes of any digest, with two hexadecimal digits in lower
case each.  `Digest.sha256` is the digest that the program runs with: the message
is padded to whole blocks of sixty-four bytes, and each block is mixed into eight
registers in sixty-four rounds.
-/

namespace NodeMaterial.Text.Digest

/-- The eight registers. -/
structure Registers where
  a : UInt32
  b : UInt32
  c : UInt32
  d : UInt32
  e : UInt32
  f : UInt32
  g : UInt32
  h : UInt32
  deriving DecidableEq, Repr

/-- The registers before the first block. -/
def start : Registers :=
  ⟨0x6a09e667, 0xbb67ae85, 0x3c6ef372, 0xa54ff53a, 0x510e527f, 0x9b05688c, 0x1f83d9ab, 0x5be0cd19⟩

/-- The constants added in the sixty-four rounds. -/
def roundConstants : List UInt32 :=
  [0x428a2f98, 0x71374491, 0xb5c0fbcf, 0xe9b5dba5, 0x3956c25b, 0x59f111f1, 0x923f82a4, 0xab1c5ed5,
   0xd807aa98, 0x12835b01, 0x243185be, 0x550c7dc3, 0x72be5d74, 0x80deb1fe, 0x9bdc06a7, 0xc19bf174,
   0xe49b69c1, 0xefbe4786, 0x0fc19dc6, 0x240ca1cc, 0x2de92c6f, 0x4a7484aa, 0x5cb0a9dc, 0x76f988da,
   0x983e5152, 0xa831c66d, 0xb00327c8, 0xbf597fc7, 0xc6e00bf3, 0xd5a79147, 0x06ca6351, 0x14292967,
   0x27b70a85, 0x2e1b2138, 0x4d2c6dfc, 0x53380d13, 0x650a7354, 0x766a0abb, 0x81c2c92e, 0x92722c85,
   0xa2bfe8a1, 0xa81a664b, 0xc24b8b70, 0xc76c51a3, 0xd192e819, 0xd6990624, 0xf40e3585, 0x106aa070,
   0x19a4c116, 0x1e376c08, 0x2748774c, 0x34b0bcb5, 0x391c0cb3, 0x4ed8aa4a, 0x5b9cca4f, 0x682e6ff3,
   0x748f82ee, 0x78a5636f, 0x84c87814, 0x8cc70208, 0x90befffa, 0xa4506ceb, 0xbef9a3f7, 0xc67178f2]

def rotateRight (word amount : UInt32) : UInt32 :=
  (word >>> amount) ||| (word <<< (32 - amount))

/-- One round with its constant and its word of the schedule. -/
def round (registers : Registers) (constant word : UInt32) : Registers :=
  let ⟨a, b, c, d, e, f, g, h⟩ := registers
  let mixedE := rotateRight e 6 ^^^ rotateRight e 11 ^^^ rotateRight e 25
  let choice := (e &&& f) ^^^ (~~~e &&& g)
  let first := h + mixedE + choice + constant + word
  let mixedA := rotateRight a 2 ^^^ rotateRight a 13 ^^^ rotateRight a 22
  let majority := (a &&& b) ^^^ (a &&& c) ^^^ (b &&& c)
  ⟨first + mixedA + majority, a, b, c, d + first, e, f, g⟩

/-- The schedule word that follows the words so far. -/
def nextWord (words : Array UInt32) : UInt32 :=
  let back (distance : Nat) : UInt32 := words.getD (words.size - distance) 0
  let early := back 15
  let late := back 2
  let mixedEarly := rotateRight early 7 ^^^ rotateRight early 18 ^^^ (early >>> 3)
  let mixedLate := rotateRight late 17 ^^^ rotateRight late 19 ^^^ (late >>> 10)
  back 16 + mixedEarly + back 7 + mixedLate

/-- The sixty-four words of a block's schedule. -/
def schedule (block : List UInt32) : Array UInt32 :=
  (List.range 48).foldl (fun words _ => words.push (nextWord words)) block.toArray

/-- Mixes one block of sixteen words into the registers. -/
def absorb (registers : Registers) (block : List UInt32) : Registers :=
  let mixed := (roundConstants.zip (schedule block).toList).foldl
    (fun registers (constant, word) => round registers constant word) registers
  ⟨registers.a + mixed.a, registers.b + mixed.b, registers.c + mixed.c, registers.d + mixed.d,
   registers.e + mixed.e, registers.f + mixed.f, registers.g + mixed.g, registers.h + mixed.h⟩

/-- Mixes a number of blocks, taken from a list of words, into the registers. -/
def absorbBlocks : Nat → List UInt32 → Registers → Registers
  | 0, _, registers => registers
  | count + 1, words, registers =>
      absorbBlocks count (words.drop 16) (absorb registers (words.take 16))

/-- The bytes of a number, most significant first. -/
def bigEndian (width number : Nat) : List UInt8 :=
  (List.range width).reverse.map fun place => UInt8.ofNat (number >>> (8 * place))

/-- A message, a one bit, zeros up to eight bytes short of a whole block, and the length in bits. -/
def padded (message : List UInt8) : List UInt8 :=
  let zeros := (119 - message.length % 64) % 64
  message ++ 0x80 :: (List.replicate zeros 0 ++ bigEndian 8 (8 * message.length))

/-- The words of a list of bytes, four bytes each. -/
def words : List UInt8 → List UInt32
  | first :: second :: third :: fourth :: rest =>
      ((first.toUInt32 <<< 24) ||| (second.toUInt32 <<< 16) ||| (third.toUInt32 <<< 8) |||
        fourth.toUInt32) :: words rest
  | _ => []

/-- The registers after a whole message. -/
def registers (message : List UInt8) : Registers :=
  let words := words (padded message)
  absorbBlocks (words.length / 16) words start

/-- The digest of a message: the bytes of the registers. -/
def sha256 (message : List UInt8) : List UInt8 :=
  let ⟨a, b, c, d, e, f, g, h⟩ := registers message
  [a, b, c, d, e, f, g, h].flatMap fun word => bigEndian 4 word.toNat

/-- The two hexadecimal digits of a byte. -/
def hexByte (byte : UInt8) : List Char :=
  [Nat.digitChar (byte.toNat / 16), Nat.digitChar (byte.toNat % 16)]

/-- Bytes in hexadecimal digits. -/
def hex (bytes : List UInt8) : String :=
  String.ofList (bytes.flatMap hexByte)

end NodeMaterial.Text.Digest
