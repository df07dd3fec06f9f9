import Quorum.Deflate.Huffman

/-! # Tokens

The content of a compressed block: bytes as they are, and copies of what came before.
Lengths and distances are coded in grades: a symbol gives the least value of its grade,
and extra bits what is added to it.
-/

namespace Quorum.Deflate

/-- A piece of content. -/
inductive Token where
  | literal (byte : UInt8)
  /-- So many bytes again, from so far back. -/
  | copy (length distance : Nat)
  deriving DecidableEq, Repr

/-- Adds `length` bytes that each repeat the byte `distance` before. Where that lies
before the start, the byte is zero. -/
def copyBack (distance : Nat) : (length : Nat) → Array UInt8 → Array UInt8
  | 0, output => output
  | length + 1, output =>
      -- A copy may reach into what it adds itself, so it goes byte by byte.
      let byte := if distance ≤ output.size then output.getD (output.size - distance) 0 else 0
      copyBack distance length (output.push byte)

/-- What a token adds to the output. -/
def Token.appendTo (output : Array UInt8) : Token → Array UInt8
  | .literal byte => output.push byte
  | .copy length distance => copyBack distance length output

/-- The content that tokens describe. -/
def expand (tokens : List Token) : Array UInt8 :=
  tokens.foldl Token.appendTo #[]

/-- Values from `base` on, of which extra bits choose one. -/
structure Grade where
  base : Nat
  extra : Nat
  deriving DecidableEq, Repr

/-- The grades of lengths, for the symbols from 257 on. -/
def lengthGrades : List Grade := [
  ⟨3, 0⟩, ⟨4, 0⟩, ⟨5, 0⟩, ⟨6, 0⟩, ⟨7, 0⟩, ⟨8, 0⟩, ⟨9, 0⟩, ⟨10, 0⟩,
  ⟨11, 1⟩, ⟨13, 1⟩, ⟨15, 1⟩, ⟨17, 1⟩, ⟨19, 2⟩, ⟨23, 2⟩, ⟨27, 2⟩, ⟨31, 2⟩,
  ⟨35, 3⟩, ⟨43, 3⟩, ⟨51, 3⟩, ⟨59, 3⟩, ⟨67, 4⟩, ⟨83, 4⟩, ⟨99, 4⟩, ⟨115, 4⟩,
  ⟨131, 5⟩, ⟨163, 5⟩, ⟨195, 5⟩, ⟨227, 5⟩, ⟨258, 0⟩]

/-- The grades of distances, for the symbols from 0 on. -/
def distanceGrades : List Grade := [
  ⟨1, 0⟩, ⟨2, 0⟩, ⟨3, 0⟩, ⟨4, 0⟩, ⟨5, 1⟩, ⟨7, 1⟩, ⟨9, 2⟩, ⟨13, 2⟩,
  ⟨17, 3⟩, ⟨25, 3⟩, ⟨33, 4⟩, ⟨49, 4⟩, ⟨65, 5⟩, ⟨97, 5⟩, ⟨129, 6⟩, ⟨193, 6⟩,
  ⟨257, 7⟩, ⟨385, 7⟩, ⟨513, 8⟩, ⟨769, 8⟩, ⟨1025, 9⟩, ⟨1537, 9⟩, ⟨2049, 10⟩, ⟨3073, 10⟩,
  ⟨4097, 11⟩, ⟨6145, 11⟩, ⟨8193, 12⟩, ⟨12289, 12⟩, ⟨16385, 13⟩, ⟨24577, 13⟩]

/-- The symbol that ends a block. -/
def endOfBlock : Nat := 256

/-- The code lengths of a block with the fixed code. -/
def fixedLiteralLengths : List Nat :=
  List.replicate 144 8 ++ List.replicate 112 9 ++ List.replicate 24 7 ++ List.replicate 8 8

/-- The distance code of a block with the fixed code: all words have five bits. -/
def fixedDistanceLengths : List Nat :=
  List.replicate 32 5

def fixedLiteralTree : Tree :=
  treeOf fixedLiteralLengths

def fixedDistanceTree : Tree :=
  treeOf fixedDistanceLengths

end Quorum.Deflate
