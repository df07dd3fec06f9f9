import Quorum.Deflate.Token

/-! # Writing a deflate stream

Content is written as one block with the fixed code, or as stored blocks where that is
no shorter. The search for repeated bytes need not be trusted: its tokens are only used
if they expand to the content again.
-/

namespace Quorum.Deflate

/-- Bits as bytes, after those packed before. -/
def packAfter (packed : Array UInt8) : List Bool → Array UInt8
  | a :: b :: c :: d :: e :: f :: g :: h :: rest =>
      packAfter (packed.push (UInt8.ofNat (bitsToNat [a, b, c, d, e, f, g, h]))) rest
  | [] => packed
  | bits => packed.push (UInt8.ofNat (bitsToNat bits))

/-- The bytes that hold the bits, the last one filled up with zeros. -/
def pack (bits : List Bool) : Bytes :=
  (packAfter #[] bits).toList

def fixedWord (symbol : Nat) : List Bool :=
  if symbol < 144 then codeWord 8 (0x30 + symbol)
  else if symbol < 256 then codeWord 9 (0x190 + (symbol - 144))
  else if symbol < 280 then codeWord 7 (symbol - 256)
  else codeWord 8 (0xC0 + (symbol - 280))

/-- The index of the last grade that starts at or below a value. -/
def gradeOf (grades : List Grade) (value : Nat) : Nat :=
  (grades.filter (·.base ≤ value)).length - 1

/-- What is added to a grade's base to give a value. -/
def writeExtra (grades : List Grade) (index value : Nat) : List Bool :=
  match grades[index]? with
  | some grade => lowBits grade.extra (value - grade.base)
  | none => []

/-- The bits of a token in the fixed code. -/
def Token.write : Token → List Bool
  | .literal byte => fixedWord byte.toNat
  | .copy length distance =>
      let lengthIndex := gradeOf lengthGrades length
      let distanceIndex := gradeOf distanceGrades distance
      fixedWord (endOfBlock + 1 + lengthIndex) ++ writeExtra lengthGrades lengthIndex length
        ++ codeWord 5 distanceIndex ++ writeExtra distanceGrades distanceIndex distance

/-- Whether a token's length and distance have symbols. -/
def Token.isWritable : Token → Bool
  | .literal _ => true
  | .copy length distance => 3 ≤ length && length ≤ 258 && 1 ≤ distance && distance ≤ 32768

/-- The bits of a last block with the fixed code. -/
def writeFixed (tokens : List Token) : List Bool :=
  [true, true, false] ++ tokens.flatMap Token.write ++ fixedWord endOfBlock

/-- The greatest length of a stored block. -/
def maximalStored : Nat := 0xFFFF

/-- A stored block that starts at a whole byte. -/
def writeStored (final : Bool) (content : Bytes) : Bytes :=
  (if final then 1 else 0) :: Bytes.littleEndian 2 content.length
    ++ Bytes.littleEndian 2 (maximalStored - content.length) ++ content

def storeAll (content : Bytes) : Bytes :=
  if content.length ≤ maximalStored then writeStored true content
  else writeStored false (content.take maximalStored) ++ storeAll (content.drop maximalStored)
termination_by content.length
decreasing_by
  rw [List.length_drop]
  have : 0 < maximalStored := by decide
  omega

/-- How many bytes from two positions on are equal, up to a limit. -/
def commonLength (content : Array UInt8) (first second : Nat) : (limit : Nat) → Nat
  | 0 => 0
  | limit + 1 =>
      match content[first]?, content[second]? with
      | some a, some b =>
          if a = b then 1 + commonLength content (first + 1) (second + 1) limit else 0
      | _, _ => 0

/-- How many places there are for the positions where three bytes were last seen. -/
def recentSize : Nat := 4096

/-- The place for the three bytes at a position. -/
def recentIndex (content : Array UInt8) (position : Nat) : Nat :=
  let byte (offset : Nat) := (content.getD (position + offset) 0).toNat
  (byte 0 * 961 + byte 1 * 31 + byte 2) % recentSize

/-- How long a copy of what starts at `candidate` may be. -/
def matchLength (content : Array UInt8) (candidate position : Nat) : Nat :=
  if candidate < position ∧ position - candidate ≤ 32768 then
    commonLength content candidate position 258
  else 0

/-- The token for a position and how many bytes it stands for: a copy of what starts at
`candidate` if that goes on equally for at least three bytes. -/
def nextToken (content : Array UInt8) (candidate position : Nat) : Token × Nat :=
  let length := matchLength content candidate position
  if 3 ≤ length then (.copy length (position - candidate), length)
  else (.literal (content.getD position 0), 1)

theorem nextToken_snd_pos (content : Array UInt8) (candidate position : Nat) :
    0 < (nextToken content candidate position).2 := by
  simp only [nextToken]
  split
  · simp only
    omega
  · exact Nat.one_pos

/-- Tokens for the content from a position on. The candidate for a copy is the last
position where three equal bytes were seen. -/
def tokenizeFrom (content : Array UInt8) (position : Nat) (recent : Array Nat)
    (tokens : Array Token) : Array Token :=
  if content.size ≤ position then tokens
  else
    let index := recentIndex content position
    let next := nextToken content (recent.getD index content.size) position
    tokenizeFrom content (position + next.2) (recent.setIfInBounds index position)
      (tokens.push next.1)
termination_by content.size - position
decreasing_by
  have := nextToken_snd_pos content (recent.getD (recentIndex content position) content.size)
    position
  omega

def tokenize (content : Array UInt8) : List Token :=
  (tokenizeFrom content 0 (Array.replicate recentSize content.size) #[]).toList

/-- A stream with the given content. -/
def deflate (content : Bytes) : Bytes :=
  let tokens := tokenize content.toArray
  let stored := storeAll content
  if tokens.all Token.isWritable && expand tokens == content.toArray then
    -- The tokens are known to stand for the content, however they were found.
    let packed := pack (writeFixed tokens)
    if packed.length < stored.length then packed else stored
  else stored

end Quorum.Deflate
