import Mathlib.Algebra.Group.Nat.Defs
import Quorum.Deflate.Inflate

/-! # Deflate streams

What the bits of a stream stand for, said without a reader and without a writer. Content
can be put into bits in many ways: it may be cut into blocks anywhere, a block may be
stored or coded, with the fixed code or with codes of its own, and the same bytes may be
literals or copies. All of these are streams of the content. A copy may reach back beyond the
start of the content, where there are zeros.
-/

namespace Quorum.Deflate

/-- The bits of some bytes, in the order in which they are taken. -/
def bitsOf (bytes : Bytes) : List Bool :=
  bytes.flatMap fun byte => lowBits 8 byte.toNat

/-! ## Tokens -/

/-- Extra bits that choose a value from the grade with an index. -/
inductive Chosen (grades : List Grade) (index : Nat) : (value : Nat) → List Bool → Prop where
  | chosen {grade : Grade} {added : Nat} (hgrade : grades[index]? = some grade)
      (hadded : added < 2 ^ grade.extra) :
      Chosen grades index (grade.base + added) (lowBits grade.extra added)

/-- The bits of a token in codes that are given by the lengths of their words. -/
inductive Token.Coded (literals distances : List Nat) : Token → List Bool → Prop where
  | literal {byte : UInt8} {word : List Bool} (hword : (byte.toNat, word) ∈ codeWords literals) :
      Coded literals distances (.literal byte) word
  | copy {lengthIndex length distanceIndex distance : Nat}
      {lengthWord lengthBits distanceWord distanceBits : List Bool}
      (hlengthWord : (endOfBlock + 1 + lengthIndex, lengthWord) ∈ codeWords literals)
      (hlength : Chosen lengthGrades lengthIndex length lengthBits)
      (hdistanceWord : (distanceIndex, distanceWord) ∈ codeWords distances)
      (hdistance : Chosen distanceGrades distanceIndex distance distanceBits) :
      Coded literals distances (.copy length distance)
        (lengthWord ++ (lengthBits ++ (distanceWord ++ distanceBits)))

/-- The bits of some tokens and of the end of their block. -/
inductive TokensCoded (literals distances : List Nat) : List Token → List Bool → Prop where
  | nil {word : List Bool} (hword : (endOfBlock, word) ∈ codeWords literals) :
      TokensCoded literals distances [] word
  | cons {token : Token} {tokens : List Token} {first rest : List Bool}
      (hfirst : token.Coded literals distances first)
      (hrest : TokensCoded literals distances tokens rest) :
      TokensCoded literals distances (token :: tokens) (first ++ rest)

/-! ## Codes -/

/-- A code whose words leave nothing open, or that has at most one word. -/
def Admissible (lengths : List Nat) : Prop :=
  isComplete lengths || isTrivial lengths

/-- Bits that add code lengths to those before: one by one, or a run of equal ones. -/
inductive LengthsCoded (code : List Nat) : (before : List Nat) → List Bool → (all : List Nat) →
    Prop where
  | done (all : List Nat) : LengthsCoded code all [] all
  | length {before all : List Nat} {length : Nat} {word rest : List Bool}
      (hword : (length, word) ∈ codeWords code) (hlength : length < 16)
      (hrest : LengthsCoded code (before ++ [length]) rest all) :
      LengthsCoded code before (word ++ rest) all
  | run {before all : List Nat} {symbol added : Nat} {run : Run} {word rest : List Bool}
      (hword : (symbol, word) ∈ codeWords code) (hsymbol : 16 ≤ symbol)
      (hrun : run? symbol before.getLast? = some run) (hadded : added < 2 ^ run.extra)
      (hrest : LengthsCoded code (before ++ List.replicate (run.least + added) run.length) rest
        all) :
      LengthsCoded code before (word ++ (lowBits run.extra added ++ rest)) all

/-- The bits in front of a block that describe its two codes. The lengths of the code in which
their lengths are given come first, as many as are not zero in the order of lengths. -/
inductive CodesDescribed (literals distances : List Nat) : List Bool → Prop where
  | described {code : List Nat} {count : Nat} {bits : List Bool}
      (hliterals : 257 ≤ literals.length ∧ literals.length ≤ 286)
      (hdistances : 1 ≤ distances.length ∧ distances.length ≤ 30)
      (hadmissible : Admissible literals ∧ Admissible distances)
      (hcode : code.length = lengthOrder.length) (hsmall : ∀ length ∈ code, length < 8)
      (hcomplete : isComplete code) (hcount : 4 ≤ count ∧ count ≤ lengthOrder.length)
      (hleft : ∀ symbol ∈ lengthOrder.drop count, code.getD symbol 0 = 0)
      (hlengths : LengthsCoded code [] bits (literals ++ distances)) :
      CodesDescribed literals distances
        (lowBits 5 (literals.length - 257) ++ (lowBits 5 (distances.length - 1) ++
          (lowBits 4 (count - 4) ++
            ((lengthOrder.take count).flatMap (fun symbol => lowBits 3 (code.getD symbol 0)) ++
              bits))))

/-! ## Blocks -/

/-- The bits of a block that leads from the content before it to that with its own, if the
other bits are those of the rest of the stream. -/
inductive Block (before : Array UInt8) : (bits rest : List Bool) → (after : Array UInt8) →
    Prop where
  /-- Stored content starts at a whole byte: whole bytes are left from there on. -/
  | stored {filler rest : List Bool} {content : Bytes} (hfiller : filler.length < 8)
      (haligned : rest.length % 8 = 0) (hlength : content.length ≤ 0xFFFF) :
      Block before
        (false :: false :: (filler ++ bitsOf (Bytes.littleEndian 2 content.length ++
          Bytes.littleEndian 2 (0xFFFF - content.length) ++ content)))
        rest (before ++ content)
  | fixed {tokens : List Token} {bits rest : List Bool}
      (htokens : TokensCoded fixedLiteralLengths fixedDistanceLengths tokens bits) :
      Block before (true :: false :: bits) rest (tokens.foldl Token.appendTo before)
  | described {literals distances : List Nat} {tokens : List Token} {codes bits rest : List Bool}
      (hcodes : CodesDescribed literals distances codes)
      (htokens : TokensCoded literals distances tokens bits) :
      Block before (false :: true :: (codes ++ bits)) rest (tokens.foldl Token.appendTo before)

/-- The bits of some blocks, each with a mark that tells whether it is the last one, up to a
whole byte. -/
inductive Blocks : (before : Array UInt8) → List Bool → (after : Array UInt8) → Prop where
  | last {before after : Array UInt8} {bits filler : List Bool} (hfiller : filler.length < 8)
      (hblock : Block before bits filler after) : Blocks before (true :: (bits ++ filler)) after
  | more {before next after : Array UInt8} {bits rest : List Bool}
      (hblock : Block before bits rest next) (hrest : Blocks next rest after) :
      Blocks before (false :: (bits ++ rest)) after

/-- Bytes that are a stream with some content. -/
def IsStream (content stream : Bytes) : Prop :=
  Blocks #[] (bitsOf stream) content.toArray

end Quorum.Deflate
