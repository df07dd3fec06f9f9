import Quorum.Deflate.Bits

/-! # Huffman codes

A code is given by the length of each symbol's code word: words of one length follow
each other in the order of their symbols, and shorter words come before longer ones.
A decoding tree is walked from the root, to the left at a zero.
-/

namespace Quorum.Deflate

/-- The code words not yet told apart; `vacant` where no word of the code leads. -/
inductive Tree where
  | vacant
  | leaf (symbol : Nat)
  | node (left right : Tree)
  deriving DecidableEq, Repr

namespace Tree

/-- The tree with one more code word. -/
def insert (symbol : Nat) : Tree → List Bool → Tree
  | _, [] => .leaf symbol
  | .node left right, false :: word => .node (left.insert symbol word) right
  | .node left right, true :: word => .node left (right.insert symbol word)
  | _, false :: word => .node (insert symbol .vacant word) .vacant
  | _, true :: word => .node .vacant (insert symbol .vacant word)

end Tree

/-- The `length` bits of a code word, the highest first. -/
def codeWord (length code : Nat) : List Bool :=
  (lowBits length code).reverse

/-- The symbols of the given lengths that have a code word of this length. -/
def symbolsOfLength (lengths : List Nat) (length : Nat) : List Nat :=
  (lengths.zipIdx.filter (·.1 == length)).map (·.2)

/-- The greatest length of a code word. -/
def maximalLength : Nat := 15

/-- The words of the lengths from `length` on, if `code` is the first of them. -/
def codeWordsFrom (lengths : List Nat) : (left : Nat) → (length code : Nat) →
    List (Nat × List Bool)
  | 0, _, _ => []
  | left + 1, length, code =>
      let symbols := symbolsOfLength lengths length
      symbols.zipIdx.map (fun (symbol, rank) => (symbol, codeWord length (code + rank)))
        ++ codeWordsFrom lengths left (length + 1) (2 * (code + symbols.length))

/-- The symbols of a code with their words. A length of zero means no word. -/
def codeWords (lengths : List Nat) : List (Nat × List Bool) :=
  codeWordsFrom lengths maximalLength 1 0

/-- The decoding tree of a code. -/
def treeOf (lengths : List Nat) : Tree :=
  (codeWords lengths).foldl (fun tree (symbol, word) => tree.insert symbol word) .vacant

/-- The share of all words of the greatest length that start with a word of the code. -/
def kraftSum (lengths : List Nat) : Nat :=
  (lengths.map fun length => if length = 0 then 0 else Nat.pow 2 (maximalLength - length)).foldl
    (· + ·) 0

/-- Whether every sequence of bits starts with exactly one word of the code. -/
def isComplete (lengths : List Nat) : Bool :=
  kraftSum lengths == Nat.pow 2 maximalLength

/-- Whether a code has one word or none. -/
def isTrivial (lengths : List Nat) : Bool :=
  (lengths.filter (· != 0)).length ≤ 1

/-- Why a stream cannot be read: its bits end too early, or they are no deflate data. -/
inductive Fault where
  | incomplete
  | corrupt
  deriving DecidableEq, Repr

namespace Tree

/-- Takes a symbol's code word off a source. -/
def walk : Tree → Source → Except Fault (Nat × Source)
  | .vacant, _ => .error .corrupt
  | .leaf symbol, source => .ok (symbol, source)
  | .node left right, source =>
      match source.next? with
      | none => .error .incomplete
      | some (false, source) => left.walk source
      | some (true, source) => right.walk source

/-- Takes a symbol of a code, whose words have at least one bit. -/
def read (tree : Tree) (source : Source) : Except Fault (Nat × Source) :=
  match tree with
  | .leaf _ => .error .corrupt
  | _ => tree.walk source

theorem size_le_of_walk {tree : Tree} {source after : Source} {symbol : Nat}
    (h : tree.walk source = .ok (symbol, after)) : after.size ≤ source.size := by
  induction tree generalizing source with
  | vacant => simp [walk] at h
  | leaf found =>
      simp only [walk] at h
      injection h with h
      injection h with _ h
      exact h ▸ Nat.le_refl _
  | node left right ihl ihr =>
      simp only [walk] at h
      split at h
      · contradiction
      next hnext =>
        have := Source.size_of_next? hnext
        have := ihl h
        omega
      next hnext =>
        have := Source.size_of_next? hnext
        have := ihr h
        omega

theorem size_lt_of_read {tree : Tree} {source after : Source} {symbol : Nat}
    (h : tree.read source = .ok (symbol, after)) : after.size < source.size := by
  cases tree with
  | vacant => simp [read, walk] at h
  | leaf => simp [read] at h
  | node left right =>
      simp only [read, walk] at h
      split at h
      · contradiction
      next hnext =>
        have := Source.size_of_next? hnext
        have := size_le_of_walk h
        omega
      next hnext =>
        have := Source.size_of_next? hnext
        have := size_le_of_walk h
        omega

end Tree
end Quorum.Deflate
