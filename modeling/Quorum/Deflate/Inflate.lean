import Quorum.Except
import Quorum.Deflate.Token

/-! # Reading a deflate stream

Blocks follow each other until one says it is the last. A block is stored as it is, or
coded with the fixed code, or with codes that it describes in front. What lies after the
last block is left.
-/

namespace Quorum.Deflate

/-- The next `count` bits as a number. -/
def readNumber (count : Nat) (source : Source) : Except Fault (Nat × Source) :=
  match source.number? count with
  | some found => .ok found
  | none => .error .incomplete

theorem size_of_readNumber {count n : Nat} {source after : Source}
    (h : readNumber count source = .ok (n, after)) : after.size + count = source.size := by
  simp only [readNumber] at h
  split at h
  next heq =>
    injection h with h
    subst h
    exact Source.size_of_number? heq
  next => contradiction

/-- A value of the grade that a symbol names. -/
def readGrade (grades : List Grade) (index : Nat) (source : Source) :
    Except Fault (Nat × Source) :=
  match grades[index]? with
  | none => .error .corrupt
  | some grade => (readNumber grade.extra source).map (Prod.map (grade.base + ·) id)

theorem size_le_of_readGrade {grades : List Grade} {index n : Nat} {source after : Source}
    (h : readGrade grades index source = .ok (n, after)) : after.size ≤ source.size := by
  simp only [readGrade] at h
  split at h
  · contradiction
  · obtain ⟨⟨added, rest⟩, hnumber, h⟩ := map_eq_ok.mp h
    injection h with _ h
    have := size_of_readNumber hnumber
    simp only [id] at h
    subst h
    omega

/-- A copy, whose length is of the given grade. -/
def readCopy (distances : Tree) (lengthIndex : Nat) (source : Source) :
    Except Fault (Token × Source) := do
  let (length, source) ← readGrade lengthGrades lengthIndex source
  let (symbol, source) ← distances.read source
  let (distance, source) ← readGrade distanceGrades symbol source
  return (.copy length distance, source)

theorem size_le_of_readCopy {distances : Tree} {index : Nat} {source after : Source}
    {token : Token} (h : readCopy distances index source = .ok (token, after)) :
    after.size ≤ source.size := by
  obtain ⟨⟨length, source₁⟩, hlength, h⟩ := bind_eq_ok.mp h
  obtain ⟨⟨symbol, source₂⟩, hsymbol, h⟩ := bind_eq_ok.mp h
  obtain ⟨⟨distance, source₃⟩, hdistance, h⟩ := bind_eq_ok.mp h
  injection h with h
  injection h with _ h
  subst h
  have := size_le_of_readGrade hlength
  have := Tree.size_lt_of_read hsymbol
  have := size_le_of_readGrade hdistance
  omega

/-- The next token of a block, none at the end of the block. -/
def readToken (literals distances : Tree) (source : Source) :
    Except Fault (Option Token × Source) := do
  let (symbol, source) ← literals.read source
  if symbol < endOfBlock then return (some (.literal (UInt8.ofNat symbol)), source)
  else if symbol = endOfBlock then return (none, source)
  else (readCopy distances (symbol - endOfBlock - 1) source).map (Prod.map some id)

theorem size_lt_of_readToken {literals distances : Tree} {source after : Source}
    {token : Option Token} (h : readToken literals distances source = .ok (token, after)) :
    after.size < source.size := by
  obtain ⟨⟨symbol, rest⟩, hsymbol, h⟩ := bind_eq_ok.mp h
  have hlt := Tree.size_lt_of_read hsymbol
  simp only at h
  split at h
  · injection h with h
    injection h with _ h
    exact h ▸ hlt
  · split at h
    · injection h with h
      injection h with _ h
      exact h ▸ hlt
    · obtain ⟨⟨copy, last⟩, hcopy, h⟩ := map_eq_ok.mp h
      injection h with _ h
      simp only [id] at h
      subst h
      exact Nat.lt_of_le_of_lt (size_le_of_readCopy hcopy) hlt

/-- Adds the content of a block to the output. -/
def readTokens (literals distances : Tree) (output : Array UInt8) (source : Source) :
    Except Fault (Array UInt8 × Source) :=
  match _h : readToken literals distances source with
  | .error fault => .error fault
  | .ok (none, source) => .ok (output, source)
  | .ok (some token, source) => readTokens literals distances (token.appendTo output) source
termination_by source.size
decreasing_by exact size_lt_of_readToken _h

theorem size_lt_of_readTokens {literals distances : Tree} {output result : Array UInt8}
    {source after : Source} (h : readTokens literals distances output source = .ok (result, after)) :
    after.size < source.size := by
  fun_induction readTokens literals distances output source with
  | case1 => contradiction
  | case2 output source after' htoken =>
      injection h with h
      injection h with _ h
      exact h ▸ size_lt_of_readToken htoken
  | case3 output source token next htoken ih =>
      exact Nat.lt_trans (ih h) (size_lt_of_readToken htoken)

/-- The content of a stored block: its length twice, the second time inverted, and the
bytes, from the next whole byte on. -/
def readStored (output : Array UInt8) (source : Source) : Except Fault (Array UInt8 × Source) :=
  match source.aligned.splitAt? 4 with
  | none => .error .incomplete
  | some (lengths, rest) =>
      let length := Bytes.toNat (lengths.take 2)
      -- A number and its inverse add up to a number of ones only.
      if length + Bytes.toNat (lengths.drop 2) ≠ 0xFFFF then .error .corrupt
      else match rest.splitAt? length with
        | none => .error .incomplete
        | some (content, rest) => .ok (output ++ content, .ofBytes rest)

theorem size_le_of_readStored {output result : Array UInt8} {source after : Source}
    (h : readStored output source = .ok (result, after)) : after.size ≤ source.size := by
  simp only [readStored] at h
  split at h
  · contradiction
  next lengths rest hlengths =>
    have := Bytes.length_of_splitAt? hlengths
    split at h
    · contradiction
    · split at h
      · contradiction
      next content last hcontent =>
        have := Bytes.length_of_splitAt? hcontent
        injection h with h
        injection h with _ h
        subst h
        simp only [Source.size, Source.ofBytes, Source.aligned, List.length_nil] at *
        omega

/-- The order in which a block gives the lengths of the code for code lengths. -/
def lengthOrder : List Nat :=
  [16, 17, 18, 0, 8, 7, 9, 6, 10, 5, 11, 4, 12, 3, 13, 2, 14, 1, 15]

/-- So many numbers of three bits. -/
def readTriples : (count : Nat) → Source → Except Fault (List Nat × Source)
  | 0, source => .ok ([], source)
  | count + 1, source => do
      let (n, source) ← readNumber 3 source
      let (numbers, source) ← readTriples count source
      return (n :: numbers, source)

theorem size_le_of_readTriples {count : Nat} {source after : Source} {numbers : List Nat}
    (h : readTriples count source = .ok (numbers, after)) : after.size ≤ source.size := by
  induction count generalizing source after numbers with
  | zero =>
      injection h with h
      injection h with _ h
      exact h ▸ Nat.le_refl _
  | succ count ih =>
      obtain ⟨⟨_, source₁⟩, hnumber, h⟩ := bind_eq_ok.mp h
      obtain ⟨⟨_, source₂⟩, hmore, h⟩ := bind_eq_ok.mp h
      injection h with h
      injection h with _ h
      subst h
      have := size_of_readNumber hnumber
      have := ih hmore
      omega

/-- A run of equal code lengths: so many extra bits give what is added to the least
number of repetitions. -/
structure Run where
  extra : Nat
  least : Nat
  length : Nat
  deriving DecidableEq, Repr

/-- The run a symbol beyond the lengths stands for: one repeats the last length, which
must be there, and two stand for many zeros. -/
def run? (symbol : Nat) (last : Option Nat) : Option Run :=
  if symbol = 16 then last.map (⟨2, 3, ·⟩)
  else if symbol = 17 then some ⟨3, 3, 0⟩
  else some ⟨7, 11, 0⟩

/-- Code lengths until there are as many as wanted; a run may not go beyond. -/
def readLengths (tree : Tree) (total : Nat) (lengths : Array Nat) (source : Source) :
    Except Fault (List Nat × Source) :=
  if total ≤ lengths.size then
    if total = lengths.size then .ok (lengths.toList, source) else .error .corrupt
  else match _hsymbol : tree.read source with
    | .error fault => .error fault
    | .ok (symbol, source₁) =>
        if symbol < 16 then readLengths tree total (lengths.push symbol) source₁
        else match run? symbol lengths.back? with
          | none => .error .corrupt
          | some run =>
              -- A run that goes beyond the wanted count is refused at the next turn.
              match _hextra : readNumber run.extra source₁ with
              | .error fault => .error fault
              | .ok (added, source₂) =>
                  readLengths tree total
                    (lengths ++ Array.replicate (run.least + added) run.length) source₂
termination_by source.size
decreasing_by
  · exact Tree.size_lt_of_read _hsymbol
  · have := Tree.size_lt_of_read _hsymbol
    have := size_of_readNumber _hextra
    omega

theorem size_le_of_readLengths {tree : Tree} {total : Nat} {lengths : Array Nat}
    {source after : Source} {result : List Nat}
    (h : readLengths tree total lengths source = .ok (result, after)) :
    after.size ≤ source.size := by
  fun_induction readLengths tree total lengths source with
  | case1 lengths source =>
      injection h with h
      injection h with _ h
      exact h ▸ Nat.le_refl _
  | case4 lengths source _ symbol next hsymbol _ ih =>
      exact Nat.le_trans (ih h) (Nat.le_of_lt (Tree.size_lt_of_read hsymbol))
  | case7 lengths source _ symbol next hsymbol _ run _ added last hextra ih =>
      have := Tree.size_lt_of_read hsymbol
      have := size_of_readNumber hextra
      have := ih h
      omega
  | _ => contradiction

/-- How many code lengths a block gives. -/
structure Counts where
  literals : Nat
  distances : Nat
  /-- For the code in which the others are given. -/
  order : Nat
  deriving DecidableEq, Repr

/-- The counts at the front of a block, of which two are limited. -/
def readCounts (source : Source) : Except Fault (Counts × Source) := do
  let (literals, source) ← readNumber 5 source
  let (distances, source) ← readNumber 5 source
  let (order, source) ← readNumber 4 source
  -- The last two symbols of either code stand for nothing.
  if literals + 257 ≤ 286 ∧ distances + 1 ≤ 30 then
    .ok (⟨literals + 257, distances + 1, order + 4⟩, source)
  else .error .corrupt

/-- The tree of a code whose words leave nothing open, or that has at most one word. -/
def codeTree (lengths : List Nat) : Except Fault Tree :=
  if isComplete lengths || isTrivial lengths then .ok (treeOf lengths) else .error .corrupt

/-- The tree of the code in which code lengths are given, which must be complete. -/
def lengthTree (given : List Nat) : Except Fault Tree :=
  let ordered := lengthOrder.zip given
  let lengths := (List.range lengthOrder.length).map fun symbol => (ordered.lookup symbol).getD 0
  if isComplete lengths then .ok (treeOf lengths) else .error .corrupt

/-- The codes of a block that describes them, for literals and for distances. -/
def readCodes (source : Source) : Except Fault ((Tree × Tree) × Source) := do
  let (counts, source) ← readCounts source
  let (given, source) ← readTriples counts.order source
  let tree ← lengthTree given
  let (lengths, source) ← readLengths tree (counts.literals + counts.distances) #[] source
  let literals ← codeTree (lengths.take counts.literals)
  let distances ← codeTree (lengths.drop counts.literals)
  return ((literals, distances), source)

theorem size_le_of_readCounts {source after : Source} {counts : Counts}
    (h : readCounts source = .ok (counts, after)) : after.size ≤ source.size := by
  obtain ⟨⟨_, source₁⟩, h₁, h⟩ := bind_eq_ok.mp h
  obtain ⟨⟨_, source₂⟩, h₂, h⟩ := bind_eq_ok.mp h
  obtain ⟨⟨_, source₃⟩, h₃, h⟩ := bind_eq_ok.mp h
  have := size_of_readNumber h₁
  have := size_of_readNumber h₂
  have := size_of_readNumber h₃
  simp only at h
  split at h
  · injection h with h
    injection h with _ h
    subst h
    omega
  · contradiction

theorem size_le_of_readCodes {source after : Source} {codes : Tree × Tree}
    (h : readCodes source = .ok (codes, after)) : after.size ≤ source.size := by
  obtain ⟨⟨_, source₁⟩, h₁, h⟩ := bind_eq_ok.mp h
  obtain ⟨⟨_, source₂⟩, h₂, h⟩ := bind_eq_ok.mp h
  obtain ⟨_, _, h⟩ := bind_eq_ok.mp h
  obtain ⟨⟨_, source₃⟩, h₃, h⟩ := bind_eq_ok.mp h
  obtain ⟨_, _, h⟩ := bind_eq_ok.mp h
  obtain ⟨_, _, h⟩ := bind_eq_ok.mp h
  injection h with h
  injection h with _ h
  subst h
  have := size_le_of_readCounts h₁
  have := size_le_of_readTriples h₂
  have := size_le_of_readLengths h₃
  omega

/-- The content of a block of the given kind. -/
def readBlock (kind : Nat) (output : Array UInt8) (source : Source) :
    Except Fault (Array UInt8 × Source) :=
  match kind with
  | 0 => readStored output source
  | 1 => readTokens fixedLiteralTree fixedDistanceTree output source
  | 2 => do
      let ((literals, distances), source) ← readCodes source
      readTokens literals distances output source
  | _ => .error .corrupt

theorem size_le_of_readBlock {kind : Nat} {output result : Array UInt8} {source after : Source}
    (h : readBlock kind output source = .ok (result, after)) : after.size ≤ source.size := by
  unfold readBlock at h
  split at h
  · exact size_le_of_readStored h
  · exact Nat.le_of_lt (size_lt_of_readTokens h)
  · obtain ⟨⟨codes, rest⟩, hcodes, h⟩ := bind_eq_ok.mp h
    have := size_le_of_readCodes hcodes
    have := size_lt_of_readTokens h
    omega
  · contradiction

/-- Adds the content of all blocks to the output; the bytes after the last are left. -/
def readBlocks (output : Array UInt8) (source : Source) : Except Fault (Array UInt8 × Bytes) :=
  match _hfinal : readNumber 1 source with
  | .error fault => .error fault
  | .ok (final, source₁) =>
      match _hkind : readNumber 2 source₁ with
      | .error fault => .error fault
      | .ok (kind, source₂) =>
          match _hblock : readBlock kind output source₂ with
          | .error fault => .error fault
          | .ok (output, source₃) =>
              if final = 1 then .ok (output, source₃.aligned) else readBlocks output source₃
termination_by source.size
decreasing_by
  have := size_of_readNumber _hfinal
  have := size_of_readNumber _hkind
  have := size_le_of_readBlock _hblock
  omega

/-- The content of the stream at the front of some bytes, and the bytes after it. -/
def inflate (bytes : Bytes) : Except Fault (Bytes × Bytes) :=
  (readBlocks #[] (.ofBytes bytes)).map (Prod.map Array.toList id)

end Quorum.Deflate
