import Mathlib.Tactic.Ring
import Quorum.Proofs.Deflate.Stream

/-! # The words of a code

A word of bits stands for an interval of numbers: of all longer words that begin with it.
The words of a code are given out in order, each where the interval of the one before
ends, and by the sum over their lengths there is room for all of them. So no word begins
with another one, and the tree of the code leads from each word to its symbol.
-/

namespace Quorum.Deflate

/-! ## Intervals -/

theorem bitsToNat_append (first second : List Bool) :
    bitsToNat (first ++ second) = bitsToNat first + 2 ^ first.length * bitsToNat second := by
  induction first with
  | nil => simp [bitsToNat]
  | cons bit rest ih =>
      rw [List.cons_append, bitsToNat, ih, bitsToNat, List.length_cons, Nat.pow_succ, Nat.mul_add]
      ring

theorem bitsToNat_lt (bits : List Bool) : bitsToNat bits < 2 ^ bits.length := by
  induction bits with
  | nil => simp [bitsToNat]
  | cons bit rest ih =>
      have hbit : bit.toNat ≤ 1 := Bool.toNat_le bit
      rw [bitsToNat, List.length_cons, Nat.pow_succ]
      omega

/-- The width of a word's interval, of which one of no bits has the whole. -/
def width (word : List Bool) : Nat :=
  2 ^ (maximalLength + 1 - word.length)

/-- Where a word's interval starts. -/
def start (word : List Bool) : Nat :=
  bitsToNat word.reverse * width word

/-- The interval of a word ends before that of another one starts. -/
def Precedes (first second : List Bool) : Prop :=
  start first + width first ≤ start second

theorem start_append {first rest : List Bool}
    (hlength : (first ++ rest).length ≤ maximalLength + 1) :
    start first ≤ start (first ++ rest) ∧ start (first ++ rest) < start first + width first := by
  have hpow : width first = 2 ^ rest.length * width (first ++ rest) := by
    rw [width, width, ← Nat.pow_add, List.length_append]
    rw [List.length_append] at hlength
    congr 1
    omega
  have hstart : start (first ++ rest) =
      bitsToNat rest.reverse * width (first ++ rest) + start first := by
    rw [start, List.reverse_append, bitsToNat_append, List.length_reverse, start, hpow]
    ring
  have hrest := bitsToNat_lt rest.reverse
  rw [List.length_reverse] at hrest
  have hlt : bitsToNat rest.reverse * width (first ++ rest) < width first := by
    rw [hpow]
    exact Nat.mul_lt_mul_of_pos_right hrest (Nat.two_pow_pos _)
  omega

/-- No word is the beginning of another one. -/
def Apart (first second : List Bool) : Prop :=
  ¬ first <+: second ∧ ¬ second <+: first

theorem Apart.symm {first second : List Bool} (h : Apart first second) : Apart second first :=
  ⟨h.2, h.1⟩

theorem Precedes.apart {first second : List Bool} (h : Precedes first second)
    (hfirst : first.length ≤ maximalLength + 1) (hsecond : second.length ≤ maximalLength + 1) :
    Apart first second := by
  have hwidth : 0 < width first := Nat.two_pow_pos _
  unfold Precedes at h
  constructor
  · rintro ⟨rest, rfl⟩
    have := start_append hsecond
    omega
  · rintro ⟨rest, rfl⟩
    have := start_append hfirst
    omega

/-! ## The words are given out in order -/

/-- The share of the words of so many lengths from `length` on. -/
def kraftFrom (lengths : List Nat) : (left length : Nat) → Nat
  | 0, _ => 0
  | left + 1, length =>
      lengths.count length * 2 ^ (maximalLength + 1 - length) + kraftFrom lengths left (length + 1)

theorem length_symbolsOfLength (lengths : List Nat) (length : Nat) :
    (symbolsOfLength lengths length).length = lengths.count length := by
  have hfst := List.zipIdx_map_fst 0 lengths
  rw [symbolsOfLength, List.length_map, ← List.countP_eq_length_filter, List.count]
  conv_rhs => rw [← hfst, List.countP_map]
  rfl

theorem length_codeWord (length code : Nat) : (codeWord length code).length = length := by
  rw [codeWord, List.length_reverse, length_lowBits]

theorem start_codeWord {length code : Nat} (h : code < 2 ^ length) :
    start (codeWord length code) = code * 2 ^ (maximalLength + 1 - length) := by
  rw [start, width, length_codeWord, codeWord, List.reverse_reverse, bitsToNat_lowBits,
    Nat.pow_eq, Nat.mod_eq_of_lt h]

/-- The words of one length are beside each other. -/
theorem words_precede {length code : Nat} {symbols : List Nat}
    (hfits : code + symbols.length ≤ 2 ^ length) :
    (∀ entry ∈ symbols.zipIdx.map fun (symbol, rank) => (symbol, codeWord length (code + rank)),
      entry.2.length = length ∧ code * 2 ^ (maximalLength + 1 - length) ≤ start entry.2 ∧
        start entry.2 + width entry.2 ≤
          (code + symbols.length) * 2 ^ (maximalLength + 1 - length)) ∧
      (symbols.zipIdx.map fun (symbol, rank) => (symbol, codeWord length (code + rank))).Pairwise
        fun first second => Precedes first.2 second.2 := by
  have hend : ∀ rank < symbols.length, start (codeWord length (code + rank)) +
      width (codeWord length (code + rank)) =
        (code + rank + 1) * 2 ^ (maximalLength + 1 - length) := by
    intro rank hrank
    rw [start_codeWord (by omega), width, length_codeWord, Nat.add_mul _ 1, Nat.one_mul]
  constructor
  · intro entry hentry
    obtain ⟨⟨symbol, rank⟩, hmem, rfl⟩ := List.mem_map.mp hentry
    have hrank : rank < symbols.length := by simpa using List.snd_lt_of_mem_zipIdx hmem
    refine ⟨length_codeWord _ _, ?_, ?_⟩
    · rw [start_codeWord (by omega)]
      exact Nat.mul_le_mul_right _ (Nat.le_add_right code rank)
    · rw [hend rank hrank]
      exact Nat.mul_le_mul_right _ (by omega)
  · have hranks : symbols.zipIdx.Pairwise fun first second => first.2 < second.2 := by
      have hsnd : symbols.zipIdx.map Prod.snd = List.range' 0 symbols.length :=
        List.zipIdx_map_snd 0 symbols
      rw [← List.pairwise_map (f := Prod.snd) (R := (· < ·)), hsnd]
      exact List.pairwise_lt_range'
    refine List.pairwise_map.mpr (hranks.imp_of_mem ?_)
    rintro ⟨_, first⟩ ⟨_, second⟩ hfirst hsecond (hlt : first < second)
    have hfirst : first < symbols.length := by simpa using List.snd_lt_of_mem_zipIdx hfirst
    have hsecond : second < symbols.length := by simpa using List.snd_lt_of_mem_zipIdx hsecond
    rw [Precedes, hend first hfirst, start_codeWord (by omega)]
    exact Nat.mul_le_mul_right _ (by omega)

/-- The words from a length on come after the first of them, and each after those before. -/
theorem codeWordsFrom_precede {lengths : List Nat} {left length code : Nat}
    (hleft : length + left = maximalLength + 1)
    (hroom : code * 2 ^ (maximalLength + 1 - length) + kraftFrom lengths left length ≤
      2 ^ (maximalLength + 1)) :
    (∀ entry ∈ codeWordsFrom lengths left length code,
      length ≤ entry.2.length ∧ entry.2.length ≤ maximalLength ∧
        code * 2 ^ (maximalLength + 1 - length) ≤ start entry.2) ∧
      (codeWordsFrom lengths left length code).Pairwise fun first second =>
        Precedes first.2 second.2 := by
  induction left generalizing length code with
  | zero => simp [codeWordsFrom]
  | succ left ih =>
      -- The next length begins where this one ends, with words of half the width.
      have hnext : 2 * (code + (symbolsOfLength lengths length).length) *
          2 ^ (maximalLength + 1 - (length + 1)) =
            (code + (symbolsOfLength lengths length).length) *
              2 ^ (maximalLength + 1 - length) := by
        have hexp : maximalLength + 1 - length = maximalLength + 1 - (length + 1) + 1 := by omega
        rw [hexp, Nat.pow_succ]
        ring
      rw [kraftFrom, ← length_symbolsOfLength, ← Nat.add_assoc, ← Nat.add_mul] at hroom
      have hfits : code + (symbolsOfLength lengths length).length ≤ 2 ^ length := by
        have hpow : 2 ^ (maximalLength + 1) = 2 ^ length * 2 ^ (maximalLength + 1 - length) := by
          rw [← Nat.pow_add]
          congr 1
          omega
        rw [hpow] at hroom
        exact Nat.le_of_mul_le_mul_right (Nat.le_trans (Nat.le_add_right _ _) hroom)
          (Nat.two_pow_pos _)
      obtain ⟨hwords, hordered⟩ := words_precede hfits
      obtain ⟨hbehind, hrest⟩ := ih (by omega) (hnext ▸ hroom)
      rw [hnext] at hbehind
      refine ⟨fun entry hentry => ?_, List.pairwise_append.mpr ⟨hordered, hrest, ?_⟩⟩
      · rcases List.mem_append.mp hentry with hentry | hentry
        · obtain ⟨hlength, hstart, -⟩ := hwords entry hentry
          exact ⟨by omega, by omega, hstart⟩
        · obtain ⟨hmin, hmax, hstart⟩ := hbehind entry hentry
          exact ⟨by omega, hmax, Nat.le_trans (Nat.mul_le_mul_right _ (by omega)) hstart⟩
      · intro first hfirst second hsecond
        exact Nat.le_trans (hwords first hfirst).2.2 (hbehind second hsecond).2.2

/-! ## There is room for all words -/

theorem kraftFrom_cons (first : Nat) (rest : List Nat) (left length : Nat) :
    kraftFrom (first :: rest) left length = kraftFrom rest left length +
      if length ≤ first ∧ first < length + left then 2 ^ (maximalLength + 1 - first) else 0 := by
  induction left generalizing length with
  | zero =>
      rw [kraftFrom, kraftFrom, if_neg (by omega)]
  | succ left ih =>
      rw [kraftFrom, kraftFrom, ih, List.count_cons]
      by_cases hfirst : first = length
      · subst hfirst
        have hafter : ¬ (first + 1 ≤ first ∧ first < first + 1 + left) := by omega
        have hrange : first ≤ first ∧ first < first + (left + 1) := by omega
        rw [if_neg hafter, if_pos hrange]
        simp only [beq_self_eq_true, if_true]
        ring
      · have hrange : (length + 1 ≤ first ∧ first < length + 1 + left) ↔
            length ≤ first ∧ first < length + (left + 1) := by omega
        simp only [beq_iff_eq, hfirst, if_false, hrange]
        ring

theorem kraftSum_eq_sum (lengths : List Nat) :
    kraftSum lengths =
      (lengths.map fun length => if length = 0 then 0 else 2 ^ (maximalLength - length)).sum := by
  rw [kraftSum, List.sum_eq_foldl]
  rfl

theorem kraftFrom_le (lengths : List Nat) :
    kraftFrom lengths maximalLength 1 ≤ 2 * kraftSum lengths := by
  rw [kraftSum_eq_sum]
  induction lengths with
  | nil => decide
  | cons first rest ih =>
      rw [kraftFrom_cons, List.map_cons, List.sum_cons, Nat.mul_add]
      by_cases hrange : 1 ≤ first ∧ first < 1 + maximalLength
      · have hexp : maximalLength + 1 - first = maximalLength - first + 1 := by omega
        rw [if_pos hrange, if_neg (by omega), hexp, Nat.pow_succ]
        omega
      · rw [if_neg hrange]
        omega

theorem kraftSum_le_count (lengths : List Nat) :
    kraftSum lengths ≤ (lengths.filter (· != 0)).length * 2 ^ maximalLength := by
  rw [kraftSum_eq_sum]
  induction lengths with
  | nil => simp
  | cons first rest ih =>
      rw [List.map_cons, List.sum_cons, List.filter_cons]
      by_cases hfirst : first = 0
      · simpa [hfirst] using ih
      · have hpow : 2 ^ (maximalLength - first) ≤ 2 ^ maximalLength :=
          Nat.pow_le_pow_right (by decide) (Nat.sub_le _ _)
        simp only [hfirst, if_false, bne_iff_ne, ne_eq, not_false_eq_true, if_true,
          List.length_cons, Nat.add_mul]
        omega

/-- An admissible code has words for all its symbols. -/
theorem Admissible.kraftSum_le {lengths : List Nat} (h : Admissible lengths) :
    kraftSum lengths ≤ 2 ^ maximalLength := by
  rcases (Bool.or_eq_true _ _).mp h with hcomplete | htrivial
  · exact Nat.le_of_eq (beq_iff_eq.mp hcomplete)
  · have hone : (lengths.filter (· != 0)).length ≤ 1 := of_decide_eq_true htrivial
    calc
      kraftSum lengths ≤ (lengths.filter (· != 0)).length * 2 ^ maximalLength :=
        kraftSum_le_count lengths
      _ ≤ 1 * 2 ^ maximalLength := Nat.mul_le_mul_right _ hone
      _ = 2 ^ maximalLength := Nat.one_mul _

/-- No word of a code is the beginning of another one, and each has at least one bit. -/
theorem codeWords_apart {lengths : List Nat} (h : kraftSum lengths ≤ 2 ^ maximalLength) :
    (∀ entry ∈ codeWords lengths, entry.2 ≠ []) ∧
      (codeWords lengths).Pairwise fun first second => Apart first.2 second.2 := by
  have hroom := kraftFrom_le lengths
  obtain ⟨hlengths, hordered⟩ := @codeWordsFrom_precede lengths maximalLength 1 0 rfl
    (by rw [Nat.zero_mul, Nat.pow_succ]; omega)
  refine ⟨fun entry hentry hnil => ?_, hordered.imp_of_mem ?_⟩
  · have hlength := (hlengths entry hentry).1
    rw [hnil] at hlength
    exact Nat.not_succ_le_zero 0 hlength
  · intro first second hfirst hsecond hprecedes
    have := (hlengths first hfirst).2.1
    have := (hlengths second hsecond).2.1
    exact hprecedes.apart (by omega) (by omega)

/-! ## The tree of a code -/

namespace Tree

/-- The symbol to which a whole code word leads. -/
def find? : Tree → List Bool → Option Nat
  | .leaf symbol, [] => some symbol
  | .node left _, false :: word => left.find? word
  | .node _ right, true :: word => right.find? word
  | _, _ => none

variable {tree : Tree} {word other : List Bool} {symbol : Nat}

theorem find?_insert_self (tree : Tree) (symbol : Nat) (word : List Bool) :
    (tree.insert symbol word).find? word = some symbol := by
  induction word generalizing tree with
  | nil => cases tree <;> rfl
  | cons bit word ih => cases tree <;> cases bit <;> exact ih _

/-- A word leads where it led before another one was inserted that is apart from it. -/
theorem find?_insert_of_apart (h : Apart other word) (tree : Tree) (symbol : Nat) :
    (tree.insert symbol other).find? word = tree.find? word := by
  induction other generalizing tree word with
  | nil => exact absurd List.nil_prefix h.1
  | cons bit other ih =>
      cases word with
      | nil => exact absurd List.nil_prefix h.2
      | cons first word =>
          by_cases hbit : bit = first
          · subst hbit
            have hapart : Apart other word :=
              ⟨fun hprefix => h.1 (List.cons_prefix_cons.mpr ⟨rfl, hprefix⟩),
                fun hprefix => h.2 (List.cons_prefix_cons.mpr ⟨rfl, hprefix⟩)⟩
            cases tree <;> cases bit <;> simp only [insert, find?, ih hapart]
          -- Here the words part, and the other one goes into the other half of the tree.
          · obtain rfl : first = !bit := Bool.eq_not.mpr (Ne.symm hbit)
            cases tree <;> cases bit <;> simp only [insert, find?, Bool.not_true, Bool.not_false]

theorem find?_insertAll {entries : List (Nat × List Bool)}
    (h : ∀ entry ∈ entries, Apart entry.2 word) (tree : Tree) :
    (entries.foldl (fun tree (symbol, word) => tree.insert symbol word) tree).find? word =
      tree.find? word := by
  induction entries generalizing tree with
  | nil => rfl
  | cons entry rest ih =>
      rw [List.foldl_cons, ih fun other hother => h other (List.mem_cons_of_mem _ hother)]
      exact find?_insert_of_apart (h entry List.mem_cons_self) tree entry.1

end Tree

/-- The tree of a code leads from each word to its symbol. -/
theorem find?_treeOf {lengths : List Nat} (h : kraftSum lengths ≤ 2 ^ maximalLength)
    {symbol : Nat} {word : List Bool} (hword : (symbol, word) ∈ codeWords lengths) :
    (treeOf lengths).find? word = some symbol ∧ word ≠ [] := by
  obtain ⟨hnonempty, hapart⟩ := codeWords_apart h
  refine ⟨?_, hnonempty _ hword⟩
  obtain ⟨before, after, hsplit⟩ := List.append_of_mem hword
  rw [hsplit, List.pairwise_append, List.pairwise_cons] at hapart
  have hafter := fun entry hentry => (hapart.2.1.1 entry hentry).symm
  rw [treeOf, hsplit, List.foldl_append, List.foldl_cons, Tree.find?_insertAll hafter]
  exact Tree.find?_insert_self _ symbol word

end Quorum.Deflate
