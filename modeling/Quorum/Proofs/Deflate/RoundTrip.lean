import Mathlib.Data.List.Chain
import Quorum.Deflate.Compress
import Quorum.Proofs.Deflate.Inflated

/-! # Deflated content is inflated again

What is written is a stream of the content, so it is read as the content it was made of,
with any bytes behind it. A block with the fixed code holds the tokens that the search for
repetitions found, which are used only if they expand to the content again; stored blocks
hold the content piece by piece.
-/

namespace Quorum.Deflate

/-! ## Bits in bytes -/

theorem lowBits_zero (count : Nat) : lowBits count 0 = List.replicate count false := by
  induction count with
  | zero => rfl
  | succ count ih => simp [lowBits, ih, List.replicate_succ]

/-- The lowest bits of the number of some bits are these bits, filled up with zeros. -/
theorem lowBits_bitsToNat (bits : List Bool) (more : Nat) :
    lowBits (bits.length + more) (bitsToNat bits) = bits ++ List.replicate more false := by
  induction bits with
  | nil => simp [bitsToNat, lowBits_zero]
  | cons bit rest ih =>
      have hodd : ((bit.toNat + 2 * bitsToNat rest) % 2 == 1) = bit := by
        cases bit <;> simp [Nat.add_mod]
      have hhalf : (bit.toNat + 2 * bitsToNat rest) / 2 = bitsToNat rest := by
        have hbit : bit.toNat ≤ 1 := Bool.toNat_le bit
        omega
      rw [List.length_cons, Nat.add_right_comm, lowBits, bitsToNat, hodd, hhalf, ih,
        List.cons_append]

theorem bitsOf_byte {bits : List Bool} {more : Nat} (h : bits.length + more = 8) :
    bitsOf [UInt8.ofNat (bitsToNat bits)] = bits ++ List.replicate more false := by
  have hlt : bitsToNat bits < 2 ^ 8 :=
    Nat.lt_of_lt_of_le (bitsToNat_lt bits) (Nat.pow_le_pow_right (by decide) (by omega))
  have hbyte : (UInt8.ofNat (bitsToNat bits)).toNat = bitsToNat bits := by
    rw [UInt8.toNat_ofNat']
    exact Nat.mod_eq_of_lt hlt
  rw [bitsOf, List.flatMap_singleton, hbyte, ← h, lowBits_bitsToNat]

/-- Packing keeps the bits and adds less than a byte of zeros. -/
theorem bitsOf_packAfter (packed : Array UInt8) (bits : List Bool) :
    ∃ filler, bitsOf (packAfter packed bits).toList = bitsOf packed.toList ++ (bits ++ filler) ∧
      filler.length < 8 := by
  fun_induction packAfter packed bits with
  | case1 packed a b c d e f g h rest ih =>
      obtain ⟨filler, hbits, hlength⟩ := ih
      refine ⟨filler, ?_, hlength⟩
      rw [hbits, Array.toList_push, bitsOf_append, @bitsOf_byte [a, b, c, d, e, f, g, h] 0 rfl]
      simp
  | case2 packed => exact ⟨[], by simp, by decide⟩
  | case3 packed bits hlong hnil =>
      have hpos : 0 < bits.length := List.length_pos_iff.mpr fun hbits => hnil hbits
      have hshort : bits.length < 8 := by
        match bits, hlong with
        | a :: b :: c :: d :: e :: f :: g :: h :: rest, hlong =>
            exact (hlong a b c d e f g h rest rfl).elim
        | [], _ | [_], _ | [_, _], _ | [_, _, _], _ | [_, _, _, _], _ | [_, _, _, _, _], _
        | [_, _, _, _, _, _], _ | [_, _, _, _, _, _, _], _ => simp
      refine ⟨List.replicate (8 - bits.length) false, ?_, by simp; omega⟩
      have hlength : bits.length + (8 - bits.length) = 8 := by omega
      rw [Array.toList_push, bitsOf_append, bitsOf_byte hlength]

theorem bitsOf_pack (bits : List Bool) :
    ∃ filler, bitsOf (pack bits) = bits ++ filler ∧ filler.length < 8 := by
  obtain ⟨filler, hbits, hlength⟩ := bitsOf_packAfter #[] bits
  exact ⟨filler, hbits, hlength⟩

/-! ## Grades -/

/-- Grades that follow each other without a gap. -/
structure Contiguous (grades : List Grade) : Prop where
  ascending : grades.Pairwise (·.base < ·.base)
  touching : grades.IsChain fun low high => high.base ≤ low.base + 2 ^ low.extra

theorem Contiguous.tail {grade : Grade} {rest : List Grade} (h : Contiguous (grade :: rest)) :
    Contiguous rest :=
  ⟨h.ascending.tail, h.touching.tail⟩

/-- The last grade that starts at or below a value reaches up to the value. -/
theorem Contiguous.reaches {first : Grade} {rest : List Grade} (h : Contiguous (first :: rest))
    {value : Nat} (hfirst : first.base ≤ value)
    (hlast : ∀ last ∈ (first :: rest).getLast?, value < last.base + 2 ^ last.extra) :
    ∃ grade, (first :: rest)[gradeOf (first :: rest) value]? = some grade ∧
      grade.base ≤ value ∧ value - grade.base < 2 ^ grade.extra := by
  induction rest generalizing first with
  | nil =>
      have hvalue := hlast first rfl
      exact ⟨first, by simp [gradeOf, hfirst], hfirst, by omega⟩
  | cons second rest ih =>
      by_cases hsecond : second.base ≤ value
      · obtain ⟨grade, hgrade, hreach⟩ := ih h.tail hsecond (by simpa using hlast)
        refine ⟨grade, ?_, hreach⟩
        have hindex : gradeOf (first :: second :: rest) value =
            gradeOf (second :: rest) value + 1 := by
          simp [gradeOf, hfirst, hsecond]
        rw [hindex, List.getElem?_cons_succ]
        exact hgrade
      -- All later grades start above the value, so the first one is the last below it.
      · have hnone : (second :: rest).filter (·.base ≤ value) = [] := by
          refine List.filter_eq_nil_iff.mpr fun grade hgrade => ?_
          have hle : second.base ≤ grade.base := by
            rcases List.mem_cons.mp hgrade with rfl | hrest
            · exact Nat.le_refl _
            · exact Nat.le_of_lt (List.rel_of_pairwise_cons h.tail.ascending hrest)
          simp only [decide_eq_true_eq]
          omega
        have hindex : gradeOf (first :: second :: rest) value = 0 := by
          rw [gradeOf, List.filter_cons_of_pos (by simpa using hfirst), hnone]
          rfl
        have htouch := h.touching.rel
        exact ⟨first, by rw [hindex]; rfl, hfirst, by omega⟩

theorem contiguous_lengthGrades : Contiguous lengthGrades :=
  ⟨by decide, by decide⟩

theorem contiguous_distanceGrades : Contiguous distanceGrades :=
  ⟨by decide, by decide⟩

theorem reaches_length {length : Nat} (hmin : 3 ≤ length) (hmax : length ≤ 258) :
    ∃ grade, lengthGrades[gradeOf lengthGrades length]? = some grade ∧
      grade.base ≤ length ∧ length - grade.base < 2 ^ grade.extra := by
  refine contiguous_lengthGrades.reaches hmin ?_
  rintro last ⟨⟩
  exact Nat.lt_succ_of_le hmax

theorem reaches_distance {distance : Nat} (hmin : 1 ≤ distance) (hmax : distance ≤ 32768) :
    ∃ grade, distanceGrades[gradeOf distanceGrades distance]? = some grade ∧
      grade.base ≤ distance ∧ distance - grade.base < 2 ^ grade.extra := by
  refine contiguous_distanceGrades.reaches hmin ?_
  rintro last ⟨⟩
  exact Nat.lt_succ_of_le hmax

/-- A value that its grade reaches is chosen by what is written for it. -/
theorem chosen_writeExtra {grades : List Grade} {index value : Nat} {grade : Grade}
    (hgrade : grades[index]? = some grade) (hbase : grade.base ≤ value)
    (hreach : value - grade.base < 2 ^ grade.extra) :
    Chosen grades index value (writeExtra grades index value) := by
  have hchosen := Chosen.chosen hgrade hreach
  rw [Nat.add_sub_cancel' hbase] at hchosen
  rwa [writeExtra, hgrade]

/-! ## Blocks with the fixed code -/

/-- The words of the fixed code by their lengths. -/
theorem codeWords_fixedLiteralLengths : codeWords fixedLiteralLengths =
    (List.range' 256 24 ++ List.range' 0 144 ++ List.range' 280 8 ++ List.range' 144 112).map
      fun symbol => (symbol, fixedWord symbol) := by
  decide +kernel

theorem codeWords_fixedDistanceLengths : codeWords fixedDistanceLengths =
    (List.range' 0 32).map fun symbol => (symbol, codeWord 5 symbol) := by
  decide +kernel

theorem fixedWord_mem {symbol : Nat} (h : symbol < 288) :
    (symbol, fixedWord symbol) ∈ codeWords fixedLiteralLengths := by
  rw [codeWords_fixedLiteralLengths]
  refine List.mem_map_of_mem ?_
  simp only [List.mem_append, List.mem_range'_1]
  omega

theorem distanceWord_mem {symbol : Nat} (h : symbol < 32) :
    (symbol, codeWord 5 symbol) ∈ codeWords fixedDistanceLengths := by
  rw [codeWords_fixedDistanceLengths]
  refine List.mem_map_of_mem ?_
  simpa only [List.mem_range'_1, Nat.zero_le, true_and] using h

/-- What is written for a token are its bits in the fixed code. -/
theorem Token.coded_write {token : Token} (hwritable : token.isWritable) :
    token.Coded fixedLiteralLengths fixedDistanceLengths token.write := by
  cases token with
  | literal byte =>
      have hbyte : byte.toNat < 256 := byte.toNat_lt
      exact .literal (fixedWord_mem (by omega))
  | copy length distance =>
      simp only [isWritable, Bool.and_eq_true, decide_eq_true_eq] at hwritable
      obtain ⟨⟨⟨hlengthMin, hlengthMax⟩, hdistanceMin⟩, hdistanceMax⟩ := hwritable
      obtain ⟨lengthGrade, hlength, hlengthBase, hlengthReach⟩ :=
        reaches_length hlengthMin hlengthMax
      obtain ⟨distanceGrade, hdistance, hdistanceBase, hdistanceReach⟩ :=
        reaches_distance hdistanceMin hdistanceMax
      have hlengthIndex : gradeOf lengthGrades length < 29 :=
        (List.getElem?_eq_some_iff.mp hlength).1
      have hdistanceIndex : gradeOf distanceGrades distance < 30 :=
        (List.getElem?_eq_some_iff.mp hdistance).1
      simp only [write, List.append_assoc]
      exact .copy (fixedWord_mem (by simp only [endOfBlock]; omega))
        (chosen_writeExtra hlength hlengthBase hlengthReach)
        (distanceWord_mem (by omega)) (chosen_writeExtra hdistance hdistanceBase hdistanceReach)

theorem tokensCoded_write {tokens : List Token} (hwritable : ∀ token ∈ tokens, token.isWritable) :
    TokensCoded fixedLiteralLengths fixedDistanceLengths tokens
      (tokens.flatMap Token.write ++ fixedWord endOfBlock) := by
  induction tokens with
  | nil => exact .nil (fixedWord_mem (by decide))
  | cons token rest ih =>
      obtain ⟨htoken, hrest⟩ := List.forall_mem_cons.mp hwritable
      rw [List.flatMap_cons, List.append_assoc]
      exact .cons (Token.coded_write htoken) (ih hrest)

/-- A single block with the fixed code is a stream of what its tokens expand to. -/
theorem isStream_writeFixed {tokens : List Token} {content : Bytes}
    (hwritable : ∀ token ∈ tokens, token.isWritable) (hexpand : expand tokens = content.toArray) :
    IsStream content (pack (writeFixed tokens)) := by
  obtain ⟨filler, hbits, hfiller⟩ := bitsOf_pack (writeFixed tokens)
  have hblock : Block #[] _ filler _ := .fixed (tokensCoded_write hwritable)
  have hblocks := Blocks.last hfiller hblock
  rw [← expand, hexpand] at hblocks
  rw [IsStream, hbits]
  simpa [writeFixed] using hblocks

/-! ## Stored blocks -/

/-- The bits between the kind of a stored block and its first whole byte. -/
theorem length_storedFiller : (lowBits 5 0).length < 8 := by
  decide

theorem bitsOf_writeStored (final : Bool) (content : Bytes) :
    bitsOf (writeStored final content) = final :: false :: false :: (lowBits 5 0 ++
      bitsOf (Bytes.littleEndian 2 content.length ++
        Bytes.littleEndian 2 (0xFFFF - content.length) ++ content)) := by
  rw [writeStored, bitsOf]
  cases final <;> rfl

/-- Stored blocks add the content to what came before. -/
theorem blocks_storeAll (content : Bytes) (before : Array UInt8) :
    Blocks before (bitsOf (storeAll content)) (before ++ content) := by
  fun_induction storeAll content generalizing before with
  | case1 content hlength =>
      have hblock : Block before _ [] (before ++ content) :=
        .stored length_storedFiller rfl hlength
      have hblocks := Blocks.last (show [].length < 8 by decide) hblock
      rwa [bitsOf_writeStored, ← List.append_nil (lowBits 5 0 ++ _)]
  | case2 content hlength ih =>
      have htake : (content.take maximalStored).length ≤ maximalStored :=
        List.length_take_le _ _
      have hjoined : before ++ content.take maximalStored ++ content.drop maximalStored =
          before ++ content := by
        simp [← Array.toList_inj]
      have haligned : (bitsOf (storeAll (content.drop maximalStored))).length % 8 = 0 := by
        rw [length_bitsOf, Nat.mul_mod_right]
      have hblock : Block before _ _ (before ++ content.take maximalStored) :=
        .stored length_storedFiller haligned htake
      rw [bitsOf_append, bitsOf_writeStored, ← hjoined]
      exact .more hblock (ih _)

theorem isStream_storeAll (content : Bytes) : IsStream content (storeAll content) := by
  have hblocks := blocks_storeAll content #[]
  rwa [show #[] ++ content = content.toArray by simp] at hblocks

/-! ## Streams -/

/-- Deflating content gives a stream of the content. -/
theorem isStream_deflate (content : Bytes) : IsStream content (deflate content) := by
  simp only [deflate]
  split
  next hused =>
    simp only [Bool.and_eq_true, List.all_eq_true, beq_iff_eq] at hused
    split
    next => exact isStream_writeFixed hused.1 hused.2
    next => exact isStream_storeAll content
  next => exact isStream_storeAll content

theorem inflate_deflate (content behind : Bytes) :
    inflate (deflate content ++ behind) = .ok (content, behind) :=
  (isStream_deflate content).inflate behind

end Quorum.Deflate
