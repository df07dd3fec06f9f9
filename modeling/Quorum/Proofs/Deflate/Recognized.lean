import Quorum.Proofs.Deflate.Inflated
import Quorum.Proofs.Deflate.Taken

/-! # Only streams are inflated

Whatever the reader accepts is a stream of the content it finds. Each of its parts says what
the bits were that it took: a value of a grade, a token, the lengths of a code, a block. A
stored block starts at a whole byte, so it depends on what is ahead behind it.
-/

namespace Quorum.Deflate

variable {source after : Source}

/-! ## Tokens -/

theorem chosen_of_readGrade {grades : List Grade} {index value : Nat}
    (h : readGrade grades index source = .ok (value, after)) :
    ∃ bits, Chosen grades index value bits ∧ source.Taken bits after := by
  simp only [readGrade] at h
  split at h
  · contradiction
  next grade hgrade =>
    obtain ⟨⟨added, rest⟩, hnumber, heq⟩ := map_eq_ok.mp h
    obtain ⟨rfl, rfl⟩ : grade.base + added = value ∧ rest = after := by simpa using heq
    obtain ⟨hadded, htaken⟩ := taken_of_readNumber hnumber
    exact ⟨_, .chosen hgrade hadded, htaken⟩

section

variable {literals distances : List Nat}

/-- What was taken for a symbol beyond the end of a block. -/
theorem coded_of_readCopy {token : Token} {index : Nat} {next : Source} {word : List Bool}
    (hword : (endOfBlock + 1 + index, word) ∈ codeWords literals) (htaken : source.Taken word next)
    (h : readCopy (treeOf distances) index next = .ok (token, after)) :
    ∃ bits, token.Coded literals distances bits ∧ source.Taken bits after := by
  obtain ⟨⟨length, second⟩, hlength, h⟩ := bind_eq_ok.mp h
  obtain ⟨⟨symbol, third⟩, hsymbol, h⟩ := bind_eq_ok.mp h
  obtain ⟨⟨distance, last⟩, hdistance, h⟩ := bind_eq_ok.mp h
  cases h
  obtain ⟨lengthBits, hlengthBits, hsecond⟩ := chosen_of_readGrade hlength
  obtain ⟨distanceWord, hdistanceWord, hthird⟩ := taken_of_read hsymbol
  obtain ⟨distanceBits, hdistanceBits, hlast⟩ := chosen_of_readGrade hdistance
  exact ⟨_, .copy hword hlengthBits hdistanceWord hdistanceBits,
    htaken.append (hsecond.append (hthird.append hlast))⟩

/-- What was taken for a token, or for the end of a block. -/
theorem coded_of_readToken {token : Option Token}
    (h : readToken (treeOf literals) (treeOf distances) source = .ok (token, after)) :
    ∃ bits, source.Taken bits after ∧
      token.elim ((endOfBlock, bits) ∈ codeWords literals) (·.Coded literals distances bits) := by
  obtain ⟨⟨symbol, next⟩, hsymbol, h⟩ := bind_eq_ok.mp h
  obtain ⟨word, hword, htaken⟩ := taken_of_read hsymbol
  dsimp only at h
  split at h
  next hlt =>
    cases h
    have hbyte : (UInt8.ofNat symbol).toNat = symbol := UInt8.toNat_ofNat_of_lt' hlt
    exact ⟨word, htaken, .literal (by rwa [hbyte])⟩
  next hle =>
    split at h
    next heq =>
      cases h
      exact ⟨word, htaken, heq ▸ hword⟩
    next hne =>
      obtain ⟨⟨copy, last⟩, hcopy, heq⟩ := map_eq_ok.mp h
      cases heq
      have hindex : endOfBlock + 1 + (symbol - endOfBlock - 1) = symbol := by omega
      obtain ⟨bits, hcoded, hbits⟩ := coded_of_readCopy (hindex.symm ▸ hword) htaken hcopy
      exact ⟨bits, hbits, hcoded⟩

theorem coded_of_readTokens {output result : Array UInt8}
    (h : readTokens (treeOf literals) (treeOf distances) output source = .ok (result, after)) :
    ∃ tokens bits, TokensCoded literals distances tokens bits ∧
      tokens.foldl Token.appendTo output = result ∧ source.Taken bits after := by
  fun_induction readTokens (treeOf literals) (treeOf distances) output source with
  | case1 => contradiction
  | case2 output source next htoken =>
      cases h
      obtain ⟨word, htaken, hword⟩ := coded_of_readToken htoken
      exact ⟨[], word, .nil hword, rfl, htaken⟩
  | case3 output source token next htoken ih =>
      obtain ⟨first, htaken, hfirst⟩ := coded_of_readToken htoken
      obtain ⟨tokens, rest, hrest, hresult, hmore⟩ := ih h
      exact ⟨token :: tokens, first ++ rest, .cons hfirst hrest, hresult, htaken.append hmore⟩

end

/-! ## Codes -/

theorem taken_of_readTriples {count : Nat} {given : List Nat}
    (h : readTriples count source = .ok (given, after)) :
    given.length = count ∧ (∀ length ∈ given, length < 8) ∧
      source.Taken (given.flatMap (lowBits 3)) after := by
  induction count generalizing source given with
  | zero =>
      cases h
      exact ⟨rfl, by simp, .nothing _⟩
  | succ count ih =>
      obtain ⟨⟨length, next⟩, hnumber, h⟩ := bind_eq_ok.mp h
      obtain ⟨⟨rest, last⟩, hmore, h⟩ := bind_eq_ok.mp h
      cases h
      obtain ⟨hlength, htaken⟩ := taken_of_readNumber hnumber
      obtain ⟨hcount, hrest, hbits⟩ := ih hmore
      exact ⟨congrArg (· + 1) hcount, List.forall_mem_cons.mpr ⟨hlength, hrest⟩,
        htaken.append hbits⟩

/-- Values that were given for the first of some keys are found at these keys. -/
theorem map_lookup_zip {order given : List Nat} (horder : order.Nodup)
    (hlength : given.length ≤ order.length) :
    ((order.take given.length).map fun symbol => ((order.zip given).lookup symbol).getD 0) =
      given := by
  induction order generalizing given with
  | nil => simpa using hlength
  | cons first rest ih =>
      obtain ⟨hfirst, hrest⟩ := List.nodup_cons.mp horder
      cases given with
      | nil => rfl
      | cons value given =>
          have hlater : ∀ symbol ∈ rest.take given.length,
              (((first :: rest).zip (value :: given)).lookup symbol).getD 0 =
                ((rest.zip given).lookup symbol).getD 0 := by
            intro symbol hsymbol
            have hne : symbol ≠ first := fun heq => hfirst (heq ▸ List.mem_of_mem_take hsymbol)
            rw [List.zip_cons_cons, List.lookup_cons, beq_eq_false_iff_ne.mpr hne]
          rw [List.length_cons, List.take_succ_cons, List.map_cons, List.map_congr_left hlater,
            ih hrest (Nat.le_of_succ_le_succ hlength), List.zip_cons_cons, List.lookup_cons_self,
            Option.getD_some]

/-- Nothing is found at the keys for which no value was given. -/
theorem lookup_zip_of_mem_drop {order given : List Nat} {symbol : Nat} (horder : order.Nodup)
    (hlength : given.length ≤ order.length) (hsymbol : symbol ∈ order.drop given.length) :
    (order.zip given).lookup symbol = none := by
  have hsplit : (order.take given.length ++ order.drop given.length).Nodup := by
    rwa [List.take_append_drop]
  have hnot : symbol ∉ order.take given.length := fun hmem =>
    (List.nodup_append.mp hsplit).2.2 symbol hmem symbol hsymbol rfl
  have hlookup := lookup_zip_map (fun symbol => ((order.zip given).lookup symbol).getD 0) order
    given.length symbol
  rwa [map_lookup_zip horder hlength, if_neg hnot] at hlookup

theorem mem_of_lookup_zip {order given : List Nat} {symbol value : Nat}
    (h : (order.zip given).lookup symbol = some value) : value ∈ given := by
  obtain ⟨before, behind, hsplit, -⟩ := List.lookup_eq_some_iff.mp h
  have hmem : (symbol, value) ∈ order.zip given := hsplit ▸ List.mem_append_cons_self
  exact (List.of_mem_zip hmem).2

/-- The lengths behind the tree in which code lengths are given, from those that were given. -/
theorem exists_code_of_lengthTree {given : List Nat} {tree : Tree}
    (hcount : given.length ≤ lengthOrder.length) (hsmall : ∀ length ∈ given, length < 8)
    (h : lengthTree given = .ok tree) :
    ∃ code : List Nat, code.length = lengthOrder.length ∧ (∀ length ∈ code, length < 8) ∧
      isComplete code ∧ tree = treeOf code ∧
      (lengthOrder.take given.length).map (code.getD · 0) = given ∧
      ∀ symbol ∈ lengthOrder.drop given.length, code.getD symbol 0 = 0 := by
  let value : Nat → Nat := fun symbol => ((lengthOrder.zip given).lookup symbol).getD 0
  let code := (List.range lengthOrder.length).map value
  have hbound : ∀ symbol ∈ lengthOrder, symbol < lengthOrder.length := by decide
  have hnodup : lengthOrder.Nodup := by decide
  have hcode : ∀ symbol ∈ lengthOrder, code.getD symbol 0 = value symbol := by
    intro symbol hsymbol
    simp [code, List.getD_eq_getElem?_getD, hbound symbol hsymbol]
  simp only [lengthTree] at h
  split at h
  next hcomplete =>
    cases h
    refine ⟨code, by simp [code], ?small, hcomplete, rfl, ?given, ?left⟩
    case small =>
      intro length hlength
      obtain ⟨symbol, -, rfl⟩ := List.mem_map.mp hlength
      unfold value
      cases hlookup : (lengthOrder.zip given).lookup symbol with
      | none => decide
      | some length => exact hsmall length (mem_of_lookup_zip hlookup)
    case given =>
      calc
        (lengthOrder.take given.length).map (code.getD · 0) =
            (lengthOrder.take given.length).map value :=
          List.map_congr_left fun symbol hsymbol => hcode symbol (List.mem_of_mem_take hsymbol)
        _ = given := map_lookup_zip hnodup hcount
    case left =>
      intro symbol hsymbol
      rw [hcode symbol (List.mem_of_mem_drop hsymbol)]
      unfold value
      rw [lookup_zip_of_mem_drop hnodup hcount hsymbol]
      rfl
  next => contradiction

theorem coded_of_readLengths {code : List Nat} {total : Nat} {lengths : Array Nat} {all : List Nat}
    (h : readLengths (treeOf code) total lengths source = .ok (all, after)) :
    all.length = total ∧
      ∃ bits, LengthsCoded code lengths.toList bits all ∧ source.Taken bits after := by
  fun_induction readLengths (treeOf code) total lengths source with
  | case1 lengths source hle htotal =>
      cases h
      exact ⟨htotal.symm, [], .done _, .nothing _⟩
  | case4 lengths source hlt symbol next hread hsymbol ih =>
      obtain ⟨htotal, rest, hrest, htaken⟩ := ih h
      obtain ⟨word, hword, hfirst⟩ := taken_of_read hread
      rw [Array.toList_push] at hrest
      exact ⟨htotal, _, .length hword hsymbol hrest, hfirst.append htaken⟩
  | case7 lengths source hlt symbol next hread hsymbol run hrun added last hextra ih =>
      obtain ⟨htotal, rest, hrest, htaken⟩ := ih h
      obtain ⟨word, hword, hfirst⟩ := taken_of_read hread
      obtain ⟨hadded, hsecond⟩ := taken_of_readNumber hextra
      rw [Array.toList_append, Array.toList_replicate] at hrest
      rw [← Array.getLast?_toList] at hrun
      exact ⟨htotal, _, .run hword (Nat.not_lt.mp hsymbol) hrun hadded hrest,
        hfirst.append (hsecond.append htaken)⟩
  | _ => contradiction

theorem taken_of_readCounts {counts : Counts} (h : readCounts source = .ok (counts, after)) :
    (257 ≤ counts.literals ∧ counts.literals ≤ 286) ∧
      (1 ≤ counts.distances ∧ counts.distances ≤ 30) ∧
      (4 ≤ counts.order ∧ counts.order ≤ lengthOrder.length) ∧
      source.Taken (lowBits 5 (counts.literals - 257) ++ (lowBits 5 (counts.distances - 1) ++
        lowBits 4 (counts.order - 4))) after := by
  obtain ⟨⟨literals, first⟩, hliterals, h⟩ := bind_eq_ok.mp h
  obtain ⟨⟨distances, second⟩, hdistances, h⟩ := bind_eq_ok.mp h
  obtain ⟨⟨order, third⟩, horder, h⟩ := bind_eq_ok.mp h
  dsimp only at h
  split at h
  next hlimits =>
    cases h
    obtain ⟨-, hfirst⟩ := taken_of_readNumber hliterals
    obtain ⟨-, hsecond⟩ := taken_of_readNumber hdistances
    obtain ⟨hmost, hthird⟩ := taken_of_readNumber horder
    have hlength : lengthOrder.length = 19 := rfl
    simp only [Nat.add_sub_cancel]
    exact ⟨⟨by omega, hlimits.1⟩, ⟨by omega, hlimits.2⟩, ⟨by omega, by omega⟩,
      hfirst.append (hsecond.append hthird)⟩
  next => contradiction

theorem admissible_of_codeTree {lengths : List Nat} {tree : Tree}
    (h : codeTree lengths = .ok tree) : Admissible lengths ∧ tree = treeOf lengths := by
  unfold codeTree at h
  split at h
  next hadmissible =>
    cases h
    exact ⟨hadmissible, rfl⟩
  next => contradiction

/-- The codes that were read have a description that was taken. -/
theorem described_of_readCodes {trees : Tree × Tree}
    (h : readCodes source = .ok (trees, after)) :
    ∃ literals distances bits, trees = (treeOf literals, treeOf distances) ∧
      CodesDescribed literals distances bits ∧ source.Taken bits after := by
  obtain ⟨⟨counts, first⟩, hcounts, h⟩ := bind_eq_ok.mp h
  obtain ⟨⟨given, second⟩, hgiven, h⟩ := bind_eq_ok.mp h
  obtain ⟨tree, htree, h⟩ := bind_eq_ok.mp h
  obtain ⟨⟨lengths, third⟩, hlengths, h⟩ := bind_eq_ok.mp h
  obtain ⟨literalTree, hliterals, h⟩ := bind_eq_ok.mp h
  obtain ⟨distanceTree, hdistances, h⟩ := bind_eq_ok.mp h
  cases h
  obtain ⟨hliteralCount, hdistanceCount, horder, hfirst⟩ := taken_of_readCounts hcounts
  obtain ⟨hlength, hsmall, hsecond⟩ := taken_of_readTriples hgiven
  obtain ⟨code, hcode, hcodeSmall, hcomplete, rfl, hpresent, hleft⟩ :=
    exists_code_of_lengthTree (hlength ▸ horder.2) hsmall htree
  obtain ⟨htotal, bits, hcoded, hthird⟩ := coded_of_readLengths hlengths
  obtain ⟨hadmissible, rfl⟩ := admissible_of_codeTree hliterals
  obtain ⟨hadmissible', rfl⟩ := admissible_of_codeTree hdistances
  have htake : (lengths.take counts.literals).length = counts.literals := by
    rw [List.length_take, htotal]
    omega
  have hdrop : (lengths.drop counts.literals).length = counts.distances := by
    rw [List.length_drop, htotal]
    omega
  rw [← List.take_append_drop counts.literals lengths] at hcoded
  rw [← hpresent, List.flatMap_map] at hsecond
  rw [hlength] at hsecond hleft
  have hdescribed := CodesDescribed.described (htake.symm ▸ hliteralCount)
    (hdrop.symm ▸ hdistanceCount) ⟨hadmissible, hadmissible'⟩ hcode hcodeSmall hcomplete horder
    hleft hcoded
  rw [htake, hdrop] at hdescribed
  have htaken := hfirst.append (hsecond.append hthird)
  simp only [List.append_assoc] at htaken
  exact ⟨_, _, _, rfl, hdescribed, htaken⟩

/-! ## Blocks -/

/-- What a stored block was read from, whatever was left of the byte before it. -/
theorem stored_of_readStored {output result : Array UInt8}
    (h : readStored output source = .ok (result, after)) :
    ∃ content behind : Bytes, content.length ≤ 0xFFFF ∧ result = output ++ content ∧
      after = .ofBytes behind ∧
      source.rest = Bytes.littleEndian 2 content.length ++
        Bytes.littleEndian 2 (0xFFFF - content.length) ++ content ++ behind := by
  simp only [readStored] at h
  split at h
  · contradiction
  next lengths rest hlengths =>
    split at h
    · contradiction
    next hsum =>
      split at h
      · contradiction
      next content behind hcontent =>
        cases h
        obtain ⟨haligned, hcount⟩ := Bytes.eq_append_of_splitAt? hlengths
        obtain ⟨rfl, hlength⟩ := Bytes.eq_append_of_splitAt? hcontent
        have hinverse : Bytes.toNat (lengths.drop 2) = 0xFFFF - content.length := by omega
        have hfirst : Bytes.littleEndian 2 content.length = lengths.take 2 := by
          simpa [hcount, ← hlength] using Bytes.littleEndian_toNat (lengths.take 2)
        have hsecond : Bytes.littleEndian 2 (0xFFFF - content.length) = lengths.drop 2 := by
          simpa [hcount, hinverse] using Bytes.littleEndian_toNat (lengths.drop 2)
        refine ⟨content, behind, by omega, rfl, rfl, ?_⟩
        rw [show source.rest = _ from haligned, ← List.take_append_drop 2 lengths, ← hfirst,
          ← hsecond, List.append_assoc _ content]

/-- The bits that were taken for a block are one, if what is ahead behind them is the rest of
the stream. -/
theorem block_of_readBlock {kind : Nat} {before result : Array UInt8} {first : Source}
    (hpending : source.pending.length < 8) (hkind : readNumber 2 source = .ok (kind, first))
    (h : readBlock kind before first = .ok (result, after)) :
    ∃ bits, source.Taken bits after ∧
      ∀ {rest behind}, after.Ahead rest behind → Block before bits rest result := by
  obtain ⟨-, htaken⟩ := taken_of_readNumber hkind
  unfold readBlock at h
  split at h
  -- A stored block ends at a whole byte, and so does everything that is ahead behind it.
  next =>
    obtain ⟨content, behind, hlength, rfl, rfl, hrest⟩ := stored_of_readStored h
    obtain ⟨pending, bytes⟩ := first
    obtain rfl : bytes = _ := hrest
    refine ⟨_, htaken.append ((Source.taken_pending _ _).append (Source.taken_bytes _ _)), ?_⟩
    rintro rest behind ⟨-, ahead, -, rfl⟩
    refine .stored (htaken.pending_lt hpending) ?_ hlength
    rw [Source.ofBytes, List.nil_append, length_bitsOf]
    exact Nat.mul_mod_right 8 _
  next =>
    obtain ⟨tokens, bits, htokens, rfl, hbits⟩ := coded_of_readTokens h
    exact ⟨true :: false :: bits, htaken.append hbits, fun _ => .fixed htokens⟩
  next =>
    obtain ⟨⟨trees, second⟩, hcodes, h⟩ := bind_eq_ok.mp h
    obtain ⟨literals, distances, codes, rfl, hdescribed, hsecond⟩ := described_of_readCodes hcodes
    obtain ⟨tokens, bits, htokens, rfl, hbits⟩ := coded_of_readTokens h
    exact ⟨false :: true :: (codes ++ bits), htaken.append (hsecond.append hbits),
      fun _ => .described hdescribed htokens⟩
  next => contradiction

/-- The blocks that were read were ahead, up to a whole byte. -/
theorem blocks_of_readBlocks {before result : Array UInt8} {behind : Bytes}
    (hpending : source.pending.length < 8) (h : readBlocks before source = .ok (result, behind)) :
    ∃ bits, Blocks before bits result ∧ source.Ahead bits behind := by
  fun_induction readBlocks before source with
  | case4 before source first kind second hkind result third hblock hfinal =>
      cases h

      obtain ⟨-, hfirst⟩ := taken_of_readNumber hfinal
      obtain ⟨bits, htaken, hbits⟩ := block_of_readBlock (hfirst.pending_lt hpending) hkind hblock
      have htaken := hfirst.append htaken
      have hlast := htaken.pending_lt hpending
      have hahead : third.Ahead third.pending third.aligned := ⟨hlast, [], rfl, by simp [bitsOf]⟩
      exact ⟨_, .last hlast (hbits hahead), htaken.ahead hpending hahead⟩
  | case5 before source final first hfinal kind second hkind output third hblock hne ih =>
      obtain ⟨hlt, hfirst⟩ := taken_of_readNumber hfinal
      obtain rfl : final = 0 := by omega
      obtain ⟨bits, htaken, hbits⟩ := block_of_readBlock (hfirst.pending_lt hpending) hkind hblock
      have htaken := hfirst.append htaken
      obtain ⟨rest, hrest, hahead⟩ := ih (htaken.pending_lt hpending) h
      exact ⟨_, .more (hbits hahead) hrest, htaken.ahead hpending hahead⟩
  | _ => contradiction

/-- What is inflated is a stream of the content and the bytes that are left behind it, and
nothing else is. -/
theorem inflate_eq_ok_iff {bytes content behind : Bytes} :
    inflate bytes = .ok (content, behind) ↔
      ∃ stream, IsStream content stream ∧ bytes = stream ++ behind := by
  constructor
  · intro h
    obtain ⟨⟨result, rest⟩, hblocks, heq⟩ := map_eq_ok.mp h
    cases heq
    have hpending : (Source.ofBytes bytes).pending.length < 8 := by simp [Source.ofBytes]
    obtain ⟨bits, hbits, -, stream, hstream, rfl⟩ := blocks_of_readBlocks hpending hblocks
    exact ⟨stream, hbits, hstream⟩
  · rintro ⟨stream, hstream, rfl⟩
    exact hstream.inflate behind

end Quorum.Deflate
