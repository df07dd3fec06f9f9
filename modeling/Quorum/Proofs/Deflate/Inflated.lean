import Quorum.Proofs.Deflate.Ahead

/-! # Streams are inflated

Every stream is read as the content it stands for, in whatever way that was put into bits,
and the bytes behind it are left. Each kind of bits is taken off the front of what lies
ahead: values of grades, tokens, the lengths of codes, and whole blocks.
-/

namespace Quorum.Deflate

variable {source : Source} {word bits : List Bool} {behind : Bytes}

/-! ## Tokens -/

theorem Chosen.readGrade {grades : List Grade} {index value : Nat}
    (h : Chosen grades index value word) (hahead : source.Ahead (word ++ bits) behind) :
    ∃ after, Deflate.readGrade grades index source = .ok (value, after) ∧
      after.Ahead bits behind := by
  obtain ⟨hgrade, hadded⟩ := h
  obtain ⟨after, hnumber, hbehind⟩ := hahead.readNumber hadded
  refine ⟨after, ?_, hbehind⟩
  simp only [Deflate.readGrade, hgrade, hnumber, Except.map, Prod.map, id]

section

variable {literals distances : List Nat}

theorem Token.Coded.readToken {token : Token} (h : token.Coded literals distances word)
    (hliterals : kraftSum literals ≤ 2 ^ maximalLength)
    (hdistances : kraftSum distances ≤ 2 ^ maximalLength)
    (hahead : source.Ahead (word ++ bits) behind) :
    ∃ after, Deflate.readToken (treeOf literals) (treeOf distances) source =
        .ok (some token, after) ∧ after.Ahead bits behind := by
  cases h with
  | @literal byte _ hword =>
      have hbyte : byte.toNat < 256 := byte.toNat_lt
      obtain ⟨after, hread, hbehind⟩ := hahead.readWord hliterals hword
      refine ⟨after, ?_, hbehind⟩
      simp only [Deflate.readToken, hread, bind, Except.bind, endOfBlock, if_pos hbyte, pure,
        Except.pure, UInt8.ofNat_toNat]
  | @copy lengthIndex length _ distance _ _ _ _ hlengthWord hlength hdistanceWord hdistance =>
      simp only [List.append_assoc] at hahead
      obtain ⟨first, hfirst, hahead⟩ := hahead.readWord hliterals hlengthWord
      obtain ⟨second, hsecond, hahead⟩ := hlength.readGrade hahead
      obtain ⟨third, hthird, hahead⟩ := hahead.readWord hdistances hdistanceWord
      obtain ⟨after, hafter, hbehind⟩ := hdistance.readGrade hahead
      refine ⟨after, ?_, hbehind⟩
      have hindex : endOfBlock + 1 + lengthIndex - endOfBlock - 1 = lengthIndex := by omega
      have hcopy : readCopy (treeOf distances) lengthIndex first =
          .ok (.copy length distance, after) := by
        simp only [readCopy, hsecond, hthird, hafter, bind, Except.bind, pure, Except.pure]
      simp only [Deflate.readToken, hfirst, bind, Except.bind, hindex, hcopy]
      rw [if_neg (by omega), if_neg (by omega)]
      rfl

theorem readToken_endOfBlock (hliterals : kraftSum literals ≤ 2 ^ maximalLength)
    (hword : (endOfBlock, word) ∈ codeWords literals)
    (hahead : source.Ahead (word ++ bits) behind) (distances : Tree) :
    ∃ after, readToken (treeOf literals) distances source = .ok (none, after) ∧
      after.Ahead bits behind := by
  obtain ⟨after, hread, hbehind⟩ := hahead.readWord hliterals hword
  refine ⟨after, ?_, hbehind⟩
  simp only [readToken, hread, bind, Except.bind]
  rfl

theorem readTokens_none {literals distances : Tree} {after : Source}
    (h : readToken literals distances source = .ok (none, after)) (output : Array UInt8) :
    readTokens literals distances output source = .ok (output, after) := by
  rw [readTokens]
  split <;> simp_all

theorem readTokens_some {literals distances : Tree} {token : Token} {after : Source}
    (h : readToken literals distances source = .ok (some token, after)) (output : Array UInt8) :
    readTokens literals distances output source =
      readTokens literals distances (token.appendTo output) after := by
  rw [readTokens]
  split <;> simp_all

/-- The tokens of a block are added to the output up to the end of the block. -/
theorem TokensCoded.readTokens {tokens : List Token}
    (h : TokensCoded literals distances tokens word)
    (hliterals : kraftSum literals ≤ 2 ^ maximalLength)
    (hdistances : kraftSum distances ≤ 2 ^ maximalLength) (output : Array UInt8)
    (hahead : source.Ahead (word ++ bits) behind) :
    ∃ after, Deflate.readTokens (treeOf literals) (treeOf distances) output source =
        .ok (tokens.foldl Token.appendTo output, after) ∧ after.Ahead bits behind := by
  induction h generalizing source output with
  | nil hword =>
      obtain ⟨after, hread, hbehind⟩ :=
        readToken_endOfBlock hliterals hword hahead (treeOf distances)
      exact ⟨after, readTokens_none hread output, hbehind⟩
  | @cons token _ _ _ hfirst _ ih =>
      rw [List.append_assoc] at hahead
      obtain ⟨next, hread, hahead⟩ := hfirst.readToken hliterals hdistances hahead
      obtain ⟨after, hrest, hbehind⟩ := ih (token.appendTo output) hahead
      exact ⟨after, (readTokens_some hread output).trans hrest, hbehind⟩

end

/-! ## Codes -/

theorem readTriples_ahead {given : List Nat} (hsmall : ∀ length ∈ given, length < 8)
    (hahead : source.Ahead (given.flatMap (lowBits 3) ++ bits) behind) :
    ∃ after, readTriples given.length source = .ok (given, after) ∧ after.Ahead bits behind := by
  induction given generalizing source with
  | nil => exact ⟨source, rfl, hahead⟩
  | cons length rest ih =>
      obtain ⟨hlength, hrest⟩ := List.forall_mem_cons.mp hsmall
      rw [List.flatMap_cons, List.append_assoc] at hahead
      obtain ⟨next, hnumber, hahead⟩ :=
        Source.Ahead.readNumber (show length < 2 ^ 3 from hlength) hahead
      obtain ⟨after, hmore, hbehind⟩ := ih hrest hahead
      refine ⟨after, ?_, hbehind⟩
      simp only [List.length_cons, readTriples, hnumber, hmore, bind, Except.bind, pure,
        Except.pure]

theorem lookup_zip_map (value : Nat → Nat) (order : List Nat) (count symbol : Nat) :
    (order.zip ((order.take count).map value)).lookup symbol =
      if symbol ∈ order.take count then some (value symbol) else none := by
  induction order generalizing count with
  | nil => simp
  | cons first rest ih =>
      cases count with
      | zero => simp
      | succ count =>
          rw [List.take_succ_cons, List.map_cons, List.zip_cons_cons, List.lookup_cons, ih]
          by_cases hfirst : symbol = first
          · simp [hfirst]
          · simp [beq_eq_false_iff_ne.mpr hfirst, hfirst]

/-- The code in which code lengths are given, from the lengths that are there. -/
theorem lengthTree_take {code : List Nat} {count : Nat} (hcode : code.length = lengthOrder.length)
    (hcomplete : isComplete code)
    (hleft : ∀ symbol ∈ lengthOrder.drop count, code.getD symbol 0 = 0) :
    lengthTree ((lengthOrder.take count).map (code.getD · 0)) = .ok (treeOf code) := by
  have hordered : ∀ symbol < lengthOrder.length, symbol ∈ lengthOrder := by decide
  have hlengths : ((List.range lengthOrder.length).map fun symbol =>
      ((lengthOrder.zip ((lengthOrder.take count).map (code.getD · 0))).lookup symbol).getD 0) =
        code := by
    refine List.ext_getElem (by simp [hcode]) fun symbol hsymbol hlt => ?_
    rw [List.getElem_map, List.getElem_range, lookup_zip_map]
    have hvalue : code.getD symbol 0 = code[symbol] := by simp [hlt]
    split
    next => exact hvalue
    next hnot =>
      -- Only lengths of zero are left out at the end.
      have hmem := hordered symbol (hcode ▸ hlt)
      rw [← List.take_append_drop count lengthOrder, List.mem_append] at hmem
      rw [← hvalue, hleft symbol (hmem.resolve_left hnot)]
      rfl
  simp only [lengthTree, hlengths, if_pos hcomplete]

theorem least_pos_of_run? {symbol : Nat} {last : Option Nat} {run : Run}
    (h : run? symbol last = some run) : 0 < run.least := by
  unfold run? at h
  split at h
  · obtain ⟨length, -, rfl⟩ := Option.map_eq_some_iff.mp h
    exact Nat.succ_pos 2
  · split at h
    · cases h
      decide
    · cases h
      decide

theorem LengthsCoded.length_le {code before all : List Nat}
    (h : LengthsCoded code before bits all) : before.length ≤ all.length := by
  induction h with
  | done => exact Nat.le_refl _
  | length _ _ _ ih =>
      rw [List.length_append] at ih
      omega
  | run _ _ _ _ _ ih =>
      rw [List.length_append] at ih
      omega

theorem readLengths_length {tree : Tree} {total symbol : Nat} {lengths : Array Nat}
    {next : Source} (hlt : lengths.size < total) (hread : tree.read source = .ok (symbol, next))
    (hsymbol : symbol < 16) :
    readLengths tree total lengths source = readLengths tree total (lengths.push symbol) next := by
  rw [readLengths, if_neg (Nat.not_le.mpr hlt)]
  split <;> simp_all

theorem readLengths_run {tree : Tree} {total symbol added : Nat} {lengths : Array Nat} {run : Run}
    {next after : Source} (hlt : lengths.size < total)
    (hread : tree.read source = .ok (symbol, next)) (hsymbol : ¬ symbol < 16)
    (hrun : run? symbol lengths.back? = some run)
    (hadded : readNumber run.extra next = .ok (added, after)) :
    readLengths tree total lengths source =
      readLengths tree total (lengths ++ Array.replicate (run.least + added) run.length) after := by
  rw [readLengths, if_neg (Nat.not_le.mpr hlt)]
  split
  next hfault => simp [hread] at hfault
  next found rest hfound =>
    obtain ⟨rfl, rfl⟩ : symbol = found ∧ next = rest := by simpa [hread] using hfound
    rw [if_neg hsymbol, hrun]
    dsimp only
    split <;> simp_all

/-- Code lengths are read until there are as many as wanted. -/
theorem LengthsCoded.readLengths {code before all : List Nat}
    (h : LengthsCoded code before word all) (hcode : kraftSum code ≤ 2 ^ maximalLength)
    {lengths : Array Nat} (hlengths : lengths.toList = before)
    (hahead : source.Ahead (word ++ bits) behind) :
    ∃ after, Deflate.readLengths (treeOf code) all.length lengths source = .ok (all, after) ∧
      after.Ahead bits behind := by
  induction h generalizing source lengths with
  | done all =>
      subst hlengths
      refine ⟨source, ?_, hahead⟩
      rw [Deflate.readLengths]
      simp
  | @length before all length _ _ hword hlength hrest ih =>
      subst hlengths
      have hlt := hrest.length_le
      rw [List.length_append, List.length_singleton, Array.length_toList] at hlt
      rw [List.append_assoc] at hahead
      obtain ⟨next, hread, hahead⟩ := hahead.readWord hcode hword
      obtain ⟨after, hmore, hbehind⟩ := @ih next (lengths.push length) Array.toList_push hahead
      exact ⟨after, (readLengths_length hlt hread hlength).trans hmore, hbehind⟩
  | @run before all symbol added run _ _ hword hsymbol hrun hadded hrest ih =>
      subst hlengths
      have hleast := least_pos_of_run? hrun
      have hlt := hrest.length_le
      rw [List.length_append, List.length_replicate, Array.length_toList] at hlt
      rw [Array.getLast?_toList] at hrun
      simp only [List.append_assoc] at hahead
      obtain ⟨next, hread, hahead⟩ := hahead.readWord hcode hword
      obtain ⟨last, hnumber, hahead⟩ := hahead.readNumber hadded
      obtain ⟨after, hmore, hbehind⟩ :=
        @ih last (lengths ++ Array.replicate (run.least + added) run.length)
          (by rw [Array.toList_append, Array.toList_replicate]) hahead
      refine ⟨after, ?_, hbehind⟩
      exact (readLengths_run (by omega) hread (Nat.not_lt.mpr hsymbol) hrun hnumber).trans hmore

theorem readCounts_ahead {literals distances count : Nat}
    (hliterals : 257 ≤ literals ∧ literals ≤ 286) (hdistances : 1 ≤ distances ∧ distances ≤ 30)
    (hcount : 4 ≤ count ∧ count ≤ lengthOrder.length)
    (hahead : source.Ahead (lowBits 5 (literals - 257) ++ (lowBits 5 (distances - 1) ++
      (lowBits 4 (count - 4) ++ bits))) behind) :
    ∃ after, readCounts source = .ok (⟨literals, distances, count⟩, after) ∧
      after.Ahead bits behind := by
  have hmost : count ≤ 19 := hcount.2
  obtain ⟨first, hfirst, hahead⟩ := hahead.readNumber (by omega)
  obtain ⟨second, hsecond, hahead⟩ := hahead.readNumber (by omega)
  obtain ⟨after, hthird, hbehind⟩ := hahead.readNumber (by omega)
  refine ⟨after, ?_, hbehind⟩
  simp only [readCounts, hfirst, hsecond, hthird, bind, Except.bind,
    Nat.sub_add_cancel hliterals.1, Nat.sub_add_cancel hdistances.1, Nat.sub_add_cancel hcount.1]
  exact if_pos ⟨hliterals.2, hdistances.2⟩

theorem Admissible.codeTree {lengths : List Nat} (h : Admissible lengths) :
    Deflate.codeTree lengths = .ok (treeOf lengths) :=
  if_pos h

/-- The codes of a block are read from their description. -/
theorem CodesDescribed.readCodes {literals distances : List Nat}
    (h : CodesDescribed literals distances word) (hahead : source.Ahead (word ++ bits) behind) :
    ∃ after, Deflate.readCodes source = .ok ((treeOf literals, treeOf distances), after) ∧
      after.Ahead bits behind := by
  cases h with
  | @described code count _ hliterals hdistances hadmissible hcode hsmall hcomplete hcount hleft
      hlengths =>
    let given := (lengthOrder.take count).map (code.getD · 0)
    have hgiven : given.length = count := by
      rw [List.length_map, List.length_take, Nat.min_eq_left hcount.2]
    have hgivenSmall : ∀ length ∈ given, length < 8 := by
      intro length hlength
      obtain ⟨symbol, -, rfl⟩ := List.mem_map.mp hlength
      rw [List.getD_eq_getElem?_getD]
      cases hvalue : code[symbol]? with
      | none => decide
      | some value => exact hsmall value (List.mem_of_getElem? hvalue)
    simp only [List.append_assoc] at hahead
    obtain ⟨first, hcounts, hahead⟩ := readCounts_ahead hliterals hdistances hcount hahead
    rw [← List.flatMap_map] at hahead
    obtain ⟨second, htriples, hahead⟩ := readTriples_ahead hgivenSmall hahead
    obtain ⟨after, hall, hbehind⟩ :=
      hlengths.readLengths (Nat.le_of_eq (beq_iff_eq.mp hcomplete)) (show #[].toList = [] from rfl)
        hahead
    refine ⟨after, ?_, hbehind⟩
    rw [hgiven] at htriples
    rw [List.length_append] at hall
    simp only [Deflate.readCodes, hcounts, htriples, given, lengthTree_take hcode hcomplete hleft,
      hall, List.take_left, List.drop_left, hadmissible.1.codeTree, hadmissible.2.codeTree, bind,
      Except.bind, pure, Except.pure]

theorem CodesDescribed.admissible {literals distances : List Nat}
    (h : CodesDescribed literals distances word) : Admissible literals ∧ Admissible distances := by
  cases h
  assumption

/-! ## Blocks -/

theorem kraftSum_fixed : kraftSum fixedLiteralLengths ≤ 2 ^ maximalLength ∧
    kraftSum fixedDistanceLengths ≤ 2 ^ maximalLength := by
  decide +kernel

/-- The content of a stored block is added to the output, whatever is left of the byte before
it. -/
theorem readStored_append {content behind : Bytes} (hlength : content.length ≤ 0xFFFF)
    (haligned : source.aligned = Bytes.littleEndian 2 content.length ++
      Bytes.littleEndian 2 (0xFFFF - content.length) ++ content ++ behind) (output : Array UInt8) :
    readStored output source = .ok (output ++ content, .ofBytes behind) := by
  have hlow := Bytes.toNat_littleEndian 2 content.length
  have hhigh := Bytes.toNat_littleEndian 2 (0xFFFF - content.length)
  rw [Nat.pow_eq, Nat.mod_eq_of_lt (by omega)] at hlow hhigh
  have hfirst := Bytes.length_littleEndian 2 content.length
  have hlengths := Bytes.splitAt?_append (Bytes.littleEndian 2 content.length ++
    Bytes.littleEndian 2 (0xFFFF - content.length)) (content ++ behind)
  rw [List.length_append, hfirst, Bytes.length_littleEndian, ← List.append_assoc] at hlengths
  simp only [readStored, haligned, hlengths, List.take_left' hfirst, List.drop_left' hfirst, hlow,
    hhigh, Bytes.splitAt?_append]
  rw [if_neg (by omega)]

/-- A block is read, and the rest of the stream is ahead then. -/
theorem Block.read {before after : Array UInt8} {rest : List Bool}
    (h : Block before word rest after)
    (hahead : source.Ahead (word ++ rest) behind) :
    ∃ kind second next, readNumber 2 source = .ok (kind, second) ∧
      readBlock kind before second = .ok (after, next) ∧ next.Ahead rest behind := by
  cases h with
  | @stored filler _ content hfiller haligned hlength =>
      simp only [List.cons_append, List.append_assoc] at hahead
      obtain ⟨second, hkind, hahead⟩ := Source.Ahead.readNumber (show 0 < 2 ^ 2 by decide) hahead
      obtain ⟨more, hskipped, rfl⟩ := hahead.skip hfiller haligned
      exact ⟨0, second, _, hkind, readStored_append hlength (by simpa using hskipped) before,
        Source.ahead_ofBytes more behind⟩
  | fixed htokens =>
      rw [List.cons_append, List.cons_append] at hahead
      obtain ⟨second, hkind, hahead⟩ := Source.Ahead.readNumber (show 1 < 2 ^ 2 by decide) hahead
      obtain ⟨next, htokens, hbehind⟩ :=
        htokens.readTokens kraftSum_fixed.1 kraftSum_fixed.2 before hahead
      exact ⟨1, second, next, hkind, htokens, hbehind⟩
  | described hcodes htokens =>
      simp only [List.cons_append, List.append_assoc] at hahead
      obtain ⟨second, hkind, hahead⟩ := Source.Ahead.readNumber (show 2 < 2 ^ 2 by decide) hahead
      obtain ⟨hliterals, hdistances⟩ := hcodes.admissible
      obtain ⟨third, hcodes, hahead⟩ := hcodes.readCodes hahead
      obtain ⟨next, htokens, hbehind⟩ :=
        htokens.readTokens hliterals.kraftSum_le hdistances.kraftSum_le before hahead
      refine ⟨2, second, next, hkind, ?_, hbehind⟩
      simp only [readBlock, hcodes, htokens, bind, Except.bind]

theorem readBlocks_eq {output result : Array UInt8} {final kind : Nat}
    {first second after : Source} (hfinal : readNumber 1 source = .ok (final, first))
    (hkind : readNumber 2 first = .ok (kind, second))
    (hblock : readBlock kind output second = .ok (result, after)) :
    readBlocks output source =
      if final = 1 then .ok (result, after.aligned) else readBlocks result after := by
  rw [readBlocks]
  split <;> simp_all
  split <;> simp_all
  split <;> simp_all

theorem Blocks.read {before after : Array UInt8} (h : Blocks before word after)
    (hahead : source.Ahead word behind) : readBlocks before source = .ok (after, behind) := by
  induction h generalizing source with
  | last hfiller hblock =>
      obtain ⟨first, hfinal, hahead⟩ := Source.Ahead.readNumber (show 1 < 2 ^ 1 by decide) hahead
      obtain ⟨kind, second, next, hkind, hread, hbehind⟩ := hblock.read hahead
      rw [readBlocks_eq hfinal hkind hread, if_pos rfl, hbehind.aligned hfiller]
  | more hblock _ ih =>
      obtain ⟨first, hfinal, hahead⟩ := Source.Ahead.readNumber (show 0 < 2 ^ 1 by decide) hahead
      obtain ⟨kind, second, next, hkind, hread, hahead⟩ := hblock.read hahead
      rw [readBlocks_eq hfinal hkind hread, if_neg Nat.zero_ne_one]
      exact ih hahead

/-- Whatever stream its content was put into, the content is found again and the bytes behind
the stream are left. -/
theorem IsStream.inflate {content stream : Bytes} (h : IsStream content stream) (behind : Bytes) :
    Deflate.inflate (stream ++ behind) = .ok (content, behind) := by
  rw [Deflate.inflate, Blocks.read h (Source.ahead_ofBytes stream behind)]
  rfl

end Quorum.Deflate
