import Quorum.Proofs.Deflate.Ahead

/-! # What a reader has taken

What a reader takes off a source is looked at afterwards: the bits it took lie between the
source it was given and the one it left. If something is ahead of the second, then it is
ahead of the first behind those bits. A number that was read and a symbol that was found
both tell which bits they were read from.
-/

namespace Quorum.Deflate

namespace Source

/-- Between the first source and the second these bits were taken, one after the other. -/
inductive Taken : Source → List Bool → Source → Prop where
  | nothing (source : Source) : Taken source [] source
  | next {source next after : Source} {bit : Bool} {word : List Bool}
      (hnext : source.next? = some (bit, next)) (hrest : Taken next word after) :
      Taken source (bit :: word) after

variable {source next after : Source} {first second word bits : List Bool} {bytes behind : Bytes}

theorem Taken.append (h : Taken source first next) (hrest : Taken next second after) :
    Taken source (first ++ second) after := by
  induction h with
  | nothing => exact hrest
  | next hnext _ ih => exact .next hnext (ih hrest)

/-! ## What was ahead -/

theorem Ahead.of_next? {bit : Bool} (hnext : source.next? = some (bit, next))
    (hpending : source.pending.length < 8) (h : next.Ahead bits behind) :
    source.Ahead (bit :: bits) behind := by
  obtain ⟨pending, rest⟩ := source
  obtain ⟨-, bytes, hrest, rfl⟩ := h
  cases pending with
  | cons first pending =>
      obtain ⟨rfl, rfl⟩ : first = bit ∧ ⟨pending, rest⟩ = next := by
        simpa [Source.next?] using hnext
      exact ⟨hpending, bytes, hrest, rfl⟩
  | nil =>
      cases rest with
      | nil => simp [Source.next?] at hnext
      | cons byte rest =>
          obtain ⟨rfl, rfl⟩ : (byte.toNat % 2 == 1) = bit ∧
              ⟨lowBits 7 (byte.toNat / 2), rest⟩ = next := by simpa [Source.next?] using hnext
          exact ⟨hpending, byte :: bytes, congrArg (byte :: ·) hrest, rfl⟩

theorem pending_lt_of_next? {bit : Bool} (hnext : source.next? = some (bit, next))
    (hpending : source.pending.length < 8) : next.pending.length < 8 := by
  unfold next? at hnext
  split at hnext
  · cases hnext
    exact Nat.lt_of_succ_lt hpending
  · cases hnext
    simp [length_lowBits]
  · contradiction

theorem Taken.pending_lt (h : Taken source word after) (hpending : source.pending.length < 8) :
    after.pending.length < 8 := by
  induction h with
  | nothing => exact hpending
  | next hnext _ ih => exact ih (pending_lt_of_next? hnext hpending)

/-- The bits that were taken were ahead of those that are ahead now. -/
theorem Taken.ahead (h : Taken source word after) (hpending : source.pending.length < 8)
    (hafter : after.Ahead bits behind) : source.Ahead (word ++ bits) behind := by
  induction h with
  | nothing => exact hafter
  | next hnext _ ih =>
      exact .of_next? hnext hpending (ih (pending_lt_of_next? hnext hpending) hafter)

/-! ## Bits, bytes and numbers -/

theorem taken_pending (filler : List Bool) (rest : Bytes) :
    Taken ⟨filler, rest⟩ filler (ofBytes rest) := by
  induction filler with
  | nil => exact .nothing _
  | cons bit filler ih => exact .next rfl ih

theorem taken_bytes (bytes rest : Bytes) :
    Taken (ofBytes (bytes ++ rest)) (bitsOf bytes) (ofBytes rest) := by
  induction bytes with
  | nil => exact .nothing _
  | cons byte bytes ih => exact .next rfl ((taken_pending _ _).append ih)

theorem taken_of_number? {count n : Nat} (h : source.number? count = some (n, after)) :
    n < 2 ^ count ∧ Taken source (lowBits count n) after := by
  induction count generalizing source n with
  | zero =>
      cases h
      exact ⟨Nat.one_pos, .nothing _⟩
  | succ count ih =>
      rw [number?] at h
      split at h
      · contradiction
      next bit next hnext =>
        split at h
        · contradiction
        next high last hnumber =>
          cases h
          obtain ⟨hlt, htaken⟩ := ih hnumber
          have hbit : bit.toNat ≤ 1 := Bool.toNat_le bit
          have hlow : ((bit.toNat + 2 * high) % 2 == 1) = bit := by cases bit <;> simp
          have hhigh : (bit.toNat + 2 * high) / 2 = high := by omega
          refine ⟨by rw [Nat.pow_succ]; omega, ?_⟩
          rw [lowBits, hlow, hhigh]
          exact .next hnext htaken

end Source

variable {source after : Source}

theorem taken_of_readNumber {count n : Nat} (h : readNumber count source = .ok (n, after)) :
    n < 2 ^ count ∧ source.Taken (lowBits count n) after := by
  simp only [readNumber] at h
  split at h
  next heq =>
    cases h
    exact Source.taken_of_number? heq
  next => contradiction

/-! ## Code words -/

namespace Tree

variable {tree : Tree} {word other : List Bool} {symbol found : Nat}

theorem taken_of_walk (h : tree.walk source = .ok (symbol, after)) :
    ∃ word, tree.find? word = some symbol ∧ source.Taken word after := by
  induction tree generalizing source with
  | vacant => simp [walk] at h
  | leaf found =>
      cases h
      exact ⟨[], rfl, .nothing _⟩
  | node left right ihl ihr =>
      rw [walk] at h
      split at h
      · contradiction
      next hnext =>
        obtain ⟨word, hfind, htaken⟩ := ihl h
        exact ⟨false :: word, hfind, .next hnext htaken⟩
      next hnext =>
        obtain ⟨word, hfind, htaken⟩ := ihr h
        exact ⟨true :: word, hfind, .next hnext htaken⟩

theorem walk_of_read (h : tree.read source = .ok (symbol, after)) :
    tree.walk source = .ok (symbol, after) := by
  cases tree with
  | leaf => simp [read] at h
  | vacant | node => exact h

/-- Where a word leads, it led before another one was inserted, or it is the other one. -/
theorem of_find?_insert (h : (tree.insert symbol other).find? word = some found) :
    (symbol, other) = (found, word) ∨ tree.find? word = some found := by
  induction other generalizing tree word with
  | nil =>
      cases word with
      | nil => exact .inl (by simpa [insert, find?] using h)
      | cons => simp [insert, find?] at h
  | cons bit other ih =>
      cases word with
      | nil => cases tree <;> cases bit <;> simp [insert, find?] at h
      | cons first word =>
          by_cases hbit : bit = first
          · subst hbit
            cases tree <;> cases bit <;> simpa [insert, find?] using ih h
          -- The other word went into the other half of the tree.
          · obtain rfl : first = !bit := Bool.eq_not.mpr (Ne.symm hbit)
            refine .inr ?_
            cases tree with
            | node left right => cases bit <;> exact h
            | vacant | leaf => cases bit <;> simp [insert, find?] at h

theorem of_find?_insertAll {entries : List (Nat × List Bool)}
    (h : (entries.foldl (fun tree (symbol, word) => tree.insert symbol word) tree).find? word =
      some found) : (found, word) ∈ entries ∨ tree.find? word = some found := by
  induction entries generalizing tree with
  | nil => exact .inr h
  | cons entry rest ih =>
      rcases ih h with hmem | hfind
      · exact .inl (List.mem_cons_of_mem _ hmem)
      · rcases of_find?_insert hfind with heq | hbefore
        · exact .inl (List.mem_cons.mpr (.inl heq.symm))
        · exact .inr hbefore

end Tree

/-- The tree of a code leads nowhere but from a word to its symbol. -/
theorem mem_codeWords_of_find? {lengths : List Nat} {symbol : Nat} {word : List Bool}
    (h : (treeOf lengths).find? word = some symbol) : (symbol, word) ∈ codeWords lengths := by
  rcases Tree.of_find?_insertAll h with hmem | hvacant
  · exact hmem
  · cases word <;> simp [Tree.find?] at hvacant

/-- Whatever symbol is read with the tree of a code, its word was taken. -/
theorem taken_of_read {lengths : List Nat} {symbol : Nat}
    (h : (treeOf lengths).read source = .ok (symbol, after)) :
    ∃ word, (symbol, word) ∈ codeWords lengths ∧ source.Taken word after := by
  obtain ⟨word, hfind, htaken⟩ := Tree.taken_of_walk (Tree.walk_of_read h)
  exact ⟨word, mem_codeWords_of_find? hfind, htaken⟩

end Quorum.Deflate
