import Quorum.Storage.Log

/-! # What a log holds

A log is known by what it holds at each index. What is put at an index replaces what was
there, and cutting a log at an index removes what is on one side and keeps the rest. The
log of a log's own entries is that log.
-/

namespace Quorum

/-- Only the greatest index has no next one. -/
theorem toNat_succ {index : UInt64} (h : index.toNat + 1 < UInt64.size) :
    (index + 1).toNat = index.toNat + 1 := by
  rw [UInt64.toNat_add]
  exact Nat.mod_eq_of_lt h

theorem lt_succ {index : UInt64} (h : index.toNat + 1 < UInt64.size) : index < index + 1 := by
  rw [UInt64.lt_iff_toNat_lt, toNat_succ h]
  exact Nat.lt_succ_self _

/-- Whether an index is not after a place; none is before the log begins. -/
def LogId.covers (place : Option LogId) (index : UInt64) : Bool :=
  place.any fun id => index ≤ id.index

@[simp] theorem LogId.covers_none (index : UInt64) : covers none index = false :=
  rfl

@[simp] theorem LogId.covers_some {id : LogId} {index : UInt64} :
    covers (some id) index = true ↔ index ≤ id.index := by
  simp [covers]

theorem LogId.covers_of_le {place : Option LogId} {index other : UInt64} (hle : index ≤ other)
    (h : covers place other) : covers place index := by
  cases place with
  | none => cases h
  | some id => exact covers_some.mpr (UInt64.le_trans hle (covers_some.mp h))

theorem LogId.covers_self {place : Option LogId} {id : LogId} (h : id ∈ place) :
    covers place id.index := by
  rw [Option.mem_def.mp h, covers_some]
  exact UInt64.le_refl _

namespace Log

/-! ## Entries of a log -/

theorem eq_of_entries_eq {log other : Log} (h : log.entries = other.entries) : log = other := by
  cases log
  cases other
  cases h
  rfl

theorem entries_insertAll (log : Log) (entries : List Entry) :
    (log.insertAll entries).entries = Ascending.putAll (·.id.index) entries log.entries := by
  induction entries generalizing log with
  | nil => rfl
  | cons entry rest ih => exact ih (log.insert entry)

theorem ofEntries_entries (log : Log) : ofEntries log.entries = log := by
  apply eq_of_entries_eq
  rw [ofEntries, entries_insertAll]
  exact Ascending.putAll_nil log.ascending

theorem ofEntries_append (entries more : List Entry) :
    ofEntries (entries ++ more) = (ofEntries entries).insertAll more :=
  List.foldl_append

theorem mem_insertAll {log : Log} {entries : List Entry} {entry : Entry}
    (h : entry ∈ (log.insertAll entries).entries) : entry ∈ entries ∨ entry ∈ log.entries := by
  induction entries generalizing log with
  | nil => exact .inr h
  | cons head rest ih =>
      rcases @ih (log.insert head) h with hrest | hinsert
      · exact .inl (List.mem_cons_of_mem _ hrest)
      · rcases Ascending.mem_put hinsert with rfl | hlog
        · exact .inl List.mem_cons_self
        · exact .inr hlog

theorem mem_of_mem_filter {log : Log} {test : Entry → Bool} {entry : Entry}
    (h : entry ∈ (log.filter test).entries) : entry ∈ log.entries :=
  (List.mem_filter.mp h).1

/-! ## Looking up -/

theorem get?_eq_some_iff {log : Log} {entry : Entry} :
    log.get? entry.id.index = some entry ↔ entry ∈ log.entries :=
  Ascending.find?_eq_some_iff log.ascending

theorem index_of_get? {log : Log} {index : UInt64} {entry : Entry}
    (h : log.get? index = some entry) : entry.id.index = index := by
  simpa using List.find?_some h

theorem get?_empty : empty.get? = fun _ => none :=
  rfl

theorem get?_insert (log : Log) (entry : Entry) (index : UInt64) :
    (log.insert entry).get? index =
      if entry.id.index = index then some entry else log.get? index :=
  Ascending.find?_put index

/-- Entries that are kept for their index are found where they were. -/
theorem get?_filter (log : Log) (test : UInt64 → Bool) (index : UInt64) :
    (log.filter fun entry => test entry.id.index).get? index =
      if test index then log.get? index else none := by
  rw [get?, filter, List.find?_filter]
  split
  next htest =>
    rw [get?]
    congr 1
    funext entry
    by_cases heq : entry.id.index = index
    · simp [heq, htest]
    · simp [heq]
  next htest =>
    refine List.find?_eq_none.mpr fun entry _ => ?_
    by_cases heq : entry.id.index = index
    · simp [heq, htest]
    · simp [heq]

theorem get?_below (log : Log) (bound index : UInt64) :
    (log.below bound).get? index = if index < bound then log.get? index else none := by
  rw [below, log.get?_filter fun other => decide (other < bound)]
  simp

theorem get?_since (log : Log) (first index : UInt64) :
    (log.since first).get? index = if first ≤ index then log.get? index else none := by
  rw [since, log.get?_filter fun other => decide (first ≤ other)]
  simp

theorem get?_insertAll (log : Log) (entries : List Entry) (index : UInt64) :
    (log.insertAll entries).get? index =
      (entries.reverse.find? (·.id.index = index)).or (log.get? index) := by
  induction entries generalizing log with
  | nil => rfl
  | cons entry rest ih =>
      have hrest := ih (log.insert entry)
      rw [get?_insert] at hrest
      rw [List.reverse_cons, List.find?_append, Option.or_assoc]
      refine hrest.trans ?_
      congr 1
      by_cases hindex : entry.id.index = index <;> simp [hindex]

theorem get?_since_of_lt (log : Log) {bound index : UInt64} (h : bound < index) :
    (log.since (bound + 1)).get? index = log.get? index := by
  have hlt := UInt64.lt_iff_toNat_lt.mp h
  have hle : bound + 1 ≤ index := by
    rw [UInt64.le_iff_toNat_le, UInt64.toNat_add]
    exact Nat.le_trans (Nat.mod_le _ _) hlt
  rw [get?_since, if_pos hle]

/-- If an index has a next one, from there on is all that is not up to the index. -/
theorem get?_since_succ (log : Log) {bound : UInt64} (h : bound.toNat + 1 < UInt64.size)
    (index : UInt64) :
    (log.since (bound + 1)).get? index = if index ≤ bound then none else log.get? index := by
  by_cases hindex : index ≤ bound
  · have hlt : ¬ bound + 1 ≤ index := by
      rw [UInt64.le_iff_toNat_le, toNat_succ h]
      exact Nat.not_le.mpr (Nat.lt_succ_of_le (UInt64.le_iff_toNat_le.mp hindex))
    rw [get?_since, if_pos hindex, if_neg hlt]
  · rw [log.get?_since_of_lt (UInt64.not_le.mp hindex), if_neg hindex]

/-- Logs that hold the same at each index are the same. -/
theorem eq_of_get?_eq {log other : Log} (h : log.get? = other.get?) : log = other := by
  refine eq_of_entries_eq (Ascending.eq_of_mem_iff log.ascending other.ascending fun entry => ?_)
  rw [← get?_eq_some_iff, ← get?_eq_some_iff, h]

/-- No entry is after the last one. -/
theorem le_last {log : Log} {entry : Entry} (h : entry ∈ log.entries) :
    ∃ last, log.last? = some last ∧ entry.id.index ≤ last.id.index := by
  rw [last?]
  cases hlast : log.entries.getLast? with
  | none => exact absurd (List.getLast?_eq_none_iff.mp hlast) (List.ne_nil_of_mem h)
  | some last =>
      refine ⟨last, rfl, ?_⟩
      obtain ⟨before, hbefore⟩ := List.getLast?_eq_some_iff.mp hlast
      have hascending := log.ascending
      rw [hbefore] at h hascending
      rcases List.mem_append.mp h with hin | hin
      · have hlt := (List.pairwise_append.mp hascending).2.2
        exact UInt64.le_of_lt (hlt entry hin last List.mem_cons_self)
      · rw [List.mem_singleton.mp hin]
        exact UInt64.le_refl _

/-- An entry behind all others becomes the last one. -/
theorem entries_insert_of_behind {log : Log} {entry : Entry}
    (h : ∀ other ∈ log.entries, other.id.index < entry.id.index) :
    (log.insert entry).entries = log.entries ++ [entry] :=
  Ascending.put_of_all_lt h

theorem last?_insert {log : Log} {entry : Entry}
    (h : ∀ other ∈ log.entries, other.id.index < entry.id.index) :
    (log.insert entry).last? = some entry := by
  rw [last?, entries_insert_of_behind h, List.getLast?_concat]

/-! ## Parts of a log -/

variable {log other : Log} {first last place : Option LogId} {entry : Entry} {rest : List Entry}

/-- The entries after a place. -/
def after (log : Log) (place : Option LogId) : List Entry :=
  (log.filter fun entry => !LogId.covers place entry.id.index).entries

/-- The entries after one place up to another. -/
def between (log : Log) (first last : Option LogId) : List Entry :=
  (log.filter fun entry =>
    !LogId.covers first entry.id.index && LogId.covers last entry.id.index).entries

theorem mem_after : entry ∈ log.after place ↔
    entry ∈ log.entries ∧ ¬ LogId.covers place entry.id.index := by
  simp [after, filter]

theorem mem_between : entry ∈ log.between first last ↔ entry ∈ log.entries ∧
    ¬ LogId.covers first entry.id.index ∧ LogId.covers last entry.id.index := by
  simp [between, filter]

theorem between_self (log : Log) (place : Option LogId) : log.between place place = [] := by
  refine List.eq_nil_iff_forall_not_mem.mpr fun entry hentry => ?_
  obtain ⟨_, hnot, hcovers⟩ := mem_between.mp hentry
  exact hnot hcovers

theorem filter_congr (test : UInt64 → Bool)
    (h : ∀ index, test index → log.get? index = other.get? index) :
    (log.filter fun entry => test entry.id.index) =
      other.filter fun entry => test entry.id.index := by
  apply eq_of_get?_eq
  funext index
  rw [get?_filter, get?_filter]
  split
  next htest => exact h index htest
  next => rfl

/-- A part of a log depends on what is held at its indexes only. -/
theorem between_congr (h : ∀ index, ¬ LogId.covers first index → LogId.covers last index →
    log.get? index = other.get? index) : log.between first last = other.between first last := by
  refine congrArg entries (filter_congr
    (fun index => !LogId.covers first index && LogId.covers last index) fun index htest => ?_)
  obtain ⟨hnot, hcovers⟩ := Bool.and_eq_true_iff.mp htest
  exact h index (by simpa using hnot) hcovers

/-- All entries after a place are behind the first of them. -/
theorem lt_of_after (h : log.after place = entry :: rest) {later : Entry} (hlater : later ∈ rest) :
    entry.id.index < later.id.index := by
  have hascending : Ascending (·.id.index) (entry :: rest) := h ▸ log.ascending.filter _
  exact (List.pairwise_cons.mp hascending).1 later hlater

theorem lt_first_of_covers (h : log.after place = entry :: rest) {index : UInt64}
    (hcovers : LogId.covers place index) : index < entry.id.index := by
  have hentry := mem_after.mp (h ▸ List.mem_cons_self : entry ∈ log.after place)
  exact UInt64.not_le.mp fun hle => hentry.2 (LogId.covers_of_le hle hcovers)

/-- Behind the first entry after a place are the entries after that entry. -/
theorem after_next (h : log.after place = entry :: rest) : log.after (some entry.id) = rest := by
  have hascending : Ascending (·.id.index) (entry :: rest) := h ▸ log.ascending.filter _
  refine Ascending.eq_of_mem_iff (log.ascending.filter _)
    (List.pairwise_cons.mp hascending).2 fun found => mem_after.trans ?_
  rw [LogId.covers_some]
  constructor
  · rintro ⟨hfound, hbehind⟩
    have hplace : ¬ LogId.covers place found.id.index := fun hcovers =>
      hbehind (UInt64.le_of_lt (lt_first_of_covers h hcovers))
    have hmem : found ∈ entry :: rest := h ▸ mem_after.mpr ⟨hfound, hplace⟩
    refine (List.mem_cons.mp hmem).resolve_left ?_
    rintro rfl
    exact hbehind (UInt64.le_refl _)
  · intro hfound
    have hin : found ∈ log.after place := h ▸ List.mem_cons_of_mem entry hfound
    exact ⟨(mem_after.mp hin).1, UInt64.not_le.mpr (lt_of_after h hfound)⟩

/-- Up to the first entry after a place, there is one entry more than up to the place. -/
theorem between_next (h : log.after place = entry :: rest)
    (hfirst : ∀ index, LogId.covers first index → LogId.covers place index) :
    log.between first (some entry.id) = log.between first place ++ [entry] := by
  have hentry := mem_after.mp (h ▸ List.mem_cons_self : entry ∈ log.after place)
  refine Ascending.eq_of_mem_iff (log.ascending.filter _) ?_ fun found => ?_
  · refine List.pairwise_append.mpr ⟨log.ascending.filter _, List.pairwise_singleton _ _, ?_⟩
    intro found hfound last hlast
    rw [List.mem_singleton.mp hlast]
    exact lt_first_of_covers h (mem_between.mp hfound).2.2
  · rw [List.mem_append, List.mem_singleton]
    refine mem_between.trans ?_
    rw [mem_between, LogId.covers_some]
    constructor
    · rintro ⟨hfound, hnot, hle⟩
      by_cases hplace : LogId.covers place found.id.index
      · exact .inl ⟨hfound, hnot, hplace⟩
      · have hmem : found ∈ entry :: rest := h ▸ mem_after.mpr ⟨hfound, hplace⟩
        refine .inr ((List.mem_cons.mp hmem).resolve_right fun hrest => ?_)
        exact UInt64.not_le.mpr (lt_of_after h hrest) hle
    · rintro (⟨hfound, hnot, hplace⟩ | rfl)
      · exact ⟨hfound, hnot, UInt64.le_of_lt (lt_first_of_covers h hplace)⟩
      · exact ⟨hentry.1, fun hcovers => hentry.2 (hfirst _ hcovers), UInt64.le_refl _⟩

end Log
end Quorum
