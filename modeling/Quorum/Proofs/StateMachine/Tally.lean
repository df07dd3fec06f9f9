import Mathlib.Algebra.Group.Int.Defs
import Mathlib.Algebra.Group.Nat.Defs
import Quorum.Proofs.StateMachine.Redelivery

/-! # The counter and the recorded commands

A memory counts in 64 bits with a sign, and it records every command that it takes, a refused
one too. Its counter is the sum that the recorded commands make in whole numbers, one after the
other, if each increment that would leave the range is passed over. Clearing forgets all
commands before, so it is the first one recorded if it is recorded at all.
-/

namespace Quorum.Memory

variable {memory : Memory} {command : Command}

/-! ## Numbers -/

/-- The number that bytes spell in two's complement of 64 bits, the lowest byte first. -/
def spelled (bytes : Bytes) : Int :=
  (Bytes.toNat bytes : Int).bmod (2 ^ 64)

/-- Whether a number can be written with 64 bits, one of which is its sign. -/
def InRange (n : Int) : Prop :=
  -2 ^ 63 ≤ n ∧ n < 2 ^ 63

instance : DecidablePred InRange :=
  fun _ => inferInstanceAs (Decidable (_ ∧ _))

theorem toInt_signed (bytes : Bytes) : (signed bytes).toInt = spelled bytes :=
  @BitVec.toInt_ofNat 64 (Bytes.toNat bytes)

theorem length_signedBytes (n : Int64) : (signedBytes n).length = 8 :=
  Bytes.length_littleEndian ..

theorem spelled_signedBytes (n : Int64) : spelled (signedBytes n) = n.toInt := by
  have hbytes := Bytes.toNat_littleEndian 8 n.toUInt64.toNat
  rw [Nat.pow_eq, Nat.mod_eq_of_lt n.toUInt64.toNat_lt] at hbytes
  unfold spelled signedBytes
  rw [hbytes]
  exact (BitVec.toInt_eq_toNat_bmod n.toBitVec).symm

theorem inRange_toInt (n : Int64) : InRange n.toInt :=
  ⟨n.le_toInt, n.toInt_lt⟩

theorem checkedAdd_eq_some_iff {a b sum : Int64} :
    checkedAdd a b = some sum ↔ sum.toInt = a.toInt + b.toInt := by
  have hmin : Int64.minValue.toInt = -2 ^ 63 := rfl
  have hmax : Int64.maxValue.toInt = 2 ^ 63 - 1 := rfl
  simp only [checkedAdd, hmin, hmax]
  constructor
  · intro h
    split at h
    next hrange =>
      cases h
      exact Int64.toInt_ofInt_of_le hrange.1 (by omega)
    next => cases h
  · intro h
    have hsum := inRange_toInt sum
    rw [h] at hsum
    rw [if_pos ⟨hsum.1, Int.le_sub_one_of_lt hsum.2⟩, ← h, Int64.ofInt_toInt]

theorem checkedAdd_eq_none_iff {a b : Int64} :
    checkedAdd a b = none ↔ ¬ InRange (a.toInt + b.toInt) := by
  constructor
  · intro h hrange
    have hsum := Int64.toInt_ofInt_of_le hrange.1 hrange.2
    rw [checkedAdd_eq_some_iff.mpr hsum] at h
    cases h
  · intro h
    rw [Option.eq_none_iff_forall_ne_some]
    intro sum hsum
    exact h (checkedAdd_eq_some_iff.mp hsum ▸ inRange_toInt sum)

/-! ## Increments -/

/-- What a recorded command makes of a sum: an increment of eight bytes adds its number, unless
the sum would leave the range. -/
def count (sum : Int) (command : Command) : Int :=
  if command.action = .incrCounter ∧ command.data.length = 8 ∧
      InRange (sum + spelled command.data) then
    sum + spelled command.data
  else sum

/-- The sum of the recorded commands. -/
def tally (commands : List Command) : Int :=
  commands.foldl count 0

/-- An increment is answered with the new counter, or refused with the counter as it was. -/
theorem increment_cases (memory : Memory) (delta : Bytes) :
    (∃ counter : Int64, delta.length = 8 ∧
        counter.toInt = memory.counter.toInt + spelled delta ∧
        memory.increment delta = ({ memory with counter }, .ok (signedBytes counter))) ∨
      ∃ text, ¬ (delta.length = 8 ∧ InRange (memory.counter.toInt + spelled delta)) ∧
        memory.increment delta = (memory, .error text) := by
  unfold increment
  split
  next hlength =>
    rw [← toInt_signed]
    cases hsum : checkedAdd memory.counter (signed delta) with
    | some counter => exact .inl ⟨counter, hlength, checkedAdd_eq_some_iff.mp hsum, rfl⟩
    | none => exact .inr ⟨_, fun h => checkedAdd_eq_none_iff.mp hsum h.2, rfl⟩
  next hlength => exact .inr ⟨_, fun h => hlength h.1, rfl⟩

/-! ## Commands -/

/-- Whether a command makes a memory forget all commands before it. -/
def Forgets (command : Command) : Prop :=
  command.action = .clear ∨ command.action = .truncate

theorem perform_of_forgets (h : Forgets command) (memory : Memory) :
    memory.perform command = ({ memory with commands := [], counter := 0 }, .ok []) := by
  unfold perform
  rcases h with h | h <;> rw [h]

theorem count_of_forgets (h : Forgets command) (sum : Int) : count sum command = sum := by
  refine if_neg fun hcounts => ?_
  rcases h with h | h <;> cases h.symm.trans hcounts.1

/-- Other commands leave the recorded ones, and the counter is what they add to it. -/
theorem perform_of_not_forgets (h : ¬ Forgets command) (memory : Memory) :
    ∃ counter, (memory.perform command).1 = { memory with counter } ∧
      counter.toInt = count memory.counter.toInt command := by
  unfold perform
  split
  next hclear => exact absurd (.inl hclear) h
  next htruncate => exact absurd (.inr htruncate) h
  next hincrement =>
    rcases increment_cases memory command.data with
      ⟨counter, hlength, hsum, heq⟩ | ⟨text, hrefused, heq⟩
    · refine ⟨counter, congrArg Prod.fst heq, ?_⟩
      rw [count, if_pos ⟨hincrement, hlength, hsum ▸ inRange_toInt counter⟩, hsum]
    · refine ⟨memory.counter, congrArg Prod.fst heq, ?_⟩
      rw [count, if_neg fun hcounts => hrefused hcounts.2]
  next hother =>
    exact ⟨memory.counter, rfl, (if_neg fun hcounts => hother hcounts.1).symm⟩

/-! ## Every memory that can be reached -/

/-- The memories that come of a new one by delivering commands, with any index and term, and by
putting back snapshots of such memories. A snapshot fits in memory. -/
inductive Reachable : Memory → Prop where
  | new : Reachable {}
  | apply {memory : Memory} (h : Reachable memory) (index term : UInt64) (command : Command) :
      Reachable (memory.apply index term command).1
  | putBack {memory source : Memory} (h : Reachable memory) (hsource : Reachable source)
      (hfits : source.snapshot.Fits) : Reachable (memory.putBack source.snapshot).1

/-- The counter is the sum of the recorded commands, of which only the first may be one that
forgets those before it. -/
structure Counted (memory : Memory) : Prop where
  counter : memory.counter.toInt = tally memory.commands
  forgets : ∀ command ∈ memory.commands.tail, ¬ Forgets command

theorem Counted.apply (h : Counted memory) (index term : UInt64) (command : Command) :
    Counted (memory.apply index term command).1 := by
  unfold Memory.apply
  split
  next => exact h
  next =>
    by_cases hforgets : Forgets command
    · rw [perform_of_forgets hforgets]
      exact ⟨(count_of_forgets hforgets 0).symm, List.forall_mem_nil _⟩
    · obtain ⟨counter, hperformed, hcounter⟩ := perform_of_not_forgets hforgets
        { memory with lastIndex := index, lastTerm := term }
      refine ⟨?_, fun other hother => ?_⟩
      · simp only [hperformed, hcounter, h.counter, tally, List.foldl_append, List.foldl_cons,
          List.foldl_nil]
      · simp only [hperformed] at hother
        cases hcommands : memory.commands with
        | nil => simp [hcommands] at hother
        | cons first rest =>
            have hrest := h.forgets
            rw [hcommands] at hother hrest
            rcases List.mem_append.mp hother with hbefore | hlast
            · exact hrest other hbefore
            · obtain rfl := List.mem_singleton.mp hlast
              exact hforgets

theorem Reachable.counted (h : Reachable memory) : Counted memory := by
  induction h with
  | new => exact ⟨rfl, List.forall_mem_nil _⟩
  | apply _ index term command ih => exact ih.apply index term command
  | putBack _ _ hfits _ ihsource =>
      rw [putBack_snapshot hfits]
      exact ihsource

/-- The counter of every memory that can be reached is the sum of the commands that it has
recorded, and a clearing or truncating one is only found first among them. An increment that was
not seen before is answered with the eight bytes of the new counter, which is the exact sum, or
refused with the counter as it was; it is refused just if it has not eight bytes or the sum is
out of range. -/
theorem counter_agrees_with_commands (h : Reachable memory) :
    memory.counter.toInt = tally memory.commands ∧
      (∀ command ∈ memory.commands.tail,
        command.action ≠ .clear ∧ command.action ≠ .truncate) ∧
      ∀ index term command, memory.lastIndex < index → command.action = .incrCounter →
        let sum := memory.counter.toInt + spelled command.data
        let taken := memory.apply index term command
        ((command.data.length = 8 ∧ InRange sum) ∧ taken.1.counter.toInt = sum ∧
            ∃ bytes, taken.2 = .ok bytes ∧ bytes.length = 8 ∧
              spelled bytes = taken.1.counter.toInt) ∨
          (¬ (command.data.length = 8 ∧ InRange sum) ∧ taken.1.counter = memory.counter ∧
            ∃ text, taken.2 = .error text) := by
  obtain ⟨hcounter, hforgets⟩ := h.counted
  refine ⟨hcounter, fun command hcommand => not_or.mp (hforgets command hcommand), ?_⟩
  intro index term command hnew hincrement
  simp only [apply, if_neg (UInt64.not_le.mpr hnew), perform, hincrement]
  rcases increment_cases { memory with lastIndex := index, lastTerm := term } command.data with
    ⟨counter, hlength, hsum, heq⟩ | ⟨text, hrefused, heq⟩
  · rw [heq]
    exact .inl ⟨⟨hlength, hsum ▸ inRange_toInt counter⟩, hsum, _, rfl, length_signedBytes counter,
      spelled_signedBytes counter⟩
  · rw [heq]
    exact .inr ⟨hrefused, rfl, text, rfl⟩

/-- The second of two greatest increments is refused and recorded. Put back in the place of
another memory they still make the same sum, and the next one is exact. -/
theorem counter_agrees_after_refusal :
    let greatest : Command := ⟨.incrCounter, signedBytes .maxValue⟩
    let decrement : Command := ⟨.incrCounter, signedBytes (-2)⟩
    let taken := ((apply {} 1 1 greatest).1.apply 2 1 greatest).1
    let restored := ((apply {} 7 1 ⟨.clear, []⟩).1.putBack taken.snapshot).1
    Reachable restored ∧ restored.commands = [greatest, greatest] ∧
      restored.counter.toInt = 2 ^ 63 - 1 ∧
      (restored.apply 3 1 decrement).1.counter.toInt = 2 ^ 63 - 3 := by
  intro greatest decrement taken restored
  have hfits : taken.snapshot.Fits := by decide +kernel
  have hrestored : restored = taken := by
    unfold restored
    rw [putBack_snapshot hfits]
  have hreachable : Reachable restored :=
    .putBack (Reachable.new.apply 7 1 _) ((Reachable.new.apply 1 1 greatest).apply 2 1 greatest)
      hfits
  obtain ⟨hcounter, -, hanswers⟩ := counter_agrees_with_commands hreachable
  rw [hrestored] at hreachable hcounter hanswers ⊢
  have hsum : taken.counter.toInt = 2 ^ 63 - 1 := hcounter.trans (by decide +kernel)
  refine ⟨hreachable, by decide +kernel, hsum, ?_⟩
  rcases hanswers 3 1 decrement (by decide +kernel) rfl with ⟨-, hnext, -⟩ | ⟨hrefused, -⟩
  · exact hnext.trans (by rw [hsum]; decide +kernel)
  · exact absurd ⟨by decide +kernel, by rw [hsum]; decide +kernel⟩ hrefused

end Quorum.Memory
