import Quorum.Proofs.Command.Entry
import Quorum.Proofs.StateMachine.Redelivery
import Quorum.Proofs.Storage.Settled

/-! # Batches with bad entries

Entries are applied in batches, and a batch may hold entries whose bytes are no command. Such
an entry is answered with what is wrong with it, and the state machine does not see it. The
other entries are answered as if it were not there, and so is what was applied last.
-/

namespace Quorum

/-- The command that an entry's bytes hold, with the index and the term of the entry. -/
def Entry.numbered? (entry : Entry) : Option Memory.Numbered :=
  match entry.payload with
  | .blank | .membership _ => none
  | .normal data =>
      match Command.ofEntry data with
      | .ok command => some ⟨entry.id.index, entry.id.term, command⟩
      | .error _ => none

namespace Store

variable {entry : Entry}

/-! ## One entry -/

/-- An entry with a command is answered by the state machine. -/
theorem applyEntry_of_numbered {numbered : Memory.Numbered}
    (h : entry.numbered? = some numbered) (store : Store Memory) :
    let applied := store.applyEntry Memory.machine entry
    let taken := store.state.apply numbered.index numbered.term numbered.command
    applied.1.state = taken.1 ∧ applied.2 = taken.2 := by
  unfold Entry.numbered? at h
  unfold applyEntry
  split at h
  next => cases h
  next => cases h
  next data hpayload =>
    cases hcommand : Command.ofEntry data with
    | error => simp [hcommand] at h
    | ok command =>
        obtain rfl : _ = numbered := by simpa [hcommand] using h
        simp only [hpayload, feed, hcommand]
        exact ⟨rfl, rfl⟩

/-- Any other entry leaves the state machine alone. -/
theorem state_applyEntry_of_none (h : entry.numbered? = none) (store : Store Memory) :
    (store.applyEntry Memory.machine entry).1.state = store.state := by
  unfold Entry.numbered? at h
  unfold applyEntry
  split at h
  next hpayload => simp only [hpayload, markApplied]
  next hpayload => simp only [hpayload, noteMembership, markApplied]
  next data hpayload =>
    cases hcommand : Command.ofEntry data with
    | ok command => simp [hcommand] at h
    | error => simp only [hpayload, feed, hcommand, markApplied]

/-- What is right to answer to an entry, as far as its payload alone decides it: nothing if it
carries no bytes, and the failure if its bytes are no command. -/
structure Suits (entry : Entry) (result : ApplyResult) : Prop where
  bare : (∀ data, entry.payload ≠ .normal data) → result = .noOp
  refused : ∀ data failure, entry.payload = .normal data →
    Command.ofEntry data = .error failure → result = .error failure.message

theorem suits_applyEntry (store : Store Memory) (entry : Entry) :
    Suits entry (store.applyEntry Memory.machine entry).2 := by
  unfold applyEntry
  cases hpayload : entry.payload with
  | blank => exact ⟨fun _ => rfl, fun data _ hdata => by simp [hpayload] at hdata⟩
  | membership => exact ⟨fun _ => rfl, fun data _ hdata => by simp [hpayload] at hdata⟩
  | normal data =>
      refine ⟨fun hbare => absurd hpayload (hbare data), fun other failure hother hfailure => ?_⟩
      obtain rfl : data = other := by simpa [hpayload] using hother
      simp only [feed, hfailure]

/-! ## Batches -/

theorem length_results (store : Store Memory) (entries : List Entry) :
    (store.applyAll Memory.machine entries).2.length = entries.length := by
  induction entries generalizing store with
  | nil => rfl
  | cons entry rest ih => exact congrArg Nat.succ (ih _)

theorem suits_applyAll (store : Store Memory) (entries : List Entry) :
    ∀ pair ∈ entries.zip (store.applyAll Memory.machine entries).2, Suits pair.1 pair.2 := by
  induction entries generalizing store with
  | nil => exact List.forall_mem_nil _
  | cons entry rest ih =>
      exact List.forall_mem_cons.mpr ⟨suits_applyEntry store entry, ih _⟩

/-- The results that belong to entries with commands, in order. -/
def commandResults (entries : List Entry) (results : List ApplyResult) : List ApplyResult :=
  ((entries.zip results).filter fun pair => pair.1.numbered?.isSome).map Prod.snd

/-- The state machine takes the commands of a batch as if there were nothing else in it. -/
theorem applyAll_commands (store : Store Memory) (entries : List Entry) :
    let applied := store.applyAll Memory.machine entries
    ((applied.1.state, commandResults entries applied.2) : Memory × List ApplyResult) =
      store.state.applyAll (entries.filterMap Entry.numbered?) := by
  induction entries generalizing store with
  | nil => rfl
  | cons entry rest ih =>
      have hrest := ih (store.applyEntry Memory.machine entry).1
      cases hentry : entry.numbered? with
      | some numbered =>
          obtain ⟨hstate, hresult⟩ := applyEntry_of_numbered hentry store
          rw [hstate] at hrest
          rw [List.filterMap_cons_some hentry]
          simp only [Memory.applyAll, applyAll, commandResults, List.zip_cons_cons,
            List.filter_cons, hentry, Option.isSome_some, if_true, List.map_cons] at hrest ⊢
          rw [← hrest, ← hresult]
      | none =>
          rw [state_applyEntry_of_none hentry] at hrest
          rw [List.filterMap_cons_none hentry, ← hrest]
          simp only [applyAll, commandResults, List.zip_cons_cons, List.filter_cons, hentry,
            Option.isSome_none, Bool.false_eq_true, if_false]

end Store

/-- However many entries of a batch are bad, each entry has one result. It is the failure of an
entry whose bytes are no command, and nothing for an entry that carries none; the results of the
commands and the state they lead to are those of the commands alone, each with its own index and
term. Of the store nothing else changes but what was applied last, which is the last entry, and
the membership, which is that of the last entry that carries one. -/
theorem bad_entries_harm_only_themselves (store : Store Memory) (entries : List Entry) :
    let applied := store.applyAll Memory.machine entries
    let commands := store.state.applyAll (entries.filterMap Entry.numbered?)
    applied.2.length = entries.length ∧
      (∀ entry result, (entry, result) ∈ entries.zip applied.2 →
        ((∀ data, entry.payload ≠ .normal data) → result = .noOp) ∧
          ∀ data failure, entry.payload = .normal data →
            Command.ofEntry data = .error failure → result = .error failure.message) ∧
      ((entries.zip applied.2).filter fun pair => pair.1.numbered?.isSome).map Prod.snd =
        commands.2 ∧
      applied.1 = { store with
        state := commands.1
        lastApplied := (entries.getLast?.map Entry.id).or store.lastApplied
        lastMembership := (entries.filterMap Entry.membership?).getLast?.getD
          store.lastMembership } := by
  have hcommands := store.applyAll_commands entries
  refine ⟨store.length_results entries, fun entry result hmem => ?_, congrArg Prod.snd hcommands,
    ?_⟩
  · obtain ⟨hbare, hrefused⟩ := store.suits_applyAll entries (entry, result) hmem
    exact ⟨hbare, hrefused⟩
  · have hlast : (store.applyAll Memory.machine entries).1.lastApplied =
        (entries.getLast?.map Entry.id).or store.lastApplied := by
      cases hentries : entries.getLast? with
      | none =>
          rw [List.getLast?_eq_none_iff.mp hentries]
          rfl
      | some entry => exact store.lastApplied_applyAll Memory.machine hentries
    rw [Store.applyAll_eq_resume, Store.resume, Store.progress, hlast,
      Store.lastMembership_applyAll, ← congrArg Prod.fst hcommands]

/-- A membership, a gzip member that is cut off, a command, an unknown action, and a command that
is refused. -/
theorem bad_entries_around_command :
    let put : Command := ⟨.put, [7]⟩
    let short : Command := ⟨.incrCounter, [1]⟩
    let store : Store Memory := (Memory.setup ⟨"db-s"⟩ "raft_log.bin").first
    let entries : List Entry := [⟨⟨1, 1, 1⟩, .membership .empty⟩,
      ⟨⟨1, 1, 2⟩, .normal [4, 0x1F, 0x8B]⟩, ⟨⟨1, 1, 3⟩, .normal put.toEntry⟩,
      ⟨⟨1, 1, 4⟩, .normal [9]⟩, ⟨⟨1, 1, 5⟩, .normal short.toEntry⟩]
    let applied := store.applyAll Memory.machine entries
    applied.2 = [.noOp,
        .error "Serialization error: Failed to decompress payload: unexpected end of file",
        .ok [], .error "Serialization error: Unknown store action code: 9",
        .error "counter delta must be 8 bytes, got 1"] ∧
      applied.1.state = ⟨5, 1, [put, short], 0⟩ ∧ applied.1.lastApplied = some ⟨1, 1, 5⟩ ∧
      applied.1.lastMembership = ⟨some ⟨1, 1, 1⟩, .empty⟩ := by
  intro put short store entries applied
  have hcut : Command.ofEntry [4, 0x1F, 0x8B] =
      .error (.serialization "Failed to decompress payload: unexpected end of file") := rfl
  have hunknown : Command.ofEntry [9] =
      .error (.serialization "Unknown store action code: 9") := rfl
  have hput : Entry.numbered? ⟨⟨1, 1, 3⟩, .normal put.toEntry⟩ = some ⟨3, 1, put⟩ := by
    simp only [Entry.numbered?, Command.ofEntry_toEntry]
  have hshort : Entry.numbered? ⟨⟨1, 1, 5⟩, .normal short.toEntry⟩ = some ⟨5, 1, short⟩ := by
    simp only [Entry.numbered?, Command.ofEntry_toEntry]
  have hnumbered : entries.filterMap Entry.numbered? = [⟨3, 1, put⟩, ⟨5, 1, short⟩] := by
    simp only [entries, List.filterMap_cons, hput, hshort]
    rfl
  obtain ⟨hlength, hanswers, hcommands, hstore⟩ :=
    bad_entries_harm_only_themselves store entries
  rw [hnumbered] at hcommands hstore
  refine ⟨?_, (congrArg Store.state hstore).trans (by decide +kernel),
    congrArg Store.lastApplied hstore, congrArg Store.lastMembership hstore⟩
  match hresults : applied.2, hlength with
  | [first, second, third, fourth, fifth], _ =>
    rw [hresults] at hanswers hcommands
    have hfirst := (hanswers ⟨⟨1, 1, 1⟩, .membership .empty⟩ first (by simp [entries])).1
      (fun _ => by simp)
    have hsecond := (hanswers ⟨⟨1, 1, 2⟩, .normal [4, 0x1F, 0x8B]⟩ second
      (by simp [entries])).2 _ _ rfl hcut
    have hfourth := (hanswers ⟨⟨1, 1, 4⟩, .normal [9]⟩ fourth (by simp [entries])).2 _ _ rfl
      hunknown
    have htaken : [third, fifth] = [.ok [], .error "counter delta must be 8 bytes, got 1"] := by
      refine Eq.trans ?_ (hcommands.trans (by decide +kernel))
      simp only [entries, List.zip_cons_cons, List.filter_cons, hput, hshort]
      rfl
    obtain ⟨rfl, hfifth⟩ := List.cons_eq_cons.mp htaken
    obtain ⟨rfl, -⟩ := List.cons_eq_cons.mp hfifth
    rw [hfirst, hsecond, hfourth]
    rfl

end Quorum
