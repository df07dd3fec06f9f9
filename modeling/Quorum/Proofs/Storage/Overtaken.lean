import Mathlib.Data.List.Induction
import Quorum.Proofs.Storage.Outcome
import Quorum.Proofs.Storage.PurgeCovered

/-! # Snapshots built while others are installed

A build reads what was applied last at its beginning and publishes its snapshot at its end,
first in the file and then in memory, without a look at what is there by then. As long as no
snapshot is installed in between, the place up to which the current snapshot covers the log
only moves on, and what was purged stays covered. If one is, the build has been overtaken:
when it is finished it puts an earlier snapshot in place of the installed one, though the log
in front of that is gone.
-/

namespace Quorum

variable {σ : Type} {machine : StateMachine σ} {store next : Store σ} {rank : LogId → Nat}

/-! ## Places -/

/-- How far a place is, if log ids are ranked by their index, or by their term first. -/
def LogId.level (rank : LogId → Nat) : Option LogId → Nat
  | none => 0
  | some id => rank id + 1

namespace Store

/-- The place up to which the snapshot that is read from the file covers the log. -/
def filedPlace (store : Store σ) : Option LogId :=
  match store.readSnapshot with
  | some (.ok (some bytes)) =>
      match decodeStored Snapshot.format bytes with
      | .ok snapshot => snapshot.description.lastLogId
      | .error _ => none
  | _ => none

theorem filedPlace_congr (h : next.readSnapshot = store.readSnapshot) :
    next.filedPlace = store.filedPlace := by
  rw [filedPlace, filedPlace, h]

/-- A file that was written holds the place of its snapshot, if there is a place for one. -/
theorem filedPlace_of_written {snapshot : Snapshot}
    (h : next.readSnapshot = store.volume.snapshot.map fun _ =>
      .ok (some (Snapshot.format.write snapshot)))
    (hfits : (Snapshot.format.write snapshot).Fits) :
    next.filedPlace = snapshot.description.lastLogId ∨
      next.readSnapshot.isSome = false ∧ store.filedPlace = none ∧ next.filedPlace = none := by
  have hdecode := decodeStored_write Snapshot.lossless_format hfits
  rw [filedPlace, filedPlace, h, readSnapshot]
  cases store.volume.snapshot with
  | none => exact .inr ⟨rfl, rfl, rfl⟩
  | some slot => exact .inl (by simp [hdecode])

/-- Neither the current snapshot nor the one in the file covers less than before. -/
structure Follows (rank : LogId → Nat) (store next : Store σ) : Prop where
  memory : LogId.level rank store.snapshotPlace ≤ LogId.level rank next.snapshotPlace
  file : LogId.level rank store.filedPlace ≤ LogId.level rank next.filedPlace

/-- What was purged is covered by the current snapshot, and by its file if it has one. -/
structure CoversPurged (rank : LogId → Nat) (store : Store σ) : Prop where
  memory : LogId.level rank store.hardState.lastPurged ≤ LogId.level rank store.snapshotPlace
  file : store.readSnapshot.isSome →
    LogId.level rank store.hardState.lastPurged ≤ LogId.level rank store.filedPlace

theorem Follows.refl (rank : LogId → Nat) (store : Store σ) : Follows rank store store :=
  ⟨Nat.le_refl _, Nat.le_refl _⟩

theorem Follows.trans {last : Store σ} (h : Follows rank store next)
    (hlast : Follows rank next last) : Follows rank store last :=
  ⟨Nat.le_trans h.memory hlast.memory, Nat.le_trans h.file hlast.file⟩

/-- The place up to which a snapshot that is being built will cover the log, as it was read. -/
def Build.place? : Build → Option (Option LogId)
  | .applied last | .described last _ | .taken last _ _ => some last
  | .named snapshot | .written snapshot => some snapshot.description.lastLogId
  | .begun | .finished _ | .failed _ => none

end Store

/-! ## Moves -/

/-- A store on which a snapshot is being built. -/
structure Site (σ : Type) where
  store : Store σ
  build : Store.Build

/-- What happens next: a step of the build or a whole operation. -/
inductive Move where
  | build
  | perform (operation : Operation)
  deriving DecidableEq, Repr

namespace Site

def move (machine : StateMachine σ) (site : Site σ) : Move → Site σ
  | .build =>
      let (store, build) := site.store.buildStep machine site.build
      ⟨store, build⟩
  | .perform operation => { site with store := (operation.perform machine site.store).1 }

/-- The site after some moves, done or not. -/
def after (machine : StateMachine σ) (site : Site σ) (moves : List Move) : Site σ :=
  moves.foldl (move machine) site

theorem after_concat (machine : StateMachine σ) (site : Site σ) (moves : List Move)
    (last : Move) :
    site.after machine (moves ++ [last]) = (site.after machine moves).move machine last := by
  rw [after, List.foldl_append]
  rfl

end Site

/-- Entries are applied and snapshots installed with ever greater log ids, and nothing is purged
that the current snapshot does not cover. No other build is begun. The bytes of an installed
snapshot fit in memory. -/
def Operation.Rising (rank : LogId → Nat) (store : Store σ) : Operation → Prop
  | .apply entries => (store.lastApplied :: entries.map (some ·.id)).Pairwise fun before after =>
      LogId.level rank before < LogId.level rank after
  | .purge id => LogId.level rank (some id) ≤ LogId.level rank store.snapshotPlace
  | .install snapshot =>
      LogId.level rank store.lastApplied < LogId.level rank snapshot.description.lastLogId ∧
        (Snapshot.format.write snapshot).Fits
  | .build => False
  | .saveVote _ | .saveCommitted _ | .append _ | .deleteSince _ => True

/-- The build is allowed to go on if the snapshot that it writes fits in memory. -/
def Move.Allowed (rank : LogId → Nat) (site : Site σ) : Move → Prop
  | .build => ∀ snapshot, site.build = .named snapshot → (Snapshot.format.write snapshot).Fits
  | .perform operation => operation.Rising rank site.store

namespace Site

/-- Each of the moves is allowed when it is made. -/
def Allows (machine : StateMachine σ) (rank : LogId → Nat) (site : Site σ) (moves : List Move) :
    Prop :=
  ∀ earlier last, earlier ++ [last] <+: moves → last.Allowed rank (site.after machine earlier)

/-- At no time does the current snapshot, or the one in the file, cover less than it did earlier
or less than was purged. -/
structure InOrder (machine : StateMachine σ) (rank : LogId → Nat) (site : Site σ)
    (moves : List Move) : Prop where
  onward : ∀ earlier later, earlier <+: later → later <+: moves →
    (site.after machine earlier).store.Follows rank (site.after machine later).store
  purged : ∀ earlier, earlier <+: moves → (site.after machine earlier).store.CoversPurged rank

/-- The move installs a snapshot while the build is under way. -/
def Overtakes (machine : StateMachine σ) (site : Site σ) (last : Move) : Prop :=
  ∃ snapshot, last = .perform (.install snapshot) ∧ site.build.place?.isSome ∧
    (site.move machine last).store.current = some snapshot

/-- A snapshot was installed between the first and the last step of the build. -/
def Overtaken (machine : StateMachine σ) (site : Site σ) (moves : List Move) : Prop :=
  ∃ earlier last, earlier ++ [last] <+: moves ∧ (site.after machine earlier).Overtakes machine last

end Site

/-! ## Operations -/

namespace Store

/-- What an operation that installs no snapshot leaves of a store. -/
structure Kept (rank : LogId → Nat) (store next : Store σ) : Prop where
  applied : LogId.level rank store.lastApplied ≤ LogId.level rank next.lastApplied
  current : next.current = store.current
  purged : next.hardState.lastPurged = store.hardState.lastPurged ∨
    LogId.level rank next.hardState.lastPurged ≤ LogId.level rank store.snapshotPlace
  file : next.readSnapshot = store.readSnapshot

theorem level_applyAll {entries : List Entry}
    (h : (store.lastApplied :: entries.map (some ·.id)).Pairwise fun before after =>
      LogId.level rank before < LogId.level rank after) :
    LogId.level rank store.lastApplied ≤
      LogId.level rank (store.applyAll machine entries).1.lastApplied := by
  induction entries generalizing store with
  | nil => exact Nat.le_refl _
  | cons entry rest ih =>
      obtain ⟨hfirst, hrest⟩ := List.pairwise_cons.mp h
      have hentry : (store.applyEntry machine entry).1.lastApplied = some entry.id :=
        lastApplied_applyEntry store entry
      have hlt := hfirst (some entry.id) List.mem_cons_self
      rw [List.map_cons, ← hentry] at hrest
      rw [← hentry] at hlt
      exact Nat.le_trans (Nat.le_of_lt hlt) (ih hrest)

end Store

/-- Nothing but an install replaces the current snapshot or its file. -/
theorem Operation.Rising.perform {operation : Operation} (machine : StateMachine σ)
    (h : operation.Rising rank store) :
    (∃ snapshot state, operation = .install snapshot ∧
      Store.Installed store (operation.perform machine store).1 snapshot state) ∨
    Store.Kept rank store (operation.perform machine store).1 := by
  cases operation with
  | saveVote | saveCommitted | deleteSince => exact .inr ⟨Nat.le_refl _, rfl, .inl rfl, rfl⟩
  | append entries =>
      right
      simp only [Operation.perform, Store.append]
      split <;> exact ⟨Nat.le_refl _, rfl, .inl rfl, rfl⟩
  | purge id =>
      obtain ⟨log, hardState, logSlot, hardSlot, hpurge, -, hhard⟩ := store.purge_spec id
      right
      change Store.Kept rank store (store.purge id).1
      rw [hpurge]
      refine ⟨Nat.le_refl _, rfl, ?_, rfl⟩
      rcases hhard with rfl | rfl
      · exact .inl rfl
      · exact .inr h
  | apply entries =>
      have happlied := @Store.level_applyAll σ machine store rank entries h
      right
      change Store.Kept rank store (store.applyAll machine entries).1
      rw [Store.applyAll_eq_resume]
      exact ⟨happlied, rfl, .inl rfl, rfl⟩
  | build => exact h.elim
  | install snapshot =>
      rcases store.installSnapshot_cases machine snapshot with
        ⟨state, -, hinstalled⟩ | ⟨-, happlied, hcurrent, hhard, hfile⟩
      · exact .inl ⟨snapshot, state, rfl, hinstalled⟩
      -- Memory may be at the snapshot before its file fails, and that is further on.
      · refine .inr ⟨?_, hcurrent, .inl (congrArg HardState.lastPurged hhard), hfile⟩
        rcases happlied with happlied | happlied
        · exact Nat.le_of_eq (congrArg (LogId.level rank) happlied.symm)
        · exact Nat.le_trans (Nat.le_of_lt h.1)
            (Nat.le_of_eq (congrArg (LogId.level rank) happlied.symm))

namespace Store

/-- What is true of the places of a store while none of its snapshots is overtaken. -/
structure Orderly (rank : LogId → Nat) (store : Store σ) : Prop where
  applied : LogId.level rank store.snapshotPlace ≤ LogId.level rank store.lastApplied
  purged : LogId.level rank store.hardState.lastPurged ≤ LogId.level rank store.snapshotPlace
  filed : store.readSnapshot.isSome →
    LogId.level rank store.snapshotPlace ≤ LogId.level rank store.filedPlace
  filedApplied : LogId.level rank store.filedPlace ≤ LogId.level rank store.lastApplied

theorem Orderly.coversPurged (h : store.Orderly rank) : store.CoversPurged rank :=
  ⟨h.purged, fun hfile => Nat.le_trans h.purged (h.filed hfile)⟩

theorem Kept.refl (rank : LogId → Nat) (store : Store σ) : Kept rank store store :=
  ⟨Nat.le_refl _, rfl, .inl rfl, rfl⟩

theorem Kept.snapshotPlace (h : Kept rank store next) :
    next.snapshotPlace = store.snapshotPlace := by
  rw [Store.snapshotPlace, Store.snapshotPlace, h.current]

theorem Kept.follows (h : Kept rank store next) : Follows rank store next :=
  ⟨Nat.le_of_eq (congrArg _ h.snapshotPlace.symm),
    Nat.le_of_eq (congrArg _ (filedPlace_congr h.file).symm)⟩

theorem Kept.orderly (h : Kept rank store next) (horderly : store.Orderly rank) :
    next.Orderly rank := by
  constructor
  · rw [h.snapshotPlace]
    exact Nat.le_trans horderly.applied h.applied
  · rw [h.snapshotPlace]
    rcases h.purged with hpurged | hpurged
    · rw [hpurged]
      exact horderly.purged
    · exact hpurged
  · rw [h.snapshotPlace, filedPlace_congr h.file, h.file]
    exact horderly.filed
  · rw [filedPlace_congr h.file]
    exact Nat.le_trans horderly.filedApplied h.applied

namespace Installed

variable {snapshot : Snapshot} {state : σ} (h : Installed store next snapshot state)
include h

theorem snapshotPlace : next.snapshotPlace = snapshot.description.lastLogId := by
  rw [Store.snapshotPlace, h.current]
  rfl

theorem lastApplied : next.lastApplied = snapshot.description.lastLogId :=
  congrArg Progress.lastApplied h.progress

/-- An install behind all that was applied goes on in both places. -/
theorem orderly (horderly : store.Orderly rank)
    (hlast : LogId.level rank store.lastApplied <
      LogId.level rank snapshot.description.lastLogId)
    (hfits : (Snapshot.format.write snapshot).Fits) :
    next.Orderly rank ∧ Follows rank store next := by
  have hplace := h.snapshotPlace
  have happlied := h.lastApplied
  have hmemory := Nat.le_trans horderly.applied (Nat.le_of_lt hlast)
  have hpurged : LogId.level rank next.hardState.lastPurged ≤
      LogId.level rank snapshot.description.lastLogId := by
    rcases h.purged with hpurged | hpurged
    · rw [hpurged]
      exact Nat.le_trans horderly.purged hmemory
    · exact Nat.le_of_eq (congrArg _ hpurged)
  rcases filedPlace_of_written h.file hfits with hfile | ⟨hnone, hbefore, hfile⟩
  · have hfiled := Nat.le_trans horderly.filedApplied (Nat.le_of_lt hlast)
    exact ⟨⟨by simp [hplace, happlied], by rwa [hplace], fun _ => by simp [hplace, hfile],
      by simp [hfile, happlied]⟩, by rwa [hplace], by rwa [hfile]⟩
  · exact ⟨⟨by simp [hplace, happlied], by rwa [hplace], fun hsome => by simp [hnone] at hsome,
      by simp [hfile, LogId.level]⟩, by rwa [hplace], by simp [hbefore, hfile]⟩

end Installed
end Store

/-! ## What a move does -/

/-- A build goes on without writing or publishing anything. What it read first it does not read
again. -/
structure Store.Build.Continued (store : Store σ) (build after : Build) : Prop where
  read : ∀ last ∈ after.place?,
    build = .begun ∧ last = store.lastApplied ∨ build.place? = some last
  written : ∀ snapshot, after = .written snapshot → build = .written snapshot
  finished : ∀ snapshot, after = .finished snapshot → build = .finished snapshot
  begun : after = .begun → build = .begun

theorem Store.Build.Continued.refl (store : Store σ) (build : Build) :
    build.Continued store build :=
  ⟨fun _ h => .inr h, fun _ h => h, fun _ h => h, id⟩

namespace Site

/-- A move installs a snapshot, writes the file of the one that was built or publishes it in
memory; otherwise it leaves what the store covers. -/
inductive Moved (rank : LogId → Nat) : Move → Site σ → Site σ → Prop
  | kept {move : Move} {store next : Store σ} {build after : Store.Build}
      (hkept : Store.Kept rank store next) (hbuild : build.Continued store after) :
      Moved rank move ⟨store, build⟩ ⟨next, after⟩
  | installed {store next : Store σ} {build : Store.Build} (snapshot : Snapshot) (state : σ)
      (hinstalled : Store.Installed store next snapshot state)
      (hlast : LogId.level rank store.lastApplied <
        LogId.level rank snapshot.description.lastLogId)
      (hfits : (Snapshot.format.write snapshot).Fits) :
      Moved rank (.perform (.install snapshot)) ⟨store, build⟩ ⟨next, build⟩
  | written {store next : Store σ} (snapshot : Snapshot) (slot : Option Slot)
      (hnext : next = { store with volume := { store.volume with snapshot := slot } })
      (hfile : next.readSnapshot = store.volume.snapshot.map fun _ =>
        .ok (some (Snapshot.format.write snapshot)))
      (hfits : (Snapshot.format.write snapshot).Fits) :
      Moved rank .build ⟨store, .named snapshot⟩ ⟨next, .written snapshot⟩
  | published {store : Store σ} (snapshot : Snapshot) :
      Moved rank .build ⟨store, .written snapshot⟩
        ⟨{ store with current := some snapshot }, .finished snapshot⟩

theorem moved_build (machine : StateMachine σ) {site : Site σ}
    (h : Move.build.Allowed rank site) : Moved rank .build site (site.move machine .build) := by
  obtain ⟨store, build⟩ := site
  have hsame := Store.Kept.refl rank store
  cases build with
  | begun =>
      refine .kept hsame ⟨?_, by simp, by simp, by simp⟩
      rintro last ⟨⟩
      exact .inl ⟨rfl, rfl⟩
  | applied last => exact .kept hsame ⟨fun _ h => .inr h, by simp, by simp, by simp⟩
  | described last membership =>
      cases hstate : machine.snapshot store.state with
      | ok state =>
          simp only [move, Store.buildStep, hstate]
          exact .kept hsame ⟨fun _ h => .inr h, by simp, by simp, by simp⟩
      | error failure =>
          simp only [move, Store.buildStep, hstate]
          exact .kept hsame ⟨by simp [Store.Build.place?], by simp, by simp, by simp⟩
  | taken last membership data =>
      exact .kept ⟨Nat.le_refl _, rfl, .inl rfl, rfl⟩
        ⟨fun _ h => .inr h, by simp, by simp, by simp⟩
  | named snapshot =>
      obtain ⟨slot, hnext, hread⟩ := store.writeSnapshot_spec snapshot
      rcases hwrite : store.writeSnapshot snapshot with ⟨next, error | done⟩
      · rw [hwrite] at hnext hread
        simp only [move, Store.buildStep, hwrite]
        obtain rfl := hnext
        exact .kept ⟨Nat.le_refl _, rfl, .inl rfl, hread⟩
          ⟨by simp [Store.Build.place?], by simp, by simp, by simp⟩
      · rw [hwrite] at hnext hread
        simp only [move, Store.buildStep, hwrite]
        obtain rfl := hnext
        exact .written snapshot slot rfl hread (h snapshot rfl)
  | written snapshot => exact .published snapshot
  | finished snapshot => exact .kept hsame (.refl store _)
  | failed error => exact .kept hsame (.refl store _)

/-- Every move that is allowed is one of these. -/
theorem moved_of_allowed (machine : StateMachine σ) {site : Site σ} {last : Move}
    (h : last.Allowed rank site) : Moved rank last site (site.move machine last) := by
  cases last with
  | build => exact moved_build machine h
  | perform operation =>
      have hrising : operation.Rising rank site.store := h
      rcases hrising.perform machine with ⟨snapshot, state, rfl, hinstalled⟩ | hkept
      · exact .installed snapshot state hinstalled hrising.1 hrising.2
      · exact .kept hkept (.refl _ _)

/-! ## What every move keeps -/

/-- No snapshot covers more than was applied, and a build reads no more than that. -/
structure Sound (rank : LogId → Nat) (site : Site σ) : Prop where
  applied : LogId.level rank site.store.snapshotPlace ≤ LogId.level rank site.store.lastApplied
  read : ∀ last ∈ site.build.place?,
    LogId.level rank last ≤ LogId.level rank site.store.lastApplied

variable {site result : Site σ}

/-- Whatever is done, what is applied only goes on. -/
theorem Sound.moved (h : site.Sound rank) {last : Move} (hmoved : Moved rank last site result) :
    result.Sound rank := by
  cases hmoved with
  | kept hkept hbuild =>
      refine ⟨?_, fun last hlast => Nat.le_trans ?_ hkept.applied⟩
      · rw [hkept.snapshotPlace]
        exact Nat.le_trans h.applied hkept.applied
      · rcases hbuild.read last hlast with ⟨-, rfl⟩ | hread
        · exact Nat.le_refl _
        · exact h.read last hread
  | installed snapshot state hinstalled hlast _ =>
      refine ⟨?_, fun last hread => ?_⟩
      · exact Nat.le_of_eq (congrArg _
          (hinstalled.snapshotPlace.trans hinstalled.lastApplied.symm))
      · rw [hinstalled.lastApplied]
        exact Nat.le_trans (h.read last hread) (Nat.le_of_lt hlast)
  | written snapshot slot hnext =>
      obtain rfl := hnext
      exact ⟨h.applied, h.read⟩
  | published snapshot => exact ⟨h.read _ rfl, by simp [Store.Build.place?]⟩

/-- What is true as long as the build is not overtaken: it is ahead of both places. -/
structure Steady (rank : LogId → Nat) (site : Site σ) : Prop where
  orderly : site.store.Orderly rank
  read : ∀ last ∈ site.build.place?,
    LogId.level rank last ≤ LogId.level rank site.store.lastApplied
  ahead : ∀ last ∈ site.build.place?,
    LogId.level rank site.store.snapshotPlace ≤ LogId.level rank last ∧
      LogId.level rank site.store.filedPlace ≤ LogId.level rank last
  written : ∀ snapshot, site.build = .written snapshot → site.store.readSnapshot.isSome →
    site.store.filedPlace = snapshot.description.lastLogId

theorem Steady.sound (h : site.Steady rank) : site.Sound rank :=
  ⟨h.orderly.applied, h.read⟩

/-- The file is written before memory, so for a while it is ahead of it. -/
theorem Steady.written_file {store next : Store σ} {snapshot : Snapshot} {slot : Option Slot}
    (h : Steady rank ⟨store, .named snapshot⟩)
    (hnext : next = { store with volume := { store.volume with snapshot := slot } })
    (hfile : next.readSnapshot = store.volume.snapshot.map fun _ =>
      .ok (some (Snapshot.format.write snapshot)))
    (hfits : (Snapshot.format.write snapshot).Fits) :
    Steady rank ⟨next, .written snapshot⟩ ∧ store.Follows rank next := by
  obtain ⟨hmemory, hfiledBefore⟩ := h.ahead _ rfl
  have hread := h.read _ rfl
  have hplace : next.snapshotPlace = store.snapshotPlace := by rw [hnext]; rfl
  have hsame : next.lastApplied = store.lastApplied := by rw [hnext]
  have hpurged : LogId.level rank next.hardState.lastPurged ≤
      LogId.level rank next.snapshotPlace := by
    rw [hplace, hnext]
    exact h.orderly.purged
  have happlied : LogId.level rank next.snapshotPlace ≤ LogId.level rank next.lastApplied := by
    rw [hplace, hsame]
    exact h.orderly.applied
  rw [← hplace] at hmemory
  rw [← hsame] at hread
  have hreads : ∀ last ∈ (Store.Build.written snapshot).place?,
      LogId.level rank last ≤ LogId.level rank next.lastApplied := by
    rintro _ ⟨⟩
    exact hread
  rcases Store.filedPlace_of_written hfile hfits with hfiled | ⟨hnone, hbefore, hfiled⟩
  · refine ⟨⟨⟨happlied, hpurged, fun _ => by rwa [hfiled], by rwa [hfiled]⟩, hreads, ?_, ?_⟩,
      by simp [hplace], by rwa [hfiled]⟩
    · rintro _ ⟨⟩
      exact ⟨hmemory, by simp [hfiled]⟩
    · rintro _ ⟨⟩ -
      exact hfiled
  · refine ⟨⟨⟨happlied, hpurged, fun hsome => ?_, ?_⟩, hreads, ?_, fun _ _ hsome => ?_⟩,
      by simp [hplace], by simp [hbefore, hfiled]⟩
    · simp [hnone] at hsome
    · rw [hfiled]
      exact Nat.zero_le _
    · rintro _ ⟨⟩
      exact ⟨hmemory, by rw [hfiled]; exact Nat.zero_le _⟩
    · simp [hnone] at hsome

theorem Steady.published {store : Store σ} {snapshot : Snapshot}
    (h : Steady rank ⟨store, .written snapshot⟩) :
    Steady rank ⟨{ store with current := some snapshot }, .finished snapshot⟩ ∧
      store.Follows rank { store with current := some snapshot } := by
  obtain ⟨hmemory, -⟩ := h.ahead _ rfl
  have hread := h.read _ rfl
  refine ⟨⟨⟨hread, ?_, fun hsome => ?_, ?_⟩, by simp [Store.Build.place?],
    by simp [Store.Build.place?], by simp⟩, hmemory, Nat.le_refl _⟩
  · exact Nat.le_trans h.orderly.purged hmemory
  · exact Nat.le_of_eq (congrArg _ (h.written snapshot rfl hsome).symm)
  · exact h.orderly.filedApplied

/-- As long as no snapshot is installed while the build is under way, both places go on. -/
theorem Steady.moved (h : site.Steady rank) {last : Move} (hmoved : Moved rank last site result)
    (hnot : ∀ snapshot, last = .perform (.install snapshot) →
      result.store.current = some snapshot → site.build.place? = none) :
    result.Steady rank ∧ site.store.Follows rank result.store := by
  have hread := (h.sound.moved hmoved).read
  cases hmoved with
  | kept hkept hbuild =>
      refine ⟨⟨hkept.orderly h.orderly, hread, fun last hlast => ?_,
        fun snapshot hwritten hsome => ?_⟩, hkept.follows⟩
      · rw [hkept.snapshotPlace, Store.filedPlace_congr hkept.file]
        rcases hbuild.read last hlast with ⟨-, rfl⟩ | hbefore
        · exact ⟨h.orderly.applied, h.orderly.filedApplied⟩
        · exact h.ahead last hbefore
      · rw [Store.filedPlace_congr hkept.file]
        rw [hkept.file] at hsome
        exact h.written snapshot (hbuild.written snapshot hwritten) hsome
  | installed snapshot state hinstalled hlast hfits =>
      -- No build is under way, so none falls behind.
      have hnone := hnot snapshot rfl hinstalled.current
      obtain ⟨horderly, hfollows⟩ := hinstalled.orderly h.orderly hlast hfits
      refine ⟨⟨horderly, hread, fun last hlast => ?_, fun other hwritten => ?_⟩, hfollows⟩
      · rw [hnone] at hlast
        cases hlast
      · rw [hwritten] at hnone
        cases hnone
  | written snapshot slot hnext hfile hfits => exact h.written_file hnext hfile hfits
  | published snapshot => exact h.published

/-! ## Overtaken builds -/

/-- A build that read its place before a snapshot was installed. -/
structure Behind (rank : LogId → Nat) (site : Site σ) : Prop where
  begun : site.build ≠ .begun
  place : ∀ last ∈ site.build.place?,
    LogId.level rank last < LogId.level rank site.store.snapshotPlace

/-- It stays behind, and goes back when it publishes its snapshot. -/
theorem Behind.moved (h : site.Behind rank) (hsound : site.Sound rank) {last : Move}
    (hmoved : Moved rank last site result) :
    result.Behind rank ∧ ∀ snapshot, result.build = .finished snapshot →
      site.build = .finished snapshot ∨ ¬ site.store.Follows rank result.store := by
  cases hmoved with
  | kept hkept hbuild =>
      refine ⟨⟨fun hbegun => h.begun (hbuild.begun hbegun), fun last hlast => ?_⟩,
        fun snapshot hdone => .inl (hbuild.finished snapshot hdone)⟩
      rw [hkept.snapshotPlace]
      rcases hbuild.read last hlast with ⟨hbegun, -⟩ | hread
      · exact absurd hbegun h.begun
      · exact h.place last hread
  | installed snapshot state hinstalled hlast _ =>
      refine ⟨⟨h.begun, fun last hread => ?_⟩, fun _ hdone => .inl hdone⟩
      rw [hinstalled.snapshotPlace]
      exact Nat.lt_of_le_of_lt (hsound.read last hread) hlast
  | written snapshot slot hnext =>
      obtain rfl := hnext
      exact ⟨⟨by simp, h.place⟩, by simp⟩
  | published snapshot =>
      refine ⟨⟨by simp, by simp [Store.Build.place?]⟩, fun _ _ => .inr fun hfollows => ?_⟩
      exact Nat.not_le_of_lt (h.place _ rfl) hfollows.memory

/-- An install while the build is under way leaves it behind. -/
theorem Overtakes.behind {last : Move} (h : site.Overtakes machine last)
    (hsound : site.Sound rank) (hallowed : last.Allowed rank site) :
    (site.move machine last).Behind rank ∧
      ∀ snapshot, (site.move machine last).build ≠ .finished snapshot := by
  obtain ⟨snapshot, rfl, hplace, hcurrent⟩ := h
  refine ⟨⟨fun hbegun => ?_, fun last hlast => ?_⟩, fun other hdone => ?_⟩
  · rw [show site.build = .begun from hbegun] at hplace
    cases hplace
  · rw [Store.snapshotPlace, hcurrent]
    exact Nat.lt_of_le_of_lt (hsound.read last hlast) hallowed.1
  · rw [show site.build = .finished other from hdone] at hplace
    cases hplace

/-! ## Runs -/

section Runs

variable {moves earlier : List Move} {last : Move}

theorem Allows.upTo (h : Allows machine rank site moves) (hstart : earlier <+: moves) :
    Allows machine rank site earlier :=
  fun before last hbefore => h before last (hbefore.trans hstart)

theorem Allows.nil : Allows machine rank site [] :=
  fun _ _ hstart => absurd hstart (by simp)

theorem Allows.cons {first : Move} (hfirst : first.Allowed rank site)
    (hrest : Allows machine rank (site.move machine first) moves) :
    Allows machine rank site (first :: moves) := by
  intro earlier last hstart
  cases earlier with
  | nil =>
      obtain rfl := (List.cons_prefix_cons.mp hstart).1
      exact hfirst
  | cons move earlier =>
      obtain ⟨rfl, hearlier⟩ := List.cons_prefix_cons.mp hstart
      exact hrest earlier last hearlier

theorem InOrder.upTo (h : InOrder machine rank site moves) (hstart : earlier <+: moves) :
    InOrder machine rank site earlier :=
  ⟨fun before later hbefore hlater => h.onward before later hbefore (hlater.trans hstart),
    fun before hbefore => h.purged before (hbefore.trans hstart)⟩

theorem Overtaken.later (h : Overtaken machine site earlier) (hstart : earlier <+: moves) :
    Overtaken machine site moves := by
  obtain ⟨before, last, hbefore, hovertakes⟩ := h
  exact ⟨before, last, hbefore.trans hstart, hovertakes⟩

theorem InOrder.concat (h : InOrder machine rank site earlier)
    (hfollows : (site.after machine earlier).store.Follows rank
      (site.after machine (earlier ++ [last])).store)
    (hpurged : (site.after machine (earlier ++ [last])).store.CoversPurged rank) :
    InOrder machine rank site (earlier ++ [last]) := by
  constructor
  · intro before later hbefore hlater
    rcases List.prefix_concat_iff.mp hlater with rfl | hlater
    · rcases List.prefix_concat_iff.mp hbefore with rfl | hbefore
      · exact .refl rank _
      · exact (h.onward before earlier hbefore (List.prefix_refl _)).trans hfollows
    · exact h.onward before later hbefore hlater
  · intro before hbefore
    rcases List.prefix_concat_iff.mp hbefore with rfl | hbefore
    · exact hpurged
    · exact h.purged before hbefore

theorem Sound.after (h : site.Sound rank) (hallowed : Allows machine rank site moves) :
    (site.after machine moves).Sound rank := by
  induction moves using List.reverseRecOn with
  | nil => exact h
  | append_singleton earlier last ih =>
      rw [after_concat]
      exact (ih (hallowed.upTo (List.prefix_append _ _))).moved
        (moved_of_allowed machine (hallowed earlier last (List.prefix_refl _)))

/-- A build that no install overtakes undoes nothing. -/
theorem Steady.after (h : site.Steady rank) (hallowed : Allows machine rank site moves)
    (hnot : ¬ Overtaken machine site moves) :
    (site.after machine moves).Steady rank ∧ InOrder machine rank site moves := by
  induction moves using List.reverseRecOn with
  | nil =>
      refine ⟨h, fun before later hbefore hlater => ?_, fun before hbefore => ?_⟩
      · obtain rfl := List.prefix_nil.mp hlater
        obtain rfl := List.prefix_nil.mp hbefore
        exact .refl rank _
      · obtain rfl := List.prefix_nil.mp hbefore
        exact h.orderly.coversPurged
  | append_singleton earlier last ih =>
      have hstart := List.prefix_append earlier [last]
      obtain ⟨hsteady, horder⟩ := ih (hallowed.upTo hstart)
        fun hovertaken => hnot (hovertaken.later hstart)
      have hmoved := moved_of_allowed machine (hallowed earlier last (List.prefix_refl _))
      obtain ⟨hafter, hfollows⟩ := hsteady.moved hmoved fun snapshot hinstall hcurrent =>
        Option.not_isSome_iff_eq_none.mp fun hplace =>
          hnot ⟨earlier, last, List.prefix_refl _, snapshot, hinstall, hplace, hcurrent⟩
      rw [← after_concat] at hafter hfollows
      exact ⟨hafter, horder.concat hfollows hafter.orderly.coversPurged⟩

/-- An overtaken build stays behind the installed snapshot, and once it is finished, something
went back. -/
theorem Sound.behind_after (h : site.Sound rank) (hallowed : Allows machine rank site moves)
    (hovertaken : Overtaken machine site moves) :
    (site.after machine moves).Behind rank ∧
      ∀ snapshot, (site.after machine moves).build = .finished snapshot →
        ¬ InOrder machine rank site moves := by
  induction moves using List.reverseRecOn with
  | nil =>
      obtain ⟨earlier, last, hstart, -⟩ := hovertaken
      simp at hstart
  | append_singleton earlier last ih =>
      have hstart := List.prefix_append earlier [last]
      have hallowedEarlier := hallowed.upTo hstart
      have hsound := h.after hallowedEarlier
      have hmoved := moved_of_allowed machine (hallowed earlier last (List.prefix_refl _))
      rw [after_concat]
      -- The build was overtaken before the last move, or by it.
      by_cases hbefore : Overtaken machine site earlier
      · obtain ⟨hbehind, hfinished⟩ := ih hallowedEarlier hbefore
        obtain ⟨hafter, hback⟩ := hbehind.moved hsound hmoved
        refine ⟨hafter, fun snapshot hdone horder => ?_⟩
        rcases hback snapshot hdone with hearlier | hback
        · exact hfinished snapshot hearlier (horder.upTo hstart)
        · have hfollows := horder.onward earlier _ hstart (List.prefix_refl _)
          rw [after_concat] at hfollows
          exact hback hfollows
      · obtain ⟨before, move, hmove, hovertakes⟩ := hovertaken
        rcases List.prefix_concat_iff.mp hmove with hlast | hmove
        · obtain ⟨rfl, hsingle⟩ := List.append_inj' hlast rfl
          cases hsingle
          obtain ⟨hafter, hunfinished⟩ :=
            hovertakes.behind hsound (hallowed _ _ (List.prefix_refl _))
          exact ⟨hafter, fun snapshot hdone => absurd hdone (hunfinished snapshot)⟩
        · exact absurd ⟨before, move, hmove, hovertakes⟩ hbefore

end Runs
end Site

/-- As long as no snapshot is installed while one is built, the current snapshot and its file
only go on, and cover what was purged, wherever else the steps of the build come between
entries that are applied, purges and installs, with ever greater log ids. But a build that
is overtaken by an install undoes it: when it is finished, the current snapshot or its file
has gone back, or covers less than was purged. -/
theorem snapshots_in_order_iff (machine : StateMachine σ) {moves : List Move}
    (horderly : store.Orderly rank) (hallowed : Site.Allows machine rank ⟨store, .begun⟩ moves) :
    (¬ Site.Overtaken machine ⟨store, .begun⟩ moves →
      Site.InOrder machine rank ⟨store, .begun⟩ moves ∧
        (Site.after machine ⟨store, .begun⟩ moves).store.Orderly rank) ∧
      ∀ snapshot, (Site.after machine ⟨store, .begun⟩ moves).build = .finished snapshot →
        (Site.InOrder machine rank ⟨store, .begun⟩ moves ↔
          ¬ Site.Overtaken machine ⟨store, .begun⟩ moves) := by
  have hsteady : Site.Steady rank ⟨store, .begun⟩ :=
    ⟨horderly, by simp [Store.Build.place?], by simp [Store.Build.place?], by simp⟩
  refine ⟨fun hnot => ?_, fun snapshot hdone => ⟨fun horder hovertaken => ?_, fun hnot => ?_⟩⟩
  · obtain ⟨hafter, horder⟩ := hsteady.after hallowed hnot
    exact ⟨horder, hafter.orderly⟩
  · exact (hsteady.sound.behind_after hallowed hovertaken).2 snapshot hdone horder
  · exact (hsteady.after hallowed hnot).2

/-- Before anything was done a store is in order. -/
theorem Setup.orderly_first (rank : LogId → Nat) (setup : Setup σ) :
    setup.first.Orderly rank := by
  obtain ⟨machine, fresh, group, logPath, useSnapshot⟩ := setup
  cases useSnapshot <;>
    exact ⟨Nat.le_refl _, Nat.le_refl _, fun _ => Nat.le_refl _, Nat.le_refl _⟩

theorem Site.move_named (h : store.volume.Usable) (snapshot : Snapshot) :
    Site.move machine ⟨store, .named snapshot⟩ .build =
      ⟨{ store.withSnapshot snapshot with current := store.current }, .written snapshot⟩ := by
  simp only [Site.move, Store.buildStep, Store.writeSnapshot_eq h]

theorem Store.filedPlace_withSnapshot {snapshot : Snapshot} (h : store.volume.snapshot.isSome)
    (hfits : (Snapshot.format.write snapshot).Fits) :
    (store.withSnapshot snapshot).filedPlace = snapshot.description.lastLogId := by
  obtain ⟨slot, hslot⟩ := Option.isSome_iff_exists.mp h
  have hread : (store.withSnapshot snapshot).readSnapshot =
      store.volume.snapshot.map fun _ => .ok (some (Snapshot.format.write snapshot)) := by
    rw [readSnapshot, withSnapshot, hslot]
    rfl
  rcases filedPlace_of_written hread hfits with hfiled | ⟨hnone, -⟩
  · exact hfiled
  · rw [hread, hslot] at hnone
    cases hnone

/-- A build that read its place before a snapshot was installed takes memory and the file back
to that place, though the log in front of it was purged. -/
theorem build_undoes_install :
    ∃ (moves : List Move) (snapshot : Snapshot),
      Site.Allows Memory.machine (·.index.toNat)
        ⟨(Memory.setup ⟨"db-s"⟩ "raft_log.bin").first, .begun⟩ moves ∧
      Site.Overtaken Memory.machine
        ⟨(Memory.setup ⟨"db-s"⟩ "raft_log.bin").first, .begun⟩ moves ∧
      ¬ Site.InOrder Memory.machine (·.index.toNat)
        ⟨(Memory.setup ⟨"db-s"⟩ "raft_log.bin").first, .begun⟩ moves ∧
      ∃ store, Site.after Memory.machine
          ⟨(Memory.setup ⟨"db-s"⟩ "raft_log.bin").first, .begun⟩ moves =
            ⟨store, .finished snapshot⟩ ∧
        store.snapshotPlace = some ⟨1, 1, 3⟩ ∧ store.filedPlace = some ⟨1, 1, 3⟩ ∧
        store.hardState.lastPurged = some ⟨1, 1, 5⟩ := by
  let setup : Setup Memory := Memory.setup ⟨"db-s"⟩ "raft_log.bin"
  let applied := (setup.first.applyAll Memory.machine [⟨⟨1, 1, 3⟩, .blank⟩]).1
  let installed := applied.installed (Memory.blankSnapshot ⟨1, 1, 5⟩) {}
  let read : Store Memory := { installed with lastApplied := some ⟨1, 1, 3⟩ }
  let snapshot := read.nextSnapshot installed.state.snapshot
  let numbered : Store Memory := { installed with built := 1 }
  let store : Store Memory := numbered.withSnapshot snapshot
  let early : List Move := [.perform (.apply [⟨⟨1, 1, 3⟩, .blank⟩]), .build]
  let install : Move := .perform (.install (Memory.blankSnapshot ⟨1, 1, 5⟩))
  let late : List Move := [.build, .build, .build, .build, .build]
  have husable : applied.volume.Usable := setup.durable_first.usable
  have hinstall : Site.move Memory.machine ⟨applied, .applied (some ⟨1, 1, 3⟩)⟩ install =
      ⟨installed, .applied (some ⟨1, 1, 3⟩)⟩ :=
    congrArg (fun done : Store Memory × _ => Site.mk done.1 (.applied (some ⟨1, 1, 3⟩)))
      (Memory.install_performed husable)
  have hnumbered : numbered.volume.Usable :=
    ⟨Slot.usable_holding _, Slot.usable_holding _, by rintro _ ⟨⟩; exact Slot.usable_holding _⟩
  have hwrite : Site.move Memory.machine ⟨numbered, .named snapshot⟩ .build =
      ⟨{ store with current := numbered.current }, .written snapshot⟩ :=
    Site.move_named hnumbered snapshot
  have hafter : Site.after Memory.machine ⟨setup.first, .begun⟩ (early ++ install :: late) =
      ⟨store, .finished snapshot⟩ :=
    calc Site.after Memory.machine ⟨setup.first, .begun⟩ (early ++ install :: late)
      _ = Site.after Memory.machine
            (Site.move Memory.machine ⟨applied, .applied (some ⟨1, 1, 3⟩)⟩ install) late := rfl
      _ = Site.after Memory.machine ⟨installed, .applied (some ⟨1, 1, 3⟩)⟩ late := by rw [hinstall]
      _ = Site.after Memory.machine
            (Site.move Memory.machine ⟨numbered, .named snapshot⟩ .build) [.build] := rfl
      _ = ⟨store, .finished snapshot⟩ := by rw [hwrite]; rfl
  have hfits : (Snapshot.format.write snapshot).Fits := by decide
  have hlate : Site.Allows Memory.machine (·.index.toNat)
      ⟨installed, .applied (some ⟨1, 1, 3⟩)⟩ late := by
    refine .cons (by rintro _ ⟨⟩) (.cons (by rintro _ ⟨⟩) (.cons (by rintro _ ⟨⟩) (.cons ?_ ?_)))
    · rintro _ ⟨⟩
      exact hfits
    · change Site.Allows _ _ (Site.move Memory.machine ⟨numbered, .named snapshot⟩ .build) _
      rw [hwrite]
      exact .cons (by rintro _ ⟨⟩) .nil
  have hallowed : Site.Allows Memory.machine (·.index.toNat) ⟨setup.first, .begun⟩
      (early ++ install :: late) := by
    have happly : Operation.Rising (·.index.toNat) setup.first (.apply [⟨⟨1, 1, 3⟩, .blank⟩]) :=
      show List.Pairwise _ (none :: [some (⟨1, 1, 3⟩ : LogId)]) by decide
    refine .cons happly (.cons (by rintro _ ⟨⟩) (.cons ⟨by decide, by decide⟩ ?_))
    change Site.Allows _ _
      (Site.move Memory.machine ⟨applied, .applied (some ⟨1, 1, 3⟩)⟩ install) _
    rw [hinstall]
    exact hlate
  have hovertaken : Site.Overtaken Memory.machine ⟨setup.first, .begun⟩
      (early ++ install :: late) := by
    refine ⟨early, install, ⟨late, by simp⟩, Memory.blankSnapshot ⟨1, 1, 5⟩, rfl, rfl, ?_⟩
    change (Site.move Memory.machine ⟨applied, .applied (some ⟨1, 1, 3⟩)⟩ install).store.current = _
    rw [hinstall]
    rfl
  obtain ⟨-, hiff⟩ := snapshots_in_order_iff Memory.machine
    (setup.orderly_first (·.index.toNat)) hallowed
  have hnot := fun horder => (hiff snapshot (by rw [hafter])).mp horder hovertaken
  have hfiled : store.filedPlace = some ⟨1, 1, 3⟩ := Store.filedPlace_withSnapshot rfl hfits
  exact ⟨_, snapshot, hallowed, hovertaken, hnot, store, hafter, rfl, hfiled, rfl⟩

end Quorum
