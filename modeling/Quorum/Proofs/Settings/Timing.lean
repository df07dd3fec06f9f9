import Mathlib.Algebra.Group.Nat.Defs
import Mathlib.Data.List.Basic
import Quorum.Settings.Fault
import Quorum.Settings.Options

/-! # Times that suit each other

Settings are accepted when none of the numbers that count is zero. A node asks for more: its
leader is to be heard of before anybody stands for election, and there is to be some time
between the least and the greatest wait for one. The shortest time that settings may name
leaves no room for a sign of life, and of the longer half of all times the double is no number
of 64 bits. All times in between suit each other.
-/

namespace Quorum

/-! ## What accepted settings have -/

theorem SettingsFault.when_eq_nil_iff {isWrong : Bool} {fault : SettingsFault} :
    when isWrong fault = [] ↔ isWrong = false := by
  cases isWrong <;> simp [when]

/-- The numbers that must not be zero. -/
theorem ReplicationSettings.ne_zero_of_faults {settings : ReplicationSettings}
    (h : settings.faults = []) :
    settings.electionTimeout ≠ 0 ∧ settings.entriesAtOnce ≠ 0 ∧
      (settings.useSnapshot = true → settings.snapshotInterval ≠ 0) := by
  simp only [faults, List.append_eq_nil_iff, SettingsFault.when_eq_nil_iff,
    Bool.and_eq_false_imp, decide_eq_false_iff_not] at h
  obtain ⟨⟨⟨⟨⟨-, htimeout⟩, hinterval⟩, -⟩, -⟩, hentries⟩ := h
  exact ⟨htimeout, hentries, hinterval⟩

theorem Settings.faults_replication {settings : Settings} (h : settings.check = .ok ()) :
    settings.replication.faults = [] := by
  have hfaults := Settings.check_eq_ok_iff.mp h
  simp only [Settings.faults, List.append_eq_nil_iff] at hfaults
  exact hfaults.1.1.1.2

/-! ## What a node asks for -/

namespace NodeOptions

variable {options : NodeOptions}

/-- The greatest time is twice the least, if that is a number of 64 bits. -/
theorem electionTimeoutMax_cases (options : NodeOptions) :
    (2 ^ 63 ≤ options.electionTimeout.toNat ∧ options.electionTimeoutMax = none) ∨
    options.electionTimeout.toNat < 2 ^ 63 ∧ ∃ greatest,
      options.electionTimeoutMax = some greatest ∧
      greatest.toNat = 2 * options.electionTimeout.toNat := by
  rw [electionTimeoutMax, UInt64.size]
  split
  next hlt =>
    refine .inr ⟨by omega, _, rfl, ?_⟩
    rw [UInt64.toNat_mul, Nat.mul_comm]
    exact Nat.mod_eq_of_lt (show 2 * _ < _ by omega)
  next hge => exact .inl ⟨by omega, rfl⟩

theorem toNat_heartbeat :
    options.heartbeat.toNat = max (options.electionTimeout.toNat / 10) 1 := by
  have htenth : (options.electionTimeout / 10).toNat = options.electionTimeout.toNat / 10 :=
    UInt64.toNat_div ..
  change (if options.electionTimeout / 10 ≤ 1 then 1 else options.electionTimeout / 10).toNat = _
  rw [Nat.max_def, ← htenth]
  exact apply_ite UInt64.toNat _ _ _

/-- A tenth of a time is shorter than the time, unless it is lengthened to a millisecond. -/
theorem le_heartbeat_iff (h : 0 < options.electionTimeout.toNat) :
    options.electionTimeout ≤ options.heartbeat ↔ options.electionTimeout.toNat = 1 := by
  rw [UInt64.le_iff_toNat_le, toNat_heartbeat]
  omega

/-- What a check finds of options whose numbers are not zero. -/
theorem check_eq (htimeout : 0 < options.electionTimeout.toNat)
    (hentries : options.entriesAtOnce ≠ 0) :
    options.check =
      if 2 ^ 63 ≤ options.electionTimeout.toNat then .error .overflow
      else if options.electionTimeout.toNat = 1 then .error (.failed (.heartbeat 1 1))
      else .ok () := by
  rcases options.electionTimeoutMax_cases with ⟨hge, hnone⟩ | ⟨hlt, greatest, hsome, hdouble⟩
  · simp only [check, hnone, if_pos hge]
  · have hgreater : ¬ greatest ≤ options.electionTimeout := by
      rw [UInt64.le_iff_toNat_le]
      omega
    simp only [check, hsome, if_neg hgreater, if_neg (Nat.not_le.mpr hlt),
      le_heartbeat_iff htimeout, if_neg hentries]
    split
    next hsingle =>
      have hbeat : options.heartbeat.toNat = 1 := by
        rw [toNat_heartbeat, hsingle]
        rfl
      have htimeout : options.electionTimeout = 1 := UInt64.toNat_inj.mp hsingle
      have hheartbeat : options.heartbeat = 1 := UInt64.toNat_inj.mp hbeat
      rw [htimeout, hheartbeat]
    next => rfl

end NodeOptions

/-- Nodes can run with accepted settings whose least time before an election is more than a
millisecond and less than half of what 64 bits tell, and with no others: with a single
millisecond a sign of life comes no sooner, and from that half on there is no greatest time, and
the check breaks off. The other numbers a node asks for are never zero. -/
theorem accepted_times_suit_iff {settings : Settings} (haccepted : settings.check = .ok ()) :
    let options := NodeOptions.ofSettings settings.replication
    let least := options.electionTimeout.toNat
    (options.heartbeat < options.electionTimeout ↔ least ≠ 1) ∧
    (options.electionTimeoutMax ≠ none ↔ least < 2 ^ 63) ∧
    (∀ greatest ∈ options.electionTimeoutMax,
      options.electionTimeout < greatest ∧ greatest.toNat = 2 * least) ∧
    options.entriesAtOnce ≠ 0 ∧
    (options.useSnapshot = true → options.snapshotInterval ≠ 0) ∧
    options.check =
      if 2 ^ 63 ≤ least then .error .overflow
      else if least = 1 then .error (.failed (.heartbeat 1 1))
      else .ok () := by
  intro options least
  obtain ⟨htimeout, hentries, hinterval⟩ :=
    ReplicationSettings.ne_zero_of_faults (Settings.faults_replication haccepted)
  have hleast : 0 < least :=
    Nat.pos_of_ne_zero fun hzero => htimeout (UInt64.toNat_inj.mp hzero)
  refine ⟨?_, ?_, fun greatest hgreatest => ?_, hentries, ?_,
    NodeOptions.check_eq hleast hentries⟩
  · rw [← UInt64.not_le, NodeOptions.le_heartbeat_iff hleast]
  · rcases options.electionTimeoutMax_cases with ⟨hge, hnone⟩ | ⟨hlt, greatest, hsome, -⟩
    · exact iff_of_false (fun hne => hne hnone) (Nat.not_lt.mpr hge)
    · exact iff_of_true (by simp [hsome]) hlt
  · rcases options.electionTimeoutMax_cases with ⟨-, hnone⟩ | ⟨-, other, hsome, hdouble⟩
    · cases hnone.symm.trans hgreatest
    · obtain rfl := Option.some.inj (hsome.symm.trans hgreatest)
      refine ⟨UInt64.lt_iff_toNat_lt.mpr ?_, hdouble⟩
      rw [hdouble]
      omega
  · -- Seconds become milliseconds without being cut to 64 bits.
    intro hsnapshot hnone
    have hthousands : settings.replication.snapshotInterval.toNat * 1000 = 0 := hnone
    have hseconds := (Nat.mul_eq_zero.mp hthousands).resolve_right (by decide)
    exact hinterval hsnapshot (UInt64.toNat_inj.mp hseconds)

/-- Settings with a single millisecond are accepted, and no node can run with them. -/
theorem single_millisecond_refused :
    let settings : Settings := { replication := { electionTimeout := 1 } }
    settings.check = .ok () ∧
      (NodeOptions.ofSettings settings.replication).check =
        .error (.failed (.heartbeat 1 1)) := by
  intro settings
  have haccepted : settings.check = .ok () := by decide
  obtain ⟨-, -, -, -, -, hcheck⟩ := accepted_times_suit_iff haccepted
  exact ⟨haccepted, hcheck⟩

end Quorum
