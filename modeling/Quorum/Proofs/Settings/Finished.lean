import Quorum.Except
import Quorum.Proofs.Disk.Joined
import Quorum.Settings.Document

/-! # Settings that were made ready

Settings are made ready by placing the directory of all data within the working directory, and
then by checking them. What was placed starts at the root, so it is neither blank nor placed
anywhere else later on: a missing directory is no fault any more, the other faults are as they
were, and what was ready stays as it is.
-/

namespace Quorum

namespace SettingsFault

variable {isWrong : Bool} {fault other : SettingsFault}

theorem mem_when : fault ∈ when isWrong other ↔ isWrong = true ∧ fault = other := by
  cases isWrong <;> simp [when]

theorem ne_noPath_of_mem_when (h : fault ∈ when isWrong other) (hother : other ≠ .noPath) :
    fault ≠ .noPath := by
  rw [(mem_when.mp h).2]
  exact hother

theorem report_eq_error_iff {faults : List SettingsFault} :
    report faults = .error fault ↔ faults.head? = some fault := by
  cases faults with
  | nil => simp [report]
  | cons first rest => simp [report]

theorem exists_report_eq_error_iff {faults : List SettingsFault} :
    (∃ fault, report faults = .error fault) ↔ faults ≠ [] := by
  cases faults with
  | nil => simp [report]
  | cons first rest => simp [report]

theorem filter_when : (when isWrong fault).filter (· ≠ .noPath) =
    when (isWrong && decide (fault ≠ .noPath)) fault := by
  cases isWrong with
  | false => rfl
  | true => simp [when, List.filter_cons]

end SettingsFault

open SettingsFault

/-! ## The faults of the parts -/

theorem Path.isAllBlank_of_absolute {path : String} (h : isAbsolute path = true) :
    Text.isAllBlank path = false := by
  rw [isAbsolute_iff] at h
  cases hchars : path.toList with
  | nil =>
      rw [hchars] at h
      cases h
  | cons first rest =>
      rw [hchars, List.head?_cons, Option.some.injEq] at h
      rw [Text.isAllBlank, hchars, h, List.all_cons, show Text.isBlank '/' = false by decide,
        Bool.false_and]

theorem StoreSettings.ne_noPath_of_mem_faultsAfter {before stores : List StoreSettings}
    {fault : SettingsFault} (h : fault ∈ faultsAfter before stores) : fault ≠ .noPath := by
  induction stores generalizing before with
  | nil => cases h
  | cons store rest ih =>
      rw [faultsAfter, List.mem_append, List.mem_append] at h
      rcases h with (hblank | hrepeated) | hrest
      · exact ne_noPath_of_mem_when hblank nofun
      · exact ne_noPath_of_mem_when hrepeated nofun
      · exact ih hrest

theorem LoggingSettings.ne_noPath_of_mem_faults {settings : LoggingSettings}
    {fault : SettingsFault} (h : fault ∈ settings.faults) : fault ≠ .noPath := by
  rw [faults, List.mem_append, List.mem_append, List.mem_flatMap] at h
  rcases h with (hlevel | hformat) | ⟨_, _, htarget⟩
  · exact ne_noPath_of_mem_when hlevel nofun
  · exact ne_noPath_of_mem_when hformat nofun
  · exact ne_noPath_of_mem_when htarget nofun

namespace Settings

variable {settings finished : Settings} {directory : String} {fault : SettingsFault}

theorem noPath_mem_faults_iff :
    .noPath ∈ settings.faults ↔ Text.isAllBlank settings.replication.path = true := by
  have hlogging : .noPath ∉ settings.logging.faults := fun h =>
    LoggingSettings.ne_noPath_of_mem_faults h rfl
  have hstores : .noPath ∉ StoreSettings.faultsAfter [] settings.stores := fun h =>
    StoreSettings.ne_noPath_of_mem_faultsAfter h rfl
  simp [faults, ListenSettings.faults, ReplicationSettings.faults, mem_when, hlogging, hstores]

/-! ## Placing the directory of all data -/

/-- Settings whose directory starts at the root are placed already. -/
theorem within_of_absolute (h : Path.isAbsolute settings.replication.path = true) :
    settings.within directory = settings := by
  rw [within, Path.join_of_absolute h]

theorem isAbsolute_within (hdirectory : Path.isAbsolute directory = true) :
    Path.isAbsolute (settings.within directory).replication.path = true :=
  Path.isAbsolute_join hdirectory

/-- Of the faults only the missing path is lost. -/
theorem faults_within (hdirectory : Path.isAbsolute directory = true) :
    (settings.within directory).faults = settings.faults.filter (· ≠ .noPath) := by
  have hpath : Text.isAllBlank (settings.within directory).replication.path = false :=
    Path.isAllBlank_of_absolute (isAbsolute_within hdirectory)
  have hlogging : settings.logging.faults.filter (· ≠ .noPath) = settings.logging.faults :=
    List.filter_eq_self.mpr fun fault hfault =>
      decide_eq_true (LoggingSettings.ne_noPath_of_mem_faults hfault)
  have hstores : (StoreSettings.faultsAfter [] settings.stores).filter (· ≠ .noPath) =
      StoreSettings.faultsAfter [] settings.stores :=
    List.filter_eq_self.mpr fun fault hfault =>
      decide_eq_true (StoreSettings.ne_noPath_of_mem_faultsAfter hfault)
  rw [faults, ReplicationSettings.faults, hpath]
  simp only [faults, ListenSettings.faults, ReplicationSettings.faults, List.filter_append,
    filter_when, hlogging, hstores, within, ne_eq, reduceCtorEq, not_false_eq_true,
    not_true_eq_false, decide_true, decide_false, Bool.and_true, Bool.and_false]
  rfl

/-! ## Making settings ready -/

theorem finish_eq_ok_iff : settings.finish directory = .ok finished ↔
    (settings.within directory).faults = [] ∧ finished = settings.within directory := by
  rw [finish, map_eq_ok, ← check_eq_ok_iff]
  constructor
  · rintro ⟨_, hcheck, rfl⟩
    exact ⟨hcheck, rfl⟩
  · rintro ⟨hcheck, rfl⟩
    exact ⟨(), hcheck, rfl⟩

theorem finish_eq_error_iff : settings.finish directory = .error fault ↔
    (settings.within directory).faults.head? = some fault := by
  rw [← report_eq_error_iff, finish, check]
  cases report (settings.within directory).faults with
  | error => simp [Except.map]
  | ok => simp [Except.map]

/-- Making settings ready loses the missing path from their faults and no other fault: refused
settings are ready afterwards just if that was all that is wrong with them, and of others the
first fault besides it is reported. Settings that are ready pass the check, differ from what
was given only in their directory, which starts at the root, and are made ready again as they
are, in every working directory. All of this is so with values of the environment in place of
the given ones, too. -/
theorem finished_settings_sound_iff {directory : String}
    (hdirectory : Path.isAbsolute directory = true) (settings : Settings)
    (environment : String → Option String) :
    ∀ given ∈ [settings, settings.override environment],
      ((∃ fault, given.check = .error fault) ∧
          (∃ finished, given.finish directory = .ok finished) ↔
        Text.isAllBlank given.replication.path = true ∧
          ∀ fault ∈ given.faults, fault = .noPath) ∧
      (∀ fault, given.finish directory = .error fault ↔
        (given.faults.filter (· ≠ .noPath)).head? = some fault) ∧
      ∀ finished, given.finish directory = .ok finished →
        finished.check = .ok () ∧
        Path.isAbsolute finished.replication.path = true ∧
        (∃ path, finished =
          { given with replication := { given.replication with path } }) ∧
        (Path.isAbsolute given.replication.path = true → finished = given) ∧
        ∀ other, finished.finish other = .ok finished := by
  intro given _
  have hfaults := given.faults_within hdirectory
  refine ⟨?lost, ?reported, ?ready⟩
  case lost =>
    have hready : (∃ finished, given.finish directory = .ok finished) ↔
        ∀ fault ∈ given.faults, fault = .noPath := by
      simp only [finish_eq_ok_iff, exists_and_left, exists_eq, and_true, hfaults,
        List.filter_eq_nil_iff, decide_eq_true_eq, ne_eq, Decidable.not_not]
    rw [hready, check, exists_report_eq_error_iff, ← noPath_mem_faults_iff]
    refine and_congr_left fun hall => ⟨fun hne => ?_, List.ne_nil_of_mem⟩
    obtain ⟨fault, hfault⟩ := List.exists_mem_of_ne_nil _ hne
    exact hall fault hfault ▸ hfault
  case reported =>
    intro fault
    rw [finish_eq_error_iff, hfaults]
  case ready =>
    intro finished hfinished
    obtain ⟨hnone, rfl⟩ := finish_eq_ok_iff.mp hfinished
    have habsolute := given.isAbsolute_within hdirectory
    refine ⟨check_eq_ok_iff.mpr hnone, habsolute, ⟨_, rfl⟩, within_of_absolute, fun other => ?_⟩
    rw [finish_eq_ok_iff, within_of_absolute habsolute]
    exact ⟨hnone, rfl⟩

/-- Settings without a directory are refused by the check, and ready once they are placed. -/
theorem missing_path_passes :
    let settings : Settings := { replication := { path := "" } }
    settings.check = .error .noPath ∧ settings.finish "/" = .ok (settings.within "/") ∧
      (settings.within "/").replication.path = "/" := by
  intro settings
  have hrefused : settings.check = .error .noPath := report_eq_error_iff.mpr (by decide)
  have hroot : Path.isAbsolute "/" = true := by decide
  have hsound := finished_settings_sound_iff hroot settings fun _ => none
  obtain ⟨hlost, -, -⟩ := hsound settings List.mem_cons_self
  obtain ⟨-, finished, hfinished⟩ := hlost.mpr ⟨by decide, by decide⟩
  obtain ⟨-, rfl⟩ := finish_eq_ok_iff.mp hfinished
  exact ⟨hrefused, hfinished, by decide⟩

end Settings
end Quorum
