import Quorum.Proofs.Disk.Directories
import Quorum.Proofs.Host.Sole
import Quorum.Proofs.Peer.Numbering

/-! # Starts that are refused

A start is refused for what the node was told: when its peers cannot be read, when the node is
none of them, and when its options do not suit each other. The first two are found out before
anything is made, the last only when a replica is to run on the store that was opened. By then
the directories of the group are there, and a log that ended in the middle of a record was
written again. What is registered is as before either way.
-/

namespace Quorum

variable {σ : Type} {machine : StateMachine σ} {host after : Host σ} {settings : NodeSettings}
  {peer : Peer} {roster : Roster} {state : σ} {store : Store σ} {failure : Failure}
  {reason : String}

namespace HostStep

/-! ## Failures of the steps -/

theorem makeDirectories_error {layout : Layout}
    (h : (makeDirectories layout).run host = (.error (.failed failure), after)) :
    ∃ message, failure = .initialization message := by
  rcases hmade : layout.createDirectories host.disk with ⟨made, result⟩
  rw [makeDirectories_run hmade, Prod.mk.injEq, mapError_eq_error] at h
  obtain ⟨⟨_, rfl, hcause⟩, -⟩ := h
  cases hcause
  exact Layout.makeAll_error hmade

theorem found_error {number : Nat}
    (h : (found machine number).run host = (.error (.failed failure), after)) :
    ∃ message, failure = .initialization message := by
  have hresult := congrArg Prod.fst h
  simp only [found, ExceptT.run_mk, Host.visit] at hresult
  split at hresult
  next => cases hresult
  next node hnode =>
    obtain ⟨cause, -, hfailure⟩ := mapError_eq_error.mp hresult
    cases cause with
    | failed cause =>
        cases hfailure
        exact ⟨_, rfl⟩
    | overflow => cases hfailure

/-- A replica is not resumed for what the node was told only if the options do not suit each
other. Then nothing was done. -/
theorem resume_error_config {own : UInt64} (hown : roster.numberOf peer = .ok own)
    (h : (resume machine settings peer roster store).run host =
      (.error (.failed (.config reason)), after)) :
    after = host ∧
      ∃ fault, settings.options.check = .error (.failed fault) ∧ reason = fault.message := by
  rw [resume, bind_run_eq_error] at h
  rcases h with h | ⟨_, _, h, hrest⟩
  · obtain ⟨⟨_, herror, -⟩, -⟩ := lift_run_eq_error.mp h
    cases hown.symm.trans herror
  obtain ⟨-, rfl⟩ := lift_run_eq_ok.mp h
  rcases bind_run_eq_error.mp hrest with h | ⟨_, _, h, hrest⟩
  · obtain ⟨hcheck, rfl⟩ := liftM_run_eq_error.mp h
    refine ⟨rfl, ?_⟩
    obtain ⟨halt, hhalt, hmessage⟩ := mapError_eq_error.mp hcheck
    cases halt with
    | failed fault =>
        cases hmessage
        exact ⟨fault, hhalt, rfl⟩
    | overflow => cases hmessage
  obtain ⟨-, rfl⟩ := liftM_run_eq_ok.mp h
  rcases bind_run_eq_error.mp hrest with h | ⟨_, _, h, hrest⟩
  · cases h
  split at hrest
  next halt hresumed =>
    cases halt with
    | failed _ => cases hrest
    | overflow => cases hrest
  next => cases hrest

/-! ## Starts -/

/-- Where a start is refused for what the node was told, and how that leaves the host. -/
inductive Refused (machine : StateMachine σ) (settings : NodeSettings) (state : σ)
    (host : Host σ) (reason : String) : Host σ → Prop where
  | outside
      (houtside : ∀ peer roster, settings.read = .ok (peer, roster) → peer ∉ roster.peers) :
      Refused machine settings state host reason host
  | options {peer : Peer} {roster : Roster} {made : Disk} {opened : Volume} {store : Store σ}
      {fault : OptionsFault} (hread : settings.read = .ok (peer, roster))
      (hmember : peer ∈ roster.peers)
      (hmade : settings.layout.createDirectories host.disk = (made, .ok ()))
      (hopened : (settings.setup machine state).open (settings.layout.volume made) =
        (opened, .ok store))
      (hcheck : settings.options.check = .error (.failed fault)) (hreason : reason = fault.message) :
      Refused machine settings state host reason
        { host with disk := settings.layout.putVolume made opened }

theorem start_refused
    (h : (start machine settings state).run host = (.error (.failed (.config reason)), after)) :
    Refused machine settings state host reason after := by
  rcases bind_run_eq_error.mp h with h | ⟨⟨peer, roster⟩, _, h, hrest⟩
  · obtain ⟨⟨_, hread, -⟩, rfl⟩ := lift_run_eq_error.mp h
    refine .outside fun peer roster hok => ?_
    cases hread.symm.trans hok
  obtain ⟨hread, rfl⟩ := lift_run_eq_ok.mp h
  rcases bind_run_eq_error.mp hrest with h | ⟨own, _, h, hrest⟩
  · obtain ⟨⟨_, hown, -⟩, rfl⟩ := lift_run_eq_error.mp h
    refine .outside fun other others hok => ?_
    cases hread.symm.trans hok
    exact Roster.not_mem_peers_of_numberOf hown
  obtain ⟨hown, rfl⟩ := lift_run_eq_ok.mp h
  -- From here on the disk is touched, and only resuming looks at what the node was told again.
  rcases bind_run_eq_error.mp hrest with h | ⟨_, _, hmake, hrest⟩
  · obtain ⟨message, hmessage⟩ := makeDirectories_error h
    cases hmessage
  obtain ⟨made, hmade, rfl⟩ := made_of_run hmake
  rcases bind_run_eq_error.mp hrest with h | ⟨store, _, hopen, hrest⟩
  · obtain ⟨cause, -, hwords⟩ := reword_run_eq_error.mp h
    cases cause with
    | failed _ => cases hwords
    | overflow => cases hwords
  obtain ⟨opened, hopened, rfl⟩ := opened_of_run (reword_run_eq_ok.mp hopen)
  rcases bind_run_eq_error.mp hrest with h | ⟨number, middle, -, hrest⟩
  · obtain ⟨rfl, fault, hcheck, hreason⟩ := resume_error_config hown h
    exact .options hread (Roster.mem_peers_of_numberOf hown) hmade hopened hcheck hreason
  rcases bind_run_eq_error.mp hrest with h | ⟨_, middle, -, hrest⟩
  · obtain ⟨founded, hfound, -⟩ := undoneBy_run_eq_failed.mp h
    obtain ⟨message, hmessage⟩ := found_error hfound
    cases hmessage
  cases hrest

end HostStep

/-! ## What a refused start leaves -/

/-- Opening a store on directories that were made leaves them, and changes nothing just if they
were there before and the files stay as they are. -/
theorem HostStep.opened_samePlaces_iff {disk made : Disk} {opened : Volume}
    (hmade : settings.layout.createDirectories disk = (made, .ok ()))
    (hopened : (settings.setup machine state).open (settings.layout.volume made) =
      (opened, .ok store)) :
    (∀ directory ∈ settings.layout.directories,
      (settings.layout.putVolume made opened).isDirectory directory = true) ∧
    (disk.SamePlaces (settings.layout.putVolume made opened) ↔
      (∀ directory ∈ settings.layout.directories, disk.isDirectory directory = true) ∧
        ((settings.setup machine state).open (settings.layout.volume disk)).1 =
          settings.layout.volume disk) := by
  obtain ⟨-, hthere⟩ := Layout.makeAll_ok hmade
  obtain ⟨slot, log, hardState, recovered, hslot, -, -, hlog, -⟩ := Setup.of_open hopened
  obtain ⟨hvolume, hextends⟩ := Layout.volume_putVolume_log hlog hslot hthere
  have hkept : ∀ directory ∈ settings.layout.directories,
      (settings.layout.putVolume made opened).isDirectory directory = true :=
    fun directory hdirectory => Disk.isDirectory_of_extends hextends (hthere directory hdirectory)
  -- Directories that were there are not made, so the files are opened as they stand on the disk.
  have made_eq : (∀ directory ∈ settings.layout.directories, disk.isDirectory directory = true) →
      made = disk := by
    intro hbefore
    rw [Layout.createDirectories_of_isDirectory hbefore] at hmade
    cases hmade
    rfl
  refine ⟨hkept, ?_, ?_⟩
  · intro hsame
    have hbefore : ∀ directory ∈ settings.layout.directories,
        disk.isDirectory directory = true := fun directory hdirectory =>
      Disk.isDirectory_of_extends hsame.symm.toExtends (hkept directory hdirectory)
    obtain rfl := made_eq hbefore
    refine ⟨hbefore, ?_⟩
    rw [hopened]
    exact hvolume.symm.trans (Layout.volume_congr hsame)
  · rintro ⟨hbefore, hfiles⟩
    obtain rfl := made_eq hbefore
    rw [hopened] at hfiles
    obtain rfl : opened = settings.layout.volume made := hfiles
    exact Layout.putVolume_volume_samePlaces settings.layout made

/-- A start that is refused for what the node was told leaves what is registered as it is. The
disk is left alone when the peers cannot be read or the node is none of them. When the options
do not suit each other the directories of the group are there afterwards, and a torn log was
mended, so the disk is left alone only if there was nothing to make and nothing to mend. -/
theorem refused_start_untouched_iff
    (h : (HostStep.start machine settings state).run host =
      (.error (.failed (.config reason)), after)) :
    (∃ disk, after = { host with disk }) ∧
    (host.disk.SamePlaces after.disk ↔
      (∀ peer roster, settings.read = .ok (peer, roster) → peer ∉ roster.peers) ∨
      (∀ directory ∈ settings.layout.directories, host.disk.isDirectory directory = true) ∧
        (Store.open machine settings.group settings.layout.logPath
          (settings.layout.volume host.disk) state).1 = settings.layout.volume host.disk) ∧
    ∀ peer roster, settings.read = .ok (peer, roster) → peer ∈ roster.peers →
      (∃ fault, settings.options.check = .error (.failed fault) ∧ reason = fault.message) ∧
      ∀ directory ∈ settings.layout.directories, after.disk.isDirectory directory = true := by
  cases HostStep.start_refused h with
  | outside houtside =>
      exact ⟨⟨host.disk, rfl⟩, iff_of_true (.refl host.disk) (.inl houtside),
        fun peer roster hread hmember => absurd hmember (houtside peer roster hread)⟩
  | options hread hmember hmade hopened hcheck hreason =>
      obtain ⟨hkept, huntouched⟩ := HostStep.opened_samePlaces_iff hmade hopened
      refine ⟨⟨_, rfl⟩, ?_, fun _ _ _ _ => ⟨⟨_, hcheck, hreason⟩, hkept⟩⟩
      rw [or_iff_right]
      · exact huntouched
      · exact fun hnone => hnone _ _ hread hmember

/-- A node that is told of a single millisecond is refused, and its directories are left behind
on a disk that was empty. -/
theorem directories_left_behind :
    let settings : NodeSettings := ⟨⟨"g"⟩, "a:1", "a:1", "", ⟨1, 1, false, 1, 1, false, 1⟩⟩
    let done := (HostStep.start Memory.machine settings {}).run {}
    done.1 =
        .error (.failed (.config "election_timeout_min(1) must be > heartbeat_interval(1)")) ∧
      done.2.disk.isDirectory "log/g" = true ∧ ¬ Disk.SamePlaces {} done.2.disk := by
  have hread : (NodeSettings.mk ⟨"g"⟩ "a:1" "a:1" "" ⟨1, 1, false, 1, 1, false, 1⟩).read =
    .ok (⟨"a", 1, 0⟩, ⟨[⟨"a", 1, 0⟩], by decide, by decide⟩) := by rfl
  intro settings done
  have hmember : ⟨"a", 1, 0⟩ ∈ [(⟨"a", 1, 0⟩ : Peer)] := List.mem_cons_self
  have hlog : "log/g" ∈ settings.layout.directories := by decide
  have hrefused : done.1 =
      .error (.failed (.config "election_timeout_min(1) must be > heartbeat_interval(1)")) := by
    decide +kernel
  obtain ⟨-, huntouched, hleft⟩ := refused_start_untouched_iff (Prod.ext hrefused rfl)
  obtain ⟨-, hdirectories⟩ := hleft _ _ hread hmember
  refine ⟨hrefused, hdirectories "log/g" hlog, fun hsame => ?_⟩
  rcases huntouched.mp hsame with houtside | ⟨hthere, -⟩
  · exact houtside _ _ hread hmember
  · cases hthere "log/g" hlog

end Quorum
