import Mathlib.Algebra.Order.BigOperators.Group.List
import Mathlib.Algebra.Order.Group.Nat
import Mathlib.Logic.Relation
import Quorum.Proofs.Node.Submission
import Quorum.Proofs.Wire.RoundTrip
import Quorum.Service.Registry

/-! # Forwarded commands travel one hop

A command that is submitted at a node of a group may be sent to another node, which answers
for itself. Nothing is assumed of what the engines of the nodes believe, or of when and
whether requests and answers arrive, but that a request is delivered at most once. Then a
command crosses the network at most once, enters at most one log, and there only where
the engine had just said that it leads.
-/

namespace Quorum

/-- The entry that was handed to the engine in an exchange. -/
def Exchange.entry? : Exchange → Option Bytes
  | .enqueue entry => some entry
  | _ => none

/-- The request that was sent in an exchange, and to whom. -/
def Exchange.request? : Exchange → Option (Peer × CommandRequest)
  | .send peer request _ => some (peer, request)
  | _ => none

/-- Where a dialogue at a node stands. -/
inductive Phase (α : Type) where
  | going (rest : Dialogue α)
  /-- The request is sent, and what follows waits for the reply. -/
  | awaiting (leader : Peer) (request : CommandRequest) (next : Reply → Dialogue α)

/-- A dialogue that a node carries on. -/
structure Activity (α : Type) where
  node : Peer
  course : List Exchange := []
  phase : Phase α

namespace Activity

variable {α : Type}

/-- The requests that were sent so far. -/
def sent (activity : Activity α) : List (Peer × CommandRequest) :=
  activity.course.filterMap Exchange.request? ++
    match activity.phase with
    | .going _ => []
    | .awaiting leader request _ => [(leader, request)]

/-- One step of a dialogue at a node, with the requests it sends. The engine answers as it
likes; replies come as they may. -/
inductive Step (replies : Reply → Prop) :
    Activity α → List (Peer × CommandRequest) → Activity α → Prop
  | ask {node : Peer} {course : List Exchange} {β : Type} {query : Query β}
      {next : β → Dialogue α} (answer : β) (hhere : (Exchange.of query answer).request? = none) :
      Step replies ⟨node, course, .going (.ask query next)⟩ []
        ⟨node, course ++ [.of query answer], .going (next answer)⟩
  | send {node : Peer} {course : List Exchange} {leader : Peer} {request : CommandRequest}
      {next : Reply → Dialogue α} :
      Step replies ⟨node, course, .going (.ask (.send leader request) next)⟩ [(leader, request)]
        ⟨node, course, .awaiting leader request next⟩
  | receive {node : Peer} {course : List Exchange} {leader : Peer} {request : CommandRequest}
      {next : Reply → Dialogue α} {reply : Reply} (hreply : replies reply) :
      Step replies ⟨node, course, .awaiting leader request next⟩ []
        ⟨node, course ++ [.send leader request reply], .going (next reply)⟩

/-- A dialogue at a node keeps a promise, whatever reply it waits for. -/
def Keeps (promise : List Exchange → α → Prop) (activity : Activity α) : Prop :=
  match activity.phase with
  | .going rest => rest.Keeps promise activity.course
  | .awaiting leader request next =>
      ∀ reply, (next reply).Keeps promise (activity.course ++ [.send leader request reply])

variable {promise : List Exchange → α → Prop} {replies : Reply → Prop}
variable {activity next : Activity α} {out : List (Peer × CommandRequest)}

/-- A dialogue can come to an end that its promise allows, and what was exchanged and sent
is part of that. -/
theorem Keeps.reachable (h : activity.Keeps promise) :
    ∃ course value, promise course value ∧ activity.course <+: course ∧
      activity.sent.Sublist (course.filterMap Exchange.request?) := by
  obtain ⟨node, before, phase⟩ := activity
  cases phase with
  | going rest =>
      obtain ⟨course, value, hextends, hpromise⟩ := Dialogue.Keeps.reachable h
      refine ⟨course, value, hpromise, hextends, ?_⟩
      simpa [sent] using hextends.sublist.filterMap Exchange.request?
  | awaiting leader request next =>
      obtain ⟨course, value, hextends, hpromise⟩ := Dialogue.Keeps.reachable (h .timedOut)
      refine ⟨course, value, hpromise, (List.prefix_append _ _).trans hextends, ?_⟩
      simpa [sent, Exchange.request?] using hextends.sublist.filterMap Exchange.request?

theorem Keeps.step (h : activity.Keeps promise) (hstep : activity.Step replies out next) :
    next.Keeps promise := by
  cases hstep with
  | ask answer => exact h answer
  | send => exact h
  | receive => exact h _

theorem Step.sent (hstep : activity.Step replies out next) : next.sent = activity.sent ++ out := by
  cases hstep with
  | ask answer hhere => simp [Activity.sent, hhere]
  | send => simp [Activity.sent]
  | receive => simp [Activity.sent, Exchange.request?]

theorem Step.grows (hstep : activity.Step replies out next) : activity.course <+: next.course := by
  cases hstep with
  | ask => exact List.prefix_append _ _
  | send => exact List.prefix_refl _
  | receive => exact List.prefix_append _ _

/-- A reply in the course was there before, or has just come. -/
theorem Step.reply (hstep : activity.Step replies out next) {leader : Peer}
    {request : CommandRequest} {reply : Reply} (hmem : .send leader request reply ∈ next.course) :
    .send leader request reply ∈ activity.course ∨ replies reply := by
  cases hstep with
  | ask answer hhere =>
      rcases List.mem_append.1 hmem with hmem | hmem
      · exact .inl hmem
      · rw [← List.mem_singleton.1 hmem] at hhere
        contradiction
  | send => exact .inl hmem
  | receive hreply =>
      rcases List.mem_append.1 hmem with hmem | hmem
      · exact .inl hmem
      · injection List.mem_singleton.1 hmem with _ _ heq
        exact .inr (heq ▸ hreply)

end Activity

/-- A command on its way: the dialogue in which it was submitted, those of the nodes that
took it, all requests that were sent and the bytes of those that are under way. -/
structure Network where
  submission : Activity (Except Failure Unit)
  handlers : List (Activity CommandResponse) := []
  sent : List (Peer × CommandRequest) := []
  requests : List (Peer × Bytes) := []

namespace Network

def start (node : Peer) (group : GroupId) (timeout : UInt64) (command : Command) : Network where
  submission := { node, phase := .going (Submission.submit group timeout command) }

/-- The replies that may come: that there is none, at any time, or the answer of a node
that is done. -/
def Replies (network : Network) : Reply → Prop
  | .answered response => ∃ handler ∈ network.handlers, ∃ answer,
      handler.phase = .going (.done answer) ∧
        Wire.commandResponse.decode (Wire.commandResponse.encode answer) = .ok response
  | .failed _ | .timedOut => True

/-- Puts requests on their way. -/
def post (network : Network) (out : List (Peer × CommandRequest)) : Network :=
  { network with
    sent := network.sent ++ out
    requests := network.requests ++
      out.map fun (peer, request) => (peer, Wire.commandRequest.encode request) }

/-- One step of a command on its way. -/
inductive Step : Network → Network → Prop
  | submit {network : Network} {next : Activity (Except Failure Unit)}
      {out : List (Peer × CommandRequest)}
      (hstep : network.submission.Step network.Replies out next) :
      Step network { network.post out with submission := next }
  | handle {network : Network} {before after : List (Activity CommandResponse)}
      {handler next : Activity CommandResponse} {out : List (Peer × CommandRequest)}
      (hhandlers : network.handlers = before ++ handler :: after)
      (hstep : handler.Step network.Replies out next) :
      Step network { network.post out with handlers := before ++ next :: after }
  /-- A request arrives at a server, whichever groups that has nodes of. -/
  | deliver {network : Network} {before after : List (Peer × Bytes)} {peer : Peer}
      {bytes : Bytes} {request : CommandRequest} (registry : Registry Unit)
      (hrequests : network.requests = before ++ (peer, bytes) :: after)
      (hdecode : Wire.commandRequest.decode bytes = .ok request) :
      Step network { network with
        requests := before ++ after
        handlers := network.handlers ++ [{
          node := peer
          phase := .going (Submission.handle (registry.contains ⟨request.group⟩) request) }] }

/-- The courses of all dialogues about the command. -/
def courses (network : Network) : List (List Exchange) :=
  network.submission.course :: network.handlers.map Activity.course

/-- The entries that were handed to engines. -/
def entries (network : Network) : List Bytes :=
  network.courses.flatMap (·.filterMap Exchange.entry?)

/-- A node took the command into its log and learned that it was applied. -/
def Applied (command : Command) (handlers : List (Activity CommandResponse)) : Prop :=
  ∃ handler ∈ handlers, .enqueue command.toEntry ∈ handler.course ∧
    ∃ data, .wait (.ok data) ∈ handler.course

/-- What is true of a command at all times. -/
structure OneHop (command : Command) (network : Network) : Prop where
  sent : network.sent.length ≤ 1
  entries : network.entries.length ≤ 1
  /-- The entry is that of the command, and right before the engine was handed it, it had
  answered this very node that it leads. -/
  leads : ∀ course ∈ network.courses, ∀ before entry after,
    course = before ++ .enqueue entry :: after →
      entry = command.toEntry ∧ before.getLast? = some (.isLeader true)
  /-- The submitter learns of success only if the node that took the command did. -/
  applied : ∀ data, .settle (.ok data) ∈ network.submission.course →
    Applied command network.handlers

end Network

/-! ## What the courses allow -/

theorem Action.code_lt (action : Action) : action.code.toNat < Action.count := by
  cases action <;> decide

/-- A place in a course is a place in every course that goes on from it. -/
theorem eq_append_of_prefix {α : Type} {course full before after : List α} {item : α}
    (hextends : course <+: full) (h : course = before ++ item :: after) :
    ∃ after', full = before ++ item :: after' := by
  obtain ⟨rest, rfl⟩ := hextends
  exact ⟨after ++ rest, by simp [h]⟩

namespace Submission

variable {group : GroupId} {timeout : UInt64} {command : Command} {course : List Exchange}

theorem outcome_eq_ok {leader : Peer} {reply : Reply} {data : Bytes}
    (h : outcome leader timeout reply = .ok data) :
    ∃ response, reply = .answered response ∧ response.status = true := by
  cases reply with
  | answered response =>
      cases hstatus : response.status with
      | true => exact ⟨response, rfl, hstatus⟩
      | false => simp [outcome, hstatus] at h
  | failed => contradiction
  | timedOut => contradiction

section Course

variable {returned : Except Failure Unit} (h : Course group timeout command course returned)

include h

theorem Course.requests :
    ∀ sent ∈ course.filterMap Exchange.request?, sent.2 = request group command := by
  cases h with
  | enqueued => exact List.forall_mem_nil _
  | forwarded => exact List.forall_mem_singleton.2 rfl
  | refused => exact List.forall_mem_nil _

/-- A submission hands its command on once at most. -/
theorem Course.once :
    (course.filterMap Exchange.entry?).length +
      (course.filterMap Exchange.request?).length ≤ 1 := by
  cases h with
  | enqueued => exact Nat.le_refl 1
  | forwarded => exact Nat.le_refl 1
  | refused => exact Nat.zero_le 1

theorem Course.leads {before after : List Exchange} {entry : Bytes}
    (hentry : course = before ++ .enqueue entry :: after) :
    entry = command.toEntry ∧ before.getLast? = some (.isLeader true) := by
  cases h with
  | enqueued =>
      simp only [List.cons_eq_append_iff] at hentry
      simp_all
  | forwarded => simp [List.cons_eq_append_iff] at hentry
  | refused => simp [List.cons_eq_append_iff] at hentry

/-- Only an answer of success is reported as one. -/
theorem Course.succeeded {before after : List Exchange} {data : Bytes}
    (hsettle : course = before ++ .settle (.ok data) :: after) :
    ∃ leader response, .send leader (request group command) (.answered response) ∈ before ∧
      response.status = true := by
  cases h with
  | enqueued => simp [List.cons_eq_append_iff] at hsettle
  | forwarded leads leader reply =>
      simp only [List.cons_eq_append_iff] at hsettle
      simp at hsettle
      obtain ⟨rfl, houtcome, -⟩ := hsettle
      obtain ⟨response, rfl, hstatus⟩ := outcome_eq_ok houtcome.symm
      exact ⟨leader, response, by simp, hstatus⟩
  | refused => simp [List.cons_eq_append_iff] at hsettle

end Course

section Handling

variable {hasNode : Bool} {answered : CommandResponse}

/-- The code of an action is not cut off on its way. -/
theorem action_request {action : Action}
    (h : Action.ofCode (request group command).action.toNat = .ok action) :
    action = command.action := by
  have hcode : (request group command).action.toNat = command.action.code.toNat := by
    simp [request]
  rw [hcode, Action.ofCode, Action.ofCode?_code] at h
  injection h with h
  exact h.symm

theorem Handling.requests {request : CommandRequest}
    (h : Handling hasNode request course answered) : course.filterMap Exchange.request? = [] := by
  cases h <;> rfl

theorem Handling.once {request : CommandRequest} (h : Handling hasNode request course answered) :
    (course.filterMap Exchange.entry?).length ≤ 1 := by
  cases h with
  | unregistered => exact Nat.zero_le 1
  | unknown => exact Nat.zero_le 1
  | refused => exact Nat.zero_le 1
  | taken => exact Nat.le_refl 1

theorem Handling.leads (h : Handling hasNode (request group command) course answered)
    {before after : List Exchange} {entry : Bytes}
    (hentry : course = before ++ .enqueue entry :: after) :
    entry = command.toEntry ∧ before.getLast? = some (.isLeader true) := by
  cases h with
  | unregistered => simp at hentry
  | unknown => simp at hentry
  | refused => simp [List.cons_eq_append_iff] at hentry
  | taken hnode haction outcome =>
      cases action_request haction
      simp only [List.cons_eq_append_iff] at hentry
      simp_all [request]

theorem Handling.applied (h : Handling hasNode (request group command) course answered)
    (hstatus : answered.status = true) :
    .enqueue command.toEntry ∈ course ∧ ∃ data, .wait (.ok data) ∈ course := by
  cases h with
  | unregistered => contradiction
  | unknown => contradiction
  | refused => contradiction
  | taken hnode haction outcome =>
      cases action_request haction
      cases outcome with
      | error => contradiction
      | ok data => exact ⟨by simp [request], data, by simp⟩

/-- What keeps a node from taking a command. -/
theorem Handling.barred {request : CommandRequest}
    (h : Handling hasNode request course answered)
    (hbarred : hasNode = false ∨ Action.count ≤ request.action.toNat ∨ .isLeader true ∉ course) :
    course.filterMap Exchange.entry? = [] ∧ answered.status = false := by
  cases h with
  | unregistered => exact ⟨rfl, rfl⟩
  | unknown => exact ⟨rfl, rfl⟩
  | refused => exact ⟨rfl, rfl⟩
  | taken hnode haction outcome =>
      rcases hbarred with hbarred | hbarred | hbarred
      · rw [hnode] at hbarred
        contradiction
      · rw [Action.ofCode] at haction
        split at haction
        next found hfound =>
          have hcode := found.code_lt
          rw [← Action.ofCode?_eq_some hfound] at hcode
          omega
        next => contradiction
      · simp at hbarred

end Handling

end Submission

/-! ## What every step keeps -/

namespace Network

variable {node : Peer} {group : GroupId} {timeout : UInt64} {command : Command}
variable {network next : Network}

/-- The dialogues go on as submissions and forwarded commands do, and each node that was
reached was reached by a request of its own. -/
structure Sound (group : GroupId) (timeout : UInt64) (command : Command) (network : Network) :
    Prop where
  submission : network.submission.Keeps (Submission.Course group timeout command)
  handlers : ∀ handler ∈ network.handlers, ∃ hasNode,
    handler.Keeps (Submission.Handling hasNode (Submission.request group command))
  sent : network.sent = network.submission.sent
  requests : ∀ message ∈ network.requests,
    message.2 = Wire.commandRequest.encode (Submission.request group command)
  counted : network.requests.length + network.handlers.length ≤ network.sent.length
  applied : ∀ leader request response,
    .send leader request (.answered response) ∈ network.submission.course →
      response.status = true → Applied command network.handlers

theorem sound_start : Sound group timeout command (start node group timeout command) where
  submission := Submission.keeps_submit group timeout command
  handlers := List.forall_mem_nil _
  sent := rfl
  requests := List.forall_mem_nil _
  counted := Nat.le_refl 0
  applied _ _ _ hmem := absurd hmem List.not_mem_nil

/-- An answer of success is that of a node which applied the command. -/
theorem Sound.applied_of_replies (h : Sound group timeout command network)
    {response : CommandResponse} (hreply : network.Replies (.answered response))
    (hstatus : response.status = true) : Applied command network.handlers := by
  obtain ⟨handler, hmem, answer, hdone, hdecode⟩ := hreply
  obtain ⟨hasNode, hkeeps⟩ := h.handlers handler hmem
  cases Wire.lossless_commandResponse.eq_of_decode hdecode
  rw [Activity.Keeps, hdone] at hkeeps
  obtain ⟨hentry, hwait⟩ := Submission.Handling.applied hkeeps hstatus
  exact ⟨handler, hmem, hentry, hwait⟩

/-- A node that took the command still did when one of the nodes has gone on. -/
theorem Applied.goes_on {before after : List (Activity CommandResponse)}
    {handler further : Activity CommandResponse} (hextends : handler.course <+: further.course)
    (h : Applied command (before ++ handler :: after)) :
    Applied command (before ++ further :: after) := by
  obtain ⟨witness, hmem, hentry, data, hwait⟩ := h
  rw [List.mem_append, List.mem_cons] at hmem
  rcases hmem with hmem | rfl | hmem
  · exact ⟨witness, List.mem_append_left _ hmem, hentry, data, hwait⟩
  · exact ⟨further, by simp, hextends.subset hentry, data, hextends.subset hwait⟩
  · exact ⟨witness, by simp [hmem], hentry, data, hwait⟩

/-- A node that was reached sends no request in turn. -/
theorem sends_nothing {request : CommandRequest} {hasNode : Bool}
    {handler further : Activity CommandResponse} {replies : Reply → Prop}
    {out : List (Peer × CommandRequest)}
    (hkeeps : handler.Keeps (Submission.Handling hasNode request))
    (hstep : handler.Step replies out further) : out = [] := by
  obtain ⟨course, answer, hcourse, -, hsent⟩ := (hkeeps.step hstep).reachable
  rw [hcourse.requests, List.sublist_nil, hstep.sent] at hsent
  exact (List.append_eq_nil_iff.1 hsent).2

theorem Sound.submit (h : Sound group timeout command network)
    {further : Activity (Except Failure Unit)} {out : List (Peer × CommandRequest)}
    (hstep : network.submission.Step network.Replies out further) :
    Sound group timeout command { network.post out with submission := further } where
  submission := h.submission.step hstep
  handlers := h.handlers
  sent := by
    rw [hstep.sent, ← h.sent]
    rfl
  requests := by
    obtain ⟨course, returned, hcourse, -, hsent⟩ := (h.submission.step hstep).reachable
    rw [hstep.sent] at hsent
    intro message hmem
    rcases List.mem_append.1 hmem with hmem | hmem
    · exact h.requests message hmem
    · obtain ⟨sent, hout, rfl⟩ := List.mem_map.1 hmem
      rw [← hcourse.requests sent (hsent.subset (List.mem_append_right _ hout))]
  counted := by
    have hcounted := h.counted
    simp only [post, List.length_append, List.length_map]
    omega
  applied leader request response hmem hstatus := by
    rcases hstep.reply hmem with hmem | hreply
    · exact h.applied leader request response hmem hstatus
    · exact h.applied_of_replies hreply hstatus

theorem Sound.handle (h : Sound group timeout command network)
    {before after : List (Activity CommandResponse)} {handler further : Activity CommandResponse}
    {out : List (Peer × CommandRequest)} (hhandlers : network.handlers = before ++ handler :: after)
    (hstep : handler.Step network.Replies out further) :
    Sound group timeout command
      { network.post out with handlers := before ++ further :: after } := by
  have hall := h.handlers
  rw [hhandlers] at hall
  obtain ⟨hasNode, hkeeps⟩ := hall handler (by simp)
  cases sends_nothing hkeeps hstep
  have hpost : network.post [] = network := by simp [post]
  rw [hpost]
  exact {
    submission := h.submission
    handlers := by
      intro other hmem
      rw [List.mem_append, List.mem_cons] at hmem
      rcases hmem with hmem | rfl | hmem
      · exact hall other (List.mem_append_left _ hmem)
      · exact ⟨hasNode, hkeeps.step hstep⟩
      · exact hall other (by simp [hmem])
    sent := h.sent
    requests := h.requests
    counted := by
      have hcounted := h.counted
      rw [hhandlers] at hcounted
      simpa using hcounted
    applied := by
      intro leader request response hmem hstatus
      have happlied := h.applied leader request response hmem hstatus
      rw [hhandlers] at happlied
      exact happlied.goes_on hstep.grows }

theorem Sound.deliver (h : Sound group timeout command network)
    {before after : List (Peer × Bytes)} {peer : Peer} {bytes : Bytes} {request : CommandRequest}
    (registry : Registry Unit) (hrequests : network.requests = before ++ (peer, bytes) :: after)
    (hdecode : Wire.commandRequest.decode bytes = .ok request) :
    Sound group timeout command { network with
      requests := before ++ after
      handlers := network.handlers ++ [{
        node := peer
        phase := .going (Submission.handle (registry.contains ⟨request.group⟩) request) }] } := by
  have hall := h.requests
  rw [hrequests] at hall
  have hbytes := hall (peer, bytes) (by simp)
  cases hbytes
  cases Wire.lossless_commandRequest.eq_of_decode hdecode
  exact {
    submission := h.submission
    handlers := by
      intro handler hmem
      rcases List.mem_append.1 hmem with hmem | hmem
      · exact h.handlers handler hmem
      · cases List.mem_singleton.1 hmem
        exact ⟨_, Submission.keeps_handle _ _⟩
    sent := h.sent
    requests := by
      intro message hmem
      apply hall message
      rcases List.mem_append.1 hmem with hmem | hmem
      · exact List.mem_append_left _ hmem
      · exact List.mem_append_right _ (List.mem_cons_of_mem _ hmem)
    counted := by
      have hcounted := h.counted
      rw [hrequests] at hcounted
      simp only [List.length_append, List.length_cons, List.length_nil] at hcounted ⊢
      omega
    applied := by
      intro leader sent response hmem hstatus
      obtain ⟨handler, hmem, happlied⟩ := h.applied leader sent response hmem hstatus
      exact ⟨handler, List.mem_append_left _ hmem, happlied⟩ }

theorem Sound.step (h : Sound group timeout command network) (hstep : network.Step next) :
    Sound group timeout command next := by
  cases hstep with
  | submit hstep => exact h.submit hstep
  | handle hhandlers hstep => exact h.handle hhandlers hstep
  | deliver registry hrequests hdecode => exact h.deliver registry hrequests hdecode

theorem Sound.of_run
    (hrun : Relation.ReflTransGen Step (start node group timeout command) network) :
    Sound group timeout command network := by
  induction hrun with
  | refl => exact sound_start
  | tail _ hstep ih => exact ih.step hstep

/-- Each node that was reached hands one entry to its engine at most. -/
theorem Sound.length_entries (h : Sound group timeout command network) :
    ((network.handlers.map Activity.course).flatMap (·.filterMap Exchange.entry?)).length ≤
      network.handlers.length := by
  have hone : ∀ count ∈ (network.handlers.map Activity.course).map
      fun course => (course.filterMap Exchange.entry?).length, count ≤ 1 := by
    intro count hcount
    obtain ⟨course, hcourse, rfl⟩ := List.mem_map.1 hcount
    obtain ⟨handler, hhandler, rfl⟩ := List.mem_map.1 hcourse
    obtain ⟨hasNode, hkeeps⟩ := h.handlers handler hhandler
    obtain ⟨full, answer, hfull, hextends, -⟩ := hkeeps.reachable
    exact (hextends.sublist.filterMap _).length_le.trans hfull.once
  rw [List.length_flatMap]
  simpa using List.sum_le_card_nsmul _ 1 hone

theorem Sound.oneHop (h : Sound group timeout command network) : network.OneHop command := by
  obtain ⟨full, returned, hcourse, hextends, hsent⟩ := h.submission.reachable
  have honce := hcourse.once
  have hsends : network.sent.length ≤ (full.filterMap Exchange.request?).length := by
    rw [h.sent]
    exact hsent.length_le
  exact {
    sent := by omega
    entries := by
      have hown : (network.submission.course.filterMap Exchange.entry?).length ≤
          (full.filterMap Exchange.entry?).length :=
        (hextends.sublist.filterMap _).length_le
      have hothers := h.length_entries
      have hcounted := h.counted
      simp only [entries, courses, List.flatMap_cons, List.length_append]
      omega
    leads := by
      intro course hmem before entry after hentry
      rcases List.mem_cons.1 hmem with rfl | hmem
      · obtain ⟨rest, hfull⟩ := eq_append_of_prefix hextends hentry
        exact hcourse.leads hfull
      · obtain ⟨handler, hhandler, rfl⟩ := List.mem_map.1 hmem
        obtain ⟨hasNode, hkeeps⟩ := h.handlers handler hhandler
        obtain ⟨full, answer, hcourse, hextends, -⟩ := hkeeps.reachable
        obtain ⟨rest, hfull⟩ := eq_append_of_prefix hextends hentry
        exact hcourse.leads hfull
    applied := by
      intro data hsettled
      obtain ⟨before, after, hsettle⟩ := List.append_of_mem hsettled
      obtain ⟨rest, hfull⟩ := eq_append_of_prefix hextends hsettle
      obtain ⟨leader, response, hreply, hstatus⟩ := hcourse.succeeded hfull
      have hmem : .send leader (Submission.request group command) (.answered response) ∈
          network.submission.course := by
        rw [hsettle]
        exact List.mem_append_left _ hreply
      exact h.applied leader _ response hmem hstatus }

end Network

/-- Whatever the nodes of a group believe of each other, a command that is submitted at one
of them crosses the network at most once, and enters at most one log. A server that has
no node of the group, an action that has no code and a node that does not lead leave
every log as it is. -/
theorem one_hop (node : Peer) (group : GroupId) (timeout : UInt64) (command : Command) :
    (∀ network, Relation.ReflTransGen Network.Step
      (Network.start node group timeout command) network → network.OneHop command) ∧
    ∀ (registry : Registry Unit) (request : CommandRequest) {σ : Type}
      (answer : {β : Type} → σ → Query β → σ × β) (world : σ),
      let ending :=
        (Submission.handle (registry.contains ⟨request.group⟩) request).converse answer world
      registry.contains ⟨request.group⟩ = false ∨ Action.count ≤ request.action.toNat ∨
          .isLeader true ∉ ending.1 →
        ending.1.filterMap Exchange.entry? = [] ∧ ending.2.status = false := by
  constructor
  · intro network hrun
    exact (Network.Sound.of_run hrun).oneHop
  · intro registry request σ answer world ending hbarred
    have hkeeps := Submission.keeps_handle (registry.contains ⟨request.group⟩) request
    exact (hkeeps.converse answer world).barred hbarred

/-- A command goes from one node to another, which leads, and its submitter learns of it. -/
theorem one_hop_taken :
    let command : Command := ⟨.put, [1, 2]⟩
    (∃ network, Relation.ReflTransGen Network.Step (Network.start ⟨"a", 1, 0⟩ ⟨"g"⟩ 1000 command)
      network ∧ network.OneHop command ∧ network.sent.length = 1 ∧
        network.entries = [command.toEntry] ∧ .settle (.ok []) ∈ network.submission.course) ∧
    ((Submission.handle (Registry.contains (⟨[]⟩ : Registry Unit) ⟨"g"⟩) ⟨"g", 4, [1, 2]⟩).converse
      (fun () query => ((), query.alone)) ()).1.filterMap Exchange.entry? = [] := by
  have hrequest : Wire.commandRequest.decode
      (Wire.commandRequest.encode (Submission.request ⟨"g"⟩ ⟨.put, [1, 2]⟩)) =
        .ok (Submission.request ⟨"g"⟩ ⟨.put, [1, 2]⟩) := by
    apply Wire.lossless_commandRequest.decode_encode
    decide
  have hresponse : Wire.commandResponse.decode (Wire.commandResponse.encode ⟨true, ""⟩) =
      .ok ⟨true, ""⟩ := by
    apply Wire.lossless_commandResponse.decode_encode
    decide
  -- The first node asks its engine twice and sends, the other takes the command and is told
  -- that it was applied, and the answer comes back.
  have hsent := Relation.ReflTransGen.refl (r := Network.Step)
      (a := Network.start ⟨"a", 1, 0⟩ ⟨"g"⟩ 1000 ⟨.put, [1, 2]⟩)
    |>.tail (.submit (.ask false rfl))
    |>.tail (.submit (.ask false rfl))
    |>.tail (.submit (.ask (some (Peer.mk "b" 2 0)) rfl))
    |>.tail (.submit .send)
  have htaken := hsent
    |>.tail (@Network.Step.deliver _ [] [] _ _ _ ⟨[(⟨"g"⟩, ())]⟩ rfl hrequest)
    |>.tail (@Network.Step.handle _ [] [] _ _ _ rfl (.ask true rfl))
    |>.tail (@Network.Step.handle _ [] [] _ _ _ rfl (.ask () rfl))
    |>.tail (@Network.Step.handle _ [] [] _ _ _ rfl (.ask (.ok []) rfl))
  have hsettled := htaken
    |>.tail (.submit (@Activity.Step.receive _ _ _ _ _ _ _ (.answered ⟨true, ""⟩)
      ⟨_, List.mem_singleton.2 rfl, ⟨true, ""⟩, rfl, hresponse⟩))
    |>.tail (.submit (.ask () rfl))
  have hhop := one_hop ⟨"a", 1, 0⟩ ⟨"g"⟩ 1000 ⟨.put, [1, 2]⟩
  exact ⟨⟨_, hsettled, hhop.1 _ hsettled, rfl, rfl,
      List.mem_append_right _ (List.mem_singleton.2 rfl)⟩,
    (hhop.2 ⟨[]⟩ ⟨"g", 4, [1, 2]⟩ _ () (.inl rfl)).1⟩

end Quorum
