import Mathlib.Data.List.Nodup
import Mathlib.Data.List.Range
import ServiceDirectory.Archive.Channel

/-!
# One turn after another

Whatever clients do at the same time, the calls that the worker took form one sequence,
in the order in which the queue accepted them. Asked in this order and by nobody else,
the archive gives the very answers that the clients got, and ends as the worker left it.
A call that found the channel closed has no place in the sequence, and a shutdown is the
end of it.
-/

namespace ServiceDirectory.Archive

/-- An answer that the channel is closed. -/
def Reply.isRefusal : Reply → Bool
  | .written (.error .channelClosed) => true
  | .readings (.error .channelClosed) => true
  | .stopped (.error .channelClosed) => true
  | _ => false

/-- An answer of the archive, to a write or a reading. -/
def Reply.isResult : Reply → Bool
  | .stopped _ => false
  | reply => !reply.isRefusal

theorem Command.isRefusal_refused (command : Command) : command.refused.isRefusal = true := by
  cases command <;> rfl

theorem Reply.isResult_eq_false {reply : Reply} (h : reply.isRefusal = true) :
    reply.isResult = false := by
  cases reply with
  | written result => simp [isResult, h]
  | readings result => simp [isResult, h]
  | stopped result => rfl

/-! ## The archive by itself -/

/-- What the archive gives for a turn, and the archive after it. -/
def Turn.onArchive (turn : Turn) (archive : Archive) : Option Reply × Archive :=
  match turn.call.command, turn.fault with
  | .write s, none =>
    let (result, archive) := archive.write s
    (some (.written (result.mapError .archive)), archive)
  | .readAll, none =>
    let (result, archive) := archive.read
    (some (.readings (result.mapError .archive)), archive)
  | .write _, some cause => (some (.written (.error (.archive cause))), archive)
  | .readAll, some cause => (some (.readings (.error (.archive cause))), archive)
  | .shutdown, _ => (none, archive)

/-- While it is running, the worker does with a command what the archive does in its turn. -/
theorem Worker.attempt_eq (archive : Archive) (call : Call) (fault : Option ArchiveError)
    (hawaits : call.command.awaits = true) :
    ∃ reply, ((Turn.mk call fault).onArchive archive).1 = some reply ∧
      ({ archive } : Worker).attempt call.command fault =
        (reply, { archive := ((Turn.mk call fault).onArchive archive).2 }) := by
  obtain ⟨number, command⟩ := call
  cases command with
  | write s => cases fault <;> exact ⟨_, rfl, rfl⟩
  | readAll => cases fault <;> exact ⟨_, rfl, rfl⟩
  | shutdown => cases hawaits

/-- What the archive gives for turns one after another, by the numbers of their calls, and the
archive after them. -/
def inTurn (start : Archive) (turns : List Turn) : List (Nat × Reply) × Archive :=
  turns.foldl (fun (given, archive) turn =>
    let (reply, archive) := turn.onArchive archive
    (given ++ (reply.map (turn.call.number, ·)).toList, archive)) ([], start)

theorem inTurn_concat (start : Archive) (turns : List Turn) (turn : Turn) :
    inTurn start (turns ++ [turn]) =
      ((inTurn start turns).1 ++
        ((turn.onArchive (inTurn start turns).2).1.map (turn.call.number, ·)).toList,
        (turn.onArchive (inTurn start turns).2).2) :=
  List.foldl_concat ..

/-- An answer of the archive is that of some turn, given when the turns before it were over. -/
theorem exists_turn_of_mem_inTurn {start : Archive} {turns : List Turn} {given : Nat × Reply}
    (h : given ∈ (inTurn start turns).1) :
    ∃ before turn after, turns = before ++ turn :: after ∧ turn.call.number = given.1 ∧
      (turn.onArchive (inTurn start before).2).1 = some given.2 := by
  induction turns using List.reverseRecOn with
  | nil => cases h
  | append_singleton turns turn ih =>
      rw [inTurn_concat, List.mem_append] at h
      rcases h with h | h
      · obtain ⟨before, earlier, after, rfl, hrest⟩ := ih h
        exact ⟨before, earlier, after ++ [turn], by simp, hrest⟩
      · obtain ⟨reply, hreply, rfl⟩ := Option.map_eq_some_iff.mp (Option.mem_toList.mp h)
        exact ⟨turns, turn, [], rfl, rfl, hreply⟩

theorem Turn.isResult_of_onArchive {turn : Turn} {archive : Archive} {reply : Reply}
    (h : (turn.onArchive archive).1 = some reply) : reply.isResult = true := by
  obtain ⟨⟨number, command⟩, fault⟩ := turn
  cases command with
  | write s =>
      cases fault with
      | none =>
          obtain rfl : Reply.written ((archive.write s).1.mapError .archive) = reply :=
            Option.some.inj h
          cases (archive.write s).1 <;> rfl
      | some cause =>
          obtain rfl := Option.some.inj h
          rfl
  | readAll =>
      cases fault with
      | none =>
          obtain rfl : Reply.readings (archive.read.1.mapError .archive) = reply :=
            Option.some.inj h
          cases archive.read.1 <;> rfl
      | some cause =>
          obtain rfl := Option.some.inj h
          rfl
  | shutdown => cases h

/-- A write is acknowledged only for a turn in which the archive took it. -/
theorem Turn.write_of_onArchive {turn : Turn} {archive : Archive}
    (h : (turn.onArchive archive).1 = some (.written (.ok ()))) :
    ∃ s, turn = ⟨⟨turn.call.number, .write s⟩, none⟩ ∧ (archive.write s).1 = .ok () := by
  obtain ⟨⟨number, command⟩, fault⟩ := turn
  cases command with
  | write s =>
      cases fault with
      | none =>
          refine ⟨s, rfl, ?_⟩
          have hwritten : (archive.write s).1.mapError WorkerError.archive = .ok () := by
            simpa [onArchive] using h
          cases hresult : (archive.write s).1 with
          | ok done => rfl
          | error cause =>
              rw [hresult] at hwritten
              cases hwritten
      | some cause => simp [onArchive] at h
  | readAll => cases fault <;> simp [onArchive] at h
  | shutdown => cases h

namespace Channel

/-! ## Steps -/

/-- The numbers of the calls that wait for an answer. -/
def awaiting (queue : List Call) : List Nat :=
  (queue.filter (·.command.awaits)).map Call.number

/-- What calls that wait are told when the channel is closed. -/
def refusals (queue : List Call) : List (Nat × Reply) :=
  (queue.filter (·.command.awaits)).map fun call => (call.number, call.command.refused)

/-- What a step comes to, with the reason for each case. -/
inductive Stepped (ch : Channel) : Step → Channel → Prop
  | accepted {command : Command} (hrunning : ch.worker.running = true)
      (hroom : ch.queue.length < capacity) (hawaits : command.awaits = true) :
      Stepped ch (.send command) { ch with
        sent := ch.sent + 1
        queue := ch.queue ++ [⟨ch.sent, command⟩]
        accepted := ch.accepted ++ [⟨ch.sent, command⟩] }
  | stopping (hrunning : ch.worker.running = true) (hroom : ch.queue.length < capacity) :
      Stepped ch (.send .shutdown) { ch with
        sent := ch.sent + 1
        queue := ch.queue ++ [⟨ch.sent, .shutdown⟩]
        accepted := ch.accepted ++ [⟨ch.sent, .shutdown⟩]
        answers := ch.answers ++ [(ch.sent, .stopped (.ok ()))] }
  | refused {command : Command} (hended : ch.worker.running = false) :
      Stepped ch (.send command) { ch with
        sent := ch.sent + 1
        answers := ch.answers ++ [(ch.sent, command.refused)] }
  | served {call : Call} {queue : List Call} {fault : Option ArchiveError} {reply : Reply}
      (hrunning : ch.worker.running = true) (hqueue : ch.queue = call :: queue)
      (hawaits : call.command.awaits = true)
      (hreply : ((Turn.mk call fault).onArchive ch.worker.archive).1 = some reply) :
      Stepped ch (.serve fault) { ch with
        worker := { archive := ((Turn.mk call fault).onArchive ch.worker.archive).2 }
        queue
        turns := ch.turns ++ [⟨call, fault⟩]
        answers := ch.answers ++ [(call.number, reply)] }
  | ended {number : Nat} {queue : List Call} {fault : Option ArchiveError}
      (hrunning : ch.worker.running = true) (hqueue : ch.queue = ⟨number, .shutdown⟩ :: queue) :
      Stepped ch (.serve fault) { ch with
        worker := { ch.worker with running := false }
        queue := []
        turns := ch.turns ++ [⟨⟨number, .shutdown⟩, fault⟩]
        answers := ch.answers ++ refusals queue }

theorem stepped {ch next : Channel} {step : Step} (h : ch.step? step = some next) :
    Stepped ch step next := by
  obtain ⟨⟨archive, running⟩, queue, sent, answers, accepted, turns⟩ := ch
  cases step with
  | send command =>
      rw [step?, send?] at h
      cases running with
      | false =>
          obtain rfl := Option.some.inj h
          exact .refused rfl
      | true =>
          by_cases hfull : capacity ≤ queue.length
          · simp [hfull] at h
          · simp only [hfull, if_true, if_false, Option.some.injEq] at h
            subst h
            cases command with
            | write s => exact .accepted rfl (Nat.lt_of_not_le hfull) rfl
            | readAll => exact .accepted rfl (Nat.lt_of_not_le hfull) rfl
            | shutdown => exact .stopping rfl (Nat.lt_of_not_le hfull)
  | serve fault =>
      rw [step?, serve?] at h
      cases running with
      | false => cases h
      | true =>
          cases queue with
          | nil => cases h
          | cons call queue =>
              cases hawaits : call.command.awaits with
              | true =>
                  obtain ⟨reply, hreply, hattempt⟩ := Worker.attempt_eq archive call fault hawaits
                  simp only [hattempt, hawaits, if_true, Option.some.injEq] at h
                  subst h
                  exact .served rfl rfl hawaits hreply
              | false =>
                  obtain ⟨number, command⟩ := call
                  cases command with
                  | write s => cases hawaits
                  | readAll => cases hawaits
                  | shutdown =>
                      obtain rfl := Option.some.inj h
                      exact .ended rfl rfl

/-! ## What every run keeps -/

theorem awaiting_append (first rest : List Call) :
    awaiting (first ++ rest) = awaiting first ++ awaiting rest := by
  rw [awaiting, List.filter_append, List.map_append, awaiting, awaiting]

theorem fst_refusals (queue : List Call) : (refusals queue).map Prod.fst = awaiting queue := by
  rw [refusals, List.map_map]
  rfl

theorem isRefusal_of_mem_refusals {queue : List Call} {answer : Nat × Reply}
    (h : answer ∈ refusals queue) : answer.2.isRefusal = true := by
  obtain ⟨call, _, rfl⟩ := List.mem_map.mp h
  exact call.command.isRefusal_refused

theorem filter_refusals (queue : List Call) : (refusals queue).filter (·.2.isResult) = [] := by
  apply List.filter_eq_nil_iff.mpr
  intro answer hanswer
  simp [Reply.isResult_eq_false (isRefusal_of_mem_refusals hanswer)]

/-- A channel in front of an archive, before anything was sent. -/
def opened (start : Archive) : Channel := { worker := { archive := start } }

/-- What holds after any steps: where the calls are that were accepted, and who has an answer. -/
structure Reached (start : Archive) (ch : Channel) : Prop where
  /-- Of the calls that were accepted, the first ones had their turns, the next ones wait, and the
  rest was turned away when the worker ended. -/
  order : ∃ lost, ch.accepted = ch.turns.map Turn.call ++ ch.queue ++ lost ∧
    (ch.worker.running = true → lost = [])
  idle : ch.worker.running = false → ch.queue = []
  numbered : (ch.accepted.map Call.number).Sublist (List.range ch.sent)
  given : (ch.answers.filter (·.2.isResult), ch.worker.archive) = inTurn start ch.turns
  /-- Each call has one answer, or waits. -/
  accounted : (ch.answers.map Prod.fst ++ awaiting ch.queue).Perm (List.range ch.sent)
  stopping : ∀ call ∈ ch.accepted, call.command = .shutdown →
    (call.number, Reply.stopped (.ok ())) ∈ ch.answers
  ended : (∃ turn ∈ ch.turns, turn.call.command = .shutdown) → ch.worker.running = false

namespace Reached

variable {start : Archive} {ch next later : Channel}

theorem opened (start : Archive) : Reached start (opened start) where
  order := ⟨[], rfl, fun _ => rfl⟩
  idle h := by cases h
  numbered := List.Sublist.slnil
  given := rfl
  accounted := List.Perm.refl _
  stopping := by simp [Channel.opened]
  ended := by simp [Channel.opened]

/-- Numbers of calls are used in their order. -/
theorem numbered_concat (h : Reached start ch) (command : Command) :
    ((ch.accepted ++ [(⟨ch.sent, command⟩ : Call)]).map Call.number).Sublist
      (List.range (ch.sent + 1)) := by
  rw [List.map_append, List.range_succ]
  exact h.numbered.append (List.Sublist.refl _)

/-- A call that is answered at once is accounted for like the ones before it. -/
theorem accounted_concat (h : Reached start ch) (reply : Reply) :
    ((ch.answers ++ [(ch.sent, reply)]).map Prod.fst ++ awaiting ch.queue).Perm
      (List.range (ch.sent + 1)) := by
  rw [List.map_append, List.append_assoc, List.range_succ]
  refine (List.Perm.append_left _ List.perm_append_comm).trans ?_
  rw [← List.append_assoc]
  exact h.accounted.append_right _

theorem order_concat (h : Reached start ch) (hrunning : ch.worker.running = true) (call : Call) :
    ∃ lost, ch.accepted ++ [call] = ch.turns.map Turn.call ++ (ch.queue ++ [call]) ++ lost ∧
      (ch.worker.running = true → lost = []) := by
  obtain ⟨lost, hlost, hnone⟩ := h.order
  refine ⟨[], ?_, fun _ => rfl⟩
  rw [hlost, hnone hrunning]
  simp

theorem accept (h : Reached start ch) {command : Command} (hrunning : ch.worker.running = true)
    (hawaits : command.awaits = true) :
    Reached start { ch with
      sent := ch.sent + 1
      queue := ch.queue ++ [⟨ch.sent, command⟩]
      accepted := ch.accepted ++ [⟨ch.sent, command⟩] } where
  order := h.order_concat hrunning _
  idle hended := by simp [hrunning] at hended
  numbered := h.numbered_concat command
  given := h.given
  accounted := by
    have hqueue : awaiting (ch.queue ++ [⟨ch.sent, command⟩]) =
        awaiting ch.queue ++ [ch.sent] := by
      rw [awaiting_append]
      simp [awaiting, hawaits]
    dsimp only
    rw [hqueue, List.range_succ, ← List.append_assoc]
    exact h.accounted.append_right _
  stopping := by
    intro call hcall hshutdown
    rcases List.mem_append.mp hcall with hcall | hcall
    · exact h.stopping call hcall hshutdown
    · obtain rfl := List.mem_singleton.mp hcall
      obtain rfl : command = .shutdown := hshutdown
      cases hawaits
  ended := h.ended

theorem acceptShutdown (h : Reached start ch) (hrunning : ch.worker.running = true) :
    Reached start { ch with
      sent := ch.sent + 1
      queue := ch.queue ++ [⟨ch.sent, .shutdown⟩]
      accepted := ch.accepted ++ [⟨ch.sent, .shutdown⟩]
      answers := ch.answers ++ [(ch.sent, .stopped (.ok ()))] } where
  order := h.order_concat hrunning _
  idle hended := by simp [hrunning] at hended
  numbered := h.numbered_concat .shutdown
  given := by
    rw [List.filter_append, ← h.given]
    simp [Reply.isResult]
  accounted := by
    have hqueue : awaiting (ch.queue ++ [⟨ch.sent, .shutdown⟩]) = awaiting ch.queue := by
      rw [awaiting_append]
      exact List.append_nil _
    dsimp only
    rw [hqueue]
    exact h.accounted_concat _
  stopping := by
    intro call hcall hshutdown
    rcases List.mem_append.mp hcall with hcall | hcall
    · exact List.mem_append_left _ (h.stopping call hcall hshutdown)
    · obtain rfl := List.mem_singleton.mp hcall
      exact List.mem_append_right _ (List.mem_singleton.mpr rfl)
  ended := h.ended

theorem refuse (h : Reached start ch) (command : Command) :
    Reached start { ch with
      sent := ch.sent + 1
      answers := ch.answers ++ [(ch.sent, command.refused)] } where
  order := h.order
  idle := h.idle
  numbered := by
    rw [List.range_succ]
    exact h.numbered.trans (List.sublist_append_left _ _)
  given := by
    rw [List.filter_append, ← h.given]
    simp [Reply.isResult_eq_false command.isRefusal_refused]
  accounted := h.accounted_concat _
  stopping call hcall hshutdown := List.mem_append_left _ (h.stopping call hcall hshutdown)
  ended := h.ended

/-- The turn of a call extends what the archive gives by itself by the answer to the call. -/
theorem serve (h : Reached start ch) {call : Call} {queue : List Call}
    {fault : Option ArchiveError} {reply : Reply} (hrunning : ch.worker.running = true)
    (hqueue : ch.queue = call :: queue) (hawaits : call.command.awaits = true)
    (hreply : ((Turn.mk call fault).onArchive ch.worker.archive).1 = some reply) :
    Reached start { ch with
      worker := { archive := ((Turn.mk call fault).onArchive ch.worker.archive).2 }
      queue
      turns := ch.turns ++ [⟨call, fault⟩]
      answers := ch.answers ++ [(call.number, reply)] } where
  order := by
    obtain ⟨lost, hlost, hnone⟩ := h.order
    refine ⟨[], ?_, fun _ => rfl⟩
    rw [hlost, hnone hrunning, hqueue]
    simp
  idle hended := by cases hended
  numbered := h.numbered
  given := by
    have harchive : (inTurn start ch.turns).2 = ch.worker.archive := by rw [← h.given]
    rw [inTurn_concat, harchive, hreply, List.filter_append, ← h.given]
    simp [Turn.isResult_of_onArchive hreply]
  accounted := by
    have haccounted := h.accounted
    rw [hqueue] at haccounted
    simpa [awaiting, hawaits] using haccounted
  stopping other hother hshutdown :=
    List.mem_append_left _ (h.stopping other hother hshutdown)
  ended := by
    rintro ⟨turn, hturn, hshutdown⟩
    rcases List.mem_append.mp hturn with hturn | hturn
    · rw [h.ended ⟨turn, hturn, hshutdown⟩] at hrunning
      cases hrunning
    · obtain rfl := List.mem_singleton.mp hturn
      rw [hshutdown] at hawaits
      cases hawaits

/-- The turn of a shutdown gives nothing, and whoever waits behind it is lost and told so. -/
theorem close (h : Reached start ch) {number : Nat} {queue : List Call}
    {fault : Option ArchiveError} (hrunning : ch.worker.running = true)
    (hqueue : ch.queue = ⟨number, .shutdown⟩ :: queue) :
    Reached start { ch with
      worker := { ch.worker with running := false }
      queue := []
      turns := ch.turns ++ [⟨⟨number, .shutdown⟩, fault⟩]
      answers := ch.answers ++ refusals queue } where
  order := by
    obtain ⟨lost, hlost, hnone⟩ := h.order
    refine ⟨queue, ?_, fun hagain => by cases hagain⟩
    rw [hlost, hnone hrunning, hqueue]
    simp
  idle _ := rfl
  numbered := h.numbered
  given := by
    rw [inTurn_concat, List.filter_append, filter_refusals, List.append_nil, ← h.given]
    simp [Turn.onArchive]
  accounted := by
    have haccounted := h.accounted
    rw [hqueue] at haccounted
    rw [List.map_append, fst_refusals]
    simpa [awaiting, Command.awaits] using haccounted
  stopping call hcall hshutdown := List.mem_append_left _ (h.stopping call hcall hshutdown)
  ended _ := rfl

theorem step (h : Reached start ch) {s : Step} (hs : Stepped ch s next) : Reached start next := by
  cases hs with
  | accepted hrunning _ hawaits => exact h.accept hrunning hawaits
  | stopping hrunning _ => exact h.acceptShutdown hrunning
  | refused _ => exact h.refuse _
  | served hrunning hqueue hawaits hreply => exact h.serve hrunning hqueue hawaits hreply
  | ended hrunning hqueue => exact h.close hrunning hqueue

theorem run (h : Reached start ch) {steps : List Step} (hrun : ch.run? steps = some later) :
    Reached start later := by
  induction steps generalizing ch with
  | nil =>
      obtain rfl := Option.some.inj hrun
      exact h
  | cons s rest ih =>
      obtain ⟨next, hnext, hrest⟩ := Option.bind_eq_some_iff.mp hrun
      exact ih (h.step (stepped hnext)) hrest

theorem turns_prefix (h : Reached start ch) : ch.turns.map Turn.call <+: ch.accepted := by
  obtain ⟨lost, hlost, _⟩ := h.order
  rw [hlost, List.append_assoc]
  exact List.prefix_append _ _

theorem nodup_turns (h : Reached start ch) : (ch.turns.map (·.call.number)).Nodup := by
  have hnumbers : (ch.turns.map (·.call.number)).Sublist (List.range ch.sent) := by
    rw [show ch.turns.map (·.call.number) = (ch.turns.map Turn.call).map Call.number by simp]
    exact (h.turns_prefix.sublist.map _).trans h.numbered
  exact List.nodup_range.sublist hnumbers

theorem mem_inTurn_iff (h : Reached start ch) {answer : Nat × Reply} :
    answer ∈ (inTurn start ch.turns).1 ↔ answer ∈ ch.answers ∧ answer.2.isResult = true := by
  rw [← h.given, List.mem_filter]

/-- A write that was acknowledged has one turn, in which the archive took it. -/
theorem written (h : Reached start ch) {number : Nat}
    (hanswer : (number, .written (.ok ())) ∈ ch.answers) :
    ∃ before s after, ch.turns = before ++ ⟨⟨number, .write s⟩, none⟩ :: after ∧
      (inTurn start before).2.write s =
        (.ok (), (inTurn start (before ++ [⟨⟨number, .write s⟩, none⟩])).2) ∧
      ∀ turn ∈ before ++ after, turn.call.number ≠ number := by
  obtain ⟨before, turn, after, hturns, hnumber, hreply⟩ :=
    exists_turn_of_mem_inTurn (h.mem_inTurn_iff.mpr ⟨hanswer, rfl⟩)
  obtain ⟨s, hturn, hwritten⟩ := turn.write_of_onArchive hreply
  have hnodup := h.nodup_turns
  rw [hturns, List.map_append, List.map_cons, List.nodup_middle, ← List.map_append] at hnodup
  refine ⟨before, s, after, ?_, ?_, ?_⟩
  · rw [hturns, hturn, hnumber]
  · rw [inTurn_concat]
    exact Prod.ext hwritten rfl
  · intro other hother heq
    refine (List.nodup_cons.mp hnodup).1 ?_
    rw [hnumber, ← heq]
    exact List.mem_map_of_mem hother

end Reached

/-! ## After a shutdown -/

end Channel

end ServiceDirectory.Archive
