import ServiceDirectory.Proofs.KeptHosts

/-!
# What stamps say

A stamp is the time of the last document that was accepted for its key, and there
is none as long as no document was. Snapshots and stamps are kept apart, yet a key
with a stamp always has a snapshot, and no key ever goes away.
-/

namespace ServiceDirectory

/-- The store as it was seen when a snapshot was written or published. -/
def Event.seen? : Event → Option Store
  | .wrote _ _ seen | .published _ _ seen => some seen
  | _ => none

namespace Directory

/-- The document that a step takes in, with what becomes of it. -/
def judgement? (d : Directory) : Step → Option (Arrival × Verdict)
  | .take a => some (a, (d.receive a).1)
  | _ => none

/-- The documents that a run takes in, each with what becomes of it. -/
def judgements (d : Directory) : List Step → List (Arrival × Verdict)
  | [] => []
  | s :: rest => (d.judgement? s).toList ++ (d.step s).judgements rest

/-- The time of a document that is accepted for a key, with other hosts or with the same ones. -/
def acceptedFor (key : ServiceKey) (judgement : Arrival × Verdict) : Option Millis :=
  match judgement.2 with
  | .changed | .unchanged =>
    ((Service.parse? judgement.1.text).filter (·.key = key)).map fun _ =>
      judgement.1.conditions.clock
  | .rejected | .ignoredEmpty => none

/-- The times of the documents that a run accepts for a key. -/
def accepted (d : Directory) (key : ServiceKey) (steps : List Step) : List Millis :=
  (d.judgements steps).filterMap (acceptedFor key)

variable {d : Directory}

theorem acceptedFor_of_parse? {a : Arrival} {s : Service} (hs : Service.parse? a.text = some s)
    {verdict : Verdict} (hverdict : verdict = .changed ∨ verdict = .unchanged)
    (key : ServiceKey) :
    acceptedFor key (a, verdict) = if s.key = key then some a.conditions.clock else none := by
  rcases hverdict with rfl | rfl <;> by_cases hkey : s.key = key <;>
    simp [acceptedFor, hs, hkey]

theorem stamps_commit (store : Store) (s : Service) (clock : Millis) (key : ServiceKey) :
    (store.commit s.key s clock).stamps.get? key =
      (if s.key = key then some clock else none).or (store.stamps.get? key) := by
  change (store.stamps.insert s.key clock).get? key = _
  rw [KeyMap.get?_insert]
  split <;> rfl

/-- A document leaves its time as the stamp of its key if it is accepted, and else nothing. -/
theorem stamps_receive (d : Directory) (a : Arrival) (key : ServiceKey) :
    (d.receive a).2.store.stamps.get? key =
      (acceptedFor key (a, (d.receive a).1)).or (d.store.stamps.get? key) := by
  generalize hr : d.receive a = result
  cases received hr with
  | rejected hs => rfl
  | ignored hs hold hpolicy hempty => rfl
  | unchanged hs hold hkeep hsame =>
      rw [acceptedFor_of_parse? hs (Or.inr rfl)]
      exact stamps_commit d.store _ a.conditions.clock key
  | changed hs hnews =>
      rw [acceptedFor_of_parse? hs (Or.inl rfl)]
      exact stamps_commit d.store _ a.conditions.clock key

theorem stamps_step (d : Directory) (s : Step) (key : ServiceKey) :
    (d.step s).store.stamps.get? key =
      ((d.judgement? s).bind (acceptedFor key)).or (d.store.stamps.get? key) := by
  cases s with
  | ask query => rfl
  | place name clusters => rfl
  | take a => exact stamps_receive d a key
  | load readings =>
      cases readings with
      | none => rfl
      | some map =>
          rw [step, load, foldl_set]
          rfl

/-- What a step only replaces by what its document brings is, after a run, what the last of the
documents brought. -/
theorem last_brought {α : Type} (held : Directory → Option α)
    {brought : Arrival × Verdict → Option α} {steps : List Step}
    (hstep : ∀ e : Directory, ∀ s ∈ steps,
      held (e.step s) = ((e.judgement? s).bind brought).or (held e)) (d : Directory) :
    held (d.run steps) = ((d.judgements steps).filterMap brought).getLast?.or (held d) := by
  induction steps generalizing d with
  | nil => rfl
  | cons s rest ih =>
      have hfirst : ((d.judgement? s).toList.filterMap brought).getLast? =
          (d.judgement? s).bind brought := by
        cases hj : d.judgement? s with
        | none => rfl
        | some judgement => cases h : brought judgement <;> simp [h]
      rw [run_cons, ih fun e t ht => hstep e t (List.mem_cons_of_mem _ ht),
        hstep d s List.mem_cons_self, judgements, List.filterMap_append, List.getLast?_append,
        hfirst, Option.or_assoc]

/-- The stamp of a key after a run is the last time that the run accepted a document for it. -/
theorem stamps_run (d : Directory) (steps : List Step) (key : ServiceKey) :
    (d.run steps).store.stamps.get? key =
      (d.accepted key steps).getLast?.or (d.store.stamps.get? key) :=
  last_brought (fun e => e.store.stamps.get? key) (fun e s _ => stamps_step e s key) d

/-! ## Keys stay -/

theorem contains_receive (a : Arrival) {key : ServiceKey} (h : d.store.contains key = true) :
    (d.receive a).2.store.contains key = true := by
  generalize hr : d.receive a = result
  cases received hr with
  | rejected hs => exact h
  | ignored hs hold hpolicy hempty => exact h
  | unchanged hs hold hkeep hsame => exact Store.contains_commit d.store _ _ h
  | changed hs hnews => exact Store.contains_commit d.store _ _ h

theorem contains_load (readings : Option (KeyMap ServiceKey Service)) {key : ServiceKey}
    (h : d.store.contains key = true) : (d.load readings).store.contains key = true := by
  cases readings with
  | none => exact h
  | some map =>
      rw [load, foldl_set, Store.contains_eq, Store.get?,
        KeyMap.get?_foldl_insert map.distinct_entries, Option.isSome_or]
      rw [Store.contains_eq, Store.get?] at h
      rw [h, Bool.or_true]

theorem contains_step (s : Step) {key : ServiceKey} (h : d.store.contains key = true) :
    (d.step s).store.contains key = true := by
  cases s with
  | ask query => exact h
  | place name clusters =>
      rw [step, putPlaceholder_store, Store.contains_eq, Store.get?_set]
      split
      · rfl
      · exact h
  | take a => exact contains_receive a h
  | load readings => exact contains_load readings h

theorem contains_run (steps : List Step) {key : ServiceKey} (h : d.store.contains key = true) :
    (d.run steps).store.contains key = true := by
  induction steps generalizing d with
  | nil => exact h
  | cons s rest ih => exact ih (contains_step s h)

/-! ## Stamps have snapshots -/

/-- Whatever has a stamp has a snapshot. -/
def StampsHeld (store : Store) : Prop :=
  ∀ key time, store.stamps.get? key = some time → store.contains key = true

theorem stampsHeld_receive (h : StampsHeld d.store) (a : Arrival) :
    StampsHeld (d.receive a).2.store := by
  have hcommit : ∀ s : Service, StampsHeld (d.store.commit s.key s a.conditions.clock) := by
    intro s key time htime
    rw [Store.contains_eq, Store.get?_commit]
    rw [stamps_commit] at htime
    split
    · rfl
    · rename_i hkey
      rw [if_neg hkey, Option.none_or] at htime
      exact h key time htime
  generalize hr : d.receive a = result
  cases received hr with
  | rejected hs => exact h
  | ignored hs hold hpolicy hempty => exact h
  | unchanged hs hold hkeep hsame => exact hcommit _
  | changed hs hnews => exact hcommit _

theorem stampsHeld_step (h : StampsHeld d.store) (s : Step) : StampsHeld (d.step s).store := by
  cases s with
  | take a => exact stampsHeld_receive h a
  | ask query => exact h
  | place name clusters =>
      intro key time htime
      exact contains_step (.place name clusters) (h key time htime)
  | load readings =>
      intro key time htime
      rw [stamps_step] at htime
      exact contains_step (.load readings) (h key time htime)

theorem stampsHeld_run (h : StampsHeld d.store) (steps : List Step) :
    StampsHeld (d.run steps).store := by
  induction steps generalizing d with
  | nil => exact h
  | cons s rest ih => exact ih (stampsHeld_step h s)

/-! ## In the middle of a document -/

/-- While a document is taken in, disk and sink find the store as it is afterwards. -/
theorem seen_of_recorded {s : Step} {event : Event} (he : event ∈ d.recorded [s]) {seen : Store}
    (hseen : event.seen? = some seen) : seen = (d.step s).store := by
  rcases announces d s with hnone | ⟨a, t, hstep, _⟩
  · have hquiet := hnone event he
    cases event with
    | judged text clock verdict => cases hseen
    | asked query => cases hseen
    | wrote t succeeded store => cases hquiet
    | published t sinkFailed store => cases hquiet
  · rw [recorded_of_announced hstep] at he
    rw [hstep]
    simp only [List.mem_cons, List.not_mem_nil, or_false] at he
    rcases he with rfl | rfl | rfl
    · cases hseen
    · exact (Option.some.inj hseen).symm
    · exact (Option.some.inj hseen).symm

theorem recorded_cons (d : Directory) (s : Step) (rest : List Step) :
    d.recorded (s :: rest) = d.recorded [s] ++ (d.step s).recorded rest := by
  have hstep : (d.step s).events = d.events ++ d.recorded [s] := events_run d [s]
  apply recorded_eq
  rw [run_cons, events_run, hstep, List.append_assoc]

/-- Disk and sink never find a store that is not one of those between the steps of the run. -/
theorem exists_isPrefix_of_seen {steps : List Step} {event : Event}
    (he : event ∈ d.recorded steps) {seen : Store} (hseen : event.seen? = some seen) :
    ∃ earlier, earlier <+: steps ∧ seen = (d.run earlier).store := by
  induction steps generalizing d with
  | nil => simp [recorded] at he
  | cons s rest ih =>
      rw [recorded_cons] at he
      rcases List.mem_append.mp he with he | he
      · exact ⟨[s], List.prefix_append [s] rest, seen_of_recorded he hseen⟩
      · obtain ⟨earlier, hp, hstore⟩ := ih he
        exact ⟨s :: earlier, List.cons_prefix_cons.mpr ⟨rfl, hp⟩, hstore⟩

/-- In every state of a run: the stamp of a key is the time of the last document that was accepted
for it, and there is none, or zero for the last refresh, if there was no such document; a key with
a stamp has a snapshot; and a key that has a snapshot has one in every later state. What disk and
sink find while a document is taken in are such states too. -/
theorem stamps_are_last_accepted (policy : Policy) (loadFromDisk : Bool)
    (readings : Option (KeyMap ServiceKey Service)) (opened : Directory)
    (hopened : opened = start policy loadFromDisk readings) (history : List Operation)
    (steps : List Step) (hp : steps <+: opened.trace history) :
    (∀ key,
        (opened.run steps).store.stamps.get? key = (opened.accepted key steps).getLast? ∧
        (opened.run steps).store.lastRefresh key =
          ((opened.accepted key steps).getLast?).getD 0) ∧
      (∀ key time, (opened.run steps).store.stamps.get? key = some time →
        (opened.run steps).store.contains key = true) ∧
      (∀ later, steps ++ later <+: opened.trace history → ∀ key,
        (opened.run steps).store.contains key = true →
          (opened.run (steps ++ later)).store.contains key = true) ∧
      ∀ event ∈ (opened.run steps).events, ∀ seen, event.seen? = some seen →
        ∃ earlier, earlier <+: steps ∧ seen = (opened.run earlier).store := by
  subst hopened
  have hnone : ∀ key, (start policy loadFromDisk readings).store.stamps.get? key = none := by
    intro key
    rw [start_stamps]
    rfl
  have hstamp : ∀ key, ((start policy loadFromDisk readings).run steps).store.stamps.get? key =
      ((start policy loadFromDisk readings).accepted key steps).getLast? := by
    intro key
    rw [stamps_run, hnone, Option.or_none]
  refine ⟨?_, ?_, ?_, ?_⟩
  · intro key
    exact ⟨hstamp key, by rw [Store.lastRefresh, hstamp]⟩
  · apply stampsHeld_run
    intro key time htime
    rw [hnone] at htime
    cases htime
  · intro later _ key hkey
    rw [run_append]
    exact contains_run later hkey
  · intro event he seen hseen
    rw [events_run, start_events, List.nil_append] at he
    exact exists_isPrefix_of_seen he hseen

/-- A lookup of a service that is not known, during whose query a document for it arrives that
meets a failing disk and a failing sink. Its reply is one without hosts, and a batch lookup then
puts a placeholder in place of the snapshot. -/
def overwrittenHistory : List Operation :=
  [.lookup (fun _ =>
      { meanwhile := [⟨"[\"a\",\"\",\"\",1000,[[\"\",\"10.0.0.1\",80]]]",
          { clock := 7, writeFails := true, sinkFails := true }⟩],
        reply := some "[\"a\"]",
        conditions := fun _ => { clock := 8 } }) "a" "",
    .lookupAll (fun _ => { reply := none, conditions := fun _ => { clock := 9 } }) ["a"]
      KeyMap.empty true]

theorem overwrittenHistory_stamps :
    let steps := ({} : Directory).trace overwrittenHistory
    steps <+: (start {} false none).trace overwrittenHistory ∧
      (∀ key, (({} : Directory).run steps).store.lastRefresh key =
        ((({} : Directory).accepted key steps).getLast?).getD 0) ∧
      (({} : Directory).run steps).store.lastRefresh (ServiceKey.of "a" "") = 7 := by
  intro steps
  have hp : steps <+: (start {} false none).trace overwrittenHistory := List.prefix_rfl
  have hstamps := stamps_are_last_accepted {} false none _ rfl overwrittenHistory steps hp
  exact ⟨hp, fun key => (hstamps.1 key).2, by decide +kernel⟩

end Directory

end ServiceDirectory
