import ServiceDirectory.Proofs.Runs

/-!
# Documents that come again

A backend sends a document again when it heard nothing of the first one. Once a
document was taken in it is absorbed: the store holds its own snapshot for its
service, or one that it may not replace. Nothing but another document, a lookup or a
load of that service can change this, so each time the document comes again it is
told nobody and leaves the snapshot that it found.
-/

namespace ServiceDirectory

/-- What becomes of a service that comes again. -/
def Policy.verdictAgain (policy : Policy) (s : Service) : Verdict :=
  if policy.applyEmpty = false ∧ s.hosts = [] then .ignoredEmpty else .unchanged

namespace Directory

/-- A step that does not touch the entry of a key. -/
def Step.Avoids (key : ServiceKey) : Step → Prop
  | .ask _ => True
  | .place name clusters => ServiceKey.of name clusters ≠ key
  | .take a => ∀ s ∈ Service.parse? a.text, s.key ≠ key
  | .load _ => False

/-- A step that takes in a text. -/
def Step.Delivers (text : String) : Step → Prop
  | .take a => a.text = text
  | _ => False

/-- A step that takes in a text, or does not touch the entry of the text's service. -/
def Step.IsApartFrom (text : String) (s : Step) : Prop :=
  s.Delivers text ∨ ∀ t ∈ Service.parse? text, s.Avoids t.key

/-- The store holds for a service its own snapshot, or one that the service may not replace. -/
structure Absorbs (d : Directory) (s held : Service) : Prop where
  holds : d.store.get? s.key = some held
  settled : held = s ∨ d.policy.applyEmpty = false ∧ s.hosts = []

variable {d : Directory}

theorem get?_commit_of_avoids {s : Service} {key : ServiceKey} (h : s.key ≠ key) (clock : Millis) :
    (d.store.commit s.key s clock).get? key = d.store.get? key := by
  rw [Store.get?_commit, if_neg h]

/-- A step that does not touch an entry leaves the entry as it is. -/
theorem Step.Avoids.get?_step {s : Step} {key : ServiceKey} (h : s.Avoids key) :
    (d.step s).store.get? key = d.store.get? key := by
  cases s with
  | ask query => rfl
  | place name clusters =>
      rw [step, putPlaceholder_store, Store.get?_set]
      exact if_neg h
  | take a =>
      rw [step]
      generalize hr : d.receive a = result
      cases received hr with
      | rejected hs => rfl
      | ignored hs hold hpolicy hempty => rfl
      | unchanged hs hold hkeep hsame => exact get?_commit_of_avoids (h _ hs) _
      | changed hs hnews => exact get?_commit_of_avoids (h _ hs) _
  | load readings => cases h

/-- Whatever is made of a service document, it is absorbed. -/
theorem exists_absorbs_receive (d : Directory) {a : Arrival} {s : Service}
    (hs : Service.parse? a.text = some s) : ∃ held, (d.receive a).2.Absorbs s held := by
  have hcommitted : (d.store.commit s.key s a.conditions.clock).get? s.key = some s := by
    rw [Store.get?_commit, if_pos rfl]
  generalize hr : d.receive a = result
  cases received hr with
  | rejected hnone => cases hs.symm.trans hnone
  | @ignored t old ht hold hpolicy hempty =>
      obtain rfl : s = t := Option.some.inj (hs.symm.trans ht)
      exact ⟨old, hold, Or.inr ⟨hpolicy, hempty⟩⟩
  | @unchanged t old ht hold hkeep hsame =>
      obtain rfl : s = t := Option.some.inj (hs.symm.trans ht)
      exact ⟨s, hcommitted, Or.inl rfl⟩
  | @changed t ht hnews =>
      obtain rfl : s = t := Option.some.inj (hs.symm.trans ht)
      exact ⟨s, hcommitted, Or.inl rfl⟩

/-- What was no service document or ignored at first is so again. -/
theorem verdictAgain_of_dropped {a : Arrival} {s : Service} (hs : Service.parse? a.text = some s)
    {v : Verdict} (hv : v = .rejected ∨ v = .ignoredEmpty) (hfirst : (d.receive a).1 = v) :
    d.policy.verdictAgain s = v := by
  generalize hr : d.receive a = result at hfirst
  subst hfirst
  cases received hr with
  | rejected hnone => cases hs.symm.trans hnone
  | ignored ht hold hpolicy hempty =>
      obtain rfl := Option.some.inj (hs.symm.trans ht)
      exact if_pos ⟨hpolicy, hempty⟩
  | unchanged ht hold hkeep hsame => rcases hv with hv | hv <;> cases hv
  | changed ht hnews => rcases hv with hv | hv <;> cases hv

namespace Absorbs

variable {s held : Service} (h : d.Absorbs s held)
include h

/-- A document that was absorbed is no news. -/
theorem not_isNews : ¬ d.IsNews s := by
  intro hnews
  obtain ⟨hkeep, hother⟩ := hnews held h.holds
  rcases h.settled with rfl | ⟨hpolicy, hempty⟩
  · exact hother (List.Perm.refl _)
  · rcases hkeep with happly | hne
    · rw [hpolicy] at happly
      cases happly
    · exact hne hempty

/-- A document that was absorbed is told nobody when it comes again, and is absorbed again. -/
theorem receive {a : Arrival} (hs : Service.parse? a.text = some s) :
    (d.receive a).1 = d.policy.verdictAgain s ∧
      (d.receive a).2.events =
        d.events ++ [.judged a.text a.conditions.clock (d.policy.verdictAgain s)] ∧
      (d.receive a).2.Absorbs s held := by
  generalize hr : d.receive a = result
  cases received hr with
  | rejected hnone => cases hs.symm.trans hnone
  | @ignored t old ht hold hpolicy hempty =>
      obtain rfl : s = t := Option.some.inj (hs.symm.trans ht)
      rw [Policy.verdictAgain, if_pos ⟨hpolicy, hempty⟩]
      exact ⟨rfl, rfl, h.holds, h.settled⟩
  | @unchanged t old ht hold hkeep hsame =>
      obtain rfl : s = t := Option.some.inj (hs.symm.trans ht)
      have hnot : ¬ (d.policy.applyEmpty = false ∧ s.hosts = []) := by
        rintro ⟨hpolicy, hempty⟩
        rcases hkeep with happly | hne
        · rw [hpolicy] at happly
          cases happly
        · exact hne hempty
      rw [Policy.verdictAgain, if_neg hnot]
      obtain rfl : held = s := h.settled.resolve_right hnot
      refine ⟨rfl, rfl, ?_, Or.inl rfl⟩
      rw [refreshed_store, Store.get?_commit, if_pos rfl]
  | @changed t ht hnews =>
      obtain rfl : s = t := Option.some.inj (hs.symm.trans ht)
      exact absurd hnews h.not_isNews

theorem step {text : String} (hs : Service.parse? text = some s) {next : Step}
    (hnext : next.IsApartFrom text) : (d.step next).Absorbs s held := by
  rcases hnext with hdelivers | havoids
  · cases next with
    | ask query => cases hdelivers
    | place name clusters => cases hdelivers
    | take a => exact (h.receive (hdelivers ▸ hs)).2.2
    | load readings => cases hdelivers
  · constructor
    · rw [(havoids s hs).get?_step]
      exact h.holds
    · rw [step_policy]
      exact h.settled

theorem run {text : String} (hs : Service.parse? text = some s) {steps : List Step}
    (hsteps : ∀ next ∈ steps, next.IsApartFrom text) : (d.run steps).Absorbs s held := by
  induction steps generalizing d with
  | nil => exact h
  | cons next rest ih =>
      exact ih (h.step hs (hsteps next List.mem_cons_self))
        fun later hlater => hsteps later (List.mem_cons_of_mem _ hlater)

end Absorbs

/-- From whatever state: a document that was taken in and comes again, while everything else leaves
the entry of its service alone, is not found to be news, is written to disk and published no more,
and leaves the snapshot that the store held for its service after the first time. What was rejected
or ignored at first is so again; a document that was accepted is found unchanged, or is ignored if
it has no hosts and may not replace those of a known service. -/
theorem redelivery_harmless (d : Directory) (text : String) (first : Conditions)
    (delivered : Directory) (hdelivered : delivered = (d.receive ⟨text, first⟩).2)
    (history : List Operation) (happart : ∀ s ∈ delivered.trace history, s.IsApartFrom text)
    (before rest : List Step) (again : Conditions)
    (hagain : delivered.trace history = before ++ .take ⟨text, again⟩ :: rest)
    (found : Directory) (hfound : found = delivered.run before) (verdict : Verdict)
    (hverdict : verdict = (found.receive ⟨text, again⟩).1) (after : Directory)
    (hafter : after = (found.receive ⟨text, again⟩).2) :
    verdict ≠ .changed ∧ after.events = found.events ++ [.judged text again.clock verdict] ∧
      (∀ s, Service.parse? text = some s → ∃ held, delivered.store.get? s.key = some held ∧
        after.store.get? s.key = some held ∧ verdict = d.policy.verdictAgain s) ∧
      ∀ v, v = .rejected ∨ v = .ignoredEmpty → (d.receive ⟨text, first⟩).1 = v → verdict = v := by
  subst hverdict hafter
  cases hs : Service.parse? text with
  | none =>
      -- What is no service is rejected in any state, so the history does not matter.
      rw [receive_of_parse?_eq_none found (a := ⟨text, again⟩) hs,
        receive_of_parse?_eq_none d (a := ⟨text, first⟩) hs]
      refine ⟨by simp, rfl, fun s hs => ?_, fun v _ hv => hv⟩
      cases hs
  | some s =>
      obtain ⟨held, habsorbs⟩ := exists_absorbs_receive d (a := ⟨text, first⟩) hs
      rw [← hdelivered] at habsorbs
      have hbefore : ∀ next ∈ before, next.IsApartFrom text := fun next hnext =>
        happart next (hagain ▸ List.mem_append_left _ hnext)
      have hpolicy : found.policy = d.policy := by
        rw [hfound, run_policy, hdelivered, receive_policy]
      obtain ⟨hverdict, hevents, hlater⟩ :=
        Absorbs.receive (a := ⟨text, again⟩) (hfound ▸ habsorbs.run hs hbefore) hs
      rw [hevents, hverdict, hpolicy]
      refine ⟨?_, rfl, ?_, ?_⟩
      · rw [Policy.verdictAgain]
        split <;> decide
      · rintro t ht
        obtain rfl := Option.some.inj ht
        exact ⟨held, habsorbs.holds, hlater.holds, rfl⟩
      · intro v hv hfirst
        exact verdictAgain_of_dropped hs hv hfirst

/-- A document with a host twice, whose weight is the negative zero. -/
def twinHosts : String :=
  "[\"a\",\"\",\"x\",1000,[[\"\",\"10.0.0.1\",80,-0.0],[\"\",\"10.0.0.1\",80,-0.0]]]"

/-- A state that no run comes to: the snapshot is another service's. -/
def misfiled : Directory :=
  { store := ({} : Store).set (ServiceKey.of "a" "x") (Service.placeholder "b" "") }

/-- The state after the document came for the first time. -/
def twinsTaken : Directory :=
  (misfiled.receive ⟨twinHosts, { clock := 2 }⟩).2

/-- The document comes again while another service is refreshed, whose reply meets a failing disk
and a failing sink, and once more after that. -/
def resentHistory : List Operation :=
  [.refresh (fun _ =>
      { meanwhile := [⟨twinHosts, { clock := 3 }⟩], reply := some "[\"b\"]",
        conditions := fun _ => { clock := 4, writeFails := true, sinkFails := true } }) "b" "",
    .receive ⟨twinHosts, { clock := 5 }⟩]

/-- What happens before the last of the deliveries. -/
def beforeResent : List Step :=
  [.ask (twinsTaken.singleQuery "b" ""), .take ⟨twinHosts, { clock := 3 }⟩,
    .take ⟨"[\"b\"]", { clock := 4, writeFails := true, sinkFails := true }⟩]

theorem twinHosts_redelivery_harmless :
    twinsTaken.trace resentHistory = beforeResent ++ [.take ⟨twinHosts, { clock := 5 }⟩] ∧
      (∀ s ∈ twinsTaken.trace resentHistory, s.IsApartFrom twinHosts) ∧
      (misfiled.receive ⟨twinHosts, { clock := 2 }⟩).1 = .changed ∧
      ((twinsTaken.run beforeResent).receive ⟨twinHosts, { clock := 5 }⟩).1 ≠ .changed := by
  have hsteps : twinsTaken.trace resentHistory =
      beforeResent ++ [.take ⟨twinHosts, { clock := 5 }⟩] := rfl
  have happart : ∀ s ∈ twinsTaken.trace resentHistory, s.IsApartFrom twinHosts := by
    have hother : ∀ t ∈ Service.parse? twinHosts, ∀ s ∈ Service.parse? "[\"b\"]",
        s.key ≠ t.key := by
      decide +kernel
    rw [hsteps, beforeResent]
    intro s hs
    simp only [List.cons_append, List.nil_append, List.mem_cons, List.not_mem_nil, or_false] at hs
    rcases hs with rfl | rfl | rfl | rfl
    · exact Or.inr fun _ _ => trivial
    · exact Or.inl rfl
    · exact Or.inr hother
    · exact Or.inl rfl
  obtain ⟨hverdict, _⟩ := redelivery_harmless misfiled twinHosts { clock := 2 } twinsTaken rfl
    resentHistory happart beforeResent [] { clock := 5 } hsteps _ rfl _ rfl _ rfl
  exact ⟨hsteps, happart, by decide +kernel, hverdict⟩

end Directory

end ServiceDirectory
