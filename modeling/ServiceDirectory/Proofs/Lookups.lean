import ServiceDirectory.Proofs.Outage
import ServiceDirectory.Proofs.Queries

/-!
# What a lookup gives

A service that is known is looked up in the store, and nothing else happens. One that is
not known gets a placeholder before the backend is asked, so the documents that come
meanwhile and the reply are judged against the placeholder. Whatever they are, the
lookup gives what the store then holds under the key: the last document that was taken
over for it, or the placeholder.
-/

namespace ServiceDirectory

/-- The documents of a single query, whatever they are: those that come while it is under way, then
the reply, unless the query failed. -/
def Answer.arrivals (answer : Answer) : List Arrival :=
  answer.meanwhile ++ (answer.reply.map fun text => ⟨text, answer.conditions 0⟩).toList

/-- A blank reply is the one that is left out. -/
theorem Answer.single_eq_filter (answer : Answer) :
    answer.single =
      ((answer.reply.map fun text => (⟨text, answer.conditions 0⟩ : Arrival)).toList.filter
        (!Text.allBlank ·.text)) := by
  rw [Answer.single]
  cases answer.reply with
  | none => rfl
  | some text => cases h : Text.allBlank text <;> simp [Option.filter, h]

theorem Store.get?_commit_eq_or (store : Store) (s : Service) (clock : Millis)
    (key : ServiceKey) :
    (store.commit s.key s clock).get? key =
      (if s.key = key then some s else none).or (store.get? key) := by
  rw [get?_commit]
  split <;> rfl

namespace Directory

/-- The service that a document brings for a key, with other hosts or with the same ones. -/
def takenFor (key : ServiceKey) (judgement : Arrival × Verdict) : Option Service :=
  match judgement.2 with
  | .changed | .unchanged => (Service.parse? judgement.1.text).filter (·.key = key)
  | .rejected | .ignoredEmpty => none

/-- The services that are taken over for a key while documents are taken in. -/
def takenOver (d : Directory) (key : ServiceKey) (arrivals : List Arrival) : List Service :=
  (d.judgements (arrivals.map .take)).filterMap (takenFor key)

variable {d : Directory}

theorem takenFor_of_parse? {a : Arrival} {s : Service} (hs : Service.parse? a.text = some s)
    {verdict : Verdict} (hverdict : verdict = .changed ∨ verdict = .unchanged)
    (key : ServiceKey) : takenFor key (a, verdict) = if s.key = key then some s else none := by
  rcases hverdict with rfl | rfl <;> by_cases hkey : s.key = key <;>
    simp [takenFor, hs, hkey]

/-- What is found under a key after a document is what the document brought for it, and else what
was there. -/
theorem get?_receive (d : Directory) (a : Arrival) (key : ServiceKey) :
    (d.receive a).2.store.get? key =
      (takenFor key (a, (d.receive a).1)).or (d.store.get? key) := by
  generalize hr : d.receive a = result
  cases received hr with
  | rejected hs => rfl
  | ignored hs hold hpolicy hempty => rfl
  | unchanged hs hold hkeep hsame =>
      rw [takenFor_of_parse? hs (Or.inr rfl)]
      exact Store.get?_commit_eq_or d.store _ a.conditions.clock key
  | changed hs hnews =>
      rw [takenFor_of_parse? hs (Or.inl rfl)]
      exact Store.get?_commit_eq_or d.store _ a.conditions.clock key

/-- The last service that is taken over for a key is the one that is found. -/
theorem get?_receiveAll (d : Directory) (arrivals : List Arrival) (key : ServiceKey) :
    (d.receiveAll arrivals).store.get? key =
      (d.takenOver key arrivals).getLast?.or (d.store.get? key) := by
  rw [← run_take]
  apply last_brought fun e => e.store.get? key
  intro e s hs
  obtain ⟨a, _, rfl⟩ := List.mem_map.mp hs
  exact get?_receive e a key

/-- But for the question, a refresh does what its documents do, also if its reply is blank. -/
theorem sameEffects_refresh (d : Directory) (backend : Backend) (name clusters : String) :
    (d.receiveAll (backend (d.singleQuery name clusters)).arrivals).SameEffects
      (d.refresh backend name clusters) := by
  have hasked : d.SameEffects (d.record (.asked (d.singleQuery name clusters))) :=
    (SameEffects.refl d).record_right rfl
  rw [refresh, settleSingle_eq, Answer.arrivals, receiveAll_append, receiveAll_append,
    Answer.single_eq_filter]
  apply (hasked.receiveAll _).receiveAll_filter
  intro a _ hblank
  exact Service.parse?_of_allBlank (by simpa using hblank)

/-- What a lookup comes to that puts a placeholder first and then asks. -/
structure Fetched (d placed : Directory) (answer : Answer) (name clusters : String)
    (found : Service) (after : Directory) : Prop where
  /-- The placeholder stands under the key, and all other snapshots are as they were. -/
  placeholder : ∀ key, placed.store.get? key =
    if ServiceKey.of name clusters = key then some (Service.placeholder name clusters)
    else d.store.get? key
  stamps : placed.store.stamps = d.store.stamps
  events : placed.events = d.events
  /-- What the query brings is judged with the placeholder in its place. -/
  steps : after = placed.run
    (querySteps (.single name clusters d.policy.pushPort false) answer answer.single)
  /-- There is one question, with name and clusters as they were given. -/
  asked : after.queries = d.queries ++ [.single name clusters d.policy.pushPort false]
  /-- Store, stamps, writes and calls of the sink are those of the documents. -/
  effects : (placed.receiveAll answer.arrivals).SameEffects after
  found : found = (placed.takenOver (ServiceKey.of name clusters) answer.arrivals).getLast?.getD
    (Service.placeholder name clusters)

theorem lookup_of_get?_eq_none (backend : Backend) {name clusters : String}
    (hmiss : d.store.get? (ServiceKey.of name clusters) = none) :
    d.lookup backend name clusters =
      let after := (d.putPlaceholder name clusters).refresh backend name clusters
      ((after.store.get? (ServiceKey.of name clusters)).getD (Service.placeholder name clusters),
        after) := by
  simp only [lookup, hmiss]

/-- What stands under the key of a placeholder after the refresh of its service. -/
theorem get?_refresh_putPlaceholder (d : Directory) (backend : Backend) (name clusters : String) :
    let placed := d.putPlaceholder name clusters
    (placed.refresh backend name clusters).store.get? (ServiceKey.of name clusters) =
      some ((placed.takenOver (ServiceKey.of name clusters)
        (backend (placed.singleQuery name clusters)).arrivals).getLast?.getD
          (Service.placeholder name clusters)) := by
  intro placed
  have heffects := placed.sameEffects_refresh backend name clusters
  rw [← heffects.store, get?_receiveAll, putPlaceholder_store, Store.get?_set, if_pos rfl,
    Option.or_some]

theorem fetched (d : Directory) (backend : Backend) (name clusters : String)
    (hmiss : d.store.get? (ServiceKey.of name clusters) = none) :
    d.Fetched (d.putPlaceholder name clusters)
      (backend (.single name clusters d.policy.pushPort false)) name clusters
      (d.lookup backend name clusters).1 (d.lookup backend name clusters).2 := by
  rw [lookup_of_get?_eq_none backend hmiss]
  constructor
  case placeholder =>
    intro key
    exact Store.get?_set ..
  case stamps => rfl
  case events => rfl
  case steps =>
    rw [← run_refreshSteps]
    rfl
  case asked => exact queries_refresh ..
  case effects => exact sameEffects_refresh ..
  case found =>
    dsimp only
    rw [get?_refresh_putPlaceholder]
    rfl

/-- The lookup of a service that is known gives its snapshot and does nothing. Any other puts an
unstamped placeholder in the store, asks once, and then does what the documents of the query do to a
store with the placeholder. In either case the service has a snapshot afterwards, which is the one
that is given: after a question, the last that was taken over for the key, or the placeholder. -/
theorem lookup_answers (d : Directory) (backend : Backend) (name clusters : String) :
    let result := d.lookup backend name clusters
    (∀ s, d.store.get? (ServiceKey.of name clusters) = some s → result = (s, d)) ∧
      (d.store.get? (ServiceKey.of name clusters) = none →
        d.Fetched (d.putPlaceholder name clusters)
          (backend (.single name clusters d.policy.pushPort false)) name clusters
          result.1 result.2) ∧
      result.2.store.get? (ServiceKey.of name clusters) = some result.1 := by
  intro result
  refine ⟨fun s hs => lookup_of_get? hs backend, d.fetched backend name clusters, ?_⟩
  cases hs : d.store.get? (ServiceKey.of name clusters) with
  | some s =>
      have hresult : result = (s, d) := lookup_of_get? hs backend
      rw [hresult]
      exact hs
  | none =>
      have hresult : result = _ := lookup_of_get?_eq_none backend hs
      rw [hresult]
      dsimp only
      rw [get?_refresh_putPlaceholder, Option.getD_some]

/-- While it is asked, documents come: one without hosts, one with a host that disk and sink fail
to take, and one of another service. The reply is blank. -/
def hurried : Backend := fun _ =>
  { meanwhile := [⟨"[\"a\",\"\",\" y,, \"]", { clock := 1 }⟩,
      ⟨"[\"a\",\"\",\"y\",1000,[[\"\",\"10.0.0.1\",80]]]",
        { clock := 2, writeFails := true, sinkFails := true }⟩,
      ⟨"[\"b\"]", { clock := 3 }⟩],
    reply := some "\t ",
    conditions := fun _ => { clock := 4 } }

/-- The same service is looked up twice, with its clusters spelled in two ways. -/
theorem hurried_looked_up :
    ∃ found after, ({} : Directory).lookup hurried "a" "y,," = (found, after) ∧
      found.hosts.map (·.ip) = ["10.0.0.1"] ∧
      after.queries = [.single "a" "y,," 0 false] ∧
      after.lookup hurried "a" " y" = (found, after) := by
  have hmiss : ({} : Directory).store.get? (ServiceKey.of "a" "y,,") = none := by decide
  have hlast : (((({} : Directory).putPlaceholder "a" "y,,").takenOver (ServiceKey.of "a" "y,,")
      (hurried (.single "a" "y,," 0 false)).arrivals).getLast?.getD
        (Service.placeholder "a" "y,,")).hosts.map (·.ip) = ["10.0.0.1"] := by
    decide +kernel
  have hkey : ServiceKey.of "a" " y" = ServiceKey.of "a" "y,," := by decide +kernel
  obtain ⟨_, hfetched, hstored⟩ := lookup_answers {} hurried "a" "y,,"
  have hfetched := hfetched hmiss
  generalize ({} : Directory).lookup hurried "a" "y,," = result at hfetched hstored ⊢
  obtain ⟨found, after⟩ := result
  refine ⟨found, after, rfl, ?_, hfetched.asked, ?_⟩
  · rw [← hlast, ← hfetched.found]
  · apply (lookup_answers after hurried "a" " y").1
    rw [hkey]
    exact hstored

end Directory

end ServiceDirectory
