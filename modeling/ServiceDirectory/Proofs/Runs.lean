import ServiceDirectory.Proofs.Receiving

/-!
# Runs step by step

Every operation is a list of steps, and between two steps no document is halfway
taken in. The steps of a history are its trace, and the states of a run are those
after the beginnings of the trace: also the ones during an operation, while its
query is under way.
-/

namespace ServiceDirectory

/-- The document of a single reply, unless the query failed or the reply is blank. -/
def Answer.single (answer : Answer) : List Arrival :=
  match answer.reply.filter (!Text.allBlank ·) with
  | some text => [⟨text, answer.conditions 0⟩]
  | none => []

/-- The documents of a batched reply; none if the query failed or the reply is malformed. -/
def Answer.batch (answer : Answer) : List Arrival :=
  match (answer.reply.filter (!Text.allBlank ·)).bind parseBatch? with
  | some documents => Directory.batchArrivals answer documents
  | none => []

/-- The snapshot that an event writes to disk or hands to the sink. -/
def Event.announced? : Event → Option Service
  | .wrote s _ _ | .published s _ _ => some s
  | _ => none

namespace Directory

/-- What happens to a directory without anything coming in between. -/
inductive Step where
  | ask (query : Query)
  /-- Put a placeholder in the store, in place of whatever is there. -/
  | place (name clusters : String)
  | take (arrival : Arrival)
  | load (readings : Option (KeyMap ServiceKey Service))

def step (d : Directory) : Step → Directory
  | .ask query => d.record (.asked query)
  | .place name clusters => d.putPlaceholder name clusters
  | .take arrival => (d.receive arrival).2
  | .load readings => d.load readings

def run (d : Directory) (steps : List Step) : Directory := steps.foldl step d

@[simp] theorem run_nil (d : Directory) : d.run [] = d := rfl

@[simp] theorem run_cons (d : Directory) (s : Step) (steps : List Step) :
    d.run (s :: steps) = (d.step s).run steps := rfl

theorem run_append (d : Directory) (first rest : List Step) :
    d.run (first ++ rest) = (d.run first).run rest := List.foldl_append

@[simp] theorem run_take (d : Directory) (arrivals : List Arrival) :
    d.run (arrivals.map .take) = d.receiveAll arrivals := by
  rw [run, List.foldl_map]
  rfl

@[simp] theorem step_policy (d : Directory) (s : Step) : (d.step s).policy = d.policy := by
  cases s <;> simp [step]

@[simp] theorem run_policy (d : Directory) (steps : List Step) :
    (d.run steps).policy = d.policy := by
  induction steps generalizing d with
  | nil => rfl
  | cons s steps ih => simp [ih]

theorem receiveAll_append (d : Directory) (first rest : List Arrival) :
    d.receiveAll (first ++ rest) = (d.receiveAll first).receiveAll rest := List.foldl_append

/-! ## What is recorded -/

/-- The events that steps add to those already recorded. -/
def recorded (d : Directory) (steps : List Step) : List Event :=
  (d.run steps).events.drop d.events.length

theorem events_isPrefix_receive (d : Directory) (a : Arrival) :
    d.events <+: (d.receive a).2.events := by
  generalize h : d.receive a = result
  cases received h <;> simp

theorem events_isPrefix_step (d : Directory) (s : Step) : d.events <+: (d.step s).events := by
  cases s with
  | ask query => exact List.prefix_append _ _
  | place name clusters => exact List.prefix_rfl
  | take arrival => exact events_isPrefix_receive d arrival
  | load readings => simp [step]

theorem events_isPrefix_run (d : Directory) (steps : List Step) :
    d.events <+: (d.run steps).events := by
  induction steps generalizing d with
  | nil => exact List.prefix_rfl
  | cons s steps ih => exact (events_isPrefix_step d s).trans (ih _)

theorem events_run (d : Directory) (steps : List Step) :
    (d.run steps).events = d.events ++ d.recorded steps := by
  obtain ⟨more, hmore⟩ := events_isPrefix_run d steps
  rw [recorded, ← hmore, List.drop_left]

theorem recorded_eq {d : Directory} {steps : List Step} {more : List Event}
    (h : (d.run steps).events = d.events ++ more) : d.recorded steps = more := by
  rw [recorded, h, List.drop_left]

/-! ## Queries -/

theorem settleSingle_eq (d : Directory) (answer : Answer) :
    d.settleSingle answer = d.receiveAll (answer.meanwhile ++ answer.single) := by
  rw [receiveAll_append, settleSingle, await, Answer.single]
  cases answer.reply.filter (!Text.allBlank ·) <;> rfl

theorem settleBatch_eq (d : Directory) (answer : Answer) :
    d.settleBatch answer = d.receiveAll (answer.meanwhile ++ answer.batch) := by
  rw [receiveAll_append, settleBatch, await, Answer.batch]
  cases answer.reply.filter (!Text.allBlank ·) with
  | none => rfl
  | some text =>
      cases hparse : parseBatch? text <;> simp [hparse, receiveAll]

/-- Asking, and taking in first what arrives meanwhile and then the documents of the reply. -/
def querySteps (query : Query) (answer : Answer) (documents : List Arrival) : List Step :=
  .ask query :: (answer.meanwhile ++ documents).map .take

def refreshSteps (d : Directory) (backend : Backend) (name clusters : String) : List Step :=
  let query := d.singleQuery name clusters
  querySteps query (backend query) (backend query).single

def refreshAllSteps (d : Directory) (backend : Backend) (names : List String)
    (clusters : KeyMap String String) (findBack : Bool) : List Step :=
  let query := d.batchQuery names clusters findBack
  querySteps query (backend query) (backend query).batch

theorem run_refreshSteps (d : Directory) (backend : Backend) (name clusters : String) :
    d.run (d.refreshSteps backend name clusters) = d.refresh backend name clusters := by
  simp only [refreshSteps, querySteps, run_cons, run_take, step, refresh, settleSingle_eq]

theorem run_refreshAllSteps (d : Directory) (backend : Backend) (names : List String)
    (clusters : KeyMap String String) (findBack : Bool) :
    d.run (d.refreshAllSteps backend names clusters findBack) =
      d.refreshAll backend names clusters findBack := by
  simp only [refreshAllSteps, querySteps, run_cons, run_take, step, refreshAll, settleBatch_eq]

/-! ## Batch lookups -/

/-- The names, of those asked for, that a batch lookup answers from the store. -/
def answered (d : Directory) (clusters : KeyMap String String) (findBack : Bool)
    (names : List String) : List String :=
  let known := names.filter fun name =>
    d.store.contains (ServiceKey.of name (clustersFor clusters name))
  if findBack then known.take 1 else known

/-- A placeholder with the clusters wanted of a service. -/
def placeFor (clusters : KeyMap String String) (name : String) : Step :=
  .place name (clustersFor clusters name)

theorem contains_putPlaceholder (d : Directory) (name clusters : String) (key : ServiceKey)
    (h : d.store.contains (ServiceKey.of name clusters) = true) :
    (d.putPlaceholder name clusters).store.contains key = d.store.contains key := by
  rw [Store.contains_eq, Store.contains_eq, putPlaceholder_store, Store.get?_set]
  split
  · rename_i hkey
    rw [Store.contains_eq, hkey] at h
    rw [h]
    rfl
  · rfl

theorem collect_eq (d : Directory) (clusters : KeyMap String String) (findBack : Bool)
    (names : List String) :
    d.collect clusters findBack names =
      ((d.answered clusters findBack names).map fun name =>
          Service.placeholder name (clustersFor clusters name),
        d.run ((d.answered clusters findBack names).map (placeFor clusters))) := by
  induction names generalizing d with
  | nil => cases findBack <;> rfl
  | cons name rest ih =>
      cases h : d.store.contains (ServiceKey.of name (clustersFor clusters name)) with
      | false =>
          rw [collect]
          simp only [h, Bool.false_eq_true, if_false, ih]
          simp [answered, h]
      | true =>
          rw [collect]
          cases findBack with
          | true => simp [answered, h, placeFor, step]
          | false =>
              have hrest : (d.putPlaceholder name (clustersFor clusters name)).answered
                  clusters false rest = d.answered clusters false rest := by
                simp only [answered, contains_putPlaceholder d _ _ _ h]
              simp only [h, if_true, Bool.false_eq_true, if_false, ih, hrest]
              simp [answered, h, placeFor, step]

/-! ## Histories -/

/-- The steps of an operation. -/
def stepsOf (d : Directory) : Operation → List Step
  | .receive arrival => [.take arrival]
  | .ingest (.service text) c => [.take ⟨text, c⟩]
  | .ingest .dump _ => []
  | .refresh backend name clusters => d.refreshSteps backend name clusters
  | .refreshAll backend names clusters findBack =>
    d.refreshAllSteps backend names clusters findBack
  | .lookup backend name clusters =>
    if d.store.contains (ServiceKey.of name clusters) then []
    else .place name clusters :: d.refreshSteps backend name clusters
  | .lookupAll backend names clusters findBack =>
    let found := d.answered clusters findBack names
    if found.isEmpty then
      let asking := d.refreshAllSteps backend names clusters findBack
      asking ++ ((d.run asking).answered clusters findBack names).map (placeFor clusters)
    else found.map (placeFor clusters)
  | .catalog backend namespaceId group clusters =>
    let query := Query.catalog namespaceId group clusters
    querySteps query (backend query) []
  | .load readings => [.load readings]

/-- The steps of a history, one operation after another. -/
def trace (d : Directory) : List Operation → List Step
  | [] => []
  | operation :: rest => d.stepsOf operation ++ (d.perform operation).2.trace rest

theorem run_lookupSteps (d : Directory) (backend : Backend) (name clusters : String) :
    d.run (d.stepsOf (.lookup backend name clusters)) = (d.lookup backend name clusters).2 := by
  rw [stepsOf, Store.contains_eq, lookup]
  cases h : d.store.get? (ServiceKey.of name clusters) with
  | some s => rfl
  | none =>
      change ((d.putPlaceholder name clusters).run (d.refreshSteps backend name clusters)) = _
      exact run_refreshSteps (d.putPlaceholder name clusters) backend name clusters

theorem run_lookupAllSteps (d : Directory) (backend : Backend) (names : List String)
    (clusters : KeyMap String String) (findBack : Bool) :
    d.run (d.stepsOf (.lookupAll backend names clusters findBack)) =
      (d.lookupAll backend names clusters findBack).2 := by
  simp only [stepsOf, lookupAll, collect_eq, List.isEmpty_map]
  by_cases h : d.answered clusters findBack names = []
  · simp [h, run_append, run_refreshAllSteps]
  · simp [h]

/-- The steps of an operation do what the operation does. -/
theorem run_stepsOf (d : Directory) (operation : Operation) :
    d.run (d.stepsOf operation) = (d.perform operation).2 := by
  cases operation with
  | receive arrival => rfl
  | ingest event c => cases event <;> rfl
  | refresh backend name clusters => exact run_refreshSteps d backend name clusters
  | refreshAll backend names clusters findBack =>
      exact run_refreshAllSteps d backend names clusters findBack
  | lookup backend name clusters => exact run_lookupSteps d backend name clusters
  | lookupAll backend names clusters findBack =>
      exact run_lookupAllSteps d backend names clusters findBack
  | catalog backend namespaceId group clusters =>
      simp only [stepsOf, querySteps, run_cons, run_take, List.append_nil, step, perform, catalog,
        await]
  | load readings => rfl

theorem run_trace (d : Directory) (history : List Operation) :
    d.run (d.trace history) = d.after history := by
  induction history generalizing d with
  | nil => rfl
  | cons operation rest ih =>
      rw [trace, run_append, run_stepsOf, ih]
      rfl

/-! ## Runs that replace nothing silently -/

/-- Whether a step replaces a snapshot by something that was not received as a document. -/
def Step.ReplacesSilently (d : Directory) : Step → Prop
  | .ask _ | .take _ => False
  | .place name clusters => d.store.contains (ServiceKey.of name clusters) = true
  | .load _ => True

/-- A placeholder that replaces nothing is for a service that is not known. -/
theorem get?_eq_none_of_place {d : Directory} {name clusters : String}
    (h : ¬ (Step.place name clusters).ReplacesSilently d) :
    d.store.get? (ServiceKey.of name clusters) = none := by
  rw [← Store.contains_eq_false_iff, ← Bool.not_eq_true]
  exact h

/-- No step of the run replaces a snapshot silently. -/
def Candid (d : Directory) : List Step → Prop
  | [] => True
  | s :: rest => ¬ s.ReplacesSilently d ∧ (d.step s).Candid rest

theorem candid_append {d : Directory} {first rest : List Step} :
    d.Candid (first ++ rest) ↔ d.Candid first ∧ (d.run first).Candid rest := by
  induction first generalizing d with
  | nil => simp [Candid]
  | cons s first ih => simp [Candid, ih, and_assoc]

theorem candid_querySteps (d : Directory) (query : Query) (answer : Answer)
    (documents : List Arrival) : d.Candid (querySteps query answer documents) := by
  refine ⟨id, ?_⟩
  generalize d.step (.ask query) = d
  generalize answer.meanwhile ++ documents = arrivals
  induction arrivals generalizing d with
  | nil => trivial
  | cons a arrivals ih => exact ⟨id, ih _⟩

/-- What one step keeps, unless it replaces a snapshot silently, is kept by the whole run. -/
theorem Candid.invariant {P : Directory → Prop} {d : Directory} {steps : List Step}
    (h : d.Candid steps) (hd : P d)
    (hstep : ∀ e s, P e → ¬ s.ReplacesSilently e → P (e.step s)) : P (d.run steps) := by
  induction steps generalizing d with
  | nil => exact hd
  | cons s steps ih => exact ih h.2 (hstep d s hd h.1)

end Directory

/-- The operations that replace snapshots by placeholders or by what is on disk. -/
def Operation.replacesSilently : Operation → Bool
  | .lookupAll .. | .load _ => true
  | _ => false

namespace Directory

theorem candid_stepsOf (d : Directory) (operation : Operation)
    (h : operation.replacesSilently = false) : d.Candid (d.stepsOf operation) := by
  cases operation with
  | receive arrival => exact ⟨id, trivial⟩
  | ingest event c =>
      cases event with
      | service text => exact ⟨id, trivial⟩
      | dump => trivial
  | refresh backend name clusters => exact candid_querySteps d _ _ _
  | refreshAll backend names clusters findBack => exact candid_querySteps d _ _ _
  | lookup backend name clusters =>
      rw [stepsOf]
      split
      · trivial
      · rename_i hmiss
        exact ⟨hmiss, candid_querySteps _ _ _ _⟩
  | lookupAll backend names clusters findBack => cases h
  | catalog backend namespaceId group clusters => exact candid_querySteps d _ _ _
  | load readings => cases h

theorem candid_trace (d : Directory) (history : List Operation)
    (h : ∀ operation ∈ history, operation.replacesSilently = false) :
    d.Candid (d.trace history) := by
  induction history generalizing d with
  | nil => trivial
  | cons operation rest ih =>
      rw [trace, candid_append, run_stepsOf]
      exact ⟨candid_stepsOf d operation (h operation (by simp)),
        ih _ fun o ho => h o (List.mem_cons_of_mem _ ho)⟩

/-- Every beginning of a candid run is one. -/
theorem Candid.of_isPrefix {d : Directory} {steps all : List Step} (h : d.Candid all)
    (hp : steps <+: all) : d.Candid steps := by
  obtain ⟨rest, rfl⟩ := hp
  exact (candid_append.mp h).1

end Directory

end ServiceDirectory
