import ServiceDirectory.Proofs.Runs

/-!
# Questions that are asked

Each refresh asks the backend one question, for one service or for several, and
documents are taken in without asking anything. So the questions of a run are those
of its steps, and an operation asks at most once.
-/

namespace ServiceDirectory

def Event.query? : Event → Option Query
  | .asked query => some query
  | _ => none

namespace Directory

/-- The queries that the backend was asked, in their order. -/
def queries (d : Directory) : List Query := d.events.filterMap Event.query?

def Step.query? : Step → Option Query
  | .ask query => some query
  | _ => none

theorem queries_step (d : Directory) (s : Step) :
    (d.step s).queries = d.queries ++ s.query?.toList := by
  cases s with
  | ask query => simp [queries, step, Step.query?, Event.query?]
  | place name clusters => simp [queries, step, Step.query?]
  | take arrival =>
      simp only [queries, step, Step.query?]
      generalize h : d.receive arrival = result
      cases received h <;> simp [Event.query?]
  | load readings => simp [queries, step, Step.query?]

theorem queries_run (d : Directory) (steps : List Step) :
    (d.run steps).queries = d.queries ++ steps.filterMap Step.query? := by
  induction steps generalizing d with
  | nil => simp
  | cons s rest ih =>
      rw [run_cons, ih, queries_step]
      cases hquery : s.query? <;> simp [hquery]

theorem query?_querySteps (query : Query) (answer : Answer) (documents : List Arrival) :
    (querySteps query answer documents).filterMap Step.query? = [query] := by
  have htake : ((answer.meanwhile ++ documents).map Step.take).filterMap Step.query? = [] := by
    simp [List.filterMap_map, Function.comp_def, Step.query?]
  rw [querySteps, List.filterMap_cons, htake]
  rfl

/-- A refresh asks once, for the service by the name and the clusters as they are given. -/
theorem queries_refresh (d : Directory) (backend : Backend) (name clusters : String) :
    (d.refresh backend name clusters).queries = d.queries ++ [d.singleQuery name clusters] := by
  rw [← run_refreshSteps, queries_run, refreshSteps, query?_querySteps]

theorem queries_refreshAll (d : Directory) (backend : Backend) (names : List String)
    (clusters : KeyMap String String) (findBack : Bool) :
    (d.refreshAll backend names clusters findBack).queries =
      d.queries ++ [d.batchQuery names clusters findBack] := by
  rw [← run_refreshAllSteps, queries_run, refreshAllSteps, query?_querySteps]

theorem query?_placeFor (clusters : KeyMap String String) (names : List String) :
    (names.map (placeFor clusters)).filterMap Step.query? = [] := by
  simp [List.filterMap_map, Function.comp_def, placeFor, Step.query?]

/-- A batch lookup asks at most once, for all that is looked up. -/
theorem queries_lookupAll (d : Directory) (backend : Backend) (names : List String)
    (clusters : KeyMap String String) (findBack : Bool) :
    ∃ asked, (d.lookupAll backend names clusters findBack).2.queries = d.queries ++ asked ∧
      (asked = [] ∨ asked = [d.batchQuery names clusters findBack]) := by
  rw [← run_lookupAllSteps, queries_run, stepsOf]
  refine ⟨_, rfl, ?_⟩
  split
  · right
    rw [List.filterMap_append, refreshAllSteps, query?_querySteps, query?_placeFor,
      List.append_nil]
  · left
    exact query?_placeFor clusters _

end Directory

end ServiceDirectory
