import ServiceDirectory.Proofs.Permits
import ServiceDirectory.Proofs.Queries

/-!
# A pass refreshes what is overdue

A pass goes through a copy of the entries, but clock and stamps are read when the turn
of an entry comes. Whatever they are by then, each entry of the copy is looked at once,
and those that are overdue at that moment are refreshed, under the name and the clusters
of the copy. What carries a pass from step to step is that nothing gets lost: an entry
is unchecked or was looked at, and a refresh that is due was sent off or waits.
-/

namespace ServiceDirectory.Refresh

/-- The clock and the store that a step goes by, if it goes by any. -/
def Step.moment? : Step → Option (Millis × Store)
  | .check clock store => some (clock, store)
  | _ => none

/-- A snapshot is sent off, or a refresh that is under way ends. -/
def Step.isAside : Step → Bool
  | .dispatch | .finish _ => true
  | _ => false

/-- A step that is made beside the checks goes by no clock and no store. -/
theorem Step.moment?_of_isAside {step : Step} (h : step.isAside = true) : step.moment? = none := by
  cases step with
  | check clock store => cases h
  | _ => rfl

/-- An entry of the copy when its turn comes. -/
structure Look where
  key : ServiceKey
  service : Service
  clock : Millis
  /-- The store of that moment, which need not be the one that was copied. -/
  store : Store
  deriving DecidableEq

namespace Look

def entry (l : Look) : ServiceKey × Service := (l.key, l.service)

def moment (l : Look) : Millis × Store := (l.clock, l.store)

/-- More time has passed since the last refresh than the copied snapshot names. A refresh that
lies ahead of the clock counts as one of this moment. -/
def IsOverdue (l : Look) : Prop :=
  l.service.cacheMillis.toNat < l.clock.toNat - (l.store.lastRefresh l.key).toNat

instance : DecidablePred IsOverdue := fun l =>
  inferInstanceAs (Decidable (l.service.cacheMillis.toNat < _))

/-- The refresh of the copied snapshot. -/
def refresh (backend : Backend) (l : Look) : Operation :=
  .refresh backend l.service.name l.service.clusters

end Look

/-- What has elapsed is never more than the clock reads, and nothing if the refresh lies ahead. -/
theorem elapsed_add_min (clock lastRefresh : Millis) :
    (elapsed clock lastRefresh).toNat + min lastRefresh.toNat clock.toNat = clock.toNat := by
  rw [toNat_elapsed]
  omega

namespace Scheduler

/-! ## What a pass is seen to do -/

/-- The entry that a step looks at. -/
def look? (s : Scheduler) : Step → Option Look
  | .check clock store =>
    match s.phase with
    | .checking ((key, service) :: _) => some { key, service, clock, store }
    | _ => none
  | _ => none

/-- The refresh that a step sends off. -/
def send? (backend : Backend) (s : Scheduler) : Step → Option Operation
  | .dispatch =>
    match s.phase with
    | .waiting service _ => some (.refresh backend service.name service.clusters)
    | _ => none
  | _ => none

/-- What is seen of the steps of a run, one after another. -/
def seen {α : Type} (f : Scheduler → Step → Option α) (s : Scheduler) : List Step → List α
  | [] => []
  | step :: rest =>
    match s.step? step with
    | some s' => (f s step).toList ++ s'.seen f rest
    | none => []

/-- The entries that the steps of a run look at. -/
def looks (s : Scheduler) (steps : List Step) : List Look := s.seen look? steps

/-- The refreshes that the steps of a run send off. -/
def sends (backend : Backend) (s : Scheduler) (steps : List Step) : List Operation :=
  s.seen (send? backend) steps

/-- The refresh that is due and waits for a permit. -/
def due (backend : Backend) (s : Scheduler) : List Operation :=
  match s.phase with
  | .waiting service _ => [.refresh backend service.name service.clusters]
  | _ => []

variable {backend : Backend} {s s' s'' : Scheduler}

theorem seen_cons {α : Type} (f : Scheduler → Step → Option α) {step : Step} {rest : List Step}
    (h : s.step? step = some s') :
    s.seen f (step :: rest) = (f s step).toList ++ s'.seen f rest := by
  simp only [seen, h]

/-! ## Nothing gets lost -/

/-- From one state to another, entries were looked at and refreshes were sent off, and nothing got
lost. -/
structure Accounts (backend : Backend) (s : Scheduler) (looks : List Look)
    (sends : List Operation) (s' : Scheduler) : Prop where
  entries : looks.map Look.entry ++ s'.unchecked = s.unchecked
  refreshes : sends ++ s'.due backend =
    s.due backend ++ (looks.filter fun l => l.IsOverdue).map (Look.refresh backend)

/-- As long as the phase stays, there is nothing to account for. -/
theorem accounts_of_phase_eq (h : s'.phase = s.phase) : Accounts backend s [] [] s' := by
  constructor
  · rw [unchecked, unchecked, h]
    rfl
  · rw [due, due, h]
    simp

theorem Accounts.trans {looks more : List Look} {sends others : List Operation}
    (h : Accounts backend s looks sends s') (h' : Accounts backend s' more others s'') :
    Accounts backend s (looks ++ more) (sends ++ others) s'' := by
  constructor
  · calc
      (looks ++ more).map Look.entry ++ s''.unchecked =
          looks.map Look.entry ++ (more.map Look.entry ++ s''.unchecked) := by
        rw [List.map_append, List.append_assoc]
      _ = s.unchecked := by rw [h'.entries, h.entries]
  · calc
      sends ++ others ++ s''.due backend = sends ++ (others ++ s''.due backend) :=
        List.append_assoc ..
      _ = sends ++ s'.due backend ++
          (more.filter fun l => l.IsOverdue).map (Look.refresh backend) := by
        rw [h'.refreshes, List.append_assoc]
      _ = s.due backend ++
          ((looks ++ more).filter fun l => l.IsOverdue).map (Look.refresh backend) := by
        rw [h.refreshes, List.filter_append, List.map_append, List.append_assoc]

/-- An entry is found stale exactly if it is overdue. -/
theorem isStale_iff_isOverdue (l : Look) :
    l.store.isStale l.clock l.key l.service = true ↔ l.IsOverdue :=
  Store.isStale_iff l.store l.clock l.key l.service

/-- A step within a pass loses nothing. -/
theorem Stepped.accounts {step : Step} (h : Stepped s step s') (hpass : s.phase ≠ .resting)
    (hstop : step ≠ .stop) :
    Accounts backend s (s.look? step).toList (send? backend s step).toList s' := by
  cases h with
  | started hphase => exact absurd hphase hpass
  | @fresh clock store key service entries hphase hfresh =>
      have hlook : s.look? (.check clock store) = some ⟨key, service, clock, store⟩ := by
        rw [look?, hphase]
      have hnot : ¬ Look.IsOverdue ⟨key, service, clock, store⟩ := by
        rw [← isStale_iff_isOverdue, hfresh]
        decide
      rw [hlook]
      constructor
      · simp [Look.entry, unchecked, hphase]
      · simp [send?, due, hphase, hnot]
  | @stale clock store key service entries hphase hstale =>
      have hlook : s.look? (.check clock store) = some ⟨key, service, clock, store⟩ := by
        rw [look?, hphase]
      have hoverdue : Look.IsOverdue ⟨key, service, clock, store⟩ :=
        (isStale_iff_isOverdue _).mp hstale
      rw [hlook]
      constructor
      · simp [Look.entry, unchecked, hphase]
      · simp [send?, due, hphase, hoverdue, Look.refresh]
  | dispatched hphase hfree =>
      constructor
      · simp [look?, unchecked, hphase]
      · simp [look?, send?, due, hphase]
  | finished hposition => exact accounts_of_phase_eq rfl
  | rested hphase =>
      constructor
      · simp [look?, unchecked, hphase]
      · simp [look?, send?, due, hphase]
  | cancelled => exact accounts_of_phase_eq rfl
  | stopped hcancelled hphase => exact absurd rfl hstop

/-- A scheduler that has stopped makes no pass any more. -/
theorem phase_of_stopped {steps : List Step} (hphase : s.phase = .stopped)
    (hrun : s.run? steps = some s') : s'.phase = .stopped := by
  induction steps generalizing s with
  | nil =>
      obtain rfl := Option.some.inj hrun
      exact hphase
  | cons step rest ih =>
      obtain ⟨m, hstep, hrest⟩ := Option.bind_eq_some_iff.mp hrun
      refine ih ?_ hrest
      cases stepped hstep with
      | started h => simp [hphase] at h
      | fresh h hfresh => simp [hphase] at h
      | stale h hstale => simp [hphase] at h
      | dispatched h hfree => simp [hphase] at h
      | finished hposition => exact hphase
      | rested h => simp [hphase] at h
      | cancelled => exact hphase
      | stopped hcancelled h => rfl

/-- Within a pass the scheduler rests only when it ends. -/
theorem Stepped.phase_ne_resting {step : Step} (h : Stepped s step s')
    (hpass : s.phase ≠ .resting) (hrest : step ≠ .rest) : s'.phase ≠ .resting := by
  cases h with
  | rested hphase => exact absurd rfl hrest
  | started hphase => simp
  | fresh hphase hfresh => simp
  | stale hphase hstale => simp
  | dispatched hphase hfree => simp
  | finished hposition => exact hpass
  | cancelled => exact hpass
  | stopped hcancelled hphase => simp

theorem run?_cons {step : Step} (h : s.step? step = some s') (rest : List Step) :
    s.run? (step :: rest) = s'.run? rest := by
  rw [run?, List.foldlM_cons, h]
  rfl

theorem run?_append (s : Scheduler) (first rest : List Step) :
    s.run? (first ++ rest) = (s.run? first).bind (·.run? rest) := List.foldlM_append

theorem phase_of_rest {steps : List Step} (hrun : s.run? (steps ++ [.rest]) = some s') :
    s'.phase = .resting := by
  rw [run?_append] at hrun
  obtain ⟨m, _, hlast⟩ := Option.bind_eq_some_iff.mp hrun
  obtain ⟨last, hstep, hnil⟩ := Option.bind_eq_some_iff.mp hlast
  obtain rfl := Option.some.inj hnil
  cases stepped hstep with
  | rested hphase => rfl

/-- A pass that comes to its end loses nothing. -/
theorem accounts_pass (backend : Backend) {steps : List Step}
    (hrun : s.run? (steps ++ [.rest]) = some s')
    (hpass : s.phase ≠ .resting) (hrest : .rest ∉ steps) :
    Accounts backend s (s.looks (steps ++ [.rest])) (s.sends backend (steps ++ [.rest])) s' := by
  induction steps generalizing s with
  | nil =>
      obtain ⟨m, hstep, hnil⟩ := Option.bind_eq_some_iff.mp hrun
      obtain rfl := Option.some.inj hnil
      rw [looks, sends, List.nil_append, seen_cons _ hstep, seen_cons _ hstep]
      exact ((stepped hstep).accounts hpass (by simp)).trans (accounts_of_phase_eq rfl)
  | cons step rest ih =>
      have hend := phase_of_rest hrun
      obtain ⟨m, hstep, hrun⟩ := Option.bind_eq_some_iff.mp hrun
      have hne : step ≠ .rest := fun heq => hrest (heq ▸ List.mem_cons_self)
      have hstop : step ≠ .stop := by
        rintro rfl
        cases stepped hstep with
        | stopped hcancelled hphase =>
            rw [phase_of_stopped rfl hrun] at hend
            cases hend
      rw [looks, sends, List.cons_append, seen_cons _ hstep, seen_cons _ hstep]
      apply ((stepped hstep).accounts hpass hstop).trans
      exact ih hrun ((stepped hstep).phase_ne_resting hpass hne)
        (List.not_mem_of_not_mem_cons hrest)

/-- Each check looks at an entry, with the clock and the store that it goes by. -/
theorem moments_looks {steps : List Step} (hrun : s.run? steps = some s') :
    (s.looks steps).map Look.moment = steps.filterMap Step.moment? := by
  induction steps generalizing s with
  | nil => rfl
  | cons step rest ih =>
      obtain ⟨m, hstep, hrun⟩ := Option.bind_eq_some_iff.mp hrun
      have hfirst : (s.look? step).toList.map Look.moment = step.moment?.toList := by
        cases stepped hstep with
        | fresh hphase hfresh => simp [look?, hphase, Look.moment, Step.moment?]
        | stale hphase hstale => simp [look?, hphase, Look.moment, Step.moment?]
        | started hphase => rfl
        | dispatched hphase hfree => rfl
        | finished hposition => rfl
        | rested hphase => rfl
        | cancelled => rfl
        | stopped hcancelled hphase => rfl
      rw [looks, seen_cons _ hstep, List.map_append, hfirst, ← looks, ih hrun]
      cases hmoment : step.moment? <;> simp [hmoment]

/-! ## Any moments can be met -/

/-- An entry can be taken at any moment. If it is stale and no permit is free, a refresh that is
under way ends first. -/
theorem exists_turn {key : ServiceKey} {service : Service}
    {entries : List (ServiceKey × Service)}
    (hphase : s.phase = .checking ((key, service) :: entries))
    (hpermits : 0 < s.free + s.underway.length) (clock : Millis) (store : Store) :
    ∃ aside s', s.run? (.check clock store :: aside) = some s' ∧ s'.phase = .checking entries ∧
      ∀ step ∈ aside, step.isAside = true := by
  cases hstale : store.isStale clock key service with
  | false =>
      refine ⟨[], { s with phase := .checking entries }, ?_, rfl, by simp⟩
      simp [run?, step?, hphase, hstale]
  | true =>
      cases hfree : s.free with
      | succ free =>
          refine ⟨[.dispatch],
            { s with free, underway := s.underway ++ [service], phase := .checking entries },
            ?_, rfl, by simp [Step.isAside]⟩
          simp [run?, step?, hphase, hstale, hfree]
      | zero =>
          have hunderway : 0 < s.underway.length := by omega
          refine ⟨[.finish 0, .dispatch],
            { s with
              free := 0
              underway := s.underway.eraseIdx 0 ++ [service]
              phase := .checking entries },
            ?_, rfl, by simp [Step.isAside]⟩
          simp [run?, step?, hphase, hstale, hfree, hunderway]

/-- The steps of a pass over these entries at these moments. -/
theorem exists_turns {entries : List (ServiceKey × Service)} {moments : List (Millis × Store)}
    (hlength : moments.length = entries.length) (hphase : s.phase = .checking entries)
    {width : Nat} (hwidth : 0 < width) (hpermits : Balanced width s) :
    ∃ steps s', s.run? steps = some s' ∧ s'.phase = .checking [] ∧
      steps.filterMap Step.moment? = moments ∧
      ∀ step ∈ steps, step.isAside = true ∨ step.moment?.isSome = true := by
  induction entries generalizing s moments with
  | nil =>
      obtain rfl := List.eq_nil_of_length_eq_zero hlength
      exact ⟨[], s, rfl, hphase, rfl, by simp⟩
  | cons entry entries ih =>
      obtain ⟨⟨clock, store⟩, moments, rfl⟩ := List.exists_cons_of_length_eq_add_one hlength
      have hsome : 0 < s.free + s.underway.length := hpermits ▸ hwidth
      obtain ⟨aside, m, hturn, hm, haside⟩ := exists_turn hphase hsome clock store
      obtain ⟨steps, s', hrun, hs', hmoments, hsteps⟩ :=
        ih (Nat.succ.inj hlength) hm (hpermits.run hturn)
      have hquiet : aside.filterMap Step.moment? = [] := by
        apply List.filterMap_eq_nil_iff.mpr
        intro step hstep
        exact Step.moment?_of_isAside (haside step hstep)
      refine ⟨.check clock store :: (aside ++ steps), s', ?_, hs', ?_, ?_⟩
      · rw [← List.cons_append, run?_append, hturn]
        exact hrun
      · rw [List.filterMap_cons, List.filterMap_append, hquiet, hmoments]
        rfl
      · simp only [List.forall_mem_cons, List.forall_mem_append]
        exact ⟨Or.inr rfl, fun step hstep => Or.inl (haside step hstep), hsteps⟩

/-! ## Passes -/

/-- The steps of a pass over a copy of the entries. -/
def pass (copy : List (ServiceKey × Service)) (steps : List Step) : List Step :=
  .start copy :: (steps ++ [.rest])

variable {copy : List (ServiceKey × Service)}

/-- A pass looks at each entry of its copy once and in order, and refreshes those that are
overdue when they are looked at. -/
theorem looks_pass (backend : Backend) {steps : List Step}
    (hrest : .rest ∉ steps) (hrun : s.run? (pass copy steps) = some s') :
    (s.looks (pass copy steps)).map Look.entry = copy ∧
      s.sends backend (pass copy steps) =
        ((s.looks (pass copy steps)).filter fun l => l.IsOverdue).map (Look.refresh backend) := by
  obtain ⟨begun, hstart, hrun⟩ := Option.bind_eq_some_iff.mp hrun
  rw [pass, looks, sends, seen_cons _ hstart, seen_cons _ hstart]
  have hend := phase_of_rest hrun
  cases stepped hstart with
  | started hphase =>
      have haccounts := accounts_pass backend hrun (by simp) hrest
      have hentries := haccounts.entries
      have hrefreshes := haccounts.refreshes
      rw [unchecked, hend, List.append_nil] at hentries
      rw [due, hend, List.append_nil] at hrefreshes
      exact ⟨hentries, hrefreshes⟩

theorem moments_pass {steps : List Step} (hrun : s.run? (pass copy steps) = some s') :
    (s.looks (pass copy steps)).map Look.moment = steps.filterMap Step.moment? := by
  rw [moments_looks hrun, pass, List.filterMap_cons_none rfl, List.filterMap_append,
    List.filterMap_cons_none rfl, List.filterMap_nil, List.append_nil]

/-- For any moments there is a pass that looks at the entries at these moments. -/
theorem exists_pass {moments : List (Millis × Store)} (hlength : moments.length = copy.length)
    (hphase : s.phase = .resting) (hpermits : 0 < s.free + s.underway.length) :
    ∃ steps s', .rest ∉ steps ∧ .cancel ∉ steps ∧ .stop ∉ steps ∧
      s.run? (pass copy steps) = some s' ∧ steps.filterMap Step.moment? = moments := by
  obtain ⟨steps, m, hrun, hm, hmoments, hsteps⟩ :=
    exists_turns (s := { s with phase := .checking copy }) hlength rfl hpermits rfl
  have hnot : ∀ step : Step, step.isAside = false → step.moment? = none → step ∉ steps := by
    intro step haside hmoment hstep
    rcases hsteps step hstep with h | h
    · simp [haside] at h
    · simp [hmoment] at h
  have hstart : s.step? (.start copy) = some { s with phase := .checking copy } := by
    simp [step?, hphase]
  have hlast : m.run? [.rest] = some { m with phase := .resting } := by
    simp [run?, step?, hm]
  refine ⟨steps, { m with phase := .resting }, hnot _ rfl rfl, hnot _ rfl rfl, hnot _ rfl rfl, ?_,
    hmoments⟩
  rw [pass, run?_cons hstart, run?_append, hrun]
  exact hlast

theorem nodup_keys_copy {copied : Store} (hcopy : copied.IsCopy copy) :
    (copy.map Prod.fst).Nodup := by
  have hitems : (copied.items.map Prod.fst).Nodup :=
    (KeyMap.distinct_entries copied.snapshots).map _ fun _ _ hne => hne
  exact (hcopy.map Prod.fst).nodup_iff.mpr hitems

/-- Whatever the entries are and in whatever order the pass has copied them, whatever the clock
reads at each check and however the store has changed by then: a pass that comes to its end looks at
each entry of its copy once and in order, and sends off, in this order too, a refresh of each that
is overdue at that moment and of no other. Each asks by the name and the clusters of the copied
snapshot, so entries that came later are left to a later pass. For any moments there is such a pass,
if there is a permit at all, and no stamp and no clock make the elapsed time wrap around. -/
theorem pass_refreshes_overdue (s : Scheduler) (copied : Store)
    (copy : List (ServiceKey × Service)) (hcopy : copied.IsCopy copy) (backend : Backend) :
    (∀ steps s', .rest ∉ steps → s.run? (pass copy steps) = some s' →
      let looks := s.looks (pass copy steps)
      let sends := s.sends backend (pass copy steps)
      looks.map Look.entry = copy ∧ (copy.map Prod.fst).Nodup ∧
        looks.map Look.moment = steps.filterMap Step.moment? ∧
        sends = (looks.filter fun l => l.IsOverdue).map (Look.refresh backend) ∧
        ∀ operation ∈ sends, ∃ key t, copied.get? key = some t ∧
          operation = .refresh backend t.name t.clusters ∧
          ∀ d : Directory, (d.perform operation).2.queries =
            d.queries ++ [.single t.name t.clusters d.policy.pushPort false]) ∧
      (∀ moments : List (Millis × Store), moments.length = copy.length →
        s.phase = .resting → 0 < s.free + s.underway.length →
          ∃ steps s', .rest ∉ steps ∧ .cancel ∉ steps ∧ .stop ∉ steps ∧
            s.run? (pass copy steps) = some s' ∧ steps.filterMap Step.moment? = moments) ∧
      ∀ clock lastRefresh : Millis,
        (elapsed clock lastRefresh).toNat + min lastRefresh.toNat clock.toNat = clock.toNat := by
  refine ⟨?_, fun moments hlength => exists_pass hlength, elapsed_add_min⟩
  intro steps s' hrest hrun looks sends
  obtain ⟨hentries, hsends⟩ := looks_pass backend hrest hrun
  refine ⟨hentries, nodup_keys_copy hcopy, moments_pass hrun, hsends, ?_⟩
  intro operation hoperation
  have hrefreshed : operation ∈ (looks.filter fun l => l.IsOverdue).map (Look.refresh backend) := by
    rw [← hsends]
    exact hoperation
  obtain ⟨l, hl, rfl⟩ := List.mem_map.mp hrefreshed
  have hentry : l.entry ∈ copy := by
    rw [← hentries]
    exact List.mem_map_of_mem (List.mem_of_mem_filter hl)
  refine ⟨l.key, l.service, (KeyMap.get?_eq_some_iff_mem _).mpr (hcopy.subset hentry), rfl, ?_⟩
  intro d
  exact d.queries_refresh backend l.service.name l.service.clusters

/-- Three entries: one overdue by a millisecond, one that names no time, one that is as old as the
time that it names. -/
def agedEntries : Store :=
  ((({} : Store).commit ⟨"a", "y"⟩
    { Service.placeholder "a" " y,, " with cacheMillis := 1000 } 3999).commit ⟨"b", ""⟩
      { Service.placeholder "b" "" with cacheMillis := 0 } 3000).commit ⟨"c", ""⟩
        { Service.placeholder "c" "" with cacheMillis := 1000 } 5000

/-- A copy that does not have them in the order of their keys. -/
def agedCopy : List (ServiceKey × Service) := agedEntries.items.rotateRight

/-- While the overdue one waits, the last one is refreshed ahead of the clock, and another entry is
added. -/
def agedMeanwhile : Store :=
  (agedEntries.stamp ⟨"b", ""⟩ 4500).set ⟨"d", ""⟩ (Service.placeholder "d" "")

/-- The only permit is taken at first, and the clock is set back. -/
def agedSteps : List Step :=
  [.check 6000 agedEntries, .check 5000 agedEntries, .finish 0, .dispatch,
    .check 4000 agedMeanwhile]

/-- A backend that does not reply. -/
def muteBackend : Backend := fun _ => { reply := none, conditions := fun _ => { clock := 6000 } }

theorem agedEntries_refreshed :
    let s : Scheduler := { free := 0, underway := [Service.placeholder "x" ""] }
    agedEntries.IsCopy agedCopy ∧ agedCopy ≠ agedEntries.items ∧ .rest ∉ agedSteps ∧
      (∃ s', s.run? (pass agedCopy agedSteps) = some s') ∧
      s.sends muteBackend (pass agedCopy agedSteps) = [.refresh muteBackend "a" " y,, "] := by
  intro s
  have hcopy : agedEntries.IsCopy agedCopy := by decide +kernel
  have hrest : .rest ∉ agedSteps := by simp [agedSteps]
  have hsome : (s.run? (pass agedCopy agedSteps)).isSome = true := by decide +kernel
  obtain ⟨s', hrun⟩ := Option.isSome_iff_exists.mp hsome
  have hoverdue : ((s.looks (pass agedCopy agedSteps)).filter fun l => l.IsOverdue).map
      (fun l => (l.service.name, l.service.clusters)) = [("a", " y,, ")] := by
    decide +kernel
  obtain ⟨_, _, _, hsends, _⟩ :=
    (pass_refreshes_overdue s agedEntries agedCopy hcopy muteBackend).1 agedSteps s' hrest hrun
  have hrefresh : ∀ looks : List Look, looks.map (Look.refresh muteBackend) =
      (looks.map fun l => (l.service.name, l.service.clusters)).map
        fun asked => .refresh muteBackend asked.1 asked.2 := by
    intro looks
    rw [List.map_map]
    rfl
  refine ⟨hcopy, by decide +kernel, hrest, ⟨s', hrun⟩, ?_⟩
  rw [hsends, hrefresh, hoverdue]
  rfl

end Scheduler

end ServiceDirectory.Refresh
