import Mathlib.Data.List.ModifyLast
import ServiceDirectory.Proofs.Permits
import ServiceDirectory.Proofs.Runs

/-!
# Passes of the scheduler

A pass goes over a copy of the directory's entries, in whatever order the copy has
them, while the directory goes on, so clock, stamps and snapshots may all have
changed when the turn of an entry comes. What is noted of a pass are its visits.
Those of a pass that comes to its end are the entries of the copy, each once and in
its order, and exactly those that were stale when they were visited were sent off.
-/

namespace ServiceDirectory.Refresh

/-- Whether a step goes by a copy of the entries or by the stamps of a store, if it goes by any. -/
def Step.goesBy (store : Store) : Step → Bool
  | .start entries => store.IsCopy entries
  | .check _ seen => seen = store
  | _ => true

example (store : Store) : Step.goesBy store (.start store.items.reverse) = true :=
  decide_eq_true store.items.reverse_perm

/-- What is noted of an entry when its turn comes. -/
structure Visit where
  key : ServiceKey
  /-- The snapshot as the pass copied it. -/
  service : Service
  clock : Millis
  /-- What the directory had done by then. -/
  done : List Directory.Step
  /-- Whether the snapshot was sent off for a refresh. -/
  sent : Bool := false

namespace Visit

def entry (v : Visit) : ServiceKey × Service := (v.key, v.service)

/-- Whether the entry was stale when it was visited. -/
def isStale (origin : Directory) (v : Visit) : Bool :=
  (origin.run v.done).store.isStale v.clock v.key v.service

end Visit

/-- A scheduler at work on a directory. -/
structure Upkeep where
  scheduler : Scheduler
  /-- The directory as it was at first. -/
  origin : Directory
  /-- What the directory has done since, latest last. -/
  done : List Directory.Step := []
  /-- The visits so far, latest last. -/
  visits : List Visit := []

/-- One step of either. -/
inductive Turn where
  | scheduler (step : Step)
  /-- A step of any operation: operations under way at the same time, refreshes that were sent off
  among them, make their steps in any order. -/
  | directory (step : Directory.Step)

namespace Upkeep

def directory (u : Upkeep) : Directory := u.origin.run u.done

/-- The visits after a step of the scheduler: a check begins one, and what is sent off is the
snapshot visited last. -/
def noted (u : Upkeep) : Step → List Visit
  | .check clock _ =>
    match u.scheduler.phase with
    | .checking ((key, service) :: _) =>
      u.visits ++ [{ key, service, clock, done := u.done }]
    | _ => u.visits
  | .dispatch => u.visits.modifyLast fun v => { v with sent := true }
  | _ => u.visits

/-- The state after a turn, if the turn is possible. -/
def turn? (u : Upkeep) : Turn → Option Upkeep
  | .scheduler step =>
    if step.goesBy u.directory.store then
      (u.scheduler.step? step).map fun scheduler =>
        { u with scheduler, visits := u.noted step }
    else none
  | .directory step => some { u with done := u.done ++ [step] }

/-- The state after turns one after another, if all of them are possible. -/
def run? (u : Upkeep) (turns : List Turn) : Option Upkeep := turns.foldlM turn? u

/-- The visits that a state has beyond those of an earlier one. -/
def visitsSince (first last : Upkeep) : List Visit := last.visits.drop first.visits.length

/-- A pass that begins in the first state over a copy of the entries, with all that has happened
since; it may be under way or broken off. -/
structure Passing (first : Upkeep) (meanwhile : List Turn) (u : Upkeep) : Prop where
  run : ∃ copy, first.run? (.scheduler (.start copy) :: meanwhile) = some u
  single : Turn.scheduler .rest ∉ meanwhile

/-- A pass from its beginning to its end. -/
def Completes (first : Upkeep) (meanwhile : List Turn) (last : Upkeep) : Prop :=
  ∃ u, first.Passing meanwhile u ∧ u.turn? (.scheduler .rest) = some last

/-! ## Turns -/

variable {u u' first last : Upkeep} {t : Turn} {turns meanwhile : List Turn}
  {copy : List (ServiceKey × Service)}

/-- What a turn comes to. -/
inductive Turned (u : Upkeep) : Turn → Upkeep → Prop
  | directory (step : Directory.Step) :
      Turned u (.directory step) { u with done := u.done ++ [step] }
  | scheduler {step : Step} {scheduler : Scheduler}
      (hstore : step.goesBy u.directory.store = true)
      (hstep : Scheduler.Stepped u.scheduler step scheduler) :
      Turned u (.scheduler step) { u with scheduler, visits := u.noted step }

theorem turned (h : u.turn? t = some u') : Turned u t u' := by
  cases t with
  | directory step =>
      obtain rfl := Option.some.inj h
      exact .directory step
  | scheduler step =>
      rw [turn?] at h
      split at h
      · rename_i hstore
        obtain ⟨scheduler, hstep, rfl⟩ := Option.map_eq_some_iff.mp h
        exact .scheduler hstore (Scheduler.stepped hstep)
      · cases h

theorem run?_cons (h : u.run? (t :: turns) = some last) :
    ∃ m, Turned u t m ∧ m.run? turns = some last := by
  obtain ⟨m, hturn, hrest⟩ := Option.bind_eq_some_iff.mp h
  exact ⟨m, turned hturn, hrest⟩

theorem Turned.origin (h : Turned u t u') : u'.origin = u.origin := by
  cases h <;> rfl

/-! ## A pass under way -/

/-- A pass over a copy that began in the first state: the entries of the copy are those visited
since and those that are left, and the visits are right but for the snapshot that waits. -/
inductive OnPass (first : Upkeep) (copy : List (ServiceKey × Service)) (u : Upkeep) : Prop
  | checking {visited : List Visit} {entries : List (ServiceKey × Service)}
      (hphase : u.scheduler.phase = .checking entries)
      (hvisits : u.visits = first.visits ++ visited)
      (hentries : copy = visited.map Visit.entry ++ entries)
      (hsent : ∀ v ∈ visited, v.sent = v.isStale first.origin)
  /-- The last visit found its entry stale, and the snapshot is not sent off yet. -/
  | waiting {visited : List Visit} {v : Visit} {entries : List (ServiceKey × Service)}
      (hphase : u.scheduler.phase = .waiting v.service entries)
      (hvisits : u.visits = first.visits ++ (visited ++ [v]))
      (hentries : copy = (visited ++ [v]).map Visit.entry ++ entries)
      (hsent : ∀ w ∈ visited, w.sent = w.isStale first.origin)
      (hstale : v.isStale first.origin = true)
  /-- The pass is broken off, and a snapshot that waited is never sent off. -/
  | stopped {visited : List Visit} {entries : List (ServiceKey × Service)}
      (hphase : u.scheduler.phase = .stopped)
      (hvisits : u.visits = first.visits ++ visited)
      (hentries : copy = visited.map Visit.entry ++ entries)
      (hsent : ∀ v ∈ visited, v.sent = true → v.isStale first.origin = true)

/-- What changes neither the phase nor the visits is no matter to the pass. -/
theorem OnPass.congr (h : OnPass first copy u) (hphase : u'.scheduler.phase = u.scheduler.phase)
    (hvisits : u'.visits = u.visits) : OnPass first copy u' := by
  cases h with
  | checking hp hv hentries hsent =>
      exact .checking (hphase.trans hp) (hvisits.trans hv) hentries hsent
  | waiting hp hv hentries hsent hstale =>
      exact .waiting (hphase.trans hp) (hvisits.trans hv) hentries hsent hstale
  | stopped hp hv hentries hsent =>
      exact .stopped (hphase.trans hp) (hvisits.trans hv) hentries hsent

theorem OnPass.of_checking (h : OnPass first copy u) {entries : List (ServiceKey × Service)}
    (hphase : u.scheduler.phase = .checking entries) :
    ∃ visited, u.visits = first.visits ++ visited ∧
      copy = visited.map Visit.entry ++ entries ∧
      ∀ v ∈ visited, v.sent = v.isStale first.origin := by
  cases h with
  | checking hp hvisits hentries hsent =>
      obtain rfl := Phase.checking.inj (hphase.symm.trans hp)
      exact ⟨_, hvisits, hentries, hsent⟩
  | waiting hp hvisits hentries hsent hstale => cases hphase.symm.trans hp
  | stopped hp hvisits hentries hsent => cases hphase.symm.trans hp

theorem OnPass.of_waiting (h : OnPass first copy u) {service : Service}
    {entries : List (ServiceKey × Service)}
    (hphase : u.scheduler.phase = .waiting service entries) :
    ∃ visited v, u.visits = first.visits ++ (visited ++ [v]) ∧
      copy = (visited ++ [v]).map Visit.entry ++ entries ∧
      (∀ w ∈ visited, w.sent = w.isStale first.origin) ∧ v.isStale first.origin = true := by
  cases h with
  | checking hp hvisits hentries hsent => cases hphase.symm.trans hp
  | waiting hp hvisits hentries hsent hstale =>
      obtain ⟨_, rfl⟩ := Phase.waiting.inj (hphase.symm.trans hp)
      exact ⟨_, _, hvisits, hentries, hsent, hstale⟩
  | stopped hp hvisits hentries hsent => cases hphase.symm.trans hp

theorem OnPass.not_resting (h : OnPass first copy u) : u.scheduler.phase ≠ .resting := by
  intro hphase
  cases h with
  | checking hp hvisits hentries hsent => cases hphase.symm.trans hp
  | waiting hp hvisits hentries hsent hstale => cases hphase.symm.trans hp
  | stopped hp hvisits hentries hsent => cases hphase.symm.trans hp

/-- Wherever a pass stands, it has visited the first of the entries, and what it has sent off was
stale. -/
theorem OnPass.exists_visited (h : OnPass first copy u) :
    ∃ visited entries, u.visits = first.visits ++ visited ∧
      copy = visited.map Visit.entry ++ entries ∧
      ∀ v ∈ visited, v.sent = true → v.isStale first.origin = true := by
  cases h with
  | checking hp hvisits hentries hsent =>
      exact ⟨_, _, hvisits, hentries, fun v hv hv' => (hsent v hv).symm.trans hv'⟩
  | waiting hp hvisits hentries hsent hstale =>
      refine ⟨_, _, hvisits, hentries, List.forall_mem_append.mpr ⟨?_, ?_⟩⟩
      · exact fun v hv hv' => (hsent v hv).symm.trans hv'
      · exact List.forall_mem_singleton.mpr fun _ => hstale
  | stopped hp hvisits hentries hsent => exact ⟨_, _, hvisits, hentries, hsent⟩

theorem noted_check (u : Upkeep) (clock : Millis) (store : Store) {key : ServiceKey}
    {service : Service} {entries : List (ServiceKey × Service)}
    (hphase : u.scheduler.phase = .checking ((key, service) :: entries)) :
    u.noted (.check clock store) =
      u.visits ++ [{ key, service, clock, done := u.done }] := by
  simp only [noted, hphase]

theorem noted_dispatch {u : Upkeep} {visited : List Visit} {v : Visit}
    (hvisits : u.visits = visited ++ [v]) :
    u.noted .dispatch = visited ++ [{ v with sent := true }] := by
  rw [noted, hvisits, List.modifyLast_concat]

/-- A check adds a visit to those that are right already. -/
theorem OnPass.check (h : OnPass first copy u) (clock : Millis) (store : Store) {key : ServiceKey}
    {service : Service} {entries : List (ServiceKey × Service)}
    (hphase : u.scheduler.phase = .checking ((key, service) :: entries)) {v : Visit}
    (hv : v = { key, service, clock, done := u.done }) :
    ∃ visited, u.noted (.check clock store) = first.visits ++ (visited ++ [v]) ∧
      copy = (visited ++ [v]).map Visit.entry ++ entries ∧
      ∀ w ∈ visited, w.sent = w.isStale first.origin := by
  obtain ⟨visited, hvisits, hentries, hsent⟩ := h.of_checking hphase
  subst hv
  refine ⟨visited, ?_, ?_, hsent⟩
  · rw [noted_check u clock store hphase, hvisits, List.append_assoc]
  · rw [hentries, List.map_append, List.append_assoc]
    rfl

/-- A visit is right as long as the entry is not sent off, if it is fresh, and else it waits. -/
theorem OnPass.turn (h : OnPass first copy u) (horigin : u.origin = first.origin)
    (hturn : Turned u t u') (hrest : t ≠ .scheduler .rest) : OnPass first copy u' := by
  cases hturn with
  | directory step => exact h.congr rfl rfl
  | @scheduler step scheduler hstore hstep =>
      cases hstep with
      | started hphase => exact absurd hphase h.not_resting
      | @fresh clock store key service entries hphase hfresh =>
          obtain rfl : store = u.directory.store := of_decide_eq_true hstore
          obtain ⟨visited, hvisits, hentries, hsent⟩ :=
            h.check clock u.directory.store hphase rfl
          refine .checking rfl hvisits hentries
            (List.forall_mem_append.mpr ⟨hsent, List.forall_mem_singleton.mpr ?_⟩)
          rw [← horigin]
          exact hfresh.symm
      | @stale clock store key service entries hphase hstale =>
          obtain rfl : store = u.directory.store := of_decide_eq_true hstore
          obtain ⟨visited, hvisits, hentries, hsent⟩ :=
            h.check clock u.directory.store hphase rfl
          refine .waiting rfl hvisits hentries hsent ?_
          rw [← horigin]
          exact hstale
      | @dispatched free service entries hphase hfree =>
          obtain ⟨visited, v, hvisits, hentries, hsent, hstale⟩ := h.of_waiting hphase
          -- the stamps may have changed since the check, but a visit is judged as of its check
          have hnoted : u.noted .dispatch =
              first.visits ++ (visited ++ [{ v with sent := true }]) := by
            rw [← List.append_assoc] at hvisits ⊢
            exact noted_dispatch hvisits
          have hcopied : copy =
              (visited ++ [{ v with sent := true }]).map Visit.entry ++ entries := by
            rw [hentries, List.map_append, List.map_append]
            rfl
          exact .checking rfl hnoted hcopied
            (List.forall_mem_append.mpr ⟨hsent, List.forall_mem_singleton.mpr hstale.symm⟩)
      | finished hposition => exact h.congr rfl rfl
      | rested hphase => exact absurd rfl hrest
      | cancelled => exact h.congr rfl rfl
      | stopped hcancelled hphase =>
          obtain ⟨visited, entries, hvisits, hentries, hsent⟩ := h.exists_visited
          exact .stopped rfl hvisits hentries hsent

theorem OnPass.run (h : OnPass first copy u) (horigin : u.origin = first.origin)
    (hrun : u.run? turns = some last) (hrest : Turn.scheduler .rest ∉ turns) :
    OnPass first copy last ∧ last.origin = first.origin := by
  induction turns generalizing u with
  | nil =>
      obtain rfl := Option.some.inj hrun
      exact ⟨h, horigin⟩
  | cons t rest ih =>
      obtain ⟨m, hturn, hrun⟩ := run?_cons hrun
      have hne : t ≠ .scheduler .rest := fun heq => hrest (heq ▸ List.mem_cons_self)
      exact ih (h.turn horigin hturn hne) (hturn.origin.trans horigin) hrun
        (List.not_mem_of_not_mem_cons hrest)

theorem onPass_start (h : Turned first (.scheduler (.start copy)) u) :
    first.directory.store.IsCopy copy ∧ OnPass first copy u ∧ u.origin = first.origin := by
  cases h with
  | scheduler hstore hstep =>
      cases hstep with
      | started hphase =>
          exact ⟨of_decide_eq_true hstore,
            .checking rfl (List.append_nil _).symm rfl (by simp), rfl⟩

theorem Passing.exists_onPass (h : Passing first meanwhile u) :
    ∃ copy, first.directory.store.IsCopy copy ∧ OnPass first copy u := by
  obtain ⟨copy, hrun⟩ := h.run
  obtain ⟨begun, hstart, hrun⟩ := run?_cons hrun
  obtain ⟨hcopy, hbegun, horigin⟩ := onPass_start hstart
  exact ⟨copy, hcopy, (hbegun.run horigin hrun h.single).1⟩

/-- A pass, wherever it stands and even if it is broken off, has visited the first entries of a copy
of those that there were when it began, and has sent off none but stale ones. -/
theorem Passing.visits (h : Passing first meanwhile u) :
    (∃ copy, first.directory.store.IsCopy copy ∧
      (visitsSince first u).map Visit.entry <+: copy) ∧
      ∀ v ∈ visitsSince first u, v.sent = true → v.isStale first.origin = true := by
  obtain ⟨copy, hcopy, hpass⟩ := h.exists_onPass
  obtain ⟨visited, entries, hvisits, hentries, hsent⟩ := hpass.exists_visited
  have hsince : visitsSince first u = visited := by
    rw [visitsSince, hvisits, List.drop_left]
  rw [hsince]
  exact ⟨⟨copy, hcopy, entries, hentries.symm⟩, hsent⟩

/-- A pass that comes to its end has visited the entries that there were when it began, each once
and in the order of its copy, and has sent off those that were stale when they were visited, and no
others. -/
theorem Completes.visits (h : Completes first meanwhile last) :
    first.directory.store.IsCopy ((visitsSince first last).map Visit.entry) ∧
      ∀ v ∈ visitsSince first last, v.sent = v.isStale first.origin := by
  obtain ⟨u, hpassing, hrest⟩ := h
  obtain ⟨copy, hcopy, hpass⟩ := hpassing.exists_onPass
  cases turned hrest with
  | scheduler hstore hstep =>
      cases hstep with
      | rested hphase =>
          obtain ⟨visited, hvisits, hentries, hsent⟩ := hpass.of_checking hphase
          have hsince : u.visits.drop first.visits.length = visited := by
            rw [hvisits, List.drop_left]
          rw [hentries, List.append_nil, ← hsince] at hcopy
          refine ⟨hcopy, fun v hv => hsent v ?_⟩
          rw [← hsince]
          exact hv

/-! ## The visits of one key -/

/-- What a pass visits of a key is the snapshot that the key had when the pass began. -/
theorem Passing.service_eq (h : Passing first meanwhile u) {v : Visit}
    (hv : v ∈ visitsSince first u) {s : Service}
    (hs : first.directory.store.get? v.key = some s) : v.service = s := by
  obtain ⟨copy, hcopy, hvisited⟩ := h.visits.1
  have hitem : v.entry ∈ first.directory.store.items :=
    hcopy.subset (hvisited.subset (List.mem_map_of_mem hv))
  have hget : first.directory.store.get? v.key = some v.service :=
    (KeyMap.get?_eq_some_iff_mem _).mpr hitem
  exact Option.some.inj (hget.symm.trans hs)

/-- A pass that comes to its end visits each key that had a snapshot when it began exactly once. -/
theorem Completes.visit_once (h : Completes first meanwhile last) {key : ServiceKey} {s : Service}
    (hs : first.directory.store.get? key = some s) :
    ∃ v, (visitsSince first last).filter (·.key = key) = [v] ∧ v.key = key ∧ v.service = s ∧
      v.sent = v.isStale first.origin := by
  obtain ⟨hcopy, hsent⟩ := h.visits
  have hitems : first.directory.store.items.filter (·.1 = key) = [(key, s)] :=
    KeyMap.filter_entries hs
  -- a copy has the entry of the key once, wherever it has it
  have hfiltered := hcopy.filter (·.1 = key)
  rw [hitems, List.perm_singleton, List.filter_map] at hfiltered
  obtain ⟨v, hfilter, hentry⟩ := List.map_eq_singleton_iff.mp hfiltered
  have hv : v ∈ (visitsSince first last).filter (·.key = key) := by
    exact hfilter ▸ List.mem_singleton_self v
  exact ⟨v, hfilter, congrArg Prod.fst hentry, congrArg Prod.snd hentry,
    hsent v (List.mem_of_mem_filter hv)⟩

/-! ## Where the visited entries come from -/

/-- The entries that were visited or are still to be visited. -/
def copied (u : Upkeep) : List (ServiceKey × Service) :=
  u.visits.map Visit.entry ++ u.scheduler.unchecked

/-- A check copies nothing. -/
theorem copied_check (u : Upkeep) (clock : Millis) (store : Store) {key : ServiceKey}
    {service : Service} {entries : List (ServiceKey × Service)}
    (hphase : u.scheduler.phase = .checking ((key, service) :: entries)) :
    (u.noted (.check clock store)).map Visit.entry ++ entries = u.copied := by
  rw [noted_check u clock store hphase, List.map_append, List.append_assoc, copied,
    Scheduler.unchecked, hphase]
  rfl

theorem map_entry_dispatch (visits : List Visit) :
    (visits.modifyLast fun v => { v with sent := true }).map Visit.entry =
      visits.map Visit.entry := by
  rcases List.eq_nil_or_concat visits with rfl | ⟨visited, v, rfl⟩
  · rfl
  · rw [List.concat_eq_append, List.modifyLast_concat, List.map_append, List.map_append]
    rfl

/-- A turn copies nothing but what the store holds. -/
theorem Turned.mem_copied (h : Turned u t u') {entry : ServiceKey × Service}
    (he : entry ∈ u'.copied) : entry ∈ u.copied ∨ entry ∈ u.directory.store.items := by
  cases h with
  | directory step => exact Or.inl he
  | @scheduler step scheduler hstore hstep =>
      cases hstep with
      | @started entries hphase =>
          have hcopy : u.directory.store.IsCopy entries := of_decide_eq_true hstore
          rcases List.mem_append.mp he with he | he
          · exact Or.inl (List.mem_append_left _ he)
          · exact Or.inr (hcopy.subset he)
      | @fresh clock store key service entries hphase hfresh =>
          rw [← copied_check u clock store hphase]
          exact Or.inl he
      | @stale clock store key service entries hphase hstale =>
          rw [← copied_check u clock store hphase]
          exact Or.inl he
      | @dispatched free service entries hphase hfree =>
          left
          rw [copied, noted, map_entry_dispatch] at he
          rw [copied, Scheduler.unchecked, hphase]
          exact he
      | finished hposition => exact Or.inl he
      | rested hphase =>
          left
          rcases List.mem_append.mp he with he | he
          · exact List.mem_append_left _ he
          · cases he
      | cancelled => exact Or.inl he
      | stopped hcancelled hphase =>
          left
          rcases List.mem_append.mp he with he | he
          · exact List.mem_append_left _ he
          · cases he

/-- Whatever was copied was in the store at some time since the beginning. -/
def Traced (u : Upkeep) : Prop :=
  ∀ entry ∈ u.copied, ∃ earlier, earlier <+: u.done ∧
    entry ∈ (u.origin.run earlier).store.items

theorem Traced.turn (h : u.Traced) (hturn : Turned u t u') : u'.Traced := by
  have hdone : u.done <+: u'.done := by
    cases hturn with
    | directory step => exact List.prefix_append _ _
    | scheduler hstore hstep => exact List.prefix_rfl
  intro entry he
  rw [hturn.origin]
  rcases hturn.mem_copied he with he | he
  · obtain ⟨earlier, hp, hitem⟩ := h entry he
    exact ⟨earlier, hp.trans hdone, hitem⟩
  · exact ⟨u.done, hdone, he⟩

theorem Traced.run (h : u.Traced) (hrun : u.run? turns = some last) :
    last.Traced ∧ last.origin = u.origin := by
  induction turns generalizing u with
  | nil =>
      obtain rfl := Option.some.inj hrun
      exact ⟨h, rfl⟩
  | cons t rest ih =>
      obtain ⟨m, hturn, hrun⟩ := run?_cons hrun
      obtain ⟨hlast, horigin⟩ := ih (h.turn hturn) hrun
      exact ⟨hlast, horigin.trans hturn.origin⟩

theorem traced_ofWidth (width : Nat) (origin : Directory) :
    Traced { scheduler := .ofWidth width, origin } := by
  intro entry he
  cases he

end Upkeep

end ServiceDirectory.Refresh
