import ServiceDirectory.Refresh.Scheduler
import ServiceDirectory.Settings.Basic

/-!
# Permits of the scheduler

A permit is in the pool or with a refresh that is under way, and nowhere else: it is
taken when a snapshot is sent off and comes back when its refresh ends. So the pool
and the refreshes under way always make up the width that was configured, over
however many passes and wherever the scheduler is cancelled.
-/

namespace ServiceDirectory

namespace Refresh

/-! ## The width -/

theorem one_le_configuredWidth (threads : UInt64) : 1 ≤ configuredWidth threads := by
  rw [configuredWidth]
  split
  · decide
  · rename_i hthreads
    have hpos : threads.toNat ≠ 0 := fun h => hthreads (UInt64.toNat_inj.mp h)
    exact Nat.le_min.mpr ⟨Nat.one_le_iff_ne_zero.mpr hpos, by decide⟩

theorem configuredWidth_le (threads : UInt64) : configuredWidth threads ≤ permitLimit := by
  rw [configuredWidth]
  split
  · decide
  · exact Nat.min_le_right ..

/-- A configured width is one that the pool takes as it is. -/
theorem poolWidth_configuredWidth (threads : UInt64) :
    poolWidth (configuredWidth threads) = configuredWidth threads := by
  rw [poolWidth, Nat.min_eq_left (configuredWidth_le threads),
    Nat.max_eq_right (one_le_configuredWidth threads)]

namespace Scheduler

/-! ## Steps -/

/-- What a step of the scheduler comes to, with the reason for each case. -/
inductive Stepped (s : Scheduler) : Step → Scheduler → Prop
  | started {entries : List (ServiceKey × Service)} (hphase : s.phase = .resting) :
      Stepped s (.start entries) { s with phase := .checking entries }
  | fresh {clock : Millis} {store : Store} {key : ServiceKey} {service : Service}
      {entries : List (ServiceKey × Service)}
      (hphase : s.phase = .checking ((key, service) :: entries))
      (hfresh : store.isStale clock key service = false) :
      Stepped s (.check clock store) { s with phase := .checking entries }
  | stale {clock : Millis} {store : Store} {key : ServiceKey} {service : Service}
      {entries : List (ServiceKey × Service)}
      (hphase : s.phase = .checking ((key, service) :: entries))
      (hstale : store.isStale clock key service = true) :
      Stepped s (.check clock store) { s with phase := .waiting service entries }
  | dispatched {free : Nat} {service : Service} {entries : List (ServiceKey × Service)}
      (hphase : s.phase = .waiting service entries) (hfree : s.free = free + 1) :
      Stepped s .dispatch
        { s with free, underway := s.underway ++ [service], phase := .checking entries }
  | finished {position : Nat} (hposition : position < s.underway.length) :
      Stepped s (.finish position)
        { s with free := s.free + 1, underway := s.underway.eraseIdx position }
  | rested (hphase : s.phase = .checking []) : Stepped s .rest { s with phase := .resting }
  | cancelled : Stepped s .cancel { s with cancelled := true }
  | stopped (hcancelled : s.cancelled = true)
      (hphase : s.phase = .resting ∨ ∃ service entries, s.phase = .waiting service entries) :
      Stepped s .stop { s with phase := .stopped }

theorem stepped {s s' : Scheduler} {step : Step} (h : s.step? step = some s') :
    Stepped s step s' := by
  cases step with
  | start entries =>
      simp only [step?] at h
      split at h
      · rename_i hphase
        obtain rfl := Option.some.inj h
        exact .started hphase
      · cases h
  | check clock store =>
      simp only [step?] at h
      split at h
      · rename_i key service entries hphase
        obtain rfl := Option.some.inj h
        cases hstale : store.isStale clock key service with
        | true => exact .stale hphase hstale
        | false => exact .fresh hphase hstale
      · cases h
  | dispatch =>
      simp only [step?] at h
      split at h
      · rename_i service entries free hphase hfree
        obtain rfl := Option.some.inj h
        exact .dispatched hphase hfree
      · cases h
  | finish position =>
      simp only [step?] at h
      split at h
      · rename_i hposition
        obtain rfl := Option.some.inj h
        exact .finished hposition
      · cases h
  | rest =>
      simp only [step?] at h
      split at h
      · rename_i hphase
        obtain rfl := Option.some.inj h
        exact .rested hphase
      · cases h
  | cancel =>
      obtain rfl := Option.some.inj h
      exact .cancelled
  | stop =>
      simp only [step?] at h
      split at h
      · rename_i hcancelled hphase
        obtain rfl := Option.some.inj h
        exact .stopped hcancelled (Or.inl hphase)
      · rename_i service entries hcancelled hphase
        obtain rfl := Option.some.inj h
        exact .stopped hcancelled (Or.inr ⟨service, entries, hphase⟩)
      · cases h

/-- A snapshot that waits gets a permit if there is one. -/
theorem isSome_dispatch {s : Scheduler} {service : Service}
    {entries : List (ServiceKey × Service)} (hphase : s.phase = .waiting service entries) :
    (s.step? .dispatch).isSome = true ↔ 0 < s.free := by
  cases hfree : s.free with
  | zero => simp [step?, hphase, hfree]
  | succ free => simp [step?, hphase, hfree]

/-! ## Runs -/

/-- Each permit is free or with a refresh that is under way. -/
def Balanced (width : Nat) (s : Scheduler) : Prop := s.free + s.underway.length = width

variable {width : Nat} {s s' : Scheduler}

theorem balanced_ofWidth (width : Nat) : Balanced (poolWidth width) (ofWidth width) := rfl

theorem Balanced.step (h : Balanced width s) {step : Step} (hs : Stepped s step s') :
    Balanced width s' := by
  rw [Balanced] at h
  cases hs with
  | @dispatched free service entries hphase hfree =>
      change free + (s.underway ++ [service]).length = width
      rw [List.length_append, List.length_singleton]
      omega
  | @finished position hposition =>
      change s.free + 1 + (s.underway.eraseIdx position).length = width
      rw [List.length_eraseIdx_of_lt hposition]
      omega
  | started hphase => exact h
  | fresh hphase hfresh => exact h
  | stale hphase hstale => exact h
  | rested hphase => exact h
  | cancelled => exact h
  | stopped hcancelled hphase => exact h

theorem Balanced.run (h : Balanced width s) {steps : List Step} (hrun : s.run? steps = some s') :
    Balanced width s' := by
  induction steps generalizing s with
  | nil =>
      obtain rfl := Option.some.inj hrun
      exact h
  | cons step rest ih =>
      obtain ⟨m, hstep, hrest⟩ := Option.bind_eq_some_iff.mp hrun
      exact ih (h.step (stepped hstep)) hrest

/-- For every configuration the pool has as many permits as are configured, at least one and no
more than a pool can hold. After any steps, over any number of passes, the free permits and the
refreshes under way are together as many; so no more refreshes than that are under way, and a
stale snapshot can be sent off exactly as long as there are fewer. -/
theorem permits_conserved (settings : DirectorySettings) (steps : List Step) (s : Scheduler)
    (hrun : (ofWidth settings.width).run? steps = some s) :
    (ofWidth settings.width).free = settings.width ∧
      1 ≤ settings.width ∧ settings.width ≤ permitLimit ∧
      s.free + s.underway.length = settings.width ∧
      s.underway.length ≤ settings.width ∧
      ∀ service entries, s.phase = .waiting service entries →
        ((s.step? .dispatch).isSome = true ↔ s.underway.length < settings.width) := by
  have hpool : poolWidth settings.width = settings.width :=
    poolWidth_configuredWidth settings.updateThreads
  have hbalanced : s.free + s.underway.length = settings.width := by
    have h := (balanced_ofWidth settings.width).run hrun
    rwa [hpool] at h
  have hone : 1 ≤ settings.width := by
    rw [← hpool]
    exact one_le_poolWidth settings.width
  have hlimit : settings.width ≤ permitLimit := by
    rw [← hpool]
    exact poolWidth_le settings.width
  refine ⟨hpool, hone, hlimit, hbalanced, by omega, ?_⟩
  intro service entries hphase
  rw [isSome_dispatch hphase]
  omega

/-- Two stale snapshots for one permit: the second one waits, is cancelled while it waits, and gets
the permit of the first one when that has ended. -/
def contestedSteps : List Step :=
  [.start [(⟨"a", ""⟩, Service.placeholder "a" ""), (⟨"b", ""⟩, Service.placeholder "b" "")],
    .check 2000 {}, .dispatch, .check 2000 {}, .cancel, .finish 0, .dispatch, .rest, .stop]

theorem contestedSteps_conserve_permits :
    ∃ s, (ofWidth ({ updateThreads := 1 } : DirectorySettings).width).run? contestedSteps =
        some s ∧
      s.underway = [Service.placeholder "b" ""] ∧
      (ofWidth ({ updateThreads := 1 } : DirectorySettings).width).free = 1 ∧
      s.free + s.underway.length = 1 := by
  let s : Scheduler :=
    { free := 0, underway := [Service.placeholder "b" ""], phase := .stopped, cancelled := true }
  have hrun : (ofWidth ({ updateThreads := 1 } : DirectorySettings).width).run? contestedSteps =
      some s := by decide +kernel
  have hconserved := permits_conserved { updateThreads := 1 } contestedSteps s hrun
  exact ⟨s, hrun, rfl, hconserved.1, hconserved.2.2.2.1⟩

end Scheduler

end Refresh

end ServiceDirectory
