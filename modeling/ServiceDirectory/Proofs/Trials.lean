import ServiceDirectory.Proofs.Passes
import ServiceDirectory.Simulation.Timeline

/-!
# Trials

A trial on a virtual clock decides by itself what comes next: which step the
scheduler makes, when a question is asked and when it ends. Whatever it decides is
a turn that scheduler or directory can take, so what holds of every run of the two
holds of every trial.
-/

namespace ServiceDirectory.Simulation.Timeline

open Refresh (Scheduler Turn Upkeep)

/-- A run of scheduler and directory that has come as far as a trial. -/
structure Follows (t : Timeline) (u : Upkeep) : Prop where
  scheduler : u.scheduler = t.scheduler
  directory : u.directory = t.directory

/-- Every run that has come as far as one trial can go on to come as far as the other. -/
def LeadsTo (t t' : Timeline) : Prop :=
  ∀ u, t.Follows u → ∃ turns u', u.run? turns = some u' ∧ t'.Follows u'

variable {t t' : Timeline}

theorem LeadsTo.refl (t : Timeline) : t.LeadsTo t := fun u h => ⟨[], u, rfl, h⟩

theorem LeadsTo.trans {t'' : Timeline} (h : t.LeadsTo t') (h' : t'.LeadsTo t'') :
    t.LeadsTo t'' := by
  intro u hu
  obtain ⟨turns, u', hrun, hu'⟩ := h u hu
  obtain ⟨more, u'', hmore, hu''⟩ := h' u' hu'
  refine ⟨turns ++ more, u'', ?_, hu''⟩
  rw [Upkeep.run?, List.foldlM_append]
  exact Option.bind_eq_some_iff.mpr ⟨u', hrun, hmore⟩

/-- A step of the scheduler is a turn. -/
theorem leadsTo_of_step {step : Refresh.Step} (hstore : step.goesBy t.directory.store = true)
    (hstep : t.scheduler.step? step = some t'.scheduler) (hdirectory : t'.directory = t.directory) :
    t.LeadsTo t' := by
  intro u hu
  rw [← hu.directory] at hstore
  rw [← hu.scheduler] at hstep
  refine ⟨[.scheduler step], { u with scheduler := t'.scheduler, visits := u.noted step }, ?_, ?_⟩
  · simp [Upkeep.run?, Upkeep.turn?, hstore, hstep]
  · exact ⟨rfl, hu.directory.trans hdirectory.symm⟩

/-- Steps of the directory are turns. -/
theorem leadsTo_of_run (steps : List Directory.Step) (hscheduler : t'.scheduler = t.scheduler)
    (hrun : t'.directory = t.directory.run steps) : t.LeadsTo t' := by
  intro u hu
  have hturns : u.run? (steps.map .directory) = some { u with done := u.done ++ steps } := by
    clear hu hrun
    induction steps generalizing u with
    | nil => simp [Upkeep.run?]
    | cons s rest ih =>
        have hrest := ih { u with done := u.done ++ [s] }
        rw [List.append_assoc] at hrest
        exact hrest
  refine ⟨_, _, hturns, hu.scheduler.trans hscheduler.symm, ?_⟩
  rw [Upkeep.directory, Directory.run_append, hrun, ← hu.directory]
  rfl

/-! ## What a trial does -/

theorem leadsTo_depart (t : Timeline) (service : Service) : t.LeadsTo (t.depart service) :=
  leadsTo_of_run [.ask (t.directory.singleQuery service.name service.clusters)] rfl rfl

/-- A trial takes the clock, the entries and the stamps for its steps from where it stands. -/
theorem goesBy_of_next? {step : Refresh.Step} (h : t.next? = some step) :
    step.goesBy t.directory.store = true := by
  simp only [next?] at h
  split at h
  · split at h
    · obtain rfl := Option.some.inj h
      rfl
    · split at h
      · obtain rfl := Option.some.inj h
        exact decide_eq_true t.directory.store.isCopy_items
      · cases h
  · obtain rfl := Option.some.inj h
    rfl
  · obtain rfl := Option.some.inj h
    exact decide_eq_true rfl
  · split at h
    · obtain rfl := Option.some.inj h
      rfl
    · split at h
      · obtain rfl := Option.some.inj h
        rfl
      · cases h
  · cases h

theorem leadsTo_take {step : Refresh.Step} (hstore : step.goesBy t.directory.store = true) :
    t.LeadsTo (t.take step) := by
  rw [take]
  cases hstep : t.scheduler.step? step with
  | none => exact .refl t
  | some scheduler =>
      have hleads : t.LeadsTo { t with scheduler } := leadsTo_of_step hstore hstep rfl
      simp only
      split
      · exact hleads.trans (leadsTo_depart _ _)
      · exact leadsTo_of_step hstore hstep rfl
      · exact hleads

theorem leadsTo_proceedWithin (fuel : Nat) (t : Timeline) : t.LeadsTo (t.proceedWithin fuel) := by
  induction fuel generalizing t with
  | zero => exact .refl t
  | succ fuel ih =>
      rw [proceedWithin]
      split
      · rename_i step hnext
        exact (leadsTo_take (goesBy_of_next? hnext)).trans (ih _)
      · exact .refl t

theorem leadsTo_land (t : Timeline) : t.LeadsTo t.land := by
  rw [land]
  split
  · exact .refl t
  · rename_i f flights hflights
    have hfinish : t.LeadsTo
        { t with scheduler := (t.scheduler.step? (.finish 0)).getD t.scheduler } := by
      cases hstep : t.scheduler.step? (.finish 0) with
      | none => exact .refl t
      | some scheduler => exact leadsTo_of_step rfl hstep rfl
    refine hfinish.trans (leadsTo_of_run ((f.answer.meanwhile ++ f.answer.single).map .take) rfl ?_)
    rw [Directory.run_take, ← Directory.settleSingle_eq]

theorem leadsTo_landBefore (t : Timeline) (time : Nat) : t.LeadsTo (t.landBefore time) := by
  rw [landBefore]
  generalize t.dueBefore time = flights
  induction flights generalizing t with
  | nil => exact .refl t
  | cons f rest ih => exact (leadsTo_land t).trans (ih t.land)

theorem leadsTo_alternate (fuel : Nat) (t : Timeline) : t.LeadsTo (t.alternate fuel) := by
  induction fuel generalizing t with
  | zero => exact .refl t
  | succ fuel ih =>
      rw [alternate]
      split
      · exact .refl t
      · exact ((leadsTo_landBefore t _).trans (leadsTo_proceedWithin _ _)).trans (ih _)

theorem leadsTo_settle (t : Timeline) : t.LeadsTo t.settle :=
  ((leadsTo_landBefore t _).trans (leadsTo_proceedWithin _ _)).trans (leadsTo_alternate _ _)

/-- Time that passes is no turn. -/
theorem leadsTo_settle_at (t : Timeline) (now : Nat) : t.LeadsTo { t with now }.settle :=
  have hnow : t.LeadsTo { t with now } := leadsTo_of_run [] rfl rfl
  hnow.trans (leadsTo_settle _)

theorem leadsTo_run (t : Timeline) (now target : Nat) : t.LeadsTo (t.run now target) := by
  fun_induction run t now target with
  | case1 t now settled hlt ih => exact (leadsTo_settle_at t now).trans ih
  | case2 t now settled hge => exact leadsTo_settle_at t now

theorem leadsTo_advance (t : Timeline) (time : Nat) : t.LeadsTo (t.advance time) :=
  leadsTo_run t t.now (max t.now time)

theorem leadsTo_cancel (t : Timeline) : t.LeadsTo t.cancel :=
  @leadsTo_of_step t t.cancel .cancel rfl rfl rfl

/-- A trial that goes on to some time, is told to stop and goes on again comes, both times, to what
a run of its scheduler on its directory comes to. -/
theorem exists_run (t : Timeline) (time after : Nat) :
    ∃ turns u more u',
      Upkeep.run? { scheduler := t.scheduler, origin := t.directory } turns = some u ∧
      (t.advance time).Follows u ∧ u.run? more = some u' ∧
      ((t.advance time).cancel.advance after).Follows u' := by
  obtain ⟨turns, u, hrun, hu⟩ :=
    leadsTo_advance t time { scheduler := t.scheduler, origin := t.directory } ⟨rfl, rfl⟩
  obtain ⟨more, u', hmore, hu'⟩ :=
    (leadsTo_cancel (t.advance time)).trans (leadsTo_advance _ after) u hu
  exact ⟨turns, u, more, u', hrun, hu, hmore, hu'⟩

end ServiceDirectory.Simulation.Timeline
