import Mathlib
import TibiaLogin.KeyLifetime

namespace TibiaLogin.Shutdown

open LoopLifetime KeyLifetime

/-- `stopWebsocketAcceptor` is called only once the result of the bind is known. -/
def InTurn (s : Threads) (e : Event) : Prop := e = .flag → s.thread ≠ .begun ∧ s.thread ≠ .registered

def threadLeft : ThreadPhase → Nat
  | .begun => 5
  | .registered => 4
  | .running => 3
  | .returned => 2
  | .cleared => 1
  | .exited => 0

def stopLeft : StopPhase → Nat
  | .idle => 6
  | .flagged => 5
  | .loaded true => 4
  | .loaded false => 2
  | .deferred => 2
  | .joined => 1
  | .finished => 0

def workerLeft : WorkerPhase → Nat
  | .working => 3
  | .tested => 2
  | .leaving => 1
  | .gone => 0

def remaining (s : Threads) : Nat :=
  threadLeft s.thread + stopLeft s.stop + s.closeDeferred.toNat + (s.workers.map workerLeft).sum

/-- The events are possible one after the other. -/
def Trace : Threads → List Event → Threads → Prop
  | s, [], s' => s' = s
  | s, e :: events, s' => Enabled s e ∧ Trace (apply s e) events s'

structure Stopping (s : Threads) : Prop where
  counted : s.activeWorkers = live s
  bound : s.stop ≠ .idle → s.thread ≠ .begun ∧ s.thread ≠ .registered
  shown : s.thread = .registered ∨ s.thread = .running ∨ s.thread = .returned → s.eventLoop = true
  missed : s.stop = .loaded false → s.thread = .cleared ∨ s.thread = .exited
  closing : s.stop = .deferred → s.thread = .running → s.listening = true → s.closeDeferred = true
  joined : s.stop = .joined ∨ s.stop = .finished → s.thread = .exited
  drained : s.stop = .finished → live s = 0

theorem stopping_initial : Stopping .initial where
  counted := rfl
  bound := fun h => absurd rfl h
  shown := by simp [Threads.initial]
  missed := nofun
  closing := nofun
  joined := nofun
  drained := nofun

section

variable {s : Threads}

theorem sum_set {worker : Nat} {before : WorkerPhase} (hw : s.workers[worker]? = some before) (after : WorkerPhase) :
    ((s.workers.set worker after).map workerLeft).sum + workerLeft before =
      (s.workers.map workerLeft).sum + workerLeft after := by
  obtain ⟨hlt, rfl⟩ := List.getElem?_eq_some_iff.mp hw
  have hset := ((List.set_perm_cons_eraseIdx hlt after).map workerLeft).sum_nat
  have hget := ((List.getElem_cons_eraseIdx_perm hlt).map workerLeft).sum_nat
  simp only [List.map_cons, List.sum_cons] at hset hget
  omega

theorem apply_remaining {e : Event} (he : Enabled s e) :
    remaining (apply s e) + 1 ≤ remaining s + if e = .spawn then 4 else 0 := by
  cases e with
  | register | listen bound | clear | exit =>
      have hthread : s.thread = _ := he
      simp only [remaining, apply, hthread, threadLeft, reduceCtorEq, if_false]
      omega
  | runReturns =>
      simp only [remaining, apply, he.1, threadLeft, reduceCtorEq, if_false]
      omega
  | closeApp =>
      simp only [remaining, apply, he.2, Bool.toNat_true, Bool.toNat_false, reduceCtorEq, if_false]
      omega
  | spawn =>
      simp only [remaining, apply, List.map_append, List.sum_append, List.map_cons, List.map_nil, List.sum_cons,
        List.sum_nil, workerLeft, if_true]
      omega
  | flag =>
      have hstop : s.stop = _ := he
      simp only [remaining, apply, hstop, stopLeft, reduceCtorEq, if_false]
      omega
  | load =>
      have hstop : s.stop = _ := he
      cases hloop : s.eventLoop with
      | true | false =>
          simp only [remaining, apply, hstop, hloop, stopLeft, reduceCtorEq, if_false]
          omega
  | deferClose =>
      have hstop : s.stop = _ := he
      simp only [remaining, apply, defer, hstop, stopLeft, Bool.toNat_true, reduceCtorEq, if_false]
      omega
  | join =>
      rcases he.1 with hstop | hstop
      · simp only [remaining, apply, hstop, stopLeft, reduceCtorEq, if_false]
        omega
      · simp only [remaining, apply, hstop, stopLeft, reduceCtorEq, if_false]
        omega
  | awaitWorkers =>
      simp only [remaining, apply, he.1, stopLeft, reduceCtorEq, if_false]
      omega
  | test worker =>
      have hset := sum_set he (if s.shuttingDown then .leaving else .tested)
      have hless : workerLeft (if s.shuttingDown then .leaving else .tested) ≤ 2 := by split <;> decide
      simp only [remaining, apply, workerLeft, reduceCtorEq, if_false] at hset hless ⊢
      omega
  | deferAnswer worker =>
      have hset := sum_set he .leaving
      simp only [remaining, apply, defer, workerLeft, reduceCtorEq, if_false] at hset ⊢
      omega
  | leave worker =>
      have hset := sum_set he .gone
      simp only [remaining, apply, workerLeft, reduceCtorEq, if_false] at hset ⊢
      omega

theorem counted_apply {e : Event} (h : s.activeWorkers = live s) (he : Enabled s e) :
    (apply s e).activeWorkers = live (apply s e) := by
  by_cases hspawn : e = .spawn
  · subst hspawn
    have hstarted : live (apply s .spawn) = live s + 1 := live_started s
    have hactive : (apply s .spawn).activeWorkers = s.activeWorkers + 1 := rfl
    omega
  · have hcount := (apply_counted hspawn he).2
    omega

theorem drained_apply {e : Event} (h : Stopping s) (he : Enabled s e) (hfinished : (apply s e).stop = .finished) :
    live (apply s e) = 0 := by
  have hcounted := h.counted
  have hspawn : e ≠ .spawn := by
    rintro rfl
    have hexited := h.joined (Or.inr hfinished)
    cases he.1.symm.trans hexited
  have hle := (apply_counted hspawn he).1
  rcases finished_cases he hfinished with hbefore | hzero
  · have hdrained := h.drained hbefore
    omega
  · omega

theorem apply_stopping {e : Event} (h : Stopping s) (he : Enabled s e) (hturn : InTurn s e) : Stopping (apply s e) := by
  have hcounted := counted_apply h.counted he
  have hjoined := apply_joined he h.joined
  have hdrained := fun hfinished => drained_apply h he hfinished
  cases e with
  | register =>
      have hidle : s.stop = .idle := by
        by_contra hstop
        exact (h.bound hstop).1 he
      exact { h with
        counted := hcounted
        bound := fun hstop => absurd hidle hstop
        shown := fun _ => rfl
        missed := fun hstop => by cases hidle.symm.trans hstop
        closing := fun hstop => by cases hidle.symm.trans hstop
        joined := hjoined
        drained := hdrained }
  | listen bound =>
      have hidle : s.stop = .idle := by
        by_contra hstop
        exact (h.bound hstop).2 he
      exact { h with
        counted := hcounted
        bound := fun hstop => absurd hidle hstop
        shown := fun _ => h.shown (Or.inl he)
        missed := fun hstop => by cases hidle.symm.trans hstop
        closing := fun hstop => by cases hidle.symm.trans hstop
        joined := hjoined
        drained := hdrained }
  | spawn => exact { h with counted := hcounted, drained := hdrained }
  | closeApp =>
      exact { h with
        counted := hcounted
        closing := fun _ _ hlistening => by cases hlistening
        drained := hdrained }
  | runReturns =>
      exact { h with
        counted := hcounted
        bound := fun _ => by simp [apply]
        shown := fun _ => h.shown (Or.inr (Or.inl he.1))
        missed := fun hstop => by rcases h.missed hstop with hs | hs <;> cases he.1.symm.trans hs
        closing := fun _ hrunning => by cases hrunning
        joined := hjoined
        drained := hdrained }
  | clear =>
      exact { h with
        counted := hcounted
        bound := fun _ => by simp [apply]
        shown := by simp [apply]
        missed := fun _ => Or.inl rfl
        closing := fun _ hrunning => by cases hrunning
        joined := hjoined
        drained := hdrained }
  | exit =>
      exact { h with
        counted := hcounted
        bound := fun _ => by simp [apply]
        shown := by simp [apply]
        missed := fun _ => Or.inr rfl
        closing := fun _ hrunning => by cases hrunning
        joined := fun _ => rfl
        drained := hdrained }
  | flag =>
      exact { h with
        counted := hcounted
        bound := fun _ => hturn rfl
        missed := fun hstop => by cases hstop
        closing := fun hstop => by cases hstop
        joined := fun hstop => by rcases hstop with hs | hs <;> cases hs
        drained := fun hstop => by cases hstop }
  | load =>
      have hbound := h.bound (by rw [he]; simp)
      refine { h with
        counted := hcounted
        bound := fun _ => hbound
        missed := fun hstop => ?_
        closing := fun hstop => by cases hstop
        joined := fun hstop => by rcases hstop with hs | hs <;> cases hs
        drained := fun hstop => by cases hstop }
      have hloop : s.eventLoop = false := StopPhase.loaded.inj hstop
      by_contra hthread
      have hshown := h.shown (by revert hthread hbound; cases hs : s.thread <;> simp [apply, hs])
      cases hloop.symm.trans hshown
  | deferClose =>
      exact { h with
        counted := hcounted
        bound := fun _ => h.bound (by rw [he]; simp)
        missed := fun hstop => by cases hstop
        closing := fun _ _ _ => rfl
        joined := fun hstop => by rcases hstop with hs | hs <;> cases hs
        drained := fun hstop => by cases hstop }
  | join =>
      exact { h with
        counted := hcounted
        bound := fun _ => h.bound (by rcases he.1 with hs | hs <;> simp [hs])
        missed := fun hstop => by cases hstop
        closing := fun hstop => by cases hstop
        joined := fun _ => he.2
        drained := fun hstop => by cases hstop }
  | awaitWorkers =>
      exact { h with
        counted := hcounted
        bound := fun _ => h.bound (by rw [he.1]; simp)
        missed := fun hstop => by cases hstop
        closing := fun hstop => by cases hstop
        joined := hjoined
        drained := hdrained }
  | test worker | deferAnswer worker | leave worker => exact { h with counted := hcounted, drained := hdrained }

theorem reached_stopping (h : Reached InTurn s) : Stopping s := by
  induction h with
  | refl => exact stopping_initial
  | tail _ hlast ih =>
      obtain ⟨e, he, hturn, rfl⟩ := hlast
      exact apply_stopping ih he hturn

theorem worker_enabled (h : 0 < live s) : ∃ e, e ≠ .spawn ∧ Enabled s e := by
  obtain ⟨phase, hmem, hphase⟩ := List.countP_pos_iff.mp h
  obtain ⟨worker, hworker⟩ := List.mem_iff_getElem?.mp hmem
  cases phase with
  | working => exact ⟨.test worker, nofun, hworker⟩
  | tested => exact ⟨.deferAnswer worker, nofun, hworker⟩
  | leaving => exact ⟨.leave worker, nofun, hworker⟩
  | gone => exact absurd rfl (of_decide_eq_true hphase)

theorem thread_enabled (hexit : s.thread ≠ .exited)
    (hclosing : s.thread = .running → s.listening = true → s.closeDeferred = true) : ∃ e, e ≠ .spawn ∧ Enabled s e := by
  cases hthread : s.thread with
  | begun => exact ⟨.register, nofun, hthread⟩
  | registered => exact ⟨.listen true, nofun, hthread⟩
  | running =>
      cases hlistening : s.listening with
      | true => exact ⟨.closeApp, nofun, hthread, hclosing hthread hlistening⟩
      | false => exact ⟨.runReturns, nofun, hthread, hlistening⟩
  | returned => exact ⟨.clear, nofun, hthread⟩
  | cleared => exact ⟨.exit, nofun, hthread⟩
  | exited => exact absurd hthread hexit

theorem stop_enabled (h : Stopping s) (hbegun : s.stop ≠ .idle) (hover : s.stop ≠ .finished) :
    ∃ e, e ≠ .spawn ∧ Enabled s e := by
  cases hstop : s.stop with
  | idle => exact absurd hstop hbegun
  | finished => exact absurd hstop hover
  | flagged => exact ⟨.load, nofun, hstop⟩
  | loaded found =>
      cases found with
      | true => exact ⟨.deferClose, nofun, hstop⟩
      | false =>
          by_cases hexit : s.thread = .exited
          · exact ⟨.join, nofun, Or.inl hstop, hexit⟩
          · refine thread_enabled hexit fun hrunning => ?_
            rcases h.missed hstop with hs | hs <;> cases hrunning.symm.trans hs
  | deferred =>
      by_cases hexit : s.thread = .exited
      · exact ⟨.join, nofun, Or.inr hstop, hexit⟩
      · exact thread_enabled hexit (h.closing hstop)
  | joined =>
      have hcounted := h.counted
      by_cases hlive : 0 < live s
      · exact worker_enabled hlive
      · exact ⟨.awaitWorkers, nofun, hstop, by omega⟩

theorem apply_begun {e : Event} (he : Enabled s e) (hbegun : s.stop ≠ .idle) : (apply s e).stop ≠ .idle := by
  cases e with
  | register | listen | spawn | closeApp | runReturns | clear | exit | test | deferAnswer | leave => exact hbegun
  | flag | load | deferClose | join | awaitWorkers => exact StopPhase.noConfusion

theorem trace_stopping {events : List Event} {s' : Threads} (h : Stopping s) (hbegun : s.stop ≠ .idle)
    (htrace : Trace s events s') : Stopping s' ∧ s'.stop ≠ .idle := by
  induction events generalizing s with
  | nil =>
      obtain rfl : s' = s := htrace
      exact ⟨h, hbegun⟩
  | cons e events ih =>
      obtain ⟨he, hrest⟩ := htrace
      have hturn : InTurn s e := by
        rintro rfl
        exact absurd he hbegun
      exact ih (apply_stopping h he hturn) (apply_begun he hbegun) hrest

theorem trace_remaining {events : List Event} {s' : Threads} (htrace : Trace s events s') :
    remaining s' + events.length ≤ remaining s + 4 * events.count .spawn := by
  induction events generalizing s with
  | nil =>
      obtain rfl : s' = s := htrace
      exact Nat.le_refl _
  | cons e events ih =>
      obtain ⟨he, hrest⟩ := htrace
      have hstep := apply_remaining he
      have hlater := ih hrest
      rw [List.length_cons, List.count_cons]
      simp only [beq_iff_eq]
      split_ifs at hstep ⊢
      · omega
      · omega

end

def stoppingOne : Threads := ⟨true, true, true, false, 1, .running, .flagged, [.working], false⟩

theorem stoppingOne_reached : Reached InTurn stoppingOne := by
  have hturn : ∀ {s : Threads} {e : Event}, e ≠ .flag → InTurn s e := fun hne he => absurd he hne
  have hstart : Reached InTurn .initial := Relation.ReflTransGen.refl
  exact hstart
    |>.step .register rfl (hturn nofun) |>.step (.listen true) rfl (hturn nofun)
    |>.step .spawn ⟨rfl, rfl⟩ (hturn nofun) |>.step .flag rfl (fun _ => ⟨nofun, nofun⟩)

end TibiaLogin.Shutdown
