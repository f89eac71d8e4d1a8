import Mathlib.Logic.Relation
import Mathlib.Tactic.Common

namespace TibiaLogin.LoopLifetime

/-- Where `websocketThreadMain` stands. The loop lives until the thread exits. -/
inductive ThreadPhase
  | begun
  | registered
  | running
  | returned
  | cleared
  | exited
  deriving DecidableEq, Repr

/-- Where `stopWebsocketAcceptor` stands: `loaded` tells whether the pointer to
the loop was found. -/
inductive StopPhase
  | idle
  | flagged
  | loaded (found : Bool)
  | deferred
  | joined
  | finished
  deriving DecidableEq, Repr

/-- A worker is `tested` between the test of the flag in `safeDefer` and the
call of `defer` that follows it. -/
inductive WorkerPhase
  | working
  | tested
  | leaving
  | gone
  deriving DecidableEq, Repr

structure Threads where
  shuttingDown : Bool
  eventLoop : Bool
  listening : Bool
  closeDeferred : Bool
  activeWorkers : Int
  thread : ThreadPhase
  stop : StopPhase
  workers : List WorkerPhase
  lateDefer : Bool
  deriving DecidableEq, Repr

def Threads.initial : Threads := ⟨false, false, false, false, 0, .begun, .idle, [], false⟩

inductive Event
  | register
  | listen (bound : Bool)
  | spawn
  | closeApp
  | runReturns
  | clear
  | exit
  | flag
  | load
  | deferClose
  | join
  | awaitWorkers
  | test (worker : Nat)
  | deferAnswer (worker : Nat)
  | leave (worker : Nat)
  deriving DecidableEq, Repr

/-- Which step a thread can take next. The run of the loop returns once it has
nothing to listen on: at once after a failed bind, else after `closeApp`. -/
def Enabled (s : Threads) : Event → Prop
  | .register => s.thread = .begun
  | .listen _ => s.thread = .registered
  | .spawn => s.thread = .running ∧ s.listening = true
  | .closeApp => s.thread = .running ∧ s.closeDeferred = true
  | .runReturns => s.thread = .running ∧ s.listening = false
  | .clear => s.thread = .returned
  | .exit => s.thread = .cleared
  | .flag => s.stop = .idle
  | .load => s.stop = .flagged
  | .deferClose => s.stop = .loaded true
  | .join => (s.stop = .loaded false ∨ s.stop = .deferred) ∧ s.thread = .exited
  | .awaitWorkers => s.stop = .joined ∧ s.activeWorkers ≤ 0
  | .test worker => s.workers[worker]? = some .working
  | .deferAnswer worker => s.workers[worker]? = some .tested
  | .leave worker => s.workers[worker]? = some .leaving

instance (s : Threads) : (e : Event) → Decidable (Enabled s e)
  | .register | .clear | .exit => inferInstanceAs (Decidable (s.thread = _))
  | .listen _ => inferInstanceAs (Decidable (s.thread = _))
  | .spawn | .closeApp | .runReturns => inferInstanceAs (Decidable (s.thread = _ ∧ _ = _))
  | .flag | .load | .deferClose => inferInstanceAs (Decidable (s.stop = _))
  | .join => inferInstanceAs (Decidable ((s.stop = _ ∨ s.stop = _) ∧ s.thread = _))
  | .awaitWorkers => inferInstanceAs (Decidable (s.stop = _ ∧ s.activeWorkers ≤ 0))
  | .test worker | .deferAnswer worker | .leave worker => inferInstanceAs (Decidable (s.workers[worker]? = _))

/-- A call of `defer` is late when the loop is gone. -/
def defer (s : Threads) : Threads := { s with lateDefer := s.lateDefer || s.thread = .exited }

def apply (s : Threads) : Event → Threads
  | .register => { s with thread := .registered, eventLoop := true }
  | .listen bound => { s with thread := .running, listening := bound }
  | .spawn => { s with workers := s.workers ++ [.working], activeWorkers := s.activeWorkers + 1 }
  | .closeApp => { s with listening := false, closeDeferred := false }
  | .runReturns => { s with thread := .returned }
  | .clear => { s with thread := .cleared, eventLoop := false }
  | .exit => { s with thread := .exited }
  | .flag => { s with stop := .flagged, shuttingDown := true }
  | .load => { s with stop := .loaded s.eventLoop }
  | .deferClose => { defer s with stop := .deferred, closeDeferred := true }
  | .join => { s with stop := .joined }
  | .awaitWorkers => { s with stop := .finished }
  | .test worker => { s with workers := s.workers.set worker (if s.shuttingDown then .leaving else .tested) }
  | .deferAnswer worker => { defer s with workers := s.workers.set worker .leaving }
  | .leave worker => { s with workers := s.workers.set worker .gone, activeWorkers := s.activeWorkers - 1 }

/-- The states reached by interleavings whose steps all meet a condition. -/
def Reached (condition : Threads → Event → Prop) (s : Threads) : Prop :=
  Relation.ReflTransGen (fun s s' => ∃ e, Enabled s e ∧ condition s e ∧ s' = apply s e) .initial s

theorem Reached.step {condition : Threads → Event → Prop} {s : Threads} (h : Reached condition s) (e : Event)
    (he : Enabled s e) (hc : condition s e) : Reached condition (apply s e) :=
  h.tail ⟨e, he, hc, rfl⟩

/-- The thread exits only while no worker and not the stop itself stands
between the test that lets it defer and the call of `defer`. -/
def ExitsInOrder (s : Threads) (e : Event) : Prop :=
  e = .exit → .tested ∉ s.workers ∧ s.stop ≠ .loaded true

structure Guarded (s : Threads) : Prop where
  in_time : s.lateDefer = false
  heard : s.listening = true ∨ s.workers = [] ∨ s.shuttingDown = true
  closing : s.closeDeferred = true → s.shuttingDown = true
  stopping : s.stop ≠ .idle → s.shuttingDown = true
  silent : s.thread ≠ .running → s.listening = false
  hidden : s.thread = .cleared ∨ s.thread = .exited → s.eventLoop = false
  quiet : s.thread = .exited → .tested ∉ s.workers ∧ s.stop ≠ .loaded true

theorem guarded_initial : Guarded .initial where
  in_time := rfl
  heard := Or.inr (Or.inl rfl)
  closing := nofun
  stopping := fun h => absurd rfl h
  silent := fun _ => rfl
  hidden := fun _ => rfl
  quiet := nofun

section

variable {s : Threads} (h : Guarded s)

include h

theorem heard_set {worker : Nat} {before after : WorkerPhase} (hw : s.workers[worker]? = some before) :
    s.listening = true ∨ s.workers.set worker after = [] ∨ s.shuttingDown = true := by
  rcases h.heard with hl | hn | hf
  · exact Or.inl hl
  · rw [hn] at hw
    cases hw
  · exact Or.inr (Or.inr hf)

theorem not_tested_set {worker : Nat} {after : WorkerPhase} (hafter : after ≠ .tested) (hexit : s.thread = .exited) :
    .tested ∉ s.workers.set worker after := by
  intro hmem
  rcases List.mem_or_eq_of_mem_set hmem with hmem | he
  · exact (h.quiet hexit).1 hmem
  · exact hafter he.symm

theorem flagged_of_exited {worker : Nat} {phase : WorkerPhase} (hw : s.workers[worker]? = some phase)
    (hexit : s.thread = .exited) : s.shuttingDown = true := by
  rcases h.heard with hl | hn | hf
  · rw [h.silent (by rw [hexit]; simp)] at hl
    cases hl
  · rw [hn] at hw
    cases hw
  · exact hf

theorem defer_in_time (hexit : s.thread ≠ .exited) : (defer s).lateDefer = false := by
  simp [defer, h.in_time, hexit]

theorem apply_guarded {e : Event} (he : Enabled s e) (horder : ExitsInOrder s e) : Guarded (apply s e) := by
  cases e with
  | register =>
      exact { h with
        silent := fun _ => h.silent (by rw [he]; simp)
        hidden := by simp [apply]
        quiet := nofun }
  | listen bound =>
      have hsilent : s.listening = false := h.silent (by rw [he]; simp)
      have hheard : s.workers = [] ∨ s.shuttingDown = true := h.heard.resolve_left (by simp [hsilent])
      exact { h with
        heard := Or.inr hheard
        silent := fun hne => absurd rfl hne
        hidden := by simp [apply]
        quiet := nofun }
  | spawn =>
      exact { h with
        heard := Or.inl he.2
        quiet := fun hexit => absurd (he.1.symm.trans hexit) (by simp) }
  | closeApp =>
      exact { h with
        heard := Or.inr (Or.inr (h.closing he.2))
        closing := nofun
        silent := fun _ => rfl }
  | runReturns =>
      exact { h with
        silent := fun _ => he.2
        hidden := by simp [apply]
        quiet := nofun }
  | clear =>
      exact { h with
        silent := fun _ => h.silent (by rw [he]; simp)
        hidden := fun _ => rfl
        quiet := nofun }
  | exit =>
      exact { h with
        silent := fun _ => h.silent (by rw [he]; simp)
        hidden := fun _ => h.hidden (Or.inl he)
        quiet := fun _ => horder rfl }
  | flag =>
      exact { h with
        heard := Or.inr (Or.inr rfl)
        closing := fun _ => rfl
        stopping := fun _ => rfl
        quiet := fun hexit => ⟨(h.quiet hexit).1, nofun⟩ }
  | load =>
      refine { h with
        stopping := fun _ => h.stopping (by rw [he]; simp)
        quiet := fun hexit => ⟨(h.quiet hexit).1, ?_⟩ }
      simp [apply, h.hidden (Or.inr hexit)]
  | deferClose =>
      have hexit : s.thread ≠ .exited := fun hexit => (h.quiet hexit).2 he
      have hflag : s.shuttingDown = true := h.stopping (by rw [he]; simp)
      exact { h with
        in_time := defer_in_time h hexit
        closing := fun _ => hflag
        stopping := fun _ => hflag
        quiet := fun hexit' => absurd hexit' hexit }
  | join =>
      have hflag : s.shuttingDown = true := h.stopping (by rcases he.1 with hs | hs <;> simp [hs])
      exact { h with
        stopping := fun _ => hflag
        quiet := fun hexit => ⟨(h.quiet hexit).1, nofun⟩ }
  | awaitWorkers =>
      exact { h with
        stopping := fun _ => h.stopping (by rw [he.1]; simp)
        quiet := fun hexit => ⟨(h.quiet hexit).1, nofun⟩ }
  | test worker =>
      refine { h with
        heard := heard_set h he
        quiet := fun hexit => ⟨not_tested_set h ?_ hexit, (h.quiet hexit).2⟩ }
      rw [flagged_of_exited h he hexit]
      simp
  | deferAnswer worker =>
      have hexit : s.thread ≠ .exited := fun hexit => (h.quiet hexit).1 (List.mem_of_getElem? he)
      exact { h with
        in_time := defer_in_time h hexit
        heard := heard_set h he
        quiet := fun hexit' => absurd hexit' hexit }
  | leave worker =>
      exact { h with
        heard := heard_set h he
        quiet := fun hexit => ⟨not_tested_set h (by simp) hexit, (h.quiet hexit).2⟩ }

end

theorem late_of_disorder {s : Threads} (h : ¬ExitsInOrder s .exit) :
    ∃ e, Enabled (apply s .exit) e ∧ (apply (apply s .exit) e).lateDefer = true := by
  have hd : .tested ∈ s.workers ∨ s.stop = .loaded true := by
    by_contra hn
    rw [not_or] at hn
    exact h fun _ => hn
  rcases hd with hw | hs
  · obtain ⟨worker, hworker⟩ := List.mem_iff_getElem?.mp hw
    exact ⟨.deferAnswer worker, hworker, by simp [apply, defer]⟩
  · exact ⟨.deferClose, hs, by simp [apply, defer]⟩

/-- No call of `defer` comes after the end of the loop in any interleaving in
which the thread exits in order, and an exit out of order lets one come. -/
theorem no_late_defer {s : Threads} (h : Reached ExitsInOrder s) :
    s.lateDefer = false ∧ (¬ExitsInOrder s .exit →
      ∃ e, Enabled (apply s .exit) e ∧ (apply (apply s .exit) e).lateDefer = true) := by
  have hguarded : Guarded s := by
    induction h with
    | refl => exact guarded_initial
    | tail _ hlast ih =>
        obtain ⟨e, he, horder, rfl⟩ := hlast
        exact apply_guarded ih he horder
  exact ⟨hguarded.in_time, late_of_disorder⟩

theorem no_late_defer_orderly :
    ∃ s, Reached ExitsInOrder s ∧ s.thread = .exited ∧ s.workers = [.leaving, .leaving] ∧ s.lateDefer = false := by
  have horder : ∀ {s : Threads} {e : Event}, e ≠ .exit → ExitsInOrder s e := fun hne he => absurd he hne
  have hstart : Reached ExitsInOrder .initial := Relation.ReflTransGen.refl
  have hreached : Reached ExitsInOrder _ := hstart
    |>.step .register rfl (horder (by simp)) |>.step (.listen true) rfl (horder (by simp))
    |>.step .spawn ⟨rfl, rfl⟩ (horder (by simp)) |>.step .spawn ⟨rfl, rfl⟩ (horder (by simp))
    |>.step (.test 0) rfl (horder (by simp)) |>.step .flag rfl (horder (by simp))
    |>.step .load rfl (horder (by simp)) |>.step .deferClose rfl (horder (by simp))
    |>.step (.deferAnswer 0) rfl (horder (by simp)) |>.step .closeApp ⟨rfl, rfl⟩ (horder (by simp))
    |>.step .runReturns ⟨rfl, rfl⟩ (horder (by simp)) |>.step .clear rfl (horder (by simp))
    |>.step .exit rfl (fun _ => by decide) |>.step (.test 1) rfl (horder (by simp))
  exact ⟨_, hreached, rfl, rfl, (no_late_defer hreached).1⟩

/-- A worker that has found the flag unset, and a stop after a failed bind that
has found the loop, can both be overtaken by the exit of the thread. -/
theorem defer_after_exit :
    (∃ s, Reached (fun _ _ => True) s ∧ s.workers = [.leaving] ∧ s.lateDefer = true) ∧
      ∃ s, Reached (fun _ _ => True) s ∧ s.workers = [] ∧ s.lateDefer = true := by
  have hstart : Reached (fun _ _ => True) .initial := Relation.ReflTransGen.refl
  refine ⟨⟨_, hstart
    |>.step .register rfl trivial |>.step (.listen true) rfl trivial |>.step .spawn ⟨rfl, rfl⟩ trivial
    |>.step (.test 0) rfl trivial |>.step .flag rfl trivial |>.step .load rfl trivial
    |>.step .deferClose rfl trivial |>.step .closeApp ⟨rfl, rfl⟩ trivial |>.step .runReturns ⟨rfl, rfl⟩ trivial
    |>.step .clear rfl trivial |>.step .exit rfl trivial |>.step (.deferAnswer 0) rfl trivial, rfl, rfl⟩,
    ⟨_, hstart
    |>.step .register rfl trivial |>.step (.listen false) rfl trivial |>.step .flag rfl trivial
    |>.step .load rfl trivial |>.step .runReturns ⟨rfl, rfl⟩ trivial |>.step .clear rfl trivial
    |>.step .exit rfl trivial |>.step .deferClose rfl trivial, rfl, rfl⟩⟩

end TibiaLogin.LoopLifetime
