import TibiaLogin.LoopLifetime

namespace TibiaLogin.KeyLifetime

open LoopLifetime

/-- The threads with the key they share. The loop thread is `spawning` between
the increment of the counter and the start of the worker. -/
structure KeyThreads where
  threads : Threads
  spawning : Bool
  key : Bool
  lateUse : Bool
  deriving DecidableEq, Repr

def KeyThreads.initial : KeyThreads := ⟨.initial, false, true, false⟩

/-- The steps of the threads, those of `spawn` taken apart. A worker may use
the key any number of times before it comes to its answer. -/
inductive KeyEvent
  | other (e : Event)
  | increment
  | start
  | useKey (worker : Nat)
  | reset
  deriving DecidableEq, Repr

def ofLoop : Event → Bool
  | .register | .listen _ | .closeApp | .runReturns | .clear | .exit => true
  | _ => false

def live (s : Threads) : Nat := s.workers.countP (· ≠ .gone)

/-- A worker needs a thread id of its own, a positive int; two are taken by the
threads that are always there. -/
def EnabledKey (s : KeyThreads) : KeyEvent → Prop
  | .other e => e ≠ .spawn ∧ Enabled s.threads e ∧ (ofLoop e = true → s.spawning = false)
  | .increment => s.spawning = false ∧ Enabled s.threads .spawn
  | .start => s.spawning = true ∧ live s.threads + 2 < 2147483647
  | .useKey worker => s.threads.workers[worker]? = some .working
  | .reset => s.threads.stop = .finished

def applyKey (s : KeyThreads) : KeyEvent → KeyThreads
  | .other e => { s with threads := apply s.threads e }
  | .increment =>
      { s with
        threads := { s.threads with activeWorkers := s.threads.activeWorkers + 1 }
        spawning := true }
  | .start =>
      { s with
        threads := { s.threads with workers := s.threads.workers ++ [.working] }
        spawning := false }
  | .useKey _ => { s with lateUse := s.lateUse || !s.key }
  | .reset => { s with key := false }

def KeyReached (s : KeyThreads) : Prop :=
  Relation.ReflTransGen (fun s s' => ∃ e, EnabledKey s e ∧ s' = applyKey s e) .initial s

theorem KeyReached.step {s : KeyThreads} (h : KeyReached s) (e : KeyEvent) (he : EnabledKey s e) :
    KeyReached (applyKey s e) :=
  h.tail ⟨e, he, rfl⟩

def pending (s : KeyThreads) : Nat := if s.spawning then 1 else 0

structure KeyGuarded (s : KeyThreads) : Prop where
  counted : s.threads.activeWorkers = live s.threads + pending s
  bounded : live s.threads + 2 < 2147483648
  handling : s.spawning = true → Enabled s.threads .spawn
  joined : s.threads.stop = .joined ∨ s.threads.stop = .finished → s.threads.thread = .exited
  drained : s.threads.stop = .finished → live s.threads = 0
  kept : s.key = false → s.threads.stop = .finished
  in_time : s.lateUse = false

theorem keyGuarded_initial : KeyGuarded .initial where
  counted := rfl
  bounded := by decide
  handling := nofun
  joined := nofun
  drained := nofun
  kept := nofun
  in_time := rfl

section

variable {s : Threads}

theorem live_set {worker : Nat} {before : WorkerPhase} (hw : s.workers[worker]? = some before)
    (hbefore : before ≠ .gone) (after : WorkerPhase) :
    (s.workers.set worker after).countP (· ≠ .gone) + 1 = live s + if after = .gone then 0 else 1 := by
  obtain ⟨hlt, hget⟩ := List.getElem?_eq_some_iff.mp hw
  have hpos : 0 < live s := List.countP_pos_iff.mpr ⟨before, List.mem_of_getElem? hw, decide_eq_true hbefore⟩
  rw [List.countP_set hlt, hget, if_pos (decide_eq_true hbefore), ← live]
  by_cases hafter : after = .gone
  · rw [if_pos hafter, if_neg (by simpa using hafter)]
    omega
  · rw [if_neg hafter, if_pos (decide_eq_true hafter)]
    omega

theorem live_moved {worker : Nat} {before after : WorkerPhase} (hw : s.workers[worker]? = some before)
    (hbefore : before ≠ .gone) (hafter : after ≠ .gone) :
    (s.workers.set worker after).countP (· ≠ .gone) = live s := by
  have hset := live_set hw hbefore after
  rw [if_neg hafter] at hset
  omega

theorem apply_counted {e : Event} (hne : e ≠ .spawn) (he : Enabled s e) :
    live (apply s e) ≤ live s ∧ (apply s e).activeWorkers - live (apply s e) = s.activeWorkers - live s := by
  cases e with
  | spawn => exact absurd rfl hne
  | register | listen | closeApp | runReturns | clear | exit | flag | load | deferClose | join | awaitWorkers =>
      exact ⟨Nat.le_refl _, rfl⟩
  | test worker =>
      have hmoved : live (apply s (.test worker)) = live s := live_moved he (by simp) (by split <;> simp)
      rw [hmoved]
      exact ⟨Nat.le_refl _, rfl⟩
  | deferAnswer worker =>
      have hmoved : live (apply s (.deferAnswer worker)) = live s := live_moved he (by simp) (by simp)
      rw [hmoved]
      exact ⟨Nat.le_refl _, rfl⟩
  | leave worker =>
      have hleft : live (apply s (.leave worker)) + 1 = live s := live_set he (by simp) .gone
      have hactive : (apply s (.leave worker)).activeWorkers = s.activeWorkers - 1 := rfl
      rw [hactive]
      omega

theorem apply_handling {e : Event} (hloop : ofLoop e = false) (h : Enabled s .spawn) : Enabled (apply s e) .spawn := by
  cases e with
  | register | listen | closeApp | runReturns | clear | exit => cases hloop
  | spawn | flag | load | deferClose | join | awaitWorkers | test | deferAnswer | leave => exact h

theorem apply_joined {e : Event} (he : Enabled s e)
    (h : s.stop = .joined ∨ s.stop = .finished → s.thread = .exited) :
    (apply s e).stop = .joined ∨ (apply s e).stop = .finished → (apply s e).thread = .exited := by
  cases e with
  | register | clear | exit =>
      intro hstop
      cases he.symm.trans (h hstop)
  | listen =>
      intro hstop
      cases Eq.trans (Eq.symm he) (h hstop)
  | spawn | closeApp | runReturns =>
      intro hstop
      cases he.1.symm.trans (h hstop)
  | flag | load | deferClose => nofun
  | join => exact fun _ => he.2
  | awaitWorkers => exact fun _ => h (Or.inl he.1)
  | test | deferAnswer | leave => exact h

theorem apply_finished {e : Event} (he : Enabled s e) (h : s.stop = .finished) : (apply s e).stop = .finished := by
  cases e with
  | register | listen | spawn | closeApp | runReturns | clear | exit | test | deferAnswer | leave => exact h
  | flag | load | deferClose => cases he.symm.trans h
  | join =>
      rcases he.1 with hs | hs
      · cases hs.symm.trans h
      · cases hs.symm.trans h
  | awaitWorkers => rfl

theorem finished_cases {e : Event} (he : Enabled s e) (h : (apply s e).stop = .finished) :
    s.stop = .finished ∨ s.activeWorkers ≤ 0 := by
  cases e with
  | register | listen | spawn | closeApp | runReturns | clear | exit | test | deferAnswer | leave => exact Or.inl h
  | flag | load | deferClose | join => cases h
  | awaitWorkers => exact Or.inr he.2

theorem live_started (s : Threads) : live { s with workers := s.workers ++ [.working] } = live s + 1 := by
  rw [live, List.countP_append]
  rfl

end

section

variable {s : KeyThreads} (h : KeyGuarded s)

include h

theorem key_of_working {worker : Nat} (hw : s.threads.workers[worker]? = some .working) : s.key = true := by
  by_contra hkey
  have hnone := h.drained (h.kept (Bool.not_eq_true _ ▸ hkey))
  have hpos : 0 < live s.threads := List.countP_pos_iff.mpr ⟨.working, List.mem_of_getElem? hw, by decide⟩
  omega

theorem applyKey_guarded {e : KeyEvent} (he : EnabledKey s e) : KeyGuarded (applyKey s e) := by
  cases e with
  | other e =>
      obtain ⟨hne, hen, hloop⟩ := he
      obtain ⟨hle, hcount⟩ := apply_counted hne hen
      have hcounted := h.counted
      have hbounded := h.bounded
      exact {
        counted := by
          simp only [applyKey]
          rw [show pending { s with threads := apply s.threads e } = pending s from rfl]
          omega
        bounded := by
          simp only [applyKey]
          omega
        handling := by
          intro hspawning
          cases hl : ofLoop e with
          | true => cases (hloop hl).symm.trans hspawning
          | false => exact apply_handling hl (h.handling hspawning)
        joined := apply_joined hen h.joined
        drained := by
          intro hfinished
          simp only [applyKey]
          rcases finished_cases hen hfinished with hbefore | hzero
          · have hdrained := h.drained hbefore
            omega
          · omega
        kept := fun hkey => apply_finished hen (h.kept hkey)
        in_time := h.in_time }
  | increment =>
      obtain ⟨hidle, hen⟩ := he
      have hcounted := h.counted
      rw [pending, hidle, if_neg Bool.false_ne_true] at hcounted
      exact { h with
        counted := congrArg (· + 1) hcounted
        handling := fun _ => hen }
  | start =>
      obtain ⟨hspawning, hroom⟩ := he
      have hrunning : s.threads.thread = .running := (h.handling hspawning).1
      have hcounted := h.counted
      rw [pending, hspawning, if_pos rfl] at hcounted
      exact { h with
        counted := by
          simp only [applyKey]
          rw [live_started, hcounted]
          rfl
        bounded := by
          simp only [applyKey]
          rw [live_started]
          omega
        handling := nofun
        drained := fun hfinished => by cases hrunning.symm.trans (h.joined (Or.inr hfinished)) }
  | useKey worker =>
      have hkey := key_of_working h he
      exact { h with in_time := by simp [applyKey, h.in_time, hkey] }
  | reset =>
      exact { h with kept := fun _ => he }

end

theorem keyGuarded_of_reached {s : KeyThreads} (h : KeyReached s) : KeyGuarded s := by
  induction h with
  | refl => exact keyGuarded_initial
  | tail _ hlast ih =>
      obtain ⟨e, he, rfl⟩ := hlast
      exact applyKey_guarded ih he

def merged (s : KeyThreads) : Threads := { s.threads with activeWorkers := s.threads.activeWorkers - pending s }

theorem enabled_merged {s : KeyThreads} {e : Event} (he : Enabled s.threads e) : Enabled (merged s) e := by
  cases e with
  | awaitWorkers =>
      have hle := he.2
      exact ⟨he.1, by simp only [merged]; omega⟩
  | register | listen | spawn | closeApp | runReturns | clear | exit | flag | load | deferClose | join | test
  | deferAnswer | leave => exact he

theorem apply_merged (s : KeyThreads) {e : Event} (hne : e ≠ .spawn) :
    apply (merged s) e = merged { s with threads := apply s.threads e } := by
  cases e with
  | spawn => exact absurd rfl hne
  | leave worker =>
      have hcount : s.threads.activeWorkers - pending s - 1 = s.threads.activeWorkers - 1 - pending s := by omega
      simp only [apply, merged, hcount]
      rfl
  | register | listen | closeApp | runReturns | clear | exit | flag | load | deferClose | join | awaitWorkers | test
  | deferAnswer => rfl

theorem reached_merged {s : KeyThreads} (h : KeyReached s) : Reached (fun _ _ => True) (merged s) := by
  induction h with
  | refl => exact Relation.ReflTransGen.refl
  | @tail s _ hrun hlast ih =>
      obtain ⟨e, he, rfl⟩ := hlast
      cases e with
      | other e =>
          have hstep := ih.step e (enabled_merged he.2.1) trivial
          rwa [apply_merged s he.1] at hstep
      | increment =>
          have hsame : merged (applyKey s .increment) = merged s := by
            simp only [merged, applyKey, pending, he.1]
            simp
          rw [hsame]
          exact ih
      | start =>
          have hstep := ih.step .spawn (enabled_merged ((keyGuarded_of_reached hrun).handling he.1)) trivial
          have hspawned : apply (merged s) .spawn = merged (applyKey s .start) := by
            simp only [merged, apply, applyKey, pending, he.1]
            simp
          rwa [hspawned] at hstep
      | useKey worker => exact ih
      | reset => exact ih

/-- The counter is the number of workers started, or about to be, that have
not passed their guard, and no worker uses the key after its reset. -/
theorem key_outlives_workers {s : KeyThreads} (h : KeyReached s) :
    s.threads.activeWorkers = live s.threads + pending s ∧ s.threads.activeWorkers < 2147483648 ∧
      s.lateUse = false ∧ ∀ worker : Nat, s.threads.workers[worker]? = some WorkerPhase.working → s.key = true := by
  have hg := keyGuarded_of_reached h
  have hcounted := hg.counted
  have hbounded := hg.bounded
  have hpending : pending s ≤ 1 := by
    rw [pending]
    split_ifs <;> omega
  exact ⟨hcounted, by omega, hg.in_time, fun _ hw => key_of_working hg hw⟩

theorem key_outlives_workers_two :
    ∃ s, KeyReached s ∧ s.key = false ∧ s.threads.workers = [.gone, .gone] ∧ s.threads.activeWorkers = 0 ∧
      s.lateUse = false := by
  have hstart : KeyReached .initial := Relation.ReflTransGen.refl
  have hreached : KeyReached _ := hstart
    |>.step (.other .register) ⟨by decide, rfl, fun _ => rfl⟩
    |>.step (.other (.listen true)) ⟨by decide, rfl, fun _ => rfl⟩
    |>.step .increment ⟨rfl, rfl, rfl⟩ |>.step .start ⟨rfl, by decide⟩
    |>.step .increment ⟨rfl, rfl, rfl⟩ |>.step (.useKey 0) rfl
    |>.step (.other .flag) ⟨by decide, rfl, nofun⟩ |>.step .start ⟨rfl, by decide⟩
    |>.step (.other .load) ⟨by decide, rfl, nofun⟩ |>.step (.other .deferClose) ⟨by decide, rfl, nofun⟩
    |>.step (.other .closeApp) ⟨by decide, ⟨rfl, rfl⟩, fun _ => rfl⟩
    |>.step (.other .runReturns) ⟨by decide, ⟨rfl, rfl⟩, fun _ => rfl⟩
    |>.step (.other .clear) ⟨by decide, rfl, fun _ => rfl⟩ |>.step (.other .exit) ⟨by decide, rfl, fun _ => rfl⟩
    |>.step (.other .join) ⟨by decide, ⟨Or.inr rfl, rfl⟩, nofun⟩
    |>.step (.other (.test 0)) ⟨by decide, rfl, nofun⟩ |>.step (.other (.leave 0)) ⟨by decide, rfl, nofun⟩
    |>.step (.useKey 1) rfl |>.step (.other (.test 1)) ⟨by decide, rfl, nofun⟩
    |>.step (.other (.leave 1)) ⟨by decide, rfl, nofun⟩
    |>.step (.other .awaitWorkers) ⟨by decide, ⟨rfl, by decide⟩, nofun⟩ |>.step .reset rfl
  exact ⟨_, hreached, rfl, rfl, rfl, (key_outlives_workers hreached).2.2.1⟩

end TibiaLogin.KeyLifetime
