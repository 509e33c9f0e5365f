/-
# `Libjapi.PushLifecycle` — the thread of a push service, from its start to its end

`japi_pushsrv_start`, `japi_pushsrv_stop` and the end of `japi_pushsrv_destroy`
share one thread id and the flag `enabled`.  The machine here performs them in
any order on one service, with every outcome of `pthread_create`, and keeps the
threads that were started and not joined yet:

    there is at most one, exactly while `enabled` is set, none after a stop
    that succeeded and none when the service is freed, in every state of a
    run exactly if none is started while `enabled` is set       `run_thread_iff`

`japi_pushsrv_stop` tests the flag before it acts; `japi_pushsrv_start` sets it,
and clears it when no thread was created, whatever it was before.

The subscribers and the list of services, which `japi_pushsrv_destroy` takes the
service out of before it stops the thread, are `japiPushsrvDestroy`.
-/
import Libjapi.Runs
import Mathlib.Data.List.Basic

namespace Libjapi

/-! ## The code -/

/-- A `pthread_t`. -/
abbrev ThreadId := Nat

/-- The fields of `japi_pushsrv_context` that are about its thread. -/
structure PushsrvThread where
  threadId : ThreadId
  routine : Option Nat
  enabled : Bool
  deriving DecidableEq

/-- What `pthread_create` does: a thread has the id it wrote, or it failed, and
what it wrote is no thread. -/
inductive PthreadCreate where
  | created (thread : ThreadId)
  | failed (undefined : ThreadId)

/-- What `japi_pushsrv_register` makes of a new service. -/
def PushsrvThread.init : PushsrvThread := ⟨0, none, false⟩

/-- `japi_pushsrv_start`: the return value, the service and the new thread. -/
def japiPushsrvStart (pthreadCreate : PthreadCreate) (psc : Option PushsrvThread)
    (routine : Option Nat) : Int × Option PushsrvThread × Option ThreadId :=
  match psc, routine with
  | none, _ => (-1, none, none)
  | some psc, none => (-2, some psc, none)
  | some _, some routine =>
      match pthreadCreate with
      | .created thread => (0, some ⟨thread, some routine, true⟩, some thread)
      | .failed undefined => (-3, some ⟨undefined, some routine, false⟩, none)

/-- `japi_pushsrv_stop`: the return value, the service and the thread that
`pthread_join` was called for. -/
def japiPushsrvStop (pthreadJoin : ThreadId → Int) (psc : Option PushsrvThread) :
    Int × Option PushsrvThread × Option ThreadId :=
  match psc with
  | none => (-1, none, none)
  | some psc =>
      if psc.enabled = false then (-2, some psc, none)
      else
        (if pthreadJoin psc.threadId ≠ 0 then -3 else 0, some { psc with enabled := false },
          some psc.threadId)

/-! ## The machine -/

/-- A service, `none` once it is freed, the threads that were started for it and
not joined yet, and what the last call returned if it was `japi_pushsrv_stop`. -/
structure PushLifecycle where
  psc : Option PushsrvThread
  unjoined : List ThreadId
  stopped : Option Int
  deriving DecidableEq

namespace PushLifecycle

/-- A call from outside the thread.  What `pthread_join` returns for an id that
is no thread is part of it. -/
inductive Call where
  | start (pthreadCreate : PthreadCreate) (routine : Option Nat)
  | stop (undefined : Int)
  | destroy (undefined : Int)

/-- After `japi_pushsrv_register`. -/
def registered : PushLifecycle := ⟨some PushsrvThread.init, [], none⟩

/-- `pthread_join` of a thread that can be joined succeeds. -/
def pthreadJoin (st : PushLifecycle) (undefined : Int) (thread : ThreadId) : Int :=
  if thread ∈ st.unjoined then 0 else undefined

/-- `japi_pushsrv_start` on the service. -/
def onStart (st : PushLifecycle) (pthreadCreate : PthreadCreate) (routine : Option Nat) :
    PushLifecycle where
  psc := (japiPushsrvStart pthreadCreate st.psc routine).2.1
  unjoined := (japiPushsrvStart pthreadCreate st.psc routine).2.2.toList ++ st.unjoined
  stopped := none

/-- `japi_pushsrv_stop` on the service. -/
def onStop (st : PushLifecycle) (undefined : Int) : PushLifecycle where
  psc := (japiPushsrvStop (st.pthreadJoin undefined) st.psc).2.1
  unjoined := st.unjoined.diff (japiPushsrvStop (st.pthreadJoin undefined) st.psc).2.2.toList
  stopped := some (japiPushsrvStop (st.pthreadJoin undefined) st.psc).1

/-- The end of `japi_pushsrv_destroy`: the thread is stopped, the service freed. -/
def onDestroy (st : PushLifecycle) (undefined : Int) : PushLifecycle :=
  { st.onStop undefined with psc := none, stopped := none }

/-- The id of a new thread is not that of a thread that can still be joined. -/
def Fresh (st : PushLifecycle) : PthreadCreate → Prop
  | .created thread => thread ∉ st.unjoined
  | .failed _ => True

instance (st : PushLifecycle) : DecidablePred st.Fresh
  | .created thread => inferInstanceAs (Decidable (thread ∉ st.unjoined))
  | .failed _ => inferInstanceAs (Decidable True)

/-- One call on the service, until it is freed. -/
def step (st : PushLifecycle) : Call → Option PushLifecycle
  | .start pthreadCreate routine =>
      if st.psc ≠ none ∧ st.Fresh pthreadCreate then some (st.onStart pthreadCreate routine)
      else none
  | .stop undefined => if st.psc ≠ none then some (st.onStop undefined) else none
  | .destroy undefined => if st.psc ≠ none then some (st.onDestroy undefined) else none

/-! ## What holds -/

/-- What the flag is for. -/
structure Good (st : PushLifecycle) : Prop where
  one : st.unjoined.length ≤ 1
  enabled : ∀ psc ∈ st.psc, psc.enabled = true ↔ st.unjoined.length = 1
  stopped : st.stopped = some 0 → st.unjoined = []
  freed : st.psc = none → st.unjoined = []

/-- The thread the service knows of. -/
def known : Option PushsrvThread → List ThreadId
  | none => []
  | some psc => if psc.enabled then [psc.threadId] else []

/-- What carries it along: the threads to be joined are those the service knows of. -/
structure Inv (st : PushLifecycle) : Prop where
  unjoined : st.unjoined = known st.psc
  stopped : st.stopped = some 0 → st.unjoined = []

/-- The condition on a call: no thread is started while `enabled` is set. -/
def NotRunning (st : PushLifecycle) : Call → Prop
  | .start _ (some _) => ∀ psc ∈ st.psc, psc.enabled = false
  | _ => True

theorem Inv.eq {st : PushLifecycle} (hi : st.Inv) : ∃ psc stopped, st = ⟨psc, known psc, stopped⟩ :=
  ⟨st.psc, st.stopped, congrArg (PushLifecycle.mk st.psc · st.stopped) hi.unjoined⟩

theorem Inv.good {st : PushLifecycle} (hi : st.Inv) : st.Good := by
  have hstopped := hi.stopped
  obtain ⟨psc, stopped, rfl⟩ := hi.eq
  refine ⟨?_, ?_, hstopped, ?_⟩
  · cases psc with
    | none => exact Nat.zero_le 1
    | some psc =>
        simp only [known]
        split <;> simp
  · rintro psc rfl
    simp only [known]
    split <;> simp_all
  · rintro rfl
    rfl

theorem inv_registered : registered.Inv := ⟨rfl, fun h => by cases h⟩

theorem Inv.onStart {st : PushLifecycle} (hi : st.Inv) {pthreadCreate : PthreadCreate}
    {routine : Option Nat} (hnot : st.NotRunning (.start pthreadCreate routine)) :
    (st.onStart pthreadCreate routine).Inv := by
  refine ⟨?_, fun h => by cases h⟩
  obtain ⟨psc, stopped, rfl⟩ := hi.eq
  cases psc with
  | none => rfl
  | some psc =>
      cases routine with
      | none => rfl
      | some routine =>
          have hoff : psc.enabled = false := hnot psc rfl
          have hnone : known (some psc) = [] := by simp only [known, hoff, Bool.false_eq_true, if_false]
          cases pthreadCreate with
          | created thread =>
              simp only [PushLifecycle.onStart, japiPushsrvStart, hnone]
              rfl
          | failed undefined =>
              simp only [PushLifecycle.onStart, japiPushsrvStart, hnone]
              rfl

theorem Inv.onStop {st : PushLifecycle} (hi : st.Inv) (undefined : Int) :
    (st.onStop undefined).Inv ∧ (st.onStop undefined).unjoined = [] := by
  obtain ⟨psc, stopped, rfl⟩ := hi.eq
  cases psc with
  | none => exact ⟨⟨rfl, fun _ => rfl⟩, rfl⟩
  | some psc =>
      cases hon : psc.enabled with
      | false =>
          have hnone : known (some psc) = [] := by simp only [known, hon, Bool.false_eq_true, if_false]
          simp only [PushLifecycle.onStop, japiPushsrvStop, hon, if_true, hnone]
          exact ⟨⟨hnone.symm, fun _ => rfl⟩, rfl⟩
      | true =>
          have hone : known (some psc) = [psc.threadId] := by simp only [known, hon, if_true]
          have hdiff : [psc.threadId].diff [psc.threadId] = [] := by simp
          simp only [PushLifecycle.onStop, japiPushsrvStop, hon, reduceCtorEq, if_false, hone,
            Option.toList_some, hdiff]
          exact ⟨⟨rfl, fun _ => rfl⟩, trivial⟩

theorem Inv.step {st st' : PushLifecycle} {call : Call} (hi : st.Inv)
    (hnot : st.NotRunning call) (h : PushLifecycle.step st call = some st') : st'.Inv := by
  cases call with
  | start pthreadCreate routine =>
      obtain ⟨-, heq⟩ := Option.ite_none_right_eq_some.mp h
      cases heq
      exact hi.onStart hnot
  | stop undefined =>
      obtain ⟨-, heq⟩ := Option.ite_none_right_eq_some.mp h
      cases heq
      exact (hi.onStop undefined).1
  | destroy undefined =>
      obtain ⟨-, heq⟩ := Option.ite_none_right_eq_some.mp h
      cases heq
      exact ⟨(hi.onStop undefined).2, fun h => by cases h⟩

/-- Started twice, the service has two threads to be joined; and where the second
one is not created, a thread runs while `enabled` is not set. -/
theorem Inv.notRunning {st st' : PushLifecycle} {call : Call} (hi : st.Inv)
    (h : PushLifecycle.step st call = some st') (hg : st'.Good) : st.NotRunning call := by
  rcases call with ⟨pthreadCreate, _ | routine⟩ | undefined | undefined
  case start.some =>
    obtain ⟨-, heq⟩ := Option.ite_none_right_eq_some.mp h
    cases heq
    obtain ⟨psc, stopped, rfl⟩ := hi.eq
    rintro psc' rfl
    by_contra hon
    have hone : known (some psc') = [psc'.threadId] := by
      simp only [known, Bool.not_eq_false _ ▸ hon, if_true]
    cases pthreadCreate with
    | created thread =>
        have hlen := hg.one
        simp [PushLifecycle.onStart, japiPushsrvStart, hone] at hlen
    | failed undefined =>
        have henabled := hg.enabled ⟨undefined, some routine, false⟩ rfl
        simp [PushLifecycle.onStart, japiPushsrvStart, hone] at henabled
  all_goals trivial

/-- **The flag and the thread agree in every state of a run exactly if** no
thread is started while the flag is set. -/
theorem run_thread_iff {es : List Call} {st : PushLifecycle}
    (hrun : run step registered es = some st) :
    (∀ es₁ es₂ st₁, es = es₁ ++ es₂ → run step registered es₁ = some st₁ → st₁.Good) ↔
      Meets step NotRunning registered es := by
  exact run_good_iff Inv.good Inv.step Inv.notRunning inv_registered hrun

/-- A thread is not created at first, then it is, and the service is destroyed. -/
def startedOnce : List Call :=
  [.start (.failed 7) (some 1), .start (.created 3) (some 1), .destroy (-1)]

theorem run_thread_iff_once :
    run step registered startedOnce = some ⟨none, [], none⟩ ∧
      Good ⟨none, [], none⟩ := by
  have hrun : run step registered startedOnce = some ⟨none, [], none⟩ := by decide +kernel
  refine ⟨hrun, (run_thread_iff hrun).mpr ?_ _ [] _ (by simp) hrun⟩
  refine ⟨?_, fun st₁ h₁ => ⟨?_, fun st₂ h₂ => ⟨trivial, fun _ _ => trivial⟩⟩⟩
  · rintro psc ⟨⟩
    rfl
  · cases h₁
    rintro psc ⟨⟩
    rfl

/-- Started twice and destroyed, the service is freed while a thread runs. -/
theorem startedTwice_runs :
    run step registered [.start (.created 3) (some 1), .start (.created 4) (some 1), .destroy (-1)]
        = some ⟨none, [3], none⟩ ∧ ¬ Good ⟨none, [3], none⟩ :=
  ⟨by decide +kernel, fun hg => absurd (hg.freed rfl) (by simp)⟩

end PushLifecycle

end Libjapi
