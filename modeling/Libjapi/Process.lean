/-
# `Libjapi.Process` — all threads of the server, with interrupted system calls

The loop of `japi_start_server` and, for each push service, the call of
`japi_pushsrv_sendmsg` its thread is in.  A step is one call of `select()`,
`creadline_r`, `japi_process_message` or `accept()`, or one `write()` of either
thread; a signal can interrupt `select()`, `accept()` and `write()`, and any of
the `read()`s in `creadline_r`.

    creadline_r     errno == EINTR ⟶ continue          reads again
    write_n         bytes_written <= 0 ⟶ return -1     the client is dropped
    select, accept  -1 ⟶ return -1                     the server ends

The run has the effect of the same run without the interruptions in each of its
states, exactly if none of `select()`, `accept()` and `write()` is interrupted
                                                         `run_sameEffect_iff`
-/
import Libjapi.Interrupts
import Libjapi.RwN
import Libjapi.WriteFraming

namespace Libjapi

open CStr (lit)

/-! ## `write_n` -/

/-- `write_n` under way: the message from `buffer` on, `to_send` and `count`. -/
structure Transfer where
  buffer : List Byte
  toSend : Int
  count : Nat

/-- `write_n(socket, msg, strlen(msg))` is entered; `int to_send = count`. -/
def Transfer.enter (msg : List Byte) : Transfer := ⟨msg, toInt32 msg.length, msg.length⟩

/-- The loop is left with a return value or goes on. -/
inductive TransferTurn where
  | returned (ret : Int)
  | more (t : Transfer)

/-- A turn of the loop, with the return value of `write()`. -/
def Transfer.turn (t : Transfer) (bytesWritten : Int) : TransferTurn :=
  if t.toSend > 0 then
    if bytesWritten ≤ 0 then .returned bytesWritten
    else .more { t with
      buffer := t.buffer.drop bytesWritten.toNat, toSend := t.toSend - bytesWritten }
  else .returned (toInt32 t.count)

/-! ## The machine -/

/-- Where in `japi_pushsrv_sendmsg` the thread of a service is: outside, or in
`write_n` for the node `client`, with the nodes behind it.  `fault` is the access
to a node that was unlinked under the thread. -/
inductive Sending where
  | idle
  | writing (msg : List Byte) (client : Int) (following : List Int) (t : Transfer)
  | fault

/-- The loop of the server, the `write_n` it is in, the threads of the services,
and the bytes each `write()` accepted, with the connection. -/
structure Process where
  serving : Serving
  responding : Option Transfer
  sending : Addr → Sending
  wire : List (Nat × List Byte)

/-- A system call that returns -1 when it is interrupted; `creadline_r` hides those
of `read()`, which are among what is sent on a connection. -/
inductive SysCall where
  | select
  | accept
  | write (w : Writer)

inductive ProcessEvent where
  | serve (e : ServingEvent)
  | sendmsg (psc : Addr) (msg : List Byte)
  | write (w : Writer) (bytesWritten : Int)
  | interrupted (call : SysCall)

/-- The subscribers of a service. -/
def Serving.clientsOf (st : Serving) (psc : Addr) : List Int :=
  ((st.server.ctx.pushServices.find? (·.addr == psc)).map JapiPushsrvContext.clients).getD []

namespace Process

/-- `psc->lock` is held by the thread of the service. -/
def locked (st : Process) (psc : Addr) : Bool :=
  match st.sending psc with
  | .writing _ _ _ _ => true
  | _ => false

/-- The server thread waits for a lock: `japi_pushsrv_add_client` and
`japi_remove_client` take it, `japi_pushsrv_unsubscribe` does not. -/
def waits (st : Process) (e : ServingEvent) (after : Serving) : Bool :=
  st.serving.server.ctx.pushServices.any fun psc => st.locked psc.addr &&
    match e with
    | .loop (.outside _) => false
    | .loop _ => after.clientsOf psc.addr != psc.clients
    | .request _ _ => psc.clients.length < (after.clientsOf psc.addr).length

/-- A step of the server thread. -/
def serve (P : Program) (env : CreadlineEnv) (st : Process) (e : ServingEvent) : Option Process :=
  (Serving.step P env st.serving e).bind fun serving =>
    if st.waits e serving then none else some { st with serving }

/-- The socket of the call of `write_n` a thread is in, and the call. -/
def callOf (st : Process) : Writer → Option (Int × Transfer)
  | .server => match st.serving.server.pc with
      | .serve client _ (.write response) =>
          (st.serving.server.clientAt client).map fun c =>
            (c.socket, st.responding.getD (.enter response))
      | _ => none
  | .service psc => match st.sending psc with
      | .writing _ client _ t => some (client, t)
      | _ => none

/-- The call has got on. -/
def withCall (st : Process) (t : Transfer) : Writer → Process
  | .server => { st with responding := some t }
  | .service psc => match st.sending psc with
      | .writing msg client following _ =>
          { st with sending := Function.update st.sending psc (.writing msg client following t) }
      | _ => st

/-- The thread of the service goes on to the next node, or leaves the loop. -/
def visit (st : Process) (psc : Addr) (msg : List Byte) : List Int → Process
  | [] => { st with sending := Function.update st.sending psc .idle }
  | client :: following =>
      { st with
        sending := Function.update st.sending psc
          (if client :: following <:+ st.serving.clientsOf psc then
            .writing msg client following (.enter msg)
          else .fault) }

/-- `japi_pushsrv_remove_client(psc, socket)`. -/
def removeSubscriber (st : Process) (psc : Addr) (socket : Int) : Process :=
  let server := st.serving.server
  let pushServices := server.ctx.pushServices.map fun p =>
    if p.addr = psc then (japiPushsrvRemoveClient p socket).1 else p
  { st with serving := { st.serving with
      server := { server with ctx := { server.ctx with pushServices } } } }

/-- `write_n` has returned in `japi_pushsrv_sendmsg`. -/
def onSent (st : Process) (psc : Addr) (msg : List Byte) (client : Int) (following : List Int)
    (ret : Int) : Process :=
  if ret ≤ 0 then
    if client :: following <:+ st.serving.clientsOf psc then
      (st.removeSubscriber psc client).visit psc msg following
    else { st with sending := Function.update st.sending psc .fault }
  else st.visit psc msg following

/-- `write_n` has returned. -/
def onReturn (P : Program) (env : CreadlineEnv) (st : Process) (ret : Int) : Writer → Option Process
  | .server => (st.serve P env (.loop (.write ret))).map fun st => { st with responding := none }
  | .service psc => match st.sending psc with
      | .writing msg client following _ => some (st.onSent psc msg client following ret)
      | _ => none

/-- A turn of `write_n`; `write()` accepts at most what it is given, and nothing on
a closed descriptor. -/
def onWrite (P : Program) (env : CreadlineEnv) (st : Process) (w : Writer) (bytesWritten : Int) :
    Option Process :=
  (st.callOf w).bind fun call =>
    match call.2.turn bytesWritten with
    | .returned ret => st.onReturn P env ret w
    | .more t =>
        if bytesWritten ≤ call.2.toSend then
          (connOf st.serving.server.conns call.1).map fun i =>
            { st.withCall t w with
              wire := st.wire ++ [(i, call.2.buffer.take bytesWritten.toNat)] }
        else none

/-- One step of one of the threads. -/
def step (P : Program) (env : CreadlineEnv) (st : Process) : ProcessEvent → Option Process
  | .serve (.loop (.write _)) => none
  | .serve e => st.serve P env e
  | .sendmsg psc msg => match st.sending psc with
      | .idle => some (st.visit psc msg (st.serving.clientsOf psc))
      | _ => none
  | .write w bytesWritten => st.onWrite P env w bytesWritten
  | .interrupted .select => st.serve P env (.loop (.select .failed))
  | .interrupted .accept => st.serve P env (.loop .acceptFailed)
  | .interrupted (.write w) =>
      (st.callOf w).bind fun call => if call.2.toSend > 0 then st.onWrite P env w (-1) else none

/-- The loop is entered, with no clients, and no thread is sending. -/
def start (ctx : JapiContext) (serverSocket : Int) (h : JHeap) : Process where
  serving := ⟨Server.start ctx serverSocket, h⟩
  responding := none
  sending := fun _ => .idle
  wire := []

/-! ## Deleting the interruptions -/

/-- The step without the interruptions. -/
def uninterruptedEvent : ProcessEvent → Option ProcessEvent
  | .serve e => some (.serve e.uninterrupted)
  | .interrupted _ => none
  | e => some e

/-- The run with the `EINTR` results deleted. -/
def deleted (es : List ProcessEvent) : List ProcessEvent := es.filterMap uninterruptedEvent

/-- The state, if no `read()` is interrupted. -/
def uninterrupted (st : Process) : Process := { st with serving := st.serving.uninterrupted }

/-- The bytes sent to a client. -/
def sentTo (st : Process) (conn : Nat) : List Byte :=
  st.wire.flatMap fun w => if w.1 = conn then w.2 else []

/-- The server is in its loop. -/
def Running (st : Process) : Prop :=
  match st.serving.server.pc with
  | .returned _ | .fault => False
  | _ => True

/-- What two runs have done is the same. -/
structure SameEffect (s t : Process) : Prop where
  lines : ∀ conn, linesOf conn s.serving.server.log = linesOf conn t.serving.server.log
  sent : ∀ conn, s.sentTo conn = t.sentTo conn
  connected : s.serving.server.ctx.sockets = t.serving.server.ctx.sockets
  subscribed : ∀ psc, s.serving.clientsOf psc = t.serving.clientsOf psc
  running : s.Running ↔ t.Running
  faults : ∀ psc, s.sending psc = .fault ↔ t.sending psc = .fault

theorem sameEffect_uninterrupted (st : Process) : SameEffect st st.uninterrupted where
  lines _ := rfl
  sent _ := rfl
  connected := rfl
  subscribed _ := rfl
  running := Iff.rfl
  faults _ := Iff.rfl

/-! ## The steps without the interruptions -/

theorem serve_uninterrupted (P : Program) (env : CreadlineEnv) {st : Process}
    (h : st.serving.server.Carries) (e : ServingEvent) :
    st.uninterrupted.serve P env e.uninterrupted = (st.serve P env e).map uninterrupted := by
  have hstep := Serving.step_uninterrupted P env h e
  have hwaits : ∀ after : Serving,
      st.uninterrupted.waits e.uninterrupted after.uninterrupted = st.waits e after := by
    intro after
    cases e with
    | request mem stale => rfl
    | loop e => cases e <;> rfl
  simp only [serve]
  rw [show st.uninterrupted.serving = st.serving.uninterrupted from rfl, hstep]
  cases Serving.step P env st.serving e with
  | none => rfl
  | some after =>
      simp only [Option.map_some, Option.bind_some, hwaits]
      split <;> rfl

theorem callOf_uninterrupted (st : Process) (w : Writer) :
    st.uninterrupted.callOf w = st.callOf w := by
  cases w <;> rfl

theorem withCall_uninterrupted (st : Process) (t : Transfer) (w : Writer) :
    st.uninterrupted.withCall t w = (st.withCall t w).uninterrupted := by
  cases w with
  | server => rfl
  | service psc =>
      have hsending : st.uninterrupted.sending = st.sending := rfl
      simp only [withCall, hsending]
      split <;> rfl

theorem visit_uninterrupted (st : Process) (psc : Addr) (msg : List Byte) (nodes : List Int) :
    st.uninterrupted.visit psc msg nodes = (st.visit psc msg nodes).uninterrupted := by
  cases nodes <;> rfl

theorem onSent_uninterrupted (st : Process) (psc : Addr) (msg : List Byte) (client : Int)
    (following : List Int) (ret : Int) :
    st.uninterrupted.onSent psc msg client following ret =
      (st.onSent psc msg client following ret).uninterrupted := by
  have hremove : st.uninterrupted.removeSubscriber psc client =
      (st.removeSubscriber psc client).uninterrupted := rfl
  have hclients : st.uninterrupted.serving.clientsOf psc = st.serving.clientsOf psc := rfl
  simp only [onSent, hremove, hclients, visit_uninterrupted]
  split
  · split <;> rfl
  · rfl

theorem onReturn_uninterrupted (P : Program) (env : CreadlineEnv) {st : Process}
    (h : st.serving.server.Carries) (ret : Int) (w : Writer) :
    st.uninterrupted.onReturn P env ret w = (st.onReturn P env ret w).map uninterrupted := by
  cases w with
  | server =>
      have hserve := serve_uninterrupted P env h (.loop (.write ret))
      simp only [onReturn]
      rw [show ServingEvent.loop (.write ret) = (ServingEvent.loop (.write ret)).uninterrupted from rfl,
        hserve, Option.map_map, Option.map_map]
      rfl
  | service psc =>
      have hsending : st.uninterrupted.sending = st.sending := rfl
      simp only [onReturn, hsending, onSent_uninterrupted]
      split <;> rfl

theorem onWrite_uninterrupted (P : Program) (env : CreadlineEnv) {st : Process}
    (h : st.serving.server.Carries) (w : Writer) (bytesWritten : Int) :
    st.uninterrupted.onWrite P env w bytesWritten =
      (st.onWrite P env w bytesWritten).map uninterrupted := by
  have hconn : ∀ socket, connOf st.uninterrupted.serving.server.conns socket =
      connOf st.serving.server.conns socket := fun socket => connOf_uninterrupted _ socket
  simp only [onWrite, callOf_uninterrupted, hconn, onReturn_uninterrupted P env h,
    withCall_uninterrupted]
  cases st.callOf w with
  | none => rfl
  | some call =>
      simp only [Option.bind_some]
      cases call.2.turn bytesWritten with
      | returned ret => rfl
      | more t =>
          dsimp only
          split
          · rw [Option.map_map]
            rfl
          · rfl

theorem step_uninterrupted (P : Program) (env : CreadlineEnv) {st : Process}
    (h : st.serving.server.Carries) {e e' : ProcessEvent} (he : uninterruptedEvent e = some e') :
    step P env st.uninterrupted e' = (step P env st e).map uninterrupted := by
  cases e with
  | serve e =>
      cases he
      have hserve := serve_uninterrupted P env h e
      cases e with
      | request mem stale => exact hserve
      | loop e =>
          cases e with
          | write ret => rfl
          | _ => exact hserve
  | sendmsg psc msg =>
      cases he
      have hsending : st.uninterrupted.sending = st.sending := rfl
      have hclients : st.uninterrupted.serving.clientsOf psc = st.serving.clientsOf psc := rfl
      simp only [step, hsending, hclients, visit_uninterrupted]
      split <;> rfl
  | write w bytesWritten =>
      cases he
      exact onWrite_uninterrupted P env h w bytesWritten
  | interrupted call => cases he

/-! ## What every run keeps -/

/-- The tables of the server agree, and less than a block is carried over for each client. -/
structure Inv (st : Process) : Prop where
  sound : st.serving.server.Sound
  carries : st.serving.server.Carries

theorem Inv.serve {P : Program} (hP : LeavesClients P) {env : CreadlineEnv} {st st' : Process}
    (hi : st.Inv) {e : ServingEvent} (h : st.serve P env e = some st') : st'.Inv := by
  obtain ⟨after, hafter, h⟩ := Option.bind_eq_some_iff.mp h
  obtain ⟨es, -, hrun⟩ := Serving.simulated hP hafter
  have hstep : ∀ {s e s'}, Server.Sound s ∧ s.Carries → Server.step env s e = some s' →
      Server.Sound s' ∧ s'.Carries := fun hs h => ⟨hs.1.step h, hs.2.step hs.1 h⟩
  obtain ⟨hsound, hcarries⟩ := run_invariant hstep ⟨hi.sound, hi.carries⟩ hrun
  split at h
  · cases h
  · cases h
    exact ⟨hsound, hcarries⟩

theorem withCall_serving (st : Process) (t : Transfer) (w : Writer) :
    (st.withCall t w).serving = st.serving := by
  cases w with
  | server => rfl
  | service psc =>
      simp only [withCall]
      split <;> rfl

theorem visit_serving (st : Process) (psc : Addr) (msg : List Byte) (nodes : List Int) :
    (st.visit psc msg nodes).serving = st.serving := by
  cases nodes <;> rfl

theorem Inv.removeSubscriber {st : Process} (hi : st.Inv) (psc : Addr) (socket : Int) :
    (st.removeSubscriber psc socket).Inv := by
  have hstep : Server.step ⟨0, fun _ => false⟩ st.serving.server
      (.outside (st.removeSubscriber psc socket).serving.server.ctx) =
        some (st.removeSubscriber psc socket).serving.server := rfl
  exact ⟨hi.sound.step hstep, hi.carries.step hi.sound hstep⟩

theorem Inv.of_serving {st st' : Process} (hi : st.Inv) (h : st'.serving = st.serving) : st'.Inv := by
  refine ⟨?_, ?_⟩
  · rw [h]
    exact hi.sound
  · rw [h]
    exact hi.carries

theorem Inv.onSent {st : Process} (hi : st.Inv) (psc : Addr) (msg : List Byte) (client : Int)
    (following : List Int) (ret : Int) : (st.onSent psc msg client following ret).Inv := by
  unfold Process.onSent
  split
  · split
    · exact (hi.removeSubscriber psc client).of_serving (visit_serving _ _ _ _)
    · exact hi.of_serving rfl
  · exact hi.of_serving (visit_serving _ _ _ _)

theorem Inv.onReturn {P : Program} (hP : LeavesClients P) {env : CreadlineEnv} {st st' : Process}
    (hi : st.Inv) {ret : Int} {w : Writer} (h : st.onReturn P env ret w = some st') : st'.Inv := by
  cases w with
  | server =>
      obtain ⟨after, hafter, rfl⟩ := Option.map_eq_some_iff.mp h
      exact (hi.serve hP hafter).of_serving rfl
  | service psc =>
      simp only [Process.onReturn] at h
      split at h
      · cases h
        exact hi.onSent _ _ _ _ _
      · cases h

theorem Inv.onWrite {P : Program} (hP : LeavesClients P) {env : CreadlineEnv} {st st' : Process}
    (hi : st.Inv) {w : Writer} {bytesWritten : Int}
    (h : st.onWrite P env w bytesWritten = some st') : st'.Inv := by
  obtain ⟨call, -, h⟩ := Option.bind_eq_some_iff.mp h
  split at h
  · exact hi.onReturn hP h
  · split at h
    · obtain ⟨i, -, rfl⟩ := Option.map_eq_some_iff.mp h
      exact hi.of_serving (withCall_serving _ _ _)
    · cases h

theorem Inv.step {P : Program} (hP : LeavesClients P) {env : CreadlineEnv} {st st' : Process}
    (hi : st.Inv) {e : ProcessEvent} (h : step P env st e = some st') : st'.Inv := by
  cases e with
  | serve e =>
      have hserve : st.serve P env e = some st' := by
        cases e with
        | request mem stale => exact h
        | loop e =>
            cases e with
            | write ret => cases h
            | _ => exact h
      exact hi.serve hP hserve
  | sendmsg psc msg =>
      simp only [Process.step] at h
      split at h
      · cases h
        exact hi.of_serving (visit_serving _ _ _ _)
      · cases h
  | write w bytesWritten => exact hi.onWrite hP h
  | interrupted call =>
      cases call with
      | select => exact hi.serve hP h
      | accept => exact hi.serve hP h
      | write w =>
          obtain ⟨call, -, h⟩ := Option.bind_eq_some_iff.mp h
          split at h
          · exact hi.onWrite hP h
          · cases h

theorem inv_start (ctx : JapiContext) (serverSocket : Int) (h : JHeap) :
    (start ctx serverSocket h).Inv := by
  refine ⟨Server.sound_start ctx serverSocket, ?_⟩
  intro c hc
  cases hc

/-- **A run in which `read()`s are interrupted only** is a run without the interruptions. -/
theorem run_uninterrupted {P : Program} (hP : LeavesClients P) {env : CreadlineEnv}
    {es : List ProcessEvent} :
    ∀ {st st' : Process}, st.Inv → (∀ call, .interrupted call ∉ es) →
      run (step P env) st es = some st' →
      run (step P env) st.uninterrupted (deleted es) = some st'.uninterrupted := by
  induction es with
  | nil =>
      intro st st' _ _ hrun
      cases hrun
      rfl
  | cons e es ih =>
      intro st st' hi hes hrun
      obtain ⟨st₁, h₁, h₂⟩ := run_cons.mp hrun
      have hes' : ∀ call, .interrupted call ∉ es := fun call hmem =>
        hes call (List.mem_cons_of_mem e hmem)
      obtain ⟨e', he'⟩ : ∃ e', uninterruptedEvent e = some e' := by
        cases e with
        | interrupted call => exact absurd List.mem_cons_self (hes call)
        | _ => exact ⟨_, rfl⟩
      have hstep := step_uninterrupted P env hi.carries he'
      rw [h₁, Option.map_some] at hstep
      rw [deleted, List.filterMap_cons_some he']
      exact run_cons.mpr ⟨_, hstep, ih (hi.step hP h₁) hes' h₂⟩

/-! ## The other interruptions -/

theorem serve_loop {P : Program} {env : CreadlineEnv} {st st' : Process} {e : Event}
    (h : st.serve P env (.loop e) = some st') :
    Server.step env st.serving.server e = some st'.serving.server := by
  obtain ⟨after, hafter, h⟩ := Option.bind_eq_some_iff.mp h
  split at h
  · cases h
  · cases h
    exact (Serving.step_loop hafter).2

theorem not_running_of_returned {st : Process} {server : Server} {ret : Int}
    (h : some (server.goto (.returned ret)) = some st.serving.server) : ¬ st.Running := by
  have hpc : st.serving.server.pc = .returned ret := by
    rw [← Option.some.inj h]
    rfl
  simp only [Running, hpc, not_false_eq_true]

theorem select_ends {P : Program} {env : CreadlineEnv} {st st' : Process}
    (h : step P env st (.interrupted .select) = some st') : st.Running ∧ ¬ st'.Running := by
  have hstep := serve_loop h
  simp only [Server.step] at hstep
  split at hstep
  · rename_i hpc
    exact ⟨by simp only [Running, hpc], not_running_of_returned hstep⟩
  · cases hstep

theorem accept_ends {P : Program} {env : CreadlineEnv} {st st' : Process}
    (h : step P env st (.interrupted .accept) = some st') : st.Running ∧ ¬ st'.Running := by
  have hstep := serve_loop h
  simp only [Server.step] at hstep
  split at hstep
  · rename_i hpc
    split at hstep
    · exact ⟨by simp only [Running, hpc], not_running_of_returned hstep⟩
    · cases hstep
  · cases hstep

theorem onWrite_failed {P : Program} {env : CreadlineEnv} {st : Process} {w : Writer}
    {call : Int × Transfer} (hcall : st.callOf w = some call) (hleft : call.2.toSend > 0) :
    st.onWrite P env w (-1) = st.onReturn P env (-1) w := by
  have hturn : call.2.turn (-1) = .returned (-1) := by
    rw [Transfer.turn, if_pos hleft, if_pos (by decide)]
  simp only [Process.onWrite, hcall, Option.bind_some, hturn]

theorem sockets_writeFailed {env : CreadlineEnv} {st st' : Server} (hS : st.Sound) {client : Addr}
    {following : Option Addr} {response : List Byte} {c : JapiClient}
    (hpc : st.pc = .serve client following (.write response)) (hc : st.clientAt client = some c)
    (h : Server.step env st (.write (-1)) = some st') :
    st'.ctx.sockets.length + 1 = st.ctx.sockets.length := by
  obtain ⟨pre, post, hl⟩ := List.append_of_mem (List.mem_of_find?_eq_some hc)
  have hl' : (st.record (.written (connOf st.conns c.socket) c.socket response)).ctx.clients =
      pre ++ c :: post := hl
  have hquiet : (Entry.written (connOf st.conns c.socket) c.socket response).quiet := trivial
  obtain ⟨i, conn, -, -, -, -, heq⟩ := (hS.toTables.record hquiet).removeClient hl'
  simp only [Server.step, hpc, Server.onWrite, hc, Option.some.injEq] at h
  rw [if_pos (by decide), heq] at h
  rw [← h]
  simp only [Server.goto, JapiContext.sockets, hl, List.length_map, List.length_append,
    List.length_cons]
  omega

theorem response_drops {P : Program} {env : CreadlineEnv} {st st' : Process} (hi : st.Inv)
    {call : Int × Transfer} (hcall : st.callOf .server = some call)
    (h : st.onReturn P env (-1) .server = some st') :
    st'.serving.server.ctx.sockets.length + 1 = st.serving.server.ctx.sockets.length := by
  obtain ⟨after, hafter, rfl⟩ := Option.map_eq_some_iff.mp h
  simp only [callOf] at hcall
  split at hcall
  · rename_i client following response hpc
    obtain ⟨c, hc, -⟩ := Option.map_eq_some_iff.mp hcall
    have hstep := serve_loop hafter
    exact sockets_writeFailed hi.sound hpc hc hstep
  · cases hcall

theorem clientsOf_removeSubscriber (st : Process) (psc : Addr) (socket : Int) :
    (st.removeSubscriber psc socket).serving.clientsOf psc =
      (st.serving.clientsOf psc).erase socket := by
  simp only [Serving.clientsOf, Process.removeSubscriber]
  induction st.serving.server.ctx.pushServices with
  | nil => rfl
  | cons p services ih =>
      by_cases hp : p.addr = psc
      · simp [hp, japiPushsrvRemoveClient_eq]
      · have hother : (p.addr == psc) = false := by simp [hp]
        simp only [List.map_cons, if_neg hp, List.find?_cons, hother]
        exact ih

/-- An interrupted `write()` of a push message ends the subscription, or the thread
accesses a node that was unlinked. -/
theorem message_ends {P : Program} {env : CreadlineEnv} {st st' : Process} {psc : Addr}
    (h : st.onReturn P env (-1) (.service psc) = some st') :
    (st'.serving.clientsOf psc).length + 1 = (st.serving.clientsOf psc).length ∨
      (st'.sending psc = .fault ∧ st.sending psc ≠ .fault) := by
  simp only [Process.onReturn] at h
  split at h
  · rename_i msg client following t hsending
    cases h
    rw [onSent, if_pos (by decide)]
    split
    · rename_i hsuffix
      have hmem : client ∈ st.serving.clientsOf psc := hsuffix.subset List.mem_cons_self
      left
      rw [visit_serving, clientsOf_removeSubscriber]
      exact List.length_erase_add_one hmem
    · right
      exact ⟨Function.update_self _ _ _, by simp [hsending]⟩
  · cases h

/-- **An interrupted `select()`, `accept()` or `write()` is not without effect.** -/
theorem interrupted_effect {P : Program} {env : CreadlineEnv} {st st' : Process} (hi : st.Inv)
    {call : SysCall} (h : step P env st (.interrupted call) = some st') :
    ¬ SameEffect st' st.uninterrupted := by
  intro hsame
  cases call with
  | select =>
      obtain ⟨hrunning, hended⟩ := select_ends h
      exact hended (hsame.running.mpr hrunning)
  | accept =>
      obtain ⟨hrunning, hended⟩ := accept_ends h
      exact hended (hsame.running.mpr hrunning)
  | write w =>
      obtain ⟨call, hcall, h⟩ := Option.bind_eq_some_iff.mp h
      split at h
      · rename_i hleft
        rw [onWrite_failed hcall hleft] at h
        cases w with
        | server =>
            have hlen := response_drops hi hcall h
            rw [hsame.connected] at hlen
            exact absurd hlen (Nat.succ_ne_self _)
        | service psc =>
            rcases message_ends h with hlen | ⟨hfault, hno⟩
            · rw [hsame.subscribed psc] at hlen
              exact absurd hlen (Nat.succ_ne_self _)
            · exact hno ((hsame.faults psc).mp hfault)
      · cases h

/-- **A run has the effect of the same run with the `EINTR` results deleted**, in
each of its states, exactly if none of `select()`, `accept()` and `write()` is
interrupted in it. -/
theorem run_sameEffect_iff {P : Program} (hP : LeavesClients P) {env : CreadlineEnv}
    {ctx : JapiContext} {serverSocket : Int} {h : JHeap} {es : List ProcessEvent} {st : Process}
    (hrun : run (step P env) (start ctx serverSocket h) es = some st) :
    (∀ es₁ es₂ st₁, es = es₁ ++ es₂ → run (step P env) (start ctx serverSocket h) es₁ = some st₁ →
        ∃ st₂, run (step P env) (start ctx serverSocket h) (deleted es₁) = some st₂ ∧
          SameEffect st₁ st₂) ↔
      ∀ call, .interrupted call ∉ es := by
  have hstart : (start ctx serverSocket h).uninterrupted = start ctx serverSocket h := rfl
  constructor
  · intro hall
    cases hfind : es.find? fun e => (uninterruptedEvent e).isNone with
    | none =>
        intro call hmem
        exact absurd rfl (List.find?_eq_none.mp hfind _ hmem)
    | some e =>
        -- the first interruption, and the run up to it
        obtain ⟨hnone, es₁, es₂, rfl, hfirst⟩ := List.find?_eq_some_iff_append.mp hfind
        obtain ⟨st₁, h₁, h₂⟩ := run_append.mp hrun
        obtain ⟨st₂, hstep, -⟩ := run_cons.mp h₂
        have hes₁ : ∀ call, .interrupted call ∉ es₁ := by
          intro call hmem
          exact absurd (hfirst _ hmem) (by simp [uninterruptedEvent])
        have htwin := run_uninterrupted hP (inv_start ctx serverSocket h) hes₁ h₁
        have hi := run_invariant (fun hi hs => Inv.step hP hi hs) (inv_start ctx serverSocket h) h₁
        cases e with
        | interrupted call =>
            have h₁₂ : run (step P env) (start ctx serverSocket h) (es₁ ++ [.interrupted call]) =
                some st₂ := run_append.mpr ⟨st₁, h₁, run_cons.mpr ⟨st₂, hstep, rfl⟩⟩
            have hsplit : es₁ ++ .interrupted call :: es₂ = es₁ ++ [.interrupted call] ++ es₂ := by
              rw [List.append_assoc, List.singleton_append]
            obtain ⟨st₃, h₃, hsame⟩ := hall _ es₂ st₂ hsplit h₁₂
            have hdeleted : deleted (es₁ ++ [.interrupted call]) = deleted es₁ := by
              rw [deleted, List.filterMap_append]
              exact List.append_nil _
            rw [hdeleted, ← hstart, htwin] at h₃
            cases h₃
            exact absurd hsame (interrupted_effect hi hstep)
        | _ => cases hnone
  · rintro hes es₁ es₂ st₁ rfl h₁
    have hes₁ : ∀ call, .interrupted call ∉ es₁ := fun call hmem =>
      hes call (List.mem_append_left es₂ hmem)
    have htwin := run_uninterrupted hP (inv_start ctx serverSocket h) hes₁ h₁
    rw [hstart] at htwin
    exact ⟨st₁.uninterrupted, htwin, sameEffect_uninterrupted st₁⟩

/-! ## A client that asks for the temperature -/

/-- The request of the client. -/
def temperatureLine : Chunk :=
  ⟨(lit "\x7b\"japi_request\":\"GET_TEMPERATURE\"\x7d").bytes ++ [nl], by decide, by decide⟩

/-- The client connects and is answered, up to the call of `write_n`. -/
def answered (sent : List ReadRes) : List ProcessEvent :=
  [.serve (.loop (.select (.ready [] true))), .serve (.loop .visit),
    .serve (.loop (.accept 4 sent (some 1))), .serve (.loop (.select (.ready [4] false))),
    .serve (.loop .visit), .serve (.loop .read), .serve (.request ⟨true, true⟩ none)]

/-- The answer is interrupted behind three bytes. -/
def interruptedWrite : List ProcessEvent :=
  answered [.data temperatureLine] ++ [.write .server 3, .interrupted (.write .server)]

/-- What a run of a program that registers nothing has done: the clients, the lines
of the first one, and the bytes sent to it. -/
def outcome (es : List ProcessEvent) : Option (List Int × List (List Byte) × List Byte) :=
  (run (step (Program.idle getTemperature) libEnv) (start japiInit 3 ⟨[]⟩) es).map fun st =>
    (st.serving.server.ctx.sockets, linesOf 0 st.serving.server.log, st.sentTo 0)

theorem run_of_outcome {es : List ProcessEvent}
    {o : List Int × List (List Byte) × List Byte} (h : outcome es = some o) :
    ∃ st, run (step (Program.idle getTemperature) libEnv) (start japiInit 3 ⟨[]⟩) es = some st ∧
      st.serving.server.ctx.sockets = o.1 ∧ linesOf 0 st.serving.server.log = o.2.1 ∧
      st.sentTo 0 = o.2.2 := by
  obtain ⟨st, hst, rfl⟩ := Option.map_eq_some_iff.mp h
  exact ⟨st, hst, rfl, rfl, rfl⟩

theorem leavesClients_idle (J : JsonC) : LeavesClients (Program.idle J) :=
  ⟨fun _ _ _ _ _ => rfl, fun _ _ _ _ _ => rfl⟩

/-- The `read()` of the request is interrupted twice, and the request is processed. -/
theorem run_sameEffect_iff_read :
    ∃ st₁ st₂, run (step (Program.idle getTemperature) libEnv) (start japiInit 3 ⟨[]⟩)
        (answered [.eintr, .data temperatureLine, .eintr]) = some st₁ ∧
      run (step (Program.idle getTemperature) libEnv) (start japiInit 3 ⟨[]⟩)
        (deleted (answered [.eintr, .data temperatureLine, .eintr])) = some st₂ ∧
      SameEffect st₁ st₂ ∧
      linesOf 0 st₂.serving.server.log =
        [(lit "\x7b\"japi_request\":\"GET_TEMPERATURE\"\x7d").bytes] := by
  have hout : outcome (answered [.eintr, .data temperatureLine, .eintr]) = some ([4],
      [(lit "\x7b\"japi_request\":\"GET_TEMPERATURE\"\x7d").bytes], []) := by decide +kernel
  obtain ⟨st₁, h₁, -, hlines, -⟩ := run_of_outcome hout
  obtain ⟨st₂, h₂, hsame⟩ := (run_sameEffect_iff (leavesClients_idle getTemperature) h₁).mpr
    (by simp [answered]) _ [] st₁ (List.append_nil _).symm h₁
  exact ⟨st₁, st₂, h₁, h₂, hsame, (hsame.lines 0).symm.trans hlines⟩

/-- **A client is dropped** with the first three bytes of its answer, as a `write()`
is interrupted; without the interruption it is still connected. -/
theorem interruptedWrite_drops :
    ∃ st₁, run (step (Program.idle getTemperature) libEnv) (start japiInit 3 ⟨[]⟩)
        interruptedWrite = some st₁ ∧
      st₁.sentTo 0 = (lit "\x7b \"").bytes ∧ st₁.serving.server.ctx.sockets = [] ∧
      ¬ ∃ st₂, run (step (Program.idle getTemperature) libEnv) (start japiInit 3 ⟨[]⟩)
          (deleted interruptedWrite) = some st₂ ∧ SameEffect st₁ st₂ := by
  have hout : outcome interruptedWrite = some ([],
      [(lit "\x7b\"japi_request\":\"GET_TEMPERATURE\"\x7d").bytes], (lit "\x7b \"").bytes) := by
    decide +kernel
  have hout' : outcome (deleted interruptedWrite) = some ([4],
      [(lit "\x7b\"japi_request\":\"GET_TEMPERATURE\"\x7d").bytes], (lit "\x7b \"").bytes) := by
    decide +kernel
  obtain ⟨st₁, h₁, hsockets, -, hsent⟩ := run_of_outcome hout
  obtain ⟨st, h, hsockets', -, -⟩ := run_of_outcome hout'
  refine ⟨st₁, h₁, hsent, hsockets, ?_⟩
  rintro ⟨st₂, h₂, hsame⟩
  rw [h] at h₂
  cases h₂
  have hconnected := hsame.connected
  rw [hsockets, hsockets'] at hconnected
  cases hconnected

end Process

end Libjapi
