/-
# `Libjapi.Serving` — the loop with the call of `japi_process_message` it makes

`Libjapi.Server` lets a request be answered in any way, `Libjapi.ProcessMessage`
says how the code answers it.  Here the two are put together: the loop calls
`japiProcessMessage` with the context it has and the line it read, goes on with
the context that comes back, and ends where the call aborts the process.

    each step is one or two steps of the loop                        `simulated`
    an entry for a request has the answer to its line                `Answered.step`

The first needs that `japi_process_message` leaves the client list alone, which
holds of the built-in handlers (`japiProcessMessage_clients`) and is asked of
those of the user.
-/
import Libjapi.ServerLines
import Libjapi.Answers

namespace Libjapi

open CStr (lit)

/-! ## The client list -/

/-- The user's handlers leave the client list to the library. -/
structure LeavesClients (P : Program) : Prop where
  clients : ∀ id ctx h jreq jresp, ((P.users id).run ctx h jreq jresp).1.clients = ctx.clients
  numClients : ∀ id ctx h jreq jresp,
    ((P.users id).run ctx h jreq jresp).1.numClients = ctx.numClients

theorem callHandler_ctx {P : Program} {malloc : Bool} {ctx : JapiContext} {h : JHeap}
    {jargs jrespData : JPtr} (hresp : h.typeOf jrespData = .object) {func : Handler}
    {served : Served} (hcall : callHandler P malloc ctx h jargs jrespData func = .ok served) :
    (∃ pushServices, served.ctx = { ctx with pushServices }) ∨
      ∃ id, served.ctx = ((P.users id).run ctx h jargs jrespData).1 := by
  cases func with
  | japiPushsrvSubscribe =>
      obtain ⟨out, heq, -, pushServices, hctx, -⟩ :=
        japiPushsrvSubscribe_ok P.json malloc ctx jargs hresp
      rw [callHandler, heq] at hcall
      cases hcall
      exact .inl ⟨pushServices, hctx⟩
  | japiPushsrvUnsubscribe =>
      obtain ⟨out, heq, -, -, pushServices, hctx, -⟩ :=
        japiPushsrvUnsubscribe_ok P.json ctx jargs hresp
      rw [callHandler, heq] at hcall
      cases hcall
      exact .inl ⟨pushServices, hctx⟩
  | user id =>
      cases hcall
      exact .inr ⟨id, rfl⟩
  | _ =>
      obtain ⟨hctx, -⟩ := callHandler_sameCtx hresp (by simp) (by simp) (by simp) hcall
      exact .inl ⟨ctx.pushServices, hctx⟩

/-- **`japi_process_message` leaves the clients and their number alone.** -/
theorem japiProcessMessage_clients {P : Program} (hP : LeavesClients P) {mem : Mem}
    {stale : Option CStr} {ctx : JapiContext} {h : JHeap} {request : CStr} {socket : Int}
    {out : Outcome} (hout : japiProcessMessage P mem stale ctx h request socket = .ok out) :
    out.ctx.clients = ctx.clients ∧ out.ctx.numClients = ctx.numClients := by
  rcases japiProcessMessage_ok hout with
    ⟨hctx, -⟩ | ⟨_, _, h', jargs, jrespData, _, -, hresp, -, hserved, hctx, -⟩
  · rw [hctx]
    exact ⟨rfl, rfl⟩
  · rw [hctx]
    rcases callHandler_ctx hresp hserved with ⟨pushServices, heq⟩ | ⟨id, heq⟩
    · rw [heq]
      exact ⟨rfl, rfl⟩
    · rw [heq]
      exact ⟨hP.clients id ctx h' jargs jrespData, hP.numClients id ctx h' jargs jrespData⟩

/-! ## The machine -/

/-- The loop, and the JSON objects of the process. -/
structure Serving where
  server : Server
  heap : JHeap

/-- A step of the loop, or its call of `japi_process_message`. -/
inductive ServingEvent where
  | loop (e : Event)
  | request (mem : Mem) (stale : Option CStr)

/-- What is sent to the server, if anything, is text. -/
def ServingEvent.SendsText : ServingEvent → Prop
  | .loop e => Server.SendsText e
  | .request _ _ => True

namespace Serving

open Server

/-- The context and the objects after the call are those the loop goes on with. -/
def onRequest (st : Serving) (client : Addr) (following : Option Addr) (request : List Byte)
    (out : Outcome) : Serving where
  server := { st.server with ctx := out.ctx }.onProcess client following request
    (out.response.map CStr.bytes)
  heap := out.heap

/-- The next step; there is none behind a call that aborts. -/
def step (P : Program) (env : CreadlineEnv) (st : Serving) : ServingEvent → Option Serving
  | .loop (.process _) => none
  | .loop e => (Server.step env st.server e).map fun server => { st with server }
  | .request mem stale => match st.server.pc with
      | .serve client following (.process request) =>
          match st.server.clientAt client with
          | none => none
          | some c =>
              match japiProcessMessage P mem stale st.server.ctx st.heap (CStr.ofBytes request)
                  c.socket with
              | .error _ => none
              | .ok out => some (st.onRequest client following request out)
      | _ => none

theorem step_request {P : Program} {env : CreadlineEnv} {st st' : Serving} {mem : Mem}
    {stale : Option CStr} (h : step P env st (.request mem stale) = some st') :
    ∃ client following request c out,
      st.server.pc = .serve client following (.process request) ∧
      st.server.clientAt client = some c ∧
      japiProcessMessage P mem stale st.server.ctx st.heap (CStr.ofBytes request) c.socket
        = .ok out ∧
      st' = st.onRequest client following request out := by
  simp only [step] at h
  split at h
  · rename_i client following request hpc
    split at h
    · cases h
    · rename_i c hc
      split at h
      · cases h
      · rename_i out hout
        exact ⟨client, following, request, c, out, hpc, hc, hout, (Option.some.inj h).symm⟩
  · cases h

theorem step_loop {P : Program} {env : CreadlineEnv} {st st' : Serving} {e : Event}
    (h : step P env st (.loop e) = some st') :
    (∀ r, e ≠ .process r) ∧ Server.step env st.server e = some st'.server := by
  have hmap : ∀ {o : Option Server}, (o.map fun server => { st with server }) = some st' →
      o = some st'.server := by
    intro o ho
    obtain ⟨server, hserver, rfl⟩ := Option.map_eq_some_iff.mp ho
    exact hserver
  cases e with
  | process r => cases h
  | _ => exact ⟨fun r => by simp, hmap h⟩

/-! ## The loop, step by step -/

/-- **Each step is a step of the loop**, the call of `japi_process_message` being
a change of the context that leaves the clients alone, and an answer. -/
theorem simulated {P : Program} (hP : LeavesClients P) {env : CreadlineEnv} {st st' : Serving}
    {e : ServingEvent} (h : step P env st e = some st') :
    ∃ es, (e.SendsText → ∀ d ∈ es, Server.SendsText d) ∧
      run (Server.step env) st.server es = some st'.server := by
  cases e with
  | loop e =>
      obtain ⟨-, hstep⟩ := step_loop h
      refine ⟨[e], ?_, run_cons.mpr ⟨_, hstep, rfl⟩⟩
      intro he d hd
      rw [List.mem_singleton.mp hd]
      exact he
  | request mem stale =>
      obtain ⟨client, following, request, c, out, hpc, hc, hout, rfl⟩ := step_request h
      obtain ⟨hclients, hnum⟩ := japiProcessMessage_clients hP hout
      refine ⟨[.outside out.ctx, .process (out.response.map CStr.bytes)], ?_, ?_⟩
      · intro _ d hd
        simp only [List.mem_cons, List.not_mem_nil, or_false] at hd
        rcases hd with rfl | rfl <;> trivial
      · refine run_cons.mpr ⟨{ st.server with ctx := out.ctx }, ?_, run_cons.mpr ⟨_, ?_, rfl⟩⟩
        · simp only [Server.step, ← hclients, ← hnum]
        · simp only [Server.step, hpc]
          rfl

/-! ## The answers -/

/-- The response is what `japi_process_message` makes of the line for the socket. -/
def AnswerTo (P : Program) (line : List Byte) (socket : Int) (response : Option (List Byte)) :
    Prop :=
  ∃ mem stale ctx h out, japiProcessMessage P mem stale ctx h (CStr.ofBytes line) socket = .ok out ∧
    out.response.map CStr.bytes = response

/-- Each line in the log was answered by `japi_process_message`. -/
def Answered (P : Program) (log : List Entry) : Prop :=
  ∀ co l s r, Entry.processed co l s r ∈ log → AnswerTo P l s r

theorem processed_close {st : Server} {socket : Int} {co : Option Nat} {l : List Byte} {s : Int}
    {r : Option (List Byte)} (h : Entry.processed co l s r ∈ (st.close socket).log) :
    Entry.processed co l s r ∈ st.log := by
  unfold Server.close at h
  split at h <;> simpa [Server.record] using h

theorem processed_closes {co : Option Nat} {l : List Byte} {s : Int} {r : Option (List Byte)} :
    ∀ (sockets : List Int) (st : Server),
      Entry.processed co l s r ∈ (sockets.foldl Server.close st).log →
      Entry.processed co l s r ∈ st.log
  | [], _, h => h
  | _ :: sockets, _, h => processed_close (processed_closes sockets _ h)

theorem processed_removeClient (st : Server) {socket : Int} {co : Option Nat} {l : List Byte}
    {s : Int} {r : Option (List Byte)}
    (h : Entry.processed co l s r ∈ (st.removeClient socket).log) :
    Entry.processed co l s r ∈ st.log :=
  processed_closes _ { st with ctx := (japiRemoveClient st.ctx socket).ctx } h

theorem processed_of_stepped {env : CreadlineEnv} {st st' : Server} {e : Event}
    (h : Stepped env st e st') {co : Option Nat} {l : List Byte} {s : Int}
    {r : Option (List Byte)} (hmem : Entry.processed co l s r ∈ st'.log) :
    Entry.processed co l s r ∈ st.log ∨ e = .process r := by
  cases h with
  | shutDown res hpc =>
      exact .inl (processed_closes _ { st with ctx := (japiRemoveAllClients st.ctx).ctx } hmem)
  | @gone pre c post hl hpc hret =>
      exact .inl (processed_removeClient (st.afterRead c (st.lineOf env c)) hmem)
  | process hl hpc =>
      rcases List.mem_append.mp hmem with hold | hnew
      · exact .inl hold
      · cases List.mem_singleton.mp hnew
        exact .inr rfl
  | respond r' hl hpc =>
      rcases List.mem_append.mp hmem with hold | hnew
      · exact .inl hold
      · cases List.mem_singleton.mp hnew
        exact .inr rfl
  | written ret hl hpc => exact .inl (by simpa [Server.record, Server.goto] using hmem)
  | @writeFailed pre c post r' ret hl hpc hret =>
      have hold := processed_removeClient
        (st.record (.written (connOf st.conns c.socket) c.socket r')) hmem
      exact .inl (by simpa [Server.record] using hold)
  | admitted sent hpc hfresh hadm => exact .inl (by simpa using hmem)
  | leaked sent hpc hfresh hadm => exact .inl (by simpa using hmem)
  | refused sent hpc hfresh hadm => exact .inl (by simpa using hmem)
  | _ => exact .inl hmem

theorem loopTest_log (st : Server) (client : Addr) (following : Option Addr) :
    (st.loopTest client following).log = st.log := by
  unfold Server.loopTest
  split
  · rfl
  · split <;> rfl

theorem onProcess_log {st : Server} {client : Addr} {c : JapiClient}
    (hc : st.clientAt client = some c) (following : Option Addr) (request : List Byte)
    (response : Option (List Byte)) :
    (st.onProcess client following request response).log =
      st.log ++ [.processed (connOf st.conns c.socket) request c.socket response] := by
  unfold Server.onProcess
  rw [hc]
  cases response with
  | none => exact loopTest_log _ _ _
  | some r => rfl

/-- **Every step keeps the log answered.** -/
theorem Answered.step {P : Program} (hP : LeavesClients P) {env : CreadlineEnv} {st st' : Serving}
    {e : ServingEvent} (hS : st.server.Sound) (h : Answered P st.server.log)
    (hs : step P env st e = some st') : Answered P st'.server.log := by
  intro co l s r hmem
  cases e with
  | loop e =>
      obtain ⟨hne, hstep⟩ := step_loop hs
      rcases processed_of_stepped (hS.stepped hstep) hmem with hold | rfl
      · exact h co l s r hold
      · exact absurd rfl (hne r)
  | request mem stale =>
      obtain ⟨client, following, request, c, out, -, hc, hout, rfl⟩ := step_request hs
      obtain ⟨hclients, -⟩ := japiProcessMessage_clients hP hout
      have hc' : { st.server with ctx := out.ctx }.clientAt client = some c := by
        rw [← hc, Server.clientAt, Server.clientAt, hclients]
      have hlog := onProcess_log hc' following request (out.response.map CStr.bytes)
      rw [onRequest, hlog] at hmem
      rcases List.mem_append.mp hmem with hold | hnew
      · exact h co l s r hold
      · cases List.mem_singleton.mp hnew
        exact ⟨mem, stale, st.server.ctx, st.heap, out, hout, rfl⟩

end Serving

end Libjapi
