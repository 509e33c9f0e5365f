/-
# `Libjapi.Context` — `japi_context`: requests, push services and connected clients

The lists of the context are Lean lists, head first.  A node of `ctx->clients`
keeps its address, since the server loop holds pointers to nodes while nodes
are unlinked; a subscriber of a push service is its socket.  The locks, the
user pointers and the `printf`s are left out: the functions here run in the
server thread, and what two threads do to one list is `Libjapi.PushThreads`.

An allocation is a parameter: `none` where `malloc` returns `NULL`.  The
sockets a function closes are part of its result.
-/
import Libjapi.Creadline

namespace Libjapi

/-- An address of a list node. -/
abbrev Addr := Nat

/-- `japi_req_handler`: the built-in handlers and those of the user. -/
inductive Handler where
  | japiRequestNotFoundHandler
  | japiPushsrvSubscribe
  | japiPushsrvUnsubscribe
  | japiPushsrvList
  | japiCmdList
  | user (id : Nat)
  deriving DecidableEq

/-- `japi_request`. -/
structure JapiRequest where
  name : CStr
  func : Handler
  deriving DecidableEq

/-- `japi_pushsrv_context`: its name and the sockets of its subscribers. -/
structure JapiPushsrvContext where
  addr : Addr
  pushsrvName : CStr
  clients : List Int
  deriving DecidableEq

/-- `japi_client`, as a node of `ctx->clients`. -/
structure JapiClient where
  addr : Addr
  socket : Int
  crlBuffer : CreadlineBuf
  deriving DecidableEq

/-- `japi_context`. -/
structure JapiContext where
  numClients : UInt16
  maxClients : UInt16
  requests : List JapiRequest
  pushServices : List JapiPushsrvContext
  clients : List JapiClient
  includeArgsInResponse : Bool
  shutdown : Bool
  init : Bool

/-! ## Unlinking a node -/

section Unlink

variable {α : Type*} (socketOf : α → Int) (socket : Int)

/-- The loop both `japi_remove_client` and `japi_pushsrv_remove_client` run: the
first node with the socket is unlinked, be it the first, the last or one in
between (the three branches of the source). -/
def unlink : List α → Option (List α)
  | [] => none
  | c :: cs => if socketOf c = socket then some cs else (unlink cs).map (c :: ·)

variable {socketOf socket}

theorem unlink_eq_none {l : List α} :
    unlink socketOf socket l = none ↔ ∀ c ∈ l, socketOf c ≠ socket := by
  induction l with
  | nil => simp [unlink]
  | cons c cs ih =>
      simp only [unlink, List.forall_mem_cons]
      split <;> simp_all

theorem unlink_eq_some {l l' : List α} (h : unlink socketOf socket l = some l') :
    ∃ pre c post, l = pre ++ c :: post ∧ l' = pre ++ post ∧ socketOf c = socket ∧
      ∀ x ∈ pre, socketOf x ≠ socket := by
  induction l generalizing l' with
  | nil => cases h
  | cons c cs ih =>
      simp only [unlink] at h
      split at h
      · rename_i hc
        cases h
        exact ⟨[], c, cs, rfl, rfl, hc, by simp⟩
      · rename_i hc
        obtain ⟨l₁, hl₁, rfl⟩ := Option.map_eq_some_iff.mp h
        obtain ⟨pre, c', post, rfl, rfl, hc', hpre⟩ := ih hl₁
        exact ⟨c :: pre, c', post, rfl, rfl, hc', by simpa [hc] using hpre⟩

theorem unlink_append {pre post : List α} {c : α} (hpre : ∀ x ∈ pre, socketOf x ≠ socket)
    (hc : socketOf c = socket) : unlink socketOf socket (pre ++ c :: post) = some (pre ++ post) := by
  induction pre with
  | nil => simp [unlink, hc]
  | cons x pre ih =>
      have hx := hpre x (by simp)
      simp [unlink, hx, ih fun y hy => hpre y (by simp [hy])]

end Unlink

theorem unlink_id (socket : Int) (l : List Int) :
    unlink id socket l = if socket ∈ l then some (l.erase socket) else none := by
  induction l with
  | nil => rfl
  | cons s l ih =>
      by_cases hs : s = socket
      · simp [unlink, hs]
      · have hs' : ¬ socket = s := fun h => hs h.symm
        simp only [unlink, id_eq, hs, if_false, ih, List.mem_cons, hs', false_or]
        split
        · simp [hs]
        · rfl

/-! ## Subscribers -/

/-- `japi_pushsrv_remove_client`: the service and the return value. -/
def japiPushsrvRemoveClient (psc : JapiPushsrvContext) (socket : Int) : JapiPushsrvContext × Int :=
  match unlink id socket psc.clients with
  | some clients => ({ psc with clients }, 0)
  | none => (psc, -1)

/-- `japi_pushsrv_remove_client_from_all_pushsrv`. -/
def japiPushsrvRemoveClientFromAllPushsrv (ctx : JapiContext) (socket : Int) : JapiContext :=
  { ctx with pushServices := ctx.pushServices.map fun psc => (japiPushsrvRemoveClient psc socket).1 }

theorem japiPushsrvRemoveClient_eq (psc : JapiPushsrvContext) (socket : Int) :
    japiPushsrvRemoveClient psc socket =
      ({ psc with clients := psc.clients.erase socket }, if socket ∈ psc.clients then 0 else -1) := by
  rw [japiPushsrvRemoveClient, unlink_id]
  by_cases h : socket ∈ psc.clients
  · simp only [if_pos h]
  · simp only [if_neg h, List.erase_of_not_mem h]

/-! ## Clients -/

/-- `japi_add_client`: the return value and the context. -/
def japiAddClient (malloc : Option Addr) (ctx : JapiContext) (socket : Int) : Int × JapiContext :=
  match malloc with
  | none => (-1, ctx)
  | some addr =>
      (0, { ctx with
        clients := ⟨addr, socket, ⟨[], 0⟩⟩ :: ctx.clients
        numClients := ctx.numClients + 1 })

/-- What a removal gives: the return value, the context and the sockets it closed. -/
structure Removal where
  ret : Int
  ctx : JapiContext
  closed : List Int

/-- `japi_remove_client`. -/
def japiRemoveClient (ctx : JapiContext) (socket : Int) : Removal :=
  let ctx := japiPushsrvRemoveClientFromAllPushsrv ctx socket
  match unlink JapiClient.socket socket ctx.clients with
  | some clients => ⟨0, { ctx with clients, numClients := ctx.numClients - 1 }, [socket]⟩
  | none => ⟨-1, ctx, []⟩

/-- The loop of `japi_remove_all_clients`.  The nodes still to be visited are
those of the list as it was: a call unlinks the node it is called for or one in
front of it, so the saved `following_client` stays linked. -/
def removeClients : List JapiClient → JapiContext → Removal
  | [], ctx => ⟨0, ctx, []⟩
  | client :: following, ctx =>
      let r := japiRemoveClient ctx client.socket
      if r.ret ≠ 0 then ⟨-1, r.ctx, r.closed⟩
      else
        let r' := removeClients following r.ctx
        { r' with closed := r.closed ++ r'.closed }

/-- `japi_remove_all_clients`. -/
def japiRemoveAllClients (ctx : JapiContext) : Removal := removeClients ctx.clients ctx

/-- The admission test of `japi_start_server`. -/
def JapiContext.admits (ctx : JapiContext) : Bool :=
  ctx.maxClients = 0 ∨ ctx.numClients < ctx.maxClients

/-- The sockets of the connected clients. -/
def JapiContext.sockets (ctx : JapiContext) : List Int := ctx.clients.map JapiClient.socket

/-- **What `japi_remove_client` does**: it takes the socket off every service
once, and unlinks and closes the client if there is one. -/
theorem japiRemoveClient_cases (ctx : JapiContext) (socket : Int) :
    (∃ pre c post, ctx.clients = pre ++ c :: post ∧ c.socket = socket ∧
        (∀ x ∈ pre, x.socket ≠ socket) ∧
        japiRemoveClient ctx socket = ⟨0,
          { japiPushsrvRemoveClientFromAllPushsrv ctx socket with
            clients := pre ++ post, numClients := ctx.numClients - 1 }, [socket]⟩) ∨
      (socket ∉ ctx.sockets ∧
        japiRemoveClient ctx socket
          = ⟨-1, japiPushsrvRemoveClientFromAllPushsrv ctx socket, []⟩) := by
  have hclients : (japiPushsrvRemoveClientFromAllPushsrv ctx socket).clients = ctx.clients := rfl
  cases hu : unlink JapiClient.socket socket ctx.clients with
  | some clients =>
      obtain ⟨pre, c, post, hl, rfl, hc, hpre⟩ := unlink_eq_some hu
      refine .inl ⟨pre, c, post, hl, hc, hpre, ?_⟩
      simp only [japiRemoveClient, hclients, hu]
      rfl
  | none =>
      refine .inr ⟨?_, by simp only [japiRemoveClient, hclients, hu]⟩
      simpa [JapiContext.sockets] using unlink_eq_none.mp hu

theorem japiRemoveClient_of_clients {ctx : JapiContext} {pre post : List JapiClient}
    {c : JapiClient} (hl : ctx.clients = pre ++ c :: post)
    (hpre : ∀ x ∈ pre, x.socket ≠ c.socket) :
    japiRemoveClient ctx c.socket = ⟨0,
      { japiPushsrvRemoveClientFromAllPushsrv ctx c.socket with
        clients := pre ++ post, numClients := ctx.numClients - 1 }, [c.socket]⟩ := by
  have hclients : (japiPushsrvRemoveClientFromAllPushsrv ctx c.socket).clients = pre ++ c :: post :=
    hl
  simp only [japiRemoveClient, hclients, unlink_append hpre rfl]
  rfl

theorem japiRemoveClient_pushServices (ctx : JapiContext) (socket : Int) :
    (japiRemoveClient ctx socket).ctx.pushServices =
      ctx.pushServices.map fun psc => { psc with clients := psc.clients.erase socket } := by
  have hservices : (japiPushsrvRemoveClientFromAllPushsrv ctx socket).pushServices =
      ctx.pushServices.map fun psc => { psc with clients := psc.clients.erase socket } := by
    simp only [japiPushsrvRemoveClientFromAllPushsrv, japiPushsrvRemoveClient_eq]
  rcases japiRemoveClient_cases ctx socket with ⟨pre, c, post, -, -, -, h⟩ | ⟨-, h⟩
  · rw [h]
    exact hservices
  · rw [h]
    exact hservices

end Libjapi
