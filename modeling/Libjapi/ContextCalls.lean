/-
# `Libjapi.ContextCalls` — a call on a context, in memory and on lists

What the functions of `japi.c` and `japi_pushsrv.c` do to a `japi_context` is
modelled twice: on the nodes and pointers (`Libjapi.ContextMem`), where an access
to a node that was freed gets stuck, and on lists (`Libjapi.Context`).  Here are
both for every call, and that they match, call by call:

    `Standing`   the lists are all that is in memory, next to the services whose
                 mutex could not be initialized
    `Agrees`     they are the lists of the context
    `Matches`    after a call, both hold again, and both returned the same

Whole sequences of calls are in `Libjapi.ContextRuns`.  A `malloc` that succeeds
gives an address that is not in use.
-/
import Libjapi.ServiceList

namespace Libjapi

open CStr (lit)
open HeapList

namespace ContextMem

/-! ## The code -/

/-- The loop of `japi_get_request_handler`. -/
def requestLoop (name : CStr) : Nat → ContextMem → Option Addr → Option (Option Handler)
  | 0, _, _ => none
  | _ + 1, _, none => some none
  | turns + 1, m, some req =>
      (m.requestCells req).bind fun c =>
        if strcasecmp name c.val.name = 0 then some (some c.val.func)
        else requestLoop name turns m c.next

/-- `japi_get_request_handler`. -/
def getRequestHandler (bound : Nat) (m : ContextMem) (name : CStr) : Option (Option Handler) :=
  requestLoop name bound m m.requests

/-- `japi_register_request`, after the check that `ctx` is not `NULL`. -/
def registerRequest (bound : Nat) (m : ContextMem) (init : Bool) (malloc : Option Addr)
    (reqName : Option CStr) (reqHandler : Option Handler) : Option (ContextMem × Int) :=
  match reqName with
  | none => some (m, -2)
  | some name =>
      if strcmp name (lit "") = 0 then some (m, -2)
      else
        match reqHandler with
        | none => some (m, -3)
        | some func =>
            (m.getRequestHandler bound name).map fun registered =>
              if registered.isSome then (m, -4)
              else if init ∧ strncmp name (lit "japi_") (lit "japi_").bytes.length = 0 then (m, -6)
              else
                match malloc with
                | none => (m, -5)
                | some req =>
                    ({ m with
                      requestCells := Function.update m.requestCells req
                        (some ⟨⟨name, func⟩, m.requests⟩)
                      requests := some req }, 0)

/-- The loop of `japi_cmd_list`. -/
def cmdLoop (jarray : JPtr) : Nat → ContextMem → JHeap → Option Addr → Option JHeap
  | 0, _, _, _ => none
  | _ + 1, _, h, none => some h
  | turns + 1, m, h, some req =>
      (m.requestCells req).bind fun c =>
        cmdLoop jarray turns m ((h.alloc (.string c.val.name.bytes)).2.arrayAdd jarray
          (h.alloc (.string c.val.name.bytes)).1) c.next

/-- `japi_cmd_list`. -/
def cmdList (bound : Nat) (m : ContextMem) (h : JHeap) (response : JPtr) :
    Option (Except Abort JHeap) :=
  (cmdLoop (h.alloc (.array [])).1 bound m (h.alloc (.array [])).2 m.requests).map fun h' =>
    h'.objectAdd response (lit "commands") (h.alloc (.array [])).1

/-- `japi_pushsrv_sendmsg`. -/
def pushsrvSendmsg (J : JsonC) (bound : Nat) (m : ContextMem) (malloc : Bool) (writeN : Nat → Int)
    (h : JHeap) (psc : Addr) (jmsgData : JPtr) : Option (ContextMem × Walk) :=
  (m.serviceCells psc).bind fun c =>
    (sendmsgNodes J malloc writeN bound h c.val.pushsrvName ⟨m.nodes, c.val.clients⟩ jmsgData).map
      fun w =>
        ({ m with
          nodes := w.mem.cells
          serviceCells := Function.update m.serviceCells psc
            (some { c with val := { c.val with clients := w.mem.head } }) }, w)

end ContextMem

/-- `japi_context` in memory, with the fields that are no lists. -/
structure MemoryContext where
  mem : ContextMem
  maxClients : UInt16
  includeArgsInResponse : Bool
  shutdown : Bool
  init : Bool

/-- The same on lists.  `closed` are the sockets closed so far. -/
structure ListContext where
  ctx : JapiContext
  closed : List Int

/-- A call on the context; what the allocations in it give, and what `write_n`
returns, is part of it. -/
inductive ContextCall where
  | registerRequest (malloc : Option Addr) (reqName : Option CStr) (reqHandler : Option Handler)
  | pushsrvRegister (new : ContextMem.NewService) (pushsrvName : Option CStr)
  | pushsrvDestroy (psc : Option Addr)
  | addClient (malloc : Option Addr) (socket : Int)
  | removeClient (socket : Int)
  | removeAllClients
  | subscribe (malloc : Option Addr) (pushsrvName : CStr) (socket : Int)
  | unsubscribe (pushsrvName : CStr) (socket : Int)
  | sendmsg (malloc : Bool) (writeN : Nat → Int) (h : JHeap) (psc : Addr) (jmsgData : JPtr)
  | setMaxAllowedClients (num : UInt16)
  | includeArgsInResponse (includeArgs : Bool)
  | shutdown

/-- What a call returns.  The loops of `japi_pushsrv_subscribe` and
`japi_pushsrv_unsubscribe` leave `psc` and `ret`, and two flags. -/
inductive Reply where
  | int (ret : Int)
  | service (psc : Option Addr)
  | subscribed (found : Option (Addr × Int))
  | unsubscribed (registered unsubscribed : Bool)
  | sent (success : Int) (sockets : List Int)
  deriving DecidableEq

/-- A call in memory. -/
def MemoryContext.perform (J : JsonC) (bound : Nat) (c : MemoryContext) :
    ContextCall → Option (MemoryContext × Reply)
  | .registerRequest malloc reqName reqHandler =>
      (c.mem.registerRequest bound c.init malloc reqName reqHandler).map fun r =>
        ({ c with mem := r.1 }, .int r.2)
  | .pushsrvRegister new pushsrvName =>
      (c.mem.pushsrvRegister bound new pushsrvName).map fun r =>
        ({ c with mem := r.1 }, .service r.2)
  | .pushsrvDestroy psc =>
      (c.mem.pushsrvDestroy bound psc).map fun r => ({ c with mem := r.1 }, .int r.2)
  | .addClient malloc socket =>
      some ({ c with mem := (c.mem.addClient malloc socket).1 },
        .int (c.mem.addClient malloc socket).2)
  | .removeClient socket =>
      (c.mem.removeClient bound socket).map fun r => ({ c with mem := r.1 }, .int r.2)
  | .removeAllClients =>
      (c.mem.removeAllClients bound).map fun r => ({ c with mem := r.1 }, .int r.2)
  | .subscribe malloc pushsrvName socket =>
      (ContextMem.subscribeWalk malloc pushsrvName socket bound c.mem c.mem.pushServices).map
        fun r => ({ c with mem := r.1 }, .subscribed r.2)
  | .unsubscribe pushsrvName socket =>
      (ContextMem.unsubscribeWalk bound pushsrvName socket bound c.mem c.mem.pushServices
        false).map fun r => ({ c with mem := r.1 }, .unsubscribed r.2.1 r.2.2)
  | .sendmsg malloc writeN h psc jmsgData =>
      (c.mem.pushsrvSendmsg J bound malloc writeN h psc jmsgData).map fun r =>
        ({ c with mem := r.1 }, .sent r.2.success (r.2.attempts.map Attempt.socket))
  | .setMaxAllowedClients num => some ({ c with maxClients := num }, .int 0)
  | .includeArgsInResponse includeArgs =>
      some ({ c with includeArgsInResponse := includeArgs }, .int 0)
  | .shutdown => some ({ c with shutdown := true }, .int 0)

/-- What `malloc` gives for a new service, if nothing that follows it fails. -/
def ContextMem.NewService.node (new : ContextMem.NewService) : Option Addr :=
  if new.strdup ∧ new.mutexInit then new.malloc else none

/-- `japi_pushsrv_sendmsg` has a client to send to, and no memory for the message: it calls
`strlen(NULL)`. -/
def ListContext.NullMessage (c : ListContext) : ContextCall → Prop
  | .sendmsg malloc _ _ psc jmsgData => malloc = false ∧ jmsgData ≠ none ∧
      ∃ p ∈ c.ctx.pushServices, p.addr = psc ∧ p.clients ≠ []
  | _ => False

/-- A call on lists, that is not such a one. -/
def ListContext.perform (c : ListContext) : ContextCall → ListContext × Reply
  | .registerRequest malloc reqName reqHandler =>
      let r := Libjapi.registerRequest malloc.isSome c.ctx reqName reqHandler
      ({ c with ctx := r.2 }, .int r.1)
  | .pushsrvRegister new pushsrvName =>
      let r := japiPushsrvRegister new.node c.ctx pushsrvName
      ({ c with ctx := r.2 }, .service r.1)
  | .pushsrvDestroy psc =>
      let r := japiPushsrvDestroy c.ctx psc
      ({ c with ctx := r.2 }, .int r.1)
  | .addClient malloc socket =>
      let r := japiAddClient malloc c.ctx socket
      ({ c with ctx := r.2 }, .int r.1)
  | .removeClient socket =>
      let r := japiRemoveClient c.ctx socket
      (⟨r.ctx, c.closed ++ r.closed⟩, .int r.ret)
  | .removeAllClients =>
      let r := japiRemoveAllClients c.ctx
      (⟨r.ctx, c.closed ++ r.closed⟩, .int r.ret)
  | .subscribe malloc pushsrvName socket =>
      let r := subscribeLoop malloc.isSome pushsrvName socket c.ctx.pushServices
      ({ c with ctx := { c.ctx with pushServices := r.1 } }, .subscribed r.2)
  | .unsubscribe pushsrvName socket =>
      let r := unsubscribeLoop pushsrvName socket c.ctx.pushServices
      ({ c with ctx := { c.ctx with pushServices := r.1 } }, .unsubscribed r.2.1 r.2.2)
  | .sendmsg _ writeN _ psc jmsgData =>
      if jmsgData = none then (c, .sent (-1) [])
      else
        ({ c with
          ctx := { c.ctx with
            pushServices := c.ctx.pushServices.map fun p =>
              if p.addr = psc then (japiPushsrvSendmsg writeN p).1 else p } },
          match c.ctx.pushServices.find? fun p => p.addr = psc with
          | some p => .sent (japiPushsrvSendmsg writeN p).2.1 (japiPushsrvSendmsg writeN p).2.2
          | none => .sent 0 [])
  | .setMaxAllowedClients num => ({ c with ctx := { c.ctx with maxClients := num } }, .int 0)
  | .includeArgsInResponse includeArgs =>
      ({ c with ctx := { c.ctx with includeArgsInResponse := includeArgs } }, .int 0)
  | .shutdown => ({ c with ctx := { c.ctx with shutdown := true } }, .int 0)

/-! ## The cells in use -/

namespace HeapList

section Exactly

variable {α : Type*} {cells cells' : Cells α} {as old new rest : List Nat} {a : Nat}

/-- The cells in use are those at the addresses. -/
def Exactly (cells : Cells α) (as : List Nat) : Prop := ∀ a, (cells a).isSome ↔ a ∈ as

theorem Exactly.congr (h : Exactly cells as) (heq : ∀ a, a ∈ as ↔ a ∈ new) : Exactly cells new :=
  fun a => (h a).trans (heq a)

theorem Exactly.notMem (h : Exactly cells as) (ha : cells a = none) : a ∉ as := by
  rw [← h a, ha]
  simp

theorem Exactly.insert (h : Exactly cells as) (a : Nat) (c : Cell α) :
    Exactly (Function.update cells a (some c)) (a :: as) := by
  intro b
  by_cases hb : b = a
  · simp [hb]
  · simp [hb, h b]

theorem Exactly.write (h : Exactly cells as) (ha : a ∈ as) (c : Cell α) :
    Exactly (Function.update cells a (some c)) as := by
  refine (h.insert a c).congr fun b => ?_
  rw [List.mem_cons, or_iff_right_of_imp]
  rintro rfl
  exact ha

theorem Exactly.erase_of_notMem (h : Exactly cells as) (ha : a ∉ as) :
    Exactly (Function.update cells a none) as := by
  have hself : Function.update cells a none = cells := by
    rw [← Option.not_isSome_iff_eq_none.mp fun hsome => ha ((h a).mp hsome)]
    exact Function.update_eq_self a cells
  rw [hself]
  exact h

theorem Exactly.cleared (h : Exactly cells (old ++ rest)) (hc : Cleared cells cells' old new)
    (hnew : ∀ a ∈ new, (cells' a).isSome) (hrest : ∀ a ∈ rest, a ∉ old) :
    Exactly cells' (new ++ rest) := by
  intro a
  rw [List.mem_append]
  by_cases hold : a ∈ old
  · have hnot : a ∉ rest := fun ha => hrest a ha hold
    simp only [hnot, or_false]
    refine ⟨fun hsome => ?_, hnew a⟩
    by_contra hgone
    rw [hc.freed a hold hgone] at hsome
    cases hsome
  · have hnot : a ∉ new := fun ha => hold (hc.subset ha)
    rw [hc.frame a hold, h a, List.mem_append]
    simp [hold, hnot]

theorem Path.isSome {p : Option Nat} {l : List (Nat × α)} (h : Path cells p l)
    (ha : a ∈ addrs l) : (cells a).isSome := by
  obtain ⟨v, n, hcell⟩ := h.cell_of_mem ha
  rw [hcell]
  rfl

end Exactly

end HeapList

/-! ## What a context holds -/

/-- The lists are all that is in memory, next to the services in `leaked`. -/
structure Standing (m : ContextMem) (l : Lists) (requests : List (Addr × JapiRequest))
    (leaked : List Addr) : Prop where
  holds : Holds m l
  registered : Path m.requestCells m.requests requests
  nodes : Exactly m.nodes l.nodeAddrs
  services : Exactly m.serviceCells (l.services.map ServiceNode.addr ++ leaked)
  requestCells : Exactly m.requestCells (addrs requests)
  apart : ∀ a ∈ leaked, a ∉ l.services.map ServiceNode.addr

/-- A client as its node in memory. -/
def JapiClient.node (c : JapiClient) : Addr × Int := (c.addr, c.socket)

/-- The lists are those of the context, and the fields are the same. -/
structure Agrees (c : MemoryContext) (d : ListContext) (l : Lists)
    (requests : List (Addr × JapiRequest)) : Prop where
  clients : l.clients = d.ctx.clients.map JapiClient.node
  services : l.services.map ServiceNode.context = d.ctx.pushServices
  requests : requests.map Prod.snd = d.ctx.requests
  numClients : c.mem.numClients = d.ctx.numClients
  maxClients : c.maxClients = d.ctx.maxClients
  includeArgs : c.includeArgsInResponse = d.ctx.includeArgsInResponse
  shutdown : c.shutdown = d.ctx.shutdown
  init : c.init = d.ctx.init
  closed : c.mem.closed = d.closed

section Standing

variable {m m' : ContextMem} {l l' : Lists} {requests : List (Addr × JapiRequest)}
  {leaked : List Addr}

theorem Holds.isSome (h : Holds m l) {a : Addr} (ha : a ∈ l.nodeAddrs) : (m.nodes a).isSome := by
  rcases List.mem_append.mp ha with ha | ha
  · exact h.clients.isSome ha
  · obtain ⟨s, hs, ha⟩ := List.mem_flatMap.mp ha
    exact (h.subscribers s hs).isSome ha

theorem Holds.isSome_service (h : Holds m l) {a : Addr} (ha : a ∈ l.services.map ServiceNode.addr) :
    (m.serviceCells a).isSome := by
  rw [← addrs_entry] at ha
  exact h.services.isSome ha

theorem Standing.frees (h : Standing m l requests leaked) (hf : Frees m l m' l')
    (hrequests : m'.requests = m.requests) : Standing m' l' requests leaked := by
  refine ⟨hf.holds, ?_, ?_, ?_, ?_, ?_⟩
  · rw [hf.requestCells, hrequests]
    exact h.registered
  · have hnodes := h.nodes
    rw [← List.append_nil l.nodeAddrs] at hnodes
    rw [← List.append_nil l'.nodeAddrs]
    exact hnodes.cleared hf.nodes (fun a ha => hf.holds.isSome ha) fun _ ha => absurd ha List.not_mem_nil
  · exact h.services.cleared hf.services (fun a ha => hf.holds.isSome_service ha) h.apart
  · rw [hf.requestCells]
    exact h.requestCells
  · exact fun a ha hmem => h.apart a ha (hf.services.subset hmem)

/-! ## Sizes -/

/-- The number of nodes. -/
def Lists.size (l : Lists) : Nat := l.nodeAddrs.length + l.services.length

theorem Lists.below_of_size {bound : Nat} (h : l.size < bound) : l.Below bound := by
  have hnodes : l.nodeAddrs.length = l.clients.length + (subscriberAddrs l.services).length := by
    rw [nodeAddrs, List.length_append, addrs, List.length_map]
  rw [size] at h
  refine ⟨by omega, by omega, fun s hs => ?_⟩
  obtain ⟨pre, post, hl⟩ := List.append_of_mem hs
  have hall := congrArg List.length (nodeAddrs_of_services hl)
  simp only [List.length_append, addrs, List.length_map] at hall
  omega

theorem Holds.nodup_services (h : Holds m l) : (l.services.map ServiceNode.addr).Nodup := by
  rw [← addrs_entry]
  exact h.services.nodup

theorem Frees.size_le (hf : Frees m l m' l') : l'.size ≤ l.size := by
  have hnodes := (List.subperm_of_subset hf.holds.apart hf.nodes.subset).length_le
  have hservices := (List.subperm_of_subset hf.holds.nodup_services hf.services.subset).length_le
  rw [List.length_map, List.length_map] at hservices
  exact Nat.add_le_add hnodes hservices

/-! ## The requests -/

theorem requestLoop_spec (name : CStr) (requests : List (Addr × JapiRequest)) :
    ∀ {turns : Nat} {p : Option Addr}, Path m.requestCells p requests → requests.length < turns →
      ContextMem.requestLoop name turns m p =
        some (((requests.map Prod.snd).find? fun req => strcasecmp name req.name = 0).map
          JapiRequest.func) := by
  induction requests with
  | nil =>
      intro turns p hpath hturns
      obtain ⟨turns, rfl⟩ := Nat.exists_eq_add_one_of_ne_zero (Nat.ne_zero_of_lt hturns)
      have hnone : p = none := hpath
      rw [hnone]
      rfl
  | cons e requests ih =>
      obtain ⟨a, req⟩ := e
      intro turns p hpath hturns
      obtain ⟨turns, rfl⟩ := Nat.exists_eq_add_one_of_ne_zero (Nat.ne_zero_of_lt hturns)
      obtain ⟨rfl, next, hcell, hrest⟩ := hpath
      simp only [ContextMem.requestLoop, hcell, Option.bind_some,
        ih hrest (Nat.lt_of_succ_lt_succ hturns), List.map_cons, List.find?_cons]
      split <;> simp [*]

theorem cmdLoop_spec (jarray : JPtr) (requests : List (Addr × JapiRequest)) :
    ∀ {turns : Nat} {p : Option Addr} {h : JHeap}, Path m.requestCells p requests →
      requests.length < turns →
      ContextMem.cmdLoop jarray turns m h p =
        some (addNames jarray ((requests.map Prod.snd).map JapiRequest.name) h) := by
  induction requests with
  | nil =>
      intro turns p h hpath hturns
      obtain ⟨turns, rfl⟩ := Nat.exists_eq_add_one_of_ne_zero (Nat.ne_zero_of_lt hturns)
      have hnone : p = none := hpath
      rw [hnone]
      rfl
  | cons e requests ih =>
      obtain ⟨a, req⟩ := e
      intro turns p h hpath hturns
      obtain ⟨turns, rfl⟩ := Nat.exists_eq_add_one_of_ne_zero (Nat.ne_zero_of_lt hturns)
      obtain ⟨rfl, next, hcell, hrest⟩ := hpath
      simp only [ContextMem.cmdLoop, hcell, Option.bind_some,
        ih hrest (Nat.lt_of_succ_lt_succ hturns)]
      rfl

theorem Standing.getRequestHandler (h : Standing m l requests leaked) {ctx : JapiContext}
    (hreqs : requests.map Prod.snd = ctx.requests) {bound : Nat} (hlen : requests.length < bound)
    (name : CStr) : m.getRequestHandler bound name = some (japiGetRequestHandler ctx name) := by
  rw [ContextMem.getRequestHandler, requestLoop_spec name requests h.registered hlen, hreqs]
  rfl

theorem Standing.push_request (h : Standing m l requests leaked) {req : Addr}
    (hfresh : m.requestCells req = none) (r : JapiRequest) :
    Standing { m with
      requestCells := Function.update m.requestCells req (some ⟨r, m.requests⟩)
      requests := some req } l ((req, r) :: requests) leaked := by
  have hnot : req ∉ addrs requests := fun hmem => by
    have hsome := h.registered.isSome hmem
    rw [hfresh] at hsome
    cases hsome
  exact ⟨⟨h.holds.clients, h.holds.services, h.holds.subscribers, h.holds.apart⟩,
    (h.registered.update hnot _).push (Function.update_self _ _ _), h.nodes, h.services,
    h.requestCells.insert req _, h.apart⟩

/-! ## Allocating -/

theorem Standing.leak (h : Standing m l requests leaked) {psc : Addr}
    (hfresh : m.serviceCells psc = none) (v : Cell ServiceVal) :
    Standing { m with serviceCells := Function.update m.serviceCells psc (some v) } l requests
      (leaked ++ [psc]) := by
  have hnot := h.services.notMem hfresh
  refine ⟨h.holds.leak hfresh _, h.registered, h.nodes, ?_, h.requestCells, ?_⟩
  · refine (h.services.insert psc v).congr fun a => ?_
    simp only [List.mem_cons, List.mem_append, List.not_mem_nil, or_false]
    tauto
  · intro a ha hmem
    rcases List.mem_append.mp ha with ha | ha
    · exact h.apart a ha hmem
    · rw [List.mem_singleton.mp ha] at hmem
      exact hnot (List.mem_append_left _ hmem)

theorem Standing.unlinked (h : Standing m l requests leaked) {psc : Addr}
    (hfresh : m.serviceCells psc = none) :
    Standing { m with serviceCells := Function.update m.serviceCells psc none } l requests
      leaked :=
  ⟨h.holds.leak hfresh _, h.registered, h.nodes,
    h.services.erase_of_notMem (h.services.notMem hfresh), h.requestCells, h.apart⟩

theorem Standing.link (h : Standing m l requests leaked) {psc : Addr}
    (hfresh : m.serviceCells psc = none) (name : CStr) :
    Standing { m with
        serviceCells := Function.update m.serviceCells psc
          (some ⟨⟨name, none, false⟩, m.pushServices⟩)
        pushServices := some psc }
      { l with services := ⟨psc, name, false, []⟩ :: l.services } requests leaked := by
  have hnot := h.services.notMem hfresh
  refine ⟨h.holds.link hfresh name, h.registered, h.nodes, h.services.insert psc _, h.requestCells,
    ?_⟩
  intro a ha hmem
  rcases List.mem_cons.mp hmem with rfl | hmem
  · exact hnot (List.mem_append_right _ ha)
  · exact h.apart a ha hmem

theorem Standing.connect (h : Standing m l requests leaked) {client : Addr}
    (hfresh : m.nodes client = none) (socket : Int) (numClients : UInt16) :
    Standing { m with
        nodes := Function.update m.nodes client (some ⟨socket, m.clients⟩)
        clients := some client
        numClients }
      { l with clients := (client, socket) :: l.clients } requests leaked :=
  ⟨h.holds.connect hfresh socket numClients, h.registered, h.nodes.insert client _, h.services,
    h.requestCells, h.apart⟩

theorem Standing.subscribe (h : Standing m l requests leaked) {client : Addr}
    (hfresh : m.nodes client = none) {pre post : List ServiceNode} {s : ServiceNode}
    (hl : l.services = pre ++ s :: post) (socket : Int) :
    Standing { m with
        nodes := Function.update m.nodes client (some ⟨socket, headAddr s.subscribers⟩)
        serviceCells := Function.update m.serviceCells s.addr
          (some ⟨⟨s.pushsrvName, some client, s.enabled⟩, headAddr (post.map ServiceNode.entry)⟩) }
      { l with
        services := pre ++ { s with subscribers := (client, socket) :: s.subscribers } :: post }
      requests leaked := by
  have haddrs : (pre ++ { s with subscribers := (client, socket) :: s.subscribers } :: post).map
      ServiceNode.addr = l.services.map ServiceNode.addr := by simp [hl]
  refine ⟨h.holds.subscribe hfresh hl socket, h.registered, ?_, ?_, h.requestCells, ?_⟩
  · refine (h.nodes.insert client _).congr fun a => ?_
    rw [Lists.nodeAddrs_of_services hl, Lists.nodeAddrs_of_services rfl]
    simp only [addrs_cons, List.mem_append, List.mem_cons]
    tauto
  · rw [haddrs]
    exact h.services.write (by simp [hl]) _
  · rw [haddrs]
    exact h.apart

end Standing

/-! ## The pointer to the requests -/

namespace ContextMem

variable {bound : Nat} {socket : Int} {m m' : ContextMem}

theorem pushsrvRemoveClient_requests {psc : Addr} {r : Int}
    (h : m.pushsrvRemoveClient bound psc socket = some (m', r)) : m'.requests = m.requests := by
  obtain ⟨c, -, hremove⟩ := Option.bind_eq_some_iff.mp h
  obtain ⟨out, -, heq⟩ := Option.map_eq_some_iff.mp hremove
  cases heq
  rfl

theorem removeFromAllLoop_requests : ∀ {turns : Nat} {m : ContextMem} {p : Option Addr},
    removeFromAllLoop bound socket turns m p = some m' → m'.requests = m.requests
  | 0, _, _, h => by cases h
  | _ + 1, _, none, h => by cases h; rfl
  | turns + 1, m, some psc, h => by
      obtain ⟨⟨m₁, r⟩, hremove, h⟩ := Option.bind_eq_some_iff.mp h
      obtain ⟨c, -, hrest⟩ := Option.bind_eq_some_iff.mp h
      rw [removeFromAllLoop_requests hrest, pushsrvRemoveClient_requests hremove]

theorem removeClient_requests {r : Int} (h : m.removeClient bound socket = some (m', r)) :
    m'.requests = m.requests := by
  obtain ⟨m₁, hall, hloop⟩ := Option.bind_eq_some_iff.mp h
  rw [removeClientLoop_eq] at hloop
  obtain ⟨out, -, heq⟩ := Option.map_eq_some_iff.mp hloop
  rw [← removeFromAllLoop_requests hall]
  unfold withRemoval at heq
  cases heq
  split <;> rfl

theorem removeAllLoop_requests {r : Int} : ∀ {turns : Nat} {m : ContextMem} {p : Option Addr},
    removeAllLoop bound turns m p = some (m', r) → m'.requests = m.requests
  | 0, _, _, h => by cases h
  | _ + 1, _, none, h => by cases h; rfl
  | turns + 1, m, some client, h => by
      obtain ⟨c, -, h⟩ := Option.bind_eq_some_iff.mp h
      obtain ⟨⟨m₁, r₁⟩, hremove, h⟩ := Option.bind_eq_some_iff.mp h
      rw [← removeClient_requests hremove]
      split at h
      · cases h
        rfl
      · exact removeAllLoop_requests h

end ContextMem

/-! ## One call -/

/-- A call in memory and the same call on lists: the results are the same, and
the memory stands for the lists as before. -/
def Matches (leaked : List Addr) (n : Nat) (out : Option (MemoryContext × Reply))
    (res : ListContext × Reply) : Prop :=
  ∃ c l requests, out = some (c, res.2) ∧ Standing c.mem l requests leaked ∧
    Agrees c res.1 l requests ∧ l.size + requests.length ≤ n

section Calls

variable {J : JsonC} {bound n : Nat} {c : MemoryContext} {d : ListContext} {l : Lists}
  {requests : List (Addr × JapiRequest)} {leaked : List Addr}

theorem Matches.unchanged (hs : Standing c.mem l requests leaked) (ha : Agrees c d l requests)
    (hn : l.size + requests.length ≤ n) (reply : Reply) :
    Matches leaked (n + 1) (some (c, reply)) (d, reply) :=
  ⟨c, l, requests, rfl, hs, ha, hn.trans (Nat.le_succ n)⟩

theorem Matches.registerRequest (hs : Standing c.mem l requests leaked)
    (ha : Agrees c d l requests) (hn : l.size + requests.length ≤ n) (hbound : n < bound)
    {malloc : Option Addr} (hfresh : ∀ a ∈ malloc, c.mem.requestCells a = none)
    (reqName : Option CStr) (reqHandler : Option Handler) :
    Matches leaked (n + 1) (c.perform J bound (.registerRequest malloc reqName reqHandler))
      (d.perform (.registerRequest malloc reqName reqHandler)) := by
  have hsame : ∀ r : Int,
      c.mem.registerRequest bound c.init malloc reqName reqHandler = some (c.mem, r) →
      Libjapi.registerRequest malloc.isSome d.ctx reqName reqHandler = (r, d.ctx) →
      Matches leaked (n + 1) (c.perform J bound (.registerRequest malloc reqName reqHandler))
        (d.perform (.registerRequest malloc reqName reqHandler)) := by
    intro r hmem hlist
    simp only [MemoryContext.perform, hmem, Option.map_some, ListContext.perform, hlist]
    exact .unchanged hs ha hn _
  cases reqName with
  | none => exact hsame _ rfl rfl
  | some name =>
      by_cases hempty : strcmp name (lit "") = 0
      · exact hsame (-2) (by simp only [ContextMem.registerRequest, if_pos hempty])
          (by simp only [Libjapi.registerRequest, if_pos hempty])
      · cases reqHandler with
        | none =>
            exact hsame (-3) (by simp only [ContextMem.registerRequest, if_neg hempty])
              (by simp only [Libjapi.registerRequest, if_neg hempty])
        | some func =>
            have hget := hs.getRequestHandler ha.requests (show requests.length < bound by omega) name
            rw [ha.init] at hsame
            by_cases htaken : (japiGetRequestHandler d.ctx name).isSome
            · exact hsame (-4)
                (by simp only [ContextMem.registerRequest, if_neg hempty, hget, Option.map_some,
                  if_pos htaken])
                (by simp only [Libjapi.registerRequest, if_neg hempty, if_pos htaken])
            · by_cases hbad : d.ctx.init ∧ strncmp name (lit "japi_") (lit "japi_").bytes.length = 0
              · exact hsame (-6)
                  (by simp only [ContextMem.registerRequest, if_neg hempty, hget, Option.map_some,
                    if_neg htaken, if_pos hbad])
                  (by simp only [Libjapi.registerRequest, if_neg hempty, if_neg htaken, if_pos hbad])
              · cases malloc with
                | none =>
                    exact hsame (-5)
                      (by simp only [ContextMem.registerRequest, if_neg hempty, hget,
                        Option.map_some, if_neg htaken, if_neg hbad])
                      (by simp only [Libjapi.registerRequest, if_neg hempty, if_neg htaken,
                        if_neg hbad, Option.isSome_none, Bool.false_eq_true, if_false])
                | some req =>
                    refine ⟨{ c with mem := { c.mem with
                        requestCells := Function.update c.mem.requestCells req
                          (some ⟨⟨name, func⟩, c.mem.requests⟩)
                        requests := some req } }, l, (req, ⟨name, func⟩) :: requests, ?_,
                      hs.push_request (hfresh req rfl) ⟨name, func⟩, ?_, Nat.succ_le_succ hn⟩
                    · simp only [MemoryContext.perform, ContextMem.registerRequest, if_neg hempty,
                        hget, ha.init, Option.map_some, if_neg htaken, if_neg hbad,
                        ListContext.perform, Libjapi.registerRequest, Option.isSome_some, if_true]
                    · simp only [ListContext.perform, Libjapi.registerRequest, if_neg hempty,
                        if_neg htaken, if_neg hbad, Option.isSome_some, if_true]
                      exact { ha with requests := by rw [List.map_cons, ha.requests] }

theorem Agrees.isredundant (hs : Standing c.mem l requests leaked) (ha : Agrees c d l requests)
    (hlen : l.services.length < bound) (name : CStr) :
    ContextMem.isredundantLoop name bound c.mem c.mem.pushServices =
      some (pushsrvIsredundant d.ctx name) := by
  rw [isredundantLoop_spec name l.services hs.holds.services hlen, pushsrvIsredundant,
    ← ha.services, List.any_map]
  rfl

/-- The node of a service whose mutex cannot be initialized. -/
def ContextMem.NewService.leak : ContextMem.NewService → List Addr
  | ⟨some psc, true, false⟩ => [psc]
  | _ => []

/-- What a call leaves allocated that is on no list. -/
def ListContext.leak (d : ListContext) : ContextCall → List Addr
  | .pushsrvRegister new (some name) =>
      if strcmp name (lit "") = 0 ∨ pushsrvIsredundant d.ctx name then [] else new.leak
  | _ => []

theorem Matches.pushsrvRegister (hs : Standing c.mem l requests leaked)
    (ha : Agrees c d l requests) (hn : l.size + requests.length ≤ n) (hbound : n < bound)
    {new : ContextMem.NewService} (hfresh : ∀ a ∈ new.malloc, c.mem.serviceCells a = none)
    (pushsrvName : Option CStr) :
    Matches (leaked ++ d.leak (.pushsrvRegister new pushsrvName)) (n + 1)
      (c.perform J bound (.pushsrvRegister new pushsrvName))
      (d.perform (.pushsrvRegister new pushsrvName)) := by
  have hsame : d.leak (.pushsrvRegister new pushsrvName) = [] →
      c.mem.pushsrvRegister bound new pushsrvName = some (c.mem, none) →
      japiPushsrvRegister new.node d.ctx pushsrvName = (none, d.ctx) →
      Matches (leaked ++ d.leak (.pushsrvRegister new pushsrvName)) (n + 1)
        (c.perform J bound (.pushsrvRegister new pushsrvName))
        (d.perform (.pushsrvRegister new pushsrvName)) := by
    intro hleak hmem hlist
    simp only [MemoryContext.perform, hmem, Option.map_some, ListContext.perform, hlist, hleak,
      List.append_nil]
    exact .unchanged hs ha hn _
  cases pushsrvName with
  | none => exact hsame rfl rfl rfl
  | some name =>
      have hlen : l.services.length < bound := (Lists.below_of_size (by omega)).services
      have hloop := ha.isredundant hs hlen name
      have hrefused : strcmp name (lit "") = 0 ∨ pushsrvIsredundant d.ctx name →
          d.leak (.pushsrvRegister new (some name)) = [] := fun hor => if_pos hor
      by_cases hempty : strcmp name (lit "") = 0
      · exact hsame (hrefused (.inl hempty))
          (by simp only [ContextMem.pushsrvRegister, if_pos hempty])
          (by simp only [japiPushsrvRegister, if_pos hempty])
      · cases hdup : pushsrvIsredundant d.ctx name with
        | true =>
            exact hsame (hrefused (.inr hdup))
              (by simp only [ContextMem.pushsrvRegister, if_neg hempty, hloop, hdup,
                Option.map_some, if_true])
              (by simp only [japiPushsrvRegister, if_neg hempty, hdup, if_true])
        | false =>
            have hmem : c.mem.pushsrvRegister bound new (some name) =
                some (c.mem.linkService new name) := by
              simp only [ContextMem.pushsrvRegister, if_neg hempty, hloop, hdup, Option.map_some,
                Bool.false_eq_true, if_false]
            have hlist : japiPushsrvRegister none d.ctx (some name) = (none, d.ctx) := by
              simp only [japiPushsrvRegister, ite_self]
            have hleak : d.leak (.pushsrvRegister new (some name)) = new.leak :=
              if_neg (by simp [hempty, hdup])
            rw [hleak] at hsame ⊢
            obtain ⟨_ | psc, strdup, mutexInit⟩ := new
            · exact hsame rfl hmem (by simpa [ContextMem.NewService.node] using hlist)
            have hpsc := hfresh psc rfl
            cases strdup with
            | false =>
                refine ⟨{ c with mem := { c.mem with
                  serviceCells := Function.update c.mem.serviceCells psc none } }, l, requests, ?_,
                  ?_, ?_, hn.trans (Nat.le_succ n)⟩
                · simp only [MemoryContext.perform, hmem, ContextMem.linkService, if_true,
                    Option.map_some, ListContext.perform, ContextMem.NewService.node,
                    Bool.false_eq_true, false_and, if_false, hlist]
                · exact (List.append_nil leaked).symm ▸ hs.unlinked hpsc
                · simp only [ListContext.perform, ContextMem.NewService.node, Bool.false_eq_true,
                    false_and, if_false, hlist]
                  exact { ha with }
            | true =>
                cases mutexInit with
                | false =>
                    refine ⟨{ c with mem := { c.mem with
                      serviceCells := Function.update c.mem.serviceCells psc
                        (some ⟨⟨name, none, false⟩, none⟩) } }, l, requests, ?_,
                      hs.leak hpsc _, ?_, hn.trans (Nat.le_succ n)⟩
                    · simp only [MemoryContext.perform, hmem, ContextMem.linkService, if_true,
                        Bool.true_eq_false, if_false, Option.map_some, ListContext.perform,
                        ContextMem.NewService.node, Bool.false_eq_true, and_false, hlist]
                    · simp only [ListContext.perform, ContextMem.NewService.node,
                        Bool.false_eq_true, and_false, if_false, hlist]
                      exact { ha with }
                | true =>
                    have hlist : japiPushsrvRegister (some psc) d.ctx (some name) = (some psc,
                        { d.ctx with pushServices := ⟨psc, name, []⟩ :: d.ctx.pushServices }) := by
                      simp only [japiPushsrvRegister, if_neg hempty, hdup, Bool.false_eq_true,
                        if_false]
                    refine ⟨{ c with mem := { c.mem with
                      serviceCells := Function.update c.mem.serviceCells psc
                        (some ⟨⟨name, none, false⟩, c.mem.pushServices⟩)
                      pushServices := some psc } },
                      { l with services := ⟨psc, name, false, []⟩ :: l.services }, requests, ?_,
                      (List.append_nil leaked).symm ▸ hs.link hpsc name, ?_, ?_⟩
                    · simp only [MemoryContext.perform, hmem, ContextMem.linkService,
                        Bool.true_eq_false, if_false, Option.map_some, ListContext.perform,
                        ContextMem.NewService.node, and_self, if_true, hlist]
                    · simp only [ListContext.perform, ContextMem.NewService.node, and_self,
                        if_true, hlist]
                      exact { ha with services := by rw [← ha.services]; rfl }
                    · have hsize : Lists.size { l with
                          services := ⟨psc, name, false, []⟩ :: l.services } = l.size + 1 := rfl
                      omega

theorem Agrees.split (ha : Agrees c d l requests) {psc : Addr}
    (hpsc : psc ∈ d.ctx.pushServices.map JapiPushsrvContext.addr) :
    ∃ pre s post, l.services = pre ++ s :: post ∧ s.addr = psc := by
  rw [← ha.services, List.map_map] at hpsc
  obtain ⟨s, hmem, rfl⟩ := List.mem_map.mp hpsc
  obtain ⟨pre, post, hl⟩ := List.append_of_mem hmem
  exact ⟨pre, s, post, hl, rfl⟩

theorem Holds.addr_ne {m : ContextMem} (h : Holds m l) {pre post : List ServiceNode} {s : ServiceNode}
    (hl : l.services = pre ++ s :: post) : ∀ t ∈ pre ++ post, t.addr ≠ s.addr := by
  have hnodup := h.nodup_services
  rw [hl, List.map_append, List.map_cons] at hnodup
  have hother := (List.nodup_middle.mp hnodup).notMem
  rw [← List.map_append] at hother
  exact fun t ht heq => hother (heq ▸ List.mem_map_of_mem ht)

theorem unlinkService_middle {p : JapiPushsrvContext} {pre post : List JapiPushsrvContext}
    (hpre : ∀ q ∈ pre, q.addr ≠ p.addr) : unlinkService p.addr (pre ++ p :: post) = pre ++ post := by
  induction pre with
  | nil => simp [unlinkService]
  | cons q pre ih =>
      simp only [List.cons_append, unlinkService, if_neg (hpre q List.mem_cons_self),
        ih fun q' hq' => hpre q' (List.mem_cons_of_mem q hq')]

theorem Matches.pushsrvDestroy (hs : Standing c.mem l requests leaked)
    (ha : Agrees c d l requests) (hn : l.size + requests.length ≤ n) (hbound : n < bound)
    {psc : Option Addr} (hpsc : ∀ a ∈ psc, a ∈ d.ctx.pushServices.map JapiPushsrvContext.addr) :
    Matches leaked (n + 1) (c.perform J bound (.pushsrvDestroy psc))
      (d.perform (.pushsrvDestroy psc)) := by
  cases psc with
  | none => exact .unchanged hs ha hn _
  | some psc =>
      obtain ⟨pre, s, post, hl, rfl⟩ := ha.split (hpsc psc rfl)
      have hbelow : l.Below bound := Lists.below_of_size (by omega)
      obtain ⟨m', hcall, hfrees, nodes, serviceCells, pushServices, rfl⟩ :=
        pushsrvDestroy_spec hs.holds hbelow hl
      have hsize := hfrees.size_le
      refine ⟨{ c with mem := { c.mem with nodes, serviceCells, pushServices } },
        { l with services := pre ++ post }, requests, ?_, hs.frees hfrees rfl, ?_, by omega⟩
      · simp only [MemoryContext.perform, hcall, Option.map_some]
        rfl
      · refine { ha with services := ?_ }
        have hother : ∀ q ∈ pre.map ServiceNode.context, q.addr ≠ s.context.addr := by
          intro q hq
          obtain ⟨t, ht, rfl⟩ := List.mem_map.mp hq
          exact hs.holds.addr_ne hl t (List.mem_append_left _ ht)
        simp only [ListContext.perform, japiPushsrvDestroy, ← ha.services, hl, List.map_append,
          List.map_cons]
        exact (unlinkService_middle hother).symm

theorem Matches.addClient (hs : Standing c.mem l requests leaked) (ha : Agrees c d l requests)
    (hn : l.size + requests.length ≤ n) {malloc : Option Addr}
    (hfresh : ∀ a ∈ malloc, c.mem.nodes a = none) (socket : Int) :
    Matches leaked (n + 1) (c.perform J bound (.addClient malloc socket))
      (d.perform (.addClient malloc socket)) := by
  cases malloc with
  | none => exact .unchanged hs ha hn _
  | some client =>
      refine ⟨_, { l with clients := (client, socket) :: l.clients }, requests, rfl,
        hs.connect (hfresh client rfl) socket (c.mem.numClients + 1), ?_, ?_⟩
      · exact { ha with
          clients := by rw [ha.clients]; rfl
          numClients := congrArg (· + 1) ha.numClients }
      · have hsize : Lists.size { l with clients := (client, socket) :: l.clients } = l.size + 1 := by
          simp only [Lists.size, Lists.nodeAddrs, addrs_cons, List.cons_append, List.length_cons]
          omega
        omega

theorem map_context_erase (socket : Int) (services : List ServiceNode) :
    (services.map (ServiceNode.erase socket)).map ServiceNode.context =
      (services.map ServiceNode.context).map fun psc => (japiPushsrvRemoveClient psc socket).1 := by
  rw [List.map_map, List.map_map]
  exact List.map_congr_left fun s _ => s.context_erase socket

theorem Matches.removeClient (hs : Standing c.mem l requests leaked) (ha : Agrees c d l requests)
    (hn : l.size + requests.length ≤ n) (hbound : n < bound) (socket : Int) :
    Matches leaked (n + 1) (c.perform J bound (.removeClient socket))
      (d.perform (.removeClient socket)) := by
  have hbelow : l.Below bound := Lists.below_of_size (by omega)
  obtain ⟨m', hfrees, hcall⟩ := removeClient_spec hs.holds socket hbelow
  have hsize := hfrees.size_le
  have hservices := (map_context_erase socket l.services).trans
    (congrArg (List.map fun psc => (japiPushsrvRemoveClient psc socket).1) ha.services)
  rcases japiRemoveClient_cases d.ctx socket with
    ⟨pre, x, post, hclients, rfl, hpre, hlist⟩ | ⟨hnone, hlist⟩
  · have hl : l.clients = pre.map JapiClient.node ++ x.node :: post.map JapiClient.node := by
      rw [ha.clients, hclients, List.map_append, List.map_cons]
    rw [if_pos ⟨x.node, by simp [hl], rfl⟩] at hcall
    obtain ⟨hcall, hnum, hclosed⟩ := hcall
    refine ⟨{ c with mem := m' }, _, requests, ?_,
      hs.frees hfrees (ContextMem.removeClient_requests hcall), ?_, by omega⟩
    · simp only [MemoryContext.perform, hcall, Option.map_some, ListContext.perform, hlist]
    · simp only [ListContext.perform, hlist]
      refine { ha with
        clients := ?_, services := hservices, numClients := ?_, closed := ?_ }
      · have hfront : ∀ e ∈ pre.map JapiClient.node, e.2 ≠ x.socket := by
          intro e he
          obtain ⟨y, hy, rfl⟩ := List.mem_map.mp he
          exact hpre y hy
        rw [hl, List.map_append]
        exact eraseSocket_append hfront x.addr
      · rw [hnum, ha.numClients]
      · rw [hclosed, ha.closed]
  · have hnot : ¬ ∃ e ∈ l.clients, e.2 = socket := by
      rintro ⟨e, he, heq⟩
      rw [ha.clients] at he
      obtain ⟨x, hx, rfl⟩ := List.mem_map.mp he
      exact hnone (heq ▸ List.mem_map_of_mem hx)
    rw [if_neg hnot] at hcall
    obtain ⟨hcall, hnum, hclosed⟩ := hcall
    have hself : eraseSocket socket l.clients = l.clients :=
      List.eraseP_of_forall_not fun e he => by simpa using fun h => hnot ⟨e, he, h⟩
    refine ⟨{ c with mem := m' }, _, requests, ?_,
      hs.frees hfrees (ContextMem.removeClient_requests hcall), ?_, by omega⟩
    · simp only [MemoryContext.perform, hcall, Option.map_some, ListContext.perform, hlist]
    · simp only [ListContext.perform, hlist, List.append_nil]
      exact { ha with
        clients := hself.trans ha.clients
        services := hservices
        numClients := hnum.trans ha.numClients
        closed := hclosed.trans ha.closed }

/-- The services without the sockets, each taken off once. -/
def removeSockets (sockets : List Int) (psc : JapiPushsrvContext) : JapiPushsrvContext :=
  sockets.foldl (fun psc socket => (japiPushsrvRemoveClient psc socket).1) psc

theorem ServiceNode.context_eraseAll (sockets : List Int) :
    ∀ s : ServiceNode, (s.eraseAll sockets).context = removeSockets sockets s.context := by
  induction sockets with
  | nil => exact fun _ => rfl
  | cons socket sockets ih =>
      intro s
      exact (ih (s.erase socket)).trans (congrArg (removeSockets sockets) (s.context_erase socket))

/-- The loop of `japi_remove_all_clients` on lists: the client it is at is the first one. -/
theorem removeClients_eq :
    ∀ (cs : List JapiClient) {ctx : JapiContext}, ctx.clients = cs →
      removeClients cs ctx = ⟨0, { ctx with
        clients := []
        numClients := ctx.numClients - UInt16.ofNat cs.length
        pushServices := ctx.pushServices.map (removeSockets (cs.map JapiClient.socket)) },
        cs.map JapiClient.socket⟩
  | [], ctx, hcs => by
      have hself : ctx.pushServices.map (removeSockets []) = ctx.pushServices :=
        List.map_id _
      simp only [removeClients, List.map_nil, hself, List.length_nil]
      rw [show ctx.numClients - UInt16.ofNat 0 = ctx.numClients from sub_zero _, ← hcs]
  | x :: cs, ctx, hcs => by
      have hremove := japiRemoveClient_of_clients (show ctx.clients = [] ++ x :: cs from hcs)
        (by simp)
      have hrest := removeClients_eq cs
        (show (japiRemoveClient ctx x.socket).ctx.clients = cs by rw [hremove]; rfl)
      have hservices : (japiPushsrvRemoveClientFromAllPushsrv ctx x.socket).pushServices.map
          (removeSockets (cs.map JapiClient.socket)) =
            ctx.pushServices.map (removeSockets ((x :: cs).map JapiClient.socket)) :=
        List.map_map
      have hnum : ctx.numClients - 1 - UInt16.ofNat cs.length =
          ctx.numClients - UInt16.ofNat (x :: cs).length := by
        rw [List.length_cons, UInt16.ofNat_add, sub_sub, add_comm]
        rfl
      rw [hremove] at hrest
      simp only [removeClients, hremove, ne_eq, not_true_eq_false, if_false, hrest, hservices, hnum]
      rfl

theorem Matches.removeAllClients (hs : Standing c.mem l requests leaked)
    (ha : Agrees c d l requests) (hn : l.size + requests.length ≤ n) (hbound : n < bound) :
    Matches leaked (n + 1) (c.perform J bound .removeAllClients) (d.perform .removeAllClients) := by
  have hbelow : l.Below bound := Lists.below_of_size (by omega)
  obtain ⟨m', hloop, hfrees, hnum, hclosed⟩ :=
    removeAllLoop_spec l.clients hs.holds rfl hbelow hbelow.clients
  rw [← hs.holds.clients.eq_headAddr] at hloop
  have hsize := hfrees.size_le
  have hlist : japiRemoveAllClients d.ctx = _ := removeClients_eq d.ctx.clients rfl
  have hsockets : l.clients.map Prod.snd = d.ctx.clients.map JapiClient.socket := by
    rw [ha.clients, List.map_map]
    rfl
  refine ⟨{ c with mem := m' }, _, requests, ?_,
    hs.frees hfrees (ContextMem.removeAllLoop_requests hloop), ?_, by omega⟩
  · simp only [MemoryContext.perform, ContextMem.removeAllClients, hloop, Option.map_some,
      ListContext.perform, hlist]
  · simp only [ListContext.perform, hlist]
    refine { ha with clients := rfl, services := ?_, numClients := ?_, closed := ?_ }
    · rw [← ha.services, List.map_map, List.map_map, hsockets]
      exact List.map_congr_left fun s _ => s.context_eraseAll _
    · have hlen : l.clients.length = d.ctx.clients.length := by rw [ha.clients, List.length_map]
      rw [hnum, ha.numClients, hlen]
    · rw [hclosed, ha.closed, hsockets]

theorem subscribeWalk_cases {m : ContextMem} (malloc : Option Addr) (pushsrvName : CStr)
    (socket : Int) (services : List ServiceNode) :
    ∀ {turns : Nat} {p : Option Addr}, Path m.serviceCells p (services.map ServiceNode.entry) →
      services.length < turns →
      (ContextMem.subscribeWalk malloc pushsrvName socket turns m p = some (m, none) ∧
        subscribeLoop malloc.isSome pushsrvName socket (services.map ServiceNode.context) =
          (services.map ServiceNode.context, none)) ∨
      ∃ pre s post, services = pre ++ s :: post ∧
        ContextMem.subscribeWalk malloc pushsrvName socket turns m p =
          (m.pushsrvAddClient malloc s.addr socket).map (fun r => (r.1, some (s.addr, r.2))) ∧
        subscribeLoop malloc.isSome pushsrvName socket (services.map ServiceNode.context) =
          (pre.map ServiceNode.context ++ (japiPushsrvAddClient malloc.isSome s.context socket).1 ::
              post.map ServiceNode.context,
            some (s.addr, (japiPushsrvAddClient malloc.isSome s.context socket).2)) := by
  induction services with
  | nil =>
      intro turns p hpath hturns
      obtain ⟨turns, rfl⟩ := Nat.exists_eq_add_one_of_ne_zero (Nat.ne_zero_of_lt hturns)
      have hnone : p = none := hpath
      rw [hnone]
      exact .inl ⟨rfl, rfl⟩
  | cons s services ih =>
      intro turns p hpath hturns
      obtain ⟨turns, rfl⟩ := Nat.exists_eq_add_one_of_ne_zero (Nat.ne_zero_of_lt hturns)
      obtain ⟨rfl, next, hcell, hrest⟩ := hpath
      by_cases hsame : strcasecmp pushsrvName s.pushsrvName = 0
      · refine .inr ⟨[], s, services, rfl, ?_, ?_⟩
        · simp only [ContextMem.subscribeWalk, hcell, Option.bind_some, if_pos hsame]
        · simp only [List.map_cons, subscribeLoop, ServiceNode.context, if_pos hsame]
          rfl
      · have hwalk : ContextMem.subscribeWalk malloc pushsrvName socket (turns + 1) m (some s.addr) =
            ContextMem.subscribeWalk malloc pushsrvName socket turns m next := by
          simp only [ContextMem.subscribeWalk, hcell, Option.bind_some, if_neg hsame]
        have hloop : subscribeLoop malloc.isSome pushsrvName socket
            ((s :: services).map ServiceNode.context) =
              (s.context :: (subscribeLoop malloc.isSome pushsrvName socket
                (services.map ServiceNode.context)).1,
                (subscribeLoop malloc.isSome pushsrvName socket
                  (services.map ServiceNode.context)).2) := if_neg hsame
        rcases ih hrest (Nat.lt_of_succ_lt_succ hturns) with
          ⟨hnone, hlist⟩ | ⟨pre, t, post, rfl, hsome, hlist⟩
        · refine .inl ⟨hwalk.trans hnone, ?_⟩
          rw [hloop, hlist]
          rfl
        · refine .inr ⟨s :: pre, t, post, rfl, hwalk.trans hsome, ?_⟩
          rw [hloop, hlist]
          rfl

theorem Matches.subscribe (hs : Standing c.mem l requests leaked) (ha : Agrees c d l requests)
    (hn : l.size + requests.length ≤ n) (hbound : n < bound) {malloc : Option Addr}
    (hfresh : ∀ a ∈ malloc, c.mem.nodes a = none) (pushsrvName : CStr) (socket : Int) :
    Matches leaked (n + 1) (c.perform J bound (.subscribe malloc pushsrvName socket))
      (d.perform (.subscribe malloc pushsrvName socket)) := by
  have hlen : l.services.length < bound := (Lists.below_of_size (by omega)).services
  rcases subscribeWalk_cases malloc pushsrvName socket l.services hs.holds.services hlen with
    ⟨hwalk, hlist⟩ | ⟨pre, s, post, hl, hwalk, hlist⟩
  · rw [ha.services] at hlist
    simp only [MemoryContext.perform, hwalk, Option.map_some, ListContext.perform, hlist]
    exact .unchanged hs ha hn _
  · rw [ha.services] at hlist
    cases malloc with
    | none =>
        have hself : pre.map ServiceNode.context ++ s.context :: post.map ServiceNode.context =
            d.ctx.pushServices := by
          rw [← ha.services, hl, List.map_append, List.map_cons]
        have hfailed : subscribeLoop (none : Option Addr).isSome pushsrvName socket
            d.ctx.pushServices = (d.ctx.pushServices, some (s.addr, -1)) :=
          hlist.trans (Prod.ext hself rfl)
        simp only [MemoryContext.perform, hwalk, ContextMem.pushsrvAddClient, Option.map_some,
          ListContext.perform, hfailed]
        exact .unchanged hs ha hn _
    | some client =>
        have hcell := hs.holds.serviceCell hl
        refine ⟨{ c with mem := { c.mem with
          nodes := Function.update c.mem.nodes client (some ⟨socket, headAddr s.subscribers⟩)
          serviceCells := Function.update c.mem.serviceCells s.addr
            (some ⟨⟨s.pushsrvName, some client, s.enabled⟩,
              headAddr (post.map ServiceNode.entry)⟩) } },
          { l with services :=
            pre ++ { s with subscribers := (client, socket) :: s.subscribers } :: post }, requests,
          ?_, hs.subscribe (hfresh client rfl) hl socket, ?_, ?_⟩
        · simp only [MemoryContext.perform, hwalk, ContextMem.pushsrvAddClient, hcell,
            Option.map_some, ListContext.perform, hlist]
          rfl
        · simp only [ListContext.perform, hlist]
          exact { ha with services := by rw [List.map_append, List.map_cons]; rfl }
        · have hnodes := congrArg List.length (Lists.nodeAddrs_of_services hl)
          have hnodes' := congrArg List.length (Lists.nodeAddrs_of_services (l := { l with
            services := pre ++ { s with subscribers := (client, socket) :: s.subscribers } :: post })
            rfl)
          have hservices := congrArg List.length hl
          simp only [List.length_append, addrs_cons, List.length_cons] at hnodes hnodes' hservices
          simp only [Lists.size, List.length_append, List.length_cons] at hn ⊢
          omega

theorem Matches.unsubscribe (hs : Standing c.mem l requests leaked) (ha : Agrees c d l requests)
    (hn : l.size + requests.length ≤ n) (hbound : n < bound) (pushsrvName : CStr) (socket : Int) :
    Matches leaked (n + 1) (c.perform J bound (.unsubscribe pushsrvName socket))
      (d.perform (.unsubscribe pushsrvName socket)) := by
  have hbelow : l.Below bound := Lists.below_of_size (by omega)
  obtain ⟨m', services, hwalk, hfrees, ⟨nodes, serviceCells, rfl⟩, hlist⟩ :=
    unsubscribeWalk_spec pushsrvName socket l.services false hs.holds (List.nil_append _).symm
      hbelow.subscribers hbelow.services
  rw [← hs.holds.services.eq_headAddr, ha.services, Bool.false_or] at hwalk
  rw [List.nil_append] at hfrees
  have hsize := hfrees.size_le
  refine ⟨{ c with mem := { c.mem with nodes, serviceCells } }, _, requests, ?_,
    hs.frees hfrees rfl, ?_, by omega⟩
  · simp only [MemoryContext.perform, hwalk, Option.map_some, ListContext.perform]
  · exact { ha with services := by rw [hlist, ha.services]; rfl }

/-! ### `japi_pushsrv_sendmsg` -/

theorem sendWalk_cleared {writeN : Nat → Int} {msg : CStr} :
    ∀ {turns k : Nat} {m : ListMem} {p : Option Addr} {w : Walk} {subs : List (Addr × Int)},
      sendWalk writeN msg bound turns k m p = some w → Path m.cells m.head subs →
      subs.length < bound →
      ∃ subs', Path w.mem.cells w.mem.head subs' ∧ Cleared m.cells w.mem.cells (addrs subs)
        (addrs subs')
  | 0, _, _, _, _, _, h, _, _ => by cases h
  | _ + 1, _, m, none, _, subs, h, hpath, _ => by
      cases h
      exact ⟨subs, hpath, .refl m.cells _⟩
  | turns + 1, k, m, some client, w, subs, h, hpath, hlen => by
      obtain ⟨cell, -, h⟩ := Option.bind_eq_some_iff.mp h
      split at h
      · obtain ⟨⟨m₁, r⟩, hremove, h⟩ := Option.bind_eq_some_iff.mp h
        obtain ⟨w', hrest, rfl⟩ := Option.map_eq_some_iff.mp h
        have hspec := removeNode_spec hpath cell.val hlen
        by_cases hmem : ∃ e ∈ subs, e.2 = cell.val
        · rw [if_pos hmem, hremove] at hspec
          obtain ⟨m', heq, herased⟩ := hspec
          cases heq
          have hsub : (eraseSocket cell.val subs).length ≤ subs.length :=
            List.eraseP_sublist.length_le
          obtain ⟨subs', hpath', hcleared⟩ := sendWalk_cleared hrest herased.path
            (hsub.trans_lt hlen)
          exact ⟨subs', hpath', Cleared.trans ⟨(addrs_eraseSocket_sublist _ _).subset, herased.freed,
            herased.frame⟩ hcleared⟩
        · rw [if_neg hmem, hremove] at hspec
          cases hspec
          exact sendWalk_cleared (w := w') hrest hpath hlen
      · obtain ⟨w', hrest, rfl⟩ := Option.map_eq_some_iff.mp h
        exact sendWalk_cleared (w := w') hrest hpath hlen

theorem sendmsgNodes_walk {malloc : Bool} (writeN : Nat → Int) (hbound : 0 < bound) (h : JHeap)
    (pushsrvName : CStr) {m : ListMem} {jmsgData : JPtr} (hdata : jmsgData ≠ none)
    (hmalloc : malloc = true ∨ m.head = none) :
    ∃ msg, sendmsgNodes J malloc writeN bound h pushsrvName m jmsgData =
      sendWalk writeN msg bound bound 0 m m.head := by
  obtain ⟨msg, h', hmsg⟩ := pushMessage_ok J malloc h pushsrvName jmsgData
  refine ⟨msg, ?_⟩
  rw [sendmsgNodes, if_neg hdata]
  split
  · rename_i hnone
    obtain ⟨turns, rfl⟩ := Nat.exists_eq_add_one_of_ne_zero hbound.ne'
    rw [hnone]
    rfl
  · rename_i hsome
    rw [hmsg, hmalloc.resolve_right hsome]
    rfl

theorem Agrees.map_service {m : ContextMem} (hs : Holds m l) (ha : Agrees c d l requests)
    {pre post : List ServiceNode} {s : ServiceNode} (hl : l.services = pre ++ s :: post)
    (f : JapiPushsrvContext → JapiPushsrvContext) :
    (d.ctx.pushServices.find? fun p => p.addr = s.addr) = some s.context ∧
      (d.ctx.pushServices.map fun p => if p.addr = s.addr then f p else p) =
        pre.map ServiceNode.context ++ f s.context :: post.map ServiceNode.context := by
  have hother := hs.addr_ne hl
  have hkeep : ∀ k : List ServiceNode, (∀ t ∈ k, t.addr ≠ s.addr) →
      ((k.map ServiceNode.context).map fun p => if p.addr = s.addr then f p else p) =
        k.map ServiceNode.context := by
    intro k hk
    rw [List.map_map]
    exact List.map_congr_left fun t ht => if_neg (hk t ht)
  have hnone : ((pre.map ServiceNode.context).find? fun p => p.addr = s.addr) = none := by
    refine List.find?_eq_none.mpr fun q hq => ?_
    obtain ⟨t, ht, rfl⟩ := List.mem_map.mp hq
    exact fun heq => hother t (List.mem_append_left _ ht) (of_decide_eq_true heq)
  rw [← ha.services, hl, List.map_append, List.map_cons]
  constructor
  · rw [List.find?_append, hnone, Option.none_or]
    exact List.find?_cons_of_pos (decide_eq_true rfl)
  · rw [List.map_append, List.map_cons, hkeep pre fun t ht => hother t (List.mem_append_left _ ht),
      hkeep post fun t ht => hother t (List.mem_append_right _ ht)]
    exact congrArg (_ ++ · :: _) (if_pos rfl)

theorem Matches.sendmsg (hs : Standing c.mem l requests leaked) (ha : Agrees c d l requests)
    (hn : l.size + requests.length ≤ n) (hbound : n < bound) (malloc : Bool) (writeN : Nat → Int)
    (h : JHeap) {psc : Addr} (hpsc : psc ∈ d.ctx.pushServices.map JapiPushsrvContext.addr)
    {jmsgData : JPtr} (hmessage : ¬ d.NullMessage (.sendmsg malloc writeN h psc jmsgData)) :
    Matches leaked (n + 1) (c.perform J bound (.sendmsg malloc writeN h psc jmsgData))
      (d.perform (.sendmsg malloc writeN h psc jmsgData)) := by
  obtain ⟨pre, s, post, hl, rfl⟩ := ha.split hpsc
  have hcell := hs.holds.serviceCell hl
  by_cases hdata : jmsgData = none
  · have hself : Function.update c.mem.serviceCells s.addr
        (some ⟨s.entry.2, headAddr (post.map ServiceNode.entry)⟩) = c.mem.serviceCells := by
      rw [← hcell]
      exact Function.update_eq_self _ _
    have hcall : c.mem.pushsrvSendmsg J bound malloc writeN h s.addr jmsgData =
        some (c.mem, ⟨⟨c.mem.nodes, s.entry.2.clients⟩, -1, []⟩) := by
      simp only [ContextMem.pushsrvSendmsg, hcell, Option.bind_some, sendmsgNodes, if_pos hdata,
        Option.map_some]
      rw [hself]
    simp only [MemoryContext.perform, hcall, Option.map_some, ListContext.perform, if_pos hdata]
    exact .unchanged hs ha hn _
  · have hpath := hs.holds.subscribers s (by simp [hl])
    have hbelow : l.Below bound := Lists.below_of_size (by omega)
    have hlen : s.subscribers.length < bound := hbelow.subscribers s (by simp [hl])
    have hpos : 0 < bound := by omega
    have hmalloc : malloc = true ∨ headAddr s.subscribers = none := by
      by_contra hnot
      obtain ⟨hfalse, hsome⟩ := not_or.mp hnot
      refine hmessage ⟨by simpa using hfalse, hdata, s.context, ?_, rfl, ?_⟩
      · rw [← ha.services, hl]
        simp
      · intro hnil
        have hnone : s.subscribers = [] := List.map_eq_nil_iff.mp hnil
        rw [hnone] at hsome
        exact hsome rfl
    obtain ⟨msg, hsend⟩ := sendmsgNodes_walk (J := J) (m := ⟨c.mem.nodes, headAddr s.subscribers⟩)
      writeN hpos h s.pushsrvName hdata hmalloc
    obtain ⟨w, subs, hwalk, hattempts, hpath', hsub, hloop⟩ := sendWalk_spec writeN msg (k := 0)
      (m := ⟨c.mem.nodes, headAddr s.subscribers⟩) hpath (List.nil_append _).symm hlen hlen
    obtain ⟨subs', hpath'', hcleared⟩ := sendWalk_cleared hwalk hpath hlen
    obtain rfl := hpath'.unique hpath''
    rw [hpath'.eq_headAddr] at hpath'
    have hcall : c.mem.pushsrvSendmsg J bound malloc writeN h s.addr jmsgData =
        some ({ c.mem with
          nodes := w.mem.cells
          serviceCells := Function.update c.mem.serviceCells s.addr
            (some ⟨⟨s.pushsrvName, headAddr subs, s.enabled⟩,
              headAddr (post.map ServiceNode.entry)⟩) }, w) := by
      simp only [ContextMem.pushsrvSendmsg, hcell, Option.bind_some, ServiceNode.entry, hsend]
      rw [hwalk, Option.map_some, hpath''.eq_headAddr]
    have hfrees := hs.holds.shrink hl hpath' hcleared (hsub.map _)
    have hsize := hfrees.size_le
    have hlist : japiPushsrvSendmsg writeN s.context =
        (⟨s.addr, s.pushsrvName, subs.map Prod.snd⟩, w.success, s.subscribers.map Prod.snd) := by
      simp only [japiPushsrvSendmsg, ServiceNode.context, ← hloop]
    refine ⟨{ c with mem := { c.mem with
      nodes := w.mem.cells
      serviceCells := Function.update c.mem.serviceCells s.addr
        (some ⟨⟨s.pushsrvName, headAddr subs, s.enabled⟩,
          headAddr (post.map ServiceNode.entry)⟩) } },
      { l with services := pre ++ { s with subscribers := subs } :: post }, requests, ?_,
      hs.frees hfrees rfl, ?_, by omega⟩
    · obtain ⟨hfind, -⟩ := ha.map_service hs.holds hl fun p => (japiPushsrvSendmsg writeN p).1
      have hsockets : w.attempts.map Attempt.socket = s.subscribers.map Prod.snd := by
        rw [hattempts, List.map_map]
        rfl
      simp only [MemoryContext.perform, hcall, Option.map_some, ListContext.perform, if_neg hdata,
        hfind, hlist, hsockets]
    · obtain ⟨-, hmap⟩ := ha.map_service hs.holds hl fun p => (japiPushsrvSendmsg writeN p).1
      simp only [ListContext.perform, if_neg hdata, hmap, hlist]
      exact { ha with services := by rw [List.map_append, List.map_cons]; rfl }

theorem perform_of_nullMessage (hs : Standing c.mem l requests leaked)
    (ha : Agrees c d l requests) {call : ContextCall} (hmessage : d.NullMessage call) :
    c.perform J bound call = none := by
  cases call with
  | sendmsg malloc writeN h psc jmsgData =>
      obtain ⟨rfl, hdata, p, hp, rfl, hclients⟩ := hmessage
      rw [← ha.services] at hp
      obtain ⟨s, hmem, rfl⟩ := List.mem_map.mp hp
      obtain ⟨pre, post, hl⟩ := List.append_of_mem hmem
      have hcell := hs.holds.serviceCell hl
      have hhead : headAddr s.subscribers ≠ none := by
        intro hnone
        cases hsubs : s.subscribers with
        | nil => exact hclients (by rw [ServiceNode.context, hsubs]; rfl)
        | cons e subs =>
            rw [hsubs] at hnone
            cases hnone
      obtain ⟨msg, h', hmsg⟩ := pushMessage_ok J false h s.pushsrvName jmsgData
      have hstuck : sendmsgNodes J false writeN bound h s.pushsrvName
          ⟨c.mem.nodes, headAddr s.subscribers⟩ jmsgData = none := by
        rw [sendmsgNodes, if_neg hdata, if_neg hhead, hmsg]
        rfl
      have haddr : s.context.addr = s.addr := rfl
      simp only [MemoryContext.perform, ContextMem.pushsrvSendmsg, haddr, hcell, Option.bind_some,
        ServiceNode.entry, hstuck, Option.map_none]
  | _ => exact hmessage.elim

end Calls

end Libjapi
