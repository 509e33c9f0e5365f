/-
# `Libjapi.ContextMem` — `japi_context` in memory

Three kinds of nodes hang on a context: the requests, the push services, and the
clients, of which each service has a list of its own.  Here they are cells on a
heap, the functions that unlink and free them go through the pointers, and an
access to a cell that is not in use gives `none`, as does freeing it.  Nothing
here allocates, so a cell that is gone was freed once.

`Holds` says which lists a memory holds; they share no node.  `Frees` says that
one memory became another one by taking nodes off the lists and freeing them:

    a subscriber list, one service or all of them     `pushsrvRemoveClient_spec`,
                                                      `removeFromAll_spec`
    the client list                                   `removeClient_spec`

The loops have a bound on their turns; any bound beyond the length of the lists
will do.  The sockets in the lists are not negative, as the functions that add
them assert.
-/
import Libjapi.SendWalk

namespace Libjapi

open HeapList

/-! ## Memory -/

/-- `japi_pushsrv_context`, but for `next`; the copy of its name goes with it. -/
structure ServiceVal where
  pushsrvName : CStr
  clients : Option Addr
  enabled : Bool

/-- The cells in use, and the fields of the context.  `closed` are the sockets closed so far. -/
structure ContextMem where
  nodes : Cells Int
  serviceCells : Cells ServiceVal
  requestCells : Cells JapiRequest
  requests : Option Addr
  pushServices : Option Addr
  clients : Option Addr
  numClients : UInt16
  closed : List Int

namespace ContextMem

/-! ## The code -/

/-- `japi_pushsrv_remove_client`, on the list of the service `psc`. -/
def pushsrvRemoveClient (bound : Nat) (m : ContextMem) (psc : Addr) (socket : Int) :
    Option (ContextMem × Int) :=
  (m.serviceCells psc).bind fun c =>
    (removeNode bound socket ⟨m.nodes, c.val.clients⟩).map fun r =>
      ({ m with
        nodes := r.1.cells
        serviceCells := Function.update m.serviceCells psc
          (some { c with val := { c.val with clients := r.1.head } }) }, r.2)

/-- The loop of `japi_pushsrv_remove_client_from_all_pushsrv`. -/
def removeFromAllLoop (bound : Nat) (socket : Int) :
    Nat → ContextMem → Option Addr → Option ContextMem
  | 0, _, _ => none
  | _ + 1, m, none => some m
  | turns + 1, m, some psc =>
      (m.pushsrvRemoveClient bound psc socket).bind fun r =>
        (r.1.serviceCells psc).bind fun c => removeFromAllLoop bound socket turns r.1 c.next

/-- `japi_pushsrv_remove_client_from_all_pushsrv`. -/
def pushsrvRemoveClientFromAllPushsrv (bound : Nat) (m : ContextMem) (socket : Int) :
    Option ContextMem :=
  removeFromAllLoop bound socket bound m m.pushServices

/-- `prev->next = next`, on the client list. -/
def setNext (m : ContextMem) (prev next : Option Addr) : Option ContextMem :=
  prev.bind fun a => (m.nodes a).map fun c =>
    { m with nodes := Function.update m.nodes a (some { c with next }) }

/-- `close(client->socket); free(client); ctx->num_clients--`. -/
def closeClient (m : ContextMem) (client : Addr) : Option ContextMem :=
  (m.nodes client).map fun c =>
    { m with
      nodes := Function.update m.nodes client none
      numClients := m.numClients - 1
      closed := m.closed ++ [c.val] }

/-- The loop of `japi_remove_client`: the return value is the second component. -/
def removeClientLoop (socket : Int) :
    Nat → ContextMem → Option Addr → Option Addr → Option (ContextMem × Int)
  | 0, _, _, _ => none
  | _ + 1, m, _, none => some (m, -1)
  | turns + 1, m, prev, some client =>
      (m.nodes client).bind fun c =>
        if c.val = socket ∧ prev = none then -- "If first element"
          (closeClient { m with clients := c.next } client).map (·, 0)
        else if c.val = socket ∧ c.next = none then -- "If last element"
          ((m.setNext prev none).bind (closeClient · client)).map (·, 0)
        else if c.val = socket then
          ((m.setNext prev c.next).bind (closeClient · client)).map (·, 0)
        else removeClientLoop socket turns m (some client) c.next

/-- `japi_remove_client`.  `client` is read before the services are gone through. -/
def removeClient (bound : Nat) (m : ContextMem) (socket : Int) : Option (ContextMem × Int) :=
  (m.pushsrvRemoveClientFromAllPushsrv bound socket).bind fun m' =>
    removeClientLoop socket bound m' none m.clients

end ContextMem

/-! ## Lists -/

/-- A service and its subscribers, each with the address of its node. -/
structure ServiceNode where
  addr : Addr
  pushsrvName : CStr
  enabled : Bool
  subscribers : List (Addr × Int)

namespace ServiceNode

/-- The cell of the service. -/
def entry (s : ServiceNode) : Addr × ServiceVal :=
  (s.addr, ⟨s.pushsrvName, headAddr s.subscribers, s.enabled⟩)

/-- The service without the first node that has the socket. -/
def erase (socket : Int) (s : ServiceNode) : ServiceNode :=
  { s with subscribers := eraseSocket socket s.subscribers }

end ServiceNode

/-- The lists of clients and services of a context. -/
structure Lists where
  clients : List (Addr × Int)
  services : List ServiceNode

namespace Lists

/-- The nodes of the subscribers. -/
def subscriberAddrs (services : List ServiceNode) : List Addr :=
  services.flatMap fun s => addrs s.subscribers

/-- All nodes of the lists of clients. -/
def nodeAddrs (l : Lists) : List Addr := addrs l.clients ++ subscriberAddrs l.services

/-- The bound is beyond the length of every list. -/
structure Below (l : Lists) (bound : Nat) : Prop where
  clients : l.clients.length < bound
  services : l.services.length < bound
  subscribers : ∀ s ∈ l.services, s.subscribers.length < bound

end Lists

/-- The memory holds the lists, and no node is on two of them. -/
structure Holds (m : ContextMem) (l : Lists) : Prop where
  clients : Path m.nodes m.clients l.clients
  services : Path m.serviceCells m.pushServices (l.services.map ServiceNode.entry)
  subscribers : ∀ s ∈ l.services, Path m.nodes (headAddr s.subscribers) s.subscribers
  apart : l.nodeAddrs.Nodup

/-- Nodes were taken off the lists and freed, and nothing else was. -/
structure Frees (m : ContextMem) (l : Lists) (m' : ContextMem) (l' : Lists) : Prop where
  holds : Holds m' l'
  nodes : Cleared m.nodes m'.nodes l.nodeAddrs l'.nodeAddrs
  services : Cleared m.serviceCells m'.serviceCells (l.services.map ServiceNode.addr)
    (l'.services.map ServiceNode.addr)
  requestCells : m'.requestCells = m.requestCells

theorem Frees.refl {m : ContextMem} {l : Lists} (h : Holds m l) : Frees m l m l :=
  ⟨h, .refl _ _, .refl _ _, rfl⟩

theorem Frees.trans {m₁ m₂ m₃ : ContextMem} {l₁ l₂ l₃ : Lists} (h : Frees m₁ l₁ m₂ l₂)
    (h' : Frees m₂ l₂ m₃ l₃) : Frees m₁ l₁ m₃ l₃ :=
  ⟨h'.holds, h.nodes.trans h'.nodes, h.services.trans h'.services,
    h'.requestCells.trans h.requestCells⟩

theorem addrs_entry (services : List ServiceNode) :
    addrs (services.map ServiceNode.entry) = services.map ServiceNode.addr := by
  rw [addrs, List.map_map]
  rfl

theorem Lists.subscriberAddrs_append (pre post : List ServiceNode) :
    subscriberAddrs (pre ++ post) = subscriberAddrs pre ++ subscriberAddrs post :=
  List.flatMap_append

theorem Lists.subscriberAddrs_cons (s : ServiceNode) (post : List ServiceNode) :
    subscriberAddrs (s :: post) = addrs s.subscribers ++ subscriberAddrs post := rfl

theorem Lists.nodeAddrs_of_services {l : Lists} {pre post : List ServiceNode} {s : ServiceNode}
    (hl : l.services = pre ++ s :: post) :
    l.nodeAddrs = addrs l.clients ++ subscriberAddrs pre ++ addrs s.subscribers ++
      subscriberAddrs post := by
  rw [nodeAddrs, hl, subscriberAddrs_append, subscriberAddrs_cons]
  simp only [List.append_assoc]

theorem addrs_eraseSocket_sublist (socket : Int) (l : List (Addr × Int)) :
    (addrs (eraseSocket socket l)).Sublist (addrs l) := List.eraseP_sublist.map _

/-! ## A subscriber -/

/-- What `japi_pushsrv_remove_client` does to a service and its list, which need not be linked. -/
theorem pushsrvRemoveClient_cell {m : ContextMem} {psc : Addr} {c : Cell ServiceVal}
    (hcell : m.serviceCells psc = some c) {subs : List (Addr × Int)}
    (hpath : Path m.nodes c.val.clients subs) (socket : Int) {bound : Nat}
    (hbound : subs.length < bound) :
    ∃ nodes, m.pushsrvRemoveClient bound psc socket =
        some ({ m with
          nodes
          serviceCells := Function.update m.serviceCells psc
            (some { c with val := { c.val with clients := headAddr (eraseSocket socket subs) } }) },
          if ∃ e ∈ subs, e.2 = socket then 0 else -1) ∧
      Path nodes (headAddr (eraseSocket socket subs)) (eraseSocket socket subs) ∧
      Cleared m.nodes nodes (addrs subs) (addrs (eraseSocket socket subs)) := by
  have hspec := removeNode_spec (m := ⟨m.nodes, c.val.clients⟩) hpath socket hbound
  by_cases hmem : ∃ e ∈ subs, e.2 = socket
  · rw [if_pos hmem] at hspec
    obtain ⟨m', hremove, herased⟩ := hspec
    refine ⟨m'.cells, ?_, ?_, ⟨(addrs_eraseSocket_sublist socket subs).subset, herased.freed,
      herased.frame⟩⟩
    · simp only [ContextMem.pushsrvRemoveClient, hcell, Option.bind_some, hremove, Option.map_some,
        herased.path.eq_headAddr, if_pos hmem]
    · rw [← herased.path.eq_headAddr]
      exact herased.path
  · rw [if_neg hmem] at hspec
    have hself : eraseSocket socket subs = subs :=
      List.eraseP_of_forall_not fun e he => by simpa using fun h => hmem ⟨e, he, h⟩
    refine ⟨m.nodes, ?_, ?_, ?_⟩
    · simp only [ContextMem.pushsrvRemoveClient, hcell, Option.bind_some, hspec, Option.map_some,
        hself, ← hpath.eq_headAddr, if_neg hmem]
    · rw [hself, ← hpath.eq_headAddr]
      exact hpath
    · rw [hself]
      exact .refl _ _

theorem Lists.mem_subscriberAddrs {services : List ServiceNode} {s : ServiceNode}
    (hs : s ∈ services) {a : Addr} (ha : a ∈ addrs s.subscribers) : a ∈ subscriberAddrs services :=
  List.mem_flatMap.mpr ⟨s, hs, ha⟩

theorem Holds.apart_service {m : ContextMem} {l : Lists} (h : Holds m l) {pre post : List ServiceNode}
    {s : ServiceNode} (hl : l.services = pre ++ s :: post) {a : Addr} (ha : a ∈ addrs s.subscribers) :
    a ∉ addrs l.clients ∧ ∀ t ∈ pre ++ post, a ∉ addrs t.subscribers := by
  have hapart := h.apart
  rw [Lists.nodeAddrs, hl, Lists.subscriberAddrs_append, Lists.subscriberAddrs_cons] at hapart
  obtain ⟨-, hservices, hclients⟩ := List.nodup_append.mp hapart
  obtain ⟨-, hs, hpre⟩ := List.nodup_append.mp hservices
  obtain ⟨-, -, hpost⟩ := List.nodup_append.mp hs
  refine ⟨fun hmem => hclients a hmem a (by simp [ha]) rfl, ?_⟩
  intro t ht hmem
  rcases List.mem_append.mp ht with ht | ht
  · exact hpre a (Lists.mem_subscriberAddrs ht hmem) a (by simp [ha]) rfl
  · exact hpost a ha a (Lists.mem_subscriberAddrs ht hmem) rfl

theorem Holds.shrink {m : ContextMem} {l : Lists} (h : Holds m l) {pre post : List ServiceNode}
    {s : ServiceNode} (hl : l.services = pre ++ s :: post) {nodes : Cells Int}
    {subscribers : List (Addr × Int)} (hpath : Path nodes (headAddr subscribers) subscribers)
    (hcleared : Cleared m.nodes nodes (addrs s.subscribers) (addrs subscribers))
    (hsub : (addrs subscribers).Sublist (addrs s.subscribers)) :
    Frees m l
      { m with
        nodes
        serviceCells := Function.update m.serviceCells s.addr
          (some ⟨⟨s.pushsrvName, headAddr subscribers, s.enabled⟩,
            headAddr (post.map ServiceNode.entry)⟩) }
      { l with services := pre ++ { s with subscribers } :: post } := by
  have hservices := h.services
  rw [hl, List.map_append, List.map_cons] at hservices
  have hnodes := Lists.nodeAddrs_of_services hl
  have hnodes' : Lists.nodeAddrs { l with services := pre ++ { s with subscribers } :: post } =
      addrs l.clients ++ Lists.subscriberAddrs pre ++ addrs subscribers ++
        Lists.subscriberAddrs post :=
    Lists.nodeAddrs_of_services (s := { s with subscribers }) rfl
  have haddrs : (pre ++ { s with subscribers } :: post).map ServiceNode.addr =
      l.services.map ServiceNode.addr := by simp [hl]
  refine ⟨⟨?_, ?_, ?_, ?_⟩, ?_, ?_, rfl⟩
  · exact hcleared.path h.clients fun a ha => (h.apart_service hl ha).1
  · rw [List.map_append, List.map_cons]
    exact hservices.setVal _
  · intro t ht
    rcases List.mem_append.mp ht with ht | ht
    · exact hcleared.path (h.subscribers t (by simp [hl, ht]))
        fun a ha => (h.apart_service hl ha).2 t (List.mem_append_left _ ht)
    · rcases List.mem_cons.mp ht with rfl | ht
      · exact hpath
      · exact hcleared.path (h.subscribers t (by simp [hl, ht]))
          fun a ha => (h.apart_service hl ha).2 t (List.mem_append_right _ ht)
  · have hapart := h.apart
    rw [hnodes] at hapart
    rw [hnodes']
    exact hapart.sublist (((List.Sublist.refl _).append hsub).append (List.Sublist.refl _))
  · rw [hnodes, hnodes']
    exact hcleared.append _ _
  · rw [haddrs]
    exact Cleared.update (by simp [hl]) _

theorem Holds.serviceCell {m : ContextMem} {l : Lists} (h : Holds m l)
    {pre post : List ServiceNode} {s : ServiceNode} (hl : l.services = pre ++ s :: post) :
    m.serviceCells s.addr = some ⟨s.entry.2, headAddr (post.map ServiceNode.entry)⟩ := by
  have hservices := h.services
  rw [hl, List.map_append, List.map_cons] at hservices
  exact hservices.cell

/-- **`japi_pushsrv_remove_client`** removes the first subscriber with the socket. -/
theorem pushsrvRemoveClient_spec {m : ContextMem} {l : Lists} (h : Holds m l)
    {pre post : List ServiceNode} {s : ServiceNode} (hl : l.services = pre ++ s :: post)
    (socket : Int) {bound : Nat} (hbound : s.subscribers.length < bound) :
    ∃ m', m.pushsrvRemoveClient bound s.addr socket =
        some (m', if ∃ e ∈ s.subscribers, e.2 = socket then 0 else -1) ∧
      Frees m l m' { l with services := pre ++ s.erase socket :: post } ∧
      m'.serviceCells s.addr = some ⟨(s.erase socket).entry.2, headAddr (post.map ServiceNode.entry)⟩ ∧
      ∃ nodes serviceCells, m' = { m with nodes, serviceCells } := by
  have hcell := h.serviceCell hl
  obtain ⟨nodes, hremove, hpath, hcleared⟩ := pushsrvRemoveClient_cell hcell
    (h.subscribers s (by simp [hl])) socket hbound
  refine ⟨_, hremove, h.shrink hl hpath hcleared (addrs_eraseSocket_sublist socket _), ?_, _, _, rfl⟩
  exact Function.update_self _ _ _

/-- The loop of `japi_pushsrv_remove_client_from_all_pushsrv`, behind the services in `pre`. -/
theorem removeFromAllLoop_spec (socket : Int) {bound : Nat} {post : List ServiceNode} :
    ∀ {turns : Nat} {m : ContextMem} {l : Lists} {pre : List ServiceNode}, Holds m l →
      l.services = pre ++ post → (∀ s ∈ post, s.subscribers.length < bound) → post.length < turns →
      ∃ m', ContextMem.removeFromAllLoop bound socket turns m
          (headAddr (post.map ServiceNode.entry)) = some m' ∧
        Frees m l m' { l with services := pre ++ post.map (ServiceNode.erase socket) } ∧
        ∃ nodes serviceCells, m' = { m with nodes, serviceCells } := by
  induction post with
  | nil =>
      intro turns m l pre h hl _ hturns
      obtain ⟨turns, rfl⟩ := Nat.exists_eq_add_one_of_ne_zero (Nat.ne_zero_of_lt hturns)
      refine ⟨m, rfl, ?_, _, _, rfl⟩
      rw [List.map_nil, ← hl]
      exact .refl h
  | cons s post ih =>
      intro turns m l pre h hl hbound hturns
      obtain ⟨turns, rfl⟩ := Nat.exists_eq_add_one_of_ne_zero (Nat.ne_zero_of_lt hturns)
      obtain ⟨m₁, hremove, hfrees, hcell, nodes, serviceCells, rfl⟩ :=
        pushsrvRemoveClient_spec h hl socket (hbound s List.mem_cons_self)
      obtain ⟨m', hloop, hfrees', nodes', serviceCells', rfl⟩ := ih hfrees.holds
        (List.append_cons pre _ post) (fun t ht => hbound t (List.mem_cons_of_mem _ ht))
        (Nat.lt_of_succ_lt_succ hturns)
      refine ⟨_, ?_, hfrees.trans ?_, nodes', serviceCells', rfl⟩
      · have hhead : headAddr ((s :: post).map ServiceNode.entry) = some s.addr := rfl
        dsimp only at hcell
        simp only [ContextMem.removeFromAllLoop, hhead, hremove, Option.bind_some, hcell, hloop]
      · simpa using hfrees'

/-- **`japi_pushsrv_remove_client_from_all_pushsrv`** does that for every service. -/
theorem removeFromAll_spec {m : ContextMem} {l : Lists} (h : Holds m l) (socket : Int) {bound : Nat}
    (hbound : l.Below bound) :
    ∃ m', m.pushsrvRemoveClientFromAllPushsrv bound socket = some m' ∧
      Frees m l m' { l with services := l.services.map (ServiceNode.erase socket) } ∧
      ∃ nodes serviceCells, m' = { m with nodes, serviceCells } := by
  obtain ⟨m', hloop, hfrees, hm'⟩ := removeFromAllLoop_spec socket h (List.nil_append _).symm
    hbound.subscribers hbound.services
  refine ⟨m', ?_, hfrees, hm'⟩
  rw [ContextMem.pushsrvRemoveClientFromAllPushsrv, h.services.eq_headAddr]
  exact hloop

/-! ## A client -/

/-- The memory with the list a removal left, and the client closed if there was one. -/
def ContextMem.withRemoval (m : ContextMem) (socket : Int) (r : ListMem × Int) : ContextMem × Int :=
  (if r.2 = 0 then
    { m with
      nodes := r.1.cells
      clients := r.1.head
      numClients := m.numClients - 1
      closed := m.closed ++ [socket] }
  else m, r.2)

theorem setNext_closeClient {m : ContextMem} {client : Addr} {c : Cell Int}
    (hcell : m.nodes client = some c) (prev next : Option Addr) :
    ((m.setNext prev next).bind (ContextMem.closeClient · client)).map (·, (0 : Int)) =
      (((ListMem.setNext ⟨m.nodes, m.clients⟩ prev next).bind (ListMem.free · client)).map
        (·, (0 : Int))).map (m.withRemoval c.val) := by
  cases prev with
  | none => rfl
  | some a =>
      cases ha : m.nodes a with
      | none => simp only [ContextMem.setNext, ListMem.setNext, Option.bind_some, ha, Option.map_none,
          Option.bind_none]
      | some d =>
          -- the write leaves the socket of the client as it is
          have hval : ∃ c', Function.update m.nodes a (some { d with next }) client = some c' ∧
              c'.val = c.val := by
            by_cases heq : client = a
            · subst heq
              rw [hcell] at ha
              cases ha
              exact ⟨_, Function.update_self _ _ _, rfl⟩
            · exact ⟨c, (Function.update_of_ne heq _ _).trans hcell, rfl⟩
          obtain ⟨c', hc', hv⟩ := hval
          simp only [ContextMem.setNext, ListMem.setNext, Option.bind_some, ha, Option.map_some,
            ContextMem.closeClient, ListMem.free, hc', hv, ContextMem.withRemoval, if_true]

/-- **The two unlink loops do the same to their list.** -/
theorem removeClientLoop_eq (socket : Int) :
    ∀ (turns : Nat) (m : ContextMem) (prev client : Option Addr),
      ContextMem.removeClientLoop socket turns m prev client =
        (removeLoop socket turns ⟨m.nodes, m.clients⟩ prev client).map (m.withRemoval socket)
  | 0, _, _, _ => rfl
  | _ + 1, _, _, none => rfl
  | turns + 1, m, prev, some client => by
      cases hcell : m.nodes client with
      | none => simp only [ContextMem.removeClientLoop, removeLoop, hcell, Option.bind_none,
          Option.map_none]
      | some c =>
          simp only [ContextMem.removeClientLoop, removeLoop, hcell, Option.bind_some]
          split
          · rename_i hfirst
            simp only [ContextMem.closeClient, ListMem.free, hcell, Option.map_some, hfirst.1,
              ContextMem.withRemoval, if_true]
          · split
            · rename_i hlast
              rw [setNext_closeClient hcell, hlast.1]
            · split
              · rename_i hinner
                rw [setNext_closeClient hcell, hinner]
              · exact removeClientLoop_eq socket turns m (some client) c.next

theorem Holds.removed {m : ContextMem} {l : Lists} {socket : Int} {lm : ListMem} (h : Holds m l)
    (herased : Erased ⟨m.nodes, m.clients⟩ lm l.clients socket) (numClients : UInt16)
    (closed : List Int) :
    Frees m l { m with nodes := lm.cells, clients := lm.head, numClients, closed }
      { l with clients := eraseSocket socket l.clients } := by
  have hsub := addrs_eraseSocket_sublist socket l.clients
  have hapart := h.apart
  have hdisj := (List.nodup_append.mp hapart).2.2
  have hcleared : Cleared m.nodes lm.cells (addrs l.clients)
      (addrs (eraseSocket socket l.clients)) := ⟨hsub.subset, herased.freed, herased.frame⟩
  refine ⟨⟨herased.path, h.services, ?_, hapart.sublist (hsub.append (.refl _))⟩, ?_,
    .refl _ _, rfl⟩
  · intro s hs
    refine (h.subscribers s hs).frame fun a ha => herased.frame a ?_
    exact fun hc => hdisj a hc a (Lists.mem_subscriberAddrs hs ha) rfl
  · exact hcleared.append [] (Lists.subscriberAddrs l.services)

/-- **`japi_remove_client`** removes the first subscriber with the socket from every service, and
the first client with the socket. -/
theorem removeClient_spec {m : ContextMem} {l : Lists} (h : Holds m l) (socket : Int) {bound : Nat}
    (hbound : l.Below bound) :
    ∃ m', Frees m l m' ⟨eraseSocket socket l.clients, l.services.map (ServiceNode.erase socket)⟩ ∧
      if ∃ e ∈ l.clients, e.2 = socket then
        m.removeClient bound socket = some (m', 0) ∧ m'.numClients = m.numClients - 1 ∧
          m'.closed = m.closed ++ [socket]
      else m.removeClient bound socket = some (m', -1) ∧ m'.numClients = m.numClients ∧
        m'.closed = m.closed := by
  obtain ⟨m₁, hall, hfrees, nodes, serviceCells, rfl⟩ := removeFromAll_spec h socket hbound
  have hspec := removeNode_spec (m := ⟨nodes, m.clients⟩) hfrees.holds.clients socket hbound.clients
  have hcall : m.removeClient bound socket =
      (removeNode bound socket ⟨nodes, m.clients⟩).map
        ({ m with nodes, serviceCells }.withRemoval socket) := by
    simp only [ContextMem.removeClient, hall, Option.bind_some, removeClientLoop_eq]
    rfl
  by_cases hmem : ∃ e ∈ l.clients, e.2 = socket
  · rw [if_pos hmem] at hspec
    obtain ⟨lm, hremove, herased⟩ := hspec
    rw [hremove] at hcall
    refine ⟨_, hfrees.trans (hfrees.holds.removed herased (m.numClients - 1) (m.closed ++ [socket])), ?_⟩
    rw [if_pos hmem]
    exact ⟨hcall, rfl, rfl⟩
  · rw [if_neg hmem] at hspec
    have hself : eraseSocket socket l.clients = l.clients :=
      List.eraseP_of_forall_not fun e he => by simpa using fun h => hmem ⟨e, he, h⟩
    rw [hspec] at hcall
    refine ⟨_, hself.symm ▸ hfrees, ?_⟩
    rw [if_neg hmem]
    exact ⟨hcall, rfl, rfl⟩

end Libjapi
