/-
# `Libjapi.Teardown` — `japi_remove_all_clients`, `japi_pushsrv_destroy`, `japi_destroy`

The three functions walk a list with a saved pointer to the next node, while the
function they call unlinks and frees a node that it looks for: by its socket or
by its address.  That node is the one the walk is at, as this is the head of the
list each time; so no node is touched after it was freed:

    each of the three returns 0 and frees the nodes of its lists, which were in use,
    and no other one                                             `teardown_frees`
-/
import Libjapi.ContextMem

namespace Libjapi

open HeapList

namespace ContextMem

/-! ## The code -/

/-- The loop of `japi_remove_all_clients`. -/
def removeAllLoop (bound : Nat) : Nat → ContextMem → Option Addr → Option (ContextMem × Int)
  | 0, _, _ => none
  | _ + 1, m, none => some (m, 0)
  | turns + 1, m, some client =>
      (m.nodes client).bind fun c =>
        (m.removeClient bound c.val).bind fun r =>
          if r.2 ≠ 0 then some (r.1, -1) else removeAllLoop bound turns r.1 c.next

/-- `japi_remove_all_clients`. -/
def removeAllClients (bound : Nat) (m : ContextMem) : Option (ContextMem × Int) :=
  removeAllLoop bound bound m m.clients

/-- "Clean up linked list in ctx->push_service". -/
def unlinkLoop (psc : Addr) :
    Nat → ContextMem → Option Addr → Option Addr → Option ContextMem
  | 0, _, _, _ => none
  | _ + 1, m, _, none => some m
  | turns + 1, m, pscPrev, some pscIter =>
      (m.serviceCells pscIter).bind fun c =>
        if pscIter = psc then
          match pscPrev with
          | none => some { m with pushServices := c.next } -- "If first element"
          | some prev => (m.serviceCells prev).map fun d =>
              { m with
                serviceCells := Function.update m.serviceCells prev (some { d with next := c.next }) }
        else unlinkLoop psc turns m (some pscIter) c.next

/-- The loop of `japi_pushsrv_destroy` over the subscribers. -/
def teardownLoop (bound : Nat) (psc : Addr) : Nat → ContextMem → Option Addr → Option ContextMem
  | 0, _, _ => none
  | _ + 1, m, none => some m
  | turns + 1, m, some client =>
      (m.nodes client).bind fun c =>
        (m.pushsrvRemoveClient bound psc c.val).bind fun r => teardownLoop bound psc turns r.1 c.next

/-- `japi_pushsrv_stop`, which reads and clears `enabled`. -/
def pushsrvStop (m : ContextMem) (psc : Addr) : Option ContextMem :=
  (m.serviceCells psc).map fun c =>
    { m with
      serviceCells := Function.update m.serviceCells psc
        (some { c with val := { c.val with enabled := false } }) }

/-- `free_pushsrv`. -/
def freePushsrv (m : ContextMem) (psc : Addr) : Option ContextMem :=
  (m.serviceCells psc).map fun _ =>
    { m with serviceCells := Function.update m.serviceCells psc none }

/-- `japi_pushsrv_destroy`. -/
def pushsrvDestroy (bound : Nat) (m : ContextMem) : Option Addr → Option (ContextMem × Int)
  | none => some (m, -1)
  | some psc =>
      (unlinkLoop psc bound m none m.pushServices).bind fun m =>
        (m.serviceCells psc).bind fun c =>
          (teardownLoop bound psc bound m c.val.clients).bind fun m =>
            (m.pushsrvStop psc).bind fun m => (m.freePushsrv psc).map (·, 0)

/-- The loop of `japi_destroy` over the requests. -/
def destroyRequests : Nat → ContextMem → Option Addr → Option ContextMem
  | 0, _, _ => none
  | _ + 1, m, none => some m
  | turns + 1, m, some req =>
      (m.requestCells req).bind fun c =>
        destroyRequests turns { m with requestCells := Function.update m.requestCells req none } c.next

/-- The loop of `japi_destroy` over the services. -/
def destroyServices (bound : Nat) : Nat → ContextMem → Option Addr → Option ContextMem
  | 0, _, _ => none
  | _ + 1, m, none => some m
  | turns + 1, m, some psc =>
      (m.serviceCells psc).bind fun c =>
        (m.pushsrvDestroy bound (some psc)).bind fun r => destroyServices bound turns r.1 c.next

/-- `japi_destroy`, up to `free(ctx)`. -/
def destroy (bound : Nat) (m : ContextMem) : Option (ContextMem × Int) :=
  (destroyRequests bound m m.requests).bind fun m =>
    (destroyServices bound bound m m.pushServices).map (·, 0)

end ContextMem

/-! ## The clients -/

/-- The service without the sockets, each taken off once. -/
def ServiceNode.eraseAll (sockets : List Int) (s : ServiceNode) : ServiceNode :=
  sockets.foldl (fun s socket => s.erase socket) s

theorem Lists.Below.removed {l : Lists} {bound : Nat} (h : l.Below bound) (socket : Int) :
    Lists.Below ⟨eraseSocket socket l.clients, l.services.map (ServiceNode.erase socket)⟩ bound := by
  have hle : ∀ k : List (Addr × Int), (eraseSocket socket k).length ≤ k.length :=
    fun k => List.eraseP_sublist.length_le
  refine ⟨(hle _).trans_lt h.clients, by simpa using h.services, ?_⟩
  intro s hs
  obtain ⟨t, ht, rfl⟩ := List.mem_map.mp hs
  exact (hle _).trans_lt (h.subscribers t ht)

theorem Lists.Below.without {l : Lists} {bound : Nat} (h : l.Below bound)
    {pre post : List ServiceNode} {s : ServiceNode} (hl : l.services = pre ++ s :: post) :
    Lists.Below { l with services := pre ++ post } bound := by
  have hsub : (pre ++ post).Sublist l.services := by
    rw [hl]
    exact (List.sublist_cons_self s post).append_left pre
  exact ⟨h.clients, hsub.length_le.trans_lt h.services, fun t ht => h.subscribers t (hsub.subset ht)⟩

/-- The loop of `japi_remove_all_clients`: the client it is at is the first one. -/
theorem removeAllLoop_spec {bound : Nat} (cl : List (Addr × Int)) :
    ∀ {turns : Nat} {m : ContextMem} {l : Lists}, Holds m l → l.clients = cl → l.Below bound →
      cl.length < turns →
      ∃ m', ContextMem.removeAllLoop bound turns m (headAddr cl) = some (m', 0) ∧
        Frees m l m' ⟨[], l.services.map (ServiceNode.eraseAll (cl.map Prod.snd))⟩ ∧
        m'.numClients = m.numClients - UInt16.ofNat cl.length ∧
        m'.closed = m.closed ++ cl.map Prod.snd := by
  induction cl with
  | nil =>
      intro turns m l h hl _ hturns
      obtain ⟨turns, rfl⟩ := Nat.exists_eq_add_one_of_ne_zero (Nat.ne_zero_of_lt hturns)
      have hself : (⟨[], l.services.map (ServiceNode.eraseAll [])⟩ : Lists) = l := by
        rw [show ServiceNode.eraseAll [] = id from rfl, List.map_id, ← hl]
      exact ⟨m, rfl, hself.symm ▸ .refl h, (sub_zero m.numClients).symm,
        (List.append_nil m.closed).symm⟩
  | cons e cl ih =>
      obtain ⟨client, socket⟩ := e
      intro turns m l h hl hbound hturns
      obtain ⟨turns, rfl⟩ := Nat.exists_eq_add_one_of_ne_zero (Nat.ne_zero_of_lt hturns)
      have hclients := h.clients
      rw [hl] at hclients
      have hcell : m.nodes client = some ⟨socket, headAddr cl⟩ :=
        hclients.cell_head
      obtain ⟨m₁, hfrees, hremove⟩ := removeClient_spec h socket hbound
      rw [if_pos ⟨(client, socket), by simp [hl], rfl⟩] at hremove
      obtain ⟨hcall, hnum, hclosed⟩ := hremove
      have hhead : eraseSocket socket l.clients = cl := by
        rw [hl]
        exact eraseSocket_head client socket cl
      obtain ⟨m', hloop, hfrees', hnum', hclosed'⟩ := ih hfrees.holds hhead (hbound.removed socket)
        (Nat.lt_of_succ_lt_succ hturns)
      refine ⟨m', ?_, hfrees.trans ?_, ?_, ?_⟩
      · have hat : headAddr ((client, socket) :: cl) = some client := rfl
        simp only [ContextMem.removeAllLoop, hat, hcell, Option.bind_some, hcall, ne_eq,
          not_true_eq_false, if_false, hloop]
      · rw [List.map_map] at hfrees'
        exact hfrees'
      · rw [hnum', hnum, List.length_cons, UInt16.ofNat_add, sub_sub, add_comm]
        rfl
      · rw [hclosed', hclosed, List.append_assoc]
        rfl

/-! ## A service -/

theorem unlinkLoop_spec {m : ContextMem} {psc : Addr} {v : ServiceVal}
    {mid post : List (Addr × ServiceVal)} :
    ∀ {turns : Nat} (done : List (Addr × ServiceVal)),
      Path m.serviceCells m.pushServices (done ++ mid ++ (psc, v) :: post) → mid.length < turns →
      ∃ serviceCells pushServices,
        ContextMem.unlinkLoop psc turns m (lastAddr done) (headAddr (mid ++ (psc, v) :: post)) =
          some { m with serviceCells, pushServices } ∧
        Path serviceCells pushServices (done ++ mid ++ post) ∧
        serviceCells psc = some ⟨v, headAddr post⟩ ∧
        ∀ a, a ∉ addrs (done ++ mid) → serviceCells a = m.serviceCells a := by
  induction mid with
  | nil =>
      intro turns done hpath hturns
      obtain ⟨turns, rfl⟩ := Nat.exists_eq_add_one_of_ne_zero (Nat.ne_zero_of_lt hturns)
      rw [List.append_nil] at hpath ⊢
      have hcell : m.serviceCells psc = some ⟨v, headAddr post⟩ := hpath.cell
      have hat : headAddr ([] ++ (psc, v) :: post) = some psc := rfl
      cases done using List.reverseRecOn with
      | nil =>
          refine ⟨m.serviceCells, headAddr post, ?_, hpath.unlink_head, hcell, fun _ _ => rfl⟩
          simp only [ContextMem.unlinkLoop, hat, hcell, Option.bind_some, if_true, lastAddr,
            List.getLast?_nil, Option.map_none]
      | append_singleton done e =>
          obtain ⟨b, w⟩ := e
          rw [List.append_assoc, List.cons_append, List.nil_append] at hpath
          have hb : m.serviceCells b = some ⟨w, some psc⟩ := hpath.cell
          have hne : psc ≠ b := hpath.addr_ne (by simp [addrs])
          refine ⟨Function.update m.serviceCells b (some ⟨w, headAddr post⟩), m.pushServices, ?_, ?_,
            (Function.update_of_ne hne _ _).trans hcell, ?_⟩
          · simp only [ContextMem.unlinkLoop, hat, hcell, Option.bind_some, if_true, lastAddr_concat,
              hb, Option.map_some]
          · rw [List.append_assoc]
            exact hpath.unlink
          · intro a ha
            refine Function.update_of_ne ?_ _ _
            rintro rfl
            exact ha (by simp [addrs])
  | cons e mid ih =>
      obtain ⟨b, w⟩ := e
      intro turns done hpath hturns
      obtain ⟨turns, rfl⟩ := Nat.exists_eq_add_one_of_ne_zero (Nat.ne_zero_of_lt hturns)
      have hassoc : done ++ (b, w) :: mid = done ++ [(b, w)] ++ mid := by simp
      rw [hassoc] at hpath ⊢
      obtain ⟨serviceCells, pushServices, hloop, hrest⟩ :=
        ih _ hpath (Nat.lt_of_succ_lt_succ hturns)
      refine ⟨serviceCells, pushServices, ?_, hrest⟩
      have hb : Path m.serviceCells m.pushServices (done ++ (b, w) :: (mid ++ (psc, v) :: post)) := by
        simpa using hpath
      have hcell : m.serviceCells b = some ⟨w, headAddr (mid ++ (psc, v) :: post)⟩ := hb.cell
      have hne : psc ≠ b := hb.addr_ne (by simp [addrs])
      have hat : headAddr ((b, w) :: mid ++ (psc, v) :: post) = some b := rfl
      rw [lastAddr_concat] at hloop
      simp only [ContextMem.unlinkLoop, hat, hcell, Option.bind_some, if_neg hne.symm, hloop]

/-- The loop over the subscribers of a service: the client it is at is the first one. -/
theorem teardownLoop_spec {bound : Nat} {psc : Addr} {next : Option Addr}
    (subs : List (Addr × Int)) :
    ∀ {turns : Nat} {m : ContextMem} {v : ServiceVal}, m.serviceCells psc = some ⟨v, next⟩ →
      Path m.nodes v.clients subs → subs.length < bound → subs.length < turns →
      ∃ nodes, ContextMem.teardownLoop bound psc turns m v.clients =
          some { m with
            nodes
            serviceCells := Function.update m.serviceCells psc
              (some ⟨{ v with clients := none }, next⟩) } ∧
        Cleared m.nodes nodes (addrs subs) [] := by
  induction subs with
  | nil =>
      intro turns m v hcell hpath _ hturns
      obtain ⟨turns, rfl⟩ := Nat.exists_eq_add_one_of_ne_zero (Nat.ne_zero_of_lt hturns)
      have hnone : v.clients = none := hpath
      refine ⟨m.nodes, ?_, .refl _ _⟩
      have hself : Function.update m.serviceCells psc (some ⟨{ v with clients := none }, next⟩)
          = m.serviceCells := by
        rw [← hnone, ← hcell]
        exact Function.update_eq_self psc m.serviceCells
      rw [hself, hnone]
      rfl
  | cons e subs ih =>
      obtain ⟨client, socket⟩ := e
      intro turns m v hcell hpath hbound hturns
      obtain ⟨turns, rfl⟩ := Nat.exists_eq_add_one_of_ne_zero (Nat.ne_zero_of_lt hturns)
      have hnode : m.nodes client = some ⟨socket, headAddr subs⟩ := hpath.cell_head
      have hhead : eraseSocket socket ((client, socket) :: subs) = subs :=
        eraseSocket_head client socket subs
      obtain ⟨nodes₁, hremove, hpath₁, hcleared₁⟩ := pushsrvRemoveClient_cell hcell hpath socket hbound
      rw [hhead] at hremove hpath₁ hcleared₁
      obtain ⟨nodes, hloop, hcleared⟩ := ih
        (m := { m with
          nodes := nodes₁
          serviceCells := Function.update m.serviceCells psc
            (some ⟨{ v with clients := headAddr subs }, next⟩) })
        (Function.update_self _ _ _) hpath₁ (Nat.lt_of_succ_lt hbound) (Nat.lt_of_succ_lt_succ hturns)
      refine ⟨nodes, ?_, hcleared₁.trans hcleared⟩
      have hat : v.clients = some client := hpath.1
      rw [hat]
      simp only [ContextMem.teardownLoop, hnode, Option.bind_some, hremove, hloop,
        Function.update_idem]

theorem Holds.drop_service {m : ContextMem} {l : Lists} (h : Holds m l) {pre post : List ServiceNode}
    {s : ServiceNode} (hl : l.services = pre ++ s :: post) {nodes : Cells Int}
    (hnodes : Cleared m.nodes nodes (addrs s.subscribers) []) {serviceCells : Cells ServiceVal}
    {pushServices : Option Addr}
    (hpath : Path serviceCells pushServices ((pre ++ post).map ServiceNode.entry))
    (hcells : Cleared m.serviceCells serviceCells (l.services.map ServiceNode.addr)
      ((pre ++ post).map ServiceNode.addr)) :
    Frees m l { m with nodes, serviceCells, pushServices } { l with services := pre ++ post } := by
  have hall := Lists.nodeAddrs_of_services hl
  have hleft : Lists.nodeAddrs { l with services := pre ++ post } =
      addrs l.clients ++ Lists.subscriberAddrs pre ++ [] ++ Lists.subscriberAddrs post := by
    rw [Lists.nodeAddrs, Lists.subscriberAddrs_append]
    simp only [List.append_assoc, List.nil_append]
  refine ⟨⟨?_, hpath, ?_, ?_⟩, ?_, hcells, rfl⟩
  · exact hnodes.path h.clients fun a ha => (h.apart_service hl ha).1
  · intro t ht
    have hmem : t ∈ l.services := by
      rw [hl]
      exact (List.sublist_cons_self s post).append_left pre |>.subset ht
    exact hnodes.path (h.subscribers t hmem) fun a ha => (h.apart_service hl ha).2 t ht
  · have hapart := h.apart
    rw [hall] at hapart
    rw [hleft]
    exact hapart.sublist (((List.Sublist.refl _).append (List.nil_sublist _)).append (.refl _))
  · rw [hall, hleft]
    exact hnodes.append _ _

theorem pushsrvDestroy_spec {bound : Nat} {m : ContextMem} {l : Lists} (h : Holds m l)
    (hbound : l.Below bound) {pre post : List ServiceNode} {s : ServiceNode}
    (hl : l.services = pre ++ s :: post) :
    ∃ m', m.pushsrvDestroy bound (some s.addr) = some (m', 0) ∧
      Frees m l m' { l with services := pre ++ post } ∧
      ∃ nodes serviceCells pushServices, m' = { m with nodes, serviceCells, pushServices } := by
  have hservices := h.services
  rw [hl, List.map_append, List.map_cons] at hservices
  have hlen : pre.length < bound := by
    have := hbound.services
    rw [hl, List.length_append] at this
    omega
  obtain ⟨serviceCells, pushServices, hunlink, hpath, hcell, hframe⟩ :=
    unlinkLoop_spec [] hservices (show (pre.map ServiceNode.entry).length < bound by simpa using hlen)
  rw [List.nil_append] at hpath hframe
  have hsubs : s.subscribers.length < bound := hbound.subscribers s (by simp [hl])
  obtain ⟨nodes, hteardown, hnodes⟩ := teardownLoop_spec s.subscribers
    (m := { m with serviceCells, pushServices }) hcell
    (h.subscribers s (by simp [hl])) hsubs hsubs
  have hnodup : (l.services.map ServiceNode.addr).Nodup := by
    rw [← addrs_entry]
    exact h.services.nodup
  rw [hl, List.map_append, List.map_cons] at hnodup
  have hother : s.addr ∉ (pre ++ post).map ServiceNode.addr := by
    rw [List.map_append]
    exact (List.nodup_middle.mp hnodup).notMem
  refine ⟨_, ?_, h.drop_service hl hnodes ?_ ?_, nodes,
    Function.update serviceCells s.addr none, pushServices, rfl⟩
  · have hstart : m.pushServices = headAddr (pre.map ServiceNode.entry ++
        s.entry :: post.map ServiceNode.entry) := hservices.eq_headAddr
    have hwalk : ContextMem.unlinkLoop s.addr bound m none m.pushServices =
        some { m with serviceCells, pushServices } := by
      rw [hstart]
      exact hunlink
    simp only [ContextMem.pushsrvDestroy, hwalk, Option.bind_some, hcell, hteardown,
      ContextMem.pushsrvStop, ContextMem.freePushsrv, Function.update_self, Option.map_some,
      Function.update_idem]
  · rw [← List.map_append] at hpath
    refine hpath.update ?_ none
    rw [addrs_entry]
    exact hother
  · rw [hl]
    refine ⟨List.Sublist.subset ?_, ?_, ?_⟩
    · exact ((List.sublist_cons_self s post).append_left pre).map _
    · intro a ha hno
      have heq : a = s.addr := by
        simp only [List.map_append, List.map_cons, List.mem_append, List.mem_cons] at ha hno
        tauto
      rw [heq]
      exact Function.update_self _ _ _
    · intro a ha
      simp only [List.map_append, List.map_cons, List.mem_append, List.mem_cons, not_or] at ha
      rw [Function.update_of_ne ha.2.1]
      exact hframe a (by rw [addrs_entry]; exact ha.1)

/-! ## The context -/

theorem destroyRequests_spec (requests : List (Addr × JapiRequest)) :
    ∀ {turns : Nat} {m : ContextMem} {p : Option Addr}, Path m.requestCells p requests →
      requests.length < turns →
      ∃ requestCells,
        ContextMem.destroyRequests turns m p = some { m with requestCells } ∧
        Cleared m.requestCells requestCells (addrs requests) [] := by
  induction requests with
  | nil =>
      intro turns m p hpath hturns
      obtain ⟨turns, rfl⟩ := Nat.exists_eq_add_one_of_ne_zero (Nat.ne_zero_of_lt hturns)
      have hnone : p = none := hpath
      rw [hnone]
      exact ⟨m.requestCells, rfl, .refl _ _⟩
  | cons e requests ih =>
      obtain ⟨req, r⟩ := e
      intro turns m p hpath hturns
      obtain ⟨turns, rfl⟩ := Nat.exists_eq_add_one_of_ne_zero (Nat.ne_zero_of_lt hturns)
      have hnot : req ∉ addrs requests := (List.nodup_cons.mp hpath.nodup).1
      obtain ⟨rfl, next, hcell, hrest⟩ := hpath
      obtain ⟨requestCells, hloop, hcleared⟩ := ih
        (m := { m with requestCells := Function.update m.requestCells req none })
        (hrest.update hnot none) (Nat.lt_of_succ_lt_succ hturns)
      refine ⟨requestCells, ?_, (Cleared.free req).trans hcleared⟩
      simp only [ContextMem.destroyRequests, hcell, Option.bind_some, hloop]

/-- The loop of `japi_destroy` over the services: the one it is at is the first one. -/
theorem destroyServices_spec {bound : Nat} (services : List ServiceNode) :
    ∀ {turns : Nat} {m : ContextMem} {l : Lists}, Holds m l → l.services = services →
      l.Below bound → services.length < turns →
      ∃ m', ContextMem.destroyServices bound turns m
          (headAddr (services.map ServiceNode.entry)) = some m' ∧
        Frees m l m' { l with services := [] } := by
  induction services with
  | nil =>
      intro turns m l h hl _ hturns
      obtain ⟨turns, rfl⟩ := Nat.exists_eq_add_one_of_ne_zero (Nat.ne_zero_of_lt hturns)
      refine ⟨m, rfl, ?_⟩
      rw [← hl]
      exact .refl h
  | cons s services ih =>
      intro turns m l h hl hbound hturns
      obtain ⟨turns, rfl⟩ := Nat.exists_eq_add_one_of_ne_zero (Nat.ne_zero_of_lt hturns)
      have hl' : l.services = [] ++ s :: services := hl
      have hcell := h.serviceCell hl'
      obtain ⟨m₁, hdestroy, hfrees, -⟩ := pushsrvDestroy_spec h hbound hl'
      obtain ⟨m', hloop, hfrees'⟩ := ih hfrees.holds rfl
        (hbound.without hl) (Nat.lt_of_succ_lt_succ hturns)
      refine ⟨m', ?_, hfrees.trans hfrees'⟩
      have hat : headAddr ((s :: services).map ServiceNode.entry) = some s.addr := rfl
      simp only [ContextMem.destroyServices, hat, hcell, Option.bind_some, hdestroy, hloop]

/-- **No function of the teardown touches a node after it was freed**, each frees the nodes of
its lists and no other one, and `japi_remove_all_clients` returns 0 with no client left. -/
theorem teardown_frees {bound : Nat} {m : ContextMem} {l : Lists}
    {requests : List (Addr × JapiRequest)} (h : Holds m l)
    (hrequests : Path m.requestCells m.requests requests) (hbound : l.Below bound)
    (hlen : requests.length < bound) :
    (∃ m', m.removeAllClients bound = some (m', 0) ∧
      Frees m l m' ⟨[], l.services.map (ServiceNode.eraseAll (l.clients.map Prod.snd))⟩ ∧
      m'.clients = none ∧ m'.numClients = m.numClients - UInt16.ofNat l.clients.length ∧
      m'.closed = m.closed ++ l.clients.map Prod.snd) ∧
    (∀ pre s post, l.services = pre ++ s :: post →
      ∃ m', m.pushsrvDestroy bound (some s.addr) = some (m', 0) ∧
        Frees m l m' { l with services := pre ++ post }) ∧
    (∃ m', m.destroy bound = some (m', 0) ∧ Holds m' { l with services := [] } ∧
      m'.pushServices = none ∧
      Cleared m.nodes m'.nodes l.nodeAddrs (addrs l.clients) ∧
      Cleared m.serviceCells m'.serviceCells (l.services.map ServiceNode.addr) [] ∧
      Cleared m.requestCells m'.requestCells (addrs requests) []) := by
  refine ⟨?_, ?_, ?_⟩
  · obtain ⟨m', hloop, hfrees, hnum, hclosed⟩ := removeAllLoop_spec l.clients h rfl hbound hbound.clients
    rw [← h.clients.eq_headAddr] at hloop
    exact ⟨m', hloop, hfrees, hfrees.holds.clients, hnum, hclosed⟩
  · intro pre s post hl
    obtain ⟨m', hdestroy, hfrees, -⟩ := pushsrvDestroy_spec h hbound hl
    exact ⟨m', hdestroy, hfrees⟩
  · obtain ⟨requestCells, hreqs, hcleared⟩ := destroyRequests_spec requests hrequests hlen
    -- the services do not depend on the cells of the requests
    have h₁ : Holds { m with requestCells } l := ⟨h.clients, h.services, h.subscribers, h.apart⟩
    obtain ⟨m', hservices, hfrees⟩ := destroyServices_spec l.services h₁ rfl hbound hbound.services
    have hnodes := hfrees.nodes
    rw [show Lists.nodeAddrs { l with services := [] } = addrs l.clients from List.append_nil _]
      at hnodes
    refine ⟨m', ?_, hfrees.holds, hfrees.holds.services, hnodes, hfrees.services, ?_⟩
    · rw [← h₁.services.eq_headAddr] at hservices
      simp only [ContextMem.destroy, hreqs, Option.bind_some, hservices, Option.map_some]
    · rw [hfrees.requestCells]
      exact hcleared

/-- Clients 5, 6 and 5 again; a service to which 5 is subscribed twice and an empty one; a request. -/
def twoServices : ContextMem where
  nodes
    | 1 => some ⟨5, some 2⟩
    | 2 => some ⟨6, some 3⟩
    | 3 => some ⟨5, none⟩
    | 4 => some ⟨5, some 5⟩
    | 5 => some ⟨5, none⟩
    | _ => none
  serviceCells
    | 1 => some ⟨⟨CStr.lit "humidity", none, false⟩, some 2⟩
    | 2 => some ⟨⟨CStr.lit "temperature", some 4, true⟩, none⟩
    | _ => none
  requestCells
    | 1 => some ⟨⟨CStr.lit "japi_cmd_list", .japiCmdList⟩, none⟩
    | _ => none
  requests := some 1
  pushServices := some 1
  clients := some 1
  numClients := 3
  closed := []

/-- Its lists. -/
def twoServicesLists : Lists where
  clients := [(1, 5), (2, 6), (3, 5)]
  services := [⟨1, CStr.lit "humidity", false, []⟩,
    ⟨2, CStr.lit "temperature", true, [(4, 5), (5, 5)]⟩]

theorem twoServices_holds : Holds twoServices twoServicesLists := by
  refine ⟨⟨rfl, _, rfl, rfl, _, rfl, rfl, _, rfl, rfl⟩, ⟨rfl, _, rfl, rfl, _, rfl, rfl⟩, ?_, ?_⟩
  · intro s hs
    simp only [twoServicesLists, List.mem_cons, List.not_mem_nil, or_false] at hs
    rcases hs with rfl | rfl
    · rfl
    · exact ⟨rfl, _, rfl, rfl, _, rfl, rfl⟩
  · decide

theorem twoServices_requests : Path twoServices.requestCells twoServices.requests
    [(1, ⟨CStr.lit "japi_cmd_list", .japiCmdList⟩)] := ⟨rfl, _, rfl, rfl⟩

theorem twoServices_below : twoServicesLists.Below 4 := by
  refine ⟨by decide, by decide, ?_⟩
  intro s hs
  simp only [twoServicesLists, List.mem_cons, List.not_mem_nil, or_false] at hs
  rcases hs with rfl | rfl <;> decide

theorem teardown_frees_twoServices :
    (∃ m', twoServices.removeAllClients 4 = some (m', 0) ∧ m'.clients = none ∧ m'.numClients = 0 ∧
      m'.closed = [5, 6, 5]) ∧
    (∃ m', twoServices.pushsrvDestroy 4 (some 2) = some (m', 0)) ∧
    ∃ m', twoServices.destroy 4 = some (m', 0) ∧ m'.pushServices = none := by
  obtain ⟨⟨m₁, hclients, -, hnone, hnum, hclosed⟩, hdestroy, m₃, hall, -, hservices, -⟩ :=
    teardown_frees twoServices_holds twoServices_requests twoServices_below
      (show 1 < 4 by decide)
  obtain ⟨m₂, hsecond, -⟩ := hdestroy [⟨1, CStr.lit "humidity", false, []⟩] _ [] rfl
  exact ⟨⟨m₁, hclients, hnone, hnum, hclosed⟩, ⟨m₂, hsecond⟩, m₃, hall, hservices⟩

end Libjapi
