/-
# `Libjapi.ServiceList` — the list of services in memory, over whole histories

`japi_pushsrv_register` links a node in front of the list, `japi_pushsrv_destroy`
unlinks one wherever it is and tears down its subscribers, and the walks of
`pushsrv_isredundant`, `japi_pushsrv_subscribe`, `japi_pushsrv_unsubscribe` and
`japi_pushsrv_list` go through it.  On the nodes they do what the functions of
`Libjapi.PushService` do on lists:

    the two walks that change subscribers   `subscribeWalk_spec`, `unsubscribeWalk_spec`
    the list is the sequence of the services that were registered and not
    destroyed, last one first, and `japi_pushsrv_list` gives its names
                                                                `run_services`

A `malloc` that succeeds gives an address that is not in use.
-/
import Libjapi.Requests
import Libjapi.Teardown

namespace Libjapi

open CStr (lit)
open HeapList

namespace ContextMem

/-! ## The code -/

/-- The loop of `pushsrv_isredundant`. -/
def isredundantLoop (pushsrvName : CStr) : Nat → ContextMem → Option Addr → Option Bool
  | 0, _, _ => none
  | _ + 1, _, none => some false
  | turns + 1, m, some psc =>
      (m.serviceCells psc).bind fun c =>
        if strcmp c.val.pushsrvName pushsrvName = 0 then some true
        else isredundantLoop pushsrvName turns m c.next

/-- What `malloc`, `strdup` and `pthread_mutex_init` do for a new service. -/
structure NewService where
  malloc : Option Addr
  strdup : Bool
  mutexInit : Bool

/-- `japi_pushsrv_register` behind its checks. -/
def linkService (m : ContextMem) (new : NewService) (pushsrvName : CStr) :
    ContextMem × Option Addr :=
  match new.malloc with
  | none => (m, none)
  | some psc =>
      if new.strdup = false then
        ({ m with serviceCells := Function.update m.serviceCells psc none }, none)
      else if new.mutexInit = false then
        -- the node stays allocated; its `next` is not set, and nothing reads it
        ({ m with
          serviceCells := Function.update m.serviceCells psc
            (some ⟨⟨pushsrvName, none, false⟩, none⟩) }, none)
      else
        ({ m with
          serviceCells := Function.update m.serviceCells psc
            (some ⟨⟨pushsrvName, none, false⟩, m.pushServices⟩)
          pushServices := some psc }, some psc)

/-- `japi_pushsrv_register`: the new service, `NULL` on an error. -/
def pushsrvRegister (bound : Nat) (m : ContextMem) (new : NewService) :
    Option CStr → Option (ContextMem × Option Addr)
  | none => some (m, none)
  | some name =>
      if strcmp name (lit "") = 0 then some (m, none)
      else
        (isredundantLoop name bound m m.pushServices).map fun duplicate =>
          if duplicate then (m, none) else m.linkService new name

/-- `japi_pushsrv_add_client`. -/
def pushsrvAddClient (m : ContextMem) (malloc : Option Addr) (psc : Addr) (socket : Int) :
    Option (ContextMem × Int) :=
  match malloc with
  | none => some (m, -1)
  | some client =>
      (m.serviceCells psc).map fun c =>
        ({ m with
          nodes := Function.update m.nodes client (some ⟨socket, c.val.clients⟩)
          serviceCells := Function.update m.serviceCells psc
            (some { c with val := { c.val with clients := some client } }) }, 0)

/-- The loop of `japi_pushsrv_subscribe`, with `psc` and `ret` as it leaves them. -/
def subscribeWalk (malloc : Option Addr) (pushsrvName : CStr) (socket : Int) :
    Nat → ContextMem → Option Addr → Option (ContextMem × Option (Addr × Int))
  | 0, _, _ => none
  | _ + 1, m, none => some (m, none)
  | turns + 1, m, some psc =>
      (m.serviceCells psc).bind fun c =>
        if strcasecmp pushsrvName c.val.pushsrvName = 0 then
          (m.pushsrvAddClient malloc psc socket).map fun r => (r.1, some (psc, r.2))
        else subscribeWalk malloc pushsrvName socket turns m c.next

/-- The loop of `japi_pushsrv_unsubscribe`, with `registered` and `unsubscribed`. -/
def unsubscribeWalk (bound : Nat) (pushsrvName : CStr) (socket : Int) :
    Nat → ContextMem → Option Addr → Bool → Option (ContextMem × Bool × Bool)
  | 0, _, _, _ => none
  | _ + 1, m, none, registered => some (m, registered, false)
  | turns + 1, m, some psc, registered =>
      (m.serviceCells psc).bind fun c =>
        if strcasecmp pushsrvName c.val.pushsrvName = 0 then
          (m.pushsrvRemoveClient bound psc socket).bind fun r =>
            if r.2 ≥ 0 then some (r.1, true, true)
            else
              (r.1.serviceCells psc).bind fun c =>
                unsubscribeWalk bound pushsrvName socket turns r.1 c.next true
        else unsubscribeWalk bound pushsrvName socket turns m c.next registered

/-- The loop of `japi_pushsrv_list`. -/
def listLoop (jarray : JPtr) : Nat → ContextMem → JHeap → Option Addr → Option JHeap
  | 0, _, _, _ => none
  | _ + 1, _, h, none => some h
  | turns + 1, m, h, some psc =>
      (m.serviceCells psc).bind fun c =>
        listLoop jarray turns m ((h.alloc (.string c.val.pushsrvName.bytes)).2.arrayAdd jarray
          (h.alloc (.string c.val.pushsrvName.bytes)).1) c.next

/-- `japi_pushsrv_list`. -/
def pushsrvList (bound : Nat) (m : ContextMem) (h : JHeap) (response : JPtr) :
    Option (Except Abort JHeap) :=
  (listLoop (h.alloc (.array [])).1 bound m (h.alloc (.array [])).2 m.pushServices).map fun h' =>
    h'.objectAdd response (lit "services") (h.alloc (.array [])).1

/-- `japi_add_client`. -/
def addClient (m : ContextMem) (malloc : Option Addr) (socket : Int) : ContextMem × Int :=
  match malloc with
  | none => (m, -1)
  | some client =>
      ({ m with
        nodes := Function.update m.nodes client (some ⟨socket, m.clients⟩)
        clients := some client
        numClients := m.numClients + 1 }, 0)

end ContextMem

/-! ## The walks -/

/-- The service as `Libjapi.PushService` has it. -/
def ServiceNode.context (s : ServiceNode) : JapiPushsrvContext :=
  ⟨s.addr, s.pushsrvName, s.subscribers.map Prod.snd⟩

/-- Its address and its name. -/
def ServiceNode.key (s : ServiceNode) : Addr × CStr := (s.addr, s.pushsrvName)

theorem ServiceNode.context_erase (s : ServiceNode) (socket : Int) :
    (s.erase socket).context = (japiPushsrvRemoveClient s.context socket).1 := by
  rw [japiPushsrvRemoveClient_eq]
  exact congrArg (JapiPushsrvContext.mk s.addr s.pushsrvName ·) (map_eraseSocket _ _)

theorem isredundantLoop_spec {m : ContextMem} (pushsrvName : CStr) (services : List ServiceNode) :
    ∀ {turns : Nat} {p : Option Addr}, Path m.serviceCells p (services.map ServiceNode.entry) →
      services.length < turns →
      ContextMem.isredundantLoop pushsrvName turns m p =
        some (services.any fun s => strcmp s.pushsrvName pushsrvName = 0) := by
  induction services with
  | nil =>
      intro turns p hpath hturns
      obtain ⟨turns, rfl⟩ := Nat.exists_eq_add_one_of_ne_zero (Nat.ne_zero_of_lt hturns)
      have hnone : p = none := hpath
      rw [hnone]
      rfl
  | cons s services ih =>
      intro turns p hpath hturns
      obtain ⟨turns, rfl⟩ := Nat.exists_eq_add_one_of_ne_zero (Nat.ne_zero_of_lt hturns)
      obtain ⟨rfl, next, hcell, hrest⟩ := hpath
      have hloop := ih hrest (Nat.lt_of_succ_lt_succ hturns)
      simp only [ContextMem.isredundantLoop, hcell, Option.bind_some, hloop, List.any_cons]
      split <;> simp [*]

theorem listLoop_spec {m : ContextMem} (jarray : JPtr) (services : List ServiceNode) :
    ∀ {turns : Nat} {p : Option Addr} {h : JHeap},
      Path m.serviceCells p (services.map ServiceNode.entry) → services.length < turns →
      ContextMem.listLoop jarray turns m h p =
        some (addNames jarray (services.map ServiceNode.pushsrvName) h) := by
  induction services with
  | nil =>
      intro turns p h hpath hturns
      obtain ⟨turns, rfl⟩ := Nat.exists_eq_add_one_of_ne_zero (Nat.ne_zero_of_lt hturns)
      have hnone : p = none := hpath
      rw [hnone]
      rfl
  | cons s services ih =>
      intro turns p h hpath hturns
      obtain ⟨turns, rfl⟩ := Nat.exists_eq_add_one_of_ne_zero (Nat.ne_zero_of_lt hturns)
      obtain ⟨rfl, next, hcell, hrest⟩ := hpath
      simp only [ContextMem.listLoop, hcell, Option.bind_some,
        ih hrest (Nat.lt_of_succ_lt_succ hturns)]
      rfl

/-! ## Allocating -/

section Allocating

variable {m : ContextMem} {l : Lists} {a : Addr}

theorem Holds.fresh_node (h : Holds m l) (ha : m.nodes a = none) : a ∉ l.nodeAddrs := by
  have hnot : ∀ {p : Option Addr} {k : List (Addr × Int)}, Path m.nodes p k → a ∉ addrs k := by
    intro p k hpath hmem
    obtain ⟨v, n, hcell⟩ := hpath.cell_of_mem hmem
    exact absurd (ha.symm.trans hcell) (by simp)
  intro hmem
  rcases List.mem_append.mp hmem with hmem | hmem
  · exact hnot h.clients hmem
  · obtain ⟨s, hs, hmem⟩ := List.mem_flatMap.mp hmem
    exact hnot (h.subscribers s hs) hmem

theorem Holds.fresh_service (h : Holds m l) (ha : m.serviceCells a = none) :
    a ∉ l.services.map ServiceNode.addr := by
  intro hmem
  rw [← addrs_entry] at hmem
  obtain ⟨v, n, hcell⟩ := h.services.cell_of_mem hmem
  exact absurd (ha.symm.trans hcell) (by simp)

theorem Holds.connect (h : Holds m l) (ha : m.nodes a = none) (socket : Int) (numClients : UInt16) :
    Holds { m with
        nodes := Function.update m.nodes a (some ⟨socket, m.clients⟩)
        clients := some a
        numClients }
      { l with clients := (a, socket) :: l.clients } := by
  have hfresh := h.fresh_node ha
  have hnot : a ∉ addrs l.clients := fun hmem => hfresh (List.mem_append_left _ hmem)
  refine ⟨(h.clients.update hnot _).push (Function.update_self _ _ _), h.services, ?_, ?_⟩
  · intro s hs
    refine (h.subscribers s hs).update ?_ _
    exact fun hmem => hfresh (List.mem_append_right _ (Lists.mem_subscriberAddrs hs hmem))
  · exact List.nodup_cons.mpr ⟨hfresh, h.apart⟩

theorem Holds.link (h : Holds m l) (ha : m.serviceCells a = none) (pushsrvName : CStr) :
    Holds { m with
        serviceCells := Function.update m.serviceCells a
          (some ⟨⟨pushsrvName, none, false⟩, m.pushServices⟩)
        pushServices := some a }
      { l with services := ⟨a, pushsrvName, false, []⟩ :: l.services } := by
  have hnot : a ∉ addrs (l.services.map ServiceNode.entry) := by
    rw [addrs_entry]
    exact h.fresh_service ha
  refine ⟨h.clients, (h.services.update hnot _).push (Function.update_self _ _ _), ?_, h.apart⟩
  intro s hs
  rcases List.mem_cons.mp hs with rfl | hs
  · rfl
  · exact h.subscribers s hs

theorem Holds.leak (h : Holds m l) (ha : m.serviceCells a = none) (c : Option (Cell ServiceVal)) :
    Holds { m with serviceCells := Function.update m.serviceCells a c } l := by
  refine ⟨h.clients, h.services.update ?_ c, h.subscribers, h.apart⟩
  rw [addrs_entry]
  exact h.fresh_service ha

theorem Holds.subscribe (h : Holds m l) (ha : m.nodes a = none) {pre post : List ServiceNode}
    {s : ServiceNode} (hl : l.services = pre ++ s :: post) (socket : Int) :
    Holds { m with
        nodes := Function.update m.nodes a (some ⟨socket, headAddr s.subscribers⟩)
        serviceCells := Function.update m.serviceCells s.addr
          (some ⟨⟨s.pushsrvName, some a, s.enabled⟩, headAddr (post.map ServiceNode.entry)⟩) }
      { l with
        services := pre ++ { s with subscribers := (a, socket) :: s.subscribers } :: post } := by
  have hfresh := h.fresh_node ha
  have hnot : ∀ t ∈ l.services, a ∉ addrs t.subscribers :=
    fun t ht hmem => hfresh (List.mem_append_right _ (Lists.mem_subscriberAddrs ht hmem))
  have hs : s ∈ l.services := by simp [hl]
  refine ⟨?_, ?_, ?_, ?_⟩
  · exact h.clients.update (fun hmem => hfresh (List.mem_append_left _ hmem)) _
  · have hservices := h.services
    rw [hl, List.map_append, List.map_cons] at hservices
    rw [List.map_append, List.map_cons]
    exact hservices.setVal _
  · intro t ht
    rcases List.mem_append.mp ht with ht | ht
    · have hmem : t ∈ l.services := by simp [hl, ht]
      exact (h.subscribers t hmem).update (hnot t hmem) _
    · rcases List.mem_cons.mp ht with rfl | ht
      · exact ((h.subscribers s hs).update (hnot s hs) _).push (Function.update_self _ _ _)
      · have hmem : t ∈ l.services := by simp [hl, ht]
        exact (h.subscribers t hmem).update (hnot t hmem) _
  · -- the new node stands between nodes that were there
    have hnodes : l.nodeAddrs = (addrs l.clients ++ Lists.subscriberAddrs pre) ++
        (addrs s.subscribers ++ Lists.subscriberAddrs post) := by
      rw [Lists.nodeAddrs, hl, Lists.subscriberAddrs_append, Lists.subscriberAddrs_cons]
      simp only [List.append_assoc]
    have hnew : Lists.nodeAddrs { l with
          services := pre ++ { s with subscribers := (a, socket) :: s.subscribers } :: post } =
        (addrs l.clients ++ Lists.subscriberAddrs pre) ++
          a :: (addrs s.subscribers ++ Lists.subscriberAddrs post) := by
      rw [Lists.nodeAddrs, Lists.subscriberAddrs_append, Lists.subscriberAddrs_cons]
      simp only [List.append_assoc]
      rfl
    have hapart := h.apart
    rw [hnodes] at hfresh hapart
    rw [hnew]
    exact List.nodup_middle.mpr (List.nodup_cons.mpr ⟨hfresh, hapart⟩)

end Allocating

/-! ## The walks that change subscribers -/

/-- **The walk of `japi_pushsrv_subscribe`**, behind the services in `pre`. -/
theorem subscribeWalk_spec {m : ContextMem} {l : Lists} (h : Holds m l) {malloc : Option Addr}
    (hmalloc : ∀ a ∈ malloc, m.nodes a = none) (pushsrvName : CStr) (socket : Int)
    (post : List ServiceNode) :
    ∀ {turns : Nat} {pre : List ServiceNode}, l.services = pre ++ post → post.length < turns →
      ∃ m' post', ContextMem.subscribeWalk malloc pushsrvName socket turns m
          (headAddr (post.map ServiceNode.entry)) =
          some (m', (subscribeLoop malloc.isSome pushsrvName socket
            (post.map ServiceNode.context)).2) ∧
        Holds m' { l with services := pre ++ post' } ∧
        post'.map ServiceNode.context =
          (subscribeLoop malloc.isSome pushsrvName socket (post.map ServiceNode.context)).1 := by
  induction post with
  | nil =>
      intro turns pre hl hturns
      obtain ⟨turns, rfl⟩ := Nat.exists_eq_add_one_of_ne_zero (Nat.ne_zero_of_lt hturns)
      refine ⟨m, [], rfl, ?_, rfl⟩
      rw [← hl]
      exact h
  | cons s post ih =>
      intro turns pre hl hturns
      obtain ⟨turns, rfl⟩ := Nat.exists_eq_add_one_of_ne_zero (Nat.ne_zero_of_lt hturns)
      have hcell := h.serviceCell hl
      have hat : headAddr (s.entry :: post.map ServiceNode.entry) = some s.addr := rfl
      have hname : s.entry.2.pushsrvName = s.context.pushsrvName := rfl
      by_cases hsame : strcasecmp pushsrvName s.context.pushsrvName = 0
      · simp only [List.map_cons, ContextMem.subscribeWalk, hat, hcell, Option.bind_some, hname,
          if_pos hsame, subscribeLoop]
        cases malloc with
        | none => exact ⟨m, s :: post, rfl, hl ▸ h, rfl⟩
        | some a =>
            refine ⟨_, { s with subscribers := (a, socket) :: s.subscribers } :: post, ?_,
              h.subscribe (hmalloc a rfl) hl socket, rfl⟩
            simp only [ContextMem.pushsrvAddClient, hcell, Option.map_some]
            rfl
      · have hl' : l.services = (pre ++ [s]) ++ post := by simp [hl]
        obtain ⟨m', post', hwalk, hholds, hlist⟩ := ih hl' (Nat.lt_of_succ_lt_succ hturns)
        refine ⟨m', s :: post', ?_, by simpa using hholds, ?_⟩
        · simp only [ContextMem.subscribeWalk, hat, hcell, Option.bind_some, hname, if_neg hsame,
            List.map_cons, subscribeLoop, hwalk]
        · simp only [List.map_cons, subscribeLoop, if_neg hsame, hlist]

/-- **The walk of `japi_pushsrv_unsubscribe`**, behind the services in `pre`. -/
theorem unsubscribeWalk_spec {bound : Nat} (pushsrvName : CStr) (socket : Int)
    (post : List ServiceNode) :
    ∀ {turns : Nat} {m : ContextMem} {l : Lists} {pre : List ServiceNode} (registered : Bool),
      Holds m l → l.services = pre ++ post → (∀ s ∈ post, s.subscribers.length < bound) →
      post.length < turns →
      ∃ m' post', ContextMem.unsubscribeWalk bound pushsrvName socket turns m
          (headAddr (post.map ServiceNode.entry)) registered =
          some (m',
            registered || (unsubscribeLoop pushsrvName socket (post.map ServiceNode.context)).2.1,
            (unsubscribeLoop pushsrvName socket (post.map ServiceNode.context)).2.2) ∧
        Frees m l m' { l with services := pre ++ post' } ∧
        (∃ nodes serviceCells, m' = { m with nodes, serviceCells }) ∧
        post'.map ServiceNode.context =
          (unsubscribeLoop pushsrvName socket (post.map ServiceNode.context)).1 := by
  induction post with
  | nil =>
      intro turns m l pre registered h hl _ hturns
      obtain ⟨turns, rfl⟩ := Nat.exists_eq_add_one_of_ne_zero (Nat.ne_zero_of_lt hturns)
      refine ⟨m, [], ?_, ?_, ⟨_, _, rfl⟩, rfl⟩
      · simp only [unsubscribeLoop, List.map_nil, Bool.or_false]
        rfl
      · rw [← hl]
        exact .refl h
  | cons s post ih =>
      intro turns m l pre registered h hl hbound hturns
      obtain ⟨turns, rfl⟩ := Nat.exists_eq_add_one_of_ne_zero (Nat.ne_zero_of_lt hturns)
      have hturns' : post.length < turns := Nat.lt_of_succ_lt_succ hturns
      have hbound' : ∀ t ∈ post, t.subscribers.length < bound :=
        fun t ht => hbound t (List.mem_cons_of_mem s ht)
      have hcell := h.serviceCell hl
      have hat : headAddr (s.entry :: post.map ServiceNode.entry) = some s.addr := rfl
      have hname : s.entry.2.pushsrvName = s.context.pushsrvName := rfl
      by_cases hsame : strcasecmp pushsrvName s.context.pushsrvName = 0
      · obtain ⟨m₁, hremove, hfrees, hcell₁, nodes, serviceCells, rfl⟩ :=
          pushsrvRemoveClient_spec h hl socket (hbound s List.mem_cons_self)
        have hret : (japiPushsrvRemoveClient s.context socket).2 =
            if ∃ e ∈ s.subscribers, e.2 = socket then 0 else -1 := by
          rw [japiPushsrvRemoveClient_eq]
          exact if_congr List.mem_map rfl rfl
        rw [← hret] at hremove
        simp only [ContextMem.unsubscribeWalk, hat, hcell, Option.bind_some, hname, if_pos hsame,
          hremove, List.map_cons, unsubscribeLoop]
        by_cases hdone : (japiPushsrvRemoveClient s.context socket).2 ≥ 0
        · simp only [if_pos hdone]
          refine ⟨_, s.erase socket :: post, by simp, hfrees, ⟨_, _, rfl⟩, ?_⟩
          rw [List.map_cons, s.context_erase]
        · simp only [if_neg hdone]
          have hl' : pre ++ s.erase socket :: post = (pre ++ [s.erase socket]) ++ post := by simp
          obtain ⟨m', post', hwalk, hfrees', ⟨nodes', serviceCells', rfl⟩, hlist⟩ :=
            ih true hfrees.holds hl' hbound' hturns'
          refine ⟨_, s.erase socket :: post', ?_, by simpa using hfrees.trans hfrees',
            ⟨nodes', serviceCells', rfl⟩, ?_⟩
          · dsimp only at hcell₁
            simp only [hcell₁, Option.bind_some, hwalk, Bool.true_or, Bool.or_true]
          · rw [List.map_cons, s.context_erase, hlist]
      · have hl' : l.services = (pre ++ [s]) ++ post := by simp [hl]
        obtain ⟨m', post', hwalk, hfrees, hm', hlist⟩ := ih registered h hl' hbound' hturns'
        refine ⟨m', s :: post', ?_, by simpa using hfrees, hm', ?_⟩
        · simp only [ContextMem.unsubscribeWalk, hat, hcell, Option.bind_some, hname, if_neg hsame,
            List.map_cons, unsubscribeLoop, hwalk]
        · simp only [List.map_cons, unsubscribeLoop, if_neg hsame, hlist]

theorem pushsrvRegister_spec {bound : Nat} {m : ContextMem} {l : Lists} (h : Holds m l)
    (hbound : l.services.length < bound) {new : ContextMem.NewService}
    (hfresh : ∀ psc ∈ new.malloc, m.serviceCells psc = none) (pushsrvName : Option CStr) :
    ∃ m' r, m.pushsrvRegister bound new pushsrvName = some (m', r) ∧
      (r = none ∧ Holds m' l ∨
        ∃ psc name, r = some psc ∧ pushsrvName = some name ∧
          psc ∉ l.services.map ServiceNode.addr ∧ (∀ s ∈ l.services, s.pushsrvName ≠ name) ∧
          Holds m' { l with services := ⟨psc, name, false, []⟩ :: l.services }) := by
  cases pushsrvName with
  | none => exact ⟨m, none, rfl, .inl ⟨rfl, h⟩⟩
  | some name =>
      by_cases hempty : strcmp name (lit "") = 0
      · exact ⟨m, none, by simp only [ContextMem.pushsrvRegister, if_pos hempty], .inl ⟨rfl, h⟩⟩
      · have hloop := isredundantLoop_spec name l.services h.services hbound
        simp only [ContextMem.pushsrvRegister, if_neg hempty, hloop, Option.map_some]
        cases hduplicate : l.services.any fun s => strcmp s.pushsrvName name = 0 with
        | true => exact ⟨m, none, rfl, .inl ⟨rfl, h⟩⟩
        | false =>
            simp only [Bool.false_eq_true, if_false, ContextMem.linkService]
            cases hmalloc : new.malloc with
            | none => exact ⟨m, none, rfl, .inl ⟨rfl, h⟩⟩
            | some psc =>
                have ha := hfresh psc (hmalloc ▸ rfl)
                dsimp only
                split
                · exact ⟨_, none, rfl, .inl ⟨rfl, h.leak ha none⟩⟩
                · split
                  · exact ⟨_, none, rfl, .inl ⟨rfl, h.leak ha _⟩⟩
                  · refine ⟨_, some psc, rfl, .inr ⟨psc, name, rfl, rfl, h.fresh_service ha, ?_,
                      h.link ha name⟩⟩
                    intro s hs
                    have hdiff := List.any_eq_false.mp hduplicate s hs
                    simpa [strcmp_eq_zero] using hdiff

/-! ## What the walks keep -/

/-- The service is the same, with one subscriber more at most. -/
structure Kept (p q : JapiPushsrvContext) : Prop where
  addr : q.addr = p.addr
  pushsrvName : q.pushsrvName = p.pushsrvName
  clients : q.clients.length ≤ p.clients.length + 1

theorem Kept.refl (p : JapiPushsrvContext) : Kept p p := ⟨rfl, rfl, Nat.le_succ _⟩

theorem Kept.addClient (malloc : Bool) (p : JapiPushsrvContext) (socket : Int) :
    Kept p (japiPushsrvAddClient malloc p socket).1 := by
  cases malloc with
  | false => exact .refl p
  | true => exact ⟨rfl, rfl, le_rfl⟩

theorem Kept.removeClient (p : JapiPushsrvContext) (socket : Int) :
    Kept p (japiPushsrvRemoveClient p socket).1 := by
  rw [japiPushsrvRemoveClient_eq]
  exact ⟨rfl, rfl, List.length_erase_le.trans (Nat.le_succ _)⟩

theorem Kept.erase (s : ServiceNode) (socket : Int) :
    Kept s.context (s.erase socket).context := by
  rw [s.context_erase]
  exact .removeClient _ _

theorem subscribeLoop_kept (malloc : Bool) (pushsrvName : CStr) (socket : Int) :
    ∀ l, List.Forall₂ Kept l (subscribeLoop malloc pushsrvName socket l).1
  | [] => .nil
  | p :: l => by
      simp only [subscribeLoop]
      split
      · exact .cons (.addClient malloc p socket) (List.forall₂_same.mpr fun q _ => .refl q)
      · exact .cons (.refl p) (subscribeLoop_kept malloc pushsrvName socket l)

theorem unsubscribeLoop_kept (pushsrvName : CStr) (socket : Int) :
    ∀ l, List.Forall₂ Kept l (unsubscribeLoop pushsrvName socket l).1
  | [] => .nil
  | p :: l => by
      simp only [unsubscribeLoop]
      split
      · split
        · exact .cons (.removeClient p socket) (List.forall₂_same.mpr fun q _ => .refl q)
        · exact .cons (.removeClient p socket) (unsubscribeLoop_kept pushsrvName socket l)
      · exact .cons (.refl p) (unsubscribeLoop_kept pushsrvName socket l)

theorem Kept.services {l l' : List ServiceNode}
    (h : List.Forall₂ Kept (l.map ServiceNode.context) (l'.map ServiceNode.context)) :
    l'.map ServiceNode.key = l.map ServiceNode.key ∧
      ∀ n, (∀ s ∈ l, s.subscribers.length ≤ n) → ∀ s ∈ l', s.subscribers.length ≤ n + 1 := by
  rw [List.forall₂_map_left_iff, List.forall₂_map_right_iff] at h
  induction h with
  | nil => exact ⟨rfl, fun _ _ _ hs => absurd hs List.not_mem_nil⟩
  | @cons s s' l l' hkept _ ih =>
      obtain ⟨hkeys, hlens⟩ := ih
      have hlen : s'.subscribers.length ≤ s.subscribers.length + 1 := by
        simpa [ServiceNode.context] using hkept.clients
      refine ⟨?_, ?_⟩
      · rw [List.map_cons, List.map_cons, hkeys]
        exact congrArg (· :: _) (Prod.ext hkept.addr hkept.pushsrvName)
      · intro n hn t ht
        rcases List.mem_cons.mp ht with rfl | ht
        · exact hlen.trans (Nat.succ_le_succ (hn s List.mem_cons_self))
        · exact hlens n (fun u hu => hn u (List.mem_cons_of_mem s hu)) t ht

/-! ## Histories -/

/-- A call of the user, or what a client makes the server do. -/
inductive ListCall where
  | register (new : ContextMem.NewService) (pushsrvName : Option CStr)
  | destroy (psc : Addr)
  | connect (malloc : Option Addr) (socket : Int)
  | disconnect (socket : Int)
  | subscribe (malloc : Option Addr) (pushsrvName : CStr) (socket : Int)
  | unsubscribe (pushsrvName : CStr) (socket : Int)
  /-- A failed `japi_pushsrv_sendmsg`. -/
  | sendFailed (psc : Addr) (socket : Int)

/-- The memory; and the services that were registered and not destroyed, in the
order in which `japi_pushsrv_register` returned them. -/
structure ListHistory where
  mem : ContextMem
  live : List (Addr × CStr)

namespace ListHistory

/-- After `japi_init`. -/
def start (requestCells : Cells JapiRequest) (requests : Option Addr) : ListHistory :=
  ⟨⟨fun _ => none, fun _ => none, requestCells, requests, none, none, 0, []⟩, []⟩

/-- `malloc` gives an address that is not in use, and the services named by
their address are live. -/
def Allowed (st : ListHistory) : ListCall → Prop
  | .register new _ => ∀ psc ∈ new.malloc, (st.mem.serviceCells psc).isNone
  | .connect malloc _ => ∀ a ∈ malloc, (st.mem.nodes a).isNone
  | .subscribe malloc _ _ => ∀ a ∈ malloc, (st.mem.nodes a).isNone
  | .destroy psc => psc ∈ st.live.map Prod.fst
  | .sendFailed psc _ => psc ∈ st.live.map Prod.fst
  | .disconnect _ => True
  | .unsubscribe _ _ => True

instance (st : ListHistory) : DecidablePred st.Allowed
  | .register new _ => inferInstanceAs (Decidable (∀ psc ∈ new.malloc, _))
  | .connect malloc _ => inferInstanceAs (Decidable (∀ a ∈ malloc, _))
  | .subscribe malloc _ _ => inferInstanceAs (Decidable (∀ a ∈ malloc, _))
  | .destroy psc => inferInstanceAs (Decidable (psc ∈ st.live.map Prod.fst))
  | .sendFailed psc _ => inferInstanceAs (Decidable (psc ∈ st.live.map Prod.fst))
  | .disconnect _ => inferInstanceAs (Decidable True)
  | .unsubscribe _ _ => inferInstanceAs (Decidable True)

/-- The live services when `japi_pushsrv_register` returned. -/
def registered (live : List (Addr × CStr)) : Option CStr → Option Addr → List (Addr × CStr)
  | some name, some psc => live ++ [(psc, name)]
  | _, _ => live

/-- What a call does. -/
def perform (bound : Nat) (st : ListHistory) : ListCall → Option ListHistory
  | .register new pushsrvName =>
      (st.mem.pushsrvRegister bound new pushsrvName).map fun r =>
        ⟨r.1, registered st.live pushsrvName r.2⟩
  | .destroy psc =>
      (st.mem.pushsrvDestroy bound (some psc)).map fun r =>
        ⟨r.1, st.live.filter fun e => e.1 ≠ psc⟩
  | .connect malloc socket => some { st with mem := (st.mem.addClient malloc socket).1 }
  | .disconnect socket => (st.mem.removeClient bound socket).map fun r => { st with mem := r.1 }
  | .subscribe malloc pushsrvName socket =>
      (ContextMem.subscribeWalk malloc pushsrvName socket bound st.mem st.mem.pushServices).map
        fun r => { st with mem := r.1 }
  | .unsubscribe pushsrvName socket =>
      (ContextMem.unsubscribeWalk bound pushsrvName socket bound st.mem st.mem.pushServices
        false).map fun r => { st with mem := r.1 }
  | .sendFailed psc socket =>
      (st.mem.pushsrvRemoveClient bound psc socket).map fun r => { st with mem := r.1 }

/-- One call. -/
def step (bound : Nat) (st : ListHistory) (call : ListCall) : Option ListHistory :=
  if st.Allowed call then st.perform bound call else none

/-- The memory holds lists whose services are the live ones, last one first. -/
structure Stands (st : ListHistory) (l : Lists) : Prop where
  holds : Holds st.mem l
  live : l.services.map ServiceNode.key = st.live.reverse
  names : (st.live.map Prod.snd).Nodup

/-- No list is longer than `n`. -/
structure Within (l : Lists) (n : Nat) : Prop where
  clients : l.clients.length ≤ n
  services : l.services.length ≤ n
  subscribers : ∀ s ∈ l.services, s.subscribers.length ≤ n

theorem Within.below {l : Lists} {n bound : Nat} (h : Within l n) (hn : n < bound) :
    l.Below bound :=
  ⟨h.clients.trans_lt hn, h.services.trans_lt hn, fun s hs => (h.subscribers s hs).trans_lt hn⟩

theorem Within.succ {l : Lists} {n : Nat} (h : Within l n) : Within l (n + 1) :=
  ⟨h.clients.trans (Nat.le_succ n), h.services.trans (Nat.le_succ n),
    fun s hs => (h.subscribers s hs).trans (Nat.le_succ n)⟩

variable {st : ListHistory} {l : Lists} {n bound : Nat}

theorem Stands.eq_live (hs : st.Stands l) : st.live = (l.services.map ServiceNode.key).reverse := by
  rw [hs.live, List.reverse_reverse]

theorem Stands.split (hs : st.Stands l) {psc : Addr} (hpsc : psc ∈ st.live.map Prod.fst) :
    ∃ pre s post, l.services = pre ++ s :: post ∧ s.addr = psc := by
  rw [hs.eq_live, List.map_reverse, List.mem_reverse, List.map_map] at hpsc
  obtain ⟨s, hmem, rfl⟩ := List.mem_map.mp hpsc
  obtain ⟨pre, post, hl⟩ := List.append_of_mem hmem
  exact ⟨pre, s, post, hl, rfl⟩

theorem Stands.filter (hs : st.Stands l) {pre post : List ServiceNode} {s : ServiceNode}
    (hl : l.services = pre ++ s :: post) :
    st.live.filter (fun e => e.1 ≠ s.addr) = ((pre ++ post).map ServiceNode.key).reverse := by
  have hnodup := hs.holds.services.nodup
  rw [addrs_entry, hl, List.map_append, List.map_cons] at hnodup
  have hother : s.addr ∉ pre.map ServiceNode.addr ++ post.map ServiceNode.addr :=
    (List.nodup_middle.mp hnodup).notMem
  have hkeep : ∀ k : List ServiceNode, s.addr ∉ k.map ServiceNode.addr →
      (k.map ServiceNode.key).filter (fun e => e.1 ≠ s.addr) = k.map ServiceNode.key := by
    intro k hk
    refine List.filter_eq_self.mpr fun e he => ?_
    obtain ⟨t, ht, rfl⟩ := List.mem_map.mp he
    exact decide_eq_true fun heq => hk (heq ▸ List.mem_map_of_mem ht)
  rw [hs.eq_live, List.filter_reverse, hl, List.map_append, List.map_cons, List.filter_append,
    List.filter_cons_of_neg (by simp [ServiceNode.key]),
    hkeep pre fun h => hother (List.mem_append_left _ h),
    hkeep post fun h => hother (List.mem_append_right _ h), List.map_append]

theorem Stands.keep (hs : st.Stands l) {m' : ContextMem} {services : List ServiceNode}
    {clients : List (Addr × Int)} (h : Holds m' ⟨clients, services⟩)
    (hkeys : services.map ServiceNode.key = l.services.map ServiceNode.key) :
    Stands { st with mem := m' } ⟨clients, services⟩ :=
  ⟨h, hkeys.trans hs.live, hs.names⟩

theorem Stands.register (hs : st.Stands l) (hlen : l.services.length < bound)
    {new : ContextMem.NewService} {pushsrvName : Option CStr}
    (ha : st.Allowed (.register new pushsrvName)) :
    ∃ st' l', st.perform bound (.register new pushsrvName) = some st' ∧ st'.Stands l' ∧
      (l' = l ∨ ∃ psc name, l' = { l with services := ⟨psc, name, false, []⟩ :: l.services }) := by
  have hfresh : ∀ psc ∈ new.malloc, st.mem.serviceCells psc = none :=
    fun psc hpsc => Option.isNone_iff_eq_none.mp (ha psc hpsc)
  obtain ⟨m', r, hcall, ⟨rfl, hholds⟩ | ⟨psc, name, rfl, rfl, -, hnames, hholds⟩⟩ :=
    pushsrvRegister_spec hs.holds hlen hfresh pushsrvName
  · refine ⟨⟨m', st.live⟩, l, ?_, hs.keep hholds rfl, .inl rfl⟩
    simp only [ListHistory.perform, hcall, Option.map_some]
    cases pushsrvName <;> rfl
  · have hnew : name ∉ st.live.map Prod.snd := by
      rw [hs.eq_live, List.map_reverse, List.mem_reverse, List.map_map]
      intro hmem
      obtain ⟨s, hs', heq⟩ := List.mem_map.mp hmem
      exact hnames s hs' heq
    refine ⟨⟨m', st.live ++ [(psc, name)]⟩, _, ?_, ⟨hholds, ?_, ?_⟩, .inr ⟨psc, name, rfl⟩⟩
    · simp only [ListHistory.perform, hcall, Option.map_some]
      rfl
    · rw [List.map_cons, hs.live, List.reverse_append]
      rfl
    · rw [List.map_append]
      exact List.nodup_append_comm.mp (List.nodup_cons.mpr ⟨hnew, hs.names⟩)

theorem Stands.destroy (hs : st.Stands l) (hbound : l.Below bound) {pre post : List ServiceNode}
    {s : ServiceNode} (hl : l.services = pre ++ s :: post) :
    ∃ m', st.mem.pushsrvDestroy bound (some s.addr) = some (m', 0) ∧
      st.perform bound (.destroy s.addr) = some ⟨m', st.live.filter fun e => e.1 ≠ s.addr⟩ ∧
      Stands ⟨m', st.live.filter fun e => e.1 ≠ s.addr⟩ { l with services := pre ++ post } := by
  obtain ⟨m', hcall, hfrees, -⟩ := pushsrvDestroy_spec hs.holds hbound hl
  refine ⟨m', hcall, ?_, hfrees.holds, ?_, hs.names.sublist (List.filter_sublist.map _)⟩
  · simp only [ListHistory.perform, hcall, Option.map_some]
  · rw [hs.filter hl, List.reverse_reverse]

theorem Stands.perform (hs : st.Stands l) (hw : Within l n) (hn : n < bound) {call : ListCall}
    (ha : st.Allowed call) :
    ∃ st' l', st.perform bound call = some st' ∧ st'.Stands l' ∧ Within l' (n + 1) := by
  have hbound := hw.below hn
  have hkept : ∀ {services : List ServiceNode} {clients : List (Addr × Int)} {m' : ContextMem},
      Holds m' ⟨clients, services⟩ → clients.length ≤ n + 1 →
      List.Forall₂ Kept (l.services.map ServiceNode.context) (services.map ServiceNode.context) →
      Stands { st with mem := m' } ⟨clients, services⟩ ∧ Within ⟨clients, services⟩ (n + 1) := by
    intro services clients m' h hclients hall
    obtain ⟨hkeys, hlens⟩ := Kept.services hall
    refine ⟨hs.keep h hkeys, hclients, ?_, hlens n hw.subscribers⟩
    have hlen := congrArg List.length hkeys
    rw [List.length_map, List.length_map] at hlen
    exact (hlen.trans_le hw.services).trans (Nat.le_succ n)
  have hclients := hw.succ.clients
  cases call with
  | register new pushsrvName =>
      obtain ⟨st', l', hcall, hs', rfl | ⟨psc, name, rfl⟩⟩ := hs.register hbound.services ha
      · exact ⟨st', l', hcall, hs', hw.succ⟩
      · refine ⟨st', _, hcall, hs', hclients, Nat.succ_le_succ hw.services, ?_⟩
        exact List.forall_mem_cons.mpr ⟨Nat.zero_le _, hw.succ.subscribers⟩
  | destroy psc =>
      obtain ⟨pre, s, post, hl, rfl⟩ := hs.split ha
      obtain ⟨m', -, hcall, hs'⟩ := hs.destroy hbound hl
      have hsub : (pre ++ post).Sublist l.services := by
        rw [hl]
        exact (List.sublist_cons_self s post).append_left pre
      exact ⟨_, _, hcall, hs', hclients, hsub.length_le.trans hw.succ.services,
        fun t ht => hw.succ.subscribers t (hsub.subset ht)⟩
  | connect malloc socket =>
      have hself : List.Forall₂ Kept (l.services.map ServiceNode.context)
          (l.services.map ServiceNode.context) := List.forall₂_same.mpr fun q _ => .refl q
      cases malloc with
      | none => exact ⟨st, l, rfl, hs, hw.succ⟩
      | some a =>
          have hfresh := Option.isNone_iff_eq_none.mp (ha a rfl)
          exact ⟨_, _, rfl, hkept (hs.holds.connect hfresh socket _) (Nat.succ_le_succ hw.clients) hself⟩
  | disconnect socket =>
      obtain ⟨m', hfrees, hcall⟩ := removeClient_spec hs.holds socket hbound
      have hret : ∃ r, st.mem.removeClient bound socket = some (m', r) := by
        split at hcall
        · exact ⟨0, hcall.1⟩
        · exact ⟨-1, hcall.1⟩
      obtain ⟨r, hret⟩ := hret
      refine ⟨{ st with mem := m' }, _, ?_, hkept hfrees.holds
        (List.eraseP_sublist.length_le.trans hclients) ?_⟩
      · simp only [ListHistory.perform, hret, Option.map_some]
      · rw [List.map_map, List.forall₂_map_left_iff, List.forall₂_map_right_iff]
        exact List.forall₂_same.mpr fun s _ => .erase s socket
  | subscribe malloc pushsrvName socket =>
      have hfresh : ∀ a ∈ malloc, st.mem.nodes a = none :=
        fun a hmem => Option.isNone_iff_eq_none.mp (ha a hmem)
      obtain ⟨m', services, hwalk, hholds, hlist⟩ := subscribeWalk_spec hs.holds hfresh pushsrvName
        socket l.services (List.nil_append _).symm hbound.services
      rw [← hs.holds.services.eq_headAddr] at hwalk
      refine ⟨{ st with mem := m' }, _, ?_, hkept hholds hclients ?_⟩
      · simp only [ListHistory.perform, hwalk, Option.map_some]
      · rw [List.nil_append, hlist]
        exact subscribeLoop_kept _ _ _ _
  | unsubscribe pushsrvName socket =>
      obtain ⟨m', services, hwalk, hfrees, -, hlist⟩ := unsubscribeWalk_spec pushsrvName socket
        l.services false hs.holds (List.nil_append _).symm hbound.subscribers
        hbound.services
      rw [← hs.holds.services.eq_headAddr] at hwalk
      refine ⟨{ st with mem := m' }, _, ?_, hkept hfrees.holds hclients ?_⟩
      · simp only [ListHistory.perform, hwalk, Option.map_some]
      · rw [List.nil_append, hlist]
        exact unsubscribeLoop_kept _ _ _
  | sendFailed psc socket =>
      obtain ⟨pre, s, post, hl, rfl⟩ := hs.split ha
      obtain ⟨m', hcall, hfrees, -⟩ := pushsrvRemoveClient_spec hs.holds hl socket
        (hbound.subscribers s (by simp [hl]))
      refine ⟨{ st with mem := m' }, _, ?_, hkept hfrees.holds hclients ?_⟩
      · simp only [ListHistory.perform, hcall, Option.map_some]
      · rw [hl, List.map_append, List.map_append, List.map_cons, List.map_cons]
        exact List.rel_append (List.forall₂_same.mpr fun q _ => .refl q)
          (.cons (.erase s socket) (List.forall₂_same.mpr fun q _ => .refl q))

theorem Stands.run {es : List ListCall} :
    ∀ {st st' : ListHistory} {l : Lists} {n : Nat}, st.Stands l → Within l n →
      n + es.length < bound → run (step bound) st es = some st' →
      ∃ l', st'.Stands l' ∧ Within l' (n + es.length) := by
  induction es with
  | nil =>
      intro st st' l n hs hw _ hrun
      cases hrun
      exact ⟨l, hs, hw⟩
  | cons call es ih =>
      intro st st' l n hs hw hn hrun
      rw [List.length_cons] at hn
      obtain ⟨st₁, hstep, hrest⟩ := run_cons.mp hrun
      obtain ⟨ha, hperform⟩ := Option.ite_none_right_eq_some.mp hstep
      obtain ⟨st₂, l₁, hcall, hs₁, hw₁⟩ := hs.perform hw (show n < bound by omega) ha
      rw [hperform] at hcall
      cases hcall
      obtain ⟨l', hs', hw'⟩ := ih hs₁ hw₁ (by omega) hrest
      refine ⟨l', hs', ?_⟩
      rw [List.length_cons, Nat.add_comm es.length 1, ← Nat.add_assoc]
      exact hw'

theorem start_stands (requestCells : Cells JapiRequest) (requests : Option Addr) :
    (start requestCells requests).Stands ⟨[], []⟩ :=
  ⟨⟨rfl, rfl, fun _ hs => absurd hs List.not_mem_nil, List.nodup_nil⟩, rfl, List.nodup_nil⟩

theorem pushsrvList_spec {m : ContextMem} (h : Holds m l) (hlen : l.services.length < bound)
    {heap : JHeap} {response : JPtr} (hresp : heap.typeOf response = .object) :
    ∃ heap' q, m.pushsrvList bound heap response = some (.ok heap') ∧
      heap'.getEx response (lit "services") = some q ∧
      heap'.Denotes q
        (.array (l.services.map fun s => .string s.pushsrvName.bytes)) := by
  obtain ⟨heap', q, hadd, hq, hd⟩ := addNames_member hresp (lit "services")
    (l.services.map ServiceNode.pushsrvName)
  refine ⟨heap', q, ?_, hq, by simpa [List.map_map, Function.comp_def] using hd⟩
  rw [ContextMem.pushsrvList, listLoop_spec _ l.services h.services hlen, Option.map_some, hadd]

/-- **After every history the list in memory is the sequence of the live
services**, last one first: `japi_pushsrv_list` returns their names, which are
distinct, and destroying one of them leaves the nodes of the others, with their
names and subscribers, where they are.  No call gets stuck. -/
theorem run_services {bound : Nat} {requestCells : Cells JapiRequest} {requests : Option Addr}
    {es : List ListCall} {st : ListHistory} (hbound : es.length < bound)
    (hrun : run (step bound) (start requestCells requests) es = some st) :
    (st.live.map Prod.snd).Nodup ∧
    (∀ (h : JHeap) (response : JPtr), h.typeOf response = .object →
      ∃ h' q, st.mem.pushsrvList bound h response = some (.ok h') ∧
        h'.getEx response (lit "services") = some q ∧
        h'.Denotes q (.array ((st.live.map Prod.snd).reverse.map fun name => .string name.bytes))) ∧
    (∃ l, Holds st.mem l ∧ l.services.map ServiceNode.key = st.live.reverse ∧
      ∀ pre s post, l.services = pre ++ s :: post →
        ∃ m', st.mem.pushsrvDestroy bound (some s.addr) = some (m', 0) ∧
          Holds m' { l with services := pre ++ post } ∧
          step bound st (.destroy s.addr) =
            some ⟨m', st.live.filter fun e => e.1 ≠ s.addr⟩) ∧
    ∀ call, st.Allowed call → (step bound st call).isSome := by
  obtain ⟨l, hs, hw⟩ := (start_stands requestCells requests).run (n := 0)
    ⟨le_rfl, le_rfl, fun _ hs => absurd hs List.not_mem_nil⟩ (by omega) hrun
  rw [Nat.zero_add] at hw
  refine ⟨hs.names, ?_, ⟨l, hs.holds, hs.live, ?_⟩, ?_⟩
  · intro h response hresp
    obtain ⟨h', q, hlist, hq, hd⟩ := pushsrvList_spec hs.holds
      (hw.services.trans_lt hbound) hresp
    refine ⟨h', q, hlist, hq, ?_⟩
    rw [← List.map_reverse, ← hs.live, List.map_map, List.map_map]
    exact hd
  · intro pre s post hl
    obtain ⟨m', hcall, hperform, hs'⟩ := hs.destroy (hw.below hbound) hl
    have hallowed : st.Allowed (.destroy s.addr) := by
      show s.addr ∈ st.live.map Prod.fst
      rw [hs.eq_live, List.map_reverse, List.mem_reverse, List.map_map, hl]
      exact List.mem_map_of_mem (by simp)
    exact ⟨m', hcall, hs'.holds, by rw [ListHistory.step, if_pos hallowed, hperform]⟩
  · intro call ha
    obtain ⟨st', l', hperform, -⟩ := hs.perform hw hbound ha
    rw [ListHistory.step, if_pos ha, hperform]
    rfl

/-- Three services with a subscriber; a name that is taken, and one for which there is no
memory; then the one in the middle and the first one go. -/
def middleDestroyed : List ListCall :=
  [.register ⟨some 1, true, true⟩ (some (lit "test01")),
    .register ⟨some 2, true, true⟩ (some (lit "test02")),
    .register ⟨some 3, true, true⟩ (some (lit "test01")),
    .register ⟨some 3, true, false⟩ (some (lit "test03")),
    .register ⟨some 4, true, true⟩ (some (lit "test04")),
    .subscribe (some 7) (lit "TEST02") 5, .subscribe (some 8) (lit "test04") 5,
    .destroy 2, .destroy 4]

theorem run_services_middle :
    ∃ st, run (step 10) (start (fun _ => none) none) middleDestroyed = some st ∧
      ∃ h' q, st.mem.pushsrvList 10 ⟨[⟨.object [], 1⟩]⟩ (some 0) = some (.ok h') ∧
        h'.getEx (some 0) (lit "services") = some q ∧
        h'.Denotes q (.array [.string (lit "test01").bytes]) := by
  obtain ⟨st, hrun, hlive⟩ : ∃ st, run (step 10) (start (fun _ => none) none) middleDestroyed =
      some st ∧ st.live = [(1, lit "test01")] := ⟨_, rfl, by decide +kernel⟩
  obtain ⟨-, hlist, -⟩ := run_services (show middleDestroyed.length < 10 by decide) hrun
  obtain ⟨h', q, hcall, hq, hd⟩ := hlist ⟨[⟨.object [], 1⟩]⟩ (some 0) rfl
  rw [hlive] at hd
  exact ⟨st, hrun, h', q, hcall, hq, hd⟩

end ListHistory

end Libjapi
