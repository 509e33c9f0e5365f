/-
# `Libjapi.PushService` — `japi_pushsrv.c`: subscribers of push services

The request handlers of the push services and `japi_pushsrv_sendmsg`, each run
to its end by one thread.  A handler writes its answer into the `jresp` object
it is given and returns what it changed; `joined` records the service that
`japi_pushsrv_add_client` was called for with success, which no function of the
source reads.

What the handlers can do to the subscriber lists is `ListsStep`: an entry that
was not there before is the requesting socket in the service it joined.
-/
import Libjapi.Context
import Libjapi.JsonC

namespace Libjapi

open CStr (lit)

/-! ## The lists -/

/-- `japi_pushsrv_add_client`: the service and the return value. -/
def japiPushsrvAddClient (malloc : Bool) (psc : JapiPushsrvContext) (socket : Int) :
    JapiPushsrvContext × Int :=
  if malloc then ({ psc with clients := socket :: psc.clients }, 0) else (psc, -1)

/-- `pushsrv_isredundant`. -/
def pushsrvIsredundant (ctx : JapiContext) (pushsrvName : CStr) : Bool :=
  ctx.pushServices.any fun psc => strcmp psc.pushsrvName pushsrvName = 0

/-- `japi_pushsrv_register`: the new service, `NULL` on an error, and the context. -/
def japiPushsrvRegister (malloc : Option Addr) (ctx : JapiContext) (pushsrvName : Option CStr) :
    Option Addr × JapiContext :=
  match pushsrvName with
  | none => (none, ctx)
  | some name =>
      if strcmp name (lit "") = 0 then (none, ctx)
      else if pushsrvIsredundant ctx name then (none, ctx)
      else
        match malloc with
        | none => (none, ctx)
        | some addr => (some addr, { ctx with pushServices := ⟨addr, name, []⟩ :: ctx.pushServices })

theorem japiPushsrvRegister_new {ctx : JapiContext} {name : CStr} (hname : name ≠ lit "")
    (hnew : ∀ psc ∈ ctx.pushServices, psc.pushsrvName ≠ name) (addr : Addr) :
    japiPushsrvRegister (some addr) ctx (some name) =
      (some addr, { ctx with pushServices := ⟨addr, name, []⟩ :: ctx.pushServices }) := by
  have hfree : pushsrvIsredundant ctx name = false := by
    simpa [pushsrvIsredundant, strcmp_eq_zero] using hnew
  simp only [japiPushsrvRegister, strcmp_eq_zero, if_neg hname, hfree, Bool.false_eq_true, if_false]

theorem japiPushsrvRegister_cases (malloc : Option Addr) (ctx : JapiContext)
    (pushsrvName : Option CStr) :
    (japiPushsrvRegister malloc ctx pushsrvName).2 = ctx ∨
      ∃ addr name, malloc = some addr ∧ pushsrvName = some name ∧ name ≠ lit "" ∧
        (∀ psc ∈ ctx.pushServices, psc.pushsrvName ≠ name) ∧
        (japiPushsrvRegister malloc ctx pushsrvName).2 =
          { ctx with pushServices := ⟨addr, name, []⟩ :: ctx.pushServices } := by
  cases pushsrvName with
  | none => exact .inl rfl
  | some name =>
      by_cases hname : name = lit ""
      · exact .inl (by simp only [japiPushsrvRegister, strcmp_eq_zero, if_pos hname])
      · cases hfree : pushsrvIsredundant ctx name with
        | true =>
            exact .inl (by simp only [japiPushsrvRegister, hfree, if_true, ite_self])
        | false =>
            have hnew : ∀ psc ∈ ctx.pushServices, psc.pushsrvName ≠ name := by
              simpa [pushsrvIsredundant, strcmp_eq_zero] using hfree
            cases malloc with
            | none => exact .inl (by simp only [japiPushsrvRegister, ite_self])
            | some addr =>
                exact .inr ⟨addr, name, rfl, rfl, hname, hnew,
                  congrArg Prod.snd (japiPushsrvRegister_new hname hnew addr)⟩

/-- The loop of `japi_pushsrv_destroy`: the node that is `psc` is unlinked. -/
def unlinkService (psc : Addr) : List JapiPushsrvContext → List JapiPushsrvContext
  | [] => []
  | pscIter :: next => if pscIter.addr = psc then next else pscIter :: unlinkService psc next

/-- `japi_pushsrv_destroy`: the return value and the context.  The subscribers of
the service go with it. -/
def japiPushsrvDestroy (ctx : JapiContext) : Option Addr → Int × JapiContext
  | none => (-1, ctx)
  | some psc => (0, { ctx with pushServices := unlinkService psc ctx.pushServices })

/-- The loop of `japi_pushsrv_subscribe`: the first service with the name gets
the client.  `none` where no service has it, else its address and the return
value of `japi_pushsrv_add_client`. -/
def subscribeLoop (malloc : Bool) (pushsrvName : CStr) (socket : Int) :
    List JapiPushsrvContext → List JapiPushsrvContext × Option (Addr × Int)
  | [] => ([], none)
  | psc :: next =>
      if strcasecmp pushsrvName psc.pushsrvName = 0 then
        ((japiPushsrvAddClient malloc psc socket).1 :: next,
          some (psc.addr, (japiPushsrvAddClient malloc psc socket).2))
      else
        (psc :: (subscribeLoop malloc pushsrvName socket next).1,
          (subscribeLoop malloc pushsrvName socket next).2)

/-- The service joined: `psc` is not `NULL` and `ret` is not negative. -/
def joinedOf : Option (Addr × Int) → Option Addr
  | some (addr, ret) => if ret < 0 then none else some addr
  | none => none

/-- The loop of `japi_pushsrv_unsubscribe`, with the flags `registered` and
`unsubscribed` it leaves. -/
def unsubscribeLoop (pushsrvName : CStr) (socket : Int) :
    List JapiPushsrvContext → List JapiPushsrvContext × Bool × Bool
  | [] => ([], false, false)
  | psc :: next =>
      if strcasecmp pushsrvName psc.pushsrvName = 0 then
        if (japiPushsrvRemoveClient psc socket).2 ≥ 0 then
          ((japiPushsrvRemoveClient psc socket).1 :: next, true, true)
        else
          ((japiPushsrvRemoveClient psc socket).1 :: (unsubscribeLoop pushsrvName socket next).1,
            true, (unsubscribeLoop pushsrvName socket next).2.2)
      else
        (psc :: (unsubscribeLoop pushsrvName socket next).1,
          (unsubscribeLoop pushsrvName socket next).2)

/-! ## The handlers -/

/-- What a handler leaves behind. -/
structure Served where
  ctx : JapiContext
  heap : JHeap
  joined : Option Addr

/-- The answer of a failed request. -/
def refusal (h : JHeap) (jresp : JPtr) (message : CStr) : Except Abort JHeap := do
  let h ← h.objectAddNew jresp (lit "success") (.boolean false)
  h.objectAddNew jresp (lit "message") (.string message.bytes)

/-- `japi_pushsrv_subscribe`. -/
def japiPushsrvSubscribe (J : JsonC) (malloc : Bool) (ctx : JapiContext) (h : JHeap)
    (jreq jresp : JPtr) : Except Abort Served :=
  match h.getEx jreq (lit "service") with
  | none | some none => do
      let h ← refusal h jresp (lit "Push service not found.")
      return ⟨ctx, h, none⟩
  | some (some service) => do
      let pushsrvName := (h.getString J (some service)).getD (lit "")
      let jval := h.getEx jreq (lit "socket")
      let socket := h.getInt J jval.join
      if jval = none ∨ socket < 0 then
        let h ← refusal h jresp (lit "Subscribing push service to non-existing socket")
        return ⟨ctx, h, none⟩
      else
        let (pushServices, psc) := subscribeLoop malloc pushsrvName socket ctx.pushServices
        let h ← h.objectAddNew jresp (lit "service") (.string pushsrvName.bytes)
        match joinedOf psc with
        | some addr => do
            let h ← h.objectAddNew jresp (lit "success") (.boolean true)
            return ⟨{ ctx with pushServices }, h, some addr⟩
        | none => do
            let h ← refusal h jresp (lit "Push service not found.")
            return ⟨{ ctx with pushServices }, h, none⟩

/-- `japi_pushsrv_unsubscribe`. -/
def japiPushsrvUnsubscribe (J : JsonC) (ctx : JapiContext) (h : JHeap) (jreq jresp : JPtr) :
    Except Abort Served :=
  match h.getEx jreq (lit "service") with
  | none | some none => do
      let h ← refusal h jresp (lit "Push service not found.")
      return ⟨ctx, h, none⟩
  | some (some service) => do
      let pushsrvName := (h.getString J (some service)).getD (lit "")
      let jval := h.getEx jreq (lit "socket")
      let socket := h.getInt J jval.join
      if jval = none ∨ socket < 0 then
        let h ← refusal h jresp (lit "Unsubscribing push service from non-existing socket")
        return ⟨ctx, h, none⟩
      else
        let (pushServices, registered, unsubscribed) :=
          unsubscribeLoop pushsrvName socket ctx.pushServices
        let h ← h.objectAddNew jresp (lit "service") (.string pushsrvName.bytes)
        if registered ∧ unsubscribed then
          let h ← h.objectAddNew jresp (lit "success") (.boolean true)
          return ⟨{ ctx with pushServices }, h, none⟩
        else if registered ∧ ¬ unsubscribed then
          let h ← refusal h jresp (lit "Can't unsubscribe a service that wasn't subscribed before.")
          return ⟨{ ctx with pushServices }, h, none⟩
        else
          let h ← refusal h jresp (lit "Push service not found.")
          return ⟨{ ctx with pushServices }, h, none⟩

/-- The loop `japi_pushsrv_list` and `japi_cmd_list` share: one JSON string for
each name, appended to the array. -/
def addNames (jarray : JPtr) : List CStr → JHeap → JHeap
  | [], h => h
  | name :: names, h =>
      addNames jarray names
        ((h.alloc (.string name.bytes)).2.arrayAdd jarray (h.alloc (.string name.bytes)).1)

/-- `japi_pushsrv_list`. -/
def japiPushsrvList (ctx : JapiContext) (h : JHeap) (response : JPtr) : Except Abort Served := do
  let jarray := (h.alloc (.array [])).1
  let h := addNames jarray (ctx.pushServices.map JapiPushsrvContext.pushsrvName)
    (h.alloc (.array [])).2
  let h ← h.objectAdd response (lit "services") jarray
  return ⟨ctx, h, none⟩

/-! ## Sending -/

/-- The loop of `japi_pushsrv_sendmsg`: the `k`-th node is written to, with the
return value `writeN k`.  The nodes still to be visited are those of the list as
it was: a failed write unlinks the first node with the socket, which is not
behind the current one.  The result is the list, the number of successes and the
sockets written to. -/
def sendLoop (writeN : Nat → Int) : Nat → List Int → List Int → List Int × Int × List Int
  | _, [], clients => (clients, 0, [])
  | k, client :: following, clients =>
      if writeN k ≤ 0 then
        let r := sendLoop writeN (k + 1) following (clients.erase client)
        (r.1, r.2.1, client :: r.2.2)
      else
        let r := sendLoop writeN (k + 1) following clients
        (r.1, r.2.1 + 1, client :: r.2.2)

/-- `japi_pushsrv_sendmsg` with a message to send: the service, the return value
and the sockets `write_n` was called for. -/
def japiPushsrvSendmsg (writeN : Nat → Int) (psc : JapiPushsrvContext) :
    JapiPushsrvContext × Int × List Int :=
  let r := sendLoop writeN 0 psc.clients psc.clients
  ({ psc with clients := r.1 }, r.2)

/-! ## What happens to the lists -/

/-- What serving a request of `socket` may do to the services: an entry is one
that was there before, or the socket in the service it joined. -/
def ListsStep (socket : Int) (joined : Option Addr) (old new : List JapiPushsrvContext) : Prop :=
  ∀ psc ∈ new, ∀ s ∈ psc.clients,
    (∃ p ∈ old, p.addr = psc.addr ∧ s ∈ p.clients) ∨ (s = socket ∧ joined = some psc.addr)

theorem ListsStep.refl (socket : Int) (joined : Option Addr) (l : List JapiPushsrvContext) :
    ListsStep socket joined l l := fun psc hp _ hs => .inl ⟨psc, hp, rfl, hs⟩

theorem ListsStep.cons {socket : Int} {joined : Option Addr} {old new : List JapiPushsrvContext}
    (h : ListsStep socket joined old new) {p p' : JapiPushsrvContext} (haddr : p.addr = p'.addr)
    (hp : ∀ s ∈ p'.clients, s ∈ p.clients ∨ (s = socket ∧ joined = some p'.addr)) :
    ListsStep socket joined (p :: old) (p' :: new) := by
  intro psc hmem s hs
  rcases List.mem_cons.mp hmem with rfl | hmem
  · rcases hp s hs with hs | hs
    · exact .inl ⟨p, List.mem_cons_self, haddr, hs⟩
    · exact .inr hs
  · rcases h psc hmem s hs with ⟨q, hq, hrest⟩ | hnew
    · exact .inl ⟨q, List.mem_cons_of_mem _ hq, hrest⟩
    · exact .inr hnew

theorem subscribeLoop_listsStep (malloc : Bool) (name : CStr) (socket : Int) :
    ∀ l, ListsStep socket (joinedOf (subscribeLoop malloc name socket l).2) l
      (subscribeLoop malloc name socket l).1
  | [] => ListsStep.refl _ _ _
  | psc :: next => by
      simp only [subscribeLoop]
      split
      · cases malloc with
        | false => exact ListsStep.refl _ _ _
        | true =>
            refine (ListsStep.refl _ _ next).cons rfl ?_
            intro s hs
            rcases List.mem_cons.mp hs with rfl | hs
            · exact .inr ⟨rfl, rfl⟩
            · exact .inl hs
      · exact (subscribeLoop_listsStep malloc name socket next).cons rfl fun s hs => .inl hs

theorem subscribeLoop_failed {malloc : Bool} {name : CStr} {socket : Int} :
    ∀ {l}, joinedOf (subscribeLoop malloc name socket l).2 = none →
      (subscribeLoop malloc name socket l).1 = l
  | [], _ => rfl
  | psc :: next, h => by
      simp only [subscribeLoop] at h ⊢
      split
      · rename_i hname
        rw [if_pos hname] at h
        cases malloc with
        | false => rfl
        | true => cases h
      · rename_i hname
        rw [if_neg hname] at h
        rw [subscribeLoop_failed h]

theorem removed_subset (psc : JapiPushsrvContext) (socket : Int) :
    ∀ s ∈ (japiPushsrvRemoveClient psc socket).1.clients, s ∈ psc.clients := by
  rw [japiPushsrvRemoveClient_eq]
  exact fun s hs => List.mem_of_mem_erase hs

theorem removed_addr (psc : JapiPushsrvContext) (socket : Int) :
    (japiPushsrvRemoveClient psc socket).1.addr = psc.addr := by
  rw [japiPushsrvRemoveClient_eq]

theorem unsubscribeLoop_listsStep (name : CStr) (socket : Int) :
    ∀ l, ListsStep socket none l (unsubscribeLoop name socket l).1
  | [] => ListsStep.refl _ _ _
  | psc :: next => by
      simp only [unsubscribeLoop]
      have hrest := unsubscribeLoop_listsStep name socket next
      have hpsc : ∀ s ∈ (japiPushsrvRemoveClient psc socket).1.clients,
          s ∈ psc.clients ∨ (s = socket ∧
            (none : Option Addr) = some (japiPushsrvRemoveClient psc socket).1.addr) :=
        fun s hs => .inl (removed_subset psc socket s hs)
      split
      · split
        · exact (ListsStep.refl _ _ next).cons (removed_addr psc socket).symm hpsc
        · exact hrest.cons (removed_addr psc socket).symm hpsc
      · exact hrest.cons rfl fun s hs => .inl hs

theorem unsubscribeLoop_failed {name : CStr} {socket : Int} :
    ∀ {l}, (unsubscribeLoop name socket l).2.2 = false → (unsubscribeLoop name socket l).1 = l
  | [], _ => rfl
  | psc :: next, h => by
      simp only [unsubscribeLoop] at h ⊢
      split
      · rename_i hname
        rw [if_pos hname] at h
        split
        · rename_i hret
          rw [if_pos hret] at h
          cases h
        · rename_i hret
          rw [if_neg hret] at h
          have hnot : socket ∉ psc.clients := by
            intro hmem
            rw [japiPushsrvRemoveClient_eq, if_pos hmem] at hret
            exact hret (Int.le_refl 0)
          rw [unsubscribeLoop_failed h, japiPushsrvRemoveClient_eq, List.erase_of_not_mem hnot]
      · rename_i hname
        rw [if_neg hname] at h
        rw [unsubscribeLoop_failed h]

theorem unsubscribeLoop_registered {name : CStr} {socket : Int} :
    ∀ {l}, (unsubscribeLoop name socket l).2.2 = true → (unsubscribeLoop name socket l).2.1 = true
  | [], h => by cases h
  | psc :: next, h => by
      simp only [unsubscribeLoop] at h ⊢
      split
      · split <;> rfl
      · rename_i hname
        rw [if_neg hname] at h
        exact unsubscribeLoop_registered h

theorem sendLoop_subset (writeN : Nat → Int) :
    ∀ (k : Nat) (visit clients : List Int),
      (∀ s ∈ (sendLoop writeN k visit clients).1, s ∈ clients) ∧
        ∀ s ∈ (sendLoop writeN k visit clients).2.2, s ∈ visit
  | _, [], _ => ⟨fun _ hs => hs, fun _ hs => hs⟩
  | k, client :: following, clients => by
      simp only [sendLoop]
      split
      · obtain ⟨h₁, h₂⟩ := sendLoop_subset writeN (k + 1) following (clients.erase client)
        refine ⟨fun s hs => List.mem_of_mem_erase (h₁ s hs), ?_⟩
        intro s hs
        rcases List.mem_cons.mp hs with rfl | hs
        · exact List.mem_cons_self
        · exact List.mem_cons_of_mem _ (h₂ s hs)
      · obtain ⟨h₁, h₂⟩ := sendLoop_subset writeN (k + 1) following clients
        refine ⟨h₁, ?_⟩
        intro s hs
        rcases List.mem_cons.mp hs with rfl | hs
        · exact List.mem_cons_self
        · exact List.mem_cons_of_mem _ (h₂ s hs)

end Libjapi
