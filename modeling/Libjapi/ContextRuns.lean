/-
# `Libjapi.ContextRuns` — sequences of calls on a context

The calls of `Libjapi.ContextCalls`, from `japi_init` on, in any order and with
any of the allocations failing, performed in memory and on lists at once:

    every call returns the same, every later look at the context sees the same,
    and none gets stuck but `japi_pushsrv_sendmsg`, which calls `strlen(NULL)`
    where it has no memory for the message                        `run_refines`
    the nodes in use are those of the lists, and the services whose mutex could
    not be initialized; `japi_destroy` leaves these, and the nodes of the clients
    that were not removed before                                 `run_destroy`

`japi_init` does not look at what its registrations return, so a built-in request
may be missing.
-/
import Libjapi.ContextCalls

namespace Libjapi

open CStr (lit)
open HeapList

/-- A context in memory and the same one on lists, what the calls on each have
returned so far, and the services that were left allocated. -/
structure BothContexts where
  mem : MemoryContext
  list : ListContext
  memReplies : List Reply
  listReplies : List Reply
  leaked : List Addr

namespace BothContexts

/-- `malloc` gives an address that is not in use, and the services named by
their address are on the list. -/
def Allowed (st : BothContexts) : ContextCall → Prop
  | .registerRequest malloc _ _ => ∀ a ∈ malloc, (st.mem.mem.requestCells a).isNone
  | .pushsrvRegister new _ => ∀ a ∈ new.malloc, (st.mem.mem.serviceCells a).isNone
  | .pushsrvDestroy psc => ∀ a ∈ psc, a ∈ st.list.ctx.pushServices.map JapiPushsrvContext.addr
  | .addClient malloc _ => ∀ a ∈ malloc, (st.mem.mem.nodes a).isNone
  | .subscribe malloc _ _ => ∀ a ∈ malloc, (st.mem.mem.nodes a).isNone
  | .sendmsg _ _ _ psc _ => psc ∈ st.list.ctx.pushServices.map JapiPushsrvContext.addr
  | .removeClient _ | .removeAllClients | .unsubscribe _ _ | .setMaxAllowedClients _
  | .includeArgsInResponse _ | .shutdown => True

instance (st : BothContexts) : DecidablePred st.Allowed
  | .registerRequest malloc _ _ => inferInstanceAs (Decidable (∀ a ∈ malloc, _))
  | .pushsrvRegister new _ => inferInstanceAs (Decidable (∀ a ∈ new.malloc, _))
  | .pushsrvDestroy psc => inferInstanceAs (Decidable (∀ a ∈ psc, a ∈ st.list.ctx.pushServices.map _))
  | .addClient malloc _ => inferInstanceAs (Decidable (∀ a ∈ malloc, _))
  | .subscribe malloc _ _ => inferInstanceAs (Decidable (∀ a ∈ malloc, _))
  | .sendmsg _ _ _ psc _ => inferInstanceAs (Decidable (psc ∈ st.list.ctx.pushServices.map _))
  | .removeClient _ | .removeAllClients | .unsubscribe _ _ | .setMaxAllowedClients _
  | .includeArgsInResponse _ | .shutdown => inferInstanceAs (Decidable True)

/-- One call, on both. -/
def step (J : JsonC) (bound : Nat) (st : BothContexts) (call : ContextCall) :
    Option BothContexts :=
  if st.Allowed call then
    (st.mem.perform J bound call).map fun r =>
      { mem := r.1
        list := (st.list.perform call).1
        memReplies := st.memReplies ++ [r.2]
        listReplies := st.listReplies ++ [(st.list.perform call).2]
        leaked := st.leaked ++ st.list.leak call }
  else none

/-! ## `japi_init` -/

/-- `japi_init`, before its registrations. -/
def blank : BothContexts where
  mem := ⟨⟨fun _ => none, fun _ => none, fun _ => none, none, none, none, 0, []⟩, 0, false, false,
    false⟩
  list := ⟨⟨0, 0, [], [], [], false, false, false⟩, []⟩
  memReplies := []
  listReplies := []
  leaked := []

/-- The registrations, whose results it does not look at. -/
def initCalls (malloc : JapiRequest → Option Addr) : List ContextCall :=
  builtins.map fun req => .registerRequest (malloc req) (some req.name) (some req.func)

/-- `ctx->init = true`. -/
def initialized (st : BothContexts) : BothContexts :=
  { st with
    mem := { st.mem with init := true }
    list := { st.list with ctx := { st.list.ctx with init := true } } }

/-- The context `japi_init` returns. -/
def start (J : JsonC) (bound : Nat) (malloc : JapiRequest → Option Addr) : Option BothContexts :=
  (run (step J bound) blank (initCalls malloc)).map initialized

/-! ## A step -/

/-- What holds of both after every call: `n` bounds the number of nodes. -/
structure Sound (st : BothContexts) (n : Nat) : Prop where
  stands : ∃ l requests, Standing st.mem.mem l requests st.leaked ∧
    Agrees st.mem st.list l requests ∧ l.size + requests.length ≤ n
  replies : st.memReplies = st.listReplies

variable {J : JsonC} {bound n : Nat} {st : BothContexts}

/-- **A call does the same in memory and on lists**, where it has a message to send or none
is needed. -/
theorem matches_perform {l : Lists} {requests : List (Addr × JapiRequest)}
    (hs : Standing st.mem.mem l requests st.leaked) (ha : Agrees st.mem st.list l requests)
    (hn : l.size + requests.length ≤ n) (hbound : n < bound) {call : ContextCall}
    (hallowed : st.Allowed call) (hmessage : ¬ st.list.NullMessage call) :
    Matches (st.leaked ++ st.list.leak call) (n + 1) (st.mem.perform J bound call)
      (st.list.perform call) := by
  have hnone : ∀ {α : Type} {o : Option α}, o.isNone → o = none := Option.isNone_iff_eq_none.mp
  have hnil : st.leaked ++ [] = st.leaked := List.append_nil _
  cases call with
  | registerRequest malloc reqName reqHandler =>
      exact hnil.symm ▸ .registerRequest hs ha hn hbound (fun a h => hnone (hallowed a h)) _ _
  | pushsrvRegister new pushsrvName =>
      exact .pushsrvRegister hs ha hn hbound (fun a h => hnone (hallowed a h)) pushsrvName
  | pushsrvDestroy psc => exact hnil.symm ▸ .pushsrvDestroy hs ha hn hbound hallowed
  | addClient malloc socket =>
      exact hnil.symm ▸ .addClient hs ha hn (fun a h => hnone (hallowed a h)) socket
  | removeClient socket => exact hnil.symm ▸ .removeClient hs ha hn hbound socket
  | removeAllClients => exact hnil.symm ▸ .removeAllClients hs ha hn hbound
  | subscribe malloc pushsrvName socket =>
      exact hnil.symm ▸ .subscribe hs ha hn hbound (fun a h => hnone (hallowed a h)) _ socket
  | unsubscribe pushsrvName socket => exact hnil.symm ▸ .unsubscribe hs ha hn hbound _ socket
  | sendmsg malloc writeN h psc jmsgData =>
      exact hnil.symm ▸ .sendmsg hs ha hn hbound malloc writeN h hallowed hmessage
  | setMaxAllowedClients num =>
      exact ⟨_, l, requests, rfl, hnil.symm ▸ hs, { ha with maxClients := rfl }, by omega⟩
  | includeArgsInResponse includeArgs =>
      exact ⟨_, l, requests, rfl, hnil.symm ▸ hs, { ha with includeArgs := rfl }, by omega⟩
  | shutdown => exact ⟨_, l, requests, rfl, hnil.symm ▸ hs, { ha with shutdown := rfl }, by omega⟩

theorem Sound.step (h : st.Sound n) (hbound : n < bound) {call : ContextCall}
    (hallowed : st.Allowed call) (hmessage : ¬ st.list.NullMessage call) :
    ∃ st', step J bound st call = some st' ∧ st'.Sound (n + 1) := by
  obtain ⟨⟨l, requests, hs, ha, hn⟩, hreplies⟩ := h
  obtain ⟨c, l', requests', hcall, hs', ha', hn'⟩ :=
    matches_perform (J := J) hs ha hn hbound hallowed hmessage
  refine ⟨⟨c, (st.list.perform call).1, st.memReplies ++ [(st.list.perform call).2],
    st.listReplies ++ [(st.list.perform call).2], st.leaked ++ st.list.leak call⟩, ?_,
    ⟨l', requests', hs', ha', hn'⟩, congrArg (· ++ [(st.list.perform call).2]) hreplies⟩
  simp only [BothContexts.step, if_pos hallowed, hcall, Option.map_some]

theorem Sound.step_of_nullMessage (h : st.Sound n) {call : ContextCall}
    (hmessage : st.list.NullMessage call) : BothContexts.step J bound st call = none := by
  obtain ⟨⟨l, requests, hs, ha, -⟩, -⟩ := h
  rw [BothContexts.step, perform_of_nullMessage hs ha hmessage]
  exact ite_self _

theorem Sound.run {es : List ContextCall} :
    ∀ {st st' : BothContexts} {n : Nat}, st.Sound n → n + es.length ≤ bound →
      run (BothContexts.step J bound) st es = some st' → st'.Sound (n + es.length) := by
  induction es with
  | nil =>
      intro st st' n h _ hrun
      cases hrun
      exact h
  | cons call es ih =>
      intro st st' n h hn hrun
      rw [List.length_cons] at hn
      obtain ⟨st₁, hstep, hrest⟩ := run_cons.mp hrun
      obtain ⟨hallowed, -⟩ := Option.ite_none_right_eq_some.mp hstep
      have hmessage : ¬ st.list.NullMessage call := by
        intro hnull
        rw [h.step_of_nullMessage hnull] at hstep
        cases hstep
      obtain ⟨st₂, hstep₂, hsound⟩ := h.step (J := J) (show n < bound by omega) hallowed hmessage
      rw [hstep] at hstep₂
      cases hstep₂
      have hsound' := ih hsound (by omega) hrest
      rw [List.length_cons, Nat.add_comm es.length 1, ← Nat.add_assoc]
      exact hsound'

theorem sound_blank : blank.Sound 0 := by
  have hnone : ∀ {α : Type}, Exactly (fun _ => none : Cells α) [] := by
    intro α a
    simp
  exact ⟨⟨⟨[], []⟩, [], ⟨⟨rfl, rfl, fun _ hs => absurd hs List.not_mem_nil, List.nodup_nil⟩, rfl,
    hnone, hnone, hnone, fun _ ha => absurd ha List.not_mem_nil⟩,
    ⟨rfl, rfl, rfl, rfl, rfl, rfl, rfl, rfl, rfl⟩, Nat.le_refl 0⟩, rfl⟩

theorem run_sound {malloc : JapiRequest → Option Addr} {st₀ : BothContexts}
    {es : List ContextCall} (hbound : es.length + 5 ≤ bound) (hstart : start J bound malloc = some st₀)
    (hrun : run (BothContexts.step J bound) st₀ es = some st) : st.Sound (es.length + 5) := by
  obtain ⟨st₁, hinit, rfl⟩ := Option.map_eq_some_iff.mp hstart
  have hlen : (initCalls malloc).length = 5 := rfl
  have hsound := sound_blank.run (by omega) hinit
  rw [hlen] at hsound
  obtain ⟨⟨l, requests, hs, ha, hn⟩, hreplies⟩ := hsound
  have hsound₀ : (initialized st₁).Sound (0 + 5) :=
    ⟨⟨l, requests, hs, { ha with init := rfl }, hn⟩, hreplies⟩
  have hsound' := hsound₀.run (J := J) (by omega) hrun
  rw [Nat.zero_add, Nat.add_comm] at hsound'
  exact hsound'

/-! ## Every sequence of calls -/

/-- What a handler can see of the requests and the services, and the server of the fields. -/
structure Looks (bound : Nat) (c : MemoryContext) (d : ListContext) : Prop where
  getRequestHandler : ∀ name,
    c.mem.getRequestHandler bound name = some (japiGetRequestHandler d.ctx name)
  cmdList : ∀ h response, c.mem.cmdList bound h response =
    some ((japiCmdList d.ctx h response).map Served.heap)
  pushsrvList : ∀ h response, c.mem.pushsrvList bound h response =
    some ((japiPushsrvList d.ctx h response).map Served.heap)
  numClients : c.mem.numClients = d.ctx.numClients
  maxClients : c.maxClients = d.ctx.maxClients
  includeArgs : c.includeArgsInResponse = d.ctx.includeArgsInResponse
  shutdown : c.shutdown = d.ctx.shutdown
  closed : c.mem.closed = d.closed

theorem looks_of_agrees {c : MemoryContext} {d : ListContext} {l : Lists}
    {requests : List (Addr × JapiRequest)} {leaked : List Addr}
    (hs : Standing c.mem l requests leaked) (ha : Agrees c d l requests)
    (hn : l.size + requests.length < bound) : Looks bound c d := by
  have hservices : l.services.length < bound := (Lists.below_of_size (by omega)).services
  have hrequests : requests.length < bound := by omega
  refine ⟨hs.getRequestHandler ha.requests hrequests, ?_, ?_, ha.numClients, ha.maxClients,
    ha.includeArgs, ha.shutdown, ha.closed⟩
  · intro h response
    rw [ContextMem.cmdList, cmdLoop_spec _ requests hs.registered hrequests, ha.requests,
      japiCmdList, Option.map_some]
    cases (addNames (h.alloc (.array [])).1 (d.ctx.requests.map JapiRequest.name)
      (h.alloc (.array [])).2).objectAdd response (lit "commands") (h.alloc (.array [])).1 <;> rfl
  · intro h response
    have hnames : l.services.map ServiceNode.pushsrvName =
        d.ctx.pushServices.map JapiPushsrvContext.pushsrvName := by
      rw [← ha.services, List.map_map]
      rfl
    rw [ContextMem.pushsrvList, listLoop_spec _ l.services hs.holds.services hservices, hnames,
      japiPushsrvList, Option.map_some]
    cases (addNames (h.alloc (.array [])).1
      (d.ctx.pushServices.map JapiPushsrvContext.pushsrvName) (h.alloc (.array [])).2).objectAdd
        response (lit "services") (h.alloc (.array [])).1 <;> rfl

/-- **The context in memory is the context on lists**: after every sequence of
calls all calls returned the same, every look at the context finds the same, and
a further call gets stuck exactly if it has a message to send and no memory for it; no
call touches a node that is not in use. -/
theorem run_refines {malloc : JapiRequest → Option Addr} {st₀ : BothContexts}
    {es : List ContextCall} (hbound : es.length + 5 < bound) (hstart : start J bound malloc = some st₀)
    (hrun : run (BothContexts.step J bound) st₀ es = some st) :
    st.memReplies = st.listReplies ∧ Looks bound st.mem st.list ∧
      (∃ l requests, Standing st.mem.mem l requests st.leaked ∧
        Agrees st.mem st.list l requests) ∧
      ∀ call, st.Allowed call →
        ((BothContexts.step J bound st call).isSome ↔ ¬ st.list.NullMessage call) := by
  have hsound := run_sound hbound.le hstart hrun
  obtain ⟨l, requests, hs, ha, hn⟩ := hsound.stands
  refine ⟨hsound.replies, looks_of_agrees hs ha (by omega), ⟨l, requests, hs, ha⟩, ?_⟩
  intro call hallowed
  constructor
  · intro hsome hnull
    rw [hsound.step_of_nullMessage hnull] at hsome
    cases hsome
  · intro hmessage
    obtain ⟨st', hstep, -⟩ := hsound.step hbound hallowed hmessage
    rw [hstep]
    rfl

/-- Two clients and a service they subscribe to, one of them twice; a message that does not
reach the second attempt; a service whose mutex fails; and one client goes. -/
def temperatureCalls : List ContextCall :=
  [.addClient (some 1) 5, .addClient (some 2) 6, .addClient none 7,
    .pushsrvRegister ⟨some 1, true, true⟩ (some (lit "temperature")),
    .pushsrvRegister ⟨some 2, true, false⟩ (some (lit "humidity")),
    .subscribe (some 3) (lit "Temperature") 5, .subscribe (some 4) (lit "temperature") 6,
    .subscribe (some 7) (lit "temperature") 5,
    .sendmsg true (fun k => if k = 1 then -1 else 1) ⟨[⟨.object [], 1⟩]⟩ 1 (some 0),
    .registerRequest (some 2) (some (lit "get_temperature")) (some (.user 0)),
    .registerRequest (some 3) (some (lit "japi_own")) (some (.user 1)), .removeClient 5]

theorem run_refines_temperature :
    ∃ st₀ st, start (JsonC.table []) 30
        (fun req => some req.name.bytes.length) = some st₀ ∧
      run (BothContexts.step (JsonC.table []) 30) st₀ temperatureCalls =
        some st ∧
      st.memReplies.drop 5 = [.int 0, .int 0, .int (-1), .service (some 1), .service none,
        .subscribed (some (1, 0)), .subscribed (some (1, 0)), .subscribed (some (1, 0)),
        .sent 2 [5, 6, 5], .int 0, .int (-6), .int 0] := by
  have hruns : ((start (JsonC.table []) 30
      (fun req => some req.name.bytes.length)).bind fun st₀ =>
        (run (BothContexts.step (JsonC.table []) 30) st₀
          temperatureCalls).map fun st => st.listReplies.drop 5) =
      some [.int 0, .int 0, .int (-1), .service (some 1), .service none,
        .subscribed (some (1, 0)), .subscribed (some (1, 0)), .subscribed (some (1, 0)),
        .sent 2 [5, 6, 5], .int 0, .int (-6), .int 0] := by decide +kernel
  obtain ⟨st₀, hstart, hrest⟩ := Option.bind_eq_some_iff.mp hruns
  obtain ⟨st, hrun, hreplies⟩ := Option.map_eq_some_iff.mp hrest
  have hsame := (run_refines (show temperatureCalls.length + 5 < 30 by decide) hstart hrun).1
  exact ⟨st₀, st, hstart, hrun, (congrArg (List.drop 5) hsame).trans hreplies⟩

/-! ## The end -/

theorem Standing.destroy {m : ContextMem} {l : Lists} {requests : List (Addr × JapiRequest)}
    {leaked : List Addr} (hs : Standing m l requests leaked)
    (hn : l.size + requests.length < bound) :
    ∃ m', m.destroy bound = some (m', 0) ∧ Exactly m'.nodes (addrs l.clients) ∧
      Exactly m'.serviceCells leaked ∧ Exactly m'.requestCells [] := by
  have hbelow : l.Below bound := Lists.below_of_size (by omega)
  obtain ⟨requestCells, hreqs, hcleared⟩ := destroyRequests_spec requests hs.registered
    (show requests.length < bound by omega)
  have hholds : Holds { m with requestCells } l :=
    ⟨hs.holds.clients, hs.holds.services, hs.holds.subscribers, hs.holds.apart⟩
  obtain ⟨m', hservices, hfrees⟩ := destroyServices_spec l.services hholds rfl hbelow
    hbelow.services
  rw [← hholds.services.eq_headAddr] at hservices
  refine ⟨m', ?_, ?_, ?_, ?_⟩
  · simp only [ContextMem.destroy, hreqs, Option.bind_some, hservices, Option.map_some]
  · have hnodes := hs.nodes
    rw [← List.append_nil l.nodeAddrs] at hnodes
    have hleft := hnodes.cleared hfrees.nodes (fun a ha => hfrees.holds.isSome ha)
      fun _ ha => absurd ha List.not_mem_nil
    simpa [Lists.nodeAddrs, Lists.subscriberAddrs] using hleft
  · exact hs.services.cleared hfrees.services (fun _ ha => absurd ha List.not_mem_nil) hs.apart
  · have hcells := hs.requestCells
    rw [← List.append_nil (addrs requests)] at hcells
    rw [hfrees.requestCells]
    exact hcells.cleared hcleared (fun _ ha => absurd ha List.not_mem_nil)
      fun _ ha => absurd ha List.not_mem_nil

/-- The mutex of a new service can be initialized. -/
def MutexInits : ContextCall → Prop
  | .pushsrvRegister new _ => new.mutexInit = true
  | _ => True

theorem leak_of_mutexInits {d : ListContext} {call : ContextCall} (h : MutexInits call) :
    d.leak call = [] := by
  cases call with
  | pushsrvRegister new pushsrvName =>
      obtain ⟨malloc, strdup, mutexInit⟩ := new
      cases h
      have hnew : ContextMem.NewService.leak ⟨malloc, strdup, true⟩ = [] := by
        cases malloc <;> cases strdup <;> rfl
      cases pushsrvName with
      | none => rfl
      | some name => simp only [ListContext.leak, hnew, ite_self]
  | _ => rfl

theorem leaked_step {st' : BothContexts} {call : ContextCall} (h : MutexInits call)
    (hstep : BothContexts.step J bound st call = some st') : st'.leaked = st.leaked := by
  obtain ⟨-, hperform⟩ := Option.ite_none_right_eq_some.mp hstep
  obtain ⟨r, -, rfl⟩ := Option.map_eq_some_iff.mp hperform
  exact (congrArg (st.leaked ++ ·) (leak_of_mutexInits h)).trans (List.append_nil _)

theorem run_leaked {es : List ContextCall} {st₀ : BothContexts} (hes : ∀ call ∈ es, MutexInits call)
    (hnone : st₀.leaked = []) (hrun : run (BothContexts.step J bound) st₀ es = some st) :
    st.leaked = [] := by
  have hkeeps : ∀ {s : BothContexts} {call : ContextCall} {s' : BothContexts}, s.leaked = [] →
      MutexInits call → BothContexts.step J bound s call = some s' → s'.leaked = [] :=
    fun h hcall hstep => (leaked_step hcall hstep).trans h
  exact run_invariant_of_meets (fun _ call => MutexInits call) hkeeps hnone (meets_of_forall hes) hrun

theorem start_leaked {malloc : JapiRequest → Option Addr} {st₀ : BothContexts}
    (hstart : start J bound malloc = some st₀) : st₀.leaked = [] := by
  obtain ⟨st₁, hinit, rfl⟩ := Option.map_eq_some_iff.mp hstart
  have hcalls : ∀ call ∈ initCalls malloc, MutexInits call := by
    intro call hcall
    obtain ⟨req, -, rfl⟩ := List.mem_map.mp hcall
    trivial
  have hleaked : st₁.leaked = [] := run_leaked hcalls rfl hinit
  exact hleaked

/-- **What is allocated is freed**: after every sequence of calls the cells in use
are those of the lists and the services whose mutex could not be initialized;
`japi_destroy` leaves of them the latter and the clients, and after
`japi_remove_all_clients` the latter alone. -/
theorem run_destroy {malloc : JapiRequest → Option Addr} {st₀ : BothContexts}
    {es : List ContextCall} (hbound : es.length + 6 < bound) (hstart : start J bound malloc = some st₀)
    (hrun : run (BothContexts.step J bound) st₀ es = some st) :
    (∃ l requests, Standing st.mem.mem l requests st.leaked ∧ Agrees st.mem st.list l requests) ∧
    (∃ m', st.mem.mem.destroy bound = some (m', 0) ∧
      Exactly m'.nodes (st.list.ctx.clients.map JapiClient.addr) ∧
      Exactly m'.serviceCells st.leaked ∧ Exactly m'.requestCells []) ∧
    (∃ c m', st.mem.perform J bound .removeAllClients = some (c, .int 0) ∧
      c.mem.destroy bound = some (m', 0) ∧ Exactly m'.nodes [] ∧
      Exactly m'.serviceCells st.leaked ∧ Exactly m'.requestCells []) ∧
    ((∀ call ∈ es, MutexInits call) → st.leaked = []) := by
  obtain ⟨l, requests, hs, ha, hn⟩ := (run_sound (by omega) hstart hrun).stands
  refine ⟨⟨l, requests, hs, ha⟩, ?_, ?_, fun hes => run_leaked hes (start_leaked hstart) hrun⟩
  · obtain ⟨m', hcall, hnodes, hrest⟩ :=
      Standing.destroy hs (show l.size + requests.length < bound by omega)
    refine ⟨m', hcall, ?_, hrest⟩
    rw [ha.clients, addrs, List.map_map] at hnodes
    exact hnodes
  · obtain ⟨c, l', requests', hcall, hs', ha', hn'⟩ :=
      Matches.removeAllClients (J := J) hs ha hn (show es.length + 5 < bound by omega)
    have hlist : japiRemoveAllClients st.list.ctx = _ := removeClients_eq st.list.ctx.clients rfl
    have hnone : l'.clients = [] := by
      rw [ha'.clients, ListContext.perform, hlist]
      rfl
    obtain ⟨m', hdestroy, hnodes, hrest⟩ :=
      Standing.destroy hs' (show l'.size + requests'.length < bound by omega)
    rw [hnone] at hnodes
    refine ⟨c, m', ?_, hdestroy, hnodes, hrest⟩
    rw [hcall, ListContext.perform, hlist]

theorem run_destroy_temperature :
    ∃ st₀ st m', start (JsonC.table []) 30
        (fun req => some req.name.bytes.length) = some st₀ ∧
      run (BothContexts.step (JsonC.table []) 30) st₀ temperatureCalls =
        some st ∧
      st.mem.mem.destroy 30 = some (m', 0) ∧ Exactly m'.nodes [2] ∧
      Exactly m'.serviceCells [2] := by
  have hruns : ((start (JsonC.table []) 30
      (fun req => some req.name.bytes.length)).bind fun st₀ =>
        (run (BothContexts.step (JsonC.table []) 30) st₀
          temperatureCalls).map fun st => (st.list.ctx.clients.map JapiClient.addr, st.leaked)) =
      some ([2], [2]) := by decide +kernel
  obtain ⟨st₀, hstart, hrest⟩ := Option.bind_eq_some_iff.mp hruns
  obtain ⟨st, hrun, heq⟩ := Option.map_eq_some_iff.mp hrest
  obtain ⟨-, ⟨m', hdestroy, hnodes, hservices, -⟩, -⟩ :=
    run_destroy (show temperatureCalls.length + 6 < 30 by decide) hstart hrun
  obtain ⟨hclients, hleaked⟩ := Prod.mk.inj heq
  rw [hclients] at hnodes
  rw [hleaked] at hservices
  exact ⟨st₀, st, m', hstart, hrun, hdestroy, hnodes, hservices⟩

end BothContexts

end Libjapi
