/-
# `Libjapi.PushThreads` — two threads on the subscriber list of one push service

The server thread subscribes, unsubscribes and disconnects clients while the
thread of the service sends.  A step is one access to a node or to
`psc->clients`, or one operation on `psc->lock`:

    subscribe      malloc · lock · socket · next · psc->clients · unlock
    unsubscribe    japi_pushsrv_remove_client
    disconnect     lock · japi_pushsrv_remove_client · unlock
    sendmsg        psc->clients · lock · loop (next · write_n · remove …) · unlock

An access to a node that is not in use, or through NULL, sets `fault`.  `psc` is
the service as `Libjapi.PushService` has it: the write that links or unlinks a
node performs the whole operation on it.

`japi_pushsrv_unsubscribe` does not take the lock.  As long as it removes a
client only while the other thread is outside of its critical section, the list
in memory is the list of `psc` and the nodes `japi_pushsrv_sendmsg` holds are
linked, in every state (`run_linked`).
-/
import Libjapi.Runs
import Libjapi.HeapList
import Libjapi.PushService

namespace Libjapi

open HeapList

/-! ## Removing a node -/

/-- A subscriber list in memory. -/
structure ListMem where
  cells : Cells Int
  head : Option Addr

/-- Write `next` of a node; `none` if there is no node. -/
def ListMem.setNext (m : ListMem) (p : Option Addr) (next : Option Addr) : Option ListMem :=
  p.bind fun a => (m.cells a).map fun c =>
    { m with cells := Function.update m.cells a (some { c with next }) }

/-- Where in `japi_pushsrv_remove_client` a thread is, with the pointers it holds. -/
inductive RemovePc where
  | start
  | test (prev client : Option Addr)
  | headNext (client : Addr)
  | headWrite (client : Addr) (next : Option Addr)
  | last (prev : Option Addr) (client : Addr)
  | lastNext (prev : Option Addr) (client : Addr)
  | lastWrite (prev : Option Addr) (client : Addr)
  | inner (prev : Option Addr) (client : Addr)
  | innerNext (prev : Option Addr) (client : Addr)
  | innerWrite (prev : Option Addr) (client : Addr) (next : Option Addr)
  | advance (client : Addr)
  | free (client : Addr)
  | returned (ret : Int)

/-- One access of `japi_pushsrv_remove_client`; `none` is a fault. -/
def removeStep (socket : Int) (m : ListMem) : RemovePc → Option (ListMem × RemovePc)
  | .start => some (m, .test none m.head)
  | .test _ none => some (m, .returned (-1))
  | .test prev (some client) => -- "If first element"
      (m.cells client).map fun c =>
        (m, if c.val = socket ∧ prev = none then .headNext client else .last prev client)
  | .headNext client => (m.cells client).map fun c => (m, .headWrite client c.next)
  | .headWrite client next => some ({ m with head := next }, .free client)
  | .last prev client => -- "If last element"
      (m.cells client).map fun c =>
        (m, if c.val = socket then .lastNext prev client else .inner prev client)
  | .lastNext prev client =>
      (m.cells client).map fun c =>
        (m, if c.next = none then .lastWrite prev client else .inner prev client)
  | .lastWrite prev client => (m.setNext prev none).map fun m' => (m', .free client)
  | .inner prev client =>
      (m.cells client).map fun c =>
        (m, if c.val = socket then .innerNext prev client else .advance client)
  | .innerNext prev client => (m.cells client).map fun c => (m, .innerWrite prev client c.next)
  | .innerWrite prev client next => (m.setNext prev next).map fun m' => (m', .free client)
  | .advance client => (m.cells client).map fun c => (m, .test (some client) c.next)
  | .free client =>
      (m.cells client).map fun _ =>
        ({ m with cells := Function.update m.cells client none }, .returned 0)
  | .returned _ => none

/-- The next access unlinks a node. -/
def RemovePc.unlinks : RemovePc → Bool
  | .headWrite _ _ | .lastWrite _ _ | .innerWrite _ _ _ => true
  | _ => false

/-- No node will be unlinked any more. -/
def RemovePc.done : RemovePc → Bool
  | .free _ | .returned _ => true
  | _ => false

/-- The node that was unlinked and is not freed yet. -/
def RemovePc.freeing : RemovePc → Option Addr
  | .free client => some client
  | _ => none

def RemovePc.isReturned : RemovePc → Bool
  | .returned _ => true
  | _ => false

/-! ## What a removal keeps -/

/-- The traversal for `socket` is at a node: no node in front has the socket. -/
def AtNode (l : List (Addr × Int)) (socket : Int) (prev : Option Addr) (client : Addr) (val : Int)
    (next : Option Addr) : Prop :=
  ∃ pre post, l = pre ++ (client, val) :: post ∧ lastAddr pre = prev ∧ headAddr post = next ∧
    ∀ e ∈ pre, e.2 ≠ socket

/-- What a thread knows at each access, of the list `l`. -/
def RemoveInv (cells : Cells Int) (l : List (Addr × Int)) (socket : Int) : RemovePc → Prop
  | .start => True
  | .test _ none => ∀ e ∈ l, e.2 ≠ socket
  | .test prev (some client) => ∃ val next, AtNode l socket prev client val next
  | .headNext client => ∃ next, AtNode l socket none client socket next
  | .headWrite client next => AtNode l socket none client socket next
  | .last prev client | .inner prev client =>
      ∃ val next, AtNode l socket prev client val next ∧ (val = socket → prev ≠ none)
  | .lastNext prev client | .innerNext prev client =>
      ∃ next, AtNode l socket prev client socket next ∧ prev ≠ none
  | .lastWrite prev client => AtNode l socket prev client socket none ∧ prev ≠ none
  | .innerWrite prev client next => AtNode l socket prev client socket next ∧ prev ≠ none
  | .advance client => ∃ prev val next, AtNode l socket prev client val next ∧ val ≠ socket
  | .free client => client ∉ addrs l ∧ (cells client).isSome
  | .returned _ => True

/-- The first node with the socket was unlinked. -/
def Unlinked (socket : Int) (l l' : List (Addr × Int)) : Prop :=
  ∃ pre client post, l = pre ++ (client, socket) :: post ∧ l' = pre ++ post ∧
    ∀ e ∈ pre, e.2 ≠ socket

theorem AtNode.cell {m : ListMem} {l : List (Addr × Int)} (hpath : Path m.cells m.head l)
    {socket : Int} {prev : Option Addr} {client : Addr} {val : Int} {next : Option Addr}
    (h : AtNode l socket prev client val next) : m.cells client = some ⟨val, next⟩ := by
  obtain ⟨pre, post, rfl, -, rfl, -⟩ := h
  exact hpath.cell

theorem AtNode.mem {l : List (Addr × Int)} {socket : Int} {prev : Option Addr} {client : Addr}
    {val : Int} {next : Option Addr} (h : AtNode l socket prev client val next) :
    client ∈ addrs l := by
  obtain ⟨pre, post, rfl, -⟩ := h
  simp [addrs]

theorem AtNode.advance {cells : Cells Int} {l : List (Addr × Int)} {socket : Int}
    {prev : Option Addr} {client : Addr} {val : Int} {next : Option Addr}
    (h : AtNode l socket prev client val next) (hval : val ≠ socket) :
    RemoveInv cells l socket (.test (some client) next) := by
  obtain ⟨pre, post, rfl, -, rfl, hpre⟩ := h
  have hpre' : ∀ e ∈ pre ++ [(client, val)], e.2 ≠ socket := by
    intro e he
    rcases List.mem_append.mp he with he | he
    · exact hpre e he
    · rw [List.mem_singleton.mp he]
      exact hval
  cases post with
  | nil => exact hpre'
  | cons e post =>
      refine ⟨e.2, headAddr post, pre ++ [(client, val)], post, ?_, ?_, rfl, hpre'⟩
      · simp
      · simp [lastAddr]

/-- Writing past the client in the node in front of it unlinks it. -/
theorem AtNode.setNext {m : ListMem} {l : List (Addr × Int)} (hpath : Path m.cells m.head l)
    {socket : Int} {prev : Option Addr} (hprev : prev ≠ none) {client : Addr}
    {next : Option Addr} (h : AtNode l socket prev client socket next) :
    ∃ m' l', m.setNext prev next = some m' ∧ Path m'.cells m'.head l' ∧ Unlinked socket l l' ∧
      RemoveInv m'.cells l' socket (.free client) ∧ ∀ a, a ∉ addrs l → m'.cells a = m.cells a := by
  obtain ⟨p, rfl⟩ := Option.ne_none_iff_exists'.mp hprev
  obtain ⟨pre, post, rfl, hlast, rfl, hpre⟩ := h
  obtain ⟨pre, w, rfl⟩ := eq_concat_of_lastAddr hlast
  have hshape : pre ++ [(p, w)] ++ (client, socket) :: post
      = pre ++ (p, w) :: (client, socket) :: post := by simp
  have hcell : m.cells p = some ⟨w, some client⟩ := by
    rw [hshape] at hpath
    exact hpath.cell
  have hclient : m.cells client = some ⟨socket, headAddr post⟩ := hpath.cell
  refine ⟨{ m with cells := Function.update m.cells p (some ⟨w, headAddr post⟩) },
    pre ++ [(p, w)] ++ post, by simp [ListMem.setNext, hcell], ?_,
    ⟨pre ++ [(p, w)], client, post, rfl, rfl, hpre⟩, ⟨not_mem_of_nodup hpath.nodup, ?_⟩, ?_⟩
  · rw [hshape] at hpath
    have := hpath.unlink
    simpa using this
  · show (Function.update m.cells p _ client).isSome = true
    by_cases hne : client = p
    · rw [hne, Function.update_self]
      rfl
    · rw [Function.update_of_ne hne, hclient]
      rfl
  · intro a ha
    refine Function.update_of_ne ?_ _ _
    rintro rfl
    exact ha (by simp [addrs])

/-- What one access of a removal does to the list: it unlinks the first node with
the socket, or leaves the list alone; no node beside the list is touched but the
one that is freed. -/
structure Removing (m : ListMem) (l : List (Addr × Int)) (socket : Int) (pc : RemovePc)
    (m' : ListMem) (l' : List (Addr × Int)) (pc' : RemovePc) : Prop where
  path : Path m'.cells m'.head l'
  inv : RemoveInv m'.cells l' socket pc'
  list : if pc.unlinks = true then Unlinked socket l l' ∧ pc'.done = true else l' = l
  done : pc.done = true → pc'.done = true
  free : ∀ a ∈ pc'.freeing, a ∈ addrs l
  frame : ∀ a, a ∉ addrs l → pc.freeing ≠ some a → m'.cells a = m.cells a

theorem Removing.read {m : ListMem} {l : List (Addr × Int)} (hpath : Path m.cells m.head l)
    {socket : Int} {pc pc' : RemovePc} (hunlinks : pc.unlinks = false) (hdone : pc.done = false)
    (hfreeing : pc'.freeing = none) (hpc' : RemoveInv m.cells l socket pc') :
    Removing m l socket pc m l pc' where
  path := hpath
  inv := hpc'
  list := by simp [hunlinks]
  done := by simp [hdone]
  free := by simp [hfreeing]
  frame _ _ _ := rfl

/-- **One access of a removal** finds the nodes it needs. -/
theorem removeStep_spec {m : ListMem} {l : List (Addr × Int)} (hpath : Path m.cells m.head l)
    {socket : Int} {pc : RemovePc} (hpc : RemoveInv m.cells l socket pc)
    (hret : pc.isReturned = false) :
    ∃ m' pc' l', removeStep socket m pc = some (m', pc') ∧ Removing m l socket pc m' l' pc' := by
  have hread : ∀ {prev : Option Addr} {client : Addr} {val : Int} {next : Option Addr}
      {f : Cell Int → RemovePc}, AtNode l socket prev client val next →
        ((m.cells client).map fun c => (m, f c)) = some (m, f ⟨val, next⟩) := by
    intro prev client val next f hat
    rw [hat.cell hpath, Option.map_some]
  cases pc with
  | start =>
      refine ⟨m, _, l, rfl, Removing.read hpath rfl rfl rfl ?_⟩
      rw [hpath.eq_headAddr]
      cases l with
      | nil => simp [headAddr, RemoveInv]
      | cons e l => exact ⟨e.2, headAddr l, [], l, rfl, rfl, rfl, by simp⟩
  | test prev client =>
      cases client with
      | none => exact ⟨m, _, l, rfl, Removing.read hpath rfl rfl rfl trivial⟩
      | some client =>
          obtain ⟨val, next, hat⟩ := hpc
          refine ⟨m, _, l, hread hat, Removing.read hpath rfl rfl (by split <;> rfl) ?_⟩
          by_cases hfirst : val = socket ∧ prev = none
          · obtain ⟨rfl, rfl⟩ := hfirst
            rw [if_pos ⟨rfl, rfl⟩]
            exact ⟨next, hat⟩
          · rw [if_neg hfirst]
            exact ⟨val, next, hat, fun hval hprev => hfirst ⟨hval, hprev⟩⟩
  | headNext client =>
      obtain ⟨next, hat⟩ := hpc
      exact ⟨m, _, l, hread hat, Removing.read hpath rfl rfl rfl hat⟩
  | headWrite client next =>
      obtain ⟨pre, post, rfl, hlast, rfl, hpre⟩ := hpc
      obtain rfl : pre = [] := by
        cases pre using List.reverseRecOn with
        | nil => rfl
        | append_singleton pre e => simp [lastAddr] at hlast
      have hcell : m.cells client = some ⟨socket, headAddr post⟩ := hpath.cell
      refine ⟨{ m with head := headAddr post }, .free client, post, rfl, hpath.unlink_head,
        ⟨not_mem_of_nodup hpath.nodup, by rw [hcell]; rfl⟩, ?_, by simp [RemovePc.done], ?_,
        fun _ _ _ => rfl⟩
      · exact ⟨⟨[], client, post, rfl, rfl, by simp⟩, rfl⟩
      · simp [RemovePc.freeing, addrs]
  | last prev client =>
      obtain ⟨val, next, hat, hprev⟩ := hpc
      refine ⟨m, _, l, hread hat, Removing.read hpath rfl rfl (by split <;> rfl) ?_⟩
      by_cases hval : val = socket
      · rw [if_pos hval]
        exact ⟨next, hval ▸ hat, hprev hval⟩
      · rw [if_neg hval]
        exact ⟨val, next, hat, hprev⟩
  | lastNext prev client =>
      obtain ⟨next, hat, hprev⟩ := hpc
      refine ⟨m, _, l, hread hat, Removing.read hpath rfl rfl (by split <;> rfl) ?_⟩
      by_cases hnext : next = none
      · rw [if_pos hnext]
        exact ⟨hnext ▸ hat, hprev⟩
      · rw [if_neg hnext]
        exact ⟨socket, next, hat, fun _ => hprev⟩
  | lastWrite prev client =>
      obtain ⟨hat, hprev⟩ := hpc
      obtain ⟨m', l', hset, hpath', hun, hfree, hframe⟩ := hat.setNext hpath hprev
      have hstep : removeStep socket m (.lastWrite prev client) = some (m', .free client) := by
        simp only [removeStep, hset, Option.map_some]
      exact ⟨m', _, l', hstep, hpath', hfree, ⟨hun, rfl⟩, by simp [RemovePc.done],
        by simpa [RemovePc.freeing] using hat.mem, fun a ha _ => hframe a ha⟩
  | inner prev client =>
      obtain ⟨val, next, hat, hprev⟩ := hpc
      refine ⟨m, _, l, hread hat, Removing.read hpath rfl rfl (by split <;> rfl) ?_⟩
      by_cases hval : val = socket
      · rw [if_pos hval]
        exact ⟨next, hval ▸ hat, hprev hval⟩
      · rw [if_neg hval]
        exact ⟨prev, val, next, hat, hval⟩
  | innerNext prev client =>
      obtain ⟨next, hat, hprev⟩ := hpc
      exact ⟨m, _, l, hread hat, Removing.read hpath rfl rfl rfl ⟨hat, hprev⟩⟩
  | innerWrite prev client next =>
      obtain ⟨hat, hprev⟩ := hpc
      obtain ⟨m', l', hset, hpath', hun, hfree, hframe⟩ := hat.setNext hpath hprev
      have hstep : removeStep socket m (.innerWrite prev client next)
          = some (m', .free client) := by
        simp only [removeStep, hset, Option.map_some]
      exact ⟨m', _, l', hstep, hpath', hfree, ⟨hun, rfl⟩, by simp [RemovePc.done],
        by simpa [RemovePc.freeing] using hat.mem, fun a ha _ => hframe a ha⟩
  | advance client =>
      obtain ⟨prev, val, next, hat, hval⟩ := hpc
      exact ⟨m, _, l, hread hat, Removing.read hpath rfl rfl rfl (hat.advance hval)⟩
  | free client =>
      obtain ⟨hnot, hsome⟩ := hpc
      obtain ⟨c, hc⟩ := Option.isSome_iff_exists.mp hsome
      have hstep : removeStep socket m (.free client) =
          some ({ m with cells := Function.update m.cells client none }, .returned 0) := by
        simp only [removeStep, hc, Option.map_some]
      refine ⟨_, _, l, hstep, hpath.update hnot _, trivial, rfl, fun _ => rfl,
        by simp [RemovePc.freeing], fun a _ hne => Function.update_of_ne ?_ _ _⟩
      rintro rfl
      exact hne rfl
  | returned ret => simp [RemovePc.isReturned] at hret

/-! ## The machine -/

inductive Thread where
  | server
  | service
  deriving DecidableEq

/-- Where the server thread is. -/
inductive ServerPc where
  | idle
  | addLock (client : Addr) (socket : Int)
  | addSocket (client : Addr) (socket : Int)
  | addNext (client : Addr) (socket : Int)
  | addLink (client : Addr) (socket : Int)
  | addUnlock
  | unsubscribe (socket : Int) (pc : RemovePc)
  | removeLock (socket : Int)
  | remove (socket : Int) (pc : RemovePc)
  | removeUnlock

/-- Where in `japi_pushsrv_sendmsg` the thread of the service is. -/
inductive SendPc where
  | idle
  | test
  | lock
  | start
  | loop (client : Option Addr)
  | write (client : Addr) (following : Option Addr)
  | failed (client : Addr) (following : Option Addr)
  | remove (client : Addr) (following : Option Addr) (socket : Int) (pc : RemovePc)
  | unlock

structure PushThreads where
  mem : ListMem
  lock : Option Thread
  server : ServerPc
  service : SendPc
  psc : JapiPushsrvContext
  fault : Bool

/-- What happens next: the server thread starts an operation or goes on with it,
the thread of the service does. -/
inductive ThreadEvent where
  | subscribe (socket : Int) (malloc : Option (Addr × Cell Int))
  | unsubscribe (socket : Int)
  | disconnect (socket : Int)
  | server
  | sendmsg
  | service (ret : Int)

namespace PushThreads

/-- No client is subscribed and both threads are elsewhere. -/
def start (psc : JapiPushsrvContext) : PushThreads where
  mem := ⟨fun _ => none, none⟩
  lock := none
  server := .idle
  service := .idle
  psc := { psc with clients := [] }
  fault := false

/-- The state after an access, with `fault` set if it failed. -/
def orFault (st : PushThreads) (r : Option PushThreads) : PushThreads :=
  r.getD { st with fault := true }

/-- An access of a removal; one that unlinks removes the client from `psc`. -/
def onRemove (st : PushThreads) (socket : Int) (pc : RemovePc)
    (goto : RemovePc → PushThreads → PushThreads) : PushThreads :=
  st.orFault <| (removeStep socket st.mem pc).map fun r =>
    goto r.2 { st with
      mem := r.1
      psc := if pc.unlinks then (japiPushsrvRemoveClient st.psc socket).1 else st.psc }

/-- The server thread goes on. -/
def onServer (st : PushThreads) : Option PushThreads :=
  match st.server with
  | .idle => none
  | .addLock client socket =>
      if st.lock = none then
        some { st with lock := some .server, server := .addSocket client socket }
      else none
  | .addSocket client socket =>
      some <| st.orFault <| (st.mem.cells client).map fun c =>
        { st with
          mem := { st.mem with
            cells := Function.update st.mem.cells client (some { c with val := socket }) }
          server := .addNext client socket }
  | .addNext client socket =>
      some <| st.orFault <| (st.mem.setNext (some client) st.mem.head).map fun mem =>
        { st with mem, server := .addLink client socket }
  | .addLink client socket =>
      some { st with
        mem := { st.mem with head := some client }
        psc := (japiPushsrvAddClient true st.psc socket).1
        server := .addUnlock }
  | .addUnlock => some { st with lock := none, server := .idle }
  | .unsubscribe socket pc =>
      if pc.isReturned then some { st with server := .idle }
      else some (st.onRemove socket pc fun pc st => { st with server := .unsubscribe socket pc })
  | .removeLock socket =>
      if st.lock = none then
        some { st with lock := some .server, server := .remove socket .start }
      else none
  | .remove socket pc =>
      if pc.isReturned then some { st with server := .removeUnlock }
      else some (st.onRemove socket pc fun pc st => { st with server := .remove socket pc })
  | .removeUnlock => some { st with lock := none, server := .idle }

/-- The thread of the service goes on; `ret` is what `write_n` returns. -/
def onService (st : PushThreads) (ret : Int) : Option PushThreads :=
  match st.service with
  | .idle => none
  | .test =>
      some { st with service := if st.mem.head = none then .idle else .lock }
  | .lock =>
      if st.lock = none then some { st with lock := some .service, service := .start } else none
  | .start => some { st with service := .loop st.mem.head }
  | .loop none => some { st with service := .unlock }
  | .loop (some client) =>
      some <| st.orFault <| (st.mem.cells client).map fun c =>
        { st with service := .write client c.next }
  | .write client following =>
      some <| st.orFault <| (st.mem.cells client).map fun _ =>
        { st with service := if ret ≤ 0 then .failed client following else .loop following }
  | .failed client following =>
      some <| st.orFault <| (st.mem.cells client).map fun c =>
        { st with service := .remove client following c.val .start }
  | .remove client following socket pc =>
      if pc.isReturned then some { st with service := .loop following }
      else some (st.onRemove socket pc fun pc st =>
        { st with service := .remove client following socket pc })
  | .unlock => some { st with lock := none, service := .idle }

/-- One step.  After a fault nothing is known. -/
def step (st : PushThreads) (e : ThreadEvent) : Option PushThreads :=
  if st.fault then none
  else
    match e, st.server, st.service with
    | .subscribe _ none, .idle, _ => some st
    | .subscribe socket (some (client, c)), .idle, _ =>
        if st.mem.cells client = none then
          some { st with
            mem := { st.mem with cells := Function.update st.mem.cells client (some c) }
            server := .addLock client socket }
        else none
    | .unsubscribe socket, .idle, _ => some { st with server := .unsubscribe socket .start }
    | .disconnect socket, .idle, _ => some { st with server := .removeLock socket }
    | .server, _, _ => st.onServer
    | .sendmsg, _, .idle => some { st with service := .test }
    | .service ret, _, _ => st.onService ret
    | _, _, _ => none

/-! ## What holds -/

/-- The nodes `japi_pushsrv_sendmsg` holds as `client` and `following_client`;
a client it removes itself only until it has unlinked it. -/
def held : SendPc → List Addr
  | .loop client => client.toList
  | .write client following | .failed client following => client :: following.toList
  | .remove client following _ pc =>
      if pc.done then following.toList else client :: following.toList
  | _ => []

/-- No access failed, the list in memory is that of the service, and the nodes
`japi_pushsrv_sendmsg` holds are linked. -/
structure Safe (st : PushThreads) : Prop where
  fault : st.fault = false
  list : ∃ l, Path st.mem.cells st.mem.head l ∧ l.map Prod.snd = st.psc.clients ∧
    ∀ a ∈ held st.service, a ∈ addrs l

/-- `japi_pushsrv_unsubscribe` is removing a client. -/
def removing : ServerPc → Bool
  | .unsubscribe _ pc => !pc.isReturned
  | _ => false

/-- `japi_pushsrv_unsubscribe` is removing a client while the other thread holds
the lock. -/
def Overlap (st : PushThreads) : Prop :=
  st.lock = some .service ∧ removing st.server = true

instance (st : PushThreads) : Decidable st.Overlap := inferInstanceAs (Decidable (_ ∧ _))

/-- The server thread holds the lock. -/
def serverLocked : ServerPc → Bool
  | .addSocket _ _ | .addNext _ _ | .addLink _ _ | .addUnlock | .remove _ _ | .removeUnlock => true
  | _ => false

/-- The thread of the service holds the lock. -/
def serviceLocked : SendPc → Bool
  | .idle | .test | .lock => false
  | _ => true

/-- What the server thread knows. -/
def ServerInv (m : ListMem) (l : List (Addr × Int)) : ServerPc → Prop
  | .addLock client _ | .addSocket client _ => client ∉ addrs l ∧ (m.cells client).isSome
  | .addNext client socket => client ∉ addrs l ∧ ∃ n, m.cells client = some ⟨socket, n⟩
  | .addLink client socket => client ∉ addrs l ∧ m.cells client = some ⟨socket, m.head⟩
  | .unsubscribe socket pc | .remove socket pc => RemoveInv m.cells l socket pc
  | _ => True

/-- `client` is linked, and `following` is its successor. -/
def Adjacent (l : List (Addr × Int)) (client : Addr) (val : Int) (following : Option Addr) : Prop :=
  ∃ pre post, l = pre ++ (client, val) :: post ∧ headAddr post = following

/-- What the thread of the service knows. -/
def ServiceInv (m : ListMem) (l : List (Addr × Int)) : SendPc → Prop
  | .loop client => ∀ a ∈ client, a ∈ addrs l
  | .write client following | .failed client following => ∃ val, Adjacent l client val following
  | .remove client following socket pc =>
      RemoveInv m.cells l socket pc ∧ (∀ a ∈ following, a ∈ addrs l) ∧
        (pc.done = false → Adjacent l client socket following)
  | _ => True

/-- The node the server thread has allocated and not yet linked. -/
def pending : ServerPc → Option Addr
  | .addLock client _ | .addSocket client _ | .addNext client _ | .addLink client _ => some client
  | _ => none

/-- The node the thread of the service has unlinked and not yet freed. -/
def freeing : SendPc → Option Addr
  | .remove _ _ _ pc => pc.freeing
  | _ => none

/-- The invariant, of the list `l` in memory. -/
structure Inv (st : PushThreads) (l : List (Addr × Int)) : Prop where
  fault : st.fault = false
  path : Path st.mem.cells st.mem.head l
  entries : l.map Prod.snd = st.psc.clients
  serverLock : serverLocked st.server = true ↔ st.lock = some .server
  serviceLock : serviceLocked st.service = true ↔ st.lock = some .service
  server : ServerInv st.mem l st.server
  service : ServiceInv st.mem l st.service
  apart : ∀ a ∈ pending st.server, freeing st.service ≠ some a

theorem Adjacent.mem {l : List (Addr × Int)} {client : Addr} {val : Int}
    {following : Option Addr} (h : Adjacent l client val following) :
    client ∈ addrs l ∧ ∀ a ∈ following, a ∈ addrs l := by
  obtain ⟨pre, post, rfl, rfl⟩ := h
  refine ⟨by simp [addrs], ?_⟩
  intro a ha
  rw [addrs_append, addrs_cons]
  exact List.mem_append_right _ (List.mem_cons_of_mem _ (mem_addrs_of_headAddr ha))

theorem Inv.safe {st : PushThreads} {l : List (Addr × Int)} (hi : st.Inv l) : st.Safe := by
  refine ⟨hi.fault, l, hi.path, hi.entries, ?_⟩
  intro a ha
  have hservice := hi.service
  cases hpc : st.service with
  | loop client =>
      rw [hpc] at hservice ha
      exact hservice a (Option.mem_toList.mp ha)
  | write client following =>
      rw [hpc] at hservice ha
      obtain ⟨val, hadj⟩ := hservice
      rcases List.mem_cons.mp ha with rfl | ha
      · exact hadj.mem.1
      · exact hadj.mem.2 a (Option.mem_toList.mp ha)
  | failed client following =>
      rw [hpc] at hservice ha
      obtain ⟨val, hadj⟩ := hservice
      rcases List.mem_cons.mp ha with rfl | ha
      · exact hadj.mem.1
      · exact hadj.mem.2 a (Option.mem_toList.mp ha)
  | remove client following socket pc =>
      rw [hpc] at hservice ha
      obtain ⟨-, hfollowing, hadj⟩ := hservice
      simp only [held] at ha
      split at ha
      · exact hfollowing a (Option.mem_toList.mp ha)
      · rename_i hdone
        rcases List.mem_cons.mp ha with rfl | ha
        · exact (hadj (by simpa using hdone)).mem.1
        · exact hfollowing a (Option.mem_toList.mp ha)
  | _ =>
      rw [hpc] at ha
      cases ha

/-! ## The two threads keep out of each other's way -/

/-- Outside of its critical section the thread of the service knows nothing. -/
theorem serviceInv_of_unlocked {pc : SendPc} (h : serviceLocked pc = false) (m : ListMem)
    (l : List (Addr × Int)) : ServiceInv m l pc ∧ freeing pc = none := by
  cases pc <;> first
    | exact ⟨trivial, rfl⟩
    | cases h

theorem ServerInv.pending_not_mem {m : ListMem} {l : List (Addr × Int)} {pc : ServerPc}
    (h : ServerInv m l pc) : ∀ a ∈ pending pc, a ∉ addrs l := by
  intro a ha
  cases pc with
  | addLock client socket | addSocket client socket | addNext client socket
  | addLink client socket =>
      cases ha
      exact h.1
  | _ => cases ha

/-- What the server thread knows outside of its critical section and of a removal
survives what the other thread does to the list. -/
theorem ServerInv.mono {m m' : ListMem} {l l' : List (Addr × Int)} {pc : ServerPc}
    (h : ServerInv m l pc) (hlocked : serverLocked pc = false)
    (hidle : ∀ socket rpc, pc = .unsubscribe socket rpc → rpc.isReturned = true)
    (hsub : ∀ a ∈ addrs l', a ∈ addrs l)
    (hframe : ∀ a ∈ pending pc, a ∉ addrs l → m'.cells a = m.cells a) : ServerInv m' l' pc := by
  cases pc with
  | addLock client socket =>
      obtain ⟨hnot, hsome⟩ := h
      refine ⟨fun hmem => hnot (hsub _ hmem), ?_⟩
      rw [hframe client rfl hnot]
      exact hsome
  | unsubscribe socket rpc =>
      have hret := hidle socket rpc rfl
      cases rpc with
      | returned ret => trivial
      | _ => cases hret
  | idle => trivial
  | removeLock socket => trivial
  | _ => cases hlocked

theorem unlinked_entries {socket : Int} {l l' : List (Addr × Int)} (h : Unlinked socket l l')
    {psc : JapiPushsrvContext} (hentries : l.map Prod.snd = psc.clients) :
    l'.map Prod.snd = (japiPushsrvRemoveClient psc socket).1.clients := by
  obtain ⟨pre, client, post, rfl, rfl, hpre⟩ := h
  have hnot : socket ∉ pre.map Prod.snd := by
    intro hmem
    obtain ⟨e, he, heq⟩ := List.mem_map.mp hmem
    exact hpre e he heq
  rw [japiPushsrvRemoveClient_eq, ← hentries]
  show _ = (List.map Prod.snd _).erase socket
  rw [List.map_append, List.map_append, List.map_cons, List.erase_append_right _ hnot,
    List.erase_cons_head]

theorem unlinked_subset {socket : Int} {l l' : List (Addr × Int)} (h : Unlinked socket l l') :
    ∀ a ∈ addrs l', a ∈ addrs l := by
  obtain ⟨pre, client, post, rfl, rfl, -⟩ := h
  intro a ha
  rw [addrs_append, List.mem_append] at ha
  rw [addrs_append, addrs_cons, List.mem_append, List.mem_cons]
  tauto

/-- The successor of a client outlives a removal for the client's socket, which
unlinks the client or a node in front of it. -/
theorem Adjacent.unlinked {l l' : List (Addr × Int)} {client : Addr} {socket : Int}
    {following : Option Addr} (hadj : Adjacent l client socket following)
    (h : Unlinked socket l l') : ∀ a ∈ following, a ∈ addrs l' := by
  obtain ⟨pre, post, rfl, rfl⟩ := hadj
  obtain ⟨pre', x, post', heq, rfl, hpre'⟩ := h
  intro a ha
  obtain ⟨v, hv⟩ := mem_addrs.mp (mem_addrs_of_headAddr ha)
  refine mem_addrs.mpr ⟨v, ?_⟩
  rcases List.append_eq_append_iff.mp heq with ⟨as, rfl, hrest⟩ | ⟨bs, rfl, hrest⟩
  · cases as with
    | nil =>
        obtain ⟨-, rfl⟩ := List.cons.inj hrest
        exact List.mem_append_right _ hv
    | cons e as =>
        -- the client would be in front of the first node with its socket
        obtain ⟨rfl, -⟩ := List.cons.inj hrest
        exact absurd rfl (hpre' (client, socket) (by simp))
  · cases bs with
    | nil =>
        obtain ⟨-, rfl⟩ := List.cons.inj hrest
        exact List.mem_append_right _ hv
    | cons e bs =>
        obtain ⟨-, rfl⟩ := List.cons.inj hrest
        simp [hv]

/-! ## The steps -/

theorem RemoveInv.mono {cells cells' : Cells Int} {l : List (Addr × Int)} {socket : Int}
    {pc : RemovePc} (h : RemoveInv cells l socket pc)
    (hcells : ∀ a, (cells a).isSome → (cells' a).isSome) : RemoveInv cells' l socket pc := by
  cases pc with
  | free client => exact ⟨h.1, hcells client h.2⟩
  | test prev client => cases client <;> exact h
  | _ => exact h

/-- While the other thread is outside of its critical section, the invariant is
one of the server thread. -/
theorem Inv.of_unlocked {st : PushThreads} {l : List (Addr × Int)} (hfault : st.fault = false)
    (hpath : Path st.mem.cells st.mem.head l) (hentries : l.map Prod.snd = st.psc.clients)
    (hserverLock : serverLocked st.server = true ↔ st.lock = some .server)
    (hlock : st.lock ≠ some .service) (hservice : serviceLocked st.service = false)
    (hserver : ServerInv st.mem l st.server) : st.Inv l := by
  obtain ⟨hinv, hfreeing⟩ := serviceInv_of_unlocked hservice st.mem l
  refine ⟨hfault, hpath, hentries, hserverLock, ?_, hserver, hinv, ?_⟩
  · simp [hservice, hlock]
  · simp [hfreeing]

theorem Inv.service_unlocked {st : PushThreads} {l : List (Addr × Int)} (hi : st.Inv l)
    (hlock : st.lock ≠ some .service) : serviceLocked st.service = false :=
  Bool.eq_false_iff.mpr fun h => hlock (hi.serviceLock.mp h)

theorem onRemove_spec {st : PushThreads} {l : List (Addr × Int)} (hi : st.Inv l) {socket : Int}
    {pc : RemovePc} (hpc : RemoveInv st.mem.cells l socket pc) (hret : pc.isReturned = false)
    (goto : RemovePc → PushThreads → PushThreads) :
    ∃ m' pc' l' psc', st.onRemove socket pc goto = goto pc' { st with mem := m', psc := psc' } ∧
      Removing st.mem l socket pc m' l' pc' ∧ l'.map Prod.snd = psc'.clients ∧
      ∀ a ∈ addrs l', a ∈ addrs l := by
  obtain ⟨m', pc', l', hstep, hrem⟩ := removeStep_spec hi.path hpc hret
  refine ⟨m', pc', l', if pc.unlinks then (japiPushsrvRemoveClient st.psc socket).1 else st.psc,
    by simp only [onRemove, hstep, Option.map_some, orFault, Option.getD_some], hrem, ?_, ?_⟩
  · have hlist := hrem.list
    split at hlist
    · rename_i hunlinks
      rw [if_pos hunlinks]
      exact unlinked_entries hlist.1 hi.entries
    · rename_i hunlinks
      rw [if_neg hunlinks, hlist]
      exact hi.entries
  · have hlist := hrem.list
    split at hlist
    · exact unlinked_subset hlist.1
    · rw [hlist]
      exact fun _ ha => ha

theorem Inv.onServer {st st' : PushThreads} {l : List (Addr × Int)} (hi : st.Inv l)
    (hno : ¬ st.Overlap) (h : st.onServer = some st') : ∃ l', st'.Inv l' := by
  obtain ⟨mem, lock, server, service, psc, fault⟩ := st
  -- the server thread holds the lock, or takes it
  have hlocked : serverLocked server = true → lock = some .server := hi.serverLock.mp
  have hservice : lock ≠ some .service → serviceLocked service = false := hi.service_unlocked
  cases server with
  | idle => cases h
  | addLock client socket =>
      obtain ⟨hfree, heq⟩ := Option.ite_none_right_eq_some.mp h
      cases heq
      obtain rfl : lock = none := hfree
      exact ⟨l, Inv.of_unlocked hi.fault hi.path hi.entries (by simp [serverLocked]) (by simp)
        (hservice (by simp)) hi.server⟩
  | addSocket client socket =>
      obtain rfl := hlocked rfl
      obtain ⟨hnot, hsome⟩ := hi.server
      obtain ⟨c, hc⟩ := Option.isSome_iff_exists.mp hsome
      have hc' : mem.cells client = some c := hc
      simp only [PushThreads.onServer, hc', Option.map_some, orFault, Option.getD_some,
        Option.some.injEq] at h
      cases h
      refine ⟨l, Inv.of_unlocked hi.fault (hi.path.update hnot _) hi.entries
        (by simp [serverLocked]) (by simp) (hservice (by simp)) ⟨hnot, c.next, ?_⟩⟩
      exact Function.update_self _ _ _
  | addNext client socket =>
      obtain rfl := hlocked rfl
      obtain ⟨hnot, n, hc⟩ := hi.server
      have hc' : mem.cells client = some ⟨socket, n⟩ := hc
      simp only [PushThreads.onServer, ListMem.setNext, Option.bind_some, hc', Option.map_some,
        orFault, Option.getD_some, Option.some.injEq] at h
      cases h
      refine ⟨l, Inv.of_unlocked hi.fault (hi.path.update hnot _) hi.entries
        (by simp [serverLocked]) (by simp) (hservice (by simp)) ⟨hnot, ?_⟩⟩
      exact Function.update_self _ _ _
  | addLink client socket =>
      obtain rfl := hlocked rfl
      obtain ⟨hnot, hc⟩ := hi.server
      cases h
      refine ⟨(client, socket) :: l, Inv.of_unlocked hi.fault (hi.path.push hc) ?_
        (by simp [serverLocked]) (by simp) (hservice (by simp)) trivial⟩
      show socket :: l.map Prod.snd = socket :: psc.clients
      rw [show l.map Prod.snd = psc.clients from hi.entries]
  | addUnlock =>
      obtain rfl := hlocked rfl
      cases h
      exact ⟨l, Inv.of_unlocked hi.fault hi.path hi.entries (by simp [serverLocked]) (by simp)
        (hservice (by simp)) trivial⟩
  | unsubscribe socket pc =>
      cases hret : pc.isReturned with
      | true =>
          simp only [PushThreads.onServer, hret, if_true, Option.some.injEq] at h
          cases h
          exact ⟨l, ⟨hi.fault, hi.path, hi.entries, hi.serverLock, hi.serviceLock, trivial,
            hi.service, by simp [pending]⟩⟩
      | false =>
          have hlock : lock ≠ some .service := fun hlock => hno ⟨hlock, by simp [removing, hret]⟩
          simp only [PushThreads.onServer, hret, Bool.false_eq_true, if_false,
            Option.some.injEq] at h
          obtain ⟨m', pc', l', psc', heq, hrem, hentries, -⟩ := onRemove_spec hi hi.server hret
            fun pc st => { st with server := .unsubscribe socket pc }
          rw [heq] at h
          cases h
          exact ⟨l', Inv.of_unlocked hi.fault hrem.path hentries hi.serverLock hlock
            (hservice hlock) hrem.inv⟩
  | removeLock socket =>
      obtain ⟨hfree, heq⟩ := Option.ite_none_right_eq_some.mp h
      cases heq
      obtain rfl : lock = none := hfree
      exact ⟨l, Inv.of_unlocked hi.fault hi.path hi.entries (by simp [serverLocked]) (by simp)
        (hservice (by simp)) trivial⟩
  | remove socket pc =>
      obtain rfl := hlocked rfl
      cases hret : pc.isReturned with
      | true =>
          simp only [PushThreads.onServer, hret, if_true, Option.some.injEq] at h
          cases h
          exact ⟨l, Inv.of_unlocked hi.fault hi.path hi.entries (by simp [serverLocked]) (by simp)
            (hservice (by simp)) trivial⟩
      | false =>
          simp only [PushThreads.onServer, hret, Bool.false_eq_true, if_false,
            Option.some.injEq] at h
          obtain ⟨m', pc', l', psc', heq, hrem, hentries, -⟩ := onRemove_spec hi hi.server hret
            fun pc st => { st with server := .remove socket pc }
          rw [heq] at h
          cases h
          exact ⟨l', Inv.of_unlocked hi.fault hrem.path hentries (by simp [serverLocked]) (by simp)
            (hservice (by simp)) hrem.inv⟩
  | removeUnlock =>
      obtain rfl := hlocked rfl
      cases h
      exact ⟨l, Inv.of_unlocked hi.fault hi.path hi.entries (by simp [serverLocked]) (by simp)
        (hservice (by simp)) trivial⟩

theorem ServiceInv.removing {m m' : ListMem} {l l' : List (Addr × Int)} {client : Addr}
    {following : Option Addr} {socket : Int} {pc pc' : RemovePc}
    (h : ServiceInv m l (.remove client following socket pc))
    (hrem : Removing m l socket pc m' l' pc') :
    ServiceInv m' l' (.remove client following socket pc') := by
  obtain ⟨-, hfollowing, hadj⟩ := h
  refine ⟨hrem.inv, ?_⟩
  have hlist := hrem.list
  split at hlist
  · rename_i hunlinks
    obtain ⟨hun, hdone'⟩ := hlist
    have hdone : pc.done = false := by
      cases pc <;> first | rfl | cases hunlinks
    exact ⟨(hadj hdone).unlinked hun, fun hno => absurd hdone' (by simp [hno])⟩
  · subst hlist
    refine ⟨hfollowing, fun hno => hadj (Bool.eq_false_iff.mpr ?_)⟩
    intro hdone
    exact absurd (hrem.done hdone) (by simp [hno])

theorem adjacent_of_mem {cells : Cells Int} {p : Option Addr} {l : List (Addr × Int)}
    (hpath : Path cells p l) {client : Addr} (h : client ∈ addrs l) :
    ∃ val following, cells client = some ⟨val, following⟩ ∧ Adjacent l client val following := by
  obtain ⟨val, hval⟩ := mem_addrs.mp h
  obtain ⟨pre, post, rfl⟩ := List.append_of_mem hval
  exact ⟨val, headAddr post, hpath.cell, pre, post, rfl, rfl⟩

theorem Adjacent.cell {cells : Cells Int} {p : Option Addr} {l : List (Addr × Int)}
    (hpath : Path cells p l) {client : Addr} {val : Int} {following : Option Addr}
    (h : Adjacent l client val following) : cells client = some ⟨val, following⟩ := by
  obtain ⟨pre, post, rfl, rfl⟩ := h
  exact hpath.cell

theorem Inv.service_goto {st : PushThreads} {l : List (Addr × Int)} (hi : st.Inv l) {pc : SendPc}
    (hlocked : serviceLocked pc = serviceLocked st.service) (hfreeing : freeing pc = none)
    (hpc : ServiceInv st.mem l pc) : Inv { st with service := pc } l :=
  ⟨hi.fault, hi.path, hi.entries, hi.serverLock, hlocked ▸ hi.serviceLock, hi.server, hpc, by
    simp [hfreeing]⟩

theorem Inv.onService {st st' : PushThreads} {l : List (Addr × Int)} (hi : st.Inv l)
    (hno : ¬ st.Overlap) {ret : Int} (h : st.onService ret = some st') : ∃ l', st'.Inv l' := by
  obtain ⟨mem, lock, server, service, psc, fault⟩ := st
  have hpath : Path mem.cells mem.head l := hi.path
  cases service with
  | idle => cases h
  | test =>
      cases h
      refine ⟨l, hi.service_goto ?_ ?_ ?_⟩
      all_goals
        dsimp only
        split
      all_goals first | rfl | trivial
  | lock =>
      obtain ⟨hfree, heq⟩ := Option.ite_none_right_eq_some.mp h
      cases heq
      obtain rfl : lock = none := hfree
      have hserver : serverLocked server = false :=
        Bool.eq_false_iff.mpr fun hl => by cases hi.serverLock.mp hl
      exact ⟨l, hi.fault, hi.path, hi.entries, by simp [hserver], by simp [serviceLocked],
        hi.server, trivial, by simp [freeing]⟩
  | start =>
      cases h
      refine ⟨l, hi.service_goto rfl rfl ?_⟩
      intro a ha
      rw [show mem.head = headAddr l from hpath.eq_headAddr] at ha
      exact mem_addrs_of_headAddr ha
  | loop client =>
      cases client with
      | none =>
          cases h
          exact ⟨l, hi.service_goto rfl rfl trivial⟩
      | some client =>
          have hmem : client ∈ addrs l := hi.service client rfl
          obtain ⟨val, following, hc, hadj⟩ := adjacent_of_mem hpath hmem
          simp only [PushThreads.onService, hc, Option.map_some, orFault, Option.getD_some,
            Option.some.injEq] at h
          cases h
          exact ⟨l, hi.service_goto rfl rfl ⟨val, hadj⟩⟩
  | write client following =>
      obtain ⟨val, hadj⟩ := hi.service
      simp only [PushThreads.onService, hadj.cell hpath, Option.map_some, orFault,
        Option.getD_some, Option.some.injEq] at h
      cases h
      by_cases hret : ret ≤ 0
      · rw [if_pos hret]
        exact ⟨l, hi.service_goto rfl rfl ⟨val, hadj⟩⟩
      · rw [if_neg hret]
        exact ⟨l, hi.service_goto rfl rfl hadj.mem.2⟩
  | failed client following =>
      obtain ⟨val, hadj⟩ := hi.service
      simp only [PushThreads.onService, hadj.cell hpath, Option.map_some, orFault,
        Option.getD_some, Option.some.injEq] at h
      cases h
      exact ⟨l, hi.service_goto rfl rfl ⟨trivial, hadj.mem.2, fun _ => hadj⟩⟩
  | remove client following socket pc =>
      cases hret : pc.isReturned with
      | true =>
          simp only [PushThreads.onService, hret, if_true, Option.some.injEq] at h
          cases h
          exact ⟨l, hi.service_goto rfl rfl hi.service.2.1⟩
      | false =>
          obtain rfl : lock = some .service := hi.serviceLock.mp rfl
          have hserver : serverLocked server = false :=
            Bool.eq_false_iff.mpr fun hl => by cases hi.serverLock.mp hl
          -- no unsubscription is under way
          have hidle : ∀ socket rpc, server = .unsubscribe socket rpc → rpc.isReturned = true := by
            rintro socket' rpc rfl
            by_contra hrpc
            exact hno ⟨rfl, by simpa [removing] using hrpc⟩
          simp only [PushThreads.onService, hret, Bool.false_eq_true, if_false,
            Option.some.injEq] at h
          obtain ⟨m', pc', l', psc', heq, hrem, hentries, hsub⟩ := onRemove_spec hi hi.service.1
            hret fun pc st => { st with service := .remove client following socket pc }
          rw [heq] at h
          cases h
          refine ⟨l', hi.fault, hrem.path, hentries, by simp [hserver], by simp [serviceLocked],
            hi.server.mono hserver hidle hsub fun a ha hl => hrem.frame a hl ?_,
            hi.service.removing hrem, ?_⟩
          · exact hi.apart a ha
          · intro a ha heq
            exact hi.server.pending_not_mem a ha (hrem.free a heq)
  | unlock =>
      obtain rfl : lock = some .service := hi.serviceLock.mp rfl
      have hserver : serverLocked server = false :=
        Bool.eq_false_iff.mpr fun hl => by cases hi.serverLock.mp hl
      cases h
      exact ⟨l, hi.fault, hi.path, hi.entries, by simp [hserver], by simp [serviceLocked],
        hi.server, trivial, by simp [freeing]⟩

theorem Inv.malloc {st : PushThreads} {l : List (Addr × Int)} (hi : st.Inv l)
    (hidle : st.server = .idle) {client : Addr} (hfresh : st.mem.cells client = none)
    (c : Cell Int) (socket : Int) :
    Inv { st with
      mem := { st.mem with cells := Function.update st.mem.cells client (some c) }
      server := .addLock client socket } l := by
  have hnot : client ∉ addrs l := by
    intro hmem
    obtain ⟨v, n, hcell⟩ := hi.path.cell_of_mem hmem
    rw [hfresh] at hcell
    cases hcell
  have hcells : ∀ a, (st.mem.cells a).isSome →
      (Function.update st.mem.cells client (some c) a).isSome := by
    intro a ha
    by_cases hne : a = client
    · rw [hne, Function.update_self]
      rfl
    · rw [Function.update_of_ne hne]
      exact ha
  have hserver : serverLocked st.server = false := by rw [hidle]; rfl
  have hlock : st.lock ≠ some .server := fun h => by simp [hi.serverLock.mpr h] at hserver
  refine ⟨hi.fault, hi.path.update hnot _, hi.entries, by simp [serverLocked, hlock],
    hi.serviceLock, ⟨hnot, by simp⟩, ?_, ?_⟩
  · have hservice := hi.service
    cases hpc : st.service with
    | remove client' following socket' pc =>
        rw [hpc] at hservice
        exact ⟨RemoveInv.mono hservice.1 hcells, hservice.2⟩
    | _ =>
        rw [hpc] at hservice
        exact hservice
  · intro a ha heq
    cases ha
    -- the node that is being freed is in use
    have hservice := hi.service
    cases hpc : st.service with
    | remove client' following socket' pc =>
        simp only [hpc, freeing] at heq
        cases pc with
        | free client'' =>
            cases heq
            rw [hpc] at hservice
            have hsome := hservice.1.2
            rw [hfresh] at hsome
            cases hsome
        | _ => cases heq
    | _ => simp [hpc, freeing] at heq

theorem Inv.server_goto {st : PushThreads} {l : List (Addr × Int)} (hi : st.Inv l)
    {pc : ServerPc} (hlocked : serverLocked pc = serverLocked st.server)
    (hpending : pending pc = none) (hpc : ServerInv st.mem l pc) :
    Inv { st with server := pc } l :=
  ⟨hi.fault, hi.path, hi.entries, hlocked ▸ hi.serverLock, hi.serviceLock, hpc, hi.service, by
    simp [hpending]⟩

theorem Inv.step {st st' : PushThreads} {e : ThreadEvent} {l : List (Addr × Int)} (hi : st.Inv l)
    (hno : ¬ st.Overlap) (h : st.step e = some st') : ∃ l', st'.Inv l' := by
  obtain ⟨mem, lock, server, service, psc, fault⟩ := st
  obtain rfl : fault = false := hi.fault
  simp only [PushThreads.step, Bool.false_eq_true, if_false] at h
  split at h
  · cases h
    exact ⟨l, hi⟩
  · obtain ⟨hfresh, heq⟩ := Option.ite_none_right_eq_some.mp h
    cases heq
    exact ⟨l, hi.malloc rfl hfresh _ _⟩
  · cases h
    exact ⟨l, hi.server_goto rfl rfl trivial⟩
  · cases h
    exact ⟨l, hi.server_goto rfl rfl trivial⟩
  · exact hi.onServer hno h
  · cases h
    exact ⟨l, @Inv.service_goto _ _ hi .test rfl rfl trivial⟩
  · exact hi.onService hno h
  · cases h

theorem inv_start (psc : JapiPushsrvContext) : (start psc).Inv [] :=
  ⟨rfl, rfl, rfl, by simp [start, serverLocked], by simp [start, serviceLocked], trivial, trivial,
    by simp [start, pending]⟩

/-! ## Runs -/

/-- **No update is lost and no node `japi_pushsrv_sendmsg` holds is freed** in a
run in which no step is taken while an unsubscription removes a client and the
thread of the service holds the lock. -/
theorem run_linked (psc : JapiPushsrvContext) {es : List ThreadEvent} {st : PushThreads}
    (hmeets : Meets step (fun st _ => ¬ st.Overlap) (start psc) es)
    (hrun : run step (start psc) es = some st) : st.Safe := by
  have hstep : ∀ {s e s'}, (∃ l, Inv s l) → ¬ Overlap s → step s e = some s' → ∃ l, Inv s' l := by
    rintro s e s' ⟨l, hi⟩ hno h
    exact hi.step hno h
  obtain ⟨l, hi⟩ := run_invariant_of_meets (fun st _ => ¬ Overlap st) hstep ⟨[], inv_start psc⟩
    hmeets hrun
  exact hi.safe

/-- A service nobody has subscribed to. -/
def temperature : JapiPushsrvContext := ⟨0, CStr.lit "temperature", []⟩

/-- A client subscribes. -/
def subscribing (socket : Int) (client : Addr) : List ThreadEvent :=
  .subscribe socket (some (client, ⟨0, none⟩)) :: List.replicate 5 .server

/-- Clients 5 and 6 are subscribed.  `japi_pushsrv_sendmsg` is in its loop when 7
subscribes, and removes 5, to which it could not write. -/
def contended : List ThreadEvent :=
  subscribing 5 1 ++ subscribing 6 2 ++ [.sendmsg] ++ List.replicate 4 (.service 1) ++
    [.subscribe 7 (some (3, ⟨0, none⟩))] ++ List.replicate 2 (.service 1) ++
    List.replicate 11 (.service (-1))

/-- It ends and 7 is linked; then 6 unsubscribes. -/
def resolved : List ThreadEvent :=
  List.replicate 4 (.service (-1)) ++ List.replicate 5 .server ++ [.unsubscribe 6] ++
    List.replicate 11 .server

theorem run_linked_subscribe :
    (∃ st, run step (start temperature) contended = some st ∧ st.lock = some .service ∧
        st.server = .addLock 3 7 ∧ st.psc.clients = [6] ∧ st.Safe) ∧
      ∃ st, run step (start temperature) (contended ++ resolved) = some st ∧ st.lock = none ∧
        st.psc.clients = [7] ∧ st.Safe := by
  have hmeets : Meets step (fun st _ => ¬ st.Overlap) (start temperature)
      (contended ++ resolved) := by decide +kernel
  constructor
  · obtain ⟨st, hrun, hlock, hserver, hclients⟩ : ∃ st,
        run step (start temperature) contended = some st ∧ st.lock = some .service ∧
          st.server = .addLock 3 7 ∧ st.psc.clients = [6] := ⟨_, rfl, rfl, rfl, rfl⟩
    exact ⟨st, hrun, hlock, hserver, hclients, run_linked temperature hmeets.left hrun⟩
  · obtain ⟨st, hrun, hlock, hclients⟩ : ∃ st,
        run step (start temperature) (contended ++ resolved) = some st ∧ st.lock = none ∧
          st.psc.clients = [7] := ⟨_, rfl, rfl, rfl⟩
    exact ⟨st, hrun, hlock, hclients, run_linked temperature hmeets hrun⟩

/-- Clients 5 and 6 are subscribed; `japi_pushsrv_sendmsg` is at the node of 6 and
has saved that of 5, when 5 unsubscribes. -/
def overlapping : List ThreadEvent :=
  subscribing 5 1 ++ subscribing 6 2 ++ [.sendmsg] ++ List.replicate 4 (.service 1) ++
    [.unsubscribe 5] ++ List.replicate 10 .server

/-- The saved node is freed while it is held, and then read. -/
theorem overlapping_freed :
    (∃ st, run step (start temperature) overlapping = some st ∧
        st.service = .write 2 (some 1) ∧ st.mem.cells 1 = none ∧ ¬ st.Safe) ∧
      ∃ st, run step (start temperature) (overlapping ++ [.service 1, .service 1]) = some st ∧
        st.fault = true := by
  refine ⟨⟨_, rfl, rfl, rfl, ?_⟩, _, rfl, rfl⟩
  intro hsafe
  obtain ⟨l, hpath, -, hheld⟩ := hsafe.list
  obtain ⟨v, n, hcell⟩ := hpath.cell_of_mem (hheld 1 (by decide))
  cases hcell

end PushThreads

end Libjapi
