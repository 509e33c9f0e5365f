/-
# `Libjapi.PushSerial` — the two threads, one operation after the other

The server thread and the thread of a push service, as `Libjapi.PushThreads` has
them, access by access and in any order.  What is seen of them are the clients
that are linked and unlinked by the server thread, the calls of `write_n` and
what `japi_pushsrv_sendmsg` returns:

    it is what the same operations show when each of them is performed at one
    moment, on the list the one before it left                    `run_serial`

as long as no unsubscription removes a client while the other thread holds the
lock.  They are the operations each thread has begun, in the order in which it began
them, but for one that is under way and has had no effect yet.  A call of
`japi_pushsrv_sendmsg` that is under way has shown the first part of its calls of
`write_n`.

`psc->clients == NULL` is tested without the lock, and `japi_pushsrv_sendmsg` that
returns there is one that finds no client.
-/
import Libjapi.PushThreads

namespace Libjapi

open HeapList

/-! ## What is seen -/

/-- What is seen of the two threads: a client was linked; the server thread has decided
what `japi_pushsrv_remove_client` returns; `write_n` was called and returned;
`japi_pushsrv_sendmsg` returns. -/
inductive Seen where
  | added (socket : Int)
  | removed (socket ret : Int)
  | attempt (socket ret : Int)
  | sent (success : Int)
  deriving DecidableEq

/-- The operations on the list of a service. -/
inductive PushOp where
  | add (socket : Int)
  | remove (socket : Int)
  | send (writeN : Nat → Int)

/-- The calls of `write_n`, from the `k`-th on. -/
def attempts (writeN : Nat → Int) : Nat → List Int → List Seen
  | _, [] => []
  | k, socket :: sockets => .attempt socket (writeN k) :: attempts writeN (k + 1) sockets

/-- An operation at one moment, and what it shows. -/
def PushOp.perform (psc : JapiPushsrvContext) : PushOp → JapiPushsrvContext × List Seen
  | .add socket => ((japiPushsrvAddClient true psc socket).1, [.added socket])
  | .remove socket =>
      ((japiPushsrvRemoveClient psc socket).1,
        [.removed socket (japiPushsrvRemoveClient psc socket).2])
  | .send writeN =>
      let r := japiPushsrvSendmsg writeN psc
      (r.1, attempts writeN 0 r.2.2 ++ [.sent r.2.1])

/-- What `japi_pushsrv_remove_client` will return, at the access that decides it. -/
def RemovePc.decides : RemovePc → Option Int
  | .headWrite _ _ | .lastWrite _ _ | .innerWrite _ _ _ => some 0
  | .test _ none => some (-1)
  | _ => none

/-! ## What was begun -/

/-- Which operation it is. -/
inductive OpName where
  | add (socket : Int)
  | remove (socket : Int)
  | send
  deriving DecidableEq

def PushOp.name : PushOp → OpName
  | .add socket => .add socket
  | .remove socket => .remove socket
  | .send _ => .send

/-- The thread that performs it. -/
def OpName.thread : OpName → Thread
  | .add _ | .remove _ => .server
  | .send => .service

/-- The operation a step begins.  A subscription for which `malloc` fails has no effect. -/
def ThreadEvent.begins : ThreadEvent → Option OpName
  | .subscribe socket (some _) => some (.add socket)
  | .unsubscribe socket | .disconnect socket => some (.remove socket)
  | .sendmsg => some .send
  | .subscribe _ none | .server | .service _ => none

/-- The operations of a thread, in their order. -/
def ofThread (thread : Thread) (ops : List OpName) : List OpName :=
  ops.filter (·.thread = thread)

/-- What the server thread has begun and what has had no effect yet. -/
def ServerPc.underWay : ServerPc → List OpName
  | .addLock _ socket | .addSocket _ socket | .addNext _ socket | .addLink _ socket => [.add socket]
  | .removeLock socket => [.remove socket]
  | .unsubscribe socket pc | .remove socket pc => if pc.done then [] else [.remove socket]
  | .idle | .addUnlock | .removeUnlock => []

/-- A call of `japi_pushsrv_sendmsg` that has not returned. -/
def SendPc.underWay : SendPc → List OpName
  | .idle => []
  | _ => [.send]

/-- What a thread has begun and what has had no effect yet. -/
def PushThreads.underWay (st : PushThreads) : Thread → List OpName
  | .server => st.server.underWay
  | .service => st.service.underWay

/-- The operation that had its effect where it is seen. -/
def Seen.name : Seen → Option OpName
  | .added socket => some (.add socket)
  | .removed socket _ => some (.remove socket)
  | .sent _ => some .send
  | .attempt _ _ => none

@[simp] theorem ofThread_append (thread : Thread) (ops ops' : List OpName) :
    ofThread thread (ops ++ ops') = ofThread thread ops ++ ofThread thread ops' :=
  List.filter_append ops ops'

theorem attempts_name (writeN : Nat → Int) :
    ∀ (k : Nat) (sockets : List Int), (attempts writeN k sockets).filterMap Seen.name = []
  | _, [] => rfl
  | k, _ :: sockets => attempts_name writeN (k + 1) sockets

theorem PushOp.perform_name (psc : JapiPushsrvContext) (op : PushOp) :
    (op.perform psc).2.filterMap Seen.name = [op.name] := by
  cases op with
  | add socket | remove socket => rfl
  | send writeN =>
      show (attempts writeN 0 _ ++ [Seen.sent _]).filterMap Seen.name = _
      rw [List.filterMap_append, attempts_name]
      rfl

theorem oneByOne_name (ops : List PushOp) :
    ∀ psc : JapiPushsrvContext,
      (oneByOne PushOp.perform psc ops).2.filterMap Seen.name = ops.map PushOp.name := by
  induction ops with
  | nil => exact fun _ => rfl
  | cons op ops ih =>
      intro psc
      show ((op.perform psc).2 ++ (oneByOne PushOp.perform _ ops).2).filterMap Seen.name = _
      rw [List.filterMap_append, op.perform_name, ih]
      rfl

theorem removeStep_decides {socket : Int} {m m' : ListMem} {pc pc' : RemovePc}
    (h : removeStep socket m pc = some (m', pc')) :
    pc'.done = (pc.done || pc.decides.isSome) := by
  cases pc with
  | test prev client =>
      cases client with
      | none =>
          cases h
          rfl
      | some client =>
          obtain ⟨c, -, heq⟩ := Option.map_eq_some_iff.mp h
          obtain ⟨rfl, rfl⟩ := Prod.mk.inj heq
          split <;> rfl
  | start | headWrite client next =>
      cases h
      rfl
  | last prev client | lastNext prev client | inner prev client =>
      obtain ⟨c, -, heq⟩ := Option.map_eq_some_iff.mp h
      obtain ⟨rfl, rfl⟩ := Prod.mk.inj heq
      split <;> rfl
  | headNext client | advance client | innerNext prev client | free client
  | lastWrite prev client | innerWrite prev client next =>
      obtain ⟨c, -, heq⟩ := Option.map_eq_some_iff.mp h
      obtain ⟨rfl, rfl⟩ := Prod.mk.inj heq
      rfl
  | returned ret => cases h

/-! ## The machine -/

/-- The two threads, and the local variable `success` of `japi_pushsrv_sendmsg`. -/
structure PushSerial where
  threads : PushThreads
  success : Int

namespace PushSerial

open PushThreads (Inv Overlap serverLocked serviceLocked removing)

/-- Before the first operation. -/
def start (psc : JapiPushsrvContext) : PushSerial := ⟨PushThreads.start psc, 0⟩

/-- `success = 0` is behind the test for a client, `success++` where `write_n` succeeded. -/
def successAfter (st : PushSerial) : ThreadEvent → Int
  | .service ret =>
      match st.threads.service with
      | .test => 0
      | .write _ _ => if ret ≤ 0 then st.success else st.success + 1
      | _ => st.success
  | _ => st.success

def step (st : PushSerial) (e : ThreadEvent) : Option PushSerial :=
  (st.threads.step e).map fun threads => ⟨threads, st.successAfter e⟩

/-- What a step shows. -/
def seen (st : PushSerial) : ThreadEvent → Option Seen
  | .server =>
      match st.threads.server with
      | .addLink _ socket => some (.added socket)
      | .unsubscribe socket pc | .remove socket pc => pc.decides.map (.removed socket)
      | _ => none
  | .service ret =>
      match st.threads.service with
      | .test => if st.threads.mem.head = none then some (.sent 0) else none
      | .write client _ => (st.threads.mem.cells client).map fun c => .attempt c.val ret
      | .unlock => some (.sent st.success)
      | _ => none
  | _ => none

/-- No unsubscription is removing a client while the thread of the service holds the lock. -/
def Apart (st : PushSerial) (_ : ThreadEvent) : Prop := ¬ st.threads.Overlap

instance (st : PushSerial) (e : ThreadEvent) : Decidable (st.Apart e) :=
  inferInstanceAs (Decidable (¬ _))

/-! ## A call of `japi_pushsrv_sendmsg` that is under way -/

/-- The sockets from a node on. -/
def Behind (l : List (Addr × Int)) (p : Option Addr) (sockets : List Int) : Prop :=
  ∃ pre post, l = pre ++ post ∧ headAddr post = p ∧ sockets = post.map Prod.snd

/-- What is left to do: the sockets to be visited, and the list once a removal that
is under way has unlinked its client. -/
def Left (l : List (Addr × Int)) : SendPc → List Int → List Int → Prop
  | .start, visit, clients => visit = l.map Prod.snd ∧ clients = l.map Prod.snd
  | .loop client, visit, clients => Behind l client visit ∧ clients = l.map Prod.snd
  | .write client following, visit, clients =>
      ∃ pre val post, l = pre ++ (client, val) :: post ∧ headAddr post = following ∧
        visit = val :: post.map Prod.snd ∧ clients = l.map Prod.snd
  | .failed client following, visit, clients =>
      ∃ pre val post, l = pre ++ (client, val) :: post ∧ headAddr post = following ∧
        visit = post.map Prod.snd ∧ clients = (l.map Prod.snd).erase val
  | .remove client following socket pc, visit, clients =>
      if pc.done = true then Behind l following visit ∧ clients = l.map Prod.snd
      else ∃ pre post, l = pre ++ (client, socket) :: post ∧ headAddr post = following ∧
        visit = post.map Prod.snd ∧ clients = (l.map Prod.snd).erase socket
  | .unlock, visit, clients => visit = [] ∧ clients = l.map Prod.snd
  | .idle, _, _ | .test, _, _ | .lock, _, _ => False

/-- `write_n` gives what it has given so far. -/
def Gives (writeN : Nat → Int) (rets : List Int) : Prop := ∀ k ret, rets[k]? = some ret → writeN k = ret

/-- The call was made on `before`, and has shown `cur`: the rest of the loop is left to do. -/
def Sending (before : List Int) (st : PushSerial) (l : List (Addr × Int)) (cur : List Seen) : Prop :=
  ∃ rets visited visit clients, Left l st.threads.service visit clients ∧
    visited.length = rets.length ∧
    ∀ writeN, Gives writeN rets → cur = attempts writeN 0 visited ∧
      let r := sendLoop writeN rets.length visit clients
      sendLoop writeN 0 before before = (r.1, st.success + r.2.1, visited ++ r.2.2)

theorem Gives.of_append {writeN : Nat → Int} {rets : List Int} {ret : Int}
    (h : Gives writeN (rets ++ [ret])) : Gives writeN rets ∧ writeN rets.length = ret := by
  refine ⟨fun k r hk => h k r ?_, h _ _ (by simp)⟩
  have hlt : k < rets.length := (List.getElem?_eq_some_iff.mp hk).1
  rw [List.getElem?_append_left hlt]
  exact hk

theorem gives_getD (rets : List Int) : Gives (fun k => rets.getD k 0) rets := by
  intro k ret hk
  simp [List.getD_eq_getElem?_getD, hk]

theorem attempts_append (writeN : Nat → Int) (more : List Int) :
    ∀ (k : Nat) (sockets : List Int), attempts writeN k (sockets ++ more) =
      attempts writeN k sockets ++ attempts writeN (k + sockets.length) more
  | _, [] => rfl
  | k, socket :: sockets => by
      have hk : k + (socket :: sockets).length = k + 1 + sockets.length := by
        rw [List.length_cons]
        omega
      rw [List.cons_append, attempts, attempts_append writeN more, hk]
      rfl

theorem behind_unlinked {l l' pre post : List (Addr × Int)} {client : Addr} {socket : Int}
    (hl : l = pre ++ (client, socket) :: post) (h : Unlinked socket l l') :
    ∃ pre', l' = pre' ++ post := by
  obtain ⟨pre', x, post', heq, rfl, hpre'⟩ := h
  rw [hl] at heq
  rcases List.append_eq_append_iff.mp heq with ⟨as, rfl, hrest⟩ | ⟨bs, rfl, hrest⟩
  · cases as with
    | nil =>
        obtain ⟨-, rfl⟩ := List.cons.inj hrest
        exact ⟨_, rfl⟩
    | cons e as =>
        -- the client would be in front of the first node with its socket
        obtain ⟨rfl, -⟩ := List.cons.inj hrest
        exact absurd rfl (hpre' (client, socket) (by simp))
  · cases bs with
    | nil =>
        obtain ⟨-, rfl⟩ := List.cons.inj hrest
        exact ⟨_, rfl⟩
    | cons e bs =>
        obtain ⟨-, rfl⟩ := List.cons.inj hrest
        exact ⟨pre' ++ bs ++ [(client, socket)], by simp⟩

/-! ## What holds -/

/-- Either the operations are all done, or they are but for a call of
`japi_pushsrv_sendmsg` that holds the lock. -/
def Serial (psc : JapiPushsrvContext) (shown : List Seen) (st : PushSerial) : Prop :=
  ∃ l ops, st.threads.Inv l ∧ (st.threads.service = .lock → st.success = 0) ∧
    ((serviceLocked st.threads.service = false ∧
        oneByOne PushOp.perform psc ops = (st.threads.psc, shown)) ∨
      ∃ before cur, serviceLocked st.threads.service = true ∧
        (oneByOne PushOp.perform psc ops).1 = before ∧
        shown = (oneByOne PushOp.perform psc ops).2 ++ cur ∧
        st.threads.psc = { before with clients := l.map Prod.snd } ∧
        Sending before.clients st l cur)

theorem oneByOne_done {psc psc₁ psc₂ : JapiPushsrvContext} {ops : List PushOp} {op : PushOp}
    {shown more : List Seen} (h : oneByOne PushOp.perform psc ops = (psc₁, shown))
    (hop : op.perform psc₁ = (psc₂, more)) :
    oneByOne PushOp.perform psc (ops ++ [op]) = (psc₂, shown ++ more) := by
  rw [oneByOne_concat, h, hop]

theorem list_eq {st st' : PushThreads} {l l' : List (Addr × Int)} (hi : st.Inv l) (hi' : st'.Inv l')
    (hhead : st'.mem.head = st.mem.head)
    (hcells : ∀ a ∈ addrs l, st'.mem.cells a = st.mem.cells a) : l' = l := by
  have hpath := hi'.path
  rw [hhead] at hpath
  exact hpath.unique (hi.path.frame hcells)

theorem list_eq_of_mem {st st' : PushThreads} {l l' : List (Addr × Int)} (hi : st.Inv l)
    (hi' : st'.Inv l') (hmem : st'.mem = st.mem) : l' = l :=
  list_eq hi hi' (congrArg ListMem.head hmem) fun a _ => congrArg (ListMem.cells · a) hmem

theorem onRemove_perform {st : PushThreads} {l : List (Addr × Int)} (hi : st.Inv l) {socket : Int}
    {pc : RemovePc} (hpc : RemoveInv st.mem.cells l socket pc) (hret : pc.isReturned = false)
    (goto : RemovePc → PushThreads → PushThreads) :
    ∃ m' pc' psc' l', st.onRemove socket pc goto = goto pc' { st with mem := m', psc := psc' } ∧
      removeStep socket st.mem pc = some (m', pc') ∧ Removing st.mem l socket pc m' l' pc' ∧
      l'.map Prod.snd = psc'.clients ∧
      (pc.unlinks = true → psc' = (japiPushsrvRemoveClient st.psc socket).1) ∧
      (pc.unlinks = false → psc' = st.psc) ∧
      ∀ ret, pc.decides = some ret → (psc', ret) = japiPushsrvRemoveClient st.psc socket := by
  obtain ⟨m', pc', l', hstep, hrem⟩ := removeStep_spec hi.path hpc hret
  have hlist := hrem.list
  refine ⟨m', pc', if pc.unlinks then (japiPushsrvRemoveClient st.psc socket).1 else st.psc, l',
    by simp only [PushThreads.onRemove, hstep, Option.map_some, PushThreads.orFault,
      Option.getD_some], hstep, hrem, ?_, fun h => if_pos h, ?_, ?_⟩
  · split at hlist
    · rename_i hunlinks
      rw [if_pos hunlinks]
      exact PushThreads.unlinked_entries hlist.1 hi.entries
    · rename_i hunlinks
      rw [if_neg hunlinks, hlist]
      exact hi.entries
  · intro h
    simp [h]
  · intro ret hdecides
    have hunlinked : pc.unlinks = true → ret = 0 →
        ((japiPushsrvRemoveClient st.psc socket).1, ret) =
          japiPushsrvRemoveClient st.psc socket := by
      intro hunlinks hzero
      rw [if_pos hunlinks] at hlist
      obtain ⟨⟨pre, client, post, rfl, -, -⟩, -⟩ := hlist
      have hmem : socket ∈ st.psc.clients := by
        rw [← hi.entries]
        simp
      rw [japiPushsrvRemoveClient_eq, if_pos hmem, hzero]
    cases pc with
    | headWrite client next | lastWrite prev client | innerWrite prev client next =>
        cases hdecides
        exact hunlinked rfl rfl
    | test prev client =>
        cases client with
        | some client => cases hdecides
        | none =>
            cases hdecides
            have hnot : socket ∉ st.psc.clients := by
              rw [← hi.entries]
              intro hmem
              obtain ⟨e, he, heq⟩ := List.mem_map.mp hmem
              exact hpc e he heq
            rw [japiPushsrvRemoveClient_eq, if_neg hnot, List.erase_of_not_mem hnot]
            rfl
    | _ => cases hdecides

/-! ## Steps of the server thread -/

/-- A step of the server thread, of its own or the start of an operation. -/
def OfServer : ThreadEvent → Prop
  | .subscribe _ _ | .unsubscribe _ | .disconnect _ | .server => True
  | .sendmsg | .service _ => False

theorem seen_remove {st : PushSerial} {l : List (Addr × Int)} (hi : st.threads.Inv l)
    {psc : JapiPushsrvContext} {ops : List PushOp} {shown : List Seen}
    (hops : oneByOne PushOp.perform psc ops = (st.threads.psc, shown)) {socket : Int} {pc : RemovePc}
    (hpc : RemoveInv st.threads.mem.cells l socket pc) (hret : pc.isReturned = false)
    (goto : RemovePc → PushThreads → PushThreads)
    (hgoto : ∀ pc st, (goto pc st).service = st.service ∧ (goto pc st).psc = st.psc) :
    (st.threads.onRemove socket pc goto).service = st.threads.service ∧
      ∃ ops', oneByOne PushOp.perform psc ops' = ((st.threads.onRemove socket pc goto).psc,
        shown ++ (pc.decides.map (Seen.removed socket)).toList) := by
  obtain ⟨m', pc', psc', l', heq, -, -, -, -, hkept, hdecides⟩ := onRemove_perform hi hpc hret goto
  rw [heq, (hgoto _ _).1, (hgoto _ _).2]
  refine ⟨rfl, ?_⟩
  cases hdec : pc.decides with
  | none =>
      have hunlinks : pc.unlinks = false := by
        cases pc <;> first | rfl | cases hdec
      refine ⟨ops, ?_⟩
      rw [hops, Option.map_none, Option.toList_none, List.append_nil, hkept hunlinks]
  | some ret =>
      have hremoved := hdecides ret hdec
      refine ⟨ops ++ [.remove socket], oneByOne_done hops ?_⟩
      rw [PushOp.perform, ← hremoved]
      rfl

/-- **While the lock is free for it**, a step of the server thread performs an operation,
or shows nothing. -/
theorem server_done {st : PushSerial} {threads : PushThreads} {l : List (Addr × Int)}
    (hi : st.threads.Inv l) {psc : JapiPushsrvContext} {ops : List PushOp} {shown : List Seen}
    (hops : oneByOne PushOp.perform psc ops = (st.threads.psc, shown)) {e : ThreadEvent}
    (he : OfServer e) (h : st.threads.step e = some threads) :
    threads.service = st.threads.service ∧
      ∃ ops', oneByOne PushOp.perform psc ops' = (threads.psc, shown ++ (st.seen e).toList) := by
  obtain ⟨⟨mem, lock, server, service, psc₁, fault⟩, success⟩ := st
  obtain rfl : fault = false := hi.fault
  have hquiet : ∀ {shown' : List Seen}, shown' = [] →
      ∃ ops', oneByOne PushOp.perform psc ops' = (psc₁, shown ++ shown') := by
    rintro _ rfl
    exact ⟨ops, by rw [hops, List.append_nil]⟩
  simp only [PushThreads.step, Bool.false_eq_true, if_false] at h
  split at h
  · cases h
    exact ⟨rfl, hquiet rfl⟩
  · obtain ⟨-, heq⟩ := Option.ite_none_right_eq_some.mp h
    cases heq
    exact ⟨rfl, hquiet rfl⟩
  · cases h
    exact ⟨rfl, hquiet rfl⟩
  · cases h
    exact ⟨rfl, hquiet rfl⟩
  · cases server with
    | idle => cases h
    | addLock client socket =>
        obtain ⟨-, heq⟩ := Option.ite_none_right_eq_some.mp h
        cases heq
        exact ⟨rfl, hquiet rfl⟩
    | addSocket client socket =>
        obtain ⟨-, hsome⟩ := hi.server
        obtain ⟨c, hc⟩ := Option.isSome_iff_exists.mp hsome
        have hc' : mem.cells client = some c := hc
        simp only [PushThreads.onServer, hc', Option.map_some, PushThreads.orFault,
          Option.getD_some, Option.some.injEq] at h
        cases h
        exact ⟨rfl, hquiet rfl⟩
    | addNext client socket =>
        obtain ⟨-, n, hc⟩ := hi.server
        have hc' : mem.cells client = some ⟨socket, n⟩ := hc
        simp only [PushThreads.onServer, ListMem.setNext, Option.bind_some, hc', Option.map_some,
          PushThreads.orFault, Option.getD_some, Option.some.injEq] at h
        cases h
        exact ⟨rfl, hquiet rfl⟩
    | addLink client socket =>
        cases h
        exact ⟨rfl, ops ++ [.add socket], oneByOne_done hops rfl⟩
    | addUnlock =>
        cases h
        exact ⟨rfl, hquiet rfl⟩
    | unsubscribe socket pc =>
        cases hret : pc.isReturned with
        | true =>
            simp only [PushThreads.onServer, hret, if_true, Option.some.injEq] at h
            cases h
            refine ⟨rfl, hquiet ?_⟩
            cases pc <;> first | rfl | cases hret
        | false =>
            simp only [PushThreads.onServer, hret, Bool.false_eq_true, if_false,
              Option.some.injEq] at h
            cases h
            exact seen_remove hi hops hi.server hret _ fun _ _ => ⟨rfl, rfl⟩
    | removeLock socket =>
        obtain ⟨-, heq⟩ := Option.ite_none_right_eq_some.mp h
        cases heq
        exact ⟨rfl, hquiet rfl⟩
    | remove socket pc =>
        cases hret : pc.isReturned with
        | true =>
            simp only [PushThreads.onServer, hret, if_true, Option.some.injEq] at h
            cases h
            refine ⟨rfl, hquiet ?_⟩
            cases pc <;> first | rfl | cases hret
        | false =>
            simp only [PushThreads.onServer, hret, Bool.false_eq_true, if_false,
              Option.some.injEq] at h
            cases h
            exact seen_remove hi hops hi.server hret _ fun _ _ => ⟨rfl, rfl⟩
    | removeUnlock =>
        cases h
        exact ⟨rfl, hquiet rfl⟩
  · cases he
  · cases he
  · cases h

/-- **While the thread of the service holds the lock**, the server thread leaves the list alone. -/
theorem server_waits {st : PushSerial} {threads : PushThreads} {l : List (Addr × Int)}
    (hi : st.threads.Inv l) (hno : ¬ st.threads.Overlap)
    (hlocked : serviceLocked st.threads.service = true) {e : ThreadEvent} (he : OfServer e)
    (h : st.threads.step e = some threads) :
    threads.service = st.threads.service ∧ threads.psc = st.threads.psc ∧ st.seen e = none ∧
      threads.mem.head = st.threads.mem.head ∧
      ∀ a ∈ addrs l, threads.mem.cells a = st.threads.mem.cells a := by
  obtain ⟨⟨mem, lock, server, service, psc, fault⟩, success⟩ := st
  obtain rfl : fault = false := hi.fault
  obtain rfl : lock = some .service := hi.serviceLock.mp hlocked
  have hserver : serverLocked server = false :=
    Bool.eq_false_iff.mpr fun hl => by cases hi.serverLock.mp hl
  simp only [PushThreads.step, Bool.false_eq_true, if_false] at h
  split at h
  · cases h
    exact ⟨rfl, rfl, rfl, rfl, fun _ _ => rfl⟩
  · obtain ⟨hfresh, heq⟩ := Option.ite_none_right_eq_some.mp h
    cases heq
    refine ⟨rfl, rfl, rfl, rfl, fun a ha => Function.update_of_ne ?_ _ _⟩
    rintro rfl
    obtain ⟨v, n, hcell⟩ := hi.path.cell_of_mem ha
    cases hfresh.symm.trans hcell
  · cases h
    exact ⟨rfl, rfl, rfl, rfl, fun _ _ => rfl⟩
  · cases h
    exact ⟨rfl, rfl, rfl, rfl, fun _ _ => rfl⟩
  · cases server with
    | idle | addLock client socket | removeLock socket => cases h
    | unsubscribe socket pc =>
        have hret : pc.isReturned = true := by
          by_contra hrun
          exact hno ⟨rfl, by simpa [removing] using hrun⟩
        simp only [PushThreads.onServer, hret, if_true, Option.some.injEq] at h
        cases h
        refine ⟨rfl, rfl, ?_, rfl, fun _ _ => rfl⟩
        cases pc <;> first | rfl | cases hret
    | addSocket client socket | addNext client socket | addLink client socket | addUnlock
    | remove socket pc | removeUnlock => cases hserver
  · cases he
  · cases he
  · cases h

/-! ## Steps of the thread of the service -/

theorem Sending.goes_on {before : List Int} {st st' : PushSerial} {l l' : List (Addr × Int)}
    {cur : List Seen} (h : Sending before st l cur) (hsuccess : st'.success = st.success)
    (hleft : ∀ visit clients, Left l st.threads.service visit clients →
      Left l' st'.threads.service visit clients) : Sending before st' l' cur := by
  obtain ⟨rets, visited, visit, clients, hl, hlen, hloop⟩ := h
  refine ⟨rets, visited, visit, clients, hleft visit clients hl, hlen, ?_⟩
  rw [hsuccess]
  exact hloop

theorem Sending.write {before : List Int} {threads : PushThreads} {success : Int}
    {l : List (Addr × Int)} {cur : List Seen} (h : Sending before ⟨threads, success⟩ l cur)
    {client : Addr} {following : Option Addr} (hpc : threads.service = .write client following)
    (ret : Int) :
    ∃ val, Path threads.mem.cells threads.mem.head l →
      threads.mem.cells client = some ⟨val, following⟩ ∧
      Sending before ⟨{ threads with
          service := if ret ≤ 0 then .failed client following else .loop following },
        if ret ≤ 0 then success else success + 1⟩ l (cur ++ [.attempt val ret]) := by
  obtain ⟨rets, visited, visit, clients, hl, hlen, hloop⟩ := h
  rw [hpc] at hl
  obtain ⟨pre, val, post, hsplit, hfollowing, rfl, rfl⟩ := hl
  refine ⟨val, fun hpath => ⟨?_, rets ++ [ret], visited ++ [val], post.map Prod.snd,
    if ret ≤ 0 then (l.map Prod.snd).erase val else l.map Prod.snd, ?_, by simp [hlen], ?_⟩⟩
  · rw [hsplit] at hpath
    rw [hpath.cell, hfollowing]
  · by_cases hret : ret ≤ 0
    · simp only [if_pos hret]
      exact ⟨pre, val, post, hsplit, hfollowing, rfl, rfl⟩
    · simp only [if_neg hret]
      exact ⟨⟨pre ++ [(client, val)], post, by rw [hsplit, List.append_assoc]; rfl, hfollowing, rfl⟩,
        rfl⟩
  · intro writeN hgives
    obtain ⟨hgives', hnow⟩ := hgives.of_append
    obtain ⟨hcur, hrest⟩ := hloop writeN hgives'
    refine ⟨?_, ?_⟩
    · rw [attempts_append, ← hcur, hlen, Nat.zero_add, ← hnow]
      rfl
    · dsimp only at hrest ⊢
      rw [hrest, sendLoop, hnow, List.length_append, List.length_singleton]
      by_cases hret : ret ≤ 0
      · simp only [if_pos hret, List.append_assoc, List.singleton_append]
      · simp only [if_neg hret, List.append_assoc, List.singleton_append, Prod.mk.injEq, true_and,
          and_true]
        omega

theorem removeStep_done {socket : Int} {m m' : ListMem} {pc pc' : RemovePc}
    (h : removeStep socket m pc = some (m', pc')) (hunlinks : pc.unlinks = false)
    (hdone : pc.done = false) (hdone' : pc'.done = true) : ∃ prev, pc = .test prev none := by
  have hdecides : pc.decides.isSome = true := by
    have hstep := removeStep_decides h
    rw [hdone', hdone, Bool.false_or] at hstep
    exact hstep.symm
  cases pc with
  | test prev client =>
      cases client with
      | none => exact ⟨prev, rfl⟩
      | some client => cases hdecides
  | headWrite client next | lastWrite prev client | innerWrite prev client next => cases hunlinks
  | _ => cases hdecides

theorem Left.remove {m m' : ListMem} {l l' : List (Addr × Int)} {client : Addr}
    {following : Option Addr} {socket : Int} {pc pc' : RemovePc} {visit clients : List Int}
    (h : Left l (.remove client following socket pc) visit clients)
    (hpc : RemoveInv m.cells l socket pc) (hstep : removeStep socket m pc = some (m', pc'))
    (hrem : Removing m l socket pc m' l' pc') :
    Left l' (.remove client following socket pc') visit clients := by
  have hlist := hrem.list
  cases hunlinks : pc.unlinks with
  | true =>
      rw [if_pos hunlinks] at hlist
      obtain ⟨hun, hdone'⟩ := hlist
      have hdone : ¬ pc.done = true := by
        cases pc <;> first | exact Bool.false_ne_true | cases hunlinks
      rw [Left, if_neg hdone] at h
      obtain ⟨pre, post, hsplit, hfollowing, hvisit, hclients⟩ := h
      obtain ⟨pre', hsplit'⟩ := behind_unlinked hsplit hun
      rw [Left, if_pos hdone']
      refine ⟨⟨pre', post, hsplit', hfollowing, hvisit⟩, ?_⟩
      have hentries : l'.map Prod.snd =
          (japiPushsrvRemoveClient ⟨0, CStr.lit "", l.map Prod.snd⟩ socket).1.clients :=
        PushThreads.unlinked_entries hun rfl
      rw [japiPushsrvRemoveClient_eq] at hentries
      exact hclients.trans hentries.symm
  | false =>
      rw [if_neg (by simp [hunlinks])] at hlist
      subst hlist
      rw [Left] at h ⊢
      by_cases hdone : pc.done = true
      · rw [if_pos hdone] at h
        rw [if_pos (hrem.done hdone)]
        exact h
      · rw [if_neg hdone] at h
        have hdone' : ¬ pc'.done = true := by
          intro hdone'
          obtain ⟨prev, rfl⟩ := removeStep_done hstep hunlinks (Bool.not_eq_true _ ▸ hdone) hdone'
          obtain ⟨pre, post, hsplit, -⟩ := h
          exact hpc (client, socket) (by simp [hsplit]) rfl
        rw [if_neg hdone']
        exact h

theorem Sending.done {before : JapiPushsrvContext} {st : PushSerial} {l : List (Addr × Int)}
    {cur : List Seen} (h : Sending before.clients st l cur) (hpc : st.threads.service = .unlock) :
    ∃ writeN, (PushOp.send writeN).perform before =
      ({ before with clients := l.map Prod.snd }, cur ++ [.sent st.success]) := by
  obtain ⟨rets, visited, visit, clients, hl, -, hloop⟩ := h
  rw [hpc] at hl
  obtain ⟨rfl, rfl⟩ := hl
  obtain ⟨hcur, hrest⟩ := hloop _ (gives_getD rets)
  refine ⟨fun k => rets.getD k 0, ?_⟩
  rw [PushOp.perform, japiPushsrvSendmsg, hrest, hcur]
  simp [sendLoop]

theorem Sending.shown {before : JapiPushsrvContext} {st : PushSerial} {l : List (Addr × Int)}
    {cur : List Seen} (h : Sending before.clients st l cur) :
    ∃ writeN, cur <+: attempts writeN 0 (japiPushsrvSendmsg writeN before).2.2 := by
  obtain ⟨rets, visited, visit, clients, -, -, hloop⟩ := h
  obtain ⟨hcur, hrest⟩ := hloop _ (gives_getD rets)
  refine ⟨fun k => rets.getD k 0, ?_⟩
  rw [japiPushsrvSendmsg, hrest, hcur, attempts_append]
  exact List.prefix_append _ _

/-- **A step of the thread of the service outside of its critical section** performs a
call that finds no client, or shows nothing. -/
theorem Serial.enter {psc : JapiPushsrvContext} {shown : List Seen} {st st' : PushSerial}
    {l : List (Addr × Int)} (hi : st.threads.Inv l) (hno : ¬ st.threads.Overlap)
    (hsuccess : st.threads.service = .lock → st.success = 0)
    (hlocked : serviceLocked st.threads.service = false) {ops : List PushOp}
    (hops : oneByOne PushOp.perform psc ops = (st.threads.psc, shown)) {ret : Int}
    (h : step st (.service ret) = some st') :
    Serial psc (shown ++ (st.seen (.service ret)).toList) st' := by
  obtain ⟨threads, hstep, rfl⟩ := Option.map_eq_some_iff.mp h
  obtain ⟨l', hi'⟩ := hi.step hno hstep
  obtain ⟨⟨mem, lock, server, service, psc₁, fault⟩, success⟩ := st
  obtain rfl : fault = false := hi.fault
  have hstep' : PushThreads.onService ⟨mem, lock, server, service, psc₁, false⟩ ret = some threads := by
    simpa only [PushThreads.step, Bool.false_eq_true, if_false] using hstep
  cases service with
  | idle => cases hstep'
  | test =>
      cases hstep'
      by_cases hhead : mem.head = none
      · have hnil : psc₁.clients = [] := by
          have hl : Path mem.cells mem.head l := hi.path
          rw [hhead] at hl
          have hempty : l = [] := hl.unique rfl
          have hentries : l.map Prod.snd = psc₁.clients := hi.entries
          rw [← hentries, hempty]
          rfl
        have hsend : (PushOp.send fun _ => 0).perform psc₁ = (psc₁, [.sent 0]) := by
          obtain ⟨addr, name, clients⟩ := psc₁
          obtain rfl : clients = [] := hnil
          rfl
        refine ⟨l', ops ++ [.send fun _ => 0], hi', ?_, .inl ⟨?_, ?_⟩⟩
        · intro _
          rfl
        · simp only [hhead, if_true]
          rfl
        · simp only [seen, hhead, if_true, Option.toList_some]
          exact oneByOne_done hops hsend
      · refine ⟨l', ops, hi', fun _ => rfl, .inl ⟨?_, ?_⟩⟩
        · simp only [hhead, if_false]
          rfl
        · simp only [seen, hhead, if_false, Option.toList_none, List.append_nil]
          exact hops
  | lock =>
      obtain ⟨hfree, heq⟩ := Option.ite_none_right_eq_some.mp hstep'
      cases heq
      have hl : l' = l := list_eq_of_mem hi hi' rfl
      subst hl
      have hentries : l'.map Prod.snd = psc₁.clients := hi.entries
      have hzero : success = 0 := hsuccess rfl
      have hfirst : oneByOne PushOp.perform psc ops = (psc₁, shown) := hops
      refine ⟨l', ops, hi', (fun h => by cases h),
        .inr ⟨psc₁, [], rfl, congrArg Prod.fst hfirst, ?_, ?_, ?_⟩⟩
      · rw [hfirst]
        simp [seen]
      · show psc₁ = { psc₁ with clients := l'.map Prod.snd }
        rw [hentries]
      · refine ⟨[], [], l'.map Prod.snd, l'.map Prod.snd, ⟨rfl, rfl⟩, rfl, fun writeN _ => ⟨rfl, ?_⟩⟩
        rw [hentries]
        simp [successAfter, hzero]
  | start | loop client | write client following | failed client following
  | remove client following socket pc | unlock => cases hlocked

/-- **A step of the thread of the service in its critical section** goes on with its
call, or ends it. -/
theorem Serial.goes_on {psc before : JapiPushsrvContext} {shown cur : List Seen}
    {st st' : PushSerial} {l : List (Addr × Int)} (hi : st.threads.Inv l)
    (hno : ¬ st.threads.Overlap) (hlocked : serviceLocked st.threads.service = true)
    {ops : List PushOp} (hbefore : (oneByOne PushOp.perform psc ops).1 = before)
    (hshown : shown = (oneByOne PushOp.perform psc ops).2 ++ cur)
    (hpsc : st.threads.psc = { before with clients := l.map Prod.snd })
    (hsending : Sending before.clients st l cur) {ret : Int}
    (h : step st (.service ret) = some st') :
    Serial psc (shown ++ (st.seen (.service ret)).toList) st' := by
  obtain ⟨threads, hstep, rfl⟩ := Option.map_eq_some_iff.mp h
  obtain ⟨l', hi'⟩ := hi.step hno hstep
  obtain ⟨⟨mem, lock, server, service, psc₁, fault⟩, success⟩ := st
  obtain rfl : fault = false := hi.fault
  have hpath : Path mem.cells mem.head l := hi.path
  have hstep' : PushThreads.onService ⟨mem, lock, server, service, psc₁, false⟩ ret = some threads := by
    simpa only [PushThreads.step, Bool.false_eq_true, if_false] using hstep
  -- what a step shows that leaves the list alone and does not return
  have hquiet : ∀ {threads' : PushThreads}, threads'.Inv l' → threads'.mem = mem →
      threads'.psc = psc₁ → threads'.service ≠ .lock → serviceLocked threads'.service = true →
      (∀ visit clients, Left l service visit clients → Left l threads'.service visit clients) →
      Serial psc (shown ++ []) ⟨threads', success⟩ := by
    intro threads' hinv hmem hsame hnot hlocked' hleft
    have hl : l' = l := list_eq_of_mem hi hinv hmem
    subst hl
    refine ⟨l', ops, hinv, fun h => absurd h hnot, .inr ⟨before, cur, hlocked', hbefore, ?_, ?_, ?_⟩⟩
    · rw [List.append_nil, hshown]
    · exact hsame.trans hpsc
    · exact hsending.goes_on rfl hleft
  cases service with
  | idle | test | lock => cases hlocked
  | start =>
      cases hstep'
      refine hquiet hi' rfl rfl (fun h => by cases h) rfl ?_
      rintro visit clients ⟨rfl, rfl⟩
      exact ⟨⟨[], l, rfl, hpath.eq_headAddr.symm, rfl⟩, rfl⟩
  | loop client =>
      cases client with
      | none =>
          cases hstep'
          refine hquiet hi' rfl rfl (fun h => by cases h) rfl ?_
          rintro visit clients ⟨⟨pre, post, -, hnone, rfl⟩, rfl⟩
          cases post with
          | nil => exact ⟨rfl, rfl⟩
          | cons e post => cases hnone
      | some client =>
          have hmem : client ∈ addrs l := hi.service client rfl
          obtain ⟨val, following, hcell, -⟩ := PushThreads.adjacent_of_mem hpath hmem
          simp only [PushThreads.onService, hcell, Option.map_some, PushThreads.orFault,
            Option.getD_some, Option.some.injEq] at hstep'
          cases hstep'
          refine hquiet hi' rfl rfl (fun h => by cases h) rfl ?_
          rintro visit clients ⟨⟨pre, post, hsplit, hhead, rfl⟩, rfl⟩
          cases post with
          | nil => cases hhead
          | cons e post =>
              obtain ⟨client', val'⟩ := e
              cases hhead
              rw [hsplit] at hpath
              cases hpath.cell.symm.trans hcell
              exact ⟨pre, val, post, hsplit, rfl, rfl, rfl⟩
  | write client following =>
      obtain ⟨val, hwrite⟩ := hsending.write rfl ret
      obtain ⟨hcell, hsending'⟩ := hwrite hpath
      have hcell' : mem.cells client = some ⟨val, following⟩ := hcell
      simp only [PushThreads.onService, hcell', Option.map_some, PushThreads.orFault,
        Option.getD_some, Option.some.injEq] at hstep'
      cases hstep'
      have hl : l' = l := list_eq_of_mem hi hi' rfl
      subst hl
      have hseen : (seen ⟨⟨mem, lock, server, .write client following, psc₁, false⟩, success⟩
          (.service ret)).toList = [.attempt val ret] := by
        simp only [seen, hcell', Option.map_some, Option.toList_some]
      rw [hseen]
      refine ⟨l', ops, hi', ?_, .inr ⟨before, cur ++ [Seen.attempt val ret], ?_, hbefore, ?_, hpsc,
        hsending'⟩⟩
      · dsimp only
        split <;> exact fun h => by cases h
      · dsimp only
        split <;> rfl
      · rw [hshown, List.append_assoc]
  | failed client following =>
      obtain ⟨val, hadj⟩ := hi.service
      have hcell : mem.cells client = some ⟨val, following⟩ := hadj.cell hpath
      simp only [PushThreads.onService, hcell, Option.map_some, PushThreads.orFault,
        Option.getD_some, Option.some.injEq] at hstep'
      cases hstep'
      refine hquiet hi' rfl rfl (fun h => by cases h) rfl ?_
      rintro visit clients ⟨pre, val', post, hsplit, hfollowing, rfl, rfl⟩
      rw [hsplit] at hpath
      cases hpath.cell.symm.trans hcell
      exact ⟨pre, post, hsplit, hfollowing, rfl, rfl⟩
  | remove client following socket pc =>
      cases hret : pc.isReturned with
      | true =>
          simp only [PushThreads.onService, hret, if_true, Option.some.injEq] at hstep'
          cases hstep'
          refine hquiet hi' rfl rfl (fun h => by cases h) rfl ?_
          intro visit clients hleft
          have hdone : pc.done = true := by
            cases pc <;> first | rfl | cases hret
          rwa [Left, if_pos hdone] at hleft
      | false =>
          simp only [PushThreads.onService, hret, Bool.false_eq_true, if_false,
            Option.some.injEq] at hstep'
          obtain ⟨m', pc', psc', l₁, heq, hrstep, hrem, hentries, hunlinks, hkept, -⟩ :=
            onRemove_perform hi hi.service.1 hret
              fun pc st => { st with service := .remove client following socket pc }
          rw [heq] at hstep'
          cases hstep'
          have hl : l' = l₁ := hi'.path.unique hrem.path
          subst hl
          have hpsc' : psc' = { before with clients := l'.map Prod.snd } := by
            have hbefore' : psc₁ = { before with clients := l.map Prod.snd } := hpsc
            rw [hentries]
            cases hun : pc.unlinks with
            | true =>
                rw [hunlinks hun, japiPushsrvRemoveClient_eq]
                dsimp only
                rw [hbefore']
            | false =>
                rw [hkept hun]
                dsimp only
                rw [hbefore']
          refine ⟨l', ops, hi', (fun h => by cases h), .inr ⟨before, cur, rfl, hbefore, ?_, hpsc', ?_⟩⟩
          · rw [hshown]
            exact List.append_nil _
          · exact hsending.goes_on rfl fun visit clients hleft =>
              Left.remove hleft hi.service.1 hrstep hrem
  | unlock =>
      cases hstep'
      have hl : l' = l := list_eq_of_mem hi hi' rfl
      subst hl
      obtain ⟨writeN, hsend⟩ := hsending.done rfl
      refine ⟨l', ops ++ [.send writeN], hi', (fun h => by cases h), .inl ⟨rfl, ?_⟩⟩
      rw [oneByOne_concat, hbefore, hsend, hshown, List.append_assoc]
      exact congrArg (·, _) hpsc.symm

/-! ## What is under way -/

theorem orFault_map {α : Type} {st : PushThreads} {o : Option α} {goto : α → PushThreads}
    (hfault : (st.orFault (o.map goto)).fault = false) :
    ∃ c, o = some c ∧ st.orFault (o.map goto) = goto c := by
  cases o with
  | none => cases hfault
  | some c => exact ⟨c, rfl, rfl⟩

theorem removal_underWay {socket : Int} {m m' : ListMem} {pc pc' : RemovePc}
    (h : removeStep socket m pc = some (m', pc')) :
    (if pc.done then [] else [OpName.remove socket]) =
      (pc.decides.map (Seen.removed socket)).toList.filterMap Seen.name ++
        if pc'.done then [] else [OpName.remove socket] := by
  rw [removeStep_decides h]
  cases pc with
  | test prev client => cases client <;> rfl
  | _ => rfl

theorem onServer_underWay {st : PushSerial} {threads : PushThreads} (hok : st.threads.fault = false)
    (h : st.threads.onServer = some threads) (hfault : threads.fault = false) :
    st.threads.server.underWay =
        (st.seen .server).toList.filterMap Seen.name ++ threads.server.underWay ∧
      threads.service = st.threads.service := by
  obtain ⟨⟨mem, lock, server, service, psc, fault⟩, success⟩ := st
  obtain rfl : fault = false := hok
  cases server with
  | idle => cases h
  | addLock client socket | removeLock socket =>
      obtain ⟨-, heq⟩ := Option.ite_none_right_eq_some.mp h
      cases heq
      exact ⟨rfl, rfl⟩
  | addSocket client socket | addNext client socket =>
      cases h
      obtain ⟨c, -, heq⟩ := orFault_map hfault
      rw [heq]
      exact ⟨rfl, rfl⟩
  | addLink client socket | addUnlock | removeUnlock =>
      cases h
      exact ⟨rfl, rfl⟩
  | unsubscribe socket pc | remove socket pc =>
      cases hret : pc.isReturned with
      | true =>
          simp only [PushThreads.onServer, hret, if_true, Option.some.injEq] at h
          cases h
          cases pc <;> first | exact ⟨rfl, rfl⟩ | cases hret
      | false =>
          simp only [PushThreads.onServer, hret, Bool.false_eq_true, if_false,
            Option.some.injEq] at h
          cases h
          obtain ⟨r, hstep, heq⟩ := orFault_map hfault
          rw [PushThreads.onRemove, heq]
          exact ⟨removal_underWay hstep, rfl⟩

theorem onService_underWay {st : PushSerial} {threads : PushThreads} {ret : Int}
    (hok : st.threads.fault = false) (h : st.threads.onService ret = some threads)
    (hfault : threads.fault = false) :
    st.threads.service.underWay =
        (st.seen (.service ret)).toList.filterMap Seen.name ++ threads.service.underWay ∧
      threads.server = st.threads.server := by
  obtain ⟨⟨mem, lock, server, service, psc, fault⟩, success⟩ := st
  obtain rfl : fault = false := hok
  cases service with
  | idle => cases h
  | test =>
      cases h
      refine ⟨?_, rfl⟩
      by_cases hhead : mem.head = none
      · simp only [seen, hhead, if_true]
        rfl
      · simp only [seen, hhead, if_false]
        rfl
  | lock =>
      obtain ⟨-, heq⟩ := Option.ite_none_right_eq_some.mp h
      cases heq
      exact ⟨rfl, rfl⟩
  | start | unlock =>
      cases h
      exact ⟨rfl, rfl⟩
  | loop client =>
      cases client with
      | none =>
          cases h
          exact ⟨rfl, rfl⟩
      | some client =>
          cases h
          obtain ⟨c, -, heq⟩ := orFault_map hfault
          rw [heq]
          exact ⟨rfl, rfl⟩
  | write client following =>
      cases h
      obtain ⟨c, hcell, heq⟩ := orFault_map hfault
      rw [heq]
      have hcell' : mem.cells client = some c := hcell
      refine ⟨?_, rfl⟩
      simp only [seen, hcell', Option.map_some]
      split <;> rfl
  | failed client following =>
      cases h
      obtain ⟨c, -, heq⟩ := orFault_map hfault
      rw [heq]
      exact ⟨rfl, rfl⟩
  | remove client following socket pc =>
      cases hret : pc.isReturned with
      | true =>
          simp only [PushThreads.onService, hret, if_true, Option.some.injEq] at h
          cases h
          exact ⟨rfl, rfl⟩
      | false =>
          simp only [PushThreads.onService, hret, Bool.false_eq_true, if_false,
            Option.some.injEq] at h
          cases h
          obtain ⟨r, -, heq⟩ := orFault_map hfault
          rw [PushThreads.onRemove, heq]
          exact ⟨rfl, rfl⟩

theorem underWay_thread (st : PushThreads) (thread : Thread) :
    ∀ name ∈ st.underWay thread, name.thread = thread := by
  have hmem : ∀ {name name' : OpName}, name ∈ [name'] → name = name' := List.mem_singleton.mp
  intro name hname
  cases thread with
  | server =>
      change name ∈ st.server.underWay at hname
      cases hpc : st.server with
      | addLock client socket | addSocket client socket | addNext client socket
      | addLink client socket | removeLock socket =>
          rw [hpc] at hname
          rw [hmem hname]
          rfl
      | unsubscribe socket pc | remove socket pc =>
          rw [hpc, ServerPc.underWay] at hname
          split at hname
          · cases hname
          · rw [hmem hname]
            rfl
      | idle | addUnlock | removeUnlock =>
          rw [hpc] at hname
          cases hname
  | service =>
      change name ∈ st.service.underWay at hname
      cases hpc : st.service with
      | idle =>
          rw [hpc] at hname
          cases hname
      | _ =>
          rw [hpc] at hname
          rw [hmem hname]
          rfl

/-- **A step begins an operation, has the effect of the one that is under way, or neither.** -/
theorem step_underWay {st st' : PushSerial} {e : ThreadEvent} (h : step st e = some st')
    (hfault : st'.threads.fault = false) (thread : Thread) :
    st.threads.underWay thread ++ ofThread thread e.begins.toList =
      ofThread thread ((st.seen e).toList.filterMap Seen.name) ++ st'.threads.underWay thread := by
  obtain ⟨threads, hstep, rfl⟩ := Option.map_eq_some_iff.mp h
  -- what is seen of the operations of one thread is seen of no other
  have hshown : ∀ (other : Thread) {names rest : List OpName},
      st.threads.underWay other = names ++ rest → ofThread thread names =
        if thread = other then names else [] := by
    intro other names rest heq
    have hall : ∀ name ∈ names, name.thread = other := fun name hname =>
      underWay_thread st.threads other name (heq ▸ List.mem_append_left rest hname)
    split
    · rename_i hsame
      exact List.filter_eq_self.mpr fun name hname => by simp [hall name hname, hsame]
    · rename_i hother
      exact List.filter_eq_nil_iff.mpr fun name hname => by
        simp [hall name hname, Ne.symm hother]
  obtain ⟨⟨mem, lock, server, service, psc, fault⟩, success⟩ := st
  cases fault with
  | true => cases hstep
  | false =>
      simp only [PushThreads.step, Bool.false_eq_true, if_false] at hstep
      split at hstep
      · cases hstep
        exact List.append_nil _
      · obtain ⟨-, heq⟩ := Option.ite_none_right_eq_some.mp hstep
        cases heq
        cases thread with
        | server => rfl
        | service => exact List.append_nil _
      · cases hstep
        cases thread with
        | server => rfl
        | service => exact List.append_nil _
      · cases hstep
        cases thread with
        | server => rfl
        | service => exact List.append_nil _
      · obtain ⟨heq, hservice⟩ :=
          @onServer_underWay ⟨⟨mem, lock, server, service, psc, false⟩, success⟩ threads rfl hstep hfault
        have hnone : ofThread thread (ThreadEvent.begins .server).toList = [] := rfl
        rw [hnone, List.append_nil, hshown .server heq]
        cases thread with
        | server => exact heq
        | service => exact congrArg SendPc.underWay hservice.symm
      · cases hstep
        cases thread with
        | server => exact List.append_nil _
        | service => rfl
      · rename_i ret
        obtain ⟨heq, hserver⟩ := @onService_underWay
          ⟨⟨mem, lock, server, service, psc, false⟩, success⟩ threads ret rfl hstep hfault
        have hnone : ofThread thread (ThreadEvent.begins (.service ret)).toList = [] := rfl
        rw [hnone, List.append_nil, hshown .service heq]
        cases thread with
        | server => exact congrArg ServerPc.underWay hserver.symm
        | service => exact heq
      · cases hstep

theorem fault_of_step {st st' : PushSerial} {e : ThreadEvent} (h : step st e = some st') :
    st.threads.fault = false := by
  obtain ⟨⟨mem, lock, server, service, psc, fault⟩, success⟩ := st
  cases fault with
  | true => cases h
  | false => rfl

theorem run_underWay (thread : Thread) {es : List ThreadEvent} :
    ∀ {st st' : PushSerial}, run step st es = some st' → st'.threads.fault = false →
      st.threads.underWay thread ++ ofThread thread (es.filterMap ThreadEvent.begins) =
        ofThread thread ((observed step seen st es).filterMap Seen.name) ++
          st'.threads.underWay thread := by
  induction es with
  | nil =>
      intro st st' hrun _
      cases hrun
      exact List.append_nil _
  | cons e es ih =>
      intro st st' hrun hfault
      obtain ⟨st₁, h₁, h₂⟩ := run_cons.mp hrun
      have hok : st₁.threads.fault = false :=
        @run_invariant_back _ _ step (fun st => st.threads.fault = false)
          (fun _ h => fault_of_step h) _ _ _ hfault h₂
      have hfirst := step_underWay h₁ hok thread
      have hrest := ih h₂ hfault
      have hbegins : (e :: es).filterMap ThreadEvent.begins =
          e.begins.toList ++ es.filterMap ThreadEvent.begins := by
        rw [List.filterMap_cons]
        cases e.begins <;> rfl
      rw [hbegins, ofThread_append, ← List.append_assoc, hfirst, List.append_assoc, hrest, observed,
        h₁, Option.map_some, Option.getD_some, List.filterMap_append, ofThread_append,
        List.append_assoc]

/-! ## Runs -/

theorem Serial.step {psc : JapiPushsrvContext} {shown : List Seen} {st st' : PushSerial}
    {e : ThreadEvent} (hserial : Serial psc shown st) (hno : st.Apart e)
    (h : PushSerial.step st e = some st') : Serial psc (shown ++ (st.seen e).toList) st' := by
  obtain ⟨l, ops, hi, hsuccess, hdone⟩ := hserial
  have hserver : OfServer e → Serial psc (shown ++ (st.seen e).toList) st' := by
    intro he
    obtain ⟨threads, hstep, rfl⟩ := Option.map_eq_some_iff.mp h
    obtain ⟨l', hi'⟩ := hi.step hno hstep
    have hkept : st.successAfter e = st.success := by
      cases e <;> first | rfl | cases he
    rcases hdone with ⟨hlocked, hops⟩ | ⟨before, cur, hlocked, hbefore, hshown, hpsc, hsending⟩
    · obtain ⟨hservice, ops', hops'⟩ := server_done hi hops he hstep
      refine ⟨l', ops', hi', ?_, .inl ⟨?_, hops'⟩⟩
      · intro hlock
        exact hkept.trans (hsuccess (hservice.symm.trans hlock))
      · exact (congrArg serviceLocked hservice).trans hlocked
    · obtain ⟨hservice, hsame, hseen, hhead, hcells⟩ := server_waits hi hno hlocked he hstep
      have hl : l' = l := list_eq hi hi' hhead hcells
      subst hl
      refine ⟨l', ops, hi', ?_, .inr ⟨before, cur, ?_, hbefore, ?_, hsame.trans hpsc, ?_⟩⟩
      · intro hlock
        exact hkept.trans (hsuccess (hservice.symm.trans hlock))
      · exact (congrArg serviceLocked hservice).trans hlocked
      · rw [hseen, hshown]
        exact List.append_nil _
      · refine hsending.goes_on hkept fun visit clients hleft => ?_
        show Left l' threads.service visit clients
        rw [hservice]
        exact hleft
  cases e with
  | subscribe socket malloc => exact hserver trivial
  | unsubscribe socket => exact hserver trivial
  | disconnect socket => exact hserver trivial
  | server => exact hserver trivial
  | sendmsg =>
      obtain ⟨threads, hstep, rfl⟩ := Option.map_eq_some_iff.mp h
      obtain ⟨l', hi'⟩ := hi.step hno hstep
      obtain ⟨⟨mem, lock, server, service, psc₁, fault⟩, success⟩ := st
      obtain rfl : fault = false := hi.fault
      cases service with
      | idle =>
          rcases hdone with ⟨-, hops⟩ | ⟨-, -, hlocked, -⟩
          · simp only [PushThreads.step, Bool.false_eq_true, if_false, Option.some.injEq] at hstep
            subst hstep
            exact ⟨l', ops, hi', (fun h => by cases h), .inl ⟨rfl, hops.trans (by simp [seen])⟩⟩
          · cases hlocked
      | _ => simp [PushThreads.step] at hstep
  | service ret =>
      rcases hdone with ⟨hlocked, hops⟩ | ⟨before, cur, hlocked, hbefore, hshown, hpsc, hsending⟩
      · exact Serial.enter hi hno hsuccess hlocked hops h
      · exact Serial.goes_on hi hno hlocked hbefore hshown hpsc hsending h

theorem serial_start (psc : JapiPushsrvContext) :
    Serial { psc with clients := [] } [] (start psc) :=
  ⟨[], [], PushThreads.inv_start psc, fun _ => rfl, .inl ⟨rfl, rfl⟩⟩

/-- **Whatever the order of the accesses, what is seen is what the operations show
one after the other**, and the list in memory is the one they leave.  The operations are
those each thread has begun, in that order, up to the one that is under way; a call of
`japi_pushsrv_sendmsg` that holds the lock has shown the first part of its calls of
`write_n`. -/
theorem run_serial (psc : JapiPushsrvContext) {es : List ThreadEvent} {st : PushSerial}
    (hmeets : Meets step Apart (start psc) es) (hrun : run step (start psc) es = some st) :
    ∃ l ops cur, Path st.threads.mem.cells st.threads.mem.head l ∧ st.threads.fault = false ∧
      (∀ thread, ofThread thread (es.filterMap ThreadEvent.begins) =
        ofThread thread (ops.map PushOp.name) ++ st.threads.underWay thread) ∧
      observed step seen (start psc) es =
        (oneByOne PushOp.perform { psc with clients := [] } ops).2 ++ cur ∧
      (st.threads.lock ≠ some .service → cur = [] ∧
        l.map Prod.snd = (oneByOne PushOp.perform { psc with clients := [] } ops).1.clients) ∧
      (st.threads.lock = some .service → ∃ writeN, cur <+: attempts writeN 0
        (japiPushsrvSendmsg writeN
          (oneByOne PushOp.perform { psc with clients := [] } ops).1).2.2) := by
  have hserial := run_observed_of_meets Apart (fun h hno hs => Serial.step h hno hs)
    (serial_start psc) hmeets hrun
  rw [List.nil_append] at hserial
  have hfault : st.threads.fault = false := by
    obtain ⟨l, ops, hi, -⟩ := hserial
    exact hi.fault
  -- the operations that are performed are those that are seen
  have hbegun : ∀ {ops : List PushOp} {cur : List Seen}, cur.filterMap Seen.name = [] →
      observed step seen (start psc) es =
        (oneByOne PushOp.perform { psc with clients := [] } ops).2 ++ cur →
      ∀ thread, ofThread thread (es.filterMap ThreadEvent.begins) =
        ofThread thread (ops.map PushOp.name) ++ st.threads.underWay thread := by
    intro ops cur hcur hshown thread
    have hunder := run_underWay thread hrun hfault
    rw [hshown, List.filterMap_append, hcur, List.append_nil, oneByOne_name] at hunder
    rw [← hunder]
    cases thread <;> rfl
  obtain ⟨l, ops, hi, -, ⟨hlocked, hops⟩ | ⟨before, cur, hlocked, rfl, hshown, -, hsending⟩⟩ := hserial
  · have hshown : observed step seen (start psc) es =
        (oneByOne PushOp.perform { psc with clients := [] } ops).2 ++ [] := by
      rw [hops, List.append_nil]
    refine ⟨l, ops, [], hi.path, hi.fault, hbegun rfl hshown, hshown, fun _ => ⟨rfl, ?_⟩, ?_⟩
    · rw [hops]
      exact hi.entries
    · intro hlock
      cases hlocked.symm.trans (hi.serviceLock.mpr hlock)
  · obtain ⟨writeN, hprefix⟩ := hsending.shown
    refine ⟨l, ops, cur, hi.path, hi.fault, hbegun ?_ hshown, hshown, ?_, fun _ => ⟨writeN, hprefix⟩⟩
    · obtain ⟨more, hmore⟩ := hprefix
      have hnames := attempts_name writeN 0 (japiPushsrvSendmsg writeN
        (oneByOne PushOp.perform { psc with clients := [] } ops).1).2.2
      rw [← hmore, List.filterMap_append] at hnames
      exact (List.append_eq_nil_iff.mp hnames).1
    · exact fun hlock => absurd (hi.serviceLock.mp hlocked) hlock

/-- Clients 5 and 6 are subscribed.  While `japi_pushsrv_sendmsg` sends, 7 subscribes and
waits for the lock; the call for 5 fails; then 6 disconnects. -/
def interleaved : List ThreadEvent :=
  PushThreads.subscribing 5 1 ++ PushThreads.subscribing 6 2 ++
    [.sendmsg, .service 0, .service 0, .service 0, .subscribe 7 (some (3, ⟨0, none⟩))] ++
    List.replicate 2 (.service 1) ++ List.replicate 16 (.service (-1)) ++
    List.replicate 5 .server ++ [.disconnect 6] ++ List.replicate 13 .server

theorem run_serial_interleaved :
    ∃ st l ops, run step (start PushThreads.temperature) interleaved = some st ∧
      Path st.threads.mem.cells st.threads.mem.head l ∧
      l.map Prod.snd = (oneByOne PushOp.perform PushThreads.temperature ops).1.clients ∧
      ofThread .server (ops.map PushOp.name) = [.add 5, .add 6, .add 7, .remove 6] ∧
      ofThread .service (ops.map PushOp.name) = [.send] ∧
      (oneByOne PushOp.perform PushThreads.temperature ops).2 =
        [.added 5, .added 6, .attempt 6 1, .attempt 5 (-1), .sent 1, .added 7, .removed 6 0] := by
  have hend : (run step (start PushThreads.temperature) interleaved).map
      (fun st => (st.threads.lock, st.threads.underWay .server, st.threads.underWay .service)) =
        some (none, [], []) := by decide +kernel
  obtain ⟨st, hrun, heq⟩ := Option.map_eq_some_iff.mp hend
  obtain ⟨hlock, hidle⟩ := Prod.mk.inj heq
  obtain ⟨hserver, hservice⟩ := Prod.mk.inj hidle
  have hmeets : Meets step Apart (start PushThreads.temperature) interleaved := by decide +kernel
  have hseen : observed step seen (start PushThreads.temperature) interleaved =
      [.added 5, .added 6, .attempt 6 1, .attempt 5 (-1), .sent 1, .added 7, .removed 6 0] := by
    decide +kernel
  obtain ⟨l, ops, cur, hpath, -, hbegun, hshown, hdone, -⟩ :=
    run_serial PushThreads.temperature hmeets hrun
  obtain ⟨rfl, hlist⟩ := hdone (by rw [hlock]; exact fun h => by cases h)
  rw [hseen, List.append_nil] at hshown
  refine ⟨st, l, ops, hrun, hpath, hlist, ?_, ?_, hshown.symm⟩
  · have hthread := hbegun .server
    rw [hserver, List.append_nil] at hthread
    rw [← hthread]
    decide +kernel
  · have hthread := hbegun .service
    rw [hservice, List.append_nil] at hthread
    rw [← hthread]
    decide +kernel

end PushSerial

end Libjapi
