/-
# `Libjapi.StartServer` — the ways `japi_start_server` returns

Around the loop of `Libjapi.Server`: the listening socket is opened, `listen()`
is called, the loop is entered, and the call returns

    −1  where `listen()`, `select()` or `accept()` failed, from where it is
     0  where `select()` returned and the shutdown flag was set, behind
        "Clean up": `japi_remove_all_clients` and `close(server_socket)`

and may be made again.  What is to hold on return (`Clean`): no clients, a
counter of zero, no service with the socket of a connection, and every
descriptor closed.

    it holds on every return of a run exactly if the run leaves by the flag
    only, and then each open connection has its client, and no list has a
    socket more often than the clients have it           `run_cleansUp_iff`

The first is so for the connections whose `japi_add_client` did not fail, the
second if no client was removed that was in a list twice.
-/
import Libjapi.ServerClients

namespace Libjapi

/-! ## The machine -/

/-- A call of `japi_start_server`: the loop, whether the listening socket is open,
and whether `listen()` was called. -/
structure StartServer where
  server : Server
  listening : Bool
  listened : Bool

/-- `tcp_start_server` gave a socket, `listen()` returned, or a step of the loop. -/
inductive StartServerEvent where
  | start (serverSocket : Int)
  | listen (ret : Int)
  | loop (e : Event)

namespace StartServer

open Server

/-- The `break` out of the loop, which leads to "Clean up". -/
def breaks (st : Server) : Event → Bool
  | .select .failed => false
  | .select _ => st.ctx.shutdown
  | _ => false

/-- `listen()` returned. -/
def onListen (st : StartServer) (ret : Int) : StartServer :=
  if ret ≠ 0 then { st with server := st.server.goto (.returned (-1)) }
  else { st with listened := true }

/-- A new call begins where the last one returned; no step follows a return. -/
def step (env : CreadlineEnv) (st : StartServer) : StartServerEvent → Option StartServer
  | .start serverSocket => match st.server.pc with
      | .returned _ =>
          if 0 ≤ serverSocket ∧ connOf st.server.conns serverSocket = none then
            some ⟨{ st.server with pc := .select, serverSocket }, true, false⟩
          else none
      | _ => none
  | .listen ret => match st.server.pc with
      | .returned _ => none
      | _ => if st.listened then none else some (st.onListen ret)
  | .loop e => match st.server.pc with
      | .returned _ => none
      | _ =>
          if st.listened then
            (Server.step env st.server e).map fun server =>
              { st with server, listening := st.listening && !breaks st.server e }
          else none

/-- The first call, with its socket opened. -/
def start (ctx : JapiContext) (serverSocket : Int) : StartServer :=
  ⟨Server.start ctx serverSocket, true, false⟩

/-- What is to hold on return. -/
structure Clean (st : StartServer) : Prop where
  clients : st.server.ctx.clients = []
  numClients : st.server.ctx.numClients = 0
  lists : ∀ psc ∈ st.server.ctx.pushServices, ∀ conn ∈ st.server.conns, conn.socket ∉ psc.clients
  listening : st.listening = false
  closed : ∀ conn ∈ st.server.conns, conn.isOpen = false

/-- If the call has returned, it has cleaned up. -/
def Good (st : StartServer) : Prop := ∀ r, st.server.pc = .returned r → st.Clean

/-- What the removal of all clients needs: each open connection has its client, and
a socket is in a list at most as often as it is a client's. -/
structure Removable (st : Server) : Prop where
  owned : ∀ conn ∈ st.conns, conn.isOpen = true → conn.socket ∈ st.ctx.sockets
  lists : ∀ psc ∈ st.ctx.pushServices, ∀ conn ∈ st.conns,
    psc.clients.count conn.socket ≤ st.ctx.sockets.count conn.socket

instance (st : Server) : Decidable (Removable st) :=
  decidable_of_iff
    ((∀ conn ∈ st.conns, conn.isOpen = true → conn.socket ∈ st.ctx.sockets) ∧
      ∀ psc ∈ st.ctx.pushServices, ∀ conn ∈ st.conns,
        psc.clients.count conn.socket ≤ st.ctx.sockets.count conn.socket)
    ⟨fun h => ⟨h.1, h.2⟩, fun h => ⟨h.owned, h.lists⟩⟩

/-- The condition on a step: nothing fails, and all can be removed when the shutdown
flag is seen. -/
def Leaves (st : StartServer) : StartServerEvent → Prop
  | .listen ret => ret = 0
  | .loop (.select .failed) | .loop .acceptFailed => False
  | .loop (.select _) => st.server.ctx.shutdown = true → Removable st.server
  | _ => True

instance (st : StartServer) (e : StartServerEvent) : Decidable (st.Leaves e) :=
  match e with
  | .listen ret => inferInstanceAs (Decidable (ret = 0))
  | .loop (.select .failed) | .loop .acceptFailed => .isFalse not_false
  | .loop (.select .timeout) | .loop (.select (.ready ..)) =>
      inferInstanceAs (Decidable (st.server.ctx.shutdown = true → Removable st.server))
  | .start _ | .loop .visit | .loop .read | .loop (.process _) | .loop (.write _) | .loop .noAccept
  | .loop (.accept ..) | .loop (.outside _) => .isTrue trivial

/-! ## The counter -/

/-- `num_clients` is the length of the list, in 16 bits. -/
def Counts (st : Server) : Prop := st.ctx.numClients = UInt16.ofNat st.ctx.clients.length

theorem Counts.removed {st : Server} (hT : st.Tables) (h : Counts st) {pre post : List JapiClient}
    {c : JapiClient} (hl : st.ctx.clients = pre ++ c :: post) :
    Counts (st.removeClient c.socket) := by
  obtain ⟨i, conn, -, -, -, -, heq⟩ := hT.removeClient hl
  unfold Counts at h
  have hlen : (pre ++ c :: post).length = (pre ++ post).length + 1 := by simp [Nat.add_assoc]
  rw [hl, hlen, UInt16.ofNat_add] at h
  rw [heq]
  show st.ctx.numClients - 1 = UInt16.ofNat (pre ++ post).length
  rw [h]
  exact add_sub_cancel_right _ _

theorem Counts.step {env : CreadlineEnv} {st st' : Server} {e : Event} (hS : st.Sound)
    (h : Counts st) (hs : Server.step env st e = some st') : Counts st' := by
  have hT := hS.toTables
  have hread : ∀ {pre post : List JapiClient} {c : JapiClient} (r : Creadline),
      st.ctx.clients = pre ++ c :: post → Counts (st.afterRead c r) := by
    intro pre post c r hl
    unfold Counts at h ⊢
    rw [hT.afterRead_clients hl r]
    simpa [Server.afterRead, hl] using h
  cases hS.stepped hs with
  | shutDown res hpc =>
      obtain ⟨hclients, hnum, -⟩ := hT.removeAllClients
      show st.removeAllClients.ctx.numClients = UInt16.ofNat st.removeAllClients.ctx.clients.length
      unfold Counts at h
      rw [hnum, hclients, h]
      exact sub_self _
  | line hl hpc hret => exact hread _ hl
  | emptyLine hl hpc hret hdst => exact hread _ hl
  | @gone pre c post hl hpc hret =>
      have hremoved := (hread (st.lineOf env c) hl).removed (hT.afterRead hl _)
        (hT.afterRead_clients hl (st.lineOf env c))
      exact hremoved
  | @writeFailed pre c post r ret hl hpc hret =>
      have hT' : (st.record (.written (connOf st.conns c.socket) c.socket r)).Tables :=
        hT.record (by trivial)
      have hC : Counts (st.record (.written (connOf st.conns c.socket) c.socket r)) := h
      exact hC.removed hT' hl
  | admitted sent hpc hfresh hadm =>
      show st.ctx.numClients + 1 = UInt16.ofNat (st.ctx.clients.length + 1)
      unfold Counts at h
      rw [UInt16.ofNat_add, h]
      rfl
  | _ => exact h

/-! ## The returns -/

/-- **"Clean up" cleans up exactly if** all can be removed. -/
theorem clean_iff {st : Server} (hT : st.Tables) (hcounts : Counts st) {s : StartServer}
    (hserver : s.server = st.removeAllClients.goto (.returned 0))
    (hlistening : s.listening = false) : s.Clean ↔ Removable st := by
  obtain ⟨hclients, hnum, hservices, hconns⟩ := hT.removeAllClients
  have hctx : s.server.ctx = st.removeAllClients.ctx := by rw [hserver]; rfl
  have hconns' : s.server.conns = st.removeAllClients.conns := by rw [hserver]; rfl
  constructor
  · intro h
    refine ⟨?_, ?_⟩
    · intro conn hconn hopen
      by_contra hnot
      have hclosed := h.closed conn ?_
      · rw [hopen] at hclosed
        cases hclosed
      · rw [hconns', hconns]
        exact List.mem_map.mpr ⟨conn, hconn, if_neg hnot⟩
    · intro psc hpsc conn hconn
      have hnone := h.lists { psc with clients := psc.clients.diff st.ctx.sockets } ?_
        (if conn.socket ∈ st.ctx.sockets then conn.shut else conn) ?_
      · have hsocket : (if conn.socket ∈ st.ctx.sockets then conn.shut else conn).socket
            = conn.socket := by split <;> rfl
        rw [hsocket] at hnone
        have hzero := List.count_eq_zero.mpr hnone
        rw [List.count_diff] at hzero
        omega
      · rw [hctx, hservices]
        exact List.mem_map.mpr ⟨psc, hpsc, rfl⟩
      · rw [hconns', hconns]
        exact List.mem_map.mpr ⟨conn, hconn, rfl⟩
  · intro h
    refine ⟨hctx ▸ hclients, ?_, ?_, hlistening, ?_⟩
    · rw [hctx, hnum]
      unfold Counts at hcounts
      rw [hcounts]
      exact sub_self _
    · rw [hctx, hservices, hconns', hconns]
      intro psc' hpsc' conn' hconn' hmem
      obtain ⟨psc, hpsc, rfl⟩ := List.mem_map.mp hpsc'
      obtain ⟨conn, hconn, rfl⟩ := List.mem_map.mp hconn'
      have hsocket : (if conn.socket ∈ st.ctx.sockets then conn.shut else conn).socket
          = conn.socket := by split <;> rfl
      rw [hsocket] at hmem
      have hpos := List.count_pos_iff.mpr hmem
      rw [List.count_diff] at hpos
      have hle := h.lists psc hpsc conn hconn
      omega
    · rw [hconns', hconns]
      intro conn' hconn'
      obtain ⟨conn, hconn, rfl⟩ := List.mem_map.mp hconn'
      by_cases hmem : conn.socket ∈ st.ctx.sockets
      · rw [if_pos hmem]
        rfl
      · rw [if_neg hmem]
        by_contra hopen
        exact hmem (h.owned conn hconn (Bool.eq_true_of_not_eq_false hopen))

theorem not_returned {env : CreadlineEnv} {st st' : Server} {e : Event} (h : Stepped env st e st')
    (hselect : ∀ res, e ≠ .select res) (haccept : e ≠ .acceptFailed)
    (hpc : ∀ r, st.pc ≠ .returned r) : ∀ r, st'.pc ≠ .returned r := by
  have hagain : ∀ (c : JapiClient) (f : Option Addr) (r : Int), again c f ≠ .returned r := by
    intro c f r
    unfold again
    split <;> simp
  cases h with
  | outside ctx => exact hpc
  | selectFailed => exact absurd rfl (hselect _)
  | timeout => exact absurd rfl (hselect _)
  | shutDown res => exact absurd rfl (hselect _)
  | ready => exact absurd rfl (hselect _)
  | acceptFailed => exact absurd rfl haccept
  | emptyLine => exact hagain _ _
  | process => exact hagain _ _
  | written => exact hagain _ _
  | _ =>
      intro r heq
      cases heq

theorem step_select {env : CreadlineEnv} {st st' : Server} {res : SelectRes}
    (hs : Server.step env st (.select res) = some st') : st' = st.onSelect res := by
  simp only [Server.step] at hs
  split at hs
  · exact (Option.some.inj hs).symm
  · cases hs

theorem onSelect_shutdown {st : Server} {res : SelectRes} (hres : res ≠ .failed)
    (hflag : st.ctx.shutdown = true) :
    st.onSelect res = st.removeAllClients.goto (.returned 0) ∧ breaks st (.select res) = true := by
  cases res with
  | failed => exact absurd rfl hres
  | timeout => exact ⟨if_pos hflag, hflag⟩
  | ready fds server => exact ⟨if_pos hflag, hflag⟩

theorem onSelect_running {st : Server} {res : SelectRes} (hres : res ≠ .failed)
    (hflag : st.ctx.shutdown = false) (hpc : ∀ r, st.pc ≠ .returned r) :
    (∀ r, (st.onSelect res).pc ≠ .returned r) ∧ breaks st (.select res) = false := by
  have hnot : ¬ st.ctx.shutdown = true := by simp [hflag]
  cases res with
  | failed => exact absurd rfl hres
  | timeout =>
      refine ⟨?_, hflag⟩
      simp only [onSelect, if_neg hnot]
      exact hpc
  | ready fds server =>
      refine ⟨?_, hflag⟩
      simp only [onSelect, if_neg hnot]
      intro r heq
      cases heq

/-! ## The steps -/

/-- A call has not returned. -/
def Running (st : StartServer) : Prop := ∀ r, st.server.pc ≠ .returned r

theorem step_loop {env : CreadlineEnv} {st st' : StartServer} {e : Event}
    (h : step env st (.loop e) = some st') :
    st.Running ∧ Server.step env st.server e = some st'.server ∧
      st'.listening = (st.listening && !breaks st.server e) := by
  simp only [step] at h
  split at h
  · cases h
  · rename_i hpc
    obtain ⟨-, hmap⟩ := Option.ite_none_right_eq_some.mp h
    obtain ⟨server, hserver, rfl⟩ := Option.map_eq_some_iff.mp hmap
    exact ⟨hpc, hserver, rfl⟩

theorem step_listen {env : CreadlineEnv} {st st' : StartServer} {ret : Int}
    (h : step env st (.listen ret) = some st') : st.Running ∧ st' = st.onListen ret := by
  simp only [step] at h
  split at h
  · cases h
  · rename_i hpc
    split at h
    · cases h
    · exact ⟨hpc, (Option.some.inj h).symm⟩

theorem step_start {env : CreadlineEnv} {st st' : StartServer} {serverSocket : Int}
    (h : step env st (.start serverSocket) = some st') :
    st' = ⟨{ st.server with pc := .select, serverSocket }, true, false⟩ := by
  simp only [step] at h
  split at h
  · obtain ⟨-, heq⟩ := Option.ite_none_right_eq_some.mp h
    exact (Option.some.inj heq).symm
  · cases h

/-- What carries `Good` along. -/
structure Inv (st : StartServer) : Prop where
  sound : st.server.Sound
  counts : Counts st.server
  listening : st.Running → st.listening = true
  good : st.Good

theorem Running.good {st : StartServer} (h : st.Running) : st.Good := fun r heq => absurd heq (h r)

theorem not_clean_of_listening {st : StartServer} (h : st.listening = true) : ¬ st.Clean := by
  intro hclean
  rw [hclean.listening] at h
  cases h

theorem Inv.step {env : CreadlineEnv} {st st' : StartServer} {e : StartServerEvent} (hi : st.Inv)
    (hleaves : st.Leaves e) (h : StartServer.step env st e = some st') : st'.Inv := by
  cases e with
  | start serverSocket =>
      rw [step_start h]
      have hrunning : Running ⟨{ st.server with pc := .select, serverSocket }, true, false⟩ :=
        fun r heq => by cases heq
      have hT := hi.sound.toTables
      exact ⟨⟨⟨hT.addrs, hT.sockets, hT.openOnce, hT.connected, hT.traced⟩, trivial⟩, hi.counts,
        fun _ => rfl, hrunning.good⟩
  | listen ret =>
      obtain ⟨hrunning, rfl⟩ := step_listen h
      have hret : ret = 0 := hleaves
      have heq : st.onListen ret = { st with listened := true } :=
        if_neg (not_not.mpr hret)
      have hrunning' : Running { st with listened := true } := hrunning
      rw [heq]
      exact ⟨hi.sound, hi.counts, hi.listening, hrunning'.good⟩
  | loop e =>
      obtain ⟨hrunning, hs, hlistening⟩ := step_loop h
      have hsound := hi.sound.step hs
      have hcounts := hi.counts.step hi.sound hs
      rw [hi.listening hrunning, Bool.true_and] at hlistening
      by_cases hselect : ∃ res, e = .select res
      · obtain ⟨res, rfl⟩ := hselect
        have hserver := step_select hs
        have hres : res ≠ .failed := by
          rintro rfl
          exact hleaves
        cases hflag : st.server.ctx.shutdown with
        | true =>
            obtain ⟨hremoved, hbreaks⟩ := onSelect_shutdown hres hflag
            rw [hbreaks] at hlistening
            have hremovable : Removable st.server := by
              cases res with
              | failed => exact absurd rfl hres
              | timeout => exact hleaves hflag
              | ready fds server => exact hleaves hflag
            have hclean := (clean_iff hi.sound.toTables hi.counts (hserver.trans hremoved)
              hlistening).mpr hremovable
            refine ⟨hsound, hcounts, ?_, fun _ _ => hclean⟩
            intro hrunning'
            exact absurd (by rw [hserver, hremoved]; rfl) (hrunning' 0)
        | false =>
            obtain ⟨hpc, hbreaks⟩ := onSelect_running hres hflag hrunning
            rw [hbreaks] at hlistening
            have hrunning' : st'.Running := by
              rw [Running, hserver]
              exact hpc
            exact ⟨hsound, hcounts, fun _ => hlistening, hrunning'.good⟩
      · have haccept : e ≠ .acceptFailed := by
          rintro rfl
          exact hleaves
        have hrunning' : st'.Running := not_returned (hi.sound.stepped hs)
          (fun res heq => hselect ⟨res, heq⟩) haccept hrunning
        have hbreaks : breaks st.server e = false := by
          cases e with
          | select res => exact absurd ⟨res, rfl⟩ hselect
          | _ => rfl
        rw [hbreaks] at hlistening
        exact ⟨hsound, hcounts, fun _ => hlistening, hrunning'.good⟩

theorem Inv.leaves {env : CreadlineEnv} {st st' : StartServer} {e : StartServerEvent} (hi : st.Inv)
    (h : StartServer.step env st e = some st') (hgood : st'.Good) : st.Leaves e := by
  cases e with
  | start serverSocket => trivial
  | listen ret =>
      obtain ⟨hrunning, rfl⟩ := step_listen h
      by_contra hret
      have heq : st.onListen ret = { st with server := st.server.goto (.returned (-1)) } :=
        if_pos hret
      rw [heq] at hgood
      have hlistening : StartServer.listening { st with
          server := st.server.goto (.returned (-1)) } = true := hi.listening hrunning
      exact not_clean_of_listening hlistening (hgood (-1) rfl)
  | loop e =>
      obtain ⟨hrunning, hs, hlistening⟩ := step_loop h
      rw [hi.listening hrunning, Bool.true_and] at hlistening
      have hflagged : ∀ res, e = .select res → res ≠ .failed → st.server.ctx.shutdown = true →
          Removable st.server := by
        rintro res rfl hres hflag
        obtain ⟨hremoved, hbreaks⟩ := onSelect_shutdown hres hflag
        rw [hbreaks] at hlistening
        have hserver := (step_select hs).trans hremoved
        exact (clean_iff hi.sound.toTables hi.counts hserver hlistening).mp
          (hgood 0 (by rw [hserver]; rfl))
      cases e with
      | select res =>
          cases res with
          | failed =>
              have hpc : st'.server.pc = .returned (-1) := by
                rw [step_select hs]
                rfl
              exact not_clean_of_listening hlistening (hgood (-1) hpc)
          | timeout => exact hflagged .timeout rfl (by simp)
          | ready fds server => exact hflagged (.ready fds server) rfl (by simp)
      | acceptFailed =>
          have hpc : st'.server.pc = .returned (-1) := by
            generalize st'.server = server at hs
            cases hi.sound.stepped hs
            rfl
          exact not_clean_of_listening hlistening (hgood (-1) hpc)
      | _ => trivial

/-! ## Runs -/

theorem inv_start (ctx : JapiContext) (serverSocket : Int) : (start ctx serverSocket).Inv := by
  have hrunning : (start ctx serverSocket).Running := by
    intro r heq
    cases heq
  exact ⟨sound_start ctx serverSocket, rfl, fun _ => rfl, hrunning.good⟩

/-- **Every return of a run is a clean one exactly if** the run leaves by the
shutdown flag only, and when it does, each open connection has its client and no
list has a socket more often than the clients have it. -/
theorem run_cleansUp_iff {env : CreadlineEnv} {ctx : JapiContext} {serverSocket : Int}
    {es : List StartServerEvent} {st : StartServer}
    (hrun : run (step env) (start ctx serverSocket) es = some st) :
    (∀ es₁ es₂ st₁, es = es₁ ++ es₂ →
        run (step env) (start ctx serverSocket) es₁ = some st₁ → st₁.Good) ↔
      Meets (step env) Leaves (start ctx serverSocket) es := by
  exact run_good_iff Inv.good (fun hi hleaves h => Inv.step hi hleaves h)
    (fun hi h hgood => Inv.leaves hi h hgood) (inv_start ctx serverSocket) hrun

/-- A context with one service that has the subscribers `clients`. -/
def oneService (clients : List Int) (shutdown : Bool) : JapiContext :=
  ⟨0, 0, [], [⟨1, CStr.lit "t", clients⟩], [], false, shutdown, true⟩

/-- A client connects and subscribes. -/
def subscribed : List StartServerEvent :=
  [.listen 0, .loop (.select (.ready [] true)), .loop .visit, .loop (.accept 5 [] (some 0)),
    .loop (.outside (oneService [5] false))]

/-- Then the shutdown flag is set. -/
theorem run_cleansUp_iff_shutdown :
    ∃ st, run (step libEnv) (start (oneService [] false) 3) (subscribed ++
        [.loop (.outside (oneService [5] true)), .loop (.select .timeout)]) = some st ∧
      st.server.conns.length = 1 ∧ st.Clean := by
  have hsome : (run (step libEnv) (start (oneService [] false) 3) (subscribed ++
      [.loop (.outside (oneService [5] true)), .loop (.select .timeout)])).map
        (fun st => (st.server.conns.length, match st.server.pc with
          | .returned ret => some ret
          | _ => none)) = some (1, some 0) := by decide +kernel
  obtain ⟨st, hrun, heq⟩ := Option.map_eq_some_iff.mp hsome
  have hmeets : Meets (step libEnv) Leaves (start (oneService [] false) 3) (subscribed ++
      [.loop (.outside (oneService [5] true)), .loop (.select .timeout)]) := by decide +kernel
  have hgood := (run_cleansUp_iff hrun).mpr hmeets _ [] st (by simp) hrun
  refine ⟨st, hrun, congrArg Prod.fst heq, ?_⟩
  have hret := congrArg Prod.snd heq
  dsimp only at hret
  split at hret
  · rename_i ret hpc
    exact hgood ret hpc
  · cases hret

/-- Instead, `accept()` fails: the client, its subscription and the listening socket
stay. -/
theorem acceptFailed_leaves :
    ∃ st, run (step libEnv) (start (oneService [] false) 3) (subscribed ++
        [.loop (.select (.ready [] true)), .loop .visit, .loop .visit, .loop .acceptFailed])
          = some st ∧
      st.server.pc = .returned (-1) ∧ ¬ st.Clean ∧ st.listening = true ∧
      st.server.ctx.sockets = [5] ∧ st.server.ctx.numClients = 1 ∧
      st.server.conns.map Conn.isOpen = [true] ∧
      st.server.ctx.pushServices.map JapiPushsrvContext.clients = [[5]] := by
  exact ⟨_, rfl, rfl, not_clean_of_listening rfl, rfl, rfl, rfl, rfl, rfl⟩

end StartServer

end Libjapi
