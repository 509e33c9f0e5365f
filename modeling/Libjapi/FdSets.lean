/-
# `Libjapi.FdSets` — the descriptors in the sets of `select()`

An `fd_set` has room for the descriptors below `FD_SETSIZE`, and `FD_SET` and
`FD_ISSET` do not check.  The loop passes the server socket and every client's
socket; `accept()` returns the lowest number that is not open, with whatever the
rest of the process has open:

    they are all below `FD_SETSIZE`, and below `nfds`, in every state of a
    run exactly if the server socket is and a number below `FD_SETSIZE`
    is free whenever a client is admitted                          `run_fdSets_iff`
-/
import Libjapi.ServerClients
import Libjapi.ClientCounter

namespace Libjapi

/-- `FD_SETSIZE`. -/
def fdSetSize : Int := 1024

/-- The sockets passed to `FD_SET`, and `nfds`. -/
structure FdSet where
  fds : List Int
  nfds : Int

/-- "Add all file descriptors to set". -/
def addClients : List JapiClient → FdSet → FdSet
  | [], set => set
  | client :: next, set =>
      addClients next ⟨set.fds ++ [client.socket],
        if client.socket ≥ set.nfds then client.socket + 1 else set.nfds⟩

/-- What is passed to `select()`. -/
def Server.fdSet (st : Server) : FdSet :=
  addClients st.ctx.clients ⟨[st.serverSocket], st.serverSocket + 1⟩

/-- The sockets the next step passes to `FD_SET` or `FD_ISSET`. -/
def Server.passed (st : Server) : List Int :=
  match st.pc with
  | .select => st.fdSet.fds
  | .walk (some client) => ((st.clientAt client).map JapiClient.socket).toList
  | .accept => [st.serverSocket]
  | _ => []

/-- The sets are indexed within their size, and `nfds` is above what is in them. -/
structure Server.Indexed (st : Server) : Prop where
  range : ∀ s ∈ st.passed, 0 ≤ s ∧ s < fdSetSize
  nfds : ∀ s ∈ st.fdSet.fds, s < st.fdSet.nfds

theorem addClients_spec :
    ∀ (cs : List JapiClient) (set : FdSet), (∀ s ∈ set.fds, s < set.nfds) →
      (addClients cs set).fds = set.fds ++ cs.map JapiClient.socket ∧
        ∀ s ∈ (addClients cs set).fds, s < (addClients cs set).nfds
  | [], set, hset => ⟨(List.append_nil _).symm, hset⟩
  | client :: next, set, hset => by
      let set' : FdSet := ⟨set.fds ++ [client.socket],
        if client.socket ≥ set.nfds then client.socket + 1 else set.nfds⟩
      have hset' : ∀ s ∈ set'.fds, s < set'.nfds := by
        intro s hs
        show s < if client.socket ≥ set.nfds then client.socket + 1 else set.nfds
        rcases List.mem_append.mp hs with hs | hs
        · have hlt := hset s hs
          split
          · omega
          · exact hlt
        · rw [List.mem_singleton.mp hs]
          split
          · omega
          · omega
      obtain ⟨hfds, hnfds⟩ := addClients_spec next set' hset'
      refine ⟨?_, hnfds⟩
      show (addClients next set').fds = _
      rw [hfds, List.map_cons, List.append_assoc]
      rfl

theorem Server.fdSet_spec (st : Server) :
    st.fdSet.fds = st.serverSocket :: st.ctx.sockets ∧ ∀ s ∈ st.fdSet.fds, s < st.fdSet.nfds := by
  refine addClients_spec st.ctx.clients ⟨[st.serverSocket], st.serverSocket + 1⟩ ?_
  intro s hs
  rw [List.mem_singleton.mp hs]
  exact Int.lt_succ _

/-! ## The descriptors of the process -/

/-- The loop, and the descriptors the process has open besides. -/
structure FdServer where
  server : Server
  others : List Int

namespace FdServer

/-- The number is a descriptor of the process. -/
def IsOpen (st : FdServer) (s : Int) : Prop :=
  s = st.server.serverSocket ∨ connOf st.server.conns s ≠ none ∨ s ∈ st.others

instance (st : FdServer) (s : Int) : Decidable (st.IsOpen s) :=
  inferInstanceAs (Decidable (_ ∨ _))

/-- A step of the loop, or something else of the process opens and closes descriptors. -/
inductive Step where
  | loop (e : Event)
  | opens (others : List Int)

/-- What `accept()` returns is the lowest number that is not open. -/
def Lowest (st : FdServer) : Event → Prop
  | .accept socket _ _ => ¬ st.IsOpen socket ∧ ∀ n < socket.toNat, st.IsOpen n
  | _ => True

instance (st : FdServer) : ∀ e, Decidable (st.Lowest e)
  | .accept _ _ _ => inferInstanceAs (Decidable (_ ∧ _))
  | .select _ | .visit | .read | .process _ | .write _ | .noAccept | .acceptFailed | .outside _ =>
      .isTrue trivial

/-- The next step. -/
def step (env : CreadlineEnv) (st : FdServer) : Step → Option FdServer
  | .loop e =>
      if st.Lowest e then (Server.step env st.server e).map fun server => { st with server } else none
  | .opens others =>
      if ∀ s ∈ others, 0 ≤ s ∧ s ≠ st.server.serverSocket ∧ connOf st.server.conns s = none then
        some { st with others }
      else none

/-- The loop is entered. -/
def start (ctx : JapiContext) (serverSocket : Int) (others : List Int) : FdServer :=
  ⟨Server.start ctx serverSocket, others⟩

/-- The condition on a step: where a client is admitted and gets a node, a number below
`FD_SETSIZE` is not open. -/
def HasRoom (st : FdServer) : Step → Prop
  | .loop (.accept _ _ (some _)) =>
      st.server.ctx.admits = true → ∃ n : Nat, (n : Int) < fdSetSize ∧ ¬ st.IsOpen n
  | _ => True

/-- What every step that meets the condition keeps. -/
structure Inv (st : FdServer) : Prop where
  sound : st.server.Sound
  serverSocket : 0 ≤ st.server.serverSocket ∧ st.server.serverSocket < fdSetSize
  sockets : ∀ s ∈ st.server.ctx.sockets, 0 ≤ s ∧ s < fdSetSize

end FdServer

/-! ## The client list -/

theorem Server.Stepped.sockets {env : CreadlineEnv} {st st' : Server} {e : Event}
    (hT : st.Tables) (h : Stepped env st e st') {s : Int} (hs : s ∈ st'.ctx.sockets) :
    s ∈ st.ctx.sockets ∨ ∃ sent a, e = .accept s sent (some a) ∧ st.ctx.admits = true ∧ 0 ≤ s := by
  have hremoved : ∀ {t : Server} {pre post : List JapiClient} {c : JapiClient}, t.Tables →
      t.ctx.clients = pre ++ c :: post → s ∈ (t.removeClient c.socket).ctx.sockets →
      s ∈ t.ctx.sockets := by
    intro t pre post c hT hl hs
    obtain ⟨i, conn, -, -, -, -, heq⟩ := hT.removeClient hl
    rw [heq] at hs
    obtain ⟨x, hx, rfl⟩ := List.mem_map.mp hs
    exact List.mem_map_of_mem (mem_of_removed hl x hx)
  have hread : ∀ {pre post : List JapiClient} {c : JapiClient} {r : Creadline},
      st.ctx.clients = pre ++ c :: post → s ∈ (st.afterRead c r).ctx.sockets →
      s ∈ st.ctx.sockets := by
    intro pre post c r hl hs
    simp only [JapiContext.sockets, hT.afterRead_clients hl r, hl] at hs ⊢
    simpa using hs
  cases h with
  | shutDown res hpc =>
      have hnil : st.removeAllClients.ctx.clients = [] := hT.removeAllClients.1
      simp only [JapiContext.sockets, Server.goto, hnil, List.map_nil] at hs
      cases hs
  | line hl hpc hret => exact .inl (hread hl hs)
  | emptyLine hl hpc hret hdst => exact .inl (hread hl hs)
  | gone hl hpc hret =>
      exact .inl (hread hl (hremoved (hT.afterRead hl _) (hT.afterRead_clients hl _) hs))
  | writeFailed ret hl hpc hret =>
      exact .inl (hremoved (t := st.record _) (hT.record (by trivial)) hl hs)
  | @admitted socket a sent hpc hfresh hadm =>
      rcases List.mem_cons.mp hs with rfl | hs
      · exact .inr ⟨sent, a, rfl, hadm, hfresh.1⟩
      · exact .inl hs
  | _ => exact .inl hs

theorem Server.Stepped.serverSocket {env : CreadlineEnv} {st st' : Server} {e : Event}
    (hT : st.Tables) (h : Stepped env st e st') : st'.serverSocket = st.serverSocket := by
  have hremoved : ∀ {t : Server} {pre post : List JapiClient} {c : JapiClient}, t.Tables →
      t.ctx.clients = pre ++ c :: post → (t.removeClient c.socket).serverSocket = t.serverSocket := by
    intro t pre post c hT hl
    obtain ⟨i, conn, -, -, -, -, heq⟩ := hT.removeClient hl
    rw [heq]
  cases h with
  | shutDown res hpc =>
      exact (hT.removeAll (P := fun t => t.serverSocket = st.serverSocket)
        (fun {t c post} hT h hl => (hremoved hT (show t.ctx.clients = [] ++ c :: post from hl)).trans h)
        rfl).2
  | @gone pre c post hl hpc hret =>
      have heq := hremoved (hT.afterRead hl (st.lineOf env c)) (hT.afterRead_clients hl _)
      exact heq
  | writeFailed ret hl hpc hret => exact hremoved (t := st.record _) (hT.record (by trivial)) hl
  | _ => rfl

namespace FdServer

theorem Inv.indexed {st : FdServer} (h : st.Inv) : st.server.Indexed := by
  obtain ⟨hfds, hnfds⟩ := st.server.fdSet_spec
  refine ⟨?_, hnfds⟩
  intro s hs
  unfold Server.passed at hs
  split at hs
  · rw [hfds] at hs
    rcases List.mem_cons.mp hs with rfl | hs
    · exact h.serverSocket
    · exact h.sockets s hs
  · rename_i client _
    obtain ⟨c, hc, rfl⟩ : ∃ c, st.server.clientAt client = some c ∧ c.socket = s := by
      simpa using hs
    exact h.sockets _ (List.mem_map_of_mem (List.mem_of_find?_eq_some hc))
  · rw [List.mem_singleton.mp hs]
    exact h.serverSocket
  · cases hs

theorem Inv.step {env : CreadlineEnv} {st st' : FdServer} {e : Step} (h : st.Inv)
    (hroom : st.HasRoom e) (hstep : FdServer.step env st e = some st') : st'.Inv := by
  cases e with
  | opens others =>
      simp only [FdServer.step] at hstep
      split at hstep
      · cases hstep
        exact ⟨h.sound, h.serverSocket, h.sockets⟩
      · cases hstep
  | loop e =>
      obtain ⟨hlow, hmap⟩ := Option.ite_none_right_eq_some.mp hstep
      obtain ⟨server, hserver, rfl⟩ := Option.map_eq_some_iff.mp hmap
      refine ⟨h.sound.step hserver, ?_, ?_⟩
      · rw [(h.sound.stepped hserver).serverSocket h.sound.toTables]
        exact h.serverSocket
      · intro s hs
        rcases (h.sound.stepped hserver).sockets h.sound.toTables hs with hold |
          ⟨sent, a, rfl, hadm, hpos⟩
        · exact h.sockets s hold
        · -- `accept()` returned no number above the one that is free
          obtain ⟨n, hn, hfree⟩ := hroom hadm
          have hle : s.toNat ≤ n := Nat.le_of_not_lt fun hlt => hfree (hlow.2 n hlt)
          exact ⟨hpos, by omega⟩

theorem hasRoom_of_indexed {env : CreadlineEnv} {st st' : FdServer} {e : Step} (h : st.Inv)
    (hstep : FdServer.step env st e = some st') (hg : st'.server.Indexed) : st.HasRoom e := by
  cases e with
  | opens others => trivial
  | loop e =>
      obtain ⟨hlow, hmap⟩ := Option.ite_none_right_eq_some.mp hstep
      obtain ⟨server, hserver, rfl⟩ := Option.map_eq_some_iff.mp hmap
      rcases e with res | _ | _ | response | ret | _ | _ | ⟨socket, sent, _ | a⟩ | ctx
      case accept.some =>
        intro hadm
        have hstepped := h.sound.stepped hserver
        cases hstepped with
        | admitted sent hpc hfresh hadm' =>
            have hmem : socket ∈ (Server.passed { st.server with
                pc := .select
                ctx := { st.server.ctx with
                  clients := ⟨a, socket, ⟨[], 0⟩⟩ :: st.server.ctx.clients
                  numClients := st.server.ctx.numClients + 1 }
                conns := st.server.conns ++ [Conn.new socket sent]
                log := st.server.log ++ [.accepted st.server.conns.length socket true] }) := by
              rw [Server.passed, (Server.fdSet_spec _).1]
              exact List.mem_cons_of_mem _ List.mem_cons_self
            obtain ⟨hpos, hlt⟩ := hg.range socket hmem
            have hnat : (socket.toNat : Int) = socket := Int.toNat_of_nonneg hpos
            exact ⟨socket.toNat, by omega, by rw [hnat]; exact hlow.1⟩
        | refused sent hpc hfresh hadm' =>
            rw [hadm] at hadm'
            cases hadm'
      all_goals trivial

/-- **The sets are indexed within their size in every state of a run exactly if** the server
socket is below `FD_SETSIZE` and so is a free number whenever a client is admitted. -/
theorem run_fdSets_iff {env : CreadlineEnv} {ctx : JapiContext} {serverSocket : Int}
    (hserver : 0 ≤ serverSocket) {others : List Int} {es : List Step} {st : FdServer}
    (hrun : run (step env) (start ctx serverSocket others) es = some st) :
    (∀ es₁ es₂ st₁, es = es₁ ++ es₂ →
        run (step env) (start ctx serverSocket others) es₁ = some st₁ → st₁.server.Indexed) ↔
      serverSocket < fdSetSize ∧ Meets (step env) HasRoom (start ctx serverSocket others) es := by
  have hiff : serverSocket < fdSetSize →
      ((∀ es₁ es₂ st₁, es = es₁ ++ es₂ →
        run (step env) (start ctx serverSocket others) es₁ = some st₁ → st₁.server.Indexed) ↔
        Meets (step env) HasRoom (start ctx serverSocket others) es) := by
    intro hlt
    have hinv : (start ctx serverSocket others).Inv :=
      ⟨Server.sound_start ctx serverSocket, ⟨hserver, hlt⟩, by simp [start, Server.start, JapiContext.sockets]⟩
    have hgood : ∀ {st : FdServer}, st.Inv → (fun st : FdServer => st.server.Indexed) st :=
      Inv.indexed
    exact run_good_iff hgood Inv.step hasRoom_of_indexed hinv hrun
  constructor
  · intro hall
    have hlt : serverSocket < fdSetSize :=
      ((hall [] es _ rfl rfl).range serverSocket List.mem_cons_self).2
    exact ⟨hlt, (hiff hlt).mp hall⟩
  · exact fun h => (hiff h.1).mpr h.2

/-! ## An application with many files -/

/-- The standard streams, and the files above the server socket. -/
def manyFiles (n : Nat) : List Int := [0, 1, 2] ++ (List.range n).map fun i : Nat => (4 + i : Int)

theorem mem_manyFiles {n : Nat} {s : Int} : s ∈ manyFiles n ↔ 0 ≤ s ∧ s < 4 + n ∧ s ≠ 3 := by
  simp only [manyFiles, List.mem_append, List.mem_cons, List.not_mem_nil, or_false, List.mem_map,
    List.mem_range]
  constructor
  · rintro ((rfl | rfl | rfl) | ⟨i, hi, rfl⟩) <;> omega
  · rintro ⟨hpos, hlt, hne⟩
    by_cases hs : s < 3
    · exact .inl (by omega)
    · exact .inr ⟨(s - 4).toNat, by omega, by omega⟩

/-- A client comes. -/
def oneClient (socket : Int) : List Step :=
  [.loop (.select (.ready [] true)), .loop .visit, .loop (.accept socket [] (some 1))]

/-- The server waits for it in `accept()`. -/
def accepting : Server := { Server.start japiInit 3 with serverReady := true, pc := .accept }

theorem run_oneClient (env : CreadlineEnv) (n : Nat) :
    run (step env) (start japiInit 3 (manyFiles n)) (oneClient (4 + n)) =
      some ⟨accepting.onAccept (4 + n) [] (some 1), manyFiles n⟩ := by
  have hopen : ∀ s : Int, FdServer.IsOpen ⟨accepting, manyFiles n⟩ s ↔ 0 ≤ s ∧ s < 4 + n := by
    intro s
    show s = 3 ∨ connOf [] s ≠ none ∨ s ∈ manyFiles n ↔ _
    simp only [connOf, List.findIdx?_nil, ne_eq, not_true_eq_false, false_or, mem_manyFiles]
    omega
  have hlow : Lowest ⟨accepting, manyFiles n⟩ (.accept (4 + n) [] (some 1)) := by
    refine ⟨fun h => ?_, fun i hi => ?_⟩
    · exact absurd ((hopen _).mp h).2 (lt_irrefl _)
    · exact (hopen _).mpr ⟨by omega, by omega⟩
  have hfresh : accepting.Fresh (4 + n) (some 1) :=
    ⟨by omega, show (4 + n : Int) ≠ 3 by omega, rfl, by simp [accepting, Server.start]⟩
  have haccept : Server.step env accepting (.accept (4 + n) [] (some 1))
      = some (accepting.onAccept (4 + n) [] (some 1)) := if_pos ⟨rfl, hfresh⟩
  refine run_cons.mpr ⟨_, rfl, run_cons.mpr ⟨⟨accepting, manyFiles n⟩, rfl,
    run_cons.mpr ⟨_, ?_, rfl⟩⟩⟩
  exact (if_pos hlow).trans (congrArg _ haccept)

/-- The build, with memory. -/
def build : CreadlineEnv := ⟨64 * 1024 * 1024, fun _ => true⟩

theorem run_fdSets_iff_oneClient :
    ∃ st, run (step build) (start japiInit 3 (manyFiles 2)) (oneClient 6) = some st ∧
      st.server.Indexed := by
  have hrun := run_oneClient build 2
  refine ⟨_, hrun, ?_⟩
  have hfree : ¬ FdServer.IsOpen ⟨accepting, manyFiles 2⟩ 6 := by decide
  refine (run_fdSets_iff (by decide) hrun).mpr ⟨by decide, ?_⟩ _ [] _ (List.append_nil _).symm hrun
  have hlast : Meets (step build) HasRoom ⟨accepting, manyFiles 2⟩
      [.loop (.accept 6 [] (some 1))] :=
    ⟨fun _ => ⟨6, by decide, hfree⟩, fun _ _ => trivial⟩
  have hvisit : step build ⟨{ Server.start japiInit 3 with serverReady := true, pc := .walk none },
      manyFiles 2⟩ (.loop .visit) = some ⟨accepting, manyFiles 2⟩ := rfl
  exact Meets.cons trivial rfl (Meets.cons trivial hvisit hlast)

/-- With 1020 files open the socket of the client is 1024. -/
theorem manyFiles_outOfRange :
    ∃ st, run (step build) (start japiInit 3 (manyFiles 1020)) (oneClient 1024) = some st ∧
      st.server.fdSet.fds = [3, 1024] ∧ ¬ st.server.Indexed := by
  refine ⟨_, run_oneClient _ 1020, rfl, ?_⟩
  intro h
  exact absurd (h.range 1024 (by decide)).2 (by decide)

end FdServer

end Libjapi
