/-
# `Libjapi.ServerClients` — the client list, its counter and the open connections
-/
import Libjapi.Server

namespace Libjapi

namespace Server

/-! ## Pointers -/

/-- `client` points to a node and `following` to the one behind it. -/
def Linked (cs : List JapiClient) (client : Addr) (following : Option Addr) : Prop :=
  ∃ pre c post, cs = pre ++ c :: post ∧ c.addr = client ∧ following = headAddr post

/-- The pointers the thread holds are `NULL` or point to nodes of the list. -/
def PcValid (cs : List JapiClient) : Pc → Prop
  | .walk (some client) => client ∈ cs.map JapiClient.addr
  | .serve client following _ => Linked cs client following
  | .fault => False
  | _ => True

theorem pcValid_walk_headAddr (pre post : List JapiClient) :
    PcValid (pre ++ post) (.walk (headAddr post)) := by
  cases post with
  | nil => trivial
  | cons c post => simp [headAddr, PcValid]

theorem find?_addr {pre post : List JapiClient} {c : JapiClient}
    (h : ((pre ++ c :: post).map JapiClient.addr).Nodup) :
    (pre ++ c :: post).find? (·.addr == c.addr) = some c := by
  have hpre : ∀ x ∈ pre, x.addr ≠ c.addr := by
    simp only [List.map_append, List.map_cons, List.nodup_append, List.mem_map, List.mem_cons] at h
    exact fun x hx => h.2.2 _ ⟨x, hx, rfl⟩ _ (.inl rfl)
  rw [List.find?_append, List.find?_eq_none.mpr (by simpa using hpre)]
  simp

theorem nextOf_addr {pre post : List JapiClient} {c : JapiClient}
    (h : ((pre ++ c :: post).map JapiClient.addr).Nodup) :
    nextOf (pre ++ c :: post) c.addr = headAddr post := by
  induction pre with
  | nil => simp [nextOf]
  | cons x pre ih =>
      simp only [List.cons_append, List.map_cons, List.nodup_cons, List.map_append, List.mem_append,
        List.mem_cons, not_or] at h
      have hne : x.addr ≠ c.addr := h.1.2.1
      simp only [List.cons_append, nextOf, hne, if_false]
      exact ih (by simpa using h.2)

/-- The pc after the condition of the `do … while` is evaluated. -/
def again (c : JapiClient) (following : Option Addr) : Pc :=
  if c.crlBuffer.nbytes ≠ 0 then .serve c.addr following .read else .walk following

theorem pcValid_again {cs pre post : List JapiClient} {c : JapiClient}
    (hl : cs = pre ++ c :: post) : PcValid cs (again c (headAddr post)) := by
  unfold again
  split
  · exact ⟨pre, c, post, hl, rfl, rfl⟩
  · have := pcValid_walk_headAddr (pre ++ [c]) post
    simpa [hl] using this

theorem nbytes_of_again {c : JapiClient} {following : Option Addr}
    (hno : ∀ f p, again c following ≠ .serve c.addr f p) : c.crlBuffer.nbytes = 0 := by
  by_contra hn
  exact hno following .read (by simp [again, hn])

theorem serve_other {pc : Pc} {a x : Addr} {following : Option Addr} {phase : ServePc}
    (hpc : pc = .serve a following phase) (hne : x ≠ a) : ∀ f p, pc ≠ .serve x f p := by
  intro f p heq
  rw [hpc] at heq
  exact hne (Pc.serve.inj heq).1.symm

/-! ## What every run keeps of the lists -/

/-- Nodes have different addresses, clients different sockets, and each client's
socket is open. -/
structure Tables (st : Server) : Prop where
  addrs : (st.ctx.clients.map JapiClient.addr).Nodup
  sockets : st.ctx.sockets.Nodup
  openOnce : OpenOnce st.conns
  connected : ∀ s ∈ st.ctx.sockets, ∃ (i : Nat) (c : Conn),
    st.conns[i]? = some c ∧ c.isOpen = true ∧ c.socket = s
  traced : Traced st.conns st.log

structure Sound (st : Server) : Prop extends Tables st where
  pointers : PcValid st.ctx.clients st.pc

theorem Tables.clientAt {st : Server} (h : st.Tables) {pre post : List JapiClient} {c : JapiClient}
    (hl : st.ctx.clients = pre ++ c :: post) : st.clientAt c.addr = some c := by
  have := h.addrs
  rw [hl] at this
  rw [Server.clientAt, hl, find?_addr this]

theorem Tables.loopTest {st : Server} (h : st.Tables) {pre post : List JapiClient} {c : JapiClient}
    (hl : st.ctx.clients = pre ++ c :: post) (following : Option Addr) :
    st.loopTest c.addr following = st.goto (again c following) := by
  simp only [Server.loopTest, h.clientAt hl, again]
  split <;> rfl

theorem Tables.socket_ne {st : Server} (h : st.Tables) {pre post : List JapiClient} {c : JapiClient}
    (hl : st.ctx.clients = pre ++ c :: post) :
    (∀ x ∈ pre, x.socket ≠ c.socket) ∧ ∀ x ∈ post, x.socket ≠ c.socket := by
  have := h.sockets
  simp only [JapiContext.sockets, hl, List.map_append, List.map_cons, List.nodup_append,
    List.nodup_cons, List.mem_map, List.mem_cons] at this
  exact ⟨fun x hx => this.2.2 _ ⟨x, hx, rfl⟩ _ (.inl rfl),
    fun x hx heq => this.2.1.1 ⟨x, hx, heq⟩⟩

theorem Tables.addr_ne {st : Server} (h : st.Tables) {pre post : List JapiClient} {c : JapiClient}
    (hl : st.ctx.clients = pre ++ c :: post) : ∀ x ∈ pre ++ post, x.addr ≠ c.addr := by
  have := h.addrs
  simp only [hl, List.map_append, List.map_cons, List.nodup_append, List.nodup_cons, List.mem_map,
    List.mem_cons] at this
  intro x hx
  rcases List.mem_append.mp hx with hx | hx
  · exact this.2.2 _ ⟨x, hx, rfl⟩ _ (.inl rfl)
  · exact fun heq => this.2.1.1 ⟨x, hx, heq⟩

theorem Tables.eq_of_addr {st : Server} (h : st.Tables) {pre post : List JapiClient}
    {c x : JapiClient} (hl : st.ctx.clients = pre ++ c :: post) (hx : x ∈ st.ctx.clients)
    (hxc : x.addr = c.addr) : x = c := by
  obtain ⟨pre', post', hx'⟩ := List.append_of_mem hx
  have hat := h.clientAt hx'
  rw [hxc, h.clientAt hl] at hat
  exact (Option.some.inj hat).symm

theorem mem_of_removed {cs pre post : List JapiClient} {c : JapiClient} (hl : cs = pre ++ c :: post) :
    ∀ x ∈ pre ++ post, x ∈ cs := by
  intro x hx
  rw [hl]
  exact (List.Sublist.append_left (List.sublist_cons_self c post) pre).subset hx

theorem Tables.conn {st : Server} (h : st.Tables) {pre post : List JapiClient} {c : JapiClient}
    (hl : st.ctx.clients = pre ++ c :: post) :
    ∃ (i : Nat) (conn : Conn), st.conns[i]? = some conn ∧ conn.isOpen = true ∧
      conn.socket = c.socket ∧ connOf st.conns c.socket = some i := by
  obtain ⟨i, conn, hi, hopen, hsock⟩ := h.connected c.socket (by simp [JapiContext.sockets, hl])
  exact ⟨i, conn, hi, hopen, hsock, hsock ▸ h.openOnce.connOf_eq hi hopen⟩

/-- **What the removal of a client does** to the list, the counter, the
connection and the log. -/
theorem Tables.removeClient {st : Server} (h : st.Tables) {pre post : List JapiClient}
    {c : JapiClient} (hl : st.ctx.clients = pre ++ c :: post) :
    ∃ (i : Nat) (conn : Conn), st.conns[i]? = some conn ∧ conn.isOpen = true ∧
      conn.socket = c.socket ∧ connOf st.conns c.socket = some i ∧
      st.removeClient c.socket = { st with
        ctx := { japiPushsrvRemoveClientFromAllPushsrv st.ctx c.socket with
          clients := pre ++ post, numClients := st.ctx.numClients - 1 }
        conns := st.conns.modify i Conn.shut
        log := st.log ++ [.closed (some i) c.socket] } := by
  obtain ⟨i, conn, hi, hopen, hsock, hof⟩ := h.conn hl
  refine ⟨i, conn, hi, hopen, hsock, hof, ?_⟩
  simp only [Server.removeClient, japiRemoveClient_of_clients hl (h.socket_ne hl).1, List.foldl_cons,
    List.foldl_nil, close, hof, record]

theorem Tables.goto {st : Server} (h : st.Tables) (pc : Pc) : (st.goto pc).Tables :=
  ⟨h.addrs, h.sockets, h.openOnce, h.connected, h.traced⟩

theorem Tables.record {st : Server} (h : st.Tables) {e : Entry} (he : e.quiet) :
    (st.record e).Tables :=
  ⟨h.addrs, h.sockets, h.openOnce, h.connected, h.traced.record he⟩

theorem Tables.removed {st : Server} (h : st.Tables) {pre post : List JapiClient}
    {c : JapiClient} (hl : st.ctx.clients = pre ++ c :: post) :
    (st.removeClient c.socket).Tables := by
  obtain ⟨i, conn, hi, hopen, hsock, hof, heq⟩ := h.removeClient hl
  obtain ⟨hpre, hpost⟩ := h.socket_ne hl
  rw [heq]
  have hsub : (pre ++ post).Sublist st.ctx.clients := by
    rw [hl]
    exact List.Sublist.append_left (List.sublist_cons_self c post) pre
  refine ⟨h.addrs.sublist (hsub.map _), h.sockets.sublist (hsub.map _), h.openOnce.shut i, ?_, ?_⟩
  · intro s hs
    have hs' : s ∈ st.ctx.sockets := (hsub.map JapiClient.socket).subset hs
    obtain ⟨j, d, hj, hd, hds⟩ := h.connected s hs'
    have hne : i ≠ j := by
      rintro rfl
      rw [hi] at hj
      cases hj
      obtain ⟨x, hx, hxs⟩ := List.mem_map.mp hs
      have hxc : x.socket = c.socket := hxs.trans (hds.symm.trans hsock)
      rcases List.mem_append.mp hx with hx | hx
      · exact hpre x hx hxc
      · exact hpost x hx hxc
    refine ⟨j, d, ?_, hd, hds⟩
    simp [hj, hne]
  · rw [← hsock]
    exact h.traced.shut hi hopen

theorem Tables.afterRead_clients {st : Server} (h : st.Tables) {pre post : List JapiClient}
    {c : JapiClient} (hl : st.ctx.clients = pre ++ c :: post) (r : Creadline) :
    (st.afterRead c r).ctx.clients = pre ++ { c with crlBuffer := r.buffer } :: post := by
  have hpre : ∀ x ∈ pre, x.addr ≠ c.addr := fun x hx => h.addr_ne hl x (List.mem_append_left _ hx)
  have hpost : ∀ x ∈ post, x.addr ≠ c.addr :=
    fun x hx => h.addr_ne hl x (List.mem_append_right _ hx)
  have hmap : ∀ l : List JapiClient, (∀ x ∈ l, x.addr ≠ c.addr) →
      (l.map fun d => if d.addr = c.addr then { d with crlBuffer := r.buffer } else d) = l := by
    intro l hl
    conv_rhs => rw [← List.map_id l]
    exact List.map_congr_left fun x hx => if_neg (hl x hx)
  simp only [afterRead, hl, List.map_append, List.map_cons, hmap pre hpre, hmap post hpost, if_true]

theorem afterRead_key (st : Server) (c : JapiClient) (r : Creadline) :
    (st.afterRead c r).conns.map Conn.key = st.conns.map Conn.key := by
  simp only [afterRead]
  cases connOf st.conns c.socket with
  | none => rfl
  | some i =>
      refine List.ext_getElem? ?_
      intro j
      simp only [List.getElem?_map, List.getElem?_modify]
      cases st.conns[j]? with
      | none => rfl
      | some d =>
          simp only [Option.map_eq_map, Option.map_some]
          split <;> rfl

theorem Tables.afterRead {st : Server} (h : st.Tables) {pre post : List JapiClient}
    {c : JapiClient} (hl : st.ctx.clients = pre ++ c :: post) (r : Creadline) :
    (st.afterRead c r).Tables := by
  have hclients := h.afterRead_clients hl r
  have hkey := st.afterRead_key c r
  have hsockets : (st.afterRead c r).ctx.sockets = st.ctx.sockets := by
    simp only [JapiContext.sockets, hclients, hl, List.map_append, List.map_cons]
  refine ⟨?_, ?_, h.openOnce.congr hkey, ?_, h.traced.congr hkey⟩
  · have := h.addrs
    rw [hclients]
    simpa only [hl, List.map_append, List.map_cons] using this
  · rw [hsockets]
    exact h.sockets
  · intro s hs
    rw [hsockets] at hs
    obtain ⟨i, d, hi, hd, hds⟩ := h.connected s hs
    obtain ⟨d', hi', hs', ho'⟩ := getElem?_of_key hkey.symm hi
    exact ⟨i, d', hi', ho'.trans hd, hs'.trans hds⟩

/-! ## Removing all clients -/

theorem close_ctx (st : Server) (s : Int) : (st.close s).ctx = st.ctx := by
  unfold close
  split <;> rfl

theorem close_withCtx (st : Server) (ctx : JapiContext) (s : Int) :
    { st with ctx }.close s = { st.close s with ctx } := by
  unfold close
  dsimp only
  split <;> rfl

theorem removeAllClients_nil {st : Server} (hl : st.ctx.clients = []) : st.removeAllClients = st := by
  simp [Server.removeAllClients, japiRemoveAllClients, hl, removeClients]

theorem removeAllClients_cons {st : Server} {c : JapiClient} {post : List JapiClient}
    (hl : st.ctx.clients = c :: post) :
    st.removeAllClients = (st.removeClient c.socket).removeAllClients := by
  have hr := japiRemoveClient_of_clients (show st.ctx.clients = [] ++ c :: post from hl) (by simp)
  simp only [Server.removeAllClients, Server.removeClient, japiRemoveAllClients, hl, removeClients, hr]
  simp only [List.nil_append, ne_eq, not_true_eq_false, if_false, List.cons_append, List.foldl_cons,
    List.foldl_nil, close_ctx]
  simp only [close_withCtx]

theorem Tables.removeAll {P : Server → Prop}
    (hstep : ∀ {st : Server} {c post}, st.Tables → P st → st.ctx.clients = c :: post →
      P (st.removeClient c.socket)) {st : Server} (h : st.Tables) (hP : P st) :
    st.removeAllClients.Tables ∧ P st.removeAllClients := by
  generalize hcs : st.ctx.clients = cs
  induction cs generalizing st with
  | nil =>
      rw [removeAllClients_nil hcs]
      exact ⟨h, hP⟩
  | cons c post ih =>
      rw [removeAllClients_cons hcs]
      obtain ⟨i, conn, -, -, -, -, heq⟩ := h.removeClient (show st.ctx.clients = [] ++ c :: post from hcs)
      refine ih (h.removed (show st.ctx.clients = [] ++ c :: post from hcs)) (hstep h hP hcs) ?_
      rw [heq]
      rfl

theorem Tables.removeAllClients {st : Server} (hT : st.Tables) :
    st.removeAllClients.ctx.clients = [] ∧
      st.removeAllClients.ctx.numClients
        = st.ctx.numClients - UInt16.ofNat st.ctx.clients.length ∧
      st.removeAllClients.ctx.pushServices = (st.ctx.pushServices.map fun psc =>
        { psc with clients := psc.clients.diff st.ctx.sockets }) ∧
      st.removeAllClients.conns = st.conns.map fun conn =>
        if conn.socket ∈ st.ctx.sockets then conn.shut else conn := by
  generalize hcs : st.ctx.clients = cs
  induction cs generalizing st with
  | nil =>
      rw [removeAllClients_nil hcs]
      simp [JapiContext.sockets, hcs]
  | cons c post ih =>
      have hl : st.ctx.clients = [] ++ c :: post := hcs
      obtain ⟨i, conn, hi, hopen, hsock, -, heq⟩ := hT.removeClient hl
      have hsockets : (st.removeClient c.socket).ctx.sockets = post.map JapiClient.socket := by
        rw [heq]
        rfl
      have hnum : (st.removeClient c.socket).ctx.numClients = st.ctx.numClients - 1 := by rw [heq]
      have hservices : (st.removeClient c.socket).ctx.pushServices = st.ctx.pushServices.map
          fun psc => { psc with clients := psc.clients.erase c.socket } := by
        rw [heq]
        simp only [japiPushsrvRemoveClientFromAllPushsrv, japiPushsrvRemoveClient_eq]
      have hconns : (st.removeClient c.socket).conns =
          st.conns.map fun d => if d.socket = c.socket then d.shut else d := by
        rw [heq]
        exact hsock ▸ hT.openOnce.shut_eq_map hi hopen
      obtain ⟨h₁, h₂, h₃, h₄⟩ := ih (hT.removed hl) (by rw [heq]; rfl)
      have hall : st.ctx.sockets = c.socket :: post.map JapiClient.socket := by
        simp [JapiContext.sockets, hcs]
      rw [removeAllClients_cons hcs, h₂, h₃, h₄, hnum, hservices, hconns, hsockets, hall]
      refine ⟨h₁, ?_, ?_, ?_⟩
      · rw [List.length_cons, UInt16.ofNat_add, sub_sub, add_comm]
        rfl
      · rw [List.map_map]
        refine List.map_congr_left ?_
        intro psc _
        simp only [Function.comp_apply, List.diff_cons]
      · rw [List.map_map]
        refine List.map_congr_left ?_
        intro d _
        by_cases hd : d.socket = c.socket
        · simp [hd, Conn.shut]
        · simp [hd]

/-! ## The steps, with the pointers followed -/

/-- The call of `creadline_r` for a client. -/
def lineOf (env : CreadlineEnv) (st : Server) (c : JapiClient) : Creadline :=
  creadlineR env c.crlBuffer (st.unreadOf c.socket)

/-- **What a step can do** in a sound state.  `c` is the client the thread's
pointer stands for; `pre` and `post` are the clients in front of and behind it. -/
inductive Stepped (env : CreadlineEnv) (st : Server) : Event → Server → Prop
  | outside (ctx) : Stepped env st (.outside ctx) { st with
      ctx := { ctx with clients := st.ctx.clients, numClients := st.ctx.numClients } }
  | selectFailed : st.pc = .select → Stepped env st (.select .failed) (st.goto (.returned (-1)))
  | timeout : st.pc = .select → Stepped env st (.select .timeout) st
  | shutDown (res) : st.pc = .select → st.ctx.shutdown = true →
      Stepped env st (.select res) (st.removeAllClients.goto (.returned 0))
  | ready (fds server) : st.pc = .select → Stepped env st (.select (.ready fds server))
      { st with fdrd := fds, serverReady := server, pc := .walk (headAddr st.ctx.clients) }
  | walked : st.pc = .walk none → Stepped env st .visit (st.goto .accept)
  | skip {pre c post} : st.ctx.clients = pre ++ c :: post → st.pc = .walk (some c.addr) →
      Stepped env st .visit (st.goto (.walk (headAddr post)))
  | pick {pre c post} : st.ctx.clients = pre ++ c :: post → st.pc = .walk (some c.addr) →
      Stepped env st .visit (st.goto (.serve c.addr (headAddr post) .read))
  | line {pre c post} : st.ctx.clients = pre ++ c :: post →
      st.pc = .serve c.addr (headAddr post) .read → (st.lineOf env c).ret > 0 →
      Stepped env st .read ((st.afterRead c (st.lineOf env c)).goto
        (.serve c.addr (headAddr post) (.process ((st.lineOf env c).dst.getD []))))
  | emptyLine {pre c post d} : st.ctx.clients = pre ++ c :: post →
      st.pc = .serve c.addr (headAddr post) .read → (st.lineOf env c).ret = 0 →
      (st.lineOf env c).dst = some d →
      Stepped env st .read ((st.afterRead c (st.lineOf env c)).goto
        (again { c with crlBuffer := (st.lineOf env c).buffer } (headAddr post)))
  | gone {pre c post} : st.ctx.clients = pre ++ c :: post →
      st.pc = .serve c.addr (headAddr post) .read → (st.lineOf env c).dst = none →
      Stepped env st .read (((st.afterRead c (st.lineOf env c)).removeClient c.socket).goto
        (.walk (headAddr post)))
  | process {pre c post request} : st.ctx.clients = pre ++ c :: post →
      st.pc = .serve c.addr (headAddr post) (.process request) →
      Stepped env st (.process none)
        ((st.record (.processed (connOf st.conns c.socket) request c.socket none)).goto
          (again c (headAddr post)))
  | respond {pre c post request} (r) : st.ctx.clients = pre ++ c :: post →
      st.pc = .serve c.addr (headAddr post) (.process request) →
      Stepped env st (.process (some r))
        ((st.record (.processed (connOf st.conns c.socket) request c.socket (some r))).goto
          (.serve c.addr (headAddr post) (.write r)))
  | written {pre c post r} (ret) : st.ctx.clients = pre ++ c :: post →
      st.pc = .serve c.addr (headAddr post) (.write r) →
      Stepped env st (.write ret)
        ((st.record (.written (connOf st.conns c.socket) c.socket r)).goto
          (again c (headAddr post)))
  | writeFailed {pre c post r} (ret) : st.ctx.clients = pre ++ c :: post →
      st.pc = .serve c.addr (headAddr post) (.write r) → ret ≤ 0 →
      Stepped env st (.write ret)
        (((st.record (.written (connOf st.conns c.socket) c.socket r)).removeClient c.socket).goto
          (.walk (headAddr post)))
  | noAccept : st.pc = .accept → Stepped env st .noAccept (st.goto .select)
  | acceptFailed : st.pc = .accept → Stepped env st .acceptFailed (st.goto (.returned (-1)))
  | admitted {socket a} (sent) : st.pc = .accept → st.Fresh socket (some a) →
      st.ctx.admits = true → Stepped env st (.accept socket sent (some a)) { st with
        pc := .select
        ctx := { st.ctx with
          clients := ⟨a, socket, ⟨[], 0⟩⟩ :: st.ctx.clients, numClients := st.ctx.numClients + 1 }
        conns := st.conns ++ [Conn.new socket sent]
        log := st.log ++ [.accepted st.conns.length socket true] }
  | leaked {socket} (sent) : st.pc = .accept → st.Fresh socket none → st.ctx.admits = true →
      Stepped env st (.accept socket sent none) { st with
        pc := .select
        conns := st.conns ++ [Conn.new socket sent]
        log := st.log ++ [.accepted st.conns.length socket true] }
  | refused {socket malloc} (sent) : st.pc = .accept → st.Fresh socket malloc →
      st.ctx.admits = false → Stepped env st (.accept socket sent malloc) { st with
        pc := .select
        conns := (st.conns ++ [Conn.new socket sent]).modify st.conns.length Conn.shut
        log := st.log ++ [.accepted st.conns.length socket false,
          .closed (some st.conns.length) socket] }

theorem PcValid.walk {cs : List JapiClient} {a : Addr} (h : PcValid cs (.walk (some a))) :
    ∃ pre c post, cs = pre ++ c :: post ∧ c.addr = a := by
  obtain ⟨c, hc, rfl⟩ := List.mem_map.mp h
  obtain ⟨pre, post, rfl⟩ := List.append_of_mem hc
  exact ⟨pre, c, post, rfl, rfl⟩

theorem Tables.accepted {env : CreadlineEnv} {st : Server} (h : st.Tables) (hpc : st.pc = .accept)
    {socket : Int} {malloc : Option Addr} (hfresh : st.Fresh socket malloc) (sent : List ReadRes) :
    Stepped env st (.accept socket sent malloc) (st.onAccept socket sent malloc) := by
  cases hadm : st.ctx.admits with
  | true =>
      simp only [onAccept, hadm, if_true]
      cases malloc with
      | none => exact .leaked sent hpc hfresh hadm
      | some a => exact .admitted sent hpc hfresh hadm
  | false =>
      have hone := h.openOnce.connect (c := .new socket sent) hfresh.2.2.1
      have hof : connOf (st.conns ++ [Conn.new socket sent]) socket = some st.conns.length :=
        hone.connOf_eq (getElem?_concat.mpr (.inr ⟨rfl, rfl⟩)) rfl
      have hclosed := @Stepped.refused env st socket malloc sent hpc hfresh hadm
      simpa [onAccept, hadm, close, connect, Server.record, hof, Server.goto] using hclosed

theorem Sound.stepped {env : CreadlineEnv} {st st' : Server} {e : Event} (h : st.Sound)
    (hs : step env st e = some st') : Stepped env st e st' := by
  have hptr := h.pointers
  cases e with
  | outside ctx =>
      cases hs
      exact .outside ctx
  | select res =>
      simp only [step] at hs
      split at hs
      · rename_i hpc
        cases hs
        cases res with
        | failed => exact .selectFailed hpc
        | timeout =>
            simp only [onSelect]
            split
            · rename_i hshutdown
              exact .shutDown _ hpc hshutdown
            · exact .timeout hpc
        | ready fds server =>
            simp only [onSelect]
            split
            · rename_i hshutdown
              exact .shutDown _ hpc hshutdown
            · exact .ready fds server hpc
      · cases hs
  | visit =>
      simp only [step] at hs
      split at hs
      · rename_i client hpc
        cases hs
        cases client with
        | none => exact .walked hpc
        | some a =>
            rw [hpc] at hptr
            obtain ⟨pre, c, post, hl, rfl⟩ := hptr.walk
            have hnext : nextOf st.ctx.clients c.addr = headAddr post := by
              have := h.addrs
              rw [hl] at this ⊢
              exact nextOf_addr this
            simp only [onVisit, h.clientAt hl, hnext]
            split
            · exact .pick hl hpc
            · exact .skip hl hpc
      · cases hs
  | read =>
      simp only [step] at hs
      split at hs
      · rename_i a f hpc
        cases hs
        rw [hpc] at hptr
        obtain ⟨pre, c, post, hl, rfl, rfl⟩ := hptr
        simp only [onRead, h.clientAt hl]
        split
        · rename_i hret
          exact .line hl hpc hret
        · rename_i hret
          split
          · rename_i hret0
            have hl' := h.afterRead_clients hl (st.lineOf env c)
            have hloop := (h.afterRead hl (st.lineOf env c)).loopTest hl' (headAddr post)
            cases hdst : (st.lineOf env c).dst with
            | none =>
                have hdst' := hdst
                simp only [lineOf] at hdst
                simp only [hdst]
                exact .gone hl hpc hdst'
            | some d =>
                have hdst' := hdst
                simp only [lineOf] at hdst
                simp only [hdst]
                exact hloop ▸ .emptyLine hl hpc hret0 hdst'
          · rename_i hret0
            exact .gone hl hpc (creadlineR_dst_of_neg (by omega))
      · cases hs
  | process response =>
      simp only [step] at hs
      split at hs
      · rename_i a f request hpc
        cases hs
        rw [hpc] at hptr
        obtain ⟨pre, c, post, hl, rfl, rfl⟩ := hptr
        simp only [onProcess, h.clientAt hl]
        cases response with
        | none =>
            have hr : (st.record (.processed (connOf st.conns c.socket) request c.socket none)).Tables :=
              h.record (by trivial)
            exact hr.loopTest hl (headAddr post) ▸ .process hl hpc
        | some r => exact .respond r hl hpc
      · cases hs
  | write ret =>
      simp only [step] at hs
      split at hs
      · rename_i a f r hpc
        cases hs
        rw [hpc] at hptr
        obtain ⟨pre, c, post, hl, rfl, rfl⟩ := hptr
        simp only [onWrite, h.clientAt hl]
        split
        · rename_i hret
          exact .writeFailed ret hl hpc hret
        · have hr : (st.record (.written (connOf st.conns c.socket) c.socket r)).Tables :=
            h.record (by trivial)
          exact hr.loopTest hl (headAddr post) ▸ .written ret hl hpc
      · cases hs
  | noAccept =>
      simp only [step] at hs
      split at hs
      · rename_i hpc
        split at hs
        · cases hs
        · cases hs
          exact .noAccept hpc
      · cases hs
  | acceptFailed =>
      simp only [step] at hs
      split at hs
      · rename_i hpc
        split at hs
        · cases hs
          exact .acceptFailed hpc
        · cases hs
      · cases hs
  | accept socket sent malloc =>
      simp only [step] at hs
      split at hs
      · rename_i hpc
        split at hs
        · rename_i hok
          cases hs
          exact h.toTables.accepted hpc hok.2 sent
        · cases hs
      · cases hs

/-! ## What every step keeps -/

theorem Tables.admitted {st : Server} (h : st.Tables) {socket : Int} {a : Addr}
    (hfresh : st.Fresh socket (some a)) (sent : List ReadRes) (pc : Pc) : Tables { st with
      pc
      ctx := { st.ctx with
        clients := ⟨a, socket, ⟨[], 0⟩⟩ :: st.ctx.clients, numClients := st.ctx.numClients + 1 }
      conns := st.conns ++ [Conn.new socket sent]
      log := st.log ++ [.accepted st.conns.length socket true] } := by
  obtain ⟨-, -, hof, haddr⟩ := hfresh
  have hsocket : socket ∉ st.ctx.sockets := by
    intro hs
    obtain ⟨i, c, hi, hopen, rfl⟩ := h.connected socket hs
    rw [h.openOnce.connOf_eq hi hopen] at hof
    cases hof
  refine ⟨List.nodup_cons.mpr ⟨haddr a rfl, h.addrs⟩, List.nodup_cons.mpr ⟨hsocket, h.sockets⟩,
    h.openOnce.connect (c := .new socket sent) hof, ?_,
    h.traced.connect (c := .new socket sent) rfl true⟩
  intro s hs
  rcases List.mem_cons.mp hs with rfl | hs
  · exact ⟨st.conns.length, _, getElem?_concat.mpr (.inr ⟨rfl, rfl⟩), rfl, rfl⟩
  · obtain ⟨i, c, hi, hopen, hsock⟩ := h.connected s hs
    exact ⟨i, c, getElem?_concat.mpr (.inl hi), hopen, hsock⟩

theorem Tables.leak {st : Server} (h : st.Tables) {socket : Int}
    (hfresh : st.Fresh socket none) (sent : List ReadRes) (pc : Pc) : Tables { st with
      pc
      conns := st.conns ++ [Conn.new socket sent]
      log := st.log ++ [.accepted st.conns.length socket true] } := by
  refine ⟨h.addrs, h.sockets, h.openOnce.connect (c := .new socket sent) hfresh.2.2.1, ?_,
    h.traced.connect (c := .new socket sent) rfl true⟩
  intro s hs
  obtain ⟨i, c, hi, hopen, hsock⟩ := h.connected s hs
  exact ⟨i, c, getElem?_concat.mpr (.inl hi), hopen, hsock⟩

theorem Tables.refuse {st : Server} (h : st.Tables) {socket : Int} {malloc : Option Addr}
    (hfresh : st.Fresh socket malloc) (sent : List ReadRes) (pc : Pc) : Tables { st with
      pc
      conns := (st.conns ++ [Conn.new socket sent]).modify st.conns.length Conn.shut
      log := st.log ++ [.accepted st.conns.length socket false,
        .closed (some st.conns.length) socket] } := by
  have hone := h.openOnce.connect (c := .new socket sent) hfresh.2.2.1
  have htr := h.traced.connect (c := .new socket sent) rfl false
  have hnew : (st.conns ++ [Conn.new socket sent])[st.conns.length]? =
      some (.new socket sent) := getElem?_concat.mpr (.inr ⟨rfl, rfl⟩)
  have hshut := htr.shut hnew rfl
  rw [List.append_assoc] at hshut
  refine ⟨h.addrs, h.sockets, hone.shut _, ?_, hshut⟩
  intro s hs
  obtain ⟨i, c, hi, hopen, hsock⟩ := h.connected s hs
  have hlt : i < st.conns.length := (List.getElem?_eq_some_iff.mp hi).1
  refine ⟨i, c, ?_, hopen, hsock⟩
  rw [List.getElem?_modify, getElem?_concat.mpr (.inl hi)]
  simp [hlt.ne']

theorem Sound.step {env : CreadlineEnv} {st st' : Server} {e : Event} (h : st.Sound)
    (hs : step env st e = some st') : st'.Sound := by
  have hT := h.toTables
  cases h.stepped hs with
  | outside ctx => exact ⟨⟨h.addrs, h.sockets, h.openOnce, h.connected, h.traced⟩, h.pointers⟩
  | selectFailed hpc => exact ⟨hT.goto _, trivial⟩
  | timeout hpc => exact h
  | shutDown res hpc =>
      have hall := hT.removeAll (P := fun _ => True) (fun _ _ _ => trivial) trivial
      exact ⟨hall.1.goto _, trivial⟩
  | ready fds server hpc =>
      exact ⟨⟨h.addrs, h.sockets, h.openOnce, h.connected, h.traced⟩, pcValid_walk_headAddr [] _⟩
  | walked hpc => exact ⟨hT.goto _, trivial⟩
  | @skip pre c post hl hpc =>
      have hwalk := pcValid_walk_headAddr (pre ++ [c]) post
      exact ⟨hT.goto _, by simpa [Server.goto, hl] using hwalk⟩
  | @pick pre c post hl hpc => exact ⟨hT.goto _, pre, c, post, hl, rfl, rfl⟩
  | @line pre c post hl hpc hret =>
      exact ⟨(hT.afterRead hl _).goto _, pre, _, post, hT.afterRead_clients hl _, rfl, rfl⟩
  | @emptyLine pre c post d hl hpc hret hdst =>
      exact ⟨(hT.afterRead hl _).goto _, pcValid_again (hT.afterRead_clients hl _)⟩
  | @gone pre c post hl hpc hret =>
      have hl' := hT.afterRead_clients hl (st.lineOf env c)
      have hT' := hT.afterRead hl (st.lineOf env c)
      obtain ⟨i, conn, -, -, -, -, heq⟩ := hT'.removeClient hl'
      refine ⟨(hT'.removed hl').goto _, ?_⟩
      have hclients : ((st.afterRead c (st.lineOf env c)).removeClient c.socket).ctx.clients =
          pre ++ post := by
        rw [heq]
      show PcValid ((st.afterRead c (st.lineOf env c)).removeClient c.socket).ctx.clients _
      rw [hclients]
      exact pcValid_walk_headAddr pre post
  | @process pre c post request hl hpc => exact ⟨(hT.record (by trivial)).goto _, pcValid_again hl⟩
  | @respond pre c post request r hl hpc =>
      exact ⟨(hT.record (by trivial)).goto _, pre, c, post, hl, rfl, rfl⟩
  | @written pre c post r ret hl hpc => exact ⟨(hT.record (by trivial)).goto _, pcValid_again hl⟩
  | @writeFailed pre c post r ret hl hpc hret =>
      have hT' : (st.record (.written (connOf st.conns c.socket) c.socket r)).Tables :=
        hT.record (by trivial)
      obtain ⟨i, conn, -, -, -, -, heq⟩ := hT'.removeClient hl
      refine ⟨(hT'.removed hl).goto _, ?_⟩
      have hclients : ((st.record (.written (connOf st.conns c.socket) c.socket r)).removeClient
          c.socket).ctx.clients = pre ++ post := by
        rw [heq]
      show PcValid ((st.record _).removeClient c.socket).ctx.clients _
      rw [hclients]
      exact pcValid_walk_headAddr pre post
  | noAccept hpc => exact ⟨hT.goto _, trivial⟩
  | acceptFailed hpc => exact ⟨hT.goto _, trivial⟩
  | admitted sent hpc hfresh hadm => exact ⟨hT.admitted hfresh sent _, trivial⟩
  | leaked sent hpc hfresh hadm => exact ⟨hT.leak hfresh sent _, trivial⟩
  | refused sent hpc hfresh hadm => exact ⟨hT.refuse hfresh sent _, trivial⟩

theorem sound_start (ctx : JapiContext) (serverSocket : Int) : (start ctx serverSocket).Sound := by
  have htraced : Traced [] [] := ⟨by simp, by simp, by simp⟩
  exact ⟨⟨List.nodup_nil, List.nodup_nil, by simp [OpenOnce, start], by simp [JapiContext.sockets, start],
    htraced⟩, trivial⟩

/-- **No run follows a pointer to a node that is gone.** -/
theorem run_sound {env : CreadlineEnv} {ctx : JapiContext} {serverSocket : Int} {es : List Event}
    {st : Server} (hrun : run (step env) (start ctx serverSocket) es = some st) : st.Sound := by
  have hstep : ∀ {s e s'}, Sound s → step env s e = some s' → Sound s' := fun h hs => h.step hs
  exact run_invariant hstep (sound_start ctx serverSocket) hrun

/-! ## The order of the log -/

/-- The last entry asks for nothing, unless it is a request whose response is
about to be written. -/
def Awaits (st : Server) : Pc → Prop
  | .serve a _ (.write r) => ∃ c l, st.clientAt a = some c ∧
      st.log.getLast? = some (.processed (connOf st.conns c.socket) l c.socket (some r))
  | _ => ∀ e ∈ st.log.getLast?, e.settled

structure InOrder (st : Server) : Prop where
  ordered : Ordered st.log
  last : st.Awaits st.pc

/-- A log that asks for nothing, whatever the thread does next. -/
def Quiet (st : Server) : Prop := Ordered st.log ∧ ∀ e ∈ st.log.getLast?, e.settled

theorem InOrder.quiet {st : Server} (h : st.InOrder)
    (hpc : ∀ a f r, st.pc ≠ .serve a f (.write r)) : st.Quiet := by
  refine ⟨h.ordered, ?_⟩
  have := h.last
  unfold Awaits at this
  split at this
  · rename_i a f r heq
    exact absurd heq (hpc a f r)
  · exact this

theorem Quiet.goto {st : Server} (h : st.Quiet) {pc : Pc} (hpc : ∀ a f r, pc ≠ .serve a f (.write r)) :
    (st.goto pc).InOrder := by
  refine ⟨h.1, ?_⟩
  show (st.goto pc).Awaits pc
  unfold Awaits
  split
  · rename_i a f r
    exact absurd rfl (hpc a f r)
  · exact h.2

theorem Quiet.record {st : Server} (h : st.Quiet) {e : Entry} (he : e.settled)
    (hw : ∀ co s r, e ≠ .written co s r) : (st.record e).Quiet := by
  refine ⟨h.1.concat h.2 hw, ?_⟩
  simp only [Server.record, List.getLast?_concat, Option.mem_def, Option.some.injEq, forall_eq']
  exact he

theorem Quiet.removeClient {st : Server} (hT : st.Tables) (h : st.Quiet)
    {pre post : List JapiClient} {c : JapiClient} (hl : st.ctx.clients = pre ++ c :: post) :
    (st.removeClient c.socket).Quiet := by
  obtain ⟨i, conn, -, -, -, -, heq⟩ := hT.removeClient hl
  rw [heq]
  exact h.record (e := .closed (some i) c.socket) trivial (by simp)

theorem again_ne_write (c : JapiClient) (f : Option Addr) :
    ∀ a f' r, again c f ≠ .serve a f' (.write r) := by
  intro a f' r
  unfold again
  split <;> simp

theorem InOrder.step {env : CreadlineEnv} {st st' : Server} {e : Event} (hS : st.Sound)
    (h : st.InOrder) (hs : step env st e = some st') : st'.InOrder := by
  have hT := hS.toTables
  cases hS.stepped hs with
  | outside ctx => exact ⟨h.ordered, h.last⟩
  | selectFailed hpc => exact (h.quiet (by simp [hpc])).goto (by simp)
  | timeout hpc => exact h
  | shutDown res hpc =>
      have hall := hT.removeAll (P := Quiet)
        (fun {st c post} hT h hl => h.removeClient hT (show st.ctx.clients = [] ++ c :: post from hl))
        (h.quiet (by simp [hpc]))
      exact hall.2.goto (by simp)
  | ready fds server hpc =>
      have hq := h.quiet (by simp [hpc])
      exact ⟨hq.1, hq.2⟩
  | walked hpc => exact (h.quiet (by simp [hpc])).goto (by simp)
  | skip hl hpc => exact (h.quiet (by simp [hpc])).goto (by simp)
  | pick hl hpc => exact (h.quiet (by simp [hpc])).goto (by simp)
  | @line pre c post hl hpc hret =>
      have hq : (st.afterRead c (st.lineOf env c)).Quiet := h.quiet (by simp [hpc])
      exact hq.goto (by simp)
  | @emptyLine pre c post d hl hpc hret hdst =>
      have hq : (st.afterRead c (st.lineOf env c)).Quiet := h.quiet (by simp [hpc])
      exact hq.goto (again_ne_write _ _)
  | @gone pre c post hl hpc hret =>
      have hq : (st.afterRead c (st.lineOf env c)).Quiet := h.quiet (by simp [hpc])
      have hl' := hT.afterRead_clients hl (st.lineOf env c)
      exact (hq.removeClient (hT.afterRead hl _) hl').goto (by simp)
  | process hl hpc =>
      exact ((h.quiet (by simp [hpc])).record (by trivial) (by simp)).goto (again_ne_write _ _)
  | @respond pre c post request r hl hpc =>
      have hq := h.quiet (by simp [hpc])
      refine ⟨hq.1.concat hq.2 (by simp), c, request, hT.clientAt hl, ?_⟩
      simp [Server.goto, Server.record]
  | @written pre c post r ret hl hpc =>
      obtain ⟨c', l, hc', hlast⟩ : st.Awaits (.serve c.addr (headAddr post) (.write r)) :=
        hpc ▸ h.last
      obtain rfl : c = c' := Option.some.inj ((hT.clientAt hl).symm.trans hc')
      have hq : (st.record (.written (connOf st.conns c.socket) c.socket r)).Quiet :=
        ⟨h.ordered.written hlast, by simp [Server.record, Entry.settled]⟩
      exact hq.goto (again_ne_write _ _)
  | @writeFailed pre c post r ret hl hpc hret =>
      obtain ⟨c', l, hc', hlast⟩ : st.Awaits (.serve c.addr (headAddr post) (.write r)) :=
        hpc ▸ h.last
      obtain rfl : c = c' := Option.some.inj ((hT.clientAt hl).symm.trans hc')
      have hq : (st.record (.written (connOf st.conns c.socket) c.socket r)).Quiet :=
        ⟨h.ordered.written hlast, by simp [Server.record, Entry.settled]⟩
      have hT' : (st.record (.written (connOf st.conns c.socket) c.socket r)).Tables :=
        hT.record (by trivial)
      exact (hq.removeClient hT' hl).goto (by simp)
  | noAccept hpc => exact (h.quiet (by simp [hpc])).goto (by simp)
  | acceptFailed hpc => exact (h.quiet (by simp [hpc])).goto (by simp)
  | admitted sent hpc hfresh hadm =>
      have hq := h.quiet (by simp [hpc])
      exact ⟨hq.1.concat hq.2 (by simp), by simp [Awaits, Entry.settled]⟩
  | leaked sent hpc hfresh hadm =>
      have hq := h.quiet (by simp [hpc])
      exact ⟨hq.1.concat hq.2 (by simp), by simp [Awaits, Entry.settled]⟩
  | refused sent hpc hfresh hadm =>
      have hq := h.quiet (by simp [hpc])
      exact ⟨hq.1.refused hq.2, by simp [Awaits, Entry.settled]⟩

theorem run_inOrder {env : CreadlineEnv} {ctx : JapiContext} {serverSocket : Int} {es : List Event}
    {st : Server} (hrun : run (step env) (start ctx serverSocket) es = some st) : st.InOrder := by
  have hstart : (start ctx serverSocket).InOrder :=
    ⟨⟨List.isChain_nil, by simp [start]⟩, by simp [start, Awaits]⟩
  have hstep : ∀ {s e s'}, Sound s ∧ InOrder s → step env s e = some s' → Sound s' ∧ InOrder s' :=
    fun h hs => ⟨h.1.step hs, h.2.step h.1 hs⟩
  exact (run_invariant hstep ⟨sound_start ctx serverSocket, hstart⟩ hrun).2

/-! ## The counter -/

/-- `malloc` grants a node to an accepted client. -/
def Allocates : Event → Prop
  | .accept _ _ malloc => malloc ≠ none
  | _ => True

/-- `max_clients` stays at `m`. -/
def KeepsMax (m : UInt16) : Event → Prop
  | .outside ctx => ctx.maxClients = m
  | _ => True

/-- The counter is the length of the list and within the limit, and each open
connection has its client. -/
structure Counted (m : UInt16) (st : Server) : Prop where
  max : st.ctx.maxClients = m
  count : st.ctx.numClients.toNat = st.ctx.clients.length
  le : st.ctx.clients.length ≤ m.toNat
  admitted : ∀ (i : Nat) (c : Conn), st.conns[i]? = some c → c.isOpen = true →
    c.socket ∈ st.ctx.sockets

theorem Counted.goto {m : UInt16} {st : Server} (h : st.Counted m) (pc : Pc) :
    (st.goto pc).Counted m := ⟨h.max, h.count, h.le, h.admitted⟩

theorem Counted.record {m : UInt16} {st : Server} (h : st.Counted m) (e : Entry) :
    (st.record e).Counted m := ⟨h.max, h.count, h.le, h.admitted⟩

theorem Counted.afterRead {m : UInt16} {st : Server} (hT : st.Tables) (h : st.Counted m)
    {pre post : List JapiClient} {c : JapiClient} (hl : st.ctx.clients = pre ++ c :: post)
    (r : Creadline) : (st.afterRead c r).Counted m := by
  have hclients := hT.afterRead_clients hl r
  have hlen : (st.afterRead c r).ctx.clients.length = st.ctx.clients.length := by
    simp [hclients, hl]
  have hsockets : (st.afterRead c r).ctx.sockets = st.ctx.sockets := by
    simp only [JapiContext.sockets, hclients, hl, List.map_append, List.map_cons]
  refine ⟨h.max, h.count.trans hlen.symm, hlen.le.trans h.le, ?_⟩
  intro i d hi hd
  obtain ⟨d', hi', hs', ho'⟩ := getElem?_of_key (st.afterRead_key c r) hi
  rw [hsockets, ← hs']
  exact h.admitted i d' hi' (ho'.trans hd)

theorem Counted.removed {m : UInt16} {st : Server} (hT : st.Tables) (h : st.Counted m)
    {pre post : List JapiClient} {c : JapiClient} (hl : st.ctx.clients = pre ++ c :: post) :
    (st.removeClient c.socket).Counted m := by
  obtain ⟨i, conn, hi, hopen, hsock, -, heq⟩ := hT.removeClient hl
  have hcount := h.count
  have hle := h.le
  rw [hl] at hcount hle
  simp only [List.length_append, List.length_cons] at hcount hle
  rw [heq]
  refine ⟨h.max, ?_, ?_, ?_⟩
  · have hone : (1 : UInt16) ≤ st.ctx.numClients := by
      rw [UInt16.le_iff_toNat_le, hcount]
      simp only [UInt16.reduceToNat]
      omega
    rw [UInt16.toNat_sub_of_le _ _ hone, hcount]
    simp only [List.length_append, UInt16.reduceToNat]
    omega
  · simp only [List.length_append]
    omega
  · intro j d hj hd
    obtain ⟨d', hj', hs', -, -, ho'⟩ := getElem?_modify_shut hj
    have hne : i ≠ j := by
      rintro rfl
      rw [if_pos rfl, hd] at ho'
      cases ho'
    rw [if_neg hne] at ho'
    have hmem := h.admitted j d' hj' (ho' ▸ hd)
    have hother : d'.socket ≠ c.socket := by
      intro heq'
      exact hne (hT.openOnce i j conn d' hi hj' hopen (ho' ▸ hd) (hsock.trans heq'.symm))
    rw [hs'] at hmem hother
    simpa [JapiContext.sockets, hl, hother] using hmem

theorem Counted.step {env : CreadlineEnv} {m : UInt16} (hm : 1 ≤ m) {st st' : Server} {e : Event}
    (hS : st.Sound) (h : st.Counted m) (halloc : Allocates e) (hmax : KeepsMax m e)
    (hs : step env st e = some st') : st'.Counted m := by
  have hT := hS.toTables
  cases hS.stepped hs with
  | outside ctx => exact ⟨hmax, h.count, h.le, h.admitted⟩
  | selectFailed hpc => exact h.goto _
  | timeout hpc => exact h
  | shutDown res hpc =>
      have hall := hT.removeAll (P := Counted m)
        (fun {st c post} hT h hl => h.removed hT (show st.ctx.clients = [] ++ c :: post from hl)) h
      exact hall.2.goto _
  | ready fds server hpc => exact ⟨h.max, h.count, h.le, h.admitted⟩
  | walked hpc => exact h.goto _
  | skip hl hpc => exact h.goto _
  | pick hl hpc => exact h.goto _
  | line hl hpc hret => exact (h.afterRead hT hl _).goto _
  | emptyLine hl hpc hret hdst => exact (h.afterRead hT hl _).goto _
  | gone hl hpc hret =>
      exact ((h.afterRead hT hl _).removed (hT.afterRead hl _) (hT.afterRead_clients hl _)).goto _
  | process hl hpc => exact (h.record _).goto _
  | respond r hl hpc => exact (h.record _).goto _
  | written ret hl hpc => exact (h.record _).goto _
  | @writeFailed pre c post r ret hl hpc hret =>
      have hT' : (st.record (.written (connOf st.conns c.socket) c.socket r)).Tables :=
        hT.record (by trivial)
      exact ((h.record _).removed hT' hl).goto _
  | noAccept hpc => exact h.goto _
  | acceptFailed hpc => exact h.goto _
  | @admitted socket a sent hpc hfresh hadm =>
      -- `num_clients < max_clients` leaves room for one more
      have hlt : st.ctx.numClients.toNat < m.toNat := by
        have hne : m ≠ 0 := fun h0 => by
          rw [h0] at hm
          exact absurd hm (by decide)
        simpa [JapiContext.admits, h.max, hne, UInt16.lt_iff_toNat_lt] using hadm
      have hm' := m.toNat_lt
      have hcount := h.count
      refine ⟨h.max, ?_, ?_, ?_⟩
      · simp only [UInt16.toNat_add, UInt16.reduceToNat, List.length_cons]
        omega
      · simp only [List.length_cons]
        omega
      · intro i c hi hopen
        rcases getElem?_concat.mp hi with hi | ⟨-, rfl⟩
        · exact List.mem_cons_of_mem _ (h.admitted i c hi hopen)
        · exact List.mem_cons_self
  | leaked sent hpc hfresh hadm => exact absurd rfl halloc
  | @refused socket malloc sent hpc hfresh hadm =>
      refine ⟨h.max, h.count, h.le, ?_⟩
      intro i c hi hopen
      obtain ⟨c', hi', hs', -, -, ho'⟩ := getElem?_modify_shut hi
      rw [hopen] at ho'
      rcases getElem?_concat.mp hi' with hi' | ⟨rfl, -⟩
      · have hlt : i < st.conns.length := (List.getElem?_eq_some_iff.mp hi').1
        rw [if_neg hlt.ne'] at ho'
        rw [← hs']
        exact h.admitted i c' hi' ho'.symm
      · rw [if_pos rfl] at ho'
        cases ho'

theorem run_counted {env : CreadlineEnv} {m : UInt16} (hm : 1 ≤ m) {ctx : JapiContext}
    (hctx : ctx.maxClients = m) {serverSocket : Int} {es : List Event}
    (hes : ∀ e ∈ es, Allocates e ∧ KeepsMax m e) {st : Server}
    (hrun : run (step env) (start ctx serverSocket) es = some st) : st.Counted m := by
  have hstart : (start ctx serverSocket).Counted m := ⟨hctx, rfl, Nat.zero_le _, by simp [start]⟩
  have hstep : ∀ {s e s'}, Sound s ∧ Counted m s → (Allocates e ∧ KeepsMax m e) →
      step env s e = some s' → Sound s' ∧ Counted m s' :=
    fun h he hs => ⟨h.1.step hs, h.2.step hm h.1 he.1 he.2 hs⟩
  exact (run_invariant_of_meets (fun _ e => Allocates e ∧ KeepsMax m e) hstep
    ⟨sound_start ctx serverSocket, hstart⟩ (meets_of_forall hes) hrun).2

theorem Tables.isOpen_iff {st : Server} (h : st.Tables) (s : Int) :
    (∃ (i : Nat) (c : Conn), st.conns[i]? = some c ∧ c.isOpen = true ∧ c.socket = s) ↔
      ∃ i b, Entry.accepted i s b ∈ st.log ∧ Entry.closed (some i) s ∉ st.log := by
  constructor
  · rintro ⟨i, c, hi, hopen, rfl⟩
    obtain ⟨b, hb⟩ := (h.traced.accepted i c.socket).mpr ⟨c, hi, rfl⟩
    refine ⟨i, b, hb, ?_⟩
    intro hcl
    have hcount := h.traced.closes i c hi
    rw [if_pos hopen, List.countP_eq_zero] at hcount
    exact hcount _ hcl (by simp [Entry.closes])
  · rintro ⟨i, b, hb, hcl⟩
    obtain ⟨c, hi, rfl⟩ := (h.traced.accepted i s).mp ⟨b, hb⟩
    refine ⟨i, c, hi, ?_, rfl⟩
    by_contra hopen
    have hcount := h.traced.closes i c hi
    rw [if_neg hopen] at hcount
    obtain ⟨e, he, hce⟩ := List.countP_pos_iff.mp (by omega : 0 < st.log.countP (Entry.closes i))
    -- the entry that closed it closed its own socket
    cases e with
    | closed co s' =>
        cases co with
        | none => cases hce
        | some j =>
            obtain rfl : j = i := by simpa [Entry.closes] using hce
            obtain ⟨k, d, hk, hd, hs'⟩ := h.traced.closed _ _ he
            cases hk
            rw [hi] at hd
            cases hd
            exact hcl (hs' ▸ he)
    | _ => cases hce

/-- **The client list and the open connections agree**, in every state of every
run with a limit: the list holds the accepted sockets that were not closed, each
once; the 16-bit counter is its length and within the limit; a socket that is
not admitted is closed next, and no connection is closed twice. -/
theorem run_clients {env : CreadlineEnv} {m : UInt16} (hm : 1 ≤ m) {ctx : JapiContext}
    (hctx : ctx.maxClients = m) {serverSocket : Int} {es : List Event}
    (hes : ∀ e ∈ es, Allocates e ∧ KeepsMax m e) {st : Server}
    (hrun : run (step env) (start ctx serverSocket) es = some st) :
    st.ctx.sockets.Nodup ∧
      (∀ s, s ∈ st.ctx.sockets ↔
        ∃ i b, Entry.accepted i s b ∈ st.log ∧ Entry.closed (some i) s ∉ st.log) ∧
      (st.ctx.numClients.toNat = st.ctx.clients.length ∧ st.ctx.clients.length ≤ m.toNat) ∧
      (∀ pre i s post, st.log = pre ++ .accepted i s false :: post →
        ∃ post', post = .closed (some i) s :: post') ∧
      (∀ i, st.log.countP (Entry.closes i) ≤ 1) ∧ ∀ s, Entry.closed none s ∉ st.log := by
  have hS := run_sound hrun
  have hC := run_counted hm hctx hes hrun
  have hO := run_inOrder hrun
  refine ⟨hS.sockets, ?_, ⟨hC.count, hC.le⟩, ?_, ?_, ?_⟩
  · intro s
    rw [← hS.isOpen_iff]
    constructor
    · exact hS.connected s
    · rintro ⟨i, c, hi, hopen, rfl⟩
      exact hC.admitted i c hi hopen
  · intro pre i s post hlog
    refine hO.ordered.closed ?_ hlog
    intro hlast
    have := hO.last
    unfold Awaits at this
    split at this
    · obtain ⟨c, l, -, hlast'⟩ := this
      rw [hlast] at hlast'
      cases hlast'
    · exact this _ hlast
  · intro i
    cases hi : st.conns[i]? with
    | some c =>
        rw [hS.traced.closes i c hi]
        split <;> simp
    | none =>
        refine (List.countP_eq_zero.mpr ?_).le.trans (Nat.zero_le 1)
        intro e he hce
        cases e with
        | closed co s =>
            obtain ⟨k, d, rfl, hd, -⟩ := hS.traced.closed co s he
            obtain rfl : k = i := by simpa [Entry.closes] using hce
            simp [hi] at hd
        | _ => cases hce
  · intro s hs
    obtain ⟨i, c, hco, -⟩ := hS.traced.closed none s hs
    cases hco

/-- With a limit of one, the second of two accepted sockets is refused. -/
theorem run_clients_refused :
    ∃ st, run (step libEnv) (start ⟨0, 1, [], [], [], false, false, true⟩ 3)
        [.select (.ready [] true), .visit, .accept 4 [] (some 0),
          .select (.ready [] true), .visit, .visit, .accept 5 [] (some 1)] = some st ∧
      st.log = [.accepted 0 4 true, .accepted 1 5 false, .closed (some 1) 5] ∧
      st.ctx.sockets.Nodup ∧ st.ctx.numClients.toNat = st.ctx.clients.length := by
  refine ⟨_, rfl, rfl, ?_⟩
  have h := run_clients (m := 1) (by decide) (by rfl) (by simp [Allocates, KeepsMax])
    (show run (step libEnv) (start ⟨0, 1, [], [], [], false, false, true⟩ 3)
        [.select (.ready [] true), .visit, .accept 4 [] (some 0),
          .select (.ready [] true), .visit, .visit, .accept 5 [] (some 1)] = some _ from rfl)
  exact ⟨h.1, h.2.2.1.1⟩

end Server

end Libjapi
