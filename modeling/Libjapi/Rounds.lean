/-
# `Libjapi.Rounds` — a turn of the `while (1)` loop, from one `select()` to the next

A turn goes through the clients with a saved `following_client`, stays with a
client as long as something is carried over for it, and accepts a new one at its
end.  A `read()` is taken to return: one that finds nothing waits until something
comes or the peer closes the connection.  So a turn can take as long as a peer
likes, but whatever the clients send and whatever each call returns,

    it takes no more calls than the bytes of the clients bound, with those
    that are still to come                                              `run_turn`
    where it ends, it has come to every client once, in the order of the
    list, and read from exactly those that `select()` reported          `run_visits`
    behind `japi_shutdown` it is the last one                           `run_shutdown`

The rank is `callsLeft`.  A call of `creadline_r` that delivers a line takes the
line's newline with it, so the bytes that are left for the client become fewer
(`creadlineR_consumes`); a call that delivers none removes the client.
-/
import Libjapi.ServerLines
import Libjapi.CreadlineAccess
import Libjapi.StartServer

namespace Libjapi

/-! ## A line takes its newline with it -/

theorem readLoop_length {env : CreadlineEnv} {lb : List Byte} {p : Nat} {rest : List ReadRes} :
    ∀ {input : List ReadRes} {b : Linebuf}, readLoop env input b = .newline lb p rest →
      p < lb.length ∧
        lb.length + (bytesOf rest).length = b.bytes.length + (bytesOf input).length
  | [], b, h => by
      simp only [readLoop] at h
      cases hg : growLinebuf env b with
      | none => simp [hg] at h
      | some b' =>
          simp only [hg] at h
          exact absurd h (atEof_ne_newline _ _)
  | r :: input, b, h => by
      simp only [readLoop] at h
      cases hg : growLinebuf env b with
      | none => simp [hg] at h
      | some b' =>
          have hbytes := growLinebuf_bytes hg
          simp only [hg] at h
          cases r with
          | eintr =>
              have hloop : readLoop env input b' = .newline lb p rest := h
              have hlen := readLoop_length hloop
              rw [hbytes] at hlen
              exact hlen
          | error => cases h
          | eof => exact absurd h (atEof_ne_newline _ _)
          | data c =>
              simp only [hbytes] at h
              cases hpos : strnpos c.bytes nl with
              | some q =>
                  simp only [hpos] at h
                  cases h
                  have hlt := strnpos_lt hpos
                  simp only [List.length_append, bytesOf]
                  omega
              | none =>
                  simp only [hpos] at h
                  obtain ⟨hlt, hlen⟩ := readLoop_length h
                  simp only [List.length_append] at hlen
                  simp only [List.length_append, bytesOf]
                  omega

/-- **A call that delivers a line leaves fewer bytes.** -/
theorem creadlineR_consumes {env : CreadlineEnv} {buffer : CreadlineBuf} {input : List ReadRes}
    {d : List Byte} (h : (creadlineR env buffer input).dst = some d) :
    (creadlineR env buffer input).buffer.nbytes +
        (bytesOf (creadlineR env buffer input).rest).length <
      buffer.nbytes + (bytesOf input).length := by
  rw [creadlineR_eq] at h ⊢
  split at h
  · rename_i hmalloc
    simp only [if_pos hmalloc]
    cases hx : searchExit env buffer.restored input with
    | newline lb p rest =>
        obtain ⟨hlt, hlen⟩ : p < lb.length ∧
            lb.length + (bytesOf rest).length = buffer.nbytes + (bytesOf input).length := by
          rw [← length_restored buffer]
          unfold searchExit at hx
          cases hpos : strnpos buffer.restored nl with
          | some q =>
              simp only [hpos, LoopExit.newline.injEq] at hx
              obtain ⟨rfl, rfl, rfl⟩ := hx
              exact ⟨strnpos_lt hpos, rfl⟩
          | none =>
              simp only [hpos] at hx
              exact readLoop_length hx
        have hkept : (takeLine { buffer with nbytes := 0 } lb p rest).buffer.nbytes
            = lb.length - p - 1 := by
          simp only [takeLine]
          split
          · rfl
          · rename_i hnone
            exact (Nat.eq_zero_of_not_pos hnone).symm
        have hrest : (takeLine { buffer with nbytes := 0 } lb p rest).rest = rest := rfl
        simp only [hkept, hrest]
        omega
    | eof rest => simp [hx] at h
    | error rest => simp [hx] at h
  · cases h

namespace Server

/-! ## The clients ahead -/

/-- The nodes from a pointer on. -/
def fromAddr (cs : List JapiClient) : Option Addr → List JapiClient
  | none => []
  | some a => cs.dropWhile (·.addr ≠ a)

/-- The clients the thread has yet to come to. -/
def clientsAhead (st : Server) : List JapiClient :=
  match st.pc with
  | .walk client => fromAddr st.ctx.clients client
  | .serve _ following _ => fromAddr st.ctx.clients following
  | _ => []

theorem fromAddr_headAddr {pre post : List JapiClient}
    (h : ((pre ++ post).map JapiClient.addr).Nodup) :
    fromAddr (pre ++ post) (headAddr post) = post := by
  cases post with
  | nil => rfl
  | cons c post =>
      simp only [List.map_append, List.map_cons, List.nodup_append, List.mem_map,
        List.mem_cons] at h
      have hpre : ∀ x ∈ pre, (decide (x.addr ≠ c.addr)) = true :=
        fun x hx => decide_eq_true (h.2.2 _ ⟨x, hx, rfl⟩ _ (.inl rfl))
      show (pre ++ c :: post).dropWhile _ = c :: post
      rw [List.dropWhile_append_of_pos hpre, List.dropWhile_cons_of_neg (by simp)]

/-! ## The rank -/

/-- The bytes that no line of a client was made of: what is carried over, and all that
its peer sends until it closes the connection, whether it has arrived or not. -/
def bytesToCome (st : Server) (c : JapiClient) : Nat :=
  c.crlBuffer.nbytes + (bytesOf (st.unreadOf c.socket)).length

/-- Up to three calls for a line, the visit, and the `creadline_r` that delivers none. -/
def visitCalls (st : Server) (c : JapiClient) : Nat := 3 * st.bytesToCome c + 2

/-- The calls up to the next condition of the `do … while`, and the `creadline_r` behind it. -/
def phaseCalls : ServePc → Nat
  | .read => 1
  | .write _ => 2
  | .process _ => 3

/-- A bound on the calls for the client the thread is at. -/
def clientCalls (st : Server) : Nat :=
  match st.pc with
  | .serve client _ pc =>
      ((st.clientAt client).map fun c => 3 * st.bytesToCome c + phaseCalls pc).getD 0
  | _ => 0

/-- A bound on the calls up to the next `select()`. -/
def callsLeft (st : Server) : Nat :=
  match st.pc with
  | .select | .returned _ | .fault => 0
  | .accept => 1
  | .walk _ | .serve _ _ _ => st.clientCalls + ((clientsAhead st).map st.visitCalls).sum + 2

/-- The events that are calls of the thread within a turn. -/
def inTurn : Event → Bool
  | .select _ | .outside _ => false
  | _ => true

theorem callsLeft_walk {st : Server} (hT : st.Tables) {pre post : List JapiClient}
    (hl : st.ctx.clients = pre ++ post) (hpc : st.pc = .walk (headAddr post)) :
    st.callsLeft = (post.map st.visitCalls).sum + 2 := by
  have haddrs := hT.addrs
  rw [hl] at haddrs
  simp only [callsLeft, clientCalls, clientsAhead, hpc, hl, fromAddr_headAddr haddrs, Nat.zero_add]

theorem callsLeft_serve {st : Server} (hT : st.Tables) {pre post : List JapiClient}
    {c : JapiClient} (hl : st.ctx.clients = pre ++ c :: post) {pc : ServePc}
    (hpc : st.pc = .serve c.addr (headAddr post) pc) :
    st.callsLeft =
      3 * st.bytesToCome c + phaseCalls pc + (post.map st.visitCalls).sum + 2 := by
  have haddrs := hT.addrs
  rw [hl, List.append_cons] at haddrs
  have hahead : clientsAhead st = post := by
    simp only [clientsAhead, hpc, hl]
    rw [List.append_cons, fromAddr_headAddr haddrs]
  simp only [callsLeft, clientCalls, hpc, hahead, hT.clientAt hl, Option.map_some, Option.getD_some]

/-- The condition of the `do … while` leads to a `creadline_r` or to the next client. -/
theorem callsLeft_again {st : Server} (hT : st.Tables) {pre post : List JapiClient}
    {c : JapiClient} (hl : st.ctx.clients = pre ++ c :: post)
    (hpc : st.pc = again c (headAddr post)) :
    st.callsLeft ≤ 3 * st.bytesToCome c + 1 + (post.map st.visitCalls).sum + 2 := by
  unfold again at hpc
  split at hpc
  · rw [callsLeft_serve hT hl hpc]
    exact Nat.le_refl _
  · rw [List.append_cons] at hl
    rw [callsLeft_walk hT hl hpc]
    omega

/-! ## What a step leaves of it -/

theorem unreadOf_frame {st st' : Server} (hT : st.Tables) (hT' : st'.Tables) {x : JapiClient}
    (hx : x ∈ st.ctx.clients)
    (h : ∀ (j : Nat) (conn : Conn), st.conns[j]? = some conn → conn.socket = x.socket →
      conn.isOpen = true → st'.conns[j]? = some conn) :
    st'.unreadOf x.socket = st.unreadOf x.socket := by
  obtain ⟨pre, post, hl⟩ := List.append_of_mem hx
  obtain ⟨j, conn, hj, hopen, hsock, hof⟩ := hT.conn hl
  have hj' := h j conn hj hsock hopen
  have hof' : connOf st'.conns x.socket = some j := hsock ▸ hT'.openOnce.connOf_eq hj' hopen
  rw [Tables.unreadOf hof hj, Tables.unreadOf hof' hj']

theorem visitCalls_afterRead {st : Server} (hT : st.Tables) {pre post : List JapiClient}
    {c : JapiClient} (hl : st.ctx.clients = pre ++ c :: post) (r : Creadline) :
    post.map (st.afterRead c r).visitCalls = post.map st.visitCalls := by
  obtain ⟨i, conn, hi, -, hsock, hof⟩ := hT.conn hl
  refine List.map_congr_left ?_
  intro x hx
  have hne : x.socket ≠ c.socket := (hT.socket_ne hl).2 x hx
  have hunread : (st.afterRead c r).unreadOf x.socket = st.unreadOf x.socket := by
    refine unreadOf_frame hT (hT.afterRead hl r) (by simp [hl, hx]) ?_
    intro j conn' hj hsock' _
    have hij : i ≠ j := by
      rintro rfl
      rw [hi] at hj
      cases hj
      exact hne (hsock'.symm.trans hsock)
    simp [afterRead, hof, hj, hij]
  simp only [visitCalls, bytesToCome, hunread]

theorem visitCalls_removeClient {st : Server} (hT : st.Tables) {pre post : List JapiClient}
    {c : JapiClient} (hl : st.ctx.clients = pre ++ c :: post) :
    post.map (st.removeClient c.socket).visitCalls = post.map st.visitCalls := by
  obtain ⟨i, conn, hi, -, hsock, -, heq⟩ := hT.removeClient hl
  refine List.map_congr_left ?_
  intro x hx
  have hne : x.socket ≠ c.socket := (hT.socket_ne hl).2 x hx
  have hunread : (st.removeClient c.socket).unreadOf x.socket = st.unreadOf x.socket := by
    refine unreadOf_frame hT (hT.removed hl) (by simp [hl, hx]) ?_
    intro j conn' hj hsock' _
    have hij : i ≠ j := by
      rintro rfl
      rw [hi] at hj
      cases hj
      exact hne (hsock'.symm.trans hsock)
    rw [heq]
    simp [hj, hij]
  simp only [visitCalls, bytesToCome, hunread]

theorem clients_removed {st : Server} (hT : st.Tables) {pre post : List JapiClient}
    {c : JapiClient} (hl : st.ctx.clients = pre ++ c :: post) :
    (st.removeClient c.socket).ctx.clients = pre ++ post := by
  obtain ⟨i, conn, -, -, -, -, heq⟩ := hT.removeClient hl
  rw [heq]

theorem fdrd_removed {st : Server} (hT : st.Tables) {pre post : List JapiClient}
    {c : JapiClient} (hl : st.ctx.clients = pre ++ c :: post) :
    (st.removeClient c.socket).fdrd = st.fdrd := by
  obtain ⟨i, conn, -, -, -, -, heq⟩ := hT.removeClient hl
  rw [heq]

theorem callsLeft_removed {st : Server} (hT : st.Tables) {pre post : List JapiClient}
    {c : JapiClient} (hl : st.ctx.clients = pre ++ c :: post) :
    ((st.removeClient c.socket).goto (.walk (headAddr post))).callsLeft =
      (post.map st.visitCalls).sum + 2 := by
  have hT' := (hT.removed hl).goto (.walk (headAddr post))
  rw [callsLeft_walk hT' (clients_removed hT hl) rfl, ← visitCalls_removeClient hT hl]
  rfl

theorem bytesToCome_afterRead {env : CreadlineEnv} {st : Server} (hT : st.Tables)
    {pre post : List JapiClient} {c : JapiClient} (hl : st.ctx.clients = pre ++ c :: post)
    {d : List Byte} (hd : (st.lineOf env c).dst = some d) :
    (st.afterRead c (st.lineOf env c)).bytesToCome
        { c with crlBuffer := (st.lineOf env c).buffer } < st.bytesToCome c := by
  obtain ⟨i, conn, hi, hopen, hsock, hof⟩ := hT.conn hl
  have hline : st.lineOf env c = creadlineR env c.crlBuffer conn.unread := by
    rw [lineOf, Tables.unreadOf hof hi]
  have hself : (st.afterRead c (st.lineOf env c)).conns[i]? =
      some { conn with unread := (st.lineOf env c).rest } := by
    simp [afterRead, hof, hi]
  have hof' : connOf (st.afterRead c (st.lineOf env c)).conns c.socket = some i := by
    have hone := (hT.afterRead hl (st.lineOf env c)).openOnce.connOf_eq hself hopen
    rwa [hsock] at hone
  have hunread : (st.afterRead c (st.lineOf env c)).unreadOf c.socket = (st.lineOf env c).rest :=
    Tables.unreadOf hof' hself
  rw [hline] at hd
  simp only [bytesToCome, hunread, Tables.unreadOf hof hi]
  rw [hline]
  exact creadlineR_consumes hd

theorem dst_of_ret {env : CreadlineEnv} {st : Server} {c : JapiClient}
    (hret : (st.lineOf env c).ret > 0) : ∃ d, (st.lineOf env c).dst = some d := by
  cases hd : (st.lineOf env c).dst with
  | none => exact absurd (creadlineR_ret_of_none hd) (Int.not_le.mpr hret)
  | some d => exact ⟨d, rfl⟩

/-- **Every call in a turn lowers the rank**, and what happens outside leaves it. -/
theorem callsLeft_step {env : CreadlineEnv} {st st' : Server} {e : Event} (hS : st.Sound)
    (he : ∀ res, e ≠ .select res) (hs : step env st e = some st') :
    (if inTurn e then 1 else 0) + st'.callsLeft ≤ st.callsLeft := by
  have hT := hS.toTables
  have hT' := (hS.step hs).toTables
  cases hS.stepped hs with
  | outside ctx => exact (Nat.zero_add _).le
  | selectFailed => exact absurd rfl (he _)
  | timeout => exact absurd rfl (he _)
  | shutDown res => exact absurd rfl (he _)
  | ready => exact absurd rfl (he _)
  | walked hpc =>
      rw [callsLeft_walk hT (List.append_nil st.ctx.clients).symm hpc]
      exact Nat.le_refl _
  | @skip pre c post hl hpc =>
      have hwalk := callsLeft_walk hT hl hpc
      rw [List.append_cons] at hl
      have hwalk' := callsLeft_walk hT' hl rfl
      rw [hwalk, hwalk', List.map_cons, List.sum_cons]
      show 1 + ((post.map st.visitCalls).sum + 2) ≤ _
      simp only [visitCalls]
      omega
  | @pick pre c post hl hpc =>
      have hserve := callsLeft_serve hT' hl rfl
      rw [callsLeft_walk hT hl hpc, hserve, List.map_cons, List.sum_cons]
      show 1 + (3 * st.bytesToCome c + 1 + (post.map st.visitCalls).sum + 2) ≤ _
      simp only [visitCalls]
      omega
  | @line pre c post hl hpc hret =>
      obtain ⟨d, hd⟩ := dst_of_ret hret
      have hlt := bytesToCome_afterRead hT hl hd
      have hserve := callsLeft_serve hT' (hT.afterRead_clients hl (st.lineOf env c)) rfl
      have hpost := visitCalls_afterRead hT hl (st.lineOf env c)
      rw [callsLeft_serve hT hl hpc, hserve]
      show 1 + (3 * (st.afterRead c (st.lineOf env c)).bytesToCome _ + 3 +
        (post.map (st.afterRead c (st.lineOf env c)).visitCalls).sum + 2) ≤ _
      rw [hpost]
      simp only [phaseCalls]
      omega
  | @emptyLine pre c post d hl hpc hret hdst =>
      have hlt := bytesToCome_afterRead hT hl hdst
      have hagain := callsLeft_again hT' (hT.afterRead_clients hl (st.lineOf env c)) rfl
      have hpost := visitCalls_afterRead hT hl (st.lineOf env c)
      rw [callsLeft_serve hT hl hpc]
      refine (Nat.add_le_add_left hagain 1).trans ?_
      show 1 + (3 * (st.afterRead c (st.lineOf env c)).bytesToCome _ + 1 +
        (post.map (st.afterRead c (st.lineOf env c)).visitCalls).sum + 2) ≤ _
      rw [hpost]
      simp only [phaseCalls]
      omega
  | @gone pre c post hl hpc hret =>
      have hremoved := callsLeft_removed (hT.afterRead hl (st.lineOf env c))
        (hT.afterRead_clients hl (st.lineOf env c))
      rw [visitCalls_afterRead hT hl] at hremoved
      rw [callsLeft_serve hT hl hpc]
      refine (Nat.add_le_add_left hremoved.le 1).trans ?_
      simp only [phaseCalls]
      omega
  | @process pre c post request hl hpc =>
      have hagain := callsLeft_again hT' hl rfl
      rw [callsLeft_serve hT hl hpc]
      refine (Nat.add_le_add_left hagain 1).trans ?_
      show 1 + (3 * st.bytesToCome c + 1 + (post.map st.visitCalls).sum + 2) ≤ _
      simp only [phaseCalls]
      omega
  | @respond pre c post request r hl hpc =>
      have hserve := callsLeft_serve hT' hl rfl
      rw [callsLeft_serve hT hl hpc, hserve]
      show 1 + (3 * st.bytesToCome c + 2 + (post.map st.visitCalls).sum + 2) ≤ _
      simp only [phaseCalls]
      omega
  | @written pre c post r ret hl hpc =>
      have hagain := callsLeft_again hT' hl rfl
      rw [callsLeft_serve hT hl hpc]
      refine (Nat.add_le_add_left hagain 1).trans ?_
      show 1 + (3 * st.bytesToCome c + 1 + (post.map st.visitCalls).sum + 2) ≤ _
      simp only [phaseCalls]
      omega
  | @writeFailed pre c post r ret hl hpc hret =>
      have hT₁ : (st.record (.written (connOf st.conns c.socket) c.socket r)).Tables :=
        hT.record (by trivial)
      have hremoved := callsLeft_removed hT₁ hl
      rw [callsLeft_serve hT hl hpc]
      refine (Nat.add_le_add_left hremoved.le 1).trans ?_
      show 1 + ((post.map st.visitCalls).sum + 2) ≤ _
      simp only [phaseCalls]
      omega
  | noAccept hpc => simp [callsLeft, hpc, inTurn, Server.goto]
  | acceptFailed hpc => simp [callsLeft, hpc, inTurn, Server.goto]
  | admitted sent hpc hfresh hadm => simp [callsLeft, hpc, inTurn]
  | leaked sent hpc hfresh hadm => simp [callsLeft, hpc, inTurn]
  | refused sent hpc hfresh hadm => simp [callsLeft, hpc, inTurn]

/-! ## The turn ends -/

theorem next_call {env : CreadlineEnv} {st : Server} (hS : st.Sound) (hpc : st.pc ≠ .select)
    (hret : ∀ r, st.pc ≠ .returned r) : ∃ e, inTurn e = true ∧ (step env st e).isSome := by
  cases hat : st.pc with
  | select => exact absurd hat hpc
  | walk client => exact ⟨.visit, rfl, by simp [step, hat]⟩
  | serve client following phase =>
      cases phase with
      | read => exact ⟨.read, rfl, by simp [step, hat]⟩
      | process request => exact ⟨.process none, rfl, by simp [step, hat]⟩
      | write response => exact ⟨.write 0, rfl, by simp [step, hat]⟩
  | accept =>
      cases hready : st.serverReady with
      | false => exact ⟨.noAccept, rfl, by simp [step, hat, hready]⟩
      | true => exact ⟨.acceptFailed, rfl, by simp [step, hat, hready]⟩
  | returned r => exact absurd hat (hret r)
  | fault =>
      have hptr := hS.pointers
      rw [hat] at hptr
      exact hptr.elim

/-- **The calls of a turn.**  From a `select()` on, the thread makes at most three calls
for each byte of a client, with those that are still to come, and two for each client,
and two; and until it is back at `select()` or has returned, it is at one of these
calls. -/
theorem run_turn {env : CreadlineEnv} {ctx : JapiContext} {serverSocket : Int}
    {es₁ es₂ : List Event} {res : SelectRes} {st₁ st₂ : Server}
    (hrun₁ : run (step env) (start ctx serverSocket) (es₁ ++ [.select res]) = some st₁)
    (hes : ∀ e ∈ es₂, ∀ res, e ≠ .select res) (hrun₂ : run (step env) st₁ es₂ = some st₂) :
    es₂.countP inTurn ≤ (st₁.ctx.clients.map fun c => 3 * st₁.bytesToCome c + 2).sum + 2 ∧
      (st₂.pc ≠ .select → (∀ r, st₂.pc ≠ .returned r) →
        ∃ e, inTurn e = true ∧ (step env st₂ e).isSome) := by
  have hS₁ := run_sound hrun₁
  have hkeeps : ∀ {s : Server} {e : Event} {s' : Server},
      s.Sound → step env s e = some s' → s'.Sound := fun h hs => h.step hs
  have hcount : es₂.countP inTurn + st₂.callsLeft ≤ st₁.callsLeft :=
    run_rank_le (P := fun e => ∀ res, e ≠ Event.select res) (p := inTurn)
      (fun hS _ hs => hkeeps hS hs) (fun hS he hs => callsLeft_step hS he hs) hS₁ hes hrun₂
  refine ⟨?_, next_call (run_invariant hkeeps hS₁ hrun₂)⟩
  refine (Nat.le_of_add_right_le hcount).trans ?_
  obtain ⟨st, hrun, hselect⟩ := run_append.mp hrun₁
  obtain ⟨st', hs, hnil⟩ := run_cons.mp hselect
  cases hnil
  cases (run_sound hrun).stepped hs with
  | ready fds server hpc =>
      have hwalk := callsLeft_walk hS₁.toTables (List.nil_append _).symm rfl
      exact hwalk.le
  | timeout hpc => simp [callsLeft, hpc]
  | _ => exact Nat.zero_le _

deriving instance DecidableEq for ServePc, Pc

/-- Two clients are accepted, each of which sends a line. -/
def twoAccepted : List Event :=
  [.select (.ready [] true), .visit, .accept 5 [.data ⟨[50, 10], by decide, by decide⟩] (some 0),
    .select (.ready [] true), .visit, .visit,
    .accept 6 [.data ⟨[49, 10], by decide, by decide⟩] (some 1)]

/-- The newer one is not reported, the other one is served. -/
def olderServed : List Event := [.visit, .visit, .read, .process none, .visit]

theorem run_turn_older :
    ∃ st₁ st₂ : Server,
      run (step ⟨64, fun _ => true⟩) (start ⟨0, 0, [], [], [], false, false, true⟩ 3)
        (twoAccepted ++ [.select (.ready [5] false)]) = some st₁ ∧
      run (step ⟨64, fun _ => true⟩) st₁ olderServed = some st₂ ∧
      olderServed.countP inTurn ≤
        (st₁.ctx.clients.map fun c => 3 * st₁.bytesToCome c + 2).sum + 2 := by
  have hsome : (run (step ⟨64, fun _ => true⟩) (start ⟨0, 0, [], [], [], false, false, true⟩ 3)
      (twoAccepted ++ [.select (.ready [5] false)] ++ olderServed)).isSome = true := by
    decide +kernel
  obtain ⟨st₂, hrun⟩ := Option.isSome_iff_exists.mp hsome
  obtain ⟨st₁, hrun₁, hrun₂⟩ := run_append.mp hrun
  exact ⟨st₁, st₂, hrun₁, hrun₂, (run_turn hrun₁ (by simp [olderServed]) hrun₂).1⟩

/-! ## Every client gets its turn -/

/-- The thread comes to a node, or calls `creadline_r` for it. -/
inductive Contact where
  | visited (client : Addr)
  | read (client : Addr)

/-- The contact a step is. -/
def contact (st : Server) : Event → Option Contact
  | .visit => match st.pc with
      | .walk (some client) => some (.visited client)
      | _ => none
  | .read => match st.pc with
      | .serve client _ .read => some (.read client)
      | _ => none
  | _ => none

/-- A client is visited, and read from if and only if it was reported. -/
def Contacted (fds : List Int) (c : JapiClient) (contacts : List Contact) : Prop :=
  ∃ n, contacts = .visited c.addr :: List.replicate n (.read c.addr) ∧ (0 < n ↔ c.socket ∈ fds)

/-- One client after the other is. -/
def Contacts (fds : List Int) (cs : List JapiClient) (contacts : List Contact) : Prop :=
  ∃ blocks : List (List Contact), contacts = blocks.flatten ∧
    List.Forall₂ (Contacted fds) cs blocks

theorem Contacts.concat {fds : List Int} {cs : List JapiClient} {contacts block : List Contact}
    (h : Contacts fds cs contacts) {c : JapiClient} (hc : Contacted fds c block) :
    Contacts fds (cs ++ [c]) (contacts ++ block) := by
  obtain ⟨blocks, rfl, hall⟩ := h
  exact ⟨blocks ++ [block], by simp, List.rel_append hall (.cons hc .nil)⟩

/-- The contacts so far: the client that is served is not done with. -/
def ContactsAt (fds : List Int) (done : List JapiClient) (contacts : List Contact) : Pc → Prop
  | .serve client _ phase => ∃ cs c before n, done = cs ++ [c] ∧ c.addr = client ∧ c.socket ∈ fds ∧
      contacts = before ++ .visited client :: List.replicate n (.read client) ∧
      Contacts fds cs before ∧ (phase = .read ∨ 0 < n)
  | _ => Contacts fds done contacts

theorem ContactsAt.read {fds : List Int} {done : List JapiClient} {contacts : List Contact}
    {client : Addr} {f : Option Addr} {phase : ServePc}
    (h : ContactsAt fds done contacts (.serve client f phase)) (f' : Option Addr)
    (phase' : ServePc) :
    ContactsAt fds done (contacts ++ [.read client]) (.serve client f' phase') := by
  obtain ⟨cs, c, before, n, rfl, haddr, hfd, rfl, hcs, -⟩ := h
  refine ⟨cs, c, before, n + 1, rfl, haddr, hfd, ?_, hcs, .inr n.succ_pos⟩
  rw [List.replicate_succ', List.append_assoc, List.cons_append]

theorem ContactsAt.stays {fds : List Int} {done : List JapiClient} {contacts : List Contact}
    {client : Addr} {f : Option Addr} {phase : ServePc}
    (h : ContactsAt fds done contacts (.serve client f phase)) (hphase : phase ≠ .read)
    (f' : Option Addr) (phase' : ServePc) :
    ContactsAt fds done contacts (.serve client f' phase') := by
  obtain ⟨cs, c, before, n, hdone, haddr, hfd, hcontacts, hcs, hread⟩ := h
  exact ⟨cs, c, before, n, hdone, haddr, hfd, hcontacts, hcs, .inr (hread.resolve_left hphase)⟩

theorem ContactsAt.done {fds : List Int} {done : List JapiClient} {contacts : List Contact}
    {client : Addr} {f : Option Addr} {phase : ServePc}
    (h : ContactsAt fds done contacts (.serve client f phase)) (hphase : phase ≠ .read) :
    Contacts fds done contacts := by
  obtain ⟨cs, c, before, n, rfl, rfl, hfd, rfl, hcs, hread⟩ := h
  exact hcs.concat ⟨n, rfl, iff_of_true (hread.resolve_left hphase) hfd⟩

theorem ContactsAt.again {fds : List Int} {done : List JapiClient} {contacts : List Contact}
    {c : JapiClient} {f : Option Addr} {phase : ServePc}
    (h : ContactsAt fds done contacts (.serve c.addr f phase)) (hphase : phase ≠ .read)
    (f' : Option Addr) : ContactsAt fds done contacts (again c f') := by
  unfold Server.again
  split
  · exact h.stays hphase f' .read
  · exact h.done hphase

/-- What a turn keeps: the clients `done` are those in front of the ones ahead. -/
structure Turn (cs : List JapiClient) (fds : List Int) (contacts : List Contact) (st : Server) :
    Prop where
  sound : st.Sound
  fdrd : st.fdrd = fds
  split : ∃ done, cs = done ++ clientsAhead st ∧ ContactsAt fds done contacts st.pc

theorem clientsAhead_serve {st : Server} (hT : st.Tables) {pre post : List JapiClient}
    {c : JapiClient} (hl : st.ctx.clients = pre ++ c :: post) {phase : ServePc}
    (hpc : st.pc = .serve c.addr (headAddr post) phase) : clientsAhead st = post := by
  have haddrs := hT.addrs
  rw [List.append_cons] at hl
  rw [hl] at haddrs
  simp only [clientsAhead, hpc, hl, fromAddr_headAddr haddrs]

theorem clientsAhead_walk {st : Server} (hT : st.Tables) {pre post : List JapiClient}
    (hl : st.ctx.clients = pre ++ post) (hpc : st.pc = .walk (headAddr post)) :
    clientsAhead st = post := by
  have haddrs := hT.addrs
  rw [hl] at haddrs
  simp only [clientsAhead, hpc, hl, fromAddr_headAddr haddrs]

theorem clientsAhead_again {st : Server} (hT : st.Tables) {pre post : List JapiClient}
    {c : JapiClient} (hl : st.ctx.clients = pre ++ c :: post)
    (hpc : st.pc = again c (headAddr post)) : clientsAhead st = post := by
  unfold again at hpc
  split at hpc
  · exact clientsAhead_serve hT hl hpc
  · rw [List.append_cons] at hl
    exact clientsAhead_walk hT hl hpc

theorem ready_of_pick {env : CreadlineEnv} {st : Server} (hT : st.Tables)
    {pre post : List JapiClient} {c : JapiClient} (hl : st.ctx.clients = pre ++ c :: post)
    (hpc : st.pc = .walk (some c.addr)) {f : Option Addr}
    (hs : step env st .visit = some (st.goto (.serve c.addr f .read))) :
    c.socket ∈ st.fdrd := by
  by_contra hnot
  have hskip : step env st .visit =
      some (st.goto (.walk (nextOf st.ctx.clients c.addr))) := by
    simp only [step, hpc, onVisit, hT.clientAt hl, if_neg hnot]
  have hpcs := congrArg (Option.map Server.pc) (hskip.symm.trans hs)
  cases hpcs

theorem not_ready_of_skip {env : CreadlineEnv} {st : Server} (hT : st.Tables)
    {pre post : List JapiClient} {c : JapiClient} (hl : st.ctx.clients = pre ++ c :: post)
    (hpc : st.pc = .walk (some c.addr)) {f : Option Addr}
    (hs : step env st .visit = some (st.goto (.walk f))) : c.socket ∉ st.fdrd := by
  intro hready
  have hpick : step env st .visit =
      some (st.goto (.serve c.addr (nextOf st.ctx.clients c.addr) .read)) := by
    simp only [step, hpc, onVisit, hT.clientAt hl, if_pos hready]
  have hpcs := congrArg (Option.map Server.pc) (hpick.symm.trans hs)
  cases hpcs

theorem Turn.over {cs : List JapiClient} {fds : List Int} {contacts : List Contact}
    {st st' : Server} (h : Turn cs fds contacts st) (hpc : st.pc = .accept) (hS' : st'.Sound)
    (hfdrd : st'.fdrd = st.fdrd) (hpc' : st'.pc = .select ∨ ∃ r, st'.pc = .returned r) :
    Turn cs fds (contacts ++ []) st' := by
  obtain ⟨done, hcs, hat⟩ := h.split
  have hnone : clientsAhead st = [] := by simp only [clientsAhead, hpc]
  rw [hpc] at hat
  rw [List.append_nil]
  refine ⟨hS', hfdrd.trans h.fdrd, done, ?_, ?_⟩
  · rw [hcs, hnone]
    rcases hpc' with hpc' | ⟨r, hpc'⟩ <;> simp only [clientsAhead, hpc']
  · rcases hpc' with hpc' | ⟨r, hpc'⟩ <;> rw [hpc'] <;> exact hat

theorem Turn.step {env : CreadlineEnv} {cs : List JapiClient} {fds : List Int}
    {contacts : List Contact} {st st' : Server} {e : Event} (h : Turn cs fds contacts st)
    (he : ∀ res, e ≠ .select res) (hs : step env st e = some st') :
    Turn cs fds (contacts ++ (contact st e).toList) st' := by
  have hT := h.sound.toTables
  have hS' := h.sound.step hs
  have hT' := hS'.toTables
  obtain ⟨done, hcs, hat⟩ := h.split
  cases h.sound.stepped hs with
  | outside ctx =>
      refine ⟨hS', h.fdrd, done, hcs, ?_⟩
      simpa only [contact, Option.toList_none, List.append_nil] using hat
  | selectFailed => exact absurd rfl (he _)
  | timeout => exact absurd rfl (he _)
  | shutDown res => exact absurd rfl (he _)
  | ready => exact absurd rfl (he _)
  | walked hpc =>
      rw [clientsAhead_walk hT (List.append_nil st.ctx.clients).symm hpc] at hcs
      rw [hpc] at hat
      refine ⟨hS', h.fdrd, done, hcs, ?_⟩
      simp only [contact, hpc, Option.toList_none, List.append_nil]
      exact hat
  | @skip pre c post hl hpc =>
      have hahead := clientsAhead_walk hT hl hpc
      have hskipped := not_ready_of_skip hT hl hpc hs
      rw [List.append_cons] at hl
      have hahead' := clientsAhead_walk hT' hl rfl
      rw [hpc] at hat
      refine ⟨hS', h.fdrd, done ++ [c], ?_, ?_⟩
      · rw [hahead', hcs, hahead, List.append_cons]
      · have hblock : Contacted fds c [.visited c.addr] := by
          refine ⟨0, rfl, iff_of_false (Nat.lt_irrefl 0) ?_⟩
          rw [← h.fdrd]
          exact hskipped
        simp only [contact, hpc]
        exact Contacts.concat hat hblock
  | @pick pre c post hl hpc =>
      have hahead := clientsAhead_walk hT hl hpc
      have hready := ready_of_pick hT hl hpc hs
      rw [hpc] at hat
      refine ⟨hS', h.fdrd, done ++ [c], ?_, ?_⟩
      · rw [clientsAhead_serve hT' hl rfl, hcs, hahead, List.append_cons]
      · rw [h.fdrd] at hready
        simp only [contact, hpc]
        exact ⟨done, c, contacts, 0, rfl, rfl, hready, rfl, hat, .inl rfl⟩
  | @line pre c post hl hpc hret =>
      rw [hpc] at hat
      refine ⟨hS', h.fdrd, done, ?_, ?_⟩
      · rw [clientsAhead_serve hT' (hT.afterRead_clients hl (st.lineOf env c)) rfl, hcs,
          clientsAhead_serve hT hl hpc]
      · simp only [contact, hpc]
        exact hat.read (headAddr post) _
  | @emptyLine pre c post d hl hpc hret hdst =>
      rw [hpc] at hat
      refine ⟨hS', h.fdrd, done, ?_, ?_⟩
      · rw [clientsAhead_again hT' (hT.afterRead_clients hl (st.lineOf env c)) rfl, hcs,
          clientsAhead_serve hT hl hpc]
      · have hread := hat.read (headAddr post) (.write [])
        simp only [contact, hpc]
        exact hread.again (c := { c with crlBuffer := (st.lineOf env c).buffer }) (by simp) _
  | @gone pre c post hl hpc hret =>
      rw [hpc] at hat
      have hT₁ := hT.afterRead hl (st.lineOf env c)
      have hl₁ := hT.afterRead_clients hl (st.lineOf env c)
      have hclients := clients_removed (c := { c with crlBuffer := _ }) hT₁ hl₁
      have hfdrd := fdrd_removed (c := { c with crlBuffer := _ }) hT₁ hl₁
      have hahead' := clientsAhead_walk hT' hclients rfl
      refine ⟨hS', hfdrd.trans h.fdrd, done, ?_, ?_⟩
      · rw [hahead', hcs, clientsAhead_serve hT hl hpc]
      · have hread := hat.read (headAddr post) (.write [])
        simp only [contact, hpc]
        exact hread.done (by simp)
  | @process pre c post request hl hpc =>
      rw [hpc] at hat
      refine ⟨hS', h.fdrd, done, ?_, ?_⟩
      · rw [clientsAhead_again hT' hl rfl, hcs, clientsAhead_serve hT hl hpc]
      · simp only [contact, Option.toList_none, List.append_nil]
        exact hat.again (by simp) _
  | @respond pre c post request r hl hpc =>
      rw [hpc] at hat
      refine ⟨hS', h.fdrd, done, ?_, ?_⟩
      · rw [clientsAhead_serve hT' hl rfl, hcs, clientsAhead_serve hT hl hpc]
      · simp only [contact, Option.toList_none, List.append_nil]
        exact hat.stays (by simp) _ _
  | @written pre c post r ret hl hpc =>
      rw [hpc] at hat
      refine ⟨hS', h.fdrd, done, ?_, ?_⟩
      · rw [clientsAhead_again hT' hl rfl, hcs, clientsAhead_serve hT hl hpc]
      · simp only [contact, Option.toList_none, List.append_nil]
        exact hat.again (by simp) _
  | @writeFailed pre c post r ret hl hpc hret =>
      rw [hpc] at hat
      have hT₁ : (st.record (.written (connOf st.conns c.socket) c.socket r)).Tables :=
        hT.record (by trivial)
      have hahead' := clientsAhead_walk hT' (clients_removed hT₁ hl) rfl
      refine ⟨hS', (fdrd_removed hT₁ hl).trans h.fdrd, done, ?_, ?_⟩
      · rw [hahead', hcs, clientsAhead_serve hT hl hpc]
      · simp only [contact, Option.toList_none, List.append_nil]
        exact hat.done (by simp)
  | noAccept hpc => exact h.over hpc hS' rfl (.inl rfl)
  | acceptFailed hpc => exact h.over hpc hS' rfl (.inr ⟨-1, rfl⟩)
  | admitted sent hpc hfresh hadm => exact h.over hpc hS' rfl (.inl rfl)
  | leaked sent hpc hfresh hadm => exact h.over hpc hS' rfl (.inl rfl)
  | refused sent hpc hfresh hadm => exact h.over hpc hS' rfl (.inl rfl)

theorem returned_stays (r : Int) {env : CreadlineEnv} {st st' : Server} {e : Event}
    (hpc : st.pc = .returned r) (hs : step env st e = some st') : st'.pc = .returned r := by
  cases e with
  | outside ctx =>
      cases hs
      exact hpc
  | _ => simp [step, hpc] at hs

/-- **Every client gets its turn.**  If the turn after a `select()` that reported some
descriptors comes to its `accept()`, the thread has come to every client that was
connected then, in the order of the list and to none twice, and has called
`creadline_r` for exactly those that were reported. -/
theorem run_visits {env : CreadlineEnv} {ctx : JapiContext} {serverSocket : Int}
    {es₁ es₂ : List Event} {fds : List Int} {server : Bool} {st₁ st₂ : Server}
    (hrun₁ : run (step env) (start ctx serverSocket) (es₁ ++ [.select (.ready fds server)]) =
      some st₁) (hes : ∀ e ∈ es₂, ∀ res, e ≠ .select res)
    (hrun₂ : run (step env) st₁ es₂ = some st₂) (hpc : st₂.pc = .accept) :
    Contacts fds st₁.ctx.clients (observed (step env) contact st₁ es₂) := by
  have hS₁ := run_sound hrun₁
  obtain ⟨st, hrun, hselect⟩ := run_append.mp hrun₁
  obtain ⟨st', hs, hnil⟩ := run_cons.mp hselect
  cases hnil
  cases (run_sound hrun).stepped hs with
  | ready _ _ hat =>
      have hahead := clientsAhead_walk hS₁.toTables (List.nil_append _).symm rfl
      have hturn : Turn st.ctx.clients fds []
          { st with fdrd := fds, serverReady := server, pc := .walk (headAddr st.ctx.clients) } :=
        ⟨hS₁, rfl, [], hahead.symm, [], rfl, .nil⟩
      have hturn₂ := run_observed (P := fun e => ∀ res, e ≠ Event.select res)
        (fun h he hs => h.step he hs) hturn hes hrun₂
      obtain ⟨done, hcs, hat₂⟩ := hturn₂.split
      rw [hpc] at hat₂
      have hnone : clientsAhead st₂ = [] := by simp only [clientsAhead, hpc]
      rw [hnone, List.append_nil] at hcs
      rw [← hcs] at hat₂
      exact hat₂
  | shutDown _ hat =>
      have hreturned := run_invariant (fun {s e s'} => returned_stays 0) rfl hrun₂
      rw [hpc] at hreturned
      cases hreturned

theorem run_visits_older :
    ∃ st₁ : Server,
      run (step ⟨64, fun _ => true⟩) (start ⟨0, 0, [], [], [], false, false, true⟩ 3)
        (twoAccepted ++ [.select (.ready [5] false)]) = some st₁ ∧
      Contacts [5] st₁.ctx.clients
        (observed (step ⟨64, fun _ => true⟩) contact st₁ olderServed) := by
  have hat : (run (step ⟨64, fun _ => true⟩) (start ⟨0, 0, [], [], [], false, false, true⟩ 3)
      (twoAccepted ++ [.select (.ready [5] false)] ++ olderServed)).map
        Server.pc = some .accept := by
    decide +kernel
  obtain ⟨st₂, hrun, hpc⟩ := Option.map_eq_some_iff.mp hat
  obtain ⟨st₁, hrun₁, hrun₂⟩ := run_append.mp hrun
  exact ⟨st₁, hrun₁, run_visits hrun₁ (by simp [olderServed]) hrun₂ hpc⟩

/-! ## The last turn -/

/-- The events that are calls of the thread. -/
def isCall : Event → Bool
  | .outside _ => false
  | _ => true

/-- The shutdown flag stays set. -/
def KeepsFlag : Event → Prop
  | .outside ctx => ctx.shutdown = true
  | _ => True

/-- The call of `select()` that sees the flag is to come. -/
def toReturn (st : Server) : Nat :=
  match st.pc with
  | .returned _ | .fault => 0
  | _ => 1

theorem toReturn_le (st : Server) : st.toReturn ≤ 1 := by
  unfold toReturn
  split <;> omega

theorem shutdown_removed {st : Server} (hT : st.Tables) {pre post : List JapiClient}
    {c : JapiClient} (hl : st.ctx.clients = pre ++ c :: post) :
    (st.removeClient c.socket).ctx.shutdown = st.ctx.shutdown := by
  obtain ⟨i, conn, -, -, -, -, heq⟩ := hT.removeClient hl
  rw [heq]
  rfl

theorem shutdown_step {env : CreadlineEnv} {st st' : Server} {e : Event} (hS : st.Sound)
    (hkeep : KeepsFlag e) (hs : step env st e = some st') (hflag : st.ctx.shutdown = true) :
    st'.ctx.shutdown = true := by
  have hT := hS.toTables
  cases hS.stepped hs with
  | outside ctx => exact hkeep
  | shutDown res hpc =>
      have hall := hT.removeAll (P := fun s => s.ctx.shutdown = true) ?_ hflag
      · exact hall.2
      · intro s c post hT' hflag' hl
        have hl' : s.ctx.clients = [] ++ c :: post := hl
        exact (shutdown_removed hT' hl').trans hflag'
  | @gone pre c post hl hpc hret =>
      have hT₁ := hT.afterRead hl (st.lineOf env c)
      have hl₁ := hT.afterRead_clients hl (st.lineOf env c)
      exact (shutdown_removed (c := { c with crlBuffer := _ }) hT₁ hl₁).trans hflag
  | @writeFailed pre c post r ret hl hpc hret =>
      have hT₁ : (st.record (.written (connOf st.conns c.socket) c.socket r)).Tables :=
        hT.record (by trivial)
      exact (shutdown_removed hT₁ hl).trans hflag
  | _ => exact hflag

theorem select_returns {env : CreadlineEnv} {st st' : Server} {res : SelectRes}
    (hflag : st.ctx.shutdown = true) (hs : step env st (.select res) = some st') :
    st.pc = .select ∧ ∃ r, st'.pc = .returned r := by
  have hpc : st.pc = .select := by
    simp only [step] at hs
    split at hs
    · assumption
    · cases hs
  rw [StartServer.step_select hs]
  by_cases hres : res = .failed
  · exact ⟨hpc, -1, by rw [hres]; rfl⟩
  · exact ⟨hpc, 0, by rw [(StartServer.onSelect_shutdown hres hflag).1]; rfl⟩

theorem callsLeft_shutdown {env : CreadlineEnv} {st st' : Server} {e : Event} (hS : st.Sound)
    (hflag : st.ctx.shutdown = true) (hs : step env st e = some st') :
    (if isCall e then 1 else 0) + (st'.callsLeft + st'.toReturn) ≤
      st.callsLeft + st.toReturn := by
  by_cases hselect : ∃ res, e = .select res
  · obtain ⟨res, rfl⟩ := hselect
    obtain ⟨hpc, r, hpc'⟩ := select_returns hflag hs
    simp only [callsLeft, toReturn, hpc, hpc', isCall, if_true]
    exact Nat.le_refl _
  · have he : ∀ res, e ≠ .select res := fun res heq => hselect ⟨res, heq⟩
    have hcalls : isCall e = inTurn e := by
      cases e with
      | select res => exact absurd rfl (he res)
      | _ => rfl
    have hturn := callsLeft_step hS he hs
    have hreturn : st'.toReturn ≤ st.toReturn := by
      cases hpc : st.pc with
      | returned r =>
          have hpc' := returned_stays r hpc hs
          simp only [toReturn, hpc, hpc', Nat.le_refl]
      | fault =>
          have hptr := hS.pointers
          rw [hpc] at hptr
          exact hptr.elim
      | _ =>
          simp only [toReturn, hpc]
          exact toReturn_le st'
    rw [hcalls]
    omega

/-- A call of `accept()` that succeeds. -/
def isAccept : Event → Bool
  | .accept .. => true
  | _ => false

/-- The `accept()` in front of the last `select()` is to come. -/
def toAccept (st : Server) : Nat :=
  match st.pc with
  | .select | .returned _ | .fault => 0
  | _ => 1

theorem toAccept_le (st : Server) : st.toAccept ≤ 1 := by
  unfold toAccept
  split <;> omega

theorem toAccept_shutdown {env : CreadlineEnv} {st st' : Server} {e : Event} (hS : st.Sound)
    (hflag : st.ctx.shutdown = true) (hs : step env st e = some st') :
    (if isAccept e then 1 else 0) + st'.toAccept ≤ st.toAccept := by
  have hother : isAccept e = false → (if isAccept e then 1 else 0) + st'.toAccept ≤ 1 := by
    intro h
    rw [h]
    exact (Nat.zero_add _).le.trans (toAccept_le st')
  cases hS.stepped hs with
  | outside ctx => exact (Nat.zero_add _).le
  | selectFailed hpc => simp [toAccept, Server.goto, isAccept]
  | timeout hpc => simp [isAccept]
  | shutDown res hpc => simp [toAccept, Server.goto, isAccept]
  | ready fds server hpc =>
      obtain ⟨-, r, hpc'⟩ := select_returns hflag hs
      cases hpc'
  | walked hpc => simpa [toAccept, hpc] using hother rfl
  | skip hl hpc => simpa [toAccept, hpc] using hother rfl
  | pick hl hpc => simpa [toAccept, hpc] using hother rfl
  | line hl hpc hret => simpa [toAccept, hpc] using hother rfl
  | emptyLine hl hpc hret hdst => simpa [toAccept, hpc] using hother rfl
  | gone hl hpc hret => simpa [toAccept, hpc] using hother rfl
  | process hl hpc => simpa [toAccept, hpc] using hother rfl
  | respond r hl hpc => simpa [toAccept, hpc] using hother rfl
  | written ret hl hpc => simpa [toAccept, hpc] using hother rfl
  | writeFailed ret hl hpc hret => simpa [toAccept, hpc] using hother rfl
  | noAccept hpc => simp [toAccept, Server.goto, isAccept]
  | acceptFailed hpc => simp [toAccept, Server.goto, isAccept]
  | admitted sent hpc hfresh hadm => simp [toAccept, hpc, isAccept]
  | leaked sent hpc hfresh hadm => simp [toAccept, hpc, isAccept]
  | refused sent hpc hfresh hadm => simp [toAccept, hpc, isAccept]

/-- What holds behind `japi_shutdown`. -/
structure Closing (st : Server) : Prop where
  sound : st.Sound
  flag : st.ctx.shutdown = true

theorem Closing.step {env : CreadlineEnv} {st st' : Server} {e : Event} (h : st.Closing)
    (hkeep : KeepsFlag e) (hs : Server.step env st e = some st') : st'.Closing :=
  ⟨h.sound.step hs, shutdown_step h.sound hkeep hs h.flag⟩

/-- Neither `select()` nor `accept()` fails. -/
def Succeeds : Event → Prop
  | .select .failed | .acceptFailed => False
  | _ => True

/-- If the call has returned, it has returned 0 and no client is left. -/
structure Closed (st : Server) : Prop extends Closing st where
  counts : StartServer.Counts st
  returned : ∀ r, st.pc = .returned r → r = 0 ∧ st.ctx.clients = [] ∧ st.ctx.numClients = 0

theorem Closed.step {env : CreadlineEnv} {st st' : Server} {e : Event} (h : st.Closed)
    (hkeep : KeepsFlag e) (he : Succeeds e) (hs : Server.step env st e = some st') :
    st'.Closed := by
  refine ⟨h.toClosing.step hkeep hs, h.counts.step h.sound hs, ?_⟩
  by_cases hselect : ∃ res, e = .select res
  · obtain ⟨res, rfl⟩ := hselect
    have hres : res ≠ .failed := by
      rintro rfl
      exact he
    have hcounts := h.counts.step h.sound hs
    obtain ⟨hclients, hnum, -⟩ := h.sound.toTables.removeAllClients
    have hlast := StartServer.step_select hs
    rw [(StartServer.onSelect_shutdown hres h.flag).1] at hlast
    subst hlast
    intro r hr
    cases hr
    unfold StartServer.Counts at hcounts
    refine ⟨rfl, hclients, ?_⟩
    rw [hcounts]
    show UInt16.ofNat st.removeAllClients.ctx.clients.length = 0
    rw [hclients]
    rfl
  · have hne : ∀ res, e ≠ .select res := fun res heq => hselect ⟨res, heq⟩
    have hacc : e ≠ .acceptFailed := by
      rintro rfl
      exact he
    intro r hr
    by_cases hret : ∃ r', st.pc = .returned r'
    · obtain ⟨r', hpc⟩ := hret
      have hpc' := returned_stays r' hpc hs
      rw [hr] at hpc'
      cases hpc'
      obtain ⟨hzero, hclients, hnum⟩ := h.returned r hpc
      cases e with
      | outside ctx =>
          cases hs
          exact ⟨hzero, hclients, hnum⟩
      | _ => simp [Server.step, hpc] at hs
    · have hrunning : ∀ r', st.pc ≠ .returned r' := fun r' heq => hret ⟨r', heq⟩
      exact absurd hr (StartServer.not_returned (h.sound.stepped hs) hne hacc hrunning r)

/-- **Behind `japi_shutdown` the call returns**, if every `read()` does.  From any point
of any run at which the flag is set and on, there are at most as many calls as are left
in the turn and one `select()`, no more than one client is accepted, and until the
return there is a call to make; where nothing fails, it returns 0 with no client left. -/
theorem run_shutdown {env : CreadlineEnv} {ctx : JapiContext} {serverSocket : Int}
    {es₁ es₂ : List Event} {st₁ st₂ : Server}
    (hrun₁ : run (step env) (start ctx serverSocket) es₁ = some st₁)
    (hflag : st₁.ctx.shutdown = true) (hkeep : ∀ e ∈ es₂, KeepsFlag e)
    (hrun₂ : run (step env) st₁ es₂ = some st₂) :
    es₂.countP isCall ≤ st₁.callsLeft + 1 ∧ es₂.countP isAccept ≤ 1 ∧
      ((∀ r, st₂.pc ≠ .returned r) → ∃ e, isCall e = true ∧ (step env st₂ e).isSome) ∧
      ((∀ r, st₁.pc ≠ .returned r) → (∀ e ∈ es₂, Succeeds e) → ∀ r, st₂.pc = .returned r →
        r = 0 ∧ st₂.ctx.clients = [] ∧ st₂.ctx.numClients = 0) := by
  have hclosing : st₁.Closing := ⟨run_sound hrun₁, hflag⟩
  have hcalls : es₂.countP isCall + (st₂.callsLeft + st₂.toReturn) ≤
      st₁.callsLeft + st₁.toReturn :=
    run_rank_le (P := KeepsFlag) (p := isCall) (fun h he hs => h.step he hs)
      (fun h _ hs => callsLeft_shutdown h.sound h.flag hs) hclosing hkeep hrun₂
  have haccepts : es₂.countP isAccept + st₂.toAccept ≤ st₁.toAccept :=
    run_rank_le (P := KeepsFlag) (p := isAccept) (fun h he hs => h.step he hs)
      (fun h _ hs => toAccept_shutdown h.sound h.flag hs) hclosing hkeep hrun₂
  have hreturn := toReturn_le st₁
  have haccept := toAccept_le st₁
  refine ⟨by omega, by omega, ?_, ?_⟩
  · intro hrunning
    by_cases hpc : st₂.pc = .select
    · exact ⟨.select .timeout, rfl, by simp [step, hpc]⟩
    · obtain ⟨e, he, hstep⟩ := next_call (run_invariant (fun {s e s'} => Sound.step) hclosing.sound
        hrun₂) hpc hrunning
      refine ⟨e, ?_, hstep⟩
      cases e with
      | select res => cases he
      | outside ctx => cases he
      | _ => rfl
  · intro hrunning hsucceeds
    have hkeeps : ∀ {s : Server} {e : Event} {s' : Server}, s.Sound ∧ StartServer.Counts s →
        Server.step env s e = some s' → s'.Sound ∧ StartServer.Counts s' :=
      fun h hs => ⟨h.1.step hs, h.2.step h.1 hs⟩
    have hstart : StartServer.Counts (start ctx serverSocket) := rfl
    have hcounts : StartServer.Counts st₁ :=
      (run_invariant hkeeps ⟨sound_start ctx serverSocket, hstart⟩ hrun₁).2
    have hclosed : st₁.Closed := ⟨hclosing, hcounts, fun r heq => absurd heq (hrunning r)⟩
    have hevents : ∀ e ∈ es₂, KeepsFlag e ∧ Succeeds e := fun e he =>
      ⟨hkeep e he, hsucceeds e he⟩
    exact (run_invariant_of_meets (fun _ e => KeepsFlag e ∧ Succeeds e)
      (fun h he hs => h.step he.1 he.2 hs) hclosed (meets_of_forall hevents) hrun₂).returned

/-- `japi_shutdown` is called while the thread is with a client. -/
def shutDownServing : List Event :=
  twoAccepted ++ [.select (.ready [5] true), .visit, .visit,
    .outside ⟨0, 0, [], [], [], false, true, true⟩]

/-- The one that waits for `accept()` is accepted, and the call returns. -/
def lastTurn : List Event :=
  [.read, .process none, .visit, .accept 7 [] (some 2), .select .timeout]

theorem run_shutdown_serving :
    ∃ st₁ st₂ : Server,
      run (step ⟨64, fun _ => true⟩) (start ⟨0, 0, [], [], [], false, false, true⟩ 3)
        shutDownServing = some st₁ ∧
      run (step ⟨64, fun _ => true⟩) st₁ lastTurn = some st₂ ∧
      lastTurn.countP isAccept ≤ 1 ∧ st₂.ctx.clients = [] := by
  have hat₁ : (run (step ⟨64, fun _ => true⟩) (start ⟨0, 0, [], [], [], false, false, true⟩ 3)
      shutDownServing).map (fun st => (st.ctx.shutdown, st.pc)) =
        some (true, .serve 0 none .read) := by
    decide +kernel
  have hat₂ : (run (step ⟨64, fun _ => true⟩) (start ⟨0, 0, [], [], [], false, false, true⟩ 3)
      (shutDownServing ++ lastTurn)).map Server.pc = some (.returned 0) := by
    decide +kernel
  obtain ⟨st₂, hrun, hpc₂⟩ := Option.map_eq_some_iff.mp hat₂
  obtain ⟨st₁, hrun₁, hrun₂⟩ := run_append.mp hrun
  rw [hrun₁, Option.map_some, Option.some.injEq, Prod.mk.injEq] at hat₁
  obtain ⟨hflag, hpc₁⟩ := hat₁
  have hkeep : ∀ e ∈ lastTurn, KeepsFlag e := by simp [lastTurn, KeepsFlag]
  obtain ⟨-, haccepts, -, hreturned⟩ := run_shutdown hrun₁ hflag hkeep hrun₂
  refine ⟨st₁, st₂, hrun₁, hrun₂, haccepts, (hreturned ?_ ?_ 0 hpc₂).2.1⟩
  · intro r hr
    rw [hr] at hpc₁
    cases hpc₁
  · simp [lastTurn, Succeeds]

end Server

end Libjapi
