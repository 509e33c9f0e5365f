/-
# `Libjapi.Wire` — what a client sends and what it is sent

Between the two lie `read()`s of any size, `creadline_r`, the queue of lines in
`crl_buffer`, `japi_process_message`, and `write()`s that accept a part; beside
them the threads of the services write, to this client or to others, and any
client comes or goes.  For a client to whom no service writes,

    its lines are answered one after the other, none twice and none left out;
    what it is sent is a beginning of the answers, in that order, each a line
    of its own, the last one perhaps cut where its connection was closed
                                                          `Process.run_conversation`

The lines and their answers are those of the log (`answersOf`).  The bytes are
those the `write()`s accepted (`sentTo`), and `Wired` is what relates them at
every step: while a connection is open, what was written on it, and the part of
the response the thread is in `write_n` with.
-/
import Libjapi.Process
import Libjapi.Rounds

namespace Libjapi

/-! ## The answers in the log -/

/-- A line that was processed for the connection, and what it was answered. -/
def Entry.answerOf (i : Nat) : Entry → Option (List Byte × Option (List Byte))
  | .processed (some j) l _ r => if j = i then some (l, r) else none
  | _ => none

/-- The lines processed for a connection with their answers, in order. -/
def answersOf (i : Nat) (log : List Entry) : List (List Byte × Option (List Byte)) :=
  log.filterMap (Entry.answerOf i)

/-- A response that `write_n` was called with, and returned. -/
def Entry.writtenOf (i : Nat) : Entry → Option (List Byte)
  | .written (some j) _ r => if j = i then some r else none
  | _ => none

def writtenOf (i : Nat) (log : List Entry) : List (List Byte) := log.filterMap (Entry.writtenOf i)

theorem writtenOf_append (i : Nat) (log log' : List Entry) :
    writtenOf i (log ++ log') = writtenOf i log ++ writtenOf i log' := List.filterMap_append ..

theorem answersOf_append (i : Nat) (log log' : List Entry) :
    answersOf i (log ++ log') = answersOf i log ++ answersOf i log' := List.filterMap_append ..

theorem answersOf_lines (i : Nat) (log : List Entry) :
    (answersOf i log).map Prod.fst = linesOf i log := by
  rw [answersOf, List.map_filterMap]
  refine List.filterMap_congr ?_
  intro e _
  cases e with
  | processed co l s r =>
      cases co with
      | none => rfl
      | some j =>
          simp only [Entry.answerOf, Entry.lineOf]
          split <;> rfl
  | _ => rfl

/-- The response to the last entry, if it is a request of the connection. -/
def pendingOf (i : Nat) (log : List Entry) : List (List Byte) :=
  match log.getLast? with
  | some (.processed (some j) _ _ (some r)) => if j = i then [r] else []
  | _ => []

theorem pendingOf_concat (i : Nat) (log : List Entry) (e : Entry) :
    pendingOf i (log ++ [e]) = ((answersOf i [e]).filterMap Prod.snd) := by
  unfold pendingOf
  rw [List.getLast?_concat]
  cases e with
  | processed co l s r =>
      cases co with
      | none => rfl
      | some j => by_cases hj : j = i <;> cases r <;> simp [answersOf, Entry.answerOf, hj]
  | _ => rfl

theorem Ordered.pendingOf_init {log : List Entry} {e : Entry} (h : Ordered (log ++ [e])) (i : Nat) :
    pendingOf i log = writtenOf i [e] := by
  have hfollows : ∀ e' ∈ log.getLast?, e'.Follows e := fun e' he' =>
    (List.isChain_append.mp h.chain).2.2 e' he' e rfl
  cases hlast : log.getLast? with
  | none =>
      rw [List.getLast?_eq_none_iff] at hlast
      subst hlast
      cases e with
      | written co s r => exact absurd rfl (h.first _ rfl co s r)
      | _ => rfl
  | some e' =>
      have hnext := (hfollows e' hlast).1
      cases he : e with
      | written co s r =>
          obtain ⟨l, rfl⟩ := (hnext co s r).mpr he
          simp only [pendingOf, hlast]
          cases co with
          | none => rfl
          | some j => by_cases hj : j = i <;> simp [writtenOf, Entry.writtenOf, hj]
      | _ =>
          simp only [pendingOf, hlast]
          split
          · rename_i j l s r heq
            have hwritten := (hnext (some j) s r).mp ⟨l, Option.some.inj heq⟩
            rw [he] at hwritten
            cases hwritten
          · rfl

/-- **What was answered was written**, in the order of the lines, but for the answer
to the last entry. -/
theorem Ordered.answers_written {log : List Entry} (h : Ordered log) (i : Nat) :
    (answersOf i log).filterMap Prod.snd = writtenOf i log ++ pendingOf i log := by
  induction log using List.reverseRecOn with
  | nil => rfl
  | append_singleton log e ih =>
      have hchain := List.isChain_append.mp h.chain
      have hlog : Ordered log := by
        refine ⟨hchain.1, ?_⟩
        intro x hx
        cases log with
        | nil => cases hx
        | cons a log => exact h.first x hx
      rw [answersOf_append, List.filterMap_append, ih hlog, pendingOf_concat, writtenOf_append]
      rw [h.pendingOf_init i]

namespace Server

/-! ## What a step leaves of a connection -/

/-- A connection stays there, no closed one is opened again, and nothing is
written on it. -/
structure Leaves (i : Nat) (st st' : Server) : Prop where
  written : writtenOf i st'.log = writtenOf i st.log
  absent : st'.conns[i]? = none → st.conns[i]? = none
  live : ∀ c', st'.conns[i]? = some c' → c'.isOpen = true →
    st.conns[i]? = none ∨ ∃ c, st.conns[i]? = some c ∧ c.isOpen = true

variable {i : Nat} {st st' st'' : Server}

theorem Leaves.of_eq (hlog : st'.log = st.log) (hconns : st'.conns = st.conns) :
    Leaves i st st' := by
  refine ⟨by rw [hlog], by rw [hconns]; exact id, ?_⟩
  rw [hconns]
  exact fun c' hc' hopen => .inr ⟨c', hc', hopen⟩

theorem Leaves.trans (h : Leaves i st st') (h' : Leaves i st' st'') : Leaves i st st'' := by
  refine ⟨h'.written.trans h.written, fun hnone => h.absent (h'.absent hnone), ?_⟩
  intro c'' hc'' hopen
  rcases h'.live c'' hc'' hopen with hnone | ⟨c', hc', hopen'⟩
  · exact .inl (h.absent hnone)
  · exact h.live c' hc' hopen'

theorem Leaves.record (i : Nat) (st : Server) {e : Entry} (he : ∀ co s r, e ≠ .written co s r) :
    Leaves i st (st.record e) := by
  refine ⟨?_, id, fun c' hc' hopen => .inr ⟨c', hc', hopen⟩⟩
  show writtenOf i (st.log ++ [e]) = _
  rw [writtenOf_append]
  cases e with
  | written co s r => exact absurd rfl (he co s r)
  | _ => exact List.append_nil _

theorem Leaves.key (hlog : st'.log = st.log)
    (hconns : st'.conns.map Conn.key = st.conns.map Conn.key) : Leaves i st st' := by
  refine ⟨by rw [hlog], ?_, ?_⟩
  · intro hnone
    cases hi : st.conns[i]? with
    | none => rfl
    | some c =>
        obtain ⟨d, hd, -⟩ := getElem?_of_key hconns.symm hi
        rw [hd] at hnone
        cases hnone
  · intro c' hc' hopen
    obtain ⟨c, hc, -, ho⟩ := getElem?_of_key hconns hc'
    exact .inr ⟨c, hc, ho.trans hopen⟩

theorem Leaves.shut (i j : Nat) (st : Server) :
    Leaves i st { st with conns := st.conns.modify j Conn.shut } := by
  refine ⟨rfl, ?_, ?_⟩
  · show (st.conns.modify j Conn.shut)[i]? = none → _
    rw [List.getElem?_modify]
    simp
  · intro c' hc' hopen
    obtain ⟨d, hd, -, -, hd'⟩ := kept_shut hc'
    exact .inr ⟨d, hd, (hd' hopen).1⟩

theorem Leaves.removeClient (i : Nat) (hT : st.Tables) {pre post : List JapiClient}
    {c : JapiClient} (hl : st.ctx.clients = pre ++ c :: post) :
    Leaves i st (st.removeClient c.socket) := by
  obtain ⟨j, conn, -, -, -, -, heq⟩ := hT.removeClient hl
  rw [heq]
  exact (Leaves.shut i j st).trans ((Leaves.record i _ (by simp)).trans (Leaves.of_eq rfl rfl))

theorem Leaves.connect (i : Nat) (st : Server) (socket : Int) (sent : List ReadRes) :
    Leaves i st (st.connect socket sent) := by
  refine ⟨rfl, ?_, ?_⟩
  · intro hnone
    rw [List.getElem?_eq_none_iff] at hnone ⊢
    have hlen : (st.connect socket sent).conns.length = st.conns.length + 1 := by
      simp [Server.connect]
    omega
  · intro c' hc' hopen
    rcases getElem?_concat.mp hc' with hc | ⟨rfl, -⟩
    · exact .inr ⟨c', hc, hopen⟩
    · exact .inl (List.getElem?_eq_none (Nat.le_refl _))

theorem Leaves.step {env : CreadlineEnv} {e : Event} (i : Nat) (hS : st.Sound)
    (he : ∀ ret, e ≠ .write ret) (hs : step env st e = some st') : Leaves i st st' := by
  have hT := hS.toTables
  cases hS.stepped hs with
  | shutDown res hpc =>
      have hall := hT.removeAll (P := Leaves i st) ?_ (Leaves.of_eq rfl rfl)
      · exact hall.2.trans (Leaves.of_eq rfl rfl)
      · intro s c post hT' hleaves hl
        have hl' : s.ctx.clients = [] ++ c :: post := hl
        exact hleaves.trans (Leaves.removeClient i hT' hl')
  | @line pre c post hl hpc hret =>
      exact Leaves.key rfl (afterRead_key st c (st.lineOf env c))
  | @emptyLine pre c post d hl hpc hret hdst =>
      exact Leaves.key rfl (afterRead_key st c (st.lineOf env c))
  | @gone pre c post hl hpc hret =>
      have hread : Leaves i st (st.afterRead c (st.lineOf env c)) :=
        Leaves.key rfl (afterRead_key st c (st.lineOf env c))
      have hremoved := Leaves.removeClient i (hT.afterRead hl (st.lineOf env c))
        (hT.afterRead_clients hl (st.lineOf env c))
      exact (hread.trans hremoved).trans (Leaves.of_eq rfl rfl)
  | process hl hpc => exact (Leaves.record i st (by simp)).trans (Leaves.of_eq rfl rfl)
  | respond r hl hpc => exact (Leaves.record i st (by simp)).trans (Leaves.of_eq rfl rfl)
  | written ret hl hpc => exact absurd rfl (he ret)
  | writeFailed ret hl hpc hret => exact absurd rfl (he ret)
  | @admitted socket a sent hpc hfresh hadm =>
      have hconnected := (Leaves.connect i st socket sent).trans
        (Leaves.record i _ (e := .accepted st.conns.length socket true) (by simp))
      exact hconnected.trans (Leaves.of_eq rfl rfl)
  | @leaked socket sent hpc hfresh hadm =>
      have hconnected := (Leaves.connect i st socket sent).trans
        (Leaves.record i _ (e := .accepted st.conns.length socket true) (by simp))
      exact hconnected.trans (Leaves.of_eq rfl rfl)
  | @refused socket malloc sent hpc hfresh hadm =>
      have hconnected := (Leaves.connect i st socket sent).trans
        (Leaves.record i _ (e := .accepted st.conns.length socket false) (by simp))
      have hclosed := (hconnected.trans (Leaves.shut i st.conns.length _)).trans
        (Leaves.record i _ (e := .closed (some st.conns.length) socket) (by simp))
      refine hclosed.trans (Leaves.of_eq ?_ rfl)
      simp [Server.record, Server.connect]
  | _ => exact Leaves.of_eq rfl rfl

theorem write_cases {env : CreadlineEnv} {ret : Int} (hS : st.Sound)
    (hs : step env st (.write ret) = some st') :
    ∃ pre c post r, st.ctx.clients = pre ++ c :: post ∧
      st.pc = .serve c.addr (headAddr post) (.write r) ∧
      ((0 < ret ∧ st' = (st.record (.written (connOf st.conns c.socket) c.socket r)).goto
          (again c (headAddr post))) ∨
        (ret ≤ 0 ∧ st' = ((st.record (.written (connOf st.conns c.socket) c.socket r)).removeClient
          c.socket).goto (.walk (headAddr post)))) := by
  have hT := hS.toTables
  have hwrite : ∀ {pre post : List JapiClient} {c : JapiClient} {r : List Byte},
      st.ctx.clients = pre ++ c :: post → st.pc = .serve c.addr (headAddr post) (.write r) →
      step env st (.write ret) =
        if ret ≤ 0 then
          some (((st.record (.written (connOf st.conns c.socket) c.socket r)).removeClient
            c.socket).goto (.walk (headAddr post)))
        else some ((st.record (.written (connOf st.conns c.socket) c.socket r)).goto
          (again c (headAddr post))) := by
    intro pre post c r hl hpc
    have hT₁ : (st.record (.written (connOf st.conns c.socket) c.socket r)).Tables :=
      hT.record (by trivial)
    simp only [step, hpc, onWrite, hT.clientAt hl, hT₁.loopTest hl]
    split <;> rfl
  have hdone : ∀ {pre post : List JapiClient} {c : JapiClient} {r : List Byte},
      st.ctx.clients = pre ++ c :: post → st.pc = .serve c.addr (headAddr post) (.write r) →
      (0 < ret ∧ st' = (st.record (.written (connOf st.conns c.socket) c.socket r)).goto
          (again c (headAddr post))) ∨
        (ret ≤ 0 ∧ st' = ((st.record (.written (connOf st.conns c.socket) c.socket r)).removeClient
          c.socket).goto (.walk (headAddr post))) := by
    intro pre post c r hl hpc
    rw [hwrite hl hpc] at hs
    split at hs
    · rename_i hret
      exact .inr ⟨hret, (Option.some.inj hs).symm⟩
    · rename_i hret
      exact .inl ⟨Int.not_le.mp hret, (Option.some.inj hs).symm⟩
  cases hS.stepped hs with
  | @written pre c post r _ hl hpc => exact ⟨pre, c, post, r, hl, hpc, hdone hl hpc⟩
  | @writeFailed pre c post r _ hl hpc hret => exact ⟨pre, c, post, r, hl, hpc, hdone hl hpc⟩

theorem write_effect {env : CreadlineEnv} {ret : Int} (hS : st.Sound)
    (hs : step env st (.write ret) = some st') :
    ∃ a f r s j conn, st.pc = .serve a f (.write r) ∧
      ((st.clientAt a).bind fun c => connOf st.conns c.socket) = some j ∧
      st.conns[j]? = some conn ∧ conn.isOpen = true ∧
      (∀ a' f' r', st'.pc ≠ .serve a' f' (.write r')) ∧
      ((0 < ret ∧ st'.conns = st.conns ∧ st'.log = st.log ++ [.written (some j) s r]) ∨
        (ret ≤ 0 ∧ st'.conns = st.conns.modify j Conn.shut ∧
          st'.log = st.log ++ [.written (some j) s r] ++ [.closed (some j) s])) := by
  have hT := hS.toTables
  obtain ⟨pre, c, post, r, hl, hpc, hdone⟩ := write_cases hS hs
  obtain ⟨j, conn, hj, hopen, hsock, hof⟩ := hT.conn hl
  have hbind : ((st.clientAt c.addr).bind fun c => connOf st.conns c.socket) = some j := by
    rw [hT.clientAt hl, Option.bind_some, hof]
  rw [hof] at hdone
  refine ⟨c.addr, headAddr post, r, c.socket, j, conn, hpc, hbind, hj, hopen, ?_, ?_⟩
  · rcases hdone with ⟨-, rfl⟩ | ⟨-, rfl⟩
    · exact again_ne_write c (headAddr post)
    · simp [Server.goto]
  · rcases hdone with ⟨hret, rfl⟩ | ⟨hret, rfl⟩
    · exact .inl ⟨hret, rfl, rfl⟩
    · have hT₁ : (st.record (.written (some j) c.socket r)).Tables := hT.record (by trivial)
      obtain ⟨j', conn', -, -, -, hof', heq⟩ := hT₁.removeClient hl
      obtain rfl : j' = j := Option.some.inj (hof'.symm.trans hof)
      rw [heq]
      exact .inr ⟨hret, rfl, rfl⟩

theorem not_writing {env : CreadlineEnv} {e : Event} (h : Stepped env st e st')
    (hwrite : ∀ ret, e ≠ .write ret) (houtside : ∀ ctx, e ≠ .outside ctx) :
    ∀ a f r, st.pc ≠ .serve a f (.write r) := by
  cases h with
  | outside ctx => exact absurd rfl (houtside ctx)
  | written ret => exact absurd rfl (hwrite ret)
  | writeFailed ret => exact absurd rfl (hwrite ret)
  | _ => simp [*]

theorem log_grows {env : CreadlineEnv} {e : Event} (hS : st.Sound)
    (hs : step env st e = some st') : st.log <+: st'.log := by
  have hT := hS.toTables
  have hremove : ∀ {s : Server} {pre post : List JapiClient} {c : JapiClient}, s.Tables →
      s.ctx.clients = pre ++ c :: post → s.log <+: (s.removeClient c.socket).log := by
    intro s pre post c hT' hl
    obtain ⟨j, conn, -, -, -, -, heq⟩ := hT'.removeClient hl
    rw [heq]
    exact List.prefix_append _ _
  cases hS.stepped hs with
  | shutDown res hpc =>
      have hall := hT.removeAll (P := fun s => st.log <+: s.log) ?_ (List.prefix_refl _)
      · exact hall.2
      · intro s c post hT' hgrows hl
        have hl' : s.ctx.clients = [] ++ c :: post := hl
        exact hgrows.trans (hremove hT' hl')
  | @gone pre c post hl hpc hret =>
      have hgrows := hremove (hT.afterRead hl (st.lineOf env c))
        (hT.afterRead_clients hl (st.lineOf env c))
      exact hgrows
  | process hl hpc => exact List.prefix_append _ _
  | respond r hl hpc => exact List.prefix_append _ _
  | written ret hl hpc => exact List.prefix_append _ _
  | @writeFailed pre c post r ret hl hpc hret =>
      have hT₁ : (st.record (.written (connOf st.conns c.socket) c.socket r)).Tables :=
        hT.record (by trivial)
      exact (List.prefix_append _ _).trans (hremove hT₁ hl)
  | admitted sent hpc hfresh hadm => exact List.prefix_append _ _
  | leaked sent hpc hfresh hadm => exact List.prefix_append _ _
  | refused sent hpc hfresh hadm => exact List.prefix_append _ _
  | _ => exact List.prefix_refl _

end Server

theorem Serving.simulated_quiet {P : Program} (hP : LeavesClients P) {env : CreadlineEnv}
    {st st' : Serving} {e : ServingEvent} (h : Serving.step P env st e = some st')
    (he : ∀ ret, e ≠ .loop (.write ret)) :
    ∃ es, (∀ d ∈ es, ∀ ret, d ≠ .write ret) ∧
      run (Server.step env) st.server es = some st'.server := by
  cases e with
  | loop e =>
      obtain ⟨-, hstep⟩ := Serving.step_loop h
      refine ⟨[e], ?_, run_cons.mpr ⟨_, hstep, rfl⟩⟩
      rintro d hd ret rfl
      exact he ret (by rw [List.mem_singleton.mp hd])
  | request mem stale =>
      obtain ⟨client, following, request, c, out, hpc, hc, hout, rfl⟩ := Serving.step_request h
      obtain ⟨hclients, hnum⟩ := japiProcessMessage_clients hP hout
      refine ⟨[.outside out.ctx, .process (out.response.map CStr.bytes)], by simp, ?_⟩
      refine run_cons.mpr ⟨{ st.server with ctx := out.ctx }, ?_, run_cons.mpr ⟨_, ?_, rfl⟩⟩
      · simp only [Server.step, ← hclients, ← hnum]
      · simp only [Server.step, hpc]
        rfl

namespace Process

open Server (headAddr again Leaves)

/-! ## The bytes of a connection -/

/-- No response to the connection is longer than `int to_send` can say. -/
def Short (i : Nat) (log : List Entry) : Prop :=
  ∀ l r, (l, some r) ∈ answersOf i log → r.length < 2 ^ 31

/-- `write_n` has handed over the bytes in front of `buffer`. -/
structure OnCourse (r : List Byte) (t : Transfer) : Prop where
  buffer : t.buffer <:+ r
  toSend : t.toSend = t.buffer.length

/-- What was accepted of the response the thread is in `write_n` with. -/
def inFlight (i : Nat) (server : Server) (responding : Option Transfer) : List Byte :=
  match server.pc with
  | .serve client _ (.write r) =>
      if ((server.clientAt client).bind fun c => connOf server.conns c.socket) = some i then
        r.take (r.length - (responding.getD (.enter r)).buffer.length)
      else []
  | _ => []

/-- **What was sent on a connection**: what was written, and what is in flight; when
it is closed, the last response may have been cut. -/
structure Wired (i : Nat) (server : Server) (responding : Option Transfer) (sent : List Byte) :
    Prop where
  idle : (∀ a f r, server.pc ≠ .serve a f (.write r)) → responding = none
  course : ∀ a f r, server.pc = .serve a f (.write r) →
    ((server.clientAt a).bind fun c => connOf server.conns c.socket) = some i →
    OnCourse r (responding.getD (.enter r))
  absent : server.conns[i]? = none → sent = [] ∧ writtenOf i server.log = []
  live : ∀ c, server.conns[i]? = some c → c.isOpen = true →
    sent = (writtenOf i server.log).flatten ++ inFlight i server responding
  cut : ∀ c, server.conns[i]? = some c → c.isOpen = false →
    (writtenOf i server.log).dropLast.flatten <+: sent ∧ sent <+: (writtenOf i server.log).flatten

variable {i : Nat} {server server' : Server} {responding : Option Transfer} {sent : List Byte}

theorem onCourse_enter {r : List Byte} (h : r.length < 2 ^ 31) : OnCourse r (.enter r) := by
  refine ⟨List.suffix_refl r, ?_⟩
  show toInt32 r.length = (r.length : Int)
  unfold toInt32
  omega

theorem inFlight_none (i : Nat) (server : Server) : inFlight i server none = [] := by
  unfold inFlight
  split
  · split
    · simp [Transfer.enter]
    · rfl
  · rfl

theorem inFlight_of_not_writing (hpc : ∀ a f r, server.pc ≠ .serve a f (.write r)) :
    inFlight i server responding = [] := by
  unfold inFlight
  split
  · rename_i a f r heq
    exact absurd heq (hpc a f r)
  · rfl

theorem short_of_writing (hO : server.InOrder) (hshort : Short i server.log) {a : Addr}
    {f : Option Addr} {r : List Byte} (hpc : server.pc = .serve a f (.write r))
    (hof : ((server.clientAt a).bind fun c => connOf server.conns c.socket) = some i) :
    r.length < 2 ^ 31 := by
  have hlast := hO.last
  rw [hpc] at hlast
  obtain ⟨c, l, hc, hlast⟩ := hlast
  rw [hc, Option.bind_some] at hof
  rw [hof] at hlast
  refine hshort l r (List.mem_filterMap.mpr ⟨_, List.mem_of_getLast? hlast, ?_⟩)
  simp [Entry.answerOf]

/-- A step that writes nothing on the connection, and leaves the thread in no
`write_n` that has got on. -/
theorem Wired.leaves (h : Wired i server responding sent) (hleaves : Leaves i server server')
    (hflight : inFlight i server responding = [])
    (hcourse : ∀ a f r, server'.pc = .serve a f (.write r) →
      ((server'.clientAt a).bind fun c => connOf server'.conns c.socket) = some i →
      OnCourse r (.enter r)) : Wired i server' none sent := by
  refine ⟨fun _ => rfl, hcourse, ?_, ?_, ?_⟩
  · intro hnone
    rw [hleaves.written]
    exact h.absent (hleaves.absent hnone)
  · intro c' hc' hopen
    rw [inFlight_none, List.append_nil, hleaves.written]
    rcases hleaves.live c' hc' hopen with hnone | ⟨c, hc, hopen'⟩
    · obtain ⟨hsent, hwritten⟩ := h.absent hnone
      rw [hsent, hwritten]
      rfl
    · have hsent := h.live c hc hopen'
      rwa [hflight, List.append_nil] at hsent
  · intro c' _ _
    rw [hleaves.written]
    cases hc : server.conns[i]? with
    | none =>
        obtain ⟨hsent, hwritten⟩ := h.absent hc
        rw [hsent, hwritten]
        exact ⟨List.prefix_refl _, List.prefix_refl _⟩
    | some c =>
        cases hopen : c.isOpen with
        | false => exact h.cut c hc hopen
        | true =>
            have hsent := h.live c hc hopen
            rw [hflight, List.append_nil] at hsent
            rw [hsent]
            refine ⟨?_, List.prefix_refl _⟩
            exact (List.dropLast_prefix _).flatten

theorem Wired.outside (h : Wired i server responding sent) (hpc : server'.pc = server.pc)
    (hclients : server'.ctx.clients = server.ctx.clients) (hconns : server'.conns = server.conns)
    (hlog : server'.log = server.log) : Wired i server' responding sent := by
  have hflight : inFlight i server' responding = inFlight i server responding := by
    unfold inFlight Server.clientAt
    rw [hpc, hclients, hconns]
  refine ⟨?_, ?_, ?_, ?_, ?_⟩
  · rw [hpc]
    exact h.idle
  · simp only [Server.clientAt, hpc, hclients, hconns]
    exact h.course
  · rw [hconns, hlog]
    exact h.absent
  · rw [hconns, hlog, hflight]
    exact h.live
  · rw [hconns, hlog]
    exact h.cut

theorem OnCourse.more {r : List Byte} {t t' : Transfer} {bytesWritten : Int} (h : OnCourse r t)
    (hturn : t.turn bytesWritten = .more t') (hle : bytesWritten ≤ t.toSend) :
    OnCourse r t' ∧ r.take (r.length - t'.buffer.length) =
      r.take (r.length - t.buffer.length) ++ t.buffer.take bytesWritten.toNat := by
  unfold Transfer.turn at hturn
  split at hturn
  · split at hturn
    · cases hturn
    · cases hturn
      obtain ⟨pre, rfl⟩ := h.buffer
      have hsend := h.toSend
      refine ⟨⟨(List.drop_suffix _ _).trans (List.suffix_append _ _), ?_⟩, ?_⟩
      · simp only [List.length_drop]
        omega
      · simp only [List.length_drop, List.length_append]
        have hlen : pre.length + t.buffer.length - (t.buffer.length - bytesWritten.toNat) =
            pre.length + bytesWritten.toNat := by omega
        rw [hlen, Nat.add_sub_cancel, List.take_append, List.take_of_length_le (by omega),
          List.take_append, List.take_of_length_le (Nat.le_refl _)]
        simp
  · cases hturn

theorem Wired.more {a : Addr} {f : Option Addr} {r : List Byte} {c : JapiClient} {j : Nat}
    {t : Transfer} {bytesWritten : Int} (h : Wired i server responding sent)
    (hpc : server.pc = .serve a f (.write r)) (hc : server.clientAt a = some c)
    (hj : connOf server.conns c.socket = some j)
    (hturn : (responding.getD (.enter r)).turn bytesWritten = .more t)
    (hle : bytesWritten ≤ (responding.getD (.enter r)).toSend) :
    Wired i server (some t)
      (sent ++ if j = i then
        (responding.getD (.enter r)).buffer.take bytesWritten.toNat else []) := by
  have hof : ((server.clientAt a).bind fun c => connOf server.conns c.socket) = some j := by
    rw [hc, Option.bind_some, hj]
  obtain ⟨conn, hconn, hopen, -⟩ := connOf_some hj
  by_cases hij : j = i
  · subst hij
    obtain ⟨hcourse, htake⟩ := (h.course a f r hpc hof).more hturn hle
    rw [if_pos rfl]
    refine ⟨fun hno => absurd hpc (hno a f r), ?_, ?_, ?_, ?_⟩
    · intro a' f' r' hpc' _
      rw [hpc] at hpc'
      cases hpc'
      exact hcourse
    · intro hnone
      rw [hconn] at hnone
      cases hnone
    · intro c' hc' hopen'
      rw [h.live c' hc' hopen', List.append_assoc]
      congr 1
      simp only [inFlight, hpc, hof, if_true]
      exact htake.symm
    · intro c' hc' hclosed
      rw [hconn] at hc'
      cases hc'
      rw [hopen] at hclosed
      cases hclosed
  · have hne : ¬ (some j = some i) := fun heq => hij (Option.some.inj heq)
    rw [if_neg hij, List.append_nil]
    refine ⟨fun hno => absurd hpc (hno a f r), ?_, h.absent, ?_, h.cut⟩
    · intro a' f' r' hpc' hof'
      rw [hpc] at hpc'
      cases hpc'
      rw [hof] at hof'
      exact absurd hof' hne
    · intro c' hc' hopen'
      have hsent := h.live c' hc' hopen'
      simp only [inFlight, hpc, hof, if_neg hne] at hsent ⊢
      exact hsent

/-- `write_n` returns: all of the response was accepted, or its return value is not
positive. -/
theorem OnCourse.returned {r : List Byte} {t : Transfer} {bytesWritten ret : Int}
    (h : OnCourse r t) (hturn : t.turn bytesWritten = .returned ret) (hret : 0 < ret) :
    r.take (r.length - t.buffer.length) = r := by
  unfold Transfer.turn at hturn
  split at hturn
  · split at hturn
    · cases hturn
      omega
    · cases hturn
  · have hsend := h.toSend
    have hempty : t.buffer.length = 0 := by omega
    rw [hempty, Nat.sub_zero, List.take_length]

theorem Wired.returned {env : CreadlineEnv} {ret bytesWritten : Int}
    (h : Wired i server responding sent) (hS : server.Sound)
    (hs : Server.step env server (.write ret) = some server')
    (hturn : ∀ a f r, server.pc = .serve a f (.write r) →
      (responding.getD (.enter r)).turn bytesWritten = .returned ret) :
    Wired i server' none sent := by
  obtain ⟨a, f, r, s, j, conn, hpc, hof, hj, hopen, hpc', hdone⟩ := Server.write_effect hS hs
  have hnowrite : ∀ a f r, server'.pc = .serve a f (.write r) →
      ((server'.clientAt a).bind fun c => connOf server'.conns c.socket) = some i →
      OnCourse r (.enter r) := fun a f r heq => absurd heq (hpc' a f r)
  by_cases hji : j = i
  · subst hji
    have hcourse := h.course a f r hpc hof
    have hsent := h.live conn hj hopen
    simp only [inFlight, hpc, hof, if_true] at hsent
    have hwritten : writtenOf j (server.log ++ [.written (some j) s r]) =
        writtenOf j server.log ++ [r] := by
      rw [writtenOf_append]
      simp [writtenOf, Entry.writtenOf]
    rcases hdone with ⟨hret, hconns, hlog⟩ | ⟨-, hconns, hlog⟩
    · rw [hcourse.returned (hturn a f r hpc) hret] at hsent
      refine ⟨fun _ => rfl, hnowrite, ?_, ?_, ?_⟩
      · rw [hconns, hj]
        intro hnone
        cases hnone
      · intro c' _ _
        rw [inFlight_none, List.append_nil, hsent, hlog, hwritten, List.flatten_append,
          List.flatten_singleton]
      · rw [hconns, hj]
        intro c' hc' hclosed
        cases hc'
        rw [hopen] at hclosed
        cases hclosed
    · have hlog' : writtenOf j server'.log = writtenOf j server.log ++ [r] := by
        rw [hlog, writtenOf_append, hwritten]
        exact List.append_nil _
      have hconn' : server'.conns[j]? = some conn.shut := by
        rw [hconns]
        simp [hj]
      refine ⟨fun _ => rfl, hnowrite, ?_, ?_, ?_⟩
      · rw [hconn']
        intro hnone
        cases hnone
      · rw [hconn']
        intro c' hc' hopen'
        cases hc'
        cases hopen'
      · intro c' _ _
        rw [hlog', List.dropLast_concat, hsent, List.flatten_append, List.flatten_singleton]
        exact ⟨List.prefix_append _ _, (List.prefix_append_right_inj _).mpr (List.take_prefix _ _)⟩
  · have hother : ∀ log, writtenOf i (log ++ [.written (some j) s r]) = writtenOf i log := by
      intro log
      rw [writtenOf_append]
      simp [writtenOf, Entry.writtenOf, hji]
    have hleaves : Leaves i server server' := by
      rcases hdone with ⟨-, hconns, hlog⟩ | ⟨-, hconns, hlog⟩
      · refine ⟨by rw [hlog, hother], by rw [hconns]; exact id, ?_⟩
        rw [hconns]
        exact fun c' hc' hopen' => .inr ⟨c', hc', hopen'⟩
      · have hshut := Leaves.shut i j server
        refine ⟨?_, by rw [hconns]; exact hshut.absent, by rw [hconns]; exact hshut.live⟩
        rw [hlog, writtenOf_append, hother]
        exact List.append_nil _
    have hne : ¬ (some j = some i) := fun heq => hji (Option.some.inj heq)
    refine h.leaves hleaves ?_ hnowrite
    simp only [inFlight, hpc, hof, if_neg hne]

theorem Wired.loop {env : CreadlineEnv} {e : Event} (h : Wired i server responding sent)
    (hS : server.Sound) (hO : server'.InOrder) (hshort : Short i server'.log)
    (he : ∀ ret, e ≠ .write ret) (hs : Server.step env server e = some server') :
    Wired i server' responding sent := by
  by_cases houtside : ∃ ctx, e = .outside ctx
  · obtain ⟨ctx, rfl⟩ := houtside
    cases hs
    exact h.outside rfl rfl rfl rfl
  · have hpc := Server.not_writing (hS.stepped hs) he fun ctx heq => houtside ⟨ctx, heq⟩
    rw [h.idle hpc]
    exact h.leaves (Leaves.step i hS he hs) (inFlight_of_not_writing hpc) fun a f r hpc' hof =>
      onCourse_enter (short_of_writing hO hshort hpc' hof)

/-! ## The steps of the process -/

theorem Short.of_prefix {log log' : List Entry} (h : Short i log') (hle : log <+: log') :
    Short i log := by
  intro l r hmem
  obtain ⟨post, rfl⟩ := hle
  refine h l r ?_
  rw [answersOf_append]
  exact List.mem_append_left _ hmem

/-- What holds in every state of a run in which no service writes on the connection. -/
structure Conversing (i : Nat) (server : Server) (responding : Option Transfer) (sent : List Byte) :
    Prop where
  sound : server.Sound
  inOrder : server.InOrder
  wired : Short i server.log → Wired i server responding sent

theorem Conversing.loop {env : CreadlineEnv} {e : Event} (h : Conversing i server responding sent)
    (he : ∀ ret, e ≠ .write ret) (hs : Server.step env server e = some server') :
    Conversing i server' responding sent := by
  have hO := h.inOrder.step h.sound hs
  refine ⟨h.sound.step hs, hO, ?_⟩
  intro hshort
  have hbefore := hshort.of_prefix (Server.log_grows h.sound hs)
  exact (h.wired hbefore).loop h.sound hO hshort he hs

theorem Conversing.serving {P : Program} (hP : LeavesClients P) {env : CreadlineEnv}
    {st st' : Serving} {e : ServingEvent} (h : Conversing i st.server responding sent)
    (hs : Serving.step P env st e = some st') (he : ∀ ret, e ≠ .loop (.write ret)) :
    Conversing i st'.server responding sent := by
  obtain ⟨es, hes, hrun⟩ := Serving.simulated_quiet hP hs he
  have hkeeps : ∀ {s : Server} {d : Event} {s' : Server}, Conversing i s responding sent →
      (∀ ret, d ≠ .write ret) → Server.step env s d = some s' →
      Conversing i s' responding sent := fun h hd hs => h.loop hd hs
  exact run_invariant_of_meets (fun _ d => ∀ ret, d ≠ Event.write ret) hkeeps h
    (meets_of_forall hes) hrun

theorem Conversing.outside (h : Conversing i server responding sent) (ctx : JapiContext)
    (hclients : ctx.clients = server.ctx.clients) (hnum : ctx.numClients = server.ctx.numClients) :
    Conversing i { server with ctx } responding sent := by
  have hs : Server.step ⟨0, fun _ => false⟩ server (.outside ctx) = some { server with ctx } := by
    simp only [Server.step, ← hclients, ← hnum]
  exact h.loop (by simp) hs

theorem sentTo_concat (st : Process) (i j : Nat) (bytes : List Byte) :
    (st.wire ++ [(j, bytes)]).flatMap (fun w => if w.1 = i then w.2 else []) =
      st.sentTo i ++ if j = i then bytes else [] := by
  rw [List.flatMap_append]
  simp [sentTo]

/-- No service writes on the connection. -/
def Elsewhere (i : Nat) (st : Process) : ProcessEvent → Prop
  | .write (.service psc) _ => ∀ call, st.callOf (.service psc) = some call →
      connOf st.serving.server.conns call.1 ≠ some i
  | _ => True

/-- The state of a process, as the connection sees it. -/
def Talks (i : Nat) (st : Process) : Prop :=
  Conversing i st.serving.server st.responding (st.sentTo i)

theorem Talks.visit {st : Process} (h : st.Talks i) (psc : Addr) (msg : List Byte)
    (nodes : List Int) : (st.visit psc msg nodes).Talks i := by
  cases nodes <;> exact h

theorem Talks.onSent {st : Process} (h : st.Talks i) (psc : Addr) (msg : List Byte) (client : Int)
    (following : List Int) (ret : Int) : (st.onSent psc msg client following ret).Talks i := by
  unfold Process.onSent
  split
  · split
    · have hremoved : (st.removeSubscriber psc client).Talks i := by
        unfold Talks at h ⊢
        exact h.outside _ rfl rfl
      exact hremoved.visit psc msg following
    · exact h
  · exact h.visit psc msg following

theorem Talks.serve {P : Program} (hP : LeavesClients P) {env : CreadlineEnv} {st st' : Process}
    {e : ServingEvent} (h : st.Talks i) (he : ∀ ret, e ≠ .loop (.write ret))
    (hs : st.serve P env e = some st') : st'.Talks i := by
  obtain ⟨after, hafter, hs⟩ := Option.bind_eq_some_iff.mp hs
  split at hs
  · cases hs
  · cases hs
    exact h.serving hP hafter he

theorem callOf_server {st : Process} {call : Int × Transfer} (h : st.callOf .server = some call) :
    ∃ a f r c, st.serving.server.pc = .serve a f (.write r) ∧
      st.serving.server.clientAt a = some c ∧ call = (c.socket, st.responding.getD (.enter r)) := by
  simp only [callOf] at h
  split at h
  · rename_i a f r hpc
    obtain ⟨c, hc, rfl⟩ := Option.map_eq_some_iff.mp h
    exact ⟨a, f, r, c, hpc, hc, rfl⟩
  · cases h

theorem Talks.onWrite {P : Program} {env : CreadlineEnv} {st st' : Process}
    {w : Writer} {bytesWritten : Int} (h : st.Talks i)
    (hw : 0 < bytesWritten → st.Elsewhere i (.write w bytesWritten))
    (hs : st.onWrite P env w bytesWritten = some st') : st'.Talks i := by
  obtain ⟨call, hcall, hs⟩ := Option.bind_eq_some_iff.mp hs
  split at hs
  · rename_i ret hturn
    cases w with
    | server =>
        obtain ⟨a, f, r, c, hpc, hc, rfl⟩ := callOf_server hcall
        obtain ⟨after, hafter, rfl⟩ := Option.map_eq_some_iff.mp hs
        have hstep := serve_loop hafter
        obtain ⟨serving, -, hafter⟩ := Option.bind_eq_some_iff.mp hafter
        split at hafter
        · cases hafter
        · cases hafter
          refine ⟨h.sound.step hstep, h.inOrder.step h.sound hstep, ?_⟩
          intro hshort
          have hbefore := hshort.of_prefix (Server.log_grows h.sound hstep)
          have hturns : ∀ a' f' r', st.serving.server.pc = .serve a' f' (.write r') →
              (st.responding.getD (.enter r')).turn bytesWritten = .returned ret := by
            intro a' f' r' hpc'
            rw [hpc] at hpc'
            cases hpc'
            exact hturn
          exact (h.wired hbefore).returned h.sound hstep hturns
    | service psc =>
        simp only [Process.onReturn] at hs
        split at hs
        · cases hs
          exact h.onSent _ _ _ _ _
        · cases hs
  · rename_i t hturn
    split at hs
    · rename_i hle
      obtain ⟨j, hj, rfl⟩ := Option.map_eq_some_iff.mp hs
      cases w with
      | server =>
          obtain ⟨a, f, r, c, hpc, hc, rfl⟩ := callOf_server hcall
          refine ⟨h.sound, h.inOrder, ?_⟩
          intro hshort
          have hmore := (h.wired hshort).more hpc hc hj hturn hle
          rw [← sentTo_concat] at hmore
          exact hmore
      | service psc =>
          have hpos : 0 < bytesWritten := by
            unfold Transfer.turn at hturn
            split at hturn
            · split at hturn
              · cases hturn
              · rename_i hpos
                exact Int.not_le.mp hpos
            · cases hturn
          have hne : j ≠ i := by
            rintro rfl
            exact hw hpos call hcall hj
          have hsent := sentTo_concat st i j (call.2.buffer.take bytesWritten.toNat)
          rw [if_neg hne, List.append_nil] at hsent
          have hserving := withCall_serving st t (.service psc)
          have hresponding : (st.withCall t (.service psc)).responding = st.responding := by
            simp only [withCall]
            split <;> rfl
          unfold Talks at h ⊢
          simp only [sentTo, hserving, hresponding, hsent] at h ⊢
          exact h
    · cases hs

theorem Talks.step {P : Program} (hP : LeavesClients P) {env : CreadlineEnv} {st st' : Process}
    {e : ProcessEvent} (h : st.Talks i) (he : st.Elsewhere i e) (hs : step P env st e = some st') :
    st'.Talks i := by
  cases e with
  | serve e =>
      cases e with
      | request mem stale => exact h.serve hP (by simp) hs
      | loop e =>
          cases e with
          | write ret => cases hs
          | _ => exact h.serve hP (by simp) hs
  | sendmsg psc msg =>
      simp only [Process.step] at hs
      split at hs
      · cases hs
        exact h.visit _ _ _
      · cases hs
  | write w bytesWritten => exact h.onWrite (fun _ => he) hs
  | interrupted call =>
      cases call with
      | select => exact h.serve hP (by simp) hs
      | accept => exact h.serve hP (by simp) hs
      | write w =>
          obtain ⟨call, -, hs⟩ := Option.bind_eq_some_iff.mp hs
          split at hs
          · exact h.onWrite (fun hpos => absurd hpos (by decide)) hs
          · cases hs

theorem talks_start (i : Nat) (ctx : JapiContext) (serverSocket : Int) (h : JHeap) :
    (start ctx serverSocket h).Talks i := by
  have hrun : run (Server.step ⟨0, fun _ => false⟩) (Server.start ctx serverSocket) [] =
      some (Server.start ctx serverSocket) := rfl
  refine ⟨Server.sound_start ctx serverSocket, Server.run_inOrder hrun, ?_⟩
  intro _
  refine ⟨fun _ => rfl, fun a f r hpc => ?_, fun _ => ⟨rfl, rfl⟩, fun c hc => ?_, fun c hc => ?_⟩
  · cases hpc
  · cases hc
  · cases hc

/-! ## The loop of the process -/

/-- What is sent to the server, if anything, is text. -/
def SendsText : ProcessEvent → Prop
  | .serve e => e.SendsText
  | _ => True

/-- The steps of the loop that a step of the process is. -/
def IsRun (env : CreadlineEnv) (text : Prop) (st st' : Process) : Prop :=
  ∃ es, (text → ∀ d ∈ es, Server.SendsText d) ∧
    run (Server.step env) st.serving.server es = some st'.serving.server

theorem IsRun.refl {env : CreadlineEnv} {text : Prop} {st st' : Process}
    (h : st'.serving = st.serving) : IsRun env text st st' := by
  refine ⟨[], by simp, ?_⟩
  rw [h]
  rfl

theorem IsRun.serve {P : Program} (hP : LeavesClients P) {env : CreadlineEnv} {st st' : Process}
    {e : ServingEvent} (hs : st.serve P env e = some st') : IsRun env e.SendsText st st' := by
  obtain ⟨after, hafter, hs⟩ := Option.bind_eq_some_iff.mp hs
  split at hs
  · cases hs
  · cases hs
    exact Serving.simulated hP hafter

theorem IsRun.onSent {env : CreadlineEnv} {text : Prop} (st : Process) (psc : Addr)
    (msg : List Byte) (client : Int) (following : List Int) (ret : Int) :
    IsRun env text st (st.onSent psc msg client following ret) := by
  unfold Process.onSent
  split
  · split
    · refine ⟨[.outside (st.removeSubscriber psc client).serving.server.ctx], ?_, ?_⟩
      · intro _ d hd
        rw [List.mem_singleton.mp hd]
        trivial
      · rw [visit_serving]
        rfl
    · exact .refl rfl
  · exact .refl (visit_serving _ _ _ _)

theorem IsRun.onWrite {P : Program} (hP : LeavesClients P) {env : CreadlineEnv} {text : Prop}
    {st st' : Process} {w : Writer} {bytesWritten : Int}
    (hs : st.onWrite P env w bytesWritten = some st') : IsRun env text st st' := by
  obtain ⟨call, -, hs⟩ := Option.bind_eq_some_iff.mp hs
  split at hs
  · rename_i ret _
    cases w with
    | server =>
        obtain ⟨after, hafter, rfl⟩ := Option.map_eq_some_iff.mp hs
        obtain ⟨es, hes, hrun⟩ := IsRun.serve hP hafter
        exact ⟨es, fun _ => hes trivial, hrun⟩
    | service psc =>
        simp only [Process.onReturn] at hs
        split at hs
        · cases hs
          exact .onSent _ _ _ _ _ _
        · cases hs
  · split at hs
    · obtain ⟨j, -, rfl⟩ := Option.map_eq_some_iff.mp hs
      exact .refl (withCall_serving _ _ _)
    · cases hs

theorem simulated {P : Program} (hP : LeavesClients P) {env : CreadlineEnv} {st st' : Process}
    {e : ProcessEvent} (hs : step P env st e = some st') : IsRun env (SendsText e) st st' := by
  cases e with
  | serve e =>
      cases e with
      | request mem stale => exact .serve hP hs
      | loop e =>
          cases e with
          | write ret => cases hs
          | _ => exact .serve hP hs
  | sendmsg psc msg =>
      simp only [step] at hs
      split at hs
      · cases hs
        exact .refl (visit_serving _ _ _ _)
      · cases hs
  | write w bytesWritten => exact .onWrite hP hs
  | interrupted call =>
      cases call with
      | select => exact .serve hP hs
      | accept => exact .serve hP hs
      | write w =>
          obtain ⟨call, -, hs⟩ := Option.bind_eq_some_iff.mp hs
          split at hs
          · exact .onWrite hP hs
          · cases hs

/-- **Every run of the process is, for the loop, one of its own.**  What the threads of
the services do, where `write()` stops, and the interruptions are no more to the loop
than changes of the context and return values, so what holds in every run of the loop
holds in the process. -/
theorem run_isRun {P : Program} (hP : LeavesClients P) {env : CreadlineEnv} {ctx : JapiContext}
    {serverSocket : Int} {h : JHeap} {es : List ProcessEvent} (hes : ∀ e ∈ es, SendsText e)
    {st : Process} (hrun : run (step P env) (start ctx serverSocket h) es = some st) :
    ∃ es', (∀ e ∈ es', Server.SendsText e) ∧
      run (Server.step env) (Server.start ctx serverSocket) es' = some st.serving.server := by
  have hsim : ∀ {s : Process} {t : Server} {e s'}, s.serving.server = t → SendsText e →
      step P env s e = some s' →
      ∃ ds t', (∀ d ∈ ds, Server.SendsText d) ∧ run (Server.step env) t ds = some t' ∧
        s'.serving.server = t' := by
    rintro s t e s' rfl he hs
    obtain ⟨ds, hds, hrun⟩ := simulated hP hs
    exact ⟨ds, s'.serving.server, hds he, hrun, rfl⟩
  obtain ⟨es', t, hes', hrun', rfl⟩ :=
    run_simulation (R := fun s t => s.serving.server = t) hsim rfl hes hrun
  exact ⟨es', hes', hrun'⟩

/-! ## The answers of the process -/

theorem answered_step {P : Program} (hP : LeavesClients P) {env : CreadlineEnv} {st st' : Process}
    {e : ProcessEvent} (hS : st.serving.server.Sound)
    (h : Serving.Answered P st.serving.server.log) (hs : step P env st e = some st') :
    Serving.Answered P st'.serving.server.log := by
  have hserve : ∀ {s s' : Process} {e : ServingEvent}, s.serving = st.serving →
      s.serve P env e = some s' → Serving.Answered P s'.serving.server.log := by
    intro s s' e hserving hs
    obtain ⟨after, hafter, hs⟩ := Option.bind_eq_some_iff.mp hs
    rw [hserving] at hafter
    split at hs
    · cases hs
    · cases hs
      exact h.step hP hS hafter
  have hwrite : ∀ {w : Writer} {n : Int}, st.onWrite P env w n = some st' →
      Serving.Answered P st'.serving.server.log := by
    intro w n hs
    obtain ⟨call, -, hs⟩ := Option.bind_eq_some_iff.mp hs
    split at hs
    · cases w with
      | server =>
          obtain ⟨after, hafter, rfl⟩ := Option.map_eq_some_iff.mp hs
          have hanswered := hserve rfl hafter
          exact hanswered
      | service psc =>
          simp only [onReturn] at hs
          split at hs
          · cases hs
            unfold onSent
            split
            · split
              · rw [visit_serving]
                exact h
              · exact h
            · rw [visit_serving]
              exact h
          · cases hs
    · split at hs
      · obtain ⟨j, -, rfl⟩ := Option.map_eq_some_iff.mp hs
        rw [withCall_serving]
        exact h
      · cases hs
  cases e with
  | serve e =>
      cases e with
      | request mem stale => exact hserve rfl hs
      | loop e =>
          cases e with
          | write ret => cases hs
          | _ => exact hserve rfl hs
  | sendmsg psc msg =>
      simp only [step] at hs
      split at hs
      · cases hs
        rw [visit_serving]
        exact h
      · cases hs
  | write w bytesWritten => exact hwrite hs
  | interrupted call =>
      cases call with
      | select => exact hserve rfl hs
      | accept => exact hserve rfl hs
      | write w =>
          obtain ⟨call, -, hs⟩ := Option.bind_eq_some_iff.mp hs
          split at hs
          · exact hwrite hs
          · cases hs

theorem run_answersOf {P : Program} (hP : LeavesClients P) {env : CreadlineEnv} {ctx : JapiContext}
    {serverSocket : Int} {h : JHeap} {es : List ProcessEvent} {st : Process}
    (hrun : run (step P env) (start ctx serverSocket h) es = some st) :
    Serving.Answered P st.serving.server.log := by
  have hkeeps : ∀ {s : Process} {e : ProcessEvent} {s' : Process},
      s.Inv ∧ Serving.Answered P s.serving.server.log → step P env s e = some s' →
      s'.Inv ∧ Serving.Answered P s'.serving.server.log :=
    fun hs h => ⟨hs.1.step hP h, answered_step hP hs.1.sound hs.2 h⟩
  have hnone : Serving.Answered P (start ctx serverSocket h).serving.server.log := by
    intro co l s r hmem
    cases hmem
  exact (run_invariant hkeeps ⟨inv_start ctx serverSocket h, hnone⟩ hrun).2

/-! ## The conversation -/

theorem finish_response {P : Program} {malloc : Bool} {served : Served}
    {jreq jresp jrespData : JPtr} {called : List Handler} {out : Outcome}
    (hout : finish P malloc served jreq jresp jrespData called = .ok out) :
    ∃ h', out.response = japiGetJobjAsNdstr P.json malloc h' jresp := by
  simp only [finish, bind, Except.bind] at hout
  split at hout
  · cases hout
  · cases hout
    exact ⟨_, rfl⟩

theorem japiProcessMessage_ndstr {P : Program} {mem : Mem} {stale : Option CStr}
    {ctx : JapiContext} {h : JHeap} {request : CStr} {socket : Int} {out : Outcome}
    (hout : japiProcessMessage P mem stale ctx h request socket = .ok out) {response : CStr}
    (hresponse : out.response = some response) :
    ∃ h' jresp, japiGetJobjAsNdstr P.json mem.ndstr h' jresp = some response := by
  have hfinish : ∀ {served : Served} {jreq jresp jrespData : JPtr} {called : List Handler},
      finish P mem.ndstr served jreq jresp jrespData called = .ok out →
      ∃ h' jresp, japiGetJobjAsNdstr P.json mem.ndstr h' jresp = some response := by
    intro served jreq jresp jrespData called hout
    obtain ⟨h', heq⟩ := finish_response hout
    exact ⟨h', jresp, heq.symm.trans hresponse⟩
  simp only [japiProcessMessage] at hout
  split at hout
  · cases hout
  · split at hout
    · cases hout
      cases hresponse
    · split at hout
      · -- each step up to the call of `finish` may abort the process
        simp only [bind, Except.bind] at hout
        split at hout
        · cases hout
        · split at hout
          · cases hout
          · split at hout
            · cases hout
            · split at hout
              · cases hout
              · exact hfinish hout
      · split at hout
        · cases hout
          cases hresponse
        · exact hfinish hout

theorem answerTo_text {P : Program} {l : List Byte} {s : Int} {r : List Byte}
    (h : Serving.AnswerTo P l s (some r)) :
    ∃ tree, r = (P.json.toJsonString tree).bytes ++ [nl] := by
  obtain ⟨mem, stale, ctx, heap, out, hout, hr⟩ := h
  obtain ⟨response, hresponse, rfl⟩ := Option.map_eq_some_iff.mp hr
  obtain ⟨h', jresp, hndstr⟩ := japiProcessMessage_ndstr hout hresponse
  unfold japiGetJobjAsNdstr at hndstr
  split at hndstr
  · cases hndstr
    exact ⟨_, rfl⟩
  · cases hndstr

/-- A peer asked for `asked`, line by line, and was sent `sent`: its lines were answered
one after the other, and what it was sent begins the answers. -/
structure Conversation (AnswerTo : List Byte → Option (List Byte) → Prop)
    (asked : List (List Byte)) (answers : List (List Byte × Option (List Byte)))
    (sent : List Byte) : Prop where
  lines : answers.map Prod.fst <+: asked
  answered : ∀ a ∈ answers, AnswerTo a.1 a.2
  sent : sent <+: (answers.filterMap Prod.snd).flatten

theorem exists_texts {rs : List (List Byte)}
    (h : ∀ r ∈ rs, ∃ text, nl ∉ text ∧ r = text ++ [nl]) :
    ∃ texts : List (List Byte), (∀ t ∈ texts, nl ∉ t) ∧ rs = texts.map (· ++ [nl]) := by
  induction rs with
  | nil => exact ⟨[], by simp, rfl⟩
  | cons r rs ih =>
      obtain ⟨text, htext, rfl⟩ := h r (by simp)
      obtain ⟨texts, htexts, rfl⟩ := ih fun r' hr' => h r' (by simp [hr'])
      exact ⟨text :: texts, by simpa using ⟨htext, htexts⟩, rfl⟩

theorem Conversation.lines_sent {AnswerTo : List Byte → Option (List Byte) → Prop}
    {asked : List (List Byte)} {answers : List (List Byte × Option (List Byte))}
    {sent : List Byte} (h : Conversation AnswerTo asked answers sent)
    (hline : ∀ l r, (l, some r) ∈ answers → ∃ text, nl ∉ text ∧ r = text ++ [nl]) :
    (Libjapi.lines nl sent).map (· ++ [nl]) <+: answers.filterMap Prod.snd := by
  obtain ⟨texts, htexts, hanswers⟩ : ∃ texts : List (List Byte), (∀ t ∈ texts, nl ∉ t) ∧
      answers.filterMap Prod.snd = texts.map (· ++ [nl]) := by
    refine exists_texts ?_
    intro r hr
    obtain ⟨⟨l, r'⟩, ha, rfl⟩ := List.mem_filterMap.mp hr
    exact hline l r ha
  have hsent := h.sent
  rw [hanswers] at hsent ⊢
  have hlines : Libjapi.lines nl sent <+: Libjapi.lines nl (texts.map (· ++ [nl])).flatten :=
    lines_of_prefix hsent
  rw [lines_join htexts] at hlines
  exact hlines.map _

theorem inFlight_pending (hO : server.InOrder) :
    inFlight i server responding <+: (pendingOf i server.log).flatten := by
  unfold inFlight
  split
  · rename_i a f r hpc
    split
    · rename_i hof
      have hlast := hO.last
      rw [hpc] at hlast
      obtain ⟨c, l, hc, hlast⟩ := hlast
      rw [hc, Option.bind_some] at hof
      rw [hof] at hlast
      have hpending : pendingOf i server.log = [r] := by simp [pendingOf, hlast]
      rw [hpending, List.flatten_singleton]
      exact List.take_prefix _ _
    · exact List.nil_prefix
  · exact List.nil_prefix

theorem pendingOf_settled {log : List Entry} (h : ∀ e ∈ log.getLast?, e.settled) :
    pendingOf i log = [] := by
  unfold pendingOf
  split
  · rename_i heq
    exact (h _ heq).elim
  · rfl

theorem answeredTo_of_mem {P : Program} (hD : server.Delivered)
    (hanswered : Serving.Answered P server.log) {conn : Conn} (hconn : server.conns[i]? = some conn)
    {a : List Byte × Option (List Byte)} (ha : a ∈ answersOf i server.log) :
    Serving.AnswerTo P a.1 conn.socket a.2 := by
  obtain ⟨e, he, hof⟩ := List.mem_filterMap.mp ha
  cases e with
  | processed co l s r =>
      obtain ⟨j, c, rfl, hj, rfl⟩ := hD.attributed co l s r he
      simp only [Entry.answerOf] at hof
      split at hof
      · rename_i hji
        cases hof
        rw [hji, hconn] at hj
        cases hj
        exact hanswered _ l _ r he
      · cases hof
  | _ => cases hof

/-- **A client is answered line by line**, if it sends no NUL, no service writes to it, and
the answers to it are shorter than an `int` can count and printed without a newline. -/
theorem run_conversation {P : Program} (hP : LeavesClients P) {env : CreadlineEnv}
    {ctx : JapiContext} {serverSocket : Int} {h : JHeap} {es : List ProcessEvent}
    (hes : ∀ e ∈ es, SendsText e) {st : Process}
    (hrun : run (step P env) (start ctx serverSocket h) es = some st) {i : Nat}
    (hquiet : Meets (step P env) (Elsewhere i) (start ctx serverSocket h) es)
    (hshort : Short i st.serving.server.log)
    (hline : ∀ l tree, (l, some ((P.json.toJsonString tree).bytes ++ [nl])) ∈
      answersOf i st.serving.server.log → nl ∉ (P.json.toJsonString tree).bytes) {conn : Conn}
    (hconn : st.serving.server.conns[i]? = some conn) :
    Conversation (fun l r => Serving.AnswerTo P l conn.socket r) (textLines (bytesOf conn.sent))
        (answersOf i st.serving.server.log) (st.sentTo i) ∧
      (lines nl (st.sentTo i)).map (· ++ [nl]) <+:
        (answersOf i st.serving.server.log).filterMap Prod.snd ∧
      (conn.isOpen = true → st.serving.server.pc = .select →
        st.sentTo i = ((answersOf i st.serving.server.log).filterMap Prod.snd).flatten) := by
  obtain ⟨es', hes', hrun'⟩ := run_isRun hP hes hrun
  have hD := Server.run_delivered hes' hrun'
  have hanswered := run_answersOf hP hrun
  have htalks : st.Talks i := run_invariant_of_meets (Elsewhere i) (fun h he hs => h.step hP he hs)
    (talks_start i ctx serverSocket h) hquiet hrun
  have hW := htalks.wired hshort
  have hwritten := htalks.inOrder.ordered.answers_written i
  have hconversation : Conversation (fun l r => Serving.AnswerTo P l conn.socket r)
      (textLines (bytesOf conn.sent)) (answersOf i st.serving.server.log) (st.sentTo i) := by
    refine ⟨?_, fun a ha => answeredTo_of_mem hD hanswered hconn ha, ?_⟩
    · rw [answersOf_lines]
      exact hD.done i conn hconn
    · rw [hwritten, List.flatten_append]
      cases hopen : conn.isOpen with
      | true =>
          rw [hW.live conn hconn hopen, List.prefix_append_right_inj]
          exact inFlight_pending htalks.inOrder
      | false => exact (hW.cut conn hconn hopen).2.trans (List.prefix_append _ _)
  have hlines : ∀ l r, (l, some r) ∈ answersOf i st.serving.server.log →
      ∃ text, nl ∉ text ∧ r = text ++ [nl] := by
    intro l r hmem
    obtain ⟨tree, rfl⟩ := answerTo_text (hconversation.answered _ hmem)
    exact ⟨_, hline l tree hmem, rfl⟩
  refine ⟨hconversation, hconversation.lines_sent hlines, ?_⟩
  intro hopen hpc
  have hnowrite : ∀ a f r, st.serving.server.pc ≠ .serve a f (.write r) := by simp [hpc]
  have hsettled := (htalks.inOrder.quiet hnowrite).2
  rw [hW.live conn hconn hopen, inFlight_of_not_writing hnowrite, hwritten,
    pendingOf_settled hsettled, List.append_nil, List.append_nil]

theorem elsewhere_of_server {P : Program} {env : CreadlineEnv} {es : List ProcessEvent}
    (h : ∀ psc n, .write (.service psc) n ∉ es) :
    ∀ st : Process, Meets (step P env) (Elsewhere i) st es := by
  induction es with
  | nil => exact fun _ => trivial
  | cons e es ih =>
      intro st
      refine ⟨?_, fun st' _ => ih (fun psc n hmem => h psc n (List.mem_cons_of_mem e hmem)) st'⟩
      cases e with
      | write w n =>
          cases w with
          | server => trivial
          | service psc => exact absurd List.mem_cons_self (h psc n)
      | _ => trivial

/-- The answer goes out in two parts. -/
def answeredWhole : List ProcessEvent :=
  answered [.data temperatureLine] ++ [.write .server 3, .write .server 85, .write .server 0,
    .serve (.loop .visit), .serve (.loop .noAccept)]

/-- What the client is told: the request is not registered. -/
def unregisteredText : CStr :=
  CStr.lit ("\x7b \"japi_response\": \"GET_TEMPERATURE\", " ++
    "\"data\": \x7b \"error\": \"no request handler found\" \x7d \x7d")

/-- The client is sent one line, which is the answer to its own. -/
theorem run_conversation_temperature :
    ∃ st, run (step (Program.idle getTemperature) libEnv) (start japiInit 3 ⟨[]⟩) answeredWhole =
        some st ∧
      st.sentTo 0 = unregisteredText.bytes ++ [nl] := by
  have hsome : (run (step (Program.idle getTemperature) libEnv) (start japiInit 3 ⟨[]⟩)
      answeredWhole).map (fun st => (answersOf 0 st.serving.server.log,
        st.serving.server.conns.map Conn.isOpen, st.serving.server.pc)) =
      some ([(temperatureLine.bytes.dropLast, some (unregisteredText.bytes ++ [nl]))], [true],
        .select) := by
    decide +kernel
  obtain ⟨st, hrun, heq⟩ := Option.map_eq_some_iff.mp hsome
  simp only [Prod.mk.injEq] at heq
  obtain ⟨hanswers, hconns, hpc⟩ := heq
  obtain ⟨conn, hconn, hopen⟩ := List.map_eq_singleton_iff.mp hconns
  have hlen : (unregisteredText.bytes ++ [nl]).length = 88 := by decide +kernel
  have hshort : Short 0 st.serving.server.log := by
    intro l r hmem
    rw [hanswers, List.mem_singleton] at hmem
    cases hmem
    omega
  have hline : ∀ l tree, (l, some (((Program.idle getTemperature).json.toJsonString tree).bytes ++
      [nl])) ∈ answersOf 0 st.serving.server.log →
        nl ∉ ((Program.idle getTemperature).json.toJsonString tree).bytes := by
    intro l tree hmem
    rw [hanswers, List.mem_singleton, Prod.mk.injEq, Option.some.injEq,
      List.append_cancel_right_eq] at hmem
    rw [hmem.2]
    decide +kernel
  have hes : ∀ e ∈ answeredWhole, SendsText e := by
    have htext : (0 : Byte) ∉ bytesOf [.data temperatureLine] := by decide +kernel
    simpa [answeredWhole, answered, SendsText, ServingEvent.SendsText, Server.SendsText] using htext
  have hquiet : Meets (step (Program.idle getTemperature) libEnv) (Elsewhere 0)
      (start japiInit 3 ⟨[]⟩) answeredWhole :=
    elsewhere_of_server (by simp [answeredWhole, answered]) _
  have hzero : st.serving.server.conns[0]? = some conn := by simp [hconn]
  have hsent := (run_conversation (leavesClients_idle getTemperature) hes hrun hquiet hshort hline
    hzero).2.2 hopen hpc
  rw [hanswers] at hsent
  exact ⟨st, hrun, hsent.trans (by simp)⟩

end Process

end Libjapi
