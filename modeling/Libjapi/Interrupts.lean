/-
# `Libjapi.Interrupts` — interrupted `read()`s

"EINTR is not an error": the loop of `creadline_r` makes room for a block again
and reads again.  Making room twice is making it once (`Doubled.grow`), also
where `int new_linebuf_size = 2*linebuf_size` overflows, so a call does the same
as if the `read()`s that were interrupted had not been made.

    a call of `creadline_r` without the interruptions      `creadlineR_uninterrupted`
    the loop of the server without those of its `read()`s  `Server.step_uninterrupted`
-/
import Libjapi.CreadlineAccess
import Libjapi.Serving

namespace Libjapi

/-! ## The results of `read()` -/

def ReadRes.isEintr : ReadRes → Bool
  | .eintr => true
  | _ => false

/-- The results with those of interrupted calls deleted. -/
def uninterrupted (input : List ReadRes) : List ReadRes := input.filter fun r => !r.isEintr

@[simp] theorem uninterrupted_nil : uninterrupted [] = [] := rfl

theorem uninterrupted_eintr (input : List ReadRes) :
    uninterrupted (.eintr :: input) = uninterrupted input := rfl

theorem uninterrupted_cons {r : ReadRes} (hr : r.isEintr = false) (input : List ReadRes) :
    uninterrupted (r :: input) = r :: uninterrupted input := by
  rw [uninterrupted, List.filter_cons_of_pos (by simp [hr]), uninterrupted]

def LoopExit.uninterrupted : LoopExit → LoopExit
  | .newline linebuf nlPos rest => .newline linebuf nlPos (Libjapi.uninterrupted rest)
  | .eof rest => .eof (Libjapi.uninterrupted rest)
  | .error rest => .error (Libjapi.uninterrupted rest)

def Creadline.uninterrupted (r : Creadline) : Creadline :=
  { r with rest := Libjapi.uninterrupted r.rest }

/-! ## The loop of `creadline_r` -/

/-- The sizes `linebuf` can have: a block doubled while `int` holds it, then what
the overflow makes of 2³¹, and 0. -/
def Doubled (b : Linebuf) : Prop :=
  (∃ k ≤ 20, b.size = blockSize * 2 ^ k ∧ b.bytes.length ≤ b.size) ∨
    b.size = 2 ^ 64 - 2 ^ 31 ∨ b.size = 0

theorem doubled_block {bytes : List Byte} (h : bytes.length ≤ blockSize) :
    Doubled ⟨bytes, blockSize⟩ := .inl ⟨0, Nat.zero_le _, rfl, h⟩

/-- A size is doubled, which makes room for a block, or it becomes 0 for good. -/
theorem Doubled.double {b : Linebuf} (h : Doubled b) (hfull : b.size < b.bytes.length + blockSize) :
    (Doubled { b with size := toSizeT (toInt32 (2 * b.size)) } ∧
        b.bytes.length + blockSize ≤ toSizeT (toInt32 (2 * b.size))) ∨
      toInt32 (2 * b.size) = 0 := by
  rcases h with ⟨k, hk, hsize, hlen⟩ | hsize | hsize
  · left
    rcases Nat.lt_or_eq_of_le hk with hlt | rfl
    · have hpow : (2 : Nat) ^ k ≤ 2 ^ 19 := Nat.pow_le_pow_right (by omega) (by omega)
      have hpos : 0 < (2 : Nat) ^ k := Nat.pow_pos (by omega)
      have hsmall : blockSize ≤ b.size ∧ b.size ≤ 2 ^ 29 := by
        rw [hsize, blockSize]
        omega
      have hnew : toSizeT (toInt32 (2 * b.size)) = 2 * b.size := by
        unfold toSizeT toInt32
        omega
      rw [hnew]
      refine ⟨.inl ⟨k + 1, hlt, ?_, ?_⟩, ?_⟩
      · show 2 * b.size = blockSize * 2 ^ (k + 1)
        rw [hsize, Nat.pow_succ, Nat.mul_comm 2, Nat.mul_assoc]
      · show b.bytes.length ≤ 2 * b.size
        omega
      · omega
    · have hnew : toSizeT (toInt32 (2 * b.size)) = 2 ^ 64 - 2 ^ 31 := by
        rw [hsize]
        rfl
      rw [hnew]
      refine ⟨.inr (.inl rfl), ?_⟩
      rw [hsize] at hlen
      simp only [blockSize] at hlen ⊢
      omega
  · exact .inr (by rw [hsize]; rfl)
  · exact .inr (by rw [hsize]; rfl)

theorem Doubled.read {b : Linebuf} (h : Doubled b)
    (hroom : b.bytes.length + blockSize ≤ b.size ∨ b.size = 0) (c : Chunk) :
    Doubled { b with bytes := b.bytes ++ c.bytes } := by
  rcases h with ⟨k, hk, hsize, hlen⟩ | hsize
  · rcases hroom with hroom | hzero
    · refine .inl ⟨k, hk, hsize, ?_⟩
      have hc := c.le
      show (b.bytes ++ c.bytes).length ≤ b.size
      rw [List.length_append]
      omega
    · exact .inr (.inr hzero)
  · exact .inr hsize

/-- **Making room twice is making it once**, and there is room for a block then. -/
theorem Doubled.grow {env : CreadlineEnv} {b b' : Linebuf} (h : Doubled b)
    (hg : growLinebuf env b = some b') :
    growLinebuf env b' = some b' ∧ Doubled b' ∧
      ∀ c : Chunk, Doubled { b' with bytes := b'.bytes ++ c.bytes } := by
  by_cases hroom : b.bytes.length + blockSize ≤ b.size
  · rw [growLinebuf_of_room hroom] at hg
    cases hg
    exact ⟨growLinebuf_of_room hroom, h, h.read (.inl hroom)⟩
  · have hfull : b.size < b.bytes.length + blockSize := by omega
    simp only [growLinebuf, if_pos hfull] at hg
    split at hg
    · cases hg
    · rename_i hmax
      split at hg
      · rename_i hmalloc
        cases hg
        rcases h.double hfull with ⟨hd, hroom'⟩ | hzero
        · generalize toSizeT (toInt32 (2 * b.size)) = size at hd hroom'
          exact ⟨growLinebuf_of_room hroom', hd, hd.read (.inl hroom')⟩
        · -- the size is 0 and is doubled again
          rw [hzero] at hmax hmalloc ⊢
          refine ⟨?_, .inr (.inr rfl), Doubled.read (.inr (.inr rfl)) (.inr rfl)⟩
          have hfull' : b.bytes.length + blockSize > toSizeT 0 := by
            rw [show toSizeT 0 = 0 from rfl, blockSize]
            omega
          have hdouble : toInt32 (2 * (toSizeT 0 : Nat)) = 0 := rfl
          simp only [growLinebuf, if_pos hfull', hdouble, if_neg hmax, if_pos hmalloc]
      · cases hg

theorem readLoop_grown {env : CreadlineEnv} {b b' : Linebuf} (hg : growLinebuf env b = some b')
    (hg' : growLinebuf env b' = some b') (input : List ReadRes) :
    readLoop env input b = readLoop env input b' := by
  cases input with
  | nil => simp only [readLoop, hg, hg']
  | cons r rest => simp only [readLoop, hg, hg']

theorem readLoop_full {env : CreadlineEnv} {b : Linebuf} (hg : growLinebuf env b = none)
    (input : List ReadRes) : readLoop env input b = .error input := by
  cases input with
  | nil => simp only [readLoop, hg]
  | cons r rest => simp only [readLoop, hg]

theorem atEof_uninterrupted (b : Linebuf) (rest : List ReadRes) :
    (atEof b rest).uninterrupted = atEof b (uninterrupted rest) := by
  unfold atEof
  split <;> rfl

/-- **The loop reads as if no `read()` had been interrupted.** -/
theorem readLoop_uninterrupted (env : CreadlineEnv) : ∀ (input : List ReadRes) {b : Linebuf},
    Doubled b → readLoop env (uninterrupted input) b = (readLoop env input b).uninterrupted
  | [], b, _ => by
      simp only [uninterrupted_nil, readLoop]
      split
      · rfl
      · rw [atEof_uninterrupted, uninterrupted_nil]
  | r :: input, b, hb => by
      cases hg : growLinebuf env b with
      | none => rw [readLoop_full hg, readLoop_full hg, LoopExit.uninterrupted]
      | some b' =>
          obtain ⟨hagain, hb', hread⟩ := hb.grow hg
          cases r with
          | eintr =>
              have ih := readLoop_uninterrupted env input hb'
              rw [uninterrupted_eintr, readLoop_grown hg hagain, ih]
              simp only [readLoop, hg]
          | error =>
              rw [uninterrupted_cons (r := .error) rfl]
              simp only [readLoop, hg, LoopExit.uninterrupted]
          | eof =>
              rw [uninterrupted_cons (r := .eof) rfl]
              simp only [readLoop, hg]
              exact (atEof_uninterrupted b' input).symm
          | data c =>
              rw [uninterrupted_cons (r := .data c) rfl]
              simp only [readLoop, hg]
              cases strnpos c.bytes nl with
              | some p => rfl
              | none => exact readLoop_uninterrupted env input (hread c)

/-! ## A call -/

theorem takeLine_uninterrupted (buffer : CreadlineBuf) (linebuf : List Byte) (nlPos : Nat)
    (rest : List ReadRes) :
    takeLine buffer linebuf nlPos (uninterrupted rest) =
      (takeLine buffer linebuf nlPos rest).uninterrupted := rfl

/-- **A call of `creadline_r` does what it does without the interruptions.** -/
theorem creadlineR_uninterrupted (env : CreadlineEnv) {buffer : CreadlineBuf}
    (hbuf : buffer.nbytes < blockSize) (input : List ReadRes) :
    creadlineR env buffer (uninterrupted input) = (creadlineR env buffer input).uninterrupted := by
  have hdoubled : Doubled ⟨buffer.restored, blockSize⟩ :=
    doubled_block (by rw [length_restored]; exact hbuf.le)
  simp only [creadlineR]
  split
  · cases strnpos buffer.restored nl with
    | some p => exact takeLine_uninterrupted _ _ _ _
    | none =>
        rw [readLoop_uninterrupted env input hdoubled]
        cases readLoop env input ⟨buffer.restored, blockSize⟩ with
        | newline linebuf nlPos rest => exact takeLine_uninterrupted _ _ _ _
        | eof rest => rfl
        | error rest => rfl
  · rfl

theorem readLoop_carried {env : CreadlineEnv} {linebuf : List Byte} {nlPos : Nat}
    {rest : List ReadRes} : ∀ {input : List ReadRes} {b : Linebuf},
    readLoop env input b = .newline linebuf nlPos rest → linebuf.length ≤ nlPos + blockSize
  | [], b, h => by
      simp only [readLoop] at h
      split at h
      · cases h
      · exact absurd h (atEof_ne_newline _ _)
  | r :: input, b, h => by
      simp only [readLoop] at h
      split at h
      · cases h
      · rename_i b' hg
        cases r with
        | eintr => exact readLoop_carried h
        | error => cases h
        | eof => exact absurd h (atEof_ne_newline _ _)
        | data c =>
            have hc := c.le
            dsimp only at h
            split at h
            · cases h
              rw [List.length_append]
              omega
            · exact readLoop_carried h

theorem takeLine_carried {buffer : CreadlineBuf} (hbuf : buffer.nbytes = 0) {linebuf : List Byte}
    {nlPos : Nat} (h : linebuf.length ≤ nlPos + blockSize) (rest : List ReadRes) :
    (takeLine buffer linebuf nlPos rest).buffer.nbytes < blockSize := by
  have hpos : 0 < blockSize := Nat.zero_lt_succ 1023
  simp only [takeLine]
  split
  · show linebuf.length - nlPos - 1 < blockSize
    omega
  · rw [hbuf]
    exact hpos

theorem creadlineR_carried (env : CreadlineEnv) {buffer : CreadlineBuf}
    (hbuf : buffer.nbytes < blockSize) (input : List ReadRes) :
    (creadlineR env buffer input).buffer.nbytes < blockSize := by
  have hpos : 0 < blockSize := Nat.zero_lt_succ 1023
  simp only [creadlineR]
  split
  · cases hpos' : strnpos buffer.restored nl with
    | some p =>
        refine takeLine_carried rfl ?_ input
        rw [length_restored]
        omega
    | none =>
        cases hloop : readLoop env input ⟨buffer.restored, blockSize⟩ with
        | newline linebuf nlPos rest => exact takeLine_carried rfl (readLoop_carried hloop) rest
        | eof rest => exact hpos
        | error rest => exact hpos
  · exact hbuf

/-! ## The loop of the server -/

/-- The connection, if its `read()`s are not interrupted. -/
def Conn.uninterrupted (c : Conn) : Conn :=
  { c with sent := Libjapi.uninterrupted c.sent, unread := Libjapi.uninterrupted c.unread }

/-- The state, if no `read()` is interrupted. -/
def Server.uninterrupted (st : Server) : Server :=
  { st with conns := st.conns.map Conn.uninterrupted }

/-- A step, with the interruptions of the `read()`s deleted. -/
def Event.uninterrupted : Event → Event
  | .accept socket sent malloc => .accept socket (Libjapi.uninterrupted sent) malloc
  | e => e

theorem map_modify {α β : Type*} {f : α → β} {g : α → α} {g' : β → β}
    (h : ∀ a, f (g a) = g' (f a)) :
    ∀ (l : List α) (i : Nat), (l.modify i g).map f = (l.map f).modify i g'
  | [], i => by simp
  | a :: l, 0 => by simp [h]
  | a :: l, i + 1 => by simp [map_modify h l i]

theorem connOf_uninterrupted (conns : List Conn) (socket : Int) :
    connOf (conns.map Conn.uninterrupted) socket = connOf conns socket := by
  rw [connOf, List.findIdx?_map]
  rfl

namespace Server

variable (st : Server)

@[simp] theorem uninterrupted_pc : st.uninterrupted.pc = st.pc := rfl
@[simp] theorem uninterrupted_ctx : st.uninterrupted.ctx = st.ctx := rfl

@[simp] theorem uninterrupted_connOf (socket : Int) :
    connOf st.uninterrupted.conns socket = connOf st.conns socket := connOf_uninterrupted _ _

@[simp] theorem clientAt_uninterrupted (a : Addr) : st.uninterrupted.clientAt a = st.clientAt a :=
  rfl

theorem record_uninterrupted (e : Entry) :
    st.uninterrupted.record e = (st.record e).uninterrupted := rfl

theorem goto_uninterrupted (pc : Pc) : st.uninterrupted.goto pc = (st.goto pc).uninterrupted := rfl

theorem close_uninterrupted (socket : Int) :
    st.uninterrupted.close socket = (st.close socket).uninterrupted := by
  unfold close
  rw [uninterrupted_connOf]
  cases connOf st.conns socket with
  | none => rfl
  | some i =>
      have hshut : ((st.conns.modify i Conn.shut).map Conn.uninterrupted) =
          (st.conns.map Conn.uninterrupted).modify i Conn.shut := by
        refine map_modify ?_ _ _
        exact fun _ => rfl
      simp only [uninterrupted, record, hshut]

theorem closes_uninterrupted (sockets : List Int) :
    ∀ st : Server, sockets.foldl close st.uninterrupted = (sockets.foldl close st).uninterrupted := by
  induction sockets with
  | nil => exact fun _ => rfl
  | cons socket sockets ih =>
      intro st
      rw [List.foldl_cons, close_uninterrupted, ih, List.foldl_cons]

theorem removeClient_uninterrupted (socket : Int) :
    st.uninterrupted.removeClient socket = (st.removeClient socket).uninterrupted :=
  closes_uninterrupted _ { st with ctx := (japiRemoveClient st.ctx socket).ctx }

theorem removeAllClients_uninterrupted :
    st.uninterrupted.removeAllClients = st.removeAllClients.uninterrupted :=
  closes_uninterrupted _ { st with ctx := (japiRemoveAllClients st.ctx).ctx }

theorem loopTest_uninterrupted (client : Addr) (following : Option Addr) :
    st.uninterrupted.loopTest client following = (st.loopTest client following).uninterrupted := by
  unfold loopTest
  rw [clientAt_uninterrupted]
  cases st.clientAt client with
  | none => rfl
  | some c =>
      dsimp only
      split <;> rfl

theorem unreadOf_uninterrupted (socket : Int) :
    st.uninterrupted.unreadOf socket = Libjapi.uninterrupted (st.unreadOf socket) := by
  unfold unreadOf
  rw [uninterrupted_connOf]
  cases connOf st.conns socket with
  | none => rfl
  | some i =>
      simp only [uninterrupted, List.getElem?_map]
      cases st.conns[i]? <;> rfl

theorem afterRead_uninterrupted (c : JapiClient) (r : Creadline) :
    st.uninterrupted.afterRead c r.uninterrupted = (st.afterRead c r).uninterrupted := by
  unfold afterRead
  rw [uninterrupted_connOf]
  cases connOf st.conns c.socket with
  | none => rfl
  | some i =>
      have hread : ((st.conns.modify i fun conn => { conn with unread := r.rest }).map
          Conn.uninterrupted) = (st.conns.map Conn.uninterrupted).modify i
            fun conn => { conn with unread := r.uninterrupted.rest } := by
        refine map_modify ?_ _ _
        exact fun _ => rfl
      simp only [uninterrupted, hread]
      rfl

theorem onSelect_uninterrupted (res : SelectRes) :
    st.uninterrupted.onSelect res = (st.onSelect res).uninterrupted := by
  cases res with
  | failed => rfl
  | timeout =>
      simp only [onSelect, uninterrupted_ctx, removeAllClients_uninterrupted]
      split <;> rfl
  | ready fds server =>
      simp only [onSelect, uninterrupted_ctx, removeAllClients_uninterrupted]
      split <;> rfl

theorem onVisit_uninterrupted (client : Option Addr) :
    st.uninterrupted.onVisit client = (st.onVisit client).uninterrupted := by
  cases client with
  | none => rfl
  | some client =>
      simp only [onVisit, clientAt_uninterrupted, uninterrupted_ctx]
      cases st.clientAt client with
      | none => rfl
      | some c =>
          dsimp only
          split
          · rename_i hready
            rw [if_pos (show c.socket ∈ st.fdrd from hready), goto_uninterrupted]
          · rename_i hready
            rw [if_neg (show c.socket ∉ st.fdrd from hready), goto_uninterrupted]

/-- Less than a block is carried over for each client. -/
def Carries (st : Server) : Prop := ∀ c ∈ st.ctx.clients, c.crlBuffer.nbytes < blockSize

theorem onRead_uninterrupted {env : CreadlineEnv} (h : st.Carries) (client : Addr)
    (following : Option Addr) :
    st.uninterrupted.onRead env client following = (st.onRead env client following).uninterrupted := by
  simp only [onRead, clientAt_uninterrupted]
  cases hc : st.clientAt client with
  | none => rfl
  | some c =>
      have hcarried := h c (List.mem_of_find?_eq_some hc)
      dsimp only
      rw [unreadOf_uninterrupted, creadlineR_uninterrupted env hcarried, afterRead_uninterrupted]
      have hret : (creadlineR env c.crlBuffer (st.unreadOf c.socket)).uninterrupted.ret =
        (creadlineR env c.crlBuffer (st.unreadOf c.socket)).ret := rfl
      have hdst : (creadlineR env c.crlBuffer (st.unreadOf c.socket)).uninterrupted.dst =
        (creadlineR env c.crlBuffer (st.unreadOf c.socket)).dst := rfl
      rw [hret, hdst, removeClient_uninterrupted, loopTest_uninterrupted]
      split
      · rfl
      · split
        · split <;> rfl
        · rfl

theorem onProcess_uninterrupted (client : Addr) (following : Option Addr) (request : List Byte)
    (response : Option (List Byte)) :
    st.uninterrupted.onProcess client following request response =
      (st.onProcess client following request response).uninterrupted := by
  simp only [onProcess, clientAt_uninterrupted]
  cases st.clientAt client with
  | none => rfl
  | some c =>
      cases response with
      | none =>
          simp only [uninterrupted_connOf, record_uninterrupted]
          exact loopTest_uninterrupted _ client following
      | some r =>
          simp only [uninterrupted_connOf, record_uninterrupted]
          rfl

theorem onWrite_uninterrupted (client : Addr) (following : Option Addr) (response : List Byte)
    (ret : Int) :
    st.uninterrupted.onWrite client following response ret =
      (st.onWrite client following response ret).uninterrupted := by
  simp only [onWrite, clientAt_uninterrupted]
  cases st.clientAt client with
  | none => rfl
  | some c =>
      simp only [uninterrupted_connOf, record_uninterrupted]
      split
      · rw [removeClient_uninterrupted, goto_uninterrupted]
      · exact loopTest_uninterrupted _ client following

theorem onAccept_uninterrupted (socket : Int) (sent : List ReadRes) (malloc : Option Addr) :
    st.uninterrupted.onAccept socket (Libjapi.uninterrupted sent) malloc =
      (st.onAccept socket sent malloc).uninterrupted := by
  have hconnect : st.uninterrupted.connect socket (Libjapi.uninterrupted sent) =
      (st.connect socket sent).uninterrupted := by
    simp only [connect, uninterrupted, List.map_append, List.map_cons, List.map_nil]
    rfl
  have hlength : st.uninterrupted.conns.length = st.conns.length := List.length_map _
  simp only [onAccept, hconnect, hlength, uninterrupted_ctx, record_uninterrupted]
  split
  · rfl
  · rw [close_uninterrupted, goto_uninterrupted]

/-- **A step does what it does without the interruptions of the `read()`s.** -/
theorem step_uninterrupted (env : CreadlineEnv) (h : st.Carries) (e : Event) :
    Server.step env st.uninterrupted e.uninterrupted =
      (Server.step env st e).map Server.uninterrupted := by
  cases e with
  | outside ctx => rfl
  | select res =>
      simp only [Event.uninterrupted, Server.step, uninterrupted_pc, onSelect_uninterrupted]
      split <;> rfl
  | visit =>
      simp only [Event.uninterrupted, Server.step, uninterrupted_pc, onVisit_uninterrupted]
      split <;> rfl
  | read =>
      simp only [Event.uninterrupted, Server.step, uninterrupted_pc, st.onRead_uninterrupted h]
      split <;> rfl
  | process response =>
      simp only [Event.uninterrupted, Server.step, uninterrupted_pc, onProcess_uninterrupted]
      split <;> rfl
  | write ret =>
      simp only [Event.uninterrupted, Server.step, uninterrupted_pc, onWrite_uninterrupted]
      split <;> rfl
  | noAccept =>
      simp only [Event.uninterrupted, Server.step, uninterrupted_pc]
      split
      · split
        · rename_i hready
          rw [if_pos (show st.serverReady = true from hready), Option.map_none]
        · rename_i hready
          rw [if_neg (show ¬ st.serverReady = true from hready), Option.map_some, goto_uninterrupted]
      · rfl
  | acceptFailed =>
      simp only [Event.uninterrupted, Server.step, uninterrupted_pc]
      split
      · split
        · rename_i hready
          rw [if_pos (show st.serverReady = true from hready), Option.map_some, goto_uninterrupted]
        · rename_i hready
          rw [if_neg (show ¬ st.serverReady = true from hready), Option.map_none]
      · rfl
  | accept socket sent malloc =>
      have hready : (st.uninterrupted.serverReady ∧ st.uninterrupted.Fresh socket malloc) ↔
          (st.serverReady ∧ st.Fresh socket malloc) := by
        simp only [Fresh, uninterrupted_connOf]
        rfl
      simp only [Event.uninterrupted, Server.step, uninterrupted_pc, onAccept_uninterrupted]
      split
      · split
        · rename_i hall
          rw [if_pos (hready.mp hall), Option.map_some]
        · rename_i hall
          rw [if_neg fun h => hall (hready.mpr h), Option.map_none]
      · rfl

/-! ## What is carried over -/

section Carries

variable {st : Server} {pre post : List JapiClient} {c : JapiClient}

theorem Carries.removeClient (h : st.Carries) (hT : st.Tables)
    (hl : st.ctx.clients = pre ++ c :: post) : (st.removeClient c.socket).Carries := by
  obtain ⟨i, conn, -, -, -, -, heq⟩ := hT.removeClient hl
  rw [heq]
  exact fun d hd => h d (mem_of_removed hl d hd)

theorem Carries.afterRead (h : st.Carries) (hT : st.Tables)
    (hl : st.ctx.clients = pre ++ c :: post) (env : CreadlineEnv) :
    (st.afterRead c (st.lineOf env c)).Carries := by
  intro d hd
  rw [hT.afterRead_clients hl] at hd
  rcases List.mem_append.mp hd with hd | hd
  · exact h d (by simp [hl, hd])
  · rcases List.mem_cons.mp hd with rfl | hd
    · exact creadlineR_carried env (h c (by simp [hl])) _
    · exact h d (by simp [hl, hd])

theorem Carries.step {env : CreadlineEnv} {st' : Server} {e : Event} (h : st.Carries)
    (hS : st.Sound) (hs : Server.step env st e = some st') : st'.Carries := by
  have hT := hS.toTables
  cases hS.stepped hs with
  | shutDown res hpc =>
      intro d hd
      have hnil := hT.removeAllClients.1
      rw [show (st.removeAllClients.goto (.returned 0)).ctx.clients = [] from hnil] at hd
      cases hd
  | line hl hpc hret => exact h.afterRead hT hl env
  | emptyLine hl hpc hret hdst => exact h.afterRead hT hl env
  | @gone pre c post hl hpc hret =>
      exact Carries.removeClient (c := { c with crlBuffer := (st.lineOf env c).buffer })
        (h.afterRead hT hl env) (hT.afterRead hl _) (hT.afterRead_clients hl _)
  | @writeFailed pre c post r ret hl hpc hret =>
      have hrecord : (st.record (.written (connOf st.conns c.socket) c.socket r)).Carries := h
      exact hrecord.removeClient (hT.record trivial) hl
  | admitted sent hpc hfresh hadm =>
      intro d hd
      rcases List.mem_cons.mp hd with rfl | hd
      · exact Nat.zero_lt_succ 1023
      · exact h d hd
  | _ => exact h

end Carries

end Server

/-! ## The loop with `japi_process_message` -/

/-- The state, if no `read()` is interrupted. -/
def Serving.uninterrupted (st : Serving) : Serving := { st with server := st.server.uninterrupted }

/-- A step, with the interruptions of the `read()`s deleted. -/
def ServingEvent.uninterrupted : ServingEvent → ServingEvent
  | .loop e => .loop e.uninterrupted
  | e => e

theorem Serving.onRequest_uninterrupted (st : Serving) (client : Addr) (following : Option Addr)
    (request : List Byte) (out : Outcome) :
    st.uninterrupted.onRequest client following request out =
      (st.onRequest client following request out).uninterrupted := by
  have hprocess := Server.onProcess_uninterrupted { st.server with ctx := out.ctx } client following
    request (out.response.map CStr.bytes)
  exact congrArg (fun server => Serving.mk server out.heap) hprocess

theorem Serving.step_uninterrupted (P : Program) (env : CreadlineEnv) {st : Serving}
    (h : st.server.Carries) (e : ServingEvent) :
    Serving.step P env st.uninterrupted e.uninterrupted =
      (Serving.step P env st e).map Serving.uninterrupted := by
  cases e with
  | request mem stale =>
      have hpc : st.uninterrupted.server.pc = st.server.pc := rfl
      have hctx : st.uninterrupted.server.ctx = st.server.ctx := rfl
      have hclient : ∀ a, st.uninterrupted.server.clientAt a = st.server.clientAt a := fun _ => rfl
      have hheap : st.uninterrupted.heap = st.heap := rfl
      simp only [ServingEvent.uninterrupted, Serving.step, hpc, hctx, hclient, hheap,
        onRequest_uninterrupted]
      split
      · split
        · rfl
        · split <;> rfl
      · rfl
  | loop e =>
      have hstep := st.server.step_uninterrupted env h e
      have hloop : ((Server.step env st.server.uninterrupted e.uninterrupted).map fun server =>
          { st.uninterrupted with server }) = ((Server.step env st.server e).map fun server =>
            { st with server }).map Serving.uninterrupted := by
        rw [hstep, Option.map_map, Option.map_map]
        rfl
      cases e with
      | process r => rfl
      | _ => exact hloop

end Libjapi
