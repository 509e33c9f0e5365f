/-
# `Libjapi.Server` — the loop of `japi_start_server`

One thread runs `select()`, then walks over the connected clients with a saved
`following_client`, serves each readable one in an inner `do … while`, then
accepts a new client.  `Pc` says where in the loop the thread is, and a step
(`step`) performs the next call: one `select()`, one turn of the outer `while`,
one `creadline_r`, one `japi_process_message`, one `write_n`, one `accept()`.
Nodes are reached through their addresses; a pointer to a node that is gone
leads to `Pc.fault`.

    select ──▸ walk c ──▸ serve c read ──▸ serve c process ──▸ serve c write
      ▴         │  ▴────────────┴──────────────────┴─────────────────┘
      └─ accept ◂── walk NULL

The kernel is the list `conns` of the connections accepted so far, with all
that `read()` will return on each.  What `select()`, `accept()`, `write_n` and
`japi_process_message` return is in the event, so every order is covered;
`Event.outside` is what handlers and other threads do to the context, which
leaves the client list alone.  The log records what the thread did, with the
connection each descriptor stood for.

Here: the steps, and what every run keeps of the descriptors, of the pointers
and of the log (`Sound`); **the client list, its 16-bit counter and the open
connections agree** (`run_clients`).
-/
import Libjapi.Runs
import Libjapi.Sockets

namespace Libjapi

/-! ## The state -/

/-- Where in the `do … while` the thread is. -/
inductive ServePc where
  | read
  | process (request : List Byte)
  | write (response : List Byte)

/-- Where in `japi_start_server` the thread is; `client` and `following` are the
pointers it holds there. -/
inductive Pc where
  | select
  | walk (client : Option Addr)
  | serve (client : Addr) (following : Option Addr) (pc : ServePc)
  | accept
  | returned (ret : Int)
  | fault

structure Server where
  pc : Pc
  ctx : JapiContext
  serverSocket : Int
  fdrd : List Int
  serverReady : Bool
  conns : List Conn
  log : List Entry

/-- What `select()` returns: -1, 0, or the readable descriptors. -/
inductive SelectRes where
  | failed
  | timeout
  | ready (fds : List Int) (server : Bool)

inductive Event where
  | select (res : SelectRes)
  | visit
  | read
  | process (response : Option (List Byte))
  | write (ret : Int)
  | noAccept
  | acceptFailed
  | accept (socket : Int) (sent : List ReadRes) (malloc : Option Addr)
  | outside (ctx : JapiContext)

namespace Server

/-! ## Pieces of the loop -/

def clientAt (st : Server) (a : Addr) : Option JapiClient := st.ctx.clients.find? (·.addr == a)

/-- The address of the head of a list, `NULL` for the empty one. -/
def headAddr (cs : List JapiClient) : Option Addr := cs.head?.map JapiClient.addr

/-- `client->next`. -/
def nextOf : List JapiClient → Addr → Option Addr
  | [], _ => none
  | c :: cs, a => if c.addr = a then headAddr cs else nextOf cs a

def goto (st : Server) (pc : Pc) : Server := { st with pc }

def record (st : Server) (e : Entry) : Server := { st with log := st.log ++ [e] }

/-- The kernel sets up a connection. -/
def connect (st : Server) (socket : Int) (sent : List ReadRes) : Server :=
  { st with conns := st.conns ++ [Conn.new socket sent] }

/-- `close()`. -/
def close (st : Server) (socket : Int) : Server :=
  match connOf st.conns socket with
  | some i =>
      { st with conns := st.conns.modify i Conn.shut }.record
        (.closed (some i) socket)
  | none => st.record (.closed none socket)

/-- The call of `japi_remove_client`, with the `close()` it makes. -/
def removeClient (st : Server) (socket : Int) : Server :=
  let r := japiRemoveClient st.ctx socket
  r.closed.foldl close { st with ctx := r.ctx }

/-- The call of `japi_remove_all_clients`, with the `close()`s it makes. -/
def removeAllClients (st : Server) : Server :=
  let r := japiRemoveAllClients st.ctx
  r.closed.foldl close { st with ctx := r.ctx }

/-- The condition of the `do … while`. -/
def loopTest (st : Server) (client : Addr) (following : Option Addr) : Server :=
  match st.clientAt client with
  | none => st.goto .fault
  | some c =>
      if c.crlBuffer.nbytes ≠ 0 then st.goto (.serve client following .read)
      else st.goto (.walk following)

/-- What is left to read on a descriptor; `read()` fails on one that is not open. -/
def unreadOf (st : Server) (socket : Int) : List ReadRes :=
  match connOf st.conns socket with
  | some i => (st.conns[i]?.map Conn.unread).getD []
  | none => [.error]

/-- `creadline_r` wrote `client->crl_buffer` and read from the descriptor. -/
def afterRead (st : Server) (c : JapiClient) (r : Creadline) : Server :=
  { st with
    ctx := { st.ctx with
      clients := st.ctx.clients.map fun d =>
        if d.addr = c.addr then { d with crlBuffer := r.buffer } else d }
    conns := match connOf st.conns c.socket with
      | some i => st.conns.modify i fun conn => { conn with unread := r.rest }
      | none => st.conns }

/-! ## The steps -/

/-- `select()` and the shutdown test. -/
def onSelect (st : Server) : SelectRes → Server
  | .failed => st.goto (.returned (-1))
  | .timeout => if st.ctx.shutdown then st.removeAllClients.goto (.returned 0) else st
  | .ready fds server =>
      if st.ctx.shutdown then st.removeAllClients.goto (.returned 0)
      else { st with fdrd := fds, serverReady := server, pc := .walk (headAddr st.ctx.clients) }

/-- A turn of `while (client != NULL)`. -/
def onVisit (st : Server) : Option Addr → Server
  | none => st.goto .accept
  | some client =>
      match st.clientAt client with
      | none => st.goto .fault
      | some c =>
          let following := nextOf st.ctx.clients client
          if c.socket ∈ st.fdrd then st.goto (.serve client following .read)
          else st.goto (.walk following)

/-- The call of `creadline_r` and the branches on its result. -/
def onRead (env : CreadlineEnv) (st : Server) (client : Addr) (following : Option Addr) : Server :=
  match st.clientAt client with
  | none => st.goto .fault
  | some c =>
      let r := creadlineR env c.crlBuffer (st.unreadOf c.socket)
      let st := st.afterRead c r
      if r.ret > 0 then st.goto (.serve client following (.process (r.dst.getD [])))
      else if r.ret = 0 then
        match r.dst with
        | none => (st.removeClient c.socket).goto (.walk following) -- EOF
        | some _ => st.loopTest client following -- an empty line
      else (st.removeClient c.socket).goto (.walk following)

/-- The call of `japi_process_message`. -/
def onProcess (st : Server) (client : Addr) (following : Option Addr) (request : List Byte)
    (response : Option (List Byte)) : Server :=
  match st.clientAt client with
  | none => st.goto .fault
  | some c =>
      let st := st.record (.processed (connOf st.conns c.socket) request c.socket response)
      match response with
      | some r => st.goto (.serve client following (.write r))
      | none => st.loopTest client following

/-- The call of `write_n` with the response. -/
def onWrite (st : Server) (client : Addr) (following : Option Addr) (response : List Byte)
    (ret : Int) : Server :=
  match st.clientAt client with
  | none => st.goto .fault
  | some c =>
      let st := st.record (.written (connOf st.conns c.socket) c.socket response)
      if ret ≤ 0 then (st.removeClient c.socket).goto (.walk following)
      else st.loopTest client following

/-- `accept()` succeeded. -/
def onAccept (st : Server) (socket : Int) (sent : List ReadRes) (malloc : Option Addr) : Server :=
  let st' := (st.connect socket sent).record
    (.accepted st.conns.length socket st.ctx.admits)
  if st.ctx.admits then
    { st' with ctx := (japiAddClient malloc st.ctx socket).2, pc := .select }
  else (st'.close socket).goto .select

/-- What the kernel and the allocator give: a descriptor that is not open, a
node that is not in use. -/
def Fresh (st : Server) (socket : Int) (malloc : Option Addr) : Prop :=
  0 ≤ socket ∧ socket ≠ st.serverSocket ∧ connOf st.conns socket = none ∧
    ∀ a ∈ malloc, a ∉ st.ctx.clients.map JapiClient.addr

instance (st : Server) (socket : Int) (malloc : Option Addr) : Decidable (st.Fresh socket malloc) :=
  inferInstanceAs (Decidable (_ ∧ _))

/-- The next call of the thread, or a change of the context from outside. -/
def step (env : CreadlineEnv) (st : Server) : Event → Option Server
  | .outside ctx => some { st with
      ctx := { ctx with clients := st.ctx.clients, numClients := st.ctx.numClients } }
  | .select res => match st.pc with
      | .select => some (st.onSelect res)
      | _ => none
  | .visit => match st.pc with
      | .walk client => some (st.onVisit client)
      | _ => none
  | .read => match st.pc with
      | .serve client following .read => some (st.onRead env client following)
      | _ => none
  | .process response => match st.pc with
      | .serve client following (.process request) =>
          some (st.onProcess client following request response)
      | _ => none
  | .write ret => match st.pc with
      | .serve client following (.write response) =>
          some (st.onWrite client following response ret)
      | _ => none
  | .noAccept => match st.pc with
      | .accept => if st.serverReady then none else some (st.goto .select)
      | _ => none
  | .acceptFailed => match st.pc with
      | .accept => if st.serverReady then some (st.goto (.returned (-1))) else none
      | _ => none
  | .accept socket sent malloc => match st.pc with
      | .accept =>
          if st.serverReady ∧ st.Fresh socket malloc then some (st.onAccept socket sent malloc)
          else none
      | _ => none

/-- The state in which the loop is entered, with no clients. -/
def start (ctx : JapiContext) (serverSocket : Int) : Server where
  pc := .select
  ctx := { ctx with clients := [], numClients := 0 }
  serverSocket
  fdrd := []
  serverReady := false
  conns := []
  log := []

end Server

end Libjapi
