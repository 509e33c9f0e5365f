/-
# `Libjapi.Networking` — the socket `japi_start_server` listens on

`tcp_start_server_on_addr_family` goes through the addresses that `getaddrinfo()`
gave, "until we successfully bind(2)"; its three callers differ in the family.
What the system calls return is a schedule, by the place of the address in the
list.  Whatever they return,

    the socket of the first address where `socket()` and `bind()` succeed is
    returned, or -1 where there is none                `tryAddresses_first`
    every other socket that was opened is closed, and the list is freed once
                                                       `tcpStartServer_open`

so `japi_start_server` owns the socket it gets, and where it gets none it owns nothing.
-/
import Libjapi.StartServer

namespace Libjapi

/-! ## The code -/

/-- `AF_UNSPEC`, `AF_INET` and `AF_INET6`. -/
inductive AddrFamily where
  | unspec
  | inet
  | inet6
  deriving DecidableEq

/-- `SOCK_STREAM` and the others. -/
inductive SockType where
  | stream
  | dgram
  | raw
  deriving DecidableEq

/-- The hints and the results of `getaddrinfo()`; `aiPassive` is the flag, and the
address itself is `aiAddr`. -/
structure AddrInfo where
  aiFamily : AddrFamily
  aiSocktype : SockType
  aiPassive : Bool
  aiProtocol : Int
  aiAddr : Option (List Byte)
  deriving DecidableEq

/-- A system or library call with what it returned. -/
inductive NetCall where
  | getaddrinfo (hints : AddrInfo) (port : List Byte) (ret : Int)
  | socket (rp : AddrInfo) (sfd : Int)
  | setsockopt (sfd : Int) (ret : Int)
  | bind (sfd : Int) (rp : AddrInfo) (ret : Int)
  | close (sfd : Int)
  | freeaddrinfo
  deriving DecidableEq

/-- What the calls for one address return. -/
structure BindAttempt where
  socket : Int
  setsockopt : Int
  bind : Int

/-- `getaddrinfo()`: its return value, and the list where that is 0; and what the calls
for the address at each place of the list return. -/
structure NetEnv where
  getaddrinfo : AddrInfo → List Byte → Int × List AddrInfo
  attempt : Nat → BindAttempt

/-- "Try each address until we successfully bind(2)": the calls, and `sfd` if the loop is
left by `break`. -/
def tryAddresses (attempt : Nat → BindAttempt) : Nat → List AddrInfo → List NetCall × Option Int
  | _, [] => ([], none)
  | k, rp :: result =>
      let a := attempt k
      if a.socket = -1 then
        let rest := tryAddresses attempt (k + 1) result
        (.socket rp a.socket :: rest.1, rest.2)
      else
        let calls := [.socket rp a.socket, .setsockopt a.socket a.setsockopt,
          .bind a.socket rp a.bind] -- a failed `setsockopt()` is a warning
        if a.bind = 0 then (calls, some a.socket)
        else
          let rest := tryAddresses attempt (k + 1) result
          (calls ++ .close a.socket :: rest.1, rest.2)

def hintsFor (aiFamily : AddrFamily) : AddrInfo where
  aiFamily
  aiSocktype := .stream
  aiPassive := true
  aiProtocol := 0
  aiAddr := none

/-- `tcp_start_server_on_addr_family`: the calls it makes, and what it returns. -/
def tcpStartServerOnAddrFamily (env : NetEnv) (port : List Byte) (aiFamily : AddrFamily) :
    List NetCall × Int :=
  let hints := hintsFor aiFamily
  let r := env.getaddrinfo hints port
  if r.1 ≠ 0 then ([.getaddrinfo hints port r.1], -1)
  else
    let tried := tryAddresses env.attempt 0 r.2
    (.getaddrinfo hints port r.1 :: tried.1 ++ [.freeaddrinfo],
      match tried.2 with
      | none => -1 -- "Could not bind"
      | some sfd => sfd)

def tcpStartServer (env : NetEnv) (port : List Byte) : List NetCall × Int :=
  tcpStartServerOnAddrFamily env port .unspec

def tcp4StartServer (env : NetEnv) (port : List Byte) : List NetCall × Int :=
  tcpStartServerOnAddrFamily env port .inet

def tcp6StartServer (env : NetEnv) (port : List Byte) : List NetCall × Int :=
  tcpStartServerOnAddrFamily env port .inet6

/-! ## The descriptors -/

/-- What a call does to the open descriptors. -/
def NetCall.run (fds : List Int) : NetCall → List Int
  | .socket _ sfd => if sfd = -1 then fds else sfd :: fds
  | .close sfd => fds.erase sfd
  | _ => fds

/-- The kernel gives descriptors that are not open, and -1 for a failure. -/
def NetCall.Lawful (fds : List Int) : NetCall → Prop
  | .socket _ sfd => sfd = -1 ∨ (0 ≤ sfd ∧ sfd ∉ fds)
  | _ => True

/-- So it does along a list of calls. -/
def LawfulCalls : List Int → List NetCall → Prop
  | _, [] => True
  | fds, c :: cs => c.Lawful fds ∧ LawfulCalls (c.run fds) cs

/-- The descriptors behind a list of calls. -/
def openAfter (fds : List Int) (calls : List NetCall) : List Int := calls.foldl NetCall.run fds

theorem openAfter_append (fds : List Int) (cs cs' : List NetCall) :
    openAfter fds (cs ++ cs') = openAfter (openAfter fds cs) cs' := List.foldl_append

theorem LawfulCalls.append {cs cs' : List NetCall} :
    ∀ {fds : List Int}, LawfulCalls fds (cs ++ cs') ↔
      LawfulCalls fds cs ∧ LawfulCalls (openAfter fds cs) cs' := by
  induction cs with
  | nil => simp [LawfulCalls, openAfter]
  | cons c cs ih =>
      intro fds
      simp only [List.cons_append, LawfulCalls, ih, and_assoc]
      rfl

/-- **The loop leaves at most one socket open**, the one it is left with. -/
theorem tryAddresses_open {attempt : Nat → BindAttempt} {fds : List Int} :
    ∀ {k : Nat} {result : List AddrInfo}, LawfulCalls fds (tryAddresses attempt k result).1 →
      match (tryAddresses attempt k result).2 with
      | none => openAfter fds (tryAddresses attempt k result).1 = fds
      | some sfd => openAfter fds (tryAddresses attempt k result).1 = sfd :: fds ∧ 0 ≤ sfd ∧
          sfd ∉ fds
  | _, [], _ => rfl
  | k, rp :: result, h => by
      have ih := @tryAddresses_open attempt fds (k + 1) result
      simp only [tryAddresses] at h ⊢
      by_cases hsocket : (attempt k).socket = -1
      · -- no socket, so nothing is opened for this address
        rw [if_pos hsocket] at h ⊢
        have hrun : NetCall.run fds (.socket rp (attempt k).socket) = fds := if_pos hsocket
        have hlaw : LawfulCalls fds (tryAddresses attempt (k + 1) result).1 := by
          have hlaw := h.2
          rwa [hrun] at hlaw
        simp only [openAfter, List.foldl_cons, hrun]
        exact ih hlaw
      · rw [if_neg hsocket] at h ⊢
        have hrun : NetCall.run fds (.socket rp (attempt k).socket) = (attempt k).socket :: fds :=
          if_neg hsocket
        by_cases hbind : (attempt k).bind = 0
        · rw [if_pos hbind] at h ⊢
          obtain ⟨hge, hfresh⟩ := h.1.resolve_left hsocket
          exact ⟨hrun, hge, hfresh⟩
        · rw [if_neg hbind] at h ⊢
          have hclosed : openAfter fds [.socket rp (attempt k).socket,
              .setsockopt (attempt k).socket (attempt k).setsockopt,
              .bind (attempt k).socket rp (attempt k).bind, .close (attempt k).socket] = fds := by
            simp only [openAfter, List.foldl_cons, List.foldl_nil, hrun]
            exact List.erase_cons_head _ _
          have hsplit : ∀ cs : List NetCall, [.socket rp (attempt k).socket,
              .setsockopt (attempt k).socket (attempt k).setsockopt,
              .bind (attempt k).socket rp (attempt k).bind] ++ .close (attempt k).socket :: cs =
              [.socket rp (attempt k).socket,
                .setsockopt (attempt k).socket (attempt k).setsockopt,
                .bind (attempt k).socket rp (attempt k).bind, .close (attempt k).socket] ++ cs :=
            fun _ => rfl
          rw [hsplit] at h ⊢
          have hlaw := (LawfulCalls.append.mp h).2
          rw [hclosed] at hlaw
          rw [openAfter_append, hclosed]
          exact ih hlaw

/-- The first address, by its place in the list, where `socket()` and `bind()` succeed. -/
def firstBound (attempt : Nat → BindAttempt) (k n : Nat) : Option Nat :=
  (List.range' k n).find? fun i => (attempt i).socket ≠ -1 ∧ (attempt i).bind = 0

/-- **The loop takes the first address that can be bound**, whatever `setsockopt()` gives. -/
theorem tryAddresses_first (attempt : Nat → BindAttempt) :
    ∀ (k : Nat) (result : List AddrInfo), (tryAddresses attempt k result).2 =
      (firstBound attempt k result.length).map fun i => (attempt i).socket
  | _, [] => rfl
  | k, rp :: result => by
      have ih := tryAddresses_first attempt (k + 1) result
      have hrange : List.range' k (rp :: result).length =
          k :: List.range' (k + 1) result.length := rfl
      simp only [tryAddresses, firstBound, hrange, List.find?_cons]
      by_cases hsocket : (attempt k).socket = -1
      · simpa [hsocket, firstBound] using ih
      · by_cases hbind : (attempt k).bind = 0
        · simp [hsocket, hbind]
        · simpa [hsocket, hbind, firstBound] using ih

theorem tryAddresses_frees_nothing (attempt : Nat → BindAttempt) :
    ∀ (k : Nat) (result : List AddrInfo),
      (tryAddresses attempt k result).1.count .freeaddrinfo = 0
  | _, [] => rfl
  | k, rp :: result => by
      have ih := tryAddresses_frees_nothing attempt (k + 1) result
      simp only [tryAddresses]
      split
      · simpa [List.count_cons] using ih
      · split
        · rfl
        · simpa [List.count_cons] using ih

theorem tcpStartServer_descriptors {env : NetEnv} {port : List Byte} {aiFamily : AddrFamily}
    {fds : List Int}
    (hlaw : LawfulCalls fds (tcpStartServerOnAddrFamily env port aiFamily).1) :
    (tcpStartServerOnAddrFamily env port aiFamily).2 = -1 ∧
        openAfter fds (tcpStartServerOnAddrFamily env port aiFamily).1 = fds ∨
      0 ≤ (tcpStartServerOnAddrFamily env port aiFamily).2 ∧
        (tcpStartServerOnAddrFamily env port aiFamily).2 ∉ fds ∧
        openAfter fds (tcpStartServerOnAddrFamily env port aiFamily).1 =
          (tcpStartServerOnAddrFamily env port aiFamily).2 :: fds := by
  simp only [tcpStartServerOnAddrFamily] at hlaw ⊢
  split at hlaw
  · rename_i hget
    rw [if_pos hget]
    exact .inl ⟨rfl, rfl⟩
  · rename_i hget
    rw [if_neg hget]
    have hopen := tryAddresses_open (LawfulCalls.append.mp hlaw.2).1
    generalize tryAddresses env.attempt 0 (env.getaddrinfo (hintsFor aiFamily) port).2 = tried at *
    have hafter : openAfter fds (.getaddrinfo (hintsFor aiFamily) port
        (env.getaddrinfo (hintsFor aiFamily) port).1 :: tried.1 ++ [.freeaddrinfo]) =
        openAfter fds tried.1 := by
      rw [openAfter_append]
      rfl
    dsimp only
    rw [hafter]
    cases hret : tried.2 with
    | none =>
        rw [hret] at hopen
        exact .inl ⟨rfl, hopen⟩
    | some sfd =>
        rw [hret] at hopen
        exact .inr ⟨hopen.2.1, hopen.2.2, hopen.1⟩

/-- **`tcp_start_server` gives the socket of the first address that can be bound, and leaks
nothing.**  For every family, every list of addresses and whatever the calls return: the
socket of the first address where `socket()` and `bind()` succeed is returned, and -1
where there is none or `getaddrinfo()` failed; behind the call that socket is open besides
the descriptors that were, and no other; and `freeaddrinfo()` is called once where there
is a list, and not otherwise. -/
theorem tcpStartServer_open {env : NetEnv} {port : List Byte} {aiFamily : AddrFamily}
    {fds : List Int}
    (hlaw : LawfulCalls fds (tcpStartServerOnAddrFamily env port aiFamily).1) :
    (tcpStartServerOnAddrFamily env port aiFamily).2 =
        (if (env.getaddrinfo (hintsFor aiFamily) port).1 = 0 then
          (firstBound env.attempt 0 (env.getaddrinfo (hintsFor aiFamily) port).2.length).map fun i =>
            (env.attempt i).socket
        else none).getD (-1) ∧
      ((tcpStartServerOnAddrFamily env port aiFamily).2 = -1 ∧
          openAfter fds (tcpStartServerOnAddrFamily env port aiFamily).1 = fds ∨
        0 ≤ (tcpStartServerOnAddrFamily env port aiFamily).2 ∧
          (tcpStartServerOnAddrFamily env port aiFamily).2 ∉ fds ∧
          openAfter fds (tcpStartServerOnAddrFamily env port aiFamily).1 =
            (tcpStartServerOnAddrFamily env port aiFamily).2 :: fds) ∧
      (tcpStartServerOnAddrFamily env port aiFamily).1.count .freeaddrinfo =
        if (env.getaddrinfo (hintsFor aiFamily) port).1 = 0 then 1 else 0 := by
  refine ⟨?_, tcpStartServer_descriptors hlaw, ?_⟩
  · rw [← tryAddresses_first]
    simp only [tcpStartServerOnAddrFamily]
    by_cases hget : (env.getaddrinfo (hintsFor aiFamily) port).1 = 0
    · simp only [hget, ne_eq, not_true_eq_false, if_false, if_true]
      cases (tryAddresses env.attempt 0 (env.getaddrinfo (hintsFor aiFamily) port).2).2 <;> rfl
    · simp only [hget, ne_eq, not_false_eq_true, if_true, if_false]
      rfl
  · have hnone := tryAddresses_frees_nothing env.attempt 0
      (env.getaddrinfo (hintsFor aiFamily) port).2
    simp only [tcpStartServerOnAddrFamily]
    by_cases hget : (env.getaddrinfo (hintsFor aiFamily) port).1 = 0
    · simp [hget, List.count_append, hnone]
    · simp [hget]

/-- Two addresses: the first one is taken, and `setsockopt()` fails for the second. -/
def secondAddress : NetEnv where
  getaddrinfo hints _ := (0, [{ hints with aiFamily := .inet6 }, { hints with aiFamily := .inet }])
  attempt k := if k = 0 then ⟨3, 0, -1⟩ else ⟨3, -1, 0⟩

theorem tcpStartServer_open_second :
    (tcpStartServer secondAddress (CStr.lit "8080").bytes).2 = 3 ∧
      openAfter [0, 1, 2] (tcpStartServer secondAddress (CStr.lit "8080").bytes).1 = [3, 0, 1, 2] ∧
      (tcpStartServer secondAddress (CStr.lit "8080").bytes).1.count .freeaddrinfo = 1 := by
  have hlaw : LawfulCalls [0, 1, 2] (tcpStartServer secondAddress (CStr.lit "8080").bytes).1 := by
    simp [tcpStartServer, tcpStartServerOnAddrFamily, secondAddress, tryAddresses, hintsFor,
      LawfulCalls, NetCall.Lawful, NetCall.run]
  obtain ⟨hret, hopen, hfreed⟩ := tcpStartServer_open hlaw
  have hthree : (tcpStartServer secondAddress (CStr.lit "8080").bytes).2 = 3 := hret
  refine ⟨hthree, ?_, hfreed⟩
  rcases hopen with ⟨hnone, -⟩ | ⟨-, -, hafter⟩
  · exact absurd (hthree.symm.trans hnone) (by decide)
  · exact hafter.trans (congrArg (fun sfd => [sfd, 0, 1, 2]) hthree)

end Libjapi
