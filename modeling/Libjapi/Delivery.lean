/-
# `Libjapi.Delivery` — from `japi_pushsrv_sendmsg` to the subscriber

The calls of `japi_pushsrv_sendmsg` for one service, one after the other, each with
the data it is given and with what the `write()`s of every attempt do.  A client
that is subscribed once gets

    the messages up to the first one whose `write_n` failed, each with the name of
    the service and its data, and no later one; it is subscribed to the end exactly
    if none failed                                            `pushAll_received`

Its own end of the connection may cut the stream in any way.
-/
import Libjapi.Messages
import Libjapi.JsonSession

namespace Libjapi

open CStr (lit)

/-! ## The message -/

/-- The tree of a message. -/
def pushTree (pushsrvName : CStr) (data : Json) : Json :=
  .object [(lit "japi_pushsrv", .string pushsrvName.bytes), (lit "data", data)]

theorem pushMessage_line (J : JsonC) {h : JHeap} {jmsgData : JPtr} {data : Json}
    (hd : h.Denotes jmsgData data) (pushsrvName : CStr) :
    ∃ msg h', pushMessage J true h pushsrvName jmsgData = .ok (some msg, h') ∧
      msg.bytes = line J (pushTree pushsrvName data) ++ [nl] := by
  have hext := JHeap.extends_alloc h (.object [])
  have hempty : (h.alloc (.object [])).2.Denotes (some h.cells.length) (.object []) :=
    ⟨[], JHeap.node?_alloc h _, trivial⟩
  -- the data was there before the message, and is left alone
  have hbelow : ∀ r, h.Reach jmsgData r → r < h.cells.length := by
    intro r hr
    obtain ⟨n, hn⟩ := hd.reach_node hr
    exact JHeap.node?_lt hn
  have hsame₀ := hext.sameBelow hd
  obtain ⟨h₁, hadd₁, hw₁⟩ := (JHeap.Written.refl (fun r => h.Reach jmsgData r) hempty).objectAddNew
    (n := .string pushsrvName.bytes) (v := .string pushsrvName.bytes) (JHeap.node?_alloc _ _) rfl
    (lit "japi_pushsrv")
  have hd₀ := hd.frame hsame₀
  have hsame₁ : (h.alloc (.object [])).2.SameBelow h₁ jmsgData := by
    refine hw₁.changes.sameBelow hd₀ ?_
    rintro r ⟨⟩ hr
    exact lt_irrefl _ (hbelow _ (hsame₀.reach hr))
  have hd₁ := hd₀.frame hsame₁
  have hsame₂ := (JHeap.extends_get h₁ jmsgData).sameBelow hd₁
  obtain ⟨h₂, hadd₂, hw₂⟩ := (hw₁.mono (JHeap.extends_get h₁ jmsgData)).objectAdd
    (hd₁.frame hsame₂) (fun r hr => by
      have hold := hsame₀.reach (hsame₁.reach (hsame₂.reach hr))
      exact ⟨(hbelow r hold).ne, .inr hold⟩) (lit "data")
  have htree : h₂.read (some h.cells.length) = pushTree pushsrvName data := hw₂.denotes.read
  have hmsg : pushMessage J true h pushsrvName jmsgData =
      .ok (japiGetJobjAsNdstr J true h₂ (some h.cells.length), h₂.put (some h.cells.length)) := by
    have hfirst : (h.alloc (.object [])).2.objectAddNew (h.alloc (.object [])).1
        (lit "japi_pushsrv") (.string pushsrvName.bytes) = .ok h₁ := hadd₁
    have hsecond : (h₁.get jmsgData).objectAdd (h.alloc (.object [])).1 (lit "data") jmsgData =
        .ok h₂ := hadd₂
    simp only [pushMessage, hfirst, hsecond, bind, Except.bind, pure, Except.pure]
    rfl
  exact ⟨_, _, hmsg, congrArg (fun tree => line J tree ++ [nl]) htree⟩

/-! ## The calls -/

/-- An attempt: the socket, what `write_n` returned, and the bytes the `write()`s took. -/
structure Written where
  socket : Int
  ret : Int
  bytes : List Byte
  deriving DecidableEq

/-- The attempts of a call, from the `k`-th one on. -/
def written (attempt : CStr → Nat → Int × List Byte) : Nat → List (Int × CStr) → List Written
  | _, [] => []
  | k, (socket, msg) :: attempts =>
      ⟨socket, (attempt msg k).1, (attempt msg k).2⟩ :: written attempt (k + 1) attempts

/-- A call of `japi_pushsrv_sendmsg`: the heap, the data, and what the `write()`s of the
`k`-th attempt do. -/
structure Push where
  heap : JHeap
  jmsgData : JPtr
  write : Nat → Nat → Int

namespace Push

/-- The tree of the data. -/
def data (p : Push) : Json := p.heap.read p.jmsgData

/-- The message. -/
def msg (J : JsonC) (pushsrvName : CStr) (p : Push) : CStr :=
  match pushMessage J true p.heap pushsrvName p.jmsgData with
  | .ok (some msg, _) => msg
  | _ => lit ""

/-- `write_n` of the `k`-th attempt: its return value, and the bytes the `write()`s took. -/
def attempt (p : Push) (msg : CStr) (k : Nat) : Int × List Byte :=
  writeN (p.write k) msg.bytes msg.bytes.length

/-- The call, with memory for the message. -/
def send (J : JsonC) (psc : JapiPushsrvContext) (p : Push) : Option Sent :=
  pushsrvSend J true (fun k => (p.attempt (p.msg J psc.pushsrvName) k).1) p.heap psc p.jmsgData

/-- What can be sent: data that is a tree, and a message that is printed as one line and
parsed back. -/
structure Sendable (J : JsonC) (pushsrvName : CStr) (p : Push) : Prop where
  notNull : p.jmsgData ≠ none
  tree : p.heap.Denotes p.jmsgData p.data
  prints : Prints J (pushTree pushsrvName p.data)

end Push

/-- The calls one after the other: the service at the end, and the attempts of each call. -/
def pushAll (J : JsonC) (psc : JapiPushsrvContext) :
    List Push → JapiPushsrvContext × List (List Written)
  | [] => (psc, [])
  | p :: ps =>
      match p.send J psc with
      | some sent =>
          let r := pushAll J sent.psc ps
          (r.1, written p.attempt 0 sent.attempts :: r.2)
      | none => (psc, [])

/-- The attempts for a socket. -/
def attemptsFor (socket : Int) (call : List Written) : List Written :=
  call.filter fun w => w.socket = socket

/-- What a socket was sent. -/
def bytesTo (socket : Int) (calls : List (List Written)) : List Byte :=
  ((calls.flatMap (attemptsFor socket)).map Written.bytes).flatten

/-- The calls up to the first one in which a `write_n` for the socket failed. -/
def untilFailed (socket : Int) (calls : List (List Written)) : Nat :=
  calls.findIdx fun call => (attemptsFor socket call).any fun w => w.ret ≤ 0

theorem bytesTo_cons (socket : Int) (call : List Written) (calls : List (List Written)) :
    bytesTo socket (call :: calls) =
      ((attemptsFor socket call).map Written.bytes).flatten ++ bytesTo socket calls := by
  simp [bytesTo]

/-! ## One call -/

section Written

variable (attempt : CStr → Nat → Int × List Byte) (msg : CStr) (socket : Int)

theorem length_attemptsFor : ∀ (k : Nat) (sockets : List Int),
    (attemptsFor socket (written attempt k (sockets.map (·, msg)))).length = sockets.count socket
  | _, [] => rfl
  | k, s :: sockets => by
      have ih := length_attemptsFor (k + 1) sockets
      rw [attemptsFor] at ih
      by_cases hs : s = socket <;> simp [attemptsFor, written, hs, ih]

theorem count_succeeded : ∀ (k : Nat) (sockets : List Int),
    (succeeded (fun j => (attempt msg j).1) k sockets).count socket =
      (attemptsFor socket (written attempt k (sockets.map (·, msg)))).countP fun w => 0 < w.ret
  | _, [] => rfl
  | k, s :: sockets => by
      have ih := count_succeeded (k + 1) sockets
      rw [attemptsFor] at ih
      rw [succeeded]
      by_cases hret : (attempt msg k).1 ≤ 0
      · have hnot : ¬ 0 < (attempt msg k).1 := hret.not_gt
        by_cases hs : s = socket <;> simp [attemptsFor, written, hs, hret, hnot, ih]
      · have hpos : 0 < (attempt msg k).1 := Int.not_le.mp hret
        by_cases hs : s = socket <;> simp [attemptsFor, written, hs, hret, hpos, ih]

theorem exists_attempt {w : Written} : ∀ (k : Nat) {sockets : List Int},
    w ∈ written attempt k (sockets.map (·, msg)) →
      ∃ i, w.ret = (attempt msg i).1 ∧ w.bytes = (attempt msg i).2
  | _, [], h => by cases h
  | k, s :: sockets, h => by
      rcases List.mem_cons.mp h with rfl | h
      · exact ⟨k, rfl, rfl⟩
      · exact exists_attempt (k + 1) h

end Written

/-- What one call does for a socket that is on the list once: it is sent the line and
stays there once, or it is sent a part of it and goes. -/
inductive ServesOnce (J : JsonC) (psc : JapiPushsrvContext) (p : Push) (sent : Sent)
    (socket : Int) : Prop
  | line {w : Written} : attemptsFor socket (written p.attempt 0 sent.attempts) = [w] → 0 < w.ret →
      w.bytes = Libjapi.line J (pushTree psc.pushsrvName p.data) ++ [nl] →
      sent.psc.clients.count socket = 1 → ServesOnce J psc p sent socket
  | failed {w : Written} : attemptsFor socket (written p.attempt 0 sent.attempts) = [w] → w.ret ≤ 0 →
      nl ∉ w.bytes → sent.psc.clients.count socket = 0 → ServesOnce J psc p sent socket

/-- **One call.**  A socket that is not on the list is sent nothing. -/
theorem Push.Sendable.send {J : JsonC} {psc : JapiPushsrvContext} {p : Push}
    (h : p.Sendable J psc.pushsrvName) :
    ∃ sent, p.send J psc = some sent ∧ sent.psc.pushsrvName = psc.pushsrvName ∧
      ∀ socket, (psc.clients.count socket = 1 → ServesOnce J psc p sent socket) ∧
        (psc.clients.count socket = 0 →
          attemptsFor socket (written p.attempt 0 sent.attempts) = [] ∧
          sent.psc.clients.count socket = 0) := by
  obtain ⟨msg, h', hmsg, hbytes⟩ := pushMessage_line J h.tree psc.pushsrvName
  have hself : p.msg J psc.pushsrvName = msg := by simp only [Push.msg, hmsg]
  by_cases hnil : psc.clients = []
  · have hsend : p.send J psc = some ⟨psc, 0, p.heap, []⟩ := by
      simp only [Push.send, pushsrvSend, if_neg h.notNull, hnil, if_true]
    refine ⟨_, hsend, rfl, fun socket => ⟨fun hone => ?_, fun hzero => ⟨rfl, hzero⟩⟩⟩
    rw [hnil] at hone
    cases hone
  · obtain ⟨hperm, -, hvisited⟩ := sendLoop_spec (fun k => (p.attempt msg k).1) 0 psc.clients []
    rw [List.nil_append] at hperm hvisited
    have hattempts : (japiPushsrvSendmsg (fun k => (p.attempt msg k).1) psc).2.2 = psc.clients :=
      hvisited
    have hsend : p.send J psc = some
        ⟨(japiPushsrvSendmsg (fun k => (p.attempt msg k).1) psc).1,
          (japiPushsrvSendmsg (fun k => (p.attempt msg k).1) psc).2.1, h',
          psc.clients.map (·, msg)⟩ := by
      simp only [Push.send, pushsrvSend, if_neg h.notNull, if_neg hnil, hmsg, hself, hattempts]
    refine ⟨_, hsend, rfl, fun socket => ?_⟩
    have hlen := length_attemptsFor p.attempt msg socket 0 psc.clients
    have hleft : (japiPushsrvSendmsg (fun k => (p.attempt msg k).1) psc).1.clients.count socket =
        (attemptsFor socket (written p.attempt 0 (psc.clients.map (·, msg)))).countP fun w => 0 < w.ret :=
      (hperm.count_eq socket).trans (count_succeeded p.attempt msg socket 0 psc.clients)
    constructor
    · intro hone
      rw [hone] at hlen
      obtain ⟨w, hw⟩ := List.length_eq_one_iff.mp hlen
      rw [hw] at hleft
      obtain ⟨i, hret, htaken⟩ := exists_attempt p.attempt msg 0
        (List.mem_of_mem_filter (hw.symm ▸ List.mem_singleton_self w))
      have hwrite := h.prints.writeN (p.write i)
      rw [← hbytes] at hwrite
      have hsplit : (0 < w.ret ∧ w.bytes = msg.bytes) ∨ (w.ret ≤ 0 ∧ nl ∉ w.bytes) := by
        rw [hret, htaken]
        exact hwrite.imp id fun h => ⟨h.1, h.2.1⟩
      rcases hsplit with ⟨hpos, hall⟩ | ⟨hfailed, hpart⟩
      · exact .line hw hpos (hall.trans hbytes) (by simpa [hpos] using hleft)
      · exact .failed hw hfailed hpart (by simpa [hfailed.not_gt] using hleft)
    · intro hzero
      rw [hzero] at hlen
      have hnone := List.length_eq_zero_iff.mp hlen
      rw [hnone] at hleft
      exact ⟨hnone, hleft⟩

/-! ## All calls -/

theorem length_pushAll {J : JsonC} : ∀ {ps : List Push} {psc : JapiPushsrvContext},
    (∀ p ∈ ps, p.Sendable J psc.pushsrvName) → (pushAll J psc ps).2.length = ps.length
  | [], _, _ => rfl
  | p :: ps, psc, h => by
      obtain ⟨sent, hsend, hname, -⟩ := (h p List.mem_cons_self).send
      have hrest : ∀ q ∈ ps, q.Sendable J sent.psc.pushsrvName :=
        fun q hq => hname.symm ▸ h q (List.mem_cons_of_mem p hq)
      simp only [pushAll, hsend, List.length_cons, length_pushAll hrest]

theorem pushAll_notMem {J : JsonC} {socket : Int} :
    ∀ {ps : List Push} {psc : JapiPushsrvContext}, psc.clients.count socket = 0 →
      (∀ p ∈ ps, p.Sendable J psc.pushsrvName) →
      bytesTo socket (pushAll J psc ps).2 = [] ∧ socket ∉ (pushAll J psc ps).1.clients
  | [], _, hnot, _ => ⟨rfl, List.count_eq_zero.mp hnot⟩
  | p :: ps, psc, hnot, h => by
      obtain ⟨sent, hsend, hname, hserves⟩ := (h p List.mem_cons_self).send
      have hrest : ∀ q ∈ ps, q.Sendable J sent.psc.pushsrvName :=
        fun q hq => hname.symm ▸ h q (List.mem_cons_of_mem p hq)
      obtain ⟨hnone, hzero⟩ := (hserves socket).2 hnot
      obtain ⟨hnil, hgone⟩ := pushAll_notMem hzero hrest
      simp only [pushAll, hsend]
      rw [bytesTo_cons, hnone, hnil]
      exact ⟨rfl, hgone⟩

/-- **What a subscriber is sent**: the lines of the messages up to the first one whose
`write_n` failed, and a part of that one. -/
theorem pushAll_bytes {J : JsonC} {socket : Int} :
    ∀ {ps : List Push} {psc : JapiPushsrvContext}, psc.clients.count socket = 1 →
      (∀ p ∈ ps, p.Sendable J psc.pushsrvName) →
      (∃ t, nl ∉ t ∧ bytesTo socket (pushAll J psc ps).2 =
        printedLines J ((ps.take (untilFailed socket (pushAll J psc ps).2)).map
          fun p => pushTree psc.pushsrvName p.data) ++ t) ∧
        (socket ∈ (pushAll J psc ps).1.clients ↔
          untilFailed socket (pushAll J psc ps).2 = ps.length)
  | [], _, hsub, _ => by
      refine ⟨⟨[], List.not_mem_nil, rfl⟩, iff_of_true ?_ rfl⟩
      exact List.one_le_count_iff.mp hsub.ge
  | p :: ps, psc, hsub, h => by
      obtain ⟨sent, hsend, hname, hserves⟩ := (h p List.mem_cons_self).send
      have hrest : ∀ q ∈ ps, q.Sendable J sent.psc.pushsrvName :=
        fun q hq => hname.symm ▸ h q (List.mem_cons_of_mem p hq)
      simp only [pushAll, hsend, bytesTo_cons, untilFailed, List.findIdx_cons]
      cases (hserves socket).1 hsub with
      | line hw hret hline hstays =>
          obtain ⟨⟨t, hnl, hbytes⟩, hiff⟩ := pushAll_bytes hstays hrest
          rw [untilFailed] at hbytes hiff
          have hany : ((attemptsFor socket (written p.attempt 0 sent.attempts)).any
              fun w => w.ret ≤ 0) = false := by simpa [hw] using hret
          rw [hany, cond_false, hiff, List.length_cons, Nat.add_right_cancel_iff]
          refine ⟨⟨t, hnl, ?_⟩, Iff.rfl⟩
          rw [hw, hbytes, hname]
          simp only [List.map_cons, List.map_nil, List.flatten_cons, List.flatten_nil, hline,
            printedLines, List.take_succ_cons, List.append_assoc, List.append_nil]
      | failed hw hret hpart hgoes =>
          obtain ⟨hnil, hgone⟩ := pushAll_notMem hgoes hrest
          have hany : ((attemptsFor socket (written p.attempt 0 sent.attempts)).any
              fun w => w.ret ≤ 0) = true := by simpa [hw] using hret
          rw [hany, cond_true, hw, hnil]
          exact ⟨⟨_, by simpa using hpart, List.append_nil _⟩, iff_of_false hgone (by simp)⟩

/-- **A subscriber receives the messages up to the first one whose `write_n` failed**,
in order, and is subscribed to the end exactly if there is none. -/
theorem pushAll_received {J : JsonC} {psc : JapiPushsrvContext} {socket : Int}
    (hsub : psc.clients.count socket = 1) {ps : List Push}
    (h : ∀ p ∈ ps, p.Sendable J psc.pushsrvName) {m : Nat}
    (hm : m = untilFailed socket (pushAll J psc ps).2) :
    (pushAll J psc ps).2.length = ps.length ∧
      (socket ∈ (pushAll J psc ps).1.clients ↔ m = ps.length) ∧
      ∀ {buffer : CreadlineBuf}, buffer.nbytes = 0 → ∀ {input : List ReadRes}, OnlyData input →
        bytesOf input <+: bytesTo socket (pushAll J psc ps).2 → ∀ n,
          (creadlineCalls libEnv n buffer input).filterMap (received J) <+:
              (ps.take m).map (fun p => pushTree psc.pushsrvName p.data) ∧
            (bytesOf input = bytesTo socket (pushAll J psc ps).2 → m < n →
              (creadlineCalls libEnv n buffer input).filterMap (received J) =
                (ps.take m).map fun p => pushTree psc.pushsrvName p.data) := by
  obtain ⟨⟨t, hnl, hbytes⟩, hiff⟩ := pushAll_bytes hsub h
  have hlength := length_pushAll h
  rw [← hm] at hbytes hiff
  have hprints : ∀ tree ∈ (ps.take m).map (fun p => pushTree psc.pushsrvName p.data),
      Prints J tree := by
    intro tree htree
    obtain ⟨p, hp, rfl⟩ := List.mem_map.mp htree
    exact (h p (List.mem_of_mem_take hp)).prints
  have hlen : ((ps.take m).map fun p => pushTree psc.pushsrvName p.data).length = m := by
    have hle : m ≤ ps.length := by
      rw [hm, ← hlength]
      exact List.findIdx_le_length
    rw [List.length_map, List.length_take, Nat.min_eq_left hle]
  refine ⟨hlength, hiff, ?_⟩
  intro buffer hbuf input hdata harrived n
  rw [hbytes] at harrived ⊢
  obtain ⟨hpart, hall⟩ := stream_received hprints hnl hbuf hdata harrived n
  rw [hlen] at hall
  exact ⟨hpart, fun heq hn => (hall heq hn).2⟩

/-- The message `23` of a service. -/
def pushedText : CStr := lit "\x7b \"japi_pushsrv\": \"temperature\", \"data\": 23 \x7d"

def pushedJson : JsonC := .table [(pushedText, pushTree (lit "temperature") (.int 23))]

theorem prints_pushed : Prints pushedJson (pushTree (lit "temperature") (.int 23)) :=
  ⟨by decide +kernel, by decide +kernel, rfl, by decide +kernel⟩

/-- Its bytes are taken as `write` says. -/
def push23 (write : Nat → Nat → Int) : Push := ⟨⟨[⟨.int 23, 1⟩]⟩, some 0, write⟩

theorem push23_sendable (write : Nat → Nat → Int) :
    (push23 write).Sendable pushedJson (lit "temperature") where
  notNull h := by cases h
  tree := rfl
  prints := prints_pushed

/-- One client is subscribed once, the other one twice. -/
def threeEntries : JapiPushsrvContext := ⟨1, lit "temperature", [6, 5, 6]⟩

/-- The second entry of the other client fails at once; the third message is given up
after three bytes. -/
def threePushes : List Push :=
  [push23 fun k _ => if k = 2 then -1 else 100, push23 fun _ _ => 100,
    push23 fun _ j => if j = 0 then 3 else -1]

/-- The first client reads the first two. -/
theorem pushAll_received_temperature :
    5 ∉ (pushAll pushedJson threeEntries threePushes).1.clients ∧
      (creadlineCalls libEnv 3 ⟨[], 0⟩
          [.data ⟨pushedText.bytes ++ [10], by decide, by decide⟩, .eintr,
            .data ⟨pushedText.bytes ++ [10] ++ pushedText.bytes.take 3, by decide,
              by decide⟩]).filterMap (received pushedJson) =
        [pushTree (lit "temperature") (.int 23), pushTree (lit "temperature") (.int 23)] := by
  have hfailed : 2 = untilFailed 5 (pushAll pushedJson threeEntries threePushes).2 := by
    decide +kernel
  have hbytes : bytesTo 5 (pushAll pushedJson threeEntries threePushes).2 =
      pushedText.bytes ++ [10] ++ (pushedText.bytes ++ [10] ++ pushedText.bytes.take 3) := by
    decide +kernel
  have hsendable : ∀ p ∈ threePushes, p.Sendable pushedJson threeEntries.pushsrvName := by
    intro p hp
    simp only [threePushes, List.mem_cons, List.not_mem_nil, or_false] at hp
    rcases hp with rfl | rfl | rfl <;> exact push23_sendable _
  have hdata : OnlyData [.data ⟨pushedText.bytes ++ [10], by decide, by decide⟩, .eintr,
      .data ⟨pushedText.bytes ++ [10] ++ pushedText.bytes.take 3, by decide, by decide⟩] := by
    simp [OnlyData]
  obtain ⟨-, hiff, hreads⟩ := pushAll_received (show threeEntries.clients.count 5 = 1 by decide)
    hsendable hfailed
  have hall := (hreads (show CreadlineBuf.nbytes ⟨[], 0⟩ = 0 from rfl) hdata
    (by rw [hbytes]; exact List.prefix_rfl) 3).2
  exact ⟨fun hmem => absurd (hiff.mp hmem) (by decide), hall (by rw [hbytes]; rfl) (by decide)⟩

end Libjapi
