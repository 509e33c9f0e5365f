/-
# `Libjapi.WriteFraming` — the bytes several threads write to one connection

The server thread writes responses, the thread of each push service writes its
messages, and all of them with `write_n`, which calls `write()` until the message
is sent.  The machine has one socket number, which stands for one connection
after the other, and any number of services; a step is one turn of the loop of
`write_n`, with any return value of `write()`.  A failed response closes the
connection, a failed push message only ends the subscription.

    each write() that is accepted finds no other message that was accepted
    in part, be it still on its way or given up, and is for a message that
    was not begun on an earlier connection
      ⟹  the bytes are whole messages and a proper prefix of one, and
          nothing is accepted behind a message that was given up       `run_framed`

Nothing in the code provides for that: responses take no lock, each service only
its own, `japi_pushsrv_sendmsg` leaves the connection open after half a message,
and a socket can be closed while a service that has it in its list twice is
writing to it.
-/
import Libjapi.Runs
import Libjapi.ProcessMessage

namespace Libjapi

/-! ## Messages and `write_n` -/

/-- What `japi_get_jobj_as_ndstr` makes of a text: a line. -/
structure Message where
  text : CStr

def Message.bytes (m : Message) : List Byte := m.text.bytes ++ [nl]

/-- The local variables of `write_n`: `sent` is `buffer - buf`.  `earlier` is for
the statements: bytes were accepted on an earlier connection with the number. -/
structure WriteN where
  msg : Message
  sent : Nat
  toSend : Int
  earlier : Bool

/-- `write_n(socket, msg, strlen(msg))` is entered; `int to_send = count`. -/
def WriteN.enter (msg : Message) : WriteN := ⟨msg, 0, toInt32 msg.bytes.length, false⟩

/-- The connection that had the number is gone. -/
def WriteN.outlive (p : WriteN) : WriteN := { p with earlier := p.earlier || 0 < p.sent }

/-- Some bytes of the message were accepted on this connection, and not all. -/
def WriteN.Partway (p : WriteN) : Prop :=
  p.earlier = false ∧ 0 < p.sent ∧ p.sent < p.msg.bytes.length

instance (p : WriteN) : Decidable p.Partway := inferInstanceAs (Decidable (_ ∧ _))

theorem WriteN.outlive_not_partway (p : WriteN) : ¬ p.outlive.Partway := by
  rintro ⟨hearlier, hpos, -⟩
  simp only [WriteN.outlive, Bool.or_eq_false_iff, decide_eq_false_iff_not] at hearlier
  exact hearlier.2 hpos

/-- The loop is left with a return value or goes on. -/
inductive WriteNTurn where
  | returned (ret : Int)
  | more (p : WriteN)

/-- A turn of the loop, with the return value of `write()`. -/
def WriteN.turn (p : WriteN) (bytesWritten : Int) : WriteNTurn :=
  if p.toSend > 0 then
    if bytesWritten ≤ 0 then .returned bytesWritten
    else .more { p with
      sent := p.sent + bytesWritten.toNat, toSend := p.toSend - bytesWritten }
  else .returned (toInt32 p.msg.bytes.length)

/-- The bytes a turn gives to `write()` and that are accepted. -/
def WriteN.chunk (p : WriteN) (bytesWritten : Int) : List Byte :=
  if p.toSend > 0 then (p.msg.bytes.drop p.sent).take bytesWritten.toNat else []

/-! ## The machine -/

/-- A thread that writes to the connection. -/
inductive Writer where
  | server
  | service (psc : Addr)
  deriving DecidableEq

/-- The connection a socket number stands for: the bytes accepted on it, the
calls of `write_n` with the number and the services that have it in their list.
`started` and `torn` are for the statements: the messages `write_n` was called
with, and how many bytes had been accepted when a message was first given up in
part. -/
structure Stream where
  accepted : List Byte
  isOpen : Bool
  closing : Bool
  writing : Writer → Option WriteN
  subscribed : List Addr
  started : List Message
  torn : Option Nat

inductive StreamEvent where
  | subscribe (psc : Addr)
  | unsubscribe (psc : Addr)
  | send (w : Writer) (msg : Message)
  | write (w : Writer) (bytesWritten : Int)
  | close
  | reconnect

/-- The thread that sends or writes. -/
def StreamEvent.writer : StreamEvent → Option Writer
  | .send w _ | .write w _ => some w
  | .subscribe _ | .unsubscribe _ | .close | .reconnect => none

namespace Stream

/-- The client has connected. -/
def start : Stream where
  accepted := []
  isOpen := true
  closing := false
  writing := fun _ => none
  subscribed := []
  started := []
  torn := none

/-- The thread may write: the server answers a request, a service sends to a subscriber. -/
def maySend (st : Stream) : Writer → Bool
  | .server => st.isOpen && !st.closing
  | .service psc => st.subscribed.contains psc

/-- `write_n` has returned.  A response that failed leads to `japi_remove_client`,
a push message that failed to `japi_pushsrv_remove_client`. -/
def onReturn (st : Stream) (w : Writer) (p : WriteN) (ret : Int) : Stream :=
  { st with
    writing := Function.update st.writing w none
    closing := st.closing || (ret ≤ 0 && w = .server)
    subscribed := match w with
      | .service psc => if ret ≤ 0 then st.subscribed.erase psc else st.subscribed
      | .server => st.subscribed
    torn := if st.isOpen ∧ p.Partway then st.torn.or (some st.accepted.length) else st.torn }

/-- A turn of the loop of `write_n`. -/
def onWrite (st : Stream) (w : Writer) (p : WriteN) (bytesWritten : Int) : Stream :=
  match p.turn bytesWritten with
  | .returned ret => st.onReturn w p ret
  | .more p' => { st with
      accepted := st.accepted ++ p.chunk bytesWritten
      writing := Function.update st.writing w (some p') }

/-- The number is given to a new connection.  Calls of `write_n` that have it
go on, and so do entries in the lists. -/
def onReconnect (st : Stream) : Stream :=
  { st with
    accepted := []
    isOpen := true
    writing := fun w => (st.writing w).map WriteN.outlive
    torn := none }

/-- One step.  The server thread subscribes, unsubscribes, closes and accepts
while it is not in `write_n`; `write()` accepts at most what it is given, and
nothing on a closed descriptor. -/
def step (st : Stream) : StreamEvent → Option Stream
  | .subscribe psc =>
      if (st.writing .server).isNone then some { st with subscribed := psc :: st.subscribed }
      else none
  | .unsubscribe psc =>
      if (st.writing .server).isNone then some { st with subscribed := st.subscribed.erase psc }
      else none
  | .send w msg =>
      if (st.writing w).isNone ∧ st.maySend w then
        some { st with
          writing := Function.update st.writing w (some (WriteN.enter msg))
          started := msg :: st.started }
      else none
  | .write w bytesWritten =>
      match st.writing w with
      | none => none
      | some p =>
          if bytesWritten ≤ max p.toSend 0 ∧ (st.isOpen = false → bytesWritten ≤ 0) then
            some (st.onWrite w p bytesWritten)
          else none
  | .close =>
      if (st.writing .server).isNone then some { st with isOpen := false, closing := false }
      else none
  | .reconnect =>
      if (st.writing .server).isNone ∧ st.isOpen = false then some st.onReconnect else none

/-! ## What holds -/

/-- The bytes of some messages, one after the other. -/
def bytesOf (msgs : List Message) : List Byte := msgs.flatMap Message.bytes

/-- The bytes are whole messages and a proper prefix of one; nothing was accepted
behind a message that was given up. -/
structure Framed (st : Stream) : Prop where
  messages : ∃ msgs part, st.accepted = bytesOf msgs ++ part ∧ (∀ m ∈ msgs, m ∈ st.started) ∧
    (part = [] ∨ ∃ m ∈ st.started, part <+: m.bytes ∧ part ≠ m.bytes)
  quiet : ∀ n ∈ st.torn, st.accepted.length = n

/-- A message of the thread was accepted in part, and is still on its way. -/
def Partway (st : Stream) (w : Writer) : Prop := ∃ p, st.writing w = some p ∧ p.Partway

/-- A message of the thread was begun on an earlier connection. -/
def Stray (st : Stream) (w : Writer) : Prop := ∃ p, st.writing w = some p ∧ p.earlier = true

/-- The condition on a step: bytes are accepted only while no message of another
thread was accepted in part, none was given up in part, and the message was not
begun on an earlier connection. -/
def Alone (st : Stream) : StreamEvent → Prop
  | .write w bytesWritten =>
      0 < bytesWritten → (∀ w', w' ≠ w → ¬ st.Partway w') ∧ st.torn = none ∧ ¬ st.Stray w
  | _ => True

/-- How the accepted bytes end, on an open connection. -/
inductive Shape (st : Stream) (msgs : List Message) : Prop
  | whole : (∀ w, ¬ st.Partway w) → st.torn = none → st.accepted = bytesOf msgs → Shape st msgs
  | partway (w : Writer) (p : WriteN) : st.writing w = some p → p.Partway →
      (∀ w', w' ≠ w → ¬ st.Partway w') → st.torn = none →
      st.accepted = bytesOf msgs ++ p.msg.bytes.take p.sent → Shape st msgs
  | torn (m : Message) (k : Nat) : (∀ w, ¬ st.Partway w) → st.torn = some st.accepted.length →
      m ∈ st.started → k < m.bytes.length → st.accepted = bytesOf msgs ++ m.bytes.take k →
      Shape st msgs

structure Inv (st : Stream) : Prop where
  writing : ∀ w p, st.writing w = some p → p.msg ∈ st.started ∧
    (p.toSend ≤ p.msg.bytes.length - p.sent)
  framed : st.isOpen = false → st.Framed
  shape : st.isOpen = true → ∃ msgs, (∀ m ∈ msgs, m ∈ st.started) ∧ st.Shape msgs

theorem take_properPrefix {m : Message} {k : Nat} (hk : k < m.bytes.length) :
    m.bytes.take k <+: m.bytes ∧ m.bytes.take k ≠ m.bytes := by
  refine ⟨List.take_prefix k _, ?_⟩
  intro heq
  have hlen := congrArg List.length heq
  rw [List.length_take] at hlen
  omega

theorem Inv.toFramed {st : Stream} (hi : st.Inv) : st.Framed := by
  cases hopen : st.isOpen with
  | false => exact hi.framed hopen
  | true =>
      obtain ⟨msgs, hmsgs, hshape⟩ := hi.shape hopen
      cases hshape with
      | whole _ htorn hacc =>
          exact ⟨⟨msgs, [], by simpa using hacc, hmsgs, .inl rfl⟩, by simp [htorn]⟩
      | partway w p hw hpart _ htorn hacc =>
          refine ⟨⟨msgs, _, hacc, hmsgs, .inr ⟨p.msg, (hi.writing w p hw).1, ?_⟩⟩, by simp [htorn]⟩
          exact take_properPrefix hpart.2.2
      | torn m k _ htorn hm hk hacc =>
          refine ⟨⟨msgs, _, hacc, hmsgs, .inr ⟨m, hm, take_properPrefix hk⟩⟩, ?_⟩
          rw [htorn]
          rintro n ⟨⟩
          rfl

/-! ## The steps -/

theorem Framed.congr {st st' : Stream} (h : st.Framed) (hacc : st'.accepted = st.accepted)
    (htorn : st'.torn = st.torn) (hstarted : ∀ m ∈ st.started, m ∈ st'.started) : st'.Framed := by
  obtain ⟨⟨msgs, part, heq, hmsgs, hpart⟩, hquiet⟩ := h
  refine ⟨⟨msgs, part, hacc.trans heq, fun m hm => hstarted m (hmsgs m hm), ?_⟩, ?_⟩
  · rcases hpart with hnil | ⟨m, hm, hprefix⟩
    · exact .inl hnil
    · exact .inr ⟨m, hstarted m hm, hprefix⟩
  · rw [hacc, htorn]
    exact hquiet

/-- What is under way decides the shape, apart from calls that have sent nothing. -/
theorem Shape.congr {st st' : Stream} {msgs : List Message} (h : st.Shape msgs)
    (hwriting : ∀ w p, p.Partway → (st'.writing w = some p ↔ st.writing w = some p))
    (hacc : st'.accepted = st.accepted) (htorn : st'.torn = st.torn)
    (hstarted : ∀ m ∈ st.started, m ∈ st'.started) : st'.Shape msgs := by
  have hpartway : ∀ w, st'.Partway w ↔ st.Partway w := by
    intro w
    constructor
    · rintro ⟨p, hp, hpart⟩
      exact ⟨p, (hwriting w p hpart).mp hp, hpart⟩
    · rintro ⟨p, hp, hpart⟩
      exact ⟨p, (hwriting w p hpart).mpr hp, hpart⟩
  cases h with
  | whole hno ht ha =>
      exact .whole (fun w => by rw [hpartway]; exact hno w) (htorn.trans ht) (hacc.trans ha)
  | partway w p hw hpart hothers ht ha =>
      exact .partway w p ((hwriting w p hpart).mpr hw) hpart
        (fun w' hne => by rw [hpartway]; exact hothers w' hne) (htorn.trans ht) (hacc.trans ha)
  | torn m k hno ht hm hk ha =>
      exact .torn m k (fun w => by rw [hpartway]; exact hno w) (by rw [htorn, hacc, ht])
        (hstarted m hm) hk (hacc.trans ha)

theorem toInt32_le (n : Nat) : toInt32 n ≤ n := by
  unfold toInt32
  omega

theorem Inv.send {st : Stream} (hi : st.Inv) {w : Writer} (hw : st.writing w = none)
    (msg : Message) :
    Inv { st with
      writing := Function.update st.writing w (some (WriteN.enter msg))
      started := msg :: st.started } := by
  have hstarted : ∀ m ∈ st.started, m ∈ msg :: st.started := fun m hm => List.mem_cons_of_mem _ hm
  refine ⟨?_, ?_, ?_⟩
  · intro w' p hp
    by_cases hne : w' = w
    · subst hne
      simp only [Function.update_self, Option.some.injEq] at hp
      subst hp
      refine ⟨List.mem_cons_self, ?_⟩
      simpa [WriteN.enter] using toInt32_le msg.bytes.length
    · simp only [Function.update_of_ne hne] at hp
      exact ⟨hstarted _ (hi.writing w' p hp).1, (hi.writing w' p hp).2⟩
  · intro hopen
    exact (hi.framed hopen).congr rfl rfl hstarted
  · intro hopen
    obtain ⟨msgs, hmsgs, hshape⟩ := hi.shape hopen
    refine ⟨msgs, fun m hm => hstarted m (hmsgs m hm), hshape.congr ?_ rfl rfl hstarted⟩
    intro w' p hpart
    by_cases hne : w' = w
    · subst hne
      simp only [Function.update_self, hw, Option.some.injEq, reduceCtorEq, iff_false]
      rintro rfl
      exact absurd hpart.2.1 (by simp [WriteN.enter])
    · simp only [Function.update_of_ne hne]

theorem Inv.onReturn {st : Stream} (hi : st.Inv) {w : Writer} {p : WriteN}
    (hw : st.writing w = some p) (ret : Int) : (st.onReturn w p ret).Inv := by
  have hothers : ∀ w', w' ≠ w → (st.onReturn w p ret).writing w' = st.writing w' :=
    fun w' hne => Function.update_of_ne hne _ _
  have hself : (st.onReturn w p ret).writing w = none := Function.update_self _ _ _
  refine ⟨?_, ?_, ?_⟩
  · intro w' p' hp'
    by_cases hne : w' = w
    · rw [hne, hself] at hp'
      cases hp'
    · rw [hothers w' hne] at hp'
      exact hi.writing w' p' hp'
  · intro hopen
    have hopen' : st.isOpen = false := hopen
    exact (hi.framed hopen).congr rfl (by simp [Stream.onReturn, hopen']) fun _ hm => hm
  · intro hopen
    have hopen' : st.isOpen = true := hopen
    obtain ⟨msgs, hmsgs, hshape⟩ := hi.shape hopen
    refine ⟨msgs, hmsgs, ?_⟩
    by_cases hpart : p.Partway
    · -- no other call was under way in part, and the message is the torn one
      have hno : ∀ w', ¬ (st.onReturn w p ret).Partway w' ∨ (w' ≠ w ∧ st.Partway w') := by
        intro w'
        by_cases hne : w' = w
        · left
          rintro ⟨p', hp', -⟩
          rw [hne, hself] at hp'
          cases hp'
        · by_cases hp' : st.Partway w'
          · exact .inr ⟨hne, hp'⟩
          · left
            rintro ⟨p', hp'', hpart'⟩
            rw [hothers w' hne] at hp''
            exact hp' ⟨p', hp'', hpart'⟩
      cases hshape with
      | whole hwhole _ _ => exact absurd ⟨p, hw, hpart⟩ (hwhole w)
      | partway w₀ p₀ hw₀ hpart₀ hothers₀ ht ha =>
          obtain rfl : w₀ = w := by
            by_contra hne
            exact hothers₀ w (fun h => hne h.symm) ⟨p, hw, hpart⟩
          rw [hw] at hw₀
          cases hw₀
          refine .torn p.msg p.sent (fun w' => (hno w').resolve_right ?_) ?_
            (hi.writing w₀ p hw).1 hpart.2.2 ha
          · intro h
            exact hothers₀ w' h.1 h.2
          · simp only [Stream.onReturn, hopen', hpart, and_self, if_true, ht, Option.none_or]
      | torn m k hnone _ _ _ _ => exact absurd ⟨p, hw, hpart⟩ (hnone w)
    · refine hshape.congr ?_ rfl ?_ fun _ hm => hm
      · intro w' p' hpart'
        by_cases hne : w' = w
        · rw [hne, hself, hw]
          simp only [reduceCtorEq, Option.some.injEq, false_iff]
          rintro rfl
          exact hpart hpart'
        · rw [hothers w' hne]
      · simp only [Stream.onReturn]
        exact if_neg fun h => hpart h.2

/-- The bytes end with the part of the message that was sent, if nothing else
was accepted in part. -/
theorem Shape.alone {st : Stream} {msgs : List Message} (h : st.Shape msgs) {w : Writer}
    {p : WriteN} (hw : st.writing w = some p) (hearlier : p.earlier = false)
    (hlt : p.sent < p.msg.bytes.length) (hothers : ∀ w', w' ≠ w → ¬ st.Partway w')
    (htorn : st.torn = none) :
    st.accepted = bytesOf msgs ++ p.msg.bytes.take p.sent := by
  cases h with
  | whole hno _ ha =>
      have hsent : p.sent = 0 := by
        by_contra hne
        exact hno w ⟨p, hw, hearlier, Nat.pos_of_ne_zero hne, hlt⟩
      rw [ha, hsent, List.take_zero, List.append_nil]
  | partway w₀ p₀ hw₀ hpart₀ _ _ ha =>
      obtain rfl : w₀ = w := by
        by_contra hne
        exact hothers w₀ hne ⟨p₀, hw₀, hpart₀⟩
      rw [hw] at hw₀
      cases hw₀
      exact ha
  | torn m k _ ht _ _ _ =>
      rw [htorn] at ht
      cases ht

theorem Inv.accept {st : Stream} (hi : st.Inv) (hopen : st.isOpen = true) {w : Writer} {p : WriteN}
    (hw : st.writing w = some p) {n : Int} (hpos : 0 < n) (hn : n ≤ p.toSend)
    (hothers : ∀ w', w' ≠ w → ¬ st.Partway w') (htorn : st.torn = none)
    (hstray : ¬ st.Stray w) :
    Inv { st with
      accepted := st.accepted ++ p.chunk n
      writing := Function.update st.writing w
        (some { p with sent := p.sent + n.toNat, toSend := p.toSend - n }) } := by
  obtain ⟨hmsg, hrest⟩ := hi.writing w p hw
  have hearlier : p.earlier = false := by
    by_contra hne
    exact hstray ⟨p, hw, by simpa using hne⟩
  have hlen : p.sent + n.toNat ≤ p.msg.bytes.length := by omega
  refine ⟨?_, ?_, ?_⟩
  · intro w' p' hp'
    by_cases hne : w' = w
    · subst hne
      simp only [Function.update_self, Option.some.injEq] at hp'
      subst hp'
      refine ⟨hmsg, ?_⟩
      push_cast
      omega
    · simp only [Function.update_of_ne hne] at hp'
      exact hi.writing w' p' hp'
  · intro hclosed
    rw [hopen] at hclosed
    cases hclosed
  · intro _
    obtain ⟨msgs, hmsgs, hshape⟩ := hi.shape hopen
    have hacc := hshape.alone hw hearlier (by omega) hothers htorn
    have hchunk : p.chunk n = (p.msg.bytes.drop p.sent).take n.toNat := if_pos (by omega)
    have hacc' : st.accepted ++ p.chunk n
        = bytesOf msgs ++ p.msg.bytes.take (p.sent + n.toNat) := by
      rw [hacc, hchunk, List.append_assoc, List.take_add]
    have hno : ∀ w', w' ≠ w → ∀ p', Function.update st.writing w
        (some { p with sent := p.sent + n.toNat, toSend := p.toSend - n }) w' = some p' →
        ¬ p'.Partway := by
      intro w' hne p' hp' hpart
      rw [Function.update_of_ne hne] at hp'
      exact hothers w' hne ⟨p', hp', hpart⟩
    rcases Nat.lt_or_ge (p.sent + n.toNat) p.msg.bytes.length with hlt | hge
    · refine ⟨msgs, hmsgs, .partway w _ (Function.update_self _ _ _) ⟨hearlier, ?_, hlt⟩ ?_ htorn
        hacc'⟩
      · show 0 < p.sent + n.toNat
        omega
      · rintro w' hne ⟨p', hp', hpart⟩
        exact hno w' hne p' hp' hpart
    · -- the message is complete
      refine ⟨msgs ++ [p.msg], ?_, .whole ?_ htorn ?_⟩
      · intro m hm
        rcases List.mem_append.mp hm with hm | hm
        · exact hmsgs m hm
        · rw [List.mem_singleton.mp hm]
          exact hmsg
      · rintro w' ⟨p', hp', hpart⟩
        by_cases hne : w' = w
        · subst hne
          simp only [Function.update_self, Option.some.injEq] at hp'
          subst hp'
          exact absurd hpart.2.2 (by simpa using hge)
        · exact hno w' hne p' hp' hpart
      · refine hacc'.trans ?_
        rw [List.take_of_length_le hge]
        simp [bytesOf]

theorem Inv.reconnect {st : Stream} (hi : st.Inv) : st.onReconnect.Inv := by
  refine ⟨?_, ?_, ?_⟩
  · intro w p hp
    obtain ⟨p₀, hp₀, rfl⟩ := Option.map_eq_some_iff.mp hp
    exact hi.writing w p₀ hp₀
  · intro hclosed
    cases hclosed
  · intro _
    refine ⟨[], by simp, .whole ?_ rfl rfl⟩
    rintro w ⟨p, hp, hpart⟩
    obtain ⟨p₀, -, rfl⟩ := Option.map_eq_some_iff.mp hp
    exact p₀.outlive_not_partway hpart

theorem Inv.subscribe {st : Stream} (hi : st.Inv) (subscribed : List Addr) :
    Inv { st with subscribed } := by
  refine ⟨hi.writing, fun hopen => (hi.framed hopen).congr rfl rfl fun _ hm => hm, ?_⟩
  intro hopen
  obtain ⟨msgs, hmsgs, hshape⟩ := hi.shape hopen
  exact ⟨msgs, hmsgs, hshape.congr (fun _ _ _ => Iff.rfl) rfl rfl fun _ hm => hm⟩

theorem WriteN.turn_returned {p : WriteN} {n : Int} (h : ¬ (p.toSend > 0 ∧ 0 < n)) :
    ∃ ret, p.turn n = .returned ret := by
  by_cases hsend : p.toSend > 0
  · exact ⟨n, by rw [WriteN.turn, if_pos hsend, if_pos (by omega)]⟩
  · exact ⟨_, by rw [WriteN.turn, if_neg hsend]⟩

theorem WriteN.turn_more {p : WriteN} {n : Int} (h : p.toSend > 0 ∧ 0 < n) :
    p.turn n = .more { p with sent := p.sent + n.toNat, toSend := p.toSend - n } := by
  rw [WriteN.turn, if_pos h.1, if_neg (by omega)]

theorem Inv.write {st : Stream} (hi : st.Inv) {w : Writer} {p : WriteN} (hw : st.writing w = some p)
    {n : Int} (hn : n ≤ max p.toSend 0) (hclosed : st.isOpen = false → n ≤ 0)
    (halone : st.Alone (.write w n)) : (st.onWrite w p n).Inv := by
  by_cases hturn : p.toSend > 0 ∧ 0 < n
  · have hopen : st.isOpen = true := by
      by_contra hne
      have := hclosed (by simpa using hne)
      omega
    obtain ⟨hothers, htorn, hstray⟩ := halone hturn.2
    simp only [Stream.onWrite, WriteN.turn_more hturn]
    exact hi.accept hopen hw hturn.2 (by omega) hothers htorn hstray
  · obtain ⟨ret, hret⟩ := WriteN.turn_returned hturn
    simp only [Stream.onWrite, hret]
    exact hi.onReturn hw ret

theorem Inv.step {st st' : Stream} {e : StreamEvent} (hi : st.Inv) (halone : st.Alone e)
    (h : st.step e = some st') : st'.Inv := by
  cases e with
  | subscribe psc =>
      obtain ⟨-, heq⟩ := Option.ite_none_right_eq_some.mp h
      cases heq
      exact hi.subscribe _
  | unsubscribe psc =>
      obtain ⟨-, heq⟩ := Option.ite_none_right_eq_some.mp h
      cases heq
      exact hi.subscribe _
  | send w msg =>
      obtain ⟨⟨hw, -⟩, heq⟩ := Option.ite_none_right_eq_some.mp h
      cases heq
      exact hi.send (Option.isNone_iff_eq_none.mp hw) msg
  | write w n =>
      cases hw : st.writing w with
      | none => simp [Stream.step, hw] at h
      | some p =>
          simp only [Stream.step, hw] at h
          obtain ⟨⟨hn, hclosed⟩, heq⟩ := Option.ite_none_right_eq_some.mp h
          cases heq
          exact hi.write hw hn hclosed halone
  | close =>
      obtain ⟨-, heq⟩ := Option.ite_none_right_eq_some.mp h
      cases heq
      exact ⟨hi.writing, fun _ => hi.toFramed.congr rfl rfl fun _ hm => hm, fun hopen => by
        cases hopen⟩
  | reconnect =>
      obtain ⟨-, heq⟩ := Option.ite_none_right_eq_some.mp h
      cases heq
      exact hi.reconnect

theorem inv_start : start.Inv := by
  refine ⟨fun w p hp => (nomatch hp), fun hopen => (nomatch hopen), fun _ => ⟨[], by simp, ?_⟩⟩
  exact .whole (fun w ⟨p, hp, _⟩ => nomatch hp) rfl rfl

/-! ## The threads that write -/

theorem step_writing_none {st st' : Stream} {e : StreamEvent} (h : step st e = some st')
    {w : Writer} (he : e.writer ≠ some w) (hw : st.writing w = none) : st'.writing w = none := by
  cases e with
  | subscribe psc | unsubscribe psc | close =>
      obtain ⟨-, heq⟩ := Option.ite_none_right_eq_some.mp h
      cases heq
      exact hw
  | reconnect =>
      obtain ⟨-, heq⟩ := Option.ite_none_right_eq_some.mp h
      cases heq
      exact congrArg (Option.map WriteN.outlive) hw
  | send w' msg =>
      have hne : w ≠ w' := fun heq => he (congrArg some heq.symm)
      obtain ⟨-, heq⟩ := Option.ite_none_right_eq_some.mp h
      cases heq
      exact (Function.update_of_ne hne _ _).trans hw
  | write w' n =>
      have hne : w ≠ w' := fun heq => he (congrArg some heq.symm)
      cases hp : st.writing w' with
      | none => simp [Stream.step, hp] at h
      | some p =>
          simp only [Stream.step, hp] at h
          obtain ⟨-, heq⟩ := Option.ite_none_right_eq_some.mp h
          cases heq
          rw [Stream.onWrite]
          cases p.turn n with
          | returned ret => exact (Function.update_of_ne hne _ _).trans hw
          | more p' => exact (Function.update_of_ne hne _ _).trans hw

instance (st : Stream) (w : Writer) : Decidable (st.Partway w) :=
  decidable_of_iff ((st.writing w).any fun p => decide p.Partway) (by
    simp [Stream.Partway, Option.any_eq_true])

instance (st : Stream) (w : Writer) : Decidable (st.Stray w) :=
  decidable_of_iff ((st.writing w).any fun p => p.earlier) (by
    simp [Stream.Stray, Option.any_eq_true])

/-- The condition on a step, of the threads that write at all. -/
def AloneOf (ws : List Writer) (st : Stream) : StreamEvent → Prop
  | .write w bytesWritten =>
      0 < bytesWritten → (∀ w' ∈ ws, w' ≠ w → ¬ st.Partway w') ∧ st.torn = none ∧ ¬ st.Stray w
  | _ => True

instance (ws : List Writer) (st : Stream) : ∀ e, Decidable (st.AloneOf ws e)
  | .write w n => inferInstanceAs (Decidable (0 < n →
      (∀ w' ∈ ws, w' ≠ w → ¬ st.Partway w') ∧ st.torn = none ∧ ¬ st.Stray w))
  | .subscribe _ | .unsubscribe _ | .send _ _ | .close | .reconnect => .isTrue trivial

/-- It is the condition on the steps of a run in which no other thread takes one. -/
theorem meets_alone {ws : List Writer} {es : List StreamEvent}
    (hes : ∀ e ∈ es, ∀ w ∈ e.writer, w ∈ ws) :
    ∀ {st : Stream}, (∀ w, w ∉ ws → st.writing w = none) → Meets step (AloneOf ws) st es →
      Meets step Alone st es := by
  induction es with
  | nil => exact fun _ _ => trivial
  | cons e es ih =>
      intro st hst hmeets
      refine ⟨?_, fun st' h => ih (fun e' he' => hes e' (List.mem_cons_of_mem _ he')) ?_
        (hmeets.2 st' h)⟩
      · cases e with
        | write w n =>
            intro hpos
            obtain ⟨hothers, hrest⟩ := hmeets.1 hpos
            refine ⟨?_, hrest⟩
            rintro w' hne ⟨p, hp, hpart⟩
            by_cases hw' : w' ∈ ws
            · exact hothers w' hw' hne ⟨p, hp, hpart⟩
            · rw [hst w' hw'] at hp
              cases hp
        | _ => trivial
      · exact fun w hw => step_writing_none h (fun he => hw (hes e List.mem_cons_self w he)) (hst w hw)

/-! ## Runs -/

/-- **The bytes on each connection are framed** in a run in which bytes are
accepted only while no other message was accepted in part, and of no message that
was begun on an earlier connection. -/
theorem run_framed {es : List StreamEvent} {st : Stream} (hmeets : Meets step Alone start es)
    (hrun : run step start es = some st) : st.Framed :=
  (run_invariant_of_meets Alone (fun hi halone h => Inv.step hi halone h) inv_start hmeets
    hrun).toFramed

/-- A response, and a push message. -/
def response : Message :=
  ⟨CStr.lit "\x7b \"japi_response\": \"get_temperature\", \"data\": \x7b \x7d \x7d"⟩

def pushMessage : Message :=
  ⟨CStr.lit "\x7b \"japi_pushsrv\": \"temperature\", \"data\": \x7b \x7d \x7d"⟩

/-- A push message and a response, one after the other although both are on their way
at once; then a push message that is given up after 10 bytes. -/
def oneAfterTheOther : List StreamEvent :=
  [.subscribe 1, .send (.service 1) pushMessage, .write (.service 1) 20, .send .server response,
    .write (.service 1) 27, .write .server 52, .write (.service 1) 0, .write .server 0,
    .send (.service 1) pushMessage, .write (.service 1) 10, .write (.service 1) (-1)]

theorem run_framed_response :
    ∃ st, run step start oneAfterTheOther = some st ∧ st.torn = some 109 ∧ st.subscribed = [] ∧
      st.accepted = pushMessage.bytes ++ response.bytes ++ pushMessage.bytes.take 10 ∧
      st.Framed := by
  obtain ⟨st, hrun, htorn, hsubscribed, hacc⟩ : ∃ st, run step start oneAfterTheOther = some st ∧
      st.torn = some 109 ∧ st.subscribed = [] ∧
      st.accepted = pushMessage.bytes ++ response.bytes ++ pushMessage.bytes.take 10 :=
    ⟨_, rfl, by decide +kernel, by decide +kernel, by decide +kernel⟩
  have halone : Meets step (AloneOf [.server, .service 1]) start oneAfterTheOther := by
    decide +kernel
  have hmeets := meets_alone (by decide) (fun w _ => show start.writing w = none from rfl) halone
  exact ⟨st, hrun, htorn, hsubscribed, hacc, run_framed hmeets hrun⟩

theorem Framed.begins {st : Stream} (h : st.Framed) {n : Nat} (hpos : 0 < n)
    (hn : n ≤ st.accepted.length) (hlen : ∀ m ∈ st.started, n ≤ m.bytes.length) :
    ∃ m ∈ st.started, st.accepted.take n = m.bytes.take n := by
  obtain ⟨msgs, part, heq, hmsgs, hpart⟩ := h.messages
  cases msgs with
  | nil =>
      have heq' : st.accepted = part := by simpa [bytesOf] using heq
      rcases hpart with rfl | ⟨m, hm, ⟨rest, hrest⟩, -⟩
      · rw [heq', List.length_nil] at hn
        omega
      · rw [heq'] at hn
        refine ⟨m, hm, ?_⟩
        rw [heq', ← hrest, List.take_append_of_le_length hn]
  | cons m msgs =>
      have hm := hmsgs m List.mem_cons_self
      refine ⟨m, hm, ?_⟩
      rw [heq]
      simp only [bytesOf, List.flatMap_cons, List.append_assoc]
      rw [List.take_append_of_le_length (hlen m hm)]

/-- The service writes between two calls of `write()` for the response; it gives
its message up after one byte, and the response follows; the rest of its message
goes to the next connection with the number. -/
theorem interleaved_not_framed :
    (∃ st, run step start
        [.subscribe 1, .send .server response, .write .server 1, .send (.service 1) pushMessage,
          .write (.service 1) 47, .write (.service 1) 0, .write .server 51, .write .server 0]
        = some st ∧ ¬ st.Framed) ∧
      (∃ st, run step start
        [.subscribe 1, .send (.service 1) pushMessage, .write (.service 1) 1,
          .write (.service 1) (-1), .send .server response, .write .server 52, .write .server 0]
        = some st ∧ ¬ st.Framed) ∧
      ∃ st, run step start
        [.subscribe 1, .subscribe 1, .unsubscribe 1, .send (.service 1) pushMessage,
          .write (.service 1) 1, .close, .reconnect, .write (.service 1) 46]
        = some st ∧ ¬ st.Framed := by
  refine ⟨⟨_, rfl, ?_⟩, ⟨_, rfl, ?_⟩, _, rfl, ?_⟩
  · intro hframed
    have hbegins := hframed.begins (n := 2) (by decide) (by decide +kernel) (by decide +kernel)
    revert hbegins
    decide +kernel
  · intro hframed
    have hquiet := hframed.quiet 1 rfl
    revert hquiet
    decide +kernel
  · intro hframed
    have hbegins := hframed.begins (n := 2) (by decide) (by decide +kernel) (by decide +kernel)
    revert hbegins
    decide +kernel

end Stream

end Libjapi
