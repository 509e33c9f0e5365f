/-
# `Libjapi.Arrivals` — one thread, and clients whose bytes have not all arrived

The loop of `japi_start_server` beside the queue of each connection: the bytes that
have arrived and were not read, and the end of the stream if it has come.  More may
arrive before every step and, in a call of `creadline_r`, before every `read()`,
which returns what is there, up to 1024 bytes.  `select()` reports a client only if
its queue is not empty, and `waits` keeps the connections on which the thread
called `read()` with nothing there, whether something came for it later or not.

    if at each call of `creadline_r` a newline is found in what is carried over or
    in a block of the queue, or the queue has an end, or a line there is beyond
    the limit, the thread never waits; and no other run in which nothing arrives
    during a call does not                                     `run_neverWaits`

For a client whose queue ends in the middle of a line the thread does wait,
whatever the other clients have sent: the inner `do … while` calls
`creadline_r` again as long as something is carried over, without another
`select()`, and `creadline_r` reads until it has a newline.
-/
import Libjapi.CreadlineReads
import Libjapi.Interrupts

namespace Libjapi

/-! ## The machine -/

/-- The loop, the queues of the connections, the connections the thread waited for, and
whether it is waiting for one for which nothing more comes. -/
structure Arrivals where
  server : Server
  queues : Nat → Queue
  waits : List Nat
  stalled : Bool

/-- Something arrives, or the loop takes a step; one that calls `creadline_r`, with
what the allocator grants and what arrives meanwhile.  In `stall` the call reads once
more, and does not return. -/
inductive ArrivalsEvent where
  | arrive (conn : Nat) (more : Queue)
  | loop (e : Event)
  | read (malloc : Nat → Bool) (turns : List ReadTurn)
  | stall (malloc : Nat → Bool) (turns : List ReadTurn)

/-- The results of the next `read()`s of a connection are known. -/
def Server.supply (st : Server) (i : Nat) (results : List ReadRes) : Server :=
  { st with conns := st.conns.modify i fun conn => { conn with unread := results } }

namespace Arrivals

open Server

/-- `creadline.c` as it is compiled. -/
def env (malloc : Nat → Bool) : CreadlineEnv := ⟨64 * 1024 * 1024, malloc⟩

/-- What can be read on a descriptor. -/
def queueOf (st : Arrivals) (socket : Int) : Queue :=
  match connOf st.server.conns socket with
  | some i => st.queues i
  | none => ⟨[], some .failed⟩

/-- A step of the loop apart from `creadline_r`.  `select()` reports the clients whose
descriptors are readable; what a new client sends arrives later. -/
def Allows (st : Arrivals) : Event → Prop
  | .read => False
  | .select (.ready fds _) => ∀ c ∈ st.server.ctx.clients, c.socket ∈ fds →
      (st.queueOf c.socket).Ready
  | .accept _ sent _ => sent = []
  | _ => True

instance (st : Arrivals) (e : Event) : Decidable (st.Allows e) :=
  match e with
  | .read => .isFalse id
  | .select (.ready fds _) => inferInstanceAs (Decidable (∀ c ∈ st.server.ctx.clients,
      c.socket ∈ fds → (st.queueOf c.socket).Ready))
  | .accept _ [] _ => .isTrue rfl
  | .accept _ (_ :: _) _ => .isFalse fun h => by cases h
  | .select .failed | .select .timeout | .visit | .process _ | .write _ | .noAccept
  | .acceptFailed | .outside _ => .isTrue trivial

/-- The client for which the thread calls `creadline_r`, and its connection. -/
def reading (st : Arrivals) : Option (JapiClient × Nat) :=
  match st.server.pc with
  | .serve client _ .read => do
      let c ← st.server.clientAt client
      let i ← connOf st.server.conns c.socket
      return (c, i)
  | _ => none

/-- A step of a thread that is not in a `read()`. -/
def move (st : Arrivals) : ArrivalsEvent → Option Arrivals
  | .arrive i more =>
      if i < st.server.conns.length then
        some { st with queues := Function.update st.queues i ((st.queues i).arrive more) }
      else none
  | .loop e =>
      if st.Allows e then (Server.step libEnv st.server e).map fun server => { st with server }
      else none
  | .read malloc turns => do
      let (c, i) ← st.reading
      let taken ← (st.queues i).take turns
      -- the call reads as often as there are turns
      if (creadlineTrace (env malloc) c.crlBuffer taken.results).reads = turns.length then
        (Server.step (env malloc) (st.server.supply i taken.results) .read).map fun server =>
          { st with
            server
            queues := Function.update st.queues i taken.left
            waits := if taken.waited then st.waits ++ [i] else st.waits }
      else none
  | .stall malloc turns => do
      let (c, i) ← st.reading
      let taken ← (st.queues i).take turns
      -- there is nothing for the `read()` behind the last turn
      if (creadlineTrace (env malloc) c.crlBuffer taken.results).reads = turns.length + 1 ∧
          ¬ taken.left.Ready then
        some { st with
          queues := Function.update st.queues i taken.left
          waits := st.waits ++ [i]
          stalled := true }
      else none

def step (st : Arrivals) (e : ArrivalsEvent) : Option Arrivals :=
  if st.stalled then none else st.move e

/-- The loop is entered, and nothing has arrived. -/
def start (ctx : JapiContext) (serverSocket : Int) : Arrivals where
  server := Server.start ctx serverSocket
  queues := fun _ => .empty
  waits := []
  stalled := false

/-- The condition on a step: nothing needs to follow what has arrived for a call of
`creadline_r`. -/
def Finished (st : Arrivals) : ArrivalsEvent → Prop
  | .read _ _ | .stall _ _ => match st.reading with
      | some (c, i) => (st.queues i).SufficesCall c.crlBuffer.restored
      | none => True
  | _ => True

instance (st : Arrivals) (e : ArrivalsEvent) : Decidable (st.Finished e) := by
  unfold Finished
  split
  · split <;> infer_instance
  · split <;> infer_instance
  · infer_instance

end Arrivals

/-- A call of `creadline_r` is granted its memory, and nothing arrives while it runs. -/
def ArrivalsEvent.Undisturbed : ArrivalsEvent → Prop
  | .read malloc turns | .stall malloc turns =>
      (∀ n, malloc n = true) ∧ ∀ t ∈ turns, t.before = .empty
  | _ => True

namespace Arrivals

open Server

/-! ## The steps -/

/-- What a run keeps. -/
structure Inv (st : Arrivals) : Prop where
  sound : st.server.Sound
  carries : st.server.Carries

theorem Sound.supply {st : Server} (h : st.Sound) (i : Nat) (results : List ReadRes) :
    (st.supply i results).Sound := by
  have hkey : (st.supply i results).conns.map Conn.key = st.conns.map Conn.key := by
    refine List.ext_getElem? fun j => ?_
    simp only [Server.supply, List.getElem?_map, List.getElem?_modify]
    cases st.conns[j]? with
    | none => rfl
    | some conn =>
        by_cases hij : i = j <;> simp [hij, Conn.key]
  refine ⟨⟨h.addrs, h.sockets, h.openOnce.congr hkey, ?_, h.traced.congr hkey⟩, h.pointers⟩
  intro s hs
  obtain ⟨j, conn, hj, hopen, hsock⟩ := h.connected s hs
  obtain ⟨conn', hj', hsock', hopen'⟩ := getElem?_of_key hkey.symm hj
  exact ⟨j, conn', hj', hopen'.trans hopen, hsock'.trans hsock⟩

theorem move_of_step {st st' : Arrivals} {e : ArrivalsEvent} (h : step st e = some st') :
    st.move e = some st' := by
  unfold step at h
  split at h
  · cases h
  · exact h

theorem mem_of_reading {st : Arrivals} {c : JapiClient} {i : Nat} (h : st.reading = some (c, i)) :
    c ∈ st.server.ctx.clients := by
  unfold reading at h
  split at h
  · simp only [Option.bind_eq_bind, Option.bind_eq_some_iff, Option.pure_def,
      Option.some.injEq, Prod.mk.injEq] at h
    obtain ⟨c', hc', -, -, rfl, -⟩ := h
    exact List.mem_of_find?_eq_some hc'
  · cases h

theorem move_read {st st' : Arrivals} {malloc : Nat → Bool} {turns : List ReadTurn}
    (h : st.move (.read malloc turns) = some st') :
    ∃ (c : JapiClient) (i : Nat) (taken : Queue.Taken), st.reading = some (c, i) ∧
      (st.queues i).take turns = some taken ∧
      (creadlineTrace (env malloc) c.crlBuffer taken.results).reads = turns.length ∧
      Server.step (env malloc) (st.server.supply i taken.results) .read = some st'.server ∧
      st'.waits = if taken.waited then st.waits ++ [i] else st.waits := by
  simp only [move, Option.bind_eq_bind, Option.bind_eq_some_iff] at h
  obtain ⟨⟨c, i⟩, hreading, taken, htaken, h⟩ := h
  obtain ⟨hreads, hmap⟩ := Option.ite_none_right_eq_some.mp h
  obtain ⟨server, hserver, rfl⟩ := Option.map_eq_some_iff.mp hmap
  exact ⟨c, i, taken, hreading, htaken, hreads, hserver, rfl⟩

theorem move_stall {st st' : Arrivals} {malloc : Nat → Bool} {turns : List ReadTurn}
    (h : st.move (.stall malloc turns) = some st') :
    ∃ (c : JapiClient) (i : Nat) (taken : Queue.Taken), st.reading = some (c, i) ∧
      (st.queues i).take turns = some taken ∧
      (creadlineTrace (env malloc) c.crlBuffer taken.results).reads = turns.length + 1 ∧
      ¬ taken.left.Ready ∧ st'.server = st.server ∧ st'.waits = st.waits ++ [i] := by
  simp only [move, Option.bind_eq_bind, Option.bind_eq_some_iff] at h
  obtain ⟨⟨c, i⟩, hreading, taken, htaken, h⟩ := h
  obtain ⟨⟨hreads, hempty⟩, hsome⟩ := Option.ite_none_right_eq_some.mp h
  cases hsome
  exact ⟨c, i, taken, hreading, htaken, hreads, hempty, rfl, rfl⟩

theorem Inv.step {st st' : Arrivals} {e : ArrivalsEvent} (hi : st.Inv)
    (h : Arrivals.step st e = some st') : st'.Inv := by
  replace h := move_of_step h
  cases e with
  | arrive i more =>
      obtain ⟨-, heq⟩ := Option.ite_none_right_eq_some.mp h
      cases heq
      exact ⟨hi.sound, hi.carries⟩
  | loop e =>
      obtain ⟨-, hmap⟩ := Option.ite_none_right_eq_some.mp h
      obtain ⟨server, hserver, rfl⟩ := Option.map_eq_some_iff.mp hmap
      exact ⟨hi.sound.step hserver, hi.carries.step hi.sound hserver⟩
  | read malloc turns =>
      obtain ⟨c, i, taken, -, -, -, hserver, -⟩ := move_read h
      have hsound := Sound.supply hi.sound i taken.results
      have hcarries : (st.server.supply i taken.results).Carries := hi.carries
      exact ⟨hsound.step hserver, hcarries.step hsound hserver⟩
  | stall malloc turns =>
      obtain ⟨-, -, -, -, -, -, -, hserver, -⟩ := move_stall h
      exact ⟨hserver ▸ hi.sound, hserver ▸ hi.carries⟩

/-- **When a step waits**: a call of `creadline_r` that meets the condition does not,
and returns; and an undisturbed one that does not wait meets it. -/
theorem Inv.waits {st st' : Arrivals} {e : ArrivalsEvent} (hi : st.Inv)
    (h : Arrivals.step st e = some st') (hnone : st.waits = []) :
    (st.Finished e → st'.waits = []) ∧ (e.Undisturbed → st'.waits = [] → st.Finished e) := by
  replace h := move_of_step h
  cases e with
  | arrive i more =>
      obtain ⟨-, heq⟩ := Option.ite_none_right_eq_some.mp h
      cases heq
      exact ⟨fun _ => hnone, fun _ _ => trivial⟩
  | loop e =>
      obtain ⟨-, hmap⟩ := Option.ite_none_right_eq_some.mp h
      obtain ⟨server, -, rfl⟩ := Option.map_eq_some_iff.mp hmap
      exact ⟨fun _ => hnone, fun _ _ => trivial⟩
  | read malloc turns =>
      obtain ⟨c, i, taken, hreading, htaken, hreads, -, hwaits⟩ := move_read h
      have hM : (env malloc).maxLinebufSize = (64 * 1024 * 1024 : Nat) := rfl
      have hbuf := hi.carries c (mem_of_reading hreading)
      obtain ⟨henough, hneeded⟩ := creadlineTrace_waits hM hbuf htaken hreads
      rw [hnone] at hwaits
      simp only [Finished, hreading]
      refine ⟨fun hsuffices => ?_, fun hquiet hnot => hneeded hquiet.1 hquiet.2 ?_⟩
      · rw [hwaits, henough hsuffices]
        rfl
      · by_contra hwaited
        rw [hwaits, if_pos (by simpa using hwaited)] at hnot
        cases hnot
  | stall malloc turns =>
      obtain ⟨c, i, taken, hreading, htaken, hreads, hempty, -, hwaits⟩ := move_stall h
      have hM : (env malloc).maxLinebufSize = (64 * 1024 * 1024 : Nat) := rfl
      have hbuf := hi.carries c (mem_of_reading hreading)
      have hneeds := creadlineTrace_stalls hM hbuf htaken hreads hempty
      simp only [Finished, hreading]
      refine ⟨fun hsuffices => absurd hsuffices hneeds, fun _ hnot => ?_⟩
      rw [hwaits] at hnot
      exact absurd hnot (by simp)

/-! ## Runs -/

theorem inv_start (ctx : JapiContext) (serverSocket : Int) : (start ctx serverSocket).Inv :=
  ⟨sound_start ctx serverSocket, fun _ hc => by cases hc⟩

theorem waits_of_step {st st' : Arrivals} {e : ArrivalsEvent} (hnone : st'.waits = [])
    (h : step st e = some st') : st.waits = [] := by
  replace h := move_of_step h
  cases e with
  | arrive i more =>
      obtain ⟨-, heq⟩ := Option.ite_none_right_eq_some.mp h
      cases heq
      exact hnone
  | loop e =>
      obtain ⟨-, hmap⟩ := Option.ite_none_right_eq_some.mp h
      obtain ⟨server, -, rfl⟩ := Option.map_eq_some_iff.mp hmap
      exact hnone
  | read malloc turns =>
      obtain ⟨c, i, taken, -, -, -, -, hwaits⟩ := move_read h
      rw [hwaits] at hnone
      split at hnone
      · exact absurd hnone (by simp)
      · exact hnone
  | stall malloc turns =>
      obtain ⟨c, i, taken, -, -, -, -, -, hwaits⟩ := move_stall h
      rw [hwaits] at hnone
      exact absurd hnone (by simp)

/-- **The thread never waits in `creadline_r`** in a run whose calls find enough to
read; and it does in every other run in which nothing arrives during a call and the
allocator grants what is asked for. -/
theorem run_neverWaits {ctx : JapiContext} {serverSocket : Int} {es : List ArrivalsEvent}
    {st : Arrivals} (hrun : run step (start ctx serverSocket) es = some st) :
    (Meets step Finished (start ctx serverSocket) es → st.waits = []) ∧
      ((∀ e ∈ es, e.Undisturbed) →
        (st.waits = [] ↔ Meets step Finished (start ctx serverSocket) es)) := by
  have hinv : (start ctx serverSocket).Inv ∧ (start ctx serverSocket).waits = [] :=
    ⟨inv_start ctx serverSocket, rfl⟩
  have hstep : ∀ {s e s'}, Inv s ∧ s.waits = [] → Finished s e → Arrivals.step s e = some s' →
      Inv s' ∧ s'.waits = [] :=
    fun hi hcond h => ⟨hi.1.step h, (hi.1.waits h hi.2).1 hcond⟩
  have hnever := fun hmeets => (run_invariant_of_meets Finished hstep hinv hmeets hrun).2
  refine ⟨hnever, fun hquiet => ⟨fun hnone => ?_, hnever⟩⟩
  have hgood := @run_good_iff_of_meets _ _ step (fun _ e => ArrivalsEvent.Undisturbed e) Finished
    (fun s => Inv s ∧ s.waits = []) (fun s => s.waits = []) (fun hi => hi.2)
    (fun hi _ hcond h => hstep hi hcond h) (fun hi hun h hw => (hi.1.waits h hi.2).2 hun hw) _ _ _
    hinv (meets_of_forall fun e he => hquiet e he) hrun
  refine hgood.mp fun es₁ es₂ s₁ hes hrun₁ => ?_
  -- the thread has not waited at the end, so it had not at any time before
  rw [hes] at hrun
  obtain ⟨s₁', hrun₁', hrun₂⟩ := run_append.mp hrun
  obtain rfl : s₁ = s₁' := Option.some.inj (hrun₁.symm.trans hrun₁')
  exact run_invariant_back (fun hnone h => waits_of_step hnone h) hnone hrun₂

/-- A client and, behind it, a newer one are connected; the older one sends `"b\n"`,
the newer one `sent`.  Both are reported, and then `more` of the newer one arrives.  It
is read from, and its request is processed. -/
def twoClients (sent more : List Byte) : List ArrivalsEvent :=
  [.loop (.select (.ready [] true)), .loop .visit, .loop (.accept 5 [] (some 0)),
    .loop (.select (.ready [] true)), .loop .visit, .loop .visit, .loop (.accept 6 [] (some 1)),
    .arrive 0 ⟨[98, 10], none⟩, .arrive 1 ⟨sent, none⟩,
    .loop (.select (.ready [5, 6] false)), .loop .visit, .arrive 1 ⟨more, none⟩]

/-- A `read()` before which nothing arrives, and in which `during` does. -/
def waitFor (during : List Byte) : ReadTurn := ⟨.empty, ⟨during, none⟩, false⟩

/-- The newer one has sent `"a\n"`: both are served. -/
theorem run_neverWaits_lines :
    ∃ st, run step (start ⟨0, 0, [], [], [], false, false, true⟩ 3)
        (twoClients [97, 10] [] ++ [.read (fun _ => true) [waitFor []], .loop (.process none),
          .loop .visit, .read (fun _ => true) [waitFor []]]) = some st ∧ st.waits = [] := by
  have hmeets : Meets step Finished (start ⟨0, 0, [], [], [], false, false, true⟩ 3)
      (twoClients [97, 10] [] ++ [.read (fun _ => true) [waitFor []], .loop (.process none),
        .loop .visit, .read (fun _ => true) [waitFor []]]) := by decide +kernel
  have hsome : (run step (start ⟨0, 0, [], [], [], false, false, true⟩ 3)
      (twoClients [97, 10] [] ++ [.read (fun _ => true) [waitFor []], .loop (.process none),
        .loop .visit, .read (fun _ => true) [waitFor []]])).isSome = true := by decide +kernel
  obtain ⟨st, hrun⟩ := Option.isSome_iff_exists.mp hsome
  exact ⟨st, hrun, (run_neverWaits hrun).1 hmeets⟩

/-- The newer one has sent `"a"`, and no newline comes: the thread stays in the
`read()` for it, with the line of the other one in its queue.  It waits as well, after
the request `a`, where `"a\n"` was there and a `"b"` comes before it is read. -/
theorem partialLine_waits :
    (∃ st, run step (start ⟨0, 0, [], [], [], false, false, true⟩ 3)
        (twoClients [97] [] ++ [.stall (fun _ => true) [waitFor []]]) = some st ∧
      st.waits = [1] ∧ (st.queueOf 5).bytes = [98, 10]) ∧
    ∃ st, run step (start ⟨0, 0, [], [], [], false, false, true⟩ 3)
        (twoClients [97, 10] [98] ++ [.read (fun _ => true) [waitFor []], .loop (.process none),
          .read (fun _ => true) [waitFor [10]]]) = some st ∧
      st.waits = [1] ∧ (st.queueOf 5).bytes = [98, 10] := by
  have hrun : ∀ {es : List ArrivalsEvent},
      (run step (start ⟨0, 0, [], [], [], false, false, true⟩ 3) es).map
        (fun st => (st.waits, (st.queueOf 5).bytes)) = some ([1], [98, 10]) →
      ∃ st, run step (start ⟨0, 0, [], [], [], false, false, true⟩ 3) es = some st ∧
        st.waits = [1] ∧ (st.queueOf 5).bytes = [98, 10] := by
    intro es h
    obtain ⟨st, hst, heq⟩ := Option.map_eq_some_iff.mp h
    exact ⟨st, hst, congrArg Prod.fst heq, congrArg Prod.snd heq⟩
  exact ⟨hrun (by decide +kernel), hrun (by decide +kernel)⟩

end Arrivals

end Libjapi
