/-
# `Libjapi.SendWalk` — `japi_pushsrv_sendmsg` on the nodes of the list

One thread, on the list in memory: the walk keeps `following_client`, and
`japi_pushsrv_remove_client` unlinks and frees the first node with the socket,
which is the current node or one that the walk has passed.

    the unlink loop removes the first node with the socket     `removeLoop_spec`
    the walk is the loop over the sockets of `Libjapi.PushService`
                                                                `sendWalk_spec`
    every entry is attempted once, in order and with the same bytes, and the
    sockets that stay are those whose attempt succeeded, exactly if there is
    memory for the message, or nobody to send it to    `sendmsgNodes_attempts_iff`

Without the memory `japi_get_jobj_as_ndstr` gives NULL, which the call does not test
for: `strlen(NULL)` is the first thing it does for a client.  An access to a node that
was freed, or through NULL, gives `none`, so a call that gives a result has visited
no node it removed.  The loops have a bound on their turns; any bound beyond the
length of the list will do.
-/
import Libjapi.Answers
import Libjapi.PushThreads

namespace Libjapi

open CStr (lit)
open HeapList

/-! ## The code -/

/-- `free`; `none` if there is no node. -/
def ListMem.free (m : ListMem) (a : Addr) : Option ListMem :=
  (m.cells a).map fun _ => { m with cells := Function.update m.cells a none }

/-- The loop of `japi_pushsrv_remove_client`: the list and the return value. -/
def removeLoop (socket : Int) : Nat → ListMem → Option Addr → Option Addr → Option (ListMem × Int)
  | 0, _, _, _ => none
  | _ + 1, m, _, none => some (m, -1)
  | turns + 1, m, prev, some client =>
      (m.cells client).bind fun c =>
        if c.val = socket ∧ prev = none then -- "If first element"
          (ListMem.free { m with head := c.next } client).map (·, 0)
        else if c.val = socket ∧ c.next = none then -- "If last element"
          ((m.setNext prev none).bind (ListMem.free · client)).map (·, 0)
        else if c.val = socket then
          ((m.setNext prev c.next).bind (ListMem.free · client)).map (·, 0)
        else removeLoop socket turns m (some client) c.next

/-- `japi_pushsrv_remove_client`. -/
def removeNode (turns : Nat) (socket : Int) (m : ListMem) : Option (ListMem × Int) :=
  removeLoop socket turns m none m.head

/-- A call of `write_n`: the node it is for, the socket and the bytes. -/
structure Attempt where
  node : Addr
  socket : Int
  bytes : List Byte
  deriving DecidableEq

/-- What a walk leaves behind. -/
structure Walk where
  mem : ListMem
  success : Int
  attempts : List Attempt

/-- The loop of `japi_pushsrv_sendmsg`, from the `k`-th attempt on. -/
def sendWalk (writeN : Nat → Int) (msg : CStr) (bound : Nat) :
    Nat → Nat → ListMem → Option Addr → Option Walk
  | 0, _, _, _ => none
  | _ + 1, _, m, none => some ⟨m, 0, []⟩
  | turns + 1, k, m, some client =>
      (m.cells client).bind fun c =>
        if writeN k ≤ 0 then
          (removeNode bound c.val m).bind fun r =>
            (sendWalk writeN msg bound turns (k + 1) r.1 c.next).map fun w =>
              ⟨w.mem, w.success, ⟨client, c.val, msg.bytes⟩ :: w.attempts⟩
        else
          (sendWalk writeN msg bound turns (k + 1) m c.next).map fun w =>
            ⟨w.mem, w.success + 1, ⟨client, c.val, msg.bytes⟩ :: w.attempts⟩

/-- The message of `japi_pushsrv_sendmsg`, `NULL` if it cannot be allocated. -/
def pushMessage (J : JsonC) (malloc : Bool) (h : JHeap) (pushsrvName : CStr) (jmsgData : JPtr) :
    Except Abort (Option CStr × JHeap) := do
  let jmsg := (h.alloc (.object [])).1
  let h := (h.alloc (.object [])).2
  let h ← h.objectAddNew jmsg (lit "japi_pushsrv") (.string pushsrvName.bytes)
  let h ← (h.get jmsgData).objectAdd jmsg (lit "data") jmsgData
  return (japiGetJobjAsNdstr J malloc h jmsg, h.put jmsg)

/-- `japi_pushsrv_sendmsg` on a list in memory.  `strlen(NULL)` is `none`. -/
def sendmsgNodes (J : JsonC) (malloc : Bool) (writeN : Nat → Int) (bound : Nat) (h : JHeap)
    (pushsrvName : CStr) (m : ListMem) (jmsgData : JPtr) : Option Walk :=
  if jmsgData = none then some ⟨m, -1, []⟩
  else if m.head = none then some ⟨m, 0, []⟩
  else
    match pushMessage J malloc h pushsrvName jmsgData with
    | .ok (some msg, _) => sendWalk writeN msg bound bound 0 m m.head
    | _ => none

/-! ## Removing a node -/

/-- The list without the first node that has the socket. -/
def eraseSocket (socket : Int) (l : List (Addr × Int)) : List (Addr × Int) :=
  l.eraseP fun e => e.2 = socket

theorem map_eraseSocket (socket : Int) (l : List (Addr × Int)) :
    (eraseSocket socket l).map Prod.snd = (l.map Prod.snd).erase socket := by
  induction l with
  | nil => rfl
  | cons e l ih =>
      by_cases he : e.2 = socket
      · simp [eraseSocket, he]
      · have hne : ¬ (e.2 == socket) = true := by simpa using he
        rw [List.map_cons, List.erase_cons_tail hne, ← ih]
        simp [eraseSocket, he]

theorem eraseSocket_head (client : Addr) (socket : Int) (l : List (Addr × Int)) :
    eraseSocket socket ((client, socket) :: l) = l := by
  rw [eraseSocket, List.eraseP_cons_of_pos]
  simp

theorem eraseSocket_append {socket : Int} {pre post : List (Addr × Int)}
    (hpre : ∀ e ∈ pre, e.2 ≠ socket) (client : Addr) :
    eraseSocket socket (pre ++ (client, socket) :: post) = pre ++ post := by
  rw [eraseSocket, List.eraseP_append_right _ (by simpa using hpre)]
  exact congrArg (pre ++ ·) (eraseSocket_head client socket post)

/-- The first node with the socket is unlinked and freed, and no node outside the list
is written. -/
structure Erased (m m' : ListMem) (l : List (Addr × Int)) (socket : Int) : Prop where
  path : Path m'.cells m'.head (eraseSocket socket l)
  freed : ∀ a ∈ addrs l, a ∉ addrs (eraseSocket socket l) → m'.cells a = none
  frame : ∀ a, a ∉ addrs l → m'.cells a = m.cells a

theorem Erased.free {m : ListMem} {l pre post : List (Addr × Int)} {client : Addr} {socket : Int}
    (hnodup : (addrs l).Nodup) (hl : l = pre ++ (client, socket) :: post)
    (hpre : ∀ e ∈ pre, e.2 ≠ socket) (m₁ : ListMem) (hpath : Path m₁.cells m₁.head (pre ++ post))
    (hframe : ∀ a, a ∉ addrs l → m₁.cells a = m.cells a) (hcell : (m₁.cells client).isSome) :
    ∃ m', m₁.free client = some m' ∧ Erased m m' l socket := by
  obtain ⟨c, hc⟩ := Option.isSome_iff_exists.mp hcell
  have herase : eraseSocket socket l = pre ++ post := by rw [hl, eraseSocket_append hpre]
  have hnot : client ∉ addrs (pre ++ post) := not_mem_of_nodup (hl ▸ hnodup)
  have hclient : client ∈ addrs l := mem_addrs.mpr ⟨socket, by simp [hl]⟩
  refine ⟨{ m₁ with cells := Function.update m₁.cells client none }, ?_, ?_, ?_, ?_⟩
  · simp only [ListMem.free, hc, Option.map_some]
  · rw [herase]
    exact hpath.update hnot none
  · intro a ha hgone
    rw [herase] at hgone
    have heq : a = client := by
      rw [hl] at ha
      simp only [addrs, List.map_append, List.map_cons, List.mem_append, List.mem_cons,
        not_or] at ha hgone
      rcases ha with ha | ha | ha
      · exact absurd ha hgone.1
      · exact ha
      · exact absurd ha hgone.2
    rw [heq]
    exact Function.update_self _ _ _
  · intro a ha
    refine (Function.update_of_ne ?_ _ _).trans (hframe a ha)
    rintro rfl
    exact ha hclient

/-- **The unlink loop** at a node: no node in front has the socket. -/
theorem removeLoop_spec {m : ListMem} {l : List (Addr × Int)} (hpath : Path m.cells m.head l)
    (socket : Int) {turns : Nat} {pre post : List (Addr × Int)} (hl : l = pre ++ post)
    (hpre : ∀ e ∈ pre, e.2 ≠ socket) (hturns : post.length < turns) :
    if ∃ e ∈ post, e.2 = socket then
      ∃ m', removeLoop socket turns m (lastAddr pre) (headAddr post) = some (m', 0) ∧
        Erased m m' l socket
    else removeLoop socket turns m (lastAddr pre) (headAddr post) = some (m, -1) := by
  induction post generalizing pre turns with
  | nil =>
      obtain ⟨turns, rfl⟩ := Nat.exists_eq_add_of_lt hturns
      simp [headAddr, removeLoop]
  | cons e post ih =>
      obtain ⟨client, val⟩ := e
      obtain ⟨turns, rfl⟩ := Nat.exists_eq_add_one_of_ne_zero (Nat.ne_zero_of_lt hturns)
      have hcell : m.cells client = some ⟨val, headAddr post⟩ := by
        rw [hl] at hpath
        exact hpath.cell
      have hhead : headAddr ((client, val) :: post) = some client := rfl
      by_cases hval : val = socket
      · subst hval
        rw [if_pos ⟨(client, val), List.mem_cons_self, rfl⟩]
        cases pre using List.reverseRecOn with
        | nil =>
            have hrest : Path m.cells (headAddr post) ([] ++ post) := by
              subst hl
              exact hpath.unlink_head
            obtain ⟨m', hfree, hun⟩ := Erased.free (m := m) hpath.nodup hl hpre
              { m with head := headAddr post } hrest (fun _ _ => rfl) (hcell ▸ rfl)
            refine ⟨m', ?_, hun⟩
            simp only [removeLoop, hhead, hcell, Option.bind_some, lastAddr, List.getLast?_nil,
              Option.map_none, and_self, if_true, hfree, Option.map_some]
        | append_singleton pre e =>
            -- the last node and an inner node are unlinked by the same write
            obtain ⟨b, w⟩ := e
            have hl' : l = pre ++ (b, w) :: (client, val) :: post := by simp [hl]
            have hnodup := hpath.nodup
            rw [hl'] at hpath
            have hb : m.cells b = some ⟨w, some client⟩ := hpath.cell
            have hne : client ≠ b := hpath.addr_ne (by simp [addrs])
            have hset : m.setNext (some b) (headAddr post) =
                some { m with cells := Function.update m.cells b (some ⟨w, headAddr post⟩) } := by
              simp only [ListMem.setNext, Option.bind_some, hb, Option.map_some]
            have hun₁ : Path (Function.update m.cells b (some ⟨w, headAddr post⟩)) m.head
                ((pre ++ [(b, w)]) ++ post) := by
              rw [List.append_assoc]
              exact hpath.unlink
            obtain ⟨m', hfree, hun⟩ := Erased.free (m := m) hnodup hl hpre
              { m with cells := Function.update m.cells b (some ⟨w, headAddr post⟩) } hun₁
              (fun a ha => Function.update_of_ne (by rintro rfl; exact ha (by simp [hl', addrs])) _ _)
              (by simp [Function.update_of_ne hne, hcell])
            refine ⟨m', ?_, hun⟩
            have hwrite : (if headAddr post = none then
                ((m.setNext (some b) none).bind (ListMem.free · client)).map (·, (0 : Int))
              else ((m.setNext (some b) (headAddr post)).bind (ListMem.free · client)).map
                (·, 0)) = some (m', 0) := by
              split
              · rename_i hnone
                rw [hnone] at hset hfree
                simp only [hset, Option.bind_some, hfree, Option.map_some]
              · simp only [hset, Option.bind_some, hfree, Option.map_some]
            simp only [removeLoop, hhead, hcell, Option.bind_some, lastAddr_concat, reduceCtorEq,
              and_false, if_false, true_and, if_true]
            exact hwrite
      · have hstep : removeLoop socket (turns + 1) m (lastAddr pre)
            (headAddr ((client, val) :: post)) =
              removeLoop socket turns m (some client) (headAddr post) := by
          simp only [removeLoop, hhead, hcell, Option.bind_some, hval, false_and, if_false]
        have hl' : l = (pre ++ [(client, val)]) ++ post := by simp [hl]
        have hrest := ih hl' ?_ (Nat.lt_of_succ_lt_succ hturns)
        · have hexists : (∃ e ∈ (client, val) :: post, e.2 = socket) ↔
              ∃ e ∈ post, e.2 = socket := by simp [hval]
          rw [lastAddr_concat] at hrest
          simp only [hstep, hexists]
          exact hrest
        · intro e he
          rcases List.mem_append.mp he with he | he
          · exact hpre e he
          · rw [List.mem_singleton.mp he]
            exact hval

theorem removeNode_spec {m : ListMem} {l : List (Addr × Int)} (hpath : Path m.cells m.head l)
    (socket : Int) {turns : Nat} (hturns : l.length < turns) :
    if ∃ e ∈ l, e.2 = socket then
      ∃ m', removeNode turns socket m = some (m', 0) ∧ Erased m m' l socket
    else removeNode turns socket m = some (m, -1) := by
  have h := removeLoop_spec hpath socket (List.nil_append l).symm (by simp) hturns
  rw [← hpath.eq_headAddr] at h
  exact h

/-! ## The loop over the sockets -/

/-- The sockets whose attempt succeeded, from the `k`-th attempt on. -/
def succeeded (writeN : Nat → Int) : Nat → List Int → List Int
  | _, [] => []
  | k, client :: following =>
      if writeN k ≤ 0 then succeeded writeN (k + 1) following
      else client :: succeeded writeN (k + 1) following

theorem erase_middle (socket : Int) (pre post : List Int) :
    ∃ pre', (pre ++ socket :: post).erase socket = pre' ++ post ∧ pre'.Perm pre := by
  refine ⟨(pre ++ [socket]).erase socket, ?_, ?_⟩
  · rw [List.append_cons, List.erase_append_left post (by simp)]
  · have hperm : (pre ++ [socket]).Perm (socket :: pre) := List.perm_append_singleton socket pre
    have herase := hperm.erase socket
    rwa [List.erase_cons_head] at herase

/-- **The loop of `japi_pushsrv_sendmsg`** visits every entry once and leaves
those whose attempt succeeded; `pre` are the entries it has passed. -/
theorem sendLoop_spec (writeN : Nat → Int) :
    ∀ (k : Nat) (visit pre : List Int),
      (sendLoop writeN k visit (pre ++ visit)).1.Perm (pre ++ succeeded writeN k visit) ∧
        (sendLoop writeN k visit (pre ++ visit)).2.1 = (succeeded writeN k visit).length ∧
        (sendLoop writeN k visit (pre ++ visit)).2.2 = visit
  | _, [], pre => ⟨List.Perm.refl _, rfl, rfl⟩
  | k, client :: following, pre => by
      simp only [sendLoop, succeeded]
      split
      · obtain ⟨pre', herase, hperm⟩ := erase_middle client pre following
        obtain ⟨h₁, h₂, h₃⟩ := sendLoop_spec writeN (k + 1) following pre'
        rw [herase]
        exact ⟨h₁.trans (hperm.append_right _), h₂, by rw [h₃]⟩
      · obtain ⟨h₁, h₂, h₃⟩ := sendLoop_spec writeN (k + 1) following (pre ++ [client])
        rw [List.append_cons pre client following, h₂, h₃]
        refine ⟨?_, by simp, rfl⟩
        simpa using h₁

/-! ## The walk -/

/-- **The walk is the loop**: at a node of the list it finds the nodes that are
left, in order, and leaves a list with the sockets the loop leaves. -/
theorem sendWalk_spec (writeN : Nat → Int) (msg : CStr) {bound turns k : Nat} {m : ListMem}
    {l pre rest : List (Addr × Int)} (hpath : Path m.cells m.head l) (hl : l = pre ++ rest)
    (hbound : l.length < bound) (hturns : rest.length < turns) :
    ∃ w l', sendWalk writeN msg bound turns k m (headAddr rest) = some w ∧
      w.attempts = rest.map (fun e => ⟨e.1, e.2, msg.bytes⟩) ∧
      Path w.mem.cells w.mem.head l' ∧ l'.Sublist l ∧
      (l'.map Prod.snd, w.success, rest.map Prod.snd) =
        sendLoop writeN k (rest.map Prod.snd) (l.map Prod.snd) := by
  induction rest generalizing turns k m l pre with
  | nil =>
      obtain ⟨turns, rfl⟩ := Nat.exists_eq_add_one_of_ne_zero (Nat.ne_zero_of_lt hturns)
      exact ⟨⟨m, 0, []⟩, l, rfl, rfl, hpath, List.Sublist.refl l, rfl⟩
  | cons e rest ih =>
      obtain ⟨client, socket⟩ := e
      obtain ⟨turns, rfl⟩ := Nat.exists_eq_add_one_of_ne_zero (Nat.ne_zero_of_lt hturns)
      have hrest : rest.length < turns := by simpa using hturns
      have hcell : m.cells client = some ⟨socket, headAddr rest⟩ := by
        rw [hl] at hpath
        exact hpath.cell
      have hhead : headAddr ((client, socket) :: rest) = some client := rfl
      by_cases hfail : writeN k ≤ 0
      · -- the node unlinked is the current one or one that was passed
        have hspec := removeNode_spec hpath socket hbound
        rw [if_pos ⟨(client, socket), by simp [hl], rfl⟩] at hspec
        obtain ⟨m₁, hremove, hun⟩ := hspec
        have hpath₁ := hun.path
        have hsplit : eraseSocket socket l =
            eraseSocket socket (pre ++ [(client, socket)]) ++ rest := by
          rw [hl, List.append_cons]
          exact List.eraseP_append_left (a := (client, socket)) (by simp) rest (by simp)
        have hsub : (eraseSocket socket l).Sublist l := List.eraseP_sublist
        obtain ⟨w, l', hwalk, hattempts, hpath', hsub', hloop⟩ := ih (k := k + 1) hpath₁ hsplit
          (hsub.length_le.trans_lt hbound) hrest
        refine ⟨⟨w.mem, w.success, ⟨client, socket, msg.bytes⟩ :: w.attempts⟩, l', ?_, ?_, hpath',
          hsub'.trans hsub, ?_⟩
        · simp only [sendWalk, hhead, hcell, Option.bind_some, if_pos hfail, hremove, hwalk,
            Option.map_some]
        · rw [hattempts, List.map_cons]
        · rw [map_eraseSocket] at hloop
          simp only [List.map_cons, sendLoop, if_pos hfail, ← hloop]
      · have hsplit : l = (pre ++ [(client, socket)]) ++ rest := by simp [hl]
        obtain ⟨w, l', hwalk, hattempts, hpath', hsub', hloop⟩ := ih (k := k + 1)
          hpath hsplit hbound hrest
        refine ⟨⟨w.mem, w.success + 1, ⟨client, socket, msg.bytes⟩ :: w.attempts⟩, l', ?_, ?_,
          hpath', hsub', ?_⟩
        · simp only [sendWalk, hhead, hcell, Option.bind_some, if_neg hfail, hwalk,
            Option.map_some]
        · rw [hattempts, List.map_cons]
        · simp only [List.map_cons, sendLoop, if_neg hfail, ← hloop]

theorem pushMessage_ok (J : JsonC) (malloc : Bool) (h : JHeap) (pushsrvName : CStr)
    (jmsgData : JPtr) :
    ∃ msg h', pushMessage J malloc h pushsrvName jmsgData =
      .ok (if malloc then some msg else none, h') := by
  have hobj : (h.alloc (.object [])).2.typeOf (h.alloc (.object [])).1 = .object :=
    JHeap.typeOf_eq_object.mpr ⟨_, _, rfl, JHeap.node?_alloc h _⟩
  obtain ⟨h₁, hadd₁, hch₁, -⟩ := JHeap.objectAddNew_ok hobj (lit "japi_pushsrv")
    (.string pushsrvName.bytes)
  have hk := hch₁.types.trans (h₁.extends_get jmsgData).keepsTypes
  obtain ⟨h₂, hadd₂, -, -⟩ := JHeap.objectAdd_ok (hk.object hobj) (lit "data") jmsgData
  refine ⟨⟨(J.toJsonString (h₂.read (h.alloc (.object [])).1)).bytes ++ [nl], ?_⟩,
    h₂.put (h.alloc (.object [])).1, ?_⟩
  · simp [(J.toJsonString _).noNul, nl]
  · simp only [pushMessage, hadd₁, hadd₂, bind, Except.bind, pure, Except.pure]
    cases malloc <;> rfl

/-- What `japi_pushsrv_sendmsg` is to do with the entries `l`: attempt every one of them
once, in order and with the same bytes, return the number of attempts that succeeded, and
leave the sockets of these; on the services that is `japiPushsrvSendmsg`. -/
structure AttemptsAll (writeN : Nat → Int) (psc : JapiPushsrvContext) (l : List (Addr × Int))
    (msg : CStr) (w : Walk) : Prop where
  once : (addrs l).Nodup
  attempts : w.attempts = l.map fun e => ⟨e.1, e.2, msg.bytes⟩
  success : w.success = (succeeded writeN 0 (l.map Prod.snd)).length
  left : ∃ l', Path w.mem.cells w.mem.head l' ∧ l'.Sublist l ∧
    (l'.map Prod.snd).Perm (succeeded writeN 0 (l.map Prod.snd)) ∧
    japiPushsrvSendmsg writeN { psc with clients := l.map Prod.snd } =
      ({ psc with clients := l'.map Prod.snd }, w.success, l.map Prod.snd)

theorem sendWalk_attemptsAll (writeN : Nat → Int) (psc : JapiPushsrvContext) (msg : CStr)
    {bound : Nat} {m : ListMem} {l : List (Addr × Int)} (hpath : Path m.cells m.head l)
    (hbound : l.length < bound) :
    ∃ w, sendWalk writeN msg bound bound 0 m m.head = some w ∧
      AttemptsAll writeN psc l msg w := by
  obtain ⟨w, l', hwalk, hattempts, hpath', hsub, hloop⟩ := sendWalk_spec writeN msg (k := 0)
    hpath (List.nil_append l).symm hbound hbound
  obtain ⟨hperm, hsuccess, -⟩ := sendLoop_spec writeN 0 (l.map Prod.snd) []
  rw [List.nil_append, ← hloop] at hperm hsuccess
  rw [List.nil_append] at hperm
  rw [← hpath.eq_headAddr] at hwalk
  refine ⟨w, hwalk, hpath.nodup, hattempts, hsuccess, l', hpath', hsub, hperm, ?_⟩
  simp only [japiPushsrvSendmsg, ← hloop]

/-- **`japi_pushsrv_sendmsg` attempts every entry of the list once, in order and
with the same bytes**, returns the number of attempts that succeeded, and leaves
the sockets of these, **exactly if** there is memory for the message or the list is
empty. -/
theorem sendmsgNodes_attempts_iff {J : JsonC} {malloc : Bool} (writeN : Nat → Int) {bound : Nat}
    (h : JHeap) {m : ListMem} {l : List (Addr × Int)} {jmsgData : JPtr}
    (psc : JapiPushsrvContext) (hpath : Path m.cells m.head l) (hbound : l.length < bound)
    (hdata : jmsgData ≠ none) :
    (∃ w msg, sendmsgNodes J malloc writeN bound h psc.pushsrvName m jmsgData = some w ∧
        AttemptsAll writeN psc l msg w ∧
        (l ≠ [] → ∃ h', pushMessage J malloc h psc.pushsrvName jmsgData = .ok (some msg, h'))) ↔
      malloc = true ∨ l = [] := by
  obtain ⟨msg, h', hmsg⟩ := pushMessage_ok J malloc h psc.pushsrvName jmsgData
  obtain ⟨w, hwalk, hall⟩ := sendWalk_attemptsAll writeN psc msg hpath hbound
  rw [sendmsgNodes, if_neg hdata, hmsg]
  rw [hpath.eq_headAddr] at hwalk ⊢
  cases l with
  | nil =>
      -- the call returns before it makes a message
      obtain ⟨bound, rfl⟩ : ∃ n, bound = n + 1 := ⟨bound - 1, by omega⟩
      rw [if_pos (show headAddr ([] : List (Addr × Int)) = none from rfl)]
      exact iff_of_true ⟨w, msg, hwalk, hall, fun hne => absurd rfl hne⟩ (.inr rfl)
  | cons e l =>
      rw [if_neg (by simp [headAddr])]
      cases malloc with
      | true => exact iff_of_true ⟨w, msg, hwalk, hall, fun _ => ⟨h', rfl⟩⟩ (.inl rfl)
      | false =>
          refine iff_of_false ?_ (by simp)
          rintro ⟨w', msg', hsend, -⟩
          cases hsend

/-- Sockets 5, 6 and 5 again, from address 1 on. -/
def fiveTwice : ListMem where
  cells
    | 1 => some ⟨5, some 2⟩
    | 2 => some ⟨6, some 3⟩
    | 3 => some ⟨5, none⟩
    | _ => none
  head := some 1

theorem fiveTwice_path : Path fiveTwice.cells fiveTwice.head [(1, 5), (2, 6), (3, 5)] :=
  ⟨rfl, _, rfl, rfl, _, rfl, rfl, _, rfl, rfl⟩

/-- The attempt for the second entry of socket 5 fails, and its first one is unlinked. -/
theorem sendmsgNodes_attempts_iff_twice :
    ∃ w l', sendmsgNodes (JsonC.table []) true (fun k => if k = 2 then -1 else 1) 4
        ⟨[⟨.int 23, 1⟩]⟩ (lit "temperature") fiveTwice (some 0) = some w ∧
      w.attempts.map Attempt.socket = [5, 6, 5] ∧ w.success = 2 ∧
      Path w.mem.cells w.mem.head l' ∧ (l'.map Prod.snd).Perm [5, 6] := by
  have hmalloc : true = true ∨ [(1, 5), (2, 6), (3, 5)] = ([] : List (Addr × Int)) := .inl rfl
  obtain ⟨w, msg, hsend, hall, -⟩ := (sendmsgNodes_attempts_iff (J := JsonC.table [])
    (fun k => if k = 2 then -1 else 1) ⟨[⟨.int 23, 1⟩]⟩ ⟨1, lit "temperature", []⟩ fiveTwice_path
    (show 3 < 4 by decide) (show (some 0 : JPtr) ≠ none by simp)).mpr hmalloc
  obtain ⟨l', hpath', -, hperm, -⟩ := hall.left
  exact ⟨w, l', hsend, by rw [hall.attempts]; rfl, hall.success, hpath', hperm⟩

/-- Without memory for the message the first thing done for a client is `strlen(NULL)`. -/
theorem sendmsgNodes_noMemory :
    Path fiveTwice.cells fiveTwice.head [(1, 5), (2, 6), (3, 5)] ∧
      sendmsgNodes (JsonC.table []) false (fun _ => 1) 4 ⟨[⟨.int 23, 1⟩]⟩ (lit "temperature")
        fiveTwice (some 0) = none :=
  ⟨fiveTwice_path, rfl⟩

end Libjapi
