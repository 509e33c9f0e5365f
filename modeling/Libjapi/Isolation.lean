/-
# `Libjapi.Isolation` — a client changes its own subscriptions only

The handlers of subscriptions read the socket from the arguments of the request,
which the client wrote.  `japi_process_message` sets the member `socket` first,
for every name that can be dispatched to these handlers, so the number they read
is that of the client whose request it is:

    what is left of the subscriber lists without the entries of the socket is
    the same before and after a request                `japiProcessMessage_others`

for every registry that `japi_register_request` can build, every text and every
letter case of the name.
-/
import Libjapi.Subscriptions

namespace Libjapi

open CStr (lit)

/-! ## The entries of the others -/

/-- A service without the entries of the socket. -/
def withoutSocket (socket : Int) (psc : JapiPushsrvContext) : JapiPushsrvContext :=
  { psc with clients := psc.clients.filter (· ≠ socket) }

/-- The services are the same, in the same order, but for entries of the socket. -/
def OthersKept (socket : Int) (old new : List JapiPushsrvContext) : Prop :=
  new.map (withoutSocket socket) = old.map (withoutSocket socket)

theorem OthersKept.refl (socket : Int) (l : List JapiPushsrvContext) : OthersKept socket l l := rfl

theorem filter_erase_self (socket : Int) (l : List Int) :
    (l.erase socket).filter (· ≠ socket) = l.filter (· ≠ socket) := by
  induction l with
  | nil => rfl
  | cons s l ih =>
      by_cases hs : s = socket
      · simp [hs]
      · have hne : ¬ (s == socket) = true := by simpa using hs
        rw [List.erase_cons_tail hne, List.filter_cons, List.filter_cons, ih]

theorem withoutSocket_add (malloc : Bool) (psc : JapiPushsrvContext) (socket : Int) :
    withoutSocket socket (japiPushsrvAddClient malloc psc socket).1 = withoutSocket socket psc := by
  cases malloc with
  | false => rfl
  | true => simp [withoutSocket, japiPushsrvAddClient]

theorem withoutSocket_remove (psc : JapiPushsrvContext) (socket : Int) :
    withoutSocket socket (japiPushsrvRemoveClient psc socket).1 = withoutSocket socket psc := by
  rw [japiPushsrvRemoveClient_eq]
  simp only [withoutSocket, filter_erase_self]

theorem subscribeLoop_others (malloc : Bool) (name : CStr) (socket : Int) :
    ∀ l, OthersKept socket l (subscribeLoop malloc name socket l).1
  | [] => rfl
  | psc :: next => by
      simp only [subscribeLoop]
      split
      · exact congrArg (· :: _) (withoutSocket_add malloc psc socket)
      · exact congrArg (_ :: ·) (subscribeLoop_others malloc name socket next)

theorem unsubscribeLoop_others (name : CStr) (socket : Int) :
    ∀ l, OthersKept socket l (unsubscribeLoop name socket l).1
  | [] => rfl
  | psc :: next => by
      have hpsc := withoutSocket_remove psc socket
      have hnext := unsubscribeLoop_others name socket next
      simp only [unsubscribeLoop]
      split
      · split
        · exact congrArg (· :: _) hpsc
        · simp only [OthersKept, List.map_cons, hpsc]
          exact congrArg (_ :: ·) hnext
      · exact congrArg (_ :: ·) hnext

/-! ## A request -/

/-- The handlers of the user do not touch subscriptions. -/
def KeepsSubscriptions (P : Program) : Prop :=
  ∀ id ctx h jreq jresp,
    ((P.users id).run ctx h jreq jresp).1.pushServices = ctx.pushServices

theorem callHandler_others {P : Program} (hP : KeepsSubscriptions P) {malloc : Bool}
    {ctx : JapiContext} {h : JHeap} {jargs jrespData : JPtr}
    (hresp : h.typeOf jrespData = .object) {func : Handler} {served : Served}
    (hcall : callHandler P malloc ctx h jargs jrespData func = .ok served) {socket : Int}
    (hsocket : func.ReadsSocket → h.getInt P.json (h.getEx jargs (lit "socket")).join = socket) :
    OthersKept socket ctx.pushServices served.ctx.pushServices := by
  cases func with
  | japiPushsrvSubscribe =>
      obtain ⟨out, heq, -, ⟨hctx, -⟩ | ⟨service, _, _, -, hloop, -, -, hctx, -⟩⟩ :=
        japiPushsrvSubscribe_cases P.json malloc ctx jargs hresp
      · rw [callHandler, heq] at hcall
        cases hcall
        rw [hctx]
        exact OthersKept.refl _ _
      · rw [callHandler, heq] at hcall
        cases hcall
        rw [hsocket (.inl rfl)] at hloop
        have hlists := subscribeLoop_others malloc
          ((h.getString P.json (some service)).getD (lit "")) socket ctx.pushServices
        rw [hloop] at hlists
        rw [hctx]
        exact hlists
  | japiPushsrvUnsubscribe =>
      obtain ⟨out, heq, -, -, ⟨hctx, -⟩ | ⟨service, _, -, hloop, hctx, -⟩⟩ :=
        japiPushsrvUnsubscribe_cases P.json ctx jargs hresp
      · rw [callHandler, heq] at hcall
        cases hcall
        rw [hctx]
        exact OthersKept.refl _ _
      · rw [callHandler, heq] at hcall
        cases hcall
        rw [hsocket (.inr rfl)] at hloop
        have hlists := unsubscribeLoop_others
          ((h.getString P.json (some service)).getD (lit "")) socket ctx.pushServices
        rw [hloop] at hlists
        rw [hctx]
        exact hlists
  | user id =>
      cases hcall
      exact (congrArg (List.map (withoutSocket socket)) (hP id ctx h jargs jrespData))
  | _ =>
      obtain ⟨hctx, -⟩ := callHandler_sameCtx hresp (by simp) (by simp) (by simp) hcall
      rw [hctx]
      exact OthersKept.refl _ _

/-- **A request changes no entry of another client**, whatever its text: it is
answered, and the subscriber lists are as before but for entries of its socket. -/
theorem japiProcessMessage_others {P : Program} (hP : KeepsSubscriptions P) (mem : Mem)
    (stale : Option CStr) (calls : List (Option CStr × Option Nat)) {ctx : JapiContext}
    (hctx : ctx.requests =
      (registered (calls.map fun call => (call.1, call.2.map Handler.user))).requests)
    (h : JHeap) {request : CStr} {socket : Int} (hs : 0 ≤ socket) (hs' : socket < 2 ^ 31)
    (hargs : ¬ SocketWithoutArgs P.json request) :
    ∃ out, japiProcessMessage P mem stale ctx h request socket = .ok out ∧
      OthersKept socket ctx.pushServices out.ctx.pushServices := by
  have hreg : Registry ctx := by
    intro req hreq
    exact Subscriptions.registry_registered calls req (hctx ▸ hreq)
  obtain ⟨out, hout⟩ := japiProcessMessage_answered P mem stale h hs (registered_default hctx) hargs
  refine ⟨out, hout, ?_⟩
  rcases japiProcessMessage_ok hout with ⟨hsame, -⟩ |
    ⟨name, func, h', jargs, jrespData, served, hfunc, hresp, hsocket, hserved, hsame, -⟩
  · rw [hsame]
    exact OthersKept.refl _ _
  · rw [hsame]
    refine callHandler_others hP hresp hserved ?_
    intro hreads
    exact getInt_socket hs hs' (hsocket (hreg.needsSocket hreads hfunc))

/-- A client claims to be socket 5. -/
def claimText : CStr :=
  lit ("\x7b\"japi_request\":\"JAPI_PushSrv_Unsubscribe\"," ++
    "\"args\":\x7b\"service\":\"temperature\",\"socket\":5\x7d\x7d")

/-- What json-c makes of it. -/
def claimFive : JsonC :=
  .table [(claimText,
    .object [(lit "japi_request", .string (lit "JAPI_PushSrv_Unsubscribe").bytes),
      (lit "args", .object [(lit "service", .string (lit "temperature").bytes),
        (lit "socket", .int 5)])])]

/-- Both sockets are subscribed. -/
def bothSubscribed : JapiContext :=
  { registered [] with pushServices := [⟨1, lit "temperature", [6, 5]⟩] }

/-- The client of socket 6 sends it. -/
theorem japiProcessMessage_others_claim :
    ∃ out, japiProcessMessage (Program.idle claimFive) ⟨true, true⟩ none bothSubscribed ⟨[]⟩
        claimText 6 = .ok out ∧
      OthersKept 6 bothSubscribed.pushServices out.ctx.pushServices := by
  have hkeeps : KeepsSubscriptions (Program.idle claimFive) := fun _ _ _ _ _ => rfl
  have hctx : bothSubscribed.requests = (registered []).requests := rfl
  refine japiProcessMessage_others hkeeps ⟨true, true⟩ none [] hctx ⟨[]⟩ (by decide) (by decide) ?_
  rintro ⟨j, name, hparse, -, -, hno⟩
  have hj : claimFive.parse claimText = some _ := rfl
  rw [show (Program.idle claimFive).json = claimFive from rfl, hj] at hparse
  cases hparse
  exact hno (by decide +kernel)

end Libjapi
