/-
# `Libjapi.Unsubscriptions` — what a successful unsubscription promises

The machine of `Libjapi.Subscriptions` with a record of what its clients were
told: `quiet` holds a socket and a service name from the request to unsubscribe
that was answered with success on, until the client subscribes to that service
again or its socket is given to a new connection.  `written` holds whom the last
`japi_pushsrv_sendmsg` wrote to, with the name of its service.

    no service lists a client that is quiet for its name, and none
    writes to one, in every state of a run exactly if no request
    unsubscribes a socket that the services of the name list twice
                                                             `run_quiet_iff`

`japi_pushsrv_add_client` does not ask whether the socket is in the list already,
and one request takes one entry out.
-/
import Libjapi.Subscriptions
import Libjapi.HandlerCall

namespace Libjapi

open CStr (lit)

/-! ## Entries by name -/

/-- How often the services with the name list the socket. -/
def occurrences (name : CStr) (socket : Int) (services : List JapiPushsrvContext) : Nat :=
  (services.map fun psc =>
    if SameName name psc.pushsrvName then psc.clients.count socket else 0).sum

theorem occurrences_eq_zero {name : CStr} {socket : Int} {services : List JapiPushsrvContext} :
    occurrences name socket services = 0 ↔
      ∀ psc ∈ services, SameName name psc.pushsrvName → socket ∉ psc.clients := by
  simp only [occurrences, List.sum_eq_zero_iff_forall_eq_nat, List.forall_mem_map,
    ite_eq_right_iff, List.count_eq_zero]

theorem unsubscribeLoop_occurrences (name : CStr) (socket : Int) :
    ∀ l : List JapiPushsrvContext,
      ((unsubscribeLoop name socket l).2.2 = true →
        occurrences name socket (unsubscribeLoop name socket l).1 + 1 = occurrences name socket l) ∧
      ((unsubscribeLoop name socket l).2.2 = false → occurrences name socket l = 0)
  | [] => ⟨(nomatch ·), fun _ => rfl⟩
  | psc :: next => by
      obtain ⟨htrue, hfalse⟩ := unsubscribeLoop_occurrences name socket next
      simp only [unsubscribeLoop, japiPushsrvRemoveClient_eq, strcasecmp_eq_zero]
      by_cases hname : SameName name psc.pushsrvName
      · by_cases hmem : socket ∈ psc.clients
        · have hpos : 0 < psc.clients.count socket := List.count_pos_iff.mpr hmem
          simp only [if_pos hname, if_pos hmem, ge_iff_le, le_refl, if_true, forall_const,
            reduceCtorEq, false_implies, and_true, occurrences, List.map_cons, List.sum_cons,
            List.count_erase_self]
          omega
        · have hzero : psc.clients.count socket = 0 := List.count_eq_zero.mpr hmem
          have hneg : ¬ (0 : Int) ≤ -1 := by omega
          simp only [if_pos hname, if_neg hmem, ge_iff_le, if_neg hneg, occurrences,
            List.map_cons, List.sum_cons, List.erase_of_not_mem hmem, hzero, Nat.zero_add]
          exact ⟨htrue, hfalse⟩
      · simp only [if_neg hname, occurrences, List.map_cons, List.sum_cons, Nat.zero_add]
        exact ⟨htrue, hfalse⟩

/-- An entry is one that was there, in a service of the same name, or `new`. -/
def EntriesFrom (new : Int → CStr → Prop) (before after : List JapiPushsrvContext) : Prop :=
  ∀ psc ∈ after, ∀ s ∈ psc.clients,
    (∃ p ∈ before, p.pushsrvName = psc.pushsrvName ∧ s ∈ p.clients) ∨ new s psc.pushsrvName

theorem EntriesFrom.refl (new : Int → CStr → Prop) (l : List JapiPushsrvContext) :
    EntriesFrom new l l := fun psc hpsc _ hs => .inl ⟨psc, hpsc, rfl, hs⟩

theorem EntriesFrom.cons {new : Int → CStr → Prop} {before after : List JapiPushsrvContext}
    (h : EntriesFrom new before after) {p p' : JapiPushsrvContext}
    (hname : p.pushsrvName = p'.pushsrvName)
    (hp : ∀ s ∈ p'.clients, s ∈ p.clients ∨ new s p'.pushsrvName) :
    EntriesFrom new (p :: before) (p' :: after) := by
  intro psc hpsc s hs
  rcases List.mem_cons.mp hpsc with rfl | hpsc
  · exact (hp s hs).imp_left fun hold => ⟨p, List.mem_cons_self, hname, hold⟩
  · refine (h psc hpsc s hs).imp_left ?_
    rintro ⟨q, hq, hrest⟩
    exact ⟨q, List.mem_cons_of_mem _ hq, hrest⟩

theorem EntriesFrom.map {l : List JapiPushsrvContext} {f : JapiPushsrvContext → JapiPushsrvContext}
    (hname : ∀ psc, (f psc).pushsrvName = psc.pushsrvName)
    (hsub : ∀ psc, ∀ s ∈ (f psc).clients, s ∈ psc.clients) :
    EntriesFrom (fun _ _ => False) l (l.map f) := by
  intro psc hpsc s hs
  obtain ⟨p, hp, rfl⟩ := List.mem_map.mp hpsc
  exact .inl ⟨p, hp, (hname p).symm, hsub p s hs⟩

theorem subscribeLoop_entries (malloc : Bool) (name : CStr) (socket : Int) :
    ∀ l, EntriesFrom (fun s n => s = socket ∧ SameName n name) l
      (subscribeLoop malloc name socket l).1
  | [] => EntriesFrom.refl _ _
  | psc :: next => by
      simp only [subscribeLoop, strcasecmp_eq_zero]
      split
      · rename_i hname
        cases malloc with
        | false => exact EntriesFrom.refl _ _
        | true =>
            refine (EntriesFrom.refl _ next).cons rfl ?_
            intro s hs
            rcases List.mem_cons.mp hs with rfl | hs
            · exact .inr ⟨rfl, hname.symm⟩
            · exact .inl hs
      · exact (subscribeLoop_entries malloc name socket next).cons rfl fun s hs => .inl hs

theorem unsubscribeLoop_entries (name : CStr) (socket : Int) :
    ∀ l, EntriesFrom (fun _ _ => False) l (unsubscribeLoop name socket l).1
  | [] => EntriesFrom.refl _ _
  | psc :: next => by
      have hrest := unsubscribeLoop_entries name socket next
      have hname : psc.pushsrvName = (japiPushsrvRemoveClient psc socket).1.pushsrvName := by
        rw [japiPushsrvRemoveClient_eq]
      have hpsc : ∀ s ∈ (japiPushsrvRemoveClient psc socket).1.clients, s ∈ psc.clients ∨ False :=
        fun s hs => .inl (removed_subset psc socket s hs)
      simp only [unsubscribeLoop]
      split
      · split
        · exact (EntriesFrom.refl _ next).cons hname hpsc
        · exact hrest.cons hname hpsc
      · exact hrest.cons rfl fun s hs => .inl hs

/-! ## What a request was answered -/

/-- What stands under `success` in an answer. -/
def successOf (h : JHeap) (jresp : JPtr) : Bool :=
  match (h.getEx jresp (lit "success")).join.bind h.node? with
  | some (.boolean success) => success
  | _ => false

theorem Answers.successOf {h : JHeap} {jresp : JPtr} {success : Bool}
    (ha : Answers h jresp success) : successOf h jresp = success := by
  obtain ⟨r, hget, hn⟩ := ha
  simp only [Libjapi.successOf, hget, Option.join_some, Option.bind_some, hn]

/-- A request answered with success: its handler, and the service it names. -/
def granted (P : Program) (mem : Mem) (ctx : JapiContext) (h : JHeap) (socket : Int)
    (text : CStr) : Option (Handler × CStr) :=
  (handlerCall P mem ctx h text socket).bind fun c =>
    if successOf c.served.heap c.jrespData then
      ((P.json.parse text).bind (serviceNamed P.json)).map fun name => (c.func, name)
    else none

/-- The service a request for `japi_pushsrv_unsubscribe` names. -/
def askedToUnsubscribe (P : Program) (ctx : JapiContext) (text : CStr) : Option CStr :=
  (P.json.parse text).bind fun j =>
    (requestName j).bind fun name =>
      if dispatch ctx name = some .japiPushsrvUnsubscribe then serviceNamed P.json j else none

/-- The handlers of the user are `Tame` and subscribe no one. -/
structure SubscribesNone (P : Program) : Prop extends Tame P where
  entries : ∀ id ctx h jreq jresp, EntriesFrom (fun _ _ => False) ctx.pushServices
    ((P.users id).run ctx h jreq jresp).1.pushServices

/-- What a request was answered, and what that did to the lists. -/
inductive Answered (socket : Int) (asked : Option CStr) (before after : List JapiPushsrvContext) :
    Option (Handler × CStr) → Prop
  | other {answer} : (∀ func name, answer = some (func, name) → ¬ func.ReadsSocket) →
      EntriesFrom (fun _ _ => False) before after →
      (∀ name ∈ asked, occurrences name socket before = 0) →
      Answered socket asked before after answer
  | subscribed {name} : EntriesFrom (fun s n => s = socket ∧ SameName n name) before after →
      asked = none →
      Answered socket asked before after (some (.japiPushsrvSubscribe, name))
  | unsubscribed {name} : EntriesFrom (fun _ _ => False) before after →
      asked = some name →
      occurrences name socket after + 1 = occurrences name socket before →
      Answered socket asked before after (some (.japiPushsrvUnsubscribe, name))

theorem getString_some (J : JsonC) (h : JHeap) (r : Ref) : ∃ s, h.getString J (some r) = some s := by
  simp only [JHeap.getString]
  split <;> exact ⟨_, rfl⟩

theorem service_of_named {value : Option JPtr} {f : Ref → Option CStr} {service : CStr}
    (h : value.join.bind f = some service) : ∃ r, value = some (some r) := by
  obtain ⟨r, hr, -⟩ := Option.bind_eq_some_iff.mp h
  exact ⟨r, Option.join_eq_some_iff.mp hr⟩

theorem named_of_service {J : JsonC} {h : JHeap} {jargs : JPtr} {service : Ref}
    (hget : h.getEx jargs (lit "service") = some (some service)) :
    ((h.getEx jargs (lit "service")).join.bind fun s => h.getString J (some s)) =
      some ((h.getString J (some service)).getD (lit "")) := by
  obtain ⟨s, hs⟩ := getString_some J h service
  rw [hget, Option.join_some, Option.bind_some, hs]
  rfl

section Handlers

variable {J : JsonC} {ctx : JapiContext} {h : JHeap} {jargs jresp : JPtr} {served : Served}
  {socket : Int} {named : Option CStr} (hresp : h.typeOf jresp = .object)
  (hsocket : h.getInt J (h.getEx jargs (lit "socket")).join = socket)
  (hnamed : named = (h.getEx jargs (lit "service")).join.bind fun s => h.getString J (some s))

include hresp hsocket hnamed

theorem japiPushsrvSubscribe_answered {malloc : Bool}
    (hserved : japiPushsrvSubscribe J malloc ctx h jargs jresp = .ok served) :
    Answered socket none ctx.pushServices served.ctx.pushServices
      (if successOf served.heap jresp then named.map fun name => (.japiPushsrvSubscribe, name)
        else none) := by
  obtain ⟨out, heq, -, ⟨hsame, -, hfalse⟩ | ⟨service, _, _, hget, hloop, -, -, hctx, htrue⟩⟩ :=
    japiPushsrvSubscribe_cases J malloc ctx jargs hresp
  · rw [heq] at hserved
    cases hserved
    rw [hsame, hfalse.successOf]
    exact .other (fun _ _ h => by cases h) (EntriesFrom.refl _ _) (by simp)
  · rw [heq] at hserved
    cases hserved
    have hentries := subscribeLoop_entries malloc ((h.getString J (some service)).getD (lit ""))
      socket ctx.pushServices
    rw [hsocket] at hloop
    rw [hloop] at hentries
    rw [hctx, htrue.successOf, if_pos rfl, hnamed, named_of_service hget]
    exact .subscribed hentries rfl

theorem japiPushsrvUnsubscribe_answered (hsome : h.getEx jargs (lit "socket") ≠ none)
    (hs : 0 ≤ socket) (hserved : japiPushsrvUnsubscribe J ctx h jargs jresp = .ok served) :
    Answered socket named ctx.pushServices served.ctx.pushServices
      (if successOf served.heap jresp then named.map fun name => (.japiPushsrvUnsubscribe, name)
        else none) := by
  have hcount := fun service => unsubscribeLoop_occurrences service socket ctx.pushServices
  obtain ⟨out, heq, -, -, ⟨hsame, hfalse, hwhy⟩ | ⟨service, _, hget, hloop, hctx, htrue⟩⟩ :=
    japiPushsrvUnsubscribe_cases J ctx jargs hresp
  · rw [heq] at hserved
    cases hserved
    rw [hsame, hfalse.successOf]
    refine .other (fun _ _ h => by cases h) (EntriesFrom.refl _ _) ?_
    intro service hask
    obtain ⟨service', hget⟩ := service_of_named (hnamed ▸ hask)
    rw [hsocket] at hwhy
    rw [Option.some.inj (hask.symm.trans (hnamed.trans (named_of_service hget)))]
    exact (hcount _).2 (hwhy service' hget hsome hs)
  · rw [heq] at hserved
    cases hserved
    have hentries := unsubscribeLoop_entries ((h.getString J (some service)).getD (lit ""))
      socket ctx.pushServices
    rw [hsocket] at hloop
    have hone := (hcount _).1 (congrArg (·.2.2) hloop)
    rw [hloop] at hentries hone
    have hname := hnamed.trans (named_of_service hget)
    rw [hctx, htrue.successOf, if_pos rfl, hname]
    exact .unsubscribed hentries rfl hone

end Handlers

/-- **What a request did**: it subscribed its socket and was answered so, it took
one entry out and was answered so, or the lists only lost entries. -/
theorem japiProcessMessage_answeredBy {P : Program} (hP : SubscribesNone P) {mem : Mem}
    {stale : Option CStr} {ctx : JapiContext} (hreg : Registry ctx) {h : JHeap} {text : CStr}
    {socket : Int} (hs : 0 ≤ socket) (hs' : socket < 2 ^ 31) {out : Outcome}
    (hout : japiProcessMessage P mem stale ctx h text socket = .ok out) :
    Answered socket (askedToUnsubscribe P ctx text) ctx.pushServices out.ctx.pushServices
      (granted P mem ctx h socket text) := by
  rcases handlerCall_of_ok hout with ⟨hnamed, hcall, hctx⟩ |
    ⟨j, name, c, resp, respData, hparse, hname, hobj, hfunc, hcall, hserved, hgiven, hctx, -⟩
  · refine .other ?_ (hctx ▸ EntriesFrom.refl _ _) ?_
    · intro func name hgranted
      rw [granted, hcall] at hgranted
      cases hgranted
    · intro service hask
      obtain ⟨j, hparse, hask⟩ := Option.bind_eq_some_iff.mp hask
      obtain ⟨name, hname, -⟩ := Option.bind_eq_some_iff.mp hask
      rw [hparse, Option.bind_some, hname] at hnamed
      cases hnamed
  · have hdata : c.heap.typeOf c.jrespData = .object := hgiven.jrespData ▸ hgiven.data.typeOf
    have hasked : askedToUnsubscribe P ctx text =
        if c.func = .japiPushsrvUnsubscribe then serviceNamed P.json j else none := by
      simp only [askedToUnsubscribe, hparse, Option.bind_some, hname, hfunc, Option.some.injEq]
    have hgranted : granted P mem ctx h socket text =
        if successOf c.served.heap c.jrespData then
          (serviceNamed P.json j).map fun name => (c.func, name)
        else none := by
      simp only [granted, hcall, hparse, Option.bind_some]
    rw [hctx, hasked, hgranted]
    by_cases hsub : c.func = .japiPushsrvSubscribe
    · rw [hsub] at hserved hfunc ⊢
      have hneeds := hreg.needsSocket (.inl rfl) hfunc
      have hsocket := (hgiven.socket (J := P.json) hneeds (hobj hneeds) hs hs').2
      exact japiPushsrvSubscribe_answered hdata hsocket hgiven.service hserved
    by_cases hunsub : c.func = .japiPushsrvUnsubscribe
    · rw [hunsub] at hserved hfunc ⊢
      have hneeds := hreg.needsSocket (.inr rfl) hfunc
      obtain ⟨hsome, hsocket⟩ := hgiven.socket (J := P.json) hneeds (hobj hneeds) hs hs'
      rw [if_pos rfl]
      exact japiPushsrvUnsubscribe_answered hdata hsocket hgiven.service hsome hs hserved
    -- no other handler of the library touches the lists
    refine .other ?_ ?_ (by simp [hunsub])
    · intro func name' hanswer
      split at hanswer
      · obtain ⟨_, -, heq⟩ := Option.map_eq_some_iff.mp hanswer
        cases heq
        rintro (heq | heq)
        · exact hsub heq
        · exact hunsub heq
      · cases hanswer
    · by_cases huser : ∃ id, c.func = .user id
      · obtain ⟨id, hid⟩ := huser
        rw [hid] at hserved
        rw [← Except.ok.inj hserved]
        exact hP.entries id ctx c.heap c.jargs c.jrespData
      · rw [(callHandler_sameCtx hdata hsub hunsub (not_exists.mp huser) hserved).1]
        exact EntriesFrom.refl _ _

/-! ## The machine -/

/-- The server, with what its clients were told and whom it wrote to last. -/
structure Unsubscriptions where
  server : Subscriptions
  quiet : List (Int × CStr)
  written : List (Int × CStr)

namespace Unsubscriptions

/-- Before the first call. -/
def start (calls : List (Option CStr × Option Nat)) (maxClients : UInt16)
    (includeArgs : Bool) : Unsubscriptions :=
  ⟨Subscriptions.start calls maxClients includeArgs, [], []⟩

/-- A granted request starts a silence, or ends one. -/
def onGranted (quiet : List (Int × CStr)) (socket : Int) :
    Option (Handler × CStr) → List (Int × CStr)
  | some (.japiPushsrvUnsubscribe, service) => (socket, service) :: quiet
  | some (.japiPushsrvSubscribe, service) =>
      quiet.filter fun e => ¬ (e.1 = socket ∧ SameName e.2 service)
  | _ => quiet

/-- Who is quiet after a call: a new connection was told nothing. -/
def quietAfter (P : Program) (st : Unsubscriptions) : Call → List (Int × CStr)
  | .connect socket _ => st.quiet.filter fun e => e.1 ≠ socket
  | .request socket text mem _ =>
      onGranted st.quiet socket (granted P mem st.server.ctx st.server.heap socket text)
  | _ => st.quiet

/-- Whom a call writes messages of services to, with the name of the service. -/
def writtenBy (st : Unsubscriptions) : Call → List (Int × CStr)
  | .sendmsg psc writeN =>
      match st.server.ctx.pushServices.find? (·.addr = psc) with
      | some p => (japiPushsrvSendmsg writeN p).2.2.map fun s => (s, p.pushsrvName)
      | none => []
  | _ => []

/-- One call. -/
def step (P : Program) (st : Unsubscriptions) (call : Call) : Option Unsubscriptions :=
  (Subscriptions.step P st.server call).map fun server =>
    ⟨server, quietAfter P st call, writtenBy st call⟩

/-- No service lists a client that is quiet for its name, and none wrote to one. -/
structure Good (st : Unsubscriptions) : Prop where
  lists : ∀ e ∈ st.quiet, ∀ psc ∈ st.server.ctx.pushServices,
    SameName e.2 psc.pushsrvName → e.1 ∉ psc.clients
  written : ∀ e ∈ st.quiet, ∀ w ∈ st.written, SameName e.2 w.2 → e.1 ≠ w.1

/-- The condition on a call: a request to unsubscribe is one of a socket that the
services of the name list once at most. -/
def Single (P : Program) (st : Unsubscriptions) : Call → Prop
  | .request socket text _ _ => ∀ service ∈ askedToUnsubscribe P st.server.ctx text,
      occurrences service socket st.server.ctx.pushServices ≤ 1
  | _ => True

instance (P : Program) (st : Unsubscriptions) : (call : Call) → Decidable (st.Single P call)
  | .request socket text _ _ =>
      inferInstanceAs (Decidable (∀ service ∈ askedToUnsubscribe P st.server.ctx text,
        occurrences service socket st.server.ctx.pushServices ≤ 1))
  | .register _ _ => .isTrue trivial
  | .connect _ _ => .isTrue trivial
  | .sendmsg _ _ => .isTrue trivial
  | .disconnect _ => .isTrue trivial

/-- What carries `Good` along: the sockets of clients are descriptors, and the
built-in requests have the built-in handlers. -/
structure Inv (st : Unsubscriptions) : Prop extends Good st where
  fds : ∀ s ∈ st.server.ctx.sockets, 0 ≤ s ∧ s < 2 ^ 31
  registry : Registry st.server.ctx

theorem inv_start (calls : List (Option CStr × Option Nat)) (maxClients : UInt16)
    (includeArgs : Bool) : (start calls maxClients includeArgs).Inv := by
  have hi := Subscriptions.inv_start calls maxClients includeArgs
  exact ⟨⟨fun e he => absurd he List.not_mem_nil, fun e he => absurd he List.not_mem_nil⟩,
    hi.fds, hi.registry⟩

theorem Good.of_entries {quiet : List (Int × CStr)} {new : Int → CStr → Prop}
    {before after : List JapiPushsrvContext}
    (hg : ∀ e ∈ quiet, ∀ psc ∈ before, SameName e.2 psc.pushsrvName → e.1 ∉ psc.clients)
    (hentries : EntriesFrom new before after)
    (hnew : ∀ e ∈ quiet, ∀ n, SameName e.2 n → ¬ new e.1 n) :
    ∀ e ∈ quiet, ∀ psc ∈ after, SameName e.2 psc.pushsrvName → e.1 ∉ psc.clients := by
  intro e he psc hpsc hname hmem
  rcases hentries psc hpsc e.1 hmem with ⟨p, hp, heq, hold⟩ | h
  · exact hg e he p hp (heq ▸ hname) hold
  · exact hnew e he _ hname h

theorem onGranted_other {quiet : List (Int × CStr)} {socket : Int}
    {answer : Option (Handler × CStr)}
    (h : ∀ func name, answer = some (func, name) → ¬ func.ReadsSocket) :
    onGranted quiet socket answer = quiet := by
  unfold onGranted
  split
  · exact absurd (.inr rfl) (h _ _ rfl)
  · exact absurd (.inl rfl) (h _ _ rfl)
  · rfl

theorem Inv.request {P : Program} (hP : SubscribesNone P) {st : Unsubscriptions} (hi : st.Inv)
    {socket : Int} (hsocket : socket ∈ st.server.ctx.sockets) {text : CStr} {mem : Mem}
    {stale : Option CStr} (hsingle : st.Single P (.request socket text mem stale)) {out : Outcome}
    (hout : japiProcessMessage P mem stale st.server.ctx st.server.heap text socket = .ok out) :
    ∀ e ∈ quietAfter P st (.request socket text mem stale), ∀ psc ∈ out.ctx.pushServices,
      SameName e.2 psc.pushsrvName → e.1 ∉ psc.clients := by
  obtain ⟨hs, hs'⟩ := hi.fds socket hsocket
  have hanswered := japiProcessMessage_answeredBy hP hi.registry hs hs' hout
  simp only [quietAfter]
  generalize granted P mem st.server.ctx st.server.heap socket text = answer at hanswered
  cases hanswered with
  | other hother hentries =>
      rw [onGranted_other hother]
      exact Good.of_entries hi.lists hentries fun _ _ _ _ => not_false
  | subscribed hentries =>
      refine Good.of_entries (fun e he => hi.lists e (List.mem_filter.mp he).1) hentries ?_
      rintro e he n hname ⟨hsock, hservice⟩
      have hne := of_decide_eq_true (List.mem_filter.mp he).2
      exact hne ⟨hsock, hname.trans hservice⟩
  | @unsubscribed service hentries hasked hcount =>
      intro e he
      rcases List.mem_cons.mp he with rfl | he
      · -- the one entry there was is gone
        have hone : occurrences service socket st.server.ctx.pushServices ≤ 1 :=
          hsingle service hasked
        have hzero : occurrences service socket out.ctx.pushServices = 0 := by omega
        exact occurrences_eq_zero.mp hzero
      · exact Good.of_entries hi.lists hentries (fun _ _ _ _ => not_false) e he

theorem fds_step {P : Program} (hP : Tame P) {server server' : Subscriptions}
    (hfds : ∀ s ∈ server.ctx.sockets, 0 ≤ s ∧ s < 2 ^ 31) (hreg : Registry server.ctx) {call : Call}
    (h : Subscriptions.step P server call = some server') :
    (∀ s ∈ server'.ctx.sockets, 0 ≤ s ∧ s < 2 ^ 31) ∧ Registry server'.ctx := by
  cases Subscriptions.stepped h with
  | @register malloc pushsrvName hfresh =>
      rcases japiPushsrvRegister_cases malloc server.ctx pushsrvName with
        heq | ⟨_, _, -, -, -, -, heq⟩
      · simp only [heq]
        exact ⟨hfds, hreg⟩
      · simp only [heq]
        exact ⟨hfds, hreg⟩
  | @connect socket malloc hs hs' hfree =>
      simp only [Subscriptions.onConnect]
      split
      · obtain ⟨-, hrequests, hsockets⟩ := Subscriptions.japiAddClient_cases malloc server.ctx socket
        refine ⟨?_, fun req hreq => hreg req (hrequests ▸ hreq)⟩
        rcases hsockets with heq | heq
        · exact heq ▸ hfds
        · rw [heq]
          exact List.forall_mem_cons.mpr ⟨⟨hs, hs'⟩, hfds⟩
      · exact ⟨hfds, hreg⟩
  | @request socket text mem stale out hsocket hout =>
      obtain ⟨hs, hs'⟩ := hfds socket hsocket
      obtain ⟨hclients, hreg', -⟩ := japiProcessMessage_lists hP hreg hs hs' hout
      refine ⟨?_, hreg'⟩
      show ∀ s ∈ out.ctx.clients.map JapiClient.socket, _
      rw [hclients]
      exact hfds
  | sendmsg writeN hp => exact ⟨hfds, hreg⟩
  | @disconnect socket hs =>
      refine ⟨fun s hs => hfds s (Subscriptions.mem_sockets_removed.2 hs), ?_⟩
      rcases japiRemoveClient_cases server.ctx socket with ⟨_, _, _, -, -, -, heq⟩ | ⟨-, heq⟩
      · simp only [Subscriptions.onDisconnect, heq]
        exact hreg
      · simp only [Subscriptions.onDisconnect, heq]
        exact hreg

theorem entries_step {P : Program} {server server' : Subscriptions} {call : Call}
    (hno : ∀ socket text mem stale, call ≠ .request socket text mem stale)
    (h : Subscriptions.step P server call = some server') :
    EntriesFrom (fun _ _ => False) server.ctx.pushServices server'.ctx.pushServices := by
  cases Subscriptions.stepped h with
  | @register malloc pushsrvName hfresh =>
      rcases japiPushsrvRegister_cases malloc server.ctx pushsrvName with
        heq | ⟨_, _, -, -, -, -, heq⟩
      · simp only [heq]
        exact EntriesFrom.refl _ _
      · simp only [heq]
        intro psc hpsc s hs
        rcases List.mem_cons.mp hpsc with rfl | hold
        · cases hs
        · exact .inl ⟨psc, hold, rfl, hs⟩
  | @connect socket malloc hs hs' hfree =>
      simp only [Subscriptions.onConnect]
      split
      · rw [(Subscriptions.japiAddClient_cases malloc server.ctx socket).1]
        exact EntriesFrom.refl _ _
      · exact EntriesFrom.refl _ _
  | request hsocket hout => exact absurd rfl (hno _ _ _ _)
  | sendmsg writeN hp =>
      refine EntriesFrom.map ?_ ?_
      · intro q
        split <;> rfl
      · intro q s hs
        split at hs
        · exact (sendLoop_subset writeN 0 q.clients q.clients).1 s hs
        · exact hs
  | disconnect hs =>
      simp only [Subscriptions.onDisconnect, japiRemoveClient_pushServices]
      exact EntriesFrom.map (fun _ => rfl) fun q s hs => List.mem_of_mem_erase hs

theorem Good.writtenBy {st : Unsubscriptions} (hg : st.Good) (call : Call) :
    ∀ e ∈ st.quiet, ∀ w ∈ writtenBy st call, SameName e.2 w.2 → e.1 ≠ w.1 := by
  intro e he w hw hname
  cases call with
  | sendmsg psc writeN =>
      simp only [Unsubscriptions.writtenBy] at hw
      split at hw
      · rename_i p hp
        obtain ⟨s, hs, rfl⟩ := List.mem_map.mp hw
        rintro rfl
        exact hg.lists e he p (List.mem_of_find?_eq_some hp) hname
          ((sendLoop_subset writeN 0 p.clients p.clients).2 _ hs)
      · cases hw
  | _ => cases hw

theorem Inv.step {P : Program} (hP : SubscribesNone P) {st st' : Unsubscriptions} {call : Call}
    (hi : st.Inv) (hsingle : st.Single P call) (h : step P st call = some st') : st'.Inv := by
  obtain ⟨server, hserver, rfl⟩ := Option.map_eq_some_iff.mp h
  obtain ⟨hfds, hreg⟩ := fds_step hP.toTame hi.fds hi.registry hserver
  by_cases hrequest : ∃ socket text mem stale, call = .request socket text mem stale
  · obtain ⟨socket, text, mem, stale, rfl⟩ := hrequest
    cases Subscriptions.stepped hserver with
    | request hsocket hout =>
        exact ⟨⟨hi.request hP hsocket hsingle hout, fun _ _ w hw => nomatch hw⟩, hfds, hreg⟩
  · have hentries := entries_step (fun socket text mem stale heq =>
      hrequest ⟨socket, text, mem, stale, heq⟩) hserver
    -- no one becomes quiet by such a call
    have hsub : ∀ e ∈ quietAfter P st call, e ∈ st.quiet := by
      intro e he
      cases call with
      | connect socket malloc => exact (List.mem_filter.mp he).1
      | request socket text mem stale => exact absurd ⟨socket, text, mem, stale, rfl⟩ hrequest
      | _ => exact he
    refine ⟨⟨?_, fun e he => hi.toGood.writtenBy call e (hsub e he)⟩, hfds, hreg⟩
    exact Good.of_entries (fun e he => hi.lists e (hsub e he)) hentries fun _ _ _ _ => not_false

/-- A client told of success, which the services of the name listed twice, is
listed still. -/
theorem Good.single {P : Program} (hP : SubscribesNone P) {st st' : Unsubscriptions} {call : Call}
    (hi : st.Inv) (h : Unsubscriptions.step P st call = some st') (hg' : st'.Good) :
    st.Single P call := by
  obtain ⟨server, hserver, rfl⟩ := Option.map_eq_some_iff.mp h
  cases Subscriptions.stepped hserver with
  | @request socket text mem stale out hsocket hout =>
      intro service hask
      obtain ⟨hs, hs'⟩ := hi.fds socket hsocket
      have hanswered := japiProcessMessage_answeredBy hP hi.registry hs hs' hout
      have hlists := hg'.lists
      simp only [quietAfter] at hlists
      generalize granted P mem st.server.ctx st.server.heap socket text = answer
        at hanswered hlists
      cases hanswered with
      | other _ _ hzero => exact (hzero service hask).trans_le (Nat.zero_le 1)
      | subscribed _ hasked => exact nomatch hasked.symm.trans hask
      | @unsubscribed name _ hasked hcount =>
          obtain rfl : name = service := Option.some.inj (hasked.symm.trans hask)
          have hzero : occurrences name socket out.ctx.pushServices = 0 :=
            occurrences_eq_zero.mpr (hlists _ List.mem_cons_self)
          omega
  | _ => trivial

/-! ## Runs -/

/-- **Success means silence in every state of a run exactly if** no request
unsubscribes a socket that the services of the name list twice. -/
theorem run_quiet_iff {P : Program} (hP : SubscribesNone P)
    (calls : List (Option CStr × Option Nat)) (maxClients : UInt16) (includeArgs : Bool)
    {es : List Call} {st : Unsubscriptions}
    (hrun : run (step P) (start calls maxClients includeArgs) es = some st) :
    (∀ es₁ es₂ st₁, es = es₁ ++ es₂ →
        run (step P) (start calls maxClients includeArgs) es₁ = some st₁ → st₁.Good) ↔
      Meets (step P) (Single P) (start calls maxClients includeArgs) es := by
  exact run_good_iff Inv.toGood (fun hi hsingle h => Inv.step hP hi hsingle h)
    (fun hi h hg => Good.single hP hi h hg) (inv_start calls maxClients includeArgs) hrun

/-- The end of the subscription to `temperature`. -/
def unsubscribeText : CStr :=
  lit ("\x7b\"japi_request\":\"japi_pushsrv_unsubscribe\"," ++
    "\"args\":\x7b\"service\":\"temperature\"\x7d\x7d")

/-- A request about `temperature`. -/
def temperatureRequest (name : CStr) : Json :=
  .object [(lit "japi_request", .string name.bytes),
    (lit "args", .object [(lit "service", .string (lit "temperature").bytes)])]

/-- What json-c makes of both requests. -/
def temperatureJson : JsonC :=
  .table [(Subscriptions.subscribeText, temperatureRequest (lit "japi_pushsrv_subscribe")),
    (unsubscribeText, temperatureRequest (lit "japi_pushsrv_unsubscribe"))]

/-- The client of socket 5 subscribes, `n` times, and unsubscribes; then there is
a message. -/
def subscribeThenLeave (n : Nat) : List Call :=
  [.register (some 1) (some (lit "temperature")), .connect 5 (some 2)] ++
    List.replicate n (.request 5 Subscriptions.subscribeText ⟨true, true⟩ none) ++
    [.request 5 unsubscribeText ⟨true, true⟩ none, .sendmsg 1 fun _ => 1]

theorem subscribesNone_idle (J : JsonC) : SubscribesNone (Program.idle J) where
  toTame := Subscriptions.tame_idle J
  entries _ _ _ _ _ := EntriesFrom.refl _ _

theorem run_quiet_iff_once :
    ∃ st, run (step (Program.idle temperatureJson)) (start [] 0 false) (subscribeThenLeave 1)
        = some st ∧ st.quiet = [(5, lit "temperature")] ∧ st.Good := by
  have hrun : (run (step (Program.idle temperatureJson)) (start [] 0 false)
      (subscribeThenLeave 1)).map quiet = some [(5, lit "temperature")] := by
    decide +kernel
  obtain ⟨st, hst, hquiet⟩ := Option.map_eq_some_iff.mp hrun
  have hmeets : Meets (step (Program.idle temperatureJson)) (Single (Program.idle temperatureJson))
      (start [] 0 false) (subscribeThenLeave 1) := by
    decide +kernel
  exact ⟨st, hst, hquiet, (run_quiet_iff (subscribesNone_idle _) [] 0 false hst).mpr hmeets _ [] st
    (by simp) hst⟩

/-- After two subscriptions the client is told of success, and written to. -/
theorem subscribedTwice_written :
    ∃ st, run (step (Program.idle temperatureJson)) (start [] 0 false) (subscribeThenLeave 2)
        = some st ∧ st.quiet = [(5, lit "temperature")] ∧ st.written = [(5, lit "temperature")] ∧
      ∃ psc ∈ st.server.ctx.pushServices, psc.pushsrvName = lit "temperature" ∧
        5 ∈ psc.clients := by
  have hrun : (run (step (Program.idle temperatureJson)) (start [] 0 false)
      (subscribeThenLeave 2)).map (fun st => (st.quiet, st.written, st.server.ctx.pushServices))
        = some ([(5, lit "temperature")], [(5, lit "temperature")],
          [⟨1, lit "temperature", [5]⟩]) := by
    decide +kernel
  obtain ⟨st, hst, heq⟩ := Option.map_eq_some_iff.mp hrun
  simp only [Prod.mk.injEq] at heq
  obtain ⟨hquiet, hwritten, hlists⟩ := heq
  refine ⟨st, hst, hquiet, hwritten, ⟨1, lit "temperature", [5]⟩, ?_, rfl, List.mem_cons_self⟩
  rw [hlists]
  exact List.mem_cons_self

end Unsubscriptions

end Libjapi
