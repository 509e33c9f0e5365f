/-
# `Libjapi.Services` — the push services of a context, registered and destroyed

`ctx->push_services` grows at its head with `japi_pushsrv_register` and loses a
node with `japi_pushsrv_destroy`.  `pushsrv_isredundant` compares names with
`strcmp`, subscriptions look a service up with `strcasecmp`:

    the names differ under `strcasecmp` and a subscription by name reaches
    its service, in every state of a run exactly if no name is registered
    that is the name of a live service in other letters      `run_names_iff`

`japi_register_request` makes the same check with `strcasecmp`.
-/
import Libjapi.Runs
import Libjapi.ProcessMessage

namespace Libjapi

open CStr (lit)

/-! ## Unlinking a service -/

theorem unlinkService_sublist (psc : Addr) :
    ∀ l : List JapiPushsrvContext, (unlinkService psc l).Sublist l
  | [] => List.Sublist.refl _
  | p :: next => by
      simp only [unlinkService]
      split
      · exact List.sublist_cons_self p next
      · exact (unlinkService_sublist psc next).cons_cons p

/-! ## Subscribing by name -/

/-- The socket is added to the list of the service. -/
def addSubscriber (psc : Addr) (socket : Int) (p : JapiPushsrvContext) : JapiPushsrvContext :=
  if p.addr = psc then { p with clients := socket :: p.clients } else p

/-- No two services share a name up to letter case, nor an address. -/
structure NamesApart (l : List JapiPushsrvContext) : Prop where
  names : l.Pairwise fun p q => ¬ SameName p.pushsrvName q.pushsrvName
  addrs : (l.map JapiPushsrvContext.addr).Nodup

theorem NamesApart.sublist {l l' : List JapiPushsrvContext} (h : NamesApart l)
    (hsub : l'.Sublist l) : NamesApart l' :=
  ⟨h.names.sublist hsub, h.addrs.sublist (hsub.map _)⟩

theorem map_addSubscriber_of_ne {l : List JapiPushsrvContext} {psc : Addr}
    (h : ∀ p ∈ l, p.addr ≠ psc) (socket : Int) : l.map (addSubscriber psc socket) = l := by
  have hself : ∀ p ∈ l, addSubscriber psc socket p = id p := fun p hp => if_neg (h p hp)
  rw [List.map_congr_left hself, List.map_id]

theorem subscribeLoop_of_mem {l : List JapiPushsrvContext} (h : NamesApart l)
    {psc : JapiPushsrvContext} (hpsc : psc ∈ l) (socket : Int) :
    subscribeLoop true psc.pushsrvName socket l =
      (l.map (addSubscriber psc.addr socket), some (psc.addr, 0)) := by
  induction l with
  | nil => cases hpsc
  | cons p next ih =>
      have hnames := List.pairwise_cons.mp h.names
      have haddrs := List.nodup_cons.mp h.addrs
      rcases List.mem_cons.mp hpsc with rfl | hmem
      · have hnext : next.map (addSubscriber psc.addr socket) = next := by
          refine map_addSubscriber_of_ne ?_ socket
          intro q hq heq
          exact haddrs.1 (heq ▸ List.mem_map_of_mem hq)
        have hsame := strcasecmp_eq_zero.mpr (SameName.refl psc.pushsrvName)
        simp only [subscribeLoop, hsame, if_true, japiPushsrvAddClient, List.map_cons, hnext,
          addSubscriber]
      · have hdiff : ¬ strcasecmp psc.pushsrvName p.pushsrvName = 0 := by
          rw [strcasecmp_eq_zero]
          exact fun hsame => hnames.1 psc hmem hsame.symm
        have hne : p.addr ≠ psc.addr := by
          intro heq
          exact haddrs.1 (heq ▸ List.mem_map_of_mem hmem)
        simp only [subscribeLoop, if_neg hdiff, ih ⟨hnames.2, haddrs.2⟩ hmem, List.map_cons,
          addSubscriber, if_neg hne]

/-- **A subscribe request with the name of a service adds the client to that
service**, and to no other. -/
def JoinsByName (ctx : JapiContext) : Prop :=
  ∀ psc ∈ ctx.pushServices, ∀ (J : JsonC) (h : JHeap) (jreq jresp : JPtr) (service jval : Ref)
    (socket : Int), h.getEx jreq (lit "service") = some (some service) →
    h.node? service = some (.string psc.pushsrvName.bytes) →
    h.getEx jreq (lit "socket") = some (some jval) → h.node? jval = some (.int socket) →
    0 ≤ socket → socket < 2 ^ 31 → h.typeOf jresp = .object →
    ∃ h', japiPushsrvSubscribe J true ctx h jreq jresp = .ok ⟨{ ctx with
      pushServices := ctx.pushServices.map (addSubscriber psc.addr socket) }, h', some psc.addr⟩

theorem joinsByName_of_namesApart {ctx : JapiContext} (h : NamesApart ctx.pushServices) :
    JoinsByName ctx := by
  intro psc hpsc J heap jreq jresp service jval socket hservice hname hjval hint hs hs' hresp
  have hstring : (heap.getString J (some service)).getD (lit "") = psc.pushsrvName := by
    simp only [JHeap.getString, hname, Option.getD_some, CStr.ofBytes_self]
  have hsocket : heap.getInt J (some jval) = socket := by
    simp only [JHeap.getInt, hint]
    omega
  obtain ⟨h₁, hadd₁, hch₁, -⟩ := JHeap.objectAddNew_ok hresp (lit "service")
    (.string psc.pushsrvName.bytes)
  obtain ⟨h₂, hgranted, -⟩ := granted_ok
    { ctx with pushServices := ctx.pushServices.map (addSubscriber psc.addr socket) }
    (hch₁.types.object hresp) (some psc.addr)
  refine ⟨h₂, ?_⟩
  simp only [japiPushsrvSubscribe, hservice, hstring, hjval, Option.join_some, hsocket,
    reduceCtorEq, false_or, if_neg (Int.not_lt.mpr hs), subscribeLoop_of_mem h hpsc, hadd₁, bind,
    Except.bind, joinedOf, Int.lt_irrefl, if_false]
  exact hgranted

/-! ## Runs -/

/-- A call of the user.  The address `malloc` returns is part of it. -/
inductive ServiceCall where
  | register (malloc : Option Addr) (pushsrvName : Option CStr)
  | destroy (psc : Option Addr)

namespace ServiceCall

/-- One call.  `malloc` returns no address in use, and a service is destroyed
while it lives. -/
def step (ctx : JapiContext) : ServiceCall → Option JapiContext
  | register malloc pushsrvName =>
      if ∀ a ∈ malloc, a ∉ ctx.pushServices.map JapiPushsrvContext.addr then
        some (japiPushsrvRegister malloc ctx pushsrvName).2
      else none
  | destroy psc =>
      if ∀ a ∈ psc, a ∈ ctx.pushServices.map JapiPushsrvContext.addr then
        some (japiPushsrvDestroy ctx psc).2
      else none

/-- The condition on a call: a name that gets a service is not the name of a
live service in other letters. -/
def NewName (ctx : JapiContext) : ServiceCall → Prop
  | register (some _) (some name) =>
      ∀ psc ∈ ctx.pushServices, SameName psc.pushsrvName name → psc.pushsrvName = name
  | _ => True

/-- The names differ for `strcasecmp`, and each of them reaches its service. -/
structure Good (ctx : JapiContext) : Prop where
  names : ctx.pushServices.Pairwise fun p q => ¬ SameName p.pushsrvName q.pushsrvName
  joins : JoinsByName ctx

/-- What carries it along. -/
structure Inv (ctx : JapiContext) : Prop where
  apart : NamesApart ctx.pushServices
  named : ∀ psc ∈ ctx.pushServices, psc.pushsrvName ≠ lit ""

theorem Inv.good {ctx : JapiContext} (hi : Inv ctx) : Good ctx :=
  ⟨hi.apart.names, joinsByName_of_namesApart hi.apart⟩

theorem Inv.step {ctx ctx' : JapiContext} {call : ServiceCall} (hi : Inv ctx)
    (hnew : NewName ctx call) (h : step ctx call = some ctx') : Inv ctx' := by
  cases call with
  | register malloc pushsrvName =>
      obtain ⟨hfresh, heq⟩ := Option.ite_none_right_eq_some.mp h
      cases heq
      rcases japiPushsrvRegister_cases malloc ctx pushsrvName with
        heq | ⟨addr, name, rfl, rfl, hname, hother, heq⟩
      · rw [heq]
        exact hi
      · rw [heq]
        refine ⟨⟨?_, ?_⟩, ?_⟩
        · refine List.pairwise_cons.mpr ⟨?_, hi.apart.names⟩
          intro psc hpsc hsame
          exact hother psc hpsc (hnew psc hpsc hsame.symm)
        · exact List.nodup_cons.mpr ⟨hfresh addr rfl, hi.apart.addrs⟩
        · intro psc hpsc
          rcases List.mem_cons.mp hpsc with rfl | hold
          · exact hname
          · exact hi.named psc hold
  | destroy psc =>
      obtain ⟨-, heq⟩ := Option.ite_none_right_eq_some.mp h
      cases heq
      cases psc with
      | none => exact hi
      | some psc =>
          have hsub := unlinkService_sublist psc ctx.pushServices
          exact ⟨hi.apart.sublist hsub, fun p hp => hi.named p (hsub.subset hp)⟩

/-- A name in other letters gets a service of its own, and then two names are the same. -/
theorem Inv.newName {ctx ctx' : JapiContext} {call : ServiceCall} (hi : Inv ctx)
    (h : ServiceCall.step ctx call = some ctx') (hg : Good ctx') : NewName ctx call := by
  rcases call with ⟨_ | addr, _ | name⟩ | psc
  case register.some.some =>
    obtain ⟨-, heq⟩ := Option.ite_none_right_eq_some.mp h
    cases heq
    intro psc hpsc hsame
    by_contra hne
    have hname : name ≠ lit "" := by
      rintro rfl
      exact hi.named psc hpsc (CStr.ext (List.map_eq_nil_iff.mp hsame))
    have hother : ∀ q ∈ ctx.pushServices, q.pushsrvName ≠ name := by
      rintro q hq rfl
      have : Std.Symm fun p q : JapiPushsrvContext => ¬ SameName p.pushsrvName q.pushsrvName :=
        ⟨fun _ _ hpq hqp => hpq hqp.symm⟩
      refine hi.apart.names.forall hpsc hq ?_ hsame
      rintro rfl
      exact hne rfl
    have hnames := hg.names
    rw [japiPushsrvRegister_new hname hother] at hnames
    exact (List.pairwise_cons.mp hnames).1 psc hpsc hsame.symm
  all_goals trivial

/-- **The names differ for `strcasecmp` and reach their services in every state
of a run exactly if** no name is registered that is the name of a live service
in other letters. -/
theorem run_names_iff {ctx : JapiContext} (hctx : ctx.pushServices = []) {es : List ServiceCall}
    {ctx' : JapiContext} (hrun : run step ctx es = some ctx') :
    (∀ es₁ es₂ ctx₁, es = es₁ ++ es₂ → run step ctx es₁ = some ctx₁ → Good ctx₁) ↔
      Meets step NewName ctx es := by
  have hstart : Inv ctx := by
    refine ⟨⟨?_, ?_⟩, ?_⟩ <;> simp [hctx]
  exact run_good_iff Inv.good Inv.step Inv.newName hstart hrun

/-- `temperature` is registered, destroyed, and registered in capitals. -/
def renamed : List ServiceCall :=
  [register (some 1) (some (lit "temperature")), destroy (some 1),
    register (some 1) (some (lit "TEMPERATURE"))]

theorem run_names_iff_renamed : ∃ ctx, run step japiInit renamed = some ctx ∧ Good ctx := by
  obtain ⟨ctx, hrun⟩ : ∃ ctx, run step japiInit renamed = some ctx := ⟨_, rfl⟩
  refine ⟨ctx, hrun, (run_names_iff (by decide +kernel) hrun).mpr ?_ _ [] ctx (by simp) hrun⟩
  refine ⟨?_, fun ctx₁ h₁ => ⟨trivial, fun ctx₂ h₂ => ⟨?_, fun _ _ => trivial⟩⟩⟩
  · show ∀ psc ∈ _, _
    decide +kernel
  · cases h₁
    cases h₂
    show ∀ psc ∈ _, _
    decide +kernel

/-- Both names are registered; the subscription to `temperature` goes to `TEMPERATURE`. -/
theorem capitals_taken :
    ∃ ctx, run step japiInit [register (some 1) (some (lit "temperature")),
        register (some 2) (some (lit "TEMPERATURE"))] = some ctx ∧
      ctx.pushServices.map JapiPushsrvContext.addr = [2, 1] ∧
      ¬ ctx.pushServices.Pairwise (fun p q => ¬ SameName p.pushsrvName q.pushsrvName) ∧
      (subscribeLoop true (lit "temperature") 5 ctx.pushServices).2 = some (2, 0) := by
  refine ⟨_, rfl, ?_, ?_, ?_⟩ <;> decide +kernel

end ServiceCall

end Libjapi
