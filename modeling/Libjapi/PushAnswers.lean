/-
# `Libjapi.PushAnswers` — what a subscriber is told, and what was done

`japi_pushsrv_subscribe` and `japi_pushsrv_unsubscribe` answer under `success`.
Both search the services by name, the one up to the first match, the other up
to the first match that has the socket in its list:

    `true` is answered exactly if one list of one service changed, by one
    entry of the socket, and `false` if no list changed      `pushsrv_answers`
-/
import Libjapi.Subscriptions

namespace Libjapi

open CStr (lit)

/-- The list of one service changed, and nothing else. -/
def OneListChanged (change : List Int → List Int → Prop) (old new : List JapiPushsrvContext) :
    Prop :=
  ∃ pre psc post clients, old = pre ++ psc :: post ∧ new = pre ++ { psc with clients } :: post ∧
    change psc.clients clients

/-- There is one more entry of the socket. -/
def Gained (socket : Int) (old new : List Int) : Prop :=
  ∃ pre post, old = pre ++ post ∧ new = pre ++ socket :: post

/-- There is one entry of the socket less, and the others are in their order. -/
def Lost (socket : Int) (old new : List Int) : Prop := Gained socket new old

theorem Gained.length {socket : Int} {old new : List Int} (h : Gained socket old new) :
    new.length = old.length + 1 := by
  obtain ⟨pre, post, rfl, rfl⟩ := h
  simp [Nat.add_assoc]

theorem OneListChanged.cons {change : List Int → List Int → Prop}
    {old new : List JapiPushsrvContext} (h : OneListChanged change old new)
    (psc : JapiPushsrvContext) : OneListChanged change (psc :: old) (psc :: new) := by
  obtain ⟨pre, p, post, clients, rfl, rfl, hchange⟩ := h
  exact ⟨psc :: pre, p, post, clients, rfl, rfl, hchange⟩

theorem OneListChanged.ne {change : List Int → List Int → Prop} (hchange : ∀ l, ¬ change l l)
    {old new : List JapiPushsrvContext} (h : OneListChanged change old new) : new ≠ old := by
  obtain ⟨pre, psc, post, clients, rfl, rfl, hc⟩ := h
  intro heq
  have hpsc := (List.cons.inj (List.append_cancel_left heq)).1
  rw [show clients = psc.clients from congrArg JapiPushsrvContext.clients hpsc] at hc
  exact hchange _ hc

/-! ## The loops -/

theorem subscribeLoop_gained {malloc : Bool} {name : CStr} {socket : Int} :
    ∀ {l}, joinedOf (subscribeLoop malloc name socket l).2 ≠ none →
      OneListChanged (Gained socket) l (subscribeLoop malloc name socket l).1
  | [], h => absurd rfl h
  | psc :: next, h => by
      simp only [subscribeLoop] at h ⊢
      split
      · rename_i hname
        rw [if_pos hname] at h
        cases malloc with
        | false => exact absurd rfl h
        | true => exact ⟨[], psc, next, socket :: psc.clients, rfl, rfl, [], psc.clients, rfl, rfl⟩
      · rename_i hname
        rw [if_neg hname] at h
        exact (subscribeLoop_gained h).cons psc

theorem unsubscribeLoop_lost {name : CStr} {socket : Int} :
    ∀ {l}, (unsubscribeLoop name socket l).2.2 = true →
      OneListChanged (Lost socket) l (unsubscribeLoop name socket l).1
  | [], h => by cases h
  | psc :: next, h => by
      simp only [unsubscribeLoop] at h ⊢
      split
      · rename_i hname
        rw [if_pos hname] at h
        by_cases hmem : socket ∈ psc.clients
        · have hret : (japiPushsrvRemoveClient psc socket).2 ≥ 0 := by
            rw [japiPushsrvRemoveClient_eq, if_pos hmem]
          rw [if_pos hret]
          obtain ⟨pre, post, -, hl, herase⟩ := List.exists_erase_eq hmem
          rw [japiPushsrvRemoveClient_eq]
          exact ⟨[], psc, next, _, rfl, rfl, pre, post, herase, hl⟩
        · have hret : ¬ (japiPushsrvRemoveClient psc socket).2 ≥ 0 := by
            rw [japiPushsrvRemoveClient_eq, if_neg hmem]
            exact show ¬ (-1 : Int) ≥ 0 by decide
          rw [if_neg hret] at h
          rw [if_neg hret, japiPushsrvRemoveClient_eq, List.erase_of_not_mem hmem]
          exact (unsubscribeLoop_lost h).cons psc
      · rename_i hname
        rw [if_neg hname] at h
        exact (unsubscribeLoop_lost h).cons psc

/-! ## The handlers -/

/-- The handler returns, and its answer says what happened to the lists. -/
def SaysWhatChanged (change : List Int → List Int → Prop) (ctx : JapiContext) (jresp : JPtr)
    (call : Except Abort Served) : Prop :=
  ∃ out success, call = .ok out ∧ Answers out.heap jresp success ∧
    (success = true ↔ OneListChanged change ctx.pushServices out.ctx.pushServices) ∧
    (success = false → out.ctx.pushServices = ctx.pushServices)

theorem SaysWhatChanged.refused {change : List Int → List Int → Prop} (hchange : ∀ l, ¬ change l l)
    {ctx : JapiContext} {jresp : JPtr} {call : Except Abort Served} {out : Served}
    (hcall : call = .ok out) (hctx : out.ctx = ctx) (hfalse : Answers out.heap jresp false) :
    SaysWhatChanged change ctx jresp call := by
  refine ⟨out, false, hcall, hfalse, ?_, fun _ => by rw [hctx]⟩
  simp only [Bool.false_eq_true, false_iff]
  exact fun h => h.ne hchange (by rw [hctx])

theorem not_gained_self (socket : Int) (l : List Int) : ¬ Gained socket l l :=
  fun h => absurd h.length (Nat.ne_of_lt (Nat.lt_succ_self l.length))

/-- **The answer is `true` exactly if** one list of one service changed by one entry
of the socket, and where it is `false` no list changed. -/
theorem pushsrv_answers (J : JsonC) (malloc : Bool) (ctx : JapiContext) {h h' : JHeap}
    {jargs jresp : JPtr} {socket : Int} (hs : 0 ≤ socket) (hs' : socket < 2 ^ 31)
    (hadd : h.objectAddNew jargs (lit "socket") (.int socket) = .ok h')
    (hresp : h'.typeOf jresp = .object) :
    SaysWhatChanged (Gained socket) ctx jresp (japiPushsrvSubscribe J malloc ctx h' jargs jresp) ∧
      SaysWhatChanged (Lost socket) ctx jresp (japiPushsrvUnsubscribe J ctx h' jargs jresp) := by
  have hsocket : h'.getInt J (h'.getEx jargs (lit "socket")).join = socket := by
    have hobj : h.typeOf jargs = .object := by
      by_contra hno
      rw [JHeap.objectAddNew, JHeap.objectAdd_eq_error
        (JHeap.typeOf_alloc_ne hno (by simp [JNode.type]))] at hadd
      cases hadd
    obtain ⟨h₁, hadd₁, -, hget⟩ := JHeap.objectAddNew_ok hobj (lit "socket") (.int socket)
    rw [hadd] at hadd₁
    cases hadd₁
    exact getInt_socket hs hs' hget
  constructor
  · obtain ⟨out, hcall, -, ⟨hctx, -, hfalse⟩ |
      ⟨service, pushServices, psc, -, hloop, hjoined, hsome, hctx, htrue⟩⟩ :=
      japiPushsrvSubscribe_cases J malloc ctx jargs hresp
    · exact .refused (not_gained_self socket) hcall hctx hfalse
    · rw [hsocket] at hloop
      have hjoins : joinedOf (subscribeLoop malloc ((h'.getString J (some service)).getD (lit ""))
          socket ctx.pushServices).2 ≠ none := by
        rw [hloop, ← hjoined]
        exact hsome
      have hgained := subscribeLoop_gained hjoins
      rw [hloop] at hgained
      refine ⟨out, true, hcall, htrue, ?_, by simp⟩
      rw [hctx]
      exact ⟨fun _ => hgained, fun _ => rfl⟩
  · obtain ⟨out, hcall, -, -, ⟨hctx, hfalse, -⟩ | ⟨service, pushServices, -, hloop, hctx, htrue⟩⟩ :=
      japiPushsrvUnsubscribe_cases J ctx jargs hresp
    · have hkept : ∀ l, ¬ Lost socket l l := not_gained_self socket
      exact .refused hkept hcall hctx hfalse
    · rw [hsocket] at hloop
      have hlost := unsubscribeLoop_lost (congrArg (·.2.2) hloop)
      rw [hloop] at hlost
      refine ⟨out, true, hcall, htrue, ?_, by simp⟩
      rw [hctx]
      exact ⟨fun _ => hlost, fun _ => rfl⟩

/-- The arguments of a request for the service `temperature`, and an empty response. -/
def temperatureArgs : JHeap :=
  ⟨[⟨.string (lit "temperature").bytes, 1⟩, ⟨.object [(lit "service", some 0)], 1⟩,
    ⟨.object [], 1⟩]⟩

theorem pushsrv_answers_temperature :
    let ctx := { japiInit with pushServices := [⟨1, lit "temperature", [6]⟩] }
    let J := JsonC.table []
    ∃ h', temperatureArgs.objectAddNew (some 1) (lit "socket") (.int 5) = .ok h' ∧
      SaysWhatChanged (Gained 5) ctx (some 2) (japiPushsrvSubscribe J true ctx h' (some 1) (some 2)) ∧
      SaysWhatChanged (Lost 5) ctx (some 2) (japiPushsrvUnsubscribe J ctx h' (some 1) (some 2)) := by
  intro ctx J
  obtain ⟨h', hadd⟩ : ∃ h', temperatureArgs.objectAddNew (some 1) (lit "socket") (.int 5) = .ok h' :=
    ⟨_, rfl⟩
  have hobj : temperatureArgs.typeOf (some 2) = .object := rfl
  have hresp : h'.typeOf (some 2) = .object :=
    ((JHeap.extends_alloc _ _).keepsTypes.trans (JHeap.objectAdd_keepsTypes hadd)).object hobj
  exact ⟨h', hadd, pushsrv_answers J true ctx (by decide) (by decide) hadd hresp⟩

end Libjapi
