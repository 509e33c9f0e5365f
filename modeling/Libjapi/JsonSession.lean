/-
# `Libjapi.JsonSession` — the JSON objects of a session

Requests are processed and messages pushed, in any order and on one heap; between
the calls the code of the user builds trees, hands them to `japi_pushsrv_sendmsg`
and puts them.  `held` are the references the user's code holds, those its
handlers keep among them:

    no count is negative and no object is live but those the user's code holds or
    that are reached from them, in every state, exactly if no request was refused
    after the objects for its response were made                  `run_live_iff`

What a handler of the user does with the references it is given is
`HandlerCall.Accounts`, as for one call.
-/
import Libjapi.Ownership
import Libjapi.SendWalk

namespace Libjapi

open CStr (lit)
open Relation

/-! ## `japi_pushsrv_sendmsg` with its message -/

/-- What a call leaves behind: the service, the return value, the heap and the calls
of `write_n`, the socket and the message of each. -/
structure Sent where
  psc : JapiPushsrvContext
  ret : Int
  heap : JHeap
  attempts : List (Int × CStr)

/-- `japi_pushsrv_sendmsg`; without memory for the message the process ends in
`strlen(NULL)`. -/
def pushsrvSend (J : JsonC) (malloc : Bool) (writeN : Nat → Int) (h : JHeap) (psc : JapiPushsrvContext)
    (jmsgData : JPtr) : Option Sent :=
  if jmsgData = none then some ⟨psc, -1, h, []⟩
  else if psc.clients = [] then some ⟨psc, 0, h, []⟩
  else
    match pushMessage J malloc h psc.pushsrvName jmsgData with
    | .ok (some msg, h') =>
        let r := japiPushsrvSendmsg writeN psc
        some ⟨r.1, r.2.1, h', r.2.2.map (·, msg)⟩
    | _ => none

theorem pushMessage_sound {J : JsonC} {malloc : Bool} {h h' : JHeap} {b : Nat} {rest : List JPtr}
    (hs : Sound h b [] rest) {pushsrvName : CStr} {jmsgData : JPtr} (hdata : jmsgData ∈ rest)
    {msg : Option CStr} (hok : pushMessage J malloc h pushsrvName jmsgData = .ok (msg, h')) :
    Sound h' b [] rest := by
  obtain ⟨h₁, hadd₁, hok⟩ := bind_eq_ok hok
  obtain ⟨h₂, hadd₂, hok⟩ := bind_eq_ok hok
  obtain ⟨-, rfl⟩ := Prod.mk.inj (Except.ok.inj hok)
  have hempty : (JNode.object []).children = [] := rfl
  have hs₀ : Sound (h.alloc (.object [])).2 b [some h.cells.length] rest := Sound.alloc hs
  have hun₀ := unreferred_alloc hs hempty
  obtain ⟨hs₁, hg₁⟩ := hs₀.objectAddNew rfl (.inl (by simp)) hs.base hadd₁
  have hun₁ := hg₁.unreferred hun₀
  have hlive : ∀ r, jmsgData = some r → 0 < h₁.refs r :=
    fun r hr => hs₁.counted.pos_of_held (List.mem_append_right _ (hr ▸ hdata))
  obtain ⟨hs₂, hrefers, hlen⟩ := hs₁.get hlive
  -- the data was there before the message, and does not lead to it
  have hs₃ := hs₂.objectAdd (.inl (by simp)) hs.base ?_ hadd₂
  · exact hs₃.put
  · rintro q rfl
    have hun₂ : Unreferred (h₁.get (some q)) h.cells.length :=
      ⟨hun₁.1.trans_eq hlen.symm, fun p hp => hun₁.2 p ((hrefers p _).mp hp)⟩
    exact hun₂.not_reached ((hs.rest q hdata).trans_le hs.base).ne

/-! ## The machine -/

/-- The context, the heap, and the references the user's code holds. -/
structure JsonSession where
  ctx : JapiContext
  heap : JHeap
  held : List JPtr

/-- What happens: a request is processed, after which a handler of the user holds
`kept`; the user's code builds a tree, or puts one; a message is pushed. -/
inductive JsonEvent where
  | request (mem : Mem) (stale : Option CStr) (text : CStr) (socket : Int) (kept : List JPtr)
  | build (j : Json)
  | put (p : JPtr)
  | sendmsg (malloc : Bool) (writeN : Nat → Int) (psc : Addr) (jmsgData : JPtr)

namespace JsonSession

/-- What is held after a request. -/
def heldAfter (P : Program) (st : JsonSession) (mem : Mem) (text : CStr) (socket : Int)
    (kept : List JPtr) : List JPtr :=
  match handlerCall P mem st.ctx st.heap text socket with
  | some c => c.heldAfter st.held kept
  | none => st.held

/-- The service in place of the one with its address. -/
def withService (ctx : JapiContext) (psc : JapiPushsrvContext) : JapiContext :=
  { ctx with pushServices := ctx.pushServices.map fun p => if p.addr = psc.addr then psc else p }

/-- One event.  A request on which the process aborts has no next state, and only
what is held is put or sent. -/
def step (P : Program) (st : JsonSession) : JsonEvent → Option JsonSession
  | .request mem stale text socket kept =>
      (japiProcessMessage P mem stale st.ctx st.heap text socket).toOption.map fun out =>
        ⟨out.ctx, out.heap, st.heldAfter P mem text socket kept⟩
  | .build j =>
      some { st with heap := (st.heap.build j).2, held := (st.heap.build j).1 :: st.held }
  | .put p =>
      if p ∈ st.held then some { st with heap := st.heap.put p, held := st.held.erase p } else none
  | .sendmsg malloc writeN psc jmsgData =>
      if jmsgData ∈ none :: st.held then
        (st.ctx.pushServices.find? fun p => p.addr = psc).bind fun p =>
          (pushsrvSend P.json malloc writeN st.heap p jmsgData).map fun sent =>
            { st with ctx := withService st.ctx sent.psc, heap := sent.heap }
      else none

/-! ## What holds -/

/-- No count is negative, and nothing is live but what the user's code reaches. -/
structure Good (st : JsonSession) : Prop where
  nonneg : ∀ r, 0 ≤ st.heap.refs r
  live : ∀ r, 0 < st.heap.refs r → st.heap.Reached st.held r

/-- Every count is the number of references. -/
structure Inv (st : JsonSession) : Prop where
  counted : st.heap.Counted st.held
  acyclic : st.heap.Acyclic

/-- A handler of the user accounts for the references it is given and those it holds. -/
def HandlersAccount (P : Program) (st : JsonSession) : JsonEvent → Prop
  | .request mem _ text socket kept => ∀ c id,
      handlerCall P mem st.ctx st.heap text socket = some c → c.func = .user id →
        c.Accounts st.held kept
  | .build _ | .put _ | .sendmsg _ _ _ _ => True

/-- The request is not refused after the objects for the response were made. -/
def NotRefused (P : Program) (_ : JsonSession) : JsonEvent → Prop
  | .request _ stale text _ _ => ¬ JumpsToOutFree P stale text
  | .build _ | .put _ | .sendmsg _ _ _ _ => True

variable {P : Program} {st st' : JsonSession}

theorem Inv.good (hi : st.Inv) : st.Good :=
  ⟨hi.counted.nonneg, fun _ hr => hi.counted.reached hi.acyclic hr⟩

theorem Inv.sound (hi : st.Inv) : Sound st.heap st.heap.cells.length [] st.held :=
  ⟨hi.counted, hi.acyclic, fun p q hpq _ => hi.counted.children p q hpq, hi.counted.held, le_rfl⟩

/-! ## A request -/

theorem not_jumps_of_handlerCall {mem : Mem} {stale : Option CStr} {ctx : JapiContext} {h : JHeap}
    {text : CStr} {socket : Int} {out : Outcome} {c : HandlerCall}
    (hout : japiProcessMessage P mem stale ctx h text socket = .ok out)
    (hcall : handlerCall P mem ctx h text socket = some c) : ¬ JumpsToOutFree P stale text := by
  rintro ⟨⟨j, hparse, -, hname⟩, -⟩
  rcases handlerCall_of_ok hout with ⟨-, hnone, -⟩ | ⟨j', name, -, -, -, hparse', hname', -⟩
  · rw [hcall] at hnone
    cases hnone
  · rw [hparse] at hparse'
    cases hparse'
    rw [hname] at hname'
    cases hname'

theorem Inv.request (hi : st.Inv) {mem : Mem} {stale : Option CStr} {text : CStr} {socket : Int}
    {kept : List JPtr} (haccount : st.HandlersAccount P (.request mem stale text socket kept))
    (hnot : ¬ JumpsToOutFree P stale text) {out : Outcome}
    (hout : japiProcessMessage P mem stale st.ctx st.heap text socket = .ok out) :
    Inv ⟨out.ctx, out.heap, st.heldAfter P mem text socket kept⟩ := by
  have heq := japiProcessMessage_eq P mem stale st.ctx st.heap text (japiProcessMessage_socket hout)
  cases hcall : handlerCall P mem st.ctx st.heap text socket with
  | some c =>
      have hafter : st.heldAfter P mem text socket kept = c.heldAfter st.held kept := by
        simp only [heldAfter, hcall]
      rw [hcall] at heq
      obtain ⟨hc, ha, -⟩ := handlerCall_ends hi.counted hi.acyclic hcall
        (fun id => haccount c id hcall) (heq ▸ hout)
      exact ⟨hafter ▸ hc, ha⟩
  | none =>
      have hafter : st.heldAfter P mem text socket kept = st.held := by
        simp only [heldAfter, hcall]
      rw [hafter]
      rcases noHandler_cases hout hcall with ⟨-, hheap, -⟩ | ⟨-, hyes, -⟩ | ⟨-, -, -, hfinish⟩
      · rw [hheap]
        exact ⟨hi.counted, hi.acyclic⟩
      · exact absurd hyes hnot
      · obtain ⟨hs₁, hs₃, hun, -⟩ := responses_sound (P := P) hi.counted hi.acyclic text
        have hperm := hs₃.perm (List.reverse_perm [(jsonTokenerParse P.json st.heap text).1,
          some (responseRef P st.heap text), some (responseRef P st.heap text + 1)])
        have hkept : ¬ (responsesHeap P st.heap text).Reached st.held
            (responseRef P st.heap text) :=
          fun hr => absurd hs₁.base (hs₃.reached_lt hr).not_ge
        obtain ⟨hc, ha, -⟩ := finish_frees hperm.counted hs₃.acyclic hun.2
          (Nat.succ_ne_self _) hkept hfinish
        exact ⟨hc, ha⟩

/-- **One that was refused** leaves an object behind that nobody reaches. -/
theorem Inv.refused (hi : st.Inv) {mem : Mem} {stale : Option CStr} {text : CStr} {socket : Int}
    {kept : List JPtr} (hyes : JumpsToOutFree P stale text) {out : Outcome}
    (hout : japiProcessMessage P mem stale st.ctx st.heap text socket = .ok out) :
    ¬ Good ⟨out.ctx, out.heap, st.heldAfter P mem text socket kept⟩ := by
  cases hcall : handlerCall P mem st.ctx st.heap text socket with
  | some c => exact absurd hyes (not_jumps_of_handlerCall hout hcall)
  | none =>
      have hafter : st.heldAfter P mem text socket kept = st.held := by
        simp only [heldAfter, hcall]
      rw [hafter]
      intro hgood
      rcases noHandler_cases hout hcall with ⟨-, -, hno, -⟩ | ⟨-, -, -, hheap⟩ | ⟨-, hno, -⟩
      · exact hno hyes
      · obtain ⟨hs₁, hs₃, -, -⟩ := responses_sound (P := P) hi.counted hi.acyclic text
        have hput := (hs₃.perm (List.reverse_perm [(jsonTokenerParse P.json st.heap text).1,
          some (responseRef P st.heap text), some (responseRef P st.heap text + 1)])).put
        have hpos := outFree_leaks (P := P) hi.counted hi.acyclic text
        rw [← hheap] at hpos hput
        exact absurd hs₁.base (hput.reached_lt (hgood.live _ hpos)).not_ge
      · exact hno hyes

/-! ## The other events -/

theorem Inv.sendmsg (hi : st.Inv) {writeN : Nat → Int} {psc : JapiPushsrvContext} {jmsgData : JPtr}
    (hdata : jmsgData ∈ none :: st.held) {J : JsonC} {malloc : Bool} {sent : Sent}
    (hsend : pushsrvSend J malloc writeN st.heap psc jmsgData = some sent) (ctx : JapiContext) :
    Inv ⟨ctx, sent.heap, st.held⟩ := by
  simp only [pushsrvSend] at hsend
  split at hsend
  · cases hsend
    exact ⟨hi.counted, hi.acyclic⟩
  · rename_i hnull
    split at hsend
    · cases hsend
      exact ⟨hi.counted, hi.acyclic⟩
    · split at hsend
      · rename_i msg h' hmsg
        cases hsend
        have hs := pushMessage_sound hi.sound ((List.mem_cons.mp hdata).resolve_left hnull) hmsg
        exact ⟨hs.counted, hs.acyclic⟩
      · cases hsend

theorem Inv.step (hi : st.Inv) {e : JsonEvent} (haccount : st.HandlersAccount P e)
    (hnot : st.NotRefused P e) (h : JsonSession.step P st e = some st') : st'.Inv := by
  cases e with
  | request mem stale text socket kept =>
      obtain ⟨out, hout, rfl⟩ := Option.map_eq_some_iff.mp h
      exact hi.request haccount hnot (toOption_eq_some hout)
  | build j =>
      cases h
      have hs := Sound.build j hi.sound
      exact ⟨hs.counted, hs.acyclic⟩
  | put p =>
      obtain ⟨hheld, heq⟩ := Option.ite_none_right_eq_some.mp h
      cases heq
      have hs : Sound st.heap 0 (p :: st.held.erase p) [] :=
        ⟨by simpa using hi.counted.perm (List.perm_cons_erase hheld), hi.acyclic, by simp, by simp,
          Nat.zero_le _⟩
      have hput := hs.put
      exact ⟨by simpa using hput.counted, hput.acyclic⟩
  | sendmsg malloc writeN psc jmsgData =>
      obtain ⟨hdata, heq⟩ := Option.ite_none_right_eq_some.mp h
      obtain ⟨p, -, heq⟩ := Option.bind_eq_some_iff.mp heq
      obtain ⟨sent, hsend, rfl⟩ := Option.map_eq_some_iff.mp heq
      exact hi.sendmsg hdata hsend _

theorem Inv.notRefused (hi : st.Inv) {e : JsonEvent} (h : JsonSession.step P st e = some st')
    (hgood : st'.Good) : st.NotRefused P e := by
  cases e with
  | request mem stale text socket kept =>
      obtain ⟨out, hout, rfl⟩ := Option.map_eq_some_iff.mp h
      exact fun hyes => hi.refused hyes (toOption_eq_some hout) hgood
  | _ => trivial

/-! ## Runs -/

/-- With no object and nothing held. -/
def start (ctx : JapiContext) : JsonSession := ⟨ctx, ⟨[]⟩, []⟩

/-- **Nothing is left over in any state of a session exactly if** none of its
requests was refused after the objects for its response were made. -/
theorem run_live_iff {ctx : JapiContext} {es : List JsonEvent}
    (haccount : Meets (step P) (HandlersAccount P) (start ctx) es)
    (hrun : run (step P) (start ctx) es = some st) :
    (∀ es₁ es₂ st₁, es = es₁ ++ es₂ → run (step P) (start ctx) es₁ = some st₁ → st₁.Good) ↔
      Meets (step P) (NotRefused P) (start ctx) es :=
  run_good_iff_of_meets (HandlersAccount P) Inv.good (fun hi ha hnot h => hi.step ha hnot h)
    (fun hi _ h hg => hi.notRefused h hg) ⟨counted_nil, acyclic_nil⟩ haccount hrun

/-- Two clients are subscribed to the temperature. -/
def subscribedCtx : JapiContext :=
  { thermometerCtx with pushServices := [⟨1, lit "temperature", [5, 6]⟩] }

/-- The thermometer is read, by the handler of the user; then a number is pushed, which
the second client does not get, and put. -/
def readAndPush : List JsonEvent :=
  [.request ⟨true, true⟩ none thermometerText 4 [], .build (.int 23),
    .sendmsg true (fun k => if k = 1 then -1 else 1) 1 (some 8), .put (some 8)]

theorem run_live_iff_push :
    ∃ st, run (step thermometerProgram) (start subscribedCtx) readAndPush = some st ∧
      st.ctx.pushServices.map JapiPushsrvContext.clients = [[5]] ∧ ∀ r, st.heap.refs r = 0 := by
  have hends : (run (step thermometerProgram) (start subscribedCtx) readAndPush).map
      (fun st => (st.ctx.pushServices.map JapiPushsrvContext.clients, st.held)) =
        some ([[5]], []) := by decide +kernel
  obtain ⟨st, hrun, heq⟩ := Option.map_eq_some_iff.mp hends
  obtain ⟨hclients, hheld⟩ := Prod.mk.inj heq
  have hrest : ∀ {cond : JsonSession → JsonEvent → Prop},
      (∀ st j, cond st (.build j)) → (∀ st malloc writeN psc p, cond st (.sendmsg malloc writeN psc p)) →
      (∀ st p, cond st (.put p)) → cond (start subscribedCtx) (readAndPush.head (by decide)) →
      Meets (step thermometerProgram) cond (start subscribedCtx) readAndPush :=
    fun hbuild hsend hput hrequest => ⟨hrequest, fun _ _ => ⟨hbuild _ _, fun _ _ =>
      ⟨hsend _ _ _ _ _, fun _ _ => ⟨hput _ _, fun _ _ => trivial⟩⟩⟩⟩
  have haccount : Meets (step thermometerProgram) (HandlersAccount thermometerProgram)
      (start subscribedCtx) readAndPush :=
    hrest (fun _ _ => trivial) (fun _ _ _ _ _ => trivial) (fun _ _ => trivial)
      fun _ _ hcall huser => thermometer_accounts hcall huser
  have hmeets : Meets (step thermometerProgram) (NotRefused thermometerProgram)
      (start subscribedCtx) readAndPush := by
    refine hrest (fun _ _ => trivial) (fun _ _ _ _ _ => trivial) (fun _ _ => trivial) ?_
    rintro ⟨⟨j, hparse, -, hname⟩, -⟩
    cases hparse
    cases hname
  have hgood := (run_live_iff haccount hrun).mpr hmeets _ _ _ (List.append_nil _).symm hrun
  refine ⟨st, hrun, hclients, ?_⟩
  intro r
  rcases (hgood.nonneg r).lt_or_eq with hpos | hzero
  · obtain ⟨p, hp, -⟩ := hgood.live r hpos
    rw [hheld] at hp
    cases hp
  · exact hzero.symm

end JsonSession

end Libjapi
