/-
# `Libjapi.Requests` — `japi_register_request`, `japi_init` and the list of handlers

The registry is `ctx->requests`, a list that grows at its head.  Looking a name
up, the duplicate check and the dispatch all compare with `strcasecmp`, so the
invariant is that no two registered names are the same up to letter case
(`Distinct`); it makes the place of an entry in the list irrelevant.

`registered calls` is the context after `japi_init` and the calls in order.
-/
import Libjapi.PushService
import Mathlib.Data.List.Pairwise

namespace Libjapi

open CStr (lit)

/-! ## The code -/

/-- `japi_get_request_handler`. -/
def japiGetRequestHandler (ctx : JapiContext) (name : CStr) : Option Handler :=
  (ctx.requests.find? fun req => strcasecmp name req.name = 0).map JapiRequest.func

/-- `japi_register_request`, the return value and the context, after the check
that `ctx` is not `NULL`. -/
def registerRequest (malloc : Bool) (ctx : JapiContext) (reqName : Option CStr)
    (reqHandler : Option Handler) : Int × JapiContext :=
  match reqName with
  | none => (-2, ctx)
  | some name =>
      if strcmp name (lit "") = 0 then (-2, ctx)
      else
        match reqHandler with
        | none => (-3, ctx)
        | some func =>
            if (japiGetRequestHandler ctx name).isSome then (-4, ctx)
            else if ctx.init ∧ strncmp name (lit "japi_") (lit "japi_").bytes.length = 0 then
              (-6, ctx)
            else if malloc then (0, { ctx with requests := ⟨name, func⟩ :: ctx.requests })
            else (-5, ctx)

/-- The requests `japi_init` registers, in this order. -/
def builtins : List JapiRequest :=
  [⟨lit "japi_request_not_found_handler", .japiRequestNotFoundHandler⟩,
    ⟨lit "japi_pushsrv_subscribe", .japiPushsrvSubscribe⟩,
    ⟨lit "japi_pushsrv_unsubscribe", .japiPushsrvUnsubscribe⟩,
    ⟨lit "japi_pushsrv_list", .japiPushsrvList⟩,
    ⟨lit "japi_cmd_list", .japiCmdList⟩]

/-- `japi_init`, allocation succeeding. -/
def japiInit : JapiContext :=
  let ctx : JapiContext :=
    { numClients := 0, maxClients := 0, requests := [], pushServices := [], clients := [],
      includeArgsInResponse := false, shutdown := false, init := false }
  let ctx := builtins.foldl
    (fun ctx req => (registerRequest true ctx (some req.name) (some req.func)).2) ctx
  { ctx with init := true }

/-- The context after some calls of `japi_register_request`, allocation succeeding. -/
def registered (calls : List (Option CStr × Option Handler)) : JapiContext :=
  calls.foldl (fun ctx call => (registerRequest true ctx call.1 call.2).2) japiInit

/-- The handler `japi_process_message` calls: the one of the name, else the
user's fallback, else the default one. -/
def dispatch (ctx : JapiContext) (reqName : CStr) : Option Handler :=
  match japiGetRequestHandler ctx reqName with
  | some func => some func
  | none =>
      match japiGetRequestHandler ctx (lit "request_not_found_handler") with
      | some func => some func
      | none => japiGetRequestHandler ctx (lit "japi_request_not_found_handler")

/-- `japi_cmd_list`. -/
def japiCmdList (ctx : JapiContext) (h : JHeap) (response : JPtr) : Except Abort Served := do
  let jarray := (h.alloc (.array [])).1
  let h := addNames jarray (ctx.requests.map JapiRequest.name) (h.alloc (.array [])).2
  let h ← h.objectAdd response (lit "commands") jarray
  return ⟨ctx, h, none⟩

/-- `japi_request_not_found_handler`. -/
def japiRequestNotFoundHandler (ctx : JapiContext) (h : JHeap) (response : JPtr) :
    Except Abort Served := do
  let h ← h.objectAddNew response (lit "error") (.string (lit "no request handler found").bytes)
  return ⟨ctx, h, none⟩

/-! ## Registration -/

/-- **What a registration does**: it fails and changes nothing, or the name was
free and becomes the first entry. -/
theorem registerRequest_cases (malloc : Bool) (ctx : JapiContext) (reqName : Option CStr)
    (reqHandler : Option Handler) :
    ((registerRequest malloc ctx reqName reqHandler).1 ≠ 0 ∧
        (registerRequest malloc ctx reqName reqHandler).2 = ctx) ∨
      ∃ name func, reqName = some name ∧ reqHandler = some func ∧
        japiGetRequestHandler ctx name = none ∧
        registerRequest malloc ctx reqName reqHandler =
          (0, { ctx with requests := ⟨name, func⟩ :: ctx.requests }) := by
  unfold registerRequest
  cases reqName with
  | none => exact .inl ⟨by simp, rfl⟩
  | some name =>
      dsimp only
      split
      · exact .inl ⟨by simp, rfl⟩
      · cases reqHandler with
        | none => exact .inl ⟨by simp, rfl⟩
        | some func =>
            dsimp only
            split
            · exact .inl ⟨by simp, rfl⟩
            · rename_i hfree
              split
              · exact .inl ⟨by simp, rfl⟩
              · split
                · refine .inr ⟨name, func, rfl, rfl, ?_, rfl⟩
                  simpa using hfree
                · exact .inl ⟨by simp, rfl⟩

/-- No two names are the same up to letter case. -/
def Distinct (requests : List JapiRequest) : Prop :=
  requests.Pairwise fun a b => ¬ SameName a.name b.name

instance (requests : List JapiRequest) : Decidable (Distinct requests) :=
  inferInstanceAs (Decidable (List.Pairwise _ _))

theorem japiGetRequestHandler_eq_none {ctx : JapiContext} {name : CStr} :
    japiGetRequestHandler ctx name = none ↔ ∀ req ∈ ctx.requests, ¬ SameName name req.name := by
  simp [japiGetRequestHandler, strcasecmp_eq_zero]

theorem japiGetRequestHandler_some {ctx : JapiContext} {name : CStr} {func : Handler}
    (h : japiGetRequestHandler ctx name = some func) :
    ∃ req ∈ ctx.requests, SameName name req.name ∧ req.func = func := by
  obtain ⟨req, hreq, rfl⟩ := Option.map_eq_some_iff.mp h
  have hname := List.find?_some hreq
  simp only [decide_eq_true_eq, strcasecmp_eq_zero] at hname
  exact ⟨req, List.mem_of_find?_eq_some hreq, hname, rfl⟩

theorem Distinct.resolve {ctx : JapiContext} (h : Distinct ctx.requests) {req : JapiRequest}
    (hreq : req ∈ ctx.requests) {name : CStr} (hname : SameName name req.name) :
    japiGetRequestHandler ctx name = some req.func := by
  cases hres : japiGetRequestHandler ctx name with
  | none => exact absurd hname (japiGetRequestHandler_eq_none.mp hres req hreq)
  | some func =>
      obtain ⟨req', hreq', hname', rfl⟩ := japiGetRequestHandler_some hres
      by_cases heq : req' = req
      · rw [heq]
      · have : Std.Symm fun a b : JapiRequest => ¬ SameName a.name b.name :=
          ⟨fun _ _ h₁ h₂ => h₁ h₂.symm⟩
        exact absurd (hname'.symm.trans hname) (h.forall hreq' hreq heq)

theorem Distinct.countP {ctx : JapiContext} (h : Distinct ctx.requests) (name : CStr) :
    (ctx.requests.map JapiRequest.name).countP (fun n => SameName name n) =
      if (japiGetRequestHandler ctx name).isSome then 1 else 0 := by
  have hlist : ∀ l : List JapiRequest, Distinct l →
      (l.map JapiRequest.name).countP (fun n => SameName name n) =
        if ∃ req ∈ l, SameName name req.name then 1 else 0 := by
    intro l hl
    induction l with
    | nil => simp
    | cons req l ih =>
        obtain ⟨hreq, hl⟩ := List.pairwise_cons.mp hl
        by_cases hname : SameName name req.name
        · have hnone : ¬ ∃ r ∈ l, SameName name r.name := by
            rintro ⟨r, hr, hn⟩
            exact hreq r hr (hname.symm.trans hn)
          simp [ih hl, hname, hnone]
        · simp [ih hl, hname]
  rw [hlist _ h]
  cases hres : japiGetRequestHandler ctx name with
  | none =>
      have hnone : ¬ ∃ req ∈ ctx.requests, SameName name req.name := by
        rintro ⟨req, hreq, hn⟩
        exact japiGetRequestHandler_eq_none.mp hres req hreq hn
      simp [hnone]
  | some func =>
      obtain ⟨req, hreq, hn, -⟩ := japiGetRequestHandler_some hres
      have hex : ∃ req ∈ ctx.requests, SameName name req.name := ⟨req, hreq, hn⟩
      simp [hex]

/-! ## Sequences of registrations -/

theorem Distinct.registerRequest {ctx : JapiContext} (h : Distinct ctx.requests) (malloc : Bool)
    (reqName : Option CStr) (reqHandler : Option Handler) :
    Distinct (registerRequest malloc ctx reqName reqHandler).2.requests := by
  rcases registerRequest_cases malloc ctx reqName reqHandler with
    ⟨-, heq⟩ | ⟨name, func, -, -, hfree, heq⟩
  · rw [heq]
    exact h
  · rw [heq]
    exact List.pairwise_cons.mpr ⟨japiGetRequestHandler_eq_none.mp hfree, h⟩

theorem registerRequest_resolve {ctx : JapiContext} {name : CStr} {func : Handler}
    (h : japiGetRequestHandler ctx name = some func) (malloc : Bool) (reqName : Option CStr)
    (reqHandler : Option Handler) :
    japiGetRequestHandler (registerRequest malloc ctx reqName reqHandler).2 name = some func := by
  rcases registerRequest_cases malloc ctx reqName reqHandler with
    ⟨-, heq⟩ | ⟨newName, newFunc, -, -, hfree, heq⟩
  · rw [heq]
    exact h
  · -- the new name differs from every name there is, so also from this one
    obtain ⟨req, hreq, hname, -⟩ := japiGetRequestHandler_some h
    have hne : ¬ SameName name newName := fun hn =>
      japiGetRequestHandler_eq_none.mp hfree req hreq (hn.symm.trans hname)
    rw [heq]
    simpa [japiGetRequestHandler, strcasecmp_eq_zero, hne] using h

theorem japiInit_requests : japiInit.requests = builtins.reverse := by decide +kernel

theorem distinct_japiInit : Distinct japiInit.requests := by
  rw [japiInit_requests]
  decide +kernel

theorem registered_append (calls more : List (Option CStr × Option Handler)) :
    registered (calls ++ more) =
      more.foldl (fun ctx call => (registerRequest true ctx call.1 call.2).2) (registered calls) :=
  List.foldl_append

theorem registered_resolve {calls : List (Option CStr × Option Handler)} {name : CStr}
    {func : Handler} (h : japiGetRequestHandler (registered calls) name = some func)
    (more : List (Option CStr × Option Handler)) :
    japiGetRequestHandler (registered (calls ++ more)) name = some func := by
  induction more using List.reverseRecOn with
  | nil => simpa using h
  | append_singleton more call ih =>
      rw [← List.append_assoc, registered_append]
      exact registerRequest_resolve ih true call.1 call.2

theorem registered_builtin (calls : List (Option CStr × Option Handler)) {req : JapiRequest}
    (h : req ∈ builtins) : japiGetRequestHandler (registered calls) req.name = some req.func := by
  have hinit : japiGetRequestHandler (registered []) req.name = some req.func := by
    refine distinct_japiInit.resolve ?_ (SameName.refl _)
    rw [japiInit_requests]
    exact List.mem_reverse.mpr h
  exact registered_resolve hinit calls

/-! ## The list of commands -/

/-- The pointers stand for JSON strings, one for each name. -/
def Strings (h : JHeap) (ps : List JPtr) (names : List CStr) : Prop :=
  List.Forall₂ (fun p name => ∃ q, p = some q ∧ h.node? q = some (.string name.bytes)) ps names

theorem Strings.mono {h h' : JHeap} {ps : List JPtr} {names : List CStr} (hs : Strings h ps names)
    (hh : ∀ q s, h.node? q = some (.string s) → h'.node? q = some (.string s)) :
    Strings h' ps names :=
  List.Forall₂.imp (fun _ _ ⟨q, hq, hn⟩ => ⟨q, hq, hh q _ hn⟩) hs

theorem Strings.denotes {h : JHeap} :
    ∀ {ps : List JPtr} {names : List CStr}, Strings h ps names →
      h.DenotesAll ps (names.map fun name => .string name.bytes)
  | [], [], _ => trivial
  | _ :: _, _ :: _, .cons ⟨_, hp, hn⟩ hs => ⟨hp ▸ hn, Strings.denotes hs⟩

theorem addNames_spec {r : Ref} :
    ∀ (names : List CStr) {h : JHeap} {ps : List JPtr} {done : List CStr},
      h.node? r = some (.array ps) → Strings h ps done →
      ∃ ps', (addNames (some r) names h).node? r = some (.array ps') ∧
        Strings (addNames (some r) names h) ps' (done ++ names) ∧
        (∀ q n, q ≠ r → h.node? q = some n → (addNames (some r) names h).node? q = some n) ∧
        ∀ p ∈ ps', p ∈ ps ∨ ∃ q, p = some q ∧ h.cells.length ≤ q
  | [], h, ps, done, hr, hs =>
      ⟨ps, hr, by simpa [addNames] using hs, fun _ _ _ hq => hq, fun _ hp => .inl hp⟩
  | name :: names, h, ps, done, hr, hs => by
      have hext := JHeap.extends_alloc h (.string name.bytes)
      have hr' := hext r _ hr
      have hstep : (h.alloc (.string name.bytes)).2.arrayAdd (some r) (h.alloc (.string name.bytes)).1
          = (h.alloc (.string name.bytes)).2.setNode r
              (.array (ps ++ [(h.alloc (.string name.bytes)).1])) := by
        simp only [JHeap.arrayAdd, hr']
      -- the strings, the new one included, are other objects than the array
      have hother : ∀ q n, q ≠ r → (h.alloc (.string name.bytes)).2.node? q = some n →
          ((h.alloc (.string name.bytes)).2.arrayAdd (some r)
            (h.alloc (.string name.bytes)).1).node? q = some n := by
        intro q n hq hn
        rw [hstep, JHeap.node?_setNode_ne _ hq]
        exact hn
      have hstr : ∀ q s, (h.alloc (.string name.bytes)).2.node? q = some (.string s) →
          ((h.alloc (.string name.bytes)).2.arrayAdd (some r)
            (h.alloc (.string name.bytes)).1).node? q = some (.string s) := by
        intro q s hq
        refine hother q _ ?_ hq
        rintro rfl
        rw [hr'] at hq
        cases hq
      have hs₁ : Strings ((h.alloc (.string name.bytes)).2.arrayAdd (some r)
          (h.alloc (.string name.bytes)).1) (ps ++ [(h.alloc (.string name.bytes)).1])
          (done ++ [name]) := by
        refine List.rel_append ((hs.mono fun q s hq => hext q _ hq).mono hstr) ?_
        exact .cons ⟨_, rfl, hstr _ _ (JHeap.node?_alloc h _)⟩ .nil
      have hr₁ : ((h.alloc (.string name.bytes)).2.arrayAdd (some r)
          (h.alloc (.string name.bytes)).1).node? r
          = some (.array (ps ++ [(h.alloc (.string name.bytes)).1])) := by
        rw [hstep]
        exact JHeap.node?_setNode_self _ hr'
      obtain ⟨ps', h₁, h₂, h₃, h₄⟩ := addNames_spec names hr₁ hs₁
      refine ⟨ps', h₁, by simpa [addNames] using h₂, ?_, ?_⟩
      · intro q n hq hn
        exact h₃ q n hq (hother q n hq (hext q n hn))
      · intro p hp
        rcases h₄ p hp with hold | ⟨q, rfl, hle⟩
        · rcases List.mem_append.mp hold with hold | hnew
          · exact .inl hold
          · exact .inr ⟨h.cells.length, List.mem_singleton.mp hnew, le_rfl⟩
        · refine .inr ⟨q, rfl, le_trans ?_ hle⟩
          rw [hstep]
          simp [JHeap.setNode, JHeap.alloc]

/-- **A member with the array of the names** is what `japi_pushsrv_list` and `japi_cmd_list` add. -/
theorem addNames_member {h : JHeap} {response : JPtr} (hresp : h.typeOf response = .object)
    (key : CStr) (names : List CStr) :
    ∃ h' q, (addNames (h.alloc (.array [])).1 names (h.alloc (.array [])).2).objectAdd response key
        (h.alloc (.array [])).1 = .ok h' ∧
      h'.getEx response key = some q ∧
      h'.Denotes q (.array (names.map fun name => .string name.bytes)) := by
  obtain ⟨r, ms, rfl, hr⟩ := JHeap.typeOf_eq_object.mp hresp
  have hlt := JHeap.node?_lt hr
  have hr₁ := JHeap.extends_alloc h (.array []) r _ hr
  obtain ⟨ps, harr, hstr, hrest, -⟩ := addNames_spec names (JHeap.node?_alloc h (.array [])) .nil
  have hr₂ := hrest r _ hlt.ne hr₁
  obtain ⟨h', hadd, hself, hothers, -⟩ := JHeap.objectAdd_object hr₂ key (some h.cells.length)
  refine ⟨h', some h.cells.length, hadd, ?_, ps, ?_, ?_⟩
  · simp only [JHeap.getEx, Option.bind_some, hself]
    exact JHeap.lookup_setMember_self _ _ _
  · rw [hothers _ hlt.ne']
    exact harr
  · refine (hstr.mono ?_).denotes
    intro q s hq
    rw [hothers q ?_]
    · exact hq
    · rintro rfl
      rw [hr₂] at hq
      cases hq

end Libjapi
