/-
# `Libjapi.ReservedNames` — the names that begin with `japi_`

`japi_register_request` refuses a name that begins with "japi_", by `strncmp`;
`japi_process_message` looks a name up by `strcasecmp`.  The two disagree on
`JAPI_`:

    a request for a reserved name gets a handler of `japi_init` or
    the fallback, after every sequence of registrations that keeps
    the namespace, and after no other                              `run_reserved_iff`
    `JAPI_foo` is registered, and `japi_foo` calls its handler      `capitals_captured`
-/
import Libjapi.Answers
import Libjapi.Runs

namespace Libjapi

open CStr (lit)

/-- The name begins with "japi_" as the dispatch compares names. -/
def Reserved (name : CStr) : Prop := (lit "japi_").bytes <+: name.bytes.map tolower

instance (name : CStr) : Decidable (Reserved name) := inferInstanceAs (Decidable (_ <+: _))

theorem SameName.reserved {a b : CStr} (h : SameName a b) (ha : Reserved a) : Reserved b := by
  unfold Reserved at ha ⊢
  rw [← show a.bytes.map tolower = b.bytes.map tolower from h]
  exact ha

/-- A call of `japi_register_request`, and whether its `malloc` succeeds. -/
structure Registration where
  malloc : Bool
  reqName : Option CStr
  reqHandler : Option Handler

/-- A call is made. -/
def Registration.step (ctx : JapiContext) (call : Registration) : Option JapiContext :=
  some (registerRequest call.malloc ctx call.reqName call.reqHandler).2

/-- The call gives a handler to a free name that is reserved, though it does not begin with
the letters of "japi_" themselves. -/
def Registration.Captures (ctx : JapiContext) (call : Registration) : Prop :=
  call.malloc = true ∧ call.reqHandler ≠ none ∧ ∃ name ∈ call.reqName, Reserved name ∧
    ¬ (lit "japi_").bytes <+: name.bytes ∧ ∀ req ∈ ctx.requests, ¬ SameName name req.name

instance (ctx : JapiContext) (call : Registration) : Decidable (call.Captures ctx) :=
  inferInstanceAs (Decidable (_ ∧ _ ∧ _))

/-- The condition on a call. -/
def Registration.Keeps (ctx : JapiContext) (call : Registration) : Prop := ¬ call.Captures ctx

instance (ctx : JapiContext) (call : Registration) : Decidable (call.Keeps ctx) :=
  inferInstanceAs (Decidable (¬ _))

/-- The handler is the one `japi_init` registered under the name. -/
def BuiltinFor (name : CStr) (func : Handler) : Prop :=
  ∃ req ∈ builtins, SameName name req.name ∧ req.func = func

/-- What is called for a name that nobody registered. -/
def fallback (ctx : JapiContext) : Handler :=
  (japiGetRequestHandler ctx (lit "request_not_found_handler")).getD .japiRequestNotFoundHandler

/-- Every request for a reserved name calls one handler: the built-in one of the name, or, if
there is no such request, the fallback.  (The socket of a subscription is added before the
dispatch, and there the process ends if `args` is no object.) -/
def KeepsReserved (ctx : JapiContext) : Prop :=
  ∀ (P : Program) (mem : Mem) (stale : Option CStr) (h : JHeap) (request : CStr) (socket : Int)
    (j : Json) (name : CStr), 0 ≤ socket → P.json.parse request = some j →
    requestName j = some name → Reserved name → (needsSocket name → argsType j = .object) →
    ∃ out func, japiProcessMessage P mem stale ctx h request socket = .ok out ∧
      out.called = [func] ∧
      (BuiltinFor name func ∨ japiGetRequestHandler ctx name = none ∧ func = fallback ctx)

/-! ## The registry -/

/-- What holds after `japi_init`, whatever is registered. -/
structure Initialised (ctx : JapiContext) : Prop where
  init : ctx.init = true
  builtin : ∀ req ∈ builtins, japiGetRequestHandler ctx req.name = some req.func

theorem initialised_japiInit : Initialised japiInit :=
  ⟨rfl, fun _ hreq => registered_builtin [] hreq⟩

theorem Initialised.step {ctx ctx' : JapiContext} {call : Registration} (hi : Initialised ctx)
    (hstep : Registration.step ctx call = some ctx') : Initialised ctx' := by
  cases hstep
  refine ⟨?_, fun req hreq => registerRequest_resolve (hi.builtin req hreq) _ _ _⟩
  rcases registerRequest_cases call.malloc ctx call.reqName call.reqHandler with
    ⟨-, heq⟩ | ⟨name, func, -, -, -, heq⟩
  · rw [heq]
    exact hi.init
  · rw [heq]
    exact hi.init

/-- The reserved names that resolve are those of `japi_init`. -/
def OnlyBuiltins (ctx : JapiContext) : Prop :=
  ∀ name func, Reserved name → japiGetRequestHandler ctx name = some func → BuiltinFor name func

theorem onlyBuiltins_japiInit : OnlyBuiltins japiInit := by
  intro name func _ hfunc
  obtain ⟨req, hreq, hsame, hf⟩ := japiGetRequestHandler_some hfunc
  rw [japiInit_requests] at hreq
  exact ⟨req, List.mem_reverse.mp hreq, hsame, hf⟩

theorem strncmp_prefix {name p : CStr} :
    strncmp name p p.bytes.length = 0 ↔ p.bytes <+: name.bytes := by
  have hname : (0 : Byte) ∉ name.bytes.take p.bytes.length :=
    fun h => name.noNul (List.mem_of_mem_take h)
  rw [strncmp, List.take_length, cmpBytes_eq_zero (f := id) (fun _ h => h) hname p.noNul, List.map_id,
    List.map_id, List.prefix_iff_eq_take, eq_comm]

theorem OnlyBuiltins.step {ctx ctx' : JapiContext} {call : Registration} (hi : Initialised ctx)
    (ho : OnlyBuiltins ctx) (hkeeps : call.Keeps ctx)
    (hstep : Registration.step ctx call = some ctx') : OnlyBuiltins ctx' := by
  cases hstep
  rcases registerRequest_cases call.malloc ctx call.reqName call.reqHandler with
    ⟨-, heq⟩ | ⟨newName, newFunc, hnewName, hnewFunc, hfree, heq⟩
  · rw [heq]
    exact ho
  · intro name func hres hfunc
    by_cases hsame : SameName name newName
    · -- the new name is reserved, so it was refused or captured
      exfalso
      have hnew : Reserved newName := hsame.reserved hres
      have hok : (registerRequest call.malloc ctx call.reqName call.reqHandler).1 = 0 := by rw [heq]
      unfold registerRequest at hok
      rw [hnewName, hnewFunc] at hok
      simp only [hfree, Option.isSome_none, Bool.false_eq_true, if_false, hi.init, true_and,
        strncmp_prefix] at hok
      split at hok
      · cases hok
      · split at hok
        · cases hok
        · rename_i hprefix
          cases hmalloc : call.malloc with
          | false =>
              rw [hmalloc] at hok
              cases hok
          | true =>
              exact hkeeps ⟨hmalloc, by simp [hnewFunc], newName, hnewName, hnew, hprefix,
                japiGetRequestHandler_eq_none.mp hfree⟩
    · refine ho name func hres ?_
      rw [heq] at hfunc
      simpa [japiGetRequestHandler, strcasecmp_eq_zero, hsame] using hfunc

theorem Registration.Captures.not_onlyBuiltins {ctx ctx' : JapiContext} {call : Registration}
    (hi : Initialised ctx) (hcap : call.Captures ctx)
    (hstep : Registration.step ctx call = some ctx') : ¬ OnlyBuiltins ctx' := by
  obtain ⟨hmalloc, hhandler, name, hname, hres, hprefix, hfree⟩ := hcap
  obtain ⟨func, hfunc⟩ := Option.ne_none_iff_exists'.mp hhandler
  cases hstep
  have hnone := japiGetRequestHandler_eq_none.mpr hfree
  have hempty : ¬ strcmp name (lit "") = 0 := by
    rw [strcmp_eq_zero]
    rintro rfl
    exact absurd hres (by decide)
  have heq : (registerRequest call.malloc ctx call.reqName call.reqHandler).2
      = { ctx with requests := ⟨name, func⟩ :: ctx.requests } := by
    unfold registerRequest
    rw [Option.mem_def.mp hname, hfunc, hmalloc]
    simp only [hempty, hnone, Option.isSome_none, Bool.false_eq_true, strncmp_prefix, hprefix,
      and_false, if_false, if_true]
  intro ho
  have hget : japiGetRequestHandler
      (registerRequest call.malloc ctx call.reqName call.reqHandler).2 name = some func := by
    rw [heq]
    simp [japiGetRequestHandler, strcasecmp_eq_zero, SameName.refl]
  obtain ⟨req, hreq, hsame, -⟩ := ho name func hres hget
  -- the names of `japi_init` were not free
  obtain ⟨req', hreq', hsame', -⟩ := japiGetRequestHandler_some (hi.builtin req hreq)
  exact hfree req' hreq' (hsame.trans hsame')

theorem OnlyBuiltins.of_step {ctx ctx' : JapiContext} {call : Registration} (ho : OnlyBuiltins ctx')
    (hstep : Registration.step ctx call = some ctx') : OnlyBuiltins ctx := by
  cases hstep
  exact fun name func hres hfunc => ho name func hres (registerRequest_resolve hfunc _ _ _)

/-! ## The dispatch -/

theorem dispatch_eq {ctx : JapiContext} (hi : Initialised ctx) (name : CStr) :
    dispatch ctx name = some ((japiGetRequestHandler ctx name).getD (fallback ctx)) := by
  have hdefault : japiGetRequestHandler ctx (lit "japi_request_not_found_handler")
      = some .japiRequestNotFoundHandler :=
    hi.builtin ⟨lit "japi_request_not_found_handler", .japiRequestNotFoundHandler⟩
      (by decide +kernel)
  unfold dispatch fallback
  cases japiGetRequestHandler ctx name with
  | some func => rfl
  | none =>
      cases japiGetRequestHandler ctx (lit "request_not_found_handler") with
      | some func => rfl
      | none => exact hdefault

theorem exists_request (name : CStr) :
    ∃ (P : Program) (request : CStr) (j : Json), P.json.parse request = some j ∧
      requestName j = some name ∧ argsType j = .object := by
  refine ⟨Program.idle (JsonC.table [(lit "",
    .object [(lit "japi_request", .string name.bytes), (lit "args", .object [])])]),
    lit "", _, rfl, ?_, ?_⟩
  · simp [requestName, Json.member?]
  · have hother : (lit "args" == lit "japi_request") = false := by decide +kernel
    simp [argsType, Json.member?, List.lookup_cons, hother, Json.type]

theorem keepsReserved_iff {ctx : JapiContext} (hi : Initialised ctx) :
    KeepsReserved ctx ↔ OnlyBuiltins ctx := by
  constructor
  · intro hk name func hres hfunc
    -- a client asks for the name
    obtain ⟨P, request, j, hparse, hname, hargs⟩ := exists_request name
    obtain ⟨out, func', hout, hcalled, hbuiltin⟩ :=
      hk P ⟨true, true⟩ none ⟨[]⟩ request 0 j name le_rfl hparse hname hres fun _ => hargs
    obtain ⟨_, _, _, _, out', -, -, -, hout', -, -, hcalled', -⟩ :=
      (japiProcessMessage_name P ⟨true, true⟩ none ctx ⟨[]⟩ le_rfl hparse hname).2.2
        (fun _ => hargs) _ (dispatch_eq hi name)
    rw [hout] at hout'
    cases hout'
    rw [hcalled, hfunc] at hcalled'
    cases hcalled'
    rcases hbuiltin with hbuiltin | ⟨hnone, -⟩
    · exact hbuiltin
    · rw [hfunc] at hnone
      cases hnone
  · intro ho P mem stale h request socket j name hs hparse hname hres hargs
    obtain ⟨_, _, _, _, out, -, -, -, hout, -, -, hcalled, -⟩ :=
      (japiProcessMessage_name P mem stale ctx h hs hparse hname).2.2 hargs _ (dispatch_eq hi name)
    refine ⟨out, _, hout, hcalled, ?_⟩
    cases hfunc : japiGetRequestHandler ctx name with
    | some func => exact .inl (ho name func hres hfunc)
    | none => exact .inr ⟨rfl, rfl⟩

/-! ## Sequences of registrations -/

/-- **The namespace is kept exactly if** no registration captures a reserved name. -/
theorem run_reserved_iff {calls : List Registration} {ctx : JapiContext}
    (hrun : run Registration.step japiInit calls = some ctx) :
    KeepsReserved ctx ↔ Meets Registration.step (fun ctx call => call.Keeps ctx) japiInit calls := by
  have hstep : ∀ {s e s'}, Initialised s ∧ OnlyBuiltins s → e.Keeps s →
      Registration.step s e = some s' → Initialised s' ∧ OnlyBuiltins s' :=
    fun h hkeeps hs => ⟨h.1.step hs, h.2.step h.1 hkeeps hs⟩
  have hneeds : ∀ {s e s'}, Initialised s ∧ OnlyBuiltins s → Registration.step s e = some s' →
      OnlyBuiltins s' → e.Keeps s :=
    fun h hs hgood hcap => hcap.not_onlyBuiltins h.1 hs hgood
  have hiff := run_good_iff And.right hstep hneeds ⟨initialised_japiInit, onlyBuiltins_japiInit⟩ hrun
  have hi : Initialised ctx := run_invariant Initialised.step initialised_japiInit hrun
  rw [keepsReserved_iff hi, ← hiff]
  constructor
  · -- what resolves in the end resolved to nothing else before
    rintro ho es₁ es₂ ctx₁ rfl hrun₁
    obtain ⟨ctx₁', hrun₁', hrun₂⟩ := run_append.mp hrun
    rw [hrun₁] at hrun₁'
    cases hrun₁'
    exact run_invariant_back OnlyBuiltins.of_step ho hrun₂
  · exact fun hall => hall calls [] ctx (List.append_nil calls).symm hrun

/-- A built-in name, one that is refused, and two others. -/
def someCalls : List Registration :=
  [⟨true, some (lit "JAPI_CMD_LIST"), some (.user 0)⟩, ⟨true, some (lit "japi_test"), some (.user 1)⟩,
    ⟨true, some (lit "get_temperature"), some (.user 2)⟩,
    ⟨true, some (lit "request_not_found_handler"), some (.user 3)⟩]

theorem run_reserved_iff_someCalls :
    ∃ ctx, run Registration.step japiInit someCalls = some ctx ∧ KeepsReserved ctx := by
  obtain ⟨ctx, hrun⟩ : ∃ ctx, run Registration.step japiInit someCalls = some ctx := ⟨_, rfl⟩
  exact ⟨ctx, hrun, (run_reserved_iff hrun).mpr (by decide +kernel)⟩

/-- The handler registered as `JAPI_foo` is called for `japi_foo`. -/
def capitals : List Registration := [⟨true, some (lit "JAPI_foo"), some (.user 0)⟩]

def fooText : CStr := lit "\x7b\"japi_request\":\"japi_foo\"\x7d"

def fooRequest : Json := .object [(lit "japi_request", .string (lit "japi_foo").bytes)]

def fooJson : JsonC := .table [(fooText, fooRequest)]

theorem capitals_captured :
    ∃ ctx, run Registration.step japiInit capitals = some ctx ∧ ¬ KeepsReserved ctx ∧
      Reserved (lit "japi_foo") ∧
      ∃ out, japiProcessMessage (Program.idle fooJson) ⟨true, true⟩ none ctx ⟨[]⟩ fooText 4
          = .ok out ∧ out.called = [.user 0] := by
  have hrun : run Registration.step japiInit capitals
      = some { japiInit with requests := ⟨lit "JAPI_foo", .user 0⟩ :: builtins.reverse } := by
    have hreg : registerRequest true japiInit (some (lit "JAPI_foo")) (some (.user 0))
        = (0, { japiInit with requests := ⟨lit "JAPI_foo", .user 0⟩ :: japiInit.requests }) := by
      rw [registerRequest]
      rw [if_neg (by decide +kernel), if_neg (by decide +kernel), if_neg (by decide +kernel)]
      rfl
    simp only [run, capitals, Registration.step, hreg, Option.bind_some, japiInit_requests]
  have hi : Initialised { japiInit with requests := ⟨lit "JAPI_foo", .user 0⟩ :: builtins.reverse } :=
    run_invariant Initialised.step initialised_japiInit hrun
  have hfoo : japiGetRequestHandler
      { japiInit with requests := ⟨lit "JAPI_foo", .user 0⟩ :: builtins.reverse } (lit "japi_foo")
      = some (.user 0) := by decide +kernel
  refine ⟨_, hrun, ?_, by decide, ?_⟩
  · rw [keepsReserved_iff hi]
    intro ho
    obtain ⟨req, hreq, hsame, -⟩ := ho (lit "japi_foo") _ (by decide) hfoo
    exact absurd hsame (by revert req; decide +kernel)
  · have hparse : (Program.idle fooJson).json.parse fooText = some fooRequest := rfl
    have hsocket : (0 : Int) ≤ 4 := by decide
    have hname : requestName fooRequest = some (lit "japi_foo") := by decide +kernel
    obtain ⟨_, _, _, _, out, -, -, -, hout, -, -, hcalled, -⟩ :=
      (japiProcessMessage_name (Program.idle fooJson) ⟨true, true⟩ none _ ⟨[]⟩ hsocket hparse
        hname).2.2 (fun hneeds => absurd hneeds (by decide +kernel)) _
        (dispatch_eq hi (lit "japi_foo"))
    rw [hfoo] at hcalled
    exact ⟨out, hout, hcalled⟩

end Libjapi
