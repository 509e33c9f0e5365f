/-
# `Libjapi.ClientCounter` — `num_clients` and the length of the client list

`num_clients` has 16 bits.  `japi_add_client` and `japi_remove_client` count it
up and down with the list, which nothing bounds if `max_clients` is 0:

    it is the number of nodes, and the admission test is made on that, in
    every state of a run exactly if no client is added to 65535     `run_counter_iff`
-/
import Libjapi.Requests
import Libjapi.Runs

namespace Libjapi

/-! ## Removing all clients -/

/-- **The loop of `japi_remove_all_clients`**: the node it stands on is the head of
the list, so every call removes it. -/
theorem removeClients_spec :
    ∀ (cs : List JapiClient) {ctx : JapiContext}, ctx.clients = cs →
      (removeClients cs ctx).ret = 0 ∧ (removeClients cs ctx).ctx.clients = [] ∧
        (removeClients cs ctx).ctx.numClients = ctx.numClients - UInt16.ofNat cs.length ∧
        (removeClients cs ctx).closed = cs.map JapiClient.socket
  | [], ctx, hcs => ⟨rfl, hcs, (sub_zero ctx.numClients).symm, rfl⟩
  | c :: cs, ctx, hcs => by
      have hremove := japiRemoveClient_of_clients (show ctx.clients = [] ++ c :: cs from hcs)
        (by simp)
      obtain ⟨hret, hclients, hnum, hclosed⟩ := removeClients_spec cs
        (show (japiRemoveClient ctx c.socket).ctx.clients = cs by rw [hremove]; rfl)
      have hzero : (japiRemoveClient ctx c.socket).ret = 0 := by rw [hremove]
      have hcount : (japiRemoveClient ctx c.socket).ctx.numClients = ctx.numClients - 1 := by
        rw [hremove]
      have hfirst : (japiRemoveClient ctx c.socket).closed = [c.socket] := by rw [hremove]
      simp only [removeClients, hzero, ne_eq, not_true_eq_false, if_false]
      refine ⟨hret, hclients, ?_, by rw [hclosed, hfirst]; rfl⟩
      rw [hnum, hcount, List.length_cons, UInt16.ofNat_add, sub_sub, add_comm]
      rfl

theorem japiRemoveAllClients_spec (ctx : JapiContext) :
    (japiRemoveAllClients ctx).ret = 0 ∧ (japiRemoveAllClients ctx).ctx.clients = [] ∧
      (japiRemoveAllClients ctx).ctx.numClients =
        ctx.numClients - UInt16.ofNat ctx.clients.length ∧
      (japiRemoveAllClients ctx).closed = ctx.sockets :=
  removeClients_spec ctx.clients rfl

/-! ## Runs -/

/-- A call that changes the list.  What `malloc` returns is part of it. -/
inductive ClientCall where
  | add (socket : Int) (malloc : Option Addr)
  | remove (socket : Int)
  | removeAll

namespace ClientCall

/-- One call; `assert(socket >= 0)`. -/
def step (ctx : JapiContext) : ClientCall → Option JapiContext
  | add socket malloc => if 0 ≤ socket then some (japiAddClient malloc ctx socket).2 else none
  | remove socket => if 0 ≤ socket then some (japiRemoveClient ctx socket).ctx else none
  | removeAll => some (japiRemoveAllClients ctx).ctx

/-- The counter is the number of nodes. -/
def Counted (ctx : JapiContext) : Prop := ctx.numClients.toNat = ctx.clients.length

/-- And so the admission test is made on that number. -/
structure Good (ctx : JapiContext) : Prop where
  counted : Counted ctx
  admits : ctx.admits = true ↔ ctx.maxClients = 0 ∨ ctx.clients.length < ctx.maxClients.toNat

/-- The condition on a call: there is room in the counter for a client that is added. -/
def Fits (ctx : JapiContext) : ClientCall → Prop
  | add _ (some _) => ctx.clients.length < 65535
  | _ => True

theorem Counted.good {ctx : JapiContext} (h : Counted ctx) : Good ctx := by
  refine ⟨h, ?_⟩
  rw [← h, ← UInt16.lt_iff_toNat_lt]
  simp only [JapiContext.admits, decide_eq_true_eq]

theorem Counted.step {ctx ctx' : JapiContext} {call : ClientCall} (h : Counted ctx)
    (hfits : Fits ctx call) (hstep : step ctx call = some ctx') : Counted ctx' := by
  unfold Counted at h ⊢
  cases call with
  | add socket malloc =>
      obtain ⟨-, heq⟩ := Option.ite_none_right_eq_some.mp hstep
      cases heq
      cases malloc with
      | none => exact h
      | some addr =>
          have hroom : ctx.clients.length < 65535 := hfits
          show (ctx.numClients + 1).toNat = ctx.clients.length + 1
          rw [UInt16.toNat_add, h]
          exact Nat.mod_eq_of_lt (show ctx.clients.length + 1 < 65536 by omega)
  | remove socket =>
      obtain ⟨-, heq⟩ := Option.ite_none_right_eq_some.mp hstep
      cases heq
      rcases japiRemoveClient_cases ctx socket with ⟨pre, c, post, hl, -, -, heq⟩ | ⟨-, heq⟩
      · rw [heq]
        show (ctx.numClients - 1).toNat = (pre ++ post).length
        have hlen : ctx.clients.length = (pre ++ post).length + 1 := by
          simp [hl, Nat.add_assoc]
        have hle : (1 : UInt16) ≤ ctx.numClients := by
          rw [UInt16.le_iff_toNat_le, h, hlen]
          exact Nat.le_add_left 1 _
        rw [UInt16.toNat_sub_of_le _ _ hle, h, hlen]
        rfl
      · rw [heq]
        exact h
  | removeAll =>
      cases hstep
      obtain ⟨-, hclients, hnum, -⟩ := japiRemoveAllClients_spec ctx
      rw [hclients, hnum, ← h, UInt16.ofNat_toNat, sub_self]
      rfl

/-- The 65536th client makes the counter 0. -/
theorem fits_of_good {ctx ctx' : JapiContext} {call : ClientCall}
    (hstep : ClientCall.step ctx call = some ctx') (hg : Good ctx') : Fits ctx call := by
  rcases call with ⟨socket, _ | addr⟩ | socket | _
  case add.some =>
    obtain ⟨-, heq⟩ := Option.ite_none_right_eq_some.mp hstep
    cases heq
    have hcount : (ctx.numClients + 1).toNat = ctx.clients.length + 1 := hg.counted
    have hlt := (ctx.numClients + 1).toNat_lt
    show ctx.clients.length < 65535
    omega
  all_goals trivial

/-- **The counter is the number of nodes in every state of a run exactly if** no
client is added to 65535 that are there. -/
theorem run_counter_iff {ctx : JapiContext} (hctx : ctx.numClients.toNat = ctx.clients.length)
    {es : List ClientCall} {ctx' : JapiContext} (hrun : run step ctx es = some ctx') :
    (∀ es₁ es₂ ctx₁, es = es₁ ++ es₂ → run step ctx es₁ = some ctx₁ → Good ctx₁) ↔
      Meets step Fits ctx es :=
  run_good_iff Counted.good Counted.step (fun _ => fits_of_good) hctx hrun

/-- A client comes, another one cannot be allocated, and both are removed. -/
theorem run_counter_iff_one :
    ∃ ctx, run step japiInit [add 4 (some 1), add 5 none, remove 5, removeAll] = some ctx ∧
      Good ctx := by
  obtain ⟨ctx, hrun⟩ : ∃ ctx, run step japiInit [add 4 (some 1), add 5 none, remove 5, removeAll]
    = some ctx := ⟨_, rfl⟩
  refine ⟨ctx, hrun, (run_counter_iff (by decide +kernel) hrun).mpr ?_ _ [] ctx (by simp) hrun⟩
  refine ⟨?_, fun ctx₁ h₁ => ⟨trivial, fun ctx₂ h₂ => ⟨trivial, fun _ _ => ⟨trivial, fun _ _ => trivial⟩⟩⟩⟩
  show _ < 65535
  decide +kernel

/-- So many clients, one after the other. -/
def adds (n : Nat) : List ClientCall := (List.range n).map fun i : Nat => add (4 + i) (some i)

theorem run_adds (ctx : JapiContext) (n : Nat) :
    ∃ ctx', run step ctx (adds n) = some ctx' ∧ ctx'.clients.length = ctx.clients.length + n ∧
      ctx'.numClients = ctx.numClients + UInt16.ofNat n := by
  induction n with
  | zero => exact ⟨ctx, rfl, rfl, (add_zero _).symm⟩
  | succ n ih =>
      obtain ⟨ctx₁, hrun, hlen, hnum⟩ := ih
      refine ⟨(japiAddClient (some n) ctx₁ (4 + n)).2, ?_, ?_, ?_⟩
      · rw [adds, List.range_succ, List.map_append]
        refine run_append.mpr ⟨ctx₁, hrun, ?_⟩
        have hpos : (0 : Int) ≤ 4 + n := by omega
        simp only [List.map_cons, List.map_nil, run, step, if_pos hpos, Option.bind_some]
      · simp only [japiAddClient, List.length_cons, hlen, Nat.add_assoc]
      · simp only [japiAddClient, hnum, UInt16.ofNat_add, add_assoc]
        rfl

/-- With 65536 clients the counter is 0. -/
theorem manyClients_zero :
    ∃ ctx, run step japiInit (adds 65536) = some ctx ∧ ctx.clients.length = 65536 ∧
      ctx.numClients = 0 ∧ ¬ Counted ctx := by
  obtain ⟨ctx, hrun, hlen, hnum⟩ := run_adds japiInit 65536
  have hlen' : ctx.clients.length = 65536 := hlen.trans (by decide +kernel)
  have hnum' : ctx.numClients = 0 := hnum.trans (by decide +kernel)
  refine ⟨ctx, hrun, hlen', hnum', ?_⟩
  unfold Counted
  rw [hlen', hnum']
  decide

end ClientCall

end Libjapi
