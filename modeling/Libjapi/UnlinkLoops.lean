/-
# `Libjapi.UnlinkLoops` — the loops of `japi_remove_client` and `japi_pushsrv_remove_client`

The loop that takes a socket off a list is written twice, once for the clients
of the context and once for the subscribers of a service.  Both are machines
here, of one access to a node or to the head of the list a step:

    japi_pushsrv_remove_client   `removeStep`         (`Libjapi.PushThreads`)
    japi_remove_client           `removeClientStep`

They do the same to their list in every step, whatever the memory holds
(`removeClientStep_list`), and the functions of `Libjapi.SendWalk` and
`Libjapi.ContextMem` are the machines, run to the end (`removeNode_eval`,
`removeClientLoop_eval`).  On a list that ends in NULL both take off the first
node with the socket, and `prev` is not NULL where they write through it
(`unlinkLoops_agree`).

The buffer in a client, which neither loop reads, is left out, and so is the
assertion that the socket is not negative, which the loops do not need.
-/
import Mathlib.Computability.StateTransition
import Libjapi.ContextMem

namespace Libjapi

open HeapList
open Relation (ReflTransGen TransGen)
open StateTransition (eval Reaches mem_eval reaches_eval)

/-! ## The code -/

/-- The client list. -/
def ContextMem.list (m : ContextMem) : ListMem := ⟨m.nodes, m.clients⟩

/-- One access of the loop of `japi_remove_client`; `none` is a fault.  `close`,
`free` and `num_clients--` are one step. -/
def removeClientStep (socket : Int) (m : ContextMem) : RemovePc → Option (ContextMem × RemovePc)
  | .start => some (m, .test none m.clients)
  | .test _ none => some (m, .returned (-1))
  | .test prev (some client) => -- "If first element"
      (m.nodes client).map fun c =>
        (m, if c.val = socket ∧ prev = none then .headNext client else .last prev client)
  | .headNext client => (m.nodes client).map fun c => (m, .headWrite client c.next)
  | .headWrite client next => some ({ m with clients := next }, .free client)
  | .last prev client => -- "If last element"
      (m.nodes client).map fun c =>
        (m, if c.val = socket then .lastNext prev client else .inner prev client)
  | .lastNext prev client =>
      (m.nodes client).map fun c =>
        (m, if c.next = none then .lastWrite prev client else .inner prev client)
  | .lastWrite prev client => (m.setNext prev none).map fun m' => (m', .free client)
  | .inner prev client =>
      (m.nodes client).map fun c =>
        (m, if c.val = socket then .innerNext prev client else .advance client)
  | .innerNext prev client => (m.nodes client).map fun c => (m, .innerWrite prev client c.next)
  | .innerWrite prev client next => (m.setNext prev next).map fun m' => (m', .free client)
  | .advance client => (m.nodes client).map fun c => (m, .test (some client) c.next)
  | .free client => (m.closeClient client).map fun m' => (m', .returned 0)
  | .returned _ => none

/-- `japi_pushsrv_remove_client`, at an access. -/
def removeNext (socket : Int) (s : ListMem × RemovePc) : Option (ListMem × RemovePc) :=
  removeStep socket s.1 s.2

/-- The loop of `japi_remove_client`, at an access. -/
def removeClientNext (socket : Int) (s : ContextMem × RemovePc) : Option (ContextMem × RemovePc) :=
  removeClientStep socket s.1 s.2

/-- The next access is `prev->next = …`, and `prev` is NULL. -/
def RemovePc.writesThroughNull : RemovePc → Prop
  | .lastWrite prev _ | .innerWrite prev _ _ => prev = none
  | _ => False

/-! ## The same accesses -/

theorem ContextMem.setNext_list (m : ContextMem) (prev next : Option Addr) :
    (m.setNext prev next).map ContextMem.list = m.list.setNext prev next := by
  cases prev with
  | none => rfl
  | some a =>
      cases hcell : m.nodes a with
      | none => simp only [ContextMem.setNext, ListMem.setNext, ContextMem.list, Option.bind_some,
          hcell, Option.map_none]
      | some c => simp only [ContextMem.setNext, ListMem.setNext, ContextMem.list, Option.bind_some,
          hcell, Option.map_some]

theorem ContextMem.closeClient_list (m : ContextMem) (client : Addr) :
    (m.closeClient client).map ContextMem.list = m.list.free client := by
  cases hcell : m.nodes client with
  | none => simp only [ContextMem.closeClient, ListMem.free, ContextMem.list, hcell, Option.map_none]
  | some c => simp only [ContextMem.closeClient, ListMem.free, ContextMem.list, hcell,
      Option.map_some]

/-- The state of one loop, on the list of the other. -/
def listState (s : ContextMem × RemovePc) : ListMem × RemovePc := (s.1.list, s.2)

/-- **The two loops do the same to their list**, at each access. -/
theorem removeClientStep_list (socket : Int) (s : ContextMem × RemovePc) :
    (removeClientNext socket s).map listState = removeNext socket (listState s) := by
  obtain ⟨m, pc⟩ := s
  have hread : ∀ (client : Addr) (f : Cell Int → RemovePc),
      ((m.nodes client).map fun c => (m, f c)).map listState =
        (m.list.cells client).map fun c => (m.list, f c) := by
    intro client f
    rw [Option.map_map]
    rfl
  have hwrite : ∀ (prev next : Option Addr) (pc' : RemovePc),
      ((m.setNext prev next).map fun m' => (m', pc')).map listState =
        (m.list.setNext prev next).map fun m' => (m', pc') := by
    intro prev next pc'
    rw [← m.setNext_list, Option.map_map, Option.map_map]
    rfl
  cases pc with
  | start => rfl
  | test prev client =>
      cases client with
      | none => rfl
      | some client => exact hread client _
  | headNext client => exact hread client _
  | headWrite client next => rfl
  | last prev client => exact hread client _
  | lastNext prev client => exact hread client _
  | lastWrite prev client => exact hwrite prev none _
  | inner prev client => exact hread client _
  | innerNext prev client => exact hread client _
  | innerWrite prev client next => exact hwrite prev next _
  | advance client => exact hread client _
  | free client =>
      have hfree : ((m.closeClient client).map fun m' => (m', RemovePc.returned 0)).map listState =
          (m.list.free client).map fun m' => (m', RemovePc.returned 0) := by
        rw [← m.closeClient_list, Option.map_map, Option.map_map]
        rfl
      refine hfree.trans ?_
      rw [ListMem.free, Option.map_map]
      rfl
  | returned ret => rfl

theorem respects_list (socket : Int) :
    StateTransition.Respects (removeClientNext socket) (removeNext socket)
      fun s t => listState s = t := by
  refine StateTransition.fun_respects.mpr fun s => ?_
  have hstep := removeClientStep_list socket s
  cases h : removeClientNext socket s with
  | none => exact (congrArg _ h).symm.trans hstep |>.symm
  | some s' =>
      rw [h, Option.map_some] at hstep
      exact TransGen.single hstep.symm

theorem eval_list (socket : Int) (s : ContextMem × RemovePc) :
    eval (removeNext socket) (listState s) = (eval (removeClientNext socket) s).map listState :=
  StateTransition.tr_eval' _ _ listState (respects_list socket) s

/-! ## The functions are the machines -/

theorem eval_of_step {σ : Type*} {f : σ → Option σ} {a b c : σ} (h : f a = some b)
    (hc : c ∈ eval f b) : c ∈ eval f a := by
  rw [reaches_eval (ReflTransGen.single h)]
  exact hc

theorem mem_eval_self {σ : Type*} {f : σ → Option σ} {a : σ} (h : f a = none) : a ∈ eval f a :=
  mem_eval.mpr ⟨ReflTransGen.refl, h⟩

theorem closeClient_eval {socket : Int} {m m' : ContextMem} {client : Addr} {ret : Int}
    (h : (m.closeClient client).map (·, (0 : Int)) = some (m', ret)) :
    (m', .returned ret) ∈ eval (removeClientNext socket) (m, .free client) := by
  obtain ⟨m₁, hclose, heq⟩ := Option.map_eq_some_iff.mp h
  cases heq
  refine eval_of_step (b := (m', .returned 0)) ?_ (mem_eval_self rfl)
  simp only [removeClientNext, removeClientStep, hclose, Option.map_some]

theorem setNext_eval {socket : Int} {m m' : ContextMem} {prev next : Option Addr} {client : Addr}
    {ret : Int} {pc : RemovePc}
    (hpc : removeClientNext socket (m, pc) = (m.setNext prev next).map fun m' => (m', .free client))
    (h : ((m.setNext prev next).bind (ContextMem.closeClient · client)).map (·, (0 : Int)) =
      some (m', ret)) :
    (m', .returned ret) ∈ eval (removeClientNext socket) (m, pc) := by
  cases hset : m.setNext prev next with
  | none =>
      rw [hset] at h
      cases h
  | some m₁ =>
      rw [hset, Option.map_some] at hpc
      rw [hset, Option.bind_some] at h
      exact eval_of_step hpc (closeClient_eval h)

/-- **The loop of `japi_remove_client` is the machine**, run to the end. -/
theorem removeClientLoop_eval (socket : Int) {m' : ContextMem} {ret : Int} {turns : Nat} :
    ∀ {m : ContextMem} {prev client : Option Addr},
      ContextMem.removeClientLoop socket turns m prev client = some (m', ret) →
      (m', .returned ret) ∈ eval (removeClientNext socket) (m, .test prev client) := by
  induction turns with
  | zero =>
      intro m prev client h
      cases h
  | succ turns ih =>
      intro m prev client h
      cases client with
      | none =>
          cases h
          exact eval_of_step rfl (mem_eval_self rfl)
      | some client =>
          obtain ⟨c, hcell, h⟩ := Option.bind_eq_some_iff.mp h
          -- what a step that reads `client` leads to
          have hread : ∀ (f : Cell Int → RemovePc),
              ((m.nodes client).map fun c => (m, f c)) = some (m, f c) := by
            intro f
            rw [hcell, Option.map_some]
          refine eval_of_step (hread _) ?_
          split at h
          · rename_i hfirst
            rw [if_pos hfirst]
            refine eval_of_step (hread _) (eval_of_step rfl (closeClient_eval h))
          · rename_i hfirst
            rw [if_neg hfirst]
            refine eval_of_step (hread _) ?_
            split at h
            · rename_i hlast
              rw [if_pos hlast.1]
              refine eval_of_step (hread _) ?_
              rw [if_pos hlast.2]
              exact setNext_eval rfl h
            · rename_i hlast
              split at h
              · rename_i hval
                rw [if_pos hval]
                refine eval_of_step (hread _) ?_
                rw [if_neg fun hnext => hlast ⟨hval, hnext⟩]
                refine eval_of_step (hread _) ?_
                rw [if_pos hval]
                exact eval_of_step (hread _) (setNext_eval rfl h)
              · rename_i hval
                rw [if_neg hval]
                refine eval_of_step (hread _) ?_
                rw [if_neg hval]
                exact eval_of_step (hread _) (ih h)

theorem removeLoop_ret (socket : Int) {m' : ListMem} {ret : Int} {turns : Nat} {m : ListMem} :
    ∀ {prev client : Option Addr}, removeLoop socket turns m prev client = some (m', ret) →
      ret = 0 ∨ ret = -1 ∧ m' = m := by
  have hfreed : ∀ {x : Option ListMem}, x.map (·, (0 : Int)) = some (m', ret) → ret = 0 := by
    intro x h
    obtain ⟨_, -, heq⟩ := Option.map_eq_some_iff.mp h
    cases heq
    rfl
  induction turns with
  | zero =>
      intro prev client h
      cases h
  | succ turns ih =>
      intro prev client h
      cases client with
      | none =>
          cases h
          exact .inr ⟨rfl, rfl⟩
      | some client =>
          obtain ⟨c, -, h⟩ := Option.bind_eq_some_iff.mp h
          split at h
          · exact .inl (hfreed h)
          · split at h
            · exact .inl (hfreed h)
            · split at h
              · exact .inl (hfreed h)
              · exact ih h

/-- A memory with nothing but the list. -/
def ListMem.alone (m : ListMem) : ContextMem where
  nodes := m.cells
  serviceCells _ := none
  requestCells _ := none
  requests := none
  pushServices := none
  clients := m.head
  numClients := 0
  closed := []

/-- **`japi_pushsrv_remove_client` is its machine**, run to the end. -/
theorem removeNode_eval (socket : Int) {turns : Nat} {m m' : ListMem} {ret : Int}
    (h : removeNode turns socket m = some (m', ret)) :
    (m', .returned ret) ∈ eval (removeNext socket) (m, .start) := by
  have hloop := removeClientLoop_eq socket turns m.alone none m.head
  rw [show removeLoop socket turns ⟨m.alone.nodes, m.alone.clients⟩ none m.head = some (m', ret)
    from h, Option.map_some] at hloop
  have heval : ((m.alone.withRemoval socket (m', ret)).1, RemovePc.returned ret) ∈
      eval (removeClientNext socket) (m.alone, .start) :=
    eval_of_step rfl (removeClientLoop_eval socket hloop)
  have hlist : (m.alone.withRemoval socket (m', ret)).1.list = m' := by
    rcases removeLoop_ret socket h with rfl | ⟨rfl, rfl⟩
    · rfl
    · rfl
  have hmem := Part.mem_map listState heval
  rw [← eval_list] at hmem
  rw [← hlist]
  exact hmem

/-! ## Every access -/

theorem RemoveInv.prev {cells : Cells Int} {l : List (Addr × Int)} {socket : Int} {pc : RemovePc}
    (h : RemoveInv cells l socket pc) : ¬ pc.writesThroughNull := by
  cases pc with
  | lastWrite prev client => exact h.2
  | innerWrite prev client next => exact h.2
  | _ => exact id

theorem reaches_inv {socket : Int} {m : ListMem} {l : List (Addr × Int)}
    (hpath : Path m.cells m.head l) {s : ListMem × RemovePc}
    (h : Reaches (removeNext socket) (m, .start) s) :
    ∃ l', Path s.1.cells s.1.head l' ∧ RemoveInv s.1.cells l' socket s.2 := by
  induction h with
  | refl => exact ⟨l, hpath, trivial⟩
  | @tail s t _ hstep ih =>
      obtain ⟨k, hpath, hinv⟩ := ih
      have hret : s.2.isReturned = false := by
        cases hpc : s.2 with
        | returned ret =>
            rw [removeNext, hpc] at hstep
            cases hstep
        | _ => rfl
      obtain ⟨m', pc', l', heq, hremoving⟩ := removeStep_spec hpath hinv hret
      obtain rfl : (m', pc') = t := Option.some.inj (heq.symm.trans hstep)
      exact ⟨l', hremoving.path, hremoving.inv⟩

theorem reaches_list {socket : Int} {s t : ContextMem × RemovePc}
    (h : Reaches (removeClientNext socket) s t) :
    Reaches (removeNext socket) (listState s) (listState t) := by
  obtain ⟨_, rfl, hlist⟩ := StateTransition.tr_reaches (respects_list socket) rfl h
  exact hlist

theorem removeNode_returns {m : ListMem} {l : List (Addr × Int)} (hpath : Path m.cells m.head l)
    (socket : Int) {turns : Nat} (hturns : l.length < turns) :
    ∃ m' ret, removeNode turns socket m = some (m', ret) ∧
      if ∃ e ∈ l, e.2 = socket then ret = 0 ∧ Erased m m' l socket else ret = -1 ∧ m' = m := by
  have hspec := removeNode_spec hpath socket hturns
  by_cases hmem : ∃ e ∈ l, e.2 = socket
  · rw [if_pos hmem] at hspec
    obtain ⟨m', hcall, herased⟩ := hspec
    refine ⟨m', 0, hcall, ?_⟩
    rw [if_pos hmem]
    exact ⟨rfl, herased⟩
  · rw [if_neg hmem] at hspec
    refine ⟨m, -1, hspec, ?_⟩
    rw [if_neg hmem]
    exact ⟨rfl, rfl⟩

/-- **The two unlink loops do the same to a list**: they remove the first node with the socket
and return 0, or return -1 and change nothing, from each access on; and `prev` is not NULL
at a write to `prev->next`. -/
theorem unlinkLoops_agree {m : ListMem} {l : List (Addr × Int)} (hpath : Path m.cells m.head l)
    (socket : Int) :
    ∃ m' ret,
      (if ∃ e ∈ l, e.2 = socket then ret = 0 ∧ Erased m m' l socket else ret = -1 ∧ m' = m) ∧
      (∀ s, Reaches (removeNext socket) (m, .start) s →
        (m', .returned ret) ∈ eval (removeNext socket) s ∧ ¬ s.2.writesThroughNull) ∧
      ∀ ctx : ContextMem, ctx.list = m → ∀ s, Reaches (removeClientNext socket) (ctx, .start) s →
        ((ctx.withRemoval socket (m', ret)).1, .returned ret) ∈ eval (removeClientNext socket) s ∧
          ¬ s.2.writesThroughNull := by
  obtain ⟨m', ret, hcall, heffect⟩ := removeNode_returns hpath socket (Nat.lt_succ_self l.length)
  refine ⟨m', ret, heffect, ?_, ?_⟩
  · intro s hs
    obtain ⟨l', -, hinv⟩ := reaches_inv hpath hs
    refine ⟨?_, hinv.prev⟩
    rw [← reaches_eval hs]
    exact removeNode_eval socket hcall
  · rintro ctx rfl s hs
    obtain ⟨l', -, hinv⟩ := reaches_inv hpath (reaches_list hs)
    refine ⟨?_, hinv.prev⟩
    have hloop : ContextMem.removeClientLoop socket (l.length + 1) ctx none ctx.clients =
        some (ctx.withRemoval socket (m', ret)) := by
      rw [removeClientLoop_eq]
      exact congrArg _ hcall
    rw [← reaches_eval hs]
    exact eval_of_step rfl (removeClientLoop_eval socket hloop)

/-- Socket 6 is in the middle of the list. -/
theorem unlinkLoops_agree_middle :
    ∃ m', Path m'.cells m'.head [(1, 5), (3, 5)] ∧ m'.cells 2 = none ∧
      (m', .returned 0) ∈ eval (removeNext 6) (fiveTwice, .start) ∧
      ∃ ctx : ContextMem, ctx.list = m' ∧ ctx.closed = [6] ∧
        (ctx, .returned 0) ∈ eval (removeClientNext 6) (fiveTwice.alone, .start) := by
  obtain ⟨m', ret, heffect, hlist, hclients⟩ := unlinkLoops_agree fiveTwice_path 6
  rw [if_pos (by simp)] at heffect
  obtain ⟨rfl, herased⟩ := heffect
  have herase : eraseSocket 6 [(1, 5), (2, 6), (3, 5)] = [(1, 5), (3, 5)] := by decide
  have hpath' := herased.path
  rw [herase] at hpath'
  refine ⟨m', hpath', herased.freed 2 (by decide) (by rw [herase]; decide),
    (hlist _ ReflTransGen.refl).1, _, ?_, ?_, (hclients fiveTwice.alone rfl _ ReflTransGen.refl).1⟩
  · rfl
  · rfl

end Libjapi
