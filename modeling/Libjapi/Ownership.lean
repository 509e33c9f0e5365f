/-
# `Libjapi.Ownership` — who holds the objects of a call

`japi_process_message` holds the request, the response and the object the
handler writes to.  Each step up to the handler keeps every count equal to the
number of references (`Sound`), the built-in handlers do as well, and what the
call puts at its end is freed unless somebody else holds it:

    the steps before the handler                        `handlerCall_sound`
    the built-in handlers                               `callHandler_sound`
    every object of the call is free when it returns, and no count was
    negative, exactly if the call did not jump to
    `out_free`                                         `call_frees_iff`

It jumps for JSON with no string `japi_request`, if `req_name`, which the call
reads without having set it, is NULL.  There the request is put, and the two
objects made for the response are not.
-/
import Libjapi.RefCounts
import Libjapi.Responses

namespace Libjapi

open CStr (lit)
open Relation

theorem bind_eq_ok {ε α β : Type} {x : Except ε α} {f : α → Except ε β} {b : β}
    (h : x >>= f = .ok b) : ∃ a, x = .ok a ∧ f a = .ok b := by
  cases x with
  | error e => cases h
  | ok a => exact ⟨a, rfl, h⟩

/-! ## Heaps that are accounted for -/

/-- The references are those the call holds and those the rest of the program
holds, which lead to objects that were there before the call, below `b`. -/
structure Sound (h : JHeap) (b : Nat) (call rest : List JPtr) : Prop where
  counted : h.Counted (call ++ rest)
  acyclic : h.Acyclic
  below : ∀ p q, h.Refers p q → p < b → q < b
  rest : ∀ r, some r ∈ rest → r < b
  base : b ≤ h.cells.length

/-- Objects may be new, and no other object is referred to that was not before. -/
structure Grows (h h' : JHeap) : Prop where
  length : h.cells.length ≤ h'.cells.length
  refers : ∀ p q, h'.Refers p q → (∃ p', h.Refers p' q) ∨ h.cells.length ≤ q

theorem Grows.refl (h : JHeap) : Grows h h := ⟨le_rfl, fun p _ hpq => .inl ⟨p, hpq⟩⟩

theorem grows_alloc (h : JHeap) {n : JNode} (hn : n.children = []) : Grows h (h.alloc n).2 := by
  refine ⟨?_, ?_⟩
  · rw [JHeap.length_alloc]
    exact Nat.le_succ _
  · intro p q hpq
    exact .inl ⟨p, JHeap.refers_alloc_leaf hn hpq⟩

theorem Grows.trans {h₁ h₂ h₃ : JHeap} (a : Grows h₁ h₂) (b : Grows h₂ h₃) : Grows h₁ h₃ := by
  refine ⟨a.length.trans b.length, ?_⟩
  intro p q hpq
  rcases b.refers p q hpq with ⟨p', hpq⟩ | hle
  · exact a.refers p' q hpq
  · exact .inr (a.length.trans hle)

/-- No live object refers to it. -/
def Unreferred (h : JHeap) (r : Ref) : Prop := r < h.cells.length ∧ ∀ p, ¬ h.Refers p r

theorem Grows.unreferred {h h' : JHeap} (a : Grows h h') {r : Ref} (hr : Unreferred h r) :
    Unreferred h' r := by
  refine ⟨hr.1.trans_le a.length, ?_⟩
  intro p hp
  rcases a.refers p r hp with ⟨p', hp'⟩ | hle
  · exact hr.2 p' hp'
  · exact absurd hr.1 hle.not_gt

theorem Unreferred.not_reached {h : JHeap} {r : Ref} (hr : Unreferred h r) {q : Ref} (hne : q ≠ r) :
    ¬ ReflTransGen h.Refers q r := by
  intro hpath
  rcases ReflTransGen.cases_tail hpath with heq | ⟨p, -, hp⟩
  · exact hne heq.symm
  · exact hr.2 p hp

namespace Sound

variable {h h' : JHeap} {b : Nat} {call call' rest : List JPtr}

theorem perm (hs : Sound h b call rest) (hp : call.Perm call') : Sound h b call' rest :=
  ⟨hs.counted.perm (hp.append_right rest), hs.acyclic, hs.below, hs.rest, hs.base⟩

theorem reached_lt (hs : Sound h b call rest) {r : Ref} (hr : h.Reached rest r) : r < b := by
  obtain ⟨p, hp, hpath⟩ := hr
  induction hpath with
  | refl => exact hs.rest p hp
  | tail _ hqr ih => exact hs.below _ _ hqr ih

theorem alloc {n : JNode} (hs : Sound h b (n.children ++ call) rest) :
    Sound (h.alloc n).2 b ((h.alloc n).1 :: call) rest := by
  have hcounted := hs.counted
  rw [List.append_assoc] at hcounted
  have hnew : ∀ p, ¬ (h.alloc n).2.Refers p h.cells.length := by
    intro p hp
    rcases JHeap.refers_alloc hp with hp | ⟨-, hp⟩
    · exact (hs.counted.children _ _ hp).false
    · exact (hcounted.held _ (List.mem_append_left _ hp)).false
  refine ⟨hcounted.alloc, ?_, ?_, hs.rest, hs.base.trans ?_⟩
  · exact acyclic_source hs.acyclic (fun p q hpq => (JHeap.refers_alloc hpq).imp_right And.left) hnew
  · intro p q hpq hp
    rcases JHeap.refers_alloc hpq with hpq | ⟨rfl, -⟩
    · exact hs.below p q hpq hp
    · exact absurd hp hs.base.not_gt
  · rw [JHeap.length_alloc]
    exact Nat.le_succ _

theorem put {p : JPtr} (hs : Sound h b (p :: call) rest) : Sound (h.put p) b call rest := by
  have hfade : JHeap.Fades h (h.put p) := JHeap.fades_putN _ h p
  refine ⟨hs.counted.put, ?_, ?_, hs.rest, hs.base.trans_eq hfade.length.symm⟩
  · exact fun r hr => hs.acyclic r (TransGen.mono (fun _ _ hpq => hfade.refers hpq) _ _ hr)
  · exact fun p q hpq hp => hs.below p q (hfade.refers hpq) hp

theorem get {p : JPtr} (hs : Sound h b call rest) (hp : ∀ r, p = some r → 0 < h.refs r) :
    Sound (h.get p) b (p :: call) rest ∧ (∀ q r, (h.get p).Refers q r ↔ h.Refers q r) ∧
      (h.get p).cells.length = h.cells.length := by
  obtain ⟨hcounted, hrefers⟩ := hs.counted.get hp
  have hlen : (h.get p).cells.length = h.cells.length := by
    cases p with
    | none => rfl
    | some r => exact JHeap.length_addRefs h r 1
  refine ⟨⟨hcounted, ?_, ?_, hs.rest, hs.base.trans_eq hlen.symm⟩, hrefers, hlen⟩
  · exact fun r hr => hs.acyclic r (TransGen.mono (fun _ _ hpq => (hrefers _ _).mp hpq) _ _ hr)
  · exact fun q r hqr hq => hs.below q r ((hrefers q r).mp hqr) hq

theorem objectAdd {a : Ref} {key : CStr} {val : JPtr} (hs : Sound h b (val :: call) rest)
    (ha : h.Anchored (call ++ rest) a) (hb : b ≤ a)
    (hno : ∀ q, val = some q → ¬ ReflTransGen h.Refers q a)
    (hadd : h.objectAdd (some a) key val = .ok h') : Sound h' b call rest := by
  have hlen : h'.cells.length = h.cells.length := (JHeap.objectAdd_frame hadd).1
  refine ⟨hs.counted.objectAdd ha hadd, ?_, ?_, hs.rest, hs.base.trans_eq hlen.symm⟩
  · cases val with
    | none =>
        refine fun r hr => hs.acyclic r (TransGen.mono (fun p q hpq => ?_) _ _ hr)
        exact (JHeap.refers_objectAdd hadd hpq).resolve_right (by simp)
    | some v =>
        refine acyclic_insert hs.acyclic (fun p q hpq => ?_) (hno v rfl)
        refine (JHeap.refers_objectAdd hadd hpq).imp_right ?_
        rintro ⟨rfl, heq⟩
        cases heq
        exact ⟨rfl, rfl⟩
  · intro p q hpq hp
    rcases JHeap.refers_objectAdd hadd hpq with hpq | ⟨rfl, -⟩
    · exact hs.below p q hpq hp
    · exact absurd hp hb.not_gt

/-- What a live object refers to can be added as well, to an object nothing refers to. -/
theorem objectAdd_shared {a p : Ref} {key : CStr} {val : JPtr} (hs : Sound h b call rest)
    (ha : some a ∈ call) (hb : b ≤ a) (hun : Unreferred h a)
    (hval : ∀ q, val = some q → h.Refers p q)
    (hadd : (h.get val).objectAdd (some a) key val = .ok h') :
    Sound h' b call rest ∧ Grows h h' := by
  obtain ⟨hs₁, hrefers, hlen⟩ := hs.get fun q hq => hs.counted.pos_of_refers (hval q hq)
  have hun₁ : Unreferred (h.get val) a := ⟨hun.1.trans_eq hlen.symm,
    fun q hq => hun.2 q ((hrefers q a).mp hq)⟩
  refine ⟨hs₁.objectAdd (.inl (List.mem_append_left _ ha)) hb ?_ hadd, ?_, ?_⟩
  · rintro q rfl
    refine hun₁.not_reached ?_
    rintro rfl
    exact hun.2 p (hval q rfl)
  · rw [(JHeap.objectAdd_frame hadd).1, hlen]
  · intro q r hqr
    rcases JHeap.refers_objectAdd hadd hqr with hqr | ⟨-, heq⟩
    · exact .inl ⟨q, (hrefers q r).mp hqr⟩
    · exact .inl ⟨p, hval r heq⟩

theorem objectAddNew {a : Ref} {key : CStr} {n : JNode} (hs : Sound h b call rest)
    (hn : n.children = []) (ha : h.Anchored (call ++ rest) a) (hb : b ≤ a)
    (hadd : h.objectAddNew (some a) key n = .ok h') : Sound h' b call rest ∧ Grows h h' := by
  have hs₁ : Sound (h.alloc n).2 b ((h.alloc n).1 :: call) rest := Sound.alloc (by rwa [hn])
  refine ⟨hs₁.objectAdd (ha.mono (JHeap.extends_alloc h n)) hb ?_ hadd, ?_, ?_⟩
  · intro q hq hpath
    cases hq
    rcases ReflTransGen.cases_head hpath with rfl | ⟨q, hq, -⟩
    · exact absurd (ha.lt hs.counted) (lt_irrefl _)
    · exact h.not_refers_length q (JHeap.refers_alloc_leaf hn hq)
  · rw [(JHeap.objectAdd_frame hadd).1, JHeap.length_alloc]
    exact Nat.le_succ _
  · intro p q hpq
    rcases JHeap.refers_objectAdd hadd hpq with hpq | ⟨-, heq⟩
    · exact .inl ⟨p, JHeap.refers_alloc_leaf hn hpq⟩
    · cases heq
      exact .inr le_rfl

theorem arrayAddNew {a : Ref} {ps : List JPtr} {n : JNode} (hs : Sound h b call rest)
    (hn : n.children = []) (ha : some a ∈ call) (hb : b ≤ a) (harr : h.node? a = some (.array ps)) :
    Sound ((h.alloc n).2.arrayAdd (some a) (h.alloc n).1) b call rest ∧
      Grows h ((h.alloc n).2.arrayAdd (some a) (h.alloc n).1) := by
  have hs₁ : Sound (h.alloc n).2 b ((h.alloc n).1 :: call) rest := Sound.alloc (by rwa [hn])
  have harr₁ := JHeap.extends_alloc h n a _ harr
  have hpos := hs₁.counted.pos_of_held (List.mem_cons_of_mem _ (List.mem_append_left rest ha))
  have hlen := JHeap.arrayAdd_frame (h.alloc n).2 a (h.alloc n).1
  rw [JHeap.length_alloc] at hlen
  refine ⟨⟨hs₁.counted.arrayAdd harr₁ hpos, ?_, ?_, hs.rest, ?_⟩, ?_, ?_⟩
  · refine acyclic_insert (a := a) (b := h.cells.length) hs.acyclic (fun p q hpq => ?_) ?_
    · rcases JHeap.refers_arrayAdd hpq with hpq | ⟨rfl, heq⟩
      · exact .inl (JHeap.refers_alloc_leaf hn hpq)
      · cases heq
        exact .inr ⟨rfl, rfl⟩
    · -- the new string was not there before
      intro hpath
      rcases ReflTransGen.cases_head hpath with rfl | ⟨q, hq, -⟩
      · exact absurd (JHeap.node?_lt harr) (lt_irrefl _)
      · exact h.not_refers_length q hq
  · intro p q hpq hp
    rcases JHeap.refers_arrayAdd hpq with hpq | ⟨rfl, -⟩
    · exact hs.below p q (JHeap.refers_alloc_leaf hn hpq) hp
    · exact absurd hp hb.not_gt
  · exact hs.base.trans (by omega)
  · omega
  · intro p q hpq
    rcases JHeap.refers_arrayAdd hpq with hpq | ⟨-, heq⟩
    · exact .inl ⟨p, JHeap.refers_alloc_leaf hn hpq⟩
    · cases heq
      exact .inr le_rfl

theorem none_cons (hs : Sound h b call rest) : Sound h b (none :: call) rest :=
  ⟨JHeap.Counted.none_cons.mpr hs.counted, hs.acyclic, hs.below, hs.rest, hs.base⟩

/-! ## The parsed request -/

mutual
theorem build : ∀ (j : Json) {h : JHeap} {call : List JPtr}, Sound h b call rest →
    Sound (h.build j).2 b ((h.build j).1 :: call) rest
  | .null, _, _, hs => hs.none_cons
  | .boolean _, _, _, hs => Sound.alloc hs
  | .double _, _, _, hs => Sound.alloc hs
  | .int _, _, _, hs => Sound.alloc hs
  | .string _, _, _, hs => Sound.alloc hs
  | .array es, _, _, hs => Sound.alloc (buildAll es hs)
  | .object ms, _, _, hs => Sound.alloc (buildMembers ms hs)

theorem buildAll : ∀ (js : List Json) {h : JHeap} {call : List JPtr}, Sound h b call rest →
    Sound (h.buildAll js).2 b ((h.buildAll js).1 ++ call) rest
  | [], _, _, hs => hs
  | j :: js, _, _, hs => (buildAll js (build j hs)).perm List.perm_middle

theorem buildMembers : ∀ (ms : List (CStr × Json)) {h : JHeap} {call : List JPtr},
    Sound h b call rest →
    Sound (h.buildMembers ms).2 b ((h.buildMembers ms).1.map Prod.snd ++ call) rest
  | [], _, _, hs => hs
  | (_, j) :: ms, _, _, hs => (buildMembers ms (build j hs)).perm List.perm_middle
end

end Sound

/-! ## Up to the handler -/

section Steps

variable {h h' : JHeap} {b : Nat} {call rest : List JPtr}

theorem refers_of_getEx (hs : Sound h b call rest) {req : Ref} (hreq : some req ∈ call) {key : CStr}
    {val : JPtr} (hget : h.getEx (some req) key = some val) :
    ∃ n, h.node? req = some n ∧ val ∈ n.children ∧ ∀ q, val = some q → h.Refers req q := by
  cases hn : h.node? req with
  | none => simp only [JHeap.getEx, Option.bind_some, hn, reduceCtorEq] at hget
  | some n =>
      cases n with
      | object ms =>
          simp only [JHeap.getEx, Option.bind_some, hn] at hget
          have hmem : val ∈ (JNode.object ms).children :=
            List.mem_map_of_mem (JHeap.mem_of_lookup hget)
          refine ⟨_, rfl, hmem, ?_⟩
          rintro q rfl
          exact JHeap.refers_iff.mpr
            ⟨hs.counted.pos_of_held (List.mem_append_left rest hreq), _, hn, hmem⟩
      | _ => simp only [JHeap.getEx, Option.bind_some, hn, reduceCtorEq] at hget

theorem node?_of_objectAddNew {a r : Ref} {key : CStr} {v n : JNode}
    (hadd : h.objectAddNew (some a) key v = .ok h') (hne : r ≠ a) (hlt : r < h.cells.length)
    (hn : h'.node? r = some n) : h.node? r = some n := by
  rw [(JHeap.objectAdd_frame hadd).2 r hne, JHeap.node?, JHeap.getElem?_alloc, if_pos hlt] at hn
  exact hn

theorem addRequestNo_sound (hs : Sound h b call rest) {req resp : Ref} (hreq : some req ∈ call)
    (hresp : some resp ∈ call) (hbresp : b ≤ resp) (hne : req ≠ resp) (hun : Unreferred h resp)
    (hok : addRequestNo h (some req) (some resp) = .ok h') :
    Sound h' b call rest ∧ Grows h h' ∧ h'.node? req = h.node? req := by
  simp only [addRequestNo] at hok
  cases hno : h.getEx (some req) (lit "japi_request_no") with
  | none =>
      rw [hno] at hok
      cases hok
      exact ⟨hs, .refl _, rfl⟩
  | some jreqNo =>
      rw [hno] at hok
      obtain ⟨-, -, -, hval⟩ := refers_of_getEx hs hreq hno
      obtain ⟨hs', hg⟩ := hs.objectAdd_shared hresp hbresp hun hval hok
      refine ⟨hs', hg, ?_⟩
      rw [(JHeap.objectAdd_frame hok).2 req hne, JHeap.node?_get]

theorem requestArgs_sound (hs : Sound h b call rest) {ctx : JapiContext} {req resp : Ref}
    (hreq : some req ∈ call) (hresp : some resp ∈ call) (hbreq : b ≤ req) (hbresp : b ≤ resp)
    (hne : req ≠ resp) (hun : Unreferred h resp) {reqName : CStr} {args : JPtr × JHeap}
    (hok : requestArgs ctx h (some req) (some resp) reqName = .ok args) :
    Sound args.2 b call rest ∧ Grows h args.2 ∧
      ∀ a, args.1 = some a → ∃ n, h.node? req = some n ∧ some a ∈ n.children ∧
        args.2.node? req = some n := by
  obtain ⟨h₁, hadd₁, hok⟩ := bind_eq_ok hok
  obtain ⟨h₂, hadd₂, hok⟩ := bind_eq_ok hok
  have hlt : req < h.cells.length := hs.counted.held req (List.mem_append_left rest hreq)
  obtain ⟨hs₁, hg₁⟩ := hs.objectAddNew rfl (.inl (List.mem_append_left rest hresp)) hbresp hadd₁
  have hun₁ := hg₁.unreferred hun
  obtain ⟨hs₂, hg₂, hnode₂⟩ := addRequestNo_sound hs₁ hreq hresp hbresp hne hun₁ hadd₂
  have hun₂ := hg₂.unreferred hun₁
  cases hargs : h₂.getEx (some req) (lit "args") with
  | none =>
      simp only [hargs] at hok
      obtain ⟨h₃, hadd₃, hok⟩ := bind_eq_ok hok
      cases hok
      have hs₃ := hs₂.none_cons.objectAdd (.inl (List.mem_append_left rest hreq)) hbreq
        (by simp) hadd₃
      have hget : h₃.getEx (some req) (lit "args") = some none := by
        have hobj : h₂.typeOf (some req) = .object := by
          by_contra hno
          rw [JHeap.objectAdd_eq_error hno] at hadd₃
          cases hadd₃
        obtain ⟨h', hadd', -, hget⟩ := JHeap.objectAdd_ok hobj (lit "args") none
        rw [hadd₃] at hadd'
        cases hadd'
        exact hget
      refine ⟨hs₃, (hg₁.trans hg₂).trans ⟨(JHeap.objectAdd_frame hadd₃).1.ge, ?_⟩, ?_⟩
      · exact fun p q hpq => .inl ⟨p, (JHeap.refers_objectAdd hadd₃ hpq).resolve_right (by simp)⟩
      · intro a ha
        rw [hget] at ha
        cases ha
  | some jargs =>
      simp only [hargs] at hok
      obtain ⟨n, hn, hmem, hval⟩ := refers_of_getEx hs₂ hreq hargs
      have hold := node?_of_objectAddNew hadd₁ hne hlt (hnode₂ ▸ hn)
      split at hok
      · obtain ⟨h₃, hadd₃, hok⟩ := bind_eq_ok hok
        cases hok
        obtain ⟨hs₃, hg₃⟩ := hs₂.objectAdd_shared hresp hbresp hun₂ hval hadd₃
        refine ⟨hs₃, (hg₁.trans hg₂).trans hg₃, ?_⟩
        rintro a rfl
        refine ⟨n, hold, hmem, ?_⟩
        rw [(JHeap.objectAdd_frame hadd₃).2 req hne, JHeap.node?_get, hn]
      · cases hok
        refine ⟨hs₂, hg₁.trans hg₂, ?_⟩
        rintro a rfl
        exact ⟨n, hold, hmem, hn⟩

theorem addSocket_sound (hs : Sound h b call rest) {jargs : JPtr}
    (hargs : ∀ a, jargs = some a → h.Anchored (call ++ rest) a ∧ b ≤ a) {reqName : CStr}
    {socket : Int} (hok : addSocket h jargs reqName socket = .ok h') :
    Sound h' b call rest ∧ Grows h h' := by
  simp only [addSocket] at hok
  split at hok
  · cases jargs with
    | none => cases hok
    | some a => exact hs.objectAddNew rfl (hargs a rfl).1 (hargs a rfl).2 hok
  · cases hok
    exact ⟨hs, .refl h⟩

/-! ## The built-in handlers -/

theorem refusal_sound (hs : Sound h b call rest) {respData : Ref} (hresp : some respData ∈ call)
    (hb : b ≤ respData) {message : CStr} (hok : refusal h (some respData) message = .ok h') :
    Sound h' b call rest ∧ Grows h h' := by
  obtain ⟨h₁, hadd₁, hadd₂⟩ := bind_eq_ok hok
  have hheld := List.mem_append_left rest hresp
  obtain ⟨hs₁, hg₁⟩ := hs.objectAddNew rfl (.inl hheld) hb hadd₁
  obtain ⟨hs₂, hg₂⟩ := hs₁.objectAddNew rfl (.inl hheld) hb hadd₂
  exact ⟨hs₂, hg₁.trans hg₂⟩

theorem addNames_sound {arr : Ref} (hb : b ≤ arr) (harr : some arr ∈ call) :
    ∀ (names : List CStr) {h : JHeap} {ps : List JPtr}, Sound h b call rest →
      h.node? arr = some (.array ps) →
      Sound (addNames (some arr) names h) b call rest ∧ Grows h (addNames (some arr) names h)
  | [], h, _, hs, _ => ⟨hs, .refl h⟩
  | name :: names, h, ps, hs, hn => by
      obtain ⟨hs₁, hg₁⟩ := hs.arrayAddNew (n := .string name.bytes) rfl harr hb hn
      have hn₁ := JHeap.extends_alloc h (.string name.bytes) arr _ hn
      have hn₂ : ((h.alloc (.string name.bytes)).2.arrayAdd (some arr)
          (h.alloc (.string name.bytes)).1).node? arr =
          some (.array (ps ++ [(h.alloc (.string name.bytes)).1])) := by
        simp only [JHeap.arrayAdd, hn₁]
        exact JHeap.node?_setNode_self _ hn₁
      obtain ⟨hs₂, hg₂⟩ := addNames_sound hb harr names hs₁ hn₂
      exact ⟨hs₂, hg₁.trans hg₂⟩

theorem addNames_member_sound (hs : Sound h b call rest) {respData : Ref}
    (hresp : some respData ∈ call) (hb : b ≤ respData) (hun : Unreferred h respData)
    {key : CStr} {names : List CStr}
    (hok : (addNames (h.alloc (.array [])).1 names (h.alloc (.array [])).2).objectAdd
      (some respData) key (h.alloc (.array [])).1 = .ok h') :
    Sound h' b call rest ∧ Grows h h' := by
  have hs₁ : Sound (h.alloc (.array [])).2 b ((h.alloc (.array [])).1 :: call) rest := Sound.alloc hs
  have hg₁ := grows_alloc h (show (JNode.array []).children = [] from rfl)
  obtain ⟨hs₂, hg₂⟩ := addNames_sound hs.base List.mem_cons_self names hs₁
    (JHeap.node?_alloc h (.array []))
  have hg := hg₁.trans hg₂
  have hun₂ := hg.unreferred hun
  refine ⟨hs₂.objectAdd (.inl (List.mem_append_left rest hresp)) hb ?_ hok, ?_, ?_⟩
  · rintro q ⟨⟩
    exact hun₂.not_reached hun.1.ne'
  · rw [(JHeap.objectAdd_frame hok).1]
    exact hg.length
  · intro p q hpq
    rcases JHeap.refers_objectAdd hok hpq with hpq | ⟨-, heq⟩
    · exact hg.refers p q hpq
    · cases heq
      exact .inr le_rfl

theorem refused_sound (hs : Sound h b call rest) {respData : Ref} (hresp : some respData ∈ call)
    (hb : b ≤ respData) {message : CStr} {ctx : JapiContext} {served : Served}
    (hok : (refusal h (some respData) message >>= fun h => pure ⟨ctx, h, none⟩) = .ok served) :
    Sound served.heap b call rest ∧ Grows h served.heap := by
  obtain ⟨h₁, hadd, hok⟩ := bind_eq_ok hok
  cases hok
  exact refusal_sound hs hresp hb hadd

theorem granted_sound (hs : Sound h b call rest) {respData : Ref} (hresp : some respData ∈ call)
    (hb : b ≤ respData) {ctx : JapiContext} {joined : Option Addr} {served : Served}
    (hok : (h.objectAddNew (some respData) (lit "success") (.boolean true) >>= fun h =>
      pure ⟨ctx, h, joined⟩) = .ok served) :
    Sound served.heap b call rest ∧ Grows h served.heap := by
  obtain ⟨h₁, hadd, hok⟩ := bind_eq_ok hok
  cases hok
  exact hs.objectAddNew rfl (.inl (List.mem_append_left rest hresp)) hb hadd

theorem named_sound (hs : Sound h b call rest) {respData : Ref} (hresp : some respData ∈ call)
    (hb : b ≤ respData) {name : List Byte} {answer : JHeap → Except Abort Served} {served : Served}
    (hanswer : ∀ {h₁}, Sound h₁ b call rest → answer h₁ = .ok served →
      Sound served.heap b call rest ∧ Grows h₁ served.heap)
    (hok : (h.objectAddNew (some respData) (lit "service") (.string name) >>= answer) = .ok served) :
    Sound served.heap b call rest ∧ Grows h served.heap := by
  obtain ⟨h₁, hadd, hok⟩ := bind_eq_ok hok
  obtain ⟨hs₁, hg₁⟩ := hs.objectAddNew rfl (.inl (List.mem_append_left rest hresp)) hb hadd
  obtain ⟨hs₂, hg₂⟩ := hanswer hs₁ hok
  exact ⟨hs₂, hg₁.trans hg₂⟩

theorem japiPushsrvSubscribe_sound (hs : Sound h b call rest) {respData : Ref}
    (hresp : some respData ∈ call) (hb : b ≤ respData) {J : JsonC} {malloc : Bool}
    {ctx : JapiContext} {jreq : JPtr} {served : Served}
    (hok : japiPushsrvSubscribe J malloc ctx h jreq (some respData) = .ok served) :
    Sound served.heap b call rest ∧ Grows h served.heap := by
  unfold japiPushsrvSubscribe at hok
  split at hok
  · exact refused_sound hs hresp hb hok
  · exact refused_sound hs hresp hb hok
  · dsimp only at hok
    split at hok
    · exact refused_sound hs hresp hb hok
    · refine named_sound hs hresp hb (fun hs₁ hok => ?_) hok
      split at hok
      · exact granted_sound hs₁ hresp hb hok
      · exact refused_sound hs₁ hresp hb hok

theorem japiPushsrvUnsubscribe_sound (hs : Sound h b call rest) {respData : Ref}
    (hresp : some respData ∈ call) (hb : b ≤ respData) {J : JsonC} {ctx : JapiContext} {jreq : JPtr}
    {served : Served} (hok : japiPushsrvUnsubscribe J ctx h jreq (some respData) = .ok served) :
    Sound served.heap b call rest ∧ Grows h served.heap := by
  unfold japiPushsrvUnsubscribe at hok
  split at hok
  · exact refused_sound hs hresp hb hok
  · exact refused_sound hs hresp hb hok
  · dsimp only at hok
    split at hok
    · exact refused_sound hs hresp hb hok
    · refine named_sound hs hresp hb (fun hs₁ hok => ?_) hok
      split at hok
      · exact granted_sound hs₁ hresp hb hok
      · split at hok
        · exact refused_sound hs₁ hresp hb hok
        · exact refused_sound hs₁ hresp hb hok

/-- **A built-in handler** adds new objects to its response and nothing else. -/
theorem callHandler_sound {P : Program} {malloc : Bool} {ctx : JapiContext} {jargs : JPtr}
    {func : Handler} {served : Served} (hs : Sound h b call rest) {respData : Ref}
    (hresp : some respData ∈ call) (hb : b ≤ respData) (hun : Unreferred h respData)
    (hfunc : ∀ id, func ≠ .user id)
    (hok : callHandler P malloc ctx h jargs (some respData) func = .ok served) :
    Sound served.heap b call rest ∧ Grows h served.heap := by
  have hheld := List.mem_append_left rest hresp
  cases func with
  | japiRequestNotFoundHandler =>
      obtain ⟨h₁, hadd, hok⟩ := bind_eq_ok hok
      cases hok
      exact hs.objectAddNew rfl (.inl hheld) hb hadd
  | japiPushsrvList =>
      obtain ⟨h₁, hadd, hok⟩ := bind_eq_ok hok
      cases hok
      exact addNames_member_sound hs hresp hb hun hadd
  | japiCmdList =>
      obtain ⟨h₁, hadd, hok⟩ := bind_eq_ok hok
      cases hok
      exact addNames_member_sound hs hresp hb hun hadd
  | user id => exact absurd rfl (hfunc id)
  | japiPushsrvSubscribe => exact japiPushsrvSubscribe_sound hs hresp hb hok
  | japiPushsrvUnsubscribe => exact japiPushsrvUnsubscribe_sound hs hresp hb hok

end Steps

/-! ## The call of a handler -/

/-- The heap with the two objects made for the response. -/
def responsesHeap (P : Program) (h : JHeap) (request : CStr) : JHeap :=
  (((jsonTokenerParse P.json h request).2.alloc (.object [])).2.alloc (.object [])).2

/-- Where the two objects are. -/
def responseRef (P : Program) (h : JHeap) (request : CStr) : Ref :=
  (jsonTokenerParse P.json h request).2.cells.length

theorem responseData_ref (P : Program) (h : JHeap) (request : CStr) :
    (((jsonTokenerParse P.json h request).2.alloc (.object [])).2.alloc (.object [])).1 =
      some (responseRef P h request + 1) := by
  rw [responseRef, ← JHeap.length_alloc _ (.object [])]
  rfl

theorem toOption_eq_some {ε α : Type} {x : Except ε α} {a : α} (h : x.toOption = some a) :
    x = .ok a := by
  cases x with
  | error e => cases h
  | ok b =>
      cases h
      rfl

theorem handlerCall_steps {P : Program} {mem : Mem} {ctx : JapiContext} {h : JHeap} {request : CStr}
    {socket : Int} {c : HandlerCall} (hcall : handlerCall P mem ctx h request socket = some c) :
    c.jreq = (jsonTokenerParse P.json h request).1 ∧ (jsonTokenerParse P.json h request).1 ≠ none ∧
      c.jresp = some (responseRef P h request) ∧ c.jrespData = some (responseRef P h request + 1) ∧
      ∃ args, requestArgs ctx (responsesHeap P h request) c.jreq c.jresp c.reqName = .ok args ∧
        addSocket args.2 args.1 c.reqName socket = .ok c.heap ∧
        callHandler P mem.addClient ctx c.heap c.jargs c.jrespData c.func = .ok c.served := by
  simp only [handlerCall] at hcall
  split at hcall
  · rename_i hname
    obtain ⟨args, hargs, hcall⟩ := bind_eq_ok (toOption_eq_some hcall)
    obtain ⟨h₁, hsocket, hcall⟩ := bind_eq_ok hcall
    split at hcall
    · cases hcall
    · obtain ⟨served, hserved, hcall⟩ := bind_eq_ok hcall
      cases hcall
      have hdata := responseData_ref P h request
      refine ⟨rfl, ?_, rfl, hdata, args, hargs, hsocket, hserved⟩
      intro hnone
      rw [hnone] at hname
      cases hname
  · cases hcall

theorem unreferred_alloc {h : JHeap} {b : Nat} {call rest : List JPtr} (hs : Sound h b call rest)
    {n : JNode} (hn : n.children = []) : Unreferred (h.alloc n).2 h.cells.length := by
  refine ⟨?_, ?_⟩
  · rw [JHeap.length_alloc]
    exact Nat.lt_succ_self _
  · intro p hp
    rcases JHeap.refers_alloc hp with hp | ⟨-, hp⟩
    · exact (hs.counted.children _ _ hp).false
    · rw [hn] at hp
      cases hp

theorem responses_sound {P : Program} {h : JHeap} {held : List JPtr} (hcounted : h.Counted held)
    (hacyclic : h.Acyclic) (request : CStr) :
    Sound (jsonTokenerParse P.json h request).2 h.cells.length
        [(jsonTokenerParse P.json h request).1] held ∧
      Sound (responsesHeap P h request) h.cells.length
        [some (responseRef P h request + 1), some (responseRef P h request),
          (jsonTokenerParse P.json h request).1] held ∧
      Unreferred (responsesHeap P h request) (responseRef P h request) ∧
      Unreferred (responsesHeap P h request) (responseRef P h request + 1) := by
  have hs : Sound h h.cells.length [] held :=
    ⟨hcounted, hacyclic, fun p q hpq _ => hcounted.children p q hpq, hcounted.held, le_rfl⟩
  have hs₁ : Sound (jsonTokenerParse P.json h request).2 h.cells.length
      [(jsonTokenerParse P.json h request).1] held := by
    simp only [jsonTokenerParse]
    split
    · exact hs.none_cons
    · exact Sound.build _ hs
  have hempty : (JNode.object []).children = [] := rfl
  have hs₂ := Sound.alloc (n := .object []) hs₁
  have hs₃ := Sound.alloc (n := .object []) hs₂
  have hun₂ := unreferred_alloc hs₁ hempty
  have hun₃ := unreferred_alloc hs₂ hempty
  have hg := grows_alloc ((jsonTokenerParse P.json h request).2.alloc (.object [])).2 hempty
  rw [JHeap.length_alloc] at hun₃
  have hdata := responseData_ref P h request
  rw [hdata] at hs₃
  exact ⟨hs₁, hs₃, hg.unreferred hun₂, hun₃⟩

/-- **When the handler is called** the counts are right, and the response and the
object for the handler are referred to by none. -/
theorem handlerCall_sound {P : Program} {mem : Mem} {ctx : JapiContext} {h : JHeap}
    {held : List JPtr} (hcounted : h.Counted held) (hacyclic : h.Acyclic) {request : CStr}
    {socket : Int} {c : HandlerCall} (hcall : handlerCall P mem ctx h request socket = some c) :
    Sound c.heap h.cells.length [c.jreq, c.jresp, c.jrespData] held ∧
      Unreferred c.heap (responseRef P h request) ∧
      Unreferred c.heap (responseRef P h request + 1) := by
  obtain ⟨hjreq, hne, hjresp, hjdata, args, hargs, hsocket, -⟩ := handlerCall_steps hcall
  obtain ⟨hs₁, hs₃, hun, hundata⟩ := responses_sound (P := P) hcounted hacyclic request
  obtain ⟨req, hreq⟩ := Option.ne_none_iff_exists'.mp hne
  rw [hjreq, hreq] at hargs ⊢
  rw [hjresp] at hargs ⊢
  rw [hjdata]
  rw [hreq] at hs₁ hs₃
  have hlt : req < (jsonTokenerParse P.json h request).2.cells.length :=
    hs₁.counted.held req (by simp)
  -- the request and what it refers to were laid out
  have hreach : ∀ r, (jsonTokenerParse P.json h request).2.Reach (some req) r →
      h.cells.length ≤ r := by
    intro r hr
    simp only [jsonTokenerParse] at hreq hr
    split at hreq
    · cases hreq
    · rename_i j hparse
      simp only [hparse] at hr
      rw [← hreq] at hr
      exact JHeap.build_reach h j hr
  have hbreq := hreach req .here
  have hnode : ∀ {n}, (responsesHeap P h request).node? req = some n →
      (jsonTokenerParse P.json h request).2.node? req = some n := by
    intro n hn
    rw [JHeap.node?, responsesHeap, JHeap.getElem?_alloc, JHeap.length_alloc,
      if_pos (Nat.lt_add_right 1 hlt), JHeap.getElem?_alloc, if_pos hlt] at hn
    exact hn
  have hlt' : req < responseRef P h request := hlt
  obtain ⟨hs₄, hg₄, hchild⟩ := requestArgs_sound hs₃ (by simp) (by simp) hbreq
    (hbreq.trans hlt'.le) hlt'.ne hun hargs
  have hanchor : ∀ a, args.1 = some a → args.2.Anchored
      ([some (responseRef P h request + 1), some (responseRef P h request), some req] ++ held) a ∧
        h.cells.length ≤ a := by
    intro a ha
    obtain ⟨n, hn, hmem, hn'⟩ := hchild a ha
    refine ⟨.inr ⟨req, n, ?_, by simp, hn', hmem⟩, hreach a (.child (hnode hn) hmem .here)⟩
    rintro rfl
    refine hs₄.acyclic req (.single (JHeap.refers_iff.mpr ⟨?_, n, hn', hmem⟩))
    exact hs₄.counted.pos_of_held (by simp)
  obtain ⟨hs₅, hg₅⟩ := addSocket_sound hs₄ hanchor hsocket
  have hg := hg₄.trans hg₅
  exact ⟨hs₅.perm (List.reverse_perm [some req, some (responseRef P h request),
    some (responseRef P h request + 1)]), hg.unreferred hun, hg.unreferred hundata⟩

/-! ## The end of the call -/

/-- The handler of a user neither keeps nor drops references to what it is given:
the call still holds its three objects, nothing refers to the response around
the handler's own, and among the objects there were, the rest of the program
reaches those it reached before.  `held` is what it holds before, `kept` after. -/
structure HandlerCall.Accounts (c : HandlerCall) (held kept : List JPtr) : Prop where
  counted : c.served.heap.Counted ([c.jreq, c.jresp, c.jrespData] ++ kept)
  acyclic : c.served.heap.Acyclic
  response : ∀ r, c.jresp = some r → ∀ p, ¬ c.served.heap.Refers p r
  kept : ∀ r, r < c.heap.cells.length → c.served.heap.Reached kept r → c.heap.Reached held r

/-- The heaps at the end of a call. -/
def finishHeaps (h : JHeap) (jreq jresp jrespData : JPtr) : List JHeap :=
  match h.objectAdd jresp (lit "data") jrespData with
  | .ok h => [h, h.put jresp, (h.put jresp).put jreq]
  | .error _ => []

/-- The heaps a call goes through, those inside the handler apart.  No count goes
down and up again between two of them, so one that went below zero would show. -/
def callHeaps (P : Program) (mem : Mem) (stale : Option CStr) (ctx : JapiContext) (h : JHeap)
    (request : CStr) (socket : Int) : List JHeap :=
  (jsonTokenerParse P.json h request).2 ::
    if (jsonTokenerParse P.json h request).1 = none then []
    else responsesHeap P h request ::
      match handlerCall P mem ctx h request socket with
      | some c => c.heap :: c.served.heap :: finishHeaps c.served.heap c.jreq c.jresp c.jrespData
      | none =>
          if stale = none then
            [(responsesHeap P h request).put (jsonTokenerParse P.json h request).1]
          else
            finishHeaps (responsesHeap P h request) (jsonTokenerParse P.json h request).1
              (some (responseRef P h request)) (some (responseRef P h request + 1))

/-- **From "Add response arguments" to the end** the call gives back what it holds. -/
theorem finish_frees {P : Program} {malloc : Bool} {served : Served} {jreq : JPtr}
    {resp respData : Ref} {called : List Handler} {out : Outcome} {kept : List JPtr}
    (hcounted : served.heap.Counted ([jreq, some resp, some respData] ++ kept))
    (hacyclic : served.heap.Acyclic) (hun : ∀ p, ¬ served.heap.Refers p resp)
    (hne : respData ≠ resp) (hkept : ¬ served.heap.Reached kept resp)
    (hok : finish P malloc served jreq (some resp) (some respData) called = .ok out) :
    out.heap.Counted kept ∧ out.heap.Acyclic ∧
      (∀ r, out.heap.Reached kept r → served.heap.Reached kept r) ∧
      ∀ h' ∈ finishHeaps served.heap jreq (some resp) (some respData), ∀ r, 0 ≤ h'.refs r := by
  obtain ⟨h₁, hadd, hok⟩ := bind_eq_ok hok
  cases hok
  have hperm : served.heap.Counted (some respData :: ([some resp, jreq] ++ kept)) :=
    hcounted.perm ((List.reverse_perm [jreq, some resp, some respData]).symm.append_right kept)
  have hc₁ := hperm.objectAdd (.inl (by simp)) hadd
  have hc₂ : (h₁.put (some resp)).Counted (jreq :: kept) := JHeap.Counted.put hc₁
  have hc₃ : ((h₁.put (some resp)).put jreq).Counted kept := hc₂.put
  have hfade : JHeap.Fades h₁ ((h₁.put (some resp)).put jreq) :=
    (JHeap.fades_putN _ h₁ _).trans (JHeap.fades_putN _ _ jreq)
  have hrefers : ∀ p q, ((h₁.put (some resp)).put jreq).Refers p q →
      served.heap.Refers p q ∨ (p = resp ∧ q = respData) := by
    intro p q hpq
    refine (JHeap.refers_objectAdd hadd (hfade.refers hpq)).imp_right ?_
    rintro ⟨rfl, heq⟩
    cases heq
    exact ⟨rfl, rfl⟩
  refine ⟨hc₃, acyclic_insert hacyclic hrefers ?_, ?_, ?_⟩
  · intro hpath
    rcases ReflTransGen.cases_tail hpath with heq | ⟨p, -, hp⟩
    · exact hne heq.symm
    · exact hun p hp
  · rintro r ⟨p, hp, hpath⟩
    refine ⟨p, hp, ?_⟩
    induction hpath with
    | refl => exact .refl
    | tail _ hqr ih =>
        rcases hrefers _ _ hqr with hqr | ⟨rfl, -⟩
        · exact ih.tail hqr
        · exact absurd ⟨p, hp, ih⟩ hkept
  · intro h' hmem
    simp only [finishHeaps, hadd, List.mem_cons, List.not_mem_nil, or_false] at hmem
    rcases hmem with rfl | rfl | rfl
    · exact hc₁.nonneg
    · exact hc₂.nonneg
    · exact hc₃.nonneg

/-- An object that a handler of the user made and holds on to. -/
def HandlersOwn (P : Program) (mem : Mem) (ctx : JapiContext) (h : JHeap) (request : CStr)
    (socket : Int) (kept : List JPtr) (h' : JHeap) (r : Ref) : Prop :=
  ∃ c id, handlerCall P mem ctx h request socket = some c ∧ c.func = .user id ∧
    c.heap.cells.length ≤ r ∧ h'.Reached kept r

theorem refs_eq_zero_or {h : JHeap} {kept : List JPtr} (hc : h.Counted kept) (ha : h.Acyclic)
    (r : Ref) : h.refs r = 0 ∨ h.Reached kept r := by
  rcases (hc.nonneg r).lt_or_eq with hpos | hzero
  · exact .inr (hc.reached ha hpos)
  · exact .inl hzero.symm

/-- What the rest of the program holds after the call; only a handler of the user
changes it. -/
def HandlerCall.heldAfter (c : HandlerCall) (held kept : List JPtr) : List JPtr :=
  match c.func with
  | .user _ => kept
  | _ => held

/-- **Where a handler was called** the counts are right at the end, and what is reached
then was there before the call or is the handler's own. -/
theorem handlerCall_ends {P : Program} {mem : Mem} {ctx : JapiContext} {h : JHeap}
    {held kept : List JPtr} (hcounted : h.Counted held) (hacyclic : h.Acyclic) {request : CStr}
    {socket : Int} {c : HandlerCall} (hcall : handlerCall P mem ctx h request socket = some c)
    (huser : ∀ id, c.func = .user id → c.Accounts held kept) {out : Outcome}
    (hok : finish P mem.ndstr c.served c.jreq c.jresp c.jrespData [c.func] = .ok out) :
    out.heap.Counted (c.heldAfter held kept) ∧ out.heap.Acyclic ∧
      (∀ r, out.heap.Reached (c.heldAfter held kept) r → r < h.cells.length ∨
        (∃ id, c.func = .user id) ∧ c.heap.cells.length ≤ r) ∧
      (∀ r, 0 ≤ c.heap.refs r) ∧ (∀ r, 0 ≤ c.served.heap.refs r) ∧
      ∀ h' ∈ finishHeaps c.served.heap c.jreq c.jresp c.jrespData, ∀ r, 0 ≤ h'.refs r := by
  obtain ⟨hs, hun, hundata⟩ := handlerCall_sound hcounted hacyclic hcall
  obtain ⟨-, -, hjresp, hjdata, args, -, -, hserved⟩ := handlerCall_steps hcall
  have hbase : h.cells.length ≤ responseRef P h request :=
    (responses_sound (P := P) hcounted hacyclic request).1.base
  by_cases hfunc : ∃ id, c.func = .user id
  · obtain ⟨id, hid⟩ := hfunc
    have hafter : c.heldAfter held kept = kept := by simp only [HandlerCall.heldAfter, hid]
    have hacc := huser id hid
    have hcounted' := hacc.counted
    have hresponse := hacc.response _ hjresp
    have hold : ∀ r, c.served.heap.Reached kept r → r < h.cells.length ∨ c.heap.cells.length ≤ r := by
      intro r hr
      rcases Nat.lt_or_ge r c.heap.cells.length with hlt | hge
      · exact .inl (hs.reached_lt (hacc.kept r hlt hr))
      · exact .inr hge
    have hkept : ¬ c.served.heap.Reached kept (responseRef P h request) := by
      intro hr
      rcases hold _ hr with hlt | hge
      · exact absurd hbase hlt.not_ge
      · exact absurd hun.1 hge.not_gt
    rw [hafter]
    rw [hjresp, hjdata] at hok hcounted' ⊢
    obtain ⟨hc, ha, hreached, hheaps⟩ := finish_frees hcounted' hacc.acyclic hresponse
      (Nat.succ_ne_self _) hkept hok
    exact ⟨hc, ha, fun r hr => (hold r (hreached r hr)).imp_right fun hge => ⟨⟨id, hid⟩, hge⟩,
      hs.counted.nonneg, hcounted'.nonneg, hheaps⟩
  · have hafter : c.heldAfter held kept = held := by
      simp only [HandlerCall.heldAfter]
      cases hf : c.func with
      | user id => exact absurd ⟨id, hf⟩ hfunc
      | _ => rfl
    rw [hjdata] at hserved
    obtain ⟨hs', hg⟩ := callHandler_sound hs (by simp [hjdata])
      (hbase.trans (Nat.le_succ _)) hundata (fun id hid => hfunc ⟨id, hid⟩) hserved
    have hun' := hg.unreferred hun
    have hkept : ¬ c.served.heap.Reached held (responseRef P h request) := by
      intro hr
      exact absurd hbase (hs'.reached_lt hr).not_ge
    have hcounted' := hs'.counted
    rw [hafter]
    rw [hjresp, hjdata] at hok hcounted' ⊢
    obtain ⟨hc, ha, hreached, hheaps⟩ := finish_frees hcounted' hs'.acyclic hun'.2
      (Nat.succ_ne_self _) hkept hok
    exact ⟨hc, ha, fun r hr => .inl (hs'.reached_lt (hreached r hr)), hs.counted.nonneg,
      hs'.counted.nonneg, hheaps⟩

theorem handlerCall_frees {P : Program} {mem : Mem} {ctx : JapiContext} {h : JHeap}
    {held kept : List JPtr} (hcounted : h.Counted held) (hacyclic : h.Acyclic) {request : CStr}
    {socket : Int} {c : HandlerCall} (hcall : handlerCall P mem ctx h request socket = some c)
    (huser : ∀ id, c.func = .user id → c.Accounts held kept) {out : Outcome}
    (hok : finish P mem.ndstr c.served c.jreq c.jresp c.jrespData [c.func] = .ok out) :
    (∀ r, h.cells.length ≤ r →
        out.heap.refs r = 0 ∨ HandlersOwn P mem ctx h request socket kept out.heap r) ∧
      (∀ r, 0 ≤ c.heap.refs r) ∧ (∀ r, 0 ≤ c.served.heap.refs r) ∧
      ∀ h' ∈ finishHeaps c.served.heap c.jreq c.jresp c.jrespData, ∀ r, 0 ≤ h'.refs r := by
  obtain ⟨hc, ha, hreached, hrest⟩ := handlerCall_ends hcounted hacyclic hcall huser hok
  refine ⟨?_, hrest⟩
  intro r hr
  refine (refs_eq_zero_or hc ha r).imp_right fun hreach => ?_
  obtain ⟨⟨id, hid⟩, hge⟩ := (hreached r hreach).resolve_left hr.not_gt
  have hafter : c.heldAfter held kept = kept := by simp only [HandlerCall.heldAfter, hid]
  rw [hafter] at hreach
  exact ⟨c, id, hcall, hid, hge, hreach⟩

/-- The request is refused after the objects for the response were made. -/
def JumpsToOutFree (P : Program) (stale : Option CStr) (request : CStr) : Prop :=
  (∃ j, P.json.parse request = some j ∧ j.type ≠ .null ∧ requestName j = none) ∧ stale = none

theorem jsonTokenerParse_eq_none {J : JsonC} {h : JHeap} {text : CStr}
    (hnone : (jsonTokenerParse J h text).1 = none) :
    jsonTokenerParse J h text = (none, h) ∧ ∀ j, J.parse text = some j → j.type = .null := by
  cases hparse : J.parse text with
  | none =>
      refine ⟨by simp only [jsonTokenerParse, hparse], ?_⟩
      intro j hj
      cases hj
  | some j =>
      simp only [jsonTokenerParse, hparse] at hnone ⊢
      cases j with
      | null =>
          refine ⟨rfl, ?_⟩
          intro j hj
          cases hj
          rfl
      | _ => cases hnone

/-- Where no handler was called, a message with no name is refused, or answered. -/
theorem noHandler_cases {P : Program} {mem : Mem} {stale : Option CStr} {ctx : JapiContext}
    {h : JHeap} {request : CStr} {socket : Int} {out : Outcome}
    (hout : japiProcessMessage P mem stale ctx h request socket = .ok out)
    (hcall : handlerCall P mem ctx h request socket = none) :
    ((jsonTokenerParse P.json h request).1 = none ∧ out.heap = h ∧ ¬ JumpsToOutFree P stale request ∧
        (jsonTokenerParse P.json h request).2 = h) ∨
      ((jsonTokenerParse P.json h request).1 ≠ none ∧ JumpsToOutFree P stale request ∧ stale = none ∧
        out.heap = (responsesHeap P h request).put (jsonTokenerParse P.json h request).1) ∨
      ((jsonTokenerParse P.json h request).1 ≠ none ∧ ¬ JumpsToOutFree P stale request ∧ stale ≠ none ∧
        finish P mem.ndstr ⟨ctx, responsesHeap P h request, none⟩
          (jsonTokenerParse P.json h request).1 (some (responseRef P h request))
          (some (responseRef P h request + 1)) [] = .ok out) := by
  have hs := japiProcessMessage_socket hout
  have hnamed : (P.json.parse request).bind requestName = none := by
    rcases handlerCall_of_ok hout with ⟨hnone, -, -⟩ | ⟨j, name, c, resp, respData, -, -, -, -, hc, -⟩
    · exact hnone
    · rw [hcall] at hc
      cases hc
  by_cases hreq : (jsonTokenerParse P.json h request).1 = none
  · obtain ⟨hself, hnull⟩ := jsonTokenerParse_eq_none hreq
    simp only [japiProcessMessage, hs.not_gt, if_false, hreq, if_true] at hout
    cases hout
    rw [hself]
    refine .inl ⟨rfl, rfl, ?_, rfl⟩
    rintro ⟨⟨j, hj, hne, -⟩, -⟩
    exact hne (hnull j hj)
  · cases hparse : P.json.parse request with
    | none => exact absurd (by simp only [jsonTokenerParse, hparse]) hreq
    | some j =>
        rw [hparse] at hnamed
        have hname : requestName j = none := hnamed
        have hne := type_ne_null hparse hreq
        obtain ⟨-, hd⟩ := jsonTokenerParse_spec hparse h
        have hd₃ := (hd.mono (JHeap.extends_alloc _ (.object []))).mono
          (JHeap.extends_alloc _ (.object []))
        have hdata := responseData_ref P h request
        have hval := japiGetValueAsStr_spec P.json hd₃ hreq stale
        rw [hname] at hval
        simp only [japiProcessMessage, hs.not_gt, if_false, hreq, hval.1, hval.2, hdata] at hout
        split at hout
        · rename_i hstale
          cases hout
          exact .inr (.inl ⟨hreq, ⟨⟨j, hparse, hne, hname⟩, hstale⟩, hstale, rfl⟩)
        · rename_i hstale
          exact .inr (.inr ⟨hreq, fun hjumps => hstale hjumps.2, hstale, hout⟩)

/-- A call that jumps to `out_free` leaves the response behind. -/
theorem outFree_leaks {P : Program} {h : JHeap} {held : List JPtr} (hcounted : h.Counted held)
    (hacyclic : h.Acyclic) (request : CStr) :
    0 < ((responsesHeap P h request).put (jsonTokenerParse P.json h request).1).refs
      (responseRef P h request) := by
  obtain ⟨-, hs, -, -⟩ := responses_sound (P := P) hcounted hacyclic request
  have hput := (hs.perm (List.reverse_perm [(jsonTokenerParse P.json h request).1,
    some (responseRef P h request), some (responseRef P h request + 1)])).put
  exact hput.counted.pos_of_held (by simp)

/-- **A call leaves no object behind**, and no count goes below zero, exactly if it
does not refuse a message after the objects for the response were made.  The
objects a handler of the user made and holds on to are its own. -/
theorem call_frees_iff {P : Program} {mem : Mem} {stale : Option CStr} {ctx : JapiContext}
    {h : JHeap} {held kept : List JPtr} (hcounted : h.Counted held) (hacyclic : h.Acyclic)
    {request : CStr} {socket : Int}
    (huser : ∀ c id, handlerCall P mem ctx h request socket = some c → c.func = .user id →
      c.Accounts held kept)
    {out : Outcome} (hout : japiProcessMessage P mem stale ctx h request socket = .ok out) :
    ((∀ r, h.cells.length ≤ r →
        out.heap.refs r = 0 ∨ HandlersOwn P mem ctx h request socket kept out.heap r) ∧
      ∀ h' ∈ callHeaps P mem stale ctx h request socket, ∀ r, 0 ≤ h'.refs r) ↔
      ¬ JumpsToOutFree P stale request := by
  obtain ⟨hs₁, hs₃, hun, -⟩ := responses_sound (P := P) hcounted hacyclic request
  have hbeyond : ∀ r, h.cells.length ≤ r → h.refs r = 0 := by
    intro r hr
    rw [JHeap.refs, List.getElem?_eq_none hr]
    rfl
  cases hcall : handlerCall P mem ctx h request socket with
  | some c =>
      have hs := japiProcessMessage_socket hout
      have heq := japiProcessMessage_eq P mem stale ctx h request hs
      rw [hcall] at heq
      obtain ⟨hfree, hheap, hserved, hheaps⟩ := handlerCall_frees hcounted hacyclic hcall
        (fun id => huser c id hcall) (heq ▸ hout)
      refine iff_of_true ⟨hfree, ?_⟩ ?_
      · intro h' hmem
        obtain ⟨-, hne, -⟩ := handlerCall_steps hcall
        simp only [callHeaps, if_neg hne, hcall, List.mem_cons] at hmem
        rcases hmem with rfl | rfl | rfl | rfl | hmem
        · exact hs₁.counted.nonneg
        · exact hs₃.counted.nonneg
        · exact hheap
        · exact hserved
        · exact hheaps h' hmem
      · rintro ⟨⟨j, hparse, -, hname⟩, -⟩
        rcases handlerCall_of_ok hout with ⟨-, hnone, -⟩ | ⟨j', name, -, -, -, hparse', hname', -⟩
        · rw [hcall] at hnone
          cases hnone
        · rw [hparse] at hparse'
          cases hparse'
          rw [hname] at hname'
          cases hname'
  | none =>
      rcases noHandler_cases hout hcall with ⟨hreq, hheap, hno, hself⟩ | ⟨hreq, hyes, hstale, hheap⟩ |
        ⟨hreq, hno, hstale, hfinish⟩
      · refine iff_of_true ⟨fun r hr => .inl ?_, ?_⟩ hno
        · rw [hheap]
          exact hbeyond r hr
        · intro h' hmem
          simp only [callHeaps, if_pos hreq, List.mem_cons, List.not_mem_nil, or_false] at hmem
          rw [hmem]
          exact hs₁.counted.nonneg
      · -- the response is held by nobody any more, and was not put
        refine iff_of_false ?_ (not_not.mpr hyes)
        rintro ⟨hfree, -⟩
        have hpos := outFree_leaks (P := P) hcounted hacyclic request
        rw [← hheap] at hpos
        rcases hfree _ hs₁.base with hzero | ⟨c, id, hc, -⟩
        · exact hpos.ne' hzero
        · rw [hcall] at hc
          cases hc
      · have hperm := hs₃.perm (List.reverse_perm [(jsonTokenerParse P.json h request).1,
          some (responseRef P h request), some (responseRef P h request + 1)])
        have hkept : ¬ (responsesHeap P h request).Reached held (responseRef P h request) :=
          fun hr => absurd hs₁.base (hs₃.reached_lt hr).not_ge
        obtain ⟨hc, ha, hreached, hheaps⟩ := finish_frees hperm.counted hs₃.acyclic hun.2
          (Nat.succ_ne_self _) hkept hfinish
        refine iff_of_true ⟨fun r hr => .inl ?_, ?_⟩ hno
        · refine (refs_eq_zero_or hc ha r).resolve_right fun hreach => ?_
          exact absurd hr (hs₃.reached_lt (hreached r hreach)).not_ge
        · intro h' hmem
          simp only [callHeaps, if_neg hreq, hcall, if_neg hstale, List.mem_cons] at hmem
          rcases hmem with rfl | rfl | hmem
          · exact hs₁.counted.nonneg
          · exact hs₃.counted.nonneg
          · exact hheaps h' hmem

theorem counted_nil : JHeap.Counted ⟨[]⟩ [] :=
  ⟨fun _ hr => absurd hr (Nat.not_lt_zero _), fun _ hr => absurd hr List.not_mem_nil,
    fun _ _ ⟨_, hc, _⟩ => absurd hc (by simp)⟩

theorem acyclic_nil : JHeap.Acyclic ⟨[]⟩ := by
  intro r hr
  obtain ⟨p, -, c, hc, -⟩ := TransGen.tail'_iff.mp hr
  exact absurd hc (by simp)

theorem thermometer_accounts {mem : Mem} {ctx : JapiContext} {socket : Int} {c : HandlerCall}
    (hcall : handlerCall thermometerProgram mem ctx ⟨[]⟩ thermometerText socket = some c)
    {id : Nat} (huser : c.func = .user id) : c.Accounts [] [] := by
  obtain ⟨hs, hun, hundata⟩ := handlerCall_sound counted_nil acyclic_nil hcall
  obtain ⟨-, -, hjresp, hjdata, -, -, -, hserved⟩ := handlerCall_steps hcall
  obtain ⟨hs', hg⟩ : Sound c.served.heap 0 [c.jreq, c.jresp, c.jrespData] [] ∧
      Grows c.heap c.served.heap := by
    rw [huser, callHandler] at hserved
    have hrun : ((thermometerProgram.users id).run ctx c.heap c.jargs c.jrespData).2 =
        ((c.heap.objectAddNew c.jrespData (lit "temperature") (.int 23)).toOption).getD c.heap := rfl
    cases hadd : c.heap.objectAddNew c.jrespData (lit "temperature") (.int 23) with
    | error e =>
        have hheap : c.served.heap = c.heap := by
          rw [← Except.ok.inj hserved]
          exact hrun.trans (by rw [hadd]; rfl)
        rw [hheap]
        exact ⟨hs, .refl _⟩
    | ok h' =>
        have hheap : c.served.heap = h' := by
          rw [← Except.ok.inj hserved]
          exact hrun.trans (by rw [hadd]; rfl)
        rw [hheap]
        rw [hjdata] at hadd hs ⊢
        exact hs.objectAddNew rfl (.inl (by simp)) (Nat.zero_le _) hadd
  refine ⟨hs'.counted, hs'.acyclic, ?_, ?_⟩
  · intro r hr
    rw [hjresp] at hr
    cases hr
    exact (hg.unreferred hun).2
  · rintro r - ⟨p, hp, -⟩
    exact absurd hp List.not_mem_nil

/-- The thermometer is read, and nothing is left of the call. -/
theorem call_frees_iff_thermometer :
    ∃ out, japiProcessMessage thermometerProgram ⟨true, true⟩ none thermometerCtx ⟨[]⟩ thermometerText
        4 = .ok out ∧ out.ret = 0 ∧ ∀ r, out.heap.refs r = 0 := by
  have hdispatch : dispatch thermometerCtx (lit "get_temperature") = some (.user 0) := by
    decide +kernel
  obtain ⟨_, _, _, _, out, -, -, -, hout, hret, -⟩ :=
    (japiProcessMessage_name thermometerProgram ⟨true, true⟩ none thermometerCtx ⟨[]⟩
      (show (0 : Int) ≤ 4 by decide) thermometerRequest_parse thermometerRequest_name).2.2
      (by decide +kernel) _ hdispatch
  have hnot : ¬ JumpsToOutFree thermometerProgram none thermometerText := by
    rintro ⟨⟨j, hparse, -, hname⟩, -⟩
    have hj : j = thermometerRequest := Option.some.inj (hparse.symm.trans thermometerRequest_parse)
    rw [hj, thermometerRequest_name] at hname
    cases hname
  obtain ⟨hfree, -⟩ := (call_frees_iff counted_nil acyclic_nil
    (fun c id hcall huser => thermometer_accounts hcall huser) hout).mpr hnot
  refine ⟨out, hout, hret, ?_⟩
  intro r
  rcases hfree r (Nat.zero_le r) with hzero | ⟨c, id, -, -, -, p, hp, -⟩
  · exact hzero
  · exact absurd hp List.not_mem_nil

/-- For `{}` the two objects made for the response are left behind, with `req_name` NULL. -/
theorem emptyObject_leaks :
    ∃ out, japiProcessMessage (Program.idle (JsonC.table [(lit "\x7b\x7d", .object [])]))
        ⟨true, true⟩ none japiInit ⟨[]⟩ (lit "\x7b\x7d") 4 = .ok out ∧
      out.heap.cells.map JCell.refs = [0, 1, 1] :=
  ⟨_, rfl, rfl⟩

end Libjapi
