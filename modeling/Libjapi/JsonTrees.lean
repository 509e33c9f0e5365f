/-
# `Libjapi.JsonTrees` — objects that share no cell

A pointer stands for a tree (`JHeap.Denotes`) as long as the nodes that can be
reached from it stay, so what a write to one object does to a tree depends on
what the tree reaches.  `Reach` is that relation; a tree does not reach back to
its own root, and the members of a parsed object reach different cells:

    the tree stays if what it reaches stays            `Denotes.frame`
    the value added under a key is the member's        `Denotes.objectAdd`
    reading a tree to the depth of the heap gives it   `Denotes.read`
    two members of a parsed object share no cell       `build_apart`
-/
import Libjapi.JsonC
import Mathlib.Data.Finset.Card
import Mathlib.Data.List.Pairwise

namespace Libjapi

/-- `JHeap.setMember`, on trees. -/
def Json.setMember (key : CStr) (val : Json) : List (CStr × Json) → List (CStr × Json)
  | [] => [(key, val)]
  | (k, v) :: ms => if k = key then (k, val) :: ms else (k, v) :: Json.setMember key val ms

namespace JHeap

/-! ## Reaching -/

/-- The objects that can be reached from a pointer. -/
inductive Reach (h : JHeap) : JPtr → Ref → Prop
  | here {r : Ref} : Reach h (some r) r
  | child {r r' : Ref} {n : JNode} {q : JPtr} : h.node? r = some n → q ∈ n.children →
      Reach h q r' → Reach h (some r) r'

/-- The two pointers reach no object in common. -/
def Apart (h : JHeap) (p q : JPtr) : Prop := ∀ r, h.Reach p r → ¬ h.Reach q r

/-- What the pointer reaches is the same in both heaps. -/
def SameBelow (h h' : JHeap) (p : JPtr) : Prop := ∀ r, h.Reach p r → h'.node? r = h.node? r

theorem not_reach_none {h : JHeap} {r : Ref} : ¬ h.Reach none r := fun hr => nomatch hr

theorem reach_some {h : JHeap} {r r' : Ref} {n : JNode} (hn : h.node? r = some n) :
    h.Reach (some r) r' ↔ r' = r ∨ ∃ q ∈ n.children, h.Reach q r' := by
  constructor
  · intro hr
    cases hr with
    | here => exact .inl rfl
    | child hn' hq hr' =>
        rw [hn] at hn'
        cases hn'
        exact .inr ⟨_, hq, hr'⟩
  · rintro (rfl | ⟨q, hq, hr'⟩)
    · exact .here
    · exact .child hn hq hr'

theorem SameBelow.reach {h h' : JHeap} {p : JPtr} (hs : h.SameBelow h' p) {r : Ref}
    (hr : h'.Reach p r) : h.Reach p r := by
  induction hr with
  | here => exact .here
  | child hn hq _ ih =>
      rw [hs _ .here] at hn
      exact .child hn hq (ih fun r' hr' => hs r' (.child hn hq hr'))

theorem SameBelow.child {h h' : JHeap} {r : Ref} {n : JNode} {q : JPtr}
    (hs : h.SameBelow h' (some r)) (hn : h.node? r = some n) (hq : q ∈ n.children) :
    h.SameBelow h' q := fun r' hr' => hs r' (.child hn hq hr')

/-! ## Trees -/

theorem DenotesAll.mem {h : JHeap} {q : JPtr} :
    ∀ {ps : List JPtr} {js : List Json}, DenotesAll h ps js → q ∈ ps →
      ∃ j ∈ js, Denotes h q j
  | _ :: _, j :: _, ⟨hd, hds⟩, hq => by
      rcases List.mem_cons.mp hq with rfl | hq
      · exact ⟨j, List.mem_cons_self, hd⟩
      · obtain ⟨j', hj', hd'⟩ := hds.mem hq
        exact ⟨j', List.mem_cons_of_mem _ hj', hd'⟩

theorem DenotesMembers.mem {h : JHeap} {q : JPtr} :
    ∀ {ps : List (CStr × JPtr)} {ms : List (CStr × Json)}, DenotesMembers h ps ms →
      q ∈ ps.map Prod.snd → ∃ m ∈ ms, Denotes h q m.2
  | (_, _) :: _, (k, j) :: _, ⟨_, hd, hds⟩, hq => by
      rcases List.mem_cons.mp hq with rfl | hq
      · exact ⟨(k, j), List.mem_cons_self, hd⟩
      · obtain ⟨m, hm, hd'⟩ := hds.mem hq
        exact ⟨m, List.mem_cons_of_mem _ hm, hd'⟩

theorem Denotes.node {h : JHeap} {r : Ref} {j : Json} (hd : Denotes h (some r) j) :
    ∃ n, h.node? r = some n := by
  cases j with
  | null => exact hd.elim
  | array es => exact ⟨_, hd.choose_spec.1⟩
  | object ms => exact ⟨_, hd.choose_spec.1⟩
  | _ => exact ⟨_, hd⟩

theorem Denotes.child {h : JHeap} {r : Ref} {j : Json} {n : JNode} {q : JPtr}
    (hd : Denotes h (some r) j) (hn : h.node? r = some n) (hq : q ∈ n.children) :
    ∃ j', Denotes h q j' ∧ sizeOf j' < sizeOf j := by
  cases j with
  | null => exact hd.elim
  | array es =>
      obtain ⟨ps, hps, hds⟩ := hd
      rw [hn] at hps
      cases hps
      obtain ⟨j', hj', hd'⟩ := hds.mem hq
      refine ⟨j', hd', ?_⟩
      have := List.sizeOf_lt_of_mem hj'
      simp only [Json.array.sizeOf_spec]
      omega
  | object ms =>
      obtain ⟨ps, hps, hds⟩ := hd
      rw [hn] at hps
      cases hps
      obtain ⟨⟨k, j'⟩, hm, hd'⟩ := hds.mem hq
      refine ⟨j', hd', ?_⟩
      have := List.sizeOf_lt_of_mem hm
      simp only [Json.object.sizeOf_spec, Prod.mk.sizeOf_spec] at this ⊢
      omega
  | _ =>
      simp only [Denotes, hn, Option.some.injEq] at hd
      subst hd
      exact absurd hq List.not_mem_nil

theorem Denotes.reach {h : JHeap} {p : JPtr} {r : Ref} (hr : h.Reach p r) :
    ∀ {j : Json}, Denotes h p j → ∃ j', Denotes h (some r) j' ∧ sizeOf j' ≤ sizeOf j := by
  induction hr with
  | here => exact fun hd => ⟨_, hd, Nat.le_refl _⟩
  | child hn hq _ ih =>
      intro j hd
      obtain ⟨j₁, hd₁, hlt⟩ := hd.child hn hq
      obtain ⟨j₂, hd₂, hle⟩ := ih hd₁
      exact ⟨j₂, hd₂, hle.trans hlt.le⟩

theorem Denotes.reach_node {h : JHeap} {p : JPtr} {j : Json} (hd : Denotes h p j) {r : Ref}
    (hr : h.Reach p r) : ∃ n, h.node? r = some n := by
  obtain ⟨j', hd', -⟩ := hd.reach hr
  exact hd'.node

mutual
theorem Denotes.unique {h : JHeap} :
    ∀ {j j' : Json} {p : JPtr}, Denotes h p j → Denotes h p j' → j = j'
  | .null, j', none, _, hd' => by cases j' <;> simp_all [Denotes]
  | .boolean _, j', some _, hd, hd' => by cases j' <;> simp_all [Denotes]
  | .double _, j', some _, hd, hd' => by cases j' <;> simp_all [Denotes]
  | .int _, j', some _, hd, hd' => by cases j' <;> simp_all [Denotes]
  | .string _, j', some _, hd, hd' => by cases j' <;> simp_all [Denotes]
  | .array es, j', some _, ⟨ps, hn, hds⟩, hd' => by
      cases j' with
      | array es' =>
          obtain ⟨ps', hn', hds'⟩ := hd'
          rw [hn] at hn'
          cases hn'
          rw [hds.unique hds']
      | _ => simp_all [Denotes]
  | .object ms, j', some _, ⟨ps, hn, hds⟩, hd' => by
      cases j' with
      | object ms' =>
          obtain ⟨ps', hn', hds'⟩ := hd'
          rw [hn] at hn'
          cases hn'
          rw [hds.unique hds']
      | _ => simp_all [Denotes]

theorem DenotesAll.unique {h : JHeap} :
    ∀ {js js' : List Json} {ps : List JPtr}, DenotesAll h ps js → DenotesAll h ps js' → js = js'
  | [], [], [], _, _ => rfl
  | [], _ :: _, [], _, hd' => hd'.elim
  | _ :: _, [], _ :: _, _, hd' => hd'.elim
  | _ :: _, _ :: _, _ :: _, ⟨hd, hds⟩, ⟨hd', hds'⟩ => by rw [hd.unique hd', hds.unique hds']

theorem DenotesMembers.unique {h : JHeap} :
    ∀ {ms ms' : List (CStr × Json)} {ps : List (CStr × JPtr)}, DenotesMembers h ps ms →
      DenotesMembers h ps ms' → ms = ms'
  | [], [], [], _, _ => rfl
  | [], _ :: _, [], _, hd' => hd'.elim
  | _ :: _, [], _ :: _, _, hd' => hd'.elim
  | (_, _) :: _, (_, _) :: _, (_, _) :: _, ⟨hk, hd, hds⟩, ⟨hk', hd', hds'⟩ => by
      rw [← hk, ← hk', hd.unique hd', hds.unique hds']
end

theorem Denotes.not_reach_root {h : JHeap} {r : Ref} {j : Json} {n : JNode} {q : JPtr}
    (hd : Denotes h (some r) j) (hn : h.node? r = some n) (hq : q ∈ n.children) :
    ¬ h.Reach q r := by
  intro hr
  obtain ⟨j₁, hd₁, hlt⟩ := hd.child hn hq
  obtain ⟨j₂, hd₂, hle⟩ := hd₁.reach hr
  rw [hd₂.unique hd] at hle
  omega

/-! ## What stays -/

mutual
/-- **A tree stays if what it reaches stays.** -/
theorem Denotes.frame {h h' : JHeap} :
    ∀ {j : Json} {p : JPtr}, Denotes h p j → h.SameBelow h' p → Denotes h' p j
  | .null, none, _, _ => trivial
  | .boolean _, some _, hd, hs => (hs _ .here).trans hd
  | .double _, some _, hd, hs => (hs _ .here).trans hd
  | .int _, some _, hd, hs => (hs _ .here).trans hd
  | .string _, some _, hd, hs => (hs _ .here).trans hd
  | .array _, some _, ⟨ps, hn, hd⟩, hs =>
      ⟨ps, (hs _ .here).trans hn, hd.frame fun _ hq => hs.child hn hq⟩
  | .object _, some _, ⟨ps, hn, hd⟩, hs =>
      ⟨ps, (hs _ .here).trans hn, hd.frame fun _ hq => hs.child hn hq⟩

theorem DenotesAll.frame {h h' : JHeap} :
    ∀ {js : List Json} {ps : List JPtr}, DenotesAll h ps js → (∀ q ∈ ps, h.SameBelow h' q) →
      DenotesAll h' ps js
  | [], [], _, _ => trivial
  | _ :: _, _ :: _, ⟨hd, hds⟩, hs =>
      ⟨hd.frame (hs _ List.mem_cons_self), hds.frame fun q hq => hs q (List.mem_cons_of_mem _ hq)⟩

theorem DenotesMembers.frame {h h' : JHeap} :
    ∀ {ms : List (CStr × Json)} {ps : List (CStr × JPtr)}, DenotesMembers h ps ms →
      (∀ q ∈ ps.map Prod.snd, h.SameBelow h' q) → DenotesMembers h' ps ms
  | [], [], _, _ => trivial
  | (_, _) :: _, (_, _) :: _, ⟨hk, hd, hds⟩, hs =>
      ⟨hk, hd.frame (hs _ List.mem_cons_self),
        hds.frame fun q hq => hs q (List.mem_cons_of_mem _ hq)⟩
end

theorem Extends.sameBelow {h h' : JHeap} (hext : h.Extends h') {p : JPtr} {j : Json}
    (hd : Denotes h p j) : h.SameBelow h' p := by
  intro r hr
  obtain ⟨n, hn⟩ := hd.reach_node hr
  rw [hn, hext r n hn]

theorem ChangesOnly.sameBelow {p q : JPtr} {h h' : JHeap} (hch : ChangesOnly p h h') {j : Json}
    (hd : Denotes h q j) (hp : ∀ r, p = some r → ¬ h.Reach q r) : h.SameBelow h' q := by
  intro r hr
  obtain ⟨n, hn⟩ := hd.reach_node hr
  rw [hn, hch.others r n (fun heq => hp r heq hr) hn]

/-! ## Reading -/

mutual
/-- Reading to a depth of as many objects as are reached gives the tree. -/
theorem Denotes.readN {h : JHeap} :
    ∀ {j : Json} {p : JPtr} (S : Finset Ref), Denotes h p j → (∀ r, h.Reach p r → r ∈ S) →
      JHeap.readN (S.card + 1) h p = j
  | .null, none, _, _, _ => rfl
  | .boolean _, some _, _, hd, _ => by
      simp only [Denotes] at hd
      simp only [JHeap.readN, hd]
  | .double _, some _, _, hd, _ => by
      simp only [Denotes] at hd
      simp only [JHeap.readN, hd]
  | .int _, some _, _, hd, _ => by
      simp only [Denotes] at hd
      simp only [JHeap.readN, hd]
  | .string _, some _, _, hd, _ => by
      simp only [Denotes] at hd
      simp only [JHeap.readN, hd]
  | .array es, some r, S, hd, hS => by
      obtain ⟨ps, hn, hds⟩ := hd
      have hroot : ∀ q ∈ ps, ∀ r', h.Reach q r' → r' ∈ S.erase r := by
        intro q hq r' hr'
        refine Finset.mem_erase.mpr ⟨?_, hS r' (.child hn hq hr')⟩
        rintro rfl
        exact Denotes.not_reach_root (j := .array es) ⟨ps, hn, hds⟩ hn hq hr'
      have hcard := Finset.card_erase_add_one (hS r .here)
      simp only [JHeap.readN, hn]
      rw [← hcard, hds.readN (S.erase r) hroot]
  | .object ms, some r, S, hd, hS => by
      obtain ⟨ps, hn, hds⟩ := hd
      have hroot : ∀ q ∈ ps.map Prod.snd, ∀ r', h.Reach q r' → r' ∈ S.erase r := by
        intro q hq r' hr'
        refine Finset.mem_erase.mpr ⟨?_, hS r' (.child hn hq hr')⟩
        rintro rfl
        exact Denotes.not_reach_root (j := .object ms) ⟨ps, hn, hds⟩ hn hq hr'
      have hcard := Finset.card_erase_add_one (hS r .here)
      simp only [JHeap.readN, hn]
      rw [← hcard, hds.readN (S.erase r) hroot]

theorem DenotesAll.readN {h : JHeap} :
    ∀ {js : List Json} {ps : List JPtr} (S : Finset Ref), DenotesAll h ps js →
      (∀ q ∈ ps, ∀ r, h.Reach q r → r ∈ S) → ps.map (JHeap.readN (S.card + 1) h) = js
  | [], [], _, _, _ => rfl
  | _ :: _, _ :: _, S, ⟨hd, hds⟩, hS => by
      rw [List.map_cons, hd.readN S (hS _ List.mem_cons_self),
        hds.readN S fun q hq => hS q (List.mem_cons_of_mem _ hq)]

theorem DenotesMembers.readN {h : JHeap} :
    ∀ {ms : List (CStr × Json)} {ps : List (CStr × JPtr)} (S : Finset Ref),
      DenotesMembers h ps ms → (∀ q ∈ ps.map Prod.snd, ∀ r, h.Reach q r → r ∈ S) →
      (ps.map fun m => (m.1, JHeap.readN (S.card + 1) h m.2)) = ms
  | [], [], _, _, _ => rfl
  | (_, _) :: _, (_, _) :: _, S, ⟨hk, hd, hds⟩, hS => by
      rw [List.map_cons, hd.readN S (hS _ List.mem_cons_self),
        hds.readN S fun q hq => hS q (List.mem_cons_of_mem _ hq), hk]
end

/-- **Reading a pointer gives the tree it stands for.** -/
theorem Denotes.read {h : JHeap} {p : JPtr} {j : Json} (hd : Denotes h p j) : h.read p = j := by
  have hS : ∀ r, h.Reach p r → r ∈ Finset.range h.cells.length := by
    intro r hr
    obtain ⟨n, hn⟩ := hd.reach_node hr
    exact Finset.mem_range.mpr (node?_lt hn)
  have := hd.readN _ hS
  rwa [Finset.card_range] at this

/-! ## Writing -/

theorem KeepsTypes.length_le {h h' : JHeap} (hk : h.KeepsTypes h') :
    h.cells.length ≤ h'.cells.length := by
  by_contra hlt
  -- the last cell there was has a type, so it is still there
  have hlast : h'.cells.length < h.cells.length := by omega
  have htype := hk h'.cells.length (h.cells[h'.cells.length]).node.type (by simp [node?, hlast])
  simp [node?] at htype

theorem DenotesMembers.setMember {h : JHeap} {key : CStr} {q : JPtr} {v : Json}
    (hv : Denotes h q v) :
    ∀ {ms : List (CStr × Json)} {ps : List (CStr × JPtr)}, DenotesMembers h ps ms →
      DenotesMembers h (JHeap.setMember key q ps) (Json.setMember key v ms)
  | [], [], _ => ⟨rfl, hv, trivial⟩
  | (k, _) :: _, (_, _) :: _, ⟨hk, hd, hds⟩ => by
      subst hk
      simp only [JHeap.setMember, Json.setMember]
      split
      · exact ⟨rfl, hv, hds⟩
      · exact ⟨rfl, hd, hds.setMember hv⟩

theorem mem_setMember {key : CStr} {q q' : JPtr} :
    ∀ {ps : List (CStr × JPtr)}, q' ∈ (setMember key q ps).map Prod.snd →
      q' = q ∨ q' ∈ ps.map Prod.snd
  | [], hq => .inl (List.mem_singleton.mp hq)
  | (k, p) :: ps, hq => by
      simp only [setMember] at hq
      split at hq
      · rcases List.mem_cons.mp hq with rfl | hq
        · exact .inl rfl
        · exact .inr (List.mem_cons_of_mem _ hq)
      · rcases List.mem_cons.mp hq with rfl | hq
        · exact .inr List.mem_cons_self
        · exact (mem_setMember hq).imp_right (List.mem_cons_of_mem _)

/-- **The value added under a key is the member's**, where it does not reach the
object it is added to. -/
theorem Denotes.objectAdd {h : JHeap} {r : Ref} {ms : List (CStr × Json)} {q : JPtr} {v : Json}
    (hd : Denotes h (some r) (.object ms)) (hv : Denotes h q v) (hq : ¬ h.Reach q r)
    (key : CStr) :
    ∃ h', h.objectAdd (some r) key q = .ok h' ∧ ChangesOnly (some r) h h' ∧
      Denotes h' (some r) (.object (Json.setMember key v ms)) ∧
      ∀ r', h'.Reach (some r) r' → h.Reach (some r) r' ∨ h.Reach q r' := by
  obtain ⟨ps, hn, hds⟩ := id hd
  obtain ⟨h', hadd, hself, hother, -⟩ := objectAdd_object hn key q
  have hch : ChangesOnly (some r) h h' := by
    refine ⟨objectAdd_keepsTypes hadd, ?_⟩
    intro r' n hne hn'
    rw [hother r' fun heq => hne (congrArg some heq.symm), hn']
  -- neither the value nor the members reach the object
  have hvalue : h.SameBelow h' q := by
    refine hch.sameBelow hv ?_
    rintro r' ⟨⟩
    exact hq
  have hmembers : ∀ p ∈ ps.map Prod.snd, h.SameBelow h' p := by
    intro p hp
    obtain ⟨m, -, hdm⟩ := hds.mem hp
    refine hch.sameBelow hdm ?_
    rintro r' ⟨⟩
    exact hd.not_reach_root hn hp
  refine ⟨h', hadd, hch, ⟨_, hself, (hds.frame hmembers).setMember (hv.frame hvalue)⟩, ?_⟩
  intro r' hr'
  rcases (reach_some hself).mp hr' with rfl | ⟨p, hp, hr'⟩
  · exact .inl .here
  · rcases mem_setMember hp with rfl | hp
    · exact .inr (hvalue.reach hr')
    · exact .inl (.child hn hp ((hmembers p hp).reach hr'))

/-- `h` is `h₀` after writes to the object `r` alone: it stands for an object
with the members `ms`, and reaches itself, what was allocated since, and `S`. -/
structure Written (S : Ref → Prop) (r : Ref) (h₀ h : JHeap) (ms : List (CStr × Json)) : Prop where
  changes : ChangesOnly (some r) h₀ h
  denotes : Denotes h (some r) (.object ms)
  reach : ∀ r', h.Reach (some r) r' → r' = r ∨ h₀.cells.length ≤ r' ∨ S r'

theorem Written.refl (S : Ref → Prop) {r : Ref} {h : JHeap}
    (hd : Denotes h (some r) (.object [])) : Written S r h h [] := by
  refine ⟨ChangesOnly.refl _ _, hd, ?_⟩
  intro r' hr'
  obtain ⟨ps, hn, hds⟩ := hd
  rcases (reach_some hn).mp hr' with rfl | ⟨q, hq, -⟩
  · exact .inl rfl
  · obtain ⟨m, hm, -⟩ := hds.mem hq
    exact absurd hm List.not_mem_nil

theorem Written.mono {S : Ref → Prop} {r : Ref} {h₀ h h' : JHeap} {ms : List (CStr × Json)}
    (hw : Written S r h₀ h ms) (hext : h.Extends h') : Written S r h₀ h' ms := by
  have hsame := hext.sameBelow hw.denotes
  exact ⟨hw.changes.trans (hext.changesOnly _), hw.denotes.frame hsame,
    fun r' hr' => hw.reach r' (hsame.reach hr')⟩

theorem Written.objectAdd {S : Ref → Prop} {r : Ref} {h₀ h : JHeap} {ms : List (CStr × Json)}
    (hw : Written S r h₀ h ms) {q : JPtr} {v : Json} (hv : Denotes h q v)
    (hq : ∀ r', h.Reach q r' → r' ≠ r ∧ (h₀.cells.length ≤ r' ∨ S r')) (key : CStr) :
    ∃ h', h.objectAdd (some r) key q = .ok h' ∧
      Written S r h₀ h' (Json.setMember key v ms) := by
  obtain ⟨h', hadd, hch, hd, hreach⟩ :=
    hw.denotes.objectAdd hv (fun hr => (hq r hr).1 rfl) key
  refine ⟨h', hadd, hw.changes.trans hch, hd, ?_⟩
  intro r' hr'
  rcases hreach r' hr' with hold | hnew
  · exact hw.reach r' hold
  · exact .inr (hq r' hnew).2

theorem reach_leaf {h : JHeap} {n : JNode} (hn : n.children = []) {r : Ref}
    (hr : (h.alloc n).2.Reach (h.alloc n).1 r) : r = h.cells.length := by
  rcases (reach_some (node?_alloc h n)).mp hr with rfl | ⟨q, hq, -⟩
  · rfl
  · rw [hn] at hq
    exact absurd hq List.not_mem_nil

theorem Written.objectAddNew {S : Ref → Prop} {r : Ref} {h₀ h : JHeap} {ms : List (CStr × Json)}
    (hw : Written S r h₀ h ms) {n : JNode} {v : Json}
    (hv : Denotes (h.alloc n).2 (h.alloc n).1 v) (hn : n.children = []) (key : CStr) :
    ∃ h', h.objectAddNew (some r) key n = .ok h' ∧
      Written S r h₀ h' (Json.setMember key v ms) := by
  refine (hw.mono (extends_alloc h n)).objectAdd hv ?_ key
  intro r' hr'
  obtain rfl := reach_leaf hn hr'
  obtain ⟨n', hn'⟩ := hw.denotes.node
  exact ⟨(node?_lt hn').ne', .inl hw.changes.types.length_le⟩

/-! ## Parsed trees -/

mutual
theorem build_reach (h : JHeap) :
    ∀ (j : Json) {r : Ref}, (build h j).2.Reach (build h j).1 r → h.cells.length ≤ r
  | .null, _, hr => absurd hr not_reach_none
  | .boolean _, _, hr => (reach_leaf rfl hr).ge
  | .double _, _, hr => (reach_leaf rfl hr).ge
  | .int _, _, hr => (reach_leaf rfl hr).ge
  | .string _, _, hr => (reach_leaf rfl hr).ge
  | .array es, r, hr => by
      obtain ⟨hext, hds⟩ := buildAll_denotes h es
      rcases (reach_some (node?_alloc _ _)).mp hr with rfl | ⟨q, hq, hr⟩
      · exact hext.keepsTypes.length_le
      · obtain ⟨j, -, hd⟩ := hds.mem hq
        exact buildAll_reach h es q hq (((extends_alloc _ _).sameBelow hd).reach hr)
  | .object ms, r, hr => by
      obtain ⟨hext, hds⟩ := buildMembers_denotes h ms
      rcases (reach_some (node?_alloc _ _)).mp hr with rfl | ⟨q, hq, hr⟩
      · exact hext.keepsTypes.length_le
      · obtain ⟨m, -, hd⟩ := hds.mem hq
        exact buildMembers_reach h ms q hq (((extends_alloc _ _).sameBelow hd).reach hr)

theorem buildAll_reach (h : JHeap) :
    ∀ (js : List Json), ∀ q ∈ (buildAll h js).1, ∀ {r : Ref}, (buildAll h js).2.Reach q r →
      h.cells.length ≤ r
  | j :: js, q, hq, r, hr => by
      obtain ⟨hext, hd⟩ := build_denotes h j
      obtain ⟨hext', -⟩ := buildAll_denotes (build h j).2 js
      rcases List.mem_cons.mp hq with rfl | hq
      · exact build_reach h j ((hext'.sameBelow hd).reach hr)
      · exact hext.keepsTypes.length_le.trans (buildAll_reach (build h j).2 js q hq hr)

theorem buildMembers_reach (h : JHeap) :
    ∀ (ms : List (CStr × Json)), ∀ q ∈ (buildMembers h ms).1.map Prod.snd, ∀ {r : Ref},
      (buildMembers h ms).2.Reach q r → h.cells.length ≤ r
  | (k, j) :: ms, q, hq, r, hr => by
      obtain ⟨hext, hd⟩ := build_denotes h j
      obtain ⟨hext', -⟩ := buildMembers_denotes (build h j).2 ms
      rcases List.mem_cons.mp hq with rfl | hq
      · exact build_reach h j ((hext'.sameBelow hd).reach hr)
      · exact hext.keepsTypes.length_le.trans (buildMembers_reach (build h j).2 ms q hq hr)
end

theorem buildMembers_apart (h : JHeap) (ms : List (CStr × Json)) :
    (buildMembers h ms).1.Pairwise fun a b => (buildMembers h ms).2.Apart a.2 b.2 := by
  induction ms generalizing h with
  | nil => exact .nil
  | cons m ms ih =>
      obtain ⟨k, j⟩ := m
      obtain ⟨-, hd⟩ := build_denotes h j
      obtain ⟨hext', -⟩ := buildMembers_denotes (build h j).2 ms
      refine List.pairwise_cons.mpr ⟨?_, ih (build h j).2⟩
      intro b hb r hr hr'
      -- the first member was there before the others were laid out
      have hold := (hext'.sameBelow hd).reach hr
      obtain ⟨n, hn⟩ := hd.reach_node hold
      have hnew := buildMembers_reach (build h j).2 ms b.2 (List.mem_map_of_mem hb) hr'
      exact absurd (node?_lt hn) hnew.not_gt

theorem mem_of_lookup {k : CStr} {q : JPtr} {ps : List (CStr × JPtr)} (h : ps.lookup k = some q) :
    (k, q) ∈ ps := by
  obtain ⟨l₁, l₂, rfl, -⟩ := List.lookup_eq_some_iff.mp h
  simp

theorem lookup_apart {h : JHeap} {k k' : CStr} {q q' : JPtr} (hne : k ≠ k') :
    ∀ {ps : List (CStr × JPtr)}, (ps.Pairwise fun a b => h.Apart a.2 b.2) →
      ps.lookup k = some q → ps.lookup k' = some q' → h.Apart q q'
  | (k₁, p) :: ps, hps, hq, hq' => by
      obtain ⟨hp, hps⟩ := List.pairwise_cons.mp hps
      rw [List.lookup_cons] at hq hq'
      split at hq
      · rename_i hk
        split at hq'
        · rename_i hk'
          exact absurd ((beq_iff_eq.mp hk).trans (beq_iff_eq.mp hk').symm) hne
        · cases hq
          exact hp _ (mem_of_lookup hq')
      · split at hq'
        · cases hq'
          exact fun r hr hr' => hp _ (mem_of_lookup hq) r hr' hr
        · exact lookup_apart hne hps hq hq'

/-- **Two members of a parsed object share no cell.** -/
theorem build_apart (h : JHeap) {ms : List (CStr × Json)} {k k' : CStr} (hne : k ≠ k')
    {q q' : JPtr} (hq : (build h (.object ms)).2.getEx (build h (.object ms)).1 k = some q)
    (hq' : (build h (.object ms)).2.getEx (build h (.object ms)).1 k' = some q') :
    (build h (.object ms)).2.Apart q q' := by
  have hn : (build h (.object ms)).2.node? (buildMembers h ms).2.cells.length =
      some (.object (buildMembers h ms).1) := node?_alloc _ _
  have hroot : (build h (.object ms)).1 = some (buildMembers h ms).2.cells.length := rfl
  simp only [getEx, hroot, Option.bind_some, hn] at hq hq'
  have hapart := lookup_apart hne (buildMembers_apart h ms) hq hq'
  -- the object itself came last
  obtain ⟨-, hds⟩ := buildMembers_denotes h ms
  have hbelow : ∀ {k q}, (buildMembers h ms).1.lookup k = some q → ∀ {r},
      (build h (.object ms)).2.Reach q r → (buildMembers h ms).2.Reach q r := by
    intro k q hlook r hr
    have hmem := List.mem_map_of_mem (f := Prod.snd) (mem_of_lookup hlook)
    obtain ⟨m, -, hd⟩ := hds.mem hmem
    exact ((extends_alloc _ _).sameBelow hd).reach hr
  exact fun r hr hr' => hapart r (hbelow hq hr) (hbelow hq' hr')

end JHeap

end Libjapi
