/-
# `Libjapi.RefCounts` — reference counts that are accounted for

A heap of json-c objects is accounted for (`Counted`) if the count of every
object is the number of references to it: those in live objects and those that
are held, in variables or elsewhere in the program.  Each operation moves one
reference:

    a new object takes over what it refers to      `Counted.alloc`
    `json_object_get` gives a reference            `Counted.get`
    `json_object_put` takes one, and what a freed
    object referred to is put as well              `Counted.put`
    `json_object_object_add` takes one over        `Counted.objectAdd`
    `json_object_array_add` takes one over         `Counted.arrayAdd`

So no count is negative, and where the references have no cycle an object with
a positive count is reached from a reference that is held (`Counted.reached`):
what nobody holds is free.
-/
import Libjapi.JsonC
import Mathlib.Data.List.Count
import Mathlib.Data.Fintype.EquivFin
import Mathlib.Logic.Relation
import Mathlib.Order.WellFounded

namespace Libjapi

open Relation

/-! ## Cycles -/

section Cycles

variable {α : Type*} {R R' : α → α → Prop} {a b : α}

theorem transGen_insert (hsub : ∀ p q, R' p q → R p q ∨ (p = a ∧ q = b)) {x y : α}
    (h : TransGen R' x y) :
    TransGen R x y ∨ (ReflTransGen R x a ∧ ReflTransGen R b y) := by
  induction h with
  | single hxy =>
      rcases hsub _ _ hxy with hxy | ⟨rfl, rfl⟩
      · exact .inl (.single hxy)
      · exact .inr ⟨.refl, .refl⟩
  | tail _ hyz ih =>
      rcases hsub _ _ hyz with hyz | ⟨rfl, rfl⟩
      · exact ih.imp (·.tail hyz) fun hpath => ⟨hpath.1, hpath.2.tail hyz⟩
      · refine .inr ⟨?_, .refl⟩
        rcases ih with hpath | hpath
        · exact hpath.to_reflTransGen
        · exact hpath.1

/-- **An edge closes a cycle only if its end leads to its start.** -/
theorem acyclic_insert (hR : ∀ x, ¬ TransGen R x x)
    (hsub : ∀ p q, R' p q → R p q ∨ (p = a ∧ q = b)) (hno : ¬ ReflTransGen R b a) (x : α) :
    ¬ TransGen R' x x := by
  intro hx
  rcases transGen_insert hsub hx with hx | ⟨hxa, hbx⟩
  · exact hR x hx
  · exact hno (hbx.trans hxa)

/-- Nothing leads to a source, so no cycle goes through it. -/
theorem acyclic_source (hR : ∀ x, ¬ TransGen R x x)
    (hsub : ∀ p q, R' p q → R p q ∨ p = a) (hno : ∀ p, ¬ R' p a) (x : α) :
    ¬ TransGen R' x x := by
  have hpath : ∀ {y z}, TransGen R' y z → y ≠ a → TransGen R y z ∧ z ≠ a := by
    intro y z h hy
    induction h with
    | single hyz =>
        exact ⟨.single ((hsub _ _ hyz).resolve_right hy), fun heq => hno _ (heq ▸ hyz)⟩
    | tail _ hzw ih =>
        exact ⟨ih.1.tail ((hsub _ _ hzw).resolve_right ih.2), fun heq => hno _ (heq ▸ hzw)⟩
  intro hx
  have hne : x ≠ a := by
    rintro rfl
    obtain ⟨p, -, hp⟩ := TransGen.tail'_iff.mp hx
    exact hno p hp
  exact hR x (hpath hx hne).1

end Cycles

theorem sum_map_modify {α : Type*} (g : α → Nat) (f : α → α) {a : α} :
    ∀ {l : List α} {i : Nat}, l[i]? = some a →
      ((l.modify i f).map g).sum + g a = (l.map g).sum + g (f a)
  | b :: l, 0, h => by
      cases h
      simp
      omega
  | b :: l, i + 1, h => by
      have ih := sum_map_modify g f (l := l) (i := i) (by simpa using h)
      simp
      omega

namespace JHeap

/-! ## Counts and references -/

/-- The count of an object. -/
def refs (h : JHeap) (r : Ref) : Int := (h.cells[r]?.map JCell.refs).getD 0

/-- The references to `r` in a cell, none once it is freed. -/
def outOf (c : JCell) (r : Ref) : Nat :=
  if 0 < c.refs then c.node.children.count (some r) else 0

/-- The references to `r` in live objects. -/
def inEdges (h : JHeap) (r : Ref) : Nat := (h.cells.map fun c => outOf c r).sum

/-- A live object refers to another one. -/
def Refers (h : JHeap) (p q : Ref) : Prop :=
  ∃ c, h.cells[p]? = some c ∧ 0 < c.refs ∧ some q ∈ c.node.children

/-- No object leads back to itself. -/
def Acyclic (h : JHeap) : Prop := ∀ r, ¬ TransGen h.Refers r r

/-- The object is reached from a reference that is held. -/
def Reached (h : JHeap) (held : List JPtr) (r : Ref) : Prop :=
  ∃ p, some p ∈ held ∧ ReflTransGen h.Refers p r

/-- **Every count is the number of references**, and no reference leads out of the heap. -/
structure Counted (h : JHeap) (held : List JPtr) : Prop where
  count : ∀ r, r < h.cells.length → h.refs r = h.inEdges r + held.count (some r)
  held : ∀ r, some r ∈ held → r < h.cells.length
  children : ∀ p q, h.Refers p q → q < h.cells.length

theorem refs_of_getElem? {h : JHeap} {r : Ref} {c : JCell} (hc : h.cells[r]? = some c) :
    h.refs r = c.refs := by rw [refs, hc]; rfl

theorem inEdges_modify {h : JHeap} {p : Ref} {c : JCell} (hc : h.cells[p]? = some c)
    (f : JCell → JCell) (r : Ref) :
    inEdges ⟨h.cells.modify p f⟩ r + outOf c r = h.inEdges r + outOf (f c) r :=
  sum_map_modify (fun c => outOf c r) f hc

theorem inEdges_pos {h : JHeap} {r : Ref} : 0 < h.inEdges r ↔ ∃ p, h.Refers p r := by
  have hout : ∀ c : JCell, 0 < outOf c r ↔ 0 < c.refs ∧ some r ∈ c.node.children := by
    intro c
    rw [outOf]
    split <;> simp_all [List.count_pos_iff]
  rw [inEdges, List.sum_pos_iff_exists_pos_nat]
  constructor
  · rintro ⟨x, hx, hpos⟩
    obtain ⟨c, hc, rfl⟩ := List.mem_map.mp hx
    obtain ⟨p, hp, hcell⟩ := List.getElem_of_mem hc
    exact ⟨p, c, List.getElem?_eq_some_iff.mpr ⟨hp, hcell⟩, (hout c).mp hpos⟩
  · rintro ⟨p, c, hc, hpos, hmem⟩
    exact ⟨_, List.mem_map_of_mem (List.mem_of_getElem? hc), (hout c).mpr ⟨hpos, hmem⟩⟩

namespace Counted

variable {h h' : JHeap} {held held' : List JPtr} {r : Ref} {p : JPtr}

theorem perm (hc : h.Counted held) (hp : held.Perm held') : h.Counted held' := by
  refine ⟨fun r hr => ?_, fun r hr => hc.held r (hp.mem_iff.mpr hr), hc.children⟩
  rw [hc.count r hr, hp.count_eq]

theorem none_cons : h.Counted (none :: held) ↔ h.Counted held := by
  constructor
  · intro hc
    refine ⟨fun r hr => ?_, fun r hr => hc.held r (List.mem_cons_of_mem _ hr), hc.children⟩
    rw [hc.count r hr, List.count_cons_of_ne (by simp)]
  · intro hc
    refine ⟨fun r hr => ?_, fun r hr => hc.held r (by simpa using hr), hc.children⟩
    rw [hc.count r hr, List.count_cons_of_ne (by simp)]

theorem nonneg (hc : h.Counted held) (r : Ref) : 0 ≤ h.refs r := by
  rcases Nat.lt_or_ge r h.cells.length with hr | hr
  · rw [hc.count r hr]
    exact Int.natCast_nonneg _
  · rw [refs, List.getElem?_eq_none hr]
    rfl

theorem pos_of_held (hc : h.Counted held) (hr : some r ∈ held) : 0 < h.refs r := by
  have hpos := List.count_pos_iff.mpr hr
  rw [hc.count r (hc.held r hr)]
  omega

theorem pos_of_refers (hc : h.Counted held) {q : Ref} (hr : h.Refers q r) : 0 < h.refs r := by
  have hpos := inEdges_pos.mpr ⟨q, hr⟩
  rw [hc.count r (hc.children q r hr)]
  omega

/-- **An object with a positive count is reached**, unless there is a cycle. -/
theorem reached (hc : h.Counted held) (ha : h.Acyclic) (hr : 0 < h.refs r) : h.Reached held r := by
  have hlt : ∀ {q}, 0 < h.refs q → q < h.cells.length := by
    intro q hq
    by_contra hge
    rw [refs, List.getElem?_eq_none (Nat.le_of_not_lt hge)] at hq
    exact absurd hq (by simp)
  -- going back along references ends, as there are finitely many objects
  let S := fun q p : Fin h.cells.length => TransGen h.Refers q p
  have : IsTrans (Fin h.cells.length) S := ⟨fun _ _ _ hab hbc => TransGen.trans hab hbc⟩
  have : Std.Irrefl S := ⟨fun q hq => ha q hq⟩
  have hwf : WellFounded S := Finite.wellFounded_of_trans_of_irrefl S
  have hall : ∀ q : Fin h.cells.length, 0 < h.refs q → h.Reached held q := by
    intro q
    induction q using hwf.induction with
    | _ q ih =>
        intro hq
        by_cases hheld : some q.1 ∈ held
        · exact ⟨q, hheld, .refl⟩
        · have hcount := hc.count q q.2
          rw [List.count_eq_zero_of_not_mem hheld] at hcount
          obtain ⟨p, hp⟩ := inEdges_pos.mp (show 0 < h.inEdges q by omega)
          have ⟨c, hcell, hpos, _⟩ := hp
          have hppos : 0 < h.refs p := by rwa [refs_of_getElem? hcell]
          obtain ⟨r, hr, hpath⟩ := ih ⟨p, hlt hppos⟩ (.single hp) hppos
          exact ⟨r, hr, hpath.tail hp⟩
  exact hall ⟨r, hlt hr⟩ hr

end Counted

/-! ## A new object, and one more reference -/

theorem getElem?_alloc (h : JHeap) (n : JNode) (r : Ref) :
    (h.alloc n).2.cells[r]? =
      if r < h.cells.length then h.cells[r]? else if r = h.cells.length then some ⟨n, 1⟩ else none := by
  rw [alloc]
  rcases Nat.lt_trichotomy r h.cells.length with hlt | rfl | hgt
  · rw [if_pos hlt, List.getElem?_append_left hlt]
  · rw [if_neg (lt_irrefl _), if_pos rfl, List.getElem?_concat_length]
  · rw [if_neg hgt.not_gt, if_neg hgt.ne', List.getElem?_eq_none]
    simpa using Nat.succ_le_of_lt hgt

theorem length_alloc (h : JHeap) (n : JNode) :
    (h.alloc n).2.cells.length = h.cells.length + 1 := by simp [alloc]

theorem refers_alloc {h : JHeap} {n : JNode} {p q : Ref} (hpq : (h.alloc n).2.Refers p q) :
    h.Refers p q ∨ (p = h.cells.length ∧ some q ∈ n.children) := by
  obtain ⟨c, hc, hpos, hmem⟩ := hpq
  rw [getElem?_alloc] at hc
  split at hc
  · exact .inl ⟨c, hc, hpos, hmem⟩
  · split at hc
    · rename_i heq
      cases hc
      exact .inr ⟨heq, hmem⟩
    · cases hc

theorem refers_alloc_leaf {h : JHeap} {n : JNode} (hn : n.children = []) {p q : Ref}
    (hpq : (h.alloc n).2.Refers p q) : h.Refers p q := by
  refine (refers_alloc hpq).resolve_right ?_
  rw [hn]
  exact fun hmem => List.not_mem_nil hmem.2

theorem not_refers_length (h : JHeap) (q : Ref) : ¬ h.Refers h.cells.length q := by
  rintro ⟨c, hc, -⟩
  exact absurd (List.getElem?_eq_some_iff.mp hc).1 (lt_irrefl _)

namespace Counted

variable {h h' : JHeap} {held : List JPtr} {r : Ref} {p : JPtr}

/-- **A new object takes over the references in it.** -/
theorem alloc {n : JNode} (hc : h.Counted (n.children ++ held)) :
    (h.alloc n).2.Counted ((h.alloc n).1 :: held) := by
  have hfresh : some h.cells.length ∉ n.children ++ held :=
    fun hmem => (hc.held _ hmem).false
  have hin : ∀ q, (h.alloc n).2.inEdges q = h.inEdges q + n.children.count (some q) := by
    intro q
    simp [inEdges, JHeap.alloc, outOf]
  refine ⟨?_, ?_, ?_⟩
  · intro q hq
    rw [length_alloc] at hq
    rw [hin, refs, getElem?_alloc]
    rcases Nat.lt_succ_iff_lt_or_eq.mp hq with hlt | rfl
    · have hcount := hc.count q hlt
      rw [refs, List.count_append] at hcount
      rw [if_pos hlt, hcount, List.count_cons_of_ne (by simpa [JHeap.alloc] using hlt.ne')]
      omega
    · -- nothing refers to the new object but the reference that is given out
      have hno : h.inEdges h.cells.length = 0 := by
        by_contra hpos
        obtain ⟨p, hp⟩ := inEdges_pos.mp (Nat.pos_of_ne_zero hpos)
        exact (hc.children _ _ hp).false
      rw [List.mem_append, not_or] at hfresh
      rw [if_neg (lt_irrefl _), if_pos rfl, hno, List.count_eq_zero_of_not_mem hfresh.1]
      have hself : ((h.alloc n).1 :: held).count (some h.cells.length) = 1 := by
        simp [JHeap.alloc, List.count_eq_zero_of_not_mem hfresh.2]
      rw [hself]
      rfl
  · intro q hq
    rw [length_alloc]
    rcases List.mem_cons.mp hq with heq | hq
    · cases heq
      exact Nat.lt_succ_self _
    · exact (hc.held q (List.mem_append_right _ hq)).trans (Nat.lt_succ_self _)
  · intro p q hpq
    rw [length_alloc]
    refine lt_trans ?_ (Nat.lt_succ_self _)
    rcases refers_alloc hpq with hpq | ⟨-, hmem⟩
    · exact hc.children p q hpq
    · exact hc.held q (List.mem_append_left _ hmem)

end Counted

theorem getElem?_addRefs {h : JHeap} {r : Ref} {c : JCell} (hc : h.cells[r]? = some c) (d : Int)
    (q : Ref) :
    (h.addRefs r d).cells[q]? = if q = r then some ⟨c.node, c.refs + d⟩ else h.cells[q]? := by
  rw [addRefs, List.getElem?_modify]
  split
  · rename_i heq
    rw [if_pos heq.symm, ← heq, hc]
    rfl
  · rename_i hne
    rw [if_neg (Ne.symm hne)]
    simp

theorem length_addRefs (h : JHeap) (r : Ref) (d : Int) :
    (h.addRefs r d).cells.length = h.cells.length := by simp [addRefs]

namespace Counted

variable {h h' : JHeap} {held : List JPtr} {r : Ref} {p : JPtr}

theorem addRef (hc : h.Counted held) (hr : 0 < h.refs r) :
    (h.addRefs r 1).Counted (some r :: held) ∧ ∀ p q, (h.addRefs r 1).Refers p q ↔ h.Refers p q := by
  obtain ⟨c, hcell⟩ : ∃ c, h.cells[r]? = some c := by
    by_contra hno
    rw [not_exists] at hno
    rw [refs, Option.eq_none_iff_forall_ne_some.mpr hno] at hr
    exact absurd hr (by simp)
  rw [refs_of_getElem? hcell] at hr
  have hlt : r < h.cells.length := (List.getElem?_eq_some_iff.mp hcell).1
  have hrefers : ∀ p q, (h.addRefs r 1).Refers p q ↔ h.Refers p q := by
    intro p q
    rw [Refers, getElem?_addRefs hcell]
    by_cases hpr : p = r
    · subst hpr
      rw [if_pos rfl, Refers, hcell]
      constructor
      · rintro ⟨_, ⟨⟩, -, hmem⟩
        exact ⟨c, rfl, hr, hmem⟩
      · rintro ⟨_, ⟨⟩, -, hmem⟩
        exact ⟨_, rfl, by dsimp only; omega, hmem⟩
    · rw [if_neg hpr]
      rfl
  refine ⟨⟨?_, ?_, ?_⟩, hrefers⟩
  · intro q hq
    rw [length_addRefs] at hq
    have hin := inEdges_modify hcell (fun c => { c with refs := c.refs + 1 }) q
    have hout : outOf { c with refs := c.refs + 1 } q = outOf c q := by
      rw [outOf, outOf, if_pos hr, if_pos (by dsimp only; omega)]
    have hcount := hc.count q hq
    rw [hout, Nat.add_right_cancel_iff] at hin
    rw [addRefs, hin, ← addRefs, refs, getElem?_addRefs hcell, List.count_cons]
    by_cases hqr : q = r
    · subst hqr
      rw [refs_of_getElem? hcell] at hcount
      simp only [if_true, Option.map_some, Option.getD_some, hcount, beq_self_eq_true]
      omega
    · rw [refs] at hcount
      rw [if_neg hqr, hcount, if_neg (by simpa using Ne.symm hqr), Nat.add_zero]
  · intro q hq
    rw [length_addRefs]
    rcases List.mem_cons.mp hq with heq | hq
    · cases heq
      exact hlt
    · exact hc.held q hq
  · intro p q hpq
    rw [length_addRefs]
    exact hc.children p q ((hrefers p q).mp hpq)

/-- **`json_object_get` gives a reference**. -/
theorem get (hc : h.Counted held) (hp : ∀ r, p = some r → 0 < h.refs r) :
    (h.get p).Counted (p :: held) ∧ ∀ q r, (h.get p).Refers q r ↔ h.Refers q r := by
  cases p with
  | none => exact ⟨none_cons.mpr hc, fun _ _ => Iff.rfl⟩
  | some r => exact hc.addRef (hp r rfl)

end Counted

/-! ## One reference less -/

/-- The objects that are not freed. -/
def live (h : JHeap) : Nat := h.cells.countP fun c => 0 < c.refs

/-- The same objects, with counts that may be lower. -/
structure Fades (h h' : JHeap) : Prop where
  length : h'.cells.length = h.cells.length
  node : ∀ r, h'.node? r = h.node? r
  refs : ∀ r, h'.refs r ≤ h.refs r

theorem Fades.refl (h : JHeap) : Fades h h := ⟨rfl, fun _ => rfl, fun _ => le_rfl⟩

theorem Fades.trans {h₁ h₂ h₃ : JHeap} (a : Fades h₁ h₂) (b : Fades h₂ h₃) : Fades h₁ h₃ :=
  ⟨b.length.trans a.length, fun r => (b.node r).trans (a.node r),
    fun r => (b.refs r).trans (a.refs r)⟩

theorem refers_iff {h : JHeap} {p q : Ref} :
    h.Refers p q ↔ 0 < h.refs p ∧ ∃ n, h.node? p = some n ∧ some q ∈ n.children := by
  constructor
  · rintro ⟨c, hc, hpos, hmem⟩
    exact ⟨by rwa [refs_of_getElem? hc], c.node, by rw [node?, hc]; rfl, hmem⟩
  · rintro ⟨hpos, n, hn, hmem⟩
    obtain ⟨c, hc, rfl⟩ := Option.map_eq_some_iff.mp hn
    exact ⟨c, hc, by rwa [← refs_of_getElem? hc], hmem⟩

theorem Fades.refers {h h' : JHeap} (a : Fades h h') {p q : Ref} (hpq : h'.Refers p q) :
    h.Refers p q := by
  obtain ⟨hpos, n, hn, hmem⟩ := refers_iff.mp hpq
  exact refers_iff.mpr ⟨hpos.trans_le (a.refs p), n, (a.node p).symm.trans hn, hmem⟩

theorem fades_addRefs (h : JHeap) (r : Ref) {d : Int} (hd : d ≤ 0) : Fades h (h.addRefs r d) := by
  refine ⟨length_addRefs h r d, fun q => node?_addRefs h r q d, ?_⟩
  intro q
  cases hc : h.cells[r]? with
  | none =>
      have hself : h.addRefs r d = h := by
        rw [addRefs, List.modify_eq_self (List.getElem?_eq_none_iff.mp hc)]
      rw [hself]
  | some c =>
      rw [refs, getElem?_addRefs hc]
      by_cases hqr : q = r
      · subst hqr
        rw [if_pos rfl, refs_of_getElem? hc]
        simp only [Option.map_some, Option.getD_some]
        omega
      · rw [if_neg hqr]
        rfl

theorem fades_foldl {f : JHeap → JPtr → JHeap} (hf : ∀ h p, Fades h (f h p)) (ps : List JPtr) :
    ∀ h, Fades h (ps.foldl f h) := by
  induction ps with
  | nil => exact fun h => .refl h
  | cons p ps ih => exact fun h => (hf h p).trans (ih _)

theorem fades_putN (n : Nat) : ∀ (h : JHeap) (p : JPtr), Fades h (putN n h p) := by
  induction n with
  | zero => exact fun h _ => .refl h
  | succ n ih =>
      intro h p
      cases p with
      | none => exact .refl h
      | some r =>
          have hdrop := fades_addRefs h r (show (-1 : Int) ≤ 0 by decide)
          simp only [putN]
          split
          · exact hdrop.trans (fades_foldl ih _ _)
          · exact hdrop

/-- The references an object hands on when it is freed. -/
def handedOn (c : JCell) : List JPtr := if c.refs = 1 then c.node.children else []

theorem live_addRefs {h : JHeap} {r : Ref} {c : JCell} (hc : h.cells[r]? = some c)
    (hpos : 0 < c.refs) :
    (h.addRefs r (-1)).live + (if c.refs = 1 then 1 else 0) = h.live := by
  have hsum := sum_map_modify (fun c : JCell => if 0 < c.refs then 1 else 0)
    (fun c => { c with refs := c.refs + -1 }) hc
  have hlive : ∀ l : List JCell,
      l.countP (fun c => 0 < c.refs) = (l.map fun c : JCell => if 0 < c.refs then 1 else 0).sum := by
    intro l
    induction l with
    | nil => rfl
    | cons c l ih =>
        rw [List.countP_cons, ih, List.map_cons, List.sum_cons, Nat.add_comm]
        simp
  rw [live, live, hlive, hlive, addRefs]
  dsimp only at hsum ⊢
  rw [if_pos hpos] at hsum
  split
  · rename_i hone
    rw [if_neg (by omega)] at hsum
    omega
  · rename_i hne
    rw [if_pos (by omega)] at hsum
    omega

namespace Counted

variable {h h' : JHeap} {held : List JPtr} {r : Ref} {p : JPtr}

/-- **Dropping a reference**: an object with no other one hands on what it refers to. -/
theorem dropRef (hc : h.Counted (some r :: held)) :
    ∃ c, h.cells[r]? = some c ∧ 0 < c.refs ∧
      (h.addRefs r (-1)).Counted (handedOn c ++ held) := by
  have hlt := hc.held r List.mem_cons_self
  have hpos := hc.pos_of_held (List.mem_cons_self (a := some r) (l := held))
  obtain ⟨c, hcell⟩ : ∃ c, h.cells[r]? = some c := ⟨_, List.getElem?_eq_getElem hlt⟩
  rw [refs_of_getElem? hcell] at hpos
  have hfade := fades_addRefs h r (show (-1 : Int) ≤ 0 by decide)
  refine ⟨c, hcell, hpos, ?_, ?_, ?_⟩
  · intro q hq
    rw [length_addRefs] at hq
    have hin := inEdges_modify hcell (fun c => { c with refs := c.refs + -1 }) q
    have hout : outOf { c with refs := c.refs + -1 } q + (handedOn c).count (some q) =
        outOf c q := by
      simp only [outOf, handedOn, if_pos hpos]
      by_cases hone : c.refs = 1
      · rw [if_neg (by omega), if_pos hone, Nat.zero_add]
      · rw [if_pos (by omega), if_neg hone, List.count_nil, Nat.add_zero]
    have hcount := hc.count q hq
    rw [List.count_cons] at hcount
    rw [addRefs, ← addRefs, refs, getElem?_addRefs hcell, List.count_append]
    rw [addRefs]
    by_cases hqr : q = r
    · subst hqr
      rw [refs_of_getElem? hcell] at hcount
      simp only [if_true, Option.map_some, Option.getD_some, beq_self_eq_true] at hcount ⊢
      omega
    · rw [refs] at hcount
      rw [if_neg hqr, hcount, if_neg (by simpa using Ne.symm hqr)]
      omega
  · intro q hq
    rw [length_addRefs]
    rcases List.mem_append.mp hq with hq | hq
    · rw [handedOn] at hq
      split at hq
      · exact hc.children r q ⟨c, hcell, hpos, hq⟩
      · cases hq
    · exact hc.held q (List.mem_cons_of_mem _ hq)
  · intro p q hpq
    rw [length_addRefs]
    exact hc.children p q (hfade.refers hpq)

/-- `json_object_put`, with a nesting depth beyond the number of live objects:
each level frees one. -/
theorem putN (n : Nat) : ∀ {h : JHeap} {p : JPtr} {held : List JPtr}, h.Counted (p :: held) →
    h.live < n → (JHeap.putN n h p).Counted held ∧ (JHeap.putN n h p).live ≤ h.live := by
  induction n with
  | zero => exact fun _ hlive => absurd hlive (Nat.not_lt_zero _)
  | succ n ih =>
      intro h p held hc hlive
      cases p with
      | none => exact ⟨none_cons.mp hc, le_rfl⟩
      | some r =>
          obtain ⟨c, hcell, hpos, hc'⟩ := hc.dropRef
          have hl := live_addRefs hcell hpos
          have hself := getElem?_addRefs hcell (-1) r
          rw [if_pos rfl] at hself
          have hfold : ∀ (ps : List JPtr) {h : JHeap}, h.Counted (ps ++ held) → h.live < n →
              (ps.foldl (JHeap.putN n) h).Counted held ∧
                (ps.foldl (JHeap.putN n) h).live ≤ h.live := by
            intro ps
            induction ps with
            | nil => exact fun hc _ => ⟨hc, le_rfl⟩
            | cons p ps ihp =>
                intro h hc hlive
                obtain ⟨hc₁, hl₁⟩ := ih hc hlive
                obtain ⟨hc₂, hl₂⟩ := ihp hc₁ (hl₁.trans_lt hlive)
                exact ⟨hc₂, hl₂.trans hl₁⟩
          simp only [JHeap.putN, hself]
          by_cases hone : c.refs = 1
          · rw [if_pos hone] at hl
            rw [handedOn, if_pos hone] at hc'
            have hzero : c.refs + -1 = 0 := by omega
            rw [hzero]
            obtain ⟨hc₁, hl₁⟩ := hfold c.node.children hc' (by omega)
            exact ⟨hc₁, hl₁.trans (by omega)⟩
          · rw [if_neg hone] at hl
            rw [handedOn, if_neg hone] at hc'
            split
            · rename_i heq
              injection heq with heq
              injection heq with _ hrefs
              omega
            · exact ⟨hc', by omega⟩

/-- **`json_object_put` takes a reference**, and those of what is freed. -/
theorem put (hc : h.Counted (p :: held)) : (h.put p).Counted held := by
  refine (hc.putN _ ?_).1
  exact Nat.lt_succ_of_le List.countP_le_length

end Counted

/-! ## A reference moves into an object -/

theorem getElem?_setNode {h : JHeap} {r : Ref} {c : JCell} (hc : h.cells[r]? = some c) (n : JNode)
    (q : Ref) :
    (h.setNode r n).cells[q]? = if q = r then some ⟨n, c.refs⟩ else h.cells[q]? := by
  rw [setNode, List.getElem?_modify]
  split
  · rename_i heq
    rw [if_pos heq.symm, ← heq, hc]
    rfl
  · rename_i hne
    rw [if_neg (Ne.symm hne)]
    simp

theorem length_setNode (h : JHeap) (r : Ref) (n : JNode) :
    (h.setNode r n).cells.length = h.cells.length := by simp [setNode]

theorem refs_setNode (h : JHeap) (r : Ref) (n : JNode) (q : Ref) :
    (h.setNode r n).refs q = h.refs q := by
  simp only [refs, setNode, List.getElem?_modify]
  cases h.cells[q]? with
  | none => simp
  | some c => split <;> rfl

theorem refers_setNode {h : JHeap} {r : Ref} {n : JNode} {p q : Ref}
    (hpq : (h.setNode r n).Refers p q) : h.Refers p q ∨ (p = r ∧ some q ∈ n.children) := by
  obtain ⟨hpos, n', hn', hmem⟩ := refers_iff.mp hpq
  rw [refs_setNode] at hpos
  by_cases hpr : p = r
  · subst hpr
    cases hold : h.node? p with
    | none =>
        have hlt := node?_lt hn'
        rw [length_setNode] at hlt
        rw [node?, List.getElem?_eq_getElem hlt] at hold
        cases hold
    | some m =>
        rw [node?_setNode_self n hold] at hn'
        cases hn'
        exact .inr ⟨rfl, hmem⟩
  · rw [node?_setNode_ne n hpr] at hn'
    exact .inl (refers_iff.mpr ⟨hpos, n', hn', hmem⟩)

namespace Counted

variable {h h' : JHeap} {held held' : List JPtr} {r : Ref} {p : JPtr}

/-- References move between a live object and those that are held. -/
theorem setNode {n n' : JNode} (hc : h.Counted held) (hn : h.node? r = some n)
    (hr : 0 < h.refs r)
    (hmove : ∀ q, n'.children.count (some q) + held'.count (some q) =
      n.children.count (some q) + held.count (some q)) :
    (h.setNode r n').Counted held' := by
  obtain ⟨c, hcell, rfl⟩ := Option.map_eq_some_iff.mp hn
  rw [refs_of_getElem? hcell] at hr
  have hmem : ∀ q, some q ∈ n'.children ∨ some q ∈ held' → q < h.cells.length := by
    intro q hq
    have hpos : 0 < c.node.children.count (some q) + held.count (some q) := by
      rw [← hmove q]
      rcases hq with hq | hq
      · exact Nat.add_pos_left (List.count_pos_iff.mpr hq) _
      · exact Nat.add_pos_right _ (List.count_pos_iff.mpr hq)
    rcases Nat.add_pos_iff_pos_or_pos.mp hpos with hpos | hpos
    · exact hc.children r q ⟨c, hcell, hr, List.count_pos_iff.mp hpos⟩
    · exact hc.held q (List.count_pos_iff.mp hpos)
  refine ⟨?_, ?_, ?_⟩
  · intro q hq
    rw [length_setNode] at hq
    have hin := inEdges_modify hcell (fun c => { c with node := n' }) q
    rw [outOf, outOf, if_pos hr, if_pos hr] at hin
    dsimp only at hin
    have hcount := hc.count q hq
    have hm := hmove q
    rw [refs_setNode, JHeap.setNode]
    omega
  · intro q hq
    rw [length_setNode]
    exact hmem q (.inr hq)
  · intro p q hpq
    rw [length_setNode]
    rcases refers_setNode hpq with hpq | ⟨-, hq⟩
    · exact hc.children p q hpq
    · exact hmem q (.inl hq)

end Counted

theorem count_setMember (key : CStr) (val : JPtr) (x : JPtr) :
    ∀ ms : List (CStr × JPtr),
      ((setMember key val ms).map Prod.snd).count x + ((ms.lookup key).toList).count x =
        (ms.map Prod.snd).count x + [val].count x
  | [] => by simp [setMember]
  | (k, v) :: ms => by
      have ih := count_setMember key val x ms
      simp only [setMember]
      by_cases hk : k = key
      · subst hk
        simp only [if_true, List.lookup_cons_self, List.map_cons, List.count_cons, Option.toList_some,
          List.count_nil]
        omega
      · rw [if_neg hk, List.lookup_cons, beq_false_of_ne (Ne.symm hk)]
        simp only [List.map_cons, List.count_cons, List.count_nil] at ih ⊢
        omega

theorem putN_setNode (r : Ref) (m : JNode) (n : Nat) : ∀ (h : JHeap) (p : JPtr),
    0 < (putN n (h.setNode r m) p).refs r →
      putN n (h.setNode r m) p = (putN n h p).setNode r m := by
  induction n with
  | zero => exact fun _ _ _ => rfl
  | succ n ih =>
      intro h p hpos
      cases p with
      | none => rfl
      | some x =>
          have hcomm : (h.setNode r m).addRefs x (-1) = (h.addRefs x (-1)).setNode r m := by
            simp only [JHeap.setNode, addRefs, JHeap.mk.injEq]
            by_cases hxr : x = r
            · subst hxr
              rw [List.modify_modify_eq, List.modify_modify_eq]
              rfl
            · exact List.modify_modify_ne _ _ _ (Ne.symm hxr)
          have hfold : ∀ (ps : List JPtr) (h : JHeap),
              0 < (ps.foldl (putN n) (h.setNode r m)).refs r →
                ps.foldl (putN n) (h.setNode r m) = (ps.foldl (putN n) h).setNode r m := by
            intro ps
            induction ps with
            | nil => exact fun _ _ => rfl
            | cons p ps ihp =>
                intro h hpos
                rw [List.foldl_cons] at hpos ⊢
                have hfirst := hpos.trans_le ((fades_foldl (fades_putN n) ps _).refs r)
                rw [ih h p hfirst] at hpos ⊢
                exact ihp _ hpos
          have hcell : ∀ (h : JHeap), x ≠ r → (h.setNode r m).cells[x]? = h.cells[x]? := by
            intro h hxr
            simp only [JHeap.setNode, List.getElem?_modify, if_neg (Ne.symm hxr)]
            simp
          simp only [putN, hcomm] at hpos ⊢
          by_cases hxr : x = r
          · -- it keeps a reference, so it is not freed
            subst hxr
            cases hx : (h.addRefs x (-1)).cells[x]? with
            | none =>
                have hx' : ((h.addRefs x (-1)).setNode x m).cells[x]? = none := by
                  rw [JHeap.setNode, List.getElem?_modify, hx]
                  rfl
                rw [hx']
            | some c =>
                have hx' := getElem?_setNode hx m x
                rw [if_pos rfl] at hx'
                rw [hx'] at hpos ⊢
                obtain ⟨node, k⟩ := c
                have hk : k ≠ 0 := by
                  rintro rfl
                  have hle := (fades_foldl (fades_putN n) m.children
                    ((h.addRefs x (-1)).setNode x m)).refs x
                  rw [refs_of_getElem? hx'] at hle
                  exact absurd (hpos.trans_le hle) (lt_irrefl _)
                split
                · rename_i heq
                  injection heq with heq
                  injection heq with _ hrefs
                  exact absurd hrefs hk
                · split
                  · rename_i heq
                    injection heq with heq
                    injection heq with _ hrefs
                    exact absurd hrefs hk
                  · rfl
          · rw [hcell _ hxr] at hpos ⊢
            split at hpos
            · exact hfold _ _ hpos
            · rfl

/-- The object stays live as long as what is held is: it is held, or another
object that is held refers to it. -/
def Anchored (h : JHeap) (held : List JPtr) (r : Ref) : Prop :=
  some r ∈ held ∨ ∃ q n, q ≠ r ∧ some q ∈ held ∧ h.node? q = some n ∧ some r ∈ n.children

theorem Anchored.pos {h : JHeap} {held held' : List JPtr} {r : Ref} (ha : h.Anchored held r)
    (hc : h.Counted held') (hsub : ∀ q, some q ∈ held → some q ∈ held') : 0 < h.refs r := by
  rcases ha with hr | ⟨q, n, -, hq, hn, hmem⟩
  · exact hc.pos_of_held (hsub r hr)
  · exact hc.pos_of_refers (refers_iff.mpr ⟨hc.pos_of_held (hsub q hq), n, hn, hmem⟩)

theorem Anchored.lt {h : JHeap} {held : List JPtr} {r : Ref} (ha : h.Anchored held r)
    (hc : h.Counted held) : r < h.cells.length := by
  rcases ha with hr | ⟨q, n, -, hq, hn, hmem⟩
  · exact hc.held r hr
  · exact hc.children q r (refers_iff.mpr ⟨hc.pos_of_held hq, n, hn, hmem⟩)

theorem Anchored.mono {h h' : JHeap} {held : List JPtr} {r : Ref} (ha : h.Anchored held r)
    (hext : h.Extends h') : h'.Anchored held r := by
  refine ha.imp_right ?_
  rintro ⟨q, n, hqr, hq, hn, hmem⟩
  exact ⟨q, n, hqr, hq, hext q n hn, hmem⟩

namespace Counted

variable {h h' : JHeap} {held held' : List JPtr} {r : Ref} {p : JPtr}

/-- **`json_object_object_add` takes a reference over**, and puts the one it replaces. -/
theorem objectAdd {key : CStr} {val : JPtr} (hc : h.Counted (val :: held))
    (ha : h.Anchored held r) (hadd : h.objectAdd (some r) key val = .ok h') : h'.Counted held := by
  cases hn : h.node? r with
  | none => simp only [JHeap.objectAdd, hn, reduceCtorEq] at hadd
  | some n =>
      cases n with
      | object ms =>
          have hpos : 0 < h.refs r := ha.pos hc fun q hq => List.mem_cons_of_mem _ hq
          simp only [JHeap.objectAdd, hn] at hadd
          cases hadd
          cases hold : ms.lookup key with
          | none =>
              refine hc.setNode hn hpos fun q => ?_
              have hcount := count_setMember key val (some q) ms
              simp only [hold, Option.toList_none, List.count_nil] at hcount
              simp only [JNode.children, List.count_cons, List.count_nil] at hcount ⊢
              omega
          | some old =>
              -- the old value is put as if it had been replaced before
              have hset : (h.setNode r (.object (setMember key val ms))).Counted (old :: held) := by
                refine hc.setNode hn hpos fun q => ?_
                have hcount := count_setMember key val (some q) ms
                simp only [hold, Option.toList_some] at hcount
                simp only [JNode.children, List.count_cons, List.count_nil] at hcount ⊢
                omega
              have hput := hset.put
              have hlen : (h.setNode r (.object (setMember key val ms))).cells.length =
                  h.cells.length := length_setNode _ _ _
              have hlive : 0 < ((h.setNode r (.object (setMember key val ms))).put old).refs r := by
                have ha' : ((h.setNode r (.object (setMember key val ms))).put old).Anchored held r := by
                  refine ha.imp_right ?_
                  rintro ⟨q, n, hqr, hq, hn, hmem⟩
                  exact ⟨q, n, hqr, hq, by rw [node?_put, node?_setNode_ne _ hqr, hn], hmem⟩
                exact ha'.pos hput fun _ hq => hq
              rw [JHeap.put, hlen] at hlive hput
              rw [putN_setNode _ _ _ _ _ hlive] at hput
              exact hput
      | _ => simp only [JHeap.objectAdd, hn, reduceCtorEq] at hadd

/-- **`json_object_array_add` takes a reference over.** -/
theorem arrayAdd {val : JPtr} {ps : List JPtr} (hc : h.Counted (val :: held))
    (hn : h.node? r = some (.array ps)) (hr : 0 < h.refs r) :
    (h.arrayAdd (some r) val).Counted held := by
  simp only [JHeap.arrayAdd, hn]
  refine hc.setNode hn hr fun q => ?_
  simp only [JNode.children, List.count_append, List.count_cons, List.count_nil]
  omega

end Counted

theorem objectAdd_frame {h h' : JHeap} {r : Ref} {key : CStr} {val : JPtr}
    (hadd : h.objectAdd (some r) key val = .ok h') :
    h'.cells.length = h.cells.length ∧ ∀ q, q ≠ r → h'.node? q = h.node? q := by
  by_cases hobj : h.typeOf (some r) = .object
  · obtain ⟨r', ms, heq, hr⟩ := typeOf_eq_object.mp hobj
    cases heq
    obtain ⟨h₁, hadd₁, -, hother, hlen⟩ := objectAdd_object hr key val
    rw [hadd] at hadd₁
    cases hadd₁
    exact ⟨hlen, hother⟩
  · rw [objectAdd_eq_error hobj] at hadd
    cases hadd

theorem arrayAdd_frame (h : JHeap) (r : Ref) (val : JPtr) :
    (h.arrayAdd (some r) val).cells.length = h.cells.length := by
  simp only [arrayAdd]
  split
  · exact length_setNode _ _ _
  · rfl

theorem refers_objectAdd {h h' : JHeap} {r : Ref} {key : CStr} {val : JPtr}
    (hadd : h.objectAdd (some r) key val = .ok h') {p q : Ref} (hpq : h'.Refers p q) :
    h.Refers p q ∨ (p = r ∧ val = some q) := by
  cases hn : h.node? r with
  | none => simp only [JHeap.objectAdd, hn, reduceCtorEq] at hadd
  | some n =>
      cases n with
      | object ms =>
          simp only [JHeap.objectAdd, hn] at hadd
          cases hadd
          have hfade : Fades h (h.putReplaced (ms.lookup key)) := by
            cases ms.lookup key with
            | none => exact .refl h
            | some old => exact fades_putN _ h old
          have hpos : 0 < (h.putReplaced (ms.lookup key)).refs p := by
            have := (refers_iff.mp hpq).1
            rwa [refs_setNode] at this
          rcases refers_setNode hpq with hpq | ⟨rfl, hmem⟩
          · exact .inl (hfade.refers hpq)
          · have hcount := count_setMember key val (some q) ms
            by_cases hval : val = some q
            · exact .inr ⟨rfl, hval⟩
            · have hmem' : 0 < ((setMember key val ms).map Prod.snd).count (some q) :=
                List.count_pos_iff.mpr hmem
              rw [List.count_singleton, beq_false_of_ne hval] at hcount
              have hmem₀ : 0 < (ms.map Prod.snd).count (some q) := by
                simp only [Bool.false_eq_true, if_false] at hcount
                omega
              exact .inl (refers_iff.mpr ⟨hpos.trans_le (hfade.refs p), _, hn,
                List.count_pos_iff.mp hmem₀⟩)
      | _ => simp only [JHeap.objectAdd, hn, reduceCtorEq] at hadd

theorem refers_arrayAdd {h : JHeap} {r : Ref} {val : JPtr} {p q : Ref}
    (hpq : (h.arrayAdd (some r) val).Refers p q) : h.Refers p q ∨ (p = r ∧ val = some q) := by
  cases hn : h.node? r with
  | none =>
      simp only [JHeap.arrayAdd, hn] at hpq
      exact .inl hpq
  | some n =>
      cases n with
      | array ps =>
          simp only [JHeap.arrayAdd, hn] at hpq
          have hpos := (refers_iff.mp hpq).1
          rw [refs_setNode] at hpos
          rcases refers_setNode hpq with hpq | ⟨rfl, hmem⟩
          · exact .inl hpq
          · rcases List.mem_append.mp hmem with hmem | hmem
            · exact .inl (refers_iff.mpr ⟨hpos, _, hn, hmem⟩)
            · exact .inr ⟨rfl, (List.mem_singleton.mp hmem).symm⟩
      | _ =>
          simp only [JHeap.arrayAdd, hn] at hpq
          exact .inl hpq

end JHeap

end Libjapi
