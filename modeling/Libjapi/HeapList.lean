/-
# `Libjapi.HeapList` — singly linked lists in a heap

A heap maps addresses to cells, a cell is a value and a pointer to the next
cell, and a list in the heap is a path from a pointer to NULL (`Path`), together
with the values on it.  Pushing a cell in front, unlinking the head and
unlinking an inner cell change the path as they should; a write anywhere else
leaves it alone.

    a pointer has one path, and no address is on it twice      `Path.unique`, `Path.nodup`
    push                                                        `Path.push`
    unlink                                                      `Path.unlink_head`, `Path.unlink`
    frame                                                       `Path.frame`, `Path.update`
    the cells of a list that are gone are free                  `Cleared`
-/
import Mathlib.Data.List.Nodup
import Mathlib.Logic.Function.Basic

namespace Libjapi.HeapList

variable {α : Type*}

/-- A cell of the heap. -/
structure Cell (α : Type*) where
  val : α
  next : Option Nat

/-- The cells in use. -/
abbrev Cells (α : Type*) := Nat → Option (Cell α)

/-- The addresses on a path. -/
def addrs (l : List (Nat × α)) : List Nat := l.map Prod.fst

/-- The pointer to the first cell of a path. -/
def headAddr (l : List (Nat × α)) : Option Nat := l.head?.map Prod.fst

/-- The address of the last cell of a path. -/
def lastAddr (l : List (Nat × α)) : Option Nat := l.getLast?.map Prod.fst

/-- From the pointer `p` the cells of `l` are linked, up to NULL. -/
def Path (cells : Cells α) : Option Nat → List (Nat × α) → Prop
  | p, [] => p = none
  | p, (a, v) :: l => p = some a ∧ ∃ n, cells a = some ⟨v, n⟩ ∧ Path cells n l

theorem mem_addrs {l : List (Nat × α)} {a : Nat} : a ∈ addrs l ↔ ∃ v, (a, v) ∈ l := by
  simp [addrs]

theorem addrs_append (l l' : List (Nat × α)) : addrs (l ++ l') = addrs l ++ addrs l' :=
  List.map_append

theorem addrs_cons (a : Nat) (v : α) (l : List (Nat × α)) : addrs ((a, v) :: l) = a :: addrs l :=
  rfl

theorem mem_addrs_of_headAddr {l : List (Nat × α)} {a : Nat} (h : headAddr l = some a) :
    a ∈ addrs l := by
  obtain ⟨e, he, rfl⟩ := Option.map_eq_some_iff.mp h
  exact List.mem_map_of_mem (List.mem_of_mem_head? he)

theorem not_mem_of_nodup {pre post : List (Nat × α)} {a : Nat} {v : α}
    (h : (addrs (pre ++ (a, v) :: post)).Nodup) : a ∉ addrs (pre ++ post) := by
  rw [addrs_append, addrs_cons, List.nodup_middle, List.nodup_cons] at h
  rw [addrs_append]
  exact h.1

theorem lastAddr_concat (l : List (Nat × α)) (a : Nat) (v : α) :
    lastAddr (l ++ [(a, v)]) = some a := by
  simp [lastAddr]

theorem eq_concat_of_lastAddr {l : List (Nat × α)} {a : Nat} (h : lastAddr l = some a) :
    ∃ l' v, l = l' ++ [(a, v)] := by
  obtain ⟨e, he, rfl⟩ := Option.map_eq_some_iff.mp h
  exact ⟨l.dropLast, e.2, (List.dropLast_append_getLast? e he).symm⟩

namespace Path

variable {cells cells' : Cells α} {p : Option Nat} {l l' pre post : List (Nat × α)} {a b : Nat}
  {v w : α}

theorem eq_headAddr (h : Path cells p l) : p = headAddr l := by
  cases l with
  | nil => exact h
  | cons e l => exact h.1

/-- **A pointer has one path.** -/
theorem unique (h : Path cells p l) (h' : Path cells p l') : l = l' := by
  induction l generalizing p l' with
  | nil =>
      cases l' with
      | nil => rfl
      | cons e l' => exact absurd (h.symm.trans h'.1) (by simp)
  | cons e l ih =>
      obtain ⟨a, v⟩ := e
      obtain ⟨rfl, n, hcell, hrest⟩ := h
      cases l' with
      | nil => exact absurd h' (by simp [Path])
      | cons e' l' =>
          obtain ⟨a', v'⟩ := e'
          obtain ⟨ha, n', hcell', hrest'⟩ := h'
          cases ha
          rw [hcell] at hcell'
          cases hcell'
          rw [ih hrest hrest']

theorem drop (h : Path cells p (pre ++ post)) : Path cells (headAddr post) post := by
  induction pre generalizing p with
  | nil =>
      have hhead : p = headAddr post := h.eq_headAddr
      rw [← hhead]
      exact h
  | cons e pre ih =>
      obtain ⟨-, n, -, hrest⟩ := h
      exact ih hrest

theorem cell (h : Path cells p (pre ++ (a, v) :: post)) : cells a = some ⟨v, headAddr post⟩ := by
  obtain ⟨-, n, hcell, hrest⟩ := h.drop
  rw [hcell, hrest.eq_headAddr]

theorem cell_head (h : Path cells p ((a, v) :: post)) : cells a = some ⟨v, headAddr post⟩ := by
  rw [← List.nil_append ((a, v) :: post)] at h
  exact h.cell

theorem cell_of_mem (h : Path cells p l) (ha : a ∈ addrs l) :
    ∃ v n, cells a = some ⟨v, n⟩ := by
  obtain ⟨v, hv⟩ := mem_addrs.mp ha
  obtain ⟨pre, post, rfl⟩ := List.append_of_mem hv
  exact ⟨v, _, h.cell⟩

/-- **No address is on a path twice**: the path from it would have two lengths. -/
theorem nodup (h : Path cells p l) : (addrs l).Nodup := by
  induction l generalizing p with
  | nil => exact List.nodup_nil
  | cons e l ih =>
      obtain ⟨a, v⟩ := e
      have hrest := h
      obtain ⟨rfl, n, -, htail⟩ := hrest
      refine List.nodup_cons.mpr ⟨?_, ih htail⟩
      intro ha
      obtain ⟨w, hw⟩ := mem_addrs.mp ha
      obtain ⟨pre, post, rfl⟩ := List.append_of_mem hw
      -- both from the first cell and from its second occurrence
      have hsecond : Path cells (some a) ((a, w) :: post) := htail.drop
      have hlen := congrArg List.length (h.unique hsecond)
      simp at hlen
      omega

theorem addr_ne (h : Path cells p (pre ++ (b, w) :: post)) (ha : a ∈ addrs post) : a ≠ b := by
  rintro rfl
  exact (List.nodup_cons.mp h.drop.nodup).1 ha

/-- **Frame**: the path depends on its own cells only. -/
theorem frame (h : Path cells p l) (heq : ∀ a ∈ addrs l, cells' a = cells a) :
    Path cells' p l := by
  induction l generalizing p with
  | nil => exact h
  | cons e l ih =>
      obtain ⟨a, v⟩ := e
      obtain ⟨rfl, n, hcell, hrest⟩ := h
      refine ⟨rfl, n, ?_, ih hrest fun a' ha' => heq a' (List.mem_cons_of_mem _ ha')⟩
      rw [heq a List.mem_cons_self]
      exact hcell

/-- A write next to the path. -/
theorem update (h : Path cells p l) (ha : a ∉ addrs l) (c : Option (Cell α)) :
    Path (Function.update cells a c) p l := by
  refine h.frame fun a' ha' => Function.update_of_ne ?_ _ _
  rintro rfl
  exact ha ha'

/-- **Push**: a cell that points to the head becomes the head. -/
theorem push (h : Path cells p l) (hcell : cells a = some ⟨v, p⟩) :
    Path cells (some a) ((a, v) :: l) := ⟨rfl, p, hcell, h⟩

/-- **Unlink the head.** -/
theorem unlink_head (h : Path cells p ((a, v) :: post)) : Path cells (headAddr post) post := by
  obtain ⟨-, n, -, hrest⟩ := h
  rw [← hrest.eq_headAddr]
  exact hrest

/-- **Unlink a cell behind another one**, which is made to point past it. -/
theorem unlink (h : Path cells p (pre ++ (b, w) :: (a, v) :: post)) :
    Path (Function.update cells b (some ⟨w, headAddr post⟩)) p (pre ++ (b, w) :: post) := by
  induction pre generalizing p with
  | nil =>
      have hnodup := h.nodup
      simp only [List.nil_append, addrs_cons, List.nodup_cons, List.mem_cons, not_or] at hnodup
      obtain ⟨rfl, n, -, hrest⟩ := h
      refine ⟨rfl, _, Function.update_self _ _ _, ?_⟩
      exact hrest.unlink_head.update hnodup.1.2 _
  | cons e pre ih =>
      obtain ⟨a', v'⟩ := e
      have hnodup := h.nodup
      have hne : a' ≠ b := by
        rintro rfl
        simp [addrs] at hnodup
      obtain ⟨rfl, n, hcell, hrest⟩ := h
      exact ⟨rfl, n, (Function.update_of_ne hne _ _).trans hcell, ih hrest⟩

theorem setVal (h : Path cells p (pre ++ (a, v) :: post)) (w : α) :
    Path (Function.update cells a (some ⟨w, headAddr post⟩)) p (pre ++ (a, w) :: post) := by
  induction pre generalizing p with
  | nil =>
      have hnodup := h.nodup
      simp only [List.nil_append, addrs_cons, List.nodup_cons] at hnodup
      obtain ⟨rfl, n, -, hrest⟩ := h
      refine ⟨rfl, _, Function.update_self _ _ _, ?_⟩
      rw [← hrest.eq_headAddr]
      exact hrest.update hnodup.1 _
  | cons e pre ih =>
      obtain ⟨a', v'⟩ := e
      have hnodup := h.nodup
      have hne : a' ≠ a := by
        rintro rfl
        simp [addrs] at hnodup
      obtain ⟨rfl, n, hcell, hrest⟩ := h
      exact ⟨rfl, n, (Function.update_of_ne hne _ _).trans hcell, ih hrest⟩

end Path

/-! ## Freeing -/

/-- The cells that were in `old` and are not in `new` are free, and no other cell was written
but those in both. -/
structure Cleared (cells cells' : Cells α) (old new : List Nat) : Prop where
  subset : new ⊆ old
  freed : ∀ a ∈ old, a ∉ new → cells' a = none
  frame : ∀ a, a ∉ old → cells' a = cells a

namespace Cleared

variable {cells cells' cells'' : Cells α} {old mid new : List Nat}

theorem path (h : Cleared cells cells' old new) {q : Option Nat} {l : List (Nat × α)}
    (hpath : Path cells q l) (hdisj : ∀ a ∈ old, a ∉ addrs l) : Path cells' q l :=
  hpath.frame fun a ha => h.frame a fun hold => hdisj a hold ha

theorem refl (cells : Cells α) (old : List Nat) : Cleared cells cells old old :=
  ⟨List.Subset.refl old, fun _ ha hno => absurd ha hno, fun _ _ => rfl⟩

theorem trans (h : Cleared cells cells' old mid) (h' : Cleared cells' cells'' mid new) :
    Cleared cells cells'' old new := by
  refine ⟨List.Subset.trans h'.subset h.subset, ?_, ?_⟩
  · intro a ha hno
    by_cases hmid : a ∈ mid
    · exact h'.freed a hmid hno
    · rw [h'.frame a hmid]
      exact h.freed a ha hmid
  · intro a ha
    have hmid : a ∉ mid := fun hmid => ha (h.subset hmid)
    rw [h'.frame a hmid, h.frame a ha]

/-- A cell of the list is written. -/
theorem update {a : Nat} (ha : a ∈ old) (c : Option (Cell α)) :
    Cleared cells (Function.update cells a c) old old := by
  refine ⟨List.Subset.refl old, fun _ hb hno => absurd hb hno, ?_⟩
  intro b hb
  refine Function.update_of_ne ?_ _ _
  rintro rfl
  exact hb ha

theorem free (a : Nat) :
    Cleared cells (Function.update cells a none) (a :: old) old := by
  refine ⟨List.subset_cons_self a old, ?_, ?_⟩
  · intro b hb hno
    rw [(List.mem_cons.mp hb).resolve_right hno]
    exact Function.update_self _ _ _
  · intro b hb
    exact Function.update_of_ne (List.ne_of_not_mem_cons hb) _ _

theorem append (h : Cleared cells cells' old new) (left right : List Nat) :
    Cleared cells cells' (left ++ old ++ right) (left ++ new ++ right) := by
  refine ⟨?_, ?_, ?_⟩
  · intro a ha
    simp only [List.mem_append] at ha ⊢
    exact ha.imp_left (Or.imp_right (@h.subset a))
  · intro a ha hno
    simp only [List.mem_append, not_or] at ha hno
    rcases ha with (ha | ha) | ha
    · exact absurd ha hno.1.1
    · exact h.freed a ha hno.1.2
    · exact absurd ha hno.2
  · intro a ha
    simp only [List.mem_append, not_or] at ha
    exact h.frame a ha.1.2

end Cleared

end Libjapi.HeapList
