/-
# `Libjapi.JsonC` — json-c objects on an explicit heap

json-c hands out pointers to reference-counted, mutable objects; the NULL
pointer is JSON `null`.  Here a pointer is a `JPtr`, the heap is a list of
cells (node and count), and the functions the library calls are defined as
json-c documents them: `json_object_object_add` takes over one reference and
asserts that its first argument is an object, `json_object_get` adds one,
`json_object_put` drops one and frees at zero.  A count may be read off a
freed cell, so that a count below zero would show.

The tokener and the serialiser are parameters: `JsonC` holds them, on plain trees
(`Json`).  `JHeap.build` lays a parsed tree out on the heap and `Denotes` says that
a pointer stands for a tree.
-/
import Libjapi.CString

namespace Libjapi

/-! ## Trees and cells -/

/-- A JSON value.  Numbers with a fraction are kept as their text. -/
inductive Json where
  | null
  | boolean (b : Bool)
  | double (text : List Byte)
  | int (i : Int)
  | string (s : List Byte)
  | array (elems : List Json)
  | object (members : List (CStr × Json))

abbrev Ref := Nat

/-- `json_object *`. -/
abbrev JPtr := Option Ref

inductive JNode where
  | boolean (b : Bool)
  | double (text : List Byte)
  | int (i : Int)
  | string (s : List Byte)
  | array (elems : List JPtr)
  | object (members : List (CStr × JPtr))

/-- `json_type`. -/
inductive JType where
  | null | boolean | double | int | string | array | object
  deriving DecidableEq

def JNode.type : JNode → JType
  | .boolean _ => .boolean
  | .double _ => .double
  | .int _ => .int
  | .string _ => .string
  | .array _ => .array
  | .object _ => .object

/-- The objects a node holds references to. -/
def JNode.children : JNode → List JPtr
  | .array ps => ps
  | .object ms => ms.map Prod.snd
  | _ => []

structure JCell where
  node : JNode
  refs : Int

structure JHeap where
  cells : List JCell

def Json.type : Json → JType
  | .null => .null
  | .boolean _ => .boolean
  | .double _ => .double
  | .int _ => .int
  | .string _ => .string
  | .array _ => .array
  | .object _ => .object

/-- The value under a key, if the tree is an object that has the key. -/
def Json.member? : Json → CStr → Option Json
  | .object ms, key => ms.lookup key
  | _, _ => none

/-- The tokener, the serialiser and the conversions of json-c that the code
calls: `parse` gives `none` on text that is not JSON. -/
structure JsonC where
  parse : CStr → Option Json
  toJsonString : Json → CStr
  intOfString : List Byte → Int
  intOfDouble : List Byte → Int

/-- What ends the process: a failed assertion in `json_object_object_add`, one
in the library itself, or a call through a NULL handler. -/
inductive Abort where
  | notAnObject
  | assertion
  | nullHandler
  deriving DecidableEq

namespace JHeap

/-! ## Cells -/

def node? (h : JHeap) (r : Ref) : Option JNode := h.cells[r]?.map JCell.node

def setNode (h : JHeap) (r : Ref) (n : JNode) : JHeap :=
  ⟨h.cells.modify r fun c => { c with node := n }⟩

def addRefs (h : JHeap) (r : Ref) (d : Int) : JHeap :=
  ⟨h.cells.modify r fun c => { c with refs := c.refs + d }⟩

/-- A new object, with one reference. -/
def alloc (h : JHeap) (n : JNode) : JPtr × JHeap :=
  (some h.cells.length, ⟨h.cells ++ [⟨n, 1⟩]⟩)

/-- `json_object_get_type`. -/
def typeOf (h : JHeap) : JPtr → JType
  | none => .null
  | some r => ((h.node? r).map JNode.type).getD .null

/-- `json_object_get`. -/
def get (h : JHeap) : JPtr → JHeap
  | none => h
  | some r => h.addRefs r 1

/-- `json_object_put` to a nesting depth. -/
def putN : Nat → JHeap → JPtr → JHeap
  | 0, h, _ => h
  | _ + 1, h, none => h
  | n + 1, h, some r =>
      let h := h.addRefs r (-1)
      match h.cells[r]? with
      | some ⟨node, 0⟩ => node.children.foldl (putN n) h
      | _ => h

/-- `json_object_put`. -/
def put (h : JHeap) (p : JPtr) : JHeap := putN (h.cells.length + 1) h p

/-! ## Objects -/

/-- Replace the value of a key in place, or append a new member. -/
def setMember (key : CStr) (val : JPtr) : List (CStr × JPtr) → List (CStr × JPtr)
  | [] => [(key, val)]
  | (k, v) :: ms => if k = key then (k, val) :: ms else (k, v) :: setMember key val ms

/-- `json_object_object_get_ex`: `none` is FALSE, `some p` is TRUE with `*value = p`. -/
def getEx (h : JHeap) (jso : JPtr) (key : CStr) : Option JPtr :=
  match jso.bind h.node? with
  | some (.object ms) => ms.lookup key
  | _ => none

/-- A value that is replaced is put. -/
def putReplaced (h : JHeap) : Option JPtr → JHeap
  | some old => h.put old
  | none => h

/-- `json_object_object_add`. -/
def objectAdd (h : JHeap) (jso : JPtr) (key : CStr) (val : JPtr) : Except Abort JHeap :=
  match jso with
  | some r =>
      match h.node? r with
      | some (.object ms) =>
          .ok ((h.putReplaced (ms.lookup key)).setNode r (.object (setMember key val ms)))
      | _ => .error .notAnObject
  | none => .error .notAnObject

/-- `json_object_object_add(jso, key, json_object_new_xyz(...))`. -/
def objectAddNew (h : JHeap) (jso : JPtr) (key : CStr) (n : JNode) : Except Abort JHeap :=
  (h.alloc n).2.objectAdd jso key (h.alloc n).1

/-- `json_object_array_add`, on an array that was just created. -/
def arrayAdd (h : JHeap) (jso : JPtr) (val : JPtr) : JHeap :=
  match jso with
  | some r =>
      match h.node? r with
      | some (.array ps) => h.setNode r (.array (ps ++ [val]))
      | _ => h
  | none => h

/-! ## Trees on the heap -/

mutual
/-- Lay a tree out on the heap. -/
def build (h : JHeap) : Json → JPtr × JHeap
  | .null => (none, h)
  | .boolean b => h.alloc (.boolean b)
  | .double t => h.alloc (.double t)
  | .int i => h.alloc (.int i)
  | .string s => h.alloc (.string s)
  | .array es => (buildAll h es).2.alloc (.array (buildAll h es).1)
  | .object ms => (buildMembers h ms).2.alloc (.object (buildMembers h ms).1)

def buildAll (h : JHeap) : List Json → List JPtr × JHeap
  | [] => ([], h)
  | j :: js =>
      ((build h j).1 :: (buildAll (build h j).2 js).1, (buildAll (build h j).2 js).2)

def buildMembers (h : JHeap) : List (CStr × Json) → List (CStr × JPtr) × JHeap
  | [] => ([], h)
  | (k, j) :: ms =>
      ((k, (build h j).1) :: (buildMembers (build h j).2 ms).1,
        (buildMembers (build h j).2 ms).2)
end

/-- Read a tree back, to a nesting depth. -/
def readN : Nat → JHeap → JPtr → Json
  | 0, _, _ => .null
  | _ + 1, _, none => .null
  | n + 1, h, some r =>
      match h.node? r with
      | none => .null
      | some (.boolean b) => .boolean b
      | some (.double t) => .double t
      | some (.int i) => .int i
      | some (.string s) => .string s
      | some (.array ps) => .array (ps.map (readN n h))
      | some (.object ms) => .object (ms.map fun m => (m.1, readN n h m.2))

/-- The tree a pointer stands for. -/
def read (h : JHeap) (p : JPtr) : Json := readN (h.cells.length + 1) h p

/-! ## Conversions -/

/-- `json_object_get_string`: the text of a string, the serialisation of
anything else, `NULL` for `NULL`. -/
def getString (J : JsonC) (h : JHeap) : JPtr → Option CStr
  | none => none
  | some r =>
      match h.node? r with
      | some (.string s) => some (CStr.ofBytes s)
      | _ => some (J.toJsonString (h.read (some r)))

/-- `json_object_get_int`, which clamps to the range of `int`. -/
def getInt (J : JsonC) (h : JHeap) : JPtr → Int
  | none => 0
  | some r =>
      match h.node? r with
      | some (.int i) => max (-2 ^ 31) (min i (2 ^ 31 - 1))
      | some (.boolean b) => if b then 1 else 0
      | some (.double t) => J.intOfDouble t
      | some (.string s) => J.intOfString s
      | _ => 0

mutual
/-- The pointer stands for the tree. -/
def Denotes (h : JHeap) : JPtr → Json → Prop
  | none, .null => True
  | some r, .boolean b => h.node? r = some (.boolean b)
  | some r, .double t => h.node? r = some (.double t)
  | some r, .int i => h.node? r = some (.int i)
  | some r, .string s => h.node? r = some (.string s)
  | some r, .array es => ∃ ps, h.node? r = some (.array ps) ∧ DenotesAll h ps es
  | some r, .object ms => ∃ ps, h.node? r = some (.object ps) ∧ DenotesMembers h ps ms
  | _, _ => False

def DenotesAll (h : JHeap) : List JPtr → List Json → Prop
  | [], [] => True
  | p :: ps, j :: js => Denotes h p j ∧ DenotesAll h ps js
  | _, _ => False

def DenotesMembers (h : JHeap) : List (CStr × JPtr) → List (CStr × Json) → Prop
  | [], [] => True
  | (k, p) :: ps, (k', j) :: ms => k = k' ∧ Denotes h p j ∧ DenotesMembers h ps ms
  | _, _ => False
end

/-! ## What the operations leave alone -/

/-- Every object is still there, with the same node. -/
def Extends (h h' : JHeap) : Prop := ∀ r n, h.node? r = some n → h'.node? r = some n

theorem Extends.refl (h : JHeap) : h.Extends h := fun _ _ hr => hr

theorem Extends.trans {h₁ h₂ h₃ : JHeap} (a : h₁.Extends h₂) (b : h₂.Extends h₃) :
    h₁.Extends h₃ := fun r n hr => b r n (a r n hr)

/-- Every object is still there, with the same type.  json-c has no function
that changes the type of an object. -/
def KeepsTypes (h h' : JHeap) : Prop :=
  ∀ r t, (h.node? r).map JNode.type = some t → (h'.node? r).map JNode.type = some t

theorem KeepsTypes.refl (h : JHeap) : h.KeepsTypes h := fun _ _ hr => hr

theorem KeepsTypes.trans {h₁ h₂ h₃ : JHeap} (a : h₁.KeepsTypes h₂) (b : h₂.KeepsTypes h₃) :
    h₁.KeepsTypes h₃ := fun r t hr => b r t (a r t hr)

theorem Extends.keepsTypes {h h' : JHeap} (a : h.Extends h') : h.KeepsTypes h' := by
  intro r t hr
  obtain ⟨n, hn, rfl⟩ := Option.map_eq_some_iff.mp hr
  rw [a r n hn]
  rfl

theorem typeOf_eq_object {h : JHeap} {p : JPtr} :
    h.typeOf p = .object ↔ ∃ r ms, p = some r ∧ h.node? r = some (.object ms) := by
  constructor
  · intro hp
    cases p with
    | none => cases hp
    | some r =>
        cases hn : h.node? r with
        | none => simp [typeOf, hn] at hp
        | some n =>
            cases n <;> simp [typeOf, hn, JNode.type] at hp
            exact ⟨r, _, rfl, hn⟩
  · rintro ⟨r, ms, rfl, hn⟩
    simp [typeOf, hn, JNode.type]

theorem KeepsTypes.object {h h' : JHeap} (a : h.KeepsTypes h') {p : JPtr}
    (hp : h.typeOf p = .object) : h'.typeOf p = .object := by
  obtain ⟨r, ms, rfl, hn⟩ := typeOf_eq_object.mp hp
  have := a r .object (by rw [hn]; rfl)
  simp [typeOf, this]

theorem node?_lt {h : JHeap} {r : Ref} {n : JNode} (hr : h.node? r = some n) :
    r < h.cells.length := by
  obtain ⟨c, hc, -⟩ := Option.map_eq_some_iff.mp hr
  exact (List.getElem?_eq_some_iff.mp hc).1

theorem extends_alloc (h : JHeap) (n : JNode) : h.Extends (h.alloc n).2 := by
  intro r n' hr
  rw [node?, alloc, List.getElem?_append_left (node?_lt hr)]
  exact hr

theorem node?_alloc (h : JHeap) (n : JNode) : (h.alloc n).2.node? h.cells.length = some n := by
  simp [node?, alloc]

theorem node?_setNode_self {h : JHeap} {r : Ref} {n : JNode} (n' : JNode)
    (hr : h.node? r = some n) : (h.setNode r n').node? r = some n' := by
  have hlt := node?_lt hr
  simp [node?, setNode, hlt]

theorem node?_setNode_ne {h : JHeap} {r r' : Ref} (n : JNode) (hne : r' ≠ r) :
    (h.setNode r n).node? r' = h.node? r' := by
  simp [node?, setNode, Ne.symm hne]

theorem node?_addRefs (h : JHeap) (r r' : Ref) (d : Int) :
    (h.addRefs r d).node? r' = h.node? r' := by
  simp only [node?, addRefs, List.getElem?_modify]
  cases h.cells[r']? <;> simp
  split <;> rfl

theorem node?_get (h : JHeap) (p : JPtr) (r : Ref) : (h.get p).node? r = h.node? r := by
  cases p with
  | none => rfl
  | some r' => exact node?_addRefs h r' r 1

theorem node?_putN (n : Nat) : ∀ (h : JHeap) (p : JPtr) (r : Ref),
    (putN n h p).node? r = h.node? r := by
  induction n with
  | zero => exact fun _ _ _ => rfl
  | succ n ih =>
      intro h p r
      cases p with
      | none => rfl
      | some r' =>
          have hfold : ∀ (ps : List JPtr) (h : JHeap),
              (ps.foldl (putN n) h).node? r = h.node? r := by
            intro ps
            induction ps with
            | nil => exact fun _ => rfl
            | cons p ps ihp =>
                intro h
                rw [List.foldl_cons, ihp, ih]
          simp only [putN]
          split
          · rw [hfold, node?_addRefs]
          · rw [node?_addRefs]

theorem node?_put (h : JHeap) (p : JPtr) (r : Ref) : (h.put p).node? r = h.node? r :=
  node?_putN _ h p r

theorem length_putN (n : Nat) : ∀ (h : JHeap) (p : JPtr),
    (putN n h p).cells.length = h.cells.length := by
  induction n with
  | zero => exact fun _ _ => rfl
  | succ n ih =>
      intro h p
      cases p with
      | none => rfl
      | some r =>
          have hfold : ∀ (ps : List JPtr) (h : JHeap),
              (ps.foldl (putN n) h).cells.length = h.cells.length := by
            intro ps
            induction ps with
            | nil => exact fun _ => rfl
            | cons p ps ihp =>
                intro h
                rw [List.foldl_cons, ihp, ih]
          simp only [putN]
          split
          · rw [hfold]
            simp [addRefs]
          · simp [addRefs]

/-! ## Members -/

theorem lookup_setMember_self (key : CStr) (val : JPtr) (ms : List (CStr × JPtr)) :
    (setMember key val ms).lookup key = some val := by
  induction ms with
  | nil => simp [setMember]
  | cons m ms ih =>
      obtain ⟨k, v⟩ := m
      simp only [setMember]
      split
      · rename_i hk
        simp [hk]
      · rename_i hk
        have : (key == k) = false := by simpa using fun h => hk h.symm
        simp [List.lookup_cons, this, ih]

theorem lookup_setMember_ne {key key' : CStr} (hne : key' ≠ key) (val : JPtr)
    (ms : List (CStr × JPtr)) : (setMember key val ms).lookup key' = ms.lookup key' := by
  have hbeq : (key' == key) = false := by simpa using hne
  induction ms with
  | nil => simp [setMember, List.lookup_cons, hbeq]
  | cons m ms ih =>
      obtain ⟨k, v⟩ := m
      simp only [setMember]
      split
      · rename_i hk
        simp [List.lookup_cons, hk, hbeq]
      · simp only [List.lookup_cons, ih]

/-- **What `json_object_object_add` does to an object**: the member is set, and
no other object's node changes. -/
theorem objectAdd_object {h : JHeap} {r : Ref} {ms : List (CStr × JPtr)}
    (hr : h.node? r = some (.object ms)) (key : CStr) (val : JPtr) :
    ∃ h', h.objectAdd (some r) key val = .ok h' ∧
      h'.node? r = some (.object (setMember key val ms)) ∧
      (∀ r', r' ≠ r → h'.node? r' = h.node? r') ∧ h'.cells.length = h.cells.length := by
  have hput : ∀ r', (h.putReplaced (ms.lookup key)).node? r' = h.node? r' := by
    intro r'
    cases ms.lookup key with
    | none => rfl
    | some old => exact node?_put h old r'
  refine ⟨(h.putReplaced (ms.lookup key)).setNode r (.object (setMember key val ms)),
    by simp only [objectAdd, hr], node?_setNode_self _ ((hput r).trans hr), ?_, ?_⟩
  · intro r' hne
    rw [node?_setNode_ne _ hne, hput]
  · simp only [setNode, List.length_modify]
    cases ms.lookup key with
    | none => rfl
    | some old => exact length_putN _ h old

theorem objectAdd_eq_error {h : JHeap} {p : JPtr} (hp : h.typeOf p ≠ .object) (key : CStr)
    (val : JPtr) : h.objectAdd p key val = .error .notAnObject := by
  unfold objectAdd
  split
  · split
    · rename_i hr
      exact absurd (typeOf_eq_object.mpr ⟨_, _, rfl, hr⟩) hp
    · rfl
  · rfl

theorem typeOf_alloc_ne {h : JHeap} {p : JPtr} {n : JNode} (hp : h.typeOf p ≠ .object)
    (hn : n.type ≠ .object) : (h.alloc n).2.typeOf p ≠ .object := by
  intro heq
  obtain ⟨r, ms, rfl, hr⟩ := typeOf_eq_object.mp heq
  rcases Nat.lt_or_ge r h.cells.length with hlt | hge
  · refine hp (typeOf_eq_object.mpr ⟨r, ms, rfl, ?_⟩)
    rwa [node?, alloc, List.getElem?_append_left hlt] at hr
  · -- the only new object is the allocated one
    have hlen : (h.alloc n).2.cells.length = h.cells.length + 1 := by simp [alloc]
    have hle : r ≤ h.cells.length := Nat.lt_succ_iff.mp ((node?_lt hr).trans_eq hlen)
    obtain rfl : r = h.cells.length := Nat.le_antisymm hle hge
    rw [node?_alloc] at hr
    cases hr
    exact hn rfl

theorem objectAdd_keepsTypes {h h' : JHeap} {p : JPtr} {key : CStr} {val : JPtr}
    (hadd : h.objectAdd p key val = .ok h') : h.KeepsTypes h' := by
  by_cases hp : h.typeOf p = .object
  · obtain ⟨r, ms, rfl, hr⟩ := typeOf_eq_object.mp hp
    obtain ⟨h₁, hadd₁, hself, hother, -⟩ := objectAdd_object hr key val
    rw [hadd₁] at hadd
    cases hadd
    intro r' t ht
    by_cases hne : r' = r
    · subst hne
      rw [hr] at ht
      rw [hself]
      exact ht
    · rw [hother r' hne]
      exact ht
  · rw [objectAdd_eq_error hp] at hadd
    cases hadd

/-- Every object but the one `p` points to has the node it had, and all have
the type they had. -/
structure ChangesOnly (p : JPtr) (h h' : JHeap) : Prop where
  types : h.KeepsTypes h'
  others : ∀ r n, p ≠ some r → h.node? r = some n → h'.node? r = some n

theorem ChangesOnly.refl (p : JPtr) (h : JHeap) : ChangesOnly p h h :=
  ⟨KeepsTypes.refl h, fun _ _ _ hn => hn⟩

theorem ChangesOnly.trans {p : JPtr} {h₁ h₂ h₃ : JHeap} (a : ChangesOnly p h₁ h₂)
    (b : ChangesOnly p h₂ h₃) : ChangesOnly p h₁ h₃ :=
  ⟨a.types.trans b.types, fun r n hp hn => b.others r n hp (a.others r n hp hn)⟩

theorem Extends.changesOnly {h h' : JHeap} (a : h.Extends h') (p : JPtr) : ChangesOnly p h h' :=
  ⟨a.keepsTypes, fun r n _ hn => a r n hn⟩

theorem extends_get (h : JHeap) (p : JPtr) : h.Extends (h.get p) :=
  fun r _ hn => (node?_get h p r).trans hn

theorem objectAdd_ok {h : JHeap} {p : JPtr} (hp : h.typeOf p = .object) (key : CStr) (val : JPtr) :
    ∃ h', h.objectAdd p key val = .ok h' ∧ ChangesOnly p h h' ∧ h'.getEx p key = some val := by
  obtain ⟨r, ms, rfl, hr⟩ := typeOf_eq_object.mp hp
  obtain ⟨h', hadd, hself, hother, -⟩ := objectAdd_object hr key val
  refine ⟨h', hadd, ⟨objectAdd_keepsTypes hadd, ?_⟩, ?_⟩
  · intro r' n hne hn
    rw [hother r' fun heq => hne (congrArg some heq.symm)]
    exact hn
  · simp only [getEx, Option.bind_some, hself]
    exact lookup_setMember_self key val ms

theorem objectAddNew_ok {h : JHeap} {p : JPtr} (hp : h.typeOf p = .object) (key : CStr)
    (n : JNode) : ∃ h', h.objectAddNew p key n = .ok h' ∧ ChangesOnly p h h' ∧
      ∃ r, h'.getEx p key = some (some r) ∧ h'.node? r = some n := by
  have hext := extends_alloc h n
  have hp' := hext.keepsTypes.object hp
  obtain ⟨h', hadd, hch, hget⟩ := objectAdd_ok hp' key (h.alloc n).1
  refine ⟨h', hadd, (hext.changesOnly p).trans hch, h.cells.length, hget, ?_⟩
  refine hch.others _ n (fun heq => ?_) (node?_alloc h n)
  -- the new value is none of the objects there were
  obtain ⟨r, ms, rfl, hr⟩ := typeOf_eq_object.mp hp
  exact (node?_lt hr).ne (Option.some.inj heq)

theorem getEx_objectAdd_ne {h h' : JHeap} {p : JPtr} {key key' : CStr} {val : JPtr}
    (hadd : h.objectAdd p key val = .ok h') (hne : key' ≠ key) : h'.getEx p key' = h.getEx p key' := by
  by_cases hp : h.typeOf p = .object
  · obtain ⟨r, ms, rfl, hr⟩ := typeOf_eq_object.mp hp
    obtain ⟨h₁, hadd₁, hself, -, -⟩ := objectAdd_object hr key val
    rw [hadd₁] at hadd
    cases hadd
    simp only [getEx, Option.bind_some, hself, hr]
    exact lookup_setMember_ne hne val ms
  · rw [objectAdd_eq_error hp] at hadd
    cases hadd

theorem getEx_objectAddNew_ne {h h' : JHeap} {p : JPtr} (hp : h.typeOf p = .object)
    {key key' : CStr} {n : JNode} (hadd : h.objectAddNew p key n = .ok h') (hne : key' ≠ key) :
    h'.getEx p key' = h.getEx p key' := by
  rw [getEx_objectAdd_ne hadd hne]
  obtain ⟨r, ms, rfl, hr⟩ := typeOf_eq_object.mp hp
  simp only [getEx, Option.bind_some, hr, extends_alloc h n r _ hr]

theorem ChangesOnly.getEx {p q : JPtr} {h h' : JHeap} (a : ChangesOnly p h h') (hne : p ≠ q)
    (hq : h.typeOf q = .object) (key : CStr) : h'.getEx q key = h.getEx q key := by
  obtain ⟨r, ms, rfl, hr⟩ := typeOf_eq_object.mp hq
  simp only [JHeap.getEx, Option.bind_some, hr, a.others r _ hne hr]

/-! ## Parsed trees -/

mutual
theorem Denotes.mono {h h' : JHeap} (hext : h.Extends h') :
    ∀ {j : Json} {p : JPtr}, Denotes h p j → Denotes h' p j
  | .null, none, _ => trivial
  | .boolean _, some _, hd => hext _ _ hd
  | .double _, some _, hd => hext _ _ hd
  | .int _, some _, hd => hext _ _ hd
  | .string _, some _, hd => hext _ _ hd
  | .array _, some _, ⟨ps, hn, hd⟩ => ⟨ps, hext _ _ hn, DenotesAll.mono hext hd⟩
  | .object _, some _, ⟨ps, hn, hd⟩ => ⟨ps, hext _ _ hn, DenotesMembers.mono hext hd⟩

theorem DenotesAll.mono {h h' : JHeap} (hext : h.Extends h') :
    ∀ {js : List Json} {ps : List JPtr}, DenotesAll h ps js → DenotesAll h' ps js
  | [], [], _ => trivial
  | _ :: _, _ :: _, ⟨hd, hds⟩ => ⟨Denotes.mono hext hd, DenotesAll.mono hext hds⟩

theorem DenotesMembers.mono {h h' : JHeap} (hext : h.Extends h') :
    ∀ {ms : List (CStr × Json)} {ps : List (CStr × JPtr)},
      DenotesMembers h ps ms → DenotesMembers h' ps ms
  | [], [], _ => trivial
  | (_, _) :: _, (_, _) :: _, ⟨hk, hd, hds⟩ =>
      ⟨hk, Denotes.mono hext hd, DenotesMembers.mono hext hds⟩
end

mutual
theorem build_denotes (h : JHeap) :
    ∀ j : Json, h.Extends (build h j).2 ∧ Denotes (build h j).2 (build h j).1 j
  | .null => ⟨Extends.refl h, trivial⟩
  | .boolean _ => ⟨extends_alloc h _, node?_alloc h _⟩
  | .double _ => ⟨extends_alloc h _, node?_alloc h _⟩
  | .int _ => ⟨extends_alloc h _, node?_alloc h _⟩
  | .string _ => ⟨extends_alloc h _, node?_alloc h _⟩
  | .array es => by
      obtain ⟨hext, hd⟩ := buildAll_denotes h es
      have halloc := extends_alloc (buildAll h es).2 (.array (buildAll h es).1)
      exact ⟨hext.trans halloc, _, node?_alloc _ _, hd.mono halloc⟩
  | .object ms => by
      obtain ⟨hext, hd⟩ := buildMembers_denotes h ms
      have halloc := extends_alloc (buildMembers h ms).2 (.object (buildMembers h ms).1)
      exact ⟨hext.trans halloc, _, node?_alloc _ _, hd.mono halloc⟩

theorem buildAll_denotes (h : JHeap) :
    ∀ js : List Json, h.Extends (buildAll h js).2 ∧ DenotesAll (buildAll h js).2 (buildAll h js).1 js
  | [] => ⟨Extends.refl h, trivial⟩
  | j :: js => by
      obtain ⟨hext, hd⟩ := build_denotes h j
      obtain ⟨hext', hd'⟩ := buildAll_denotes (build h j).2 js
      exact ⟨hext.trans hext', hd.mono hext', hd'⟩

theorem buildMembers_denotes (h : JHeap) :
    ∀ ms : List (CStr × Json),
      h.Extends (buildMembers h ms).2 ∧ DenotesMembers (buildMembers h ms).2 (buildMembers h ms).1 ms
  | [] => ⟨Extends.refl h, trivial⟩
  | (k, j) :: ms => by
      obtain ⟨hext, hd⟩ := build_denotes h j
      obtain ⟨hext', hd'⟩ := buildMembers_denotes (build h j).2 ms
      exact ⟨hext.trans hext', rfl, hd.mono hext', hd'⟩
end

theorem Denotes.typeOf {h : JHeap} {p : JPtr} {j : Json} (hd : Denotes h p j) :
    h.typeOf p = j.type := by
  cases p with
  | none =>
      cases j <;> first | rfl | exact absurd hd (by simp [Denotes])
  | some r =>
      cases j with
      | null => exact absurd hd (by simp [Denotes])
      | array es =>
          obtain ⟨ps, hn, -⟩ := hd
          simp [JHeap.typeOf, hn, JNode.type, Json.type]
      | object ms =>
          obtain ⟨ps, hn, -⟩ := hd
          simp [JHeap.typeOf, hn, JNode.type, Json.type]
      | _ =>
          simp only [Denotes] at hd
          simp [JHeap.typeOf, hd, JNode.type, Json.type]

theorem Denotes.typeOf_of_keepsTypes {h h' : JHeap} {p : JPtr} {j : Json} (hd : Denotes h p j)
    (hk : h.KeepsTypes h') : h'.typeOf p = j.type := by
  have htype := hd.typeOf
  cases p with
  | none => exact htype
  | some r =>
      cases hn : h.node? r with
      | none =>
          -- there is an object at every pointer that is not NULL
          cases j with
          | null => exact absurd hd (by simp [Denotes])
          | array es =>
              obtain ⟨ps, hn', -⟩ := hd
              simp [hn] at hn'
          | object ms =>
              obtain ⟨ps, hn', -⟩ := hd
              simp [hn] at hn'
          | _ =>
              simp only [Denotes] at hd
              simp [hn] at hd
      | some n =>
          have hkept := hk r n.type (by rw [hn]; rfl)
          simp only [JHeap.typeOf, hn, Option.map_some, Option.getD_some] at htype
          simp only [JHeap.typeOf, hkept, Option.getD_some, htype]

theorem DenotesMembers.lookup {h : JHeap} (key : CStr) :
    ∀ {ms : List (CStr × Json)} {ps : List (CStr × JPtr)}, DenotesMembers h ps ms →
      match ms.lookup key with
      | none => ps.lookup key = none
      | some v => ∃ q, ps.lookup key = some q ∧ Denotes h q v
  | [], [], _ => rfl
  | (k, j) :: ms, (k', p) :: ps, ⟨hk, hd, hds⟩ => by
      subst hk
      have ih := DenotesMembers.lookup key hds
      by_cases hkey : key = k'
      · subst hkey
        simpa [List.lookup_cons] using hd
      · have : (key == k') = false := by simpa using hkey
        simpa [List.lookup_cons, this] using ih

theorem Denotes.getEx {h : JHeap} {p : JPtr} {j : Json} (hd : Denotes h p j) (key : CStr) :
    match j.member? key with
    | none => h.getEx p key = none
    | some v => ∃ q, h.getEx p key = some q ∧ Denotes h q v := by
  by_cases hobj : ∃ ms, j = .object ms
  · obtain ⟨ms, rfl⟩ := hobj
    cases p with
    | none => exact absurd hd (by simp [Denotes])
    | some r =>
        obtain ⟨ps, hn, hds⟩ := hd
        simpa [JHeap.getEx, hn, Json.member?] using hds.lookup key
  · -- only an object has members
    have htype : h.typeOf p ≠ .object := by
      rw [hd.typeOf]
      cases j <;> simp_all [Json.type]
    have hnone : j.member? key = none := by
      cases j <;> simp_all [Json.member?]
    rw [hnone]
    simp only [JHeap.getEx]
    split
    · rename_i ms hn
      obtain ⟨r, rfl, hr⟩ := Option.bind_eq_some_iff.mp hn
      exact absurd (typeOf_eq_object.mpr ⟨r, ms, rfl, hr⟩) htype
    · rfl

end JHeap

end Libjapi
