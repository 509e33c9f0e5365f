/-
# `Libjapi.Getters` — `japi_get_value_as_str` and its siblings

The handlers of the user read their arguments with the five getters and write
their answers with `json_object_object_add`.  The getters are one function: they
differ in the type they ask for and in how they read it, and return

    -1  no object        -2  no key        -3  no such key        -4  another type

with `*val` as it was, and 0 with the value.

    what was written last under a key is read back, by the getter of its type
    and by no other, whatever else was written                  `getters_read_back`
-/
import Libjapi.HandlerCall

namespace Libjapi

/-! ## The code -/

/-- What the getters have in common: the return value, and `*val` afterwards. -/
def japiGetValue {α : Type} (type : JType) (get : JHeap → JPtr → α) (h : JHeap) (jobj : JPtr)
    (key : Option CStr) (val : α) : Int × α :=
  match jobj, key with
  | none, _ => (-1, val)
  | some _, none => (-2, val)
  | some r, some key =>
      match h.getEx (some r) key with
      | none => (-3, val)
      | some jval => if h.typeOf jval = type then (0, get h jval) else (-4, val)

namespace JHeap

/-- `json_object_get_boolean`, as it is called: on a boolean. -/
def getBoolean (h : JHeap) : JPtr → Bool
  | none => false
  | some r =>
      match h.node? r with
      | some (.boolean b) => b
      | _ => false

/-- `json_object_get_int64`, as it is called: on an integer, clamped to its range. -/
def getInt64 (h : JHeap) : JPtr → Int
  | none => 0
  | some r =>
      match h.node? r with
      | some (.int i) => max (-2 ^ 63) (min i (2 ^ 63 - 1))
      | _ => 0

/-- `json_object_get_double`, as it is called: on a number with a fraction, by its text. -/
def getDouble (h : JHeap) : JPtr → List Byte
  | none => []
  | some r =>
      match h.node? r with
      | some (.double t) => t
      | _ => []

end JHeap

def japiGetValueAsBool (h : JHeap) (jobj : JPtr) (key : Option CStr) (val : Bool) : Int × Bool :=
  japiGetValue .boolean JHeap.getBoolean h jobj key val

def japiGetValueAsInt (J : JsonC) (h : JHeap) (jobj : JPtr) (key : Option CStr) (val : Int) :
    Int × Int :=
  japiGetValue .int (JHeap.getInt J) h jobj key val

/-- `japi_get_value_as_int64` asks for `json_type_int`, as there is no other. -/
def japiGetValueAsInt64 (h : JHeap) (jobj : JPtr) (key : Option CStr) (val : Int) : Int × Int :=
  japiGetValue .int JHeap.getInt64 h jobj key val

def japiGetValueAsDouble (h : JHeap) (jobj : JPtr) (key : Option CStr) (val : List Byte) :
    Int × List Byte :=
  japiGetValue .double JHeap.getDouble h jobj key val

theorem japiGetValueAsStr_eq (J : JsonC) (h : JHeap) (jobj : JPtr) (key : Option CStr)
    (val : Option CStr) :
    japiGetValueAsStr J h jobj key val = japiGetValue .string (JHeap.getString J) h jobj key val := by
  cases jobj <;> cases key <;> rfl

/-! ## What is written -/

/-- What `json_object_new_string` and its siblings make. -/
inductive Scalar where
  | string (s : List Byte)
  | boolean (b : Bool)
  | int (i : Int)
  | double (text : List Byte)

def Scalar.node : Scalar → JNode
  | .string s => .string s
  | .boolean b => .boolean b
  | .int i => .int i
  | .double t => .double t

def Scalar.tree : Scalar → Json
  | .string s => .string s
  | .boolean b => .boolean b
  | .int i => .int i
  | .double t => .double t

/-- `json_object_object_add(jobj, key, json_object_new_xyz(...))`, one after the other. -/
def addAll (jobj : JPtr) : JHeap → List (CStr × Scalar) → Except Abort JHeap
  | h, [] => .ok h
  | h, (key, v) :: writes => do
      let h ← h.objectAddNew jobj key v.node
      addAll jobj h writes

/-- The value written last under a key. -/
def lastWritten (key : CStr) : List (CStr × Scalar) → Option Scalar
  | [] => none
  | (k, v) :: writes => (lastWritten key writes).or (if k = key then some v else none)

/-- The members of the object after the writes. -/
def writtenMembers (ms : List (CStr × Json)) (writes : List (CStr × Scalar)) :
    List (CStr × Json) :=
  writes.foldl (fun ms w => Json.setMember w.1 w.2.tree ms) ms

theorem lookup_writtenMembers (key : CStr) (writes : List (CStr × Scalar)) :
    ∀ ms : List (CStr × Json), (writtenMembers ms writes).lookup key =
      ((lastWritten key writes).map Scalar.tree).or (ms.lookup key) := by
  induction writes with
  | nil => exact fun _ => rfl
  | cons w writes ih =>
      intro ms
      obtain ⟨k, v⟩ := w
      have hstep := ih (Json.setMember k v.tree ms)
      simp only [writtenMembers, List.foldl_cons, lastWritten] at hstep ⊢
      rw [hstep]
      cases lastWritten key writes with
      | some v' => rfl
      | none =>
          by_cases hk : k = key
          · subst hk
            simp [Json.lookup_setMember_self]
          · simp [hk, Json.lookup_setMember_ne (Ne.symm hk)]

theorem addAll_written {S : Ref → Prop} {r : Ref} {h₀ : JHeap} (writes : List (CStr × Scalar)) :
    ∀ {h : JHeap} {ms : List (CStr × Json)}, JHeap.Written S r h₀ h ms →
      ∃ h', addAll (some r) h writes = .ok h' ∧
        JHeap.Written S r h₀ h' (writtenMembers ms writes) := by
  induction writes with
  | nil => exact fun hw => ⟨_, rfl, hw⟩
  | cons w writes ih =>
      intro h ms hw
      obtain ⟨k, v⟩ := w
      have hdenotes : JHeap.Denotes (h.alloc v.node).2 (h.alloc v.node).1 v.tree := by
        cases v <;> exact JHeap.node?_alloc h _
      have hleaf : v.node.children = [] := by cases v <;> rfl
      obtain ⟨h₁, hadd, hw₁⟩ := hw.objectAddNew hdenotes hleaf k
      obtain ⟨h₂, hall, hw₂⟩ := ih hw₁
      refine ⟨h₂, ?_, hw₂⟩
      simp only [addAll, hadd, bind, Except.bind]
      exact hall

/-! ## What is read -/

theorem japiGetValue_denotes {α : Type} (type : JType) (get : JHeap → JPtr → α) {h : JHeap}
    {r : Ref} {j : Json} (hd : h.Denotes (some r) j) (key : CStr) (val : α) :
    match j.member? key with
    | none => japiGetValue type get h (some r) (some key) val = (-3, val)
    | some v =>
        if v.type = type then
          ∃ q, h.Denotes q v ∧ japiGetValue type get h (some r) (some key) val = (0, get h q)
        else japiGetValue type get h (some r) (some key) val = (-4, val) := by
  have hget := hd.getEx key
  cases hmember : j.member? key with
  | none =>
      rw [hmember] at hget
      simp only [japiGetValue, hget]
  | some v =>
      rw [hmember] at hget
      obtain ⟨q, hq, hdq⟩ := hget
      have htype := hdq.typeOf
      simp only [japiGetValue, hq, htype]
      split
      · exact ⟨q, hdq, rfl⟩
      · rfl

/-- The getter of the type reads what was written. -/
def Scalar.ReadBack (J : JsonC) (h : JHeap) (jobj : JPtr) (key : CStr) : Scalar → Prop
  | .string s => ∀ val, japiGetValueAsStr J h jobj (some key) val = (0, some (CStr.ofBytes s))
  | .boolean b => ∀ val, japiGetValueAsBool h jobj (some key) val = (0, b)
  | .int i => ∀ val,
      japiGetValueAsInt J h jobj (some key) val = (0, max (-2 ^ 31) (min i (2 ^ 31 - 1))) ∧
      japiGetValueAsInt64 h jobj (some key) val = (0, max (-2 ^ 63) (min i (2 ^ 63 - 1)))
  | .double t => ∀ val, japiGetValueAsDouble h jobj (some key) val = (0, t)

theorem Scalar.readBack {J : JsonC} {h : JHeap} {r : Ref} {j : Json} (hd : h.Denotes (some r) j)
    {key : CStr} {v : Scalar} (hmember : j.member? key = some v.tree) :
    v.ReadBack J h (some r) key := by
  have hread : ∀ {α : Type} (get : JHeap → JPtr → α) (val : α),
      ∃ q, h.Denotes q v.tree ∧
        japiGetValue v.tree.type get h (some r) (some key) val = (0, get h q) := by
    intro α get val
    have hget := japiGetValue_denotes v.tree.type get hd key val
    rw [hmember] at hget
    simpa using hget
  have hptr : ∀ {q : JPtr}, h.Denotes q v.tree → ∃ r', q = some r' ∧ h.node? r' = some v.node := by
    intro q hq
    cases q with
    | none => cases v <;> exact hq.elim
    | some r' => cases v <;> exact ⟨r', rfl, hq⟩
  cases v with
  | string s =>
      intro val
      obtain ⟨q, hq, heq⟩ := hread (JHeap.getString J) val
      obtain ⟨r', rfl, hnode⟩ := hptr hq
      rw [japiGetValueAsStr_eq]
      exact heq.trans (by simp only [JHeap.getString, hnode, Scalar.node])
  | boolean b =>
      intro val
      obtain ⟨q, hq, heq⟩ := hread JHeap.getBoolean val
      obtain ⟨r', rfl, hnode⟩ := hptr hq
      exact heq.trans (by simp only [JHeap.getBoolean, hnode, Scalar.node])
  | int i =>
      intro val
      obtain ⟨q, hq, heq⟩ := hread (JHeap.getInt J) val
      obtain ⟨q', hq', heq'⟩ := hread JHeap.getInt64 val
      obtain ⟨r', rfl, hnode⟩ := hptr hq
      obtain ⟨r'', rfl, hnode'⟩ := hptr hq'
      exact ⟨heq.trans (by simp only [JHeap.getInt, hnode, Scalar.node]),
        heq'.trans (by simp only [JHeap.getInt64, hnode', Scalar.node])⟩
  | double t =>
      intro val
      obtain ⟨q, hq, heq⟩ := hread JHeap.getDouble val
      obtain ⟨r', rfl, hnode⟩ := hptr hq
      exact heq.trans (by simp only [JHeap.getDouble, hnode, Scalar.node])

/-- **What was written last is read back.**  For any values written to a new object under
any keys: the writes succeed; a key that was not written is answered -3 by every getter;
a key that was, is answered 0 with the last value by the getter of its type, `int` and
`long long` being clamped to their range, and -4 by every getter of another type; and
`*val` stays as it was where the return value is not 0. -/
theorem getters_read_back (J : JsonC) (h : JHeap) (writes : List (CStr × Scalar)) :
    ∃ h', addAll (h.alloc (.object [])).1 (h.alloc (.object [])).2 writes = .ok h' ∧
      ∀ key, match lastWritten key writes with
        | none => ∀ {α : Type} (type : JType) (get : JHeap → JPtr → α) (val : α),
            japiGetValue type get h' (h.alloc (.object [])).1 (some key) val = (-3, val)
        | some v => v.ReadBack J h' (h.alloc (.object [])).1 key ∧
            ∀ {α : Type} (type : JType) (get : JHeap → JPtr → α) (val : α), type ≠ v.tree.type →
              japiGetValue type get h' (h.alloc (.object [])).1 (some key) val = (-4, val) := by
  have hd : JHeap.Denotes (h.alloc (.object [])).2 (some h.cells.length) (.object []) :=
    ⟨[], JHeap.node?_alloc h _, trivial⟩
  obtain ⟨h', hall, hw⟩ := addAll_written writes (JHeap.Written.refl (fun _ => False) hd)
  refine ⟨h', hall, ?_⟩
  intro key
  have hmember : Json.member? (.object (writtenMembers [] writes)) key =
      (lastWritten key writes).map Scalar.tree := by
    show (writtenMembers [] writes).lookup key = _
    rw [lookup_writtenMembers]
    simp
  cases hlast : lastWritten key writes with
  | none =>
      intro α type get val
      have hget := japiGetValue_denotes type get hw.denotes key val
      rw [hmember, hlast] at hget
      exact hget
  | some v =>
      rw [hlast] at hmember
      refine ⟨Scalar.readBack hw.denotes hmember, ?_⟩
      intro α type get val hne
      have hget := japiGetValue_denotes type get hw.denotes key val
      simp only [hmember, Option.map_some, if_neg (Ne.symm hne)] at hget
      exact hget

/-- The last of two integers, which no `int` holds. -/
example (J : JsonC) : ∃ h', addAll (some 0) ⟨[⟨.object [], 1⟩]⟩
    [(CStr.lit "t", .int 3), (CStr.lit "t", .int (2 ^ 40))] = .ok h' ∧
      japiGetValueAsInt J h' (some 0) (some (CStr.lit "t")) 7 = (0, 2 ^ 31 - 1) :=
  ⟨_, rfl, by rfl⟩

end Libjapi
