/-
# `Libjapi.CString` — bytes, C strings and the `<string.h>` functions the code uses

A `CStr` is what a `const char *` points to: the bytes before the terminating
NUL, with the proof that none of them is NUL.  `CStr.ofBytes` is how a C
function sees a byte buffer: it stops at the first NUL.  The comparison
functions return the difference of the first bytes that differ, the
terminator counting as 0, so that `== 0` has the meaning it has in C.
-/
import Mathlib.Data.List.TakeWhile
import Mathlib.Data.UInt

namespace Libjapi

abbrev Byte := UInt8

/-- What a C string function sees of a buffer: the bytes before the first NUL. -/
def upToNul (bs : List Byte) : List Byte := bs.takeWhile (· != 0)

theorem noNul_upToNul (bs : List Byte) : (0 : Byte) ∉ upToNul bs := fun h => by
  have := List.mem_takeWhile_imp h
  simp at this

theorem upToNul_eq_self {bs : List Byte} : upToNul bs = bs ↔ (0 : Byte) ∉ bs := by
  rw [upToNul, List.takeWhile_eq_self_iff]
  constructor
  · intro h h0
    simpa using h 0 h0
  · intro h b hb
    simpa using fun hb0 : b = 0 => h (hb0 ▸ hb)

theorem length_upToNul_le (bs : List Byte) : (upToNul bs).length ≤ bs.length :=
  (List.takeWhile_prefix _).length_le

/-- A NUL-terminated string: the bytes before the terminator. -/
structure CStr where
  bytes : List Byte
  noNul : (0 : Byte) ∉ bytes
  deriving DecidableEq

namespace CStr

theorem ext {a b : CStr} (h : a.bytes = b.bytes) : a = b := by
  cases a; cases b; cases h; rfl

/-- A buffer read as a C string: up to its first NUL. -/
def ofBytes (bs : List Byte) : CStr where
  bytes := upToNul bs
  noNul := noNul_upToNul bs

/-- A string literal. -/
def lit (s : String) : CStr := ofBytes (s.toList.map fun c => UInt8.ofNat c.toNat)

theorem ofBytes_bytes {bs : List Byte} (h : (0 : Byte) ∉ bs) : (ofBytes bs).bytes = bs :=
  upToNul_eq_self.mpr h

@[simp] theorem ofBytes_self (s : CStr) : ofBytes s.bytes = s :=
  ext (ofBytes_bytes s.noNul)

end CStr

/-! ## Comparison -/

/-- The loop of the `strcmp` family: the first difference of the bytes after `f`. -/
def cmpBytes (f : Byte → Byte) : List Byte → List Byte → Int
  | [], [] => 0
  | [], b :: _ => 0 - (f b).toNat
  | a :: _, [] => (f a).toNat
  | a :: as, b :: bs =>
      if f a = f b then cmpBytes f as bs else (f a).toNat - (f b).toNat

/-- `tolower` of the C locale. -/
def tolower (b : Byte) : Byte := if 65 ≤ b ∧ b ≤ 90 then b + 32 else b

def strcmp (a b : CStr) : Int := cmpBytes id a.bytes b.bytes

def strcasecmp (a b : CStr) : Int := cmpBytes tolower a.bytes b.bytes

def strncmp (a b : CStr) (n : Nat) : Int := cmpBytes id (a.bytes.take n) (b.bytes.take n)

theorem cmpBytes_eq_zero {f : Byte → Byte} (hf : ∀ b, f b = 0 → b = 0) :
    ∀ {as bs : List Byte}, (0 : Byte) ∉ as → (0 : Byte) ∉ bs →
      (cmpBytes f as bs = 0 ↔ as.map f = bs.map f)
  | [], [], _, _ => by simp [cmpBytes]
  | [], b :: bs, _, hb => by
      have hb0 : f b ≠ 0 := fun h => hb (by simp [hf b h])
      have : (f b).toNat ≠ 0 := fun h => hb0 (UInt8.toNat_inj.mp h)
      simp only [cmpBytes, List.map_nil, List.map_cons, List.nil_eq, reduceCtorEq, iff_false]
      omega
  | a :: as, [], ha, _ => by
      have ha0 : f a ≠ 0 := fun h => ha (by simp [hf a h])
      have : (f a).toNat ≠ 0 := fun h => ha0 (UInt8.toNat_inj.mp h)
      simp only [cmpBytes, List.map_nil, List.map_cons, reduceCtorEq, iff_false]
      omega
  | a :: as, b :: bs, ha, hb => by
      have ha' : (0 : Byte) ∉ as := fun h => ha (by simp [h])
      have hb' : (0 : Byte) ∉ bs := fun h => hb (by simp [h])
      simp only [cmpBytes, List.map_cons, List.cons.injEq]
      split
      · rename_i h
        simp [h, cmpBytes_eq_zero hf ha' hb']
      · rename_i h
        have : (f a).toNat ≠ (f b).toNat := fun h' => h (UInt8.toNat_inj.mp h')
        simp only [h, false_and, iff_false]
        omega

theorem tolower_eq_zero (b : Byte) (h : tolower b = 0) : b = 0 := by
  unfold tolower at h
  split at h
  · rename_i hb
    have h1 : 65 ≤ b.toNat := by simpa [UInt8.le_iff_toNat_le] using hb.1
    have h2 : b.toNat ≤ 90 := by simpa [UInt8.le_iff_toNat_le] using hb.2
    have h3 : (b + 32).toNat = 0 := by rw [h]; rfl
    rw [UInt8.toNat_add] at h3
    simp only [UInt8.reduceToNat] at h3
    omega
  · exact h

theorem strcmp_eq_zero {a b : CStr} : strcmp a b = 0 ↔ a = b := by
  have h := cmpBytes_eq_zero (f := id) (fun _ h => h) a.noNul b.noNul
  rw [List.map_id, List.map_id] at h
  exact h.trans ⟨CStr.ext, congrArg _⟩

/-- Two names are the same up to letter case. -/
def SameName (a b : CStr) : Prop := a.bytes.map tolower = b.bytes.map tolower

instance (a b : CStr) : Decidable (SameName a b) := inferInstanceAs (Decidable (_ = _))

theorem strcasecmp_eq_zero {a b : CStr} : strcasecmp a b = 0 ↔ SameName a b :=
  cmpBytes_eq_zero tolower_eq_zero a.noNul b.noNul

@[refl] theorem SameName.refl (a : CStr) : SameName a a := rfl

theorem SameName.symm {a b : CStr} (h : SameName a b) : SameName b a := Eq.symm h

theorem SameName.trans {a b c : CStr} (h : SameName a b) (h' : SameName b c) : SameName a c :=
  Eq.trans h h'

/-! ## Copying -/

/-- The `n` bytes `strncpy(dst, src, n)` writes: `src` up to its first NUL,
then NULs. -/
def strncpy (src : List Byte) (n : Nat) : List Byte :=
  upToNul (src.take n) ++ List.replicate (n - (upToNul (src.take n)).length) 0

theorem length_strncpy (src : List Byte) (n : Nat) : (strncpy src n).length = n := by
  have h₁ := length_upToNul_le (src.take n)
  have h₂ := List.length_take_le n src
  simp only [strncpy, List.length_append, List.length_replicate]
  omega

theorem strncpy_length (src : List Byte) :
    strncpy src src.length
      = upToNul src ++ List.replicate (src.length - (upToNul src).length) 0 := by
  rw [strncpy, List.take_length]

theorem upToNul_append_replicate (bs : List Byte) (n : Nat) :
    upToNul (upToNul bs ++ List.replicate n 0) = upToNul bs := by
  have h := upToNul_eq_self.mpr (noNul_upToNul bs)
  cases n with
  | zero => simpa using h
  | succ n =>
      rw [upToNul, List.takeWhile_append_of_pos fun b hb => by simpa using List.mem_takeWhile_imp hb]
      simp [List.replicate_succ]

theorem strncpy_idem (src : List Byte) (n : Nat) :
    strncpy (strncpy src n) n = strncpy src n := by
  have hlen : (strncpy src n).take n = strncpy src n :=
    List.take_of_length_le (length_strncpy src n).le
  have hup : upToNul (strncpy src n) = upToNul (src.take n) := upToNul_append_replicate _ _
  rw [strncpy, hlen, hup]
  rfl

theorem strncpy_of_noNul {src : List Byte} (h : (0 : Byte) ∉ src) :
    strncpy src src.length = src := by
  rw [strncpy_length, upToNul_eq_self.mpr h, Nat.sub_self, List.replicate_zero, List.append_nil]

/-! ## Integer conversions -/

/-- Conversion to a 32-bit `int`. -/
def toInt32 (n : Int) : Int := (n + 2 ^ 31) % 2 ^ 32 - 2 ^ 31

/-- Conversion to a 64-bit `size_t`. -/
def toSizeT (n : Int) : Nat := (n % 2 ^ 64).toNat

theorem toInt32_of_lt {n : Int} (h : 0 ≤ n) (h' : n < 2 ^ 31) : toInt32 n = n := by
  unfold toInt32
  omega

theorem toSizeT_of_lt {n : Int} (h : 0 ≤ n) (h' : n < 2 ^ 64) : (toSizeT n : Int) = n := by
  unfold toSizeT
  omega

end Libjapi
