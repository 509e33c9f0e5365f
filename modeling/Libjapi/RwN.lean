/-
# `Libjapi.RwN` — `rw_n.c`: reading and writing a fixed number of bytes

`read_n` and `write_n` are one loop around `read()` and `write()`: it counts
down in an `int` what is left of a `size_t`, and the return value is an `int`
again.  What the underlying calls return is a schedule `io`; the `k`-th call
returns `io k`, or less if it was asked for less.

    a positive value is returned behind all bytes of the buffer only, and any
    other one behind a proper prefix, exactly if the count does not become a
    smaller positive `int`, or the calls end before that many bytes
                                                        `rwN_transfers_iff`
-/
import Libjapi.CString
import Mathlib.Algebra.Order.BigOperators.Group.List

namespace Libjapi

/-! ## The code -/

/-- The loop: `left` is `to_read` or `to_send`, and `offset` is `buffer - buf`.
`move offset n` is what a call does that transfers `n` bytes there. -/
def rwLoop {σ : Type*} (io : Nat → Int) (move : Nat → Nat → σ → σ) (count : Nat)
    (k offset : Nat) (left : Int) (s : σ) : Int × σ :=
  if 0 < left then
    if min (io k) left ≤ 0 then (min (io k) left, s)
    else
      rwLoop io move count (k + 1) (offset + (min (io k) left).toNat) (left - min (io k) left)
        (move offset (min (io k) left).toNat s)
  else (toInt32 count, s)
termination_by left.toNat

/-- The buffer of `read_n`, and how many bytes were taken from the descriptor. -/
structure Reading where
  buffer : List Byte
  consumed : Nat

/-- `read_n`: the return value and the buffer.  The descriptor gives `input`. -/
def readN (read : Nat → Int) (input : Nat → Byte) (buf : List Byte) (count : Nat) :
    Int × Reading :=
  rwLoop read
    (fun offset n r =>
      ⟨r.buffer.take offset ++ (List.range n).map (fun i => input (r.consumed + i)) ++
        r.buffer.drop (offset + n), r.consumed + n⟩)
    count 0 0 (toInt32 count) ⟨buf, 0⟩

/-- `write_n`: the return value and the bytes `write()` accepted. -/
def writeN (write : Nat → Int) (buf : List Byte) (count : Nat) : Int × List Byte :=
  rwLoop write (fun offset n sent => sent ++ (buf.drop offset).take n) count 0 0 (toInt32 count) []

/-! ## The schedule -/

/-- A call fails, or reports the end of the file, before `n` bytes are transferred. -/
def GivesUp (io : Nat → Int) (n : Int) : Prop :=
  ∃ k, io k ≤ 0 ∧ (∀ i < k, 0 < io i) ∧ ((List.range k).map io).sum < n

theorem givesUp_iff {io : Nat → Int} {n : Int} :
    GivesUp io n ↔ 0 < n ∧ (io 0 ≤ 0 ∨ GivesUp (fun i => io (i + 1)) (n - io 0)) := by
  have hsum : ∀ k, ((List.range (k + 1)).map io).sum =
      io 0 + ((List.range k).map fun i => io (i + 1)).sum := by
    intro k
    rw [List.range_succ_eq_map, List.map_cons, List.sum_cons, List.map_map]
    rfl
  constructor
  · rintro ⟨k, hk, hpos, hlt⟩
    have hnonneg : 0 ≤ ((List.range k).map io).sum := by
      refine List.sum_nonneg ?_
      intro x hx
      obtain ⟨i, hi, rfl⟩ := List.mem_map.mp hx
      exact (hpos i (List.mem_range.mp hi)).le
    refine ⟨by omega, ?_⟩
    cases k with
    | zero => exact .inl hk
    | succ k =>
        rw [hsum] at hlt
        exact .inr ⟨k, hk, fun i hi => hpos (i + 1) (by omega), by omega⟩
  · rintro ⟨hn, hzero | ⟨k, hk, hpos, hlt⟩⟩
    · exact ⟨0, hzero, by simp, by simpa using hn⟩
    · by_cases hzero : io 0 ≤ 0
      · exact ⟨0, hzero, by simp, by simpa using hn⟩
      · refine ⟨k + 1, hk, ?_, by rw [hsum]; omega⟩
        intro i hi
        cases i with
        | zero => omega
        | succ i => exact hpos i (by omega)

/-! ## The loop -/

/-- **What the loop does**, for a property `P` that each call extends by the bytes
it transfers: it ends with all bytes and the count as an `int`, or gives up. -/
theorem rwLoop_spec {σ : Type*} (io : Nat → Int) (move : Nat → Nat → σ → σ) {P : Nat → σ → Prop}
    (hmove : ∀ offset n s, P offset s → P (offset + n) (move offset n s))
    (count k offset : Nat) (left : Int) (s : σ) (hs : P offset s) :
    ∃ n, P n (rwLoop io move count k offset left s).2 ∧
      ((n = offset + left.toNat ∧ (rwLoop io move count k offset left s).1 = toInt32 count ∧
          ¬ GivesUp (fun i => io (k + i)) left) ∨
        (n < offset + left.toNat ∧ (rwLoop io move count k offset left s).1 ≤ 0 ∧
          GivesUp (fun i => io (k + i)) left)) := by
  induction k, offset, left, s using rwLoop.induct io move with
  | case1 k offset left s hleft hstop =>
      rw [rwLoop, if_pos hleft, if_pos hstop]
      refine ⟨offset, hs, .inr ⟨by omega, hstop, givesUp_iff.mpr ⟨hleft, .inl ?_⟩⟩⟩
      simp only [Nat.add_zero]
      omega
  | case2 k offset left s hleft hmore ih =>
      rw [rwLoop, if_pos hleft, if_neg hmore]
      obtain ⟨n, hn, hend⟩ := ih (hmove offset _ s hs)
      have hgives : GivesUp (fun i => io (k + i)) left ↔
          GivesUp (fun i => io (k + 1 + i)) (left - min (io k) left) := by
        have hshift : (fun i => io (k + (i + 1))) = fun i => io (k + 1 + i) := by
          funext i
          rw [Nat.add_assoc, Nat.add_comm 1 i]
        rw [givesUp_iff, Nat.add_zero, hshift]
        by_cases hle : io k ≤ left
        · rw [min_eq_left hle] at hmore ⊢
          simp only [hleft, hmore, false_or, true_and]
        · -- the call transfers all that is left, and is the last one
          have hno : ∀ {n : Int}, n ≤ 0 → ¬ GivesUp (fun i => io (k + 1 + i)) n := by
            intro n hn hgives
            exact absurd (givesUp_iff.mp hgives).1 (by omega)
          rw [min_eq_right (by omega)] at hmore ⊢
          simp only [hleft, true_and, hno (n := left - io k) (by omega), or_false,
            hno (n := left - left) (by omega), iff_false]
          omega
      have hlen : offset + (min (io k) left).toNat + (left - min (io k) left).toNat =
          offset + left.toNat := by omega
      rw [hlen] at hend
      exact ⟨n, hn, by rw [hgives]; exact hend⟩
  | case3 k offset left s hleft =>
      rw [rwLoop, if_neg hleft]
      refine ⟨offset, hs, .inl ⟨by omega, rfl, ?_⟩⟩
      exact fun hgives => hleft (givesUp_iff.mp hgives).1

theorem toInt32_cases (count : Nat) :
    toInt32 count ≤ 0 ∨ (count < 2 ^ 32 ∧ (toInt32 count).toNat = count) ∨
      (2 ^ 32 ≤ count ∧ (toInt32 count).toNat < count) := by
  unfold toInt32
  omega

theorem writeN_spec (write : Nat → Int) (buf : List Byte) (count : Nat) :
    ∃ n, (writeN write buf count).2 = buf.take n ∧
      ((n = (toInt32 count).toNat ∧ (writeN write buf count).1 = toInt32 count ∧
          ¬ GivesUp write (toInt32 count)) ∨
        (n < (toInt32 count).toNat ∧ (writeN write buf count).1 ≤ 0 ∧
          GivesUp write (toInt32 count))) := by
  have h := rwLoop_spec write (fun offset n sent => sent ++ (buf.drop offset).take n)
    (P := fun n sent => sent = buf.take n)
    (fun offset n sent hsent => by rw [hsent, ← List.take_add]) count 0 0 (toInt32 count) [] rfl
  simp only [Nat.zero_add] at h
  exact h

theorem readN_spec (read : Nat → Int) (input : Nat → Byte) (buf : List Byte) (count : Nat) :
    ∃ n, (readN read input buf count).2 =
        ⟨(List.range n).map input ++ buf.drop n, n⟩ ∧
      ((n = (toInt32 count).toNat ∧ (readN read input buf count).1 = toInt32 count ∧
          ¬ GivesUp read (toInt32 count)) ∨
        (n < (toInt32 count).toNat ∧ (readN read input buf count).1 ≤ 0 ∧
          GivesUp read (toInt32 count))) := by
  have hmove : ∀ (offset n : Nat) (r : Reading),
      r = ⟨(List.range offset).map input ++ buf.drop offset, offset⟩ →
      (⟨r.buffer.take offset ++ (List.range n).map (fun i => input (r.consumed + i)) ++
          r.buffer.drop (offset + n), r.consumed + n⟩ : Reading) =
        ⟨(List.range (offset + n)).map input ++ buf.drop (offset + n), offset + n⟩ := by
    rintro offset n r rfl
    have hlen : ((List.range offset).map input).length = offset := by simp
    have htake : ((List.range offset).map input ++ buf.drop offset).take offset =
        (List.range offset).map input := by
      rw [List.take_append_of_le_length hlen.ge, List.take_of_length_le hlen.le]
    have hdrop : ((List.range offset).map input ++ buf.drop offset).drop (offset + n) =
        buf.drop (offset + n) := by
      rw [List.drop_append, List.drop_of_length_le (by omega), hlen, List.nil_append,
        List.drop_drop, Nat.add_sub_cancel_left]
    have hrange : (List.range (offset + n)).map input =
        (List.range offset).map input ++ (List.range n).map fun i => input (offset + i) := by
      rw [List.range_add, List.map_append, List.map_map]
      rfl
    rw [htake, hdrop, hrange]
  have h := rwLoop_spec read _
    (P := fun n r => r = (⟨(List.range n).map input ++ buf.drop n, n⟩ : Reading)) hmove
    count 0 0 (toInt32 count) ⟨buf, 0⟩ rfl
  simp only [Nat.zero_add] at h
  exact h

/-! ## What the callers rely on -/

/-- A positive value says that the whole buffer was written; behind any other one
a proper prefix was. -/
structure WritesAll (buf : List Byte) (r : Int × List Byte) : Prop where
  all : 0 < r.1 → r.2 = buf
  part : r.1 ≤ 0 → 0 < buf.length → ∃ n < buf.length, r.2 = buf.take n

/-- A positive value says that the whole buffer was filled; behind any other one
a proper prefix was. -/
structure FillsAll (input : Nat → Byte) (buf : List Byte) (r : Int × Reading) : Prop where
  all : 0 < r.1 → r.2 = ⟨(List.range buf.length).map input, buf.length⟩
  part : r.1 ≤ 0 → 0 < buf.length →
    ∃ n < buf.length, r.2 = ⟨(List.range n).map input ++ buf.drop n, n⟩

/-- The count is below 2 ^ 32, or no positive `int`, or the calls end before as many
bytes as the `int` says. -/
def Survives (io : Nat → Int) (count : Nat) : Prop :=
  count < 2 ^ 32 ∨ toInt32 count ≤ 0 ∨ GivesUp io (toInt32 count)

/-- **Both functions keep what the callers rely on exactly if** the count survives
the conversion, or the loop does not get that far. -/
theorem rwN_transfers_iff (io : Nat → Int) (input : Nat → Byte) (buf : List Byte) :
    (WritesAll buf (writeN io buf buf.length) ↔ Survives io buf.length) ∧
      (FillsAll input buf (readN io input buf buf.length) ↔ Survives io buf.length) := by
  have hcases := toInt32_cases buf.length
  constructor
  · obtain ⟨n, hsent, ⟨hn, hret, hno⟩ | ⟨hn, hret, hgives⟩⟩ := writeN_spec io buf buf.length
    · constructor
      · intro hw
        by_contra hnot
        simp only [Survives, not_or, not_lt, not_le] at hnot
        obtain ⟨hbig, hpos, -⟩ := hnot
        have hall := congrArg List.length (hsent.symm.trans (hw.all (hret ▸ hpos)))
        rw [List.length_take] at hall
        omega
      · intro hs
        refine ⟨fun hpos => ?_, fun hle hlen => ⟨n, ?_, hsent⟩⟩
        · rw [hsent]
          refine List.take_of_length_le ?_
          rcases hs with hlt | hle | hgives
          · omega
          · omega
          · exact absurd hgives hno
        · omega
    · exact ⟨fun _ => .inr (.inr hgives), fun _ => ⟨fun hpos => absurd hret hpos.not_ge,
        fun _ _ => ⟨n, by omega, hsent⟩⟩⟩
  · obtain ⟨n, hread, ⟨hn, hret, hno⟩ | ⟨hn, hret, hgives⟩⟩ := readN_spec io input buf buf.length
    · constructor
      · intro hf
        by_contra hnot
        simp only [Survives, not_or, not_lt, not_le] at hnot
        obtain ⟨hbig, hpos, -⟩ := hnot
        have hall := congrArg Reading.consumed (hread.symm.trans (hf.all (hret ▸ hpos)))
        dsimp only at hall
        omega
      · intro hs
        refine ⟨fun hpos => ?_, fun hle hlen => ⟨n, ?_, hread⟩⟩
        · have hall : n = buf.length := by
            rcases hs with hlt | hle | hgives
            · omega
            · omega
            · exact absurd hgives hno
          rw [hread, hall, List.drop_length, List.append_nil]
        · omega
    · exact ⟨fun _ => .inr (.inr hgives), fun _ => ⟨fun hpos => absurd hret hpos.not_ge,
        fun _ _ => ⟨n, by omega, hread⟩⟩⟩

/-- Of a buffer of 2 ^ 32 + 5 bytes, five are written, and 5 is returned. -/
theorem fiveBytes_written :
    let buf := List.replicate (2 ^ 32 + 5) (0 : Byte)
    (writeN (fun _ => 5) buf buf.length).1 = 5 ∧
      (writeN (fun _ => 5) buf buf.length).2.length = 5 ∧
      ¬ WritesAll buf (writeN (fun _ => 5) buf buf.length) := by
  intro buf
  have hlen : buf.length = 2 ^ 32 + 5 := List.length_replicate
  have hint : toInt32 buf.length = 5 := by rw [hlen]; rfl
  have hno : ¬ GivesUp (fun _ => 5) 5 := by
    rintro ⟨k, hk, -⟩
    exact absurd (show (5 : Int) ≤ 0 from hk) (by decide)
  obtain ⟨n, hsent, ⟨hn, hret, -⟩ | ⟨-, -, hgives⟩⟩ := writeN_spec (fun _ => 5) buf buf.length
  · rw [hint] at hn hret
    have hfive : (writeN (fun _ => 5) buf buf.length).2.length = 5 := by
      rw [hsent, List.length_take, hlen, hn]
      rfl
    refine ⟨hret, hfive, fun hw => ?_⟩
    have hall := congrArg List.length (hw.all (by rw [hret]; decide))
    omega
  · rw [hint] at hgives
    exact absurd hgives hno

end Libjapi
