/-
# `Libjapi.CreadlineLimit` — which lines exceed the maximum line size

`creadline_r` compares the doubled allocation with `__MAX_LINEBUF_SIZE__`, when a
block may not fit behind the bytes it has.  With `S` the largest doubling of a
block up to the maximum `M`, and `n` the bytes of the line that come before the
read that brings its newline, a call gives up exactly if

    n + CREADLINE_BLOCK_SIZE > S                              `searchTrace_limit`

where the message, and the name of the macro, speak of a line longer than `M`.
A line longer than `M` always exceeds the limit; a line that is not longer
exceeds it or not by the cut into reads (`afterCalls_limit_iff`).
-/
import Libjapi.CreadlineAccess
import Mathlib.Data.Nat.Log

namespace Libjapi

/-! ## The line and the limit -/

/-- The length of the first line, its newline included, or of what is left. -/
def lineLength (pending : List Byte) : Nat :=
  match (lines nl pending).head? with
  | some l => l.length + 1
  | none => pending.length

/-- How many bytes the reads return before the one that brings a newline. -/
def beforeNewline : List ReadRes → Nat
  | [] => 0
  | .data c :: rest => if nl ∈ c.bytes then 0 else c.bytes.length + beforeNewline rest
  | _ :: rest => beforeNewline rest

/-- How many bytes of the line come before the read that brings its newline, the
bytes carried over counted with the first. -/
def lineBefore (carry : List Byte) (input : List ReadRes) : Nat :=
  if nl ∈ carry then 0 else carry.length + beforeNewline input

/-- The largest size `linebuf` can have. -/
def capacity (M : Nat) : Nat := 2 ^ Nat.log 2 M

theorem lineLength_line {l : List Byte} (hl : nl ∉ l) (v : List Byte) :
    lineLength (l ++ nl :: v) = l.length + 1 := by
  simp only [lineLength, lines_cons_line hl, List.head?_cons]

theorem lineLength_of_not_mem {s : List Byte} (hs : nl ∉ s) : lineLength s = s.length := by
  simp only [lineLength, lines_of_not_mem hs, List.head?_nil]

theorem capacity_le {M : Nat} (hlow : blockSize ≤ M) : capacity M ≤ M := by
  refine Nat.pow_log_le_self 2 ?_
  rintro rfl
  cases hlow

theorem DoublingSize.le_capacity {M n : Nat} (h : DoublingSize M n) : n ≤ capacity M := by
  obtain ⟨k, -, rfl, hle⟩ := h
  exact Nat.pow_le_pow_right (by omega) (Nat.le_log_of_pow_le (by omega) hle)

theorem DoublingSize.eq_capacity {M n : Nat} (h : DoublingSize M n) (hfull : M < 2 * n) :
    n = capacity M := by
  refine Nat.le_antisymm h.le_capacity ?_
  obtain ⟨k, -, rfl, -⟩ := h
  refine Nat.pow_le_pow_right (by omega) (Nat.lt_succ_iff.mp ?_)
  refine Nat.log_lt_of_lt_pow' (by omega) ?_
  rw [Nat.pow_succ, Nat.mul_comm]
  exact hfull

/-- **At most a block of the line comes with its newline.** -/
theorem lineLength_le {b : List Byte} (hb : nl ∉ b) (input : List ReadRes) :
    lineLength (b ++ bytesOf input) ≤ b.length + beforeNewline input + blockSize := by
  induction input generalizing b with
  | nil =>
      rw [bytesOf, List.append_nil, lineLength_of_not_mem hb]
      simp only [beforeNewline]
      omega
  | cons r input ih =>
      cases r with
      | data c =>
          by_cases hc : nl ∈ c.bytes
          · obtain ⟨u, v, heq, hu⟩ := List.eq_append_cons_of_mem hc
            have hbu : nl ∉ b ++ u := by simp [hb, hu]
            have hlen := c.le
            have hsplit : b ++ bytesOf (.data c :: input) = (b ++ u) ++ nl :: (v ++ bytesOf input) := by
              simp [bytesOf, heq]
            rw [heq] at hlen
            rw [hsplit, lineLength_line hbu, beforeNewline, if_pos hc]
            simp only [List.length_append, List.length_cons] at hlen ⊢
            omega
          · have hnext := ih (b := b ++ c.bytes) (by simp [hb, hc])
            rw [beforeNewline, if_neg hc]
            simp only [bytesOf, List.append_assoc, List.length_append] at hnext ⊢
            omega
      | eof => exact ih hb
      | eintr => exact ih hb
      | error => exact ih hb

/-! ## When the message is printed -/

/-- With an allocator that grants every request. -/
def limitEnv (M : Nat) : CreadlineEnv := ⟨M, fun _ => true⟩

theorem limitEnv_max (M : Nat) : (limitEnv M).maxLinebufSize = M := rfl

/-- Making room fails exactly if a block does not fit behind the bytes in the
largest buffer, and then the message is that of the maximum. -/
theorem growLinebuf_limit {M : Nat} (hM : M < 2 ^ 30) {b : Linebuf} (hb : Sized M b) :
    (∃ b', growLinebuf (limitEnv M) b = some b' ∧ Sized M b' ∧ b'.bytes = b.bytes ∧
        b.bytes.length + blockSize ≤ b'.size ∧ b.bytes.length + blockSize ≤ capacity M) ∨
      (capacity M < b.bytes.length + blockSize ∧ growLinebuf (limitEnv M) b = none ∧
        growError (limitEnv M) b = .maxLineSize) := by
  cases hg : growLinebuf (limitEnv M) b with
  | some b' =>
      obtain ⟨hb', hbytes, hroom⟩ := hb.grow (limitEnv_max M) hM hg
      rw [hbytes] at hroom
      exact .inl ⟨b', rfl, hb', hbytes, hroom, hroom.trans hb'.size.le_capacity⟩
  | none =>
      rcases growLinebuf_cases (limitEnv_max M) hM hb.size.le with ⟨-, heq⟩ |
        ⟨hfull, ⟨-, -, heq⟩ | ⟨hmax, -, herror⟩ | ⟨-, hmalloc, -⟩⟩
      · rw [hg] at heq
        cases heq
      · rw [hg] at heq
        cases heq
      · exact .inr ⟨hb.size.eq_capacity hmax ▸ hfull, rfl, herror⟩
      · cases hmalloc

theorem eofError_ne (b : Linebuf) : eofError b ≠ some .maxLineSize := by
  unfold eofError
  split <;> simp

/-- **The loop gives up** exactly if the bytes before the read that brings the
newline leave no room for a block. -/
theorem readTrace_limit {M : Nat} (hM : M < 2 ^ 30) :
    ∀ {input : List ReadRes} {b : Linebuf}, OnlyData input → (0 : Byte) ∉ bytesOf input →
      Sized M b →
      ((readTrace (limitEnv M) input b).error = some .maxLineSize ↔
        capacity M < b.bytes.length + beforeNewline input + blockSize)
  | [], b, _, _, hb => by
      simp only [readTrace, beforeNewline]
      rcases growLinebuf_limit hM hb with ⟨b', hg, -, -, -, hfits⟩ | ⟨hfull, hg, herror⟩
      · simp only [hg, eofError_ne, false_iff]
        omega
      · simp only [hg, herror, true_iff]
        omega
  | r :: input, b, hdata, hnul, hb => by
      simp only [readTrace]
      rcases growLinebuf_limit hM hb with ⟨b', hg, hb', hbytes, hroom, hfits⟩ | ⟨hfull, hg, herror⟩
      · simp only [hg]
        rcases hdata r (by simp) with rfl | ⟨c, rfl⟩
        · have hrest := readTrace_limit hM hdata.tail hnul hb'
          rw [hbytes] at hrest
          exact hrest
        · simp only [bytesOf, List.mem_append, not_or] at hnul
          simp only [beforeNewline]
          by_cases hc : nl ∈ c.bytes
          · obtain ⟨u, v, heq, hu⟩ := List.eq_append_cons_of_mem hc
            have hu0 : (0 : Byte) ∉ u := fun h => hnul.1 (by simp [heq, h])
            have hpos : strnpos c.bytes nl = some u.length := heq ▸ strnpos_of_line hu hu0 v
            simp only [hpos, if_pos hc, reduceCtorEq, false_iff]
            omega
          · have hlen := c.le
            have hsum : (b'.bytes ++ c.bytes).length = b.bytes.length + c.bytes.length := by
              rw [List.length_append, hbytes]
            have hnext : Sized M { b' with bytes := b'.bytes ++ c.bytes } := by
              refine ⟨hb'.size, ?_⟩
              simp only [hsum]
              omega
            have hrest := readTrace_limit hM hdata.tail hnul.2 hnext
            simp only [hsum] at hrest
            simp only [strnpos_of_not_mem hc, if_neg hc]
            rw [← Nat.add_assoc b.bytes.length]
            exact hrest
      · simp only [hg, herror, true_iff]
        omega

/-- **The search gives up** exactly if the bytes of the line before the read that
brings its newline leave no room for a block. -/
theorem searchTrace_limit {M : Nat} (hlow : blockSize ≤ M) (hM : M < 2 ^ 30) {carry : List Byte}
    (hlen : carry.length < blockSize) {input : List ReadRes} (hdata : OnlyData input)
    (hnul : (0 : Byte) ∉ carry ++ bytesOf input) :
    (searchTrace (limitEnv M) carry input).error = some .maxLineSize ↔
      capacity M < lineBefore carry input + blockSize := by
  simp only [List.mem_append, not_or] at hnul
  unfold searchTrace lineBefore
  by_cases hc : nl ∈ carry
  · obtain ⟨u, v, heq, hu⟩ := List.eq_append_cons_of_mem hc
    have hu0 : (0 : Byte) ∉ u := fun h => hnul.1 (by simp [heq, h])
    have hpos : strnpos carry nl = some u.length := heq ▸ strnpos_of_line hu hu0 v
    have hblock : blockSize ≤ capacity M := (doublingSize_blockSize hlow).le_capacity
    simp only [hpos, if_pos hc, reduceCtorEq, false_iff]
    omega
  · have hb : Sized M ⟨carry, blockSize⟩ := ⟨doublingSize_blockSize hlow, hlen.le⟩
    simp only [strnpos_of_not_mem hc, if_neg hc]
    exact readTrace_limit hM hdata hnul.2 hb

theorem lineBefore_of_long {M : Nat} (hlow : blockSize ≤ M) {carry : List Byte}
    (hlen : carry.length < blockSize) (input : List ReadRes)
    (hlong : M < lineLength (carry ++ bytesOf input)) :
    capacity M < lineBefore carry input + blockSize := by
  have hcap := capacity_le hlow
  unfold lineBefore
  by_cases hc : nl ∈ carry
  · obtain ⟨u, v, heq, hu⟩ := List.eq_append_cons_of_mem hc
    rw [heq, List.append_assoc, List.cons_append, lineLength_line hu] at hlong
    rw [heq, List.length_append, List.length_cons] at hlen
    omega
  · have hle := lineLength_le hc input
    rw [if_neg hc]
    omega

/-! ## Sequences of calls -/

/-- The buffer and the unread input after `n` calls. -/
def afterCalls (env : CreadlineEnv) :
    Nat → CreadlineBuf → List ReadRes → CreadlineBuf × List ReadRes
  | 0, buffer, input => (buffer, input)
  | n + 1, buffer, input =>
      afterCalls env n (creadlineR env buffer input).buffer (creadlineR env buffer input).rest

/-- What the calls keep: less than a block is carried over, and no NUL is pending. -/
structure Pending (buffer : CreadlineBuf) (input : List ReadRes) : Prop where
  carried : buffer.nbytes < blockSize
  data : OnlyData input
  noNul : (0 : Byte) ∉ buffer.restored ++ bytesOf input

theorem bytesOf_suffix {input rest : List ReadRes} (h : rest <:+ input) :
    bytesOf rest <:+ bytesOf input := by
  obtain ⟨pre, rfl⟩ := h
  induction pre with
  | nil => exact List.suffix_rfl
  | cons r pre ih =>
      cases r with
      | data c => exact ih.trans (List.suffix_append c.bytes _)
      | eof => exact ih
      | eintr => exact ih
      | error => exact ih

theorem Pending.call {M : Nat} (hlow : blockSize ≤ M) (hM : M < 2 ^ 30) {buffer : CreadlineBuf}
    {input : List ReadRes} (h : Pending buffer input) :
    Pending (creadlineR (limitEnv M) buffer input).buffer
      (creadlineR (limitEnv M) buffer input).rest := by
  have hsafe := creadlineTrace_safe (limitEnv_max M) hlow hM h.carried input
  have hcarried := hsafe.carried
  have hfailed := hsafe.failed
  rw [creadlineTrace_call] at hcarried hfailed
  have hrest := creadlineR_rest (limitEnv M) buffer input
  have hdata : OnlyData (creadlineR (limitEnv M) buffer input).rest :=
    fun r hr => h.data r (hrest.subset hr)
  refine ⟨hcarried, hdata, ?_⟩
  cases hdst : (creadlineR (limitEnv M) buffer input).dst with
  | none =>
      have hnil : (creadlineR (limitEnv M) buffer input).buffer.restored = [] := by
        rw [← List.length_eq_zero_iff, length_restored]
        exact hfailed hdst rfl
      rw [hnil, List.nil_append]
      intro h0
      exact h.noNul (List.mem_append_right _ ((bytesOf_suffix hrest).subset h0))
  | some d =>
      have hlen := length_restored buffer
      obtain ⟨l, w, -, -, -, -, hres, heq⟩ := creadlineR_spec
        (hlen.le.trans h.carried.le) (Clear.of_noNul h.noNul) hdst
      have hnul := h.noNul
      rw [heq] at hnul
      have hw : (0 : Byte) ∉ w := fun h0 => hnul (by simp [h0])
      rw [hres, strncpy_of_noNul hw]
      exact fun h0 => hnul (List.mem_append_right _ (List.mem_cons_of_mem _ h0))

theorem Pending.afterCalls {M : Nat} (hlow : blockSize ≤ M) (hM : M < 2 ^ 30) :
    ∀ (n : Nat) {buffer : CreadlineBuf} {input : List ReadRes}, Pending buffer input →
      Pending (afterCalls (limitEnv M) n buffer input).1 (afterCalls (limitEnv M) n buffer input).2
  | 0, _, _, h => h
  | n + 1, _, _, h => Pending.afterCalls hlow hM n (h.call hlow hM)

theorem creadlineTrace_error (M : Nat) (buffer : CreadlineBuf) (input : List ReadRes) :
    (creadlineTrace (limitEnv M) buffer input).error =
      (searchTrace (limitEnv M) buffer.restored input).error := by
  have hmalloc : (limitEnv M).malloc blockSize = true := rfl
  simp only [creadlineTrace, hmalloc, if_true]
  cases (searchTrace (limitEnv M) buffer.restored input).exit <;> rfl

/-- **A call gives up for the lines longer than `M` and no other exactly if** its
line is longer than `M`, or the bytes before the read that brings its newline
leave room for a block in the largest buffer. -/
theorem afterCalls_limit_iff {M : Nat} (hlow : blockSize ≤ M) (hM : M < 2 ^ 30)
    {buffer : CreadlineBuf} (hbuf : buffer.nbytes = 0) {input : List ReadRes}
    (hdata : OnlyData input) (hnul : (0 : Byte) ∉ bytesOf input) (n : Nat)
    {buffer' : CreadlineBuf} {input' : List ReadRes}
    (hcalls : afterCalls (limitEnv M) n buffer input = (buffer', input')) :
    ((creadlineTrace (limitEnv M) buffer' input').error = some .maxLineSize ↔
        M < lineLength (buffer'.restored ++ bytesOf input')) ↔
      (M < lineLength (buffer'.restored ++ bytesOf input') ∨
        lineBefore buffer'.restored input' + blockSize ≤ capacity M) := by
  have hstart : Pending buffer input := by
    refine ⟨hbuf ▸ Nat.zero_lt_succ 1023, hdata, ?_⟩
    have hnil : buffer.restored = [] := by
      rw [← List.length_eq_zero_iff, length_restored, hbuf]
    rw [hnil, List.nil_append]
    exact hnul
  have hpending := hstart.afterCalls hlow hM n
  rw [hcalls] at hpending
  have hlen : buffer'.restored.length < blockSize :=
    length_restored buffer' ▸ hpending.carried
  have hlong := lineBefore_of_long hlow hlen input'
  rw [creadlineTrace_error, searchTrace_limit hlow hM hlen hpending.data hpending.noNul,
    ← Nat.not_lt]
  constructor
  · intro h
    exact (em _).imp h.mp id
  · rintro (h | h)
    · exact ⟨fun _ => h, fun _ => hlong h⟩
    · exact ⟨fun h' => absurd h' h, hlong⟩

/-- `"a"` and `"\n"`, in two reads. -/
def twoReads : List ReadRes :=
  [.data ⟨[97], by decide, by decide⟩, .data ⟨[10], by decide, by decide⟩]

/-- With a maximum of two blocks they are a line. -/
theorem afterCalls_limit_iff_two :
    ¬ (creadlineTrace (limitEnv 2048) ⟨[], 0⟩ twoReads).error = some .maxLineSize := by
  have hbuf : (⟨[], 0⟩ : CreadlineBuf).nbytes = 0 := rfl
  have hcalls : afterCalls (limitEnv 2048) 0 ⟨[], 0⟩ twoReads = (⟨[], 0⟩, twoReads) := rfl
  have h := (afterCalls_limit_iff (M := 2048) (by decide) (by decide) hbuf
    (by simp [twoReads, OnlyData]) (by decide) 0 hcalls).mpr (.inr (by decide +kernel))
  rw [h]
  decide

/-- With a maximum of one block, the same two bytes exceed it, but not in one read. -/
theorem maxLineSize_two_bytes :
    (creadlineTrace (limitEnv 1024) ⟨[], 0⟩ twoReads).error = some .maxLineSize ∧
      (creadlineTrace (limitEnv 1024) ⟨[], 0⟩ [.data ⟨[97, 10], by decide, by decide⟩]).error
        = none ∧ lineLength [97, 10] = 2 := by
  decide +kernel

end Libjapi
