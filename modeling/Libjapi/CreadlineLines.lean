/-
# `Libjapi.CreadlineLines` — the calls on one stream

A caller repeats `creadline_r` with one buffer.  The abstract meaning of that
is `streamResults`: the lines of the stream in order, each without a trailing
`'\r'`, then one result for its end.  As long as the allocator grants what is
asked for, it is reached from every segmentation whose lines are *tame*
(`tame_calls`): with `SearchClear` and `CarryClear` lines, as those of a stream
without NUL are.  A `realloc()` that fails drops what was read of a line, and the
rest of it is delivered as a line of its own (`not_creadlineCalls_stream`).
-/
import Libjapi.Creadline

namespace Libjapi

/-! ## The results a stream should give -/

/-- The result of a call that delivers the line `l`. -/
def lineResult (l : List Byte) : Int × Option (List Byte) :=
  ((stripCr l).length, some (stripCr l))

/-- The result of a call at the end of the stream, `t` being what is left of it. -/
def endResult (t : List Byte) : Int × Option (List Byte) := (if t = [] then 0 else -1, none)

/-- One result for each complete line, and one for the end of the stream. -/
def streamResults (s : List Byte) : List (Int × Option (List Byte)) :=
  (lines nl s).map lineResult ++ [endResult (unfinished nl s)]

/-- The part of the line that may be carried over is left as it is by `strncpy`. -/
def CarryClear (l : List Byte) : Prop :=
  strncpy (l.take (blockSize - 1)) (l.take (blockSize - 1)).length = l.take (blockSize - 1)

instance (l : List Byte) : Decidable (CarryClear l) := inferInstanceAs (Decidable (_ = _))

theorem CarryClear.of_noNul {l : List Byte} (h : (0 : Byte) ∉ l) : CarryClear l :=
  strncpy_of_noNul fun h' => h (List.mem_of_mem_take h')

/-- Streams with the same lines, and as many bytes behind them. -/
def SameLines (s s' : List Byte) : Prop :=
  lines nl s = lines nl s' ∧ (unfinished nl s).length = (unfinished nl s').length

theorem SameLines.streamResults_eq {s s' : List Byte} (h : SameLines s s') :
    streamResults s = streamResults s' := by
  have hend : endResult (unfinished nl s) = endResult (unfinished nl s') := by
    simp only [endResult, ← List.length_eq_zero_iff, h.2]
  rw [streamResults, streamResults, h.1, hend]

/-! ## What the carry-over does to the lines -/

theorem SearchClear.noNul {l : List Byte} (h : SearchClear l) (hlen : l.length < blockSize) :
    (0 : Byte) ∉ l := by
  rwa [SearchClear, Nat.sub_eq_zero_of_le (by omega), List.drop_zero] at h

theorem strncpy_append {l : List Byte} (hl : (0 : Byte) ∉ l) (w : List Byte) :
    strncpy (l ++ w) (l ++ w).length = l ++ strncpy w w.length := by
  have hup : upToNul (l ++ w) = l ++ upToNul w :=
    List.takeWhile_append_of_pos fun b hb => by simpa using fun hb0 : b = 0 => hl (hb0 ▸ hb)
  rw [strncpy_length, strncpy_length, hup, List.length_append, List.length_append,
    Nat.add_sub_add_left, List.append_assoc]

theorem not_mem_strncpy {w : List Byte} (hw : nl ∉ w) (n : Nat) : nl ∉ strncpy w n := by
  intro h
  rcases List.mem_append.mp h with h | h
  · exact hw (List.mem_of_mem_take ((List.takeWhile_prefix _).subset h))
  · exact absurd (List.eq_of_mem_replicate h) (by decide)

theorem strncpy_of_append {t u : List Byte} (h : strncpy (t ++ u) (t ++ u).length = t ++ u) :
    strncpy t t.length = t := by
  by_cases h0 : (0 : Byte) ∈ t
  · obtain ⟨a, b, rfl, ha⟩ := List.eq_append_cons_of_mem h0
    have hcut : ∀ v : List Byte, strncpy (a ++ 0 :: v) (a ++ 0 :: v).length
        = a ++ List.replicate (v.length + 1) 0 := by
      intro v
      rw [strncpy_append ha]
      simp [strncpy, upToNul]
    rw [List.append_assoc, List.cons_append, hcut, List.append_cancel_left_eq,
      List.length_append, Nat.add_right_comm, List.replicate_add] at h
    have hsplit : List.replicate (b.length + 1) (0 : Byte) ++ List.replicate u.length 0
        = 0 :: b ++ u := h
    have hb : List.replicate (b.length + 1) (0 : Byte) = 0 :: b :=
      List.append_inj_left hsplit (by simp)
    rw [hcut, hb]
  · exact strncpy_of_noNul h0

theorem carry_sameLines (w : List Byte) :
    ∀ {s : List Byte}, w.length < blockSize →
      (∀ l ∈ lines nl (w ++ s), SearchClear l ∧ CarryClear l) →
      SameLines (strncpy w w.length ++ s) (w ++ s) := by
  induction w using lines_induction nl with
  | hrest t ht =>
      intro s hlen hclear
      have ht' : nl ∉ strncpy t t.length := not_mem_strncpy ht _
      rcases line_cases nl s with hs | ⟨l, s', rfl, hl⟩
      · -- no newline follows: the part is never delivered
        have h₁ : nl ∉ strncpy t t.length ++ s := by simp [ht', hs]
        have h₂ : nl ∉ t ++ s := by simp [ht, hs]
        refine ⟨by rw [lines_of_not_mem h₁, lines_of_not_mem h₂], ?_⟩
        rw [unfinished_of_not_mem h₁, unfinished_of_not_mem h₂, List.length_append,
          List.length_append, length_strncpy]
      · -- the part begins a line, which is `CarryClear`
        have htl : nl ∉ t ++ l := by simp [ht, hl]
        have hmem : t ++ l ∈ lines nl (t ++ (l ++ nl :: s')) := by
          rw [← List.append_assoc, lines_cons_line htl]
          simp
        have hcarry := (hclear _ hmem).2
        rw [CarryClear, List.take_append, List.take_of_length_le (by omega)] at hcarry
        rw [strncpy_of_append hcarry]
        exact ⟨rfl, rfl⟩
  | hline l w hl ih =>
      intro s hlen hclear
      simp only [List.length_append, List.length_cons] at hlen
      have hw : (l ++ nl :: w) ++ s = l ++ nl :: (w ++ s) := by simp
      rw [hw, lines_cons_line hl] at hclear
      have h0 : (0 : Byte) ∉ l ++ [nl] := by
        have := (hclear l (by simp)).1.noNul (by omega)
        simp [this, nl]
      have hcopy : strncpy (l ++ nl :: w) (l ++ nl :: w).length = l ++ nl :: strncpy w w.length := by
        have := strncpy_append h0 w
        simpa using this
      have := ih (s := s) (by omega) fun l' h => hclear l' (by simp [h])
      rw [hcopy, hw, List.append_assoc, List.cons_append]
      unfold SameLines
      rw [lines_cons_line hl, lines_cons_line hl, unfinished_cons_line hl,
        unfinished_cons_line hl, this.1]
      exact ⟨rfl, this.2⟩

/-- **A call on tame lines** delivers the first of them; the carry-over and the
unread bytes keep the lines that are still due. -/
theorem tame_call {buffer : CreadlineBuf} {input : List ReadRes} (hdata : OnlyData input)
    (hlen : buffer.restored.length ≤ blockSize)
    (hsearch : ∀ l ∈ lines nl (buffer.restored ++ bytesOf input),
      SearchClear l ∧ l.length ≤ lineLimit)
    (hcarry : ∀ l ∈ (lines nl (buffer.restored ++ bytesOf input)).tail, CarryClear l)
    {l v : List Byte} (heq : buffer.restored ++ bytesOf input = l ++ nl :: v) (hl : nl ∉ l) :
    ∃ buffer' rest, creadlineR libEnv buffer input
        = ⟨(stripCr l).length, some (stripCr l), buffer', rest⟩ ∧
      OnlyData rest ∧ buffer'.restored.length ≤ blockSize ∧
      SameLines (buffer'.restored ++ bytesOf rest) v := by
  have hlines : lines nl (buffer.restored ++ bytesOf input) = l :: lines nl v := by
    rw [heq, lines_cons_line hl]
  rw [hlines] at hsearch hcarry
  have hclear : Clear (buffer.restored ++ bytesOf input) := by
    rw [clear_iff_lines, hlines]
    simpa using (hsearch l (by simp)).1
  obtain ⟨d, hd⟩ := Option.isSome_iff_exists.mp
    (creadlineR_delivers hdata hlen hclear heq hl (hsearch l (by simp)).2)
  obtain ⟨l', w, hl', hw, rfl, hret, hbuf, heq'⟩ := creadlineR_spec hlen hclear hd
  obtain ⟨rfl, hv⟩ := line_unique hl hl' (heq.symm.trans heq')
  have hsame := carry_sameLines w (s := bytesOf (creadlineR libEnv buffer input).rest) hw
    fun k hk => by
      rw [← hv] at hk
      exact ⟨(hsearch k (by simp [hk])).1, hcarry k (by simpa using hk)⟩
  rw [← hbuf, ← hv] at hsame
  refine ⟨_, _, ?_, fun r hr => hdata r ((creadlineR_rest libEnv buffer input).subset hr),
    by rw [hbuf, length_strncpy]; exact hw.le, hsame⟩
  rw [← hret, ← hd]

/-- **Tame lines are delivered as they are, from every segmentation.** -/
theorem tame_calls :
    ∀ (n : Nat) (buffer : CreadlineBuf) (input : List ReadRes), OnlyData input →
      buffer.restored.length ≤ blockSize →
      (∀ l ∈ lines nl (buffer.restored ++ bytesOf input), SearchClear l ∧ l.length ≤ lineLimit) →
      (∀ l ∈ (lines nl (buffer.restored ++ bytesOf input)).tail, CarryClear l) →
      creadlineCalls libEnv n buffer input
        = (streamResults (buffer.restored ++ bytesOf input)).take n
  | 0, _, _, _, _, _, _ => rfl
  | n + 1, buffer, input, hdata, hlen, hsearch, hcarry => by
      rcases line_cases nl (buffer.restored ++ bytesOf input) with hnl | ⟨l, v, heq, hl⟩
      · obtain ⟨hdst, hret⟩ := creadlineR_at_end hdata hnl
        simp [creadlineCalls, hdst, hret, streamResults, lines_of_not_mem hnl,
          unfinished_of_not_mem hnl, endResult]
      · obtain ⟨buffer', rest, hcall, hdata', hlen', hsame⟩ :=
          tame_call hdata hlen hsearch hcarry heq hl
        rw [heq, lines_cons_line hl] at hsearch hcarry
        have ih := tame_calls n buffer' rest hdata' hlen'
          (by rw [hsame.1]; exact fun k hk => hsearch k (by simp [hk]))
          (by rw [hsame.1]; exact fun k hk => hcarry k (by simpa using List.mem_of_mem_tail hk))
        simp only [creadlineCalls, hcall, Option.isSome_some, if_true, ih, hsame.streamResults_eq]
        rw [heq]
        simp [streamResults, lines_cons_line hl, unfinished_cons_line hl, lineResult]

theorem not_mem_of_lines {s l : List Byte} {b : Byte} (hb : b ∉ s) (h : l ∈ lines nl s) : b ∉ l := by
  intro hbl
  refine hb ?_
  rw [← join_lines nl s]
  exact List.mem_append_left _
    (List.mem_flatten.mpr ⟨l ++ [nl], List.mem_map.mpr ⟨l, h, rfl⟩, by simp [hbl]⟩)

/-- **A NUL-free stream is delivered line by line from every segmentation**,
interruptions included, as long as there is memory: nothing is lost, doubled or moved
to another line. -/
theorem creadlineCalls_stream {buffer : CreadlineBuf} {input : List ReadRes}
    (hbuf : buffer.nbytes = 0) (hdata : OnlyData input) (hnul : (0 : Byte) ∉ bytesOf input)
    (hlim : ∀ l ∈ lines nl (bytesOf input), l.length ≤ lineLimit) (n : Nat) :
    creadlineCalls libEnv n buffer input = (streamResults (bytesOf input)).take n := by
  have hres : buffer.restored = [] := by simp [CreadlineBuf.restored, hbuf]
  have hfree : ∀ l ∈ lines nl (bytesOf input), (0 : Byte) ∉ l :=
    fun l hl => not_mem_of_lines hnul hl
  have := tame_calls n buffer input hdata (by simp [hres])
    (by simpa [hres] using fun l hl => ⟨SearchClear.of_noNul (hfree l hl), hlim l hl⟩)
    (by simpa [hres] using fun l hl => CarryClear.of_noNul (hfree l (List.mem_of_mem_tail hl)))
  simpa [hres] using this

/-- `"a\r"`, an interruption, `"\n\nb"`: a line, an empty line, an unfinished one. -/
theorem creadlineCalls_stream_crlf :
    creadlineCalls libEnv 4 ⟨[], 0⟩
        [.data ⟨[97, 13], by decide, by decide⟩, .eintr, .data ⟨[10, 10, 98], by decide, by decide⟩]
      = [(1, some [97]), (0, some []), (-1, none)] :=
  (creadlineCalls_stream rfl (by simp [OnlyData]) (by decide) (by decide) 4).trans (by decide)

/-- `"a"` and its newline come in two reads, and there is no memory for a second block:
the `a` is lost, and an empty line is delivered that was never sent. -/
theorem not_creadlineCalls_stream :
    (¬ ∀ (malloc : Nat → Bool) (buffer : CreadlineBuf) (input : List ReadRes), buffer.nbytes = 0 →
        OnlyData input → (0 : Byte) ∉ bytesOf input →
        (∀ l ∈ lines nl (bytesOf input), l.length ≤ lineLimit) → ∀ n : Nat,
          creadlineCalls ⟨64 * 1024 * 1024, malloc⟩ n buffer input
            = (streamResults (bytesOf input)).take n) ∧
      creadlineResults ⟨64 * 1024 * 1024, fun n => n ≤ blockSize⟩ 2 ⟨[], 0⟩
          [.data ⟨[97], by decide, by decide⟩, .data ⟨[10], by decide, by decide⟩]
        = [(-1, none), (0, some [])] := by
  refine ⟨fun h => ?_, by decide⟩
  have := h (fun n => n ≤ blockSize) ⟨[], 0⟩
    [.data ⟨[97], by decide, by decide⟩, .data ⟨[10], by decide, by decide⟩] rfl
    (by simp [OnlyData]) (by decide) (by decide) 1
  exact absurd this (by decide)

end Libjapi
