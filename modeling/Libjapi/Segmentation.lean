/-
# `Libjapi.Segmentation` — what the cut of a stream into reads changes

The results of all the calls of `creadline_r` on one stream, from any two cuts of
it into reads.  The cut matters for two kinds of line and one kind of rest:

    ¬ SearchClear l   a NUL and the newline of `l` fit into one read, where
                      `strnpos` stops at the NUL and misses the newline;
    ¬ CarryClear l    a NUL and a later non-NUL byte of `l` fit into the
                      carry-over buffer, where `strncpy` pads after the NUL
                      (not the first line: nothing is carried into it);
    ¬ RestClear t     what follows the last newline is so long that it is given
                      up, after more or after fewer calls: a call gives up
                      between 64 MiB - 1023 and 64 MiB bytes.

`segmentation_iff` says that the results are the same for all segmentations if
and only if nothing is of these kinds.
-/
import Libjapi.CreadlineLines

namespace Libjapi

/-! ## Reading byte by byte -/

/-- A stream that arrives one byte at a time. -/
def singles (s : List Byte) : List Chunk :=
  s.map fun b => ⟨[b], by simp, by simp [blockSize]⟩

/-- The reads that return these chunks. -/
def reads (cs : List Chunk) : List ReadRes := cs.map .data

/-- The stream that is cut into these chunks. -/
def joined (cs : List Chunk) : List Byte := (cs.map Chunk.bytes).flatten

theorem bytesOf_reads (cs : List Chunk) : bytesOf (reads cs) = joined cs := by
  induction cs with
  | nil => rfl
  | cons c cs ih => simpa [reads, joined, bytesOf] using ih

theorem bytesOf_append (input input' : List ReadRes) :
    bytesOf (input ++ input') = bytesOf input ++ bytesOf input' := by
  induction input with
  | nil => rfl
  | cons r input ih => cases r <;> simp [bytesOf, ih]

theorem onlyData_reads (cs : List Chunk) : OnlyData (reads cs) := by
  intro r hr
  obtain ⟨c, -, rfl⟩ := List.mem_map.mp hr
  exact .inr ⟨c, rfl⟩

theorem joined_append (cs cs' : List Chunk) : joined (cs ++ cs') = joined cs ++ joined cs' := by
  simp [joined]

theorem joined_cons (c : Chunk) (cs : List Chunk) : joined (c :: cs) = c.bytes ++ joined cs := rfl

theorem reads_append (cs cs' : List Chunk) : reads (cs ++ cs') = reads cs ++ reads cs' :=
  List.map_append

theorem reads_cons (c : Chunk) (cs : List Chunk) : reads (c :: cs) = .data c :: reads cs := rfl

theorem joined_singles (s : List Byte) : joined (singles s) = s := by
  induction s with
  | nil => rfl
  | cons b s ih => exact congrArg (b :: ·) ih

theorem growLinebuf_holds {b : Linebuf} (hsize : PowSize b.size) (hholds : b.bytes.length ≤ b.size) :
    (b.bytes.length ≤ lineLimit ∧ ∃ n, PowSize n ∧ b.bytes.length + blockSize ≤ n ∧
        growLinebuf libEnv b = some { b with size := n }) ∨
      (lineLimit < b.bytes.length ∧ growLinebuf libEnv b = none) := by
  obtain ⟨k, hk, hk', hsz⟩ := hsize
  have hle : 2 ^ k ≤ 2 ^ 26 := Nat.pow_le_pow_right (by omega) hk'
  have hlow : 2 ^ 10 ≤ 2 ^ k := Nat.pow_le_pow_right (by omega) hk
  by_cases hroom : b.bytes.length + blockSize ≤ b.size
  · refine .inl ⟨?_, b.size, ⟨k, hk, hk', hsz⟩, hroom, growLinebuf_of_room hroom⟩
    simp only [lineLimit, blockSize] at hroom ⊢
    omega
  rcases growLinebuf_libEnv ⟨k, hk, hk', hsz⟩ with ⟨n, hn, hg⟩ | hfull
  · have hdouble : n = 2 * b.size := by
      have hfull : b.bytes.length + blockSize > b.size := Nat.lt_of_not_le hroom
      have hnew : toInt32 (2 * (b.size : Int)) = ((2 * b.size : Nat) : Int) := by
        rw [toInt32_of_lt (by omega) (by omega)]
        rfl
      have hcast : toSizeT ((2 * b.size : Nat) : Int) = 2 * b.size := by
        have := toSizeT_of_lt (n := ((2 * b.size : Nat) : Int)) (by omega) (by omega)
        exact_mod_cast this
      simp only [growLinebuf, if_pos hfull, hnew, hcast, libEnv, if_true] at hg
      split at hg
      · cases hg
      · have hsizes := congrArg (Option.map Linebuf.size) hg
        simpa using hsizes.symm
    obtain ⟨j, -, hj', hnj⟩ := id hn
    have hle' : 2 ^ j ≤ 2 ^ 26 := Nat.pow_le_pow_right (by omega) hj'
    refine .inl ⟨?_, n, hn, ?_, hg⟩
    · simp only [lineLimit, blockSize]
      omega
    · simp only [blockSize]
      omega
  · exact .inr hfull

theorem readLoop_reads (input : List ReadRes) :
    ∀ (cs : List Chunk) {b : Linebuf}, nl ∉ joined cs → PowSize b.size → b.bytes.length ≤ b.size →
      (∀ cs₁ c cs₂, cs = cs₁ ++ c :: cs₂ → (b.bytes ++ joined cs₁).length ≤ lineLimit) →
      ∃ n, PowSize n ∧ (b.bytes ++ joined cs).length ≤ n ∧
        readLoop libEnv (reads cs ++ input) b = readLoop libEnv input ⟨b.bytes ++ joined cs, n⟩
  | [], b, _, hsize, hholds, _ =>
      ⟨b.size, hsize, by simpa [joined] using hholds, by simp [reads, joined]⟩
  | c :: cs, b, hnl, hsize, hholds, hroom => by
      rw [joined_cons] at hnl
      have hc : nl ∉ c.bytes := fun h => hnl (by simp [h])
      have hlen : b.bytes.length ≤ lineLimit := by
        have := hroom [] c cs rfl
        simpa [joined] using this
      obtain ⟨-, n, hn, hfits, hg⟩ := (growLinebuf_holds hsize hholds).resolve_right
        fun h => by omega
      have hfits₁ : (b.bytes ++ c.bytes).length ≤ n := by
        have hle := c.le
        rw [List.length_append]
        omega
      obtain ⟨n', hn', hfits', heq⟩ := readLoop_reads input cs (b := ⟨b.bytes ++ c.bytes, n⟩)
        (fun h => hnl (by simp [h])) hn hfits₁ fun cs₁ c' cs₂ hcs => by
          have := hroom (c :: cs₁) c' cs₂ (by rw [hcs]; rfl)
          rwa [joined_cons, ← List.append_assoc] at this
      refine ⟨n', hn', ?_, ?_⟩
      · rwa [joined_cons, ← List.append_assoc]
      · rw [joined_cons, ← List.append_assoc, ← heq, reads_cons, List.cons_append]
        simp only [readLoop, hg, strnpos_of_not_mem hc]

theorem readLoop_singles {u : List Byte} (hu : nl ∉ u) (input : List ReadRes) {b : Linebuf}
    (hsize : PowSize b.size) (hholds : b.bytes.length ≤ b.size)
    (hlen : (b.bytes ++ u).length ≤ lineLimit + 1) :
    ∃ n, PowSize n ∧ (b.bytes ++ u).length ≤ n ∧
      readLoop libEnv (reads (singles u) ++ input) b = readLoop libEnv input ⟨b.bytes ++ u, n⟩ := by
  have hloop := readLoop_reads input (singles u) (b := b) (by rwa [joined_singles]) hsize
    hholds ?_
  · rwa [joined_singles] at hloop
  · intro cs₁ c cs₂ hcs
    -- one byte a read: at least one is still to come
    have hjoin := congrArg (fun cs => (joined cs).length) hcs
    have hpos : 0 < c.bytes.length := List.length_pos_iff.mpr c.ne_nil
    simp only [joined_singles, joined_append, joined_cons, List.length_append] at hjoin hlen ⊢
    omega

theorem readLoop_singles_line {b : List Byte} {u : List Byte} (hu : nl ∉ u)
    {n : Nat} (hsize : PowSize n) (hholds : b.length ≤ n) (hlen : (b ++ u).length ≤ lineLimit)
    (input : List ReadRes) :
    readLoop libEnv (reads (singles (u ++ [nl])) ++ input) ⟨b, n⟩
      = .newline (b ++ u ++ [nl]) (b ++ u).length input := by
  have hcut : reads (singles (u ++ [nl])) ++ input
      = reads (singles u) ++ (reads (singles [nl]) ++ input) := by
    simp [reads, singles]
  obtain ⟨n', hn', -, heq⟩ := readLoop_singles hu (reads (singles [nl]) ++ input) (b := ⟨b, n⟩)
    hsize hholds (Nat.le_succ_of_le hlen)
  obtain ⟨m, -, hg⟩ := (growLinebuf_libEnv (b := ⟨b ++ u, n'⟩) hn').resolve_right
    fun h => by simp only at h; omega
  rw [hcut, heq]
  simp [reads, singles, readLoop, hg, strnpos]

/-- Lines that arrive one byte at a time are delivered whatever they contain, and
leave nothing in the carry-over buffer. -/
theorem creadlineResults_singles (ls : List (List Byte)) :
    ∀ (buffer : CreadlineBuf), buffer.nbytes = 0 → (∀ l ∈ ls, nl ∉ l ∧ l.length ≤ lineLimit) →
      ∀ (n : Nat) (input : List ReadRes), ∃ buffer' : CreadlineBuf, buffer'.nbytes = 0 ∧
        creadlineResults libEnv (ls.length + n) buffer
            (reads (singles (ls.map (· ++ [nl])).flatten) ++ input)
          = ls.map lineResult ++ creadlineResults libEnv n buffer' input := by
  induction ls with
  | nil =>
      intro buffer hbuf _ n input
      exact ⟨buffer, hbuf, by simp [reads, singles]⟩
  | cons l ls ih =>
      intro buffer hbuf hls n input
      obtain ⟨hl, hlen⟩ := hls l (by simp)
      obtain ⟨buffer', hbuf', heq⟩ := ih { buffer with nbytes := 0 } rfl
        (fun k hk => hls k (by simp [hk])) n input
      refine ⟨buffer', hbuf', ?_⟩
      have hcut : reads (singles ((l :: ls).map (· ++ [nl])).flatten) ++ input
          = reads (singles (l ++ [nl]))
            ++ (reads (singles (ls.map (· ++ [nl])).flatten) ++ input) := by
        simp [reads, singles]
      have hres : buffer.restored = [] := by simp [CreadlineBuf.restored, hbuf]
      have hexit : searchExit libEnv [] (reads (singles (l ++ [nl]))
            ++ (reads (singles (ls.map (· ++ [nl])).flatten) ++ input))
          = .newline (l ++ [nl]) l.length (reads (singles (ls.map (· ++ [nl])).flatten) ++ input) :=
        readLoop_singles_line (b := []) hl powSize_blockSize (Nat.zero_le _) (by simpa using hlen) _
      have hcall : creadlineR libEnv buffer (reads (singles (l ++ [nl]))
            ++ (reads (singles (ls.map (· ++ [nl])).flatten) ++ input))
          = ⟨(stripCr l).length, some (stripCr l), { buffer with nbytes := 0 },
              reads (singles (ls.map (· ++ [nl])).flatten) ++ input⟩ := by
        rw [creadlineR_eq, hres, hexit]
        simp only [libEnv_malloc, if_true, takeLine_eq]
      rw [hcut, List.length_cons, Nat.add_right_comm]
      simp only [creadlineResults, hcall, heq, List.map_cons, List.cons_append, lineResult]

/-! ## Two segmentations of one stream -/

/-- How the stream is cut into reads changes no result. -/
def SegmentationFree (s : List Byte) : Prop :=
  ∀ c₁ c₂ : List Chunk, joined c₁ = s → joined c₂ = s →
    ∀ (n : Nat) (buffer : CreadlineBuf), buffer.nbytes = 0 →
      creadlineResults libEnv n buffer (reads c₁) = creadlineResults libEnv n buffer (reads c₂)

/-- No line swallows or damages another: from every segmentation each line is
delivered as it was sent, and then the end. -/
def LinesIntact (s : List Byte) : Prop :=
  ∀ c : List Chunk, joined c = s → ∀ (n : Nat) (buffer : CreadlineBuf), buffer.nbytes = 0 →
    (streamResults s).take n <+: creadlineResults libEnv n buffer (reads c)

/-- How many calls give up `n` bytes without a newline, if each gives up `size`. -/
def givenUp (n size : Nat) : Nat := (n + (size - 1)) / size

/-- What follows the last newline is given up by the same number of calls, whether they
give up as little as they can, or as much. -/
def RestClear (t : List Byte) : Prop :=
  givenUp t.length (lineLimit + 1) = givenUp t.length (lineLimit + blockSize)

instance (t : List Byte) : Decidable (RestClear t) := inferInstanceAs (Decidable (_ = _))

theorem exists_rest_of_lines {s l : List Byte} {pre post : List (List Byte)}
    (h : lines nl s = pre ++ l :: post) :
    ∃ rest, s = (pre.map (· ++ [nl])).flatten ++ (l ++ nl :: rest) := by
  refine ⟨(post.map (· ++ [nl])).flatten ++ unfinished nl s, ?_⟩
  conv => lhs; rw [← join_lines nl s, h]
  simp

theorem readLoop_newline_after {env : CreadlineEnv} {lb : List Byte} {p : Nat}
    {rest : List ReadRes} :
    ∀ {input : List ReadRes} {b : Linebuf}, readLoop env input b = .newline lb p rest →
      b.bytes <+: lb ∧ b.bytes.length ≤ p
  | [], b, h => by
      simp only [readLoop] at h
      cases hg : growLinebuf env b with
      | none => simp [hg] at h
      | some b' =>
          simp only [hg] at h
          exact absurd h (atEof_ne_newline _ _)
  | r :: input, b, h => by
      simp only [readLoop] at h
      cases hg : growLinebuf env b with
      | none => simp [hg] at h
      | some b' =>
          have hbytes := growLinebuf_bytes hg
          simp only [hg] at h
          cases r with
          | eintr =>
              have hloop : readLoop env input b' = .newline lb p rest := h
              exact hbytes ▸ readLoop_newline_after hloop
          | error => cases h
          | eof => exact absurd h (atEof_ne_newline _ _)
          | data c =>
              simp only [hbytes] at h
              cases hpos : strnpos c.bytes nl with
              | some q =>
                  simp only [hpos] at h
                  cases h
                  exact ⟨List.prefix_append _ _, Nat.le_add_right _ _⟩
              | none =>
                  simp only [hpos] at h
                  obtain ⟨h₁, h₂⟩ := readLoop_newline_after h
                  simp only [List.length_append] at h₂
                  exact ⟨(List.prefix_append _ _).trans h₁, by omega⟩

/-- Once the newline of `l` was missed, no call returns as few bytes as `l` has. -/
theorem takeLine_ret_gt {buffer : CreadlineBuf} {l lb : List Byte} {p : Nat} {rest : List ReadRes}
    (hpre : l ++ [nl] <+: lb) (hp : (l ++ [nl]).length ≤ p) :
    (l.length : Int) < (takeLine buffer lb p rest).ret := by
  simp only [List.length_append, List.length_singleton] at hp
  have hnl : lb[l.length]? = some nl := by
    obtain ⟨t, rfl⟩ := hpre
    simp
  simp only [takeLine]
  split
  · rename_i h
    -- the byte in front of the newline is a `'\r'`, so it is not the missed newline
    have hne : p - 1 ≠ l.length := by
      intro heq
      rw [heq, hnl] at h
      exact absurd h.2 (by decide)
    omega
  · omega

theorem length_stripCr_le (l : List Byte) : (stripCr l).length ≤ l.length := by
  unfold stripCr
  split
  · simp
  · exact Nat.le_refl _

theorem stripCr_append (a : List Byte) {d : List Byte} (hd : d ≠ []) :
    stripCr (a ++ d) = a ++ stripCr d := by
  unfold stripCr
  rw [List.getLast?_append_of_ne_nil a hd]
  split
  · rw [List.dropLast_append_of_ne_nil hd]
  · rfl

theorem not_segmentationFree_of_calls_ne {ls : List (List Byte)} {t : List Byte}
    (c₁ c₂ : List Chunk) (hls : ∀ k ∈ ls, nl ∉ k ∧ k.length ≤ lineLimit) (h₁ : joined c₁ = t)
    (h₂ : joined c₂ = t) (n : Nat)
    (hne : ∀ b₁ b₂ : CreadlineBuf, b₁.nbytes = 0 → b₂.nbytes = 0 →
      creadlineResults libEnv n b₁ (reads c₁) ≠ creadlineResults libEnv n b₂ (reads c₂)) :
    ¬ SegmentationFree ((ls.map (· ++ [nl])).flatten ++ t) := by
  intro hfree
  have heq := hfree (singles (ls.map (· ++ [nl])).flatten ++ c₁)
    (singles (ls.map (· ++ [nl])).flatten ++ c₂) (by rw [joined_append, joined_singles, h₁])
    (by rw [joined_append, joined_singles, h₂]) (ls.length + n) ⟨[], 0⟩ rfl
  obtain ⟨b₁, hb₁, heq₁⟩ := creadlineResults_singles ls ⟨[], 0⟩ rfl hls n (reads c₁)
  obtain ⟨b₂, hb₂, heq₂⟩ := creadlineResults_singles ls ⟨[], 0⟩ rfl hls n (reads c₂)
  rw [reads_append, reads_append, heq₁, heq₂, List.append_cancel_left_eq] at heq
  exact hne b₁ b₂ hb₁ hb₂ heq

/-- **A NUL and the newline of its line in one read: the newline is missed**, and
whatever the call returns, it is longer than the line. -/
theorem creadlineR_missed {u a b : List Byte} (hu : nl ∉ u) (ha : nl ∉ a) {c : Chunk}
    (hc : c.bytes = a ++ 0 :: (b ++ [nl])) (hlen : u.length ≤ lineLimit) {buffer : CreadlineBuf}
    (hbuf : buffer.nbytes = 0) (rest : List ReadRes)
    (hd : (creadlineR libEnv buffer (reads (singles u) ++ .data c :: rest)).dst.isSome) :
    ((u ++ (a ++ 0 :: b)).length : Int)
      < (creadlineR libEnv buffer (reads (singles u) ++ .data c :: rest)).ret := by
  have hres : buffer.restored = [] := by simp [CreadlineBuf.restored, hbuf]
  obtain ⟨m, hm, -, hloop⟩ := readLoop_singles hu (.data c :: rest) (b := ⟨[], blockSize⟩)
    powSize_blockSize (Nat.zero_le _) (Nat.le_succ_of_le hlen)
  obtain ⟨m', -, hg⟩ := (growLinebuf_libEnv (b := ⟨u, m⟩) hm).resolve_right fun h => by
    simp only at h
    omega
  have hpos : strnpos c.bytes nl = none := by rw [hc, strnpos_of_nul ha]
  have hexit : searchExit libEnv [] (reads (singles u) ++ .data c :: rest)
      = readLoop libEnv rest ⟨u ++ c.bytes, m'⟩ := by
    rw [searchExit, show strnpos [] nl = none from rfl]
    simp only [hloop, readLoop, List.nil_append, hg, hpos]
  have hbytes : u ++ c.bytes = (u ++ (a ++ 0 :: b)) ++ [nl] := by simp [hc]
  rw [creadlineR_eq, hres, hexit] at hd ⊢
  simp only [libEnv_malloc, if_true] at hd ⊢
  cases hx : readLoop libEnv rest ⟨u ++ c.bytes, m'⟩ with
  | newline lb p rest' =>
      obtain ⟨hpre, hp⟩ := readLoop_newline_after hx
      exact takeLine_ret_gt (hbytes ▸ hpre) (hbytes ▸ hp)
  | eof rest' => simp [hx] at hd
  | error rest' => simp [hx] at hd

theorem not_segmentationFree_of_search {s l : List Byte} {pre post : List (List Byte)}
    (hlim : ∀ l ∈ lines nl s, l.length ≤ lineLimit) (hs : lines nl s = pre ++ l :: post)
    (hbad : ¬ SearchClear l) : ¬ SegmentationFree s := by
  obtain ⟨rest, hrest⟩ := exists_rest_of_lines hs
  have hline : ∀ k ∈ lines nl s, nl ∉ k ∧ k.length ≤ lineLimit :=
    fun k hk => ⟨not_mem_of_mem_lines hk, hlim k hk⟩
  obtain ⟨hl, hlen⟩ := hline l (by simp [hs])
  -- `l = u ++ v`, and `v` with the newline is one read
  obtain ⟨u, v, rfl, hv, h0⟩ : ∃ u v, l = u ++ v ∧ v.length ≤ blockSize - 1 ∧ (0 : Byte) ∈ v :=
    ⟨l.take (l.length - (blockSize - 1)), l.drop (l.length - (blockSize - 1)), by simp,
      by simp only [List.length_drop]; omega, not_not.mp hbad⟩
  obtain ⟨a, b, rfl, -⟩ := List.eq_append_cons_of_mem h0
  have hu : nl ∉ u := fun h => hl (by simp [h])
  have ha : nl ∉ a := fun h => hl (by simp [h])
  let c : Chunk := ⟨a ++ 0 :: (b ++ [nl]), by simp, by
    simp only [List.length_append, List.length_cons, List.length_nil, blockSize] at hv ⊢
    omega⟩
  have hulen : u.length ≤ lineLimit := by
    rw [List.length_append] at hlen
    omega
  rw [hrest]
  refine not_segmentationFree_of_calls_ne (singles u ++ c :: singles rest) _
    (fun k hk => hline k (by simp [hs, hk])) ?_ (joined_singles _) 1 ?_
  · simp [joined_append, joined_cons, joined_singles, c]
  · intro b₁ b₂ hb₁ hb₂ heq
    obtain ⟨b₃, -, hsingle⟩ := creadlineResults_singles [u ++ (a ++ 0 :: b)] b₂ hb₂
      (fun k hk => List.mem_singleton.mp hk ▸ ⟨hl, hlen⟩) 0 (reads (singles rest))
    have hcut : reads (singles (u ++ (a ++ 0 :: b) ++ nl :: rest))
        = reads (singles ([u ++ (a ++ 0 :: b)].map (· ++ [nl])).flatten) ++ reads (singles rest) := by
      simp [reads, singles]
    rw [hcut, show (1 : Nat) = [u ++ (a ++ 0 :: b)].length + 0 from rfl, hsingle, reads_append,
      reads_cons] at heq
    simp only [creadlineResults, lineResult, List.length_singleton, List.map_cons, List.map_nil,
      List.append_nil, List.cons.injEq, Prod.mk.injEq] at heq
    obtain ⟨⟨hret, hdst⟩, -⟩ := heq
    have hlt := creadlineR_missed hu ha (show c.bytes = a ++ 0 :: (b ++ [nl]) from rfl) hulen hb₁
      (reads (singles rest)) (by rw [hdst]; rfl)
    have hle := length_stripCr_le (u ++ (a ++ 0 :: b))
    omega

/-- **A NUL and a later byte of its line carried over: the byte is lost.**  The
read brings the newline of the line `k` and the front `w` of the next one. -/
theorem creadlineResults_damaged {k w d : List Byte} (hk : nl ∉ k) (hklen : k.length ≤ lineLimit)
    (hwd : nl ∉ w ++ d) (hwdlen : (w ++ d).length ≤ lineLimit) (hw : w ≠ []) {c : Chunk}
    (hc : c.bytes = nl :: w) {buffer : CreadlineBuf} (hbuf : buffer.nbytes = 0)
    (rest : List ReadRes) :
    creadlineResults libEnv 2 buffer
        (reads (singles k) ++ (.data c :: (reads (singles (d ++ [nl])) ++ rest)))
      = [lineResult k, lineResult (strncpy w w.length ++ d)] := by
  have hres : buffer.restored = [] := by simp [CreadlineBuf.restored, hbuf]
  obtain ⟨m, hm, -, hloop⟩ := readLoop_singles hk
    (.data c :: (reads (singles (d ++ [nl])) ++ rest)) (b := ⟨[], blockSize⟩)
    powSize_blockSize (Nat.zero_le _) (Nat.le_succ_of_le hklen)
  obtain ⟨m', -, hg⟩ := (growLinebuf_libEnv (b := ⟨k, m⟩) hm).resolve_right fun h => by
    simp only at h
    omega
  have hpos : strnpos c.bytes nl = some 0 := by rw [hc]; rfl
  have hexit : searchExit libEnv []
        (reads (singles k) ++ (.data c :: (reads (singles (d ++ [nl])) ++ rest)))
      = .newline (k ++ nl :: w) k.length (reads (singles (d ++ [nl])) ++ rest) := by
    rw [searchExit, show strnpos [] nl = none from rfl]
    simp only [hloop, readLoop, List.nil_append, hg, hpos, Nat.add_zero]
    rw [hc]
  have hfirst : creadlineR libEnv buffer
        (reads (singles k) ++ (.data c :: (reads (singles (d ++ [nl])) ++ rest)))
      = ⟨(stripCr k).length, some (stripCr k), ⟨strncpy w w.length, w.length⟩,
          reads (singles (d ++ [nl])) ++ rest⟩ := by
    rw [creadlineR_eq, hres, hexit]
    simp only [libEnv_malloc, if_true, takeLine_eq, if_neg hw]
  -- the next call restores the copy and reads the rest of the line
  have hcarry : CreadlineBuf.restored ⟨strncpy w w.length, w.length⟩ = strncpy w w.length := by
    have := restored_cons w (show (⟨[], 0⟩ : CreadlineBuf).nbytes = 0 from rfl)
    rwa [if_neg hw] at this
  have hnl : nl ∉ strncpy w w.length := not_mem_strncpy (fun h => hwd (by simp [h])) _
  have hexit' : searchExit libEnv (strncpy w w.length) (reads (singles (d ++ [nl])) ++ rest)
      = .newline (strncpy w w.length ++ d ++ [nl]) (strncpy w w.length ++ d).length rest := by
    rw [searchExit, strnpos_of_not_mem hnl]
    have hwlen : w.length ≤ blockSize := by
      have hle := c.le
      rw [hc, List.length_cons] at hle
      omega
    refine readLoop_singles_line (fun h => hwd (by simp [h])) powSize_blockSize ?_ ?_ rest
    · rwa [length_strncpy]
    · simpa only [List.length_append, length_strncpy] using hwdlen
  have hsecond : creadlineR libEnv ⟨strncpy w w.length, w.length⟩
        (reads (singles (d ++ [nl])) ++ rest)
      = ⟨(stripCr (strncpy w w.length ++ d)).length, some (stripCr (strncpy w w.length ++ d)),
          ⟨strncpy w w.length, 0⟩, rest⟩ := by
    rw [creadlineR_eq, hcarry, hexit']
    simp only [libEnv_malloc, if_true, takeLine_eq]
  simp only [creadlineResults, hfirst, hsecond, lineResult]

theorem not_segmentationFree_of_carry {s l : List Byte} {pre post : List (List Byte)}
    (hlim : ∀ l ∈ lines nl s, l.length ≤ lineLimit) {k : List Byte}
    (hs : lines nl s = pre ++ k :: l :: post) (hclear : SearchClear l) (hbad : ¬ CarryClear l) :
    ¬ SegmentationFree s := by
  obtain ⟨rest, hrest⟩ := exists_rest_of_lines
    (show lines nl s = (pre ++ [k]) ++ l :: post by simpa using hs)
  have hline : ∀ k ∈ lines nl s, nl ∉ k ∧ k.length ≤ lineLimit :=
    fun k hk => ⟨not_mem_of_mem_lines hk, hlim k hk⟩
  obtain ⟨hk, hklen⟩ := hline k (by simp [hs])
  obtain ⟨hl, hlen⟩ := hline l (by simp [hs])
  obtain ⟨w, d, rfl, hwlen, hcopy, hd⟩ : ∃ w d, l = w ++ d ∧ w.length ≤ blockSize - 1 ∧
      strncpy w w.length ≠ w ∧ d ≠ [] := by
    refine ⟨l.take (blockSize - 1), l.drop (blockSize - 1), by simp, List.length_take_le _ _,
      hbad, fun hd => hbad ?_⟩
    -- a short line has no NUL at all
    refine CarryClear.of_noNul (hclear.noNul ?_)
    have := List.drop_eq_nil_iff.mp hd
    simp only [blockSize] at this ⊢
    omega
  have hw : w ≠ [] := by
    rintro rfl
    exact hcopy rfl
  let c : Chunk := ⟨nl :: w, by simp, by
    simp only [List.length_cons, blockSize] at hwlen ⊢
    omega⟩
  have hsplit : s = (pre.map (· ++ [nl])).flatten ++ (k ++ nl :: (w ++ d ++ nl :: rest)) := by
    rw [hrest]
    simp
  rw [hsplit]
  refine not_segmentationFree_of_calls_ne (singles k ++ c :: singles (d ++ nl :: rest)) _
    (fun k' hk' => hline k' (by simp [hs, hk'])) ?_ (joined_singles _) 2 ?_
  · simp [joined_append, joined_cons, joined_singles, c]
  · intro b₁ b₂ hb₁ hb₂ heq
    obtain ⟨b₃, -, hsingle⟩ := creadlineResults_singles [k, w ++ d] b₂ hb₂
      (fun k' hk' => hline k' (by
        rcases List.mem_pair.mp hk' with rfl | rfl
        · simp [hs]
        · simp [hs])) 0 (reads (singles rest))
    have hcut₂ : reads (singles (k ++ nl :: (w ++ d ++ nl :: rest)))
        = reads (singles ([k, w ++ d].map (· ++ [nl])).flatten) ++ reads (singles rest) := by
      simp [reads, singles]
    have hcut₁ : reads (singles k ++ c :: singles (d ++ nl :: rest))
        = reads (singles k) ++ (.data c :: (reads (singles (d ++ [nl])) ++ reads (singles rest))) := by
      simp [reads, singles]
    rw [hcut₁, hcut₂, show (2 : Nat) = [k, w ++ d].length + 0 from rfl, hsingle] at heq
    have hdam := creadlineResults_damaged hk hklen hl hlen hw (c := c) rfl hb₁ (reads (singles rest))
    rw [show [k, w ++ d].length + 0 = 2 from rfl, hdam] at heq
    simp only [creadlineResults, List.map_cons, List.map_nil, List.append_nil, List.cons.injEq,
      lineResult, Prod.mk.injEq, Option.some.injEq, stripCr_append _ hd,
      List.append_cancel_right_eq, and_true, true_and] at heq
    exact hcopy heq.2

/-! ## What follows the last newline -/

/-- **Without a newline** the loop reads all there is, or between 64 MiB - 1023 and
64 MiB bytes. -/
theorem readLoop_gives_up :
    ∀ {input : List ReadRes} {b : Linebuf}, OnlyData input → PowSize b.size →
      b.bytes.length ≤ b.size → b.bytes.length ≤ lineLimit + blockSize →
      nl ∉ b.bytes ++ bytesOf input →
      let left := (bytesOf (readLoop libEnv input b).rest).length
      let all := (b.bytes ++ bytesOf input).length
      (all ≤ lineLimit ∧ left = 0) ∨
        (left + (lineLimit + 1) ≤ all ∧ all ≤ left + (lineLimit + blockSize))
  | [], b, _, hsize, hholds, hlen, _ => by
      simp only [bytesOf, List.append_nil, readLoop]
      rcases growLinebuf_holds hsize hholds with ⟨hle, n, -, -, hg⟩ | ⟨hlong, hg⟩
      · refine .inl ⟨hle, ?_⟩
        simp only [hg, atEof_rest]
        rfl
      · refine .inr ?_
        simp only [hg, LoopExit.rest, bytesOf, List.length_nil]
        omega
  | r :: input, b, hdata, hsize, hholds, hlen, hnl => by
      simp only [readLoop]
      rcases growLinebuf_holds hsize hholds with ⟨hle, n, hn, hfits, hg⟩ | ⟨hlong, hg⟩
      · simp only [hg]
        rcases hdata r (by simp) with rfl | ⟨c, rfl⟩
        · exact readLoop_gives_up (b := ⟨b.bytes, n⟩) hdata.tail hn (by dsimp only; omega) hlen hnl
        · have hc : nl ∉ c.bytes := fun h => hnl (by simp [bytesOf, h])
          have hcle := c.le
          have hfits₁ : (b.bytes ++ c.bytes).length ≤ n := by
            rw [List.length_append]
            omega
          have hlen₁ : (b.bytes ++ c.bytes).length ≤ lineLimit + blockSize := by
            rw [List.length_append]
            omega
          have ih := readLoop_gives_up (b := ⟨b.bytes ++ c.bytes, n⟩) hdata.tail hn hfits₁ hlen₁
            (by rwa [List.append_assoc])
          simpa only [strnpos_of_not_mem hc, bytesOf, List.append_assoc] using ih
      · refine .inr ?_
        simp only [hg, LoopExit.rest, List.length_append]
        omega

theorem creadlineR_gives_up {buffer : CreadlineBuf} {input : List ReadRes} (hdata : OnlyData input)
    (hlen : buffer.restored.length ≤ blockSize) (hnl : nl ∉ buffer.restored ++ bytesOf input) :
    ∃ ret buffer' rest, creadlineR libEnv buffer input = ⟨ret, none, buffer', rest⟩ ∧
      ret = (if buffer.restored ++ bytesOf input = [] then 0 else -1) ∧
      buffer'.restored = [] ∧ OnlyData rest ∧ nl ∉ bytesOf rest ∧
      (((buffer.restored ++ bytesOf input).length ≤ lineLimit ∧ (bytesOf rest).length = 0) ∨
        ((bytesOf rest).length + (lineLimit + 1) ≤ (buffer.restored ++ bytesOf input).length ∧
          (buffer.restored ++ bytesOf input).length
            ≤ (bytesOf rest).length + (lineLimit + blockSize))) := by
  obtain ⟨hdst, hret⟩ := creadlineR_at_end hdata hnl
  have hsuffix := creadlineR_rest libEnv buffer input
  have hc : nl ∉ buffer.restored := fun h => hnl (by simp [h])
  have hx : searchExit libEnv buffer.restored input
      = readLoop libEnv input ⟨buffer.restored, blockSize⟩ := by
    simp only [searchExit, strnpos_of_not_mem hc]
  have hleft := readLoop_gives_up (b := ⟨buffer.restored, blockSize⟩) hdata powSize_blockSize hlen
    (hlen.trans (Nat.le_add_left _ _)) hnl
  have hcall : (creadlineR libEnv buffer input).rest = (searchExit libEnv buffer.restored input).rest ∧
      (creadlineR libEnv buffer input).buffer.restored = [] := by
    rw [creadlineR_eq] at hdst ⊢
    simp only [libEnv_malloc, if_true] at hdst ⊢
    cases h : searchExit libEnv buffer.restored input with
    | newline lb p rest => simp [h, takeLine] at hdst
    | eof rest => exact ⟨rfl, rfl⟩
    | error rest => exact ⟨rfl, rfl⟩
  refine ⟨_, _, _, ?_, hret, hcall.2, fun r hr => hdata r (hsuffix.subset hr), ?_, ?_⟩
  · rw [← hdst]
  · obtain ⟨front, hfront⟩ := hsuffix
    intro hmem
    refine hnl (List.mem_append_right _ ?_)
    rw [← hfront, bytesOf_append]
    exact List.mem_append_right _ hmem
  · rw [hcall.1, hx]
    exact hleft

theorem take_append_replicate {α : Type*} (l : List α) (a : α) (n : Nat) :
    (l ++ List.replicate (n + 1) a).take n = (l ++ List.replicate n a).take n := by
  rw [List.replicate_succ', ← List.append_assoc, List.take_append_of_le_length]
  simp

/-- **However the rest is cut**, the calls that give it up are the same, and what follows
is the end of the stream. -/
theorem creadlineResults_at_end (n : Nat) {q : Nat} {buffer : CreadlineBuf} {input : List ReadRes}
    (hdata : OnlyData input) (hlen : buffer.restored.length ≤ blockSize)
    (hnl : nl ∉ buffer.restored ++ bytesOf input)
    (hup : (buffer.restored ++ bytesOf input).length ≤ q * (lineLimit + 1))
    (hlow : q * (lineLimit + blockSize)
      < (buffer.restored ++ bytesOf input).length + (lineLimit + blockSize)) :
    creadlineResults libEnv n buffer input
      = (List.replicate q (-1, none) ++ List.replicate n (0, none)).take n := by
  induction n generalizing q buffer input with
  | zero => rfl
  | succ n ih =>
      obtain ⟨ret, buffer', rest, hcall, hret, hbuf', hdata', hnl', hleft⟩ :=
        creadlineR_gives_up hdata hlen hnl
      have hrec : ∀ (q' : Nat), (bytesOf rest).length ≤ q' * (lineLimit + 1) →
          q' * (lineLimit + blockSize) < (bytesOf rest).length + (lineLimit + blockSize) →
          creadlineResults libEnv n buffer' rest
            = (List.replicate q' (-1, none) ++ List.replicate n (0, none)).take n := by
        intro q' hup' hlow'
        exact ih hdata' (by simp [hbuf']) (by simpa [hbuf'] using hnl') (by simpa [hbuf'] using hup')
          (by simpa [hbuf'] using hlow')
      have hblock : 0 < blockSize := by decide
      simp only [creadlineResults, hcall]
      cases q with
      | zero =>
          have hnil : buffer.restored ++ bytesOf input = [] :=
            List.eq_nil_of_length_eq_zero (by omega)
          rw [hnil, List.length_nil] at hleft
          rw [hret, if_pos hnil, hrec 0 (by omega) (by omega)]
          simp [List.replicate_succ]
      | succ q =>
          rw [Nat.succ_mul] at hup hlow
          have hne : buffer.restored ++ bytesOf input ≠ [] := by
            intro hnil
            rw [hnil, List.length_nil] at hlow
            omega
          rw [hret, if_neg hne, hrec q (by omega) (by omega), List.replicate_succ,
            List.cons_append, List.take_succ_cons, take_append_replicate]

theorem tame_results (n : Nat) {q : Nat} {buffer : CreadlineBuf} {input : List ReadRes}
    (hdata : OnlyData input) (hlen : buffer.restored.length ≤ blockSize)
    (hsearch : ∀ l ∈ lines nl (buffer.restored ++ bytesOf input),
      SearchClear l ∧ l.length ≤ lineLimit)
    (hcarry : ∀ l ∈ (lines nl (buffer.restored ++ bytesOf input)).tail, CarryClear l)
    (hup : (unfinished nl (buffer.restored ++ bytesOf input)).length ≤ q * (lineLimit + 1))
    (hlow : q * (lineLimit + blockSize)
      < (unfinished nl (buffer.restored ++ bytesOf input)).length + (lineLimit + blockSize)) :
    creadlineResults libEnv n buffer input
      = ((lines nl (buffer.restored ++ bytesOf input)).map lineResult
          ++ List.replicate q (-1, none) ++ List.replicate n (0, none)).take n := by
  induction n generalizing buffer input with
  | zero => rfl
  | succ n ih =>
      rcases line_cases nl (buffer.restored ++ bytesOf input) with hnl | ⟨l, v, heq, hl⟩
      · rw [unfinished_of_not_mem hnl] at hup hlow
        rw [creadlineResults_at_end (n + 1) hdata hlen hnl hup hlow, lines_of_not_mem hnl]
        rfl
      · obtain ⟨buffer', rest, hcall, hdata', hlen', hlines, hrest⟩ :=
          tame_call hdata hlen hsearch hcarry heq hl
        rw [heq, lines_cons_line hl] at hsearch hcarry
        rw [heq, unfinished_cons_line hl, ← hrest] at hup hlow
        have hnext := ih hdata' hlen'
          (by rw [hlines]; exact fun k hk => hsearch k (by simp [hk]))
          (by rw [hlines]; exact fun k hk => hcarry k (by simpa using List.mem_of_mem_tail hk))
          hup hlow
        rw [creadlineResults, hcall]
        simp only [hnext]
        rw [heq, lines_cons_line hl, hlines, List.map_cons, List.cons_append, List.cons_append,
          List.take_succ_cons, take_append_replicate]
        rfl

/-! ## Two cuts of the rest -/

theorem creadlineR_full (cs : List Chunk) (hnl : nl ∉ joined cs)
    (hroom : ∀ cs₁ c cs₂, cs = cs₁ ++ c :: cs₂ → (joined cs₁).length ≤ lineLimit)
    (hfull : lineLimit < (joined cs).length) {buffer : CreadlineBuf} (hbuf : buffer.nbytes = 0)
    (input : List ReadRes) :
    creadlineR libEnv buffer (reads cs ++ input)
      = ⟨-1, none, { buffer with nbytes := 0 }, input⟩ := by
  have hres : buffer.restored = [] := by simp [CreadlineBuf.restored, hbuf]
  obtain ⟨n, hn, hfits, hloop⟩ := readLoop_reads input cs (b := ⟨[], blockSize⟩) hnl powSize_blockSize
    (Nat.zero_le _) hroom
  obtain ⟨-, hg⟩ := (growLinebuf_holds (b := ⟨joined cs, n⟩) hn hfits).resolve_left
    fun h => by simp only at h; omega
  have hend : readLoop libEnv input ⟨joined cs, n⟩ = .error input := by
    cases input <;> simp only [readLoop, hg]
  have hexit : searchExit libEnv [] (reads cs ++ input) = .error input := by
    rw [searchExit, show strnpos [] nl = none from rfl]
    exact hloop.trans hend
  rw [creadlineR_eq, hres, hexit]
  simp only [libEnv_malloc, if_true]

/-- Byte by byte a call gives up as little as it can. -/
theorem creadlineResults_singles_rest (q : Nat) {t : List Byte} (hnl : nl ∉ t)
    (hlong : q * (lineLimit + 1) < t.length) {buffer : CreadlineBuf} (hbuf : buffer.nbytes = 0) :
    (creadlineResults libEnv (q + 1) buffer (reads (singles t)))[q]? = some (-1, none) := by
  have hres : buffer.restored = [] := by simp [CreadlineBuf.restored, hbuf]
  induction q generalizing t buffer with
  | zero =>
      have hbytes : buffer.restored ++ bytesOf (reads (singles t)) = t := by
        rw [hres, bytesOf_reads, joined_singles, List.nil_append]
      have hne : t ≠ [] := List.ne_nil_of_length_pos (by omega)
      obtain ⟨hdst, hret⟩ := @creadlineR_at_end buffer _ (onlyData_reads (singles t))
        (by rwa [hbytes])
      rw [hbytes, if_neg hne] at hret
      simp [creadlineResults, hdst, hret]
  | succ q ih =>
      rw [Nat.succ_mul] at hlong
      have hcut : reads (singles t) = reads (singles (t.take (lineLimit + 1)))
          ++ reads (singles (t.drop (lineLimit + 1))) := by
        conv => lhs; rw [← List.take_append_drop (lineLimit + 1) t]
        simp only [singles, reads, List.map_append]
      have hlen : (t.take (lineLimit + 1)).length = lineLimit + 1 := by
        rw [List.length_take]
        omega
      have hfirst := creadlineR_full (singles (t.take (lineLimit + 1)))
        (by rw [joined_singles]; exact fun h => hnl (List.mem_of_mem_take h)) ?_
        (by rw [joined_singles, hlen]; omega) hbuf (reads (singles (t.drop (lineLimit + 1))))
      · rw [hcut, creadlineResults, hfirst, List.getElem?_cons_succ]
        exact ih (fun h => hnl (List.mem_of_mem_drop h)) (by rw [List.length_drop]; omega) rfl rfl
      · intro cs₁ c cs₂ hcs
        have hjoin := congrArg (fun cs => (joined cs).length) hcs
        have hpos : 0 < c.bytes.length := List.length_pos_iff.mpr c.ne_nil
        simp only [joined_singles, joined_append, joined_cons, List.length_append, hlen] at hjoin
        omega

/-- In some cut a call gives up as much as it can. -/
theorem exists_creadlineResults_rest (q : Nat) {t : List Byte} (hnl : nl ∉ t)
    (hshort : t.length ≤ q * (lineLimit + blockSize)) :
    ∃ cs, joined cs = t ∧ ∀ buffer : CreadlineBuf, buffer.nbytes = 0 →
      (creadlineResults libEnv (q + 1) buffer (reads cs))[q]? = some (0, none) := by
  have hsmall : ∀ {q : Nat} {t : List Byte}, nl ∉ t → t.length ≤ lineLimit + 1 →
      (t = [] ∨ 0 < q) → ∀ buffer : CreadlineBuf, buffer.nbytes = 0 →
        (creadlineResults libEnv (q + 1) buffer (reads (singles t)))[q]? = some (0, none) := by
    intro q t hnl hle hq buffer hbuf
    have hres : buffer.restored = [] := by simp [CreadlineBuf.restored, hbuf]
    have hbytes : buffer.restored ++ bytesOf (reads (singles t)) = t := by
      rw [hres, bytesOf_reads, joined_singles, List.nil_append]
    have hblock : 0 < blockSize := by decide
    by_cases hnil : t = []
    · rw [creadlineResults_at_end (q + 1) (q := 0) (onlyData_reads _) (by simp [hres])
        (by rwa [hbytes]) (by rw [hbytes, hnil]; simp) (by rw [hbytes, Nat.zero_mul]; omega)]
      simp
    · have hpos : 0 < t.length := List.length_pos_iff.mpr hnil
      rw [creadlineResults_at_end (q + 1) (q := 1) (onlyData_reads _) (by simp [hres])
        (by rwa [hbytes]) (by rw [hbytes]; omega) (by rw [hbytes]; omega)]
      obtain ⟨q, rfl⟩ := Nat.exists_eq_succ_of_ne_zero (hq.resolve_left hnil).ne'
      simp
  induction q generalizing t with
  | zero =>
      obtain rfl : t = [] := List.eq_nil_of_length_eq_zero (by omega)
      exact ⟨singles [], joined_singles [], hsmall hnl (by simp) (.inl rfl)⟩
  | succ q ih =>
      rcases Nat.lt_or_ge lineLimit t.length with hlong | hle
      · rw [Nat.succ_mul] at hshort
        obtain ⟨cs, hcs, hrest⟩ := ih (t := t.drop (lineLimit + blockSize))
          (fun h => hnl (List.mem_of_mem_drop h)) (by rw [List.length_drop]; omega)
        have hblock : 0 < blockSize := by decide
        -- all but the last read bring one byte, and the last one as many as it can
        let c : Chunk := ⟨(t.drop lineLimit).take blockSize, by
          refine List.ne_nil_of_length_pos ?_
          rw [List.length_take, List.length_drop]
          omega, List.length_take_le _ _⟩
        have hfront : joined (singles (t.take lineLimit) ++ [c]) = t.take (lineLimit + blockSize) := by
          rw [joined_append, joined_singles, List.take_add]
          simp [joined, c]
        refine ⟨singles (t.take lineLimit) ++ [c] ++ cs, ?_, ?_⟩
        · rw [joined_append, hfront, hcs, List.take_append_drop]
        · intro buffer hbuf
          have hfirst := creadlineR_full (singles (t.take lineLimit) ++ [c])
            (by rw [hfront]; exact fun h => hnl (List.mem_of_mem_take h)) ?_
            (by rw [hfront, List.length_take]; omega) hbuf (reads cs)
          · rw [reads_append, creadlineResults, hfirst, List.getElem?_cons_succ]
            exact hrest _ rfl
          · intro cs₁ c' cs₂ hsplit
            have hjoin := congrArg (fun cs => (joined cs.dropLast).length) hsplit
            rw [List.dropLast_concat, joined_singles, List.length_take,
              List.dropLast_append_of_ne_nil (List.cons_ne_nil c' cs₂), joined_append,
              List.length_append] at hjoin
            omega
      · exact ⟨singles t, joined_singles t, hsmall hnl (Nat.le_succ_of_le hle) (.inr q.succ_pos)⟩

theorem not_segmentationFree_of_rest {s : List Byte} (hlim : ∀ l ∈ lines nl s, l.length ≤ lineLimit)
    (hbad : ¬ RestClear (unfinished nl s)) : ¬ SegmentationFree s := by
  have hnl : nl ∉ unfinished nl s := not_mem_unfinished s
  obtain ⟨q, hlong, hshort⟩ : ∃ q, q * (lineLimit + 1) < (unfinished nl s).length ∧
      (unfinished nl s).length ≤ q * (lineLimit + blockSize) := by
    refine ⟨givenUp (unfinished nl s).length (lineLimit + blockSize), ?_⟩
    simp only [RestClear, givenUp, lineLimit, blockSize] at hbad ⊢
    omega
  obtain ⟨cs, hcs, hrest⟩ := exists_creadlineResults_rest q hnl hshort
  have hne := @not_segmentationFree_of_calls_ne (lines nl s) (unfinished nl s)
    (singles (unfinished nl s)) cs (fun k hk => ⟨not_mem_of_mem_lines hk, hlim k hk⟩)
    (joined_singles _) hcs (q + 1) ?_
  · rwa [join_lines] at hne
  · intro b₁ b₂ hb₁ hb₂ heq
    have hindex := congrArg (·[q]?) heq
    simp only [creadlineResults_singles_rest q hnl hlong hb₁, hrest b₂ hb₂] at hindex
    cases hindex

/-- **The results are the same for every segmentation, and every line is delivered
as it was sent, exactly if** no line has a NUL in the bytes that can arrive
together with its newline, no line but the first has a non-NUL byte behind a
NUL in the bytes that can be carried over, and what follows the lines is given up
by the same number of calls in any case. -/
theorem segmentation_iff {s : List Byte} (hlim : ∀ l ∈ lines nl s, l.length ≤ lineLimit) :
    (SegmentationFree s ∧ LinesIntact s) ↔
      (∀ l ∈ lines nl s, SearchClear l) ∧ (∀ l ∈ (lines nl s).tail, CarryClear l) ∧
        RestClear (unfinished nl s) := by
  constructor
  · rintro ⟨hfree, -⟩
    have hsearch : ∀ l ∈ lines nl s, SearchClear l := by
      intro l hl
      by_contra hbad
      obtain ⟨pre, post, hs⟩ := List.append_of_mem hl
      exact not_segmentationFree_of_search hlim hs hbad hfree
    refine ⟨hsearch, ?_, ?_⟩
    · intro l hl
      by_contra hbad
      obtain ⟨pre, post, hs⟩ := List.append_of_mem hl
      cases hlines : lines nl s with
      | nil => simp [hlines] at hl
      | cons k₀ ls =>
          rw [hlines, List.tail_cons] at hs
          have hclear := hsearch l (List.mem_of_mem_tail hl)
          -- the line in front of `l` is the one whose read carries the front of `l`
          rcases List.eq_nil_or_concat pre with rfl | ⟨pre', k, rfl⟩
          · exact not_segmentationFree_of_carry hlim
              (show lines nl s = [] ++ k₀ :: l :: post by simpa [hlines] using hs) hclear hbad hfree
          · exact not_segmentationFree_of_carry hlim
              (show lines nl s = (k₀ :: pre') ++ k :: l :: post by simp [hlines, hs]) hclear hbad
              hfree
    · by_contra hbad
      exact not_segmentationFree_of_rest hlim hbad hfree
  · rintro ⟨hsearch, hcarry, hrest⟩
    obtain ⟨q, hq⟩ : ∃ q, q = givenUp (unfinished nl s).length (lineLimit + 1) := ⟨_, rfl⟩
    have hall : ∀ c : List Chunk, joined c = s → ∀ (n : Nat) (buffer : CreadlineBuf),
        buffer.nbytes = 0 → creadlineResults libEnv n buffer (reads c)
          = ((lines nl s).map lineResult ++ List.replicate q (-1, none)
              ++ List.replicate n (0, none)).take n := by
      intro c hc n buffer hbuf
      have hbytes : buffer.restored ++ bytesOf (reads c) = s := by
        simp [CreadlineBuf.restored, hbuf, bytesOf_reads, hc]
      have hresults := tame_results n (q := q) (onlyData_reads c)
        (show buffer.restored.length ≤ blockSize by simp [CreadlineBuf.restored, hbuf])
      rw [hbytes] at hresults
      refine hresults (fun l hl => ⟨hsearch l hl, hlim l hl⟩) hcarry ?_ ?_
      · simp only [RestClear, givenUp, lineLimit, blockSize] at hrest hq ⊢
        omega
      · simp only [RestClear, givenUp, lineLimit, blockSize] at hrest hq ⊢
        omega
    refine ⟨fun c₁ c₂ h₁ h₂ n buffer hbuf => ?_, fun c hc n buffer hbuf => ?_⟩
    · rw [hall c₁ h₁ n buffer hbuf, hall c₂ h₂ n buffer hbuf]
    · rw [hall c hc n buffer hbuf, streamResults]
      cases n with
      | zero => simp
      | succ n =>
          refine List.IsPrefix.take ?_ (n + 1)
          rw [List.append_assoc, List.prefix_append_right_inj]
          by_cases hnil : unfinished nl s = []
          · obtain rfl : q = 0 := by
              rw [hq, hnil]
              rfl
            simp [endResult, hnil, List.replicate_succ]
          · have hpos : 0 < (unfinished nl s).length := List.length_pos_iff.mpr hnil
            obtain ⟨q, rfl⟩ : ∃ q', q = q' + 1 := by
              refine Nat.exists_eq_succ_of_ne_zero ?_
              simp only [givenUp, lineLimit, blockSize] at hq
              omega
            simp [endResult, hnil, List.replicate_succ]

/-- `"a\n\0b"`: a NUL behind the last newline does no harm. -/
theorem segmentation_iff_rest :
    SegmentationFree [97, 10, 0, 98] ∧ LinesIntact [97, 10, 0, 98] :=
  (segmentation_iff (s := [97, 10, 0, 98]) (by decide)).mpr (by decide)

/-- `"a\0b\n"` in one read is an unfinished line, byte by byte it is a line. -/
theorem not_segmentation_nul : ¬ ∀ s : List Byte,
    (∀ l ∈ lines nl s, l.length ≤ lineLimit) → SegmentationFree s ∧ LinesIntact s := by
  intro h
  have := (h [97, 0, 98, 10] (by decide)).1
    [⟨[97, 0, 98, 10], by decide, by decide⟩] (singles [97, 0, 98, 10]) (by decide) (by decide)
    1 ⟨[], 0⟩ rfl
  exact absurd this (by decide)

end Libjapi
