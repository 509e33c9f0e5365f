/-
# `Libjapi.Creadline` — `creadline.c`: one line from a descriptor, any segmentation

`creadlineR` is `creadline_r` of `src/creadline.c`.  A descriptor is the list of
results its future `read()` calls give (`ReadRes`); a descriptor whose list is
used up is at end of file.  The `while (nl_pos < 0)` loop is `readLoop`, a
recursion on that list, since each turn performs one `read()`.

Everything the later modules need is one statement about a call,
`creadlineR_spec`: with `Clear` bytes pending (no NUL in the 1023 bytes before
a line's newline), a call that delivers a line delivers exactly the first
pending one, and what stays pending is what followed its newline, up to the
effect of `strncpy` on the carried-over part.  `creadlineR_delivers` says when
a line is delivered.
-/
import Libjapi.CString
import Libjapi.Lines

namespace Libjapi

/-! ## The code -/

/-- `CREADLINE_BLOCK_SIZE`. -/
def blockSize : Nat := 1024

/-- `'\n'`. -/
def nl : Byte := 10

/-- `'\r'`. -/
def cr : Byte := 13

/-- The bytes one successful `read()` of up to `CREADLINE_BLOCK_SIZE` bytes returns. -/
structure Chunk where
  bytes : List Byte
  ne_nil : bytes ≠ []
  le : bytes.length ≤ blockSize

/-- The result of one `read()`. -/
inductive ReadRes where
  | data (c : Chunk)
  | eof
  | eintr
  | error

/-- What a call of `creadline_r` is compiled and run with: `__MAX_LINEBUF_SIZE__`,
and whether the allocator grants a request of a given size. -/
structure CreadlineEnv where
  maxLinebufSize : Int
  malloc : Nat → Bool

/-- `creadline_buf_t`: `buf` holds the bytes last copied into the array. -/
structure CreadlineBuf where
  buf : List Byte
  nbytes : Nat
  deriving DecidableEq

/-- The position of the first `c`, unless a NUL comes before it. -/
def strnpos : List Byte → Byte → Option Nat
  | [], _ => none
  | b :: s, c =>
      if b = c then some 0
      else if b = 0 then none
      else (strnpos s c).map (· + 1)

/-- `linebuf`: the bytes read so far (`linebuf_nbytes` of them) and the
allocated size. -/
structure Linebuf where
  bytes : List Byte
  size : Nat

/-- "Check if there is enough space left to call read again." -/
def growLinebuf (env : CreadlineEnv) (b : Linebuf) : Option Linebuf :=
  if b.bytes.length + blockSize > b.size then
    let newLinebufSize := toInt32 (2 * b.size)
    if newLinebufSize > env.maxLinebufSize then none
    else if env.malloc (toSizeT newLinebufSize) then some { b with size := toSizeT newLinebufSize }
    else none
  else some b

/-- How the `while (nl_pos < 0)` loop is left: with a newline at `nlPos` of
`linebuf`, through the EOF branch that returns 0, or to `error_free`. -/
inductive LoopExit where
  | newline (linebuf : List Byte) (nlPos : Nat) (rest : List ReadRes)
  | eof (rest : List ReadRes)
  | error (rest : List ReadRes)

/-- The input the loop did not read. -/
def LoopExit.rest : LoopExit → List ReadRes
  | .newline _ _ rest | .eof rest | .error rest => rest

/-- `read()` returned 0: an error unless the line buffer is empty. -/
def atEof (b : Linebuf) (rest : List ReadRes) : LoopExit :=
  if b.bytes.length = 0 then .eof rest else .error rest

/-- The loop.  Each turn makes room for a block, then reads once. -/
def readLoop (env : CreadlineEnv) : List ReadRes → Linebuf → LoopExit
  | [], b =>
      match growLinebuf env b with
      | none => .error []
      | some b => atEof b []
  | r :: rest, b =>
      match growLinebuf env b with
      | none => .error (r :: rest)
      | some b =>
          match r with
          | .eintr => readLoop env rest b -- `continue`: EINTR is not an error
          | .error => .error rest
          | .eof => atEof b rest
          | .data c =>
              match strnpos c.bytes nl with
              | some p => .newline (b.bytes ++ c.bytes) (b.bytes.length + p) rest
              | none => readLoop env rest { b with bytes := b.bytes ++ c.bytes }

/-- What a call leaves behind: the return value, `*dst` (the bytes before the
terminating `'\0'`, or `NULL`), the caller's buffer and the unread input. -/
structure Creadline where
  ret : Int
  dst : Option (List Byte)
  buffer : CreadlineBuf
  rest : List ReadRes

/-- The part of the function after the loop: keep what follows the newline,
drop a `'\r'` in front of it, terminate the string. -/
def takeLine (buffer : CreadlineBuf) (linebuf : List Byte) (nlPos : Nat) (rest : List ReadRes) :
    Creadline :=
  let remNbytes := linebuf.length - nlPos - 1
  let buffer :=
    if remNbytes > 0 then ⟨strncpy (linebuf.drop (nlPos + 1)) remNbytes, remNbytes⟩ else buffer
  let nlPos := if nlPos > 0 ∧ linebuf[nlPos - 1]? = some cr then nlPos - 1 else nlPos
  { ret := nlPos, dst := some (linebuf.take nlPos), buffer, rest }

/-- "Restore remaining characters from the last call". -/
def CreadlineBuf.restored (buffer : CreadlineBuf) : List Byte :=
  if buffer.nbytes ≠ 0 then strncpy buffer.buf buffer.nbytes else []

/-- `creadline_r`. -/
def creadlineR (env : CreadlineEnv) (buffer : CreadlineBuf) (input : List ReadRes) : Creadline :=
  if env.malloc blockSize then
    let linebuf := buffer.restored
    let buffer := { buffer with nbytes := 0 }
    let exit : LoopExit :=
      match strnpos linebuf nl with
      | some p => .newline linebuf p input
      | none => readLoop env input ⟨linebuf, blockSize⟩
    match exit with
    | .newline linebuf nlPos rest => takeLine buffer linebuf nlPos rest
    | .eof rest => { ret := 0, dst := none, buffer, rest }
    | .error rest => { ret := -1, dst := none, buffer, rest }
  else
    { ret := -1, dst := none, buffer, rest := input }

/-- Repeated calls with one buffer, up to the first that delivers no line: at
most `n` results. -/
def creadlineCalls (env : CreadlineEnv) :
    Nat → CreadlineBuf → List ReadRes → List (Int × Option (List Byte))
  | 0, _, _ => []
  | n + 1, buffer, input =>
      let r := creadlineR env buffer input
      (r.ret, r.dst) ::
        if r.dst.isSome then creadlineCalls env n r.buffer r.rest else []

/-- `n` calls with one buffer, whatever they deliver. -/
def creadlineResults (env : CreadlineEnv) :
    Nat → CreadlineBuf → List ReadRes → List (Int × Option (List Byte))
  | 0, _, _ => []
  | n + 1, buffer, input =>
      let r := creadlineR env buffer input
      (r.ret, r.dst) :: creadlineResults env n r.buffer r.rest

/-! ## The newline search -/

theorem strnpos_of_line {u : List Byte} (hu : nl ∉ u) (h0 : (0 : Byte) ∉ u) (v : List Byte) :
    strnpos (u ++ nl :: v) nl = some u.length := by
  induction u with
  | nil => simp [strnpos]
  | cons b u ih =>
      have hb : b ≠ nl := fun h => hu (by simp [h])
      have hb0 : b ≠ 0 := fun h => h0 (by simp [h])
      have hu' : nl ∉ u := fun h => hu (by simp [h])
      have h0' : (0 : Byte) ∉ u := fun h => h0 (by simp [h])
      simp [strnpos, hb, hb0, ih hu' h0']

theorem strnpos_of_not_mem {s : List Byte} (hs : nl ∉ s) : strnpos s nl = none := by
  induction s with
  | nil => rfl
  | cons b s ih =>
      have hb : b ≠ nl := fun h => hs (by simp [h])
      have hs' : nl ∉ s := fun h => hs (by simp [h])
      simp [strnpos, hb, ih hs']

/-- A NUL hides every newline behind it. -/
theorem strnpos_of_nul {u : List Byte} (hu : nl ∉ u) (v : List Byte) :
    strnpos (u ++ 0 :: v) nl = none := by
  induction u with
  | nil => simp [strnpos, nl]
  | cons b u ih =>
      have hb : b ≠ nl := fun h => hu (by simp [h])
      have hu' : nl ∉ u := fun h => hu (by simp [h])
      simp [strnpos, hb, ih hu']

theorem strnpos_eq_some {s : List Byte} {p : Nat} (h : strnpos s nl = some p) :
    ∃ u v, s = u ++ nl :: v ∧ u.length = p ∧ nl ∉ u := by
  induction s generalizing p with
  | nil => simp [strnpos] at h
  | cons b s ih =>
      simp only [strnpos] at h
      split at h
      · rename_i hb
        cases h
        exact ⟨[], s, by simp [hb], rfl, by simp⟩
      · rename_i hb
        split at h
        · cases h
        · obtain ⟨q, hq, rfl⟩ := Option.map_eq_some_iff.mp h
          obtain ⟨u, v, rfl, hlen, hu⟩ := ih hq
          exact ⟨b :: u, v, rfl, by simp [hlen], by simp [hu, Ne.symm hb]⟩

/-! ## Bytes pending on a descriptor -/

/-- The bytes the reads will return. -/
def bytesOf : List ReadRes → List Byte
  | [] => []
  | .data c :: rest => c.bytes ++ bytesOf rest
  | _ :: rest => bytesOf rest

/-- No read fails and none reports EOF: only data and interruptions. -/
def OnlyData (input : List ReadRes) : Prop :=
  ∀ r ∈ input, r = .eintr ∨ ∃ c, r = .data c

theorem OnlyData.tail {r : ReadRes} {rest : List ReadRes} (h : OnlyData (r :: rest)) :
    OnlyData rest := fun r' hr' => h r' (by simp [hr'])

/-- No NUL in the `CREADLINE_BLOCK_SIZE - 1` bytes that end the line: the read
that brings the line's newline brings no NUL of the line with it. -/
def SearchClear (l : List Byte) : Prop :=
  (0 : Byte) ∉ l.drop (l.length - (blockSize - 1))

instance (l : List Byte) : Decidable (SearchClear l) := inferInstanceAs (Decidable (¬ _))

/-- The first pending line, if there is one, is `SearchClear`. -/
def Clear (pending : List Byte) : Prop :=
  ∀ l v, pending = l ++ nl :: v → nl ∉ l → SearchClear l

theorem SearchClear.of_noNul {l : List Byte} (h : (0 : Byte) ∉ l) : SearchClear l :=
  fun h' => h (List.mem_of_mem_drop h')

theorem Clear.of_noNul {pending : List Byte} (h : (0 : Byte) ∉ pending) : Clear pending := by
  rintro l v rfl -
  exact SearchClear.of_noNul fun h' => h (by simp [h'])

theorem clear_iff_lines {pending : List Byte} :
    Clear pending ↔ ∀ l ∈ (lines nl pending).head?, SearchClear l := by
  rcases line_cases nl pending with h | ⟨l, s, rfl, hl⟩
  · simp only [lines_of_not_mem h, List.head?_nil, Option.mem_def, reduceCtorEq, false_imp_iff,
      implies_true, iff_true]
    rintro l v rfl
    simp at h
  · simp only [lines_cons_line hl, List.head?_cons, Option.mem_def, Option.some.injEq,
      forall_eq']
    constructor
    · exact fun h => h l s rfl hl
    · intro h l' v heq hl'
      have := congrArg (lines nl) heq
      rw [lines_cons_line hl, lines_cons_line hl'] at this
      exact (List.cons.inj this).1 ▸ h

/-- With clear bytes pending, a block in which the search finds no newline has none. -/
theorem Clear.not_mem_of_strnpos {b c s : List Byte} (h : Clear (b ++ (c ++ s))) (hb : nl ∉ b)
    (hc : c.length ≤ blockSize) (hpos : strnpos c nl = none) : nl ∉ c := by
  intro hmem
  obtain ⟨u, v, rfl, hu⟩ := List.eq_append_cons_of_mem hmem
  have hclear : SearchClear (b ++ u) := h (b ++ u) (v ++ s) (by simp) (by simp [hb, hu])
  have hlen : u.length ≤ blockSize - 1 := by
    simp only [List.length_append, List.length_cons] at hc
    omega
  have h0 : (0 : Byte) ∉ u := by
    intro h0
    refine hclear ?_
    rw [List.drop_append_of_le_length (by simp; omega)]
    simp [h0]
  rw [strnpos_of_line hu h0] at hpos
  cases hpos

/-! ## The loop -/

theorem growLinebuf_bytes {env : CreadlineEnv} {b b' : Linebuf}
    (h : growLinebuf env b = some b') : b'.bytes = b.bytes := by
  unfold growLinebuf at h
  split at h
  · dsimp only at h
    split at h
    · cases h
    · split at h
      · cases h; rfl
      · cases h
  · cases h; rfl

theorem atEof_ne_newline (b : Linebuf) (rest : List ReadRes) {linebuf : List Byte} {nlPos : Nat}
    {rest' : List ReadRes} : atEof b rest ≠ .newline linebuf nlPos rest' := by
  unfold atEof
  split <;> simp

/-- **What the loop returns with a newline.**  The first line of the pending
bytes is in front of the newline, and less than a block follows it. -/
theorem readLoop_newline {env : CreadlineEnv} {lb : List Byte} {p : Nat} {rest : List ReadRes} :
    ∀ {input : List ReadRes} {b : Linebuf}, nl ∉ b.bytes → Clear (b.bytes ++ bytesOf input) →
      readLoop env input b = .newline lb p rest →
      ∃ l w, lb = l ++ nl :: w ∧ l.length = p ∧ nl ∉ l ∧ w.length < blockSize ∧
        b.bytes ++ bytesOf input = lb ++ bytesOf rest
  | [], b, _, _, h => by
      simp only [readLoop] at h
      cases hg : growLinebuf env b with
      | none => simp [hg] at h
      | some b' =>
          simp only [hg] at h
          exact absurd h (atEof_ne_newline _ _)
  | r :: input, b, hb, hclear, h => by
      simp only [readLoop] at h
      cases hg : growLinebuf env b with
      | none => simp [hg] at h
      | some b' =>
          have hbytes := growLinebuf_bytes hg
          simp only [hg] at h
          cases r with
          | eintr =>
              rw [← hbytes] at hb hclear ⊢
              have hloop : readLoop env input b' = .newline lb p rest := h
              have hclear' : Clear (b'.bytes ++ bytesOf input) := hclear
              have := readLoop_newline hb hclear' hloop
              exact this
          | error => cases h
          | eof => exact absurd h (atEof_ne_newline _ _)
          | data c =>
              simp only [hbytes] at h
              simp only [bytesOf] at hclear ⊢
              cases hpos : strnpos c.bytes nl with
              | some q =>
                  simp only [hpos] at h
                  cases h
                  obtain ⟨u, v, hc, rfl, hu⟩ := strnpos_eq_some hpos
                  refine ⟨b.bytes ++ u, v, by simp [hc], by simp, by simp [hb, hu], ?_, by simp⟩
                  have := c.le
                  rw [hc] at this
                  simp only [List.length_append, List.length_cons] at this
                  omega
              | none =>
                  simp only [hpos] at h
                  have hc : nl ∉ c.bytes := hclear.not_mem_of_strnpos hb c.le hpos
                  have := readLoop_newline (b := { b' with bytes := b.bytes ++ c.bytes })
                    (by simp [hb, hc]) (by simpa using hclear) h
                  simpa using this

theorem atEof_rest (b : Linebuf) (rest : List ReadRes) : (atEof b rest).rest = rest := by
  unfold atEof
  split <;> rfl

theorem readLoop_rest {env : CreadlineEnv} :
    ∀ {input : List ReadRes} {b : Linebuf}, (readLoop env input b).rest <:+ input
  | [], b => by
      simp only [readLoop]
      cases growLinebuf env b with
      | none => exact List.suffix_rfl
      | some b' => simp only [atEof_rest, List.suffix_rfl]
  | r :: input, b => by
      simp only [readLoop]
      cases growLinebuf env b with
      | none => exact List.suffix_rfl
      | some b' =>
          have hcons := List.suffix_cons r input
          cases r with
          | eintr => exact readLoop_rest.trans hcons
          | error => exact hcons
          | eof => simpa only [atEof_rest] using hcons
          | data c =>
              simp only
              cases strnpos c.bytes nl with
              | some q => exact hcons
              | none => exact readLoop_rest.trans hcons

/-! ## When the loop delivers a line -/

/-- `creadline.c` as it is compiled, with an allocator that grants every request. -/
def libEnv : CreadlineEnv where
  maxLinebufSize := 64 * 1024 * 1024
  malloc := fun _ => true

@[simp] theorem libEnv_malloc (n : Nat) : libEnv.malloc n = true := rfl

/-- How far after the start of its line a newline is always found. -/
def lineLimit : Nat := 64 * 1024 * 1024 - blockSize

/-- The sizes `linebuf` can have: doublings of a block up to the maximum. -/
def PowSize (n : Nat) : Prop := ∃ k, 10 ≤ k ∧ k ≤ 26 ∧ n = 2 ^ k

theorem powSize_blockSize : PowSize blockSize := ⟨10, by omega, by omega, rfl⟩

theorem growLinebuf_of_room {env : CreadlineEnv} {b : Linebuf}
    (h : b.bytes.length + blockSize ≤ b.size) : growLinebuf env b = some b := by
  simp only [growLinebuf, if_neg (Nat.not_lt.mpr h)]

theorem growLinebuf_libEnv {b : Linebuf} (hsize : PowSize b.size) :
    (∃ n, PowSize n ∧ growLinebuf libEnv b = some { b with size := n }) ∨
      (lineLimit < b.bytes.length ∧ growLinebuf libEnv b = none) := by
  by_cases hroom : b.bytes.length + blockSize ≤ b.size
  · exact .inl ⟨b.size, hsize, growLinebuf_of_room hroom⟩
  obtain ⟨k, hk, hk', hsz⟩ := hsize
  have hfull : b.bytes.length + blockSize > b.size := Nat.lt_of_not_le hroom
  have hle : 2 ^ (k + 1) ≤ 2 ^ 27 := Nat.pow_le_pow_right (by omega) (by omega)
  have hnew : toInt32 (2 * (b.size : Int)) = ((2 ^ (k + 1) : Nat) : Int) := by
    have hmul : 2 * (b.size : Int) = ((2 ^ (k + 1) : Nat) : Int) := by
      rw [hsz, Nat.pow_succ, Nat.mul_comm]
      rfl
    rw [hmul]
    exact toInt32_of_lt (by omega) (by omega)
  have hcast : toSizeT ((2 ^ (k + 1) : Nat) : Int) = 2 ^ (k + 1) := by
    have := toSizeT_of_lt (n := ((2 ^ (k + 1) : Nat) : Int)) (by omega) (by omega)
    exact_mod_cast this
  simp only [growLinebuf, if_pos hfull, hnew, hcast, libEnv, if_true]
  rcases Nat.lt_or_ge k 26 with hlt | hge
  · have hle' : 2 ^ (k + 1) ≤ 2 ^ 26 := Nat.pow_le_pow_right (by omega) (by omega)
    refine .inl ⟨2 ^ (k + 1), ⟨k + 1, by omega, by omega, rfl⟩, ?_⟩
    rw [if_neg (by omega)]
  · obtain rfl : k = 26 := by omega
    refine .inr ⟨?_, by simp⟩
    simp only [hsz, lineLimit, blockSize] at hfull ⊢
    omega

theorem length_le_of_line {b s l v : List Byte} (hb : nl ∉ b) (h : b ++ s = l ++ nl :: v) :
    b.length ≤ l.length := by
  rcases List.append_eq_append_iff.mp h with ⟨t, rfl, -⟩ | ⟨t, rfl, ht⟩
  · simp
  · cases t with
    | nil => simp
    | cons a t =>
        obtain ⟨rfl, -⟩ := List.cons.inj ht
        simp at hb

theorem readLoop_delivers {l v : List Byte} (hl : nl ∉ l) (hlim : l.length ≤ lineLimit) :
    ∀ {input : List ReadRes} {b : Linebuf}, OnlyData input → PowSize b.size → nl ∉ b.bytes →
      Clear (b.bytes ++ bytesOf input) → b.bytes ++ bytesOf input = l ++ nl :: v →
      ∃ lb p rest, readLoop libEnv input b = .newline lb p rest
  | [], b, _, _, hb, _, heq => by
      have : nl ∈ b.bytes := by
        rw [bytesOf, List.append_nil] at heq
        simp [heq]
      exact absurd this hb
  | r :: input, b, hdata, hsize, hb, hclear, heq => by
      have hlen : b.bytes.length ≤ lineLimit := (length_le_of_line hb heq).trans hlim
      obtain ⟨n, hn, hg⟩ := (growLinebuf_libEnv hsize).resolve_right fun h => by omega
      simp only [readLoop, hg]
      rcases hdata r (by simp) with rfl | ⟨c, rfl⟩
      · exact readLoop_delivers hl hlim hdata.tail hn hb hclear heq
      · simp only [bytesOf] at hclear heq ⊢
        cases hpos : strnpos c.bytes nl with
        | some q => exact ⟨_, _, _, rfl⟩
        | none =>
            have hc : nl ∉ c.bytes := hclear.not_mem_of_strnpos hb c.le hpos
            have hbc : nl ∉ b.bytes ++ c.bytes := by simp [hb, hc]
            rw [← List.append_assoc] at hclear heq
            exact readLoop_delivers (b := ⟨b.bytes ++ c.bytes, n⟩) hl hlim hdata.tail hn hbc
              hclear heq

theorem readLoop_at_end :
    ∀ {input : List ReadRes} {b : Linebuf}, OnlyData input → PowSize b.size →
      nl ∉ b.bytes ++ bytesOf input →
      (b.bytes ++ bytesOf input = [] → readLoop libEnv input b = .eof []) ∧
        (b.bytes ++ bytesOf input ≠ [] → ∃ rest, readLoop libEnv input b = .error rest)
  | [], b, _, hsize, _ => by
      simp only [bytesOf, List.append_nil, readLoop]
      rcases growLinebuf_libEnv hsize with ⟨n, -, hg⟩ | ⟨hlong, hg⟩
      · simp only [hg, atEof, List.length_eq_zero_iff]
        exact ⟨fun h => if_pos h, fun h => ⟨[], if_neg h⟩⟩
      · have hne : b.bytes ≠ [] := fun h => by simp [h] at hlong
        simp only [hg]
        exact ⟨fun h => absurd h hne, fun _ => ⟨[], rfl⟩⟩
  | r :: input, b, hdata, hsize, hnl => by
      simp only [readLoop]
      rcases growLinebuf_libEnv hsize with ⟨n, hn, hg⟩ | ⟨hlong, hg⟩
      · simp only [hg]
        rcases hdata r (by simp) with rfl | ⟨c, rfl⟩
        · exact readLoop_at_end (b := ⟨b.bytes, n⟩) hdata.tail hn hnl
        · simp only [bytesOf, ← List.append_assoc] at hnl ⊢
          have hc : nl ∉ c.bytes := fun h => hnl (by simp [h])
          simp only [strnpos_of_not_mem hc]
          exact readLoop_at_end (b := ⟨b.bytes ++ c.bytes, n⟩) hdata.tail hn hnl
      · have hne : b.bytes ++ bytesOf (r :: input) ≠ [] := fun h => by
          simp [(List.append_eq_nil_iff.mp h).1] at hlong
        simp only [hg]
        exact ⟨fun h => absurd h hne, fun _ => ⟨_, rfl⟩⟩

/-! ## A call -/

/-- A line as it is handed to the caller: without a trailing `'\r'`. -/
def stripCr (l : List Byte) : List Byte := if l.getLast? = some cr then l.dropLast else l

theorem takeLine_eq (buffer : CreadlineBuf) (l w : List Byte) (rest : List ReadRes) :
    takeLine buffer (l ++ nl :: w) l.length rest =
      { ret := (stripCr l).length
        dst := some (stripCr l)
        buffer := if w = [] then buffer else ⟨strncpy w w.length, w.length⟩
        rest } := by
  have hrem : (l ++ nl :: w).length - l.length - 1 = w.length := by
    simp only [List.length_append, List.length_cons]
    omega
  have hdrop : (l ++ nl :: w).drop (l.length + 1) = w := by
    rw [← List.drop_drop]
    simp
  have hbuf : (if w.length > 0 then (⟨strncpy w w.length, w.length⟩ : CreadlineBuf) else buffer)
      = if w = [] then buffer else ⟨strncpy w w.length, w.length⟩ := by
    cases w <;> simp
  -- the byte in front of the newline is the last one of the line
  have hcr : (l.length > 0 ∧ (l ++ nl :: w)[l.length - 1]? = some cr) ↔ l.getLast? = some cr := by
    rcases List.eq_nil_or_concat l with rfl | ⟨l', a, rfl⟩
    · simp
    · simp
  simp only [takeLine, hrem, hdrop, hbuf, hcr, stripCr]
  split
  · simp [List.dropLast_eq_take]
  · simp

theorem restored_cons (w : List Byte) {buffer : CreadlineBuf} (h : buffer.nbytes = 0) :
    (if w = [] then buffer else ⟨strncpy w w.length, w.length⟩ : CreadlineBuf).restored =
      strncpy w w.length := by
  cases w with
  | nil => simp only [CreadlineBuf.restored, if_true, h, ne_eq, not_true_eq_false, if_false]; rfl
  | cons b w => simp [CreadlineBuf.restored, strncpy_idem]

/-- The exit of the search: a newline carried over, or else the loop. -/
def searchExit (env : CreadlineEnv) (linebuf : List Byte) (input : List ReadRes) : LoopExit :=
  match strnpos linebuf nl with
  | some p => .newline linebuf p input
  | none => readLoop env input ⟨linebuf, blockSize⟩

theorem creadlineR_eq (env : CreadlineEnv) (buffer : CreadlineBuf) (input : List ReadRes) :
    creadlineR env buffer input =
      if env.malloc blockSize then
        match searchExit env buffer.restored input with
        | .newline linebuf nlPos rest => takeLine { buffer with nbytes := 0 } linebuf nlPos rest
        | .eof rest => ⟨0, none, { buffer with nbytes := 0 }, rest⟩
        | .error rest => ⟨-1, none, { buffer with nbytes := 0 }, rest⟩
      else ⟨-1, none, buffer, input⟩ := rfl

theorem searchExit_newline {env : CreadlineEnv} {carry : List Byte} {input : List ReadRes}
    (hlen : carry.length ≤ blockSize) (hclear : Clear (carry ++ bytesOf input))
    {lb : List Byte} {p : Nat} {rest : List ReadRes}
    (h : searchExit env carry input = .newline lb p rest) :
    ∃ l w, lb = l ++ nl :: w ∧ l.length = p ∧ nl ∉ l ∧ w.length < blockSize ∧
      carry ++ bytesOf input = lb ++ bytesOf rest := by
  unfold searchExit at h
  cases hpos : strnpos carry nl with
  | some q =>
      simp only [hpos, LoopExit.newline.injEq] at h
      obtain ⟨rfl, rfl, rfl⟩ := h
      obtain ⟨u, v, rfl, rfl, hu⟩ := strnpos_eq_some hpos
      refine ⟨u, v, rfl, rfl, hu, ?_, rfl⟩
      simp only [List.length_append, List.length_cons] at hlen
      omega
  | none =>
      simp only [hpos] at h
      have hc : nl ∉ carry := Clear.not_mem_of_strnpos (b := []) hclear (by simp) hlen hpos
      exact readLoop_newline hc hclear h

theorem searchExit_rest (env : CreadlineEnv) (carry : List Byte) (input : List ReadRes) :
    (searchExit env carry input).rest <:+ input := by
  unfold searchExit
  cases strnpos carry nl with
  | some q => exact List.suffix_rfl
  | none => exact readLoop_rest

theorem creadlineR_rest (env : CreadlineEnv) (buffer : CreadlineBuf) (input : List ReadRes) :
    (creadlineR env buffer input).rest <:+ input := by
  rw [creadlineR_eq]
  split
  · have h := searchExit_rest env buffer.restored input
    cases hx : searchExit env buffer.restored input with
    | newline lb p rest => simpa only [hx, LoopExit.rest, takeLine] using h
    | eof rest => simpa only [hx, LoopExit.rest] using h
    | error rest => simpa only [hx, LoopExit.rest] using h
  · exact List.suffix_rfl

theorem creadlineR_dst_of_neg {env : CreadlineEnv} {buffer : CreadlineBuf} {input : List ReadRes}
    (h : (creadlineR env buffer input).ret < 0) : (creadlineR env buffer input).dst = none := by
  rw [creadlineR_eq] at h ⊢
  split
  · rename_i hmalloc
    rw [if_pos hmalloc] at h
    cases hx : searchExit env buffer.restored input with
    | newline linebuf nlPos rest =>
        simp only [hx, takeLine] at h
        exact absurd h (Int.not_lt.mpr (Int.natCast_nonneg _))
    | eof rest => rfl
    | error rest => rfl
  · rfl

/-- **What a call that delivers a line delivers**: the first pending line.  What
followed its newline is pending afterwards, the part that was already read
(`w`, less than a block) as `strncpy` copied it. -/
theorem creadlineR_spec {env : CreadlineEnv} {buffer : CreadlineBuf} {input : List ReadRes}
    (hlen : buffer.restored.length ≤ blockSize)
    (hclear : Clear (buffer.restored ++ bytesOf input)) {d : List Byte}
    (h : (creadlineR env buffer input).dst = some d) :
    ∃ l w, nl ∉ l ∧ w.length < blockSize ∧ d = stripCr l ∧
      (creadlineR env buffer input).ret = d.length ∧
      (creadlineR env buffer input).buffer.restored = strncpy w w.length ∧
      buffer.restored ++ bytesOf input
        = l ++ nl :: (w ++ bytesOf (creadlineR env buffer input).rest) := by
  rw [creadlineR_eq] at h ⊢
  split at h
  · rename_i hmalloc
    simp only [if_pos hmalloc]
    cases hx : searchExit env buffer.restored input with
    | newline lb p rest =>
        obtain ⟨l, w, rfl, rfl, hl, hw, heq⟩ := searchExit_newline hlen hclear hx
        simp only [hx, takeLine_eq, Option.some.injEq] at h ⊢
        subst h
        exact ⟨l, w, hl, hw, rfl, rfl, restored_cons w rfl, by simpa using heq⟩
    | eof rest => simp [hx] at h
    | error rest => simp [hx] at h
  · cases h

/-- A pending line within the limit is delivered. -/
theorem creadlineR_delivers {buffer : CreadlineBuf} {input : List ReadRes}
    (hdata : OnlyData input) (hlen : buffer.restored.length ≤ blockSize)
    (hclear : Clear (buffer.restored ++ bytesOf input)) {l v : List Byte}
    (heq : buffer.restored ++ bytesOf input = l ++ nl :: v) (hl : nl ∉ l)
    (hlim : l.length ≤ lineLimit) :
    (creadlineR libEnv buffer input).dst.isSome := by
  have hx : ∃ lb p rest, searchExit libEnv buffer.restored input = .newline lb p rest := by
    unfold searchExit
    cases hpos : strnpos buffer.restored nl with
    | some q => exact ⟨_, _, _, rfl⟩
    | none =>
        have hc := Clear.not_mem_of_strnpos (b := []) hclear (by simp) hlen hpos
        exact readLoop_delivers hl hlim hdata powSize_blockSize hc hclear heq
  obtain ⟨lb, p, rest, hx⟩ := hx
  simp only [creadlineR_eq, libEnv_malloc, if_true, hx, takeLine, Option.isSome_some]

theorem creadlineR_at_end {buffer : CreadlineBuf} {input : List ReadRes}
    (hdata : OnlyData input) (hnl : nl ∉ buffer.restored ++ bytesOf input) :
    (creadlineR libEnv buffer input).dst = none ∧
      (creadlineR libEnv buffer input).ret =
        if buffer.restored ++ bytesOf input = [] then 0 else -1 := by
  have hc : nl ∉ buffer.restored := fun h => hnl (by simp [h])
  have hx : searchExit libEnv buffer.restored input
      = readLoop libEnv input ⟨buffer.restored, blockSize⟩ := by
    simp only [searchExit, strnpos_of_not_mem hc]
  have hend := readLoop_at_end (b := ⟨buffer.restored, blockSize⟩) hdata powSize_blockSize hnl
  rw [creadlineR_eq, hx]
  by_cases hnil : buffer.restored ++ bytesOf input = []
  · simp only [libEnv_malloc, if_true, hend.1 hnil, hnil, and_self]
  · obtain ⟨rest, hr⟩ := hend.2 hnil
    simp only [libEnv_malloc, if_true, hr, if_neg hnil, and_self]

end Libjapi
