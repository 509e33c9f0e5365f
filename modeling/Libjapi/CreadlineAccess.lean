/-
# `Libjapi.CreadlineAccess` — what `creadline_r` touches, and how often it reads

`creadlineTrace` is `creadlineR` with a record: every access to the line buffer
and to the caller's buffer, every doubling, every `read()`, and which of its
messages the function printed when it failed.  Without the record it is
`creadlineR` (`creadlineTrace_call`).

    an access is in bounds if it stays inside the allocated size, for a
    read, and inside the bytes that were read, for an index       `Access.InBounds`
    the loop keeps its bytes inside a size that is a power of two  `readTrace_safe`
    in every sequence of calls every access is in bounds, less than a block
    is carried over and a call reads at most 64 Mi times           `run_inBounds`

The bytes are arbitrary, NULs included, and so are the results of `read()` and
of the allocator.
-/
import Libjapi.Runs
import Libjapi.Creadline

namespace Libjapi

/-! ## The record -/

/-- One access: `strncpy` from the caller's buffer, the doubled size, a `read()`
of up to a block with its result, an index of the newline search, `strncpy` to
the caller's buffer, the index of the `'\r'` test and that of the `'\0'`.  Each
comes with the size or the number of bytes it must stay below. -/
inductive Access where
  | restore (nbytes : Nat)
  | double (size : Nat)
  | read (offset size : Nat) (readret : Int)
  | search (pos nbytes : Nat)
  | carry (start remNbytes nbytes : Nat)
  | testCr (pos nbytes : Nat)
  | terminate (pos nbytes : Nat)
  deriving DecidableEq

/-- What the access must not leave: both buffers are one block long at first, an
`int` has 31 bits, and indices point at bytes that were read. -/
def Access.InBounds : Access → Prop
  | restore nbytes => nbytes < blockSize
  | double size => 2 * size < 2 ^ 31
  | read offset size _ => offset + blockSize ≤ size
  | search pos nbytes | testCr pos nbytes | terminate pos nbytes => pos < nbytes
  | carry start remNbytes nbytes => remNbytes < blockSize ∧ start + remNbytes ≤ nbytes

/-- A `read()`. -/
def Access.isRead : Access → Bool
  | read .. => true
  | _ => false

/-- A `read()` that returned bytes. -/
def Access.successful : Access → Bool
  | read _ _ readret => 0 < readret
  | _ => false

/-- The messages of `creadline_r`. -/
inductive CreadlineError where
  | malloc
  | maxLineSize
  | realloc
  | read
  | eof
  deriving DecidableEq

/-- The indices `strnpos` looks at. -/
def strnposIndices : List Byte → Byte → Nat → List Nat
  | [], _, _ => []
  | b :: s, c, pos =>
      if b = c then [pos] else if b = 0 then [pos] else pos :: strnposIndices s c (pos + 1)

/-- The search through the bytes that stand at `offset`. -/
def searchAccesses (offset : Nat) (s : List Byte) : List Access :=
  (strnposIndices s nl offset).map (.search · (offset + s.length))

/-- The doubling of a turn, if there is one. -/
def growAccesses (b : Linebuf) : List Access :=
  if b.bytes.length + blockSize > b.size then [.double b.size] else []

/-- The message if the buffer cannot grow. -/
def growError (env : CreadlineEnv) (b : Linebuf) : CreadlineError :=
  if toInt32 (2 * b.size) > env.maxLinebufSize then .maxLineSize else .realloc

/-- The message at the end of the stream. -/
def eofError (b : Linebuf) : Option CreadlineError := if b.bytes.length = 0 then none else some .eof

structure LoopTrace where
  exit : LoopExit
  error : Option CreadlineError
  accesses : List Access

/-- A turn in front of the rest of the loop. -/
def LoopTrace.after (accesses : List Access) (t : LoopTrace) : LoopTrace :=
  { t with accesses := accesses ++ t.accesses }

/-- `readLoop` with its record. -/
def readTrace (env : CreadlineEnv) : List ReadRes → Linebuf → LoopTrace
  | [], b =>
      match growLinebuf env b with
      | none => ⟨.error [], some (growError env b), growAccesses b⟩
      | some b' =>
          ⟨atEof b' [], eofError b', growAccesses b ++ [.read b'.bytes.length b'.size 0]⟩
  | r :: rest, b =>
      match growLinebuf env b with
      | none => ⟨.error (r :: rest), some (growError env b), growAccesses b⟩
      | some b' =>
          match r with
          | .eintr =>
              (readTrace env rest b').after
                (growAccesses b ++ [.read b'.bytes.length b'.size (-1)])
          | .error =>
              ⟨.error rest, some .read, growAccesses b ++ [.read b'.bytes.length b'.size (-1)]⟩
          | .eof =>
              ⟨atEof b' rest, eofError b', growAccesses b ++ [.read b'.bytes.length b'.size 0]⟩
          | .data c =>
              let accesses := growAccesses b ++
                .read b'.bytes.length b'.size c.bytes.length ::
                  searchAccesses b'.bytes.length c.bytes
              match strnpos c.bytes nl with
              | some p =>
                  ⟨.newline (b'.bytes ++ c.bytes) (b'.bytes.length + p) rest, none, accesses⟩
              | none =>
                  (readTrace env rest { b' with bytes := b'.bytes ++ c.bytes }).after accesses

/-- The search of the bytes carried over, and the loop if they have no newline. -/
def searchTrace (env : CreadlineEnv) (linebuf : List Byte) (input : List ReadRes) : LoopTrace :=
  match strnpos linebuf nl with
  | some p => ⟨.newline linebuf p input, none, searchAccesses 0 linebuf⟩
  | none => (readTrace env input ⟨linebuf, blockSize⟩).after (searchAccesses 0 linebuf)

/-- The accesses of `takeLine`. -/
def takeAccesses (linebuf : List Byte) (nlPos : Nat) : List Access :=
  let remNbytes := linebuf.length - nlPos - 1
  let carry := if remNbytes > 0 then [.carry (nlPos + 1) remNbytes linebuf.length] else []
  let testCr := if nlPos > 0 then [.testCr (nlPos - 1) linebuf.length] else []
  let nlPos := if nlPos > 0 ∧ linebuf[nlPos - 1]? = some cr then nlPos - 1 else nlPos
  carry ++ testCr ++ [.terminate nlPos linebuf.length]

structure CreadlineTrace where
  call : Creadline
  error : Option CreadlineError
  accesses : List Access

/-- `creadlineR` with its record. -/
def creadlineTrace (env : CreadlineEnv) (buffer : CreadlineBuf) (input : List ReadRes) :
    CreadlineTrace :=
  if env.malloc blockSize then
    let linebuf := buffer.restored
    let restore := if buffer.nbytes ≠ 0 then [.restore buffer.nbytes] else []
    let buffer := { buffer with nbytes := 0 }
    let t := searchTrace env linebuf input
    match t.exit with
    | .newline linebuf nlPos rest =>
        ⟨takeLine buffer linebuf nlPos rest, t.error,
          restore ++ t.accesses ++ takeAccesses linebuf nlPos⟩
    | .eof rest => ⟨{ ret := 0, dst := none, buffer, rest }, t.error, restore ++ t.accesses⟩
    | .error rest => ⟨{ ret := -1, dst := none, buffer, rest }, t.error, restore ++ t.accesses⟩
  else
    ⟨{ ret := -1, dst := none, buffer, rest := input }, some .malloc, []⟩

/-! ## Without the record -/

theorem readTrace_exit (env : CreadlineEnv) :
    ∀ (input : List ReadRes) (b : Linebuf), (readTrace env input b).exit = readLoop env input b
  | [], b => by
      simp only [readTrace, readLoop]
      cases growLinebuf env b <;> rfl
  | r :: rest, b => by
      simp only [readTrace, readLoop]
      cases growLinebuf env b with
      | none => rfl
      | some b' =>
          cases r with
          | eintr => exact readTrace_exit env rest b'
          | error => rfl
          | eof => rfl
          | data c =>
              cases hpos : strnpos c.bytes nl with
              | some p => simp only [hpos]
              | none =>
                  simp only [hpos]
                  exact readTrace_exit env rest { b' with bytes := b'.bytes ++ c.bytes }

theorem searchTrace_exit (env : CreadlineEnv) (linebuf : List Byte) (input : List ReadRes) :
    (searchTrace env linebuf input).exit = searchExit env linebuf input := by
  unfold searchTrace searchExit
  cases strnpos linebuf nl with
  | some p => rfl
  | none => exact readTrace_exit env input ⟨linebuf, blockSize⟩

theorem readTrace_error (env : CreadlineEnv) :
    ∀ (input : List ReadRes) (b : Linebuf),
      (∀ rest, (readTrace env input b).exit = .eof rest → (readTrace env input b).error = none) ∧
        ∀ rest, (readTrace env input b).exit = .error rest → (readTrace env input b).error ≠ none
  | input, b => by
      have hend : ∀ (b : Linebuf) (rest : List ReadRes),
          (∀ rest', atEof b rest = .eof rest' → eofError b = none) ∧
            ∀ rest', atEof b rest = .error rest' → eofError b ≠ none := by
        intro b rest
        unfold atEof eofError
        split <;> simp
      cases input with
      | nil =>
          simp only [readTrace]
          cases growLinebuf env b with
          | none => exact ⟨fun _ h => (by cases h), fun _ _ h => by cases h⟩
          | some b' => exact hend b' []
      | cons r rest =>
          simp only [readTrace]
          cases growLinebuf env b with
          | none => exact ⟨fun _ h => (by cases h), fun _ _ h => by cases h⟩
          | some b' =>
              cases r with
              | eintr => exact readTrace_error env rest b'
              | error => exact ⟨fun _ h => (by cases h), fun _ _ h => by cases h⟩
              | eof => exact hend b' rest
              | data c =>
                  cases hpos : strnpos c.bytes nl with
                  | some p =>
                      simp only [hpos]
                      exact ⟨fun _ h => (by cases h), fun _ h => by cases h⟩
                  | none =>
                      simp only [hpos]
                      exact readTrace_error env rest { b' with bytes := b'.bytes ++ c.bytes }

theorem creadlineTrace_none {env : CreadlineEnv} {buffer : CreadlineBuf} {input : List ReadRes}
    (h : (creadlineTrace env buffer input).call.dst = none) :
    ((creadlineTrace env buffer input).call.ret = 0 ∧
        (creadlineTrace env buffer input).error = none) ∨
      ((creadlineTrace env buffer input).call.ret = -1 ∧
        (creadlineTrace env buffer input).error ≠ none) := by
  by_cases hmalloc : env.malloc blockSize = true
  · simp only [creadlineTrace, if_pos hmalloc] at h ⊢
    have hsearch : ∀ t : LoopTrace, t = searchTrace env buffer.restored input →
        (∀ rest, t.exit = .eof rest → t.error = none) ∧
          ∀ rest, t.exit = .error rest → t.error ≠ none := by
      rintro t rfl
      unfold searchTrace
      cases strnpos buffer.restored nl with
      | some p => exact ⟨fun _ h => (by cases h), fun _ h => by cases h⟩
      | none => exact readTrace_error env input ⟨buffer.restored, blockSize⟩
    obtain ⟨heof, herror⟩ := hsearch _ rfl
    cases hexit : (searchTrace env buffer.restored input).exit with
    | newline linebuf nlPos rest => simp [hexit, takeLine] at h
    | eof rest => exact .inl ⟨rfl, heof rest hexit⟩
    | error rest => exact .inr ⟨rfl, herror rest hexit⟩
  · simp only [creadlineTrace, if_neg hmalloc]
    exact .inr ⟨trivial, fun h => by cases h⟩

/-- **The record does not change the call.** -/
theorem creadlineTrace_call (env : CreadlineEnv) (buffer : CreadlineBuf) (input : List ReadRes) :
    (creadlineTrace env buffer input).call = creadlineR env buffer input := by
  have hexit := searchTrace_exit env buffer.restored input
  rw [creadlineR_eq, ← hexit]
  by_cases hmalloc : env.malloc blockSize = true
  · simp only [creadlineTrace, if_pos hmalloc]
    cases (searchTrace env buffer.restored input).exit <;> rfl
  · simp only [creadlineTrace, if_neg hmalloc]

/-! ## The line buffer -/

/-- The sizes `linebuf` can have: doublings of a block up to `M`. -/
def DoublingSize (M n : Nat) : Prop := ∃ k, 10 ≤ k ∧ n = 2 ^ k ∧ n ≤ M

/-- The bytes are inside the buffer, whose size is a doubling. -/
structure Sized (M : Nat) (b : Linebuf) : Prop where
  size : DoublingSize M b.size
  le : b.bytes.length ≤ b.size

theorem doublingSize_blockSize {M : Nat} (hM : blockSize ≤ M) : DoublingSize M blockSize :=
  ⟨10, Nat.le_refl 10, rfl, hM⟩

theorem DoublingSize.double {M n : Nat} (h : DoublingSize M n) (hle : 2 * n ≤ M) :
    DoublingSize M (2 * n) := by
  obtain ⟨k, hk, rfl, -⟩ := h
  exact ⟨k + 1, by omega, by rw [Nat.pow_succ, Nat.mul_comm], hle⟩

theorem DoublingSize.blockSize_le {M n : Nat} (h : DoublingSize M n) : blockSize ≤ n := by
  obtain ⟨k, hk, rfl, -⟩ := h
  exact Nat.pow_le_pow_right (n := 2) (by omega) hk

theorem DoublingSize.le {M n : Nat} (h : DoublingSize M n) : n ≤ M := by
  obtain ⟨k, -, -, hle⟩ := h
  exact hle

section Grow

variable {env : CreadlineEnv} {M : Nat} {b b' : Linebuf}

/-- **Making room**: there is room, or the size is doubled, or the doubled size is
beyond the maximum, or the allocator refuses it.  The `int` holds the doubled size. -/
theorem growLinebuf_cases (hM : env.maxLinebufSize = M) (hM' : M < 2 ^ 30) (hb : b.size ≤ M) :
    (b.bytes.length + blockSize ≤ b.size ∧ growLinebuf env b = some b) ∨
      b.size < b.bytes.length + blockSize ∧
        ((2 * b.size ≤ M ∧ env.malloc (2 * b.size) = true ∧
            growLinebuf env b = some { b with size := 2 * b.size }) ∨
          (M < 2 * b.size ∧ growLinebuf env b = none ∧ growError env b = .maxLineSize) ∨
          (2 * b.size ≤ M ∧ env.malloc (2 * b.size) = false ∧ growLinebuf env b = none ∧
            growError env b = .realloc)) := by
  by_cases hroom : b.bytes.length + blockSize ≤ b.size
  · exact .inl ⟨hroom, growLinebuf_of_room hroom⟩
  have hfull : b.bytes.length + blockSize > b.size := Nat.lt_of_not_le hroom
  have hnew : toInt32 (2 * (b.size : Int)) = ((2 * b.size : Nat) : Int) := by
    rw [toInt32_of_lt (by omega) (by omega)]
    norm_cast
  have hcast : toSizeT ((2 * b.size : Nat) : Int) = 2 * b.size := by
    have := toSizeT_of_lt (n := ((2 * b.size : Nat) : Int)) (by omega) (by omega)
    exact_mod_cast this
  refine .inr ⟨hfull, ?_⟩
  simp only [growLinebuf, if_pos hfull, growError, hnew, hcast, hM]
  by_cases hmax : 2 * b.size ≤ M
  · have hnot : ¬ ((2 * b.size : Nat) : Int) > M := by omega
    cases hmalloc : env.malloc (2 * b.size) with
    | true => exact .inl ⟨hmax, rfl, by simp only [if_neg hnot, if_true]⟩
    | false =>
        exact .inr (.inr ⟨hmax, rfl, by simp only [if_neg hnot, Bool.false_eq_true, if_false],
          if_neg hnot⟩)
  · have hgt : ((2 * b.size : Nat) : Int) > M := by omega
    exact .inr (.inl ⟨by omega, if_pos hgt, if_pos hgt⟩)

/-- After it, a block fits behind the bytes: one doubling suffices. -/
theorem Sized.grow (hM : env.maxLinebufSize = M) (hM' : M < 2 ^ 30) (hb : Sized M b)
    (h : growLinebuf env b = some b') :
    Sized M b' ∧ b'.bytes = b.bytes ∧ b'.bytes.length + blockSize ≤ b'.size := by
  rcases growLinebuf_cases hM hM' hb.size.le with ⟨hroom, heq⟩ |
    ⟨hfull, ⟨hle, -, heq⟩ | ⟨-, heq, -⟩ | ⟨-, -, heq, -⟩⟩
  · rw [heq] at h
    cases h
    exact ⟨hb, rfl, hroom⟩
  · rw [heq] at h
    cases h
    have hlen := hb.le
    have hblock := hb.size.blockSize_le
    refine ⟨⟨hb.size.double hle, ?_⟩, rfl, ?_⟩
    · show b.bytes.length ≤ 2 * b.size
      omega
    · show b.bytes.length + blockSize ≤ 2 * b.size
      omega
  · rw [heq] at h
    cases h
  · rw [heq] at h
    cases h

theorem growAccesses_inBounds (hM' : M < 2 ^ 30) (hb : Sized M b) :
    ∀ a ∈ growAccesses b, a.InBounds := by
  have hle := hb.size.le
  intro a ha
  unfold growAccesses at ha
  split at ha
  · rw [List.mem_singleton.mp ha]
    show 2 * b.size < 2 ^ 31
    omega
  · cases ha

theorem countP_successful {accesses : List Access} (h : accesses.countP Access.isRead = 0) :
    accesses.countP Access.successful = 0 := by
  refine Nat.le_zero.mp (h ▸ List.countP_mono_left ?_)
  intro a _ ha
  cases a with
  | read => rfl
  | _ => cases ha

theorem growAccesses_isRead (b : Linebuf) : (growAccesses b).countP Access.isRead = 0 := by
  unfold growAccesses
  split <;> rfl

theorem growAccesses_successful (b : Linebuf) : (growAccesses b).countP Access.successful = 0 :=
  countP_successful (growAccesses_isRead b)

end Grow

/-! ## The search -/

theorem mem_strnposIndices {c : Byte} {i : Nat} :
    ∀ {s : List Byte} {pos : Nat}, i ∈ strnposIndices s c pos → i < pos + s.length
  | [], _, h => by cases h
  | b :: s, pos, h => by
      simp only [strnposIndices] at h
      simp only [List.length_cons]
      split at h
      · rw [List.mem_singleton.mp h]
        omega
      · split at h
        · rw [List.mem_singleton.mp h]
          omega
        · rcases List.mem_cons.mp h with rfl | h
          · omega
          · have := mem_strnposIndices h
            omega

theorem searchAccesses_inBounds (offset : Nat) (s : List Byte) :
    ∀ a ∈ searchAccesses offset s, a.InBounds := by
  intro a ha
  obtain ⟨i, hi, rfl⟩ := List.mem_map.mp ha
  exact mem_strnposIndices hi

theorem searchAccesses_isRead (offset : Nat) (s : List Byte) :
    (searchAccesses offset s).countP Access.isRead = 0 := by
  refine List.countP_eq_zero.mpr ?_
  intro a ha
  obtain ⟨i, -, rfl⟩ := List.mem_map.mp ha
  simp [Access.isRead]

theorem searchAccesses_successful (offset : Nat) (s : List Byte) :
    (searchAccesses offset s).countP Access.successful = 0 :=
  countP_successful (searchAccesses_isRead offset s)

theorem strnpos_lt {s : List Byte} {p : Nat} (h : strnpos s nl = some p) : p < s.length := by
  obtain ⟨u, v, rfl, rfl, -⟩ := strnpos_eq_some h
  simp

/-! ## The loop -/

/-- What a loop that starts with `nbytes` bytes does: its accesses are in bounds,
each successful read brings it closer to the maximum, and less than a block
stands behind the newline it finds. -/
structure LoopTrace.Safe (M nbytes : Nat) (t : LoopTrace) : Prop where
  inBounds : ∀ a ∈ t.accesses, a.InBounds
  reads : t.accesses.countP Access.successful + nbytes ≤ M
  newline : ∀ linebuf nlPos rest, t.exit = .newline linebuf nlPos rest →
    nlPos < linebuf.length ∧ linebuf.length - nlPos - 1 < blockSize

theorem LoopTrace.Safe.after {M nbytes nbytes' : Nat} {t : LoopTrace} (h : t.Safe M nbytes')
    {accesses : List Access} (hin : ∀ a ∈ accesses, a.InBounds)
    (hcount : accesses.countP Access.successful + nbytes ≤ nbytes') :
    (t.after accesses).Safe M nbytes where
  inBounds a ha := (List.mem_append.mp ha).elim (hin a) (h.inBounds a)
  reads := by
    have := h.reads
    simp only [LoopTrace.after, List.countP_append]
    omega
  newline := h.newline

theorem turn_inBounds {M : Nat} {b b' : Linebuf} (hM' : M < 2 ^ 30) (hb : Sized M b)
    (hroom : b'.bytes.length + blockSize ≤ b'.size) (readret : Int) {accesses : List Access}
    (hin : ∀ a ∈ accesses, a.InBounds) :
    ∀ a ∈ growAccesses b ++ .read b'.bytes.length b'.size readret :: accesses, a.InBounds := by
  intro a ha
  rcases List.mem_append.mp ha with ha | ha
  · exact growAccesses_inBounds hM' hb a ha
  · rcases List.mem_cons.mp ha with rfl | ha
    · exact hroom
    · exact hin a ha

/-- **The loop stays in bounds**: `linebuf_nbytes` is at most `linebuf_size`, which
is a doubling of a block. -/
theorem readTrace_safe {env : CreadlineEnv} {M : Nat} (hM : env.maxLinebufSize = M)
    (hM' : M < 2 ^ 30) :
    ∀ {input : List ReadRes} {b : Linebuf}, Sized M b →
      (readTrace env input b).Safe M b.bytes.length
  | [], b, hb => by
      have hlen := hb.le.trans hb.size.le
      simp only [readTrace]
      cases hg : growLinebuf env b with
      | none =>
          exact ⟨growAccesses_inBounds hM' hb, by simpa [growAccesses_successful] using hlen,
            by simp⟩
      | some b' =>
          obtain ⟨-, -, hroom⟩ := hb.grow hM hM' hg
          refine ⟨turn_inBounds hM' hb hroom 0 (by simp), ?_, ?_⟩
          · simpa [List.countP_append, growAccesses_successful, Access.successful] using hlen
          · exact fun linebuf nlPos rest h => absurd h (atEof_ne_newline _ _)
  | r :: input, b, hb => by
      have hlen := hb.le.trans hb.size.le
      simp only [readTrace]
      cases hg : growLinebuf env b with
      | none =>
          exact ⟨growAccesses_inBounds hM' hb, by simpa [growAccesses_successful] using hlen,
            by simp⟩
      | some b' =>
          obtain ⟨hb', hbytes, hroom⟩ := hb.grow hM hM' hg
          have hroomM := hroom.trans hb'.size.le
          have hblock : blockSize = 1024 := rfl
          rw [hbytes] at hroomM
          cases r with
          | eintr =>
              have hrest : (readTrace env input b').Safe M b'.bytes.length :=
                readTrace_safe hM hM' hb'
              rw [hbytes] at hrest
              refine hrest.after (turn_inBounds hM' hb hroom (-1) (by simp)) ?_
              simp [List.countP_append, growAccesses_successful, Access.successful]
          | error =>
              refine ⟨turn_inBounds hM' hb hroom (-1) (by simp), ?_, by simp⟩
              simpa [List.countP_append, growAccesses_successful, Access.successful] using hlen
          | eof =>
              refine ⟨turn_inBounds hM' hb hroom 0 (by simp), ?_, ?_⟩
              · simpa [List.countP_append, growAccesses_successful, Access.successful] using hlen
              · exact fun linebuf nlPos rest h => absurd h (atEof_ne_newline _ _)
          | data c =>
              have hc := c.le
              have hpos : 0 < c.bytes.length := List.length_pos_iff.mpr c.ne_nil
              have hin := turn_inBounds hM' hb hroom c.bytes.length
                (searchAccesses_inBounds b'.bytes.length c.bytes)
              have hcount : (growAccesses b ++ .read b'.bytes.length b'.size c.bytes.length ::
                  searchAccesses b'.bytes.length c.bytes).countP Access.successful = 1 := by
                rw [List.countP_append, growAccesses_successful, List.countP_cons,
                  searchAccesses_successful]
                simp [Access.successful, hpos]
              cases hnl : strnpos c.bytes nl with
              | some p =>
                  have hp := strnpos_lt hnl
                  simp only [hnl]
                  refine ⟨hin, ?_, ?_⟩
                  · rw [hcount]
                    omega
                  · intro linebuf nlPos rest h
                    cases h
                    simp only [List.length_append]
                    omega
              | none =>
                  have hnext : Sized M { b' with bytes := b'.bytes ++ c.bytes } := by
                    refine ⟨hb'.size, ?_⟩
                    simp only [List.length_append]
                    omega
                  simp only [hnl]
                  refine (readTrace_safe hM hM' hnext).after hin ?_
                  rw [hcount]
                  simp only [List.length_append, hbytes]
                  omega

/-! ## A call -/

theorem length_restored (buffer : CreadlineBuf) : buffer.restored.length = buffer.nbytes := by
  unfold CreadlineBuf.restored
  split
  · exact length_strncpy buffer.buf buffer.nbytes
  · rename_i h
    rw [not_not.mp h]
    rfl

theorem nbytes_eq_zero_iff {buffer : CreadlineBuf} : buffer.nbytes = 0 ↔ buffer.restored = [] := by
  rw [← length_restored, List.length_eq_zero_iff]

theorem takeAccesses_inBounds {linebuf : List Byte} {nlPos : Nat} (hnl : nlPos < linebuf.length)
    (hrem : linebuf.length - nlPos - 1 < blockSize) :
    ∀ a ∈ takeAccesses linebuf nlPos, a.InBounds := by
  intro a ha
  simp only [takeAccesses, List.mem_append, List.mem_singleton] at ha
  rcases ha with (ha | ha) | rfl
  · split at ha
    · rw [List.mem_singleton.mp ha]
      exact ⟨hrem, by omega⟩
    · cases ha
  · split at ha
    · rw [List.mem_singleton.mp ha]
      show nlPos - 1 < linebuf.length
      omega
    · cases ha
  · show (if nlPos > 0 ∧ _ then nlPos - 1 else nlPos) < linebuf.length
    split <;> omega

theorem takeAccesses_isRead (linebuf : List Byte) (nlPos : Nat) :
    (takeAccesses linebuf nlPos).countP Access.isRead = 0 := by
  refine List.countP_eq_zero.mpr ?_
  intro a ha
  simp only [takeAccesses, List.mem_append, List.mem_singleton] at ha
  rcases ha with (ha | ha) | rfl
  · split at ha
    · rw [List.mem_singleton.mp ha]
      simp [Access.isRead]
    · cases ha
  · split at ha
    · rw [List.mem_singleton.mp ha]
      simp [Access.isRead]
    · cases ha
  · simp [Access.isRead]

theorem takeAccesses_successful (linebuf : List Byte) (nlPos : Nat) :
    (takeAccesses linebuf nlPos).countP Access.successful = 0 :=
  countP_successful (takeAccesses_isRead linebuf nlPos)

theorem searchTrace_safe {env : CreadlineEnv} {M : Nat} (hM : env.maxLinebufSize = M)
    (hlow : blockSize ≤ M) (hM' : M < 2 ^ 30) {linebuf : List Byte}
    (hlen : linebuf.length < blockSize) (input : List ReadRes) :
    (searchTrace env linebuf input).Safe M linebuf.length := by
  unfold searchTrace
  cases hnl : strnpos linebuf nl with
  | some p =>
      have hp := strnpos_lt hnl
      refine ⟨searchAccesses_inBounds 0 linebuf, ?_, ?_⟩
      · rw [searchAccesses_successful]
        omega
      · intro linebuf' nlPos rest h
        cases h
        omega
  | none =>
      have hb : Sized M ⟨linebuf, blockSize⟩ := ⟨doublingSize_blockSize hlow, hlen.le⟩
      refine (readTrace_safe hM hM' hb).after (searchAccesses_inBounds 0 linebuf) ?_
      rw [searchAccesses_successful, Nat.zero_add]

/-- **One call** on a buffer that holds less than a block: its accesses are in
bounds, it reads at most `M` times, and less than a block is carried over, nothing
where no line is delivered.  If `malloc` fails at first, it touches nothing. -/
structure CreadlineTrace.Safe (M : Nat) (malloc : Bool) (buffer : CreadlineBuf)
    (t : CreadlineTrace) : Prop where
  inBounds : ∀ a ∈ t.accesses, a.InBounds
  reads : t.accesses.countP Access.successful ≤ M
  carried : t.call.buffer.nbytes < blockSize
  failed : t.call.dst = none → malloc = true → t.call.buffer.nbytes = 0
  noMemory : malloc = false → t.call.ret = -1 ∧ t.call.buffer = buffer

theorem creadlineTrace_safe {env : CreadlineEnv} {M : Nat} (hM : env.maxLinebufSize = M)
    (hlow : blockSize ≤ M) (hM' : M < 2 ^ 30) {buffer : CreadlineBuf}
    (hbuf : buffer.nbytes < blockSize) (input : List ReadRes) :
    (creadlineTrace env buffer input).Safe M (env.malloc blockSize) buffer := by
  have hlen := length_restored buffer
  have hsearch : (searchTrace env buffer.restored input).Safe M buffer.restored.length :=
    searchTrace_safe hM hlow hM' (by omega) input
  have hreads := hsearch.reads
  have hrestore : ∀ a ∈ (if buffer.nbytes ≠ 0 then [Access.restore buffer.nbytes] else []),
      a.InBounds := by
    intro a ha
    split at ha
    · rw [List.mem_singleton.mp ha]
      exact hbuf
    · cases ha
  have hcount : (if buffer.nbytes ≠ 0 then [Access.restore buffer.nbytes] else []).countP
      Access.successful = 0 := by split <;> rfl
  have hin : ∀ a ∈ (if buffer.nbytes ≠ 0 then [Access.restore buffer.nbytes] else []) ++
      (searchTrace env buffer.restored input).accesses, a.InBounds :=
    fun a ha => (List.mem_append.mp ha).elim (hrestore a) (hsearch.inBounds a)
  cases hmalloc : env.malloc blockSize with
  | false =>
      simp only [creadlineTrace, hmalloc, Bool.false_eq_true, if_false]
      exact ⟨by simp, Nat.zero_le M, hbuf, by simp, fun _ => ⟨rfl, rfl⟩⟩
  | true =>
      simp only [creadlineTrace, hmalloc, if_true]
      cases hexit : (searchTrace env buffer.restored input).exit with
      | newline linebuf nlPos rest =>
          obtain ⟨hnl, hrem⟩ := hsearch.newline linebuf nlPos rest hexit
          refine ⟨?_, ?_, ?_, by simp [takeLine], by simp⟩
          · intro a ha
            exact (List.mem_append.mp ha).elim (hin a) (takeAccesses_inBounds hnl hrem a)
          · rw [List.countP_append, List.countP_append, hcount, takeAccesses_successful]
            omega
          · simp only [takeLine]
            split
            · exact hrem
            · exact Nat.zero_lt_of_lt hbuf
      | eof rest =>
          refine ⟨hin, ?_, Nat.zero_lt_of_lt hbuf, fun _ _ => rfl, by simp⟩
          rw [List.countP_append, hcount]
          omega
      | error rest =>
          refine ⟨hin, ?_, Nat.zero_lt_of_lt hbuf, fun _ _ => rfl, by simp⟩
          rw [List.countP_append, hcount]
          omega

/-! ## Sequences of calls -/

/-- A call: what the allocator grants during it, and the results of `read()`. -/
structure CreadlineCall where
  malloc : Nat → Bool
  input : List ReadRes

/-- `creadline.c` as it is compiled, during a call. -/
def CreadlineCall.env (call : CreadlineCall) : CreadlineEnv := ⟨64 * 1024 * 1024, call.malloc⟩

/-- The caller's buffer after a call. -/
def creadlineStep (buffer : CreadlineBuf) (call : CreadlineCall) : Option CreadlineBuf :=
  some (creadlineR call.env buffer call.input).buffer

/-- Less than a block is carried over. -/
def CreadlineBuf.Carries (buffer : CreadlineBuf) : Prop := buffer.nbytes < blockSize

theorem CreadlineCall.safe (call : CreadlineCall) {buffer : CreadlineBuf} (hbuf : buffer.Carries) :
    (creadlineTrace call.env buffer call.input).Safe (64 * 1024 * 1024) (call.malloc blockSize)
      buffer := by
  have hmax : call.env.maxLinebufSize = (64 * 1024 * 1024 : Nat) := rfl
  exact creadlineTrace_safe hmax (by decide) (by decide) hbuf call.input

theorem CreadlineBuf.Carries.step {buffer buffer' : CreadlineBuf} {call : CreadlineCall}
    (hbuf : buffer.Carries) (h : creadlineStep buffer call = some buffer') : buffer'.Carries := by
  cases h
  rw [← creadlineTrace_call]
  exact (call.safe hbuf).carried

/-- **Every call of every sequence is in bounds**, reads at most 64 Mi times and
carries less than a block over. -/
theorem run_inBounds {buffer buffer' : CreadlineBuf} {calls : List CreadlineCall}
    (hbuf : buffer.nbytes = 0) (hrun : run creadlineStep buffer calls = some buffer')
    (call : CreadlineCall) :
    (creadlineTrace call.env buffer' call.input).call = creadlineR call.env buffer' call.input ∧
      (creadlineTrace call.env buffer' call.input).Safe (64 * 1024 * 1024)
        (call.malloc blockSize) buffer' := by
  have hstart : buffer.Carries := by
    rw [CreadlineBuf.Carries, hbuf]
    exact Nat.zero_lt_succ 1023
  have hcarries : buffer'.Carries :=
    run_invariant (fun hi h => CreadlineBuf.Carries.step hi h) hstart hrun
  exact ⟨creadlineTrace_call call.env buffer' call.input, call.safe hcarries⟩

/-- `"\na"` in one read, and a second call. -/
theorem run_inBounds_carried :
    (creadlineTrace (CreadlineCall.env ⟨fun _ => true, []⟩) ⟨[97], 1⟩ []).Safe
      (64 * 1024 * 1024) true ⟨[97], 1⟩ := by
  have hbuf : (⟨[], 0⟩ : CreadlineBuf).nbytes = 0 := rfl
  have hrun : run creadlineStep ⟨[], 0⟩
      [⟨fun _ => true, [.data ⟨[10, 97], by decide, by decide⟩]⟩] = some ⟨[97], 1⟩ := by decide
  exact (run_inBounds hbuf hrun ⟨fun _ => true, []⟩).2

/-- If the first `malloc` of the second call fails, its error leaves a byte in the
buffer. -/
theorem nbytes_after_error :
    ∃ buffer', run creadlineStep ⟨[], 0⟩
        [⟨fun _ => true, [.data ⟨[10, 97], by decide, by decide⟩]⟩] = some buffer' ∧
      (creadlineR (CreadlineCall.env ⟨fun _ => false, []⟩) buffer' []).ret = -1 ∧
      (creadlineR (CreadlineCall.env ⟨fun _ => false, []⟩) buffer' []).buffer.nbytes = 1 := by
  refine ⟨_, rfl, ?_, ?_⟩
  · decide
  · decide

end Libjapi
