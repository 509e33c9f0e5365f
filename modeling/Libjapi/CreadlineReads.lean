/-
# `Libjapi.CreadlineReads` — when `creadline_r` has no need to wait

Of the bytes of a stream a first part has arrived and was not read: the `Queue` of
the descriptor.  `read()` returns what is there, up to a block, and waits if
nothing is.  More may arrive before every `read()` of a call.

    a call that finds a newline in what is carried over or in a block of the
    queue, a queue that has an end, or a line there that is beyond the limit,
    does not wait; and no other call does not, if nothing arrives while it
    runs                                                    `creadlineTrace_waits`
    nor does such a call stay in a `read()`                `creadlineTrace_stalls`

A block is cut where `read()` cuts the queue, and its newline is one that `strnpos`
finds: none is found behind a NUL.
-/
import Libjapi.CreadlineAccess

namespace Libjapi

/-! ## The queue of a descriptor -/

/-- The peer has closed the stream, or it has failed. -/
inductive Ending where
  | closed
  | failed
  deriving DecidableEq

def Ending.result : Ending → ReadRes
  | .closed => .eof
  | .failed => .error

/-- What has arrived and was not read: bytes, and the end of the stream behind them. -/
structure Queue where
  bytes : List Byte
  ending : Option Ending
  deriving DecidableEq

/-- A `read()`: what arrives before it, and while it waits, and whether a signal
interrupts it. -/
structure ReadTurn where
  before : Queue
  during : Queue
  interrupted : Bool

namespace Queue

def empty : Queue := ⟨[], none⟩

/-- `read()` returns at once. -/
def Ready (q : Queue) : Prop := q.bytes ≠ [] ∨ q.ending ≠ none

instance (q : Queue) : Decidable q.Ready := inferInstanceAs (Decidable (_ ∨ _))

/-- More arrives.  Nothing does behind the end. -/
def arrive (q more : Queue) : Queue :=
  match q.ending with
  | none => ⟨q.bytes ++ more.bytes, more.ending⟩
  | some _ => q

/-- What `read(fd, buf, 1024)` returns, and what it leaves, if it need not wait. -/
def read (q : Queue) : Option (ReadRes × Queue) :=
  if h : q.bytes = [] then q.ending.map fun e => (e.result, q)
  else
    let c : Chunk := {
      bytes := q.bytes.take blockSize
      ne_nil := fun hnil => (List.take_eq_nil_iff.mp hnil).elim (fun h0 => by cases h0) h
      le := List.length_take_le _ _ }
    some (.data c, { q with bytes := q.bytes.drop blockSize })

/-- What is there when `read()` returns. -/
def filled (q : Queue) (t : ReadTurn) : Queue :=
  if (q.arrive t.before).Ready then q.arrive t.before
  else (q.arrive t.before).arrive t.during

/-- The result of `read()`, and what it leaves. -/
def turn (q : Queue) (t : ReadTurn) : Option (ReadRes × Queue) :=
  if t.interrupted then some (.eintr, q.filled t) else (q.filled t).read

/-- `n` reads of a call: their results, what they leave, and whether one waited. -/
structure Taken where
  results : List ReadRes
  left : Queue
  waited : Bool

def take : Queue → List ReadTurn → Option Taken
  | q, [] => some ⟨[], q, false⟩
  | q, t :: ts => do
      let (r, q') ← q.turn t
      let taken ← q'.take ts
      return ⟨r :: taken.results, taken.left, !decide (q.arrive t.before).Ready || taken.waited⟩

/-- The blocks `read()` cuts the queue into. -/
def block (q : Queue) (k : Nat) : List Byte := (q.bytes.drop (k * blockSize)).take blockSize

/-- With `n` bytes of a line there, nothing needs to follow the queue. -/
def Suffices (n : Nat) (q : Queue) : Prop :=
  q.ending ≠ none ∨ (∃ k < q.bytes.length, (strnpos (q.block k) nl).isSome) ∨
    lineLimit < n + q.bytes.length

instance (n : Nat) (q : Queue) : Decidable (q.Suffices n) := inferInstanceAs (Decidable (_ ∨ _ ∨ _))

/-- So does a call that finds `carry` carried over. -/
def SufficesCall (carry : List Byte) (q : Queue) : Prop :=
  (strnpos carry nl).isSome ∨ q.Suffices carry.length

instance (carry : List Byte) (q : Queue) : Decidable (q.SufficesCall carry) :=
  inferInstanceAs (Decidable (_ ∨ _))

theorem arrive_empty (q : Queue) : q.arrive empty = q := by
  obtain ⟨bytes, ending⟩ := q
  cases ending <;> simp [arrive, empty]

theorem filled_of_ready {q : Queue} {t : ReadTurn} (h : (q.arrive t.before).Ready) :
    q.filled t = q.arrive t.before := if_pos h

/-! ## The condition -/

theorem isSome_strnpos_append {s : List Byte} (h : (strnpos s nl).isSome) (t : List Byte) :
    (strnpos (s ++ t) nl).isSome := by
  induction s with
  | nil => cases h
  | cons b s ih =>
      simp only [List.cons_append, strnpos] at h ⊢
      split at h
      · rename_i hb
        rw [if_pos hb]
        rfl
      · rename_i hb
        rw [if_neg hb]
        split at h
        · cases h
        · rename_i h0
          rw [if_neg h0, Option.isSome_map]
          exact ih (by simpa using h)

theorem block_prefix_of_bytes (q : Queue) (more : List Byte) (ending : Option Ending) (k : Nat) :
    q.block k <+: block ⟨q.bytes ++ more, ending⟩ k := by
  unfold block
  rcases Nat.le_total (k * blockSize) q.bytes.length with hle | hle
  · rw [List.drop_append_of_le_length hle, List.take_append]
    exact List.prefix_append _ _
  · rw [List.drop_eq_nil_of_le hle, List.take_nil]
    exact List.nil_prefix

theorem Suffices.arrive {n : Nat} {q : Queue} (h : q.Suffices n) (more : Queue) :
    (q.arrive more).Suffices n := by
  unfold Queue.arrive
  cases hend : q.ending with
  | some e => exact h
  | none =>
      rcases h with hend' | ⟨k, hk, hpos⟩ | hlimit
      · exact absurd hend hend'
      · obtain ⟨t, ht⟩ := q.block_prefix_of_bytes more.bytes more.ending k
        refine .inr (.inl ⟨k, ?_, ?_⟩)
        · rw [List.length_append]
          omega
        · rw [← ht]
          exact isSome_strnpos_append hpos t
      · refine .inr (.inr ?_)
        rw [List.length_append]
        omega

theorem Suffices.ready {n : Nat} {q : Queue} (h : q.Suffices n) (hn : n ≤ lineLimit) : q.Ready := by
  rcases h with hend | ⟨k, hk, -⟩ | hlimit
  · exact .inr hend
  · refine .inl fun hnil => ?_
    rw [hnil] at hk
    cases hk
  · refine .inl fun hnil => ?_
    rw [hnil, List.length_nil] at hlimit
    omega

theorem block_zero (q : Queue) : q.block 0 = q.bytes.take blockSize := by
  rw [block, Nat.zero_mul, List.drop_zero]

theorem block_drop (q : Queue) (k : Nat) :
    block ⟨q.bytes.drop blockSize, q.ending⟩ k = q.block (k + 1) := by
  rw [block, block, List.drop_drop, Nat.succ_mul, Nat.add_comm]

theorem length_of_isSome_block {q : Queue} {k : Nat} (h : (strnpos (q.block k) nl).isSome) :
    k < q.bytes.length := by
  by_contra hle
  have hblock : q.block k = [] := by
    have hmul : k ≤ k * blockSize := Nat.le_mul_of_pos_right k (by decide)
    rw [block, List.drop_eq_nil_of_le (by omega), List.take_nil]
  rw [hblock] at h
  cases h

theorem suffices_drop {n : Nat} {q : Queue} (h : strnpos (q.block 0) nl = none) :
    Suffices (n + (q.block 0).length) ⟨q.bytes.drop blockSize, q.ending⟩ ↔ q.Suffices n := by
  have hlen : (q.block 0).length + (q.bytes.drop blockSize).length = q.bytes.length := by
    rw [block_zero, ← List.length_append, List.take_append_drop]
  constructor
  · rintro (hend | ⟨k, -, hpos⟩ | hlimit)
    · exact .inl hend
    · rw [block_drop] at hpos
      exact .inr (.inl ⟨k + 1, length_of_isSome_block hpos, hpos⟩)
    · refine .inr (.inr ?_)
      have hlimit' : lineLimit < n + (q.block 0).length + (q.bytes.drop blockSize).length := hlimit
      omega
  · rintro (hend | ⟨k, -, hpos⟩ | hlimit)
    · exact .inl hend
    · cases k with
      | zero =>
          rw [h] at hpos
          cases hpos
      | succ k =>
          rw [← block_drop] at hpos
          exact .inr (.inl ⟨k, length_of_isSome_block hpos, hpos⟩)
    · refine .inr (.inr ?_)
      show lineLimit < n + (q.block 0).length + (q.bytes.drop blockSize).length
      omega

theorem read_cases {q q' : Queue} {r : ReadRes} (h : q.read = some (r, q')) :
    (r = .eof ∨ r = .error) ∧ q.ending ≠ none ∨
      ∃ c : Chunk, r = .data c ∧ c.bytes = q.block 0 ∧ q' = ⟨q.bytes.drop blockSize, q.ending⟩ := by
  unfold read at h
  split at h
  · obtain ⟨e, he, heq⟩ := Option.map_eq_some_iff.mp h
    cases heq
    refine .inl ⟨?_, by simp [he]⟩
    cases e
    · exact .inl rfl
    · exact .inr rfl
  · cases h
    exact .inr ⟨_, rfl, (block_zero q).symm, rfl⟩

end Queue

/-! ## A call -/

/-- The `read()`s of a loop, and of a call. -/
def LoopTrace.reads (t : LoopTrace) : Nat := t.accesses.countP Access.isRead

def CreadlineTrace.reads (t : CreadlineTrace) : Nat := t.accesses.countP Access.isRead

theorem LoopTrace.reads_after {accesses : List Access} (t : LoopTrace) :
    (t.after accesses).reads = accesses.countP Access.isRead + t.reads := by
  rw [reads, after, List.countP_append]
  rfl

theorem readTrace_reads_of_full {env : CreadlineEnv} {b : Linebuf} (h : growLinebuf env b = none)
    (input : List ReadRes) : (readTrace env input b).reads = 0 := by
  cases input <;> simp only [readTrace, h] <;> exact growAccesses_isRead b

theorem readTrace_reads_nil {env : CreadlineEnv} {b b' : Linebuf}
    (h : growLinebuf env b = some b') : (readTrace env [] b).reads = 1 := by
  simp only [readTrace, h, LoopTrace.reads, List.countP_append, growAccesses_isRead]
  rfl

theorem readTrace_reads_cons {env : CreadlineEnv} {b b' : Linebuf}
    (h : growLinebuf env b = some b') (r : ReadRes) (rest : List ReadRes) :
    (readTrace env (r :: rest) b).reads = 1 + match r with
      | .eintr => (readTrace env rest b').reads
      | .error | .eof => 0
      | .data c => if (strnpos c.bytes nl).isSome then 0
          else (readTrace env rest { b' with bytes := b'.bytes ++ c.bytes }).reads := by
  have hgrow := growAccesses_isRead b
  simp only [readTrace, h]
  cases r with
  | eintr =>
      rw [LoopTrace.reads_after, List.countP_append, hgrow]
      rfl
  | error =>
      simp only [LoopTrace.reads, List.countP_append, hgrow]
      rfl
  | eof =>
      simp only [LoopTrace.reads, List.countP_append, hgrow]
      rfl
  | data c =>
      have hsearch := searchAccesses_isRead b'.bytes.length c.bytes
      cases hpos : strnpos c.bytes nl with
      | some p =>
          simp only [hpos, LoopTrace.reads, List.countP_append, List.countP_cons, hgrow, hsearch]
          rfl
      | none =>
          simp only [hpos, LoopTrace.reads_after, List.countP_append, List.countP_cons, hgrow,
            hsearch]
          rfl

/-- Behind the results of a call there is an end of the stream. -/
theorem readTrace_reads_eof (env : CreadlineEnv) :
    ∀ (input : List ReadRes) (b : Linebuf),
      (readTrace env (input ++ [.eof]) b).reads = (readTrace env input b).reads
  | [], b => by
      cases hg : growLinebuf env b with
      | none => rw [readTrace_reads_of_full hg, readTrace_reads_of_full hg]
      | some b' => exact (readTrace_reads_cons hg .eof []).trans (readTrace_reads_nil hg).symm
  | r :: rest, b => by
      cases hg : growLinebuf env b with
      | none => rw [readTrace_reads_of_full hg, readTrace_reads_of_full hg]
      | some b' =>
          rw [List.cons_append, readTrace_reads_cons hg, readTrace_reads_cons hg]
          cases r with
          | eintr => exact congrArg (1 + ·) (readTrace_reads_eof env rest b')
          | error | eof => rfl
          | data c =>
              dsimp only
              split
              · rfl
              · rw [readTrace_reads_eof env rest]

theorem creadlineTrace_reads (env : CreadlineEnv) (buffer : CreadlineBuf) (input : List ReadRes) :
    (creadlineTrace env buffer input).reads =
      if env.malloc blockSize = false ∨ (strnpos buffer.restored nl).isSome then 0
      else (readTrace env input ⟨buffer.restored, blockSize⟩).reads := by
  have hrestore : (if buffer.nbytes ≠ 0 then [Access.restore buffer.nbytes] else []).countP
      Access.isRead = 0 := by split <;> rfl
  cases hmalloc : env.malloc blockSize with
  | false => simp [creadlineTrace, hmalloc, CreadlineTrace.reads]
  | true =>
      have hsearch : (searchTrace env buffer.restored input).reads =
          if (strnpos buffer.restored nl).isSome then 0
          else (readTrace env input ⟨buffer.restored, blockSize⟩).reads := by
        unfold searchTrace
        cases strnpos buffer.restored nl with
        | some p => exact searchAccesses_isRead 0 _
        | none =>
            rw [LoopTrace.reads_after, searchAccesses_isRead, Nat.zero_add]
            rfl
      have hcall : (creadlineTrace env buffer input).reads =
          (searchTrace env buffer.restored input).reads := by
        simp only [creadlineTrace, hmalloc, if_true]
        cases (searchTrace env buffer.restored input).exit with
        | newline linebuf nlPos rest =>
            simp only [CreadlineTrace.reads, LoopTrace.reads, List.countP_append, hrestore,
              takeAccesses_isRead, Nat.zero_add, Nat.add_zero]
        | eof rest =>
            simp only [CreadlineTrace.reads, LoopTrace.reads, List.countP_append, hrestore,
              Nat.zero_add]
        | error rest =>
            simp only [CreadlineTrace.reads, LoopTrace.reads, List.countP_append, hrestore,
              Nat.zero_add]
      simp only [hcall, hsearch, Bool.true_eq_false, false_or]

theorem Sized.le_lineLimit {env : CreadlineEnv} (hM : env.maxLinebufSize = (64 * 1024 * 1024 : Nat))
    {b b' : Linebuf} (hb : Sized (64 * 1024 * 1024) b) (h : growLinebuf env b = some b') :
    Sized (64 * 1024 * 1024) b' ∧ b'.bytes = b.bytes ∧ b'.bytes.length + blockSize ≤ b'.size ∧
      b.bytes.length ≤ lineLimit := by
  obtain ⟨hb', hbytes, hroom⟩ := hb.grow hM (by decide) h
  refine ⟨hb', hbytes, hroom, ?_⟩
  have hsize := hroom.trans hb'.size.le
  rw [hbytes] at hsize
  unfold lineLimit
  omega

theorem Sized.lineLimit_lt {env : CreadlineEnv} (hM : env.maxLinebufSize = (64 * 1024 * 1024 : Nat))
    (hmalloc : ∀ n, env.malloc n = true) {b : Linebuf} (hb : Sized (64 * 1024 * 1024) b)
    (h : growLinebuf env b = none) : lineLimit < b.bytes.length := by
  rcases growLinebuf_cases hM (by decide) hb.size.le with ⟨-, heq⟩ |
    ⟨hfull, ⟨-, -, heq⟩ | ⟨hmax, -, -⟩ | ⟨-, hrefused, -⟩⟩
  · rw [heq] at h
    cases h
  · rw [heq] at h
    cases h
  · -- the only doubling that cannot be doubled is the maximum
    obtain ⟨k, hk, hsize, hle⟩ := hb.size
    have hk26 : 25 < k := by
      by_contra hlt
      have hpow : 2 ^ k ≤ 2 ^ 25 := Nat.pow_le_pow_right (by decide) (by omega)
      omega
    have hpow : 2 ^ 26 ≤ 2 ^ k := Nat.pow_le_pow_right (by decide) hk26
    have hblock : blockSize = 1024 := rfl
    unfold lineLimit
    omega
  · rw [hmalloc] at hrefused
    cases hrefused

namespace Queue

theorem take_cons {q : Queue} {t : ReadTurn} {ts : List ReadTurn} {taken : Taken}
    (h : q.take (t :: ts) = some taken) :
    ∃ (r : ReadRes) (q' : Queue) (taken' : Taken), q.turn t = some (r, q') ∧
      q'.take ts = some taken' ∧ taken.results = r :: taken'.results ∧
      (taken.waited = false ↔ (q.arrive t.before).Ready ∧ taken'.waited = false) := by
  simp only [take, Option.bind_eq_bind, Option.bind_eq_some_iff, Option.pure_def,
    Option.some.injEq] at h
  obtain ⟨⟨r, q'⟩, hturn, taken', htaken, rfl⟩ := h
  exact ⟨r, q', taken', hturn, htaken, rfl, by simp⟩

/-- The peer closes the connection while the last `read()` waits. -/
theorem take_closed {q : Queue} {ts : List ReadTurn} {taken : Taken} (h : q.take ts = some taken)
    (hempty : ¬ taken.left.Ready) :
    ∃ taken', q.take (ts ++ [⟨empty, ⟨[], some .closed⟩, false⟩]) = some taken' ∧
      taken'.results = taken.results ++ [.eof] ∧ taken'.waited = true := by
  induction ts generalizing q taken with
  | nil =>
      cases h
      obtain ⟨bytes, ending⟩ := q
      obtain ⟨rfl, rfl⟩ : bytes = [] ∧ ending = none := by simpa [Ready] using hempty
      exact ⟨_, rfl, rfl, rfl⟩
  | cons t ts ih =>
      simp only [take, Option.bind_eq_bind, Option.bind_eq_some_iff, Option.pure_def,
        Option.some.injEq] at h
      obtain ⟨⟨r, q'⟩, hturn, taken₁, htaken₁, rfl⟩ := h
      obtain ⟨taken', htake', hresults, hwaited⟩ := ih htaken₁ hempty
      refine ⟨⟨r :: taken'.results, taken'.left,
        !decide (q.arrive t.before).Ready || taken'.waited⟩, ?_, ?_, ?_⟩
      · simp [take, hturn, htake']
      · rw [hresults]
        rfl
      · rw [hwaited, Bool.or_true]

theorem take_nil {q : Queue} {ts : List ReadTurn} {taken : Taken} (h : q.take ts = some taken)
    (hts : ts.length = 0) : taken.waited = false := by
  rw [List.length_eq_zero_iff.mp hts] at h
  cases h
  rfl

end Queue

/-- **The loop does not wait** if nothing needs to follow the queue; and if it does not,
though nothing arrives while it runs, then nothing needed to. -/
theorem readTrace_waits {env : CreadlineEnv}
    (hM : env.maxLinebufSize = (64 * 1024 * 1024 : Nat)) :
    ∀ {turns : List ReadTurn} {q : Queue} {b : Linebuf} {taken : Queue.Taken},
      Sized (64 * 1024 * 1024) b → q.take turns = some taken →
      (readTrace env taken.results b).reads = turns.length →
      (q.Suffices b.bytes.length → taken.waited = false) ∧
        ((∀ n, env.malloc n = true) → (∀ t ∈ turns, t.before = .empty) → taken.waited = false →
          q.Suffices b.bytes.length)
  | [], q, b, taken, hb, htake, hreads => by
      cases htake
      refine ⟨fun _ => rfl, fun hmalloc _ _ => ?_⟩
      cases hg : growLinebuf env b with
      | none =>
          have hlimit := hb.lineLimit_lt hM hmalloc hg
          exact .inr (.inr (by omega))
      | some b' =>
          rw [readTrace_reads_nil hg] at hreads
          cases hreads
  | t :: ts, q, b, taken, hb, htake, hreads => by
      obtain ⟨r, q', taken', hturn, htake', hresults, hwaited⟩ := Queue.take_cons htake
      rw [hresults] at hreads
      cases hg : growLinebuf env b with
      | none =>
          rw [readTrace_reads_of_full hg] at hreads
          cases hreads
      | some b' =>
          obtain ⟨hb', hbytes, hroom, hle⟩ := hb.le_lineLimit hM hg
          rw [readTrace_reads_cons hg, List.length_cons, Nat.add_comm] at hreads
          have hreads := Nat.succ.inj hreads
          -- what the turn finds, and the turns that follow it
          have hturn' : (q.arrive t.before).Ready →
              ((q.arrive t.before).Suffices b.bytes.length → taken'.waited = false) ∧
              ((∀ n, env.malloc n = true) → (∀ t ∈ ts, t.before = .empty) →
                taken'.waited = false → (q.arrive t.before).Suffices b.bytes.length) := by
            intro hready
            rw [Queue.turn, Queue.filled_of_ready hready] at hturn
            split at hturn
            · cases hturn
              rw [← hbytes]
              exact readTrace_waits hM hb' htake' hreads
            · rcases Queue.read_cases hturn with ⟨hend, hending⟩ | ⟨c, rfl, hblock, rfl⟩
              · have hts : ts.length = 0 := by
                  rcases hend with rfl | rfl <;> exact hreads.symm
                exact ⟨fun _ => Queue.take_nil htake' hts, fun _ _ _ => .inl hending⟩
              · dsimp only at hreads
                cases hpos : strnpos c.bytes nl with
                | some p =>
                    rw [hpos, Option.isSome_some, if_pos rfl] at hreads
                    have hfound : (strnpos ((q.arrive t.before).block 0) nl).isSome := by
                      rw [← hblock, hpos]
                      rfl
                    exact ⟨fun _ => Queue.take_nil htake' hreads.symm,
                      fun _ _ _ => .inr (.inl ⟨0, Queue.length_of_isSome_block hfound, hfound⟩)⟩
                | none =>
                    rw [hpos, Option.isSome_none, if_neg (by simp)] at hreads
                    have hlen := c.le
                    have hsized : Sized (64 * 1024 * 1024)
                        { b' with bytes := b'.bytes ++ c.bytes } := by
                      refine ⟨hb'.size, ?_⟩
                      show (b'.bytes ++ c.bytes).length ≤ b'.size
                      rw [List.length_append]
                      omega
                    have hnext := readTrace_waits hM hsized htake' hreads
                    rw [hblock] at hpos
                    rwa [List.length_append, hbytes, hblock, Queue.suffices_drop hpos] at hnext
          refine ⟨fun h => ?_, fun hmalloc hquiet hnot => ?_⟩
          · have hsuffices := h.arrive t.before
            have hready := hsuffices.ready hle
            exact hwaited.mpr ⟨hready, (hturn' hready).1 hsuffices⟩
          · obtain ⟨hready, hnot'⟩ := hwaited.mp hnot
            have h := (hturn' hready).2 hmalloc
              (fun t ht => hquiet t (List.mem_cons_of_mem _ ht)) hnot'
            rwa [hquiet t List.mem_cons_self, Queue.arrive_empty] at h

/-- **A call does not wait** if nothing needs to follow what is carried over and the
queue; and if it does not, though nothing arrives while it runs, then nothing needed to. -/
theorem creadlineTrace_waits {env : CreadlineEnv}
    (hM : env.maxLinebufSize = (64 * 1024 * 1024 : Nat)) {buffer : CreadlineBuf}
    (hbuf : buffer.nbytes < blockSize) {turns : List ReadTurn} {q : Queue} {taken : Queue.Taken}
    (htake : q.take turns = some taken)
    (hreads : (creadlineTrace env buffer taken.results).reads = turns.length) :
    (q.SufficesCall buffer.restored → taken.waited = false) ∧
      ((∀ n, env.malloc n = true) → (∀ t ∈ turns, t.before = .empty) → taken.waited = false →
        q.SufficesCall buffer.restored) := by
  rw [creadlineTrace_reads] at hreads
  cases hpos : strnpos buffer.restored nl with
  | some p =>
      have hfound : (strnpos buffer.restored nl).isSome := by
        rw [hpos]
        rfl
      rw [if_pos (.inr hfound)] at hreads
      exact ⟨fun _ => Queue.take_nil htake hreads.symm, fun _ _ _ => .inl hfound⟩
  | none =>
      have hnone : ¬ (strnpos buffer.restored nl).isSome := by simp [hpos]
      have hiff : q.SufficesCall buffer.restored ↔ q.Suffices buffer.restored.length :=
        or_iff_right hnone
      rw [hiff]
      by_cases hmalloc : env.malloc blockSize = true
      · rw [if_neg (by simp [hmalloc, hpos])] at hreads
        have hsized : Sized (64 * 1024 * 1024) ⟨buffer.restored, blockSize⟩ :=
          ⟨doublingSize_blockSize (by decide), (length_restored buffer ▸ hbuf).le⟩
        exact readTrace_waits hM hsized htake hreads
      · rw [if_pos (.inl (by simpa using hmalloc))] at hreads
        exact ⟨fun _ => Queue.take_nil htake hreads.symm,
          fun hgranted _ _ => absurd (hgranted blockSize) hmalloc⟩

/-- **Nor does it stay in a `read()`**: with nothing there after the reads of `turns`, a
call that needs nothing to follow does not read again. -/
theorem creadlineTrace_stalls {env : CreadlineEnv}
    (hM : env.maxLinebufSize = (64 * 1024 * 1024 : Nat)) {buffer : CreadlineBuf}
    (hbuf : buffer.nbytes < blockSize) {turns : List ReadTurn} {q : Queue} {taken : Queue.Taken}
    (htake : q.take turns = some taken)
    (hreads : (creadlineTrace env buffer taken.results).reads = turns.length + 1)
    (hempty : ¬ taken.left.Ready) : ¬ q.SufficesCall buffer.restored := by
  -- if the peer closed the connection now, the call would return, and would have waited
  intro hsuffices
  obtain ⟨taken', htake', hresults, hwaited⟩ := Queue.take_closed htake hempty
  have hreads' : (creadlineTrace env buffer taken'.results).reads =
      (turns ++ [(⟨.empty, ⟨[], some .closed⟩, false⟩ : ReadTurn)]).length := by
    rw [List.length_append, List.length_singleton, ← hreads, hresults, creadlineTrace_reads,
      creadlineTrace_reads, readTrace_reads_eof]
  have hnot := (creadlineTrace_waits hM hbuf htake' hreads').1 hsuffices
  rw [hwaited] at hnot
  cases hnot

end Libjapi
