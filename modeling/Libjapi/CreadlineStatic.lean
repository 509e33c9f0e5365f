/-
# `Libjapi.CreadlineStatic` — `creadline`, the variant with one buffer for all

`creadline` has one `creadline_buf_t` and the descriptor it was filled from, both
`static`; a call for another descriptor resets the buffer.  So "reading from a
different file descriptor will delete remaining bytes from a previous read", and
the callers of several descriptors are told to use `creadline_r`.  Here the two
are called side by side, `creadline_r` with a buffer for each descriptor, on any
descriptors in any order:

    both return the same, and keep the same bytes for each descriptor, exactly if
    each change of the descriptor finds the buffer empty            `run_static_iff`
-/
import Libjapi.Runs
import Libjapi.CreadlineReads

namespace Libjapi

/-! ## `creadline` -/

/-- `creadline`: what `static int fd_last` becomes, and what the call leaves behind. -/
def creadline (env : CreadlineEnv) (fdLast : Int) (buffer : CreadlineBuf) (fd : Int)
    (input : List ReadRes) : Int × Creadline :=
  let buffer := if fdLast ≠ fd then { buffer with nbytes := 0 } else buffer
  (fd, creadlineR env buffer input)

/-- What a call gave its caller. -/
structure LineCall where
  fd : Int
  ret : Int
  dst : Option (List Byte)

/-- The static variables, and for `creadline_r` a buffer for each descriptor; what is left
to read on each descriptor, and what the calls so far gave, the last one in front. -/
structure BothCreadlines where
  fdLast : Int
  buffer : CreadlineBuf
  unread : Int → List ReadRes
  calls : List LineCall
  bufferOf : Int → CreadlineBuf
  unreadOf : Int → List ReadRes
  callsOf : List LineCall

/-- A call for a descriptor; the allocator may differ from call to call. -/
structure BothCall where
  env : CreadlineEnv
  fd : Int

namespace BothCreadlines

/-- The call of `creadline` and that of `creadline_r`. -/
def step (st : BothCreadlines) (e : BothCall) : Option BothCreadlines :=
  let c := creadline e.env st.fdLast st.buffer e.fd (st.unread e.fd)
  let r := creadlineR e.env (st.bufferOf e.fd) (st.unreadOf e.fd)
  some {
    fdLast := c.1
    buffer := c.2.buffer
    unread := Function.update st.unread e.fd c.2.rest
    calls := ⟨e.fd, c.2.ret, c.2.dst⟩ :: st.calls
    bufferOf := Function.update st.bufferOf e.fd r.buffer
    unreadOf := Function.update st.unreadOf e.fd r.rest
    callsOf := ⟨e.fd, r.ret, r.dst⟩ :: st.callsOf }

/-- No call was made: `fd_last = -1`, and the static buffer is zeroed. -/
def start (unread : Int → List ReadRes) : BothCreadlines where
  fdLast := -1
  buffer := ⟨[], 0⟩
  unread
  calls := []
  bufferOf _ := ⟨[], 0⟩
  unreadOf := unread
  callsOf := []

/-- The bytes `creadline` still has for a descriptor. -/
def kept (st : BothCreadlines) (fd : Int) : List Byte :=
  (if fd = st.fdLast then st.buffer.restored else []) ++ bytesOf (st.unread fd)

/-- The bytes `creadline_r` still has for it. -/
def keptOf (st : BothCreadlines) (fd : Int) : List Byte :=
  (st.bufferOf fd).restored ++ bytesOf (st.unreadOf fd)

/-- The calls gave the same, and no byte is lost. -/
structure Alike (st : BothCreadlines) : Prop where
  calls : st.calls = st.callsOf
  kept : ∀ fd, st.kept fd = st.keptOf fd

/-- A change of the descriptor finds the buffer empty. -/
def SwitchesEmpty (st : BothCreadlines) (e : BothCall) : Prop :=
  e.fd ≠ st.fdLast → st.buffer.nbytes = 0

instance (st : BothCreadlines) (e : BothCall) : Decidable (st.SwitchesEmpty e) :=
  inferInstanceAs (Decidable (_ → _))

/-! ## The buffers hold the same -/

theorem creadlineR_congr (env : CreadlineEnv) {b b' : CreadlineBuf}
    (h : b.restored = b'.restored) (input : List ReadRes) :
    (creadlineR env b input).ret = (creadlineR env b' input).ret ∧
      (creadlineR env b input).dst = (creadlineR env b' input).dst ∧
      (creadlineR env b input).rest = (creadlineR env b' input).rest ∧
      (creadlineR env b input).buffer.restored = (creadlineR env b' input).buffer.restored := by
  rw [creadlineR_eq, creadlineR_eq, h]
  split
  · cases searchExit env b'.restored input with
    | newline lb p rest =>
        refine ⟨rfl, rfl, rfl, ?_⟩
        simp only [takeLine]
        split <;> rfl
    | eof rest => exact ⟨rfl, rfl, rfl, rfl⟩
    | error rest => exact ⟨rfl, rfl, rfl, rfl⟩
  · exact ⟨rfl, rfl, rfl, h⟩

/-- What both keep: the static buffer is that of the last descriptor, and the other
descriptors have none. -/
structure Inv (st : BothCreadlines) : Prop where
  calls : st.calls = st.callsOf
  unread : st.unread = st.unreadOf
  buffer : st.buffer.restored = (st.bufferOf st.fdLast).restored
  others : ∀ fd, fd ≠ st.fdLast → (st.bufferOf fd).restored = []

theorem Inv.alike {st : BothCreadlines} (h : st.Inv) : st.Alike := by
  refine ⟨h.calls, ?_⟩
  intro fd
  rw [kept, keptOf, h.unread]
  congr 1
  split
  · rename_i hfd
    rw [hfd, h.buffer]
  · rename_i hfd
    exact (h.others fd hfd).symm

theorem Inv.step {st st' : BothCreadlines} {e : BothCall} (h : st.Inv) (he : st.SwitchesEmpty e)
    (hs : st.step e = some st') : st'.Inv := by
  cases hs
  -- the buffer that `creadline` goes on with holds what that of the descriptor holds
  have hbuffer : (if st.fdLast ≠ e.fd then { st.buffer with nbytes := 0 }
      else st.buffer).restored = (st.bufferOf e.fd).restored := by
    by_cases hfd : e.fd = st.fdLast
    · rw [if_neg (by simp [hfd]), hfd]
      exact h.buffer
    · rw [if_pos (Ne.symm hfd), h.others e.fd hfd]
      rfl
  obtain ⟨hret, hdst, hrest, hrestored⟩ := creadlineR_congr e.env hbuffer (st.unread e.fd)
  rw [h.unread] at hret hdst hrest hrestored
  refine ⟨?_, ?_, ?_, ?_⟩
  · simp only [creadline, h.unread, hret, hdst, h.calls]
  · simp only [creadline, h.unread, hrest]
  · simp only [creadline, h.unread, Function.update_self, hrestored]
  · intro fd hfd
    have hfd' : fd ≠ e.fd := hfd
    simp only [Function.update_of_ne hfd']
    by_cases hlast : fd = st.fdLast
    · -- the descriptor was changed, so its buffer is empty
      rw [hlast, ← h.buffer]
      refine nbytes_eq_zero_iff.mp (he ?_)
      rw [← hlast]
      exact hfd'.symm
    · exact h.others fd hlast

theorem Inv.needs {st st' : BothCreadlines} {e : BothCall} (h : st.Inv)
    (hs : st.step e = some st') (halike : st'.Alike) : st.SwitchesEmpty e := by
  intro hfd
  cases hs
  have hkept := halike.kept st.fdLast
  have hne : st.fdLast ≠ e.fd := Ne.symm hfd
  simp only [kept, keptOf, creadline, if_neg hne, Function.update_of_ne hne, h.unread,
    List.nil_append] at hkept
  rw [nbytes_eq_zero_iff, h.buffer]
  have hlen := congrArg List.length hkept
  rw [List.length_append] at hlen
  exact List.length_eq_zero_iff.mp (by omega)

theorem inv_start (unread : Int → List ReadRes) : (start unread).Inv :=
  ⟨rfl, rfl, rfl, fun _ _ => rfl⟩

/-- **`creadline` is `creadline_r` exactly if the descriptor is changed with an empty
buffer only.**  For calls on any descriptors, in any order, with any results of `read()`
and of the allocator: the calls give the same, and the same bytes are kept for each
descriptor, behind every call, if and only if each call for another descriptor than the
last one finds no byte in the static buffer. -/
theorem run_static_iff {unread : Int → List ReadRes} {es : List BothCall} {st : BothCreadlines}
    (hrun : run step (start unread) es = some st) :
    (∀ es₁ es₂ st₁, es = es₁ ++ es₂ → run step (start unread) es₁ = some st₁ → st₁.Alike) ↔
      Meets step SwitchesEmpty (start unread) es :=
  run_good_iff (fun h => h.alike) (fun h he hs => h.step he hs) (fun h hs halike => h.needs hs halike)
    (inv_start unread) hrun

/-- Two descriptors: on the first one, what `sent` says; on the others, `"e\n"`. -/
def sentOn (sent : Chunk) (fd : Int) : List ReadRes :=
  if fd = 4 then [.data sent] else [.data ⟨[101, 10], by decide, by decide⟩]

/-- The descriptors are read from in turn. -/
def inTurns : List BothCall := [⟨libEnv, 4⟩, ⟨libEnv, 5⟩, ⟨libEnv, 4⟩]

/-- One line on each. -/
theorem run_static_iff_lines :
    ∃ st, run step (start (sentOn ⟨[97, 10], by decide, by decide⟩)) inTurns = some st ∧
      st.Alike := by
  have hsome : (run step (start (sentOn ⟨[97, 10], by decide, by decide⟩)) inTurns).isSome = true :=
    rfl
  obtain ⟨st, hrun⟩ := Option.isSome_iff_exists.mp hsome
  have hmeets : Meets step SwitchesEmpty (start (sentOn ⟨[97, 10], by decide, by decide⟩))
      inTurns := by decide +kernel
  exact ⟨st, hrun, (run_static_iff hrun).mpr hmeets inTurns [] st (List.append_nil _).symm hrun⟩

/-- **Two lines in one `read()`**: the second one is lost with the change of the
descriptor, and the next call finds the end of the stream. -/
theorem switch_loses :
    ∃ st, run step (start (sentOn ⟨[97, 10, 99, 10], by decide, by decide⟩)) inTurns = some st ∧
      st.calls.map LineCall.dst = [none, some [101], some [97]] ∧
      st.callsOf.map LineCall.dst = [some [99], some [101], some [97]] :=
  ⟨_, rfl, by decide +kernel, by decide +kernel⟩

end BothCreadlines

end Libjapi
