/-
# `Libjapi.Sockets` — descriptors, connections and the log of the server thread

The kernel is the list of the connections accepted so far, each with the
descriptor it was given and with all that `read()` returns on it.  A descriptor
is given again once it is closed, so a connection is known by its place in the
list, and `connOf` says which one a descriptor stands for at the moment.

`Traced` ties the log of what the thread did to that list: which connections
were accepted, and that each was closed at most once, and not while another
connection had its descriptor.
-/
import Libjapi.Context
import Mathlib.Data.List.Chain

namespace Libjapi

/-! ## The kernel and the log -/

/-- A connection: its descriptor, all that `read()` returns on it, the part not
yet read, and whether the descriptor is open. -/
structure Conn where
  socket : Int
  sent : List ReadRes
  unread : List ReadRes
  isOpen : Bool

/-- A connection when it is accepted. -/
def Conn.new (socket : Int) (sent : List ReadRes) : Conn := ⟨socket, sent, sent, true⟩

/-- The connection with its descriptor closed. -/
def Conn.shut (c : Conn) : Conn := { c with isOpen := false }

/-- The connection a descriptor stands for. -/
def connOf (conns : List Conn) (socket : Int) : Option Nat :=
  conns.findIdx? fun c => c.isOpen && c.socket == socket

/-- What the server thread did. -/
inductive Entry where
  | accepted (conn : Nat) (socket : Int) (admitted : Bool)
  | processed (conn : Option Nat) (line : List Byte) (socket : Int) (response : Option (List Byte))
  | written (conn : Option Nat) (socket : Int) (response : List Byte)
  | closed (conn : Option Nat) (socket : Int)

/-- The entry closes the connection. -/
def Entry.closes (i : Nat) : Entry → Bool
  | .closed (some j) _ => j == i
  | _ => false

/-! ## Descriptors and connections -/

/-- A descriptor stands for one open connection at a time. -/
def OpenOnce (conns : List Conn) : Prop :=
  ∀ (i j : Nat) (c d : Conn), conns[i]? = some c → conns[j]? = some d →
    c.isOpen = true → d.isOpen = true → c.socket = d.socket → i = j

theorem connOf_eq_none {conns : List Conn} {socket : Int} :
    connOf conns socket = none ↔ ∀ c ∈ conns, c.isOpen = true → c.socket ≠ socket := by
  simp [connOf, List.findIdx?_eq_none_iff]

theorem connOf_some {conns : List Conn} {socket : Int} {i : Nat}
    (h : connOf conns socket = some i) :
    ∃ c, conns[i]? = some c ∧ c.isOpen = true ∧ c.socket = socket := by
  obtain ⟨hi, hc, -⟩ := List.findIdx?_eq_some_iff_getElem.mp h
  exact ⟨conns[i], List.getElem?_eq_getElem hi, by simpa using hc⟩

theorem OpenOnce.connOf_eq {conns : List Conn} (h : OpenOnce conns) {i : Nat} {c : Conn}
    (hi : conns[i]? = some c) (hopen : c.isOpen = true) : connOf conns c.socket = some i := by
  cases hc : connOf conns c.socket with
  | none => exact absurd rfl (connOf_eq_none.mp hc c (List.mem_of_getElem? hi) hopen)
  | some j =>
      obtain ⟨d, hj, hd, hsock⟩ := connOf_some hc
      rw [h i j c d hi hj hopen hd hsock.symm]

/-- The log tells which connections were accepted and which of them are open. -/
structure Traced (conns : List Conn) (log : List Entry) : Prop where
  accepted : ∀ i s, (∃ b, Entry.accepted i s b ∈ log) ↔ ∃ c, conns[i]? = some c ∧ c.socket = s
  closes : ∀ i c, conns[i]? = some c →
    log.countP (Entry.closes i) = if c.isOpen = true then 0 else 1
  closed : ∀ co s, Entry.closed co s ∈ log → ∃ i c, co = some i ∧ conns[i]? = some c ∧ c.socket = s

/-- Entries that neither open nor close a connection. -/
def Entry.quiet : Entry → Prop
  | .processed .. | .written .. => True
  | _ => False

theorem Traced.record {conns : List Conn} {log : List Entry} (h : Traced conns log) {e : Entry}
    (he : e.quiet) : Traced conns (log ++ [e]) := by
  have hcount : ∀ i, Entry.closes i e = false := by
    intro i
    cases e <;> simp_all [Entry.quiet, Entry.closes]
  refine ⟨?_, ?_, ?_⟩
  · intro i s
    rw [← h.accepted i s]
    constructor
    · rintro ⟨b, hb⟩
      rcases List.mem_append.mp hb with hb | hb
      · exact ⟨b, hb⟩
      · cases List.mem_singleton.mp hb
        cases he
    · rintro ⟨b, hb⟩
      exact ⟨b, by simp [hb]⟩
  · intro i c hi
    simp [List.countP_append, hcount, h.closes i c hi]
  · intro co s hmem
    rcases List.mem_append.mp hmem with hmem | hmem
    · exact h.closed co s hmem
    · cases List.mem_singleton.mp hmem
      cases he

/-- The fields of a connection that reading does not change. -/
def Conn.key (c : Conn) : Int × Bool := (c.socket, c.isOpen)

theorem getElem?_of_key {conns conns' : List Conn}
    (h : conns'.map Conn.key = conns.map Conn.key) {i : Nat} {c : Conn}
    (hi : conns'[i]? = some c) :
    ∃ d, conns[i]? = some d ∧ d.socket = c.socket ∧ d.isOpen = c.isOpen := by
  have := congrArg (·[i]?) h
  simp only [List.getElem?_map, hi, Option.map_some] at this
  obtain ⟨d, hd, hkey⟩ := Option.map_eq_some_iff.mp this.symm
  exact ⟨d, hd, congrArg Prod.fst hkey, congrArg Prod.snd hkey⟩

theorem OpenOnce.congr {conns conns' : List Conn} (h : OpenOnce conns)
    (hk : conns'.map Conn.key = conns.map Conn.key) : OpenOnce conns' := by
  intro i j c d hi hj hc hd hs
  obtain ⟨c', hi', hsc, hoc⟩ := getElem?_of_key hk hi
  obtain ⟨d', hj', hsd, hod⟩ := getElem?_of_key hk hj
  exact h i j c' d' hi' hj' (hoc.trans hc) (hod.trans hd) (hsc.trans (hs.trans hsd.symm))

theorem Traced.congr {conns conns' : List Conn} {log : List Entry} (h : Traced conns log)
    (hk : conns'.map Conn.key = conns.map Conn.key) : Traced conns' log := by
  refine ⟨fun i s => (h.accepted i s).trans ⟨?_, ?_⟩, ?_, ?_⟩
  · rintro ⟨c, hi, rfl⟩
    obtain ⟨d, hd, hsock, -⟩ := getElem?_of_key hk.symm hi
    exact ⟨d, hd, hsock⟩
  · rintro ⟨c, hi, rfl⟩
    obtain ⟨d, hd, hsock, -⟩ := getElem?_of_key hk hi
    exact ⟨d, hd, hsock⟩
  · intro i c hi
    obtain ⟨d, hd, -, hopen⟩ := getElem?_of_key hk hi
    rw [h.closes i d hd, hopen]
  · intro co s hmem
    obtain ⟨i, c, hco, hi, hsock⟩ := h.closed co s hmem
    obtain ⟨d, hd, hsock', -⟩ := getElem?_of_key hk.symm hi
    exact ⟨i, d, hco, hd, hsock'.trans hsock⟩

theorem getElem?_modify_shut {conns : List Conn} {i j : Nat} {d : Conn}
    (h : (conns.modify i Conn.shut)[j]? = some d) :
    ∃ c, conns[j]? = some c ∧ c.socket = d.socket ∧ c.sent = d.sent ∧ c.unread = d.unread ∧
      d.isOpen = if i = j then false else c.isOpen := by
  rw [List.getElem?_modify] at h
  cases hj : conns[j]? with
  | none => simp [hj] at h
  | some c =>
      simp only [hj, Option.map_eq_map, Option.map_some, Option.some.injEq] at h
      subst h
      refine ⟨c, rfl, ?_⟩
      split <;> simp [Conn.shut]

theorem OpenOnce.shut {conns : List Conn} (h : OpenOnce conns) (i : Nat) :
    OpenOnce (conns.modify i Conn.shut) := by
  intro j k c d hj hk hc hd hs
  obtain ⟨c', hj', hsc, -, -, hoc⟩ := getElem?_modify_shut hj
  obtain ⟨d', hk', hsd, -, -, hod⟩ := getElem?_modify_shut hk
  rw [hc] at hoc
  rw [hd] at hod
  refine h j k c' d' hj' hk' ?_ ?_ (hsc.trans (hs.trans hsd.symm))
  · split at hoc
    · cases hoc
    · exact hoc.symm
  · split at hod
    · cases hod
    · exact hod.symm

theorem OpenOnce.shut_eq_map {conns : List Conn} (h : OpenOnce conns) {i : Nat} {conn : Conn}
    (hi : conns[i]? = some conn) (hopen : conn.isOpen = true) :
    conns.modify i Conn.shut =
      conns.map fun c => if c.socket = conn.socket then c.shut else c := by
  refine List.ext_getElem? ?_
  intro j
  rw [List.getElem?_modify, List.getElem?_map]
  cases hj : conns[j]? with
  | none => rfl
  | some c =>
      simp only [Option.map_eq_map, Option.map_some]
      by_cases hij : i = j
      · subst hij
        rw [hi] at hj
        cases hj
        simp
      · by_cases hs : c.socket = conn.socket
        · have hclosed : c.isOpen = false := by
            by_contra hc
            exact hij (h i j conn c hi hj hopen (Bool.eq_true_of_not_eq_false hc) hs.symm)
          have hshut : c.shut = c := by rw [Conn.shut, ← hclosed]
          simp [hij, hs, hshut]
        · simp [hij, hs]

theorem Traced.shut {conns : List Conn} {log : List Entry} (h : Traced conns log) {i : Nat}
    {c : Conn} (hi : conns[i]? = some c) (hopen : c.isOpen = true) :
    Traced (conns.modify i Conn.shut) (log ++ [.closed (some i) c.socket]) := by
  have hget : ∀ (j : Nat) (d : Conn), conns[j]? = some d →
      ∃ d' : Conn, (conns.modify i Conn.shut)[j]? = some d' ∧ d'.socket = d.socket := by
    intro j d hd
    rw [List.getElem?_modify, hd]
    exact ⟨_, rfl, by dsimp only; split <;> rfl⟩
  refine ⟨?_, ?_, ?_⟩
  · intro j s
    have hmem : (∃ b, Entry.accepted j s b ∈ log ++ [.closed (some i) c.socket]) ↔
        ∃ b, Entry.accepted j s b ∈ log := by simp
    rw [hmem, h.accepted]
    constructor
    · rintro ⟨d, hd, rfl⟩
      exact hget j d hd
    · rintro ⟨d, hd, rfl⟩
      obtain ⟨d', hd', hsock, -⟩ := getElem?_modify_shut hd
      exact ⟨d', hd', hsock⟩
  · intro j d hj
    obtain ⟨d', hd', -, -, -, ho⟩ := getElem?_modify_shut hj
    rw [List.countP_append, h.closes j d' hd', ho]
    by_cases hij : i = j
    · subst hij
      rw [hi] at hd'
      cases hd'
      simp [hopen, Entry.closes]
    · simp [hij, Entry.closes]
  · intro co s hmem
    rcases List.mem_append.mp hmem with hmem | hmem
    · obtain ⟨j, d, hco, hd, hsock⟩ := h.closed co s hmem
      obtain ⟨d', hd', hsock'⟩ := hget j d hd
      exact ⟨j, d', hco, hd', hsock'.trans hsock⟩
    · cases List.mem_singleton.mp hmem
      obtain ⟨d', hd', hsock'⟩ := hget i c hi
      exact ⟨i, d', rfl, hd', hsock'⟩

theorem getElem?_concat {conns : List Conn} {c d : Conn} {j : Nat} :
    (conns ++ [c])[j]? = some d ↔ conns[j]? = some d ∨ (j = conns.length ∧ d = c) := by
  rcases Nat.lt_trichotomy j conns.length with hlt | rfl | hgt
  · rw [List.getElem?_append_left hlt]
    simp [hlt.ne]
  · simp [eq_comm]
  · simp only [List.getElem?_eq_none (l := conns) hgt.le, hgt.ne', false_and, or_false, reduceCtorEq,
      iff_false]
    rw [List.getElem?_eq_none (by simp; omega)]
    simp

theorem OpenOnce.connect {conns : List Conn} (h : OpenOnce conns) {c : Conn}
    (hnew : connOf conns c.socket = none) : OpenOnce (conns ++ [c]) := by
  rw [connOf_eq_none] at hnew
  intro j k d e hj hk hd he hs
  rcases getElem?_concat.mp hj with hj' | ⟨rfl, rfl⟩ <;>
    rcases getElem?_concat.mp hk with hk' | ⟨rfl, rfl⟩
  · exact h j k d e hj' hk' hd he hs
  · exact absurd hs (hnew d (List.mem_of_getElem? hj') hd)
  · exact absurd hs.symm (hnew e (List.mem_of_getElem? hk') he)
  · rfl

theorem Traced.connect {conns : List Conn} {log : List Entry} (h : Traced conns log) {c : Conn}
    (hopen : c.isOpen = true) (b : Bool) :
    Traced (conns ++ [c]) (log ++ [.accepted conns.length c.socket b]) := by
  have hnone : conns[conns.length]? = none := List.getElem?_eq_none (Nat.le_refl _)
  refine ⟨?_, ?_, ?_⟩
  · intro j s
    have hmem : (∃ b', Entry.accepted j s b' ∈ log ++ [.accepted conns.length c.socket b]) ↔
        (∃ b', Entry.accepted j s b' ∈ log) ∨ (j = conns.length ∧ s = c.socket) := by
      simp only [List.mem_append, List.mem_singleton, Entry.accepted.injEq]
      constructor
      · rintro ⟨b', h | ⟨h₁, h₂, -⟩⟩
        · exact .inl ⟨b', h⟩
        · exact .inr ⟨h₁, h₂⟩
      · rintro (⟨b', h⟩ | ⟨h₁, h₂⟩)
        · exact ⟨b', .inl h⟩
        · exact ⟨b, .inr ⟨h₁, h₂, rfl⟩⟩
    rw [hmem, h.accepted]
    simp only [getElem?_concat]
    constructor
    · rintro (⟨d, hd, hs⟩ | ⟨rfl, rfl⟩)
      · exact ⟨d, .inl hd, hs⟩
      · exact ⟨c, .inr ⟨rfl, rfl⟩, rfl⟩
    · rintro ⟨d, hd | ⟨hj, hd⟩, hs⟩
      · exact .inl ⟨d, hd, hs⟩
      · exact .inr ⟨hj, by rw [← hs, hd]⟩
  · intro j d hj
    rw [List.countP_append]
    rcases getElem?_concat.mp hj with hj | ⟨rfl, rfl⟩
    · simp [h.closes j d hj, Entry.closes]
    · -- nothing in the log is about a connection that was not there yet
      have h0 : log.countP (Entry.closes conns.length) = 0 := by
        rw [List.countP_eq_zero]
        intro e he hcl
        obtain ⟨s, rfl⟩ : ∃ s, e = .closed (some conns.length) s := by
          cases e with
          | closed co s =>
              cases co with
              | none => cases hcl
              | some k =>
                  obtain rfl : k = conns.length := by simpa [Entry.closes] using hcl
                  exact ⟨s, rfl⟩
          | _ => cases hcl
        obtain ⟨i, d', hco, hd', -⟩ := h.closed _ s he
        cases hco
        simp at hd'
      simp [h0, hopen, Entry.closes]
  · intro co s hmem
    rcases List.mem_append.mp hmem with hmem | hmem
    · obtain ⟨i, d, hco, hd, hs⟩ := h.closed co s hmem
      exact ⟨i, d, hco, getElem?_concat.mpr (.inl hd), hs⟩
    · cases List.mem_singleton.mp hmem

/-! ## The order of the log -/

/-- Nothing has to follow the entry. -/
def Entry.settled : Entry → Prop
  | .processed _ _ _ (some _) | .accepted _ _ false => False
  | _ => True

/-- What follows an entry: the response of a request is written next, and to
the same socket, nothing else is written, and a refused socket is closed next. -/
def Entry.Follows (e e' : Entry) : Prop :=
  (∀ co s r, (∃ l, e = .processed co l s (some r)) ↔ e' = .written co s r) ∧
    ∀ i s, e = .accepted i s false → e' = .closed (some i) s

theorem Entry.settled.follows {e e' : Entry} (he : e.settled)
    (he' : ∀ co s r, e' ≠ .written co s r) : e.Follows e' := by
  refine ⟨fun co s r => ⟨?_, fun h => absurd h (he' co s r)⟩, ?_⟩
  · rintro ⟨l, rfl⟩
    cases he
  · rintro i s rfl
    cases he

/-- The entries follow each other as they should. -/
structure Ordered (log : List Entry) : Prop where
  chain : log.IsChain Entry.Follows
  first : ∀ e ∈ log.head?, ∀ co s r, e ≠ .written co s r

theorem Ordered.concat {log : List Entry} (h : Ordered log) {e : Entry}
    (hlast : ∀ e' ∈ log.getLast?, e'.settled) (he : ∀ co s r, e ≠ .written co s r) :
    Ordered (log ++ [e]) := by
  refine ⟨List.isChain_append.mpr ⟨h.chain, List.isChain_singleton e, ?_⟩, ?_⟩
  · intro x hx y hy
    cases hy
    exact (hlast x hx).follows he
  · cases log with
    | nil => simpa using he
    | cons a log => exact h.first

theorem Ordered.written {log : List Entry} (h : Ordered log) {co : Option Nat} {l r : List Byte}
    {s : Int} (hlast : log.getLast? = some (.processed co l s (some r))) :
    Ordered (log ++ [.written co s r]) := by
  refine ⟨List.isChain_append.mpr ⟨h.chain, List.isChain_singleton _, ?_⟩, ?_⟩
  · intro x hx y hy
    cases hy
    rw [hlast] at hx
    cases hx
    refine ⟨?_, by simp⟩
    intro co' s' r'
    simp only [Entry.processed.injEq, Option.some.injEq, Entry.written.injEq]
    constructor
    · rintro ⟨l', h₁, -, h₂, h₃⟩
      exact ⟨h₁, h₂, h₃⟩
    · rintro ⟨h₁, h₂, h₃⟩
      exact ⟨l, h₁, rfl, h₂, h₃⟩
  · cases log with
    | nil => cases hlast
    | cons a log => exact h.first

theorem Ordered.refused {log : List Entry} (h : Ordered log) {i : Nat} {s : Int}
    (hlast : ∀ e ∈ log.getLast?, e.settled) :
    Ordered (log ++ [.accepted i s false, .closed (some i) s]) := by
  have h₁ := h.concat (e := .accepted i s false) hlast (by simp)
  have heq : log ++ [.accepted i s false, .closed (some i) s] =
      (log ++ [.accepted i s false]) ++ [.closed (some i) s] := by simp
  rw [heq]
  refine ⟨List.isChain_append.mpr ⟨h₁.chain, List.isChain_singleton _, ?_⟩, ?_⟩
  · intro x hx y hy
    cases hy
    obtain rfl : Entry.accepted i s false = x := by simpa using hx
    exact ⟨by simp, by simp⟩
  · cases log with
    | nil => simp
    | cons a log => exact h.first

theorem isChain_next {R : Entry → Entry → Prop} {pre post : List Entry} {a b : Entry}
    (h : (pre ++ a :: b :: post).IsChain R) : R a b :=
  (List.isChain_cons_cons.mp (List.isChain_append.mp h).2.1).1

theorem Ordered.answered {log : List Entry} (h : Ordered log) {pre post : List Entry}
    {co : Option Nat} {l r : List Byte} {s : Int}
    (hlog : log = pre ++ .processed co l s (some r) :: post) :
    ∀ e ∈ post.head?, e = .written co s r := by
  intro e he
  cases post with
  | nil => cases he
  | cons b post =>
      cases he
      exact ((isChain_next (hlog ▸ h.chain)).1 co s r).mp ⟨l, rfl⟩

theorem Ordered.answers {log : List Entry} (h : Ordered log) {pre post : List Entry}
    {co : Option Nat} {r : List Byte} {s : Int} (hlog : log = pre ++ .written co s r :: post) :
    ∃ pre' l, pre = pre' ++ [.processed co l s (some r)] := by
  rcases List.eq_nil_or_concat pre with rfl | ⟨pre', e, rfl⟩
  · exact absurd rfl (h.first (.written co s r) (by simp [hlog]) co s r)
  · have hlog' : log = pre' ++ e :: .written co s r :: post := by simpa using hlog
    obtain ⟨l, rfl⟩ := ((isChain_next (hlog' ▸ h.chain)).1 co s r).mpr rfl
    exact ⟨pre', l, by simp⟩

theorem Ordered.closed {log : List Entry} (h : Ordered log) {i : Nat} {s : Int}
    (hlast : log.getLast? ≠ some (.accepted i s false)) {pre post : List Entry}
    (hlog : log = pre ++ .accepted i s false :: post) :
    ∃ post', post = .closed (some i) s :: post' := by
  cases post with
  | nil => exact absurd (by simp [hlog]) hlast
  | cons b post =>
      obtain rfl := (isChain_next (hlog ▸ h.chain)).2 i s rfl
      exact ⟨post, rfl⟩

end Libjapi
