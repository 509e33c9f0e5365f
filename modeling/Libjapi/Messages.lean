/-
# `Libjapi.Messages` — JSON trees over a connection

Who sends a message turns the tree into a line with `japi_get_jobj_as_ndstr`
and calls `write_n` with it; who receives it calls `creadline_r` and parses the
line.  Between the two lie `write()`s that take a part, one that fails, and
`read()`s of any size, interrupted or not:

    the trees that are received are those whose `write_n` succeeded, in order;
    the calls that are left give the end of the stream       `send_received`

Of json-c it takes that a printed tree is parsed back and holds no line end.
-/
import Libjapi.Answers
import Libjapi.CreadlineLines
import Libjapi.RwN

namespace Libjapi

/-- What json-c makes of a tree, without a newline behind it. -/
def line (J : JsonC) (tree : Json) : List Byte := (J.toJsonString tree).bytes

/-- A printed tree has no line end in it, fits into a line, and is parsed back. -/
structure Prints (J : JsonC) (tree : Json) : Prop where
  nl : nl ∉ line J tree
  cr : cr ∉ line J tree
  parse : J.parse (J.toJsonString tree) = some tree
  length : (line J tree).length ≤ lineLimit

/-- The lines of some trees, one after the other. -/
def printedLines (J : JsonC) (trees : List Json) : List Byte :=
  ((trees.map (line J)).map (· ++ [Libjapi.nl])).flatten

variable {J : JsonC}

/-! ## Receiving -/

/-- The tree that a call of `creadline_r` delivers. -/
def received (J : JsonC) (r : Int × Option (List Byte)) : Option Json :=
  r.2.bind fun line => J.parse (CStr.ofBytes line)

theorem Prints.received {tree : Json} (h : Prints J tree) :
    Libjapi.received J (lineResult (line J tree)) = some tree := by
  have hstrip : stripCr (line J tree) = line J tree :=
    if_neg fun hlast => h.cr (List.mem_of_getLast? hlast)
  simp only [Libjapi.received, lineResult, hstrip, Option.bind_some]
  rw [line, CStr.ofBytes_self, h.parse]

theorem received_lines {trees : List Json} (h : ∀ tree ∈ trees, Prints J tree) (t : List Byte) :
    (((trees.map (line J)).map lineResult) ++ [endResult t]).filterMap (received J) = trees := by
  have hend : received J (endResult t) = none := rfl
  rw [List.filterMap_append, List.filterMap_cons, hend, List.filterMap_nil, List.append_nil]
  induction trees with
  | nil => rfl
  | cons tree trees ih =>
      rw [List.map_cons, List.map_cons, List.filterMap_cons_some (h tree List.mem_cons_self).received,
        ih fun q hq => h q (List.mem_cons_of_mem tree hq)]

/-- **The lines of a stream are read back as the trees they were printed from**, however
the stream is cut; what follows the last newline is never delivered. -/
theorem stream_received {trees : List Json} (h : ∀ tree ∈ trees, Prints J tree) {t : List Byte}
    (hnl : Libjapi.nl ∉ t) {buffer : CreadlineBuf} (hbuf : buffer.nbytes = 0) {input : List ReadRes}
    (hdata : OnlyData input) (harrived : bytesOf input <+: printedLines J trees ++ t) (n : Nat) :
    (creadlineCalls libEnv n buffer input).filterMap (received J) <+: trees ∧
      (bytesOf input = printedLines J trees ++ t → trees.length < n →
        creadlineCalls libEnv n buffer input =
            (trees.map fun tree => lineResult (line J tree)) ++ [endResult t] ∧
          (creadlineCalls libEnv n buffer input).filterMap (received J) = trees) := by
  have hnoNl : ∀ l ∈ trees.map (line J), Libjapi.nl ∉ l := by
    intro l hl
    obtain ⟨tree, htree, rfl⟩ := List.mem_map.mp hl
    exact (h tree htree).nl
  have hsplit := splitLines_join hnoNl hnl
  rw [← printedLines] at hsplit
  have hlines : lines Libjapi.nl (printedLines J trees ++ t) = trees.map (line J) :=
    congrArg Prod.fst hsplit
  -- the lines that have arrived are the first ones that were sent
  have harrivedLines : lines Libjapi.nl (bytesOf input) <+:
      lines Libjapi.nl (printedLines J trees ++ t) := lines_of_prefix harrived
  rw [hlines] at harrivedLines
  have hprints : ∀ l ∈ lines Libjapi.nl (bytesOf input), ∃ tree, Prints J tree ∧ l = line J tree := by
    intro l hl
    obtain ⟨tree, htree, rfl⟩ := List.mem_map.mp (harrivedLines.subset hl)
    exact ⟨tree, h tree htree, rfl⟩
  have hfree : ∀ l ∈ lines Libjapi.nl (bytesOf input), (0 : Byte) ∉ l := by
    intro l hl
    obtain ⟨tree, -, rfl⟩ := hprints l hl
    exact (J.toJsonString tree).noNul
  have hrestored : buffer.restored = [] := by simp [CreadlineBuf.restored, hbuf]
  have hcalls : creadlineCalls libEnv n buffer input = (streamResults (bytesOf input)).take n := by
    have hall := tame_calls n buffer input hdata (by simp [hrestored]) ?_ ?_
    · rwa [hrestored, List.nil_append] at hall
    · rw [hrestored, List.nil_append]
      intro l hl
      obtain ⟨tree, htree, rfl⟩ := hprints l hl
      exact ⟨SearchClear.of_noNul (hfree _ hl), htree.length⟩
    · rw [hrestored, List.nil_append]
      exact fun l hl => CarryClear.of_noNul (hfree l (List.mem_of_mem_tail hl))
  have htrees : ∀ k : Nat, lines Libjapi.nl (bytesOf input) = (trees.take k).map (line J) →
      (streamResults (bytesOf input)).filterMap (received J) = trees.take k := by
    intro k hk
    rw [streamResults, hk]
    exact received_lines (fun tree htree => h tree (List.mem_of_mem_take htree)) _
  rw [hcalls]
  constructor
  · -- fewer calls deliver fewer of them
    have htake := List.prefix_iff_eq_take.mp harrivedLines
    rw [← List.map_take] at htake
    refine ((List.take_prefix n _).filterMap (received J)).trans ?_
    rw [htrees _ htake]
    exact List.take_prefix _ _
  · intro hall hn
    have hresults : streamResults (bytesOf input) =
        (trees.map (line J)).map lineResult ++ [endResult t] := by
      rw [streamResults, hall, hlines]
      exact congrArg (fun r => _ ++ [endResult r]) (congrArg Prod.snd hsplit)
    have hlen : (streamResults (bytesOf input)).length ≤ n := by
      rw [hresults, List.length_append, List.length_map, List.length_map, List.length_singleton]
      omega
    rw [List.take_of_length_le hlen, hresults]
    exact ⟨by rw [List.map_map]; rfl, received_lines h t⟩

/-! ## Sending -/

/-- **A line is sent whole, or its newline is not sent.** -/
theorem Prints.writeN {tree : Json} (h : Prints J tree) (write : Nat → Int) :
    let r := Libjapi.writeN write (line J tree ++ [Libjapi.nl]) (line J tree ++ [Libjapi.nl]).length
    (0 < r.1 ∧ r.2 = line J tree ++ [Libjapi.nl]) ∨
      (r.1 ≤ 0 ∧ Libjapi.nl ∉ r.2 ∧ r.2 <+: line J tree) := by
  have hlen := h.length
  have hsize : toInt32 (line J tree ++ [Libjapi.nl]).length = (line J tree).length + 1 := by
    have hcount : (line J tree ++ [Libjapi.nl]).length = (line J tree).length + 1 := by simp
    rw [hcount, toInt32_of_lt (by omega)]
    · simp
    · simp only [lineLimit, blockSize] at hlen
      omega
  obtain ⟨n, hsent, ⟨hn, hret, -⟩ | ⟨hn, hret, -⟩⟩ :=
    writeN_spec write (line J tree ++ [Libjapi.nl]) (line J tree ++ [Libjapi.nl]).length
  · refine .inl ⟨by omega, ?_⟩
    rw [hsent]
    refine List.take_of_length_le ?_
    simp only [List.length_append, List.length_singleton]
    omega
  · have hpart : (Libjapi.writeN write (line J tree ++ [Libjapi.nl])
        (line J tree ++ [Libjapi.nl]).length).2 = (line J tree).take n := by
      rw [hsent, List.take_append_of_le_length (by omega)]
    refine .inr ⟨hret, ?_, ?_⟩
    · rw [hpart]
      exact fun hmem => h.nl (List.mem_of_mem_take hmem)
    · rw [hpart]
      exact List.take_prefix _ _

/-- A tree to be sent, and what the `write()`s give. -/
structure Posting where
  heap : JHeap
  jobj : JPtr
  write : Nat → Int

namespace Posting

def tree (p : Posting) : Json := p.heap.read p.jobj

/-- `japi_get_jobj_as_ndstr` and `write_n`: its return value, and the bytes the `write()`s took. -/
def send (J : JsonC) (p : Posting) : Int × List Byte :=
  match japiGetJobjAsNdstr J true p.heap p.jobj with
  | some msg => writeN p.write msg.bytes msg.bytes.length
  | none => (-1, [])

/-- The messages, up to the first one whose `write_n` fails: the number of those that
were sent, and the bytes the `write()`s took. -/
def sendAll (J : JsonC) : List Posting → Nat × List Byte
  | [] => (0, [])
  | p :: ps =>
      if (p.send J).1 ≤ 0 then (0, (p.send J).2)
      else ((sendAll J ps).1 + 1, (p.send J).2 ++ (sendAll J ps).2)

theorem sendAll_bytes {ps : List Posting} (h : ∀ p ∈ ps, Prints J p.tree) :
    (sendAll J ps).1 ≤ ps.length ∧ ∃ t, nl ∉ t ∧
      (sendAll J ps).2 = printedLines J ((ps.take (sendAll J ps).1).map tree) ++ t := by
  induction ps with
  | nil => exact ⟨Nat.le_refl 0, [], List.not_mem_nil, rfl⟩
  | cons p ps ih =>
      have hp : (0 < (p.send J).1 ∧ (p.send J).2 = line J p.tree ++ [nl]) ∨
          ((p.send J).1 ≤ 0 ∧ nl ∉ (p.send J).2 ∧ (p.send J).2 <+: line J p.tree) :=
        (h p List.mem_cons_self).writeN p.write
      have hcons : sendAll J (p :: ps) = if (p.send J).1 ≤ 0 then (0, (p.send J).2)
          else ((sendAll J ps).1 + 1, (p.send J).2 ++ (sendAll J ps).2) := by rw [sendAll]
      -- from here on only what the call of `write_n` gave matters
      generalize p.send J = r at hp hcons
      obtain ⟨ret, sent⟩ := r
      rcases hp with ⟨hret, hsent⟩ | ⟨hret, hnl, -⟩
      · obtain ⟨hle, t, hnl, hbytes⟩ := ih fun q hq => h q (List.mem_cons_of_mem p hq)
        rw [hcons, if_neg (Int.not_le.mpr hret)]
        refine ⟨Nat.succ_le_succ hle, t, hnl, ?_⟩
        dsimp only at hsent ⊢
        rw [hsent, hbytes]
        simp only [printedLines, List.take_succ_cons, List.map_cons, List.flatten_cons, List.append_assoc]
      · rw [hcons, if_pos hret]
        exact ⟨Nat.zero_le _, sent, hnl, rfl⟩

/-- **The trees that are received are those that were sent.**  `input` is what has
arrived of it, cut in any way; once all of it has, these are all trees whose
`write_n` succeeded, and what follows them is the end of the stream. -/
theorem send_received {ps : List Posting} (h : ∀ p ∈ ps, Prints J p.tree) {buffer : CreadlineBuf}
    (hbuf : buffer.nbytes = 0) {input : List ReadRes} (hdata : OnlyData input)
    (harrived : bytesOf input <+: (sendAll J ps).2) (n : Nat) :
    (creadlineCalls libEnv n buffer input).filterMap (received J) <+:
        (ps.take (sendAll J ps).1).map tree ∧
      (bytesOf input = (sendAll J ps).2 → (sendAll J ps).1 < n →
        ∃ t, creadlineCalls libEnv n buffer input =
            ((ps.take (sendAll J ps).1).map fun p => lineResult (line J p.tree)) ++ [endResult t] ∧
          (creadlineCalls libEnv n buffer input).filterMap (received J) =
            (ps.take (sendAll J ps).1).map tree) := by
  obtain ⟨hle, t, hnl, hbytes⟩ := sendAll_bytes h
  have hsent : ∀ j ∈ (ps.take (sendAll J ps).1).map tree, Prints J j := by
    intro j hj
    obtain ⟨p, hp, rfl⟩ := List.mem_map.mp hj
    exact h p (List.mem_of_mem_take hp)
  have hlen : ((ps.take (sendAll J ps).1).map tree).length = (sendAll J ps).1 := by
    rw [List.length_map, List.length_take, Nat.min_eq_left hle]
  rw [hbytes] at harrived ⊢
  obtain ⟨hpart, hall⟩ := stream_received hsent hnl hbuf hdata harrived n
  rw [hlen, List.map_map] at hall
  exact ⟨hpart, fun heq hn => ⟨t, hall heq hn⟩⟩

/-- The string `"hi"`. -/
def postHi (write : Nat → Int) : Posting := ⟨⟨[⟨.string [104, 105], 1⟩]⟩, some 0, write⟩

/-- It is sent twice; the second time the third `write()` fails. -/
def hiTwice : List Posting := [postHi fun _ => 5, postHi fun k => if k = 2 then -1 else 1]

/-- It is printed as it is written here. -/
def hiJson : JsonC := .table [(CStr.lit "\"hi\"", .string [104, 105])]

theorem prints_hiTwice : ∀ p ∈ hiTwice, Prints hiJson p.tree := by
  simp only [hiTwice, List.forall_mem_cons, List.not_mem_nil, false_implies, implies_true, and_true]
  constructor
  · exact ⟨by decide, by decide, rfl, by decide⟩
  · exact ⟨by decide, by decide, rfl, by decide⟩

theorem sendAll_hiTwice : sendAll hiJson hiTwice = (1, [34, 104, 105, 34, 10, 34, 104]) := by
  have hsend : ∀ write, (postHi write).send hiJson = writeN write [34, 104, 105, 34, 10] 5 :=
    fun _ => rfl
  have hwhole : writeN (fun _ => 5) [34, 104, 105, 34, 10] 5 = (5, [34, 104, 105, 34, 10]) := by
    simp [writeN, rwLoop, toInt32]
  have hcut : writeN (fun k => if k = 2 then -1 else 1) [34, 104, 105, 34, 10] 5 =
      (-1, [34, 104]) := by
    simp [writeN, rwLoop, toInt32]
  rw [hiTwice, sendAll, sendAll, hsend, hsend, hwhole, hcut]
  rfl

/-- What is received of it, in two reads with an interruption between them. -/
theorem send_received_hi :
    (creadlineCalls libEnv 3 ⟨[], 0⟩ [.data ⟨[34, 104, 105], by decide, by decide⟩, .eintr,
        .data ⟨[34, 10, 34, 104], by decide, by decide⟩]).filterMap (received hiJson) =
      [.string [104, 105]] := by
  have hdata : OnlyData [.data ⟨[34, 104, 105], by decide, by decide⟩, .eintr,
      .data ⟨[34, 10, 34, 104], by decide, by decide⟩] := by simp [OnlyData]
  obtain ⟨-, hall⟩ := send_received prints_hiTwice (show CreadlineBuf.nbytes ⟨[], 0⟩ = 0 from rfl)
    hdata (by rw [sendAll_hiTwice]; exact List.prefix_rfl) 3
  obtain ⟨-, -, hreceived⟩ := hall (by rw [sendAll_hiTwice]; rfl) (by rw [sendAll_hiTwice]; decide)
  rw [sendAll_hiTwice] at hreceived
  exact hreceived

end Posting

end Libjapi
