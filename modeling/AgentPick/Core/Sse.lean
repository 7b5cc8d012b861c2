/-
Event streams (server-sent events) as a client reads them. LIBRARY: nothing in this file names the pipeline.

The bytes are decoded as UTF-8, one byte order mark is dropped, and a line ends at CR LF, LF or CR; what is left after the last
end is dropped. A `data` field adds its value and a line feed to the buffer, every other field and every comment leaves the
buffer as it is, and a blank line dispatches the buffer without its last line feed, or nothing if the buffer is empty.

- `lines_append`: a text without a line break, up to its end.
- `decode_messages`: messages of one `data` line and a blank line decode to their data.
- `exists_whole`: the start of an encoded text is an encoded start, and at most three bytes of the next character.
- `decodeSoFar_cut`: a stream of such messages that is cut at any byte decodes to some of its first messages, and to all of them
  iff nothing is missing.
-/
import Mathlib.Tactic
import AgentPick.Core.Text

namespace AgentPick

namespace Sse

/-! ## Reading -/

/-- the lines of a text, after the start of the first -/
def lines (line : Str) : Str → List Str
  | [] => []
  | '\r' :: '\n' :: s => line :: lines [] s
  | c :: s => if c = '\n' ∨ c = '\r' then line :: lines [] s else lines (line ++ [c]) s

/-- the name and the value of a line: a comment has no name, and one space after the colon is none of the value -/
def field (line : Str) : Str × Str :=
  let value := (line.dropWhile (· ≠ ':')).tail
  (line.takeWhile (· ≠ ':'), if value.head? = some ' ' then value.tail else value)

/-- the data of the events, after what the buffer holds -/
def dispatched (buffer : Str) : List Str → List Str
  | [] => []
  | line :: rest =>
    if line = [] then
      if buffer = [] then dispatched [] rest else buffer.dropLast :: dispatched [] rest
    else if (field line).1 = ['d', 'a', 't', 'a'] then dispatched (buffer ++ (field line).2 ++ ['\n']) rest
    else dispatched buffer rest

/-- the data of the events of a stream, if its bytes are UTF-8 -/
def decode (bytes : ByteArray) : Option (List Str) :=
  bytes.utf8Decode?.map fun text =>
    dispatched [] (lines [] (if text.toList.head? = some (Char.ofNat 0xfeff) then text.toList.tail else text.toList))

/-- the data of the events of a stream that may go on: up to three bytes of a character that is not whole are held back -/
def decodeSoFar (bytes : ByteArray) : Option (List Str) :=
  (List.range 4).findSome? fun n => decode (bytes.extract 0 (bytes.size - n))

/-! ## Messages of one line -/

/-- `s.encode("utf-8")` -/
def encode (s : Str) : ByteArray := (String.ofList s).toByteArray

/-- the bytes of a stream, however they were cut -/
def joined (parts : List ByteArray) : ByteArray := parts.foldl (· ++ ·) ByteArray.empty

/-- one `data` line and a blank line -/
def message (data : Str) : Str := ['d', 'a', 't', 'a', ':', ' '] ++ data ++ ['\n', '\n']

/-- a text without a line break -/
def OneLine (s : Str) : Prop := ∀ c ∈ s, c ≠ '\n' ∧ c ≠ '\r'

instance (s : Str) : Decidable (OneLine s) := List.decidableBAll (fun c => c ≠ '\n' ∧ c ≠ '\r') s

theorem encode_append (s t : Str) : encode (s ++ t) = encode s ++ encode t := by
  simp only [encode, String.toByteArray_ofList, List.utf8Encode_append]

theorem utf8Decode_encode (s : Str) : (encode s).utf8Decode? = some s.toArray := by
  rw [encode, String.toByteArray_ofList, List.utf8Decode?_utf8Encode]

theorem joined_encode (texts : List Str) : joined (texts.map encode) = encode texts.flatten := by
  have hfrom : ∀ start : Str, (texts.map encode).foldl (· ++ ·) (encode start) = encode (start ++ texts.flatten) := by
    induction texts with
    | nil =>
      intro start
      rw [List.flatten_nil, List.append_nil]
      rfl
    | cons t texts ih =>
      intro start
      calc ((t :: texts).map encode).foldl (· ++ ·) (encode start)
          = (texts.map encode).foldl (· ++ ·) (encode (start ++ t)) := by
            rw [List.map_cons, List.foldl_cons, encode_append]
        _ = encode (start ++ t ++ texts.flatten) := ih _
        _ = encode (start ++ (t :: texts).flatten) := by rw [List.flatten_cons, List.append_assoc]
  exact hfrom []

theorem lines_lineFeed (line rest : Str) : lines line ('\n' :: rest) = line :: lines [] rest := by
  rw [lines, if_pos (.inl rfl)]
  intro s h
  exact absurd h (by decide)

/-- a text without a line break, up to its end -/
theorem lines_append {s : Str} (h : OneLine s) (line rest : Str) :
    lines line (s ++ '\n' :: rest) = (line ++ s) :: lines [] rest := by
  induction s generalizing line with
  | nil => rw [List.nil_append, lines_lineFeed, List.append_nil]
  | cons c s ih =>
    obtain ⟨hc, hs⟩ := List.forall_mem_cons.1 h
    rw [List.cons_append, lines, if_neg (by simp [hc]), ih hs, List.append_assoc, List.singleton_append]
    intro s' hcr
    exact absurd hcr hc.2

theorem field_data (data : Str) : field (['d', 'a', 't', 'a', ':', ' '] ++ data) = (['d', 'a', 't', 'a'], data) := rfl

theorem dispatched_message {data : Str} (h : OneLine data) (rest : Str) :
    dispatched [] (lines [] (message data ++ rest)) = data :: dispatched [] (lines [] rest) := by
  have hname : OneLine ['d', 'a', 't', 'a', ':', ' '] := by decide
  have hline : OneLine (['d', 'a', 't', 'a', ':', ' '] ++ data) := List.forall_mem_append.2 ⟨hname, h⟩
  have hlines : lines [] (message data ++ rest) = (['d', 'a', 't', 'a', ':', ' '] ++ data) :: [] :: lines [] rest := by
    have hend := lines_append hline [] ('\n' :: rest)
    rw [lines_lineFeed] at hend
    simpa [message] using hend
  rw [hlines, dispatched, if_neg (by simp), field_data, if_pos rfl, dispatched, if_pos rfl, if_neg (by simp)]
  simp

/-- **Messages of one `data` line and a blank line decode to their data.** -/
theorem decode_messages {datas : List Str} (h : ∀ d ∈ datas, OneLine d) :
    decode (encode (datas.flatMap message)) = some datas := by
  have hall : dispatched [] (lines [] (datas.flatMap message)) = datas := by
    induction datas with
    | nil => rfl
    | cons d datas ih =>
      obtain ⟨hd, hrest⟩ := List.forall_mem_cons.1 h
      rw [List.flatMap_cons, dispatched_message hd, ih hrest]
  have hmark : (datas.flatMap message).head? ≠ some (Char.ofNat 0xfeff) := by
    cases datas with
    | nil => exact fun h => by cases h
    | cons d datas => exact fun h => absurd (Option.some.inj h) (by decide)
  rw [decode, utf8Decode_encode, Option.map_some]
  simp only [if_neg hmark, hall]

/-! ## A stream that is cut -/

/-- the data of the events of a text -/
def read (s : Str) : List Str :=
  dispatched [] (lines [] (if s.head? = some (Char.ofNat 0xfeff) then s.tail else s))

theorem decode_encode (s : Str) : decode (encode s) = some (read s) := by
  rw [decode, utf8Decode_encode, Option.map_some]
  rfl

/-- the lines of the start of a text -/
theorem lines_start {s t : Str} (h : s <+: t) (line : Str) : lines line s <+: lines line t := by
  fun_induction lines line s generalizing t with
  | case1 line => exact List.nil_prefix
  | case2 line s ih =>
    obtain ⟨rest, rfl⟩ := h
    rw [List.cons_append, List.cons_append, lines]
    exact List.prefix_cons_inj line |>.2 (ih (List.prefix_append s rest))
  | case3 line c s hnot hbreak ih =>
    obtain ⟨rest, rfl⟩ := h
    rw [List.cons_append]
    by_cases hcr : ∃ s', c = '\r' ∧ s ++ rest = '\n' :: s'
    · -- the cut is between CR and LF
      obtain ⟨s', rfl, hs'⟩ := hcr
      have hs : s = [] := by
        cases s with
        | nil => rfl
        | cons d s =>
          rw [List.cons_append] at hs'
          exact (hnot s rfl (by rw [(List.cons.inj hs').1])).elim
      rw [hs', lines, hs]
      exact List.prefix_cons_inj line |>.2 List.nil_prefix
    · rw [lines, if_pos hbreak]
      · exact List.prefix_cons_inj line |>.2 (ih (List.prefix_append s rest))
      · exact fun s' hc hs' => hcr ⟨s', hc, hs'⟩
  | case4 line c s hnot hbreak ih =>
    obtain ⟨rest, rfl⟩ := h
    rw [List.cons_append, lines, if_neg hbreak]
    · exact ih (List.prefix_append s rest)
    · exact fun s' hc => absurd (Or.inr hc) hbreak

/-- the data of the first lines -/
theorem dispatched_start {ls ls' : List Str} (h : ls <+: ls') (buffer : Str) :
    dispatched buffer ls <+: dispatched buffer ls' := by
  induction ls generalizing ls' buffer with
  | nil => exact List.nil_prefix
  | cons line ls ih =>
    obtain ⟨rest, rfl⟩ := h
    have hrest : ls <+: ls ++ rest := List.prefix_append ls rest
    rw [List.cons_append, dispatched, dispatched]
    split_ifs
    · exact ih hrest []
    · exact List.prefix_cons_inj _ |>.2 (ih hrest [])
    · exact ih hrest _
    · exact ih hrest buffer

theorem read_start {s t : Str} (h : s <+: t) : read s <+: read t := by
  cases s with
  | nil => exact List.nil_prefix
  | cons c s =>
    obtain ⟨rest, rfl⟩ := h
    have htail : s <+: s ++ rest := List.prefix_append s rest
    rw [read, read, List.cons_append, List.head?_cons, List.head?_cons]
    split_ifs
    · exact dispatched_start (lines_start htail []) []
    · exact dispatched_start (lines_start (List.prefix_append (c :: s) rest) []) []

theorem read_messages {datas : List Str} (h : ∀ d ∈ datas, OneLine d) : read (datas.flatMap message) = datas :=
  Option.some.inj ((decode_encode _).symm.trans (decode_messages h))

/-- a message without its blank line is not dispatched -/
theorem dispatched_unfinished {datas : List Str} (h : ∀ d ∈ datas, OneLine d) {d : Str} (hd : OneLine d) :
    dispatched [] (lines [] (datas.flatMap message ++ (message d).dropLast)) = datas := by
  induction datas with
  | nil =>
    have hname : OneLine ['d', 'a', 't', 'a', ':', ' '] := by decide
    have hlast : (message d).dropLast = (['d', 'a', 't', 'a', ':', ' '] ++ d) ++ '\n' :: [] := by
      have hsplit : message d = ((['d', 'a', 't', 'a', ':', ' '] ++ d) ++ ['\n']) ++ ['\n'] := by simp [message]
      rw [hsplit, List.dropLast_concat]
    rw [List.flatMap_nil, List.nil_append, hlast, lines_append (List.forall_mem_append.2 ⟨hname, hd⟩), List.nil_append,
      dispatched, if_neg (by simp), field_data, if_pos rfl]
    rfl
  | cons d' datas ih =>
    obtain ⟨hd', hrest⟩ := List.forall_mem_cons.1 h
    rw [List.flatMap_cons, List.append_assoc, dispatched_message hd', ih hrest]

theorem read_unfinished {datas : List Str} (h : ∀ d ∈ datas, OneLine d) {d : Str} (hd : OneLine d) :
    read (datas.flatMap message ++ (message d).dropLast) = datas := by
  have hmark : (datas.flatMap message ++ (message d).dropLast).head? ≠ some (Char.ofNat 0xfeff) := by
    cases datas with
    | nil => exact fun h => absurd (Option.some.inj h) (by decide)
    | cons d' datas => exact fun h => absurd (Option.some.inj h) (by decide)
  rw [read, if_neg hmark, dispatched_unfinished h hd]

/-- a start of a stream of messages that is whole in its characters decodes to its first messages, and to all of them only if
nothing is missing -/
theorem decode_cut {datas : List Str} (h : ∀ d ∈ datas, OneLine d) {received missing : ByteArray}
    (hcut : received ++ missing = encode (datas.flatMap message)) {ds : List Str} (hds : decode received = some ds) :
    ds <+: datas ∧ (ds = datas → missing = ByteArray.empty) := by
  obtain ⟨text, htext, -⟩ := Option.map_eq_some_iff.1 hds
  obtain ⟨chars, hchars⟩ := ByteArray.isSome_utf8Decode?_iff.1 (Option.isSome_of_eq_some htext)
  have hreceived : received = encode chars := by rw [hchars, encode, String.toByteArray_ofList]
  rw [hreceived, decode_encode] at hds
  cases hds
  have hstart : chars <+: datas.flatMap message := by
    refine List.isPrefix_of_utf8Encode_append_eq_utf8Encode missing ?_
    rw [← hchars, hcut, encode, String.toByteArray_ofList]
  refine ⟨by simpa only [read_messages h] using read_start hstart, fun hall => ?_⟩
  obtain ⟨rest, hrest⟩ := hstart
  have hnone : rest = [] := by
    by_contra hne
    rcases List.eq_nil_or_concat datas with rfl | ⟨firsts, d, rfl⟩
    · simp at hrest
      exact hne hrest.2
    · -- without its last character the last message is not dispatched
      rw [List.concat_eq_append] at h hall hrest
      obtain ⟨hfirsts, hd⟩ := List.forall_mem_append.1 h
      have hdrop : chars <+: firsts.flatMap message ++ (message d).dropLast := by
        rw [List.flatMap_append, List.flatMap_singleton] at hrest
        have hlast : chars ++ rest.dropLast = firsts.flatMap message ++ (message d).dropLast := by
          rw [← List.dropLast_append_of_ne_nil hne, hrest, List.dropLast_append_of_ne_nil (by simp [message])]
        exact ⟨rest.dropLast, hlast⟩
      have hfewer := (read_start hdrop).length_le
      rw [read_unfinished hfirsts (hd d (List.mem_singleton.2 rfl)), hall, List.length_append, List.length_singleton] at hfewer
      omega
  rw [hnone, List.append_nil] at hrest
  rw [hreceived, hrest] at hcut
  have hsize := congrArg ByteArray.size hcut
  rw [ByteArray.size_append] at hsize
  exact ByteArray.size_eq_zero_iff.1 (by omega)

/-- the rest of a start that is longer than the first part -/
theorem exists_rest {received missing first rest : ByteArray} (h : received ++ missing = first ++ rest)
    (hsize : first.size ≤ received.size) : ∃ more, received = first ++ more ∧ more ++ missing = rest := by
  have hfirst : received.extract 0 first.size = first := by
    have hleft : (received ++ missing).extract 0 first.size = first := by rw [h, ByteArray.extract_append_eq_left rfl]
    rwa [ByteArray.extract_append, Nat.zero_sub, Nat.sub_eq_zero_of_le hsize, ByteArray.extract_same,
      ByteArray.append_empty] at hleft
  have hmore : received = first ++ received.extract first.size received.size := by
    have hwhole := ByteArray.extract_eq_extract_append_extract (a := received) (i := 0) (k := received.size) first.size
      (Nat.zero_le _) hsize
    rwa [ByteArray.extract_zero_size, hfirst] at hwhole
  refine ⟨_, hmore, ?_⟩
  rw [hmore, ByteArray.append_assoc] at h
  exact (ByteArray.append_right_inj first).1 h

theorem size_encode_singleton (c : Char) : (encode [c]).size = c.utf8Size := by
  rw [encode, String.toByteArray_ofList, List.utf8Encode_singleton, List.size_toByteArray, String.length_utf8EncodeChar]

/-- **The start of an encoded text is an encoded start, and at most three bytes of the next character.** -/
theorem exists_whole {s : Str} {received missing : ByteArray} (hcut : received ++ missing = encode s) :
    ∃ t held, received = encode t ++ held ∧ held.size < 4 ∧ t <+: s := by
  induction s generalizing received with
  | nil =>
    have hempty : received = ByteArray.empty := (ByteArray.append_eq_empty_iff.1 hcut).1
    exact ⟨[], ByteArray.empty, hempty, by decide, List.nil_prefix⟩
  | cons c s ih =>
    have hsplit : encode (c :: s) = encode [c] ++ encode s := encode_append [c] s
    have hsize := size_encode_singleton c
    rw [hsplit] at hcut
    by_cases hwhole : c.utf8Size ≤ received.size
    · obtain ⟨more, rfl, hmore⟩ := exists_rest hcut (by omega)
      obtain ⟨t, held, rfl, hheld, ht⟩ := ih hmore
      refine ⟨c :: t, held, ?_, hheld, List.prefix_cons_inj c |>.2 ht⟩
      rw [← ByteArray.append_assoc, ← encode_append]
      rfl
    · -- no character is whole
      have hfour := c.utf8Size_le_four
      exact ⟨[], received, ByteArray.empty_append.symm, by omega, List.nil_prefix⟩

/-- **A stream of messages that is cut at any byte, also inside a character, decodes to its first messages**, and to all of them
iff nothing is missing. -/
theorem decodeSoFar_cut {datas : List Str} (h : ∀ d ∈ datas, OneLine d) {received missing : ByteArray}
    (hcut : received ++ missing = encode (datas.flatMap message)) :
    ∃ ds, decodeSoFar received = some ds ∧ ds <+: datas ∧ (ds = datas ↔ missing = ByteArray.empty) := by
  have hsome : (decodeSoFar received).isSome := by
    obtain ⟨t, held, rfl, hheld, -⟩ := exists_whole hcut
    rw [decodeSoFar, List.findSome?_isSome_iff]
    refine ⟨held.size, List.mem_range.2 hheld, ?_⟩
    rw [ByteArray.size_append, Nat.add_sub_cancel, ByteArray.extract_append_eq_left rfl, decode_encode]
    rfl
  obtain ⟨ds, hds⟩ := Option.isSome_iff_exists.1 hsome
  refine ⟨ds, hds, ?_⟩
  obtain ⟨n, -, hdecode⟩ := List.exists_of_findSome?_eq_some hds
  have hheld : received.extract 0 (received.size - n) ++ (received.extract (received.size - n) received.size ++ missing) =
      encode (datas.flatMap message) := by
    rw [← ByteArray.append_assoc, ← ByteArray.extract_eq_extract_append_extract _ (Nat.zero_le _) (Nat.sub_le _ _),
      ByteArray.extract_zero_size, hcut]
  obtain ⟨hstart, hall⟩ := decode_cut h hheld hdecode
  refine ⟨hstart, fun heq => (ByteArray.append_eq_empty_iff.1 (hall heq)).2, fun hmissing => ?_⟩
  -- nothing is held back of a whole stream
  rw [hmissing, ByteArray.append_empty] at hcut
  have hwhole : decode (received.extract 0 (received.size - 0)) = some datas := by
    rw [Nat.sub_zero, ByteArray.extract_zero_size, hcut, decode_messages h]
  rw [decodeSoFar, List.range_succ_eq_map, List.findSome?_cons, hwhole] at hds
  exact (Option.some.inj hds).symm

end Sse

end AgentPick
