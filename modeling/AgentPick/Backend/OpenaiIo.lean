/-
The streamed answer of the backend (`openai_io.py`).

`sse_from_stream` writes a chat.completion.chunk frame per non-empty piece of the answer, between a frame that names the role
and a frame that says stop, and ends with [DONE]. A frame is JSON that leaves characters outside ASCII as they are, on one
`data` line, followed by a blank line. A piece is any text, with line breaks, quotes or a frame of its own in it.

`client` is the other side: it reads the bytes as an event stream, and each event as [DONE] or as JSON.

Results:
- `client_sseFromStream`: the client sees the role, one frame per non-empty piece in order, stop and [DONE], nothing else.
- `sse_decodes`: and the contents of its frames are the answer; `sse_from_text` decodes to its text.
-/
import Mathlib.Tactic
import AgentPick.Core.Json
import AgentPick.Core.Sse

namespace AgentPick.OpenaiIo

/-! ## Writing -/

/-- the fields that every frame of an answer has -/
def base (completionId model : Str) (created : ℤ) : List (Str × Json) :=
  [("id".toList, .str completionId), ("object".toList, .str "chat.completion.chunk".toList),
    ("created".toList, .int created), ("model".toList, .str model)]

/-- the object of a frame -/
def frame (base delta : List (Str × Json)) (finish : Option Str) : Json :=
  .obj (base ++ [("choices".toList, .arr [.obj [("index".toList, .int 0), ("delta".toList, .obj delta),
    ("finish_reason".toList, finish.elim .null .str)]])])

/-- `_chunk` -/
def chunk (base delta : List (Str × Json)) (finish : Option Str) : ByteArray :=
  Sse.encode ("data: ".toList ++ (frame base delta finish).dumps ++ "\n\n".toList)

def roleDelta : List (Str × Json) := [("role".toList, .str "assistant".toList), ("content".toList, .str [])]

def contentDelta (piece : Str) : List (Str × Json) := [("content".toList, .str piece)]

/-- what `sse_from_stream` yields -/
def sseFromStream (textChunks : List Str) (completionId model : Str) (created : ℤ) : List ByteArray :=
  let base := base completionId model created
  chunk base roleDelta none ::
    (textChunks.flatMap fun piece => if piece ≠ [] then [chunk base (contentDelta piece) none] else []) ++
    [chunk base [] (some "stop".toList), Sse.encode "data: [DONE]\n\n".toList]

/-- what `sse_from_text` yields -/
def sseFromText (text completionId model : Str) (created : ℤ) : List ByteArray :=
  sseFromStream [text] completionId model created

/-! ## Reading -/

/-- an event as the client reads it -/
inductive Event where
  | frame (object : Json)
  | done

/-- the data of an event -/
def readEvent (data : Str) : Option Event :=
  if data = "[DONE]".toList then some .done else (Json.loads data).map .frame

/-- the events of a stream -/
def client (parts : List ByteArray) : Option (List Event) := do
  let datas ← Sse.decode (Sse.joined parts)
  datas.mapM readEvent

/-- `choices[0].delta.content` of a frame -/
def Event.content : Event → Option Str
  | .done => none
  | .frame object => do
    let choice ← (← object.get? "choices".toList).item? 0
    let content ← (← choice.get? "delta".toList).get? "content".toList
    content.text?

/-- the contents of the frames in one text -/
def answer (events : List Event) : Str := (events.filterMap Event.content).flatten

/-! ## The stream as messages -/

variable (completionId model : Str) (created : ℤ)

/-- the frames of an answer -/
def frames (pieces : List Str) : List Json :=
  let base := base completionId model created
  frame base roleDelta none ::
    (pieces.filter (· ≠ [])).map (fun piece => frame base (contentDelta piece) none) ++ [frame base [] (some "stop".toList)]

/-- the data of the messages -/
def datas (pieces : List Str) : List Str := (frames completionId model created pieces).map Json.dumps ++ ["[DONE]".toList]

theorem chunk_eq (base delta : List (Str × Json)) (finish : Option Str) :
    chunk base delta finish = Sse.encode (Sse.message (frame base delta finish).dumps) := rfl

theorem oneLine_dumps (v : Json) : Sse.OneLine v.dumps := by
  intro c hc
  have hprintable := v.dumps_printable c hc
  refine ⟨?_, ?_⟩
  · intro h
    subst h
    exact absurd hprintable (by decide)
  · intro h
    subst h
    exact absurd hprintable (by decide)

theorem oneLine_datas (pieces : List Str) : ∀ d ∈ datas completionId model created pieces, Sse.OneLine d := by
  intro d hd
  rcases List.mem_append.1 hd with hd | hd
  · obtain ⟨v, -, rfl⟩ := List.mem_map.1 hd
    exact oneLine_dumps v
  · rw [List.mem_singleton.1 hd]
    decide

theorem flatMap_pieces {β : Type} (f : Str → β) (pieces : List Str) :
    (pieces.flatMap fun piece => if piece ≠ [] then [f piece] else []) = (pieces.filter (· ≠ [])).map f := by
  induction pieces with
  | nil => rfl
  | cons piece pieces ih =>
    rw [List.flatMap_cons, ih]
    by_cases h : piece = [] <;> simp [h]

theorem sseFromStream_eq (pieces : List Str) :
    sseFromStream pieces completionId model created =
      ((datas completionId model created pieces).map Sse.message).map Sse.encode := by
  simp only [sseFromStream, flatMap_pieces, datas, frames, chunk_eq]
  simp
  rfl

/-! ## The stream as the client sees it -/

/-- the events of an answer -/
def events (pieces : List Str) : List Event := (frames completionId model created pieces).map .frame ++ [.done]

/-- the JSON of a frame is an object, so it is not [DONE] -/
theorem readEvent_dumps (base delta : List (Str × Json)) (finish : Option Str) :
    readEvent (frame base delta finish).dumps = some (.frame (frame base delta finish)) := by
  have hbrace : (frame base delta finish).dumps ≠ "[DONE]".toList := by
    intro h
    have hhead := congrArg List.head? h
    exact absurd (Option.some.inj hhead) (by decide)
  rw [readEvent, if_neg hbrace, Json.loads_dumps, Option.map_some]

theorem mapM_readEvent {objects : List Json} (h : ∀ v ∈ objects, readEvent v.dumps = some (.frame v)) :
    (objects.map Json.dumps ++ ["[DONE]".toList]).mapM readEvent = some (objects.map .frame ++ [.done]) := by
  induction objects with
  | nil => rfl
  | cons v objects ih =>
    obtain ⟨hv, hobjects⟩ := List.forall_mem_cons.1 h
    rw [List.map_cons, List.cons_append, List.mapM_cons, hv, ih hobjects]
    rfl

theorem readEvent_frames (pieces : List Str) :
    ∀ v ∈ frames completionId model created pieces, readEvent v.dumps = some (.frame v) := by
  intro v hv
  rcases List.mem_append.1 hv with hv | hv
  · rcases List.mem_cons.1 hv with rfl | hv
    · exact readEvent_dumps _ _ _
    · obtain ⟨piece, -, rfl⟩ := List.mem_map.1 hv
      exact readEvent_dumps _ _ _
  · rw [List.mem_singleton.1 hv]
    exact readEvent_dumps _ _ _

/-- **What the client sees**: the role, one frame per non-empty piece in order, stop and [DONE], and nothing else. -/
theorem client_sseFromStream (pieces : List Str) :
    client (sseFromStream pieces completionId model created) = some (events completionId model created pieces) := by
  have hdecode := Sse.decode_messages (oneLine_datas completionId model created pieces)
  have hread := mapM_readEvent (readEvent_frames completionId model created pieces)
  rw [client, sseFromStream_eq, Sse.joined_encode, ← List.flatMap_def, hdecode, Option.bind_eq_bind, Option.bind_some]
  exact hread

/-! ## The answer -/

theorem get?_frame (base delta : List (Str × Json)) (finish : Option Str) :
    (frame base delta finish).get? "choices".toList = some (.arr [.obj [("index".toList, .int 0),
      ("delta".toList, .obj delta), ("finish_reason".toList, finish.elim .null .str)]]) :=
  Json.get?_concat _ _ _

theorem content_frame (base delta : List (Str × Json)) (finish : Option Str) :
    (Event.frame (frame base delta finish)).content = ((Json.obj delta).get? "content".toList).bind Json.text? := by
  rw [Event.content, get?_frame]
  rfl

/-- the contents of the frames are the answer -/
theorem answer_events (pieces : List Str) : answer (events completionId model created pieces) = pieces.flatten := by
  let base := base completionId model created
  have hpieces : ((pieces.filter (· ≠ [])).map fun piece =>
      Event.frame (frame base (contentDelta piece) none)).filterMap Event.content = pieces.filter (· ≠ []) := by
    have hcontent : (Event.content ∘ fun piece => Event.frame (frame base (contentDelta piece) none)) = some :=
      funext fun piece => content_frame _ _ _
    rw [List.filterMap_map, hcontent, List.filterMap_some]
  have hrole : (Event.frame (frame base roleDelta none)).content = some [] := content_frame _ _ _
  have hstop : (Event.frame (frame base [] (some "stop".toList))).content = none := content_frame _ _ _
  have hevents : events completionId model created pieces = .frame (frame base roleDelta none) ::
      (((pieces.filter (· ≠ [])).map fun piece => Event.frame (frame base (contentDelta piece) none)) ++
        [.frame (frame base [] (some "stop".toList)), .done]) := by
    simp [events, frames, base]
  calc answer (events completionId model created pieces)
      = ([] :: (pieces.filter (· ≠ []) ++ [])).flatten := by
        rw [answer, hevents, List.filterMap_cons_some hrole, List.filterMap_append, hpieces, List.filterMap_cons_none hstop]
        rfl
    _ = (pieces.filter (· ≠ [])).flatten := by rw [List.flatten_cons, List.nil_append, List.append_nil]
    _ = pieces.flatten := List.flatten_filter_ne_nil

/-- what a client makes of the stream of some pieces, and of the stream of one text -/
structure Decodes (pieces : List Str) (text : Str) : Prop where
  events : client (sseFromStream pieces completionId model created) = some (
    [.frame (frame (base completionId model created) roleDelta none)] ++
    (pieces.filter (· ≠ [])).map (fun piece => .frame (frame (base completionId model created) (contentDelta piece) none)) ++
    [.frame (frame (base completionId model created) [] (some "stop".toList))] ++
    [.done])
  answer : (client (sseFromStream pieces completionId model created)).map answer = some pieces.flatten
  text : (client (sseFromText text completionId model created)).map OpenaiIo.answer = some text

/-- **The stream decodes to the answer.** -/
theorem sse_decodes (pieces : List Str) (text : Str) : Decodes completionId model created pieces text := by
  refine ⟨?_, ?_, ?_⟩
  · rw [client_sseFromStream]
    simp [events, frames]
  · rw [client_sseFromStream, Option.map_some, answer_events]
  · rw [sseFromText, client_sseFromStream, Option.map_some, answer_events, List.flatten_singleton]

end AgentPick.OpenaiIo
