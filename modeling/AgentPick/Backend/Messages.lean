/-
The messages of a chat request (`backend/app/services/openai_io.py`, `_text`, `to_agent_messages`, `last_user_text`,
`is_openwebui_task`; `backend/src/agent.py`, `_message_role`, `_message_text`, `_last_text`, `_history_message_count`).

The content of a message is any JSON value. What goes to the agent are the user and assistant turns that have text.

ASSUMED OF THE AGENT FRAMEWORK: the role and the text of `Message(role=r, contents=[t])` are r and t.

Results:
- `lastText_toAgentMessages`: the text that routes the request is the one that the activity log shows.
-/
import AgentPick.Core.Repr
import AgentPick.Core.Unicode

namespace AgentPick.Messages

open AgentPick.Text AgentPick.Repr

/-! ## The request -/

/-- a message of the request -/
structure ChatMessage where
  role : Str
  content : PyJson

/-- a message of the agent framework -/
structure Message where
  role : Str
  text : Str
deriving DecidableEq, Repr

def user : Str := "user".toList

def assistant : Str := "assistant".toList

/-- the text of a part of a multimodal content -/
def partText (T : Tables) : PyJson → Option Str
  | .obj pairs =>
    match PyJson.get? "type".toList pairs with
    | some (.str t) => if t = "text".toList then some (strJson T ((PyJson.get? "text".toList pairs).getD (.str []))) else none
    | _ => none
  | _ => none

/-- `_text` -/
def text (T : Tables) : PyJson → Str
  | .str s => strip s
  | .arr items => strip ([' '].intercalate (items.filterMap (partText T)))
  | .null => []
  | v => strip (strJson T v)

/-- a turn of the user or the assistant -/
def Spoken (m : ChatMessage) : Prop := m.role = user ∨ m.role = assistant

instance : DecidablePred Spoken := fun _ => inferInstanceAs (Decidable (_ ∨ _))

/-- what goes to the agent of a message -/
def agentMessage (T : Tables) (m : ChatMessage) : Option Message :=
  if Spoken m ∧ text T m.content ≠ [] then some ⟨m.role, text T m.content⟩ else none

/-- `to_agent_messages` -/
def toAgentMessages (T : Tables) (messages : List ChatMessage) : List Message := messages.filterMap (agentMessage T)

/-- `last_user_text` -/
def lastUserText (T : Tables) (messages : List ChatMessage) : Str :=
  ((messages.reverse.find? fun m => m.role = user).map fun m => text T m.content).getD []

/-- `is_openwebui_task` -/
def isOpenwebuiTask (u : Unicode) (s : Str) : Bool := "### task:".toList.isPrefixOf (u.lower (strip s))

/-! ## The agent's log -/

/-- `_message_text` -/
def messageText (m : Message) : Str := strip m.text

/-- `_last_text`: of the last user message that has text, else of the last message that has -/
def lastText (messages : List Message) : Str :=
  let withText := messages.reverse.filter fun m => messageText m ≠ []
  ((withText.find? fun m => m.role = user).or withText.head?).elim [] messageText

/-- `_history_message_count` -/
def historyMessageCount (messages : List Message) : ℕ := messages.countP fun m => messageText m ≠ []

/-! ## What goes to the agent -/

variable (T : Tables)

theorem strip_text (v : PyJson) : strip (text T v) = text T v := by
  cases v with
  | null => rfl
  | _ => exact strip_strip _

theorem agentMessage_eq_some {m : ChatMessage} {out : Message} :
    agentMessage T m = some out ↔ Spoken m ∧ text T m.content ≠ [] ∧ out = ⟨m.role, text T m.content⟩ := by
  rw [agentMessage]
  split_ifs with h
  · simp [h.1, h.2, eq_comm]
  · rw [not_and] at h
    simp only [false_iff, not_and]
    exact fun hspoken hne => absurd hne (h hspoken)

/-- a message that the agent gets has a role of a dialogue, and a text without space around it -/
theorem mem_toAgentMessages {messages : List ChatMessage} {m : Message} (h : m ∈ toAgentMessages T messages) :
    (m.role = user ∨ m.role = assistant) ∧ m.text ≠ [] ∧ strip m.text = m.text := by
  obtain ⟨x, -, hx⟩ := List.mem_filterMap.1 h
  obtain ⟨hspoken, hne, rfl⟩ := (agentMessage_eq_some T).1 hx
  exact ⟨hspoken, hne, strip_text T x.content⟩

/-- the first user message of a list, when it has text, is the first one that goes to the agent -/
theorem find?_filterMap_agentMessage {l : List ChatMessage} {m : ChatMessage} (h : l.find? (fun m => m.role = user) = some m)
    (hne : text T m.content ≠ []) :
    (l.filterMap (agentMessage T)).find? (fun m => m.role = user) = some ⟨user, text T m.content⟩ := by
  induction l with
  | nil => cases h
  | cons x l ih =>
    by_cases hx : x.role = user
    · rw [List.find?_cons_of_pos (by simpa using hx)] at h
      cases h
      have hsome : agentMessage T m = some ⟨m.role, text T m.content⟩ :=
        (agentMessage_eq_some T).2 ⟨Or.inl hx, hne, rfl⟩
      rw [List.filterMap_cons_some hsome, List.find?_cons_of_pos (by simpa using hx), hx]
    · rw [List.find?_cons_of_neg (by simpa using hx)] at h
      cases hout : agentMessage T x with
      | none => rw [List.filterMap_cons_none hout, ih h]
      | some out =>
        obtain ⟨-, -, rfl⟩ := (agentMessage_eq_some T).1 hout
        rw [List.filterMap_cons_some hout, List.find?_cons_of_neg (by simpa using hx), ih h]

/-- **The text that routes a request is the one that the log shows.** -/
theorem lastText_toAgentMessages {messages : List ChatMessage} (h : lastUserText T messages ≠ []) :
    lastText (toAgentMessages T messages) = lastUserText T messages := by
  have hall : (toAgentMessages T messages).reverse.filter (fun m => messageText m ≠ []) = (toAgentMessages T messages).reverse := by
    rw [List.filter_eq_self]
    intro m hm
    obtain ⟨-, hne, hstrip⟩ := mem_toAgentMessages T (List.mem_reverse.1 hm)
    rw [messageText, hstrip]
    exact decide_eq_true hne
  rw [lastUserText] at h ⊢
  cases hfind : messages.reverse.find? (fun m => m.role = user) with
  | none =>
    rw [hfind] at h
    exact absurd rfl h
  | some m =>
    rw [hfind] at h
    have hlast := find?_filterMap_agentMessage T hfind h
    rw [lastText, hall, toAgentMessages, ← List.filterMap_reverse, hlast]
    exact strip_text T m.content

end AgentPick.Messages
