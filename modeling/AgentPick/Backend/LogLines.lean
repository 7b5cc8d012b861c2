/-
One line per entry of the activity log (`backend/src/core/agent_activity_log.py`, "one line per agent request and tool call").

Queries and arguments are written with `repr`. The ids of requests and dialogues, the names of systems and the names of
arguments are written as they are, and so are the first 80 characters of the error of a tool.

Results:
- `toolMessage_oneLine`: the entry of a tool call is one line iff what it shows of its error is.
- `one_line_iff`: in every run, all entries are one line iff no tool call ends with an error that shows a line break.
-/
import AgentPick.Backend.RequestLog

namespace AgentPick.ActivityLog

open AgentPick.Repr AgentPick.Messages

/-! ## Messages -/

theorem oneLine_bars (parts : List Str) : OneLine (bars parts) ↔ ∀ s ∈ parts, OneLine s :=
  oneLine_intercalate (oneLine_of_all (by decide)) parts

theorem oneLine_dec (n : ℕ) : OneLine (dec n) := by
  intro c hc
  have hdigit := Char.isDigit_iff_toNat.1 (Nat.isDigit_of_mem_toDigits (b := 10) (by decide) (by decide) hc)
  have hzero : '0'.toNat = 48 := rfl
  have hnine : '9'.toNat = 57 := rfl
  exact isBreak_ascii (by omega) (by omega)

theorem oneLine_name (tool : Tool) : OneLine tool.name := by
  cases tool <;> exact oneLine_of_all (by decide)

theorem oneLine_labelOf (n : ℕ) (tool : Tool) : OneLine (labelOf n tool) :=
  oneLine_append.2 ⟨oneLine_of_all (by decide), oneLine_append.2 ⟨oneLine_dec n, oneLine_cons.2 ⟨rfl, oneLine_name tool⟩⟩⟩

/-- the ids of a dialogue are one line -/
def DialogueContext.Plain (d : DialogueContext) : Prop := OneLine d.dialogueId ∧ OneLine d.questionId

theorem oneLine_startMessage (T : Tables) {x : Str} {o : Opening} {d : Option DialogueContext} (hx : OneLine x)
    (ho : OneLine o.system) (hd : ∀ d', d = some d' → d'.Plain) : OneLine (startMessage T x o d) := by
  have happend : ∀ {a b : Str}, a.all (fun c => !isBreak c) = true → OneLine b → OneLine (a ++ b) :=
    fun ha hb => oneLine_append.2 ⟨oneLine_of_all ha, hb⟩
  have hdialogue : ∀ s ∈ d.elim [] (fun d =>
      ["dialogue=".toList ++ d.dialogueId, "user_turn=".toList ++ dec d.userTurn ++ '/' :: dec d.userTurnsTotal] ++
        if d.questionId = [] then [] else ["q=".toList ++ d.questionId]), OneLine s := by
    cases d with
    | none => exact fun s hs => absurd hs List.not_mem_nil
    | some d =>
      obtain ⟨hid, hquestion⟩ := hd d rfl
      refine List.forall_mem_append.2 ⟨List.forall_mem_cons.2 ⟨happend (by decide) hid, List.forall_mem_singleton.2 ?_⟩, ?_⟩
      · exact oneLine_append.2 ⟨happend (by decide) (oneLine_dec _), oneLine_cons.2 ⟨rfl, oneLine_dec _⟩⟩
      · split_ifs
        · exact fun s hs => absurd hs List.not_mem_nil
        · exact List.forall_mem_singleton.2 (happend (by decide) hquestion)
  rw [startMessage, oneLine_bars]
  refine List.forall_mem_append.2 ⟨List.forall_mem_append.2 ⟨List.forall_mem_append.2 ⟨?_, hdialogue⟩, ?_⟩, ?_⟩
  · refine List.forall_mem_cons.2 ⟨oneLine_of_all (by decide), List.forall_mem_cons.2 ⟨happend (by decide) hx,
      List.forall_mem_cons.2 ⟨happend (by decide) ho, List.forall_mem_singleton.2 (happend (by decide) ?_)⟩⟩⟩
    split_ifs
    · exact oneLine_of_all (by decide)
    · exact oneLine_of_all (by decide)
  · split_ifs
    · exact fun s hs => absurd hs List.not_mem_nil
    · exact List.forall_mem_singleton.2 (happend (by decide) (oneLine_dec _))
  · exact List.forall_mem_singleton.2 (happend (by decide) (repr_oneLine T _))

theorem oneLine_endMessage (failed : Bool) (n ms : ℕ) : OneLine (endMessage failed n ms) := by
  have hstatus : OneLine (if failed then "error".toList else "ok".toList) := by
    split_ifs
    · exact oneLine_of_all (by decide)
    · exact oneLine_of_all (by decide)
  have hhead : OneLine endHead := oneLine_of_all (by decide)
  have htools : OneLine " | tools_called=".toList := oneLine_of_all (by decide)
  have helapsed : OneLine " | elapsed=".toList := oneLine_of_all (by decide)
  have hms : OneLine "ms".toList := oneLine_of_all (by decide)
  rw [endMessage]
  exact oneLine_append.2 ⟨oneLine_append.2 ⟨oneLine_append.2 ⟨oneLine_append.2 ⟨oneLine_append.2 ⟨oneLine_append.2
    ⟨hhead, hstatus⟩, htools⟩, oneLine_dec n⟩, helapsed⟩, oneLine_dec ms⟩, hms⟩

theorem oneLine_turnMessage (turn : ℕ) (inputTokens : Option ℕ) (ms : ℕ) : OneLine (turnMessage turn inputTokens ms) := by
  have hms : OneLine (dec ms ++ "ms".toList) := oneLine_append.2 ⟨oneLine_dec ms, oneLine_of_all (by decide)⟩
  rw [turnMessage, oneLine_bars]
  refine List.forall_mem_append.2 ⟨List.forall_mem_append.2 ⟨List.forall_mem_singleton.2 (oneLine_append.2
    ⟨oneLine_of_all (by decide), oneLine_dec turn⟩), ?_⟩, List.forall_mem_singleton.2 hms⟩
  cases inputTokens with
  | none => exact fun s hs => absurd hs List.not_mem_nil
  | some n =>
    exact List.forall_mem_singleton.2 (oneLine_append.2 ⟨oneLine_cons.2 ⟨rfl, oneLine_dec n⟩, oneLine_of_all (by decide)⟩)

/-- what a tool call shows of its error is one line -/
def ToolCall.Clean (call : ToolCall) : Prop := ∀ e, call.error = some e → OneLine (e.take 80)

/-- **The entry of a tool call is one line iff what it shows of its error is.** -/
theorem toolMessage_oneLine (T : Tables) {label : Str} {call : ToolCall} (hlabel : OneLine label)
    (hargs : ∀ a ∈ call.args, OneLine a.1) : OneLine (toolMessage T label call) ↔ call.Clean := by
  have hargsStr : OneLine (bars (call.args.filterMap fun a => a.2.map fun v => a.1 ++ '=' :: repr T (v.take 60))) := by
    rw [oneLine_bars]
    intro s hs
    obtain ⟨a, ha, hs⟩ := List.mem_filterMap.1 hs
    obtain ⟨v, -, rfl⟩ := Option.map_eq_some_iff.1 hs
    exact oneLine_append.2 ⟨hargs a ha, oneLine_cons.2 ⟨rfl, repr_oneLine T _⟩⟩
  have hms : OneLine (dec call.ms ++ "ms".toList) := oneLine_append.2 ⟨oneLine_dec _, oneLine_of_all (by decide)⟩
  have herror : OneLine "ERROR=".toList := oneLine_of_all (by decide)
  have hresults : OneLine "results=".toList := oneLine_of_all (by decide)
  simp only [toolMessage]
  split
  · next c e he =>
    rw [oneLine_bars, ToolCall.Clean, he]
    constructor
    · intro h e' he'
      cases he'
      exact (oneLine_append.1 (h ("ERROR=".toList ++ (c :: e).take 80) (by simp))).2
    · intro h
      exact List.forall_mem_cons.2 ⟨hlabel, List.forall_mem_cons.2 ⟨hargsStr, List.forall_mem_cons.2
        ⟨oneLine_append.2 ⟨herror, h _ rfl⟩, List.forall_mem_singleton.2 hms⟩⟩⟩
  · next hno =>
    rw [oneLine_bars]
    refine iff_of_true (fun s hs => ?_) fun e he => ?_
    · have hcount : OneLine (call.resultCount.elim [] fun n => "results=".toList ++ dec n) := by
        cases call.resultCount with
        | none => exact oneLine_nil
        | some n => exact oneLine_append.2 ⟨hresults, oneLine_dec n⟩
      exact List.forall_mem_cons.2 ⟨hlabel, List.forall_mem_cons.2 ⟨hargsStr, List.forall_mem_cons.2
        ⟨hcount, List.forall_mem_singleton.2 hms⟩⟩⟩ s (List.mem_of_mem_filter hs)
    · cases e with
      | nil => exact oneLine_nil
      | cons c e => exact (hno c e he).elim

/-! ## Runs -/

/-- the texts of an event that are written as they are, errors apart, are one line -/
def Event.Plain (e : Event) : Prop :=
  match e.act with
  | .enter _ _ x o => OneLine x ∧ OneLine o.system
  | .toolEnd _ call => ∀ a ∈ call.args, OneLine a.1
  | .dialogueEnter _ d => d.Plain
  | _ => True

/-- what the event shows of an error is one line -/
def Event.Clean (e : Event) : Prop :=
  match e.act with
  | .toolEnd _ call => call.Clean
  | _ => True

def Vars.Plain (v : Vars) : Prop := ∀ d, v.dialogue = some d → d.Plain

def Frame.Plain : Frame → Prop
  | .tool label => OneLine label
  | .dialogue _ old => ∀ d, old = some d → d.Plain
  | _ => True

/-- what coroutines and contexts hold is one line -/
structure State.Plain (s : State) : Prop where
  vars : ∀ c v, s.vars c = some v → v.Plain
  frames : ∀ f z, s.frames f = some z → z.Plain
  requests : ∀ r q, s.requests r = some q → OneLine q.requestId

/-- and so is what an event adds to it -/
structure Effect.Plain (y : Effect) : Prop where
  vars : ∀ p, y.vars = some p → p.2.Plain
  frame : ∀ p, y.frame = some p → ∀ z, p.2 = some z → z.Plain
  request : ∀ p, y.request = some p → OneLine p.2.requestId

variable {T : Tables} {s s' : State}

theorem State.Plain.apply {y : Effect} (hs : s.Plain) (hy : y.Plain) : (s.apply y).Plain := by
  obtain ⟨vars, frame, request, line⟩ := y
  refine ⟨fun c v hv => ?_, fun f z hz => ?_, fun r q hq => ?_⟩
  · cases vars with
    | none => exact hs.vars c v hv
    | some p =>
      change Function.update s.vars p.1 (some p.2) c = some v at hv
      by_cases hc : c = p.1
      · rw [hc, Function.update_self] at hv
        cases hv
        exact hy.vars p rfl
      · rw [Function.update_of_ne hc] at hv
        exact hs.vars c v hv
  · cases frame with
    | none => exact hs.frames f z hz
    | some p =>
      change Function.update s.frames p.1 p.2 f = some z at hz
      by_cases hf : f = p.1
      · rw [hf, Function.update_self] at hz
        exact hy.frame p rfl z hz
      · rw [Function.update_of_ne hf] at hz
        exact hs.frames f z hz
  · cases request with
    | none => exact hs.requests r q hq
    | some p =>
      change Function.update s.requests p.1 (some p.2) r = some q at hq
      by_cases hr : r = p.1
      · rw [hr, Function.update_self] at hq
        cases hq
        exact hy.request p rfl
      · rw [Function.update_of_ne hr] at hq
        exact hs.requests r q hq

/-- a line is one line iff its message is -/
theorem State.Plain.line (hs : s.Plain) (c : ℕ) (m : Str) : OneLine (line s c m) ↔ OneLine m := by
  cases hcurrent : current s c with
  | none => rw [ActivityLog.line, hcurrent, Option.elim_none]
  | some p =>
    obtain ⟨r, q⟩ := p
    obtain ⟨v, -, -, hq⟩ := current_eq_some.1 hcurrent
    have htag : OneLine (tagOf q.requestId) :=
      oneLine_cons.2 ⟨rfl, oneLine_append.2 ⟨hs.requests r q hq, oneLine_cons.2 ⟨rfl, oneLine_cons.2 ⟨rfl, oneLine_nil⟩⟩⟩⟩
    rw [ActivityLog.line, hcurrent, Option.elim_some, oneLine_append]
    exact and_iff_right htag

theorem plain_frame {v : Option (ℕ × Vars)} {f : ℕ} {w : Option Frame} {q : Option (ℕ × RequestContext)} {l : Option Str}
    (hv : ∀ p, v = some p → p.2.Plain) (hw : ∀ z, w = some z → z.Plain) (hq : ∀ p, q = some p → OneLine p.2.requestId) :
    Effect.Plain ⟨v, some (f, w), q, l⟩ := by
  refine ⟨hv, fun p hp => ?_, hq⟩
  cases hp
  exact hw

theorem oneLine_none : ∀ l, (none : Option Str) = some l → OneLine l := fun l hl => (Option.some_ne_none l hl.symm).elim

theorem plain_noVars : ∀ p, (none : Option (ℕ × Vars)) = some p → p.2.Plain := fun p hp => (Option.some_ne_none p hp.symm).elim

theorem plain_noFrame : ∀ z, (none : Option Frame) = some z → z.Plain := fun z hz => (Option.some_ne_none z hz.symm).elim

theorem plain_noRequest : ∀ p, (none : Option (ℕ × RequestContext)) = some p → OneLine p.2.requestId :=
  fun p hp => (Option.some_ne_none p hp.symm).elim

/-- the entry is one line, whatever the event shows of errors -/
theorem line_clean {l : Option Str} (h : ∀ m, l = some m → OneLine m) : (∀ m, l = some m → OneLine m) ↔ True := iff_true_intro h

theorem State.Plain.current (hs : s.Plain) {c r : ℕ} {q : RequestContext} (h : current s c = some (r, q)) :
    OneLine q.requestId := by
  obtain ⟨v, -, -, hq⟩ := current_eq_some.1 h
  exact hs.requests r q hq

/-- **What an event does is one line, and its entry is iff what it shows of an error is.** -/
theorem effect_plain {e : Event} (he : e.Plain) (hs : s.Plain) {y : Effect} (hy : effect T s e = some y) :
    y.Plain ∧ ((∀ l, y.line = some l → OneLine l) ↔ e.Clean) := by
  obtain ⟨c, act⟩ := e
  have hsome : ∀ {m : Str}, OneLine m → ∀ l, some m = some l → OneLine l := fun hm l hl => Option.some.inj hl ▸ hm
  cases act with
  | serve =>
    simp only [effect] at hy
    split_ifs at hy
    cases hy
    refine ⟨⟨fun p hp => ?_, fun p hp => (Option.some_ne_none p hp.symm).elim, plain_noRequest⟩, line_clean oneLine_none⟩
    cases hp
    exact fun d hd => (Option.some_ne_none d hd.symm).elim
  | spawn child =>
    simp only [effect, Option.bind_eq_some_iff] at hy
    obtain ⟨v, hv, hy⟩ := hy
    split_ifs at hy
    cases hy
    refine ⟨⟨fun p hp => ?_, fun p hp => (Option.some_ne_none p hp.symm).elim, plain_noRequest⟩, line_clean oneLine_none⟩
    cases hp
    exact hs.vars c v hv
  | enter f r x o =>
    obtain ⟨hx, ho⟩ := he
    simp only [effect, Option.bind_eq_some_iff] at hy
    obtain ⟨v, hv, hy⟩ := hy
    split_ifs at hy
    cases hy
    simp only [enterEffect]
    split
    · refine ⟨plain_frame plain_noVars (fun z hz => ?_) plain_noRequest, line_clean oneLine_none⟩
      cases hz
      exact trivial
    · refine ⟨plain_frame (fun p hp => ?_) (fun z hz => ?_) (fun p hp => ?_), line_clean (hsome ?_)⟩
      · cases hp
        exact hs.vars c v hv
      · cases hz
        exact trivial
      · cases hp
        exact hx
      · exact (hs.line c _).2 (oneLine_startMessage T hx ho (hs.vars c v hv))
  | exit f failed ms =>
    simp only [effect, Option.bind_eq_some_iff] at hy
    obtain ⟨v, hv, hy⟩ := hy
    split at hy
    · cases hy
      exact ⟨plain_frame plain_noVars plain_noFrame plain_noRequest, line_clean oneLine_none⟩
    · obtain ⟨q, hq, rfl⟩ := Option.map_eq_some_iff.1 hy
      refine ⟨plain_frame (fun p hp => ?_) plain_noFrame (fun p hp => ?_), line_clean (hsome ?_)⟩
      · cases htoken : q.token with
        | none =>
          rw [htoken] at hp
          cases hp
        | some t =>
          simp only [htoken, detachVars] at hp
          split_ifs at hp
          cases hp
          exact hs.vars c v hv
      · cases hp
        exact hs.requests _ q hq
      · exact (hs.line c _).2 (oneLine_endMessage failed _ ms)
    · cases hy
  | toolBegin f tool =>
    simp only [effect, Option.bind_eq_some_iff] at hy
    obtain ⟨v, hv, hy⟩ := hy
    split_ifs at hy
    split at hy
    · next r q hcurrent =>
      cases hy
      refine ⟨plain_frame plain_noVars (fun z hz => ?_) (fun p hp => ?_), line_clean oneLine_none⟩
      · cases hz
        exact oneLine_labelOf _ tool
      · cases hp
        change OneLine q.requestId
        exact hs.current hcurrent
    · cases hy
      refine ⟨plain_frame plain_noVars (fun z hz => ?_) plain_noRequest, line_clean oneLine_none⟩
      cases hz
      exact oneLine_name tool
  | toolEnd f call =>
    simp only [effect, Option.bind_eq_some_iff] at hy
    obtain ⟨v, hv, hy⟩ := hy
    split at hy
    · next label hframe =>
      cases hy
      refine ⟨plain_frame plain_noVars plain_noFrame plain_noRequest, ?_⟩
      -- the only entry that can break, and it breaks iff the error does
      have hline := (hs.line c (toolMessage T label call)).trans (toolMessage_oneLine T (hs.frames f _ hframe) he)
      constructor
      · exact fun h => hline.1 (h _ rfl)
      · exact fun h => hsome (hline.2 h)
    · cases hy
  | turnBegin f chars =>
    simp only [effect, Option.bind_eq_some_iff] at hy
    obtain ⟨v, hv, hy⟩ := hy
    split_ifs at hy
    split at hy
    · next r q hcurrent =>
      cases hy
      refine ⟨plain_frame plain_noVars (fun z hz => ?_) (fun p hp => ?_), line_clean oneLine_none⟩
      · cases hz
        exact trivial
      · cases hp
        change OneLine q.requestId
        exact hs.current hcurrent
    · cases hy
      refine ⟨plain_frame plain_noVars (fun z hz => ?_) plain_noRequest, line_clean oneLine_none⟩
      cases hz
      exact trivial
  | turnEnd f ms =>
    simp only [effect, Option.bind_eq_some_iff] at hy
    obtain ⟨v, hv, hy⟩ := hy
    split at hy
    · cases hy
      exact ⟨plain_frame plain_noVars plain_noFrame plain_noRequest,
        line_clean (hsome ((hs.line c _).2 (oneLine_turnMessage _ _ ms)))⟩
    · cases hy
  | turnRaise f =>
    simp only [effect, Option.bind_eq_some_iff] at hy
    obtain ⟨v, hv, hy⟩ := hy
    split at hy
    · cases hy
      exact ⟨plain_frame plain_noVars plain_noFrame plain_noRequest, line_clean oneLine_none⟩
    · cases hy
  | dialogueEnter f d =>
    simp only [effect, Option.bind_eq_some_iff] at hy
    obtain ⟨v, hv, hy⟩ := hy
    split_ifs at hy
    cases hy
    refine ⟨plain_frame (fun p hp => ?_) (fun z hz => ?_) plain_noRequest, line_clean oneLine_none⟩
    · cases hp
      intro d' hd
      cases hd
      exact he
    · cases hz
      exact hs.vars c v hv
  | dialogueExit f =>
    simp only [effect, Option.bind_eq_some_iff] at hy
    obtain ⟨v, hv, hy⟩ := hy
    split at hy
    · next c' old hframe =>
      split_ifs at hy
      cases hy
      refine ⟨plain_frame (fun p hp => ?_) plain_noFrame plain_noRequest, line_clean oneLine_none⟩
      cases hp
      exact hs.frames f _ hframe
    · cases hy

theorem plain_start : State.Plain start :=
  ⟨fun _ _ h => (Option.some_ne_none _ h.symm).elim, fun _ _ h => (Option.some_ne_none _ h.symm).elim,
    fun _ _ h => (Option.some_ne_none _ h.symm).elim⟩

/-- the entries of a run from any plain state -/
theorem run_oneLine {es : List Event} (hes : ∀ e ∈ es, e.Plain) (hs : s.Plain) (hrun : run T s es = some s') :
    (∀ l ∈ s'.log, OneLine l) ↔ (∀ l ∈ s.log, OneLine l) ∧ ∀ e ∈ es, e.Clean := by
  induction es generalizing s with
  | nil =>
    cases hrun
    simp
  | cons e es ih =>
    obtain ⟨he, hes⟩ := List.forall_mem_cons.1 hes
    obtain ⟨t, hstep, hrun⟩ := run_cons.1 hrun
    obtain ⟨y, hy, rfl⟩ := Option.map_eq_some_iff.1 hstep
    obtain ⟨hplain, hline⟩ := effect_plain he hs hy
    have hlog : (∀ l ∈ (s.apply y).log, OneLine l) ↔ (∀ l ∈ s.log, OneLine l) ∧ e.Clean := by
      rw [← hline]
      change (∀ l ∈ s.log ++ y.line.toList, OneLine l) ↔ _
      simp only [List.forall_mem_append, Option.mem_toList]
    rw [ih hes (hs.apply hplain) hrun, hlog, List.forall_mem_cons, and_assoc]

/-- **In every run, the entries of the log are one line each iff no tool call ends with an error that shows a line break**
(in its first 80 characters), when the ids and names that are written as they are do not. -/
theorem one_line_iff {T : Tables} {es : List Event} {s : State} (hes : ∀ e ∈ es, e.Plain) (hrun : run T start es = some s) :
    (∀ l ∈ s.log, OneLine l) ↔ ∀ e ∈ es, e.Clean := by
  rw [run_oneLine hes plain_start hrun]
  exact and_iff_right fun l hl => absurd hl List.not_mem_nil

/-- a search that fails on an unreachable store, in two lines of text -/
def brokenEvents : List Event :=
  [⟨0, .serve⟩, ⟨0, .enter 0 0 "00000a0a".toList ⟨[⟨user, "a model\nfor speech".toList⟩], false, "agent".toList⟩⟩,
    ⟨0, .toolBegin 1 .searchModels⟩,
    ⟨0, .toolEnd 1 ⟨[("query".toList, some "a\nb".toList)], none, some "connection failed\n  is the server running?".toList, 40⟩⟩,
    ⟨0, .exit 0 false 90⟩]

theorem one_line_iff_broken : ∃ s, run .ascii start brokenEvents = some s ∧
    ((∀ l ∈ s.log, OneLine l) ↔ ∀ e ∈ brokenEvents, e.Clean) := by
  have hrun : (run .ascii start brokenEvents).isSome = true := by decide
  obtain ⟨s, hs⟩ := Option.isSome_iff_exists.1 hrun
  refine ⟨s, hs, one_line_iff ?_ hs⟩
  simp only [brokenEvents, List.forall_mem_cons]
  exact ⟨trivial, ⟨oneLine_of_all (by decide), oneLine_of_all (by decide)⟩, trivial,
    List.forall_mem_singleton.2 (oneLine_of_all (by decide)), trivial, fun e he => absurd he List.not_mem_nil⟩

/-- its entry is not one line -/
example : ¬∀ e ∈ brokenEvents, e.Clean := by
  intro h
  have hbreak : '\n' ∈ ("connection failed\n  is the server running?".toList).take 80 := by decide
  have hclean := h ⟨0, .toolEnd 1 ⟨[("query".toList, some "a\nb".toList)], none,
    some "connection failed\n  is the server running?".toList, 40⟩⟩ (by simp [brokenEvents]) _ rfl
  exact absurd (hclean _ hbreak) (by decide)

end AgentPick.ActivityLog
