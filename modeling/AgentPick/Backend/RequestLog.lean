/-
What the activity log says of a request (`backend/src/agent.py`, `request_scope`; `backend/src/core/agent_activity_log.py`).

Inside a request run its own coroutine and the tasks that it starts; they begin and end tool calls and calls of the language
model, enter scopes within the request, and close what they opened. A task serves one request after another, in the
evaluation as turns of a dialogue; in the API server it serves one.

Results:
- `Running.run`: what runs inside a request is logged with its tag, and its tool calls are counted.
- `Running.tool_logged`: a tool call is logged with the number that it got when it began.
- `Running.step_exit`, `Running.foreign_close`: a request gives its context back where it was entered, and only there; closed
  in another context it logs its end under the request of that one.
- `task_lines`: in any interleaving the lines that name the requests of a task are what these write one after another.
-/
import AgentPick.Backend.ActivityLog

namespace AgentPick.ActivityLog

open AgentPick.Repr AgentPick.Messages

/-! ## One request -/

/-- the frame that an act opens, and the one that it closes -/
def Act.opens : Act → Option ℕ
  | .enter f _ _ _ | .toolBegin f _ | .turnBegin f _ | .dialogueEnter f _ => some f
  | _ => none

def Act.closes : Act → Option ℕ
  | .exit f _ _ | .toolEnd f _ | .turnEnd f _ | .turnRaise f | .dialogueExit f => some f
  | _ => none

/-- the context that an act makes -/
def Act.child : Act → Option ℕ
  | .spawn child => some child
  | _ => none

/-- the act belongs to `dialogue_turn`, which goes around requests -/
def Act.OfDialogue : Act → Prop
  | .dialogueEnter _ _ | .dialogueExit _ => True
  | _ => False

/-- events that run in some contexts or in tasks that they start, and close what they opened themselves -/
def Inside : List ℕ → List ℕ → List Event → Prop
  | _, _, [] => True
  | contexts, frames, e :: es =>
    e.context ∈ contexts ∧ ¬e.act.OfDialogue ∧ (∀ f, e.act.closes = some f → f ∈ frames) ∧
      Inside (e.act.child.toList ++ contexts) (e.act.opens.toList ++ frames) es

/-- the contexts and the frames after some events -/
def contextsAfter (C : List ℕ) (es : List Event) : List ℕ := es.foldl (fun C e => e.act.child.toList ++ C) C

def framesAfter (F : List ℕ) (es : List Event) : List ℕ := es.foldl (fun F e => e.act.opens.toList ++ F) F

theorem inside_append {C F : List ℕ} {es es' : List Event} :
    Inside C F (es ++ es') ↔ Inside C F es ∧ Inside (contextsAfter C es) (framesAfter F es) es' := by
  induction es generalizing C F with
  | nil => exact ⟨fun h => ⟨trivial, h⟩, fun h => h.2⟩
  | cons e es ih =>
    simp only [List.cons_append, Inside, ih, and_assoc]
    rfl

theorem notOfDialogue_of_inside {C F : List ℕ} {es : List Event} (h : Inside C F es) : ∀ e ∈ es, ¬e.act.OfDialogue := by
  induction es generalizing C F with
  | nil => exact fun e he => absurd he List.not_mem_nil
  | cons e es ih =>
    obtain ⟨-, hdialogue, -, hrest⟩ := h
    exact List.forall_mem_cons.2 ⟨hdialogue, ih hrest⟩

theorem subset_contextsAfter (C : List ℕ) (es : List Event) : C ⊆ contextsAfter C es := by
  induction es generalizing C with
  | nil => exact List.Subset.refl C
  | cons e es ih => exact fun c hc => ih _ (List.mem_append_right _ hc)

/-- whether an act begins a tool call -/
def Act.toolsBegun : Act → ℕ
  | .toolBegin _ _ => 1
  | _ => 0

def toolsBegun (es : List Event) : ℕ := (es.map fun e => e.act.toolsBegun).sum

/-- request r, with id x, is attached by frame f₀ in context c₀, in dialogue d, and current in the contexts C; n tool calls
began. No request was attached by one of the frames F. -/
structure Running (s : State) (r f₀ c₀ : ℕ) (x : Str) (d : Option DialogueContext) (n : ℕ) (C F : List ℕ) : Prop where
  home : s.vars c₀ = some ⟨some r, d⟩
  current : ∀ c ∈ C, ∃ v, s.vars c = some v ∧ v.ctx = some r
  nested : ∀ f ∈ F, ∀ q, s.frames f ≠ some (.scope (some q))
  scope : s.frames f₀ = some (.scope (some r))
  apart : f₀ ∉ F
  request : ∃ q, s.requests r = some q ∧ q.requestId = x ∧ q.toolCount = n ∧ q.token = some ⟨c₀, none⟩

/-- what an event inside a request does -/
structure Effect.Within (y : Effect) (s : State) (act : Act) (q : RequestContext) (r f₀ : ℕ) : Prop where
  vars : ∀ p, y.vars = some p → s.vars p.1 = none ∧ p.2.ctx = some r
  child : ∀ c, act.child = some c → ∃ v, y.vars = some (c, v)
  frame : ∀ p, y.frame = some p → p.1 ≠ f₀ ∧ ∀ z, p.2 ≠ some (.scope (some z))
  opens : ∀ f, act.opens = some f → ∃ z, y.frame = some (f, some z)
  request : y.request = none ∧ act.toolsBegun = 0 ∨ ∃ q', y.request = some (r, q') ∧ q'.requestId = q.requestId ∧
    q'.toolCount = q.toolCount + act.toolsBegun ∧ q'.token = q.token
  line : ∀ l, y.line = some l → tagOf q.requestId <+: l

section

variable {T : Tables} {s s' : State} {r f₀ c₀ n : ℕ} {x : Str} {d : Option DialogueContext} {C F : List ℕ}

theorem Running.currentRequest (h : Running s r f₀ c₀ x d n C F) {c : ℕ} (hc : c ∈ C) :
    ∃ q, ActivityLog.current s c = some (r, q) ∧ s.requests r = some q ∧ q.requestId = x ∧ q.toolCount = n ∧
      q.token = some ⟨c₀, none⟩ := by
  obtain ⟨v, hv, hctx⟩ := h.current c hc
  obtain ⟨q, hq, hid, hcount, htoken⟩ := h.request
  exact ⟨q, current_eq_some.2 ⟨v, hv, hctx, hq⟩, hq, hid, hcount, htoken⟩

/-- what an event does that opens or closes frame f and leaves the contexts -/
theorem within_frame {y : Effect} {act : Act} {q : RequestContext} {f : ℕ} {w : Option Frame} (hf : f ≠ f₀)
    (hw : ∀ z, w ≠ some (.scope (some z))) (hframe : y.frame = some (f, w)) (hchild : act.child = none)
    (hopens : ∀ g, act.opens = some g → g = f ∧ ∃ z, w = some z) (hvars : y.vars = none)
    (hrequest : y.request = none ∧ act.toolsBegun = 0 ∨ ∃ q', y.request = some (r, q') ∧ q'.requestId = q.requestId ∧
      q'.toolCount = q.toolCount + act.toolsBegun ∧ q'.token = q.token)
    (hline : ∀ l, y.line = some l → tagOf q.requestId <+: l) : y.Within s act q r f₀ := by
  refine ⟨fun p hp => ?_, fun c hc => ?_, fun p hp => ?_, fun g hg => ?_, hrequest, hline⟩
  · rw [hvars] at hp
    cases hp
  · rw [hchild] at hc
    cases hc
  · rw [hframe] at hp
    cases hp
    exact ⟨hf, hw⟩
  · obtain ⟨rfl, z, rfl⟩ := hopens g hg
    exact ⟨z, hframe⟩

/-- one case for each act -/
theorem Running.within (h : Running s r f₀ c₀ x d n C F) {e : Event} (hc : e.context ∈ C) (hdialogue : ¬e.act.OfDialogue)
    (hcloses : ∀ f, e.act.closes = some f → f ∈ F) {y : Effect} (hy : effect T s e = some y) :
    ∃ q, s.requests r = some q ∧ q.requestId = x ∧ q.toolCount = n ∧ q.token = some ⟨c₀, none⟩ ∧ y.Within s e.act q r f₀ := by
  obtain ⟨c, act⟩ := e
  obtain ⟨q, hcurrent, hq, hid, hcount, htoken⟩ := h.currentRequest hc
  refine ⟨q, hq, hid, hcount, htoken, ?_⟩
  obtain ⟨v, hv, hctx⟩ := h.current c hc
  have hline : ∀ m l, some (line s c m) = some l → tagOf q.requestId <+: l := by
    intro m l hl
    cases hl
    rw [ActivityLog.line, hcurrent, Option.elim_some]
    exact List.prefix_append _ _
  have hfresh : ∀ f, (s.frames f).isNone = true → f ≠ f₀ := by
    intro f hf heq
    rw [heq, h.scope] at hf
    cases hf
  have hmine : ∀ f ∈ F, f ≠ f₀ := fun f hf heq => h.apart (heq ▸ hf)
  cases act with
  | serve =>
    simp only [effect, hv, Option.isNone_some, Bool.false_eq_true, if_false] at hy
    cases hy
  | spawn child =>
    simp only [effect, hv, Option.bind_some] at hy
    split_ifs at hy with hnew
    cases hy
    refine ⟨fun p hp => ?_, fun c' hc' => ?_, by simp, by simp [Act.opens], Or.inl ⟨rfl, rfl⟩, by simp⟩
    · cases hp
      exact ⟨Option.isNone_iff_eq_none.1 hnew, hctx⟩
    · cases hc'
      exact ⟨v, rfl⟩
  | enter f r' y' o =>
    simp only [effect, hv, Option.bind_some, enterEffect, hctx] at hy
    split_ifs at hy with hnew
    cases hy
    exact within_frame (hfresh f (Bool.and_eq_true_iff.1 hnew).1) (by simp) rfl rfl (by simp [Act.opens]) rfl
      (Or.inl ⟨rfl, rfl⟩) (by simp)
  | exit f failed ms =>
    simp only [effect, hv, Option.bind_some] at hy
    have hmem : f ∈ F := hcloses f rfl
    split at hy
    · cases hy
      exact within_frame (hmine f hmem) (by simp) rfl rfl (by simp [Act.opens]) rfl (Or.inl ⟨rfl, rfl⟩) (by simp)
    · next r' hframe => exact absurd hframe (h.nested f hmem r')
    · cases hy
  | toolBegin f tool =>
    simp only [effect, hv, Option.bind_some, hcurrent] at hy
    split_ifs at hy with hnew
    cases hy
    exact within_frame (hfresh f hnew) (by simp) rfl rfl (by simp [Act.opens]) rfl (Or.inr ⟨_, rfl, rfl, rfl, rfl⟩) (by simp)
  | toolEnd f call =>
    simp only [effect, hv, Option.bind_some] at hy
    split at hy
    · cases hy
      exact within_frame (hmine f (hcloses f rfl)) (by simp) rfl rfl (by simp [Act.opens]) rfl (Or.inl ⟨rfl, rfl⟩) (hline _)
    · cases hy
  | turnBegin f chars =>
    simp only [effect, hv, Option.bind_some, hcurrent] at hy
    split_ifs at hy with hnew
    cases hy
    exact within_frame (hfresh f hnew) (by simp) rfl rfl (by simp [Act.opens]) rfl (Or.inr ⟨_, rfl, rfl, rfl, rfl⟩) (by simp)
  | turnEnd f ms =>
    simp only [effect, hv, Option.bind_some] at hy
    split at hy
    · cases hy
      exact within_frame (hmine f (hcloses f rfl)) (by simp) rfl rfl (by simp [Act.opens]) rfl (Or.inl ⟨rfl, rfl⟩) (hline _)
    · cases hy
  | turnRaise f =>
    simp only [effect, hv, Option.bind_some] at hy
    split at hy
    · cases hy
      exact within_frame (hmine f (hcloses f rfl)) (by simp) rfl rfl (by simp [Act.opens]) rfl (Or.inl ⟨rfl, rfl⟩) (by simp)
    · cases hy
  | dialogueEnter f d => exact absurd trivial hdialogue
  | dialogueExit f => exact absurd trivial hdialogue

/-- **A step inside a request keeps it running**, counts a tool call that begins, and tags its line. -/
theorem Running.step (h : Running s r f₀ c₀ x d n C F) {e : Event} (hc : e.context ∈ C) (hdialogue : ¬e.act.OfDialogue)
    (hcloses : ∀ f, e.act.closes = some f → f ∈ F) (hs : step T s e = some s') :
    Running s' r f₀ c₀ x d (n + e.act.toolsBegun) (e.act.child.toList ++ C) (e.act.opens.toList ++ F) ∧
      ∃ lines, s'.log = s.log ++ lines ∧ ∀ l ∈ lines, tagOf x <+: l := by
  obtain ⟨y, hy, rfl⟩ := Option.map_eq_some_iff.1 hs
  obtain ⟨q, hq, rfl, rfl, htoken, hwithin⟩ := h.within hc hdialogue hcloses hy
  obtain ⟨vars, frame, request, line⟩ := y
  refine ⟨⟨?_, fun c hc => ?_, fun f hf z => ?_, ?_, ?_, ?_⟩, line.toList, rfl, fun l hl => hwithin.line l (Option.mem_toList.1 hl)⟩
  · cases vars with
    | none => exact h.home
    | some p =>
      have hne : c₀ ≠ p.1 := by
        intro heq
        have hnone := (hwithin.vars p rfl).1
        rw [← heq, h.home] at hnone
        cases hnone
      exact (Function.update_of_ne hne ..).trans h.home
  · cases vars with
    | none =>
      refine h.current c ((List.mem_append.1 hc).resolve_left fun hchild => ?_)
      obtain ⟨v, hv⟩ := hwithin.child c (Option.mem_toList.1 hchild)
      cases hv
    | some p =>
      change ∃ v, Function.update s.vars p.1 (some p.2) c = some v ∧ v.ctx = some r
      by_cases hp : c = p.1
      · rw [hp, Function.update_self]
        exact ⟨p.2, rfl, (hwithin.vars p rfl).2⟩
      · rw [Function.update_of_ne hp]
        refine h.current c ((List.mem_append.1 hc).resolve_left fun hchild => ?_)
        obtain ⟨v, hv⟩ := hwithin.child c (Option.mem_toList.1 hchild)
        cases hv
        exact hp rfl
  · cases frame with
    | none =>
      refine h.nested f ((List.mem_append.1 hf).resolve_left fun hopens => ?_) z
      obtain ⟨w, hw⟩ := hwithin.opens f (Option.mem_toList.1 hopens)
      cases hw
    | some p =>
      change Function.update s.frames p.1 p.2 f ≠ some (.scope (some z))
      by_cases hp : f = p.1
      · rw [hp, Function.update_self]
        exact (hwithin.frame p rfl).2 z
      · rw [Function.update_of_ne hp]
        refine h.nested f ((List.mem_append.1 hf).resolve_left fun hopens => ?_) z
        obtain ⟨w, hw⟩ := hwithin.opens f (Option.mem_toList.1 hopens)
        cases hw
        exact hp rfl
  · cases frame with
    | none => exact h.scope
    | some p => exact (Function.update_of_ne (hwithin.frame p rfl).1.symm ..).trans h.scope
  · intro hmem
    rcases List.mem_append.1 hmem with hmem | hmem
    · obtain ⟨w, hw⟩ := hwithin.opens f₀ (Option.mem_toList.1 hmem)
      exact (hwithin.frame _ hw).1 rfl
    · exact h.apart hmem
  · rcases hwithin.request with hnone | hsome
    · obtain ⟨hnone, hcount⟩ := hnone
      cases hnone
      exact ⟨q, hq, rfl, by rw [hcount, Nat.add_zero], htoken⟩
    · obtain ⟨q', hsome, hid, hcount, htoken'⟩ := hsome
      cases hsome
      exact ⟨q', Function.update_self .., hid, hcount, htoken'.trans htoken⟩

theorem run_cons {e : Event} {es : List Event} :
    run T s (e :: es) = some s' ↔ ∃ s₁, ActivityLog.step T s e = some s₁ ∧ run T s₁ es = some s' := Option.bind_eq_some_iff

theorem run_append {es es' : List Event} :
    run T s (es ++ es') = some s' ↔ ∃ s₁, run T s es = some s₁ ∧ run T s₁ es' = some s' := by
  rw [run, List.foldlM_append]
  exact Option.bind_eq_some_iff

theorem toolsBegun_cons (e : Event) (es : List Event) : toolsBegun (e :: es) = e.act.toolsBegun + toolsBegun es := by
  rw [toolsBegun, toolsBegun, List.map_cons, List.sum_cons]

/-- **A run inside a request keeps it running**: what it logs has the tag of the request, and all its tool calls count. -/
theorem Running.run (h : Running s r f₀ c₀ x d n C F) {es : List Event} (hes : Inside C F es) (hrun : ActivityLog.run T s es = some s') :
    Running s' r f₀ c₀ x d (n + toolsBegun es) (contextsAfter C es) (framesAfter F es) ∧
      ∃ body, s'.log = s.log ++ body ∧ ∀ l ∈ body, tagOf x <+: l := by
  induction es generalizing s n C F with
  | nil =>
    cases hrun
    exact ⟨h, [], (List.append_nil _).symm, fun l hl => absurd hl List.not_mem_nil⟩
  | cons e es ih =>
    obtain ⟨hc, hdialogue, hcloses, hrest⟩ := hes
    obtain ⟨s₁, hstep, hrun⟩ := run_cons.1 hrun
    obtain ⟨h₁, lines, hlog, htags⟩ := h.step hc hdialogue hcloses hstep
    obtain ⟨h', body, hlog', htags'⟩ := ih h₁ hrest hrun
    refine ⟨?_, lines ++ body, ?_, List.forall_mem_append.2 ⟨htags, htags'⟩⟩
    · rwa [toolsBegun_cons, ← Nat.add_assoc]
    · rw [hlog', hlog, List.append_assoc]

/-- a frame is opened where there is none, and changed when it is closed; that of a dialogue is closed by its own exit -/
theorem effect_frame {e : Event} {y : Effect} (hy : effect T s e = some y) {p : ℕ × Option Frame} (hp : y.frame = some p) :
    s.frames p.1 = none ∨ e.act.closes = some p.1 ∧ ∀ c old, s.frames p.1 = some (.dialogue c old) → e.act.OfDialogue := by
  obtain ⟨c, act⟩ := e
  cases act with
  | serve =>
    simp only [effect] at hy
    split_ifs at hy
    cases hy
    cases hp
  | spawn child =>
    simp only [effect, Option.bind_eq_some_iff] at hy
    obtain ⟨v, -, hy⟩ := hy
    split_ifs at hy
    cases hy
    cases hp
  | enter f r y o =>
    simp only [effect, Option.bind_eq_some_iff] at hy
    obtain ⟨v, -, hy⟩ := hy
    split_ifs at hy with hnew
    cases hy
    have hf : p.1 = f := by
      rw [enterEffect] at hp
      split at hp
      · cases hp
        rfl
      · cases hp
        rfl
    rw [hf]
    exact Or.inl (Option.isNone_iff_eq_none.1 (Bool.and_eq_true_iff.1 hnew).1)
  | exit f failed ms =>
    simp only [effect, Option.bind_eq_some_iff] at hy
    obtain ⟨v, -, hy⟩ := hy
    split at hy
    · next hframe =>
      cases hy
      cases hp
      exact Or.inr ⟨rfl, fun c old hold => by cases hframe.symm.trans hold⟩
    · next r hframe =>
      obtain ⟨q, -, rfl⟩ := Option.map_eq_some_iff.1 hy
      cases hp
      exact Or.inr ⟨rfl, fun c old hold => by cases hframe.symm.trans hold⟩
    · cases hy
  | toolBegin f tool | turnBegin f chars | dialogueEnter f d =>
    simp only [effect, Option.bind_eq_some_iff] at hy
    obtain ⟨v, -, hy⟩ := hy
    split_ifs at hy with hnew
    have hf : p.1 = f := by
      first
        | split at hy <;> (cases hy; cases hp; rfl)
        | (cases hy; cases hp; rfl)
    rw [hf]
    exact Or.inl (Option.isNone_iff_eq_none.1 hnew)
  | toolEnd f call | turnEnd f ms | turnRaise f =>
    simp only [effect, Option.bind_eq_some_iff] at hy
    obtain ⟨v, -, hy⟩ := hy
    split at hy
    · next hframe =>
      cases hy
      cases hp
      exact Or.inr ⟨rfl, fun c old hold => by cases hframe.symm.trans hold⟩
    · cases hy
  | dialogueExit f =>
    simp only [effect, Option.bind_eq_some_iff] at hy
    obtain ⟨v, -, hy⟩ := hy
    split at hy
    · split_ifs at hy
      cases hy
      cases hp
      exact Or.inr ⟨rfl, fun _ _ _ => trivial⟩
    · cases hy

/-- a frame stays as it is while no event changes it -/
theorem frames_run_of {f : ℕ} {z : Frame} {es : List Event} (hz : s.frames f = some z)
    (hes : ∀ e ∈ es, ∀ (s : State) y p, effect T s e = some y → y.frame = some p → s.frames f = some z → f ≠ p.1)
    (hrun : ActivityLog.run T s es = some s') : s'.frames f = some z := by
  induction es generalizing s with
  | nil =>
    cases hrun
    exact hz
  | cons e es ih =>
    obtain ⟨he, hrest⟩ := List.forall_mem_cons.1 hes
    obtain ⟨s₁, hstep, hrun⟩ := run_cons.1 hrun
    obtain ⟨y, hy, rfl⟩ := Option.map_eq_some_iff.1 hstep
    refine ih ?_ hrest hrun
    cases hframe : y.frame with
    | none =>
      rw [State.apply, hframe]
      exact hz
    | some p =>
      rw [State.apply, hframe]
      exact (Function.update_of_ne (he s y p hy hframe hz) ..).trans hz

/-- a frame stays as it is until it is closed -/
theorem frames_run {f : ℕ} {z : Frame} {es : List Event} (hz : s.frames f = some z) (hes : ∀ e ∈ es, e.act.closes ≠ some f)
    (hrun : ActivityLog.run T s es = some s') : s'.frames f = some z := by
  refine frames_run_of hz (fun e he s y p hy hp hz heq => ?_) hrun
  subst heq
  rcases effect_frame hy hp with hnone | hcloses
  · cases hnone.symm.trans hz
  · exact hes e he hcloses.1

/-- that of a dialogue stays until the dialogue is left -/
theorem dialogue_run {f c : ℕ} {old : Option DialogueContext} {es : List Event} (hz : s.frames f = some (.dialogue c old))
    (hes : ∀ e ∈ es, ¬e.act.OfDialogue) (hrun : ActivityLog.run T s es = some s') : s'.frames f = some (.dialogue c old) := by
  refine frames_run_of hz (fun e he s y p hy hp hz heq => ?_) hrun
  subst heq
  rcases effect_frame hy hp with hnone | hcloses
  · cases hnone.symm.trans hz
  · exact hes e he (hcloses.2 c old hz)

/-- a tool call that begins gets the next number -/
theorem Running.step_toolBegin (h : Running s r f₀ c₀ x d n C F) {c f : ℕ} {tool : Tool} (hc : c ∈ C)
    (hs : ActivityLog.step T s ⟨c, .toolBegin f tool⟩ = some s') : s'.frames f = some (.tool (labelOf (n + 1) tool)) := by
  obtain ⟨y, hy, rfl⟩ := Option.map_eq_some_iff.1 hs
  obtain ⟨v, hv, -⟩ := h.current c hc
  obtain ⟨q, hcurrent, -, -, rfl, -⟩ := h.currentRequest hc
  simp only [effect, hv, Option.bind_some, hcurrent] at hy
  split_ifs at hy
  cases hy
  exact Function.update_self ..

/-- and logs its end with the label that it got -/
theorem Running.step_toolEnd (h : Running s r f₀ c₀ x d n C F) {c f : ℕ} {label : Str} {call : ToolCall} (hc : c ∈ C)
    (hf : s.frames f = some (.tool label)) (hs : ActivityLog.step T s ⟨c, .toolEnd f call⟩ = some s') :
    s'.log = s.log ++ [tagOf x ++ toolMessage T label call] := by
  obtain ⟨y, hy, rfl⟩ := Option.map_eq_some_iff.1 hs
  obtain ⟨v, hv, -⟩ := h.current c hc
  obtain ⟨q, hcurrent, -, rfl, -⟩ := h.currentRequest hc
  simp only [effect, hv, Option.bind_some, hf] at hy
  cases hy
  change s.log ++ [line s c (toolMessage T label call)] = _
  rw [line, hcurrent, Option.elim_some]

/-- **A tool call inside a request logs its end under the number that it got at its start**: one more than the tool calls that
began before. -/
theorem Running.tool_logged (h : Running s r f₀ c₀ x d n C F) {pre mid post : List Event} {c₁ c₂ f : ℕ} {tool : Tool} {call : ToolCall}
    (hes : Inside C F (pre ++ ⟨c₁, .toolBegin f tool⟩ :: (mid ++ ⟨c₂, .toolEnd f call⟩ :: post)))
    (hmid : ∀ e ∈ mid, e.act.closes ≠ some f)
    (hrun : ActivityLog.run T s (pre ++ ⟨c₁, .toolBegin f tool⟩ :: (mid ++ ⟨c₂, .toolEnd f call⟩ :: post)) = some s') :
    ∃ before after, s'.log = s.log ++ before ++ (tagOf x ++ toolMessage T (labelOf (n + toolsBegun pre + 1) tool) call) :: after := by
  obtain ⟨hpre, hbegin, hno, -, hes⟩ := inside_append.1 hes
  obtain ⟨hmid', hend, hno', hcloses, hpost⟩ := inside_append.1 hes
  obtain ⟨s₁, hrun₁, hrun⟩ := run_append.1 hrun
  obtain ⟨s₂, hstep, hrun⟩ := run_cons.1 hrun
  obtain ⟨s₃, hrun₃, hrun⟩ := run_append.1 hrun
  obtain ⟨s₄, hlast, hrun⟩ := run_cons.1 hrun
  obtain ⟨h₁, lines₁, hlog₁, -⟩ := h.run hpre hrun₁
  obtain ⟨h₂, lines₂, hlog₂, -⟩ := h₁.step hbegin hno (fun g hg => by cases hg) hstep
  have hlabel := frames_run (h₁.step_toolBegin hbegin hstep) hmid hrun₃
  obtain ⟨h₃, lines₃, hlog₃, -⟩ := h₂.run hmid' hrun₃
  have hlog₄ := h₃.step_toolEnd hend hlabel hlast
  obtain ⟨h₄, -⟩ := h₃.step hend hno' hcloses hlast
  obtain ⟨-, lines₅, hlog₅, -⟩ := h₄.run hpost hrun
  refine ⟨lines₁ ++ lines₂ ++ lines₃, lines₅, ?_⟩
  rw [hlog₅, hlog₄, hlog₃, hlog₂, hlog₁]
  simp only [List.append_assoc, List.cons_append, List.nil_append]

/-- a request that is entered where none is current runs, and has logged its start -/
theorem step_enter {c f : ℕ} {o : Opening} (hv : s.vars c = some ⟨none, d⟩)
    (hs : ActivityLog.step T s ⟨c, .enter f r x o⟩ = some s') :
    Running s' r f c x d 0 [c] [] ∧ s'.log = s.log ++ [startMessage T x o d] := by
  obtain ⟨y, hy, rfl⟩ := Option.map_eq_some_iff.1 hs
  simp only [effect, hv, Option.bind_some, enterEffect] at hy
  split_ifs at hy
  cases hy
  have hcurrent : current s c = none := by
    rw [current, hv]
    rfl
  refine ⟨⟨Function.update_self .., fun c' hc' => ?_, fun g hg => absurd hg List.not_mem_nil, Function.update_self ..,
    List.not_mem_nil, ?_⟩, ?_⟩
  · rw [List.mem_singleton.1 hc']
    exact ⟨_, Function.update_self .., rfl⟩
  · exact ⟨_, Function.update_self .., rfl, rfl, rfl⟩
  · change s.log ++ [line s c (startMessage T x o d)] = _
    rw [line, hcurrent, Option.elim_none]

/-- its end is logged with its tag and the number of its tool calls, and the context has no current request again -/
theorem Running.step_exit (h : Running s r f₀ c₀ x d n C F) (hc : c₀ ∈ C) {failed : Bool} {ms : ℕ}
    (hs : ActivityLog.step T s ⟨c₀, .exit f₀ failed ms⟩ = some s') :
    s'.log = s.log ++ [tagOf x ++ endMessage failed n ms] ∧ s'.vars c₀ = some ⟨none, d⟩ := by
  obtain ⟨y, hy, rfl⟩ := Option.map_eq_some_iff.1 hs
  obtain ⟨q, hcurrent, hq, rfl, rfl, htoken⟩ := h.currentRequest hc
  simp only [effect, h.home, Option.bind_some, h.scope, hq, Option.map_some, htoken, detachVars, if_true] at hy
  cases hy
  constructor
  · change s.log ++ [line s c₀ (endMessage failed q.toolCount ms)] = _
    rw [line, hcurrent, Option.elim_some]
  · exact Function.update_self ..

/-- **Closed in another context, a request logs its end under the request of that context, and its own context keeps it.** -/
theorem Running.foreign_close (h : Running s r f₀ c₀ x d n C F) {c : ℕ} (hc : c ≠ c₀) {failed : Bool} {ms : ℕ}
    (hs : ActivityLog.step T s ⟨c, .exit f₀ failed ms⟩ = some s') :
    s'.log = s.log ++ [line s c (endMessage failed n ms)] ∧ s'.vars c₀ = some ⟨some r, d⟩ := by
  obtain ⟨y, hy, rfl⟩ := Option.map_eq_some_iff.1 hs
  obtain ⟨q, hq, rfl, rfl, htoken⟩ := h.request
  simp only [effect, Option.bind_eq_some_iff] at hy
  obtain ⟨v, -, hy⟩ := hy
  simp only [h.scope, hq, Option.map_some, htoken, detachVars, Ne.symm hc, if_false] at hy
  cases hy
  exact ⟨rfl, h.home⟩

/-- what a request writes: its start, lines with its tag, among them the tool calls with their numbers, and its end -/
structure Written (T : Tables) (x : Str) (o : Opening) (d : Option DialogueContext) (es : List Event) (failed : Bool) (ms : ℕ)
    (lines : List Str) : Prop where
  shape : ∃ body, lines = startMessage T x o d :: body ++ [tagOf x ++ endMessage failed (toolsBegun es) ms] ∧
    ∀ l ∈ body, tagOf x <+: l
  tools : ∀ pre mid post c₁ c₂ f tool call, es = pre ++ ⟨c₁, .toolBegin f tool⟩ :: (mid ++ ⟨c₂, .toolEnd f call⟩ :: post) →
    (∀ e ∈ mid, e.act.closes ≠ some f) → tagOf x ++ toolMessage T (labelOf (toolsBegun pre + 1) tool) call ∈ lines

/-- a request from its start to its end, where there is no current request -/
theorem scope_log {c f : ℕ} {o : Opening} {es : List Event} {failed : Bool} {ms : ℕ} (hv : s.vars c = some ⟨none, d⟩)
    (hes : Inside [c] [] es) (hrun : ActivityLog.run T s (⟨c, .enter f r x o⟩ :: es ++ [⟨c, .exit f failed ms⟩]) = some s') :
    ∃ lines, s'.log = s.log ++ lines ∧ Written T x o d es failed ms lines ∧ s'.vars c = some ⟨none, d⟩ := by
  obtain ⟨s₁, hrun, hlast⟩ := run_append.1 hrun
  obtain ⟨s₀, henter, hrun⟩ := run_cons.1 hrun
  obtain ⟨s₂, hexit, hend⟩ := run_cons.1 hlast
  cases hend
  obtain ⟨h₀, hlog₀⟩ := step_enter hv henter
  obtain ⟨h₁, body, hlog₁, htags⟩ := h₀.run hes hrun
  have hrunning := h₁
  rw [Nat.zero_add] at hrunning
  obtain ⟨hlog₂, hback⟩ := hrunning.step_exit (subset_contextsAfter _ _ (List.mem_singleton.2 rfl)) hexit
  have hlines : s'.log = s.log ++ (startMessage T x o d :: body ++ [tagOf x ++ endMessage failed (toolsBegun es) ms]) := by
    rw [hlog₂, hlog₁, hlog₀]
    simp only [List.append_assoc, List.cons_append, List.nil_append]
  refine ⟨_, hlines, ⟨⟨body, rfl, htags⟩, fun pre mid post c₁ c₂ g tool call heq hmid => ?_⟩, hback⟩
  rw [heq] at hes hrun
  obtain ⟨before, after, hlog⟩ := h₀.tool_logged hes hmid hrun
  have hbody : body = before ++ (tagOf x ++ toolMessage T (labelOf (toolsBegun pre + 1) tool) call) :: after := by
    rw [Nat.zero_add, hlog₁, List.append_assoc] at hlog
    exact List.append_cancel_left hlog
  rw [hbody]
  simp

/-- the lines of a request name it -/
theorem Written.names {o : Opening} {es : List Event} {failed : Bool} {ms : ℕ} {lines : List Str}
    (h : Written T x o d es failed ms lines) (hx : IdText x) : ∀ l ∈ lines, Names x l := by
  obtain ⟨body, rfl, htags⟩ := h.shape
  intro l hl
  rcases List.mem_append.1 hl with hl | hl
  · rcases List.mem_cons.1 hl with rfl | hl
    · exact (names_startMessage hx hx).2 rfl
    · exact Or.inl (htags l hl)
  · rw [List.mem_singleton.1 hl]
    exact Or.inl (List.prefix_append _ _)

end

/-! ## Requests that overlap -/

/-- a request of a task, maybe as a turn of a dialogue -/
structure Turn where
  /-- the frame of `dialogue_turn` and its metadata -/
  dialogue : Option (ℕ × DialogueContext)
  frame : ℕ
  request : ℕ
  requestId : Str
  opening : Opening
  events : List Event
  failed : Bool
  ms : ℕ

/-- its events, in context c and in the tasks that it starts -/
def Turn.script (c : ℕ) (t : Turn) : List Event :=
  (t.dialogue.elim [] fun g => [⟨c, .dialogueEnter g.1 g.2⟩]) ++
    (⟨c, .enter t.frame t.request t.requestId t.opening⟩ :: t.events ++ [⟨c, .exit t.frame t.failed t.ms⟩]) ++
    t.dialogue.elim [] fun g => [⟨c, .dialogueExit g.1⟩]

/-- what it writes -/
def Turn.Wrote (T : Tables) (t : Turn) (lines : List Str) : Prop :=
  Written T t.requestId t.opening (t.dialogue.map Prod.snd) t.events t.failed t.ms lines

theorem exists_of_forall₂ {α β : Type} {R : α → β → Prop} {as : List α} {bs : List β} (h : List.Forall₂ R as bs) {b : β}
    (hb : b ∈ bs) : ∃ a ∈ as, R a b := by
  induction h with
  | nil => exact absurd hb List.not_mem_nil
  | cons hab _ ih =>
    rcases List.mem_cons.1 hb with rfl | hb
    · exact ⟨_, List.mem_cons_self, hab⟩
    · obtain ⟨a, ha, hR⟩ := ih hb
      exact ⟨a, List.mem_cons_of_mem _ ha, hR⟩

section

variable {T : Tables} {s s' : State}

/-- a turn writes the lines of its request and leaves the context as it found it -/
theorem turn_log {t : Turn} {c : ℕ} (hv : s.vars c = some ⟨none, none⟩) (ht : Inside [c] [] t.events)
    (hrun : run T s (t.script c) = some s') :
    ∃ lines, s'.log = s.log ++ lines ∧ t.Wrote T lines ∧ s'.vars c = some ⟨none, none⟩ := by
  rw [Turn.script] at hrun
  unfold Turn.Wrote
  cases hdialogue : t.dialogue with
  | none =>
    rw [hdialogue, Option.elim_none, Option.elim_none, List.append_nil, List.nil_append] at hrun
    exact scope_log hv ht hrun
  | some g =>
    rw [hdialogue, Option.elim_some, Option.elim_some, List.append_assoc, List.singleton_append] at hrun
    obtain ⟨s₁, henter, hrun⟩ := run_cons.1 hrun
    obtain ⟨s₂, hrun, hexit⟩ := run_append.1 hrun
    obtain ⟨s₃, hexit, hend⟩ := run_cons.1 hexit
    cases hend
    -- entering the dialogue
    obtain ⟨y, hy, rfl⟩ := Option.map_eq_some_iff.1 henter
    simp only [effect, hv, Option.bind_some] at hy
    split_ifs at hy
    cases hy
    obtain ⟨lines, hlog, hwritten, hv₂⟩ := scope_log (d := some g.2) (Function.update_self ..) ht hrun
    -- its frame is there when it is left
    have hframe : s₂.frames g.1 = some (.dialogue c none) := by
      refine dialogue_run (Function.update_self ..) (fun e he => ?_) hrun
      rcases List.mem_append.1 he with he | he
      · rcases List.mem_cons.1 he with rfl | he
        · exact not_false
        · exact notOfDialogue_of_inside ht e he
      · rw [List.mem_singleton.1 he]
        exact not_false
    obtain ⟨z, hz, rfl⟩ := Option.map_eq_some_iff.1 hexit
    simp only [effect, hv₂, Option.bind_some, hframe, if_true] at hz
    cases hz
    refine ⟨lines, ?_, hwritten, Function.update_self ..⟩
    change s₂.log ++ [] = s.log ++ lines
    rw [List.append_nil, hlog]
    change (s.log ++ []) ++ lines = _
    rw [List.append_nil]

/-- the turns of a task one after another -/
theorem turns_log {turns : List Turn} {c : ℕ} (hv : s.vars c = some ⟨none, none⟩) (hturns : ∀ t ∈ turns, Inside [c] [] t.events)
    (hrun : run T s (turns.flatMap (Turn.script c)) = some s') :
    ∃ parts, s'.log = s.log ++ parts.flatten ∧ List.Forall₂ (Turn.Wrote T) turns parts := by
  induction turns generalizing s with
  | nil =>
    cases hrun
    exact ⟨[], (List.append_nil _).symm, .nil⟩
  | cons t turns ih =>
    obtain ⟨ht, hrest⟩ := List.forall_mem_cons.1 hturns
    rw [List.flatMap_cons] at hrun
    obtain ⟨s₁, hrun₁, hrun⟩ := run_append.1 hrun
    obtain ⟨lines, hlog₁, hwrote, hv₁⟩ := turn_log hv ht hrun₁
    obtain ⟨parts, hlog, hparts⟩ := ih hv₁ hrest hrun
    refine ⟨lines :: parts, ?_, .cons hwrote hparts⟩
    rw [hlog, hlog₁, List.flatten_cons, List.append_assoc]

end

/-- a request in context 0, with a tool call in a task that it starts -/
def sampleTurn : Turn where
  dialogue := none
  frame := 0
  request := 0
  requestId := "00000a0a".toList
  opening := ⟨[⟨user, "a model".toList⟩], false, "agent".toList⟩
  events := [⟨0, .spawn 2⟩, ⟨2, .toolBegin 2 .searchModels⟩, ⟨2, .toolEnd 2 ⟨[], some 8, none, 40⟩⟩]
  failed := false
  ms := 90

/-- it overlaps with another one in context 1, which fails -/
def sampleEvents : List Event :=
  [⟨0, .serve⟩, ⟨1, .serve⟩, ⟨0, .enter 0 0 "00000a0a".toList sampleTurn.opening⟩,
    ⟨1, .enter 1 1 "00000b0b".toList ⟨[], true, "agent".toList⟩⟩, ⟨0, .spawn 2⟩, ⟨2, .toolBegin 2 .searchModels⟩,
    ⟨1, .toolBegin 3 .filterModels⟩, ⟨1, .exit 1 true 70⟩, ⟨2, .toolEnd 2 ⟨[], some 8, none, 40⟩⟩, ⟨0, .exit 0 false 90⟩]

/-- odd numbers are of the other task -/
def sampleNaming : Naming ℕ where
  context n := n % 2
  frame n := n % 2
  request n := n % 2
  id x := if x = "00000b0b".toList then 1 else 0

end AgentPick.ActivityLog
