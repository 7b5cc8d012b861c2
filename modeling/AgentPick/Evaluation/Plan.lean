/-
The planner's reply as query parameters (`evaluation/systems.py`, `_parse_plan` and `_filter_kwargs`).

The reply is cut from its first `{` to its last `}` and decoded; what is not an object is no plan. Texts are kept stripped if
something is left, a sort key if it is known. A size bound is any number: the isinstance tests let NaN, the infinities and
integers of any size pass, and `float(value)` stands outside every handler.

Results:
- `filterKwargs_eq_ok`: the parameters of a plan, one by one.
- `usable_iff`: a reply yields parameters that `filter_models` accepts iff its decoding stays within the stack and each size bound
  is a number of which `int(float(b) * 1_000_000_000)` is defined.
- `completes_kwargsOf`: it yields parameters at all iff its decoding stays within the stack and no size bound is too large for a
  float.
- `bounds_escape`: a reply with a bound that is too large for a float, and replies with bounds that have no count.
-/
import Mathlib.Tactic
import AgentPick.Core.PyJson
import AgentPick.Catalog.FilterCall

namespace AgentPick.Plan

open AgentPick.Text AgentPick.PyJson AgentPick.Raise AgentPick.Catalog

/-! ## The functions -/

inductive Raised where
  | recursionError
  | overflowError
deriving DecidableEq, Repr

/-- an object of a decoded text -/
abbrev Obj := List (Str × PyJson)

/-- the value of a keyword argument -/
inductive Arg where
  | text (s : Str)
  | number (x : Double)
deriving DecidableEq, Repr

abbrev Kwargs := Dict Str Arg

/-- `text.find(c)` -/
def find (c : Char) (text : Str) : ℤ :=
  match text.findIdx? (· = c) with
  | some i => i
  | none => -1

/-- `text.rfind(c)` -/
def rfind (c : Char) (text : Str) : ℤ :=
  match text.reverse.findIdx? (· = c) with
  | some i => text.length - 1 - i
  | none => -1

/-- `text[start : end + 1]`, from the first opening brace to the last closing one -/
def braced (text : Str) : Option Str :=
  let start := find '{' text
  let stop := rfind '}' text
  if start < 0 ∨ stop ≤ start then none else some ((text.drop start.toNat).take (stop + 1 - start).toNat)

/-- `_parse_plan` -/
def parsePlan (R : Rounding) (depth : ℕ) (text : Str) : Except Raised Obj :=
  match braced text with
  | none => .ok []
  | some t =>
    match loads R depth t with
    | .ok (.obj plan) => .ok plan
    | .ok _ => .ok []
    | .error .malformed => .ok []
    | .error .tooDeep => .error .recursionError
    -- does not happen
    | .error .outOfFuel => .ok []

def taskType : Str := "task_type".toList
def tag : Str := "tag".toList
def nameContains : Str := "name_contains".toList
def minParamsB : Str := "min_params_b".toList
def maxParamsB : Str := "max_params_b".toList
def sortBy : Str := "sort_by".toList

def textKeys : List Str := [taskType, tag, nameContains]

def sizeKeys : List Str := [minParamsB, maxParamsB]

/-- `TOP_K` -/
def topK : ℤ := 8

/-- `_PLAN_SORTS` -/
def planSorts : List Str := ["downloads".toList, "likes".toList, "smallest".toList, "largest".toList, "newest".toList]

/-- `value.strip()`, of a text in which something is left -/
def textArg : Option PyJson → Option Arg
  | some (.str s) => if strip s ≠ [] then some (.text (strip s)) else none
  | _ => none

/-- `float(value)`, of a number; a bool is none -/
def sizeArg (R : Rounding) : Option PyJson → Except Raised (Option Arg)
  | some (.int n) => (Double.ofInt R n).elim (.error .overflowError) fun x => .ok (some (.number x))
  | some (.float x) => .ok (some (.number x))
  | _ => .ok none

/-- `sort_by.strip().lower()`, of a known sort -/
def sortArg (u : Unicode) : Option PyJson → Option Arg
  | some (.str s) => if u.lower (strip s) ∈ planSorts then some (.text (u.lower (strip s))) else none
  | _ => none

/-- `_filter_kwargs` -/
def filterKwargs (R : Rounding) (u : Unicode) (plan : Obj) : Except Raised Kwargs :=
  match PyJson.get? "filter".toList plan with
  | some (.obj raw) => do
    let texts := textKeys.foldl (fun kwargs key => kwargs.setSome key (textArg (PyJson.get? key raw))) (Dict.empty : Kwargs)
    let sized ← sizeKeys.foldlM (fun kwargs key => (sizeArg R (PyJson.get? key raw)).map (Dict.setSome kwargs key)) texts
    .ok (sized.setSome sortBy (sortArg u (PyJson.get? sortBy raw)))
  | _ => .ok Dict.empty

/-- the parameters of a reply -/
def kwargsOf (R : Rounding) (u : Unicode) (depth : ℕ) (text : Str) : Except Raised Kwargs := do
  let plan ← parsePlan R depth text
  filterKwargs R u plan

/-! ## What a plan gives -/

section Filter

variable {R : Rounding} {u : Unicode} {plan raw : Obj} {kwargs : Kwargs}

/-- the assignments of `_filter_kwargs`, for the size bounds lo and hi -/
def assignments (u : Unicode) (raw : Obj) (lo hi : Option Arg) : List (Str × Option Arg) :=
  textKeys.map (fun key => (key, textArg (PyJson.get? key raw))) ++
    [(minParamsB, lo), (maxParamsB, hi), (sortBy, sortArg u (PyJson.get? sortBy raw))]

/-- each parameter is assigned once, and there is none but these -/
theorem keys_assignments (u : Unicode) (raw : Obj) (lo hi : Option Arg) :
    (assignments u raw lo hi).map Prod.fst = textKeys ++ sizeKeys ++ [sortBy] := rfl

theorem filterKwargs_eq_ok (h : PyJson.get? "filter".toList plan = some (.obj raw)) :
    filterKwargs R u plan = .ok kwargs ↔
      ∃ lo hi, sizeArg R (PyJson.get? minParamsB raw) = .ok lo ∧
        sizeArg R (PyJson.get? maxParamsB raw) = .ok hi ∧
        (assignments u raw lo hi).foldl (fun kwargs e => kwargs.setSome e.1 e.2) Dict.empty = kwargs := by
  unfold filterKwargs
  rw [h]
  simp only [sizeKeys, List.foldlM_cons, List.foldlM_nil, bind_eq_ok, map_eq_ok, pure, Except.pure]
  refine ⟨?_, ?_⟩
  · intro ⟨sized, ⟨d, ⟨lo, hlo, hd⟩, e, ⟨hi, hhi, he⟩, hsized⟩, hkwargs⟩
    refine ⟨lo, hi, hlo, hhi, ?_⟩
    rw [← Except.ok.inj hkwargs, ← Except.ok.inj hsized, ← he, ← hd]
    rfl
  · intro ⟨lo, hi, hlo, hhi, hkwargs⟩
    refine ⟨_, ⟨_, ⟨lo, hlo, rfl⟩, _, ⟨hi, hhi, rfl⟩, rfl⟩, ?_⟩
    rw [← hkwargs]
    rfl

end Filter

/-! ## Usable parameters -/

/-- the parameters of `filter_models` -/
def parameters : List Str := textKeys ++ sizeKeys ++ [sortBy, "limit".toList]

/-- `int(float(b) * 1_000_000_000)`; `none` is an exception -/
def count (R : Rounding) (b : Double) : Option ℤ := (Double.scale R 1000000000 b).toInt

/-- a finite number with a count -/
def Countable (R : Rounding) (a : Arg) : Prop := ∃ q n, a = .number (.finite q) ∧ count R (.finite q) = some n

/-- what `filter_models` accepts -/
structure Usable (R : Rounding) (kwargs : Kwargs) : Prop where
  parameter : ∀ k ∈ kwargs.keys, k ∈ parameters
  text : ∀ k ∈ textKeys, ∀ a, kwargs.get? k = some a → ∃ s, a = .text s ∧ s ≠ [] ∧ strip s = s
  sort : ∀ a, kwargs.get? sortBy = some a → ∃ s ∈ planSorts, a = .text s
  size : ∀ k ∈ sizeKeys, ∀ a, kwargs.get? k = some a → Countable R a

/-- a size bound whose count is defined; what is no number is no bound -/
def Fits (R : Rounding) : PyJson → Prop
  | .int n => |(n : ℚ)| < Double.overflow ∧ |R.fl n * 1000000000| < Double.overflow
  | .float (.finite q) => |q * 1000000000| < Double.overflow
  | .float (.inf _) => False
  | .float .nan => False
  | _ => True

theorem countable_number {R : Rounding} {x : Double} :
    Countable R (.number x) ↔ ∃ q, x = .finite q ∧ |q * 1000000000| < Double.overflow := by
  rw [← Double.isSome_toInt_scale R, Option.isSome_iff_exists]
  refine ⟨?_, ?_⟩
  · intro ⟨q, n, heq, hn⟩
    cases heq
    exact ⟨n, hn⟩
  · intro ⟨n, hn⟩
    cases x with
    | finite q => exact ⟨q, n, rfl, hn⟩
    | inf neg => cases hn
    | nan => cases hn

/-- a value fits iff its conversion returns, and returns something with a count -/
theorem fits_iff {R : Rounding} {o : Option PyJson} :
    (∀ v, o = some v → Fits R v) ↔ ∃ a, sizeArg R o = .ok a ∧ ∀ x, a = some x → Countable R x := by
  have hnone : ∃ a, (.ok none : Except Raised (Option Arg)) = .ok a ∧ ∀ x, a = some x → Countable R x :=
    ⟨none, rfl, fun x h => nomatch h⟩
  have hsome (x : Arg) : (∃ a, (.ok (some x) : Except Raised (Option Arg)) = .ok a ∧ ∀ y, a = some y → Countable R y) ↔
      Countable R x := by
    simp
  cases o with
  | none => exact ⟨fun _ => hnone, fun _ v h => nomatch h⟩
  | some v =>
    simp only [Option.some.injEq, forall_eq']
    cases v with
    | int n =>
      by_cases hn : |(n : ℚ)| < Double.overflow
      · have hsize : sizeArg R (some (.int n)) = .ok (some (.number (.finite (R.fl n)))) := by
          rw [sizeArg, Double.ofInt, if_pos hn, Option.elim_some]
        rw [hsize, hsome, countable_number, Fits]
        simp [hn]
      · have hsize : sizeArg R (some (.int n)) = .error .overflowError := by
          rw [sizeArg, Double.ofInt, if_neg hn, Option.elim_none]
        rw [hsize, Fits]
        simp [hn]
    | float x =>
      rw [sizeArg, hsome, countable_number]
      cases x with
      | finite q => exact ⟨fun h => ⟨q, rfl, h⟩, fun ⟨_, heq, h⟩ => Double.finite.inj heq ▸ h⟩
      | inf neg => exact ⟨fun h => h.elim, fun ⟨_, heq, _⟩ => nomatch heq⟩
      | nan => exact ⟨fun h => h.elim, fun ⟨_, heq, _⟩ => nomatch heq⟩
    | null => exact iff_of_true trivial hnone
    | bool b => exact iff_of_true trivial hnone
    | str s => exact iff_of_true trivial hnone
    | arr items => exact iff_of_true trivial hnone
    | obj pairs => exact iff_of_true trivial hnone

theorem usable_empty (R : Rounding) : Usable R Dict.empty := by
  constructor
  case parameter => simp
  case text => simp
  case sort => simp
  case size => simp

theorem get?_assignments {u : Unicode} {raw : Obj} {lo hi : Option Arg} {k : Str} {a : Arg} :
    ((assignments u raw lo hi).foldl (fun kwargs e => kwargs.setSome e.1 e.2) Dict.empty).get? k = some a ↔
      (k, some a) ∈ assignments u raw lo hi := by
  have hn : ((assignments u raw lo hi).map Prod.fst).Nodup := by
    rw [keys_assignments]
    decide
  rw [Dict.get?_foldl_setSome hn (fun e _ => Dict.get?_empty e.1), Dict.get?_empty]
  simp

theorem textArg_eq_some {o : Option PyJson} {a : Arg} (h : textArg o = some a) :
    ∃ s, a = .text s ∧ s ≠ [] ∧ strip s = s := by
  unfold textArg at h
  split at h
  · split_ifs at h with hs
    cases h
    exact ⟨_, rfl, hs, strip_strip _⟩
  · cases h

theorem sortArg_eq_some {u : Unicode} {o : Option PyJson} {a : Arg} (h : sortArg u o = some a) :
    ∃ s ∈ planSorts, a = .text s := by
  unfold sortArg at h
  split at h
  · split_ifs at h with hs
    cases h
    exact ⟨_, hs, rfl⟩
  · cases h

/-- the keys are different -/
theorem nodup_keys : (textKeys ++ sizeKeys ++ [sortBy]).Nodup := by decide

/-- an assignment is that of a text, of one of the bounds or of the sort -/
theorem mem_assignments {u : Unicode} {raw : Obj} {lo hi : Option Arg} {k : Str} {a : Arg}
    (h : (k, some a) ∈ assignments u raw lo hi) :
    (k ∈ textKeys ∧ textArg (PyJson.get? k raw) = some a) ∨ (k ∈ sizeKeys ∧ (lo = some a ∨ hi = some a)) ∨
      (k = sortBy ∧ sortArg u (PyJson.get? sortBy raw) = some a) := by
  rcases List.mem_append.1 h with h | h
  · obtain ⟨key, hkey, heq⟩ := List.mem_map.1 h
    obtain ⟨rfl, ha⟩ := Prod.ext_iff.1 heq
    exact .inl ⟨hkey, ha⟩
  · simp only [List.mem_cons, List.not_mem_nil, or_false, Prod.mk.injEq] at h
    rcases h with ⟨rfl, ha⟩ | ⟨rfl, ha⟩ | ⟨rfl, ha⟩
    · exact .inr (.inl ⟨by simp [sizeKeys], .inl ha.symm⟩)
    · exact .inr (.inl ⟨by simp [sizeKeys], .inr ha.symm⟩)
    · exact .inr (.inr ⟨rfl, ha.symm⟩)

theorem usable_assignments {R : Rounding} {u : Unicode} {raw : Obj} {lo hi : Option Arg} :
    Usable R ((assignments u raw lo hi).foldl (fun kwargs e => kwargs.setSome e.1 e.2) Dict.empty) ↔
      (∀ a, lo = some a → Countable R a) ∧ ∀ a, hi = some a → Countable R a := by
  obtain ⟨hkeys, -, hsort⟩ := List.nodup_append.1 nodup_keys
  obtain ⟨-, -, hsize⟩ := List.nodup_append.1 hkeys
  refine ⟨?_, ?_⟩
  · intro h
    refine ⟨?_, ?_⟩
    · intro a ha
      subst ha
      exact h.size minParamsB (by simp [sizeKeys]) a (get?_assignments.2 (by simp [assignments]))
    · intro a ha
      subst ha
      exact h.size maxParamsB (by simp [sizeKeys]) a (get?_assignments.2 (by simp [assignments]))
  · intro ⟨hlo, hhi⟩
    constructor
    case parameter =>
      intro k hk
      obtain ⟨a, ha⟩ := Option.isSome_iff_exists.1 (Dict.get?_isSome.2 hk)
      have hmem : k ∈ textKeys ++ sizeKeys ++ [sortBy] := by
        rw [← keys_assignments u raw lo hi]
        exact List.mem_map_of_mem (get?_assignments.1 ha)
      simp only [List.mem_append, List.mem_singleton] at hmem
      simp only [parameters, List.mem_append, List.mem_cons]
      exact hmem.imp_right .inl
    case text =>
      intro k hk a ha
      rcases mem_assignments (get?_assignments.1 ha) with ⟨-, h⟩ | ⟨hother, -⟩ | ⟨hother, -⟩
      · exact textArg_eq_some h
      · exact absurd rfl (hsize k hk k hother)
      · exact absurd hother (hsort k (List.mem_append_left _ hk) sortBy (by simp))
    case sort =>
      intro a ha
      rcases mem_assignments (get?_assignments.1 ha) with ⟨hother, -⟩ | ⟨hother, -⟩ | ⟨-, h⟩
      · exact absurd rfl (hsort _ (List.mem_append_left _ hother) sortBy (by simp))
      · exact absurd rfl (hsort _ (List.mem_append_right _ hother) sortBy (by simp))
      · exact sortArg_eq_some h
    case size =>
      intro k hk a ha
      rcases mem_assignments (get?_assignments.1 ha) with ⟨hother, -⟩ | ⟨-, h | h⟩ | ⟨hother, -⟩
      · exact absurd rfl (hsize k hother k hk)
      · exact hlo a h
      · exact hhi a h
      · exact absurd hother (hsort k (List.mem_append_right _ hk) sortBy (by simp))

/-- a plan without a filter -/
theorem filterKwargs_of_none {R : Rounding} {u : Unicode} {plan : Obj}
    (h : ¬∃ raw, PyJson.get? "filter".toList plan = some (.obj raw)) : filterKwargs R u plan = .ok Dict.empty := by
  unfold filterKwargs
  split
  next raw heq => exact absurd ⟨raw, heq⟩ h
  next => rfl

/-- a plan gives usable parameters iff its size bounds fit -/
theorem filterKwargs_usable_iff {R : Rounding} {u : Unicode} {plan : Obj} :
    (∃ kwargs, filterKwargs R u plan = .ok kwargs ∧ Usable R kwargs) ↔
      ∀ raw, PyJson.get? "filter".toList plan = some (.obj raw) → ∀ k ∈ sizeKeys, ∀ v, PyJson.get? k raw = some v → Fits R v := by
  by_cases hobj : ∃ raw, PyJson.get? "filter".toList plan = some (.obj raw)
  · obtain ⟨raw, hraw⟩ := hobj
    have hboth : (∀ k ∈ sizeKeys, ∀ v, PyJson.get? k raw = some v → Fits R v) ↔
        (∀ v, PyJson.get? minParamsB raw = some v → Fits R v) ∧ ∀ v, PyJson.get? maxParamsB raw = some v → Fits R v := by
      simp [sizeKeys]
    refine ⟨?_, ?_⟩
    · intro ⟨kwargs, hkwargs, husable⟩ raw' hraw'
      obtain rfl : raw = raw' := by
        rw [hraw] at hraw'
        exact PyJson.obj.inj (Option.some.inj hraw')
      obtain ⟨lo, hi, hlo, hhi, rfl⟩ := (filterKwargs_eq_ok hraw).1 hkwargs
      obtain ⟨hl, hh⟩ := usable_assignments.1 husable
      exact hboth.2 ⟨fits_iff.2 ⟨lo, hlo, hl⟩, fits_iff.2 ⟨hi, hhi, hh⟩⟩
    · intro h
      obtain ⟨hmin, hmax⟩ := hboth.1 (h raw hraw)
      obtain ⟨lo, hlo, hl⟩ := fits_iff.1 hmin
      obtain ⟨hi, hhi, hh⟩ := fits_iff.1 hmax
      exact ⟨_, (filterKwargs_eq_ok hraw).2 ⟨lo, hi, hlo, hhi, rfl⟩, usable_assignments.2 ⟨hl, hh⟩⟩
  · refine ⟨?_, ?_⟩
    · intro _ raw hraw
      exact absurd ⟨raw, hraw⟩ hobj
    · intro _
      exact ⟨_, filterKwargs_of_none hobj, usable_empty R⟩

/-- a size bound is converted unless it is an integer that is too large for a float -/
theorem completes_sizeArg {R : Rounding} {o : Option PyJson} :
    Completes (sizeArg R o) ↔ ∀ n, o = some (.int n) → |(n : ℚ)| < Double.overflow := by
  cases o with
  | none => exact iff_of_true (completes_ok _) (by simp)
  | some v =>
    cases v with
    | int n =>
      rw [sizeArg, Double.ofInt]
      by_cases hn : |(n : ℚ)| < Double.overflow
      · rw [if_pos hn, Option.elim_some]
        refine iff_of_true (completes_ok _) fun n' heq => ?_
        cases heq
        exact hn
      · rw [if_neg hn, Option.elim_none]
        exact iff_of_false (not_completes_error _) fun h => hn (h n rfl)
    | null => exact iff_of_true (completes_ok _) (by simp)
    | bool b => exact iff_of_true (completes_ok _) (by simp)
    | float x => exact iff_of_true (completes_ok _) (by simp)
    | str s => exact iff_of_true (completes_ok _) (by simp)
    | arr items => exact iff_of_true (completes_ok _) (by simp)
    | obj pairs => exact iff_of_true (completes_ok _) (by simp)

/-- a plan gives parameters unless one of its size bounds is too large for a float -/
theorem completes_filterKwargs {R : Rounding} {u : Unicode} {plan : Obj} :
    Completes (filterKwargs R u plan) ↔ ∀ raw, PyJson.get? "filter".toList plan = some (.obj raw) →
      ∀ k ∈ sizeKeys, ∀ n, PyJson.get? k raw = some (.int n) → |(n : ℚ)| < Double.overflow := by
  by_cases hobj : ∃ raw, PyJson.get? "filter".toList plan = some (.obj raw)
  · obtain ⟨raw, hraw⟩ := hobj
    have hsizes : Completes (filterKwargs R u plan) ↔
        Completes (sizeArg R (PyJson.get? minParamsB raw)) ∧ Completes (sizeArg R (PyJson.get? maxParamsB raw)) := by
      refine ⟨?_, ?_⟩
      · rintro ⟨kwargs, hkwargs⟩
        obtain ⟨lo, hi, hlo, hhi, -⟩ := (filterKwargs_eq_ok hraw).1 hkwargs
        exact ⟨⟨lo, hlo⟩, hi, hhi⟩
      · rintro ⟨⟨lo, hlo⟩, hi, hhi⟩
        exact ⟨_, (filterKwargs_eq_ok hraw).2 ⟨lo, hi, hlo, hhi, rfl⟩⟩
    rw [hsizes, completes_sizeArg, completes_sizeArg, hraw]
    simp [sizeKeys]
  · rw [filterKwargs_of_none hobj]
    refine iff_of_true (completes_ok _) fun raw hraw => ?_
    exact absurd ⟨raw, hraw⟩ hobj

/-! ## Replies -/

section Reply

variable (R : Rounding) (depth : ℕ) (text : Str)

/-- decoding the reply exhausts the stack -/
def TooDeep : Prop := ∃ t, braced text = some t ∧ loads R depth t = .error .tooDeep

/-- the reply is an object with a filter that has the value v under the key k -/
def Asks (k : Str) (v : PyJson) : Prop :=
  ∃ t plan raw, braced text = some t ∧ Denotes R depth t (.obj plan) ∧
    PyJson.get? "filter".toList plan = some (.obj raw) ∧ PyJson.get? k raw = some v

/-- a reply that does not exhaust the stack has a plan: its object, or nothing -/
theorem parsePlan_eq_ok (h : ¬TooDeep R depth text) :
    ∃ plan, parsePlan R depth text = .ok plan ∧
      ((∃ t, braced text = some t ∧ Denotes R depth t (.obj plan)) ∨
        plan = [] ∧ ∀ t, braced text = some t → ∀ p, ¬Denotes R depth t (.obj p)) := by
  unfold parsePlan
  cases ht : braced text with
  | none => exact ⟨[], rfl, .inr ⟨rfl, by simp⟩⟩
  | some t =>
    have hother {r : Except Failure PyJson} (hr : loads R depth t = r) (hobj : ∀ p, r ≠ .ok (.obj p)) :
        ∀ t', some t = some t' → ∀ p, ¬Denotes R depth t' (.obj p) := by
      intro t' heq p hp
      cases heq
      exact hobj p (hr ▸ loads_eq_ok.2 hp)
    dsimp only
    split
    next plan hplan => exact ⟨plan, rfl, .inl ⟨t, rfl, loads_eq_ok.1 hplan⟩⟩
    next v hv hno => exact ⟨[], rfl, .inr ⟨rfl, hother hno fun p heq => hv p (Except.ok.inj heq)⟩⟩
    next hno => exact ⟨[], rfl, .inr ⟨rfl, hother hno (by simp)⟩⟩
    next hdeep => exact absurd ⟨t, ht, hdeep⟩ h
    next hfuel => exact absurd hfuel (loads_ne_outOfFuel R depth t)

theorem parsePlan_tooDeep (h : TooDeep R depth text) : parsePlan R depth text = .error .recursionError := by
  obtain ⟨t, ht, hdeep⟩ := h
  simp [parsePlan, ht, hdeep]

/-- what a reply asks for is what its plan has -/
theorem asks_iff {plan : Obj} (hplan : (∃ t, braced text = some t ∧ Denotes R depth t (.obj plan)) ∨
    plan = [] ∧ ∀ t, braced text = some t → ∀ p, ¬Denotes R depth t (.obj p)) {k : Str} {v : PyJson} :
    Asks R depth text k v ↔
      ∃ raw, PyJson.get? "filter".toList plan = some (.obj raw) ∧ PyJson.get? k raw = some v := by
  rcases hplan with ⟨t, ht, hdenotes⟩ | ⟨rfl, hno⟩
  · refine ⟨?_, ?_⟩
    · rintro ⟨t', plan', raw, ht', hdenotes', hraw, hv⟩
      obtain rfl : t = t' := Option.some.inj (ht.symm.trans ht')
      obtain rfl : plan = plan' := by
        have heq := (loads_eq_ok.2 hdenotes).symm.trans (loads_eq_ok.2 hdenotes')
        exact PyJson.obj.inj (Except.ok.inj heq)
      exact ⟨raw, hraw, hv⟩
    · rintro ⟨raw, hraw, hv⟩
      exact ⟨t, plan, raw, ht, hdenotes, hraw, hv⟩
  · refine ⟨?_, ?_⟩
    · rintro ⟨t, plan, raw, ht, hdenotes, -, -⟩
      exact absurd hdenotes (hno t ht plan)
    · rintro ⟨raw, hraw, -⟩
      cases hraw

/-- **A reply yields usable parameters iff it is decoded within the stack and every size bound in it has a count.** -/
theorem usable_iff (u : Unicode) :
    (∃ kwargs, kwargsOf R u depth text = .ok kwargs ∧ Usable R kwargs) ↔
      ¬TooDeep R depth text ∧ ∀ k ∈ sizeKeys, ∀ v, Asks R depth text k v → Fits R v := by
  by_cases hdeep : TooDeep R depth text
  · have herror : kwargsOf R u depth text = .error .recursionError := by
      rw [kwargsOf, parsePlan_tooDeep R depth text hdeep]
      rfl
    simp [herror, hdeep]
  · obtain ⟨plan, hplan, hsource⟩ := parsePlan_eq_ok R depth text hdeep
    have hkwargs : kwargsOf R u depth text = filterKwargs R u plan := by
      rw [kwargsOf, hplan]
      rfl
    rw [hkwargs, filterKwargs_usable_iff]
    simp only [hdeep, not_false_iff, true_and, asks_iff R depth text hsource]
    refine ⟨?_, ?_⟩
    · rintro h k hk v ⟨raw, hraw, hv⟩
      exact h raw hraw k hk v hv
    · intro h raw hraw k hk v hv
      exact h k hk v ⟨raw, hraw, hv⟩

/-- **A reply yields parameters at all iff it is decoded within the stack and no size bound in it is too large for a float.** -/
theorem completes_kwargsOf (u : Unicode) :
    Completes (kwargsOf R u depth text) ↔
      ¬TooDeep R depth text ∧ ∀ k ∈ sizeKeys, ∀ n, Asks R depth text k (.int n) → |(n : ℚ)| < Double.overflow := by
  by_cases hdeep : TooDeep R depth text
  · have herror : kwargsOf R u depth text = .error .recursionError := by
      rw [kwargsOf, parsePlan_tooDeep R depth text hdeep]
      rfl
    simp [herror, hdeep]
  · obtain ⟨plan, hplan, hsource⟩ := parsePlan_eq_ok R depth text hdeep
    have hkwargs : kwargsOf R u depth text = filterKwargs R u plan := by
      rw [kwargsOf, hplan]
      rfl
    rw [hkwargs, completes_filterKwargs]
    simp only [hdeep, not_false_iff, true_and, asks_iff R depth text hsource]
    refine ⟨?_, ?_⟩
    · rintro h k hk n ⟨raw, hraw, hn⟩
      exact h raw hraw k hk n hn
    · intro h raw hraw k hk n hn
      exact h k hk n ⟨raw, hraw, hn⟩

/-- a reply that sets a text, a bound and a sort -/
example : kwargsOf Rounding.exact Unicode.ascii 100
    "Plan: \x7b\"filter\": \x7b\"tag\": \" code\", \"max_params_b\": 9.5, \"sort_by\": \"Largest\"\x7d\x7d.".toList =
      .ok (((Dict.empty.set tag (.text "code".toList)).set maxParamsB (.number (.finite (19 / 2)))).set sortBy
        (.text "largest".toList)) := by
  decide +kernel

end Reply

/-! ## Bounds that escape -/

/-- the reply `{"filter": {"min_params_b": ...}}` -/
def atLeast (b : Str) : Str := "\x7b\"filter\": \x7b\"min_params_b\": ".toList ++ b ++ "\x7d\x7d".toList

/-- A bound of 10^400 raises; NaN, Infinity and 1e300 are passed on and have no count. -/
theorem bounds_escape :
    kwargsOf Rounding.exact Unicode.ascii 100 (atLeast ('1' :: List.replicate 400 '0')) = .error .overflowError ∧
      (¬∃ kwargs, kwargsOf Rounding.exact Unicode.ascii 100 (atLeast ('1' :: List.replicate 400 '0')) = .ok kwargs ∧
        Usable Rounding.exact kwargs) ∧
      ∀ b ∈ ["NaN".toList, "Infinity".toList, "1e300".toList],
        ¬∃ kwargs, kwargsOf Rounding.exact Unicode.ascii 100 (atLeast b) = .ok kwargs ∧ Usable Rounding.exact kwargs := by
  have hbig : kwargsOf Rounding.exact Unicode.ascii 100 (atLeast ('1' :: List.replicate 400 '0')) = .error .overflowError := by
    decide +kernel
  have hcount {b : Str} {x : Double} (hb : (kwargsOf Rounding.exact Unicode.ascii 100 (atLeast b)).map
      (fun kwargs => kwargs.get? minParamsB) = .ok (some (.number x))) (hx : count Rounding.exact x = none) :
      ¬∃ kwargs, kwargsOf Rounding.exact Unicode.ascii 100 (atLeast b) = .ok kwargs ∧ Usable Rounding.exact kwargs := by
    intro ⟨kwargs, hkwargs, husable⟩
    rw [hkwargs] at hb
    obtain ⟨q, n, hq, hn⟩ := husable.size minParamsB (by simp [sizeKeys]) _ (Except.ok.inj hb)
    cases hq
    rw [hx] at hn
    cases hn
  refine ⟨hbig, ?_, ?_⟩
  · rw [hbig]
    simp
  · intro b hb
    simp only [List.mem_cons, List.not_mem_nil, or_false] at hb
    rcases hb with rfl | rfl | rfl
    · exact hcount (x := .nan) (by decide +kernel) rfl
    · exact hcount (x := .inf false) (by decide +kernel) rfl
    · exact hcount (x := .finite (10 ^ 300)) (by decide +kernel) (by decide +kernel)

end AgentPick.Plan
