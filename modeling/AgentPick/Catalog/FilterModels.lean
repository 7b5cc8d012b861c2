/-
Filtering the catalog (`backend/src/catalog.py`, `_SORT_SQL` to `filter_models`).

The clauses of a query and the values of its placeholders are assembled side by side, as in the source; `bindAll` hands
the values to the placeholders from left to right, and a query whose values do not fit fails (`none`). Rows that ORDER BY
leaves tied come in the order of the table. Timestamps are compared as ISO texts. The product `float(b) * 1_000_000_000`
of a size bound is a parameter `billion`: floating point is not modelled, and nothing about it is assumed.

Results:
- `Where.Bound`, `bound_whereOf`, `bound_sizeOf`: every placeholder is bound to its own argument.
- `filterModels_eq`: what the function returns, over the bound conditions.
- `abstention_sound`: no models and no warnings mean that no row satisfies the request.
- `padded_task_missed`: a pipeline tag with blanks around it is not found by a task given with the same blanks.
-/
import Mathlib.Tactic
import AgentPick.Core.Rank
import AgentPick.Core.Sql
import AgentPick.Catalog.Ids

namespace AgentPick.Catalog

open AgentPick.Text AgentPick.Regex AgentPick.Sql

/-! ## Queries -/

/-- the value of a placeholder; a regular expression is passed as what it denotes -/
inductive Param where
  | text (s : Str)
  | int (n : ℤ)
  | pattern (r : Regex)

/-- a condition of a WHERE clause; all but the last have one placeholder -/
inductive Clause where
  /-- `model_id !~* %s` -/
  | notPattern
  /-- `LOWER(pipeline_tag) = %s` -/
  | pipelineTag
  /-- `%s = ANY(tags)` -/
  | anyTag
  /-- `model_id ILIKE %s` -/
  | idLike
  /-- `parameter_count >= %s` -/
  | atLeast
  /-- `parameter_count <= %s` -/
  | atMost
  /-- `parameter_count IS NULL` -/
  | unknown
deriving DecidableEq, Repr

/-- a condition with its value -/
inductive Cond where
  | notPattern (r : Regex)
  | pipelineTag (s : Str)
  | anyTag (s : Str)
  | idLike (p : List Wild)
  | atLeast (n : ℤ)
  | atMost (n : ℤ)
  | unknown

/-- the value for the next placeholder -/
def bind : Clause → List Param → Option (Cond × List Param)
  | .notPattern, .pattern r :: ps => some (.notPattern r, ps)
  | .pipelineTag, .text s :: ps => some (.pipelineTag s, ps)
  | .anyTag, .text s :: ps => some (.anyTag s, ps)
  | .idLike, .text s :: ps => (parseLike s).map fun p => (.idLike p, ps)
  | .atLeast, .int n :: ps => some (.atLeast n, ps)
  | .atMost, .int n :: ps => some (.atMost n, ps)
  | .unknown, ps => some (.unknown, ps)
  | _, _ => none

/-- the values for the clauses, and those that are left -/
def bindAll : List Clause → List Param → Option (List Cond × List Param)
  | [], ps => some ([], ps)
  | c :: cs, ps => (bind c ps).bind fun r => (bindAll cs r.2).map fun r' => (r.1 :: r'.1, r'.2)

/-- the truth of a condition of a row -/
def Cond.truth (id : Str) (row : ModelRow) : Cond → Truth
  | .notPattern r => some (search r id).isNone
  | .pipelineTag s => row.pipelineTag.map fun t => lower t = s
  | .anyTag s => row.tags.map fun ts => ts.contains s
  | .idLike p => some (likeMatch p id)
  | .atLeast n => row.parameterCount.map fun c => n ≤ c
  | .atMost n => row.parameterCount.map fun c => c ≤ n
  | .unknown => some row.parameterCount.isNone

/-- `FROM models WHERE ...` -/
def selectWhere (t : Models) (conds : List Cond) : List (Str × ModelRow) :=
  t.entries.filter fun e => conj (conds.map (Cond.truth e.1 e.2)) = some true

/-- the keys of `_SORT_SQL` -/
inductive SortKey where
  | downloads
  | likes
  | smallest
  | largest
  | newest
deriving DecidableEq, Repr

/-- `_SORT_SQL`: the first row may come before the second -/
def SortKey.le : SortKey → ModelRow → ModelRow → Bool
  | .downloads, a, b => nullsLast (fun x y => y ≤ x) a.downloads b.downloads
  | .likes, a, b => nullsLast (fun x y => y ≤ x) a.likes b.likes
  | .smallest, a, b => nullsLast (fun x y => x ≤ y) a.parameterCount b.parameterCount
  | .largest, a, b => nullsLast (fun x y => y ≤ x) a.parameterCount b.parameterCount
  | .newest, a, b => nullsLast (fun x y => y ≤ x) a.lastModified b.lastModified

/-- a row of the main query -/
structure Fetched where
  modelId : Str
  row : ModelRow
  cardExcerpt : Option Str
  totalMatches : ℕ

/-- `SELECT ..., LEFT(model_card, %s), COUNT(*) OVER () FROM models WHERE ... ORDER BY ... LIMIT %s` -/
def mainQuery (t : Models) (clauses : List Clause) (order : SortKey) (params : List Param) : Option (List Fetched) :=
  match params with
  | .int chars :: ps =>
    match bindAll clauses ps with
    | some (conds, [.int limit]) =>
      let rows := selectWhere t conds
      some (((rows.insertionSort fun a b => order.le a.2 b.2).take limit.toNat).map fun e =>
        ⟨e.1, e.2, e.2.modelCard.map (·.take chars.toNat), rows.length⟩)
    | _ => none
  | _ => none

/-- `SELECT COUNT(*) FROM models WHERE ...` -/
def countQuery (t : Models) (clauses : List Clause) (params : List Param) : Option ℕ :=
  match bindAll clauses params with
  | some (conds, []) => some (selectWhere t conds).length
  | _ => none

/-! ## Arguments -/

/-- the arguments of `filter_models`; the size bounds are finite -/
structure Args where
  taskType : Option Str
  tag : Option Str
  nameContains : Option Str
  minParamsB : Option ℚ
  maxParamsB : Option ℚ
  sortBy : Option Str
  limit : ℤ

/-- `tt`, if it is used -/
def taskOf (u : Unicode) (a : Args) : Option Str :=
  let tt := u.lower (strip (a.taskType.getD []))
  if tt ≠ [] ∧ tt ≠ "general".toList then some tt else none

/-- `x.strip()`, if `x and x.strip()` -/
def strippedArg (x : Option Str) : Option Str := nonEmpty (x.map strip)

/-- `int(x)` -/
def truncate (x : ℚ) : ℤ := if 0 ≤ x then ⌊x⌋ else ⌈x⌉

/-- `(sort_by or "").strip().lower()` -/
def sortText (u : Unicode) (a : Args) : Str := u.lower (strip (a.sortBy.getD []))

/-- `_SORT_SQL.get(..., _SORT_SQL["downloads"])` -/
def sortKey (s : Str) : SortKey :=
  if s = "likes".toList then .likes
  else if s = "smallest".toList then .smallest
  else if s = "largest".toList then .largest
  else if s = "newest".toList then .newest
  else .downloads

/-- clauses and their values, assembled side by side -/
structure Where where
  clauses : List Clause
  params : List Param

/-- one optional clause -/
def Where.add (w : Where) (c : Clause) (value : Option Param) : Where :=
  match value with
  | none => w
  | some p => ⟨w.clauses ++ [c], w.params ++ [p]⟩

/-- `_TEST_ARTIFACT_PATTERN` as PostgreSQL reads it after `!~*` -/
def sqlArtifactPattern : Regex := testArtifactPattern same

/-- `where`, `wparams` -/
def whereOf (u : Unicode) (a : Args) : Where :=
  (((Where.mk [.notPattern] [.pattern sqlArtifactPattern]).add .pipelineTag ((taskOf u a).map .text)).add
    .anyTag ((strippedArg a.tag).map .text)).add .idLike ((strippedArg a.nameContains).map fun s => .text (containing s))

/-- `size_clauses`, `size_params` -/
def sizeOf (billion : ℚ → ℚ) (a : Args) : Where :=
  ((Where.mk [] []).add .atLeast (a.minParamsB.map fun b => .int (truncate (billion b)))).add
    .atMost (a.maxParamsB.map fun b => .int (truncate (billion b)))

/-! ## Warnings -/

/-- `str(n)` -/
def natText (n : ℕ) : Str := (toString n).toList

/-- `_SPARSE_TAG_THRESHOLD` -/
def sparseTagThreshold : ℕ := 25

/-- `_similar_tags`: no namespaced tags -/
def similarTags (t : Models) (tag : Str) : Option (List Str) :=
  (parseLike (containing tag)).map fun p =>
    let tags := t.entries.flatMap fun e => (e.2.tags.getD []).filter fun s => likeMatch p s && !s.contains ':'
    let counts : Dict Str ℕ := Dict.group id (fun n _ => n.getD 0 + 1) tags
    ((Rank.byDesc Prod.snd counts.entries).take 6).map fun e => e.1 ++ " (".toList ++ natText e.2 ++ " models)".toList

/-- the warning of a tag filter with few matches -/
def sparseWarning (tag : Str) (total : ℕ) (similar : List Str) : Str :=
  "The tag filter '".toList ++ tag ++ "' matched only ".toList ++ natText total ++
    (" of the whole catalog. Tags are sparse and inconsistently applied, so this filter may be excluding relevant " ++
      "models — consider name_contains or search_models instead.").toList ++
    if similar = [] then []
    else " Similar existing tags: ".toList ++ ", ".toList.intercalate similar ++ ".".toList

/-- the warning of a size filter that leaves out models of unknown size -/
def unknownWarning (n : ℕ) : Str :=
  "Note: ".toList ++ natText n ++
    (" models matching the other filters have an unknown parameter count and are not included in this " ++
      "size-filtered result.").toList

/-- the warning of a search for the smallest model of all -/
def smallestWarning : Str :=
  ("The smallest catalog entries are mostly toy/research miniatures, not deployable assistants. To find the smallest " ++
    "usable model for a task, add task_type, tag, or name_contains (e.g. 'instruct').").toList

/-! ## The function -/

/-- the sparse-tag warning -/
def sparseWarnings (t : Models) (a : Args) (total : ℕ) : Option (List Str) :=
  match strippedArg a.tag with
  | none => some []
  | some tag =>
    if total < sparseTagThreshold then (similarTags t tag).map fun similar => [sparseWarning tag total similar]
    else some []

/-- the unknown-size warning -/
def unknownWarnings (t : Models) (w size : Where) : Option (List Str) :=
  if size.clauses = [] then some []
  else (countQuery t (w.clauses ++ [.unknown]) w.params).map fun n => if n = 0 then [] else [unknownWarning n]

/-- the smallest-model warning -/
def smallestWarnings (u : Unicode) (a : Args) : List Str :=
  if sortText u a = "smallest".toList ∧ taskOf u a = none ∧ strippedArg a.tag = none ∧
    strippedArg a.nameContains = none ∧ a.minParamsB = none then [smallestWarning] else []

/-- `max(1, min(int(limit), 25))` -/
def clampLimit (limit : ℤ) : ℤ := max 1 (min limit 25)

/-- `_shape(r, card_excerpt=(r.get("card_excerpt") or "").strip())` -/
def shapeFetched (u : Unicode) (r : Fetched) : Item := shape u r.modelId r.row (some (strip (r.cardExcerpt.getD [])))

/-- `rows[0]["total_matches"] if rows else 0` -/
def totalOf : List Fetched → ℕ
  | [] => 0
  | r :: _ => r.totalMatches

/-- what `filter_models` returns -/
structure Filtered where
  models : List Item
  totalMatches : ℕ
  warnings : List Str
deriving DecidableEq, Repr

/-- `filter_models`; `none` is CatalogUnavailable -/
def filterModels (u : Unicode) (billion : ℚ → ℚ) (t : Models) (a : Args) : Option Filtered := do
  let w := whereOf u a
  let size := sizeOf billion a
  let rows ← mainQuery t (w.clauses ++ size.clauses) (sortKey (sortText u a))
    (.int cardExcerptChars :: (w.params ++ size.params ++ [.int (clampLimit a.limit)]))
  let sparse ← sparseWarnings t a (totalOf rows)
  let unknown ← unknownWarnings t w size
  return ⟨rows.map (shapeFetched u), totalOf rows, sparse ++ unknown ++ smallestWarnings u a⟩

/-! ## Every placeholder is bound to its own argument -/

theorem bindAll_append (cs cs' : List Clause) (ps : List Param) :
    bindAll (cs ++ cs') ps = (bindAll cs ps).bind fun r => (bindAll cs' r.2).map fun r' => (r.1 ++ r'.1, r'.2) := by
  induction cs generalizing ps with
  | nil => simp [bindAll]
  | cons c cs ih =>
    simp only [List.cons_append, bindAll, ih]
    cases bind c ps with
    | none => rfl
    | some r =>
      cases h : bindAll cs r.2 with
      | none => simp [h]
      | some r' => simp [h, Function.comp_def]

/-- the values of w belong to its clauses and make the conditions -/
def Where.Bound (w : Where) (conds : List Cond) : Prop :=
  ∀ rest, bindAll w.clauses (w.params ++ rest) = some (conds, rest)

theorem Where.Bound.add {w : Where} {conds : List Cond} (hw : w.Bound conds) {α : Type} {c : Clause} (value : Option α)
    {f : α → Param} {g : α → Cond} (h : ∀ x rest, bind c (f x :: rest) = some (g x, rest)) :
    (w.add c (value.map f)).Bound (conds ++ (value.map g).toList) := by
  intro rest
  cases value with
  | none => simpa [Where.add] using hw rest
  | some x =>
    have hx := hw (f x :: rest)
    simp only [Where.add, Option.map_some, Option.toList_some]
    rw [bindAll_append, List.append_assoc, List.singleton_append, hx]
    simp [bindAll, h]

theorem Where.Bound.append {w w' : Where} {conds conds' : List Cond} (hw : w.Bound conds) (hw' : w'.Bound conds')
    (rest : List Param) :
    bindAll (w.clauses ++ w'.clauses) (w.params ++ w'.params ++ rest) = some (conds ++ conds', rest) := by
  rw [bindAll_append, List.append_assoc, hw]
  simp [hw' rest]

/-- the pattern of `model_id ILIKE '%s%'` -/
def namePattern (s : Str) : List Wild := (parseLike (containing s)).getD []

theorem parseLike_containing (s : Str) : parseLike (containing s) = some (namePattern s) := by
  obtain ⟨p, hp⟩ := parseLike_concat (['%'] ++ s)
  rw [namePattern, containing, hp]
  rfl

/-- the conditions other than the size bounds -/
def baseConds (u : Unicode) (a : Args) : List Cond :=
  [.notPattern sqlArtifactPattern] ++ ((taskOf u a).map .pipelineTag).toList ++ ((strippedArg a.tag).map .anyTag).toList ++
    ((strippedArg a.nameContains).map fun s => .idLike (namePattern s)).toList

/-- the size bounds -/
def sizeConds (billion : ℚ → ℚ) (a : Args) : List Cond :=
  (a.minParamsB.map fun b => .atLeast (truncate (billion b))).toList ++
    (a.maxParamsB.map fun b => .atMost (truncate (billion b))).toList

theorem bound_whereOf (u : Unicode) (a : Args) : (whereOf u a).Bound (baseConds u a) := by
  have h0 : (Where.mk [.notPattern] [.pattern sqlArtifactPattern]).Bound [.notPattern sqlArtifactPattern] :=
    fun rest => rfl
  have h1 := h0.add (c := .pipelineTag) (taskOf u a) (f := .text) (g := .pipelineTag) fun s rest => rfl
  have h2 := h1.add (c := .anyTag) (strippedArg a.tag) (f := .text) (g := .anyTag) fun s rest => rfl
  refine h2.add (strippedArg a.nameContains) ?_
  intro s rest
  rw [bind, parseLike_containing]
  rfl

theorem bound_sizeOf (billion : ℚ → ℚ) (a : Args) : (sizeOf billion a).Bound (sizeConds billion a) := by
  have h0 : (Where.mk [] []).Bound [] := fun rest => rfl
  have h1 := h0.add (c := .atLeast) a.minParamsB (f := fun b => .int (truncate (billion b)))
    (g := fun b => .atLeast (truncate (billion b))) fun s rest => rfl
  exact h1.add a.maxParamsB fun s rest => rfl

/-! ## What the function returns -/

/-- the rows that satisfy all conditions -/
def matching (u : Unicode) (billion : ℚ → ℚ) (t : Models) (a : Args) : List (Str × ModelRow) :=
  selectWhere t (baseConds u a ++ sizeConds billion a)

/-- the rows of unknown size that satisfy the other conditions -/
def ofUnknownSize (u : Unicode) (t : Models) (a : Args) : List (Str × ModelRow) :=
  selectWhere t (baseConds u a ++ [.unknown])

theorem mem_selectWhere {t : Models} {conds : List Cond} {e : Str × ModelRow} :
    e ∈ selectWhere t conds ↔ e ∈ t.entries ∧ ∀ c ∈ conds, c.truth e.1 e.2 = some true := by
  simp [selectWhere, conj_eq_true]

theorem clampLimit_pos (limit : ℤ) : 0 < (clampLimit limit).toNat := by
  unfold clampLimit
  omega

theorem mainQuery_eq {t : Models} {w size : Where} {base bounds : List Cond} (hw : w.Bound base) (hs : size.Bound bounds)
    (order : SortKey) (chars : ℕ) (limit : ℤ) :
    mainQuery t (w.clauses ++ size.clauses) order (.int chars :: (w.params ++ size.params ++ [.int limit])) =
      some ((((selectWhere t (base ++ bounds)).insertionSort fun a b => order.le a.2 b.2).take limit.toNat).map fun e =>
        ⟨e.1, e.2, e.2.modelCard.map (·.take chars), (selectWhere t (base ++ bounds)).length⟩) := by
  simp only [mainQuery, hw.append hs [.int limit], Int.toNat_natCast]

theorem countQuery_eq {t : Models} {w : Where} {base : List Cond} (hw : w.Bound base) :
    countQuery t (w.clauses ++ [.unknown]) w.params = some (selectWhere t (base ++ [.unknown])).length := by
  have hu : (Where.mk [.unknown] []).Bound [.unknown] := fun rest => rfl
  have h := hw.append hu []
  simp only [List.append_nil] at h
  simp only [countQuery, h]

/-- the window count of the first row, if there is one, is the number of rows before LIMIT -/
theorem totalOf_take {rows : List (Str × ModelRow)} {n : ℕ} (hn : 0 < n) (f : Str × ModelRow → Fetched)
    (hf : ∀ e, (f e).totalMatches = rows.length) (le : Str × ModelRow → Str × ModelRow → Prop) [DecidableRel le] :
    totalOf (((rows.insertionSort le).take n).map f) = rows.length := by
  have hlen := List.length_insertionSort le rows
  cases hrows : rows.insertionSort le with
  | nil =>
    rw [hrows] at hlen
    simp [totalOf, ← hlen]
  | cons e es =>
    obtain ⟨m, rfl⟩ := Nat.exists_eq_succ_of_ne_zero hn.ne'
    simp [totalOf, hf]

theorem similarTags_isSome (t : Models) (tag : Str) : ∃ similar, similarTags t tag = some similar := by
  rw [similarTags, parseLike_containing]
  exact ⟨_, rfl⟩

/-- a tag filter with few matches warns -/
theorem sparseWarnings_of_tag (t : Models) {a : Args} {tag : Str} {total : ℕ} (htag : strippedArg a.tag = some tag)
    (htotal : total < sparseTagThreshold) :
    ∃ similar, sparseWarnings t a total = some [sparseWarning tag total similar] := by
  obtain ⟨similar, hsimilar⟩ := similarTags_isSome t tag
  refine ⟨similar, ?_⟩
  simp only [sparseWarnings, htag, if_pos htotal, hsimilar, Option.map_some]

theorem sparseWarnings_isSome (t : Models) (a : Args) (total : ℕ) : ∃ ws, sparseWarnings t a total = some ws := by
  cases htag : strippedArg a.tag with
  | none => exact ⟨[], by simp only [sparseWarnings, htag]⟩
  | some tag =>
    by_cases htotal : total < sparseTagThreshold
    · obtain ⟨similar, h⟩ := sparseWarnings_of_tag t htag htotal
      exact ⟨_, h⟩
    · exact ⟨[], by simp only [sparseWarnings, htag, if_neg htotal]⟩

/-- a size filter has clauses iff it has conditions -/
theorem sizeOf_clauses (billion : ℚ → ℚ) (a : Args) : (sizeOf billion a).clauses = [] ↔ sizeConds billion a = [] := by
  cases hmin : a.minParamsB <;> cases hmax : a.maxParamsB <;> simp [sizeOf, sizeConds, Where.add, hmin, hmax]

theorem unknownWarnings_eq (u : Unicode) (billion : ℚ → ℚ) (t : Models) (a : Args) :
    unknownWarnings t (whereOf u a) (sizeOf billion a) =
      some (if sizeConds billion a = [] ∨ ofUnknownSize u t a = [] then []
        else [unknownWarning (ofUnknownSize u t a).length]) := by
  rw [unknownWarnings, countQuery_eq (bound_whereOf u a), ofUnknownSize]
  by_cases h : sizeConds billion a = []
  · simp [h, (sizeOf_clauses billion a).2 h]
  · simp [h, mt (sizeOf_clauses billion a).1 h]

/-- the excerpt of a fetched row is that of its card -/
theorem shapeFetched_mk (u : Unicode) (id : Str) (row : ModelRow) (n : ℕ) :
    shapeFetched u ⟨id, row, row.modelCard.map (·.take cardExcerptChars), n⟩ =
      shape u id row (some (cardExcerpt row)) := by
  unfold shapeFetched cardExcerpt
  cases row.modelCard <;> rfl

/-- **What `filter_models` returns**: it does not fail, its total is the number of rows that satisfy all conditions, and
it returns none of them only if there is none. -/
theorem filterModels_eq (u : Unicode) (billion : ℚ → ℚ) (t : Models) (a : Args) :
    ∃ sparse, sparseWarnings t a (matching u billion t a).length = some sparse ∧
      filterModels u billion t a = some
        ⟨(((matching u billion t a).insertionSort fun x y => (sortKey (sortText u a)).le x.2 y.2).take
            (clampLimit a.limit).toNat).map fun e => shape u e.1 e.2 (some (cardExcerpt e.2)),
          (matching u billion t a).length,
          sparse ++
            (if sizeConds billion a = [] ∨ ofUnknownSize u t a = [] then []
              else [unknownWarning (ofUnknownSize u t a).length]) ++
            smallestWarnings u a⟩ := by
  obtain ⟨sparse, hsparse⟩ := sparseWarnings_isSome t a (matching u billion t a).length
  refine ⟨sparse, hsparse, ?_⟩
  have hrows := mainQuery_eq (t := t) (bound_whereOf u a) (bound_sizeOf billion a) (sortKey (sortText u a))
    cardExcerptChars (clampLimit a.limit)
  have htotal := totalOf_take (clampLimit_pos a.limit)
    (fun e => Fetched.mk e.1 e.2 (e.2.modelCard.map (·.take cardExcerptChars)) (matching u billion t a).length)
    (fun _ => rfl) fun x y => (sortKey (sortText u a)).le x.2 y.2
  simp only [filterModels]
  rw [hrows, ← matching, Option.bind_eq_bind, Option.bind_some, htotal, hsparse, unknownWarnings_eq]
  simp only [Option.bind_eq_bind, Option.bind_some, List.map_map, Function.comp_def, shapeFetched_mk]
  rfl

/-! ## Abstention -/

/-- the id of a test artifact -/
def sqlArtifact (modelId : Str) : Bool := (search sqlArtifactPattern modelId).isSome

/-- a row satisfies the request, the task being the one that is asked for -/
structure Satisfies (billion : ℚ → ℚ) (a : Args) (task : Option Str) (modelId : Str) (row : ModelRow) : Prop where
  task : ∀ s, task = some s → ∃ p, row.pipelineTag = some p ∧ lower p = lower s
  /-- a blank tag asks for nothing -/
  tag : ∀ s, a.tag = some s → strip s ≠ [] → ∃ ts, row.tags = some ts ∧ s ∈ ts
  name : ∀ s, a.nameContains = some s → Contains (strip s) modelId
  /-- an unknown size satisfies every bound -/
  size : ∀ n : ℤ, row.parameterCount = some n →
    (∀ b, a.minParamsB = some b → billion b ≤ n) ∧ ∀ b, a.maxParamsB = some b → n ≤ billion b

/-- the task that is asked for: the stripped one, unless it is blank or 'general' -/
def askedTask (a : Args) : Option Str := (strippedArg a.taskType).filter fun s => lower s ≠ "general".toList

/-- `str.lower` with the case rules of ASCII -/
def AsciiCase (u : Unicode) : Prop := ∀ s, u.lower s = lower s

theorem truncate_le {x : ℚ} {n : ℤ} (h : x ≤ n) : truncate x ≤ n := by
  unfold truncate
  split_ifs
  · exact_mod_cast (Int.floor_le x).trans h
  · exact Int.ceil_le.2 h

theorem le_truncate {x : ℚ} {n : ℤ} (h : n ≤ x) : n ≤ truncate x := by
  unfold truncate
  split_ifs
  · exact Int.le_floor.2 h
  · exact_mod_cast h.trans (Int.le_ceil x)

theorem strippedArg_eq_some {x : Option Str} {s : Str} : strippedArg x = some s ↔ s ≠ [] ∧ ∃ y, x = some y ∧ strip y = s := by
  cases x with
  | none => simp [strippedArg, nonEmpty]
  | some y =>
    simp only [strippedArg, nonEmpty, Option.map_some, Option.filter_eq_some_iff, Option.some.injEq, exists_eq_left']
    refine ⟨?_, ?_⟩
    · rintro ⟨rfl, h⟩
      exact ⟨by simpa using h, rfl⟩
    · rintro ⟨h, rfl⟩
      exact ⟨rfl, by simpa using h⟩

/-- the task of the query is the one asked for, in lower case -/
theorem exists_asked {u : Unicode} (hu : AsciiCase u) {a : Args} {s : Str} (h : taskOf u a = some s) :
    ∃ task, askedTask a = some task ∧ lower task = s := by
  have hlow : u.lower (strip (a.taskType.getD [])) = lower (strip (a.taskType.getD [])) := hu _
  simp only [taskOf, hlow] at h
  split_ifs at h with hne
  obtain rfl := Option.some.inj h
  refine ⟨strip (a.taskType.getD []), ?_, rfl⟩
  have hblank : strip (a.taskType.getD []) ≠ [] := by
    intro e
    exact hne.1 (by rw [e]; rfl)
  cases ht : a.taskType with
  | none =>
    rw [ht] at hblank
    exact absurd rfl hblank
  | some y =>
    rw [ht] at hne hblank
    exact Option.filter_eq_some_iff.2 ⟨strippedArg_eq_some.2 ⟨hblank, y, ht, rfl⟩, decide_eq_true hne.2⟩

/-- the conditions other than the size bounds are true of a row that satisfies a request without a tag -/
theorem truth_baseConds {u : Unicode} (hu : AsciiCase u) {billion : ℚ → ℚ} {a : Args} {id : Str} {row : ModelRow}
    (hid : '\\' ∉ id) (hart : sqlArtifact id = false) (htag : strippedArg a.tag = none)
    (h : Satisfies billion a (askedTask a) id row) : ∀ c ∈ baseConds u a, c.truth id row = some true := by
  intro c hc
  simp only [baseConds, List.mem_append, List.mem_singleton, Option.mem_toList, Option.map_eq_some_iff, htag] at hc
  rcases hc with ((rfl | ⟨s, hs, rfl⟩) | hc) | ⟨s, hs, rfl⟩
  · exact congrArg some (Option.isSome_eq_false_iff.1 hart)
  · obtain ⟨task, htask, rfl⟩ := exists_asked hu hs
    obtain ⟨p, hp, hlow⟩ := h.task task htask
    simp [Cond.truth, hp, hlow]
  · simp at hc
  · obtain ⟨-, y, hy, rfl⟩ := strippedArg_eq_some.1 hs
    have hin := h.name y hy
    obtain ⟨p, hp, hm⟩ := ilike_of_infix (notMem_of_contains hin hid) hin
    simp [Cond.truth, namePattern, hp, hm]

theorem truth_sizeConds {billion : ℚ → ℚ} {a : Args} {task : Option Str} {id : Str} {row : ModelRow} {n : ℤ}
    (hn : row.parameterCount = some n) (h : Satisfies billion a task id row) :
    ∀ c ∈ sizeConds billion a, c.truth id row = some true := by
  intro c hc
  obtain ⟨hmin, hmax⟩ := h.size n hn
  simp only [sizeConds, List.mem_append, Option.mem_toList, Option.map_eq_some_iff] at hc
  rcases hc with ⟨b, hb, rfl⟩ | ⟨b, hb, rfl⟩
  · simp [Cond.truth, hn, truncate_le (hmin b hb)]
  · simp [Cond.truth, hn, le_truncate (hmax b hb)]

/-- **Abstention is sound.** If the function returns no models and no warnings, no row but that of a test artifact
satisfies the request. -/
theorem abstention_sound {u : Unicode} (hu : AsciiCase u) (billion : ℚ → ℚ) {t : Models}
    (hids : ∀ id ∈ t.keys, '\\' ∉ id) {a : Args} {r : Filtered} (h : filterModels u billion t a = some r)
    (hmodels : r.models = []) (hwarnings : r.warnings = []) :
    ∀ e ∈ t.entries, sqlArtifact e.1 = false → ¬ Satisfies billion a (askedTask a) e.1 e.2 := by
  intro e he hart hsat
  obtain ⟨sparse, hsparse, heq⟩ := filterModels_eq u billion t a
  obtain rfl := Option.some.inj (heq.symm.trans h)
  simp only [List.append_eq_nil_iff] at hwarnings
  obtain ⟨⟨hnosparse, hnounknown⟩, -⟩ := hwarnings
  -- no row satisfies all conditions: the limit is positive
  have hmatch : matching u billion t a = [] := by
    have htake := List.take_eq_nil_iff.1 (List.map_eq_nil_iff.1 hmodels)
    have hsorted := htake.resolve_left (clampLimit_pos a.limit).ne'
    have hperm := List.perm_insertionSort (fun x y => (sortKey (sortText u a)).le x.2 y.2 = true)
      (matching u billion t a)
    rw [hsorted] at hperm
    exact hperm.nil_eq.symm
  -- a tag filter that finds nothing warns
  have htag : strippedArg a.tag = none := by
    cases htag : strippedArg a.tag with
    | none => rfl
    | some tag =>
      obtain ⟨similar, hsimilar⟩ := sparseWarnings_of_tag t htag (show 0 < sparseTagThreshold by decide)
      rw [hmatch, hnosparse, List.length_nil, hsimilar] at hsparse
      cases hsparse
  have hbase := truth_baseConds hu (hids e.1 (Dict.mem_keys.2 ⟨e.2, he⟩)) hart htag hsat
  have hnotin : e ∉ matching u billion t a := by simp [hmatch]
  rw [matching, mem_selectWhere] at hnotin
  cases hn : e.2.parameterCount with
  | some n =>
    refine hnotin ⟨he, fun c hc => ?_⟩
    exact (List.mem_append.1 hc).elim (hbase c) (truth_sizeConds hn hsat c)
  | none =>
    split_ifs at hnounknown with hnone
    rcases hnone with hnosize | hnounknown
    · refine hnotin ⟨he, fun c hc => hbase c ?_⟩
      simpa [hnosize] using hc
    · have hu : e ∉ ofUnknownSize u t a := by simp [hnounknown]
      rw [ofUnknownSize, mem_selectWhere] at hu
      refine hu ⟨he, fun c hc => (List.mem_append.1 hc).elim (hbase c) fun hc => ?_⟩
      rw [List.mem_singleton.1 hc]
      simp [Cond.truth, hn]

/-- a model of 7 billion, with the pipeline tag given -/
def sampleRow (pipelineTag : Str) : ModelRow :=
  ⟨none, none, some pipelineTag, none, none, none, none, none, none, some 7000000000, none⟩

def sampleTable (pipelineTag : Str) : Models :=
  ⟨[("org/model-7b".toList, sampleRow pipelineTag)], List.nodup_singleton _⟩

/-- a request for a task and a size of at least 3 billion -/
def sampleArgs (taskType : Str) : Args := ⟨some taskType, none, some "model".toList, some 3, none, some [], 8⟩

def exactBillion (b : ℚ) : ℚ := b * 1000000000

theorem abstention_sound_sample :
    ¬ Satisfies exactBillion (sampleArgs "text-generation".toList) (askedTask (sampleArgs "text-generation".toList))
      "org/model-7b".toList (sampleRow "translation".toList) := by
  have hu : AsciiCase Unicode.ascii := fun s => rfl
  have hids : ∀ id ∈ (sampleTable "translation".toList).keys, '\\' ∉ id := by decide
  have hreturned : filterModels Unicode.ascii exactBillion (sampleTable "translation".toList)
      (sampleArgs "text-generation".toList) = some ⟨[], 0, []⟩ := by decide +kernel
  exact abstention_sound hu exactBillion hids hreturned rfl rfl _ (List.mem_singleton_self _) (by decide +kernel)

/-- the task is stripped before it is compared, the pipeline tag is not: a tag that equals the task as it was given, blank
included, is missed -/
theorem padded_task_missed :
    let t := sampleTable " text-generation".toList
    let a := sampleArgs " text-generation".toList
    AsciiCase Unicode.ascii ∧ (∀ id ∈ t.keys, '\\' ∉ id) ∧ a.taskType ≠ some "general".toList ∧
      filterModels Unicode.ascii exactBillion t a = some ⟨[], 0, []⟩ ∧
      ∃ e ∈ t.entries, sqlArtifact e.1 = false ∧ Satisfies exactBillion a a.taskType e.1 e.2 := by
  refine ⟨fun s => rfl, by decide, by decide, by decide +kernel, _, List.mem_singleton_self _, by decide +kernel, ?_⟩
  constructor
  case task =>
    intro s hs
    exact ⟨_, rfl, congrArg lower (Option.some.inj hs)⟩
  case tag =>
    intro s hs
    cases hs
  case name =>
    intro s hs
    obtain rfl : "model".toList = s := Option.some.inj hs
    exact ⟨"org/".toList, "-7b".toList, by decide⟩
  case size =>
    intro n hn
    obtain rfl : 7000000000 = n := Option.some.inj hn
    refine ⟨fun b hb => ?_, fun b hb => by cases hb⟩
    obtain rfl : 3 = b := Option.some.inj hb
    norm_num [exactBillion]

end AgentPick.Catalog
