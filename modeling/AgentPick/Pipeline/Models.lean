/-
The `models` table (`init_postgres.sql`) and the statements the pipeline runs on it.

`model_id TEXT PRIMARY KEY`: a table is a dictionary from ids to rows, so two rows with one id cannot be built. Every
other column may be NULL.
-/
import Mathlib.Tactic
import AgentPick.Core.Dict
import AgentPick.Core.Text

namespace AgentPick

/-- the columns of `models` other than `model_id`; timestamps as their text -/
structure ModelRow where
  downloads : Option ℤ
  likes : Option ℤ
  pipelineTag : Option Str
  libraryName : Option Str
  createdAt : Option Str
  lastModified : Option Str
  tags : Option (List Str)
  chunkIds : Option (List ℤ)
  numChunks : Option ℕ
  parameterCount : Option ℤ
  modelCard : Option Str
deriving DecidableEq, Repr

/-- the table: one row per `model_id` -/
abbrev Models := Dict Str ModelRow

namespace Models

/-- the SET list of an UPDATE of the enriched columns: `none` is a column the statement does not name, `some none` sets
it to NULL -/
structure Updates where
  modelCard : Option (Option Str)
  parameterCount : Option (Option ℤ)
deriving DecidableEq, Repr

def Updates.isEmpty (u : Updates) : Bool := u.modelCard.isNone && u.parameterCount.isNone

/-- `UPDATE models SET ... WHERE model_id = id`, on the row of that id -/
def setColumns (u : Updates) (r : ModelRow) : ModelRow :=
  { r with modelCard := u.modelCard.getD r.modelCard, parameterCount := u.parameterCount.getD r.parameterCount }

@[simp] theorem setColumns_modelCard (u : Updates) (r : ModelRow) :
    (setColumns u r).modelCard = u.modelCard.getD r.modelCard := rfl

@[simp] theorem setColumns_parameterCount (u : Updates) (r : ModelRow) :
    (setColumns u r).parameterCount = u.parameterCount.getD r.parameterCount := rfl

theorem setColumns_of_isEmpty {u : Updates} (h : u.isEmpty) (r : ModelRow) : setColumns u r = r := by
  simp only [Updates.isEmpty, Bool.and_eq_true, Option.isNone_iff_eq_none] at h
  simp [setColumns, h.1, h.2]

/-- `ORDER BY downloads DESC NULLS LAST` puts a row at or before another -/
def downloadsDesc (a b : Option ℤ) : Bool :=
  match a, b with
  | _, none => true
  | none, some _ => false
  | some x, some y => decide (y ≤ x)

/-- an answer to `SELECT ... FROM models ORDER BY downloads DESC NULLS LAST`: rows with equal downloads may come in any
order -/
structure Selected (t : Models) (fetched : List (Str × ModelRow)) : Prop where
  perm : fetched.Perm t.entries
  ordered : fetched.Pairwise fun a b => downloadsDesc a.2.downloads b.2.downloads

end Models

end AgentPick
