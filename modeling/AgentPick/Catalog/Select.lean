/-
Reading the catalog through the connection pool (`backend/src/catalog.py`, `_get_pool`, `_select`, `_meta_for_ids`,
`semantic_search`).

What the driver and the pool answer to one call is an `Outcome`; a query that succeeds is answered from the table as it is
then. `_select` converts what the imports, the opening of the pool and the query raise to CatalogUnavailable. `getconn` and
the size of the pool are outside of these handlers, and `putconn` is in a `finally`. The pool is also modelled across calls:
calls that overlap hold different connections, at most `maxconn` of them.

ASSUMED OF PSYCOPG2: `getconn` raises PoolError when all connections are in use.

Results:
- `select_returns`, `select_raises`: which connections a call obtained and gave back, and what it raises.
- `semantic_search_survives_iff`: a search returns the families, and `_select` raises nothing else, iff nothing escapes.
- `pool_inv`: in any interleaving of calls, the connections in use are those that the running calls hold.
- `refused_iff`: an exception of the pool escapes iff `maxconn` calls are running.
- `pool_exhausted`: a search whose `getconn` raises PoolError raises it.
-/
import Mathlib.Tactic
import AgentPick.Catalog.SemanticSearch

namespace AgentPick.Select

open AgentPick.Text AgentPick.Catalog

/-! ## One call -/

/-- exceptions of the driver, the pool and `int` -/
inductive Foreign where
  | poolError (message : Str)
  | operationalError (message : Str)
  | valueError (message : Str)
deriving DecidableEq, Repr

inductive Exc where
  | catalogUnavailable (message : Str)
  | foreign (e : Foreign)
deriving DecidableEq, Repr

abbrev Conn := ℕ

/-- what each operation answers, where it is called; an error is the text of the exception -/
structure Outcome where
  /-- `from psycopg2.extras import RealDictCursor` -/
  extras : Except Str Unit
  /-- `_pool is not None` -/
  cached : Bool
  /-- `from psycopg2.pool import ThreadedConnectionPool` -/
  driver : Except Str Unit
  /-- `int(os.getenv("POSTGRES_POOL_SIZE", "5"))` -/
  poolSize : Except Str ℕ
  /-- `ThreadedConnectionPool(...)` -/
  opened : Except Str Unit
  getconn : Except Foreign Conn
  /-- `cur.execute(sql, params)` and `cur.fetchall()` -/
  query : Except Str Models
  putconn : Except Foreign Unit

/-- `_get_pool` -/
def getPool (o : Outcome) : Except Exc Unit :=
  if o.cached then .ok ()
  else do
    o.driver.mapError fun e => .catalogUnavailable ("psycopg2 not installed: ".toList ++ e)
    let _ ← o.poolSize.mapError fun e => .foreign (.valueError e)
    o.opened.mapError fun e => .catalogUnavailable ("Could not connect to PostgreSQL: ".toList ++ e)

/-- what a call does with connections -/
inductive PoolOp where
  | obtained (c : Conn)
  | returned (c : Conn)
deriving DecidableEq, Repr

/-- `_select` up to `pool.getconn()` -/
def connection (o : Outcome) : Except Exc Conn := do
  o.extras.mapError fun e => .catalogUnavailable ("psycopg2 not installed: ".toList ++ e)
  getPool o
  o.getconn.mapError .foreign

/-- `_select`, of rows that are a function of the table -/
def select {α : Type} (o : Outcome) (sql : Models → α) : Except Exc α × List PoolOp :=
  match connection o with
  | .error e => (.error e, [])
  | .ok c =>
    let result := (o.query.mapError fun e => .catalogUnavailable ("PostgreSQL query failed: ".toList ++ e)).map sql
    -- the finally block: what it raises replaces the result
    match o.putconn with
    | .ok () => (result, [.obtained c, .returned c])
    | .error e => (.error (.foreign e), [.obtained c, .returned c])

/-- `_meta_for_ids` -/
def metaForIdsCall (u : Unicode) (o : Outcome) (modelIds : List Str) : Except Exc (Dict Str Item) :=
  if modelIds = [] then .ok Dict.empty
  else (select o fun t => (metaForIds u (some t) modelIds).getD Dict.empty).1

section

variable {S : Type} [LinearOrder S]

/-- `semantic_search` from the points on -/
def semanticSearchCall (u : Unicode) (o : Outcome) (points : List (Point S)) (limit : ℤ) : Except Exc (List Item) :=
  let rs := ranked points
  let results (info : Dict Str Item) := (sliceTo (families u info rs).values limit).map (entry info)
  match metaForIdsCall u o (rs.map Prod.fst) with
  | .ok info => .ok (results info)
  | .error (.catalogUnavailable _) => .ok (results Dict.empty)
  | .error e => .error e

end

/-- the table that a call sees, if it sees one -/
def database (o : Outcome) : Option Models :=
  match (select o id).1 with
  | .ok t => some t
  | .error _ => none

/-! ## What escapes -/

/-- an exception outside of the handlers: of the pool size, of `getconn` or of `putconn`, where they are reached -/
def Escapes (o : Outcome) : Prop :=
  (∃ v, o.extras = .ok v) ∧
    ((o.cached = false ∧ (∃ v, o.driver = .ok v) ∧ ∃ e, o.poolSize = .error e) ∨
      ((∃ v, getPool o = .ok v) ∧ ((∃ e, o.getconn = .error e) ∨ (∃ c, o.getconn = .ok c) ∧ ∃ e, o.putconn = .error e)))

/-- what is promised of `_select`: it raises CatalogUnavailable only, and gives back every connection once -/
structure SelectOk (o : Outcome) : Prop where
  raises : ∀ (α : Type) (sql : Models → α) e, (select o sql).1 = .error e → ∃ message, e = .catalogUnavailable message
  returns : ∀ (α : Type) (sql : Models → α) c, .obtained c ∈ (select o sql).2 → (select o sql).2.count (.returned c) = 1

/-- every connection is given back exactly once, whatever happens -/
theorem select_returns {α : Type} (o : Outcome) (sql : Models → α) (c : Conn) :
    (select o sql).2.count (.returned c) = (select o sql).2.count (.obtained c) ∧
      (select o sql).2.count (.obtained c) ≤ 1 := by
  unfold select
  cases connection o with
  | error e => simp
  | ok d => cases o.putconn <;> by_cases hcd : d = c <;> simp [hcd]

theorem getPool_foreign (o : Outcome) : (∃ f, getPool o = .error (.foreign f)) ↔
    o.cached = false ∧ (∃ v, o.driver = .ok v) ∧ ∃ e, o.poolSize = .error e := by
  unfold getPool
  cases o.cached with
  | true => simp
  | false =>
    cases o.driver with
    | error m => simp [Except.mapError, Bind.bind, Except.bind]
    | ok v =>
      cases o.poolSize with
      | error m => simp [Except.mapError, Bind.bind, Except.bind]
      | ok n => cases o.opened <;> simp [Except.mapError, Bind.bind, Except.bind]

/-- a connection fails with something else only in the pool or in `getconn`, and is got if neither fails -/
theorem connection_spec (o : Outcome) :
    ((∃ f, connection o = .error (.foreign f)) ↔ (∃ v, o.extras = .ok v) ∧
        ((∃ f, getPool o = .error (.foreign f)) ∨ (∃ v, getPool o = .ok v) ∧ ∃ e, o.getconn = .error e)) ∧
      ((∃ c, connection o = .ok c) ↔
        (∃ v, o.extras = .ok v) ∧ (∃ v, getPool o = .ok v) ∧ ∃ c, o.getconn = .ok c) := by
  unfold connection
  cases o.extras with
  | error m => simp [Except.mapError, Bind.bind, Except.bind]
  | ok v =>
    cases getPool o with
    | error e => simp [Except.mapError, Bind.bind, Except.bind]
    | ok v => cases o.getconn <;> simp [Except.mapError, Bind.bind, Except.bind]

/-- **What `_select` raises**: something else than CatalogUnavailable iff an exception escapes. -/
theorem select_foreign {α : Type} (o : Outcome) (sql : Models → α) :
    (∃ f, (select o sql).1 = .error (.foreign f)) ↔ Escapes o := by
  have hsplit : (∃ f, (select o sql).1 = .error (.foreign f)) ↔
      (∃ f, connection o = .error (.foreign f)) ∨ (∃ c, connection o = .ok c) ∧ ∃ e, o.putconn = .error e := by
    unfold select
    cases connection o with
    | error e => simp
    | ok c => cases o.putconn <;> cases o.query <;> simp [Except.mapError, Except.map]
  obtain ⟨hforeign, hok⟩ := connection_spec o
  rw [hsplit, hforeign, hok, getPool_foreign, Escapes]
  refine ⟨?_, ?_⟩
  · rintro (⟨hextras, hsize | ⟨hpool, hget⟩⟩ | ⟨⟨hextras, hpool, hget⟩, hput⟩)
    · exact ⟨hextras, Or.inl hsize⟩
    · exact ⟨hextras, Or.inr ⟨hpool, Or.inl hget⟩⟩
    · exact ⟨hextras, Or.inr ⟨hpool, Or.inr ⟨hget, hput⟩⟩⟩
  · rintro ⟨hextras, hsize | ⟨hpool, hget | ⟨hget, hput⟩⟩⟩
    · exact Or.inl ⟨hextras, Or.inl hsize⟩
    · exact Or.inl ⟨hextras, Or.inr ⟨hpool, hget⟩⟩
    · exact Or.inr ⟨⟨hextras, hpool, hget⟩, hput⟩

theorem selectOk_iff (o : Outcome) : SelectOk o ↔ ¬Escapes o := by
  refine ⟨fun h hescape => ?_, fun h => ⟨fun α sql e he => ?_, fun α sql c hc => ?_⟩⟩
  · obtain ⟨f, hf⟩ := (select_foreign o id).2 hescape
    obtain ⟨message, heq⟩ := h.raises Models id _ hf
    cases heq
  · cases e with
    | catalogUnavailable message => exact ⟨message, rfl⟩
    | foreign f => exact absurd ((select_foreign o sql).1 ⟨f, he⟩) h
  · obtain ⟨hcount, hle⟩ := select_returns o sql c
    have hpos := List.count_pos_iff.2 hc
    omega

/-! ## The search -/

/-- a query succeeds for one function of the table iff it does for another -/
theorem select_map {α : Type} (o : Outcome) (sql : Models → α) : (select o sql).1 = (select o id).1.map sql := by
  unfold select
  cases connection o with
  | error e => rfl
  | ok c => cases o.putconn <;> cases o.query <;> rfl

section

variable {S : Type} [LinearOrder S]

theorem search_of_not_escapes (u : Unicode) {o : Outcome} (points : List (Point S)) (limit : ℤ) (h : ¬Escapes o) :
    semanticSearchCall u o points limit = .ok (semanticSearch u (database o) points limit) := by
  have hinfo : metaForIdsCall u o ((ranked points).map Prod.fst) = .ok (metadata u (database o) (ranked points)) ∨
      (∃ message, metaForIdsCall u o ((ranked points).map Prod.fst) = .error (.catalogUnavailable message)) ∧
        metadata u (database o) (ranked points) = Dict.empty := by
    rw [metaForIdsCall, metadata]
    by_cases hids : (ranked points).map Prod.fst = []
    · rw [if_pos hids]
      exact Or.inl (by simp [metaForIds, hids])
    · rw [if_neg hids, select_map, database]
      cases hsel : (select o id).1 with
      | ok t => exact Or.inl rfl
      | error e =>
        cases e with
        | catalogUnavailable message => exact Or.inr ⟨⟨message, rfl⟩, by simp [metaForIds, hids]⟩
        | foreign f => exact absurd ((select_foreign o id).1 ⟨f, hsel⟩) h
  dsimp only [semanticSearchCall, semanticSearch]
  rcases hinfo with hok | ⟨⟨message, herr⟩, hempty⟩
  · rw [hok]
  · rw [herr, hempty]

/-- **A search survives, and `_select` raises nothing else, iff nothing escapes.** -/
theorem semantic_search_survives_iff (u : Unicode) (o : Outcome) (points : List (Point S)) (limit : ℤ) :
    (semanticSearchCall u o points limit = .ok (semanticSearch u (database o) points limit) ∧ SelectOk o) ↔ ¬Escapes o :=
  ⟨fun h => (selectOk_iff o).1 h.2, fun h => ⟨search_of_not_escapes u points limit h, (selectOk_iff o).2 h⟩⟩

end

/-- the pool is open and all its connections are in use -/
def exhausted : Outcome where
  extras := .ok ()
  cached := true
  driver := .ok ()
  poolSize := .ok 5
  opened := .ok ()
  getconn := .error (.poolError "connection pool exhausted".toList)
  query := .ok Dict.empty
  putconn := .ok ()

/-- **An exhausted pool takes the search down.** -/
theorem pool_exhausted :
    semanticSearchCall Unicode.ascii exhausted [(⟨1, some "a/x".toList, some "text".toList⟩ : Point ℕ)] 8 =
        .error (.foreign (.poolError "connection pool exhausted".toList)) ∧
      ¬SelectOk exhausted := by
  refine ⟨by rfl, fun h => ?_⟩
  obtain ⟨message, heq⟩ := h.raises Unit (fun _ => ()) _ rfl
  cases heq

/-! ## Calls that overlap -/

/-- the pool, and the calls that run -/
structure Pool where
  /-- the connections that are handed out -/
  used : List Conn
  /-- the running calls with their connections -/
  running : List (ℕ × Conn)

/-- `pool.getconn()`, c being a connection that is not in use -/
def Pool.getconn (maxconn : ℕ) (p : Pool) (c : Conn) : Except Foreign Conn :=
  if p.used.length = maxconn then .error (.poolError "connection pool exhausted".toList) else .ok c

/-- a call obtains a connection, or is refused one, or gives its connection back -/
inductive Event where
  | begin (call : ℕ) (c : Conn)
  | finish (call : ℕ)

/-- a step of the pool; `none` is no step -/
def step (maxconn : ℕ) (p : Pool) : Event → Option Pool
  | .begin call c =>
    if call ∈ p.running.map Prod.fst ∨ c ∈ p.used then none
    else
      match p.getconn maxconn c with
      | .error _ => some p
      | .ok c => some ⟨c :: p.used, (call, c) :: p.running⟩
  | .finish call =>
    (p.running.find? fun e => e.1 = call).map fun e => ⟨p.used.erase e.2, p.running.erase e⟩

def run (maxconn : ℕ) (p : Pool) (events : List Event) : Option Pool := events.foldlM (step maxconn) p

/-- the connections in use are those that the running calls hold, each of them once -/
structure PoolInv (maxconn : ℕ) (p : Pool) : Prop where
  held : p.used.Perm (p.running.map Prod.snd)
  distinct : p.used.Nodup
  bounded : p.used.length ≤ maxconn

theorem step_inv {maxconn : ℕ} {p q : Pool} {e : Event} (h : PoolInv maxconn p) (hs : step maxconn p e = some q) :
    PoolInv maxconn q := by
  cases e with
  | begin call c =>
    simp only [step, Pool.getconn] at hs
    split_ifs at hs with hno hfull
    · cases hs
      exact h
    · cases hs
      rw [not_or] at hno
      have hbound := h.bounded
      exact ⟨h.held.cons c, List.nodup_cons.2 ⟨hno.2, h.distinct⟩, by rw [List.length_cons]; omega⟩
  | finish call =>
    obtain ⟨e, he, rfl⟩ := Option.map_eq_some_iff.1 hs
    have hmem := List.mem_of_find?_eq_some he
    refine ⟨?_, h.distinct.erase _, (List.length_erase_le).trans h.bounded⟩
    -- the connection of the call leaves both sides
    have hheld : p.used.Perm (e.2 :: (p.running.erase e).map Prod.snd) :=
      h.held.trans ((List.perm_cons_erase hmem).map Prod.snd)
    have herase := hheld.erase e.2
    rwa [List.erase_cons_head] at herase

/-- **In any interleaving of calls, the connections in use are those that the running calls hold.** -/
theorem pool_inv {maxconn : ℕ} {events : List Event} {p q : Pool} (h : PoolInv maxconn p)
    (hrun : run maxconn p events = some q) : PoolInv maxconn q := by
  induction events generalizing p with
  | nil =>
    cases hrun
    exact h
  | cons e events ih =>
    obtain ⟨p', hs, hrest⟩ := Option.bind_eq_some_iff.1 hrun
    exact ih (step_inv h hs) hrest

/-- **An exception of the pool escapes iff `maxconn` calls are running**, in every state that calls lead to. -/
theorem refused_iff {maxconn : ℕ} {events : List Event} {p : Pool} (hrun : run maxconn ⟨[], []⟩ events = some p) (c : Conn)
    {o : Outcome} (hget : o.getconn = p.getconn maxconn c) (hput : ∃ v, o.putconn = .ok v) (hsize : ∃ n, o.poolSize = .ok n) :
    Escapes o ↔ (∃ v, o.extras = .ok v) ∧ (∃ v, getPool o = .ok v) ∧ p.running.length = maxconn := by
  have hinv : PoolInv maxconn p := pool_inv ⟨List.Perm.refl _, List.nodup_nil, Nat.zero_le _⟩ hrun
  have hlen : p.used.length = p.running.length := by rw [hinv.held.length_eq, List.length_map]
  obtain ⟨v, hput⟩ := hput
  obtain ⟨n, hsize⟩ := hsize
  rw [Escapes, hget, hput, hsize, Pool.getconn, hlen]
  split_ifs with hfull
  · simp [hfull]
  · simp [hfull]

end AgentPick.Select
