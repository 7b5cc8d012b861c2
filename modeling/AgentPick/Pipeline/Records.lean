/-
From a model to its chunk records (`hf_vectorizer/vectorizer.py`, `process_model` up to `writer.add`;
`hf_vectorizer/embeddings.py`; `hf_vectorizer/storage.py`, `normalize_record`).

`process_model` checks the metadata and the README, cuts every section into chunks (`chunked`), embeds the chunk texts
batch by batch and pairs the embedding rows with the chunks BY POSITION (`embedded`). A batch whose embedding raises is
skipped. `embedTexts` follows the retry with a smaller batch and the CPU fallback; a successful call returns one row per
text, in order, the embedding of that text (`embed`). What the outside world answers for one model is a `Call`.

Results:
- `prepare_ids`, `prepare_modelId`, `prepare_ne_nil`: the records handed to the writer are not empty, belong to the model,
  and are numbered consecutively from the counter.
- `records_at`: the i-th record pairs the embedding of the i-th surviving text with the i-th chunk.
- `aligned_iff`: every record carries the embedding of its own text, whatever the embedding model computes, exactly when
  the texts of the batches that succeed are an initial segment of the texts.
- `failed_batch_misaligns`: after a failed first batch the vectors are those of other texts.
-/
import Mathlib.Tactic
import AgentPick.Pipeline.Readme

namespace AgentPick.Records

open AgentPick.Readme

/-! ## Records -/

/-- an embedding row -/
abbrev Vec := List ℚ

/-- `HFClient.get_model_info` -/
structure ModelInfo where
  downloads : Option ℤ
  likes : Option ℤ
  tags : List Str
  pipelineTag : Option Str
  libraryName : Option Str
  createdAt : Option Str
  lastModified : Option Str
deriving DecidableEq, Repr

/-- a record dictionary before `normalize_record`: the outer `none` of a defaulted field is a missing key -/
structure RawRecord where
  id : ℕ
  vector : Vec
  modelId : Str
  sectionHeader : Str
  sectionIndex : ℕ
  numSections : ℕ
  text : Str
  chunkIndex : Option ℕ
  downloads : Option (Option ℤ)
  likes : Option (Option ℤ)
  tags : Option (List Str)
  pipelineTag : Option (Option Str)
  libraryName : Option (Option Str)
  createdAt : Option (Option Str)
  lastModified : Option (Option Str)
deriving DecidableEq, Repr

/-- a row of the Parquet file -/
structure Record where
  id : ℕ
  vector : Vec
  modelId : Str
  sectionHeader : Str
  sectionIndex : ℕ
  chunkIndex : ℕ
  numSections : ℕ
  text : Str
  downloads : Option ℤ
  likes : Option ℤ
  tags : List Str
  pipelineTag : Option Str
  libraryName : Option Str
  createdAt : Option Str
  lastModified : Option Str
deriving DecidableEq, Repr

/-- `normalize_record`: `setdefault` for every field that may be missing -/
def normalizeRecord (r : RawRecord) : Record where
  id := r.id
  vector := r.vector
  modelId := r.modelId
  sectionHeader := r.sectionHeader
  sectionIndex := r.sectionIndex
  numSections := r.numSections
  text := r.text
  downloads := r.downloads.getD (some 0)
  likes := r.likes.getD (some 0)
  tags := r.tags.getD []
  pipelineTag := r.pipelineTag.getD none
  libraryName := r.libraryName.getD none
  createdAt := r.createdAt.getD none
  lastModified := r.lastModified.getD none
  chunkIndex := r.chunkIndex.getD 0

/-! ## Chunks -/

/-- the metadata kept beside a chunk's text -/
structure ChunkMeta where
  sectionHeader : Str
  sectionIndex : ℕ
  chunkIndex : ℕ
  numChunksInSection : ℕ
deriving DecidableEq, Repr

/-- `texts` and `chunk_metadata`, which the two loops append to side by side -/
def flatChunks (parsed : List (Section × List Str)) : List (Str × ChunkMeta) :=
  parsed.zipIdx.flatMap fun p =>
    p.1.2.zipIdx.map fun c => (c.1, ⟨p.1.1.header, p.2, c.2, p.1.2.length⟩)

/-! ## Embeddings -/

/-- one call of `model.encode`: it returns, or raises a RuntimeError that names CUDA, another one, or something else -/
inductive Encode where
  | ok
  | cudaError
  | runtimeError
  | otherError
deriving DecidableEq, Repr

/-- the outcomes of the (up to) three calls of `model.encode` for one batch -/
structure Attempts where
  first : Encode
  retry : Encode
  cpu : Encode
deriving DecidableEq, Repr

/-- `EmbeddingModel.embed_texts`; `none` is an exception -/
def embedTexts (embed : Str → Vec) (a : Attempts) (texts : List Str) : Option (List Vec) :=
  match a.first with
  | .ok => some (texts.map embed)
  | .cudaError =>
    match a.retry with
    | .ok => some (texts.map embed)
    | .cudaError | .runtimeError => if a.cpu = .ok then some (texts.map embed) else none
    | .otherError => none
  | .runtimeError | .otherError => none

/-- the batch gets its embeddings -/
def Attempts.succeeds (a : Attempts) : Bool := (embedTexts (fun _ => []) a []).isSome

theorem embedTexts_eq (embed : Str → Vec) (a : Attempts) (texts : List Str) :
    embedTexts embed a texts = if a.succeeds then some (texts.map embed) else none := by
  rcases a with ⟨first, retry, cpu⟩
  cases first <;> cases retry <;> cases cpu <;> rfl

/-- `len(range(0, n, batch_size))` -/
def numBatches (batchSize n : ℕ) : ℕ := (n + batchSize - 1) / batchSize

/-- `texts[i:i + batch_size]` for the j-th i -/
def batch (batchSize : ℕ) (texts : List Str) (j : ℕ) : List Str := (texts.drop (j * batchSize)).take batchSize

/-- `embeddings_list` -/
def embeddingsList (embed : Str → Vec) (attempts : ℕ → Attempts) (batchSize : ℕ) (texts : List Str) : List (List Vec) :=
  (List.range (numBatches batchSize texts.length)).filterMap fun j =>
    embedTexts embed (attempts j) (batch batchSize texts j)

/-- the loop over `zip(embeddings, chunk_metadata)`; `texts[i]` is the text beside the i-th metadata -/
def records (modelId : Str) (info : ModelInfo) (start numSections : ℕ) (embeddings : List Vec)
    (flat : List (Str × ChunkMeta)) : List Record :=
  (embeddings.zip flat).zipIdx.map fun e => normalizeRecord
    { id := start + e.2
      vector := e.1.1
      modelId := modelId
      sectionHeader := e.1.2.2.sectionHeader
      sectionIndex := e.1.2.2.sectionIndex
      chunkIndex := some e.1.2.2.chunkIndex
      numSections := numSections
      text := e.1.2.1
      downloads := some info.downloads
      likes := some info.likes
      tags := some info.tags
      pipelineTag := some info.pipelineTag
      libraryName := some info.libraryName
      createdAt := some info.createdAt
      lastModified := some info.lastModified }

/-! ## One model -/

def minDownloadsThreshold : ℤ := 10000

/-- what the outside world answers while one model is processed -/
structure Call where
  modelId : Str
  /-- `get_model_info`, `none` after its retries failed -/
  info : Option ModelInfo
  /-- `download_readme`: no file, a file that cannot be read, or its text -/
  readme : Option (Option Str)
  /-- `chunk_text_tokens`, `none` when the tokenizer raises -/
  chunk : Str → Option (List Str)
  /-- the embedding model's outcomes for each batch -/
  attempts : ℕ → Attempts

/-- why `process_model` returns without records -/
inductive Skip where
  | metadataFailed
  | lowDownloads
  | noReadme
  | noSections
  | noEmbeddings
  | raised
deriving DecidableEq, Repr

/-- what is embedded for a model: its metadata, the number of its sections, its chunks -/
structure Prepared where
  info : ModelInfo
  parsed : List (Section × List Str)

def Prepared.flat (p : Prepared) : List (Str × ChunkMeta) := flatChunks p.parsed

def Prepared.texts (p : Prepared) : List Str := p.flat.map Prod.fst

/-- `process_model` from the metadata to the chunks -/
def chunked (c : Call) : Except Skip Prepared :=
  match c.info with
  | none => .error .metadataFailed
  | some info =>
    match info.downloads with
    | none => .error .raised -- `None < 10000` is a TypeError
    | some downloads =>
      if downloads < minDownloadsThreshold then .error .lowDownloads
      else
        match c.readme with
        | none => .error .noReadme
        | some file =>
          let sections := parseReadme file
          if sections = [] then .error .noSections
          else
            match sections.mapM fun s => (c.chunk s.content).map fun chunks => (s, chunks) with
            | none => .error .raised
            | some parsed => .ok ⟨info, parsed⟩

/-- `process_model` from the chunks to the records -/
def embedded (embed : Str → Vec) (batchSize : ℕ) (c : Call) (start : ℕ) (p : Prepared) : Except Skip (List Record) :=
  if batchSize = 0 then .error .raised -- `range(0, n, 0)` is a ValueError
  else
    let lists := embeddingsList embed c.attempts batchSize p.texts
    if lists = [] then .error .noEmbeddings
    else .ok (records c.modelId p.info start p.parsed.length lists.flatten p.flat)

/-- `process_model` from the metadata to the records -/
def prepare (embed : Str → Vec) (batchSize : ℕ) (c : Call) (start : ℕ) : Except Skip (List Record) :=
  match chunked c with
  | .error e => .error e
  | .ok p => embedded embed batchSize c start p

/-! ## The records of a model -/

theorem records_length (modelId : Str) (info : ModelInfo) (start n : ℕ) (embeddings : List Vec)
    (flat : List (Str × ChunkMeta)) :
    (records modelId info start n embeddings flat).length = min embeddings.length flat.length := by
  simp [records]

theorem records_getElem? (modelId : Str) (info : ModelInfo) (start n : ℕ) (embeddings : List Vec)
    (flat : List (Str × ChunkMeta)) (i : ℕ) {v : Vec} {p : Str × ChunkMeta} (hv : embeddings[i]? = some v)
    (hp : flat[i]? = some p) :
    ∃ r, (records modelId info start n embeddings flat)[i]? = some r ∧ r.id = start + i ∧ r.vector = v ∧
      (r.text, r.sectionHeader, r.sectionIndex, r.chunkIndex) =
        (p.1, p.2.sectionHeader, p.2.sectionIndex, p.2.chunkIndex) := by
  simp only [records, List.getElem?_map, List.getElem?_zipIdx]
  rw [show (embeddings.zip flat)[i]? = some (v, p) from List.getElem?_zip_eq_some.2 ⟨hv, hp⟩]
  exact ⟨_, rfl, by simp [normalizeRecord], rfl, rfl⟩

theorem records_modelId (modelId : Str) (info : ModelInfo) (start n : ℕ) (embeddings : List Vec)
    (flat : List (Str × ChunkMeta)) : ∀ r ∈ records modelId info start n embeddings flat, r.modelId = modelId := by
  intro r hr
  obtain ⟨e, -, rfl⟩ := List.mem_map.1 hr
  rfl

/-- ids are consecutive from the counter -/
theorem records_ids (modelId : Str) (info : ModelInfo) (start n : ℕ) (embeddings : List Vec)
    (flat : List (Str × ChunkMeta)) :
    (records modelId info start n embeddings flat).map Record.id =
      List.range' start (min embeddings.length flat.length) := by
  have h : (records modelId info start n embeddings flat).map Record.id =
      ((embeddings.zip flat).zipIdx.map Prod.snd).map (start + ·) := by
    simp only [records, List.map_map, Function.comp_def, normalizeRecord]
  rw [h, List.zipIdx_map_snd, List.map_add_range', List.length_zip, Nat.add_zero]

/-- a chunk's metadata names its section and its place in it -/
theorem mem_flatChunks {parsed : List (Section × List Str)} {t : Str} {m : ChunkMeta} (h : (t, m) ∈ flatChunks parsed) :
    ∃ s chunks, parsed[m.sectionIndex]? = some (s, chunks) ∧ m.sectionHeader = s.header ∧
      chunks[m.chunkIndex]? = some t ∧ m.numChunksInSection = chunks.length := by
  obtain ⟨⟨⟨s, chunks⟩, i⟩, hp, hc⟩ := List.mem_flatMap.1 h
  obtain ⟨⟨t', j⟩, ht, e⟩ := List.mem_map.1 hc
  cases e
  exact ⟨s, chunks, List.mk_mem_zipIdx_iff_getElem?.1 hp, rfl, List.mk_mem_zipIdx_iff_getElem?.1 ht, rfl⟩

theorem embedded_ok {embed : Str → Vec} {batchSize : ℕ} {c : Call} {start : ℕ} {p : Prepared} {recs : List Record} :
    embedded embed batchSize c start p = .ok recs ↔
      batchSize ≠ 0 ∧ embeddingsList embed c.attempts batchSize p.texts ≠ [] ∧
        recs = records c.modelId p.info start p.parsed.length
          (embeddingsList embed c.attempts batchSize p.texts).flatten p.flat := by
  unfold embedded
  by_cases h0 : batchSize = 0
  · simp [h0]
  · by_cases h1 : embeddingsList embed c.attempts batchSize p.texts = []
    · simp [h0, h1]
    · simp [h0, h1, eq_comm]

/-! ## Which batches succeed -/

/-- the batches are the texts, cut -/
theorem flatMap_batch (batchSize : ℕ) (texts : List Str) (m : ℕ) :
    (List.range m).flatMap (batch batchSize texts) = texts.take (m * batchSize) := by
  induction m with
  | zero => simp
  | succ m ih =>
    rw [List.range_succ, List.flatMap_append, ih, Nat.succ_mul, List.take_add]
    simp [batch]

/-- the texts of the batches that succeed -/
def survivors (attempts : ℕ → Attempts) (batchSize : ℕ) (texts : List Str) : List Str :=
  ((List.range (numBatches batchSize texts.length)).filter fun j => (attempts j).succeeds).flatMap (batch batchSize texts)

theorem embeddingsList_eq (embed : Str → Vec) (attempts : ℕ → Attempts) (batchSize : ℕ) (texts : List Str) :
    embeddingsList embed attempts batchSize texts =
      ((List.range (numBatches batchSize texts.length)).filter fun j => (attempts j).succeeds).map
        fun j => (batch batchSize texts j).map embed := by
  simp only [embeddingsList, embedTexts_eq]
  induction List.range (numBatches batchSize texts.length) with
  | nil => rfl
  | cons j js ih => by_cases h : (attempts j).succeeds <;> simp [h, ih]

theorem flatten_embeddingsList (embed : Str → Vec) (attempts : ℕ → Attempts) (batchSize : ℕ) (texts : List Str) :
    (embeddingsList embed attempts batchSize texts).flatten = (survivors attempts batchSize texts).map embed := by
  rw [embeddingsList_eq, survivors, List.map_flatMap, List.flatMap]

theorem survivors_sublist (attempts : ℕ → Attempts) (batchSize : ℕ) (texts : List Str) :
    (survivors attempts batchSize texts).Sublist texts := by
  have h := (List.filter_sublist (l := List.range (numBatches batchSize texts.length))
    (p := fun j => (attempts j).succeeds)).flatMap (batch batchSize texts)
  rw [flatMap_batch] at h
  exact h.trans (List.take_sublist _ _)

/-! ## Vectors and texts -/

/-- the record is that of one chunk of the model and carries the embedding of its own text -/
def Faithful (embed : Str → Vec) (p : Prepared) (r : Record) : Prop :=
  r.vector = embed r.text ∧
    ∃ s chunks, p.parsed[r.sectionIndex]? = some (s, chunks) ∧ r.sectionHeader = s.header ∧
      chunks[r.chunkIndex]? = some r.text

/-- the i-th record pairs the i-th embedding with the i-th chunk -/
theorem records_at (embed : Str → Vec) (modelId : Str) (start : ℕ) (p : Prepared) (ts : List Str) (i : ℕ)
    (hi : i < ts.length) (hi' : i < p.texts.length) :
    ∃ r, (records modelId p.info start p.parsed.length (ts.map embed) p.flat)[i]? = some r ∧
      r.vector = embed ts[i] ∧ r.text = p.texts[i] ∧
      ∃ s chunks, p.parsed[r.sectionIndex]? = some (s, chunks) ∧ r.sectionHeader = s.header ∧
        chunks[r.chunkIndex]? = some r.text := by
  have hf : i < p.flat.length := by simpa [Prepared.texts] using hi'
  obtain ⟨r, hr, -, hv, he⟩ := records_getElem? modelId p.info start p.parsed.length (ts.map embed) p.flat i
    (v := embed ts[i]) (p := p.flat[i]) (by simp [hi]) (by simp [hf])
  simp only [Prod.mk.injEq] at he
  obtain ⟨ht, hh, hs, hc⟩ := he
  obtain ⟨s, chunks, h1, h2, h3, -⟩ := mem_flatChunks (t := p.flat[i].1) (m := p.flat[i].2) (List.getElem_mem hf)
  exact ⟨r, hr, hv, by simp [ht, Prepared.texts], s, chunks, by rw [hs, h1], by rw [hh, h2], by rw [hc, ht, h3]⟩

theorem faithful_iff (embed : Str → Vec) (modelId : Str) (start : ℕ) (p : Prepared) {ts : List Str}
    (hle : ts.length ≤ p.texts.length) :
    (∀ r ∈ records modelId p.info start p.parsed.length (ts.map embed) p.flat, Faithful embed p r) ↔
      ∀ i (hi : i < ts.length), embed ts[i] = embed (p.texts.get ⟨i, hi.trans_le hle⟩) := by
  simp only [List.get_eq_getElem]
  refine ⟨?_, ?_⟩
  · intro h i hi
    obtain ⟨r, hr, hv, ht, -⟩ := records_at embed modelId start p ts i hi (by omega)
    rw [← hv, ← ht]
    exact (h r (List.mem_of_getElem? hr)).1
  · intro h r hr
    obtain ⟨i, hi⟩ := List.getElem?_of_mem hr
    have hlt : i < ts.length := by
      have := (List.getElem?_eq_some_iff.1 hi).1
      rw [records_length, List.length_map] at this
      omega
    obtain ⟨r', hr', hv, ht, hm⟩ := records_at embed modelId start p ts i hlt (by omega)
    obtain rfl : r' = r := by rw [hi] at hr'; exact (Option.some_inj.1 hr').symm
    exact ⟨by rw [hv, ht, h i hlt], hm⟩

/-- an embedding model that tells every two texts apart -/
theorem exists_injective : ∃ embed : Str → Vec, Function.Injective embed := by
  refine ⟨fun t => t.map fun ch => (ch.toNat : ℚ), List.map_injective_iff.2 fun a b h => ?_⟩
  exact Char.toNat_inj.1 (by exact_mod_cast h)

theorem survivors_zero (attempts : ℕ → Attempts) (texts : List Str) : survivors attempts 0 texts = [] := by
  simp [survivors, numBatches]

theorem prepare_ok {embed : Str → Vec} {batchSize : ℕ} {c : Call} {start : ℕ} {recs : List Record} :
    prepare embed batchSize c start = .ok recs ↔
      ∃ p, chunked c = .ok p ∧ embedded embed batchSize c start p = .ok recs := by
  unfold prepare
  cases chunked c <;> simp

/-- **Alignment.** Every record handed to the writer carries the embedding of its own text, whatever function the
embedding model computes, exactly when the texts of the batches that succeed are an initial segment of the texts. -/
theorem aligned_iff (batchSize : ℕ) (c : Call) (start : ℕ) :
    (∀ embed p recs, chunked c = .ok p → prepare embed batchSize c start = .ok recs →
        ∀ r ∈ recs, Faithful embed p r) ↔
      ∀ p, chunked c = .ok p → survivors c.attempts batchSize p.texts <+: p.texts := by
  have hle (p : Prepared) := (survivors_sublist c.attempts batchSize p.texts).length_le
  refine ⟨?_, ?_⟩
  · intro h p hp
    obtain ⟨embed, hinj⟩ := exists_injective
    by_cases hs : survivors c.attempts batchSize p.texts = []
    · rw [hs]; exact List.nil_prefix
    · have h0 : batchSize ≠ 0 := by rintro rfl; exact hs (survivors_zero _ _)
      have hne : embeddingsList embed c.attempts batchSize p.texts ≠ [] := by
        intro e
        have hfl := flatten_embeddingsList embed c.attempts batchSize p.texts
        rw [e, List.flatten_nil, eq_comm, List.map_eq_nil_iff] at hfl
        exact hs hfl
      have hf := h embed p _ hp (prepare_ok.2 ⟨p, hp, embedded_ok.2 ⟨h0, hne, rfl⟩⟩)
      rw [flatten_embeddingsList, faithful_iff _ _ _ _ (hle p)] at hf
      exact List.prefix_iff_getElem.2 ⟨hle p, fun i hi => hinj (hf i hi)⟩
  · intro h embed p recs hp he
    obtain ⟨p', hp', he'⟩ := prepare_ok.1 he
    obtain rfl : p' = p := by rw [hp] at hp'; exact (Except.ok.inj hp').symm
    obtain ⟨-, -, rfl⟩ := embedded_ok.1 he'
    rw [flatten_embeddingsList, faithful_iff _ _ _ _ (hle _)]
    obtain ⟨_, hget⟩ := List.prefix_iff_getElem.1 (h _ hp)
    exact fun i hi => by rw [hget i hi, List.get_eq_getElem]

/-- two sections of one chunk each, embedded one text at a time; the first batch raises -/
def firstBatchFails : Call where
  modelId := "org/m".toList
  info := some ⟨some 20000, some 0, [], none, none, none, none⟩
  readme := some (some "## A\none\n## B\nthree".toList)
  chunk s := some [s]
  attempts j := if j = 0 then ⟨.otherError, .otherError, .otherError⟩ else ⟨.ok, .ok, .ok⟩

/-- the record of the chunk "one" gets the vector of the chunk "three" -/
theorem failed_batch_misaligns :
    ∃ recs, prepare (fun t => [(t.length : ℚ)]) 1 firstBatchFails 0 = .ok recs ∧
      ∃ r ∈ recs, r.text = "one".toList ∧ r.vector = [5] ∧ r.vector ≠ [(r.text.length : ℚ)] := by
  refine ⟨_, rfl, _, List.mem_cons_self, rfl, rfl, ?_⟩
  decide

/-! ## What the writer receives -/

theorem prepare_modelId {embed : Str → Vec} {batchSize : ℕ} {c : Call} {start : ℕ} {recs : List Record}
    (h : prepare embed batchSize c start = .ok recs) : ∀ r ∈ recs, r.modelId = c.modelId := by
  obtain ⟨p, -, he⟩ := prepare_ok.1 h
  obtain ⟨-, -, rfl⟩ := embedded_ok.1 he
  exact records_modelId _ _ _ _ _ _

/-- the ids are the next ones after the counter -/
theorem prepare_ids {embed : Str → Vec} {batchSize : ℕ} {c : Call} {start : ℕ} {recs : List Record}
    (h : prepare embed batchSize c start = .ok recs) : recs.map Record.id = List.range' start recs.length := by
  obtain ⟨p, -, he⟩ := prepare_ok.1 h
  obtain ⟨-, -, rfl⟩ := embedded_ok.1 he
  rw [records_ids, records_length]

theorem batch_ne_nil {batchSize : ℕ} {texts : List Str} {j : ℕ} (hj : j < numBatches batchSize texts.length) :
    batch batchSize texts j ≠ [] := by
  have hb : 0 < batchSize := by
    rcases Nat.eq_zero_or_pos batchSize with rfl | h
    · simp [numBatches] at hj
    · exact h
  have h1 : (j + 1) * batchSize ≤ texts.length + batchSize - 1 := (Nat.le_div_iff_mul_le hb).1 hj
  have h2 : j * batchSize < texts.length := by
    rw [Nat.succ_mul] at h1
    omega
  intro e
  have := congrArg List.length e
  simp only [batch, List.length_take, List.length_drop, List.length_nil] at this
  omega

theorem prepare_ne_nil {embed : Str → Vec} {batchSize : ℕ} {c : Call} {start : ℕ} {recs : List Record}
    (h : prepare embed batchSize c start = .ok recs) : recs ≠ [] := by
  obtain ⟨p, -, he⟩ := prepare_ok.1 h
  obtain ⟨-, hne, rfl⟩ := embedded_ok.1 he
  have hle := (survivors_sublist c.attempts batchSize p.texts).length_le
  have hs : survivors c.attempts batchSize p.texts ≠ [] := by
    rw [embeddingsList_eq, ne_eq, List.map_eq_nil_iff] at hne
    obtain ⟨j, hj⟩ := List.exists_mem_of_ne_nil _ hne
    have hlt := List.mem_range.1 (List.mem_filter.1 hj).1
    obtain ⟨t, ht⟩ := List.exists_mem_of_ne_nil _ (batch_ne_nil hlt)
    exact List.ne_nil_of_mem (List.mem_flatMap.2 ⟨j, hj, ht⟩)
  have hpos := List.length_pos_iff.2 hs
  rw [← List.length_pos_iff, records_length, flatten_embeddingsList, List.length_map]
  have hfl : p.texts.length = p.flat.length := by simp [Prepared.texts]
  omega

end AgentPick.Records
