import RagPipeline.Settings.Duration
import RagPipeline.Settings.Toml

/-!
# The rag service's config reader

`config_reader._Reader` reads typed values out of the decoded file and records every problem.

## Main definitions

* `Python.build`: `_Reader.build`, all readers and then the timing rules.
* `Python.load`: the config, or every problem found.
-/
namespace Settings.Python

/-- What the reader appends to `problems` and `invalid_durations`. -/
inductive Finding where
  | problem (p : Problem)
  | invalidDuration (name : String)

abbrev Reading := Logged Finding

def problems (log : List Finding) : List Problem := log.filterMap fun
  | .problem p => some p
  | .invalidDuration _ => none

def invalidDurations (log : List Finding) : List String := log.filterMap fun
  | .problem _ => none
  | .invalidDuration name => some name

structure MinioConfig where
  url : String
  accessKey : String
  secretKey : String
  uploadBucket : String
  ingestionBucket : String

structure SqliteConfig where
  dir : String

structure QdrantConfig where
  url : String

structure OllamaConfig where
  url : String

/-- Durations are in microseconds. -/
structure RagConsumerConfig where
  jobTimeout : Int
  watchdogGrace : Int
  minIdle : Int
  recoveryInterval : Int
  poisonThreshold : Int
  consumerCleanupIdle : Int
  maxFileBytes : Int
  allowSkipDimCheck : Bool

structure RagConfig where
  collection : String
  embeddingModel : String
  embeddingDim : Int
  llmModel : String
  topK : Int
  chunkSize : Int
  chunkOverlap : Int
  callTimeout : Int
  minScore : TomlFloat
  embedBatchSize : Int
  queryInstruction : String
  reasoningEffort : String
  maxQueryChars : Int
  maxDocumentIds : Int
  systemPrompt : String
  consumer : RagConsumerConfig

structure RagGrpcConfig where
  port : Int
  maxWorkers : Int

structure RedisConfig where
  host : String
  port : Int
  stream : String
  consumerGroup : String
  streamMaxLen : Int
  statusStream : String
  statusConsumerGroup : String

structure IngestionConfig where
  maxAttempts : Int
  allowedExtensions : List String

structure Config where
  minio : MinioConfig
  sqlite : SqliteConfig
  qdrant : QdrantConfig
  ollama : OllamaConfig
  rag : RagConfig
  ragGrpc : RagGrpcConfig
  redis : RedisConfig
  ingestion : IngestionConfig

def maxInt64 : Int := 2 ^ 63 - 1
def maxPort : Int := 65535
def extensionForbidden : List Char := ['.', '/', '/', '\\', ' ', '\t']
def reasoningEfforts : List String := ["low", "medium", "high"]

/-! ### Readers of one key -/

section Readers

variable (raw : Table) (path : List String) (key : String)

/-- `_table`: no members where some part of the path is missing or no table. -/
def table (raw : Table) (path : List String) : Table :=
  members (path.foldl (fun node part => (members node).get? part) (some (.table raw)))

def fail {α : Type} (message : String) (value : α) : Reading α :=
  .found (.problem ⟨dotted path key, message⟩) value

def text : Reading String :=
  match (table raw path).get? key with
  | some (.str s) => if s = "" then fail path key "must be a non-empty string" "" else pure s
  | _ => fail path key "must be a non-empty string" ""

def optionalText : Reading String :=
  match (table raw path).get? key with
  | none => pure ""
  | some (.str s) => pure s
  | some _ => fail path key "must be a string" ""

def integer (minimum maximum : Int) : Reading Int :=
  match (table raw path).get? key with
  | some (.int n) =>
    if n < minimum then fail path key s!"must be >= {minimum}" n
    else if n > maximum then fail path key s!"must be <= {maximum}" n
    else pure n
  | _ => fail path key "must be an integer" minimum

/-- A number in [0, 1). The value is not used when there is a problem, so the overflow of
`float(value)` on an integer beyond the floats is left out. -/
def fraction : Reading TomlFloat :=
  match (table raw path).get? key with
  | some (.int n) => if n = 0 then pure (.finite n) else outside (.finite n)
  | some (.float (.finite q)) => if 0 ≤ q ∧ q < 1 then pure (.finite q) else outside (.finite q)
  | some (.float x) => outside x
  | _ => fail path key "must be a number" (.finite 0)
where
  outside (x : TomlFloat) : Reading TomlFloat := fail path key "must be >= 0 and < 1" x

def optionalFlag : Reading Bool :=
  match (table raw path).get? key with
  | none => pure false
  | some (.bool b) => pure b
  | some _ => fail path key "must be true or false" false

def choice (allowed : List String) : Reading String :=
  match (table raw path).get? key with
  | some (.str s) => if s ∈ allowed then pure s else refused
  | _ => refused
where
  refused : Reading String :=
    fail path key ("must be one of " ++ ", ".intercalate allowed) (allowed.headD "")

def duration : Reading Int :=
  match (table raw path).get? key with
  | some (.str s) => match parseDuration s with
    | some d =>
      if d ≤ 0 then do
        fail path key "must be > 0" ()
        .found (.invalidDuration (dotted path key)) d
      else pure d
    | none => invalid
  | _ => invalid
where
  invalid : Reading Int := do
    fail path key "invalid duration: want an integer and one unit (s, m or h), e.g. \"15m\"" ()
    .found (.invalidDuration (dotted path key)) 0

def validExtension : Toml → Option String
  | .str s =>
    let chars := s.toList
    if chars.head? ≠ some '.' ∨ chars.length < 2 ∨ (chars.drop 1).any (· ∈ extensionForbidden)
    then none
    else some s
  | _ => none

def extensionsOf : List Toml → Reading (List String)
  | [] => pure []
  | ext :: rest =>
    match validExtension ext with
    | some s => do return s :: (← extensionsOf rest)
    | none => do
      fail path key "entry must be one extension such as \".pdf\"" ()
      extensionsOf rest

def extensions : Reading (List String) :=
  match (table raw path).get? key with
  | some (.arr elements) =>
    if elements = [] then fail path key "must be a non-empty list" []
    else extensionsOf path key elements
  | _ => fail path key "must be a non-empty list" []

end Readers

/-! ### The whole file -/

def readMinio (raw : Table) : Reading MinioConfig := do return {
  url := ← text raw ["minio"] "url"
  accessKey := ← text raw ["minio"] "access_key"
  secretKey := ← text raw ["minio"] "secret_key"
  uploadBucket := ← optionalText raw ["minio"] "upload_bucket"
  ingestionBucket := ← text raw ["minio"] "ingestion_bucket" }

def readConsumer (raw : Table) : Reading RagConsumerConfig := do return {
  jobTimeout := ← duration raw ["rag", "consumer"] "job_timeout"
  watchdogGrace := ← duration raw ["rag", "consumer"] "watchdog_grace"
  minIdle := ← duration raw ["rag", "consumer"] "min_idle"
  recoveryInterval := ← duration raw ["rag", "consumer"] "recovery_interval"
  poisonThreshold := ← integer raw ["rag", "consumer"] "poison_threshold" 1 maxInt64
  consumerCleanupIdle := ← duration raw ["rag", "consumer"] "consumer_cleanup_idle"
  maxFileBytes := ← integer raw ["rag", "consumer"] "max_file_bytes" 1 maxInt64
  allowSkipDimCheck := ← optionalFlag raw ["rag", "consumer"] "allow_skip_dim_check" }

def readRag (raw : Table) (consumer : RagConsumerConfig) : Reading RagConfig := do
  let chunkSize ← integer raw ["rag"] "chunk_size" 1 maxInt64
  return {
    collection := ← text raw ["rag"] "collection"
    embeddingModel := ← text raw ["rag"] "embedding_model"
    embeddingDim := ← integer raw ["rag"] "embedding_dim" 0 maxInt64
    llmModel := ← text raw ["rag"] "llm_model"
    topK := ← integer raw ["rag"] "top_k" 1 maxInt64
    chunkSize
    chunkOverlap := ← integer raw ["rag"] "chunk_overlap" 0 (max (chunkSize - 1) 0)
    callTimeout := ← duration raw ["rag"] "call_timeout"
    minScore := ← fraction raw ["rag"] "min_score"
    embedBatchSize := ← integer raw ["rag"] "embed_batch_size" 1 maxInt64
    queryInstruction := ← text raw ["rag"] "query_instruction"
    reasoningEffort := ← choice raw ["rag"] "reasoning_effort" reasoningEfforts
    maxQueryChars := ← integer raw ["rag"] "max_query_chars" 1 maxInt64
    maxDocumentIds := ← integer raw ["rag"] "max_document_ids" 1 maxInt64
    systemPrompt := ← text raw ["rag"] "system_prompt"
    consumer }

def readRagGrpc (raw : Table) : Reading RagGrpcConfig := do return {
  port := ← integer raw ["rag_grpc"] "port" 1 maxPort
  maxWorkers := ← integer raw ["rag_grpc"] "max_workers" 1 maxInt64 }

def readRedis (raw : Table) : Reading RedisConfig := do return {
  host := ← text raw ["redis"] "host"
  port := ← integer raw ["redis"] "port" 1 maxPort
  stream := ← text raw ["redis"] "stream"
  consumerGroup := ← text raw ["redis"] "consumer_group"
  streamMaxLen := ← integer raw ["redis"] "stream_max_len" 1 maxInt64
  statusStream := ← text raw ["redis"] "status_stream"
  statusConsumerGroup := ← text raw ["redis"] "status_consumer_group" }

def readIngestion (raw : Table) : Reading IngestionConfig := do return {
  maxAttempts := ← integer raw ["ingestion"] "max_attempts" 1 maxInt64
  allowedExtensions := ← extensions raw ["ingestion"] "allowed_extensions" }

/-- The part of `build` before the timing rules. -/
def readAll (raw : Table) : Reading Config := do
  let minio ← readMinio raw
  let sqlite := { dir := ← text raw ["sqlite"] "dir" }
  let qdrant := { url := ← text raw ["qdrant"] "url" }
  let ollama := { url := ← text raw ["ollama"] "url" }
  let consumer ← readConsumer raw
  let rag ← readRag raw consumer
  let ragGrpc ← readRagGrpc raw
  let redis ← readRedis raw
  let ingestion ← readIngestion raw
  return { minio, sqlite, qdrant, ollama, rag, ragGrpc, redis, ingestion }

def checkTiming (c : RagConsumerConfig) : List Problem :=
  (if c.jobTimeout + c.watchdogGrace ≥ c.minIdle then
    [⟨"rag.consumer.min_idle", "must exceed job_timeout + watchdog_grace"⟩] else []) ++
  (if c.consumerCleanupIdle ≤ c.jobTimeout then
    [⟨"rag.consumer.consumer_cleanup_idle", "must exceed job_timeout"⟩] else [])

def timingKeys : List String :=
  ["job_timeout", "watchdog_grace", "min_idle", "consumer_cleanup_idle"].map
    (dotted ["rag", "consumer"])

/-- `_Reader.build`: the config and the problems. -/
def build (raw : Table) : Config × List Problem :=
  let read := readAll raw
  (read.value, problems read.log ++
    if timingKeys.any (· ∈ invalidDurations read.log) then []
    else checkTiming read.value.rag.consumer)

def load (raw : Table) : Except (List Problem) Config :=
  match build raw with
  | (config, []) => .ok config
  | (_, problems) => .error problems

theorem load_of_silent {raw : Table} (h : (build raw).2 = []) : load raw = .ok (build raw).1 := by
  unfold load
  split
  case h_1 config hb => rw [hb]
  case h_2 config problems hne hb =>
    rw [hb] at h
    exact (hne h).elim

/-! ### What is loaded -/

section Loaded

variable {raw : Table} {path : List String} {key : String}

@[simp] theorem problems_append (l₁ l₂ : List Finding) :
    problems (l₁ ++ l₂) = problems l₁ ++ problems l₂ := List.filterMap_append

@[simp] theorem invalidDurations_append (l₁ l₂ : List Finding) :
    invalidDurations (l₁ ++ l₂) = invalidDurations l₁ ++ invalidDurations l₂ :=
  List.filterMap_append

@[simp] theorem problems_nil : problems [] = [] := rfl

@[simp] theorem invalidDurations_nil : invalidDurations [] = [] := rfl

@[simp] theorem problems_fail {α : Type} (message : String) (a : α) :
    problems (fail path key message a).log = [⟨dotted path key, message⟩] := rfl

@[simp] theorem invalidDurations_fail {α : Type} (message : String) (a : α) :
    invalidDurations (fail path key message a).log = [] := rfl

@[simp] theorem problems_invalidDuration (name : String) :
    problems [.invalidDuration name] = [] := rfl

@[simp] theorem invalidDurations_invalidDuration (name : String) :
    invalidDurations [.invalidDuration name] = [name] := rfl

theorem integer_bounds {minimum maximum : Int}
    (h : problems (integer raw path key minimum maximum).log = []) :
    minimum ≤ (integer raw path key minimum maximum).value ∧
      (integer raw path key minimum maximum).value ≤ maximum := by
  unfold integer at h ⊢
  split
  case h_1 n hn =>
    rw [hn] at h
    dsimp only at h
    split_ifs at h ⊢ with h₁ h₂ <;> simp at h
    exact ⟨not_lt.1 h₁, not_lt.1 h₂⟩
  case h_2 hn =>
    split at h
    · exact (hn _ ‹_›).elim
    · simp at h

theorem duration_pos (h : problems (duration raw path key).log = []) :
    0 < (duration raw path key).value := by
  unfold duration at h ⊢
  split
  case h_1 s hs =>
    rw [hs] at h
    cases hp : parseDuration s with
    | none => simp [hp, duration.invalid] at h
    | some d =>
      simp only [hp] at h ⊢
      split_ifs at h ⊢ with hd
      · simp at h
      · exact not_le.1 hd
  case h_2 hs =>
    split at h
    · exact (hs _ ‹_›).elim
    · simp [duration.invalid] at h

/-- What a loaded file promises about the consumer. -/
structure RagConsumerConfig.Sound (c : RagConsumerConfig) : Prop where
  jobTimeout : 0 < c.jobTimeout
  watchdogGrace : 0 < c.watchdogGrace
  poisonThreshold : 1 ≤ c.poisonThreshold

theorem sound_of_load {config : Config} (h : load raw = .ok config) :
    config.rag.consumer.Sound := by
  unfold load at h
  split at h
  case h_1 c hb =>
    cases h
    obtain ⟨rfl, hp⟩ := Prod.mk.inj hb
    have hread := (List.append_eq_nil_iff.1 hp).1
    simp only [readAll, readConsumer, Logged.log_bind, problems_append,
      List.append_eq_nil_iff] at hread
    obtain ⟨-, -, -, -, ⟨hjob, hgrace, -, -, hpoison, -⟩, -⟩ := hread
    exact ⟨duration_pos hjob, duration_pos hgrace, (integer_bounds hpoison).1⟩
  case h_2 => cases h

end Loaded

end Settings.Python
