import Mathlib.Data.List.Infix
import RagPipeline.Settings.Reader
import RagPipeline.Settings.Validate

/-!
# The two validators agree

Twenty-two keys are validated by both services. What a file must say for them is stated once,
and each service reports a problem among them exactly when the file does not say it.

## Main definitions

* `sharedKeys`: the keys, each with the kind of value it takes.
* `SharedOk`: what both services want of them.
* `Assignment`: the files the comparison is about.

## Main results

* `Python.silent_build`, `Go.silent_problems`: either service is silent on the shared keys exactly
  on the files that are `SharedOk`.
-/
namespace Settings

inductive Kind where
  | text
  | integer (maximum : Int)
  | duration
  | extensions

structure SharedKey where
  path : List String
  name : String
  kind : Kind

def SharedKey.dotted (k : SharedKey) : String := Settings.dotted k.path k.name

def minioKeys : List SharedKey := [
  ⟨["minio"], "url", .text⟩, ⟨["minio"], "access_key", .text⟩, ⟨["minio"], "secret_key", .text⟩,
  ⟨["minio"], "ingestion_bucket", .text⟩]

def redisKeys : List SharedKey := [
  ⟨["redis"], "host", .text⟩, ⟨["redis"], "port", .integer 65535⟩, ⟨["redis"], "stream", .text⟩,
  ⟨["redis"], "stream_max_len", .integer (2 ^ 63 - 1)⟩, ⟨["redis"], "status_stream", .text⟩,
  ⟨["redis"], "status_consumer_group", .text⟩]

def ragGrpcKeys : List SharedKey := [⟨["rag_grpc"], "port", .integer 65535⟩]

def ragKeys : List SharedKey := [
  ⟨["rag"], "collection", .text⟩, ⟨["rag"], "embedding_model", .text⟩,
  ⟨["rag"], "call_timeout", .duration⟩]

def consumerKeys : List SharedKey := [
  ⟨["rag", "consumer"], "job_timeout", .duration⟩,
  ⟨["rag", "consumer"], "watchdog_grace", .duration⟩,
  ⟨["rag", "consumer"], "min_idle", .duration⟩,
  ⟨["rag", "consumer"], "recovery_interval", .duration⟩,
  ⟨["rag", "consumer"], "poison_threshold", .integer (2 ^ 63 - 1)⟩,
  ⟨["rag", "consumer"], "consumer_cleanup_idle", .duration⟩]

def ingestionKeys : List SharedKey := [
  ⟨["ingestion"], "max_attempts", .integer (2 ^ 63 - 1)⟩,
  ⟨["ingestion"], "allowed_extensions", .extensions⟩]

def sharedKeys : List SharedKey :=
  minioKeys ++ redisKeys ++ ragGrpcKeys ++ ragKeys ++ consumerKeys ++ ingestionKeys

def Kind.fits64 : Kind → Bool
  | integer maximum => maximum < 2 ^ 63
  | _ => true

theorem kinds_fit : sharedKeys.all (fun k => k.kind.fits64) = true := by decide

def sharedNames : List String := sharedKeys.map SharedKey.dotted

/-- What the file says for a key. -/
def SharedKey.value (raw : Table) (k : SharedKey) : Option Toml :=
  (Python.table raw k.path).get? k.name

/-- The file is about the shared keys: none of its keys is taken for one of them in another case,
and the keys next to them decode. -/
structure Assignment (raw : Table) : Prop where
  spelled : ∀ k ∈ sharedKeys, ∀ path ∈ k.path.inits, ∀ m ∈ Python.table raw path,
    ∀ tag ∈ k.path ++ [k.name], Go.foldCase m.1 = Go.foldCase tag → m.1 = tag
  rest : ∀ p ∈ (Go.decode raw).log, p.key ∈ sharedNames

/-! ### What both services want -/

def DurationAt (raw : Table) (path : List String) (name : String) (d : Int) : Prop :=
  ∃ s, (Python.table raw path).get? name = some (.str s) ∧ Python.parseDuration s = some d

/-- One extension such as `.pdf`. -/
def OneExtension (s : String) : Prop :=
  ∃ rest ≠ [], s.toList = '.' :: rest ∧ ∀ c ∈ rest, c ∉ ['.', '/', '\\', ' ', '\t']

theorem oneExtension_iff {s : String} : OneExtension s ↔ s.toList.head? = some '.' ∧
    2 ≤ s.toList.length ∧ ∀ c ∈ s.toList.drop 1, c ∉ ['.', '/', '\\', ' ', '\t'] := by
  unfold OneExtension
  rcases s.toList with _ | ⟨c, rest⟩
  · simp
  · constructor
    · rintro ⟨rest', hne, he, hc⟩
      cases he
      have := List.length_pos_iff.2 hne
      exact ⟨rfl, by simp only [List.length_cons]; omega, hc⟩
    · rintro ⟨hhead, hlen, hc⟩
      cases Option.some.inj hhead
      refine ⟨rest, ?_, rfl, hc⟩
      rintro rfl
      simp at hlen

def SharedKey.Ok (raw : Table) (k : SharedKey) : Prop :=
  match k.kind with
  | .text => ∃ s, k.value raw = some (.str s) ∧ s ≠ ""
  | .integer maximum => ∃ n, k.value raw = some (.int n) ∧ 1 ≤ n ∧ n ≤ maximum
  | .duration => ∃ d, DurationAt raw k.path k.name d ∧ 0 < d
  | .extensions => ∃ exts : List String, k.value raw = some (.arr (exts.map .str)) ∧ exts ≠ [] ∧
      ∀ e ∈ exts, OneExtension e

def TimingOk (raw : Table) : Prop :=
  ∀ jobTimeout watchdogGrace minIdle cleanupIdle,
    DurationAt raw ["rag", "consumer"] "job_timeout" jobTimeout →
    DurationAt raw ["rag", "consumer"] "watchdog_grace" watchdogGrace →
    DurationAt raw ["rag", "consumer"] "min_idle" minIdle →
    DurationAt raw ["rag", "consumer"] "consumer_cleanup_idle" cleanupIdle →
    jobTimeout + watchdogGrace < minIdle ∧ jobTimeout < cleanupIdle

structure SharedOk (raw : Table) : Prop where
  keys : ∀ k ∈ sharedKeys, k.Ok raw
  timing : TimingOk raw

theorem DurationAt.unique {raw : Table} {path : List String} {name : String} {d e : Int}
    (hd : DurationAt raw path name d) (he : DurationAt raw path name e) : d = e := by
  obtain ⟨s, hs, hd⟩ := hd
  obtain ⟨t, ht, he⟩ := he
  cases hs.symm.trans ht
  exact Option.some.inj (hd.symm.trans he)

theorem timingOk_iff {raw : Table} {jt wg mi cc : Int}
    (hjt : DurationAt raw ["rag", "consumer"] "job_timeout" jt)
    (hwg : DurationAt raw ["rag", "consumer"] "watchdog_grace" wg)
    (hmi : DurationAt raw ["rag", "consumer"] "min_idle" mi)
    (hcc : DurationAt raw ["rag", "consumer"] "consumer_cleanup_idle" cc) :
    TimingOk raw ↔ jt + wg < mi ∧ jt < cc := by
  refine ⟨fun ht => ht jt wg mi cc hjt hwg hmi hcc, ?_⟩
  rintro ht _ _ _ _ h₁ h₂ h₃ h₄
  cases hjt.unique h₁
  cases hwg.unique h₂
  cases hmi.unique h₃
  cases hcc.unique h₄
  exact ht

/-! ### Silence on the shared keys -/

def Silent (problems : List Problem) : Prop := ∀ p ∈ problems, p.key ∉ sharedNames

@[simp] theorem silent_nil : Silent [] := by simp [Silent]

@[simp] theorem silent_cons {p : Problem} {ps : List Problem} :
    Silent (p :: ps) ↔ p.key ∉ sharedNames ∧ Silent ps := by simp [Silent]

@[simp] theorem silent_append {ps qs : List Problem} :
    Silent (ps ++ qs) ↔ Silent ps ∧ Silent qs := by
  simp only [Silent, List.mem_append]
  grind

theorem silent_unless {c : Prop} [Decidable c] {p : Problem} :
    Silent (if c then [p] else []) ↔ (p.key ∈ sharedNames → ¬ c) := by
  split_ifs with h <;> simp [h]

/-! ### The rag service -/

namespace Python

variable {raw : Table} {path : List String} {key : String}

theorem silent_text : Silent (problems (text raw path key).log) ↔
    (dotted path key ∈ sharedNames →
      ∃ s, (table raw path).get? key = some (.str s) ∧ s ≠ "") := by
  unfold text
  split
  case h_1 s hs =>
    by_cases h : s = "" <;> simp [h, hs]
  case h_2 h =>
    have : ¬ ∃ s, (table raw path).get? key = some (.str s) ∧ s ≠ "" := fun ⟨s, hs, _⟩ => h s hs
    simp [this]

theorem silent_integer {minimum maximum : Int} :
    Silent (problems (integer raw path key minimum maximum).log) ↔
      (dotted path key ∈ sharedNames →
        ∃ n, (table raw path).get? key = some (.int n) ∧ minimum ≤ n ∧ n ≤ maximum) := by
  unfold integer
  split
  case h_1 n hn =>
    split_ifs with h₁ h₂
    · have : ¬ (minimum ≤ n ∧ n ≤ maximum) := by omega
      simp [hn, this]
    · have : ¬ (minimum ≤ n ∧ n ≤ maximum) := by omega
      simp [hn, this]
    · simp [hn, not_lt.1 h₁, not_lt.1 h₂]
  case h_2 h =>
    have : ¬ ∃ n, (table raw path).get? key = some (.int n) ∧ minimum ≤ n ∧ n ≤ maximum :=
      fun ⟨n, hn, _⟩ => h n hn
    simp [this]

theorem silent_duration : Silent (problems (duration raw path key).log) ↔
    (dotted path key ∈ sharedNames → ∃ d, DurationAt raw path key d ∧ 0 < d) := by
  unfold duration
  split
  case h_1 s hs =>
    cases hp : parseDuration s with
    | none =>
      have : ¬ ∃ d, DurationAt raw path key d ∧ 0 < d := by
        rintro ⟨d, ⟨t, ht, hd⟩, -⟩
        cases hs.symm.trans ht
        cases hp.symm.trans hd
      simp [duration.invalid, this]
    | some d =>
      have hat : DurationAt raw path key d := ⟨s, hs, hp⟩
      by_cases h : d ≤ 0
      · have : ¬ ∃ d, DurationAt raw path key d ∧ 0 < d := by
          rintro ⟨e, he, h₀⟩
          cases hat.unique he
          omega
        simp [h, this]
      · have : ∃ d, DurationAt raw path key d ∧ 0 < d := ⟨d, hat, by omega⟩
        simp [h, this]
  case h_2 h =>
    have : ¬ ∃ d, DurationAt raw path key d ∧ 0 < d := by
      rintro ⟨_, ⟨s, hs, _⟩, _⟩
      exact h s hs
    simp [duration.invalid, this]

theorem validExtension_eq_some {e : Toml} {s : String} :
    validExtension e = some s ↔ e = .str s ∧ OneExtension s := by
  unfold validExtension
  split
  case h_1 t =>
    have hforbidden : ∀ c, c ∈ extensionForbidden ↔ c ∈ ['.', '/', '\\', ' ', '\t'] := by
      simp [extensionForbidden]
    simp only [Toml.str.injEq, ite_eq_iff, reduceCtorEq, and_false, false_or, Option.some.injEq,
      not_or, not_not, not_lt, List.any_eq_true, decide_eq_true_eq, hforbidden, not_exists, not_and]
    constructor
    · rintro ⟨⟨hhead, hlen, hc⟩, rfl⟩
      exact ⟨rfl, oneExtension_iff.2 ⟨hhead, hlen, hc⟩⟩
    · rintro ⟨rfl, h⟩
      obtain ⟨hhead, hlen, hc⟩ := oneExtension_iff.1 h
      exact ⟨⟨hhead, hlen, hc⟩, rfl⟩
  case h_2 h =>
    simp only [reduceCtorEq, false_iff, not_and]
    exact fun he => absurd he (h s)

theorem silent_extensionsOf {elements : List Toml} :
    Silent (problems (extensionsOf path key elements).log) ↔
      (dotted path key ∈ sharedNames →
        ∃ exts : List String, elements = exts.map .str ∧ ∀ e ∈ exts, OneExtension e) := by
  induction elements with
  | nil => simp [extensionsOf]
  | cons ext rest ih =>
    rw [extensionsOf]
    cases hv : validExtension ext with
    | none =>
      have : ¬ ∃ exts : List String, ext :: rest = exts.map .str ∧ ∀ e ∈ exts, OneExtension e := by
        rintro ⟨exts, he, hok⟩
        obtain ⟨e, es, rfl, rfl, -⟩ := List.map_eq_cons_iff.1 he.symm
        rw [validExtension_eq_some.2 ⟨rfl, hok e (by simp)⟩] at hv
        cases hv
      simp [this, ih]
      grind
    | some s =>
      obtain ⟨rfl, hs⟩ := validExtension_eq_some.1 hv
      simp only [Logged.log_bind, Logged.log_pure, List.append_nil, ih]
      refine imp_congr_right fun _ => ⟨?_, ?_⟩
      · rintro ⟨exts, rfl, hok⟩
        exact ⟨s :: exts, rfl, by simpa using ⟨hs, hok⟩⟩
      · rintro ⟨exts, he, hok⟩
        obtain ⟨e, es, rfl, -, rfl⟩ := List.map_eq_cons_iff.1 he.symm
        exact ⟨es, rfl, fun x hx => hok x (List.mem_cons_of_mem _ hx)⟩

theorem silent_extensions : Silent (problems (extensions raw path key).log) ↔
    (dotted path key ∈ sharedNames →
      ∃ exts : List String, (table raw path).get? key = some (.arr (exts.map .str)) ∧ exts ≠ [] ∧
        ∀ e ∈ exts, OneExtension e) := by
  unfold extensions
  split
  case h_1 elements he =>
    split_ifs with h
    · simp [he, h]
    · rw [silent_extensionsOf, he]
      refine imp_congr_right fun _ => exists_congr fun exts => ?_
      simp only [Option.some.injEq, Toml.arr.injEq]
      refine ⟨fun ⟨hm, hok⟩ => ⟨hm, ?_, hok⟩, fun ⟨hm, _, hok⟩ => ⟨hm, hok⟩⟩
      rintro rfl
      exact h hm
  case h_2 h =>
    have : ¬ ∃ exts : List String, (table raw path).get? key = some (.arr (exts.map .str)) ∧
        exts ≠ [] ∧ ∀ e ∈ exts, OneExtension e := fun ⟨_, he, _⟩ => h _ he
    simp [this]

section NotShared

variable (h : dotted path key ∉ sharedNames)

include h

theorem silent_optionalText : Silent (problems (optionalText raw path key).log) := by
  unfold optionalText
  split <;> simp [h]

theorem silent_fraction : Silent (problems (fraction raw path key).log) := by
  unfold fraction fraction.outside
  split <;> (try split_ifs) <;> simp [h]

theorem silent_optionalFlag : Silent (problems (optionalFlag raw path key).log) := by
  unfold optionalFlag
  split <;> simp [h]

theorem silent_choice {allowed : List String} :
    Silent (problems (choice raw path key allowed).log) := by
  unfold choice choice.refused
  split <;> (try split_ifs) <;> simp [h]

end NotShared

theorem silent_readMinio :
    Silent (problems (readMinio raw).log) ↔ ∀ k ∈ minioKeys, k.Ok raw := by
  simp +decide [readMinio, silent_text, silent_optionalText, minioKeys, SharedKey.Ok,
    SharedKey.value]

theorem silent_readConsumer :
    Silent (problems (readConsumer raw).log) ↔ ∀ k ∈ consumerKeys, k.Ok raw := by
  simp +decide [readConsumer, silent_duration, silent_integer, silent_optionalFlag, consumerKeys,
    SharedKey.Ok, SharedKey.value, maxInt64]

theorem silent_readRag {consumer : RagConsumerConfig} :
    Silent (problems (readRag raw consumer).log) ↔ ∀ k ∈ ragKeys, k.Ok raw := by
  simp +decide [readRag, silent_text, silent_integer, silent_duration, silent_fraction,
    silent_choice, ragKeys, SharedKey.Ok, SharedKey.value]

theorem silent_readRagGrpc :
    Silent (problems (readRagGrpc raw).log) ↔ ∀ k ∈ ragGrpcKeys, k.Ok raw := by
  simp +decide [readRagGrpc, silent_integer, ragGrpcKeys, SharedKey.Ok, SharedKey.value, maxPort]

theorem silent_readRedis :
    Silent (problems (readRedis raw).log) ↔ ∀ k ∈ redisKeys, k.Ok raw := by
  simp +decide [readRedis, silent_text, silent_integer, redisKeys, SharedKey.Ok, SharedKey.value,
    maxPort, maxInt64]

theorem silent_readIngestion :
    Silent (problems (readIngestion raw).log) ↔ ∀ k ∈ ingestionKeys, k.Ok raw := by
  simp +decide [readIngestion, silent_integer, silent_extensions, ingestionKeys, SharedKey.Ok,
    SharedKey.value, maxInt64]

theorem silent_readAll : Silent (problems (readAll raw).log) ↔ ∀ k ∈ sharedKeys, k.Ok raw := by
  simp +decide only [readAll, Logged.log_bind, Logged.log_pure, problems_append, silent_append,
    problems_nil, silent_nil, silent_readMinio, silent_text, silent_readConsumer, silent_readRag,
    silent_readRagGrpc, silent_readRedis, silent_readIngestion, sharedKeys, List.forall_mem_append]
  tauto

/-! ### Timing -/

theorem duration_eq_pure {d : Int} (h : DurationAt raw path key d) (h₀ : 0 < d) :
    duration raw path key = pure d := by
  obtain ⟨s, hs, hd⟩ := h
  have : ¬ d ≤ 0 := by omega
  simp only [duration, hs, hd, this, if_false]

@[simp] theorem invalidDurations_text : invalidDurations (text raw path key).log = [] := by
  unfold text
  split <;> (try split_ifs) <;> simp

@[simp] theorem invalidDurations_optionalText :
    invalidDurations (optionalText raw path key).log = [] := by
  unfold optionalText
  split <;> simp

@[simp] theorem invalidDurations_integer {minimum maximum : Int} :
    invalidDurations (integer raw path key minimum maximum).log = [] := by
  unfold integer
  split <;> (try split_ifs) <;> simp

@[simp] theorem invalidDurations_fraction :
    invalidDurations (fraction raw path key).log = [] := by
  unfold fraction fraction.outside
  split <;> (try split_ifs) <;> simp

@[simp] theorem invalidDurations_optionalFlag :
    invalidDurations (optionalFlag raw path key).log = [] := by
  unfold optionalFlag
  split <;> simp

@[simp] theorem invalidDurations_choice {allowed : List String} :
    invalidDurations (choice raw path key allowed).log = [] := by
  unfold choice choice.refused
  split <;> (try split_ifs) <;> simp

@[simp] theorem invalidDurations_extensionsOf {elements : List Toml} :
    invalidDurations (extensionsOf path key elements).log = [] := by
  induction elements with
  | nil => rfl
  | cons ext rest ih =>
    rw [extensionsOf]
    cases validExtension ext <;> simp [ih]

@[simp] theorem invalidDurations_extensions :
    invalidDurations (extensions raw path key).log = [] := by
  unfold extensions
  split <;> (try split_ifs) <;> simp

/-- With the shared keys in order the timing rules are checked, on what the file says. -/
theorem silent_build_of_keys (h : ∀ k ∈ sharedKeys, k.Ok raw) :
    Silent (build raw).2 ↔ TimingOk raw := by
  have hduration (k : SharedKey) (hk : k ∈ sharedKeys) (hkind : k.kind = .duration) :
      ∃ d, DurationAt raw k.path k.name d ∧ duration raw k.path k.name = pure d := by
    have := h k hk
    simp only [SharedKey.Ok, hkind] at this
    obtain ⟨d, hd, h₀⟩ := this
    exact ⟨d, hd, duration_eq_pure hd h₀⟩
  obtain ⟨jt, hjt, ejt⟩ := hduration ⟨["rag", "consumer"], "job_timeout", .duration⟩
    (by simp [sharedKeys, consumerKeys]) rfl
  obtain ⟨wg, hwg, ewg⟩ := hduration ⟨["rag", "consumer"], "watchdog_grace", .duration⟩
    (by simp [sharedKeys, consumerKeys]) rfl
  obtain ⟨mi, hmi, emi⟩ := hduration ⟨["rag", "consumer"], "min_idle", .duration⟩
    (by simp [sharedKeys, consumerKeys]) rfl
  obtain ⟨ri, -, eri⟩ := hduration ⟨["rag", "consumer"], "recovery_interval", .duration⟩
    (by simp [sharedKeys, consumerKeys]) rfl
  obtain ⟨cc, hcc, ecc⟩ := hduration ⟨["rag", "consumer"], "consumer_cleanup_idle", .duration⟩
    (by simp [sharedKeys, consumerKeys]) rfl
  obtain ⟨ct, -, ect⟩ := hduration ⟨["rag"], "call_timeout", .duration⟩
    (by simp [sharedKeys, ragKeys]) rfl
  dsimp only at ejt ewg emi eri ecc ect
  have hinvalid : invalidDurations (readAll raw).log = [] := by
    simp [readAll, readMinio, readConsumer, readRag, readRagGrpc, readRedis, readIngestion,
      ejt, ewg, emi, eri, ecc, ect]
  have hconsumer : (readAll raw).value.rag.consumer = (readConsumer raw).value := by
    simp [readAll, readRag]
  have htiming := timingOk_iff hjt hwg hmi hcc
  have hkeys := silent_readAll.2 h
  have hrun : (timingKeys.any fun k => k ∈ ([] : List String)) = false := by decide
  simp only [build, hinvalid, hconsumer, silent_append, hkeys, true_and, hrun, htiming,
    Bool.false_eq_true, if_false]
  simp +decide only [checkTiming, readConsumer, Logged.value_bind, Logged.value_pure, ejt, ewg, emi,
    ecc, silent_append, silent_unless, true_imp_iff, not_le, ge_iff_le]

theorem silent_build : Silent (build raw).2 ↔ SharedOk raw := by
  constructor
  · intro h
    have hkeys := silent_readAll.1 (silent_append.1 h).1
    exact ⟨hkeys, (silent_build_of_keys hkeys).1 h⟩
  · intro h
    exact (silent_build_of_keys h.keys).2 h.timing

end Python

/-! ### The center -/

namespace Go

variable {raw : Table} {path : List String} {tag : String}

/-- Bytes and characters agree on what is longer than the dot. -/
theorem two_le_byteLength {s : String} (h : s.toList.head? = some '.') :
    2 ≤ byteLength s ↔ 2 ≤ s.toList.length := by
  unfold byteLength
  generalize s.toList = chars at h ⊢
  rcases chars with _ | ⟨c, _ | ⟨d, rest⟩⟩
  · simp at h
  · cases Option.some.inj h
    simp +decide
  · have hc := c.utf8Size_pos
    have hd := d.utf8Size_pos
    simp only [List.map_cons, List.sum_cons, List.length_cons]
    omega

theorem validExtension_iff {s : String} : validExtension s ↔ OneExtension s := by
  simp only [validExtension, oneExtension_iff, decide_eq_true_eq, List.any_eq_true, not_exists,
    not_and]
  constructor
  · rintro ⟨hhead, hlen, hc⟩
    exact ⟨hhead, (two_le_byteLength hhead).1 hlen, hc⟩
  · rintro ⟨hhead, hlen, hc⟩
    exact ⟨hhead, (two_le_byteLength hhead).2 hlen, hc⟩

theorem stringsOf_map (exts : List String) : stringsOf path tag (exts.map .str) = pure exts := by
  induction exts with
  | nil => rfl
  | cons s rest ih => simp only [List.map_cons, stringsOf, ih]; rfl

theorem eq_map_of_stringsOf {elements : List Toml} (h : (stringsOf path tag elements).log = []) :
    elements = (stringsOf path tag elements).value.map .str := by
  fun_induction stringsOf path tag elements with
  | case1 => rfl
  | case2 s rest ih => simpa using ih (by simpa using h)
  | case3 => simp [mistyped, refuse] at h

section Spelled

variable (ha : Assignment raw)

include ha

/-- Go finds under a shared tag what the file says for it. -/
theorem field_eq {k : SharedKey} (hk : k ∈ sharedKeys) (hpath : path <+: k.path)
    (htag : tag ∈ k.path ++ [k.name]) :
    field (Python.table raw path) tag = (Python.table raw path).get? tag := by
  unfold field
  cases h : (Python.table raw path).get? tag with
  | some v => rfl
  | none =>
    have hnone : (Python.table raw path).find? (fun m => foldCase m.1 = foldCase tag) = none := by
      rw [List.find?_eq_none]
      intro m hm hfold
      have hspelled := ha.spelled k hk path ((List.mem_inits _ _).2 hpath) m hm tag htag
        (by simpa using hfold)
      have := List.find?_eq_none.1 (Option.map_eq_none_iff.1 h) m hm
      exact this (by simpa using hspelled)
    rw [hnone]
    rfl

theorem tableAt_eq {k : SharedKey} (hk : k ∈ sharedKeys) (hpath : path <+: k.path) :
    tableAt raw path = Python.table raw path := by
  induction path using List.reverseRecOn with
  | nil => rfl
  | append_singleton parts part ih =>
    have hparts : parts <+: k.path := (List.prefix_append parts [part]).trans hpath
    have hfront := ih hparts
    have hfield := @field_eq raw parts part ha k hk hparts
      (List.mem_append_left _ (hpath.subset (by simp)))
    unfold tableAt Python.table at hfront hfield ⊢
    rw [List.foldl_append, List.foldl_append]
    change members (field (members _) part) = members (Table.get? (members _) part)
    rw [hfront, hfield]

theorem field_shared {k : SharedKey} (hk : k ∈ sharedKeys) :
    field (tableAt raw k.path) k.name = k.value raw := by
  rw [tableAt_eq ha hk (List.prefix_refl _), field_eq ha hk (List.prefix_refl _) (by simp)]
  rfl

theorem string_iff {k : SharedKey} (hk : k ∈ sharedKeys) (hkind : k.kind = .text) :
    k.Ok raw ↔ (string raw k.path k.name).log = [] ∧ (string raw k.path k.name).value ≠ "" := by
  simp only [SharedKey.Ok, hkind, string, field_shared ha hk]
  rcases k.value raw with _ | _ | _ | _ | _ | _ | _ | _ <;> simp [mistyped, refuse]

theorem int64_iff {k : SharedKey} {maximum : Int} (hk : k ∈ sharedKeys)
    (hkind : k.kind = .integer maximum) (hmax : maximum < 2 ^ 63) :
    k.Ok raw ↔ (int64 raw k.path k.name).log = [] ∧ 1 ≤ (int64 raw k.path k.name).value ∧
      (int64 raw k.path k.name).value ≤ maximum := by
  simp only [SharedKey.Ok, hkind, int64, field_shared ha hk]
  rcases k.value raw with _ | _ | n | _ | _ | _ | _ | _ <;> try simp [mistyped, refuse]
  split_ifs with h
  · simp
  · have : ¬ (1 ≤ n ∧ n ≤ maximum) := by omega
    simp [this]

theorem duration_iff {k : SharedKey} (hk : k ∈ sharedKeys) (hkind : k.kind = .duration) :
    k.Ok raw ↔ (duration raw k.path k.name).log = [] ∧ 0 < (duration raw k.path k.name).value := by
  simp only [SharedKey.Ok, hkind, duration, DurationAt, field_shared ha hk]
  change (∃ d, (∃ s, k.value raw = some (.str s) ∧ Python.parseDuration s = some d) ∧ 0 < d) ↔ _
  rcases k.value raw with _ | s | _ | _ | _ | _ | _ | _ <;>
    try simp [duration.invalid, refuse]
  rw [unmarshalText_eq]
  cases Python.parseDuration s with
  | none => simp
  | some d => simp

/-- A duration in nanoseconds. -/
theorem duration_value {k : SharedKey} {d : Int} (hk : k ∈ sharedKeys)
    (hd : DurationAt raw k.path k.name d) :
    (duration raw k.path k.name).value = d * 1000 := by
  obtain ⟨s, hs, hd⟩ := hd
  have hfield := (field_shared ha hk).trans hs
  simp [duration, hfield, unmarshalText_eq, hd]

theorem strings_iff {k : SharedKey} (hk : k ∈ sharedKeys) (hkind : k.kind = .extensions) :
    k.Ok raw ↔ (strings raw k.path k.name).log = [] ∧ (strings raw k.path k.name).value ≠ [] ∧
      ∀ e ∈ (strings raw k.path k.name).value, validExtension e := by
  simp only [SharedKey.Ok, hkind, strings, field_shared ha hk]
  rcases k.value raw with _ | _ | _ | _ | _ | _ | elements | _ <;> try simp [mistyped, refuse]
  constructor
  · rintro ⟨exts, rfl, hne, hok⟩
    simp only [stringsOf_map, Logged.log_pure, Logged.value_pure, validExtension_iff]
    exact ⟨trivial, hne, hok⟩
  · rintro ⟨hlog, hne, hok⟩
    exact ⟨_, eq_map_of_stringsOf hlog, hne, fun e he => validExtension_iff.1 (hok e he)⟩

/-- A key decodes, and to a value `Validate` lets pass. -/
def Accepts (raw : Table) (k : SharedKey) : Prop :=
  match k.kind with
  | .text => (string raw k.path k.name).log = [] ∧ (string raw k.path k.name).value ≠ ""
  | .integer maximum => (int64 raw k.path k.name).log = [] ∧
      1 ≤ (int64 raw k.path k.name).value ∧ (int64 raw k.path k.name).value ≤ maximum
  | .duration => (duration raw k.path k.name).log = [] ∧ 0 < (duration raw k.path k.name).value
  | .extensions => (strings raw k.path k.name).log = [] ∧ (strings raw k.path k.name).value ≠ [] ∧
      ∀ e ∈ (strings raw k.path k.name).value, validExtension e

theorem ok_iff_accepts {k : SharedKey} (hk : k ∈ sharedKeys) : k.Ok raw ↔ Accepts raw k := by
  cases hkind : k.kind with
  | text => simpa only [Accepts, hkind] using string_iff ha hk hkind
  | integer maximum =>
    have hmax := List.all_eq_true.1 kinds_fit k hk
    rw [hkind] at hmax
    exact (by simpa only [Accepts, hkind] using int64_iff ha hk hkind (of_decide_eq_true hmax))
  | duration => simpa only [Accepts, hkind] using duration_iff ha hk hkind
  | extensions => simpa only [Accepts, hkind] using strings_iff ha hk hkind

end Spelled

theorem int64_value_le : (int64 raw path tag).value ≤ 2 ^ 63 - 1 := by
  unfold int64 mistyped refuse
  split <;> (try split_ifs) <;> (simp; try omega)

/-- A decoder that logs its problem at its own key. -/
theorem silent_own {α : Type} {d : Decoding α} (h : ∀ p ∈ d.log, p.key = dotted path tag) :
    Silent d.log ↔ (dotted path tag ∈ sharedNames → d.log = []) := by
  constructor
  · intro hs hk
    rw [List.eq_nil_iff_forall_not_mem]
    intro p hp
    exact hs p hp (h p hp ▸ hk)
  · intro hn p hp hk
    rw [h p hp] at hk
    rw [hn hk] at hp
    cases hp

theorem silent_string : Silent (string raw path tag).log ↔
    (dotted path tag ∈ sharedNames → (string raw path tag).log = []) := by
  refine silent_own ?_
  unfold string mistyped refuse
  split <;> simp

theorem silent_int64 : Silent (int64 raw path tag).log ↔
    (dotted path tag ∈ sharedNames → (int64 raw path tag).log = []) := by
  refine silent_own ?_
  unfold int64 mistyped refuse
  split <;> (try split_ifs) <;> simp

theorem silent_float : Silent (float raw path tag).log ↔
    (dotted path tag ∈ sharedNames → (float raw path tag).log = []) := by
  refine silent_own ?_
  unfold float mistyped refuse
  split <;> (try split_ifs) <;> simp

theorem silent_boolean : Silent (boolean raw path tag).log ↔
    (dotted path tag ∈ sharedNames → (boolean raw path tag).log = []) := by
  refine silent_own ?_
  unfold boolean mistyped refuse
  split <;> simp

theorem silent_duration : Silent (duration raw path tag).log ↔
    (dotted path tag ∈ sharedNames → (duration raw path tag).log = []) := by
  refine silent_own ?_
  unfold duration duration.invalid refuse
  split <;> (try split) <;> simp

theorem silent_stringsOf {elements : List Toml} :
    ∀ p ∈ (stringsOf path tag elements).log, p.key = dotted path tag := by
  fun_induction stringsOf path tag elements with
  | case1 => simp
  | case2 s rest ih => simpa using ih
  | case3 => simp [mistyped, refuse]

theorem silent_strings : Silent (strings raw path tag).log ↔
    (dotted path tag ∈ sharedNames → (strings raw path tag).log = []) := by
  refine silent_own ?_
  unfold strings
  split
  · simp
  · exact silent_stringsOf
  · simp [mistyped, refuse]

theorem silent_expectTable : Silent (expectTable raw path tag).log ↔
    (dotted path tag ∈ sharedNames → (expectTable raw path tag).log = []) := by
  refine silent_own ?_
  unfold expectTable mistyped refuse
  split <;> simp

theorem silent_check {key message : String} {ok : Bool} :
    Silent (check key message ok) ↔ (key ∈ sharedNames → ok) := by
  cases ok <;> simp [check]

theorem silent_checkText {f : String × String} :
    Silent (checkText f) ↔ (f.1 ∈ sharedNames → f.2 ≠ "") := by
  simp [checkText, silent_check]

theorem silent_checkPort {key : String} {port : Int} :
    Silent (checkPort key port) ↔ (key ∈ sharedNames → 1 ≤ port ∧ port ≤ maxPort) := by
  simp [checkPort, silent_check]

theorem silent_checkPositive {f : String × Int} :
    Silent (checkPositive f) ↔ (f.1 ∈ sharedNames → 0 < f.2) := by
  simp [checkPositive, silent_check]

theorem silent_checkAtLeastOne {key : String} {n : Int} :
    Silent (checkAtLeastOne key n) ↔ (key ∈ sharedNames → 1 ≤ n) := by
  simp [checkAtLeastOne, silent_check]

/-! What is checked of each struct, together with how it decodes -/

theorem accepts_minio : (∀ k ∈ minioKeys, Accepts raw k) ↔ Silent (decodeMinio raw).log ∧
    Silent ([("minio.url", (decodeMinio raw).value.url),
      ("minio.access_key", (decodeMinio raw).value.accessKey),
      ("minio.secret_key", (decodeMinio raw).value.secretKey),
      ("minio.upload_bucket", (decodeMinio raw).value.uploadBucket),
      ("minio.ingestion_bucket", (decodeMinio raw).value.ingestionBucket)].flatMap checkText) := by
  simp +decide [decodeMinio, silent_expectTable, silent_string, silent_checkText]
  simp [minioKeys, Accepts]
  tauto

theorem accepts_ragGrpc : (∀ k ∈ ragGrpcKeys, Accepts raw k) ↔ Silent (decodeRAGGRPC raw).log ∧
    Silent (checkPort "rag_grpc.port" (decodeRAGGRPC raw).value.port) := by
  simp +decide [decodeRAGGRPC, silent_expectTable, silent_int64, silent_checkPort]
  simp [ragGrpcKeys, Accepts, maxPort]

theorem accepts_redis : (∀ k ∈ redisKeys, Accepts raw k) ↔ Silent (decodeRedis raw).log ∧
    Silent ([("redis.host", (decodeRedis raw).value.host),
      ("redis.stream", (decodeRedis raw).value.stream),
      ("redis.status_stream", (decodeRedis raw).value.statusStream),
      ("redis.status_consumer_group", (decodeRedis raw).value.statusConsumerGroup)].flatMap
        checkText) ∧
    Silent (checkPort "redis.port" (decodeRedis raw).value.port) ∧
    Silent (checkPositive ("redis.stream_max_len", (decodeRedis raw).value.streamMaxLen)) := by
  have hle : (int64 raw ["redis"] "stream_max_len").value ≤ 2 ^ 63 - 1 := int64_value_le
  simp +decide [decodeRedis, silent_expectTable, silent_string, silent_int64, silent_checkText,
    silent_checkPort, silent_checkPositive]
  simp [redisKeys, Accepts, maxPort] at hle ⊢
  tauto

/-- The checks of the timing rules alone. -/
def timingProblems (rc : RAGConsumerConfig) : List Problem :=
  check "rag.consumer.min_idle" "must exceed job_timeout + watchdog_grace"
    (addDuration rc.jobTimeout rc.watchdogGrace < rc.minIdle) ++
  check "rag.consumer.consumer_cleanup_idle" "must exceed job_timeout"
    (rc.jobTimeout < rc.consumerCleanupIdle)

theorem accepts_consumer : (∀ k ∈ consumerKeys, Accepts raw k) ∧
    Silent (timingProblems (decodeRAGConsumer raw).value) ↔
      Silent (decodeRAGConsumer raw).log ∧
        Silent (checkConsumer (decodeRAGConsumer raw).value) := by
  have hle : (int64 raw ["rag", "consumer"] "poison_threshold").value ≤ 2 ^ 63 - 1 :=
    int64_value_le
  unfold timingProblems checkConsumer
  generalize hv : (decodeRAGConsumer raw).value = rc
  simp +decide [decodeRAGConsumer] at hv
  subst hv
  simp +decide [decodeRAGConsumer, silent_expectTable, silent_duration, silent_int64,
    silent_boolean, silent_checkAtLeastOne, silent_checkPositive, silent_check]
  simp [consumerKeys, Accepts] at hle ⊢
  tauto

theorem accepts_rag : (∀ k ∈ ragKeys, Accepts raw k) ∧ Silent (decodeRAGConsumer raw).log ↔
    Silent (decodeRAG raw).log ∧
      Silent (checkText ("rag.collection", (decodeRAG raw).value.collection)) ∧
      Silent (checkText ("rag.embedding_model", (decodeRAG raw).value.embeddingModel)) ∧
      Silent (checkPositive ("rag.call_timeout", (decodeRAG raw).value.callTimeout)) := by
  simp +decide [decodeRAG, silent_expectTable, silent_string, silent_int64, silent_duration,
    silent_float, silent_checkText, silent_checkPositive]
  simp [ragKeys, Accepts]
  tauto

theorem silent_flatMap {α : Type} {as : List α} {f : α → List Problem} :
    Silent (as.flatMap f) ↔ ∀ a ∈ as, Silent (f a) := by
  simp only [Silent, List.mem_flatMap]
  grind

theorem accepts_ingestion : (∀ k ∈ ingestionKeys, Accepts raw k) ↔
    Silent (decodeIngestion raw).log ∧
    Silent (checkAtLeastOne "ingestion.max_attempts" (decodeIngestion raw).value.maxAttempts) ∧
    Silent (check "ingestion.allowed_extensions" "must not be empty"
      (0 < (decodeIngestion raw).value.allowedExtensions.length)) ∧
    Silent ((decodeIngestion raw).value.allowedExtensions.flatMap checkExtension) := by
  have hle : (int64 raw ["ingestion"] "max_attempts").value ≤ 2 ^ 63 - 1 := int64_value_le
  simp +decide [decodeIngestion, silent_expectTable, silent_int64, silent_strings,
    silent_checkAtLeastOne, silent_check, silent_flatMap, checkExtension]
  simp [ingestionKeys, Accepts, List.length_pos_iff] at hle ⊢
  tauto

theorem silent_worker {table : String} {w : WorkerConfig}
    (ht : table = "go.hashing" ∨ table = "go.outbox") : Silent (validateWorker table w) := by
  rcases ht with rfl | rfl <;>
    simp +decide [validateWorker, silent_checkPositive, silent_checkAtLeastOne, silent_check]

/-- The checks of `Validate` that concern shared keys. -/
theorem silent_validate {c : Config} : Silent (validate c) ↔
    Silent ([("minio.url", c.minio.url), ("minio.access_key", c.minio.accessKey),
      ("minio.secret_key", c.minio.secretKey), ("minio.upload_bucket", c.minio.uploadBucket),
      ("minio.ingestion_bucket", c.minio.ingestionBucket)].flatMap checkText) ∧
    (Silent ([("redis.host", c.redis.host), ("redis.stream", c.redis.stream),
      ("redis.status_stream", c.redis.statusStream),
      ("redis.status_consumer_group", c.redis.statusConsumerGroup)].flatMap checkText) ∧
    Silent (checkPort "redis.port" c.redis.port) ∧
    Silent (checkPositive ("redis.stream_max_len", c.redis.streamMaxLen))) ∧
    Silent (checkPort "rag_grpc.port" c.ragGRPC.port) ∧
    (Silent (checkText ("rag.collection", c.rag.collection)) ∧
    Silent (checkText ("rag.embedding_model", c.rag.embeddingModel)) ∧
    Silent (checkPositive ("rag.call_timeout", c.rag.callTimeout))) ∧
    Silent (checkConsumer c.rag.consumer) ∧
    Silent (checkAtLeastOne "ingestion.max_attempts" c.ingestion.maxAttempts) ∧
    Silent (check "ingestion.allowed_extensions" "must not be empty"
      (0 < c.ingestion.allowedExtensions.length)) ∧
    Silent (c.ingestion.allowedExtensions.flatMap checkExtension) := by
  have hstatus : Silent (checkStatusConsumer c.go.statusConsumer) := by
    simp +decide [checkStatusConsumer, silent_checkPositive, silent_checkAtLeastOne]
  have hhashing := silent_worker (w := c.go.hashing) (.inl rfl)
  have houtbox := silent_worker (w := c.go.outbox.toWorkerConfig) (.inr rfl)
  have hdir : Silent (checkText ("go.sqlite_dir", c.go.sqliteDir)) := by
    simp +decide [silent_checkText]
  have hport : Silent (checkPort "go.port" c.go.port) := by
    simp +decide [silent_checkPort]
  have hversion :
      Silent (checkAtLeastOne "go.outbox.schema_version" c.go.outbox.schemaVersion) := by
    simp +decide [silent_checkAtLeastOne]
  unfold validate
  simp only [silent_append, hstatus, hhashing, houtbox]
  simp only [List.flatMap_cons, List.flatMap_nil, silent_append, silent_nil, hdir, hport, hversion,
    and_true]
  tauto

theorem silent_decodeGo : Silent (decodeGo raw).log := by
  simp +decide [decodeGo, decodeStatusConsumer, decodeWorker, silent_expectTable, silent_int64,
    silent_string, silent_duration]

/-- Everything about the shared keys in both stages, the timing rules apart. -/
theorem accepts_all : (∀ k ∈ sharedKeys, Accepts raw k) ∧
    Silent (timingProblems (decodeRAGConsumer raw).value) ↔
      Silent (decode raw).log ∧ Silent (validate (decode raw).value) := by
  have hlog : Silent (decode raw).log ↔ Silent (decodeMinio raw).log ∧
      Silent (decodeRAGGRPC raw).log ∧ Silent (decodeRAG raw).log ∧
      Silent (decodeRedis raw).log ∧ Silent (decodeIngestion raw).log := by
    simp +decide [decode, silent_expectTable, silent_string, silent_decodeGo]
  have hminio : (decode raw).value.minio = (decodeMinio raw).value := rfl
  have hgrpc : (decode raw).value.ragGRPC = (decodeRAGGRPC raw).value := rfl
  have hrag : (decode raw).value.rag = (decodeRAG raw).value := rfl
  have hconsumer : (decodeRAG raw).value.consumer = (decodeRAGConsumer raw).value := rfl
  have hredis : (decode raw).value.redis = (decodeRedis raw).value := rfl
  have hingestion : (decode raw).value.ingestion = (decodeIngestion raw).value := rfl
  rw [hlog, silent_validate, hminio, hgrpc, hrag, hconsumer, hredis, hingestion]
  simp only [sharedKeys, List.forall_mem_append, accepts_minio, accepts_ragGrpc, accepts_redis,
    accepts_ingestion]
  have hc := @accepts_consumer raw
  have hr := @accepts_rag raw
  constructor
  · rintro ⟨⟨⟨⟨⟨⟨⟨hm, hm'⟩, hd, hd'⟩, hg, hg'⟩, hk⟩, hck⟩, hi, hi'⟩, ht⟩
    obtain ⟨hcl, hcc⟩ := hc.1 ⟨hck, ht⟩
    obtain ⟨hrl, hrc⟩ := hr.1 ⟨hk, hcl⟩
    exact ⟨⟨hm, hg, hrl, hd, hi⟩, hm', hd', hg', hrc, hcc, hi'⟩
  · rintro ⟨⟨hm, hg, hrl, hd, hi⟩, hm', hd', hg', hrc, hcc, hi'⟩
    obtain ⟨hk, hcl⟩ := hr.2 ⟨hrl, hrc⟩
    obtain ⟨hck, ht⟩ := hc.2 ⟨hcl, hcc⟩
    exact ⟨⟨⟨⟨⟨⟨⟨hm, hm'⟩, hd, hd'⟩, hg, hg'⟩, hk⟩, hck⟩, hi, hi'⟩, ht⟩

section Timing

variable (ha : Assignment raw)

include ha

/-- With the shared keys in order the center compares what the file says. -/
theorem silent_timing (h : ∀ k ∈ sharedKeys, k.Ok raw) :
    Silent (timingProblems (decodeRAGConsumer raw).value) ↔ TimingOk raw := by
  have hduration (k : SharedKey) (hk : k ∈ sharedKeys) (hkind : k.kind = .duration) :
      ∃ d s, DurationAt raw k.path k.name d ∧ (duration raw k.path k.name).value = d * 1000 ∧
        unmarshalText s = some (d * 1000) := by
    have hok := h k hk
    simp only [SharedKey.Ok, hkind] at hok
    obtain ⟨d, ⟨s, hs, hd⟩, -⟩ := hok
    exact ⟨d, s, ⟨s, hs, hd⟩, duration_value ha hk ⟨s, hs, hd⟩, by rw [unmarshalText_eq, hd]; rfl⟩
  obtain ⟨jt, js, hjt, ejt, hjs⟩ := hduration ⟨["rag", "consumer"], "job_timeout", .duration⟩
    (by simp [sharedKeys, consumerKeys]) rfl
  obtain ⟨wg, ws, hwg, ewg, hws⟩ := hduration ⟨["rag", "consumer"], "watchdog_grace", .duration⟩
    (by simp [sharedKeys, consumerKeys]) rfl
  obtain ⟨mi, -, hmi, emi, -⟩ := hduration ⟨["rag", "consumer"], "min_idle", .duration⟩
    (by simp [sharedKeys, consumerKeys]) rfl
  obtain ⟨cc, -, hcc, ecc, -⟩ :=
    hduration ⟨["rag", "consumer"], "consumer_cleanup_idle", .duration⟩
      (by simp [sharedKeys, consumerKeys]) rfl
  have htiming := timingOk_iff hjt hwg hmi hcc
  have hvalue : (decodeRAGConsumer raw).value.jobTimeout = jt * 1000 ∧
      (decodeRAGConsumer raw).value.watchdogGrace = wg * 1000 ∧
      (decodeRAGConsumer raw).value.minIdle = mi * 1000 ∧
      (decodeRAGConsumer raw).value.consumerCleanupIdle = cc * 1000 := ⟨ejt, ewg, emi, ecc⟩
  obtain ⟨vjt, vwg, vmi, vcc⟩ := hvalue
  rw [htiming, timingProblems, silent_append, vjt, vwg, vmi, vcc, addDuration_eq hjs hws,
    silent_check, silent_check]
  simp +decide only [true_imp_iff, decide_eq_true_eq]
  omega

theorem silent_problems : Silent (problems raw) ↔ SharedOk raw := by
  have hstages : Silent (problems raw) ↔
      Silent (decode raw).log ∧ Silent (validate (decode raw).value) := by
    unfold problems
    by_cases hlog : (decode raw).log = []
    · simp [hlog]
    · simp only [hlog, if_false]
      refine ⟨fun hs => ?_, fun hs => hs.1⟩
      -- a file that does not decode fails at a shared key
      obtain ⟨p, hp⟩ := List.exists_mem_of_ne_nil _ hlog
      exact absurd (ha.rest p hp) (hs p hp)
  have hkeys : (∀ k ∈ sharedKeys, Accepts raw k) ↔ ∀ k ∈ sharedKeys, k.Ok raw :=
    forall₂_congr fun k hk => (ok_iff_accepts ha hk).symm
  rw [hstages, ← accepts_all, hkeys]
  constructor
  · rintro ⟨hk, ht⟩
    exact ⟨hk, (silent_timing ha hk).1 ht⟩
  · rintro ⟨hk, ht⟩
    exact ⟨hk, (silent_timing ha hk).2 ht⟩

end Timing

end Go

/-- A problem among the shared keys. -/
def Reports (problems : List Problem) : Prop := ∃ p ∈ problems, p.key ∈ sharedNames

theorem reports_iff {problems : List Problem} : Reports problems ↔ ¬ Silent problems := by
  simp [Reports, Silent]

/-- The two services report a problem among the shared keys on the same files. They accept the
same durations with the same length, and the 64-bit sums of them are exact. -/
theorem validators_agree {raw : Table} (ha : Assignment raw) :
    (Reports (Go.problems raw) ↔ Reports (Python.build raw).2) ∧
    (∀ text, Go.unmarshalText text = (Python.parseDuration text).map (· * 1000)) ∧
    (∀ s t d e, Go.unmarshalText s = some d → Go.unmarshalText t = some e →
      0 ≤ d ∧ d + e < 2 ^ 63 ∧ Go.addDuration d e = d + e) := by
  refine ⟨?_, Go.unmarshalText_eq, ?_⟩
  · rw [reports_iff, reports_iff, Go.silent_problems ha, Python.silent_build]
  · intro s t d e hd he
    have hd' := Go.unmarshalText_range hd
    have he' := Go.unmarshalText_range he
    exact ⟨hd'.1, by omega, Go.addDuration_eq hd he⟩

theorem assignment_configToml : Assignment configToml :=
  ⟨by decide +kernel, by decide +kernel⟩

theorem validators_agree_configToml :
    Reports (Go.problems configToml) ↔ Reports (Python.build configToml).2 :=
  (validators_agree assignment_configToml).1

example : Go.problems configToml = [] ∧ (Python.build configToml).2 = [] := by decide +kernel

end Settings
