import RagPipeline.Interact.Program
import RagPipeline.Wire.Sha256
import Mathlib.Logic.Function.Basic

/-!
# The upload and the ingestion bucket

The object store calls the center makes, one atomic step each, and the keys of the ingestion
bucket.

## Main results

* `ingestionObjectKey_injective`: a key of the ingestion bucket belongs to one digest.
-/
namespace Center

open Interact Wire

abbrev Bytes := List UInt8

/-- `"ab/c9/abc9..."`. The slices take bytes, which for a digest are characters. -/
def ingestionObjectKey (sha256Hash : String) : String :=
  let cs := sha256Hash.toList
  String.ofList (cs.take 2 ++ '/' :: ((cs.drop 2).take 2 ++ '/' :: cs))

theorem ingestionObjectKey_injective : Function.Injective ingestionObjectKey := by
  intro a b h
  have h := String.ofList_injective h
  have hlen : a.toList.length = b.toList.length := by
    have := congrArg List.length h
    simp only [List.length_append, List.length_cons, List.length_take, List.length_drop] at this
    omega
  have htail := congrArg List.tail (List.append_inj h (by simp [hlen])).2
  exact String.toList_inj.1
    (List.cons.inj (List.append_inj htail (by simp [hlen])).2).2

theorem ingestionObjectKey_ne_empty (sha256Hash : String) : ingestionObjectKey sha256Hash ≠ "" := by
  intro h
  have hnil := congrArg String.toList h
  simp [ingestionObjectKey] at hnil

/-- What each bucket holds under a key. -/
structure Buckets where
  upload : String → Option Bytes
  ingestion : String → Option Bytes

inductive BlobCmd where
  | statUpload (key : String)
  | statIngestion (key : String)
  | getUpload (key : String)
  | copyToIngestion (source key : String)
  | removeUpload (key : String)

namespace BlobCmd

def Reply : BlobCmd → Type
  | statUpload _ | statIngestion _ => Bool
  | getUpload _ => Bytes
  | copyToIngestion .. | removeUpload _ => Unit

/-- What the store answers; `none` is an error, as for an object that is not there. -/
def result : (c : BlobCmd) → Buckets → Option c.Reply
  | statUpload key, s => some (s.upload key).isSome
  | statIngestion key, s => some (s.ingestion key).isSome
  | getUpload key, s => s.upload key
  | copyToIngestion source _, s => (s.upload source).map fun _ => ()
  | removeUpload _, _ => some ()

def effect : BlobCmd → Buckets → Buckets
  | copyToIngestion source key, s =>
    match s.upload source with
    | some data => { s with ingestion := Function.update s.ingestion key (some data) }
    | none => s
  | removeUpload key, s => { s with upload := Function.update s.upload key none }
  | _, s => s

def respond (c : BlobCmd) (fate : Fate) (s : Buckets) : Option c.Reply × Buckets :=
  (if fate = .ok then c.result s else none, if fate = .refused then s else c.effect s)

theorem respond_some {c : BlobCmd} {fate : Fate} {s : Buckets} {r : c.Reply}
    (h : (c.respond fate s).1 = some r) : fate = .ok ∧ c.result s = some r := by
  unfold respond at h
  split at h
  · exact ⟨‹_›, h⟩
  · cases h

/-- A copy writes what the source holds at that moment, under one key. -/
theorem ingestion_copy (source key : String) (fate : Fate) (s : Buckets) (k : String) :
    let s' := ((copyToIngestion source key).respond fate s).2
    s'.ingestion k = s.ingestion k ∨
      ∃ data, s.upload source = some data ∧ k = key ∧ s'.ingestion k = some data := by
  cases fate with
  | refused => exact .inl rfl
  | ok | lost =>
    simp only [respond, effect, reduceCtorEq, if_false]
    cases hdata : s.upload source with
    | none => exact .inl rfl
    | some data =>
      by_cases hk : k = key
      · exact .inr ⟨data, rfl, hk, by simp [hk]⟩
      · exact .inl (Function.update_of_ne hk _ _)

theorem upload_copy (source key : String) (fate : Fate) (s : Buckets) :
    ((copyToIngestion source key).respond fate s).2.upload = s.upload := by
  simp only [respond, effect]
  split
  · rfl
  · split <;> rfl

theorem upload_remove (key : String) (fate : Fate) (s : Buckets) (k : String) :
    let s' := ((removeUpload key).respond fate s).2
    s'.upload k = s.upload k ∨ fate ≠ .refused ∧ k = key ∧ s'.upload k = none := by
  cases fate with
  | refused => exact .inl rfl
  | ok | lost =>
    simp only [respond, effect, reduceCtorEq, if_false]
    by_cases hk : k = key
    · exact .inr ⟨nofun, hk, by simp [hk]⟩
    · exact .inl (Function.update_of_ne hk _ _)

theorem ingestion_remove (key : String) (fate : Fate) (s : Buckets) :
    ((removeUpload key).respond fate s).2.ingestion = s.ingestion := by
  simp only [respond, effect]
  split <;> rfl

end BlobCmd

end Center
