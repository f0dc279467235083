import ShaderKit.Defines.Fingerprint
import ShaderKit.Variation.Basic
import ShaderKit.Variation.Name

namespace ShaderKit

/-!
# Variation caches

A `VariationCache` keeps the variations of one stage of a shader, one for each canonical define
string. A variation is named by its place in the order of creation, which never changes.

The cache is searched by fingerprint first. Variations with the same fingerprint share a bucket and
are told apart by their define strings, so the outcome does not depend on the fingerprint in use.

* `find?`  — the variation for a canonical define string
* `obtain` — the same, made if it is missing
* `releaseAll` — forgets every program and every failure, and keeps the variations
-/

open Std (ExtTreeMap)

/-- The variations of one stage of a shader. -/
structure VariationCache where
  stage : Stage
  /-- The fingerprint by which the buckets are indexed. -/
  fingerprint : String → Fingerprint := Fingerprint.ofText
  /-- The variations in the order of their creation. -/
  variations : Array Variation := #[]
  /-- For each fingerprint the places of its variations, the oldest first. -/
  buckets : ExtTreeMap UInt64 (List Nat) := ∅

namespace VariationCache

/-- The number of variations. -/
def size (cache : VariationCache) : Nat := cache.variations.size

/-- The places of the variations with the fingerprint of a define string. -/
def bucket (cache : VariationCache) (defines : String) : List Nat :=
  cache.buckets.getD (cache.fingerprint defines).value []

/-- The place of the variation for a canonical define string. -/
def find? (cache : VariationCache) (defines : String) : Option Nat :=
  (cache.bucket defines).find? fun i => cache.variations[i]?.any (·.defines == defines)

/-- The variation of a shader for a canonical define string, not compiled yet. -/
def fresh (cache : VariationCache) (owner : ResourceId) (ownerName defines : String) : Variation where
  owner
  name := variationName ownerName defines
  stage := cache.stage
  defines

/-- Adds a variation at the end. -/
def push (cache : VariationCache) (v : Variation) : VariationCache :=
  { cache with
    variations := cache.variations.push v
    buckets := cache.buckets.insert (cache.fingerprint v.defines).value
      (cache.bucket v.defines ++ [cache.size]) }

/-- The place of the variation for a canonical define string, which is made if it is missing. -/
def obtain (cache : VariationCache) (owner : ResourceId) (ownerName defines : String) :
    VariationCache × Nat :=
  match cache.find? defines with
  | some i => (cache, i)
  | none => (cache.push (cache.fresh owner ownerName defines), cache.size)

/-- Replaces the variation at a place. -/
def replace (cache : VariationCache) (i : Nat) (v : Variation) : VariationCache :=
  { cache with variations := cache.variations.setIfInBounds i v }

/-- Forgets every program and every failure. -/
def releaseAll (cache : VariationCache) : VariationCache :=
  { cache with variations := cache.variations.map Variation.release }

/-- The places of all variations, sorted by their define strings. -/
def sorted (cache : VariationCache) : List Nat :=
  let keyed := cache.variations.toList.zipIdx
  (keyed.mergeSort fun a b => a.1.defines ≤ b.1.defines).map (·.2)

/-- Runs an action on the variation at a place, if there is one. -/
def onVariation {α : Type} (i : Nat) (act : Action Variation α) : Action VariationCache (Option α) :=
  act.focus? (·.variations[i]?) (·.replace i)

@[simp] theorem size_push (cache : VariationCache) (v : Variation) :
    (cache.push v).size = cache.size + 1 := by
  simp [push, size]

@[simp] theorem size_releaseAll (cache : VariationCache) : cache.releaseAll.size = cache.size := by
  simp [releaseAll, size]

@[simp] theorem size_replace (cache : VariationCache) (i : Nat) (v : Variation) :
    (cache.replace i v).size = cache.size := by
  simp [replace, size]

end VariationCache

end ShaderKit
