import Std.Data.ExtTreeMap

namespace ShaderKit

/-!
# Resource ids

A cache hands out numbered slots. A slot that becomes free is used again under another version. If that
is always a higher one, an id of a released resource never denotes another one.

* `ResourceId` — a slot with its version, or the one id of all standalone resources
* `IdSource`   — which ids are handed out next

The text of an id is `<slot>v<version>`.
-/

open Std (TransCmp LawfulEqCmp)

/-- The name of a resource among others. -/
inductive ResourceId where
  /-- A slot of a cache, with the version of its use. -/
  | slot (index version : Nat)
  /-- The id that all standalone resources share. -/
  | standalone
  deriving DecidableEq, Repr, Inhabited

namespace ResourceId

/-- The slots in order, each with its versions in order, and the standalone id last. -/
def sortKey : ResourceId → List Nat
  | slot index version => [0, index, version]
  | standalone => [1]

theorem sortKey_injective {a b : ResourceId} (h : a.sortKey = b.sortKey) : a = b := by
  cases a <;> cases b <;> simp_all [sortKey]

instance : Ord ResourceId where
  compare := compareOn sortKey

instance : TransCmp (compare : ResourceId → ResourceId → Ordering) :=
  inferInstanceAs (TransCmp (compareOn sortKey))

instance : LawfulEqCmp (compare : ResourceId → ResourceId → Ordering) where
  eq_of_compare h := sortKey_injective (LawfulEqCmp.eq_of_compare h)

/-- The written form of an id. -/
def text : ResourceId → String
  | slot index version => s!"{index}v{version}"
  | standalone => "null"

/-- The id as a value of its type. -/
def structured (id : ResourceId) : String := s!"ResourceId({id.text})"

end ResourceId

/-- Which ids are handed out next: those of the slots that became free, the latest first, then slots
    that were never used. -/
structure IdSource where
  vacant : List (Nat × Nat) := []
  fresh : Nat := 1
  /-- The version under which a slot is used after this one. -/
  renew : Nat → Nat := (· + 2)

namespace IdSource

/-- The next id. -/
def next (ids : IdSource) : ResourceId :=
  match ids.vacant with
  | (index, version) :: _ => .slot index version
  | [] => .slot ids.fresh 1

/-- Hands out the next id. -/
def take (ids : IdSource) : IdSource :=
  match ids.vacant with
  | _ :: vacant => { ids with vacant }
  | [] => { ids with fresh := ids.fresh + 1 }

/-- Takes an id back. Its slot comes next, under its next version. -/
def release (ids : IdSource) : ResourceId → IdSource
  | .slot index version => { ids with vacant := (index, ids.renew version) :: ids.vacant }
  | .standalone => ids

end IdSource

end ShaderKit
