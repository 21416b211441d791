import StagePlanner.Digest
import StagePlanner.Json

/-!
# Manifests

The record of where a saved plan comes from: digests of the plan and of its
source, and the version of the planner.
-/

namespace StagePlanner

/-- The version that manifests name. -/
def plannerVersion : String := "0.1.0"

/-- The record that accompanies a saved plan. -/
structure Manifest where
  /-- Tells this saved plan from all others. -/
  id : Option String
  planDigest : Digest
  /-- The digest of the document from which the plan was made. -/
  sourceDigest : Option Digest
  stages : Nat
  /-- The time of saving in milliseconds. -/
  createdAt : Nat
  deriving DecidableEq, Repr

/-- A digest as the list of its bytes. -/
def Digest.json (digest : Digest) : Json :=
  .list (fun byte : UInt8 => .natural byte.toNat) digest.bytes

/-- A manifest as JSON. -/
def Manifest.json (manifest : Manifest) : Json :=
  .object [("id", .optional .text manifest.id), ("plan_hash", manifest.planDigest.json),
    ("source_digest", .optional Digest.json manifest.sourceDigest),
    ("planner_version", .text plannerVersion), ("stages", .natural manifest.stages),
    ("created_ms", .natural manifest.createdAt)]

end StagePlanner
