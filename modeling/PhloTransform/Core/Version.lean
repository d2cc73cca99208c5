import Mathlib.Data.List.Sort
import PhloTransform.Core.Identity

/-!
# Content-addressed model versions

A version is a hash over component hashes: the canonical SQL, the semantic
configuration, the contract, the dependency versions, the source states, the
compiler semantics and the target slot.  The digest itself is a parameter.

Main definitions:

- Definition `modelVersion`: the version derived from its inputs.
-/

namespace PhloTransform.Core

/-- `sha256_hex`: the lower-case hex digest of a text. -/
class Sha256 where
  hex : String → String

/-- Bumped only when compiler or materialisation semantics could change
outputs. -/
def compilerSemanticsVersion : Nat := 3

/-- Component hashes that make up a model version. -/
structure ModelVersion where
  hash : String
  sqlHash : String
  configHash : String
  contractHash : String
  dependencyHash : String
  sourceStateHash : String
  compilerVersion : String
  targetHash : String
deriving Repr, DecidableEq, Inhabited

/-- Inputs used to derive a model version. -/
structure VersionInputs where
  canonicalSql : String
  config : String
  contract : String
  dependencies : List (String × String)
  sources : List (String × String)
  target : String
deriving Repr, DecidableEq

section Digest

variable [Sha256]

/-- The digest of the lines, each ended by a newline. -/
def hashLines (lines : List String) : String :=
  Sha256.hex (String.join (lines.map fun line => line ++ "\n"))

def sortDedup (pairs : List (String × String)) : List (String × String) :=
  ((pairs.map toLex).insertionSort (· ≤ ·)).destutter (· ≠ ·) |>.map ofLex

/-- `name=value`. -/
def equation (pair : String × String) : String :=
  pair.1 ++ "=" ++ pair.2

/-- Derive a model version from its inputs. -/
def modelVersion (inputs : VersionInputs) : ModelVersion :=
  let dependencyHash := hashLines ((sortDedup inputs.dependencies).map equation)
  let sourceStateHash := hashLines ((sortDedup inputs.sources).map equation)
  let sqlHash := Sha256.hex inputs.canonicalSql
  let configHash := Sha256.hex inputs.config
  let contractHash := Sha256.hex inputs.contract
  let targetHash := Sha256.hex inputs.target
  let compilerVersion := toString compilerSemanticsVersion
  let hash := hashLines ([("sql", sqlHash), ("config", configHash),
    ("contract", contractHash), ("dependencies", dependencyHash),
    ("sources", sourceStateHash), ("compiler", compilerVersion),
    ("target", targetHash)].map equation)
  { hash, sqlHash, configHash, contractHash, dependencyHash, sourceStateHash,
    compilerVersion, targetHash }

end Digest

end PhloTransform.Core
