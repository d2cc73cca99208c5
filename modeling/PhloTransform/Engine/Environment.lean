import PhloTransform.Engine.AuditEvidence
import PhloTransform.Core.Version

/-!
# Environment provisioning

A candidate environment is a Nessie branch and a catalog bound to it.  Provisioning
resolves the catalog, refuses one that another candidate claims, creates what is
missing, rolls the branch back where it gives up, and records the binding.

Main results:

- Theorem `ensureCandidate_eq_error`: a candidate is not ensured because it could not
  be set up or because its evidence could not be written.
-/

namespace PhloTransform.Engine

open Core (Sha256)
open Library (Program Table)
open Nessie

/-- A request to ensure an environment exists. -/
structure EnvironmentSpec where
  baseRef : String
  candidateRef : String
  nessieUri : Option String
  warehouse : Option String
  catalog : Option String
deriving Repr, DecidableEq

/-- A request to provision a warehouse catalog for a Nessie reference. -/
structure CatalogRequest where
  catalog : String
  reference : Option String
  nessieUri : Option String
  warehouse : Option String
deriving Repr, DecidableEq

/-- What environments ask of an adapter. -/
structure CatalogAdapter where
  name : String
  supportsCatalogProvisioning : Bool
  ensureCatalog : CatalogRequest → Except String CatalogStatus

/-! ## Generated names -/

/-- Lower-case letters and digits, everything else folded to single underscores. -/
def foldName (folded : List Char) (previousUnderscore : Bool) : List Char → List Char
  | [] => folded
  | c :: rest =>
    if c.isAlphanum then foldName (folded ++ [c.toLower]) false rest
    else if previousUnderscore then foldName folded true rest
    else foldName (folded ++ ['_']) true rest

/-- `trim_end_matches('_')`. -/
def trimUnderscores (name : List Char) : List Char :=
  (name.reverse.dropWhile (· = '_')).reverse

def fnv1a (value : String) : Nat :=
  (value.toList.flatMap String.utf8EncodeChar).foldl
    (fun hash byte => (hash ^^^ byte.toNat) * 0x01000193 % 2 ^ 32) 0x811c9dc5

/-- `{:08x}`. -/
def hex8 (n : Nat) : List Char :=
  (List.range 8).map fun i => Nat.digitChar (n / 16 ^ (7 - i) % 16)

/-- The environment artifact file of a candidate. -/
def environmentArtifactName (reference : String) : String :=
  String.ofList (trimUnderscores (foldName "environment_".toList true reference.toList) ++
    '_' :: hex8 (fnv1a reference)) ++ ".json"

/-- The conventional catalog name for a candidate environment. -/
def catalogName [Sha256] (reference : String) : String :=
  let readable := (trimUnderscores (foldName "phlo_".toList false reference.toList)).take 48
  String.ofList (trimUnderscores readable ++ '_' :: (Sha256.hex reference).toList.take 8)

/-! ## Recorded bindings -/

section Reading

variable [Rfc3339]

/-- The file evidence of a candidate: its own artifact, then the single slot. -/
def readEnvironmentFiles {ε : Type} (candidate : String) :
    Program World ε (Option EnvironmentSetup) := do
  let own ← World.readFile fun files =>
    files.environmentAt (environmentArtifactName candidate)
  match own.filter fun setup => setup.candidate.name = candidate with
  | some setup => pure (some setup)
  | none => do
      let slot ← World.readFile fun files => files.environmentAt "environment.json"
      pure (slot.filter fun setup => setup.candidate.name = candidate)

/-- The binding that a stored record speaks of. -/
def decodeEnvironment (record : EvidenceRecord) : Except EngineError EnvironmentSetup :=
  match record.payload with
  | .environment setup => .ok setup
  | _ => .error (.state "undecodable environment evidence")

/-- Import the binding that a file holds. -/
def importSetup (stateful : Bool) (setup : EnvironmentSetup) :
    Program World EngineError (Option String) :=
  if stateful then do
    let (evidenceId, now) ← World.draw
    (World.importEvidence (environmentRecord setup evidenceId now)).mapError .state
  else pure none

/-- The binding recorded for a candidate and the id of its record: the newest record
of the store, else the files, which are then imported. -/
def readEnvironmentEvidence (stateful : Bool) (candidate : String) :
    Program World EngineError (Option EnvironmentSetup × Option String) := do
  if stateful then
    let records ← (World.evidenceFor .environment candidate).mapError fun error =>
      .state ("cannot read the evidence store: " ++ error)
    match records.head? with
    | some record => do
        let setup ← Program.ofExcept (decodeEnvironment record)
        if setup.candidate.name = candidate then
          pure (some setup, some record.evidenceId)
        else
          Program.fail (.state ("environment evidence recorded for `" ++ candidate ++
            "` decodes to a binding for `" ++ setup.candidate.name ++ "`"))
    | none => do
        match ← readEnvironmentFiles candidate with
        | some setup => do
            let standing ← importSetup stateful setup
            pure (some setup, standing)
        | none => pure (none, none)
  else
    let setup ← readEnvironmentFiles candidate
    pure (setup, none)

/-- `read_environment_for`. -/
def readEnvironmentFor (stateful : Bool) (candidate : String) :
    Program World EngineError (Option EnvironmentSetup) := do
  let found ← readEnvironmentEvidence stateful candidate
  pure found.1

/-- A candidate's binding is among the setups. -/
def isKnown (setups : List EnvironmentSetup) (setup : EnvironmentSetup) : Bool :=
  setups.any fun seen => decide (seen.candidate.name = setup.candidate.name)

omit [Rfc3339] in
/-- The newest stored binding of each candidate. -/
def liveBindings : List EnvironmentSetup → List EvidenceRecord →
    Except EngineError (List EnvironmentSetup)
  | setups, [] => .ok setups
  | setups, record :: rest =>
    match decodeEnvironment record with
    | .error error => .error error
    | .ok setup =>
      if isKnown setups setup then liveBindings setups rest
      else liveBindings (setups ++ [setup]) rest

/-- Add the binding of a file, importing it, unless its candidate is known. -/
def admitFile (stateful : Bool) (setups : List EnvironmentSetup) (setup : EnvironmentSetup) :
    Program World EngineError (List EnvironmentSetup) :=
  if isKnown setups setup then pure setups
  else do
    let _ ← importSetup stateful setup
    pure (setups ++ [setup])

def scanFiles (stateful : Bool) : List EnvironmentSetup → List (String × EnvironmentSetup) →
    Program World EngineError (List EnvironmentSetup)
  | setups, [] => pure setups
  | setups, entry :: rest => do
      match ← World.readFile fun _ => some entry.2 with
      | none => scanFiles stateful setups rest
      | some setup => do
          let setups ← admitFile stateful setups setup
          scanFiles stateful setups rest

/-- The bindings of the store's latest records. -/
def storedBindings (stateful : Bool) : Program World EngineError (List EnvironmentSetup) :=
  if stateful then do
    let records ← (World.latestEvidence .environment).mapError fun error =>
      .state ("cannot read the evidence store: " ++ error)
    Program.ofExcept (liveBindings [] records)
  else pure []

def environmentArtifacts (stateful : Bool) :
    Program World EngineError (List EnvironmentSetup) := do
  let stored ← storedBindings stateful
  match ← World.readFile fun files => some files.environments.rows with
  | some entries => scanFiles stateful stored entries
  | none => pure stored

/-- The newest record of the candidate already says the same. -/
def isUnchanged (record : EvidenceRecord) (rows : List EvidenceRecord) : Bool :=
  rows.head?.any fun existing =>
    decide (existing.targetRef = record.targetRef ∧ existing.payload = record.payload)

/-- Persist the provisioning record: the store first, then the two files. -/
def writeEnvironmentArtifacts (stateful : Bool) (setup : EnvironmentSetup) :
    Program World String Unit := do
  if stateful then
    let (evidenceId, now) ← World.draw
    let record := environmentRecord setup evidenceId now
    let rows ← World.evidenceFor .environment record.subject
    if isUnchanged record rows then pure () else World.recordEvidence record
  World.writeFiles fun files => files.putEnvironment "environment.json" setup
  World.writeFiles fun files =>
    files.putEnvironment (environmentArtifactName setup.candidate.name) setup

/-- Delete an artifact file; a missing one is the goal state. -/
def removeArtifactFile (name : String) : Program World EngineError Unit :=
  (World.writeFiles fun files => files.removeEnvironment name).mapError fun error =>
    .artifact ("cannot remove " ++ name ++ ": " ++ error)

/-- Drop a candidate's provisioning evidence: the files first, then the records. -/
def removeEnvironmentArtifacts (stateful : Bool) (candidate : String) :
    Program World EngineError Unit := do
  removeArtifactFile (environmentArtifactName candidate)
  let slot ← World.readFile fun files => files.environmentAt "environment.json"
  if slot.any fun setup => setup.candidate.name = candidate then
    removeArtifactFile "environment.json"
  if stateful then
    (World.removeEvidence .environment candidate).mapError fun error =>
      .state ("cannot remove environment evidence: " ++ error)

end Reading

/-! ## Branches -/

namespace World

def nessie {α : Type} (operation : Program References NessieError α) :
    Program World EngineError α :=
  Program.mapError (fun error : NessieError => EngineError.environment error.message) do
    call.mapError .transport
    operation.zoom World.references fun references w => { w with references := references }

/-- `let _ = delete_branch`, when the call created the branch. -/
def rollback (createdBranch : Bool) (candidate : String) : Program World EngineError Unit :=
  if createdBranch then
    Program.modify fun w => { w with references :=
      (InMemoryNessie.deleteBranch candidate w.references).2 }
  else pure ()

end World

/-- The candidate's branch, and whether it was created by this call. -/
def candidateBranch (spec : EnvironmentSpec) (base : ReferenceInfo) :
    Program World EngineError (ReferenceInfo × Bool) := do
  if spec.candidateRef = spec.baseRef then
    pure (base, false)
  else
    match ← World.nessie (InMemoryNessie.getReference spec.candidateRef) with
    | some existing => pure (existing, false)
    | none => do
        let created ← World.nessie (InMemoryNessie.createBranch spec.candidateRef base)
        pure (created, true)

section Provisioning

variable [Sha256] [Rfc3339]
variable {stateful : Bool} {adapter : CatalogAdapter} {w w' : World}

omit [Rfc3339] in
/-- The request an environment makes for its catalog. -/
def catalogRequest (spec : EnvironmentSpec) : CatalogRequest where
  catalog := spec.catalog.getD (catalogName spec.candidateRef)
  reference := some spec.candidateRef
  nessieUri := spec.nessieUri
  warehouse := spec.warehouse

omit [Sha256] [Rfc3339] in
def requireBase (spec : EnvironmentSpec) : Program World EngineError ReferenceInfo := do
  match ← World.nessie (InMemoryNessie.getReference spec.baseRef) with
  | some base => pure base
  | none => Program.fail (.notFound ("base reference `" ++ spec.baseRef ++ "` was not found"))

section

omit [Rfc3339]

/-- Ensure the candidate branch and its catalog exist. -/
def ensureEnvironment (adapter : CatalogAdapter) (spec : EnvironmentSpec) :
    Program World EngineError EnvironmentSetup := do
  let base ← requireBase spec
  let (candidate, createdBranch) ← candidateBranch spec base
  match adapter.ensureCatalog (catalogRequest spec) with
  | .error _ => do
      World.rollback createdBranch spec.candidateRef
      Program.fail .adapter
  | .ok status =>
    if status = .unmanaged ∧ spec.nessieUri.isSome = true ∧ spec.catalog = none then do
      World.rollback createdBranch spec.candidateRef
      Program.fail (.notConfigured ("adapter `" ++ adapter.name ++
        "` cannot provision a catalog bound to Nessie ref `" ++ spec.candidateRef ++ "`"))
    else
      pure
        { base, candidate
          createdFrom := if createdBranch ∨ candidate.name = base.name then some base else none
          createdBranch
          catalog := (catalogRequest spec).catalog
          catalogStatus := status
          catalogOwnedByPhlo := none }

/-- An explicit override, then the recorded catalog, then the generated one. -/
def resolveCatalog (spec : EnvironmentSpec) (prior : Option EnvironmentSetup) : String :=
  (spec.catalog.or (prior.map EnvironmentSetup.catalog)).getD (catalogName spec.candidateRef)

/-- A record attests a binding, not merely intent. -/
def priorRecordsBinding (prior : EnvironmentSetup) (candidateRef : String) : Bool :=
  match prior.catalogStatus with
  | .created => true
  | .unverified => prior.catalogOwnedByPhlo.isSome
  | .unmanaged => decide (prior.catalog ≠ catalogName candidateRef)

/-- The resolved catalog is an explicit override or a recorded binding. -/
def catalogIsPinned (spec : EnvironmentSpec) (prior : Option EnvironmentSetup) : Bool :=
  spec.catalog.isSome || prior.any fun prior => priorRecordsBinding prior spec.candidateRef

/-- The spec handed to `ensure_environment`: a generated catalog stays unpinned. -/
def resolvedSpec (spec : EnvironmentSpec) (prior : Option EnvironmentSetup) : EnvironmentSpec :=
  { spec with catalog :=
      if catalogIsPinned spec prior then some (resolveCatalog spec prior) else none }

/-- The recorded binding vouches for a catalog that already existed. -/
def isRecorded (spec : EnvironmentSpec) (prior : Option EnvironmentSetup)
    (setup : EnvironmentSetup) : Bool :=
  prior.any fun prior => decide (prior.catalog = setup.catalog) &&
    priorRecordsBinding prior spec.candidateRef

end

omit [Sha256] [Rfc3339] in
/-- Ownership and provenance, decided from the status and the recorded binding. -/
def attributed (prior : Option EnvironmentSetup) (setup : EnvironmentSetup) :
    EnvironmentSetup :=
  { setup with
    catalogOwnedByPhlo := some <|
      match setup.catalogStatus with
      | .created => true
      | .unverified => prior.any fun prior =>
        decide (prior.catalog = setup.catalog) && prior.ownsCatalog
      | .unmanaged => false
    createdFrom := setup.createdFrom.or (prior.bind EnvironmentSetup.createdFrom) }

/-- Set the candidate up, short of recording it. -/
def candidateSetup (stateful : Bool) (adapter : CatalogAdapter) (spec : EnvironmentSpec) :
    Program World EngineError EnvironmentSetup := do
  let prior ← readEnvironmentFor stateful spec.candidateRef
  let catalog := resolveCatalog spec prior
  let claims ← environmentArtifacts stateful
  if claims.any fun other =>
      decide (other.catalog = catalog ∧ other.candidate.name ≠ spec.candidateRef) then
    Program.fail (.environment ("catalog `" ++ catalog ++
      "` is already claimed by another candidate — choose a different `--catalog` or " ++
      "remove the other candidate's artifacts"))
  else do
    let setup ← ensureEnvironment adapter (resolvedSpec spec prior)
    if setup.catalogStatus = .unverified ∧ isRecorded spec prior setup = false then do
      World.rollback setup.createdBranch spec.candidateRef
      Program.fail (.environment ("catalog `" ++ setup.catalog ++
        "` already exists but cannot be verified as bound to `" ++ spec.candidateRef ++
        "` — drop it or let phlo provision it once so the binding is recorded"))
    else pure (attributed prior setup)

/-- Ensure a candidate environment exists and persist the provisioning artifacts. -/
def ensureCandidate (stateful : Bool) (adapter : CatalogAdapter) (spec : EnvironmentSpec) :
    Program World EngineError EnvironmentSetup := do
  let setup ← candidateSetup stateful adapter spec
  (writeEnvironmentArtifacts stateful setup).mapError .artifact
  pure setup

/-! ## Resolving an environment label -/

/-- Whether resolution may provision. -/
inductive EnvironmentMode where
  | ensure
  | readOnly
deriving Repr, DecidableEq

/-- The handles environment resolution needs. -/
structure EnvironmentContext where
  nessie : Bool
  adapter : Option CatalogAdapter
  stateful : Bool
  nessieUri : Option String
  warehouse : Option String
  catalog : Option String

/-- What an environment resolves to; no catalog means the caller's own compilation. -/
structure EnvironmentTarget where
  catalog : Option String
  setup : Option EnvironmentSetup
deriving Repr, DecidableEq

omit [Sha256] [Rfc3339] in
def EnvironmentContext.spec (context : EnvironmentContext) (environment baseRef : String) :
    EnvironmentSpec where
  baseRef := baseRef
  candidateRef := environment
  nessieUri := context.nessieUri
  warehouse := context.warehouse
  catalog := context.catalog

/-- Resolve the physical target an environment label implies. -/
def EnvironmentContext.resolve (context : EnvironmentContext) (environment : Option String)
    (baseRef : String) (mode : EnvironmentMode) :
    Program World EngineError EnvironmentTarget :=
  match environment with
  | none => pure { catalog := none, setup := none }
  | some environment =>
    if environment = baseRef ∨ context.nessie = false then
      pure { catalog := none, setup := none }
    else
      match context.adapter, context.nessieUri with
      | some adapter, some _ =>
        let spec := context.spec environment baseRef
        match mode with
        | .ensure => do
            let setup ← ensureCandidate context.stateful adapter spec
            pure { catalog := some setup.catalog, setup := some setup }
        | .readOnly => do
            let prior ← readEnvironmentFor context.stateful environment
            if catalogIsPinned spec prior = false ∧
                adapter.supportsCatalogProvisioning = false then
              Program.fail (.notConfigured ("environment `" ++ environment ++
                "` resolves to generated catalog `" ++ catalogName environment ++
                "`, which adapter `" ++ adapter.name ++ "` cannot provision — a run " ++
                "would fail closed the same way; pin an existing catalog with `--catalog`"))
            else pure { catalog := some (resolveCatalog spec prior), setup := prior }
      | _, _ =>
        Program.fail (.notConfigured ("environment `" ++ environment ++
          "` claims a Nessie branch but its catalog cannot be provisioned — a " ++
          "catalog-facing Nessie URI (and an adapter) is required"))

/-! ## How ensuring ends -/

/-- A candidate is not ensured because it could not be set up or because its evidence
could not be written. -/
theorem ensureCandidate_eq_error {spec : EnvironmentSpec} {error : EngineError}
    (h : ensureCandidate stateful adapter spec w = (.error error, w')) :
    candidateSetup stateful adapter spec w = (.error error, w') ∨
      ∃ setup s message, candidateSetup stateful adapter spec w = (.ok setup, s) ∧
        writeEnvironmentArtifacts stateful setup s = (.error message, w') := by
  rcases Program.bind_eq_error.1 h with hsetup | ⟨setup, s, hsetup, hwrite⟩
  · exact Or.inl hsetup
  · rcases Program.bind_eq_error.1 hwrite with hwrite | ⟨_, _, _, hpure⟩
    · obtain ⟨message, hmessage, _⟩ := Program.mapError_eq_error.1 hwrite
      exact Or.inr ⟨setup, s, message, hsetup, hmessage⟩
    · cases congrArg Prod.fst hpure

theorem ensureCandidate_eq_ok {spec : EnvironmentSpec} {setup : EnvironmentSetup}
    (h : ensureCandidate stateful adapter spec w = (.ok setup, w')) :
    ∃ s, candidateSetup stateful adapter spec w = (.ok setup, s) ∧
      writeEnvironmentArtifacts stateful setup s = (.ok (), w') := by
  obtain ⟨found, s, hsetup, hwrite⟩ := Program.bind_eq_ok.1 h
  obtain ⟨_, s', hwrite, hpure⟩ := Program.bind_eq_ok.1 hwrite
  cases hpure
  exact ⟨s, hsetup, Program.mapError_eq_ok.1 hwrite⟩

end Provisioning

end PhloTransform.Engine
