import PhloTransform.Library.Program
import PhloTransform.Library.Table

/-!
# Nessie reference management

References (branches) name commits.  The client boundary is implemented by an
in-memory map, used offline and in tests, and by a REST client whose server is a
parameter.

Main results:

- Theorem `InMemoryNessie.merge_eq`: what a pinned merge of the in-memory client
  does.
- Theorem `InMemoryNessie.pins`, `NessieRestClient.pins`: both clients merge only onto
  the target the caller expects.
-/

namespace PhloTransform.Nessie

open Library (Program Table)

/-- A Nessie reference. -/
structure ReferenceInfo where
  name : String
  hash : String
  kind : String
deriving Repr, DecidableEq

def ReferenceInfo.branch (name hash : String) : ReferenceInfo where
  name := name
  hash := hash
  kind := "BRANCH"

structure Conflict where
  path : String
  message : String
deriving Repr, DecidableEq

/-- The outcome of a merge or merge check. -/
structure MergeOutcome where
  hash : Option String
  conflicts : List Conflict
deriving Repr, DecidableEq

namespace MergeOutcome

def isClean (outcome : MergeOutcome) : Bool :=
  outcome.conflicts.isEmpty

def clean (hash : String) : MergeOutcome where
  hash := some hash
  conflicts := []

def conflict (path message : String) : MergeOutcome where
  hash := none
  conflicts := [{ path, message }]

@[simp]
theorem isClean_clean (hash : String) : (clean hash).isClean = true :=
  rfl

@[simp]
theorem isClean_conflict (path message : String) : (conflict path message).isClean = false :=
  rfl

end MergeOutcome

/-- Nessie client failures. -/
inductive NessieError where
  | notFound (name : String)
  | alreadyExists (name : String)
  | transport (message : String)
  | remote (message : String)
deriving Repr, DecidableEq

def NessieError.message : NessieError → String
  | notFound name => "reference `" ++ name ++ "` was not found"
  | alreadyExists name => "reference `" ++ name ++ "` already exists"
  | transport message => "transport error: " ++ message
  | remote message => "nessie error: " ++ message

/-- The Nessie boundary, over the state `σ` that holds the references. -/
structure NessieClient (σ : Type) where
  getReference (name : String) : Program σ NessieError (Option ReferenceInfo)
  createBranch (name : String) (source : ReferenceInfo) : Program σ NessieError ReferenceInfo
  deleteBranch (name : String) : Program σ NessieError Unit
  /-- Merge `fromRef` into `toRef`, asserting the target hash when provided. -/
  merge (fromRef : String) (fromHash : Option String) (toRef : String)
    (expectedTargetHash : Option String) : Program σ NessieError MergeOutcome
  /-- Non-destructive check that `fromRef` can merge into `toRef`. -/
  canMerge (fromRef toRef : String) : Program σ NessieError MergeOutcome
  assignReference (name hash : String) : Program σ NessieError ReferenceInfo

/-- A client whose every operation is one step among those of other clients. -/
def NessieClient.shared {σ : Type} (others : Nat → σ → σ) (client : NessieClient σ) :
    NessieClient (σ × Nat) where
  getReference name := (client.getReference name).atomic others
  createBranch name source := (client.createBranch name source).atomic others
  deleteBranch name := (client.deleteBranch name).atomic others
  merge fromRef fromHash toRef expectedTargetHash :=
    (client.merge fromRef fromHash toRef expectedTargetHash).atomic others
  canMerge fromRef toRef := (client.canMerge fromRef toRef).atomic others
  assignReference name hash := (client.assignReference name hash).atomic others

/-- What a client promises of its reads and of a merge with both hashes given.
`head s name` is the commit a reference is at, and `merged s s' toRef onto commit`
says that between two states `commit` was merged into `toRef`, which was at
`onto`. -/
structure NessieClient.Pins {σ : Type} (client : NessieClient σ)
    (head : σ → String → Option String)
    (merged : σ → σ → String → String → String → Prop) : Prop where
  getReference_state : ∀ name s, (client.getReference name s).2 = s
  getReference_hash : ∀ {name s reference},
    (client.getReference name s).1 = .ok (some reference) → head s name = some reference.hash
  merge_clean : ∀ {fromRef fromHash toRef expected s outcome},
    (client.merge fromRef (some fromHash) toRef (some expected) s).1 = .ok outcome →
    outcome.isClean = true →
    ∃ commit, merged s (client.merge fromRef (some fromHash) toRef (some expected) s).2 toRef
      expected commit ∧ (commit = fromHash ∨ head s fromRef = some commit)
  merged_onto : ∀ {s s' toRef onto commit}, merged s s' toRef onto commit →
    head s toRef = some onto
  merge_moves : ∀ {fromRef fromHash toRef expected s},
    head (client.merge fromRef (some fromHash) toRef (some expected) s).2 toRef ≠
      head s toRef → head s toRef = some expected

/-! ## The in-memory client -/

abbrev References : Type :=
  Table ReferenceInfo.name

namespace References

def head (references : References) (name : String) : Option String :=
  (references.get? name).map ReferenceInfo.hash

/-- `seed`: a branch at a commit. -/
def seed (references : References) (name hash : String) : References :=
  references.put (.branch name hash)

end References

namespace InMemoryNessie

/-- Placeholder for offline use when no base hash exists. -/
def nextHash (seed : String) : String :=
  seed ++ "-00000000"

def getReference (name : String) : Program References NessieError (Option ReferenceInfo) :=
  fun references => (.ok (references.get? name), references)

def createBranch (name : String) (source : ReferenceInfo) :
    Program References NessieError ReferenceInfo := fun references =>
  match references.get? name with
  | some _ => (.error (.alreadyExists name), references)
  | none =>
    let hash :=
      if source.hash = "" then
        ((references.get? source.name).map ReferenceInfo.hash).getD (nextHash name)
      else source.hash
    let reference := ReferenceInfo.branch name hash
    (.ok reference, references.put reference)

def deleteBranch (name : String) : Program References NessieError Unit := fun references =>
  match references.get? name with
  | some _ => (.ok (), references.erase name)
  | none => (.error (.notFound name), references)

/-- The hash of the source that the caller pinned is not looked at. -/
def merge (fromRef : String) (_fromHash : Option String) (toRef : String)
    (expectedTargetHash : Option String) : Program References NessieError MergeOutcome :=
  fun references =>
    match references.get? fromRef, references.get? toRef with
    | none, _ => (.error (.notFound fromRef), references)
    | some _, none => (.error (.notFound toRef), references)
    | some source, some target =>
      match expectedTargetHash.filter fun expected => expected ≠ target.hash with
      | some expected =>
        (.ok (.conflict toRef
          ("target advanced: expected " ++ expected ++ ", found " ++ target.hash)), references)
      | none => (.ok (.clean source.hash), references.put { target with hash := source.hash })

def canMerge (fromRef toRef : String) : Program References NessieError MergeOutcome :=
  fun references =>
    match references.get? fromRef, references.get? toRef with
    | none, _ => (.error (.notFound fromRef), references)
    | some _, none => (.error (.notFound toRef), references)
    | some source, some _ => (.ok (.clean source.hash), references)

def assignReference (name hash : String) : Program References NessieError ReferenceInfo :=
  fun references =>
    match references.get? name with
    | none => (.error (.notFound name), references)
    | some reference =>
      (.ok { reference with hash := hash }, references.put { reference with hash := hash })

/-- An in-memory Nessie used for tests and offline planning. -/
def client : NessieClient References where
  getReference := getReference
  createBranch := createBranch
  deleteBranch := deleteBranch
  merge := merge
  canMerge := canMerge
  assignReference := assignReference

/-- What a pinned merge does: it merges whatever the source is at, provided the
target is where the caller expects it. -/
theorem merge_eq (fromRef fromHash toRef expected : String) (references : References) :
    (∃ source target, references.get? fromRef = some source ∧
        references.get? toRef = some target ∧ target.hash = expected ∧
        merge fromRef (some fromHash) toRef (some expected) references =
          (.ok (.clean source.hash), references.put { target with hash := source.hash })) ∨
      (references.get? fromRef = none ∨ references.head toRef ≠ some expected) ∧
        (merge fromRef (some fromHash) toRef (some expected) references).2 = references ∧
        ∀ outcome, (merge fromRef (some fromHash) toRef (some expected) references).1 =
          .ok outcome → outcome.isClean = false := by
  unfold merge References.head
  cases hsource : references.get? fromRef with
  | none => exact Or.inr (by simp)
  | some source =>
    cases htarget : references.get? toRef with
    | none => exact Or.inr (by simp)
    | some target =>
      by_cases hhash : target.hash = expected
      · exact Or.inl ⟨source, target, rfl, rfl, hhash, by simp [hhash, Option.filter_some]⟩
      · refine Or.inr ⟨Or.inr (by simpa using hhash), ?_, ?_⟩
        · simp [Option.filter_some, Ne.symm hhash]
        · simp only [Option.filter_some, decide_eq_true (Ne.symm hhash)]
          rintro outcome ⟨rfl⟩
          rfl

/-- `commit` was merged into `toRef`, which was at `onto`. -/
def Merged (s s' : References) (toRef onto commit : String) : Prop :=
  ∃ target, s.get? toRef = some target ∧ target.hash = onto ∧
    s' = s.put { target with hash := commit }

theorem pins : client.Pins References.head Merged where
  getReference_state _ _ := rfl
  getReference_hash := by
    intro name s reference h
    have hget : s.get? name = some reference := by simpa [client, getReference] using h
    rw [References.head, hget]
    rfl
  merge_clean := by
    intro fromRef fromHash toRef expected s outcome houtcome hclean
    rcases merge_eq fromRef fromHash toRef expected s with
      ⟨source, target, hsource, htarget, hhash, heq⟩ | ⟨_, _, hdirty⟩
    · refine ⟨source.hash, ⟨target, htarget, hhash, ?_⟩, Or.inr ?_⟩
      · exact congrArg Prod.snd heq
      · rw [References.head, hsource]
        rfl
    · rw [hdirty outcome houtcome] at hclean
      exact absurd hclean (by decide)
  merged_onto := by
    rintro s s' toRef onto commit ⟨target, htarget, hhash, _⟩
    rw [References.head, htarget, Option.map_some, hhash]
  merge_moves := by
    intro fromRef fromHash toRef expected s hmoves
    rcases merge_eq fromRef fromHash toRef expected s with
      ⟨source, target, hsource, htarget, hhash, heq⟩ | ⟨_, hstate, _⟩
    · rw [References.head, htarget, Option.map_some, hhash]
    · exact absurd (congrArg (References.head · toRef) hstate) hmoves

end InMemoryNessie

/-! ## The REST client -/

/-- The requests of the v2 API that the client sends. -/
inductive RestRequest where
  | getTree (name : String)
  | createTree (name : String) (source : ReferenceInfo)
  | deleteTree (name hash : String)
  | mergeTree (toRef expectedTargetHash fromRef fromHash : String) (isDryRun : Bool)
  | assignTree (name hash : String)
deriving Repr, DecidableEq

/-- A reported conflict: an object with a message and a type, a bare string in older
shapes, or something else. -/
inductive ConflictValue where
  | text (kind : String)
  | fields (message conflictType : Option String)
  | other
deriving Repr, DecidableEq

structure MergeDetail where
  key : Option (List String)
  conflict : Option ConflictValue
deriving Repr, DecidableEq

structure MergeResponse where
  wasSuccessful : Bool
  resultantTargetHash : Option String
  details : List MergeDetail
deriving Repr, DecidableEq

/-- A response: its status, its text, and what the text decodes to. -/
structure RestResponse where
  status : Nat
  payload : String
  reference : Option ReferenceInfo
  mergeResponse : Option MergeResponse
deriving Repr, DecidableEq

def RestResponse.isSuccess (response : RestResponse) : Bool :=
  decide (200 ≤ response.status ∧ response.status < 300)

/-- A Nessie server; a failed exchange is a transport error. -/
structure NessieServer (σ : Type) where
  exchange : RestRequest → Program σ String RestResponse

namespace NessieRestClient

variable {σ : Type}

def conflictOf (detail : MergeDetail) : Option Conflict :=
  detail.conflict.map fun conflict =>
    { path := (detail.key.map (".".intercalate ·)).getD ""
      message :=
        match conflict with
        | .text kind => kind
        | .fields message conflictType => (message.orElse fun _ => conflictType).getD
            "merge conflict"
        | .other => "merge conflict" }

def mergeOutcome (response : MergeResponse) (raw : String) : MergeOutcome :=
  let conflicts := response.details.filterMap conflictOf
  { hash := response.resultantTargetHash
    conflicts :=
      if !response.wasSuccessful && conflicts.isEmpty then
        [{ path := "", message := "merge was not applied: " ++ raw }]
      else conflicts }

variable (server : NessieServer σ)

def send (request : RestRequest) : Program σ NessieError RestResponse :=
  (server.exchange request).mapError .transport

/-- Read a response whose body is a single reference. -/
def json (request : RestRequest) : Program σ NessieError ReferenceInfo := do
  let response ← send server request
  if response.status = 404 then
    Program.fail (.notFound "reference")
  else if !response.isSuccess then
    Program.fail (.remote ("HTTP " ++ toString response.status ++ ": " ++ response.payload))
  else
    match response.reference with
    | some reference => pure reference
    | none => Program.fail (.remote "error decoding response body")

def getReference (name : String) : Program σ NessieError (Option ReferenceInfo) := do
  match ← (json server (.getTree name)).attempt with
  | .ok reference => pure (some reference)
  | .error (.notFound _) => pure none
  | .error error => Program.fail error

/-- The head of a reference the caller did not pin. -/
def pinned (name : String) : Option String → Program σ NessieError String
  | some hash => pure hash
  | none => do
      match ← getReference server name with
      | some reference => pure reference.hash
      | none => Program.fail (.notFound name)

def postMerge (fromRef : String) (fromHash : Option String) (toRef : String)
    (expectedTargetHash : Option String) (dryRun : Bool) :
    Program σ NessieError MergeOutcome := do
  let expectedTargetHash ← pinned server toRef expectedTargetHash
  let fromHash ← pinned server fromRef fromHash
  let response ← send server (.mergeTree toRef expectedTargetHash fromRef fromHash dryRun)
  match response.mergeResponse with
  | some merge => pure (mergeOutcome merge response.payload)
  | none =>
    if response.status = 409 then
      pure (.conflict toRef ("merge conflict: " ++ response.payload))
    else Program.fail (.remote ("HTTP " ++ toString response.status ++ ": undecodable"))

def deleteBranch (name : String) : Program σ NessieError Unit := do
  match ← getReference server name with
  | none => Program.fail (.notFound name)
  | some reference => do
      let response ← send server (.deleteTree name reference.hash)
      if response.isSuccess then pure ()
      else Program.fail (.remote ("delete returned HTTP " ++ toString response.status))

def client : NessieClient σ where
  getReference := getReference server
  createBranch name source := json server (.createTree name source)
  deleteBranch := deleteBranch server
  merge fromRef fromHash toRef expectedTargetHash :=
    postMerge server fromRef fromHash toRef expectedTargetHash false
  canMerge fromRef toRef := postMerge server fromRef none toRef none true
  assignReference name hash := json server (.assignTree name hash)

end NessieRestClient

/-- What the documentation of the service says of reading a reference and of a merge:
reading changes nothing and answers the head, a merge is applied only onto the
expected hash and merges the pinned hash, and it is reported as successful and
without conflicts only when it was applied. -/
structure NessieServer.Documented {σ : Type} (server : NessieServer σ)
    (head : σ → String → Option String)
    (merged : σ → σ → String → String → String → Prop) : Prop where
  getTree_state : ∀ name s, (server.exchange (.getTree name) s).2 = s
  getTree_head : ∀ {name s response reference},
    (server.exchange (.getTree name) s).1 = .ok response → response.isSuccess = true →
    response.reference = some reference → head s name = some reference.hash
  mergeTree_successful : ∀ {fromRef fromHash toRef expected s response merge},
    (server.exchange (.mergeTree toRef expected fromRef fromHash false) s).1 = .ok response →
    response.mergeResponse = some merge → merge.wasSuccessful = true →
    merge.details.all (fun detail => detail.conflict.isNone) = true →
    merged s (server.exchange (.mergeTree toRef expected fromRef fromHash false) s).2 toRef
      expected fromHash
  merged_onto : ∀ {s s' toRef onto commit}, merged s s' toRef onto commit →
    head s toRef = some onto
  mergeTree_moves : ∀ {fromRef fromHash toRef expected s},
    head (server.exchange (.mergeTree toRef expected fromRef fromHash false) s).2 toRef ≠
      head s toRef → head s toRef = some expected

namespace NessieRestClient

variable {σ : Type} {server : NessieServer σ}
variable {reference : ReferenceInfo}

theorem mergeOutcome_isClean {response : MergeResponse} {raw : String}
    (h : (mergeOutcome response raw).isClean = true) :
    response.wasSuccessful = true ∧
      response.details.all (fun detail => detail.conflict.isNone) = true := by
  unfold mergeOutcome MergeOutcome.isClean at h
  by_cases hempty : (response.details.filterMap conflictOf).isEmpty = true
  · cases hsuccess : response.wasSuccessful with
    | false => simp [hsuccess, hempty] at h
    | true =>
      refine ⟨rfl, ?_⟩
      simpa [conflictOf] using hempty
  · simp [hempty] at h

theorem json_state (request : RestRequest) (s : σ) :
    (json server request s).2 = (server.exchange request s).2 := by
  unfold json send
  rw [Program.bind_run, Program.mapError]
  rcases server.exchange request s with ⟨e | response, s'⟩
  · rfl
  · simp only
    split
    · rfl
    · split
      · rfl
      · cases response.reference <;> rfl

theorem json_eq_ok {request : RestRequest} {s : σ} (h : (json server request s).1 = .ok reference) :
    ∃ response, (server.exchange request s).1 = .ok response ∧ response.isSuccess = true ∧
      response.reference = some reference := by
  unfold json send at h
  rw [Program.bind_run, Program.mapError] at h
  rcases hexchange : server.exchange request s with ⟨e | response, s'⟩
  · rw [hexchange] at h
    cases h
  · refine ⟨response, rfl, ?_⟩
    rw [hexchange] at h
    simp only at h
    split at h
    · cases h
    · split at h
      · cases h
      · next hsuccess =>
          refine ⟨by simpa using hsuccess, ?_⟩
          cases hreference : response.reference with
          | none =>
            rw [hreference] at h
            cases h
          | some found =>
            rw [hreference] at h
            cases h
            rfl

theorem getReference_state (name : String) (s : σ) :
    (getReference server name s).2 = (server.exchange (.getTree name) s).2 := by
  unfold getReference
  rw [Program.bind_of_ok (Program.attempt_run _ s), ← json_state]
  rcases (json server (.getTree name) s).1 with error | reference
  · cases error <;> rfl
  · rfl

theorem getReference_eq_some {name : String} {s : σ}
    (h : (getReference server name s).1 = .ok (some reference)) :
    (json server (.getTree name) s).1 = .ok reference := by
  unfold getReference at h
  rw [Program.bind_of_ok (Program.attempt_run _ s)] at h
  rcases hjson : (json server (.getTree name) s).1 with error | found
  · rw [hjson] at h
    cases error <;> cases h
  · rw [hjson] at h
    cases h
    rfl

/-- With both hashes given, a merge is a single exchange. -/
theorem postMerge_pinned (fromRef fromHash toRef expected : String) (dryRun : Bool) (s : σ) :
    postMerge server fromRef (some fromHash) toRef (some expected) dryRun s =
      match server.exchange (.mergeTree toRef expected fromRef fromHash dryRun) s with
      | (.error message, s') => (.error (.transport message), s')
      | (.ok response, s') =>
        match response.mergeResponse with
        | some merge => (.ok (mergeOutcome merge response.payload), s')
        | none =>
          if response.status = 409 then
            (.ok (.conflict toRef ("merge conflict: " ++ response.payload)), s')
          else
            (.error (.remote ("HTTP " ++ toString response.status ++ ": undecodable")), s') := by
  unfold postMerge
  rw [Program.bind_of_ok (by rfl), Program.bind_of_ok (by rfl), Program.bind_run]
  unfold send Program.mapError
  rcases server.exchange (.mergeTree toRef expected fromRef fromHash dryRun) s with
    ⟨e | response, s'⟩
  · rfl
  · cases hmerge : response.mergeResponse with
    | some merge => simp only [hmerge, Program.pure_run]
    | none =>
      simp only [hmerge]
      split <;> rfl

theorem postMerge_pinned_state (fromRef fromHash toRef expected : String) (dryRun : Bool)
    (s : σ) :
    (postMerge server fromRef (some fromHash) toRef (some expected) dryRun s).2 =
      (server.exchange (.mergeTree toRef expected fromRef fromHash dryRun) s).2 := by
  rw [postMerge_pinned]
  split
  · next h => rw [h]
  · next h =>
      rw [h]
      split
      · rfl
      · split <;> rfl

theorem pins {head : σ → String → Option String}
    {merged : σ → σ → String → String → String → Prop} (hdoc : server.Documented head merged) :
    (client server).Pins head merged where
  getReference_state name s := (getReference_state name s).trans (hdoc.getTree_state name s)
  getReference_hash := by
    intro name s reference h
    obtain ⟨response, hexchange, hsuccess, hreference⟩ :=
      json_eq_ok (getReference_eq_some h)
    exact hdoc.getTree_head hexchange hsuccess hreference
  merge_clean := by
    intro fromRef fromHash toRef expected s outcome houtcome hclean
    refine ⟨fromHash, ?_, Or.inl rfl⟩
    simp only [client] at houtcome ⊢
    rw [postMerge_pinned_state]
    rw [postMerge_pinned] at houtcome
    rcases hexchange : server.exchange (.mergeTree toRef expected fromRef fromHash false) s with
      ⟨e | response, s'⟩
    · rw [hexchange] at houtcome
      cases houtcome
    · rw [hexchange] at houtcome
      simp only at houtcome
      split at houtcome
      · next merge hmerge =>
          cases houtcome
          obtain ⟨hsuccess, hdetails⟩ := mergeOutcome_isClean hclean
          have hok := congrArg Prod.fst hexchange
          have hmerged := hdoc.mergeTree_successful hok hmerge hsuccess hdetails
          rwa [hexchange] at hmerged
      · split at houtcome
        · cases houtcome
          exact absurd hclean (by simp)
        · cases houtcome
  merged_onto := hdoc.merged_onto
  merge_moves := by
    intro fromRef fromHash toRef expected s hmoves
    simp only [client, postMerge_pinned_state] at hmoves
    exact hdoc.mergeTree_moves hmoves

end NessieRestClient

end PhloTransform.Nessie
