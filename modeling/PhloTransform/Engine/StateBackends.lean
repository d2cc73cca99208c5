import PhloTransform.Engine.AuditEvidence
import PhloTransform.Engine.OrderedUpserts
import PhloTransform.Engine.Promotion
import PhloTransform.Library.StepSystem

/-!
# The two state stores

The run state is kept in SQLite or in PostgreSQL.  Both run the same statements; they
differ in the comparison of timestamps inside an upsert, in the order of text, in `LIKE`,
in what becomes of the place of a replaced promotion, and in the texts that a column can
hold.

Main results:

- Theorem `recent_alike`: when both stores list rows in one order.
- Theorem `stores_agree`: after writes that do not tell the stores apart, every read that
  does not tell them apart has one answer.
-/

namespace PhloTransform.Engine

open Library (Table StepSystem)

/-! ## The PostgreSQL side of a comparison -/

/-- What the server decides: the instant of a text, in microseconds, where the cast to
`timestamptz` succeeds, and the order of its collation by sort keys. -/
structure PostgresServer where
  timestamptz : String → Option Int
  sortKey : String → List Nat

def isDigits (text : List Char) : Bool :=
  !text.isEmpty && text.all Char.isDigit

/-- `([Zz]|[+-][0-9]{2}:[0-9]{2})$`. -/
def isOffset : List Char → Bool
  | ['Z'] | ['z'] => true
  | [sign, h₁, h₂, ':', m₁, m₂] => (sign == '+' || sign == '-') && isDigits [h₁, h₂, m₁, m₂]
  | _ => false

/-- `([.][0-9]+)?` and the offset. -/
def isFraction : List Char → Bool
  | '.' :: rest =>
    isDigits (rest.takeWhile Char.isDigit) && isOffset (rest.dropWhile Char.isDigit)
  | rest => isOffset rest

/-- The pattern of `phlo_cmp_rfc3339`: a date, a time, a fraction and an explicit offset. -/
def isRfc3339Shape (value : String) : Bool :=
  match value.toList with
  | y₁ :: y₂ :: y₃ :: y₄ :: '-' :: m₁ :: m₂ :: '-' :: d₁ :: d₂ :: t ::
      h₁ :: h₂ :: ':' :: n₁ :: n₂ :: ':' :: s₁ :: s₂ :: rest =>
      isDigits [y₁, y₂, y₃, y₄, m₁, m₂, d₁, d₂, h₁, h₂, n₁, n₂, s₁, s₂] &&
        (t == 'T' || t == 't') && isFraction rest
  | _ => false

namespace PostgresServer

variable (server : PostgresServer)

/-- `a < b` and `a > b` on text. -/
def compareText (a b : String) : Ordering :=
  compare (server.sortKey a) (server.sortKey b)

/-- `phlo_cmp_rfc3339`: as instants when both have the shape and both casts succeed, as
text otherwise. -/
def cmpRfc3339 (a b : String) : Ordering :=
  if isRfc3339Shape a && isRfc3339Shape b then
    match server.timestamptz a, server.timestamptz b with
    | some x, some y => compare x y
    | _, _ => server.compareText a b
  else server.compareText a b

/-- `phlo_cmp_rfc3339(a, b) >= 0`. -/
def notBefore (a b : String) : Bool :=
  server.cmpRfc3339 a b != .lt

variable {server}

end PostgresServer

/-! ## Patterns -/

/-- `text LIKE pattern`: `%` stands for any text, `_` for any character, and a character
after the escape character for itself. -/
def likeMatch (same : Char → Char → Bool) (escape : Option Char) : List Char → List Char → Bool
  | [], text => text.isEmpty
  | c :: pattern, text =>
    if c = '%' then text.tails.any fun rest => likeMatch same escape pattern rest
    else if escape = some c then
      match pattern, text with
      | literal :: pattern, t :: text => literal == t && likeMatch same escape pattern text
      | _, _ => false
    else
      match text with
      | [] => false
      | t :: text => (c == '_' || same c t) && likeMatch same escape pattern text

/-! ## Statements -/

/-- The tables of a state store, their rows in the order of `rowid` or `seq`. -/
structure StateTables where
  store : Store
  promotions : Table PromotionRecord.promotionId
  evidence : Table EvidenceRecord.evidenceId

def StateTables.empty : StateTables where
  store := Store.empty
  promotions := Table.empty
  evidence := Table.empty

/-- `bind_run_reference_hash`. -/
def Store.bindRunReferenceHash (store : Store) (runId referenceHash : String) : Store :=
  { store with
    runs := store.runs.modify runId
      (fun run => { run with record := { run.record with referenceHash := some referenceHash } })
      fun _ => rfl }

/-- The writes of a state store. -/
inductive StateWrite where
  | startRun (run : RunRecord) (plan : StoredPlan)
  | reopenRun (runId : String)
  | bindRunReferenceHash (runId referenceHash : String)
  | finishRun (runId : String) (status : ExecutionStatus) (finishedAt : String)
      (failedCount : Nat)
  | recordModel (record : ModelRunRecord)
  | recordSeedRun (record : SeedRunRecord)
  | recordTest (record : TestRunRecord)
  | recordMaterialized (record : MaterializedRecord)
  | recordSeed (record : SeedRecord)
  | setWatermark (modelId : String) (environment : Option String) (value runId : String)
  | recordPromotion (record : PromotionRecord)
  | recordEvidence (record : EvidenceRecord)
  | removeEvidence (kind : EvidenceKind) (subject : String)

/-- The text parameters of a statement.  Parameters in JSON are left out: every control
character is escaped in them. -/
def StateWrite.texts : StateWrite → List String
  | startRun run _ =>
    [run.runId, run.planId, environmentColumn run.environment, run.startedAt] ++
      run.finishedAt.toList ++ run.referenceHash.toList
  | reopenRun runId => [runId]
  | bindRunReferenceHash runId referenceHash => [runId, referenceHash]
  | finishRun runId _ finishedAt _ => [runId, finishedAt]
  | recordModel r =>
    [r.runId, r.modelId, r.materialization, r.startedAt, r.finishedAt, r.target, r.action,
      r.desiredVersion] ++ r.errorCategory.toList
  | recordSeedRun r =>
    [r.runId, r.name, r.target, r.startedAt, r.finishedAt] ++ r.errorCategory.toList
  | recordTest r => [r.runId, r.testId, r.startedAt, r.finishedAt] ++ r.errorCategory.toList
  | recordMaterialized r =>
    [r.modelId, environmentColumn r.environment, r.version.hash, r.version.sqlHash,
      r.version.configHash, r.version.contractHash, r.version.dependencyHash,
      r.version.sourceStateHash, r.version.compilerVersion, r.version.targetHash, r.target,
      r.runId, r.materializedAt] ++ r.incrementalStrategy.toList ++ r.incrementalKey.toList ++
      r.adapter.toList ++ r.outputIdentity.toList
  | recordSeed r =>
    [r.name, environmentColumn r.environment, r.contentHash, r.target, r.runId, r.loadedAt]
  | setWatermark modelId environment value runId =>
    [modelId, environmentColumn environment, value, runId]
  | recordPromotion r => [r.promotionId, r.candidateRef, r.targetRef, r.timestamp]
  | recordEvidence r =>
    [r.evidenceId, r.subject, r.targetRef, r.createdAt] ++ r.candidateHash.toList ++
      r.targetHash.toList ++ r.fingerprint.toList ++ r.runId.toList
  | removeEvidence _ subject => [subject]

/-- The reads of a state store that promise an order or a single record. -/
inductive StateRead where
  | materializedVersion (modelId : String) (environment : Option String)
  | seedState (name : String) (environment : Option String)
  | watermark (modelId : String) (environment : Option String)
  | runs
  | latestRun (environment : Option String)
  | findRuns (start : String)
  | evidenceFor (kind : EvidenceKind) (subject : String)
  | latestEvidence (kind : EvidenceKind)
  | promotions

def StateRead.texts : StateRead → List String
  | materializedVersion modelId environment => [modelId, environmentColumn environment]
  | seedState name environment => [name, environmentColumn environment]
  | watermark modelId environment => [modelId, environmentColumn environment]
  | runs => []
  | latestRun environment => [environmentColumn environment]
  | findRuns start => [start]
  | evidenceFor _ subject => [subject]
  | latestEvidence _ => []
  | promotions => []

/-- What a read returns. -/
inductive Answer where
  | version (record : Option MaterializedRecord)
  | seed (record : Option SeedRecord)
  | value (value : Option String)
  | runs (runs : List RunRecord)
  | run (run : Option RunRecord)
  | evidence (records : List EvidenceRecord)
  | promotions (records : List PromotionRecord)
deriving DecidableEq

/-- Where the two databases differ. -/
structure StateDialect where
  storable : String → Bool
  notBefore : String → String → Bool
  rerecord : Table PromotionRecord.promotionId → PromotionRecord →
    Table PromotionRecord.promotionId
  textLe : String → String → Bool
  like : List Char → List Char → Bool

/-- `SqliteStateStore`: comparisons in Rust, text by its bytes, `LIKE` without regard to the
case of letters, and `INSERT OR REPLACE`, which gives a replaced row a new `rowid`. -/
def sqliteStateStore [Rfc3339] : StateDialect where
  storable _ := true
  notBefore := notBefore
  rerecord table record := (table.erase record.promotionId).put record
  textLe a b := decide (a ≤ b)
  like := likeMatch (fun c t => c.toLower == t.toLower) none

/-- `PostgresStateStore`: comparisons on the server, the database's collation, `LIKE` with a
backslash as escape character, `ON CONFLICT DO UPDATE`, which keeps the row's `seq`, and no
text with the character zero. -/
def postgresStateStore (server : PostgresServer) : StateDialect where
  storable text := !text.toList.contains (Char.ofNat 0)
  notBefore := server.notBefore
  rerecord := Table.put
  textLe a b := decide (server.sortKey a ≤ server.sortKey b)
  like := likeMatch (fun c t => c == t) (some '\\')

namespace StateDialect

variable (d : StateDialect)

/-- `record_materialized`. -/
def recordMaterialized (store : Store) (record : MaterializedRecord) : Store :=
  { store with
    modelVersions := store.modelVersions.upsertWhen
      (fun old new => d.notBefore new.materializedAt old.materializedAt) record.stored }

/-- `record_seed`. -/
def recordSeed (store : Store) (record : SeedRecord) : Store :=
  { store with
    seedLoads := store.seedLoads.upsertWhen
      (fun old new => d.notBefore new.loadedAt old.loadedAt) record.stored }

/-- The guard of `set_watermark`. -/
def acceptsWatermark (store : Store) (old new : WatermarkRow) : Bool :=
  d.notBefore ((store.startedAt new.runId).getD new.updatedAt)
    ((store.startedAt old.runId).getD "")

/-- `set_watermark`, at the clock reading `now`. -/
def setWatermark (store : Store) (modelId : String) (environment : Option String)
    (value runId now : String) : Store :=
  { store with
    incrementalState := store.incrementalState.upsertWhen (d.acceptsWatermark store)
      { modelId := modelId, environment := environmentColumn environment,
        lastValue := value, runId := runId, updatedAt := now } }

theorem get?_setWatermark_self (store : Store) (modelId : String) (environment : Option String)
    (value runId now : String) :
    (d.setWatermark store modelId environment value runId now).incrementalState.get?
        (modelId, environmentColumn environment) =
      match store.incrementalState.get? (modelId, environmentColumn environment) with
      | none => some ⟨modelId, environmentColumn environment, value, runId, now⟩
      | some old =>
        if d.acceptsWatermark store old
            ⟨modelId, environmentColumn environment, value, runId, now⟩ then
          some ⟨modelId, environmentColumn environment, value, runId, now⟩
        else some old := by
  have hwrite := Table.get?_upsertWhen_self (d.acceptsWatermark store) store.incrementalState
    ⟨modelId, environmentColumn environment, value, runId, now⟩
  refine hwrite.trans ?_
  simp only [WatermarkRow.key]
  cases store.incrementalState.get? (modelId, environmentColumn environment) <;> rfl

theorem get?_setWatermark_ne (store : Store) {modelId : String} {environment : Option String}
    (value runId now : String) {key : String × String}
    (h : (modelId, environmentColumn environment) ≠ key) :
    (d.setWatermark store modelId environment value runId now).incrementalState.get? key =
      store.incrementalState.get? key :=
  Table.get?_upsertWhen_ne _ _ h

/-- One statement, at the clock reading `now`.  An insert of a key that is taken fails. -/
def apply (now : String) (s : StateTables) : StateWrite → StateTables
  | .startRun run plan => { s with store := (s.store.startRun run plan).getD s.store }
  | .reopenRun runId => { s with store := s.store.reopenRun runId }
  | .bindRunReferenceHash runId referenceHash =>
    { s with store := s.store.bindRunReferenceHash runId referenceHash }
  | .finishRun runId status finishedAt failedCount =>
    { s with store := s.store.finishRun runId status finishedAt failedCount }
  | .recordModel record => { s with store := s.store.recordModel record }
  | .recordSeedRun record => { s with store := s.store.recordSeedRun record }
  | .recordTest record => { s with store := s.store.recordTest record }
  | .recordMaterialized record => { s with store := d.recordMaterialized s.store record }
  | .recordSeed record => { s with store := d.recordSeed s.store record }
  | .setWatermark modelId environment value runId =>
    { s with store := d.setWatermark s.store modelId environment value runId now }
  | .recordPromotion record => { s with promotions := d.rerecord s.promotions record }
  | .recordEvidence record =>
    match s.evidence.get? record.evidenceId with
    | some _ => s
    | none => { s with evidence := s.evidence.put record }
  | .removeEvidence kind subject =>
    { s with
      evidence := s.evidence.retain fun record =>
        !decide (record.kind = kind ∧ record.subject = subject) }

/-- A write; a statement with a parameter that no column holds fails. -/
def write (now : String) (s : StateTables) (w : StateWrite) : StateTables :=
  if w.texts.all d.storable then d.apply now s w else s

/-- `ORDER BY timestamp DESC, rowid DESC`, then newest first. -/
def recent [Rfc3339] {T : Type*} (timestamp : T → String) (rows : List T) : List T :=
  newestFirst timestamp
    (rows.reverse.insertionSort fun a b => d.textLe (timestamp b) (timestamp a) = true)

/-- The runs of an environment, or all, newest first. -/
def runsWhere [Rfc3339] (s : StateTables) (p : RunRecord → Bool) : List RunRecord :=
  d.recent RunRecord.startedAt ((s.store.runs.rows.map StoredRun.record).filter p)

/-- The evidence records that satisfy `p`, newest first. -/
def evidenceWhere [Rfc3339] (s : StateTables) (p : EvidenceRecord → Bool) :
    List EvidenceRecord :=
  d.recent EvidenceRecord.createdAt (s.evidence.rows.filter p)

/-- The rows that a run listing selects. -/
def inEnvironment (environment : Option String) (run : RunRecord) : Bool :=
  decide (environmentColumn run.environment = environmentColumn environment)

/-- `run_id LIKE start || '%'`. -/
def startsLike (start : String) (run : RunRecord) : Bool :=
  d.like (start.toList ++ ['%']) run.runId.toList

def answer [Rfc3339] (s : StateTables) : StateRead → Answer
  | .materializedVersion modelId environment =>
    .version (s.store.materializedVersion modelId environment)
  | .seedState name environment => .seed (s.store.seedLoad name environment)
  | .watermark modelId environment => .value (s.store.watermark modelId environment)
  | .runs => .runs (d.runsWhere s fun _ => true)
  | .latestRun environment => .run (d.runsWhere s (inEnvironment environment)).head?
  | .findRuns start => .runs (d.runsWhere s (d.startsLike start))
  | .evidenceFor kind subject =>
    .evidence (d.evidenceWhere s fun record =>
      decide (record.kind = kind ∧ record.subject = subject))
  | .latestEvidence kind =>
    .evidence (Library.firstByKey (fun record => (record.subject, record.targetRef)) []
      (d.evidenceWhere s fun record => decide (record.kind = kind)))
  | .promotions => .promotions (d.recent PromotionRecord.timestamp s.promotions.rows)

/-- A read; a query with a parameter that is no text fails. -/
def read [Rfc3339] (s : StateTables) (r : StateRead) : Option Answer :=
  if r.texts.all d.storable then some (d.answer s r) else none

end StateDialect

section Sqlite

variable [Rfc3339]

/-! The SQLite statements are those of the store that the engine is modelled with. -/

end Sqlite

/-! ## Writes that do not tell the stores apart -/

section Agreement

variable [Rfc3339] (server : PostgresServer)
variable {s t : StateTables}

def ComparesAlike (a b : String) : Prop :=
  notBefore a b = server.notBefore a b

instance (a b : String) : Decidable (ComparesAlike server a b) :=
  inferInstanceAs (Decidable (_ = _))

/-- A write, with what the clock of each store reads then. -/
structure SharedWrite where
  write : StateWrite
  sqliteNow : String
  postgresNow : String

/-- The comparison that a write makes comes out alike; a promotion is recorded again only
while it is the last row. -/
def SharedWrite.DecidedAlike (s : StateTables) (w : SharedWrite) : Prop :=
  match w.write with
  | .recordMaterialized record =>
    match s.store.materializedVersion record.modelId record.environment with
    | some old => ComparesAlike server record.materializedAt old.materializedAt
    | none => True
  | .recordSeed record =>
    match s.store.seedLoad record.name record.environment with
    | some old => ComparesAlike server record.loadedAt old.loadedAt
    | none => True
  | .setWatermark modelId environment _ runId =>
    match s.store.watermarkRow modelId environment with
    | some old =>
      notBefore ((s.store.startedAt runId).getD w.sqliteNow)
          ((s.store.startedAt old.runId).getD "") =
        server.notBefore ((s.store.startedAt runId).getD w.postgresNow)
          ((s.store.startedAt old.runId).getD "")
    | none => True
  | .recordPromotion record =>
    match s.promotions.get? record.promotionId with
    | some _ => s.promotions.rows.getLast?.map PromotionRecord.promotionId =
        some record.promotionId
    | none => True
  | _ => True

/-- A write that both stores treat alike. -/
def SharedWrite.Alike (s : StateTables) (w : SharedWrite) : Prop :=
  w.write.texts.all (postgresStateStore server).storable = true ∧ w.DecidedAlike server s

def bothStores : StepSystem (StateTables × StateTables) SharedWrite where
  step st w := some (sqliteStateStore.write w.sqliteNow st.1 w.write,
    (postgresStateStore server).write w.postgresNow st.2 w.write)

/-- The tables agree but for the time at which a watermark was written. -/
structure SameTables (s t : StateTables) : Prop where
  runs : s.store.runs = t.store.runs
  modelVersions : s.store.modelVersions = t.store.modelVersions
  seedLoads : s.store.seedLoads = t.store.seedLoads
  watermarks : ∀ key, (s.store.incrementalState.get? key).map
      (fun row => (row.lastValue, row.runId)) =
    (t.store.incrementalState.get? key).map (fun row => (row.lastValue, row.runId))
  promotions : s.promotions = t.promotions
  evidence : s.evidence = t.evidence

omit [Rfc3339] in
theorem SameTables.refl (s : StateTables) : SameTables s s :=
  ⟨rfl, rfl, rfl, fun _ => rfl, rfl, rfl⟩

/-- An upsert whose guard decides alike leaves one table. -/
theorem upsertWhen_alike {Row : Type*} {key : Row → String × String} {stamp : Row → String}
    {table : Table key} {row : Row}
    (h : ∀ old, table.get? (key row) = some old → ComparesAlike server (stamp row) (stamp old)) :
    table.upsertWhen (fun old new => notBefore (stamp new) (stamp old)) row =
      table.upsertWhen (fun old new => server.notBefore (stamp new) (stamp old)) row :=
  Table.upsertWhen_congr h

omit [Rfc3339] in
theorem SameTables.startRun {s t : StateTables} (h : SameTables s t) (run : RunRecord)
    (plan : StoredPlan) :
    SameTables { s with store := (s.store.startRun run plan).getD s.store }
      { t with store := (t.store.startRun run plan).getD t.store } := by
  unfold Store.startRun
  rw [← h.runs]
  cases s.store.runs.get? run.runId with
  | none => exact { h with runs := rfl }
  | some old => exact h

/-- The watermark of a run is the same where both comparisons decide alike. -/
theorem SameTables.setWatermark {s t : StateTables} (h : SameTables s t) {modelId : String}
    {environment : Option String} {value runId sqliteNow postgresNow : String}
    (hdecided : SharedWrite.DecidedAlike server s
      ⟨.setWatermark modelId environment value runId, sqliteNow, postgresNow⟩) :
    SameTables { s with
        store := sqliteStateStore.setWatermark s.store modelId environment value runId sqliteNow }
      { t with
        store := (postgresStateStore server).setWatermark t.store modelId environment value runId
          postgresNow } := by
  refine { h with watermarks := fun key => ?_ }
  have hstarted (id : String) : t.store.startedAt id = s.store.startedAt id := by
    rw [Store.startedAt, Store.startedAt, Store.run, Store.run, h.runs]
  have hold := h.watermarks (modelId, environmentColumn environment)
  by_cases hkey : (modelId, environmentColumn environment) = key
  · subst hkey
    rw [StateDialect.get?_setWatermark_self, StateDialect.get?_setWatermark_self]
    simp only [SharedWrite.DecidedAlike, Store.watermarkRow] at hdecided
    cases hrow : s.store.incrementalState.get? (modelId, environmentColumn environment) with
    | none =>
      rw [hrow] at hold
      rw [Option.map_eq_none_iff.1 hold.symm]
      rfl
    | some old =>
      rw [hrow] at hold hdecided
      obtain ⟨other, hother, heq⟩ := Option.map_eq_some_iff.1 hold.symm
      rw [hother]
      simp only [Prod.mk.injEq] at heq
      have haccept : (postgresStateStore server).acceptsWatermark t.store other
            ⟨modelId, environmentColumn environment, value, runId, postgresNow⟩ =
          sqliteStateStore.acceptsWatermark s.store old
            ⟨modelId, environmentColumn environment, value, runId, sqliteNow⟩ := by
        simp only [StateDialect.acceptsWatermark, hstarted, heq.2]
        exact hdecided.symm
      dsimp only
      rw [haccept]
      split
      · rfl
      · simp [heq]
  · rw [StateDialect.get?_setWatermark_ne _ _ _ _ _ hkey,
      StateDialect.get?_setWatermark_ne _ _ _ _ _ hkey]
    exact h.watermarks key

theorem rerecord_alike {record : PromotionRecord} {sqliteNow postgresNow : String}
    (hdecided : SharedWrite.DecidedAlike server s ⟨.recordPromotion record, sqliteNow, postgresNow⟩)
    : (s.promotions.erase record.promotionId).put record = s.promotions.put record := by
  simp only [SharedWrite.DecidedAlike] at hdecided
  cases hold : s.promotions.get? record.promotionId with
  | none => rw [Table.erase_of_absent hold]
  | some old =>
    rw [hold] at hdecided
    exact Table.put_erase_of_last hdecided

/-- The stores agree after a write that does not tell them apart. -/
theorem SameTables.write {s t : StateTables} (h : SameTables s t) {w : SharedWrite}
    (hw : w.Alike server s) :
    SameTables (sqliteStateStore.write w.sqliteNow s w.write)
      ((postgresStateStore server).write w.postgresNow t w.write) := by
  obtain ⟨hstorable, hdecided⟩ := hw
  have hsqlite : w.write.texts.all sqliteStateStore.storable = true := by
    simp [sqliteStateStore]
  rw [StateDialect.write, if_pos hsqlite, StateDialect.write, if_pos hstorable]
  obtain ⟨write, sqliteNow, postgresNow⟩ := w
  cases write with
  | startRun run plan => exact h.startRun run plan
  | reopenRun runId =>
    exact { h with runs := by simp [StateDialect.apply, Store.reopenRun, h.runs] }
  | bindRunReferenceHash runId referenceHash =>
    exact { h with runs := by simp [StateDialect.apply, Store.bindRunReferenceHash, h.runs] }
  | finishRun runId status finishedAt failedCount =>
    exact { h with runs := by simp [StateDialect.apply, Store.finishRun, h.runs] }
  | recordModel record => exact { h with }
  | recordSeedRun record => exact { h with }
  | recordTest record => exact { h with }
  | recordMaterialized record =>
    have hkey : MaterializedRecord.key record.stored =
        (record.modelId, environmentColumn record.environment) := by
      simp [MaterializedRecord.key, MaterializedRecord.stored]
    refine { h with modelVersions := ?_ }
    simp only [StateDialect.apply, StateDialect.recordMaterialized, ← h.modelVersions]
    refine upsertWhen_alike server fun old hold => ?_
    rw [hkey] at hold
    simp only [SharedWrite.DecidedAlike, Store.materializedVersion, hold] at hdecided
    exact hdecided
  | recordSeed record =>
    have hkey : SeedRecord.key record.stored =
        (record.name, environmentColumn record.environment) := by
      simp [SeedRecord.key, SeedRecord.stored]
    refine { h with seedLoads := ?_ }
    simp only [StateDialect.apply, StateDialect.recordSeed, ← h.seedLoads]
    refine upsertWhen_alike server fun old hold => ?_
    rw [hkey] at hold
    simp only [SharedWrite.DecidedAlike, Store.seedLoad, hold] at hdecided
    exact hdecided
  | setWatermark modelId environment value runId => exact h.setWatermark server hdecided
  | recordPromotion record =>
    refine { h with promotions := ?_ }
    simp only [StateDialect.apply, ← h.promotions]
    exact rerecord_alike server hdecided
  | recordEvidence record =>
    simp only [StateDialect.apply, ← h.evidence]
    cases s.evidence.get? record.evidenceId with
    | none => exact { h with evidence := rfl }
    | some old => exact h
  | removeEvidence kind subject =>
    exact { h with evidence := by simp [StateDialect.apply, h.evidence] }

/-! ## Reads that do not tell the stores apart -/

/-- The collation orders two texts as their bytes do. -/
def CollatesAlike (a b : String) : Prop :=
  a ≤ b ↔ server.sortKey a ≤ server.sortKey b

instance (a b : String) : Decidable (CollatesAlike server a b) :=
  inferInstanceAs (Decidable (_ ↔ _))

/-- The collation orders the timestamps as their bytes do; where all of them are
timestamps, those of one instant. -/
def ListedAlike (stamps : List String) : Prop :=
  (∀ a ∈ stamps, ∀ b ∈ stamps, CollatesAlike server a b) ∨
    (∀ a ∈ stamps, (Rfc3339.parse a).isSome = true) ∧
      ∀ a ∈ stamps, ∀ b ∈ stamps, instant a = instant b → CollatesAlike server a b

instance (stamps : List String) : Decidable (ListedAlike server stamps) :=
  inferInstanceAs (Decidable (_ ∨ _))

/-- The rows that a read lists come in one order, and both `LIKE`s match the same runs. -/
def StateRead.Alike (s : StateTables) (read : StateRead) : Prop :=
  read.texts.all (postgresStateStore server).storable = true ∧
    match read with
    | runs => ListedAlike server ((s.store.runs.rows.map StoredRun.record).map RunRecord.startedAt)
    | latestRun environment =>
      ListedAlike server
        (((s.store.runs.rows.map StoredRun.record).filter
          (StateDialect.inEnvironment environment)).map RunRecord.startedAt)
    | findRuns start =>
      (∀ run ∈ s.store.runs.rows.map StoredRun.record,
        sqliteStateStore.startsLike start run =
          (postgresStateStore server).startsLike start run) ∧
        ListedAlike server
          (((s.store.runs.rows.map StoredRun.record).filter
            (sqliteStateStore.startsLike start)).map RunRecord.startedAt)
    | evidenceFor kind subject =>
      ListedAlike server
        ((s.evidence.rows.filter fun record =>
          decide (record.kind = kind ∧ record.subject = subject)).map EvidenceRecord.createdAt)
    | latestEvidence kind =>
      ListedAlike server
        ((s.evidence.rows.filter fun record => decide (record.kind = kind)).map
          EvidenceRecord.createdAt)
    | promotions => ListedAlike server (s.promotions.rows.map PromotionRecord.timestamp)
    | _ => True

section Listing

variable {T : Type*} {timestamp : T → String}

instance : Std.Total fun a b : T =>
    sqliteStateStore.textLe (timestamp b) (timestamp a) = true :=
  ⟨fun a b => by simpa [sqliteStateStore] using le_total (timestamp b) (timestamp a)⟩

instance : IsTrans T fun a b => sqliteStateStore.textLe (timestamp b) (timestamp a) = true :=
  ⟨fun a b c hab hbc => by
    simp only [sqliteStateStore, decide_eq_true_eq] at hab hbc ⊢
    exact hbc.trans hab⟩

omit [Rfc3339] in
instance : Std.Total fun a b : T =>
    (postgresStateStore server).textLe (timestamp b) (timestamp a) = true :=
  ⟨fun a b => by
    simpa [postgresStateStore] using
      le_total (server.sortKey (timestamp b)) (server.sortKey (timestamp a))⟩

omit [Rfc3339] in
instance : IsTrans T fun a b =>
    (postgresStateStore server).textLe (timestamp b) (timestamp a) = true :=
  ⟨fun a b c hab hbc => by
    simp only [postgresStateStore, decide_eq_true_eq] at hab hbc ⊢
    exact hbc.trans hab⟩

variable {server} in
theorem recent_alike {rows : List T}
    (h : ListedAlike server (rows.map timestamp)) :
    sqliteStateStore.recent timestamp rows = (postgresStateStore server).recent timestamp rows := by
  have hpair {a b : T} (hcollates : CollatesAlike server (timestamp a) (timestamp b)) :
      sqliteStateStore.textLe (timestamp a) (timestamp b) = true ↔
        (postgresStateStore server).textLe (timestamp a) (timestamp b) = true := by
    simp only [sqliteStateStore, postgresStateStore, decide_eq_true_eq]
    exact hcollates
  have hmem {a : T} (ha : a ∈ rows.reverse) : timestamp a ∈ rows.map timestamp :=
    List.mem_map_of_mem (List.mem_reverse.1 ha)
  unfold StateDialect.recent
  rcases h with hall | ⟨hparse, hties⟩
  · congr 1
    apply Library.insertionSort_congr
    intro a ha b hb
    exact hpair (hall _ (hmem hb) _ (hmem ha))
  · have htimestamp (l : List T) (hl : ∀ a ∈ l, a ∈ rows.reverse) :
        ∀ a ∈ l, IsTimestamp (timestamp a) :=
      fun a ha => Option.isSome_iff_exists.1 (hparse _ (hmem (hl a ha)))
    rw [newestFirst_eq (htimestamp _ fun a ha => (List.mem_insertionSort _).1 ha),
      newestFirst_eq (htimestamp _ fun a ha => (List.mem_insertionSort _).1 ha)]
    exact Library.insertionSort_insertionSort_congr
      (fun a => OrderDual.toDual (instant (timestamp a)))
      fun a ha b hb hinstant =>
        hpair (hties _ (hmem hb) _ (hmem ha) (OrderDual.toDual.injective hinstant).symm)

end Listing

theorem runsWhere_alike (h : SameTables s t) {p q : RunRecord → Bool}
    (hpq : ∀ run ∈ s.store.runs.rows.map StoredRun.record, p run = q run)
    (hlisted : ListedAlike server
      (((s.store.runs.rows.map StoredRun.record).filter p).map RunRecord.startedAt)) :
    sqliteStateStore.runsWhere s p = (postgresStateStore server).runsWhere t q := by
  rw [StateDialect.runsWhere, StateDialect.runsWhere, recent_alike hlisted, ← h.runs,
    List.filter_congr hpq]

theorem evidenceWhere_alike (h : SameTables s t) {p : EvidenceRecord → Bool}
    (hlisted : ListedAlike server ((s.evidence.rows.filter p).map EvidenceRecord.createdAt)) :
    sqliteStateStore.evidenceWhere s p = (postgresStateStore server).evidenceWhere t p := by
  rw [StateDialect.evidenceWhere, StateDialect.evidenceWhere, recent_alike hlisted, ← h.evidence]

/-- Stores that agree give one answer to a read that does not tell them apart. -/
theorem SameTables.read {s t : StateTables} (h : SameTables s t) {read : StateRead}
    (hread : read.Alike server s) :
    sqliteStateStore.read s read = (postgresStateStore server).read t read := by
  obtain ⟨hstorable, hlisted⟩ := hread
  have hsqlite : read.texts.all sqliteStateStore.storable = true := by
    simp [sqliteStateStore]
  rw [StateDialect.read, if_pos hsqlite, StateDialect.read, if_pos hstorable]
  congr 1
  cases read with
  | materializedVersion modelId environment =>
    simp only [StateDialect.answer, Store.materializedVersion, h.modelVersions]
  | seedState name environment =>
    simp only [StateDialect.answer, Store.seedLoad, h.seedLoads]
  | watermark modelId environment =>
    have hmark := congrArg (Option.map Prod.fst)
      (h.watermarks (modelId, environmentColumn environment))
    simp only [Option.map_map] at hmark
    exact congrArg Answer.value hmark
  | runs =>
    have hall : (s.store.runs.rows.map StoredRun.record).filter (fun _ => true) =
        s.store.runs.rows.map StoredRun.record := List.filter_eq_self.2 fun _ _ => rfl
    rw [StateDialect.answer, StateDialect.answer,
      runsWhere_alike server h (fun _ _ => rfl) (by rw [hall]; exact hlisted)]
  | latestRun environment =>
    rw [StateDialect.answer, StateDialect.answer,
      runsWhere_alike server h (fun _ _ => rfl) hlisted]
  | findRuns start =>
    rw [StateDialect.answer, StateDialect.answer, runsWhere_alike server h hlisted.1 hlisted.2]
  | evidenceFor kind subject =>
    rw [StateDialect.answer, StateDialect.answer, evidenceWhere_alike server h hlisted]
  | latestEvidence kind =>
    rw [StateDialect.answer, StateDialect.answer, evidenceWhere_alike server h hlisted]
  | promotions =>
    rw [StateDialect.answer, StateDialect.answer, recent_alike hlisted, h.promotions]

/-- After writes that do not tell the stores apart, the stores agree. -/
theorem same_of_run {writes : List SharedWrite} {st : StateTables × StateTables}
    (heach : (bothStores server).EachStep (fun st w => w.Alike server st.1)
      (StateTables.empty, StateTables.empty) writes)
    (hrun : (bothStores server).run (StateTables.empty, StateTables.empty) writes = some st) :
    SameTables st.1 st.2 := by
  refine StepSystem.EachStep.invariant (bothStores server) (P := fun st => SameTables st.1 st.2)
    (fun st w st' h hw hstep => ?_) (SameTables.refl StateTables.empty) heach hrun
  cases hstep
  exact h.write server hw

/-- After any writes that do not tell the stores apart, every read that does not has one
answer. -/
theorem stores_agree {writes : List SharedWrite} {st : StateTables × StateTables}
    (heach : (bothStores server).EachStep (fun st w => w.Alike server st.1)
      (StateTables.empty, StateTables.empty) writes)
    (hrun : (bothStores server).run (StateTables.empty, StateTables.empty) writes = some st)
    (read : StateRead) (hread : read.Alike server st.1) :
    sqliteStateStore.read st.1 read = (postgresStateStore server).read st.2 read :=
  (same_of_run server heach hrun).read server hread

end Agreement

/-! ## At concrete timestamps -/

/-- A server with the collation of the bytes, at the instants of `microClock`. -/
def microServer : PostgresServer where
  timestamptz value :=
    if value = "2026-01-01T00:00:00.000000100Z" then some 1767225600000000
    else if value = "2026-01-01T00:00:00.000000200Z" then some 1767225600000000
    else if value = "2026-01-01T00:00:00.000003000Z" then some 1767225600000003
    else none
  sortKey value := value.toList.map Char.toNat

/-- The parser on three instants, two of them in one microsecond. -/
@[reducible]
def microClock : Rfc3339 where
  parse value :=
    if value = "2026-01-01T00:00:00.000000100Z" then some 1767225600000000100
    else if value = "2026-01-01T00:00:00.000000200Z" then some 1767225600000000200
    else if value = "2026-01-01T00:00:00.000003000Z" then some 1767225600000003000
    else none

/-- A materialisation of `assay.raw` by a run, recorded at a time. -/
def rawRecorded (runId stamp : String) : SharedWrite where
  write := .recordMaterialized
    { modelId := "assay.raw", environment := none, version := default, target := "main.raw"
      incrementalStrategy := none, incrementalKey := none, adapter := some "duckdb"
      outputIdentity := none, runId := runId, materializedAt := stamp }
  sqliteNow := stamp
  postgresNow := stamp

theorem stores_agree_rawRecorded :
    letI : Rfc3339 := microClock
    let writes := [rawRecorded "run-b" "2026-01-01T00:00:00.000003000Z",
      rawRecorded "run-a" "2026-01-01T00:00:00.000000100Z"]
    ∃ st, (bothStores microServer).run (StateTables.empty, StateTables.empty) writes = some st ∧
      sqliteStateStore.read st.1 (.materializedVersion "assay.raw" none) =
        (postgresStateStore microServer).read st.2 (.materializedVersion "assay.raw" none) := by
  have heach : @StepSystem.EachStep _ _ (@bothStores microClock microServer)
      (fun st w => @SharedWrite.Alike microClock microServer st.1 w)
      (StateTables.empty, StateTables.empty)
      [rawRecorded "run-b" "2026-01-01T00:00:00.000003000Z",
        rawRecorded "run-a" "2026-01-01T00:00:00.000000100Z"] := by
    refine ⟨⟨by decide, trivial⟩, fun st hst => ⟨⟨by decide, ?_⟩, fun _ _ => trivial⟩⟩
    cases hst
    show @ComparesAlike microClock microServer _ _
    decide
  exact ⟨_, rfl, @stores_agree microClock microServer _ _ heach rfl _ ⟨by decide, trivial⟩⟩

/-- An older materialisation of the same microsecond is dropped by one store and replaces
the newer one in the other. -/
theorem nanoseconds_lost :
    letI : Rfc3339 := microClock
    let writes := [rawRecorded "run-b" "2026-01-01T00:00:00.000000200Z",
      rawRecorded "run-a" "2026-01-01T00:00:00.000000100Z"]
    ∃ st, (bothStores microServer).run (StateTables.empty, StateTables.empty) writes = some st ∧
      sqliteStateStore.read st.1 (.materializedVersion "assay.raw" none) ≠
        (postgresStateStore microServer).read st.2 (.materializedVersion "assay.raw" none) := by
  refine ⟨_, rfl, ?_⟩
  decide

end PhloTransform.Engine
