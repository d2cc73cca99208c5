import PhloTransform.Core.TypeText
import PhloTransform.Engine.Probes
import PhloTransform.Engine.WatermarkScope
import PhloTransform.Engine.Workspace

/-!
# Full rebuilds that the schema demands

The planner compares the types that the analysis infers with the types of the live columns,
which it parses from the adapter's words.  A type can be unknown on both sides: inference
does not know every expression, and the parser does not know every spelling.

Main results:

- Theorem `existingColumnSafety_needsRebuild_eq_false_iff`: a column that is kept demands no
  rebuild when its type is kept or widened.
- Theorem `Planner.decide_build_of_changed`: a recorded model of another version is built.
-/

namespace PhloTransform

/-! ## Types that are kept or widened -/

namespace Core

namespace DataType

theorem evolves_iff_of_unknown {desired current : DataType}
    (h : desired = unknown ∨ current = unknown) :
    desired.evolves current = true ↔ (desired = unknown ↔ current = unknown) := by
  have hnumeric : (desired.isNumeric && current.isNumeric) = false := by
    rcases h with rfl | rfl
    · rfl
    · rw [Bool.and_comm]
      rfl
  rw [evolves, hnumeric, Bool.false_and, Bool.or_false, decide_eq_true_iff]
  rcases h with rfl | rfl
  · exact ⟨fun hsame => ⟨fun _ => hsame.symm, fun _ => rfl⟩, fun hboth => (hboth.1 rfl).symm⟩
  · exact ⟨fun hsame => ⟨fun _ => rfl, fun _ => hsame⟩, fun hboth => hboth.2 rfl⟩

end DataType

variable {desired current : List SchemaColumn}

theorem existingColumnSafety_needsRebuild_eq_false_iff {column candidate : SchemaColumn}
    (h : (desired.find? fun candidate => candidate.name == column.name) = some candidate) :
    (existingColumnSafety desired column).needsRebuild = false ↔
      candidate.dataType.evolves column.dataType = true := by
  unfold existingColumnSafety DataType.evolves
  simp only [h]
  by_cases hsame : candidate.dataType = column.dataType
  · simp [hsame, SchemaChangeSafety.needsRebuild]
  · rw [if_pos hsame, decide_eq_false hsame, Bool.false_or]
    cases hdesired : candidate.dataType.isNumeric with
    | false => simp [SchemaChangeSafety.needsRebuild]
    | true =>
      cases hcurrent : column.dataType.isNumeric with
      | false => simp [SchemaChangeSafety.needsRebuild]
      | true =>
        rw [DataType.isKnown_of_isNumeric hdesired, DataType.isKnown_of_isNumeric hcurrent]
        by_cases hwide : candidate.dataType.widen column.dataType = candidate.dataType
        · simp [hwide, SchemaChangeSafety.needsRebuild]
        · simp [hwide, SchemaChangeSafety.needsRebuild]

/-- A column of both sides whose type is unknown on either side demands no full rebuild. -/
def UnknownTypesAreSafe (desired current : List SchemaColumn) : Prop :=
  ∀ column ∈ current, ∀ candidate,
    (desired.find? fun candidate => candidate.name == column.name) = some candidate →
    candidate.dataType = .unknown ∨ column.dataType = .unknown →
    (existingColumnSafety desired column).needsRebuild = false

theorem unknownTypesAreSafe_iff :
    UnknownTypesAreSafe desired current ↔
      ∀ column ∈ current, ∀ candidate,
        (desired.find? fun candidate => candidate.name == column.name) = some candidate →
        (candidate.dataType = .unknown ↔ column.dataType = .unknown) := by
  constructor
  · intro h column hcolumn candidate hfind
    by_cases hunknown : candidate.dataType = .unknown ∨ column.dataType = .unknown
    · have hsafe := h column hcolumn candidate hfind hunknown
      rw [existingColumnSafety_needsRebuild_eq_false_iff hfind] at hsafe
      exact (DataType.evolves_iff_of_unknown hunknown).1 hsafe
    · rw [not_or] at hunknown
      exact iff_of_false hunknown.1 hunknown.2
  · intro h column hcolumn candidate hfind hunknown
    rw [existingColumnSafety_needsRebuild_eq_false_iff hfind,
      DataType.evolves_iff_of_unknown hunknown]
    exact h column hcolumn candidate hfind

end Core

namespace Engine

open Core (CompiledModel DataType ModelId ModelSchema Relation SchemaColumn)

/-! ## Columns in the adapter's words -/

def ColumnInfo.relationColumn (column : ColumnInfo) : RelationColumn where
  name := column.name
  dataType := DataType.parseTrino column.dataType
  nullable := column.nullable

/-- The columns of a relation, as `relation_columns` answers. -/
abbrev ColumnReader := Relation → Except EngineError (List ColumnInfo)

/-- The check of a model's inferred schema against the reported columns. -/
def schemaCheck (schema : ModelId → ModelSchema) (columns : ColumnReader)
    (model : CompiledModel) : Bool :=
  demandsRebuild (schema model.id)
    ((columns model.target).map (List.map ColumnInfo.relationColumn))

/-- A relation that has exactly the inferred columns demands a rebuild when the type of one
of them is neither kept nor widened. -/
theorem demandsRebuild_eq_false_iff {schema : ModelSchema} {live : List ColumnInfo}
    (hnames : live.map ColumnInfo.name = schema.columns.map SchemaColumn.name) :
    demandsRebuild schema (.ok (live.map ColumnInfo.relationColumn)) = false ↔
      (schema.known = true →
        ∀ column ∈ live, ∀ inferred,
          (schema.columns.find? fun candidate => candidate.name == column.name) = some inferred →
          inferred.dataType.evolves (DataType.parseTrino column.dataType) = true) := by
  cases hknown : schema.known with
  | false => simp [demandsRebuild, hknown]
  | true =>
    have hrebuild : demandsRebuild schema (.ok (live.map ColumnInfo.relationColumn)) =
        (Core.classifySchemaChange schema.columns ((live.map ColumnInfo.relationColumn).map
          RelationColumn.currentColumn)).needsRebuild := by
      rw [demandsRebuild, hknown, Bool.true_and]
    rw [hrebuild, ← Bool.not_eq_true, Core.classifySchemaChange_needsRebuild_iff]
    push Not
    constructor
    · intro h _ column hcolumn inferred hfind
      have hsafe := h column.relationColumn.currentColumn
        (List.mem_map_of_mem (List.mem_map_of_mem hcolumn))
      rw [ne_eq, Bool.not_eq_true] at hsafe
      have hname : (schema.columns.find? fun candidate =>
          candidate.name == column.relationColumn.currentColumn.name) = some inferred := hfind
      exact (Core.existingColumnSafety_needsRebuild_eq_false_iff hname).1 hsafe
    · intro h current hcurrent
      obtain ⟨reported, hreported, rfl⟩ := List.mem_map.1 hcurrent
      obtain ⟨column, hcolumn, rfl⟩ := List.mem_map.1 hreported
      have hname : column.name ∈ schema.columns.map SchemaColumn.name := by
        rw [← hnames]
        exact List.mem_map_of_mem hcolumn
      obtain ⟨wanted, hwanted, hsame⟩ := List.mem_map.1 hname
      cases hfind : schema.columns.find? fun candidate => candidate.name == column.name with
      | none =>
        rw [List.find?_eq_none] at hfind
        exact absurd (beq_iff_eq.2 hsame) (hfind wanted hwanted)
      | some inferred =>
        rw [ne_eq, Bool.not_eq_true]
        have hname : (schema.columns.find? fun candidate =>
            candidate.name == column.relationColumn.currentColumn.name) = some inferred := hfind
        exact (Core.existingColumnSafety_needsRebuild_eq_false_iff hname).2
          (h rfl column hcolumn inferred hfind)

/-! ## Models whose sources changed -/

theorem Planner.decide_build_of_changed {adapterName : String} {hasState force : Bool}
    {environment : Option String} {model : CompiledModel} {evidence : ModelEvidence}
    {record : MaterializedRecord} (hcurrent : evidence.current = some record)
    (hversion : record.version.hash ≠ model.version.hash) :
    (Planner.decide adapterName hasState force environment model evidence).action = .build := by
  unfold Planner.decide
  simp only [hcurrent, hversion, if_false]
  split_ifs <;> rfl

namespace Planning

/-- The planner reads the live columns through the adapter. -/
def withColumns (p : Planning) (schema : ModelId → ModelSchema) (columns : ColumnReader) :
    Planning :=
  { p with view := { p.view with schemaForcesRebuild := schemaCheck schema columns } }

section Evidence

variable [Rfc3339]

/-- The model was built before, by the strategy and the key it has now, at a version that a
change of its sources has replaced. -/
structure SourceChanged (p : Planning) (exist : Relation → Bool) (model : CompiledModel)
    (record : MaterializedRecord) : Prop where
  unblocked : p.blocked = false
  live : p.existsAt exist model.target.display = true
  recorded : p.materialized model.id.logicalName = some record
  version : record.version.hash ≠ model.version.hash
  strategy : record.incrementalStrategy = model.incrementalStrategy
  key : record.incrementalKey = model.incrementalKey

/-- Such a model is rebuilt in full when the schema check says so, and for nothing else. -/
theorem SourceChanged.fullRebuild_eq {p : Planning} {exist : Relation → Bool}
    {model : CompiledModel} {record : MaterializedRecord}
    (h : p.SourceChanged exist model record) :
    (p.plannedModel exist model).fullRebuild = p.view.schemaForcesRebuild model := by
  have hbuild : (p.decideModel exist model).action = .build := by
    rw [decideModel, h.unblocked, if_neg Bool.false_ne_true]
    exact Planner.decide_build_of_changed h.recorded h.version
  have hsame : p.incrementalChanged model = false := by
    simp [incrementalChanged, h.recorded, h.strategy, h.key]
  simp [plannedModel, hbuild, hsame, h.unblocked, h.live]

/-- An unknown type demands no rebuild exactly when it is unknown on both sides.  With a
source change alone, a model over a relation with exactly its columns stays incremental
exactly when the adapter's spelling of each column is read as the inferred type, or as a
narrower number. -/
theorem schemaRebuild_iff {p : Planning} {schema : ModelId → ModelSchema}
    {columns : ColumnReader} {exist : Relation → Bool} {planId : String} {plan : Plan}
    {model : CompiledModel} {row : PlannedModel} {record : MaterializedRecord}
    {live : List ColumnInfo} (hexist : p.view.relationsExist = some exist)
    (hplan : (p.withColumns schema columns).plan planId = .ok plan)
    (hmodel : model ∈ p.orderModels) (hrow : row ∈ plan.models) (hid : row.id = model.id)
    (hchanged : (p.withColumns schema columns).SourceChanged exist model record)
    (hlive : columns model.target = .ok live)
    (hnames : live.map ColumnInfo.name = (schema model.id).columns.map SchemaColumn.name) :
    (∀ desired current, Core.UnknownTypesAreSafe desired current ↔
      ∀ column ∈ current, ∀ candidate,
        (desired.find? fun candidate => candidate.name == column.name) = some candidate →
        (candidate.dataType = .unknown ↔ column.dataType = .unknown)) ∧
    (row.fullRebuild = false ↔
      ((schema model.id).known = true →
        ∀ column ∈ live, ∀ inferred,
          ((schema model.id).columns.find? fun candidate =>
            candidate.name == column.name) = some inferred →
          inferred.dataType.evolves (DataType.parseTrino column.dataType) = true)) := by
  refine ⟨fun _ _ => Core.unknownTypesAreSafe_iff, ?_⟩
  obtain ⟨found, hfound, -, -, -, hmodels, -⟩ := plan_eq_ok hplan
  obtain rfl : exist = found := Option.some.inj (hexist.symm.trans hfound)
  rw [hmodels] at hrow
  obtain ⟨other, hother, rfl⟩ := List.mem_map.1 hrow
  have hnodup : ((p.withColumns schema columns).orderModels.map CompiledModel.id).Nodup := by
    rw [orderModels_id]
    exact order_nodup _
  obtain rfl : other = model := List.inj_on_of_nodup_map hnodup hother hmodel hid
  have hforced : (p.withColumns schema columns).view.schemaForcesRebuild other =
      demandsRebuild (schema other.id) (.ok (live.map ColumnInfo.relationColumn)) := by
    have hcheck : schemaCheck schema columns other = demandsRebuild (schema other.id)
        ((columns other.target).map (List.map ColumnInfo.relationColumn)) := rfl
    rw [hlive] at hcheck
    exact hcheck
  rw [hchanged.fullRebuild_eq, hforced]
  exact demandsRebuild_eq_false_iff hnames

end Evidence

end Planning

namespace Sample

def payloadSchema (type : DataType) : ModelSchema where
  columns :=
    [{ name := "at", dataType := .timestamp, nullability := .unknown },
      { name := "payload", dataType := type, nullability := .unknown }]
  known := true

def payloadColumns (type : String) : List ColumnInfo :=
  [{ name := "at", dataType := "timestamp(6)", nullable := true },
    { name := "payload", dataType := type, nullable := true }]

def planPayload (inferred : DataType) (reported : String) : Planning :=
  (planEvents none).withColumns (fun _ => payloadSchema inferred) fun _ =>
    .ok (payloadColumns reported)

theorem planPayload_sourceChanged (inferred : DataType) (reported : String) :
    @Planning.SourceChanged januaryClock (planPayload inferred reported) (fun _ => true)
      resumedModel (eventsRecord (some "main") "run-2" "2026-01-02T00:00:00.000000000Z") := by
  have hlive : (planEvents none).existsAt (fun _ => true) resumedModel.target.display = true := by
    decide +kernel
  have hrecorded : @Planning.materialized (planEvents none) januaryClock
      resumedModel.id.logicalName =
        some (eventsRecord (some "main") "run-2" "2026-01-02T00:00:00.000000000Z") := by
    decide +kernel
  exact @Planning.SourceChanged.mk januaryClock _ _ _ _ rfl hlive hrecorded (by decide +kernel)
    rfl rfl

def payloadRows (inferred : DataType) (reported : String) : List PlannedModel :=
  match @Planning.plan (planPayload inferred reported) januaryClock "plan-1" with
  | .ok plan => plan.models
  | .error _ => []

theorem plan_of_payloadRows {inferred : DataType} {reported : String} {row : PlannedModel}
    (h : row ∈ payloadRows inferred reported) :
    ∃ plan, @Planning.plan (planPayload inferred reported) januaryClock "plan-1" = .ok plan ∧
      row ∈ plan.models := by
  unfold payloadRows at h
  split at h
  · next plan hplan => exact ⟨plan, hplan, h⟩
  · cases h

/-- Inference does not know the payload's type, so a change of the sources alone rebuilds the
model in full. -/
theorem fullRebuild_of_unknown_payload :
    @Planning.SourceChanged januaryClock (planPayload .unknown "varchar") (fun _ => true)
        resumedModel (eventsRecord (some "main") "run-2" "2026-01-02T00:00:00.000000000Z") ∧
      (payloadColumns "varchar").map ColumnInfo.name =
        (payloadSchema .unknown).columns.map SchemaColumn.name ∧
      (payloadRows .unknown "varchar").map PlannedModel.fullRebuild = [true] ∧
      ¬ Core.UnknownTypesAreSafe (payloadSchema .unknown).columns
        (payloadSchema .varchar).columns := by
  refine ⟨planPayload_sourceChanged _ _, rfl, by decide +kernel, ?_⟩
  intro hsafe
  have hpayload := hsafe { name := "payload", dataType := .varchar, nullability := .unknown }
    (by simp [payloadSchema]) { name := "payload", dataType := .unknown, nullability := .unknown }
    rfl (.inl rfl)
  exact absurd hpayload (by decide)

/-- The same model with a payload of a known type stays incremental. -/
theorem schemaRebuild_iff_varchar :
    ∃ row ∈ payloadRows .varchar "varchar(10)", row.fullRebuild = false := by
  have hrow : (payloadRows .varchar "varchar(10)").map PlannedModel.id = [resumedModel.id] := by
    decide +kernel
  obtain ⟨row, hmem, hid⟩ : ∃ row ∈ payloadRows .varchar "varchar(10)",
      row.id = resumedModel.id := by
    rw [← List.mem_map, hrow]
    simp
  obtain ⟨plan, hplan, hplanned⟩ := plan_of_payloadRows hmem
  have hstays := (@Planning.schemaRebuild_iff januaryClock (planEvents none)
    (fun _ => payloadSchema .varchar) (fun _ => .ok (payloadColumns "varchar(10)")) (fun _ => true)
    "plan-1" plan resumedModel row
    (eventsRecord (some "main") "run-2" "2026-01-02T00:00:00.000000000Z")
    (payloadColumns "varchar(10)") rfl hplan (by decide +kernel) hplanned hid
    (planPayload_sourceChanged _ _) rfl rfl).2
  refine ⟨row, hmem, hstays.2 ?_⟩
  intro _ column hcolumn inferred hfind
  simp only [payloadColumns, List.mem_cons, List.not_mem_nil, or_false] at hcolumn
  rcases hcolumn with rfl | rfl
  · cases hfind
    decide +kernel
  · cases hfind
    decide +kernel

end Sample

end Engine
end PhloTransform
