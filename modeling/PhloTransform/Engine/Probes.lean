import Mathlib.Data.Prod.Lex
import PhloTransform.Core.Relation
import PhloTransform.Library.NestedText
import PhloTransform.Library.Slots

/-!
# Batched probes of the Trino adapter

The planner asks for the existence and for the columns of many relations at once.  The
Trino adapter answers a batch from `information_schema`, one query for each catalog and
schema, and goes back to one query for each relation where that fails.  A query that
reads a relation resolves its name without regard to letter case; the text that
`information_schema` is asked for is compared with the stored name as it is.

Main results:

- Theorem `Trino.relationsExist_toOption`: what a batch of existence probes answers.
- Theorem `Trino.relationColumnsMany_eq`: what a batch of column probes answers.
-/

namespace PhloTransform.Engine

open Core (Relation)
open Library (Slots groups mem_groups mem_flatMap_groups error_or_ok mapM_eq_ok mapM_eq_error
  toOption_mapM_eq_iff mem_take_iff_of_filter_zipIdx)

/-! ## The warehouse -/

/-- What an adapter reports of a failed query. -/
structure QueryError where
  code : String
  message : String
deriving Repr, DecidableEq

def containsText (text : List Char) : List Char → Bool
  | [] => text.isEmpty
  | c :: rest => text.isPrefixOf (c :: rest) || containsText text rest

def isMissingRelation (error : QueryError) : Bool :=
  decide (error.code ∈ ["TABLE_NOT_FOUND", "SCHEMA_NOT_FOUND", "CATALOG_NOT_FOUND", "NOT_FOUND"]) ||
    containsText "does not exist".toList (error.message.toList.map Char.toLower)

/-- Basic column metadata. -/
structure ColumnInfo where
  name : String
  dataType : String
  nullable : Bool
deriving Repr, DecidableEq

/-- A column as Trino lists it, by name and type. -/
abbrev ColumnRow := String × String

def ColumnInfo.ofRow (row : ColumnRow) : ColumnInfo where
  name := row.1
  dataType := row.2
  nullable := true

/-- A relation that the warehouse has. -/
structure StoredRelation where
  columns : List ColumnRow
  columns_ne_nil : columns ≠ []
  listed : Bool
  select : Option QueryError
  describe : Option QueryError

/-- A warehouse that nothing fails in by chance. -/
structure Trino where
  lower : String → String
  lower_lower : ∀ name, lower (lower name) = lower name
  sessionCatalog : Option String
  /-- The relations by catalog, schema and name as they are stored. -/
  stored : String → String → String → Option StoredRelation
  stored_lower : ∀ catalog schema table relation, stored catalog schema table = some relation →
    lower schema = schema ∧ lower table = table
  /-- How the query of a catalog's `information_schema` fails, when it does. -/
  informationSchema : String → Option QueryError
  missing : Relation → QueryError
  missing_isMissing : ∀ relation, isMissingRelation (missing relation) = true

namespace Trino

variable (w : Trino)

def resolve (relation : Relation) : Option StoredRelation :=
  (relation.catalog.or w.sessionCatalog).bind fun catalog =>
    w.stored (w.lower catalog) (w.lower relation.schema) (w.lower relation.table)

/-- `SELECT 1 FROM relation LIMIT 0`. -/
def select (relation : Relation) : Except QueryError Unit :=
  match w.resolve relation with
  | none => .error (w.missing relation)
  | some stored =>
    match stored.select with
    | some error => .error error
    | none => .ok ()

/-- `DESCRIBE relation`. -/
def describe (relation : Relation) : Except QueryError (List ColumnRow) :=
  match w.resolve relation with
  | none => .error (w.missing relation)
  | some stored =>
    match stored.describe with
    | some error => .error error
    | none => .ok stored.columns

/-- A relation under exactly this schema and name, as `information_schema` lists it. -/
def lookup (catalog schema table : String) : Option StoredRelation :=
  (w.stored (w.lower catalog) schema table).filter fun stored => stored.listed

/-- The listed relations among these names. -/
def listing (catalog schema : String) (names : List String) : List (String × StoredRelation) :=
  (names.dedup.insertionSort (· ≤ ·)).filterMap fun table =>
    (w.lookup catalog schema table).map fun stored => (table, stored)

/-- `SELECT table_name FROM catalog.information_schema.tables`, of these names. -/
def tableNames (catalog schema : String) (names : List String) :
    Except QueryError (List String) :=
  match w.informationSchema catalog with
  | some error => .error error
  | none => .ok ((w.listing catalog schema names).map Prod.fst)

/-- The same of `information_schema.columns`: each row with its table. -/
def columnRows (catalog schema : String) (names : List String) :
    Except QueryError (List (String × ColumnRow)) :=
  match w.informationSchema catalog with
  | some error => .error error
  | none => .ok ((w.listing catalog schema names).flatMap fun entry =>
    entry.2.columns.map fun row => (entry.1, row))

/-! ## One by one -/

def relationExists (relation : Relation) : Except QueryError Bool :=
  match w.select relation with
  | .ok _ => .ok true
  | .error error => if isMissingRelation error then .ok false else .error error

def relationColumns (relation : Relation) : Except QueryError (List ColumnInfo) :=
  (w.describe relation).map fun rows => rows.map ColumnInfo.ofRow

/-- The default `Adapter::relations_exist`. -/
def relationsExistSerial (relations : List Relation) : Except QueryError (List Bool) :=
  relations.mapM w.relationExists

/-- The default `Adapter::relation_columns_many`. -/
def relationColumnsManySerial (relations : List Relation) :
    List (Except QueryError (List ColumnInfo)) :=
  relations.map w.relationColumns

/-! ## In batches -/

/-- The catalog and the schema of a relation with an explicit catalog. -/
def groupKey (request : Relation × Nat) : Option (String ×ₗ String) :=
  request.1.catalog.map fun catalog => toLex (catalog, request.1.schema)

/-- One group of an existence batch; a failed query falls back to the group's relations. -/
def existGroup (slots : Slots Bool) (group : (String ×ₗ String) × List (Relation × Nat)) :
    Except QueryError (Slots Bool) :=
  let (catalog, schema) := ofLex group.1
  match w.tableNames catalog schema (group.2.map fun request => request.1.table) with
  | .ok present => .ok (Slots.fill (fun request => decide (request.1.table ∈ present)) group.2 slots)
  | .error _ => Slots.fillM (fun request => w.relationExists request.1) group.2 slots

/-- `relations_exist`. -/
def relationsExist (relations : List Relation) : Except QueryError (List Bool) := do
  let slots ← (groups groupKey relations.zipIdx).foldlM w.existGroup (Slots.start false)
  let slots ← Slots.fillM (fun request => w.relationExists request.1)
    (relations.zipIdx.filter fun request => !slots.probed request.2) slots
  return (List.range relations.length).map slots.value

abbrev Tables := String → Option (List ColumnInfo)

def pushColumn (tables : Tables) (row : String × ColumnRow) : Tables :=
  Function.update tables row.1 (some ((tables row.1).getD [] ++ [.ofRow row.2]))

/-- The columns of the tables, as the rows of a group come. -/
def byTable (rows : List (String × ColumnRow)) : Tables :=
  rows.foldl pushColumn fun _ => none

/-- Answer one relation of a group: its columns are taken out of the map. -/
def takeColumns (state : Slots (Except QueryError (List ColumnInfo)) × Tables)
    (request : Relation × Nat) :
    Slots (Except QueryError (List ColumnInfo)) × Tables :=
  match state.2 request.1.table with
  | some columns =>
    (state.1.set request.2 (.ok columns), Function.update state.2 request.1.table none)
  | none =>
    (state.1.set request.2 (.error
      { code := "TABLE_NOT_FOUND", message := request.1.display ++ " does not exist" }),
      state.2)

/-- One group of a column batch; a failed query leaves its relations to the last pass. -/
def columnsGroup (slots : Slots (Except QueryError (List ColumnInfo)))
    (group : (String ×ₗ String) × List (Relation × Nat)) :
    Slots (Except QueryError (List ColumnInfo)) :=
  let (catalog, schema) := ofLex group.1
  match w.columnRows catalog schema (group.2.map fun request => request.1.table) with
  | .ok rows => (group.2.foldl takeColumns (slots, byTable rows)).1
  | .error _ => slots

/-- `relation_columns_many`. -/
def relationColumnsMany (relations : List Relation) :
    List (Except QueryError (List ColumnInfo)) :=
  let unprobed := Slots.start (.error { code := "UNPROBED", message := "not probed" })
  let slots := (groups groupKey relations.zipIdx).foldl w.columnsGroup unprobed
  let slots := Slots.fill (fun request => w.relationColumns request.1)
    (relations.zipIdx.filter fun request => !slots.probed request.2) slots
  (List.range relations.length).map slots.value

/-! ## What a batch answers for one relation -/

/-- A relation that a batch answers from a listing. -/
def Batched (relation : Relation) : Prop :=
  ∃ catalog, relation.catalog = some catalog ∧ w.informationSchema catalog = none

instance (relation : Relation) : Decidable (w.Batched relation) :=
  match h : relation.catalog with
  | none => isFalse fun ⟨_, hcatalog, _⟩ => by simp [h] at hcatalog
  | some catalog =>
    decidable_of_iff (w.informationSchema catalog = none) (by simp [Batched, h])

/-- The relation as its listing shows it. -/
def shown (relation : Relation) : Option StoredRelation :=
  relation.catalog.bind fun catalog => w.lookup catalog relation.schema relation.table

def existAnswer (relation : Relation) : Except QueryError Bool :=
  if w.Batched relation then .ok (w.shown relation).isSome else w.relationExists relation

/-- The columns of a table, or the error of a table that is not listed. -/
def columnsOf (relation : Relation) :
    Option (List ColumnInfo) → Except QueryError (List ColumnInfo)
  | some columns => .ok columns
  | none => .error
      { code := "TABLE_NOT_FOUND", message := relation.display ++ " does not exist" }

/-- A batch gives the columns of a relation to the first of the requests for it. -/
def columnAnswer (relations : List Relation) (request : Relation × Nat) :
    Except QueryError (List ColumnInfo) :=
  if w.Batched request.1 then
    columnsOf request.1 (if request.1 ∈ relations.take request.2 then none
      else (w.shown request.1).map fun stored => stored.columns.map .ofRow)
  else w.relationColumns request.1

variable {w}

theorem groupKey_eq_some {request : Relation × Nat} {catalog schema : String} :
    groupKey request = some (toLex (catalog, schema)) ↔
      request.1.catalog = some catalog ∧ request.1.schema = schema := by
  simp [groupKey]

theorem batched_iff {relation : Relation} {catalog : String}
    (h : relation.catalog = some catalog) :
    w.Batched relation ↔ w.informationSchema catalog = none := by
  simp [Batched, h]

theorem not_batched {relation : Relation} (h : relation.catalog = none) : ¬ w.Batched relation := by
  simp [Batched, h]

/-! ## Listings -/

theorem mem_listing {catalog schema : String} {names : List String}
    {entry : String × StoredRelation} :
    entry ∈ w.listing catalog schema names ↔
      entry.1 ∈ names ∧ w.lookup catalog schema entry.1 = some entry.2 := by
  rw [listing, List.mem_filterMap]
  constructor
  · rintro ⟨table, htable, hentry⟩
    rw [List.mem_insertionSort, List.mem_dedup] at htable
    obtain ⟨stored, hstored, rfl⟩ := Option.map_eq_some_iff.1 hentry
    exact ⟨htable, hstored⟩
  · rintro ⟨hname, hlookup⟩
    refine ⟨entry.1, ?_, by rw [hlookup]; rfl⟩
    rw [List.mem_insertionSort, List.mem_dedup]
    exact hname

theorem nodup_listing (catalog schema : String) (names : List String) :
    ((w.listing catalog schema names).map Prod.fst).Nodup := by
  have hkeys : ∀ tables : List String, tables.Nodup →
      ((tables.filterMap fun table =>
        (w.lookup catalog schema table).map fun stored => (table, stored)).map
          Prod.fst).Nodup := by
    intro tables htables
    refine List.Sublist.nodup ?_ htables
    induction tables with
    | nil => exact List.Sublist.refl _
    | cons table tables ih =>
      have hrest := ih (List.nodup_cons.1 htables).2
      rw [List.filterMap_cons]
      cases w.lookup catalog schema table with
      | none => exact hrest.cons _
      | some stored => exact hrest.cons_cons _
  exact hkeys _ ((List.perm_insertionSort _ _).nodup_iff.2 (List.nodup_dedup _))

/-! ## Existence -/

theorem existGroup_eq {group : (String ×ₗ String) × List (Relation × Nat)}
    (hgroup : ∀ request ∈ group.2, groupKey request = some group.1) (slots : Slots Bool) :
    w.existGroup slots group =
      Slots.fillM (fun request => w.existAnswer request.1) group.2 slots := by
  obtain ⟨⟨catalog, schema⟩, requests⟩ := group
  have hkey : ∀ request ∈ requests,
      request.1.catalog = some catalog ∧ request.1.schema = schema :=
    fun request hrequest => groupKey_eq_some.1 (hgroup request hrequest)
  change (match w.tableNames catalog schema (requests.map fun request => request.1.table) with
    | .ok present =>
      Except.ok (Slots.fill (fun request : Relation × Nat =>
        decide (request.1.table ∈ present)) requests slots)
    | .error _ => Slots.fillM (fun request => w.relationExists request.1) requests slots) = _
  rw [tableNames]
  cases hschema : w.informationSchema catalog with
  | some error =>
    refine Slots.fillM_congr fun request hrequest => ?_
    have hbatched : ¬ w.Batched request.1 := by
      rw [batched_iff (hkey request hrequest).1, hschema]
      exact Option.some_ne_none error
    rw [existAnswer, if_neg hbatched]
  | none =>
    refine (Slots.fillM_eq_ok _ fun request hrequest => ?_).symm
    obtain ⟨hcatalog, hschemas⟩ := hkey request hrequest
    rw [existAnswer, if_pos ((batched_iff hcatalog).2 hschema), shown, hcatalog]
    congr 1
    rw [Bool.eq_iff_iff, Option.isSome_iff_exists, decide_eq_true_eq, List.mem_map]
    constructor
    · rintro ⟨stored, hstored⟩
      rw [← hschemas]
      exact ⟨(request.1.table, stored),
        mem_listing.2 ⟨List.mem_map.2 ⟨request, hrequest, rfl⟩, hstored⟩, rfl⟩
    · rintro ⟨entry, hentry, htable⟩
      rw [← hschemas, mem_listing, htable] at hentry
      exact ⟨entry.2, hentry.2⟩

section Exist

variable {relations : List Relation}

theorem existGroup_groups : ∀ group ∈ groups groupKey relations.zipIdx, ∀ slots,
    w.existGroup slots group =
      Slots.fillM (fun request => w.existAnswer request.1) group.2 slots := by
  intro group hgroup slots
  refine existGroup_eq (fun request hrequest => ?_) slots
  rw [(mem_groups.1 hgroup).2, List.mem_filter, decide_eq_true_eq] at hrequest
  exact hrequest.2

theorem grouped_mem_zipIdx : ∀ request ∈ (groups groupKey relations.zipIdx).flatMap Prod.snd,
    request ∈ relations.zipIdx :=
  fun _ h => (mem_flatMap_groups.1 h).1

theorem relationExists_eq_existAnswer : ∀ request ∈ relations.zipIdx,
    request ∉ (groups groupKey relations.zipIdx).flatMap Prod.snd →
      w.relationExists request.1 = w.existAnswer request.1 := by
  intro request hrequest hnot
  rw [mem_flatMap_groups, not_and, groupKey, Option.isSome_map, Bool.not_eq_true,
    Option.isSome_eq_false_iff, Option.isNone_iff_eq_none] at hnot
  rw [existAnswer, if_neg (not_batched (hnot hrequest))]

theorem relationsExist_eq_ok {value : Relation → Bool}
    (h : ∀ relation ∈ relations, w.existAnswer relation = .ok (value relation)) :
    w.relationsExist relations = .ok (relations.map value) := by
  have hvalue : ∀ request ∈ relations.zipIdx,
      w.existAnswer request.1 = .ok (value request.1) :=
    fun request hrequest => h _ (List.fst_mem_of_mem_zipIdx hrequest)
  have hfirst := Slots.fillM_eq_ok (Slots.start false) fun request hrequest =>
    hvalue request (grouped_mem_zipIdx request hrequest)
  have hlast : ∀ request ∈ relations.zipIdx.filter (fun request =>
      !(Slots.fill (fun request => value request.1)
        ((groups groupKey relations.zipIdx).flatMap Prod.snd)
          (Slots.start false)).probed request.2),
      w.relationExists request.1 = .ok (value request.1) := by
    intro request hrequest
    obtain ⟨hitem, hnot⟩ := (Slots.mem_unprobed _ false grouped_mem_zipIdx).1 hrequest
    exact (relationExists_eq_existAnswer request hitem hnot).trans (hvalue request hitem)
  have hall := Slots.map_value_fill (fun request => value request.1) false
    grouped_mem_zipIdx fun request (_ : request ∈ relations.zipIdx) _ => rfl
  have hmap : relations.zipIdx.map (fun request => value request.1) = relations.map value := by
    calc relations.zipIdx.map (fun request => value request.1)
        = (relations.zipIdx.map Prod.fst).map value := List.map_map.symm
      _ = relations.map value := by rw [List.zipIdx_map_fst]
  rw [relationsExist, Slots.foldlM_fillM existGroup_groups, hfirst]
  change (Slots.fillM _ _ _ >>= _) = _
  rw [Slots.fillM_eq_ok _ hlast]
  change Except.ok _ = _
  rw [hall, hmap]

theorem relationsExist_eq_error
    (h : ∃ relation ∈ relations, ∃ e, w.existAnswer relation = .error e) :
    ∃ e, w.relationsExist relations = .error e := by
  rw [relationsExist, Slots.foldlM_fillM existGroup_groups]
  rcases error_or_ok (fun request : Relation × Nat => w.existAnswer request.1)
    ((groups groupKey relations.zipIdx).flatMap Prod.snd) with hfirst | ⟨value, hfirst⟩
  · obtain ⟨e, he⟩ := Slots.fillM_eq_error (Slots.start false) hfirst
    exact ⟨e, by rw [he]; rfl⟩
  · obtain ⟨relation, hrelation, e, he⟩ := h
    obtain ⟨i, hi⟩ := List.mem_iff_getElem?.1 hrelation
    have hrequest : (relation, i) ∈ relations.zipIdx := List.mem_zipIdx_iff_getElem?.2 hi
    have hnot : (relation, i) ∉ (groups groupKey relations.zipIdx).flatMap Prod.snd := by
      intro hmem
      have hok := hfirst _ hmem
      rw [he] at hok
      cases hok
    have hfails : w.relationExists relation = .error e :=
      (relationExists_eq_existAnswer _ hrequest hnot).trans he
    have hrest : ∃ request ∈ relations.zipIdx.filter (fun request =>
        !(Slots.fill value ((groups groupKey relations.zipIdx).flatMap Prod.snd)
          (Slots.start false)).probed request.2), ∃ e, w.relationExists request.1 = .error e :=
      ⟨(relation, i), (Slots.mem_unprobed value false grouped_mem_zipIdx).2 ⟨hrequest, hnot⟩,
        e, hfails⟩
    obtain ⟨e', he'⟩ := Slots.fillM_eq_error
      (Slots.fill value ((groups groupKey relations.zipIdx).flatMap Prod.snd)
        (Slots.start false)) hrest
    refine ⟨e', ?_⟩
    rw [Slots.fillM_eq_ok _ hfirst]
    change (Slots.fillM _ _ _ >>= _) = _
    rw [he']
    rfl

theorem relationsExist_toOption (relations : List Relation) :
    (w.relationsExist relations).toOption = (relations.mapM w.existAnswer).toOption := by
  rcases error_or_ok w.existAnswer relations with hfails | ⟨value, hvalue⟩
  · obtain ⟨e, he⟩ := mapM_eq_error hfails
    obtain ⟨e', he'⟩ := relationsExist_eq_error hfails
    rw [he, he']
    rfl
  · rw [mapM_eq_ok hvalue, relationsExist_eq_ok hvalue]

end Exist

/-! ## Columns -/

section Columns

variable {table : String}

theorem foldl_byTable_table {columns : List ColumnRow} (h : columns ≠ []) (tables : Tables) :
    (columns.map fun row => (table, row)).foldl pushColumn tables =
      Function.update tables table
        (some ((tables table).getD [] ++ columns.map ColumnInfo.ofRow)) := by
  induction columns generalizing tables with
  | nil => exact absurd rfl h
  | cons row columns ih =>
    rw [List.map_cons, List.foldl_cons]
    by_cases hcolumns : columns = []
    · subst hcolumns
      rfl
    · rw [ih hcolumns, pushColumn, Function.update_self, Function.update_idem]
      simp

/-- A map of the rows of listed tables has the columns of each table. -/
theorem byTable_listing {entries : List (String × StoredRelation)}
    (hnodup : (entries.map Prod.fst).Nodup) (tables : Tables)
    (hempty : ∀ entry ∈ entries, tables entry.1 = none) (table : String) :
    (entries.flatMap fun entry => entry.2.columns.map fun row => (entry.1, row)).foldl pushColumn tables
        table =
      ((entries.lookup table).map fun stored => stored.columns.map ColumnInfo.ofRow).or
        (tables table) := by
  induction entries generalizing tables with
  | nil => rfl
  | cons entry entries ih =>
    obtain ⟨hhead, hrest⟩ := List.nodup_cons.1 hnodup
    have hne : ∀ other ∈ entries, other.1 ≠ entry.1 :=
      fun other hother heq => hhead (List.mem_map.2 ⟨other, hother, heq⟩)
    rw [List.flatMap_cons, List.foldl_append, foldl_byTable_table entry.2.columns_ne_nil,
      hempty entry List.mem_cons_self, ih hrest _ fun other hother => by
        rw [Function.update_of_ne (hne other hother)]
        exact hempty other (List.mem_cons_of_mem _ hother)]
    rw [List.lookup_cons]
    by_cases htable : table = entry.1
    · subst htable
      have hnone : entries.lookup entry.1 = none := by
        rw [List.lookup_eq_none_iff]
        exact fun other hother => bne_iff_ne.2 fun heq => hne other hother heq.symm
      simp [hnone]
    · rw [beq_false_of_ne htable, Function.update_of_ne htable]

theorem byTable_listing_eq_lookup (catalog schema : String) {names : List String}
    (h : table ∈ names) :
    byTable ((w.listing catalog schema names).flatMap fun entry =>
        entry.2.columns.map fun row => (entry.1, row)) table =
      (w.lookup catalog schema table).map fun stored => stored.columns.map ColumnInfo.ofRow := by
  rw [byTable, byTable_listing (nodup_listing catalog schema names) _ fun _ _ => rfl,
    Option.or_none]
  congr 1
  cases hlookup : (w.listing catalog schema names).lookup table with
  | some stored =>
    obtain ⟨before, after, hsplit, -⟩ := List.lookup_eq_some_iff.1 hlookup
    have hmem : (table, stored) ∈ w.listing catalog schema names := by
      rw [hsplit]
      exact List.mem_append_right _ List.mem_cons_self
    exact (mem_listing.1 hmem).2.symm
  | none =>
    cases hstored : w.lookup catalog schema table with
    | none => rfl
    | some stored =>
      have hmem : (table, stored) ∈ w.listing catalog schema names :=
        mem_listing.2 ⟨h, hstored⟩
      exact absurd rfl (bne_iff_ne.1 (List.lookup_eq_none_iff.1 hlookup _ hmem))

theorem takeColumns_eq (slots : Slots (Except QueryError (List ColumnInfo))) (tables : Tables)
    (request : Relation × Nat) :
    takeColumns (slots, tables) request =
      (slots.set request.2 (columnsOf request.1 (tables request.1.table)),
        Function.update tables request.1.table none) := by
  cases htable : tables request.1.table with
  | some columns => simp only [takeColumns, htable, columnsOf]
  | none =>
    have hsame : Function.update tables request.1.table none = tables := by
      rw [← htable, Function.update_eq_self]
    simp only [takeColumns, htable, columnsOf, hsame]

/-- Each request takes the columns of its table, which a later request no longer finds. -/
theorem foldl_takeColumns {answer : Relation × Nat → Except QueryError (List ColumnInfo)}
    {requests : List (Relation × Nat)} {tables : Tables}
    (h : ∀ before request after, requests = before ++ request :: after →
      answer request = columnsOf request.1
        (if request.1.table ∈ before.map (fun r => r.1.table) then none
          else tables request.1.table))
    (slots : Slots (Except QueryError (List ColumnInfo))) :
    (requests.foldl takeColumns (slots, tables)).1 = Slots.fill answer requests slots := by
  induction requests generalizing tables slots with
  | nil => rfl
  | cons request requests ih =>
    have hhead : answer request = columnsOf request.1 (tables request.1.table) := by
      have := h [] request requests rfl
      simpa using this
    rw [List.foldl_cons, takeColumns_eq, ← hhead, Slots.fill, List.foldl_cons]
    refine ih ?_ _
    rintro before later after rfl
    rw [h (request :: before) later after rfl, List.map_cons]
    congr 1
    by_cases htable : later.1.table = request.1.table
    · rw [htable, if_pos List.mem_cons_self, Function.update_self, ite_self]
    · rw [Function.update_of_ne htable]
      refine if_congr ?_ rfl rfl
      rw [List.mem_cons, or_iff_right htable]

variable {relations : List Relation}

/-- A group gives its relations the answers of a batch, when its listing can be read. -/
theorem columnsGroup_eq : ∀ group ∈ groups groupKey relations.zipIdx, ∀ slots,
    w.columnsGroup slots group = Slots.fill (w.columnAnswer relations)
      (group.2.filter fun request => decide (w.Batched request.1)) slots := by
  rintro ⟨⟨catalog, schema⟩, requests⟩ hgroup slots
  obtain ⟨-, hrequests⟩ := mem_groups.1 hgroup
  have hkey : ∀ request ∈ requests,
      request.1.catalog = some catalog ∧ request.1.schema = schema := by
    intro request hrequest
    change requests = _ at hrequests
    rw [hrequests, List.mem_filter, decide_eq_true_eq] at hrequest
    exact groupKey_eq_some.1 hrequest.2
  change (match w.columnRows catalog schema (requests.map fun request => request.1.table) with
    | .ok rows => (requests.foldl takeColumns (slots, byTable rows)).1
    | .error _ => slots) = _
  rw [columnRows]
  cases hschema : w.informationSchema catalog with
  | some error =>
    have hnone : requests.filter (fun request => decide (w.Batched request.1)) = [] := by
      refine List.filter_eq_nil_iff.2 fun request hrequest => ?_
      rw [decide_eq_true_eq, batched_iff (hkey request hrequest).1, hschema]
      exact Option.some_ne_none error
    rw [hnone]
    rfl
  | none =>
    have hall : requests.filter (fun request => decide (w.Batched request.1)) = requests :=
      List.filter_eq_self.2 fun request hrequest =>
        decide_eq_true ((batched_iff (hkey request hrequest).1).2 hschema)
    rw [hall]
    refine foldl_takeColumns ?_ slots
    rintro before request after rfl
    have hrequest : request ∈ before ++ request :: after := by simp
    obtain ⟨hcatalog, hschemas⟩ := hkey request hrequest
    have htables := byTable_listing_eq_lookup (w := w) catalog schema
      (List.mem_map_of_mem (f := fun r : Relation × Nat => r.1.table) hrequest)
    have hbefore : request.1.table ∈ before.map (fun r => r.1.table) ↔
        request.1 ∈ relations.take request.2 := by
      have hkeep : groupKey (request.1, 0) = some (toLex (catalog, schema)) :=
        groupKey_eq_some.2 ⟨hcatalog, hschemas⟩
      rw [mem_take_iff_of_filter_zipIdx
        (fun r => decide (groupKey (r, 0) = some (toLex (catalog, schema))))
        hrequests.symm (decide_eq_true hkeep), List.mem_map, List.mem_map]
      constructor
      · rintro ⟨other, hother, htable⟩
        obtain ⟨hcatalog', hschema'⟩ := hkey other (List.mem_append_left _ hother)
        exact ⟨other, hother, Relation.ext (hcatalog'.trans hcatalog.symm)
          (hschema'.trans hschemas.symm) htable⟩
      · rintro ⟨other, hother, hsame⟩
        exact ⟨other, hother, by rw [hsame]⟩
    rw [columnAnswer, if_pos ((batched_iff hcatalog).2 hschema), htables, shown, hcatalog,
      hschemas]
    simp only [hbefore, Option.bind_some]

theorem relationColumnsMany_eq :
    w.relationColumnsMany relations = relations.zipIdx.map (w.columnAnswer relations) := by
  rw [relationColumnsMany, Slots.foldl_fill columnsGroup_eq]
  refine Slots.map_value_fill _ _ (fun request hrequest => ?_) fun request hrequest hnot => ?_
  · obtain ⟨group, hgroup, hmem⟩ := List.mem_flatMap.1 hrequest
    exact grouped_mem_zipIdx request
      (List.mem_flatMap.2 ⟨group, hgroup, (List.mem_filter.1 hmem).1⟩)
  · have hbatched : ¬ w.Batched request.1 := by
      intro hbatched
      obtain ⟨catalog, hcatalog, -⟩ := id hbatched
      have hgrouped : request ∈ (groups groupKey relations.zipIdx).flatMap Prod.snd :=
        mem_flatMap_groups.2 ⟨hrequest, by simp [groupKey, hcatalog]⟩
      obtain ⟨group, hgroup, hmem⟩ := List.mem_flatMap.1 hgrouped
      exact hnot (List.mem_flatMap.2 ⟨group, hgroup,
        List.mem_filter.2 ⟨hmem, decide_eq_true hbatched⟩⟩)
    rw [columnAnswer, if_neg hbatched]

end Columns

/-! ## Batches and probes one by one -/

section Agreement

variable (w)
variable {catalog : String} {stored : StoredRelation}

/-- The schema and the name of the relation are written as they are stored. -/
def Written (relation : Relation) : Prop :=
  w.lower relation.schema = relation.schema ∧ w.lower relation.table = relation.table

/-- A listing shows the stored relation under the name that is asked for. -/
def Shows (relation : Relation) (stored : StoredRelation) : Prop :=
  w.Written relation ∧ stored.listed = true

instance (relation : Relation) (stored : StoredRelation) : Decidable (w.Shows relation stored) :=
  inferInstanceAs (Decidable ((_ ∧ _) ∧ _))

/-- A query that reads the relation works when a listing shows it, and is told that it is
missing otherwise. -/
def ReadAsShown (relation : Relation) : Prop :=
  ∀ stored, w.resolve relation = some stored →
    (w.Shows relation stored ∧ stored.select = none) ∨
      (¬ w.Shows relation stored ∧
        ∃ error, stored.select = some error ∧ isMissingRelation error = true)

/-- The relation can be described just when a listing shows it and it was not asked for
before. -/
def DescribedAsShown (relations : List Relation) (request : Relation × Nat) : Prop :=
  ∀ stored, w.resolve request.1 = some stored →
    (stored.describe = none ↔
      w.Shows request.1 stored ∧ request.1 ∉ relations.take request.2)

/-- The listings show what the probes one by one find. -/
structure ListingsFaithful (relations : List Relation) : Prop where
  exist : (∃ relation ∈ relations, ¬ w.Batched relation ∧
      ∃ stored error, w.resolve relation = some stored ∧ stored.select = some error ∧
        isMissingRelation error = false) ∨
    ∀ relation ∈ relations, w.Batched relation → w.ReadAsShown relation
  columns : ∀ request ∈ relations.zipIdx, w.Batched request.1 →
    w.DescribedAsShown relations request

/-- A batch answers what the default one-by-one probes answer, or both fail. -/
structure BatchAgrees (relations : List Relation) : Prop where
  exist : (w.relationsExist relations).toOption = (w.relationsExistSerial relations).toOption
  columns : (w.relationColumnsMany relations).map Except.toOption =
    (w.relationColumnsManySerial relations).map Except.toOption

variable {w} {relation : Relation}

theorem shown_eq_some_iff (hcatalog : relation.catalog = some catalog) :
    w.shown relation = some stored ↔
      w.resolve relation = some stored ∧ w.Shows relation stored := by
  rw [shown, resolve, hcatalog, Option.bind_some, Option.some_or, Option.bind_some, lookup,
    Option.filter_eq_some_iff]
  constructor
  · rintro ⟨hstored, hlisted⟩
    have hwritten : w.Written relation := w.stored_lower _ _ _ _ hstored
    rw [hwritten.1, hwritten.2]
    exact ⟨hstored, hwritten, hlisted⟩
  · rintro ⟨hstored, hwritten, hlisted⟩
    rw [hwritten.1, hwritten.2] at hstored
    exact ⟨hstored, hlisted⟩

theorem shown_of_resolve_eq_none (hcatalog : relation.catalog = some catalog)
    (h : w.resolve relation = none) : w.shown relation = none := by
  refine Option.eq_none_iff_forall_not_mem.2 fun stored hstored => ?_
  rw [Option.mem_def, shown_eq_some_iff hcatalog, h] at hstored
  exact absurd hstored.1 (Option.some_ne_none stored).symm

theorem shown_of_resolve_eq_some (hcatalog : relation.catalog = some catalog)
    (h : w.resolve relation = some stored) :
    w.shown relation = if w.Shows relation stored then some stored else none := by
  by_cases hshows : w.Shows relation stored
  · rw [if_pos hshows]
    exact (shown_eq_some_iff hcatalog).2 ⟨h, hshows⟩
  · rw [if_neg hshows]
    refine Option.eq_none_iff_forall_not_mem.2 fun other hother => hshows ?_
    obtain ⟨hother, hshows'⟩ := (shown_eq_some_iff hcatalog).1 hother
    rw [h] at hother
    exact Option.some.inj hother ▸ hshows'

theorem relationExists_of_resolve_eq_none (h : w.resolve relation = none) :
    w.relationExists relation = .ok false := by
  simp only [relationExists, select, h, w.missing_isMissing, if_true]

theorem relationExists_of_resolve_eq_some (h : w.resolve relation = some stored) :
    w.relationExists relation = match stored.select with
      | none => .ok true
      | some error => if isMissingRelation error then .ok false else .error error := by
  simp only [relationExists, select, h]
  cases stored.select <;> rfl

theorem relationColumns_of_resolve_eq_none (h : w.resolve relation = none) :
    (w.relationColumns relation).toOption = none := by
  simp only [relationColumns, describe, h]
  rfl

theorem relationColumns_of_resolve_eq_some (h : w.resolve relation = some stored) :
    (w.relationColumns relation).toOption =
      if stored.describe = none then some (stored.columns.map ColumnInfo.ofRow) else none := by
  simp only [relationColumns, describe, h]
  cases stored.describe <;> rfl

theorem toOption_columnsOf (columns : Option (List ColumnInfo)) :
    (columnsOf relation columns).toOption = columns := by
  cases columns <;> rfl

/-- A batch probes the relation as a probe of its own does, when it is read as it is shown. -/
theorem existAnswer_toOption_iff (h : w.Batched relation) :
    (w.existAnswer relation).toOption = (w.relationExists relation).toOption ↔
      w.ReadAsShown relation := by
  obtain ⟨catalog, hcatalog, -⟩ := id h
  rw [existAnswer, if_pos h]
  cases hresolve : w.resolve relation with
  | none =>
    rw [shown_of_resolve_eq_none hcatalog hresolve, relationExists_of_resolve_eq_none hresolve]
    simp [ReadAsShown, hresolve]
  | some stored =>
    rw [shown_of_resolve_eq_some hcatalog hresolve, relationExists_of_resolve_eq_some hresolve,
      ReadAsShown, hresolve]
    simp only [Option.some.injEq, forall_eq']
    by_cases hshows : w.Shows relation stored
    · cases hselect : stored.select with
      | none => simp [hshows]
      | some error =>
        cases hmissing : isMissingRelation error <;> simp [hshows, hmissing, Except.toOption]
    · cases hselect : stored.select with
      | none => simp [hshows, Except.toOption]
      | some error =>
        cases hmissing : isMissingRelation error <;> simp [hshows, hmissing, Except.toOption]

/-- A batch describes the relation as a probe of its own does, when it is described as it is
shown. -/
theorem columnAnswer_toOption_iff {relations : List Relation} {request : Relation × Nat}
    (h : w.Batched request.1) :
    (w.columnAnswer relations request).toOption = (w.relationColumns request.1).toOption ↔
      w.DescribedAsShown relations request := by
  obtain ⟨catalog, hcatalog, -⟩ := id h
  rw [columnAnswer, if_pos h, toOption_columnsOf]
  cases hresolve : w.resolve request.1 with
  | none =>
    rw [shown_of_resolve_eq_none hcatalog hresolve,
      relationColumns_of_resolve_eq_none hresolve]
    simp [DescribedAsShown, hresolve]
  | some stored =>
    rw [shown_of_resolve_eq_some hcatalog hresolve,
      relationColumns_of_resolve_eq_some hresolve, DescribedAsShown, hresolve]
    simp only [Option.some.injEq, forall_eq']
    by_cases hshows : w.Shows request.1 stored
    · by_cases hbefore : request.1 ∈ relations.take request.2
      · cases hdescribe : stored.describe <;> simp [hbefore]
      · cases hdescribe : stored.describe <;> simp [hbefore, hshows]
    · cases hdescribe : stored.describe <;> simp [hshows]

/-- A batch of existence probes fails only where a probe of its own does. -/
theorem existAnswer_eq_error_iff {error : QueryError} :
    w.existAnswer relation = .error error ↔
      ¬ w.Batched relation ∧ ∃ stored, w.resolve relation = some stored ∧
        stored.select = some error ∧ isMissingRelation error = false := by
  rw [existAnswer]
  by_cases hbatched : w.Batched relation
  · simp [hbatched]
  · rw [if_neg hbatched, and_iff_right hbatched]
    cases hresolve : w.resolve relation with
    | none => simp [relationExists_of_resolve_eq_none hresolve]
    | some stored =>
      rw [relationExists_of_resolve_eq_some hresolve]
      cases hselect : stored.select with
      | none => simp [hselect]
      | some other =>
        simp only [Option.some.injEq, exists_eq_left', hselect]
        by_cases hmissing : isMissingRelation other = true
        · rw [if_pos hmissing]
          constructor
          · intro h
            cases h
          · rintro ⟨rfl, hnot⟩
            rw [hmissing] at hnot
            cases hnot
        · rw [if_neg hmissing, Except.error.injEq]
          constructor
          · rintro rfl
            exact ⟨rfl, Bool.eq_false_of_not_eq_true hmissing⟩
          · exact And.left

/-- A batch of existence probes agrees with the probes one by one. -/
theorem relationsExist_agrees_iff {relations : List Relation} :
    (w.relationsExist relations).toOption = (w.relationsExistSerial relations).toOption ↔
      (∃ relation ∈ relations, ∃ error, w.existAnswer relation = .error error) ∨
        ∀ relation ∈ relations, w.Batched relation → w.ReadAsShown relation := by
  rw [relationsExist_toOption, relationsExistSerial, toOption_mapM_eq_iff]
  · refine or_congr_right (forall₂_congr fun relation _ => ?_)
    by_cases hbatched : w.Batched relation
    · rw [existAnswer_toOption_iff hbatched, forall_prop_of_true hbatched]
    · rw [existAnswer, if_neg hbatched]
      exact ⟨fun _ h => absurd h hbatched, fun _ => rfl⟩
  · intro relation _ error herror
    rw [existAnswer, if_neg (existAnswer_eq_error_iff.1 herror).1] at herror
    exact ⟨error, herror⟩

/-- A batch of column probes agrees with the probes one by one. -/
theorem relationColumnsMany_agrees_iff {relations : List Relation} :
    (w.relationColumnsMany relations).map Except.toOption =
        (w.relationColumnsManySerial relations).map Except.toOption ↔
      ∀ request ∈ relations.zipIdx, w.Batched request.1 → w.DescribedAsShown relations request := by
  have hserial : (w.relationColumnsManySerial relations).map Except.toOption =
      relations.zipIdx.map fun request => (w.relationColumns request.1).toOption := by
    calc (relations.map w.relationColumns).map Except.toOption
        = ((relations.zipIdx.map Prod.fst).map w.relationColumns).map Except.toOption := by
          rw [List.zipIdx_map_fst]
      _ = relations.zipIdx.map fun request => (w.relationColumns request.1).toOption := by
          rw [List.map_map, List.map_map]
          rfl
  rw [relationColumnsMany_eq, hserial, List.map_map, List.map_inj_left]
  refine forall₂_congr fun request _ => ?_
  by_cases hbatched : w.Batched request.1
  · exact (columnAnswer_toOption_iff hbatched).trans
      ⟨fun h _ => h, fun h => h hbatched⟩
  · rw [Function.comp_apply, columnAnswer, if_neg hbatched]
    exact ⟨fun _ h => absurd h hbatched, fun _ => rfl⟩

/-- A batch agrees with the probes one by one just when the listings show what these find. -/
theorem batchAgrees_iff {relations : List Relation} :
    w.BatchAgrees relations ↔ w.ListingsFaithful relations := by
  have hfails : (∃ relation ∈ relations, ∃ error, w.existAnswer relation = .error error) ↔
      ∃ relation ∈ relations, ¬ w.Batched relation ∧
        ∃ stored error, w.resolve relation = some stored ∧ stored.select = some error ∧
          isMissingRelation error = false := by
    refine exists_congr fun relation => and_congr_right fun _ => ?_
    simp only [existAnswer_eq_error_iff]
    constructor
    · rintro ⟨error, hbatched, stored, hstored⟩
      exact ⟨hbatched, stored, error, hstored⟩
    · rintro ⟨hbatched, stored, error, hstored⟩
      exact ⟨error, hbatched, stored, hstored⟩
  constructor
  · intro h
    exact ⟨(relationsExist_agrees_iff.1 h.exist).imp_left hfails.1,
      relationColumnsMany_agrees_iff.1 h.columns⟩
  · intro h
    exact ⟨relationsExist_agrees_iff.2 (h.exist.imp_left hfails.2),
      relationColumnsMany_agrees_iff.2 h.columns⟩

end Agreement

end Trino

/-! ## A warehouse with one table -/

namespace Sample

theorem lower_lower (name : String) :
    String.ofList ((String.ofList (name.toList.map Char.toLower)).toList.map Char.toLower) =
      String.ofList (name.toList.map Char.toLower) := by
  rw [String.toList_ofList, List.map_map]
  congr 2
  funext c
  exact Library.toLower_toLower c

def ordersTable : StoredRelation where
  columns := [("id", "bigint"), ("amount", "double")]
  columns_ne_nil := by decide
  listed := true
  select := none
  describe := none

def ordersWarehouse : Trino where
  lower name := String.ofList (name.toList.map Char.toLower)
  lower_lower := lower_lower
  sessionCatalog := none
  stored catalog schema table :=
    if catalog = "iceberg" ∧ schema = "marts" ∧ table = "orders" then some ordersTable else none
  stored_lower := by
    rintro catalog schema table stored h
    obtain ⟨-, rfl, rfl⟩ := (Option.ite_none_right_eq_some.1 h).1
    decide
  informationSchema _ := none
  missing relation :=
    { code := "TABLE_NOT_FOUND", message := relation.display ++ " does not exist" }
  missing_isMissing _ := rfl

def orders : Relation where
  catalog := some "iceberg"
  schema := "marts"
  table := "orders"

def mixedOrders : Relation where
  catalog := some "iceberg"
  schema := "marts"
  table := "Orders"

theorem batched_orders : ordersWarehouse.Batched orders := ⟨"iceberg", rfl, rfl⟩

theorem batched_mixedOrders : ordersWarehouse.Batched mixedOrders := ⟨"iceberg", rfl, rfl⟩

/-- A batch does not find a table whose name is written with a capital, and describes a table
only to the first of two requests. -/
theorem not_batchAgrees_orders :
    ¬ ordersWarehouse.BatchAgrees [mixedOrders] ∧
      ¬ ordersWarehouse.BatchAgrees [orders, orders] := by
  constructor
  · intro h
    rcases Trino.relationsExist_agrees_iff.1 h.exist with ⟨relation, hmem, error, herror⟩ | hread
    · obtain rfl := List.mem_singleton.1 hmem
      exact (Trino.existAnswer_eq_error_iff.1 herror).1 batched_mixedOrders
    · rcases hread mixedOrders (List.mem_singleton.2 rfl) batched_mixedOrders ordersTable rfl with
        ⟨⟨⟨-, hwritten⟩, -⟩, -⟩ | ⟨-, error, hselect, -⟩
      · exact absurd hwritten (by decide)
      · cases hselect
  · intro h
    have hread := (Trino.relationColumnsMany_agrees_iff.1 h.columns) (orders, 1) (by simp)
      batched_orders ordersTable rfl
    exact absurd (List.mem_singleton.2 rfl) (hread.1 rfl).2

end Sample

end PhloTransform.Engine
