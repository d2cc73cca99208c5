import Mathlib.Logic.Encodable.Basic
import Mathlib.Logic.Equiv.List
import PhloTransform.Core.SqlNames
import PhloTransform.Library.NestedText

/-!
# Observing the state of a source

An adapter observes a source with several queries.  The DuckDB adapter fingerprints the columns
and the row count, and leaves the count out where its query fails.  The Trino adapter asks for
the last snapshot, asks again after a failure, and falls back to a fingerprint of the columns.

Main results:

- Theorem `DuckDb.tracks_iff`: when a DuckDB state changes with the row count and only then.
- Theorem `Trino.keeps_iff`: when the Trino state of unchanged contents stays the same.
-/

namespace PhloTransform.Engine.SourceObservations

open Core Library

/-! ## Fingerprints and errors -/

/-- A fingerprint without collisions. -/
structure Fingerprint where
  hash : List String → String
  injective : Function.Injective hash

/-- `text.contains(part)`. -/
def contains (text part : String) : Bool :=
  text.toList.tails.any part.toList.isPrefixOf

/-- A column and its type. -/
structure ColumnInfo where
  name : String
  dataType : String
deriving Repr, DecidableEq

/-- What a relation holds. -/
structure Contents where
  columns : List ColumnInfo
  rows : List (List String)
  columns_ne_nil : columns ≠ []

/-- The part of a state that is about the columns. -/
def schemaParts (columns : List ColumnInfo) : List String :=
  columns.map fun column => column.name ++ ":" ++ column.dataType

/-- The words that a database does not read bare at a place of a dotted name. -/
abbrev Reserved := Nat → List Char → Bool

/-! ## DuckDB -/

namespace DuckDb

variable {failing first second : Failing} {contents : Contents}

/-- The relations of a database by their identifiers, and what counting the rows of a text that
is no dotted name returns. -/
structure Database where
  relations : List (List Char) → Option Contents
  answers : List Char → Option (List (List String))

/-- The queries of an observation that fail: the error text of the first one, and whether the
second one fails. -/
structure Failing where
  describe : Option String
  count : Bool
deriving DecidableEq

/-- `duck_error`: the code of an error text. -/
def duckError (text : String) : String :=
  if contains text "does not exist" || contains text "Catalog Error" || contains text "not found"
  then "TABLE_NOT_FOUND" else "DUCKDB"

section Queries

variable (reserved : Reserved) (db : Database)

/-- `DESCRIBE name`. -/
def describe (name : List Char) : Except String (List ColumnInfo) :=
  match (readName reserved name).bind db.relations with
  | some contents => .ok contents.columns
  | none => .error (duckError "Catalog Error: Table does not exist!")

/-- `select count(*) as n from name`. -/
def selectCount (name : List Char) : Option (List (List String)) :=
  match readName reserved name with
  | some path => (db.relations path).map fun contents => [[toString contents.rows.length]]
  | none => db.answers name

/-- `relation_columns`: a missing relation has no columns. -/
def relationColumns (failing : Failing) (relation : Relation) : Except String (List ColumnInfo) :=
  let result :=
    match failing.describe with
    | some text => Except.error (duckError text)
    | none => describe reserved db relation.sql
  match result with
  | .ok columns => .ok columns
  | .error code => if code = "TABLE_NOT_FOUND" then .ok [] else .error code

/-- The count, where its query returns one. -/
def countParts (failing : Failing) (relation : Relation) : List String :=
  match if failing.count then none else selectCount reserved db relation.display.toList with
  | some result =>
    match result.head?.bind List.head? with
    | some count => ["count:" ++ count]
    | none => []
  | none => []

def sourceState (fingerprint : Fingerprint) (failing : Failing) (relation : Relation) :
    Except String (Option String) := do
  let columns ← relationColumns reserved db failing relation
  if columns.isEmpty then
    pure none
  else
    let parts := schemaParts columns ++ countParts reserved db failing relation
    pure (some ("schema:" ++ fingerprint.hash parts))

end Queries

variable {reserved : Reserved} {db : Database} {fingerprint : Fingerprint} {relation : Relation}

/-- Two observations whose row counts differ give different states, and two observations of the
same contents give the same state, unless one of them fails. -/
structure Tracks (reserved : Reserved) (fingerprint : Fingerprint) (relation : Relation)
    (first second : Failing) : Prop where
  changes : ∀ (db db' : Database) (contents contents' : Contents),
    db.relations relation.path = some contents →
    db'.relations relation.path = some contents' →
    contents.rows.length ≠ contents'.rows.length →
    ∀ state state', sourceState reserved db fingerprint first relation = .ok state →
      sourceState reserved db' fingerprint second relation = .ok state' → state ≠ state'
  keeps : ∀ db db' : Database, db.relations relation.path = db'.relations relation.path →
    ∀ state state', sourceState reserved db fingerprint first relation = .ok state →
      sourceState reserved db' fingerprint second relation = .ok state' → state = state'

/-- The first query ends the observation. -/
def Failing.Stops (failing : Failing) : Prop :=
  ∃ text, failing.describe = some text ∧ duckError text ≠ "TABLE_NOT_FOUND"

def Failing.Calm (failing : Failing) : Prop :=
  failing.describe = none ∧ failing.count = false

/-! ### One observation -/

theorem sourceState_of_stops (h : failing.Stops) {state : Option String} :
    sourceState reserved db fingerprint failing relation ≠ .ok state := by
  obtain ⟨text, htext, hcode⟩ := h
  have hcolumns : relationColumns reserved db failing relation = .error (duckError text) := by
    unfold relationColumns
    rw [htext]
    exact if_neg hcode
  unfold sourceState
  rw [hcolumns]
  exact nofun

theorem sourceState_of_missed {text : String} (htext : failing.describe = some text)
    (hcode : duckError text = "TABLE_NOT_FOUND") :
    sourceState reserved db fingerprint failing relation = .ok none := by
  have hcolumns : relationColumns reserved db failing relation = .ok [] := by
    unfold relationColumns
    rw [htext]
    exact if_pos hcode
  unfold sourceState
  rw [hcolumns]
  rfl

theorem describe_sql (db : Database) (relation : Relation) :
    describe reserved db relation.sql =
      match db.relations relation.path with
      | some contents => .ok contents.columns
      | none => .error "TABLE_NOT_FOUND" := by
  have hcode : duckError "Catalog Error: Table does not exist!" = "TABLE_NOT_FOUND" := by
    decide +kernel
  unfold describe
  rw [Relation.readName_sql, hcode]
  rfl

theorem sourceState_of_absent (hdescribe : failing.describe = none)
    (habsent : db.relations relation.path = none) :
    sourceState reserved db fingerprint failing relation = .ok none := by
  have hcolumns : relationColumns reserved db failing relation = .ok [] := by
    unfold relationColumns
    rw [hdescribe]
    dsimp only
    rw [describe_sql, habsent]
    exact if_pos rfl
  unfold sourceState
  rw [hcolumns]
  rfl

theorem sourceState_of_present (hdescribe : failing.describe = none)
    (hpresent : db.relations relation.path = some contents) :
    sourceState reserved db fingerprint failing relation =
      .ok (some ("schema:" ++ fingerprint.hash
        (schemaParts contents.columns ++ countParts reserved db failing relation))) := by
  have hcolumns : relationColumns reserved db failing relation = .ok contents.columns := by
    unfold relationColumns
    rw [hdescribe]
    dsimp only
    rw [describe_sql, hpresent]
  have hsome : contents.columns.isEmpty = false := by
    rw [Bool.eq_false_iff, Ne, List.isEmpty_iff]
    exact contents.columns_ne_nil
  unfold sourceState
  rw [hcolumns]
  simp only [bind, Except.bind, hsome]
  rfl

theorem countParts_of_isBare (hcount : failing.count = false) (hbare : relation.IsBare reserved)
    (hpresent : db.relations relation.path = some contents) :
    countParts reserved db failing relation = ["count:" ++ toString contents.rows.length] := by
  have hselect : selectCount reserved db relation.display.toList =
      some [[toString contents.rows.length]] := by
    unfold selectCount
    rw [relation.readName_display_iff.2 hbare]
    exact congrArg (Option.map _) hpresent
  unfold countParts
  rw [hcount, hselect]
  rfl

/-! ### Two observations -/

theorem toString_inj {m n : Nat} (h : toString m = toString n) : m = n := by
  rw [Nat.toString_eq_ofList_toDigits, Nat.toString_eq_ofList_toDigits, String.ofList_inj] at h
  have hvalue := congrArg (fun digits => Nat.ofDigitChars 10 digits 0) h
  simpa [Nat.ofDigitChars_toDigits] using hvalue

theorem parts_of_state_eq {parts parts' : List String}
    (h : some ("schema:" ++ fingerprint.hash parts) =
      some ("schema:" ++ fingerprint.hash parts')) : parts = parts' := by
  apply fingerprint.injective
  have htext := congrArg String.toList (Option.some.inj h)
  rw [String.toList_append, String.toList_append] at htext
  exact String.toList_inj.1 (List.append_cancel_left htext)

theorem tracks_of_calm (hbare : relation.IsBare reserved) (hfirst : first.Calm)
    (hsecond : second.Calm) : Tracks reserved fingerprint relation first second where
  changes := by
    intro db db' contents contents' hpresent hpresent' hrows state state' hstate hstate' hsame
    rw [sourceState_of_present hfirst.1 hpresent,
      countParts_of_isBare hfirst.2 hbare hpresent] at hstate
    rw [sourceState_of_present hsecond.1 hpresent',
      countParts_of_isBare hsecond.2 hbare hpresent'] at hstate'
    cases hstate
    cases hstate'
    have hparts := (List.append_inj' (parts_of_state_eq hsame) rfl).2
    rw [List.singleton_inj, String.append_right_inj] at hparts
    exact hrows (toString_inj hparts)
  keeps := by
    intro db db' hsame state state' hstate hstate'
    cases hpresent : db.relations relation.path with
    | none =>
      rw [sourceState_of_absent hfirst.1 hpresent] at hstate
      rw [sourceState_of_absent hsecond.1 (hsame ▸ hpresent)] at hstate'
      cases hstate
      cases hstate'
      rfl
    | some contents =>
      have hpresent' : db'.relations relation.path = some contents := hsame ▸ hpresent
      rw [sourceState_of_present hfirst.1 hpresent,
        countParts_of_isBare hfirst.2 hbare hpresent] at hstate
      rw [sourceState_of_present hsecond.1 hpresent',
        countParts_of_isBare hsecond.2 hbare hpresent'] at hstate'
      rw [← Except.ok.inj hstate, ← Except.ok.inj hstate']

def only (relation : Relation) (contents : Contents) : Database where
  relations path := if path = relation.path then some contents else none
  answers _ := none

theorem relations_only (relation : Relation) (contents : Contents) :
    (only relation contents).relations relation.path = some contents :=
  if_pos rfl

theorem countParts_only (h : failing.count = true ∨ ¬relation.IsBare reserved) :
    countParts reserved (only relation contents) failing relation = [] := by
  unfold countParts
  by_cases hcount : failing.count = true
  · rw [if_pos hcount]
  · have hbare := h.resolve_left hcount
    rw [if_neg hcount]
    have hselect : selectCount reserved (only relation contents) relation.display.toList =
        none := by
      unfold selectCount
      split
      case h_1 path hpath =>
          have hne : path ≠ relation.path := by
            rintro rfl
            exact hbare (relation.readName_display_iff.1 hpath)
          exact congrArg (Option.map _) (if_neg hne)
      case h_2 => rfl
    rw [hselect]

/-- A table of one column with some rows. -/
def rowsOf (n : Nat) : Contents where
  columns := [⟨"id", "INTEGER"⟩]
  rows := List.replicate n ["1"]
  columns_ne_nil := List.cons_ne_nil _ _

theorem not_tracks_of_uncounted (hfirst : first.describe = none) (hsecond : second.describe = none)
    (hcount : first.count = true ∨ ¬relation.IsBare reserved)
    (hcount' : second.count = true ∨ ¬relation.IsBare reserved) :
    ¬Tracks reserved fingerprint relation first second := by
  intro h
  refine h.changes (only relation (rowsOf 0)) (only relation (rowsOf 1)) _ _
    (relations_only _ _) (relations_only _ _) (by decide) _ _
    (sourceState_of_present hfirst (relations_only _ _))
    (sourceState_of_present hsecond (relations_only _ _)) ?_
  rw [countParts_only hcount, countParts_only hcount']
  rfl

/-- Two states of the same contents, one with the count and one without. -/
theorem not_keeps_of_one_count (hbare : relation.IsBare reserved) (hfirst : first.describe = none)
    (hsecond : second.describe = none) (hcount : first.count ≠ second.count) :
    ¬Tracks reserved fingerprint relation first second := by
  intro h
  have hsame := h.keeps (only relation (rowsOf 0)) (only relation (rowsOf 0)) rfl _ _
    (sourceState_of_present hfirst (relations_only _ _))
    (sourceState_of_present hsecond (relations_only _ _))
  have hparts := List.append_cancel_left (parts_of_state_eq hsame)
  cases hc : first.count with
  | true =>
    have hc' : second.count = false := by
      rw [hc] at hcount
      exact Bool.eq_false_iff.2 (Ne.symm hcount)
    rw [countParts_only (Or.inl hc), countParts_of_isBare hc' hbare (relations_only _ _)]
      at hparts
    cases hparts
  | false =>
    have hc' : second.count = true := by
      rw [hc] at hcount
      simpa using hcount.symm
    rw [countParts_of_isBare hc hbare (relations_only _ _), countParts_only (Or.inl hc')]
      at hparts
    cases hparts

theorem missed_or_described (h : ¬failing.Stops) :
    (∃ text, failing.describe = some text ∧ duckError text = "TABLE_NOT_FOUND") ∨
      failing.describe = none := by
  cases hdescribe : failing.describe with
  | none => exact Or.inr rfl
  | some text =>
    by_cases hcode : duckError text = "TABLE_NOT_FOUND"
    · exact Or.inl ⟨text, rfl, hcode⟩
    · exact absurd ⟨text, hdescribe, hcode⟩ h

/-- A failure that sounds like a missing relation is seen as a change, or hides one. -/
theorem describe_of_tracks (h : Tracks reserved fingerprint relation first second)
    (hfirst : ¬first.Stops) (hsecond : ¬second.Stops) :
    first.describe = none ∧ second.describe = none := by
  have hpresent := relations_only relation
  rcases missed_or_described hfirst with ⟨text, htext, hcode⟩ | hdescribe
  · rcases missed_or_described hsecond with ⟨text', htext', hcode'⟩ | hdescribe'
    · exact absurd rfl (h.changes _ _ _ _ (hpresent (rowsOf 0)) (hpresent (rowsOf 1)) (by decide)
        _ _ (sourceState_of_missed htext hcode) (sourceState_of_missed htext' hcode'))
    · cases h.keeps _ _ rfl _ _ (sourceState_of_missed htext hcode)
        (sourceState_of_present hdescribe' (hpresent (rowsOf 0)))
  · rcases missed_or_described hsecond with ⟨text', htext', hcode'⟩ | hdescribe'
    · cases h.keeps _ _ rfl _ _ (sourceState_of_present hdescribe (hpresent (rowsOf 0)))
        (sourceState_of_missed htext' hcode')
    · exact ⟨hdescribe, hdescribe'⟩

/-- DuckDB states change with the row count and only then exactly when an observation ends in
an error, or the identifiers need no quotes and no query fails. -/
theorem tracks_iff (reserved : Reserved) (fingerprint : Fingerprint) (relation : Relation)
    (first second : Failing) :
    Tracks reserved fingerprint relation first second ↔
      (first.Stops ∨ second.Stops) ∨ relation.IsBare reserved ∧ first.Calm ∧ second.Calm := by
  constructor
  · intro h
    by_cases hstops : first.Stops ∨ second.Stops
    · exact Or.inl hstops
    · rw [not_or] at hstops
      obtain ⟨hfirst, hsecond⟩ := describe_of_tracks h hstops.1 hstops.2
      refine Or.inr ?_
      by_cases hbare : relation.IsBare reserved
      · by_cases hcount : first.count = second.count
        · cases hc : first.count with
          | false => exact ⟨hbare, ⟨hfirst, hc⟩, hsecond, hcount ▸ hc⟩
          | true =>
            exact absurd h
              (not_tracks_of_uncounted hfirst hsecond (Or.inl hc) (Or.inl (hcount ▸ hc)))
        · exact absurd h (not_keeps_of_one_count hbare hfirst hsecond hcount)
      · exact absurd h (not_tracks_of_uncounted hfirst hsecond (Or.inr hbare) (Or.inr hbare))
  · rintro ((hstops | hstops) | ⟨hbare, hfirst, hsecond⟩)
    · exact
        { changes := fun _ _ _ _ _ _ _ _ _ hstate => absurd hstate (sourceState_of_stops hstops)
          keeps := fun _ _ _ _ _ hstate => absurd hstate (sourceState_of_stops hstops) }
    · exact
        { changes := fun _ _ _ _ _ _ _ _ _ _ hstate => absurd hstate (sourceState_of_stops hstops)
          keeps := fun _ _ _ _ _ _ hstate => absurd hstate (sourceState_of_stops hstops) }
    · exact tracks_of_calm hbare hfirst hsecond

end DuckDb

/-! ## Trino -/

namespace Trino

variable {failing first second : Failing}

/-- The columns of the relations of a server, and the snapshots of its tables, the last one
first. -/
structure Lake where
  columns : List (List Char) → Option (List ColumnInfo)
  snapshots : List (List Char) → Option (List String)

structure AdapterError where
  code : String
  message : String
deriving DecidableEq

/-- `is_missing_relation`. -/
def isMissingRelation (error : AdapterError) : Bool :=
  ["TABLE_NOT_FOUND", "SCHEMA_NOT_FOUND", "CATALOG_NOT_FOUND", "NOT_FOUND"].contains error.code ||
    contains (String.ofList (asciiLower error.message.toList)) "does not exist"

/-- The queries of an observation that fail: the error of each attempt to read the snapshot, and
whether the columns cannot be read. -/
structure Failing where
  snapshot : Nat → Option AdapterError
  describe : Option AdapterError

section Queries

variable (reserved : Reserved) (lake : Lake)

/-- What the server answers for a relation it does not have. -/
def missingRelation : AdapterError where
  code := "TABLE_NOT_FOUND"
  message := "Table does not exist"

/-- `SELECT snapshot_id FROM name ORDER BY committed_at DESC LIMIT 1`. -/
def selectSnapshot (failing : Option AdapterError) (name : List Char) :
    Except AdapterError (List (List String)) :=
  match failing with
  | some error => .error error
  | none =>
    match (readName reserved name).bind lake.snapshots with
    | some ids => .ok ((ids.take 1).map fun id => [id])
    | none => .error missingRelation

/-- Run the query again while it fails and the relation is not missing. -/
def retried (run : Nat → Except AdapterError (List (List String))) :
    List Nat → Except AdapterError (List (List String)) → Except AdapterError (List (List String))
  | [], result => result
  | attempt :: rest, result =>
    match result with
    | .error error => if isMissingRelation error then result else retried run rest (run attempt)
    | .ok _ => result

/-- The table of the snapshots of a relation. -/
def snapshotsOf (relation : Relation) : Relation :=
  { relation with table := relation.table ++ "$snapshots" }

def icebergSnapshot (failing : Failing) (relation : Relation) : Option String :=
  let run attempt :=
    selectSnapshot reserved lake (failing.snapshot attempt) (snapshotsOf relation).sql
  match retried run [1, 2] (run 0) with
  | .ok rows => (rows.head?.bind List.head?).map ("snapshot:" ++ ·)
  | .error _ => none

/-- `DESCRIBE name`. -/
def relationColumns (failing : Failing) (relation : Relation) :
    Except AdapterError (List ColumnInfo) :=
  match failing.describe with
  | some error => .error error
  | none =>
    match (readName reserved relation.sql).bind lake.columns with
    | some columns => .ok columns
    | none => .error missingRelation

def sourceState (fingerprint : Fingerprint) (failing : Failing) (relation : Relation) :
    Except AdapterError (Option String) :=
  match icebergSnapshot reserved lake failing relation with
  | some snapshot => .ok (some snapshot)
  | none =>
    match relationColumns reserved lake failing relation with
    | .ok columns =>
      if columns.isEmpty then .ok none
      else .ok (some ("schema:" ++ fingerprint.hash (schemaParts columns)))
    | .error _ => .ok none

end Queries

/-- Two observations of the same contents give the same state, unless one of them fails. -/
def Keeps (reserved : Reserved) (fingerprint : Fingerprint) (relation : Relation)
    (first second : Failing) : Prop :=
  ∀ lake lake' : Lake, lake.columns relation.path = lake'.columns relation.path →
    lake.snapshots (snapshotsOf relation).path = lake'.snapshots (snapshotsOf relation).path →
    ∀ state state', sourceState reserved lake fingerprint first relation = .ok state →
      sourceState reserved lake' fingerprint second relation = .ok state' → state = state'

/-- One of the attempts reaches the server, and no error before it sounds like a missing
relation. -/
def Failing.Reaches (failing : Failing) : List Nat → Prop
  | [] => False
  | attempt :: rest =>
    failing.snapshot attempt = none ∨
      ∃ error, failing.snapshot attempt = some error ∧ isMissingRelation error = false ∧
        failing.Reaches rest

def Failing.Answered (failing : Failing) : Prop :=
  failing.Reaches [0, 1, 2]

variable {reserved : Reserved} {lake : Lake} {fingerprint : Fingerprint} {relation : Relation}

/-! ### One observation -/

/-- What the server has to say about the snapshots. -/
def answer (lake : Lake) (relation : Relation) : Except AdapterError (List (List String)) :=
  match lake.snapshots (snapshotsOf relation).path with
  | some ids => .ok ((ids.take 1).map fun id => [id])
  | none => .error missingRelation

theorem selectSnapshot_sql (lake : Lake) (relation : Relation) :
    selectSnapshot reserved lake none (snapshotsOf relation).sql = answer lake relation := by
  unfold selectSnapshot answer
  rw [Relation.readName_sql]
  rfl

theorem retried_answer (run : Nat → Except AdapterError (List (List String)))
    (attempts : List Nat) (lake : Lake) (relation : Relation) :
    retried run attempts (answer lake relation) = answer lake relation := by
  have hmissing : isMissingRelation missingRelation = true := by decide +kernel
  unfold answer
  cases lake.snapshots (snapshotsOf relation).path with
  | some ids => cases attempts <;> rfl
  | none =>
    cases attempts with
    | nil => rfl
    | cons attempt rest => simp [retried, hmissing]

theorem Failing.reaches_iff {attempt : Nat} {error : AdapterError}
    (h : failing.snapshot attempt = some error) (rest : List Nat) :
    failing.Reaches (attempt :: rest) ↔ isMissingRelation error = false ∧ failing.Reaches rest := by
  simp [Reaches, h]

/-- The attempts end with the server's answer when one of them reaches it, else with an error. -/
theorem retried_cases (lake : Lake) (relation : Relation) (failing : Failing) (first : Nat)
    (rest : List Nat) :
    let run attempt :=
      selectSnapshot reserved lake (failing.snapshot attempt) (snapshotsOf relation).sql
    (failing.Reaches (first :: rest) ∧ retried run rest (run first) = answer lake relation) ∨
      (¬failing.Reaches (first :: rest) ∧ ∃ error, retried run rest (run first) = .error error) := by
  intro run
  have hanswer : ∀ attempt, failing.snapshot attempt = none → run attempt = answer lake relation := by
    intro attempt hattempt
    change selectSnapshot reserved lake (failing.snapshot attempt) _ = _
    rw [hattempt, selectSnapshot_sql]
  have herror : ∀ attempt error, failing.snapshot attempt = some error →
      run attempt = .error error := by
    intro attempt error hattempt
    change selectSnapshot reserved lake (failing.snapshot attempt) _ = _
    rw [hattempt]
    rfl
  induction rest generalizing first with
  | nil =>
    cases hfirst : failing.snapshot first with
    | none => exact Or.inl ⟨Or.inl hfirst, hanswer first hfirst⟩
    | some error =>
      refine Or.inr ⟨?_, error, herror first error hfirst⟩
      rw [Failing.reaches_iff hfirst]
      exact fun h => h.2
  | cons next rest ih =>
    cases hfirst : failing.snapshot first with
    | none =>
      refine Or.inl ⟨Or.inl hfirst, ?_⟩
      rw [hanswer first hfirst]
      exact retried_answer run _ lake relation
    | some error =>
      rw [Failing.reaches_iff hfirst, herror first error hfirst]
      cases hmissing : isMissingRelation error with
      | true => exact Or.inr ⟨fun h => Bool.noConfusion h.1, error, if_pos hmissing⟩
      | false =>
        have hretried : retried run (next :: rest) (.error error) =
            retried run rest (run next) :=
          if_neg (by rw [hmissing]; exact Bool.false_ne_true)
        rw [hretried, and_iff_right rfl]
        exact ih next

theorem icebergSnapshot_of_answered (h : failing.Answered) :
    icebergSnapshot reserved lake failing relation =
      ((lake.snapshots (snapshotsOf relation).path).bind List.head?).map ("snapshot:" ++ ·) := by
  have hresult := (@retried_cases reserved lake relation failing 0 [1, 2]).resolve_right
    fun hnot => hnot.1 h
  unfold icebergSnapshot
  dsimp only at hresult ⊢
  rw [hresult.2, answer]
  cases lake.snapshots (snapshotsOf relation).path with
  | none => rfl
  | some ids => cases ids <;> rfl

theorem icebergSnapshot_of_not_answered (h : ¬failing.Answered) :
    icebergSnapshot reserved lake failing relation = none := by
  obtain ⟨-, error, herror⟩ :=
    (@retried_cases reserved lake relation failing 0 [1, 2]).resolve_left
      fun hreaches => h hreaches.1
  unfold icebergSnapshot
  dsimp only at herror ⊢
  rw [herror]

theorem relationColumns_of_none (h : failing.describe = none) :
    relationColumns reserved lake failing relation =
      match lake.columns relation.path with
      | some columns => .ok columns
      | none => .error missingRelation := by
  unfold relationColumns
  rw [h, Relation.readName_sql]
  rfl

/-! ### Two observations -/

theorem keeps_of_same (hanswered : first.Answered ↔ second.Answered)
    (hdescribe : first.describe = none ↔ second.describe = none) :
    Keeps reserved fingerprint relation first second := by
  intro lake lake' hcolumns hsnapshots state state' hstate hstate'
  have hsnapshot : icebergSnapshot reserved lake first relation =
      icebergSnapshot reserved lake' second relation := by
    by_cases h : first.Answered
    · rw [icebergSnapshot_of_answered h, icebergSnapshot_of_answered (hanswered.1 h), hsnapshots]
    · rw [icebergSnapshot_of_not_answered h,
        icebergSnapshot_of_not_answered (mt hanswered.2 h)]
  have hsame : sourceState reserved lake fingerprint first relation =
      sourceState reserved lake' fingerprint second relation := by
    unfold sourceState
    rw [hsnapshot]
    split
    case h_1 => rfl
    case h_2 =>
        cases hfirst : first.describe with
        | none =>
          rw [relationColumns_of_none hfirst, relationColumns_of_none (hdescribe.1 hfirst),
            hcolumns]
        | some error =>
          obtain ⟨error', hsecond⟩ : ∃ error', second.describe = some error' := by
            rw [← Option.ne_none_iff_exists']
            intro hnone
            rw [hdescribe.2 hnone] at hfirst
            cases hfirst
          unfold relationColumns
          rw [hfirst, hsecond]
  rw [hsame, hstate'] at hstate
  exact (Except.ok.inj hstate).symm

/-- A server with the columns and the snapshots of one relation. -/
def one (snapshots : List String) : Lake where
  columns _ := some [⟨"id", "bigint"⟩]
  snapshots _ := some snapshots

theorem sourceState_one (failing : Failing) (snapshots : List String)
    (h : ¬failing.Answered ∨ snapshots = []) :
    sourceState reserved (one snapshots) fingerprint failing relation =
      .ok (if failing.describe = none then some ("schema:" ++ fingerprint.hash ["id:bigint"])
        else none) := by
  have hsnapshot : icebergSnapshot reserved (one snapshots) failing relation = none := by
    by_cases hanswered : failing.Answered
    · rw [icebergSnapshot_of_answered hanswered, h.resolve_left (not_not.2 hanswered)]
      rfl
    · exact icebergSnapshot_of_not_answered hanswered
  unfold sourceState
  rw [hsnapshot]
  dsimp only
  cases hdescribe : failing.describe with
  | none =>
    rw [relationColumns_of_none hdescribe]
    rfl
  | some error =>
    have herror : relationColumns reserved (one snapshots) failing relation = .error error := by
      unfold relationColumns
      rw [hdescribe]
    rw [herror]
    rfl

theorem sourceState_one_of_answered (h : failing.Answered) :
    sourceState reserved (one ["1"]) fingerprint failing relation = .ok (some "snapshot:1") := by
  unfold sourceState
  rw [icebergSnapshot_of_answered h]
  rfl

theorem answered_iff_of_keeps (h : Keeps reserved fingerprint relation first second) :
    first.Answered ↔ second.Answered := by
  have hapart : ∀ failing : Failing, some "snapshot:1" ≠
      if failing.describe = none then some ("schema:" ++ fingerprint.hash ["id:bigint"])
      else none := by
    intro failing hsame
    split at hsame
    · have htext := congrArg String.toList (Option.some.inj hsame)
      rw [String.toList_append] at htext
      have hstart := congrArg (List.take 2) htext
      rw [List.take_append_of_le_length (by decide +kernel)] at hstart
      revert hstart
      decide +kernel
    · cases hsame
  constructor
  · intro hfirst
    by_contra hsecond
    exact hapart second (h (one ["1"]) (one ["1"]) rfl rfl _ _
      (sourceState_one_of_answered hfirst) (sourceState_one second _ (Or.inl hsecond)))
  · intro hsecond
    by_contra hfirst
    exact hapart first (h (one ["1"]) (one ["1"]) rfl rfl _ _
      (sourceState_one first _ (Or.inl hfirst)) (sourceState_one_of_answered hsecond)).symm

theorem describe_iff_of_keeps (h : Keeps reserved fingerprint relation first second) :
    first.describe = none ↔ second.describe = none := by
  have hsame := h (one []) (one []) rfl rfl _ _ (sourceState_one first _ (Or.inr rfl))
    (sourceState_one second _ (Or.inr rfl))
  by_cases hfirst : first.describe = none
  · by_cases hsecond : second.describe = none
    · exact iff_of_true hfirst hsecond
    · rw [if_pos hfirst, if_neg hsecond] at hsame
      cases hsame
  · by_cases hsecond : second.describe = none
    · rw [if_neg hfirst, if_pos hsecond] at hsame
      cases hsame
    · exact iff_of_false hfirst hsecond

/-- Trino states of unchanged contents are the same exactly when both observations reach the
snapshots or none does, and both read the columns or none does. -/
theorem keeps_iff (reserved : Reserved) (fingerprint : Fingerprint) (relation : Relation)
    (first second : Failing) :
    Keeps reserved fingerprint relation first second ↔
      (first.Answered ↔ second.Answered) ∧ (first.describe = none ↔ second.describe = none) :=
  ⟨fun h => ⟨answered_iff_of_keeps h, describe_iff_of_keeps h⟩,
    fun h => keeps_of_same h.1 h.2⟩

end Trino

/-! ## Both adapters -/

/-- A DuckDB state changes with the row count and only then, and a Trino state of unchanged
contents stays the same, under these conditions on the name and on the queries that fail. -/
theorem observations_track_iff (reserved : Reserved) (fingerprint : Fingerprint)
    (relation : Relation) :
    (∀ first second, DuckDb.Tracks reserved fingerprint relation first second ↔
      (first.Stops ∨ second.Stops) ∨ relation.IsBare reserved ∧ first.Calm ∧ second.Calm) ∧
    ∀ first second, Trino.Keeps reserved fingerprint relation first second ↔
      (first.Answered ↔ second.Answered) ∧ (first.describe = none ↔ second.describe = none) :=
  ⟨DuckDb.tracks_iff reserved fingerprint relation,
    Trino.keeps_iff reserved fingerprint relation⟩

/-! ## A name with a blank -/

/-- The code points of the parts, packed into one number. -/
def packed : Fingerprint where
  hash parts := toString (Encodable.encode (parts.map fun part => part.toList.map Char.toNat))
  injective := by
    intro parts parts' h
    have hchars : Function.Injective fun part : String => part.toList.map Char.toNat := by
      intro part part' hsame
      exact String.toList_inj.1 (List.map_injective_iff.2 (fun _ _ => Char.toNat_inj.1) hsame)
    exact List.map_injective_iff.2 hchars
      (Encodable.encode_injective (DuckDb.toString_inj h))

def weeklyOrders : Relation where
  catalog := none
  schema := "main"
  table := "weekly orders"

def orders : Relation where
  catalog := none
  schema := "main"
  table := "orders"

namespace DuckDb

def noFailure : Failing where
  describe := none
  count := false

def countFailure : Failing where
  describe := none
  count := true

end DuckDb

namespace Trino

def noFailure : Failing where
  snapshot _ := none
  describe := none

/-- The server cannot be reached for the snapshot. -/
def transportFailure : Failing where
  snapshot _ := some ⟨"TRINO_TRANSPORT", "timed out"⟩
  describe := none

theorem not_answered_transportFailure : ¬transportFailure.Answered := by
  rintro (h | ⟨_, _, _, h | ⟨_, _, _, h | ⟨_, _, _, h⟩⟩⟩)
  · cases h
  · cases h
  · cases h
  · exact h

end Trino

/-- The rows of a table with a blank in its name are never counted, so a new row goes unseen;
and an unchanged table seems changed where one of two counts fails, or where the attempts to
read its snapshot do. -/
theorem weeklyOrders_unseen :
    ¬DuckDb.Tracks (fun _ _ => false) packed weeklyOrders DuckDb.noFailure DuckDb.noFailure ∧
      ¬DuckDb.Tracks (fun _ _ => false) packed orders DuckDb.noFailure DuckDb.countFailure ∧
      ¬Trino.Keeps (fun _ _ => false) packed orders Trino.noFailure Trino.transportFailure := by
  refine ⟨?_, ?_, ?_⟩
  · apply DuckDb.not_tracks_of_uncounted rfl rfl (Or.inr _) (Or.inr _)
    · decide +kernel
    · decide +kernel
  · apply DuckDb.not_keeps_of_one_count _ rfl rfl
    · decide
    · decide +kernel
  · intro h
    exact Trino.not_answered_transportFailure
      ((Trino.answered_iff_of_keeps h).1 (Or.inl rfl))

end PhloTransform.Engine.SourceObservations
