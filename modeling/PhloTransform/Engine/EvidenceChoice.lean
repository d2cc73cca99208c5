import PhloTransform.Engine.EvidenceListing
import PhloTransform.Engine.LineageAudit

/-!
# Choosing between a file and the stored evidence

A reader of evidence imports what the artifact file holds, and chooses between the file and the
records that were there before the import.  The next reader finds the imported record among
them.

Main results:

- Theorem `length_imported_imported`: an artifact is imported once.
- Theorem `chosen_imported_iff`: when an import leaves the choice as it was.
-/

namespace PhloTransform.Engine

section Choice

variable [Rfc3339]
variable {records : List EvidenceRecord}
variable {file : EvidencePayload}

/-! ## Imports -/

/-- The record that stands for an artifact. -/
def standingRecord (evidence : List EvidenceRecord) (record : EvidenceRecord) :
    Option EvidenceRecord :=
  (evidenceOf evidence record.kind record.subject).find? fun existing =>
    decide (existing.targetRef = record.targetRef ∧
      (existing.createdAt = record.createdAt ∨ existing.payload = record.payload))

def imported (evidence : List EvidenceRecord) (record : EvidenceRecord) : List EvidenceRecord :=
  match standingRecord evidence record with
  | some _ => evidence
  | none => evidence ++ [record]

theorem imported_of_none {evidence : List EvidenceRecord} {record : EvidenceRecord}
    (h : standingRecord evidence record = none) :
    imported evidence record = evidence ++ [record] := by
  rw [imported, h]

theorem imported_of_some {evidence : List EvidenceRecord} {record existing : EvidenceRecord}
    (h : standingRecord evidence record = some existing) : imported evidence record = evidence := by
  rw [imported, h]

/-- A record that was imported stands for every later one of its payload. -/
theorem standingRecord_append_ne_none (evidence : List EvidenceRecord)
    {record again : EvidenceRecord} (hkind : again.kind = record.kind)
    (hsubject : again.subject = record.subject) (htarget : again.targetRef = record.targetRef)
    (hpayload : again.payload = record.payload) :
    standingRecord (evidence ++ [record]) again ≠ none := by
  intro hnone
  have hmem : record ∈ evidenceOf (evidence ++ [record]) again.kind again.subject := by
    simp [evidenceOf, hkind, hsubject]
  have hnot := List.find?_eq_none.1 hnone record hmem
  simp [htarget, hpayload] at hnot

/-- Importing an artifact and importing it again appends one record at most. -/
theorem length_imported_imported {evidence : List EvidenceRecord} {record again : EvidenceRecord}
    (hkind : again.kind = record.kind) (hsubject : again.subject = record.subject)
    (htarget : again.targetRef = record.targetRef) (hpayload : again.payload = record.payload) :
    (imported (imported evidence record) again).length ≤ evidence.length + 1 := by
  cases hstanding : standingRecord evidence record with
  | some existing =>
    rw [imported_of_some hstanding]
    cases hagain : standingRecord evidence again with
    | some _ => rw [imported_of_some hagain]; omega
    | none => simp [imported_of_none hagain]
  | none =>
    rw [imported_of_none hstanding]
    obtain ⟨existing, hagain⟩ := Option.ne_none_iff_exists'.1
      (standingRecord_append_ne_none evidence hkind hsubject htarget hpayload)
    rw [imported_of_some hagain, List.length_append]
    rfl

/-- The records of a kind for a subject, in the order they were stored. -/
def recordsOf (evidence : List EvidenceRecord) (kind : EvidenceKind) (subject : String) :
    List EvidenceRecord :=
  evidence.filter fun record => decide (record.kind = kind ∧ record.subject = subject)

omit [Rfc3339] in
theorem recordsOf_append_of_ne {evidence : List EvidenceRecord} {record : EvidenceRecord}
    {kind : EvidenceKind} {subject : String} (h : record.subject ≠ subject) :
    recordsOf (evidence ++ [record]) kind subject = recordsOf evidence kind subject := by
  simp [recordsOf, List.filter_append, h]

omit [Rfc3339] in
theorem recordsOf_append {evidence : List EvidenceRecord} {record : EvidenceRecord} :
    recordsOf (evidence ++ [record]) record.kind record.subject =
      recordsOf evidence record.kind record.subject ++ [record] := by
  simp [recordsOf, List.filter_append]

theorem evidenceOf_eq_recent (evidence : List EvidenceRecord) (kind : EvidenceKind)
    (subject : String) :
    evidenceOf evidence kind subject =
      recent EvidenceRecord.createdAt (recordsOf evidence kind subject) :=
  rfl

/-- Every record of the subject carries a timestamp. -/
def Dated (evidence : List EvidenceRecord) (kind : EvidenceKind) (subject : String) : Prop :=
  ∀ record ∈ recordsOf evidence kind subject, IsTimestamp record.createdAt

/-- The record of a pair is the first of the records of its target. -/
theorem pairRecord_recent {rows : List EvidenceRecord}
    (h : ∀ record ∈ rows, IsTimestamp record.createdAt) (target : String) :
    pairRecord (recent EvidenceRecord.createdAt rows) target =
      (recent EvidenceRecord.createdAt
        (rows.filter fun record => decide (record.targetRef = target))).head? := by
  rw [pairRecord, ← List.head?_filter, filter_recent _ h]

/-- A record of the pair that is stored now becomes the pair's when it is listed first. -/
theorem pairRecord_append_of_eq {rows : List EvidenceRecord} {record : EvidenceRecord}
    {target : String} (h : ∀ other ∈ rows ++ [record], IsTimestamp other.createdAt)
    (htarget : record.targetRef = target) :
    pairRecord (recent EvidenceRecord.createdAt (rows ++ [record])) target =
      match pairRecord (recent EvidenceRecord.createdAt rows) target with
      | none => some record
      | some pair =>
        if ListedBefore record.createdAt pair.createdAt then some record else some pair := by
  have hold : ∀ other ∈ rows, IsTimestamp other.createdAt :=
    fun other hother => h other (List.mem_append_left _ hother)
  have hpart : (rows ++ [record]).filter (fun record => decide (record.targetRef = target)) =
      rows.filter (fun record => decide (record.targetRef = target)) ++ [record] := by
    simp [List.filter_append, htarget]
  have hdated : ∀ other ∈
      rows.filter (fun record => decide (record.targetRef = target)) ++ [record],
        IsTimestamp other.createdAt := by
    intro other hother
    rw [← hpart] at hother
    exact h other (List.mem_filter.1 hother).1
  rw [pairRecord_recent h, pairRecord_recent hold, hpart, head?_recent_append_eq hdated]
  cases (recent EvidenceRecord.createdAt
    (rows.filter fun record => decide (record.targetRef = target))).head? <;> rfl

theorem pairRecord_append_of_ne {rows : List EvidenceRecord} {record : EvidenceRecord}
    {target : String} (h : ∀ other ∈ rows ++ [record], IsTimestamp other.createdAt)
    (htarget : record.targetRef ≠ target) :
    pairRecord (recent EvidenceRecord.createdAt (rows ++ [record])) target =
      pairRecord (recent EvidenceRecord.createdAt rows) target := by
  rw [pairRecord_recent h,
    pairRecord_recent fun other hother => h other (List.mem_append_left _ hother)]
  simp [List.filter_append, htarget]

/-! ## What a reader chooses -/

variable {D : Type} (decode : EvidencePayload → D)

/-- What a reader with a file finds: the file where it wins against the record of the pair, else
that record, else the newest one of the candidate, else the file. -/
def chosen (wins : Option EvidenceRecord → Bool) (file : EvidencePayload)
    (records : List EvidenceRecord) (target : String) : D :=
  if wins (pairRecord records target) then decode file
  else
    match (pairRecord records target).or records.head? with
    | some record => decode record.payload
    | none => decode file

/-- A file wins only for its own pair: where there is no record of it, and over an older
one. -/
structure WinsWhenNewer (wins : Option EvidenceRecord → Bool) (record : EvidenceRecord)
    (candidate target : String) : Prop where
  names : ∀ pair, wins pair = true → record.subject = candidate ∧ record.targetRef = target
  alone : record.subject = candidate → record.targetRef = target → wins none = true
  newer : ∀ pair, wins (some pair) = true → cmpRfc3339 record.createdAt pair.createdAt = .gt

/-- The import puts a record before the one that was chosen. -/
def Displaces (wins : Option EvidenceRecord → Bool) (evidence : List EvidenceRecord)
    (record : EvidenceRecord) (candidate target : String) : Prop :=
  let records := evidenceOf evidence record.kind candidate
  record.subject = candidate ∧ standingRecord evidence record = none ∧
    wins (pairRecord records target) = false ∧
    (record.targetRef = target ∨ pairRecord records target = none) ∧
    ∃ rival, (pairRecord records target).or records.head? = some rival ∧
      ListedBefore record.createdAt rival.createdAt ∧
      decode rival.payload ≠ decode record.payload

variable {decode} {wins : Option EvidenceRecord → Bool} {evidence : List EvidenceRecord}
  {record : EvidenceRecord} {candidate target : String}

theorem listedBefore_of_newer {new old : String} (hnew : IsTimestamp new) (hold : IsTimestamp old)
    (h : cmpRfc3339 new old = .gt) : ListedBefore new old := by
  refine Or.inl (lt_of_not_ge fun hle => ?_)
  exact (notNewer_iff hold hnew).2 hle h

section

omit [Rfc3339]

theorem chosen_of_own (h : pairRecord records target = some record) :
    chosen decode wins record.payload records target = decode record.payload := by
  rw [chosen, h]
  split <;> rfl

theorem chosen_of_pair {pair : EvidenceRecord} (hlost : wins (some pair) = false)
    (h : pairRecord records target = some pair) :
    chosen decode wins file records target = decode pair.payload := by
  rw [chosen, h, hlost]
  rfl

theorem chosen_of_alone (hlost : wins none = false) (h : pairRecord records target = none) :
    chosen decode wins file records target =
      (records.head?.map fun first => decode first.payload).getD (decode file) := by
  rw [chosen, h, hlost]
  cases records.head? <;> rfl

end

section Append

variable {rows : List EvidenceRecord}

/-- The choice after an import of a record of the pair itself. -/
theorem chosen_append_iff_of_pair (hwins : WinsWhenNewer wins record candidate target)
    (hdated : ∀ other ∈ rows ++ [record], IsTimestamp other.createdAt)
    (hsubject : record.subject = candidate) (htarget : record.targetRef = target) :
    chosen decode wins record.payload (recent EvidenceRecord.createdAt (rows ++ [record])) target =
        chosen decode wins record.payload (recent EvidenceRecord.createdAt rows) target ↔
      ¬(wins (pairRecord (recent EvidenceRecord.createdAt rows) target) = false ∧
        ∃ rival, pairRecord (recent EvidenceRecord.createdAt rows) target = some rival ∧
          ListedBefore record.createdAt rival.createdAt ∧
          decode rival.payload ≠ decode record.payload) := by
  have hafter := pairRecord_append_of_eq hdated htarget
  cases hpair : pairRecord (recent EvidenceRecord.createdAt rows) target with
  | none =>
    rw [hpair] at hafter
    rw [chosen_of_own hafter, chosen, hpair, hwins.alone hsubject htarget]
    simp
  | some pair =>
    rw [hpair] at hafter
    dsimp only at hafter
    have hmem : pair ∈ rows := mem_recent.1 (List.mem_of_find?_eq_some hpair)
    have hstamp := hdated pair (List.mem_append_left _ hmem)
    have hnew := hdated record (by simp)
    cases hwon : wins (some pair) with
    | true =>
      rw [if_pos (listedBefore_of_newer hnew hstamp (hwins.newer pair hwon))] at hafter
      rw [chosen_of_own hafter, chosen, hpair, hwon]
      simp
    | false =>
      rw [chosen_of_pair hwon hpair]
      by_cases hbefore : ListedBefore record.createdAt pair.createdAt
      · rw [if_pos hbefore] at hafter
        rw [chosen_of_own hafter]
        simp [hbefore, eq_comm]
      · rw [if_neg hbefore] at hafter
        rw [chosen_of_pair hwon hafter]
        simp [hbefore]

/-- The choice after an import of a record of another pair. -/
theorem chosen_append_iff_of_other (hwins : WinsWhenNewer wins record candidate target)
    (hdated : ∀ other ∈ rows ++ [record], IsTimestamp other.createdAt)
    (htarget : record.targetRef ≠ target) :
    chosen decode wins record.payload (recent EvidenceRecord.createdAt (rows ++ [record])) target =
        chosen decode wins record.payload (recent EvidenceRecord.createdAt rows) target ↔
      ¬(pairRecord (recent EvidenceRecord.createdAt rows) target = none ∧
        ∃ rival, (recent EvidenceRecord.createdAt rows).head? = some rival ∧
          ListedBefore record.createdAt rival.createdAt ∧
          decode rival.payload ≠ decode record.payload) := by
  have hlost : ∀ pair, wins pair = false := by
    intro pair
    by_contra hwon
    exact htarget (hwins.names pair (by simpa using hwon)).2
  have hafter := pairRecord_append_of_ne hdated htarget
  cases hpair : pairRecord (recent EvidenceRecord.createdAt rows) target with
  | some pair =>
    rw [hpair] at hafter
    rw [chosen_of_pair (hlost _) hafter, chosen_of_pair (hlost _) hpair]
    simp
  | none =>
    rw [hpair] at hafter
    rw [chosen_of_alone (hlost _) hafter, chosen_of_alone (hlost _) hpair,
      head?_recent_append_eq hdated]
    cases hfirst : (recent EvidenceRecord.createdAt rows).head? with
    | none => simp
    | some first =>
      dsimp only
      by_cases hbefore : ListedBefore record.createdAt first.createdAt
      · rw [if_pos hbefore]
        simp [hbefore, eq_comm]
      · rw [if_neg hbefore]
        simp [hbefore]

end Append

/-- An import leaves the choice as it was unless it puts a record before the chosen one. -/
theorem chosen_imported_iff (hwins : WinsWhenNewer wins record candidate target)
    (hdated : Dated evidence record.kind candidate) (hstamp : IsTimestamp record.createdAt) :
    chosen decode wins record.payload
          (evidenceOf (imported evidence record) record.kind candidate) target =
        chosen decode wins record.payload (evidenceOf evidence record.kind candidate) target ↔
      ¬Displaces decode wins evidence record candidate target := by
  cases hstanding : standingRecord evidence record with
  | some existing =>
    rw [imported_of_some hstanding]
    simp [Displaces, hstanding]
  | none =>
    rw [imported_of_none hstanding]
    by_cases hsubject : record.subject = candidate
    · have hrows : recordsOf (evidence ++ [record]) record.kind candidate =
          recordsOf evidence record.kind candidate ++ [record] := by
        rw [← hsubject, recordsOf_append]
      have hall : ∀ other ∈ recordsOf evidence record.kind candidate ++ [record],
          IsTimestamp other.createdAt := by
        intro other hother
        rcases List.mem_append.1 hother with hold | hnew
        · exact hdated other hold
        · rwa [List.mem_singleton.1 hnew]
      rw [evidenceOf_eq_recent, evidenceOf_eq_recent, hrows]
      by_cases htarget : record.targetRef = target
      · rw [chosen_append_iff_of_pair hwins hall hsubject htarget]
        refine not_congr ⟨?_, ?_⟩
        · rintro ⟨hlost, rival, hpair, hbefore, hne⟩
          exact ⟨hsubject, hstanding, hlost, Or.inl htarget, rival,
            by rw [evidenceOf_eq_recent, hpair, Option.some_or], hbefore, hne⟩
        · rintro ⟨-, -, hlost, -, rival, hrival, hbefore, hne⟩
          refine ⟨hlost, rival, ?_, hbefore, hne⟩
          cases hpair : pairRecord (recent EvidenceRecord.createdAt
              (recordsOf evidence record.kind candidate)) target with
          | some pair =>
            rwa [evidenceOf_eq_recent, hpair, Option.some_or] at hrival
          | none =>
            -- A file of the pair wins where there is no record of the pair.
            rw [evidenceOf_eq_recent, hpair, hwins.alone hsubject htarget] at hlost
            cases hlost
      · rw [chosen_append_iff_of_other hwins hall htarget]
        refine not_congr ⟨?_, ?_⟩
        · rintro ⟨hpair, rival, hfirst, hbefore, hne⟩
          refine ⟨hsubject, hstanding, ?_, Or.inr hpair, rival,
            by rw [evidenceOf_eq_recent, hpair, Option.none_or, hfirst], hbefore, hne⟩
          by_contra hwon
          exact htarget (hwins.names _ (by simpa using hwon)).2
        · rintro ⟨-, -, -, hcase, rival, hrival, hbefore, hne⟩
          have hpair := hcase.resolve_left htarget
          refine ⟨hpair, rival, ?_, hbefore, hne⟩
          rwa [hpair, Option.none_or] at hrival
    · rw [evidenceOf_eq_recent, evidenceOf_eq_recent, recordsOf_append_of_ne hsubject]
      simp [Displaces, hsubject]

end Choice

end PhloTransform.Engine
