import PhloTransform.Core.Inference

/-!
# What inference says about values

A query engine computes the values of an expression, one for each row, from the values of
its subexpressions.  References take the values of their columns, CASE picks a branch by
row, and everything else is up to the engine: an aggregate or a window looks at all rows of
its arguments.

Main results:

- Theorem `eval_ne_null`: an expression that is inferred NOT NULL is never NULL.
- Theorem `eval_congr`: the values of a complete expression depend on the recorded columns
  only.
-/

namespace PhloTransform.Core.Columns

/-! ## Evaluation -/

/-- A value or NULL for every row. -/
abbrev Values (ρ V : Type) := ρ → Option V

structure Engine (ρ V : Type) where
  /-- The forms other than CASE, from the values of the subexpressions. -/
  apply : Expr → List (Values ρ V) → Values ρ V
  /-- A condition of CASE, against the operand if there is one. -/
  holds : Option (Option V) → Option V → Bool

section Eval

variable {ρ V : Type} (engine : Engine ρ V)
variable (rows rows' : Option String → String → Values ρ V)

/-- The values of an expression, given those of the columns. -/
def eval : Expr → Values ρ V
  | .identifier name => rows none name
  | .compound idents =>
    match idents.reverse with
    | name :: qualifier :: _ => rows (some qualifier) name
    | _ => engine.apply (.compound idents) []
  | .case operand conditions elseResult => fun r =>
    match conditions.attach.find? fun branch =>
      engine.holds (operand.attach.map fun operand => eval operand.1 r) (eval branch.1.1 r) with
    | some branch => eval branch.1.2 r
    | none => elseResult.attach.bind fun result => eval result.1 r
  | e => engine.apply e ((e.parts ++ e.unread).attach.map fun p => eval p.1)
termination_by e => sizeOf e
decreasing_by
  · apply Expr.sizeOf_lt_of_mem
    simp [Expr.parts, operand.2]
  · apply Expr.sizeOf_lt_of_mem
    have := branch.2
    simp only [Expr.parts, Expr.unread]
    grind
  · apply Expr.sizeOf_lt_of_mem
    have := branch.2
    simp only [Expr.parts, Expr.unread]
    grind
  · apply Expr.sizeOf_lt_of_mem
    simp [Expr.parts, result.2]
  · exact Expr.sizeOf_lt_of_mem p.2

end Eval

/-- CASE takes the value of a result, or NULL where no condition holds and there is no ELSE. -/
def Expr.isCase : Expr → Bool
  | case .. => true
  | _ => false

section Nodes

variable {ρ V : Type} {engine : Engine ρ V}
variable {rows rows' : Option String → String → Values ρ V}

/-- One node: the engine's own forms. -/
theorem eval_parts {e : Expr} (hreference : e.isReference = false) (hcase : e.isCase = false) :
    eval engine rows e = engine.apply e ((e.parts ++ e.unread).map (eval engine rows)) := by
  have heq : eval engine rows e =
      engine.apply e ((e.parts ++ e.unread).attach.map fun p => eval engine rows p.1) := by
    cases e with
    | identifier | compound => cases hreference
    | case => cases hcase
    | _ => rw [eval] <;> intros <;> simp_all
  rw [heq, List.attach_map_val]

variable (engine rows) in
/-- One node: CASE takes the value of a result, or it is NULL and there is no ELSE. -/
theorem eval_case (operand : Option Expr) (conditions : List (Expr × Expr))
    (elseResult : Option Expr) (r : ρ) :
    (∃ result ∈ conditions.map Prod.snd ++ elseResult.toList,
        eval engine rows (.case operand conditions elseResult) r = eval engine rows result r) ∨
      elseResult = none := by
  rw [eval]
  dsimp only
  split
  · next branch _ =>
    refine .inl ⟨branch.1.2, List.mem_append_left _ (List.mem_map_of_mem branch.2), rfl⟩
  · cases elseResult with
    | none => exact .inr rfl
    | some result => exact .inl ⟨result, by simp, by simp⟩

/-! ## NOT NULL -/

/-- The forms that are NULL only for a NULL part. -/
def Expr.isStrict : Expr → Bool
  | nested _ | round _ _ => true
  | cast kind _ _ => kind != .tryCast
  | unaryOp op _ => !(op matches .other _)
  | binaryOp _ op _ => !(op matches .other _)
  | _ => false

/-- The forms that are never NULL. -/
def Expr.isNeverNull (lang : Language) : Expr → Bool
  | value (.number _) | value (.boolean _) | value (.string _) | typedString _ _
  | test _ _ => true
  | function name _ _ _ => neverNull ((name.map lang.lower).getD "")
  | _ => false

/-- What the inference relies on: casts that are not tried, operators and the functions of
the table behave like those of SQL. -/
structure Engine.Standard (engine : Engine ρ V) (lang : Language) : Prop where
  strict : ∀ e values r, e.isStrict = true → engine.apply e values r = none →
    ∃ v ∈ values, v r = none
  neverNull : ∀ e values r, e.isNeverNull lang = true → engine.apply e values r ≠ none

/-- Columns that are NOT NULL hold no NULL. -/
def Declared (scope : Scope) (rows : Option String → String → Values ρ V) : Prop :=
  ∀ qualifier name column, scope.resolve qualifier name = [column] →
    column.nullability = .notNull → ∀ r, rows qualifier name r ≠ none

theorem merge_eq_notNull {a b : Nullability} :
    a.merge b = .notNull ↔ a = .notNull ∧ b = .notNull := by
  cases a <;> cases b <;> simp [Nullability.merge]

theorem foldl_merge_eq_notNull {start : Nullability} {l : List Nullability} :
    l.foldl .merge start = .notNull ↔ start = .notNull ∧ ∀ a ∈ l, a = .notNull := by
  induction l generalizing start with
  | nil => simp
  | cons a l ih => rw [List.foldl_cons, ih, merge_eq_notNull, List.forall_mem_cons, and_assoc]

variable {lang : Language} {scope : Scope}

/-- One node: why a form is inferred NOT NULL. -/
theorem neverNull_or_strict {e : Expr} (hreference : e.isReference = false)
    (hcase : e.isCase = false) (h : (infer lang scope e).nullability = .notNull) :
    e.isNeverNull lang = true ∨ e.isStrict = true ∧ e.unread = [] ∧
      ∀ p ∈ e.parts, (infer lang scope p).nullability = .notNull := by
  cases e with
  | identifier | compound => cases hreference
  | case => cases hcase
  | value literal => cases literal <;> simp_all [infer, inferValue, Expr.isNeverNull]
  | cast kind inner dataType =>
    cases kind <;> simp_all [infer, Expr.isStrict, Expr.parts, Expr.unread]
  | unaryOp op inner =>
    cases op <;> simp_all [infer, Expr.isStrict, Expr.parts, Expr.unread]
  | binaryOp left op right =>
    cases op <;> simp_all [infer, inferBinary, merge_eq_notNull, Expr.isStrict, Expr.parts,
      Expr.unread]
  | function name args window unread =>
    rw [infer] at h
    by_cases hname : neverNull ((name.map lang.lower).getD "") = true
    · exact .inl hname
    · simp [inferCall, inferFunction, hname] at h
  | substring | trim =>
    rw [infer] at h
    cases h
  | _ => simp_all [infer, composed, Expr.isNeverNull, Expr.isStrict, Expr.parts, Expr.unread]

theorem nullability_case {operand : Option Expr} {conditions : List (Expr × Expr)}
    {elseResult : Option Expr} :
    (infer lang scope (.case operand conditions elseResult)).nullability =
      ((conditions.map Prod.snd ++ elseResult.toList).map fun result =>
        (infer lang scope result).nullability).foldl .merge
          (if elseResult.isSome then .notNull else .nullable) := by
  rw [infer, inferConditions_eq, inferOption_eq]
  simp [Function.comp_def]

theorem mem_parts_of_mem_results {operand : Option Expr} {conditions : List (Expr × Expr)}
    {elseResult : Option Expr} {result : Expr}
    (h : result ∈ conditions.map Prod.snd ++ elseResult.toList) :
    result ∈ (Expr.case operand conditions elseResult).parts := by
  rw [Expr.parts, List.append_assoc]
  refine List.mem_append_right _ (List.mem_append.2 ((List.mem_append.1 h).imp_left ?_))
  intro hmem
  obtain ⟨branch, hbranch, rfl⟩ := List.mem_map.1 hmem
  exact List.mem_flatMap.2 ⟨branch, hbranch, by simp⟩

/-- An expression that is inferred NOT NULL is not NULL on any row, when the columns that are
declared NOT NULL are not. -/
theorem eval_ne_null (hengine : engine.Standard lang) (hrows : Declared scope rows) (e : Expr)
    (h : (infer lang scope e).nullability = .notNull) (r : ρ) : eval engine rows e r ≠ none := by
  induction e using Expr.induct with
  | step e ih =>
    by_cases hcase : e.isCase = true
    · cases e with
      | case operand conditions elseResult =>
        rw [nullability_case] at h
        obtain ⟨helse, hresults⟩ := foldl_merge_eq_notNull.1 h
        rcases eval_case engine rows operand conditions elseResult r with
          ⟨result, hresult, heq⟩ | rfl
        · rw [heq]
          exact ih result (mem_parts_of_mem_results hresult)
            (hresults _ (List.mem_map_of_mem hresult))
        · cases helse
      | _ => cases hcase
    · rw [Bool.not_eq_true] at hcase
      by_cases hreference : e.isReference = false
      · rw [eval_parts hreference hcase]
        intro hnull
        rcases neverNull_or_strict hreference hcase h with hnever | ⟨hstrict, hread, hparts⟩
        · exact hengine.neverNull _ _ _ hnever hnull
        · obtain ⟨v, hv, hnone⟩ := hengine.strict _ _ _ hstrict hnull
          rw [hread, List.append_nil] at hv
          obtain ⟨p, hp, rfl⟩ := List.mem_map.1 hv
          exact ih p hp (hparts p hp) hnone
      · have hcolumn : ∀ qualifier name,
            (resolveColumn scope qualifier name).nullability = .notNull →
              rows qualifier name r ≠ none := by
          intro qualifier name hname
          unfold resolveColumn at hname
          split at hname
          · next column hcolumn => exact hrows _ _ column hcolumn hname r
          · cases hname
        cases e with
        | identifier name =>
          rw [infer] at h
          rw [eval]
          exact hcolumn none name h
        | compound idents =>
          rw [infer] at h
          rw [eval]
          split at h
          · next name qualifier _ heq =>
            rw [heq]
            exact hcolumn (some qualifier) name h
          · cases h
        | _ => simp [Expr.isReference] at hreference

/-! ## Dependence -/

/-- The walks read all that the value of this form depends on. -/
def Expr.isPlain : Expr → Bool
  | function _ _ window unread => unread.isEmpty && !(window matches .named _)
  | _ => true

/-- No call in it has named arguments, a filter, an ordering or a named window. -/
inductive Expr.Plain : Expr → Prop where
  | intro {e : Expr} (here : e.isPlain = true) (parts : ∀ p ∈ e.parts, p.Plain) : e.Plain

theorem Expr.unread_of_isPlain {e : Expr} (h : e.isPlain = true) : e.unread = [] := by
  cases e with
  | function name args window unread =>
    exact List.isEmpty_iff.1 (Bool.and_eq_true_iff.1 h).1
  | _ => rfl

/-- The values of a plain expression depend on the identifiers that the walk collects. -/
theorem eval_eq_of_identifiers {e : Expr} (hplain : e.Plain)
    (hrows : ∀ id ∈ e.identifiers, rows id.1 id.2 = rows' id.1 id.2) :
    eval engine rows e = eval engine rows' e := by
  induction e using Expr.induct with
  | step e ih =>
    obtain ⟨here, hparts⟩ := hplain
    by_cases hreference : e.isReference = false
    · have heval : ∀ p ∈ e.parts, eval engine rows p = eval engine rows' p := fun p hp =>
        ih p hp (hparts p hp) fun id hid =>
          hrows id ((mem_identifiers_parts hreference).2 ⟨p, hp, hid⟩)
      by_cases hcase : e.isCase = true
      · cases e with
        | case operand conditions elseResult =>
          simp only [Expr.parts, List.mem_append, List.mem_flatMap] at heval
          funext r
          rw [eval, eval]
          have hfind : (fun branch : {c // c ∈ conditions} =>
              engine.holds (operand.attach.map fun o => eval engine rows o.1 r)
                (eval engine rows branch.1.1 r)) =
              fun branch => engine.holds (operand.attach.map fun o => eval engine rows' o.1 r)
                (eval engine rows' branch.1.1 r) := by
            funext branch
            rw [heval _ (.inl (.inr ⟨_, branch.2, by simp⟩))]
            cases operand with
            | none => rfl
            | some operand => simp [heval operand (.inl (.inl (by simp)))]
          dsimp only
          rw [hfind]
          split
          · next branch _ => rw [heval _ (.inl (.inr ⟨_, branch.2, by simp⟩))]
          · cases elseResult with
            | none => rfl
            | some result => simp [heval result (.inr (by simp))]
        | _ => cases hcase
      · rw [Bool.not_eq_true] at hcase
        rw [eval_parts hreference hcase, eval_parts hreference hcase,
          Expr.unread_of_isPlain here, List.append_nil, List.map_congr_left heval]
    · cases e with
      | identifier name =>
        rw [eval, eval]
        exact hrows (none, name) (by simp [Expr.identifiers])
      | compound idents =>
        rw [Expr.identifiers] at hrows
        rw [eval, eval]
        split
        · next heq =>
          rw [heq] at hrows
          exact hrows _ (List.mem_singleton_self _)
        · rfl
      | _ => simp [Expr.isReference] at hreference

end Nodes

/-! ## A sum -/

namespace Sample

/-- The column `orders.amount` of a source. -/
def amount : Column where
  name := "amount"
  dataType := .bigInt
  nullability := .notNull
  inputs :=
    [{ relation := .source { parts := ["orders"], parts_ne_nil := List.cons_ne_nil _ _ }
       column := "amount"
       directness := .direct
       transformation := .identity
       confidence := .exact
       expression := none }]
  complete := true

def orders : Scope :=
  [{ qualifier := some "orders", columns := [amount] }]

/-- `amount + amount`. -/
def doubled : Expr :=
  .binaryOp (.identifier "amount") .plus (.identifier "amount")

def printer : Language where
  lower := id
  text _ := "amount + amount"

/-- An engine over numbers that knows strict forms only. -/
def strictEngine : Engine Unit Nat where
  apply e values r :=
    if e.isStrict && values.any fun v => (v r).isNone then none
    else some ((values.map fun v => (v r).getD 0).sum)
  holds _ _ := false

theorem strictEngine_standard : strictEngine.Standard printer where
  strict e values r _ hnull := by
    have hnull : e.isStrict = true ∧ ∃ v ∈ values, v r = none := by
      simpa [strictEngine] using hnull
    exact hnull.2
  neverNull e values r hnever := by
    have hstrict : e.isStrict = false := by
      cases e with
      | value | typedString | test | function => rfl
      | _ => cases hnever
    simp [strictEngine, hstrict]

/-- The sum of a column without NULL is not NULL. -/
theorem doubled_ne_null : eval strictEngine (fun _ _ _ => some 2) doubled () ≠ none := by
  have hrows : Declared orders fun _ _ (_ : Unit) => some 2 := fun _ _ _ _ _ _ => by simp
  have hnotNull : (infer printer orders doubled).nullability = .notNull := by decide
  exact eval_ne_null strictEngine_standard hrows doubled hnotNull ()

end Sample

end PhloTransform.Core.Columns
