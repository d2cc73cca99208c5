import PhloTransform.Library.JinjaLexing

/-!
# Calls of dotted names

An expression that starts with a dotted name and a parenthesis is a call of the name if its last
token closes the parenthesis; the arguments are what stands between the commas inside.

Main results:

- Theorem `Enclosed.exists_arguments`: an expression of this shape is a call.
- Theorem `Enclosed.reads_condition`: a call is an expression of this shape.
-/

namespace PhloTransform.Library.Jinja

/-! ## Names and arguments -/

def pathTokens (first : List Char) (others : List (List Char)) : List Token :=
  .name first :: others.flatMap fun text => [.sign .dot, .name text]

/-- What is no name at the start of an expression. -/
def reserved : List (List Char) :=
  ["true".toList, "True".toList, "false".toList, "False".toList, "none".toList, "None".toList,
    "not".toList]

/-- An argument of a call: how it is passed, and its expression. -/
structure Argument where
  kind : ArgumentKind
  expression : List Lexeme
deriving Repr, DecidableEq

/-- The arguments inside of the parentheses of a call. -/
inductive Arguments : Passed → List Lexeme → List Argument → Prop where
  | nil {passed} : Arguments passed [] []
  | last {passed kind head expression}
      (hopens : Opens passed (tokens head ++ (tokens expression ++ [.sign .rparen])) kind
        (tokens expression ++ [.sign .rparen]))
      (h : Reads .condition (tokens expression ++ [.sign .rparen]) [.sign .rparen]) :
      Arguments passed (head ++ expression) [⟨kind, expression⟩]
  | more {passed kind head expression space rest arguments}
      (hopens : Opens passed
        (tokens head ++ (tokens expression ++ .sign .comma :: (tokens rest ++ [.sign .rparen])))
        kind (tokens expression ++ .sign .comma :: (tokens rest ++ [.sign .rparen])))
      (h : Reads .condition (tokens expression ++ .sign .comma :: (tokens rest ++ [.sign .rparen]))
        (.sign .comma :: (tokens rest ++ [.sign .rparen])))
      (hrest : Arguments (passed.add kind) rest arguments) :
      Arguments passed (head ++ (expression ++ ⟨space, .sign .comma⟩ :: rest))
        (⟨kind, expression⟩ :: arguments)

/-- What stands in front of a parenthesis, and inside up to the closing one at the end. -/
structure Enclosed where
  path : List Lexeme
  gap : List Char
  inner : List Lexeme
  pad : List Char
deriving Repr, DecidableEq

def Enclosed.lexemes (e : Enclosed) : List Lexeme :=
  e.path ++ ⟨e.gap, .sign .lparen⟩ :: (e.inner ++ [⟨e.pad, .sign .rparen⟩])

/-- A call of a dotted name. -/
structure NamedCall where
  first : List Char
  others : List (List Char)
  arguments : List Argument
deriving Repr, DecidableEq

/-- The lexemes are one call of a dotted name, with these arguments. -/
structure IsCall (lexemes : List Lexeme) (call : NamedCall) (e : Enclosed) : Prop where
  lexemes_eq : lexemes = e.lexemes
  path_eq : tokens e.path = pathTokens call.first call.others
  named : call.first ∉ reserved
  arguments : Arguments .nothing e.inner call.arguments

theorem tokens_lexemes (e : Enclosed) : tokens e.lexemes =
    tokens e.path ++ .sign .lparen :: (tokens e.inner ++ [.sign .rparen]) := by
  simp [Enclosed.lexemes]

/-! ## A call is an expression -/

theorem Arguments.reads {passed : Passed} {inner : List Lexeme} {arguments : List Argument}
    (h : Arguments passed inner arguments) :
    Reads (.arguments passed) (tokens inner ++ [.sign .rparen]) [] := by
  induction h with
  | nil => exact .argumentsEnd
  | last hopens h =>
    rw [tokens_append, List.append_assoc]
    exact .lastArgument hopens h
  | more hopens h _ ih =>
    simp only [tokens_append, tokens_cons, List.append_assoc, List.cons_append]
    exact .argument hopens h ih

theorem Arguments.balanced {passed : Passed} {inner : List Lexeme} {arguments : List Argument}
    (h : Arguments passed inner arguments) : Balanced true (tokens inner) := by
  obtain ⟨used, hused, inside, closing, rfl, -, hinside⟩ := h.reads.spends
  rw [List.append_nil] at hused
  rwa [(List.append_inj' hused rfl).1]

theorem Reads.trailers_path {tail rest : List Token} (h : Reads .trailers tail rest)
    (others : List (List Char)) :
    Reads .trailers ((others.flatMap fun text => [.sign .dot, .name text]) ++ tail) rest := by
  induction others with
  | nil => exact h
  | cons text others ih => exact .getattr (.inl ⟨text, rfl⟩) ih

theorem Reads.chain_of_operand {level : Level} {t : List Token} (h : Reads level.operand t []) :
    Reads (.chain level) t [] := by
  refine .chain h (.linksEnd ?_)
  intro operator hmem hprefix
  rw [List.prefix_nil.1 hprefix] at hmem
  cases level <;> simp [Level.operators] at hmem

theorem Reads.condition_of_unary {t : List Token} (h : Reads (.unary true) t [])
    (hnot : t.head? ≠ some (.word "not")) : Reads .condition t [] := by
  have hcompare : Reads (.chain .compare) t [] :=
    .chain_of_operand (.chain_of_operand (.chain_of_operand (.chain_of_operand
      (.chain_of_operand h))))
  have hor : Reads (.chain .or) t [] :=
    .chain_of_operand (.chain_of_operand (.negation hnot hcompare))
  exact .condition hor (.conditionsEnd (by simp))

theorem IsCall.reads_condition {lexemes : List Lexeme} {call : NamedCall} {e : Enclosed}
    (h : IsCall lexemes call e) :
    Reads .condition (tokens e.lexemes) [] ∧ Balanced true (tokens e.inner) := by
  refine ⟨?_, h.arguments.balanced⟩
  have hcall : Reads .trailers (.sign .lparen :: (tokens e.inner ++ [.sign .rparen])) [] :=
    .call h.arguments.reads (.trailersEnd (by simp))
  rw [tokens_lexemes, h.path_eq, pathTokens, List.cons_append]
  refine .condition_of_unary (.unary .name (hcall.trailers_path _) (.filtersEnd (by simp))) ?_
  intro hnot
  refine h.named ?_
  rw [List.head?_cons, Option.some.injEq, Token.word, Token.name.injEq] at hnot
  rw [hnot, reserved]
  simp

/-! ## An expression of the shape is a call -/

/-- The goals that start with an operand. -/
def Goal.startsOperand : Goal → Bool
  | condition | chain _ | negation | unary _ => true
  | _ => false

/-- Behind a name at the start there are attributes, subscripts and calls. -/
theorem Reads.trailers_of_name {goal : Goal} {t rest tail : List Token} {text : List Char}
    (h : Reads goal t rest) (hgoal : goal.startsOperand = true) (ht : t = .name text :: tail)
    (hnot : text ≠ "not".toList) : ∃ rest', Reads .trailers tail rest' := by
  induction h with
  | condition _ _ ih _ => exact ih rfl ht
  | @chain level _ _ _ _ _ ih _ =>
    refine ih ?_ ht
    cases level <;> rfl
  | not _ _ =>
    cases ht
    exact absurd rfl hnot
  | negation _ _ ih => exact ih rfl ht
  | signed _ _ _ _ _ _ _ => cases ht
  | @unary filtered t u v rest hprimary htrailers _ _ _ _ =>
    subst ht
    cases hprimary with
    | name => exact ⟨v, htrailers⟩
  | _ => cases hgoal

theorem Reads.arguments_of_trailers {others : List (List Char)} {tail rest : List Token}
    (h : Reads .trailers
      ((others.flatMap fun text => [.sign .dot, .name text]) ++ .sign .lparen :: tail) rest) :
    ∃ rest', Reads (.arguments .nothing) tail rest' := by
  induction others with
  | nil =>
    cases h with
    | call hinside _ => exact ⟨_, hinside⟩
    | trailersEnd hend => exact absurd rfl (hend .lparen (by simp))
  | cons text others ih =>
    cases h with
    | getattr _ h => exact ih h
    | trailersEnd hend => exact absurd rfl (hend .dot (by simp))

/-- The arguments that are read are lexemes inside of the parentheses. -/
theorem exists_arguments_of_reads {passed : Passed} {inner : List Lexeme}
    (h : Reads (.arguments passed) (tokens inner ++ [.sign .rparen]) []) :
    ∃ arguments, Arguments passed inner arguments := by
  induction hn : inner.length using Nat.strong_induction_on generalizing passed inner with
  | _ n ih =>
    subst hn
    generalize htokens : tokens inner ++ [.sign .rparen] = t at h
    cases h with
    | argumentsEnd =>
      have hinner : tokens inner = [] := (List.append_eq_singleton_iff.1 htokens).elim
        (fun h => h.1) (fun h => absurd h.2 (List.cons_ne_nil _ _))
      rw [tokens, List.map_eq_nil_iff] at hinner
      exact ⟨[], hinner ▸ .nil⟩
    | @lastArgument _ kind _ _ _ hopens hread =>
      obtain ⟨used, rfl, -⟩ := hread.spends
      rw [hopens.eq_append, ← List.append_assoc] at htokens
      obtain ⟨head, expression, rfl, hhead, rfl⟩ :=
        List.map_eq_append_iff.1 (List.append_inj' htokens rfl).1
      rw [hopens.eq_append, ← hhead] at hopens
      exact ⟨_, .last hopens hread⟩
    | @argument _ kind _ _ rest _ hopens hread hmore =>
      obtain ⟨used, rfl, -⟩ := hread.spends
      obtain ⟨more, hrest, inside, closing, rfl, -, -⟩ := hmore.spends
      rw [List.append_nil] at hrest
      subst hrest
      have hassoc : kind.head ++ (used ++ .sign .comma :: (inside ++ [.sign closing])) =
          (kind.head ++ (used ++ .sign .comma :: inside)) ++ [.sign closing] := by simp
      rw [hopens.eq_append, hassoc] at htokens
      obtain ⟨hinner, hclosing⟩ := List.append_inj' htokens rfl
      cases hclosing
      obtain ⟨head, behind, rfl, hhead, hbehind⟩ := List.map_eq_append_iff.1 hinner
      obtain ⟨expression, more, rfl, rfl, hmap⟩ := List.map_eq_append_iff.1 hbehind
      obtain ⟨⟨space, token⟩, rest, rfl, hcomma, rfl⟩ := List.map_eq_cons_iff.1 hmap
      cases hcomma
      obtain ⟨arguments, harguments⟩ := ih rest.length (by simp; omega) hmore rfl
      rw [hopens.eq_append, ← hhead] at hopens
      exact ⟨_, .more hopens hread harguments⟩

/-- An expression that starts with a dotted name, of which the last token closes the parenthesis
behind the name, is a call. -/
theorem Enclosed.exists_arguments {e : Enclosed} {first : List Char} {others : List (List Char)}
    (hread : Reads .condition (tokens e.lexemes) [])
    (hpath : tokens e.path = pathTokens first others) (hfirst : first ∉ reserved)
    (hinner : Balanced true (tokens e.inner)) :
    ∃ arguments, IsCall e.lexemes ⟨first, others, arguments⟩ e := by
  have hnot : first ≠ "not".toList := by
    rintro rfl
    exact hfirst (by simp [reserved])
  rw [tokens_lexemes, hpath] at hread
  obtain ⟨_, htrailers⟩ := hread.trailers_of_name rfl rfl hnot
  obtain ⟨rest, harguments⟩ := Reads.arguments_of_trailers htrailers
  -- the parenthesis is closed where the first unmatched closing bracket is, at the end
  obtain ⟨used, hused, inside, closing, rfl, hclosing, hinside⟩ := harguments.spends
  rw [List.append_assoc, List.singleton_append] at hused
  obtain ⟨-, -, rfl⟩ := hinner.unique hinside rfl hclosing hused
  obtain ⟨arguments, h⟩ := exists_arguments_of_reads harguments
  exact ⟨arguments, ⟨rfl, hpath, hfirst, h⟩⟩

/-! ## The pieces between the commas -/

/-- How a token goes on with the number of open brackets. -/
def Token.depthAfter (depth : Nat) : Token → Nat
  | sign s => if s.isOpening then depth + 1 else if s.isClosing then depth - 1 else depth
  | _ => depth

/-- One more in front of the first list. -/
def prepend {α : Type*} (a : α) : List (List α) → List (List α)
  | [] => [[a]]
  | piece :: pieces => (a :: piece) :: pieces

/-- What stands between the commas outside of brackets. -/
def splitAtCommas : Nat → List Lexeme → List (List Lexeme)
  | _, [] => [[]]
  | depth, lexeme :: rest =>
    if lexeme.token = .sign .comma ∧ depth = 0 then [] :: splitAtCommas 0 rest
    else prepend lexeme (splitAtCommas (lexeme.token.depthAfter depth) rest)

def kindOf : List Token → ArgumentKind
  | .sign .mul :: _ => .star
  | .sign .pow :: _ => .doubleStar
  | .name name :: .sign .assign :: _ => .keyword name
  | _ => .positional

/-- The expression behind what tells how the argument is passed. -/
def expressionOf (piece : List Lexeme) : List Lexeme :=
  piece.drop (kindOf (tokens piece)).head.length

def Argument.ofPiece (piece : List Lexeme) : Argument :=
  ⟨kindOf (tokens piece), expressionOf piece⟩

theorem foldr_prepend {α : Type*} (a piece : List α) (pieces : List (List α)) :
    a.foldr prepend (piece :: pieces) = (a ++ piece) :: pieces := by
  induction a with
  | nil => rfl
  | cons x a ih => rw [List.foldr_cons, ih, prepend, List.cons_append]

theorem splitAtCommas_cons {lexeme : Lexeme} {depth : Nat}
    (h : ¬(lexeme.token = .sign .comma ∧ depth = 0)) (rest : List Lexeme) :
    splitAtCommas depth (lexeme :: rest) =
      prepend lexeme (splitAtCommas (lexeme.token.depthAfter depth) rest) := by
  rw [splitAtCommas, if_neg h]

theorem Token.depthAfter_of_not_isBracket {token : Token} (h : token.isBracket = false)
    (depth : Nat) : token.depthAfter depth = depth := by
  cases token with
  | sign s =>
    rw [isBracket, Bool.or_eq_false_iff] at h
    rw [depthAfter, h.1, h.2, if_neg Bool.false_ne_true, if_neg Bool.false_ne_true]
  | name _ | integer _ | float _ | string _ _ => rfl

theorem Token.depthAfter_of_isOpening {s : Sign} (h : s.isOpening = true) (depth : Nat) :
    (sign s).depthAfter depth = depth + 1 := by
  rw [depthAfter, if_pos h]

theorem Token.depthAfter_of_isClosing {s : Sign} (h : s.isClosing = true) (depth : Nat) :
    (sign s).depthAfter (depth + 1) = depth := by
  rw [depthAfter, if_neg, if_pos h, Nat.add_sub_cancel]
  exact fun hopening => Sign.isClosing_of_isOpening hopening h

theorem splitAtCommas_append {free : Bool} {a : List Lexeme} (h : Balanced free (tokens a))
    {depth : Nat} (hdepth : free = true → depth ≠ 0) (b : List Lexeme) :
    splitAtCommas depth (a ++ b) = a.foldr prepend (splitAtCommas depth b) := by
  generalize htokens : tokens a = t at h
  induction h generalizing a b depth with
  | nil =>
    rw [tokens, List.map_eq_nil_iff] at htokens
    rw [htokens]
    rfl
  | plain hplain _ ih =>
    obtain ⟨lexeme, a, rfl, rfl, hmap⟩ := List.map_eq_cons_iff.1 htokens
    have hcomma : ¬(lexeme.token = .sign .comma ∧ depth = 0) := by
      rintro ⟨heq, -⟩
      rw [heq] at hplain
      cases hplain
    rw [List.cons_append, splitAtCommas_cons hcomma,
      Token.depthAfter_of_not_isBracket (Token.isBracket_of_isPlain hplain),
      ih hdepth b hmap, List.foldr_cons]
  | free hfree _ ih =>
    obtain ⟨lexeme, a, rfl, rfl, hmap⟩ := List.map_eq_cons_iff.1 htokens
    have hbracket : lexeme.token.isBracket = false := by
      rcases hfree with heq | heq
      · rw [heq]
        rfl
      · rw [heq]
        rfl
    rw [List.cons_append, splitAtCommas_cons fun hcomma => hdepth rfl hcomma.2,
      Token.depthAfter_of_not_isBracket hbracket, ih hdepth b hmap, List.foldr_cons]
  | @group free opening closing inside rest hopening hclosing _ _ ihinside ih =>
    obtain ⟨lexeme, a, rfl, hlexeme, hmap⟩ := List.map_eq_cons_iff.1 htokens
    obtain ⟨inside, a, rfl, hinside, hmap⟩ := List.map_eq_append_iff.1 hmap
    obtain ⟨lexeme', a, rfl, hlexeme', hmap⟩ := List.map_eq_cons_iff.1 hmap
    have hcomma : ∀ {s : Sign} {lexeme : Lexeme} {depth : Nat}, lexeme.token = .sign s →
        (Token.sign s).isBracket = true → ¬(lexeme.token = .sign .comma ∧ depth = 0) := by
      rintro s lexeme depth hs hbracket ⟨heq, -⟩
      rw [← hs, heq] at hbracket
      cases hbracket
    rw [List.cons_append,
      splitAtCommas_cons (hcomma hlexeme (Token.isBracket_of_isOpening hopening)), hlexeme,
      Token.depthAfter_of_isOpening hopening, List.append_assoc,
      ihinside (fun _ => Nat.succ_ne_zero _) _ hinside, List.cons_append,
      splitAtCommas_cons (hcomma hlexeme' (Token.isBracket_of_isClosing hclosing)), hlexeme',
      Token.depthAfter_of_isClosing hclosing, ih hdepth b hmap, List.foldr_cons,
      List.foldr_append, List.foldr_cons]

theorem splitAtCommas_head {kind : ArgumentKind} {head : List Lexeme}
    (hhead : tokens head = kind.head) (rest : List Lexeme) :
    splitAtCommas 0 (head ++ rest) = head.foldr prepend (splitAtCommas 0 rest) := by
  have hplain : ∀ lexeme ∈ head, lexeme.token.isBracket = false ∧
      lexeme.token ≠ .sign .comma := by
    intro lexeme hlexeme
    have hmem : lexeme.token ∈ kind.head := hhead ▸ List.mem_map_of_mem hlexeme
    generalize lexeme.token = token at hmem
    cases kind with
    | positional => cases hmem
    | keyword name =>
      simp only [ArgumentKind.head, List.mem_cons, List.not_mem_nil, or_false] at hmem
      rcases hmem with rfl | rfl
      · exact ⟨rfl, by simp⟩
      · exact ⟨rfl, by simp⟩
    | star =>
      obtain rfl := List.mem_singleton.1 hmem
      exact ⟨rfl, by simp⟩
    | doubleStar =>
      obtain rfl := List.mem_singleton.1 hmem
      exact ⟨rfl, by simp⟩
  clear hhead
  induction head with
  | nil => rfl
  | cons lexeme head ih =>
    rw [List.forall_mem_cons] at hplain
    rw [List.cons_append, splitAtCommas_cons fun h => hplain.1.2 h.1,
      Token.depthAfter_of_not_isBracket hplain.1.1, ih hplain.2, List.foldr_cons]

theorem Opens.of_positional {passed : Passed} {t u : List Token}
    (h : Opens passed t .positional u) :
    t.head? ≠ some (.sign .mul) ∧ t.head? ≠ some (.sign .pow) ∧
      ∀ name rest, t ≠ .name name :: .sign .assign :: rest := by
  cases h with
  | positional _ hstar hkeyword => exact ⟨hstar.1, hstar.2, hkeyword⟩

theorem Opens.kindOf_eq {passed : Passed} {kind : ArgumentKind} {t u : List Token}
    (h : Opens passed (t ++ u) kind u) {used rest : List Token} (hu : u = used ++ rest) :
    kindOf (t ++ used) = kind := by
  obtain rfl := List.append_cancel_right h.eq_append
  subst hu
  cases kind with
  | star => rfl
  | doubleStar => rfl
  | keyword name => rfl
  | positional =>
    obtain ⟨hmul, hpow, hkeyword⟩ := h.of_positional
    change kindOf used = .positional
    unfold kindOf
    split
    · exact absurd rfl hmul
    · exact absurd rfl hpow
    · exact absurd rfl (hkeyword _ _)
    · rfl

theorem Argument.ofPiece_append {passed : Passed} {kind : ArgumentKind}
    {head expression : List Lexeme} {rest : List Token}
    (hopens : Opens passed (tokens head ++ (tokens expression ++ rest)) kind
      (tokens expression ++ rest)) :
    Argument.ofPiece (head ++ expression) = ⟨kind, expression⟩ := by
  have hkind : kindOf (tokens (head ++ expression)) = kind := by
    rw [tokens_append]
    exact hopens.kindOf_eq rfl
  have hlength : kind.head.length = head.length := by
    rw [← List.append_cancel_right hopens.eq_append, tokens, List.length_map]
  rw [ofPiece, expressionOf, hkind, hlength, List.drop_left]

theorem ne_nil_of_reads {expression : List Lexeme} {rest : List Token}
    (h : Reads .condition (tokens expression ++ rest) rest) :
    expression ≠ [] ∧ Operand (tokens expression) := by
  obtain ⟨used, hused, hoperand⟩ := h.spends
  obtain rfl := List.append_cancel_right hused
  refine ⟨?_, hoperand⟩
  rintro rfl
  obtain ⟨token, rest, heq, -⟩ := hoperand.starts
  cases heq

theorem Arguments.map_ofPiece {passed : Passed} {inner : List Lexeme} {arguments : List Argument}
    (h : Arguments passed inner arguments) :
    ((splitAtCommas 0 inner).filter (· ≠ [])).map Argument.ofPiece = arguments := by
  induction h with
  | nil => rfl
  | @last passed kind head expression hopens h =>
    obtain ⟨hne, hoperand⟩ := ne_nil_of_reads h
    have hhead := List.append_cancel_right hopens.eq_append
    have hsplit : splitAtCommas 0 (head ++ expression) = [head ++ expression] := by
      rw [splitAtCommas_head hhead, ← List.append_nil expression,
        splitAtCommas_append hoperand.balanced (by simp), splitAtCommas, foldr_prepend,
        foldr_prepend]
    rw [hsplit, List.filter_cons_of_pos (by simp [hne]), List.filter_nil, List.map_singleton,
      Argument.ofPiece_append hopens]
  | @more passed kind head expression space rest arguments hopens h _ ih =>
    obtain ⟨hne, hoperand⟩ := ne_nil_of_reads h
    have hhead := List.append_cancel_right hopens.eq_append
    have hsplit : splitAtCommas 0 (head ++ (expression ++ ⟨space, .sign .comma⟩ :: rest)) =
        (head ++ expression) :: splitAtCommas 0 rest := by
      rw [splitAtCommas_head hhead, splitAtCommas_append hoperand.balanced (by simp),
        splitAtCommas, if_pos ⟨rfl, rfl⟩, foldr_prepend, foldr_prepend, List.append_nil]
    rw [hsplit, List.filter_cons_of_pos (by simp [hne]), List.map_cons, ih,
      Argument.ofPiece_append hopens]

theorem Arguments.operand {passed : Passed} {inner : List Lexeme} {arguments : List Argument}
    (h : Arguments passed inner arguments) :
    ∀ argument ∈ arguments, Operand (tokens argument.expression) := by
  induction h with
  | nil => simp
  | last _ h => simpa using (ne_nil_of_reads h).2
  | more _ h _ ih =>
    rw [List.forall_mem_cons]
    exact ⟨(ne_nil_of_reads h).2, ih⟩

theorem flatten_prepend {α : Type*} (a : α) (pieces : List (List α)) :
    (prepend a pieces).flatten = a :: pieces.flatten := by
  cases pieces <;> rfl

theorem flatten_splitAtCommas_subset (depth : Nat) (lexemes : List Lexeme) :
    (splitAtCommas depth lexemes).flatten ⊆ lexemes := by
  induction lexemes generalizing depth with
  | nil => exact List.Subset.refl _
  | cons lexeme rest ih =>
    rw [splitAtCommas]
    split_ifs
    · exact List.subset_cons_of_subset _ (ih 0)
    · rw [flatten_prepend]
      exact List.cons_subset_cons _ (ih _)

theorem subset_of_mem_splitAtCommas {depth : Nat} {lexemes piece : List Lexeme}
    (h : piece ∈ splitAtCommas depth lexemes) : piece ⊆ lexemes :=
  fun _ hlexeme => flatten_splitAtCommas_subset depth lexemes (List.mem_flatten_of_mem h hlexeme)

theorem Arguments.operand_expressionOf {passed : Passed} {inner piece : List Lexeme}
    {arguments : List Argument} (h : Arguments passed inner arguments)
    (hpiece : piece ∈ splitAtCommas 0 inner) (hne : piece ≠ []) :
    Operand (tokens (expressionOf piece)) := by
  have hmem : piece ∈ (splitAtCommas 0 inner).filter (· ≠ []) :=
    List.mem_filter.2 ⟨hpiece, by simp [hne]⟩
  have hargument := List.mem_map_of_mem (f := Argument.ofPiece) hmem
  rw [h.map_ofPiece] at hargument
  exact h.operand _ hargument

end PhloTransform.Library.Jinja
