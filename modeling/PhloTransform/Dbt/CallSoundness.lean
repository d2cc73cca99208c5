import PhloTransform.Dbt.CallLiterals
import PhloTransform.Library.JoinedNames

/-!
# Where calls are recognised

Both forms of call recognition look at the first parenthesis and the last character only.  They
are right about a text exactly if it does not look like a call, or is an expression of which the
last character closes the first parenthesis; the arguments must not be starred, nor, in the
literal form, be anything else than literals without further escapes.

Main results:

- Theorem `exists_layout`: the arguments of a call as the literal parser knows them.
- Theorem `callsSound_iff`: the texts about which both forms are right.
-/

namespace PhloTransform.Dbt

open Library.Jinja
open PyLit (Ws)

/-- The arguments of a call stand for the positional and the keyword literals. -/
inductive Given (ok : PyLit.Literal → Prop) :
    List Argument → List Lit → List (String × Lit) → Prop where
  | nil : Given ok [] [] []
  | positional {expression lit rest positional keywords} (h : Stands ok expression (.value lit))
      (hrest : Given ok rest positional keywords) :
      Given ok (⟨.positional, expression⟩ :: rest) (lit :: positional) keywords
  | keyword {name expression lit rest positional keywords}
      (h : Stands ok expression (.value lit)) (hrest : Given ok rest positional keywords) :
      Given ok (⟨.keyword name, expression⟩ :: rest) positional
        ((String.ofList name, lit) :: keywords)

/-- What the literal form returns is the call that the text is: its name, and the literals that
its arguments stand for. -/
def StrictSound (lexicon : NameLexicon) (text : List Char) : Prop :=
  ∀ c, parseCall text = some c → ∃ call, IsCallText lexicon text call ∧
    c.name = String.ofList (callName call) ∧
    Given (fun _ => True) call.arguments c.positional c.keywords

/-- What either form returns is the call that the text is. -/
def CallsSound (lexicon : NameLexicon) (text : List Char) : Prop :=
  LooseSound lexicon text ∧ StrictSound lexicon text

/-- The literal parser accepts what stands between the first parenthesis and the last. -/
def IsAccepted (text : List Char) : Prop :=
  ∃ shape read, callShape text = some shape ∧
    PyLit.parseArgs (String.ofList shape.2) = .ok read

/-- The argument is a literal that is ASCII and uses no escape but those that stand for the
character behind the backslash. -/
def IsPlainLiteral (piece : List Lexeme) : Prop :=
  ∃ lit, Stands PyLit.Literal.AsWritten (expressionOf piece) (.value lit)

section Layouts

variable {ok : PyLit.Literal → Prop}
variable {arguments : List Argument} {positional : List Lit} {keywords : List (String × Lit)}
  {kind : ArgumentKind} {expression : List Lexeme}
variable {rest : List Argument}

theorem exists_given (h : ∀ argument ∈ arguments, (∃ key, keyOf argument.kind = some key) ∧
      ∃ lit, Stands ok argument.expression (.value lit)) :
    ∃ positional keywords, Given ok arguments positional keywords := by
  induction arguments with
  | nil => exact ⟨[], [], .nil⟩
  | cons argument arguments ih =>
    rw [List.forall_mem_cons] at h
    obtain ⟨positional, keywords, hgiven⟩ := ih h.2
    obtain ⟨⟨key, hkey⟩, lit, hlit⟩ := h.1
    obtain ⟨kind, expression⟩ := argument
    cases kind with
    | positional => exact ⟨_, _, .positional hlit hgiven⟩
    | keyword name => exact ⟨_, _, .keyword hlit hgiven⟩
    | star => cases hkey
    | doubleStar => cases hkey

theorem Given.exists_stands (h : Given ok arguments positional keywords) :
    ∀ argument ∈ arguments, ∃ lit, Stands ok argument.expression (.value lit) := by
  induction h with
  | nil => simp
  | positional h _ ih => exact List.forall_mem_cons.2 ⟨⟨_, h⟩, ih⟩
  | keyword h _ ih => exact List.forall_mem_cons.2 ⟨⟨_, h⟩, ih⟩

def keywordName : ArgumentKind → Option String
  | .keyword name => some (String.ofList name)
  | .positional | .star | .doubleStar => none

theorem exists_argument {head : List Lexeme} {lit : Lit} (hhead : tokens head = kind.head)
    (hkind : ∃ key, keyOf kind = some key)
    (hname : ∀ name, kind = .keyword name → isName name = true)
    (h : Stands ok expression (.value lit)) (hspaced : Spaced (head ++ expression)) :
    ∃ (before : Ws) (argument : PyLit.Argument),
      render (head ++ expression) = before.text ++ argument.text ∧
      argument.name = keywordName kind ∧ argument.item.value = lit ∧
      Carries ok expression (.value lit) argument.item.literals := by
  obtain ⟨gap, item, htext, hvalue, hcarries⟩ := h.layout hspaced.right
  cases kind with
  | positional =>
    rw [ArgumentKind.head, tokens, List.map_eq_nil_iff] at hhead
    subst hhead
    exact ⟨gap, .positional item, htext, rfl, hvalue, hcarries⟩
  | keyword name =>
    obtain ⟨⟨space, first⟩, more, rfl, rfl, hmore⟩ := List.map_eq_cons_iff.1 hhead
    obtain ⟨⟨between, second⟩, rest, rfl, rfl, hrest⟩ := List.map_eq_cons_iff.1 hmore
    obtain rfl := List.map_eq_nil_iff.1 hrest
    obtain ⟨before, rfl⟩ := hspaced.head
    obtain ⟨middle, rfl⟩ := hspaced.tail.head
    obtain ⟨name, rfl⟩ := exists_name (hname name rfl)
    refine ⟨before, .keyword name middle gap item, ?_, rfl, hvalue, hcarries⟩
    rw [render_append, htext, PyLit.Argument.text]
    simp [Lexeme.text, Token.text, Sign.text]
  | star => exact absurd hkind (by simp [keyOf])
  | doubleStar => exact absurd hkind (by simp [keyOf])

theorem given_cons {lit : Lit} (hkind : ∃ key, keyOf kind = some key)
    (h : Stands ok expression (.value lit)) (hrest : Given ok rest positional keywords) :
    Given ok (⟨kind, expression⟩ :: rest)
      (PyLit.Parser.gather (keywordName kind) lit (positional, keywords)).1
      (PyLit.Parser.gather (keywordName kind) lit (positional, keywords)).2 := by
  cases kind with
  | positional => exact .positional h hrest
  | keyword name => exact .keyword h hrest
  | star => exact absurd hkind (by simp [keyOf])
  | doubleStar => exact absurd hkind (by simp [keyOf])

theorem given_cons_cases (h : Given ok (⟨kind, expression⟩ :: rest) positional keywords) :
    (∃ key, keyOf kind = some key) ∧ ∃ lit positional' keywords',
      Stands ok expression (.value lit) ∧ Given ok rest positional' keywords' ∧
      (positional, keywords) =
        PyLit.Parser.gather (keywordName kind) lit (positional', keywords') := by
  cases h with
  | positional h hrest => exact ⟨⟨_, rfl⟩, _, _, _, h, hrest, rfl⟩
  | keyword h hrest => exact ⟨⟨_, rfl⟩, _, _, _, h, hrest, rfl⟩

/-- The arguments of a call as the literal parser knows them. -/
theorem exists_layout {passed : Passed} {inner : List Lexeme} (h : Arguments passed inner arguments)
    (hgiven : Given ok arguments positional keywords) (hspaced : Spaced inner)
    (hname : ∀ argument ∈ arguments, ∀ name, argument.kind = .keyword name → isName name = true)
    (pad : Ws) : ∃ args : PyLit.Arguments, args.text = render inner ++ pad.text ∧
      args.values = (positional, keywords) ∧ (∀ lit ∈ args.literals, ok lit) ∧
      ∀ ok' : PyLit.Literal → Prop, (∀ lit ∈ args.literals, ok' lit) →
        Given ok' arguments positional keywords := by
  induction h generalizing positional keywords with
  | nil =>
    cases hgiven
    exact ⟨.close pad, rfl, rfl, by simp [PyLit.Arguments.literals], fun ok' _ => .nil⟩
  | @last passed kind head expression hopens _ =>
    obtain ⟨hkind, lit, _, _, hlit, hnil, heq⟩ := given_cons_cases hgiven
    cases hnil
    have hhead := List.append_cancel_right hopens.eq_append
    obtain ⟨before, argument, htext, hargument, rfl, hcarries⟩ := exists_argument hhead hkind
      (hname _ List.mem_cons_self) hlit hspaced
    refine ⟨.last before argument pad, ?_, ?_, hcarries.1, fun ok' h => ?_⟩
    · rw [htext, PyLit.Arguments.text]
    · rw [PyLit.Arguments.values, hargument, heq]
    · have hnil : Given ok' [] [] [] := .nil
      have hcons := given_cons hkind (hcarries.2 ok' h) hnil
      rw [← heq] at hcons
      exact hcons
  | @more passed kind head expression space rest arguments hopens _ _ ih =>
    obtain ⟨hkind, lit, positional', keywords', hlit, hmore, heq⟩ := given_cons_cases hgiven
    have hhead := List.append_cancel_right hopens.eq_append
    rw [List.forall_mem_cons] at hname
    have hassoc : head ++ (expression ++ ⟨space, .sign .comma⟩ :: rest) =
        (head ++ expression) ++ ⟨space, .sign .comma⟩ :: rest := (List.append_assoc _ _ _).symm
    rw [hassoc] at hspaced ⊢
    obtain ⟨before, argument, htext, hargument, rfl, hcarries⟩ := exists_argument hhead hkind
      hname.1 hlit hspaced.left
    obtain ⟨after, rfl⟩ := hspaced.right.head
    obtain ⟨args, hargs, hvalues, hok, hgiven'⟩ := ih hmore hspaced.right.tail hname.2
    refine ⟨.more before argument after args, ?_, ?_, ?_, fun ok' h => ?_⟩
    · rw [render_append, htext, PyLit.Arguments.text, hargs]
      simp [Lexeme.text, Token.text, Sign.text]
    · rw [PyLit.Arguments.values, hargument, hvalues, heq]
    · exact List.forall_mem_append.2 ⟨hcarries.1, hok⟩
    · obtain ⟨hfirst, hrest⟩ := List.forall_mem_append.1 h
      have hcons := given_cons hkind (hcarries.2 ok' hfirst) (hgiven' ok' hrest)
      rw [← heq] at hcons
      exact hcons

end Layouts

section Soundness

variable {lexicon : NameLexicon} {text : List Char}

/-! ## The call of a text -/

theorem notMem_pathTokens (first : List Char) (others : List (List Char)) :
    Token.sign .lparen ∉ pathTokens first others := by
  simp [pathTokens]

theorem Enclosed.unique {e e' : Enclosed} {first first' : List Char}
    {others others' : List (List Char)} (hpath : tokens e.path = pathTokens first others)
    (hpath' : tokens e'.path = pathTokens first' others') (h : e.lexemes = e'.lexemes) :
    e = e' := by
  have htokens := congrArg tokens h
  rw [tokens_lexemes, tokens_lexemes, hpath, hpath'] at htokens
  have hsame := (Library.append_cons_inj (notMem_pathTokens _ _) (notMem_pathTokens _ _)).1 htokens
  have hlength : e.path.length = e'.path.length := by
    have hlength := congrArg List.length (hpath.trans (hsame.1.trans hpath'.symm))
    rwa [tokens, tokens, List.length_map, List.length_map] at hlength
  obtain ⟨path, gap, inner, pad⟩ := e
  obtain ⟨path', gap', inner', pad'⟩ := e'
  obtain ⟨rfl, hrest⟩ := List.append_inj h hlength
  obtain ⟨hgap, hinner⟩ := List.cons.inj hrest
  obtain ⟨rfl, hpad⟩ := List.append_inj' hinner rfl
  cases hgap
  cases hpad
  rfl

theorem isAscii_of_isKeyChar {c : Char} (h : isKeyChar c = true) : Library.IsAscii c := by
  rw [isKeyChar, Bool.or_eq_true, beq_iff_eq] at h
  rcases h with h | rfl
  · exact PyLit.isAscii_of_isAlphanum h
  · decide

theorem isName_of_spelled {name : List Char}
    (h : (Token.name name).Spelled lexicon.toLexicon) (hkey : name.all isKeyChar = true) :
    isName name = true := by
  obtain ⟨c, rest, rfl, hstart⟩ := h.1
  have hdigit := lexicon.not_digit c hstart
  have hall : ∀ n < 128, isKeyChar (Char.ofNat n) = true →
      PyLit.isIdentByte (Char.ofNat n).toUInt8 = true ∧
        ((Char.ofNat n).isDigit = false → PyLit.isIdentStart (Char.ofNat n).toUInt8 = true) := by
    decide +kernel
  have hident : ∀ {c : Char}, isKeyChar c = true → PyLit.isIdentByte c.toUInt8 = true ∧
      (c.isDigit = false → PyLit.isIdentStart c.toUInt8 = true) := fun {c} hc =>
    PyLit.forall_isAscii (p := fun c => isKeyChar c = true → PyLit.isIdentByte c.toUInt8 = true ∧
      (c.isDigit = false → PyLit.isIdentStart c.toUInt8 = true)) hall (isAscii_of_isKeyChar hc) hc
  rw [List.all_cons, Bool.and_eq_true, List.all_eq_true] at hkey
  rw [isName, Bool.and_eq_true, Bool.and_eq_true, decide_eq_true_eq, List.all_eq_true]
  refine ⟨⟨isAscii_of_isKeyChar hkey.1, (hident hkey.1).2 hdigit⟩, fun d hd => ?_⟩
  rw [Bool.and_eq_true, decide_eq_true_eq]
  exact ⟨isAscii_of_isKeyChar (hkey.2 d hd), (hident (hkey.2 d hd)).1⟩

theorem IsEnclosed.spelled {e : Enclosed} (h : IsEnclosed lexicon text e) :
    (∀ lexeme ∈ e.inner, lexeme.Spelled lexicon.toLexicon) ∧ ∃ pad : Ws, pad.text = e.pad := by
  obtain ⟨tail, hlex⟩ := h.lexed
  have hlexed := lexicon.lexed_of_lex hlex
  refine ⟨fun lexeme hlexeme => hlexed.spelled lexeme (by simp [Enclosed.lexemes, hlexeme]), ?_⟩
  exact exists_ws (hlexed.spelled ⟨e.pad, .sign .rparen⟩ (by simp [Enclosed.lexemes])).space

theorem isName_of_isRegular {inner : List Lexeme} {passed : Passed} {arguments : List Argument}
    (h : Arguments passed inner arguments)
    (hspelled : ∀ lexeme ∈ inner, lexeme.Spelled lexicon.toLexicon)
    (hregular : ∀ piece ∈ splitAtCommas 0 inner, IsRegular piece) :
    ∀ argument ∈ arguments, ∀ name, argument.kind = .keyword name → isName name = true := by
  intro argument hargument name hname
  rw [← h.map_ofPiece] at hargument
  obtain ⟨piece, hpiece, rfl⟩ := List.mem_map.1 hargument
  have hmem := (List.mem_filter.1 hpiece).1
  have hkind : kindOf (tokens piece) = .keyword name := hname
  have hkey := hregular piece hmem
  rw [IsRegular, hkind] at hkey
  obtain ⟨space, between, hlexemes⟩ := keyword_piece hkind
  have hfirst : (⟨space, .name name⟩ : Lexeme) ∈ piece := by
    rw [hlexemes]
    exact List.mem_cons_self
  exact isName_of_spelled (hspelled _ (subset_of_mem_splitAtCommas hmem hfirst)).token hkey

/-- The arguments of a text that looks like a call, as the literal parser knows them. -/
theorem IsEnclosed.exists_layout {e : Enclosed} (h : IsEnclosed lexicon text e)
    (hregular : ∀ piece ∈ splitAtCommas 0 e.inner, IsRegular piece) {arguments : List Argument}
    (harguments : Arguments .nothing e.inner arguments) {ok : PyLit.Literal → Prop}
    {positional : List Lit} {keywords : List (String × Lit)}
    (hgiven : Given ok arguments positional keywords) {shape : List Char × List Char}
    (hshape : callShape text = some shape) :
    ∃ args : PyLit.Arguments, args.text = shape.2 ∧ args.values = (positional, keywords) ∧
      (∀ lit ∈ args.literals, ok lit) ∧
      ∀ ok' : PyLit.Literal → Prop, (∀ lit ∈ args.literals, ok' lit) →
        Given ok' arguments positional keywords := by
  obtain ⟨hspelled, pad, hpad⟩ := h.spelled
  obtain ⟨tail, hlex⟩ := h.lexed
  obtain ⟨first, others, hpath, -⟩ := h.named
  have hparts := callShape_enclosed (lexicon.lexed_of_lex hlex) hpath hshape arguments
  obtain ⟨args, htext, hargs⟩ := Dbt.exists_layout harguments hgiven
    (fun lexeme hlexeme => (hspelled lexeme hlexeme).space)
    (isName_of_isRegular harguments hspelled hregular) pad
  exact ⟨args, by rw [htext, hpad, hparts], hargs⟩

/-! ## Soundness -/

/-- The literal form is right where the arguments are plain literals. -/
theorem strictSound_of_plain {e : Enclosed} (h : IsEnclosed lexicon text e)
    (hregular : ∀ piece ∈ splitAtCommas 0 e.inner, IsRegular piece)
    (hplain : ∀ piece ∈ splitAtCommas 0 e.inner, piece ≠ [] → IsPlainLiteral piece)
    {c : Call} (hc : parseCall text = some c) :
    ∃ call, IsCallText lexicon text call ∧ c.name = String.ofList (callName call) ∧
      Given (fun _ => True) call.arguments c.positional c.keywords := by
  obtain ⟨tail, hlex⟩ := h.lexed
  obtain ⟨first, others, hpath, hfirst⟩ := h.named
  obtain ⟨arguments, hcall⟩ := Enclosed.exists_arguments h.expression hpath hfirst h.closed
  have harguments : Arguments .nothing e.inner arguments := hcall.arguments
  have hstands : ∀ argument ∈ arguments, (∃ key, keyOf argument.kind = some key) ∧
      ∃ lit, Stands PyLit.Literal.AsWritten argument.expression (.value lit) := by
    intro argument hargument
    rw [← harguments.map_ofPiece] at hargument
    obtain ⟨piece, hpiece, rfl⟩ := List.mem_map.1 hargument
    obtain ⟨hmem, hne⟩ := List.mem_filter.1 hpiece
    refine ⟨?_, hplain piece hmem (of_decide_eq_true hne)⟩
    have hkey := hregular piece hmem
    rw [IsRegular] at hkey
    change ∃ key, keyOf (kindOf (tokens piece)) = some key
    generalize kindOf (tokens piece) = kind at hkey
    cases kind with
    | positional => exact ⟨_, rfl⟩
    | keyword name => exact ⟨_, rfl⟩
    | star => exact hkey.elim
    | doubleStar => exact hkey.elim
  obtain ⟨positional, keywords, hgiven⟩ := exists_given hstands
  rw [parseCall_eq] at hc
  obtain ⟨shape, hshape, hc⟩ := Option.bind_eq_some_iff.1 hc
  obtain ⟨args, htext, hvalues, hwritten, hcarries⟩ :=
    h.exists_layout hregular harguments hgiven hshape
  have hread : PyLit.parseArgs (String.ofList shape.2) = .ok (positional, keywords) := by
    rw [← htext, ← hvalues]
    exact (PyLit.readBack_iff (.arguments args)).2 hwritten
  rw [hread] at hc
  cases hc
  have hparts := callShape_enclosed (lexicon.lexed_of_lex hlex) hpath hshape arguments
  refine ⟨⟨first, others, arguments⟩, ⟨_, tail, e, hlex, hcall⟩, ?_, hcarries _ (by simp)⟩
  rw [hparts]

/-- The texts about which both forms are right. -/
theorem callsSound_iff (lexicon : NameLexicon) (text : List Char) :
    CallsSound lexicon text ↔ (IsShaped text → ∃ e, IsEnclosed lexicon text e ∧
      (∀ piece ∈ splitAtCommas 0 e.inner, IsRegular piece) ∧
      (IsAccepted text → ∀ piece ∈ splitAtCommas 0 e.inner, piece ≠ [] →
        IsPlainLiteral piece)) := by
  constructor
  · rintro ⟨hloose, hstrict⟩ hshaped
    obtain ⟨e, he, hregular⟩ := (looseSound_iff lexicon text).1 hloose hshaped
    refine ⟨e, he, hregular, ?_⟩
    rintro ⟨shape, read, hshape, hread⟩ piece hpiece hne
    have hparse : parseCall text = some ⟨String.ofList shape.1, read.1, read.2⟩ := by
      rw [parseCall_eq, hshape, Option.bind_some, hread]
    obtain ⟨call, ⟨lexemes, tail, e', hlex, hcall⟩, -, hgiven⟩ := hstrict _ hparse
    obtain ⟨tail', hlex'⟩ := he.lexed
    obtain ⟨first, others, hpath, -⟩ := he.named
    have hsame : e = e' := by
      rw [hlex] at hlex'
      have hlexemes := (Prod.mk.inj (Option.some.inj hlex')).1
      exact Enclosed.unique hpath hcall.path_eq (hlexemes.symm.trans hcall.lexemes_eq)
    subst hsame
    obtain ⟨args, htext, hvalues, -, hcarries⟩ :=
      he.exists_layout hregular hcall.arguments hgiven hshape
    have hwritten := (PyLit.readBack_iff (.arguments args)).1 (by
      rw [PyLit.Written.ReadBack, htext, hvalues]
      exact hread)
    have hmem : piece ∈ (splitAtCommas 0 e.inner).filter (· ≠ []) :=
      List.mem_filter.2 ⟨hpiece, by simpa using hne⟩
    have hargument := List.mem_map_of_mem (f := Argument.ofPiece) hmem
    rw [hcall.arguments.map_ofPiece] at hargument
    exact (hcarries _ hwritten).exists_stands _ hargument
  · intro hcondition
    refine ⟨(looseSound_iff lexicon text).2 fun hshaped => ?_, fun c hc => ?_⟩
    · obtain ⟨e, he, hregular, -⟩ := hcondition hshaped
      exact ⟨e, he, hregular⟩
    · have hparse := hc
      rw [parseCall_eq] at hparse
      obtain ⟨shape, hshape, hparse⟩ := Option.bind_eq_some_iff.1 hparse
      obtain ⟨e, he, hregular, hplain⟩ := hcondition (Option.isSome_iff_exists.2 ⟨shape, hshape⟩)
      refine strictSound_of_plain he hregular (hplain ?_) hc
      cases hread : PyLit.parseArgs (String.ofList shape.2) with
      | ok read => exact ⟨shape, read, hshape, hread⟩
      | error _ =>
        rw [hread] at hparse
        cases hparse

end Soundness

namespace Sample

def asciiNumeral (_ : Option Char) (text : List Char) : Option (Token × List Char) :=
  if text.takeWhile Char.isDigit = [] then none
  else some (.integer (text.takeWhile Char.isDigit), text.dropWhile Char.isDigit)

theorem asciiNumeral_eq {before : Option Char} {text rest : List Char} {token : Token}
    (h : asciiNumeral before text = some (token, rest)) :
    ∃ digits, (token = .integer digits ∨ token = .float digits) ∧ digits ≠ [] ∧
      text = digits ++ rest ∧ ∀ c ∈ digits, isKeyChar c = true ∨ c = '.' ∨ c = '+' ∨ c = '-' := by
  rw [asciiNumeral] at h
  split_ifs at h with hne
  cases h
  refine ⟨_, .inl rfl, hne, List.takeWhile_append_dropWhile.symm, fun c hc => .inl ?_⟩
  rw [isKeyChar, Char.isAlphanum, List.mem_takeWhile_imp hc, Bool.or_true, Bool.true_or]

def asciiLexicon : NameLexicon where
  isStart c := isKeyChar c && !c.isDigit
  isWord := isKeyChar
  numeral := asciiNumeral
  word_of_start := by
    intro c h
    rw [Bool.and_eq_true] at h
    exact h.1
  ordinary_of_word := by
    intro c h
    exact PyLit.forall_isAscii (p := fun c => isKeyChar c = true → isOrdinary c = true)
      (by decide +kernel) (isAscii_of_isKeyChar h) h
  numeral_eq := fun _ _ _ _ h => asciiNumeral_eq h
  visible := by
    intro c h
    exact PyLit.forall_isAscii (p := fun c => isKeyChar c = true → Core.isWhitespace c = false)
      (by decide +kernel) (isAscii_of_isKeyChar h) h
  not_digit := by
    intro c h
    rw [Bool.and_eq_true, Bool.not_eq_true'] at h
    exact h.2

def concatenated : List Char :=
  "f(a) ~ g(b)".toList

/-- A concatenation of two calls is read as one call. -/
theorem concatenated_read_as_call :
    parseCallLoose concatenated = some ⟨"f".toList, [(none, "a) ~ g(b".toList)]⟩ ∧
      ¬CallsSound asciiLexicon concatenated := by
  have hparse : parseCallLoose concatenated = some ⟨"f".toList, [(none, "a) ~ g(b".toList)]⟩ := by
    decide +kernel
  refine ⟨hparse, fun hsound => ?_⟩
  obtain ⟨call, hcall, -⟩ := hsound.1 _ hparse
  obtain ⟨e, he, -⟩ := isEnclosed_of_isCallText hcall
  obtain ⟨tail, hlex⟩ := he.lexed
  obtain ⟨first, others, hpath, -⟩ := he.named
  have hclosed := he.closed
  have htokens : (asciiLexicon.lex concatenated).map (fun parts => tokens parts.1) =
      some [.name ['f'], .sign .lparen, .name ['a'], .sign .rparen, .sign .tilde, .name ['g'],
        .sign .lparen, .name ['b'], .sign .rparen] := by
    decide +kernel
  rw [hlex, Option.map_some, Option.some.injEq, tokens_lexemes, hpath, pathTokens] at htokens
  cases others with
  | cons word others => cases (List.cons.inj (List.cons.inj htokens).2).1
  | nil =>
    have hinner := (List.cons.inj (List.cons.inj htokens).2).2
    have hsplit : tokens e.inner ++ [.sign .rparen] = [.name ['a'], .sign .rparen, .sign .tilde,
      .name ['g'], .sign .lparen, .name ['b']] ++ [.sign .rparen] := hinner
    rw [(List.append_inj' hsplit rfl).1] at hclosed
    -- the first parenthesis is closed behind the first argument
    rcases hclosed.cons_cases with ⟨-, hrest⟩ | ⟨_, _, _, _, heq, -⟩
    · exact hrest.ne_closing (s := .rparen) rfl rfl
    · cases heq

end Sample

end PhloTransform.Dbt
