import Mathlib.Data.List.TakeWhile
import PhloTransform.Library.JinjaGrammar

/-!
# The lexer of Jinja expressions

A text is read from left to right: white space, and a numeral, a string, a name or the longest
sign.  The characters of names and the numerals are parameters.

Main results:

- Theorem `Lexicon.lexed_of_lex`: the lexemes make up the text.
- Theorem `Lexicon.lexFrom_eq_lexFrom`: the bound on the number of tokens is not reached.
-/

namespace PhloTransform.Library.Jinja

variable {token : Token}

/-! ## Characters -/

def isQuoteChar (c : Char) : Bool :=
  c = '\'' || c = '"'

def isSpace (c : Char) : Bool :=
  c = ' ' || c = '\t' || c = '\n' || c = '\r'

/-- No quotes, brackets, commas, equals signs and white space. -/
def isOrdinary (c : Char) : Bool :=
  !"'\"()[]\x7b\x7d,= \t\n\r".toList.contains c

/-- The characters of names, and the numerals behind a character. -/
structure Lexicon where
  isStart : Char → Bool
  isWord : Char → Bool
  numeral : Option Char → List Char → Option (Token × List Char)
  word_of_start : ∀ c, isStart c = true → isWord c = true
  ordinary_of_word : ∀ c, isWord c = true → isOrdinary c = true
  /-- A numeral is made of characters of names, points and signs. -/
  numeral_eq : ∀ before text token rest, numeral before text = some (token, rest) →
    ∃ digits, (token = .integer digits ∨ token = .float digits) ∧ digits ≠ [] ∧
      text = digits ++ rest ∧ ∀ c ∈ digits, isWord c = true ∨ c = '.' ∨ c = '+' ∨ c = '-'

/-! ## Tokens in a text -/

/-- The body of a string, and what follows the closing quote. -/
def readString (quote : Char) : List Char → Option (List Char × List Char)
  | [] => none
  | c :: rest =>
    if c = quote then some ([], rest)
    else if c = '\\' then
      match rest with
      | [] => none
      | escaped :: rest =>
        (readString quote rest).map fun parts => (c :: escaped :: parts.1, parts.2)
    else (readString quote rest).map fun parts => (c :: parts.1, parts.2)

def readSign : List Char → Option (Sign × List Char)
  | '/' :: '/' :: rest => some (.floordiv, rest)
  | '*' :: '*' :: rest => some (.pow, rest)
  | '=' :: '=' :: rest => some (.eq, rest)
  | '!' :: '=' :: rest => some (.ne, rest)
  | '<' :: '=' :: rest => some (.le, rest)
  | '>' :: '=' :: rest => some (.ge, rest)
  | '(' :: rest => some (.lparen, rest)
  | ')' :: rest => some (.rparen, rest)
  | '[' :: rest => some (.lbracket, rest)
  | ']' :: rest => some (.rbracket, rest)
  | '{' :: rest => some (.lbrace, rest)
  | '}' :: rest => some (.rbrace, rest)
  | ',' :: rest => some (.comma, rest)
  | '=' :: rest => some (.assign, rest)
  | '.' :: rest => some (.dot, rest)
  | ':' :: rest => some (.colon, rest)
  | '|' :: rest => some (.pipe, rest)
  | ';' :: rest => some (.semicolon, rest)
  | '+' :: rest => some (.add, rest)
  | '-' :: rest => some (.sub, rest)
  | '*' :: rest => some (.mul, rest)
  | '/' :: rest => some (.div, rest)
  | '%' :: rest => some (.mod, rest)
  | '~' :: rest => some (.tilde, rest)
  | '<' :: rest => some (.lt, rest)
  | '>' :: rest => some (.gt, rest)
  | _ => none

/-- A token and the white space before it. -/
structure Lexeme where
  space : List Char
  token : Token
deriving Repr, DecidableEq

def Lexeme.text (lexeme : Lexeme) : List Char :=
  lexeme.space ++ lexeme.token.text

def render (lexemes : List Lexeme) : List Char :=
  lexemes.flatMap Lexeme.text

def tokens (lexemes : List Lexeme) : List Token :=
  lexemes.map Lexeme.token

namespace Lexicon

variable (lexicon : Lexicon)

def readToken (before : Option Char) (text : List Char) : Option (Token × List Char) :=
  match lexicon.numeral before text with
  | some read => some read
  | none =>
    match text with
    | [] => none
    | c :: rest =>
      if isQuoteChar c then
        (readString c rest).map fun parts => (.string c parts.1, parts.2)
      else if lexicon.isStart c then
        some (.name (c :: rest.takeWhile lexicon.isWord), rest.dropWhile lexicon.isWord)
      else (readSign (c :: rest)).map fun read => (.sign read.1, read.2)

/-- The lexemes of a text behind a character, and the white space at its end. -/
def lexFrom : Nat → Option Char → List Char → Option (List Lexeme × List Char)
  | 0, _, _ => none
  | fuel + 1, before, text =>
    let space := text.takeWhile isSpace
    if text.dropWhile isSpace = [] then some ([], space)
    else
      (lexicon.readToken (space.getLast? <|> before) (text.dropWhile isSpace)).bind fun read =>
        (lexFrom fuel read.1.text.getLast? read.2).map fun parts =>
          (⟨space, read.1⟩ :: parts.1, parts.2)

def lex (text : List Char) : Option (List Lexeme × List Char) :=
  lexicon.lexFrom (text.length + 1) none text

end Lexicon

/-! ## How tokens are written -/

/-- The body of a string: no quote but behind a backslash. -/
inductive StringBody (quote : Char) : List Char → Prop where
  | nil : StringBody quote []
  | plain {c body} (hquote : c ≠ quote) (hescape : c ≠ '\\') (h : StringBody quote body) :
      StringBody quote (c :: body)
  | escape {c body} (h : StringBody quote body) : StringBody quote ('\\' :: c :: body)

/-- The characters of names and numerals. -/
def Lexicon.isWordLike (lexicon : Lexicon) (c : Char) : Prop :=
  lexicon.isWord c = true ∨ c = '.' ∨ c = '+' ∨ c = '-'

def Token.Spelled (lexicon : Lexicon) : Token → Prop
  | name text =>
    (∃ c rest, text = c :: rest ∧ lexicon.isStart c = true) ∧ ∀ c ∈ text, lexicon.isWord c = true
  | integer text | float text => text ≠ [] ∧ ∀ c ∈ text, lexicon.isWordLike c
  | string quote body => isQuoteChar quote = true ∧ StringBody quote body
  | sign _ => True

/-- White space and tokens as a lexer writes them. -/
structure Lexeme.Spelled (lexicon : Lexicon) (lexeme : Lexeme) : Prop where
  space : ∀ c ∈ lexeme.space, isSpace c = true
  token : lexeme.token.Spelled lexicon

variable {lexicon : Lexicon}

theorem eq_of_readString {quote : Char} {text body after : List Char}
    (h : readString quote text = some (body, after)) :
    text = body ++ quote :: after ∧ StringBody quote body := by
  fun_induction readString quote text generalizing body after with
  | case1 => cases h
  | case2 rest =>
    cases h
    exact ⟨rfl, .nil⟩
  | case3 => cases h
  | case4 hquote escaped rest ih =>
    obtain ⟨⟨inner, left⟩, hread, heq⟩ := Option.map_eq_some_iff.1 h
    cases heq
    obtain ⟨rfl, hbody⟩ := ih hread
    exact ⟨rfl, .escape hbody⟩
  | case5 c rest hquote hescape ih =>
    obtain ⟨⟨inner, left⟩, hread, heq⟩ := Option.map_eq_some_iff.1 h
    cases heq
    obtain ⟨rfl, hbody⟩ := ih hread
    exact ⟨rfl, .plain hquote hescape hbody⟩

theorem eq_of_readSign {text after : List Char} {s : Sign} (h : readSign text = some (s, after)) :
    text = s.text ++ after := by
  unfold readSign at h
  split at h <;> cases h <;> rfl

theorem Lexicon.eq_of_readToken {before : Option Char} {text after : List Char}
    (h : lexicon.readToken before text = some (token, after)) :
    text = token.text ++ after ∧ token.Spelled lexicon := by
  unfold readToken at h
  split at h
  · next read hnumeral =>
      cases h
      obtain ⟨digits, rfl | rfl, hne, rfl, hdigits⟩ := lexicon.numeral_eq _ _ _ _ hnumeral
      · exact ⟨rfl, hne, hdigits⟩
      · exact ⟨rfl, hne, hdigits⟩
  · split at h
    · cases h
    · next c rest _ =>
        split_ifs at h with hquote hstart
        · obtain ⟨⟨body, left⟩, hread, heq⟩ := Option.map_eq_some_iff.1 h
          cases heq
          obtain ⟨rfl, hbody⟩ := eq_of_readString hread
          exact ⟨by simp [Token.text], hquote, hbody⟩
        · cases h
          refine ⟨by simp [Token.text, List.takeWhile_append_dropWhile], ⟨c, _, rfl, hstart⟩, ?_⟩
          intro d hd
          rcases List.mem_cons.1 hd with rfl | hd
          · exact lexicon.word_of_start d hstart
          · exact List.mem_takeWhile_imp hd
        · obtain ⟨⟨s, left⟩, hread, heq⟩ := Option.map_eq_some_iff.1 h
          cases heq
          exact ⟨eq_of_readSign hread, trivial⟩

theorem Token.Spelled.text_ne_nil (h : token.Spelled lexicon) : token.text ≠ [] := by
  cases token with
  | name text =>
    obtain ⟨c, rest, rfl, -⟩ := h.1
    exact List.cons_ne_nil _ _
  | integer text => exact h.1
  | float text => exact h.1
  | string quote body => exact List.cons_ne_nil _ _
  | sign s => cases s <;> exact List.cons_ne_nil _ _

/-! ## The lexemes of a text -/

@[simp]
theorem render_nil : render [] = [] :=
  rfl

@[simp]
theorem render_cons (lexeme : Lexeme) (lexemes : List Lexeme) :
    render (lexeme :: lexemes) = lexeme.text ++ render lexemes :=
  rfl

@[simp]
theorem render_append (a b : List Lexeme) : render (a ++ b) = render a ++ render b :=
  List.flatMap_append

@[simp]
theorem tokens_nil : tokens [] = [] :=
  rfl

@[simp]
theorem tokens_cons (lexeme : Lexeme) (lexemes : List Lexeme) :
    tokens (lexeme :: lexemes) = lexeme.token :: tokens lexemes :=
  rfl

@[simp]
theorem tokens_append (a b : List Lexeme) : tokens (a ++ b) = tokens a ++ tokens b :=
  List.map_append

/-- What a lexer returns: lexemes that make up the text together with the white space after
them. -/
structure Lexed (lexicon : Lexicon) (text : List Char) (lexemes : List Lexeme)
    (tail : List Char) : Prop where
  text_eq : text = render lexemes ++ tail
  spelled : ∀ lexeme ∈ lexemes, lexeme.Spelled lexicon
  tail : ∀ c ∈ tail, isSpace c = true

namespace Lexicon

variable {before : Option Char} {lexemes : List Lexeme}

theorem lexed_of_lexFrom {fuel : Nat} {text tail : List Char}
    (h : lexicon.lexFrom fuel before text = some (lexemes, tail)) :
    Lexed lexicon text lexemes tail := by
  induction fuel generalizing before text lexemes tail with
  | zero => cases h
  | succ fuel ih =>
    have hspace : ∀ c ∈ text.takeWhile isSpace, isSpace c = true :=
      fun c hc => List.mem_takeWhile_imp hc
    have hsplit : text.takeWhile isSpace ++ text.dropWhile isSpace = text :=
      List.takeWhile_append_dropWhile
    rw [lexFrom] at h
    split_ifs at h with hnil
    · cases h
      rw [hnil] at hsplit
      rw [List.append_nil] at hsplit
      exact ⟨hsplit.symm, by simp, hspace⟩
    · obtain ⟨⟨token, after⟩, hread, h⟩ := Option.bind_eq_some_iff.1 h
      obtain ⟨⟨more, left⟩, hmore, heq⟩ := Option.map_eq_some_iff.1 h
      cases heq
      obtain ⟨htext, hspelled⟩ := eq_of_readToken hread
      have hrest := ih hmore
      refine ⟨?_, ?_, hrest.tail⟩
      · rw [render_cons, Lexeme.text, List.append_assoc, List.append_assoc, ← hrest.text_eq,
          ← htext, hsplit]
      · rw [List.forall_mem_cons]
        exact ⟨⟨hspace, hspelled⟩, hrest.spelled⟩

theorem lexed_of_lex {text tail : List Char} (h : lexicon.lex text = some (lexemes, tail)) :
    Lexed lexicon text lexemes tail :=
  lexed_of_lexFrom h

theorem lexFrom_eq_lexFrom {fuel fuel' : Nat} {text : List Char} (h : text.length < fuel)
    (h' : text.length < fuel') :
    lexicon.lexFrom fuel before text = lexicon.lexFrom fuel' before text := by
  induction fuel generalizing fuel' before text with
  | zero => exact absurd h (Nat.not_lt_zero _)
  | succ fuel ih =>
    obtain ⟨fuel', rfl⟩ := Nat.exists_eq_succ_of_ne_zero (Nat.ne_zero_of_lt h')
    rw [lexFrom, lexFrom]
    congr 1
    refine Option.bind_congr fun read hread => ?_
    obtain ⟨token, after⟩ := read
    obtain ⟨htext, hspelled⟩ := eq_of_readToken hread
    have hlength := congrArg List.length htext
    have hdrop := (List.dropWhile_suffix isSpace (l := text)).length_le
    have hpos := List.length_pos_iff.2 hspelled.text_ne_nil
    rw [List.length_append] at hlength
    have hmore : lexicon.lexFrom fuel token.text.getLast? after =
        lexicon.lexFrom fuel' token.text.getLast? after := ih (by omega) (by omega)
    rw [hmore]

end Lexicon

end PhloTransform.Library.Jinja
