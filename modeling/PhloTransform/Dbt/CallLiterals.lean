import PhloTransform.Dbt.LooseCalls
import PhloTransform.Dbt.PyLitScalars

/-!
# Literals as arguments

An argument of a call stands for a literal if its expression is one: a string, a number, a
constant, a dotted name, or a list, tuple or dictionary of these.

Main results:

- Theorem `Stands.layout`: such an expression is laid out as the literal parser knows it.
- Theorem `Given.exists_layout`: the same for the arguments of a call.
-/

namespace PhloTransform.Dbt

open Library.Jinja
open PyLit (IsInteger IsDecimal integerValue Ws Name)
open PyLit.Parser (Sequence)

/-! ## Literals -/

/-- How the tokens of a string literal are written; a triple-quoted one is read as three strings
in a row. -/
inductive StringForm (lit : PyLit.Literal) : List Lexeme → Prop where
  | single {space} (h : lit.triple = false) :
      StringForm lit [⟨space, .string lit.quote.char (lit.pieces.flatMap PyLit.Piece.source)⟩]
  | triple {space} (h : lit.triple = true) :
      StringForm lit [⟨space, .string lit.quote.char []⟩,
        ⟨[], .string lit.quote.char (lit.pieces.flatMap PyLit.Piece.source)⟩,
        ⟨[], .string lit.quote.char []⟩]

def signText : Option Sign → List Char
  | none => []
  | some s => s.text

/-- A token with a sign right in front of it, or without. -/
def signLexemes (space : List Char) (sign : Option Sign) (token : Token) : List Lexeme :=
  match sign with
  | none => [⟨space, token⟩]
  | some s => [⟨space, .sign s⟩, ⟨[], token⟩]

def constants : List (List Char × Lit) :=
  [("True".toList, .bool true), ("true".toList, .bool true), ("False".toList, .bool false),
    ("false".toList, .bool false), ("None".toList, .nothing), ("none".toList, .nothing)]

def closeSign : Sequence → Sign
  | .list => .rbracket
  | .tuple => .rparen

/-- What lexemes stand for: a literal, or the rest of a sequence or a dictionary. -/
inductive Meaning where
  | value (lit : Lit)
  | items (kind : Sequence) (items : List Lit)
  | entries (entries : List (String × Lit))

/-- The lexemes of an expression that stands for a literal.  `null` is a variable, which no
literal stands for; so is a name as the key of a dictionary. -/
inductive Stands (ok : PyLit.Literal → Prop) : List Lexeme → Meaning → Prop where
  | string {lit lexemes} (h : StringForm lit lexemes) (hok : ok lit) :
      Stands ok lexemes (.value (.str lit.value))
  | integer {space sign digits} (h : IsInteger (signText sign) digits) :
      Stands ok (signLexemes space sign (.integer digits))
        (.value (.int (integerValue (signText sign) digits)))
  | decimal {space sign digits} (h : IsDecimal (signText sign) digits) :
      Stands ok (signLexemes space sign (.float digits))
        (.value (.float (String.ofList (signText sign ++ digits))))
  | constant {space text lit} (h : (text, lit) ∈ constants) :
      Stands ok [⟨space, .name text⟩] (.value lit)
  | path {space first rest} {others : List (List Char)} {name : Name} (hfirst : first ∉ reserved)
      (hrest : tokens rest = others.flatMap fun text => [.sign .dot, .name text])
      (htext : name.text = first ++ render rest) (hnull : name.text ≠ "null".toList) :
      Stands ok (⟨space, .name first⟩ :: rest) (.value (.ident (String.ofList name.text)))
  | list {space inner items} (h : Stands ok inner (.items .list items)) :
      Stands ok (⟨space, .sign .lbracket⟩ :: inner) (.value (.list items))
  | unit {space pad} :
      Stands ok [⟨space, .sign .lparen⟩, ⟨pad, .sign .rparen⟩] (.value (.list []))
  | tuple {space first lit comma rest items} (h : Stands ok first (.value lit))
      (hrest : Stands ok rest (.items .tuple items)) :
      Stands ok (⟨space, .sign .lparen⟩ :: (first ++ ⟨comma, .sign .comma⟩ :: rest))
        (.value (.list (lit :: items)))
  | dict {space inner entries} (h : Stands ok inner (.entries entries)) :
      Stands ok (⟨space, .sign .lbrace⟩ :: inner) (.value (.dict entries))
  | itemsEnd {kind pad} : Stands ok [⟨pad, .sign (closeSign kind)⟩] (.items kind [])
  | lastItem {kind item lit pad} (h : Stands ok item (.value lit)) :
      Stands ok (item ++ [⟨pad, .sign (closeSign kind)⟩]) (.items kind [lit])
  | item {kind item lit comma rest items} (h : Stands ok item (.value lit))
      (hrest : Stands ok rest (.items kind items)) :
      Stands ok (item ++ ⟨comma, .sign .comma⟩ :: rest) (.items kind (lit :: items))
  | entriesEnd {pad} : Stands ok [⟨pad, .sign .rbrace⟩] (.entries [])
  | lastEntry {key : PyLit.Literal} {first colon item lit pad} (hkey : StringForm key first)
      (hok : ok key) (h : Stands ok item (.value lit)) :
      Stands ok (first ++ ⟨colon, .sign .colon⟩ :: (item ++ [⟨pad, .sign .rbrace⟩]))
        (.entries [(key.value, lit)])
  | entry {key : PyLit.Literal} {first colon item lit comma rest entries}
      (hkey : StringForm key first) (hok : ok key) (h : Stands ok item (.value lit))
      (hrest : Stands ok rest (.entries entries)) :
      Stands ok (first ++ ⟨colon, .sign .colon⟩ :: (item ++ ⟨comma, .sign .comma⟩ :: rest))
        (.entries ((key.value, lit) :: entries))

/-! ## Layouts -/

def Spaced (lexemes : List Lexeme) : Prop :=
  ∀ lexeme ∈ lexemes, ∀ c ∈ lexeme.space, isSpace c = true

theorem exists_ws {space : List Char} (h : ∀ c ∈ space, isSpace c = true) :
    ∃ ws : Ws, ws.text = space :=
  ⟨⟨space, fun c hc => by simpa [isSpace, or_assoc] using h c hc⟩, rfl⟩

/-- What is so of the string literals holds where the lexemes stand for their meaning. -/
def Carries (ok : PyLit.Literal → Prop) (lexemes : List Lexeme) (meaning : Meaning)
    (literals : List PyLit.Literal) : Prop :=
  (∀ lit ∈ literals, ok lit) ∧
    ∀ ok' : PyLit.Literal → Prop, (∀ lit ∈ literals, ok' lit) → Stands ok' lexemes meaning

/-- The lexemes are laid out as the literal parser knows it. -/
def IsLaidOut (ok : PyLit.Literal → Prop) (lexemes : List Lexeme) : Meaning → Prop
  | .value lit => ∃ (before : Ws) (item : PyLit.Value), render lexemes = before.text ++ item.text ∧
      item.value = lit ∧ Carries ok lexemes (.value lit) item.literals
  | .items kind items => ∃ written : PyLit.Items, render lexemes = written.text kind ∧
      written.values = items ∧ Carries ok lexemes (.items kind items) written.literals
  | .entries entries => ∃ written : PyLit.Entries, render lexemes = written.text ∧
      written.values = entries ∧ Carries ok lexemes (.entries entries) written.literals

theorem StringForm.layout {lit : PyLit.Literal} {lexemes : List Lexeme} (h : StringForm lit lexemes)
    (hspaced : Spaced lexemes) : ∃ before : Ws, render lexemes = before.text ++ lit.text := by
  cases h with
  | single htriple =>
    obtain ⟨before, hbefore⟩ := exists_ws (hspaced _ List.mem_cons_self)
    refine ⟨before, ?_⟩
    rw [hbefore, PyLit.Literal.text, PyLit.Literal.quotes, htriple]
    simp [Lexeme.text, Token.text]
  | triple htriple =>
    obtain ⟨before, hbefore⟩ := exists_ws (hspaced _ List.mem_cons_self)
    refine ⟨before, ?_⟩
    rw [hbefore, PyLit.Literal.text, PyLit.Literal.quotes, htriple]
    simp [Lexeme.text, Token.text, List.replicate]

theorem render_signLexemes (space : List Char) (sign : Option Sign) {token : Token} :
    render (signLexemes space sign token) = space ++ (signText sign ++ token.text) := by
  cases sign with
  | none => simp [signLexemes, signText, Lexeme.text]
  | some s => simp [signLexemes, signText, Lexeme.text, Token.text]

theorem Spaced.exists_sign {space : List Char} {sign : Option Sign} {token : Token}
    (h : Spaced (signLexemes space sign token)) : ∃ ws : Ws, ws.text = space := by
  cases sign with
  | none => exact exists_ws (h _ List.mem_cons_self)
  | some s => exact exists_ws (h _ List.mem_cons_self)

theorem isLaidOut_scalar {ok : PyLit.Literal → Prop} {lexemes : List Lexeme} {lit : Lit}
    {space : List Char} (scalar : PyLit.Scalar) (hspace : ∃ ws : Ws, ws.text = space)
    (htext : render lexemes = space ++ scalar.text) (hvalue : scalar.value = lit)
    (h : ∀ ok' : PyLit.Literal → Prop, Stands ok' lexemes (.value lit)) :
    IsLaidOut ok lexemes (.value lit) := by
  obtain ⟨before, rfl⟩ := hspace
  exact ⟨before, .scalar scalar, htext, hvalue, by simp [PyLit.Value.literals], fun ok' _ => h ok'⟩

def isName : List Char → Bool
  | [] => false
  | first :: others =>
    decide (Library.IsAscii first) && PyLit.isIdentStart first.toUInt8 &&
      others.all fun c => decide (Library.IsAscii c) && PyLit.isIdentByte c.toUInt8

theorem exists_name {text : List Char} (h : isName text = true) :
    ∃ name : Name, name.text = text := by
  cases text with
  | nil => cases h
  | cons first others =>
    rw [isName, Bool.and_eq_true, Bool.and_eq_true, decide_eq_true_eq] at h
    refine ⟨⟨first, others, h.1, fun c hc => ?_⟩, rfl⟩
    simpa using List.all_eq_true.1 h.2 c hc

theorem exists_name_of_constant {text : List Char} {lit : Lit} (h : (text, lit) ∈ constants) :
    ∃ name : Name, name.text = text ∧ PyLit.wordValue text = lit := by
  have hall : (constants.all fun entry => isName entry.1) = true := by decide
  obtain ⟨name, hname⟩ := exists_name (List.all_eq_true.1 hall _ h)
  refine ⟨name, hname, ?_⟩
  simp only [constants, List.mem_cons, Prod.mk.injEq, List.not_mem_nil, or_false] at h
  rcases h with ⟨rfl, rfl⟩ | ⟨rfl, rfl⟩ | ⟨rfl, rfl⟩ | ⟨rfl, rfl⟩ | ⟨rfl, rfl⟩ | ⟨rfl, rfl⟩ <;> rfl

theorem wordValue_eq_ident {text : List Char} (h : text ∉ reserved) (hnull : text ≠ "null".toList) :
    PyLit.wordValue text = .ident (String.ofList text) := by
  have hne : ∀ word : String, word.toList ∈ reserved → String.ofList text ≠ word := by
    rintro word hword rfl
    rw [String.toList_ofList] at hword
    exact h hword
  have hnull : String.ofList text ≠ "null" := fun heq => hnull (heq ▸ String.toList_ofList.symm)
  rw [PyLit.wordValue, PyLit.Parser.word]
  rw [if_neg (not_or.2 ⟨hne "True" (by decide), hne "true" (by decide)⟩),
    if_neg (not_or.2 ⟨hne "False" (by decide), hne "false" (by decide)⟩),
    if_neg (not_or.2 ⟨hne "None" (by decide), not_or.2 ⟨hne "none" (by decide), hnull⟩⟩)]
  rfl

theorem path_notMem_reserved {first text : List Char} {rest : List Lexeme}
    {others : List (List Char)} (hfirst : first ∉ reserved)
    (hrest : tokens rest = others.flatMap fun text => [.sign .dot, .name text])
    (htext : text = first ++ render rest) : text ∉ reserved := by
  cases others with
  | nil =>
    rw [List.flatMap_nil, tokens, List.map_eq_nil_iff] at hrest
    rw [htext, hrest, render_nil, List.append_nil]
    exact hfirst
  | cons word others =>
    obtain ⟨⟨space, dot⟩, more, rfl, rfl, -⟩ := List.map_eq_cons_iff.1 hrest
    have hdot : '.' ∈ text := by simp [htext, Lexeme.text, Token.text, Sign.text]
    have hwords : (reserved.all fun word => !word.contains '.') = true := by decide
    intro hmem
    have hword := List.all_eq_true.1 hwords text hmem
    simp [hdot] at hword

theorem Spaced.left {a b : List Lexeme} (h : Spaced (a ++ b)) : Spaced a :=
  fun lexeme hlexeme => h lexeme (List.mem_append_left _ hlexeme)

theorem Spaced.right {a b : List Lexeme} (h : Spaced (a ++ b)) : Spaced b :=
  fun lexeme hlexeme => h lexeme (List.mem_append_right _ hlexeme)

theorem Spaced.tail {lexeme : Lexeme} {rest : List Lexeme} (h : Spaced (lexeme :: rest)) :
    Spaced rest :=
  fun other hother => h other (List.mem_cons_of_mem _ hother)

theorem Spaced.head {lexeme : Lexeme} {rest : List Lexeme} (h : Spaced (lexeme :: rest)) :
    ∃ ws : Ws, ws.text = lexeme.space :=
  exists_ws (h lexeme List.mem_cons_self)

theorem render_close (pad : List Char) (kind : Sequence) :
    render [⟨pad, .sign (closeSign kind)⟩] = pad ++ [kind.closeChar] := by
  cases kind <;> simp [Lexeme.text, Token.text, Sign.text, closeSign, Sequence.closeChar]

variable {ok : PyLit.Literal → Prop}

/-- What stands for a literal is laid out as the literal parser knows it. -/
theorem Stands.layout {lexemes : List Lexeme} {meaning : Meaning} (h : Stands ok lexemes meaning)
    (hspaced : Spaced lexemes) : IsLaidOut ok lexemes meaning := by
  induction h with
  | @string lit lexemes hform hok =>
    obtain ⟨before, htext⟩ := hform.layout hspaced
    exact ⟨before, .string lit, htext, rfl, by simpa [PyLit.Value.literals] using hok,
      fun ok' h => .string hform (h lit (List.mem_singleton_self _))⟩
  | @integer space sign digits h =>
    exact isLaidOut_scalar (.integer h) hspaced.exists_sign (render_signLexemes _ _) rfl
      fun ok' => .integer h
  | @decimal space sign digits h =>
    exact isLaidOut_scalar (.decimal h) hspaced.exists_sign (render_signLexemes _ _) rfl
      fun ok' => .decimal h
  | @constant space text lit h =>
    obtain ⟨name, rfl, hvalue⟩ := exists_name_of_constant h
    exact isLaidOut_scalar (.word name) hspaced.head (List.append_nil _) hvalue
      fun ok' => .constant h
  | @path space first rest others name hfirst hrest htext hnull =>
    have hvalue := wordValue_eq_ident (path_notMem_reserved hfirst hrest htext) hnull
    refine isLaidOut_scalar (.word name) hspaced.head ?_ hvalue
      fun ok' => .path hfirst hrest htext hnull
    rw [render_cons, Lexeme.text, List.append_assoc]
    exact congrArg (space ++ ·) htext.symm
  | @list space inner items h ih =>
    obtain ⟨before, hbefore⟩ := hspaced.head
    obtain ⟨written, htext, rfl, hliterals⟩ := ih hspaced.tail
    refine ⟨before, .sequence .list written, ?_, rfl, hliterals.1,
      fun ok' h => .list (hliterals.2 ok' h)⟩
    rw [render_cons, Lexeme.text, hbefore, htext]
    simp [Token.text, Sign.text, PyLit.Value.text, Sequence.openChar]
  | @unit space pad =>
    obtain ⟨before, hbefore⟩ := hspaced.head
    obtain ⟨close, hclose⟩ := hspaced.tail.head
    refine ⟨before, .sequence .tuple (.close close), ?_, rfl,
      by simp [PyLit.Value.literals, PyLit.Items.literals], fun ok' _ => .unit⟩
    rw [hbefore, PyLit.Value.text, PyLit.Items.text, hclose]
    simp [Lexeme.text, Token.text, Sign.text, Sequence.openChar, Sequence.closeChar]
  | @tuple space first lit comma rest items h hrest ih ihrest =>
    obtain ⟨before, hbefore⟩ := hspaced.head
    obtain ⟨gap, item, htext, rfl, hitem⟩ := ih hspaced.tail.left
    obtain ⟨after, hafter⟩ := hspaced.tail.right.head
    obtain ⟨written, hwritten, rfl, hliterals⟩ := ihrest hspaced.tail.right.tail
    refine ⟨before, .sequence .tuple (.more gap item after written), ?_, rfl, ?_, ?_⟩
    · rw [render_cons, render_append, render_cons, htext, hwritten, Lexeme.text, Lexeme.text,
        hbefore]
      dsimp only at hafter
      simp [Token.text, Sign.text, PyLit.Value.text, PyLit.Items.text, Sequence.openChar, hafter]
    · exact List.forall_mem_append.2 ⟨hitem.1, hliterals.1⟩
    · intro ok' h
      obtain ⟨hfirst, hmore⟩ := List.forall_mem_append.1 h
      exact .tuple (hitem.2 ok' hfirst) (hliterals.2 ok' hmore)
  | @dict space inner entries h ih =>
    obtain ⟨before, hbefore⟩ := hspaced.head
    obtain ⟨written, htext, rfl, hliterals⟩ := ih hspaced.tail
    refine ⟨before, .dict written, ?_, rfl, hliterals.1,
      fun ok' h => .dict (hliterals.2 ok' h)⟩
    rw [render_cons, Lexeme.text, hbefore, htext]
    simp [Token.text, Sign.text, PyLit.Value.text]
  | @itemsEnd kind pad =>
    obtain ⟨close, rfl⟩ := hspaced.head
    exact ⟨.close close, render_close _ _, rfl, by simp [PyLit.Items.literals],
      fun ok' _ => .itemsEnd⟩
  | @lastItem kind item lit pad h ih =>
    obtain ⟨before, value, htext, rfl, hvalue⟩ := ih hspaced.left
    obtain ⟨after, rfl⟩ := hspaced.right.head
    refine ⟨.last before value after, ?_, rfl, hvalue.1,
      fun ok' h => .lastItem (hvalue.2 ok' h)⟩
    rw [render_append, htext, render_close, PyLit.Items.text]
    simp
  | @item kind item lit comma rest items h hrest ih ihrest =>
    obtain ⟨before, value, htext, rfl, hvalue⟩ := ih hspaced.left
    obtain ⟨after, rfl⟩ := hspaced.right.head
    obtain ⟨written, hwritten, rfl, hliterals⟩ := ihrest hspaced.right.tail
    refine ⟨.more before value after written, ?_, rfl,
      List.forall_mem_append.2 ⟨hvalue.1, hliterals.1⟩, ?_⟩
    · rw [render_append, render_cons, htext, hwritten]
      simp [Lexeme.text, Token.text, Sign.text, PyLit.Items.text]
    · intro ok' h
      obtain ⟨hfirst, hmore⟩ := List.forall_mem_append.1 h
      exact .item (hvalue.2 ok' hfirst) (hliterals.2 ok' hmore)
  | @entriesEnd pad =>
    obtain ⟨close, rfl⟩ := hspaced.head
    refine ⟨.close close, ?_, rfl, by simp [PyLit.Entries.literals], fun ok' _ => .entriesEnd⟩
    simp [Lexeme.text, Token.text, Sign.text, PyLit.Entries.text]
  | @lastEntry key first colon item lit pad hkey hok h ih =>
    obtain ⟨before, htext⟩ := hkey.layout hspaced.left
    obtain ⟨between, rfl⟩ := hspaced.right.head
    obtain ⟨gap, value, hitem, rfl, hvalue⟩ := ih hspaced.right.tail.left
    obtain ⟨after, rfl⟩ := hspaced.right.tail.right.head
    refine ⟨.last before (.string key) between gap value after, ?_, rfl, ?_, ?_⟩
    · rw [render_append, render_cons, render_append, htext, hitem]
      simp [Lexeme.text, Token.text, Sign.text, PyLit.Entries.text, PyLit.Key.text]
    · exact List.forall_mem_append.2 ⟨by simpa [PyLit.Key.literals] using hok, hvalue.1⟩
    · intro ok' h
      obtain ⟨hfirst, hmore⟩ := List.forall_mem_append.1 h
      exact .lastEntry hkey (hfirst key (List.mem_singleton_self _)) (hvalue.2 ok' hmore)
  | @entry key first colon item lit comma rest entries hkey hok h hrest ih ihrest =>
    obtain ⟨before, htext⟩ := hkey.layout hspaced.left
    obtain ⟨between, rfl⟩ := hspaced.right.head
    obtain ⟨gap, value, hitem, rfl, hvalue⟩ := ih hspaced.right.tail.left
    obtain ⟨after, rfl⟩ := hspaced.right.tail.right.head
    obtain ⟨written, hwritten, rfl, hliterals⟩ := ihrest hspaced.right.tail.right.tail
    refine ⟨.more before (.string key) between gap value after written, ?_, rfl, ?_, ?_⟩
    · rw [render_append, render_cons, render_append, render_cons, htext, hitem, hwritten]
      simp [Lexeme.text, Token.text, Sign.text, PyLit.Entries.text, PyLit.Key.text]
    · refine List.forall_mem_append.2 ⟨List.forall_mem_append.2 ⟨?_, hvalue.1⟩, hliterals.1⟩
      simpa [PyLit.Key.literals] using hok
    · intro ok' h
      obtain ⟨hentry, hmore⟩ := List.forall_mem_append.1 h
      obtain ⟨hfirst, hitem⟩ := List.forall_mem_append.1 hentry
      exact .entry hkey (hfirst key (List.mem_singleton_self _)) (hvalue.2 ok' hitem)
        (hliterals.2 ok' hmore)

end PhloTransform.Dbt
