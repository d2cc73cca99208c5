import PhloTransform.Core.Trimming
import PhloTransform.Dbt.PropertyTests
import PhloTransform.Library.JinjaCalls

/-!
# The shape of calls

An expression is taken for a call if a name stands in front of its first parenthesis and its last
character is a closing one.  What is between is split at the commas outside of brackets and
quotes, or read as literals.

Main results:

- Theorem `parseCall_eq`: both forms go by the shape.
- Theorem `splitArgs_render`: the pieces of a text are those of its lexemes.
-/

namespace PhloTransform.Dbt

open Core (isWhitespace trim trimStart Blank Tight)
open Library.Jinja

variable {c : Char} {text : List Char}

/-! ## Recognition -/

/-- The characters of a name with its dots. -/
def isNameChar (c : Char) : Bool :=
  c.isAlphanum || c == '_' || c == '.'

/-- The name in front of the first parenthesis, and the text up to the last character, which
closes. -/
def callShape (inner : List Char) : Option (List Char × List Char) :=
  let inner := trim inner
  let name := trim (inner.takeWhile (· != '('))
  match inner.dropWhile (· != '(') with
  | [] => none
  | _ :: rest =>
    if name.isEmpty || !name.all isNameChar then none
    else if rest.getLast? ≠ some ')' then none
    else some (name, rest.dropLast)

/-- A call of which the arguments are texts, each with its key. -/
structure LooseCall where
  name : List Char
  args : List (Option (List Char) × List Char)
deriving Repr, DecidableEq

/-- The quote that is open behind a quote character. -/
def quoteAfter (c : Char) : Option Char → Option Char
  | some q => if q = c then none else some q
  | none => some c

/-- The loop of `split_args`. -/
def splitArgsFrom (depth : Nat) (quote : Option Char) : List Char → List (List Char)
  | [] => [[]]
  | c :: rest =>
    if c = '\'' ∨ c = '"' then prepend c (splitArgsFrom depth (quoteAfter c quote) rest)
    else if c = '\\' ∧ quote.isSome then
      match rest with
      | [] => [[c]]
      | escaped :: rest => prepend c (prepend escaped (splitArgsFrom depth quote rest))
    else if quote.isSome then prepend c (splitArgsFrom depth quote rest)
    else if c = '(' ∨ c = '[' ∨ c = '{' then prepend c (splitArgsFrom (depth + 1) quote rest)
    else if c = ')' ∨ c = ']' ∨ c = '}' then prepend c (splitArgsFrom (depth - 1) quote rest)
    else if c = ',' ∧ depth = 0 then [] :: splitArgsFrom depth quote rest
    else prepend c (splitArgsFrom depth quote rest)

def splitArgs (input : List Char) : List (List Char) :=
  splitArgsFrom 0 none input

def isKeyChar (c : Char) : Bool :=
  c.isAlphanum || c == '_'

/-- The bare word in front of the first `=`, if no other `=` follows it. -/
def argumentKey (trimmed : List Char) : Option (List Char) :=
  match trimmed.dropWhile (· != '=') with
  | [] => none
  | _ :: after =>
    let key := trim (trimmed.takeWhile (· != '='))
    if key.all isKeyChar && !key.isEmpty && after.head? != some '=' then some key else none

/-- An argument of a loose call; a blank one is passed over. -/
def looseArgument (piece : List Char) : Option (Option (List Char) × List Char) :=
  let trimmed := trim piece
  if trimmed = [] then none
  else
    match argumentKey trimmed with
    | some key =>
      some (some key, trim ((trimStart (trimmed.drop key.length)).dropWhile (· = '=')))
    | none => some (none, trimmed)

/-- `jinja::parse_call_loose`. -/
def parseCallLoose (inner : List Char) : Option LooseCall :=
  (callShape inner).map fun shape => ⟨shape.1, (splitArgs shape.2).filterMap looseArgument⟩

theorem parseCall_eq (inner : List Char) : parseCall inner = (callShape inner).bind fun shape =>
    match PyLit.parseArgs (String.ofList shape.2) with
    | .ok (positional, keywords) => some ⟨String.ofList shape.1, positional, keywords⟩
    | .error _ => none := by
  rw [parseCall, callShape]
  cases (trim inner).dropWhile (· != '(') with
  | nil => rfl
  | cons _ rest =>
    change (if (_ || !List.all _ isNameChar) = true then none else _) = _
    dsimp only
    split_ifs <;> rfl

/-! ## Splitting -/

/-- No quotes, brackets and commas. -/
structure IsInert (c : Char) : Prop where
  quote : c ≠ '\'' ∧ c ≠ '"'
  opening : c ≠ '(' ∧ c ≠ '[' ∧ c ≠ '{'
  closing : c ≠ ')' ∧ c ≠ ']' ∧ c ≠ '}'
  comma : c ≠ ','

theorem isInert_of_isOrdinary (h : isOrdinary c = true) : IsInert c := by
  have hne : ∀ d ∈ "'\"()[]\x7b\x7d,= \t\n\r".toList, c ≠ d := by
    rintro d hd rfl
    rw [isOrdinary, List.contains_iff_mem.2 hd] at h
    cases h
  exact ⟨⟨hne _ (by decide), hne _ (by decide)⟩,
    ⟨hne _ (by decide), hne _ (by decide), hne _ (by decide)⟩,
    ⟨hne _ (by decide), hne _ (by decide), hne _ (by decide)⟩, hne _ (by decide)⟩

theorem isInert_of_isSpace (h : isSpace c = true) : IsInert c := by
  simp only [isSpace, Bool.or_eq_true, decide_eq_true_eq] at h
  rcases h with ((rfl | rfl) | rfl) | rfl <;>
    exact ⟨by decide, by decide, by decide, by decide⟩

theorem isInert_of_isWordLike {lexicon : Lexicon} (h : lexicon.isWordLike c) : IsInert c := by
  rcases h with h | rfl | rfl | rfl
  · exact isInert_of_isOrdinary (lexicon.ordinary_of_word c h)
  all_goals exact ⟨by decide, by decide, by decide, by decide⟩

theorem splitArgsFrom_cons (h : IsInert c) (depth : Nat) (rest : List Char) :
    splitArgsFrom depth none (c :: rest) = prepend c (splitArgsFrom depth none rest) := by
  rw [splitArgsFrom.eq_def]
  simp [h.quote, h.opening, h.closing, h.comma]

theorem splitArgsFrom_comma (rest : List Char) :
    splitArgsFrom 0 none (',' :: rest) = [] :: splitArgsFrom 0 none rest := by
  rw [splitArgsFrom.eq_def]
  simp

theorem splitArgsFrom_append (h : ∀ c ∈ text, IsInert c) (depth : Nat) (rest : List Char) :
    splitArgsFrom depth none (text ++ rest) =
      text.foldr prepend (splitArgsFrom depth none rest) := by
  induction text with
  | nil => rfl
  | cons c text ih =>
    rw [List.forall_mem_cons] at h
    rw [List.cons_append, splitArgsFrom_cons h.1, ih h.2, List.foldr_cons]

/-- A string is passed over from behind its opening quote. -/
theorem splitArgsFrom_string {quote : Char} (hquote : isQuoteChar quote = true)
    {body : List Char} (h : StringBody quote body) (depth : Nat) (rest : List Char) :
    splitArgsFrom depth (some quote) (body ++ quote :: rest) =
      (body ++ [quote]).foldr prepend (splitArgsFrom depth none rest) := by
  have hquote : quote = '\'' ∨ quote = '"' := by simpa [isQuoteChar] using hquote
  induction h with
  | nil =>
    rw [List.nil_append, splitArgsFrom.eq_def]
    simp [hquote, quoteAfter]
  | @plain c body hne hescape _ ih =>
    rw [List.cons_append, splitArgsFrom.eq_def]
    dsimp only
    by_cases hc : c = '\'' ∨ c = '"'
    · rw [if_pos hc, quoteAfter, if_neg hne.symm, ih]
      rfl
    · rw [if_neg hc, if_neg fun h => hescape h.1, if_pos Option.isSome_some, ih]
      rfl
  | escape _ ih =>
    rw [List.cons_append, List.cons_append, splitArgsFrom.eq_def]
    dsimp only
    rw [if_neg (by decide), if_pos ⟨rfl, rfl⟩, ih]
    rfl

theorem splitArgsFrom_bracket {s : Sign} (h : (Token.sign s).isBracket = true) (depth : Nat)
    (rest : List Char) : splitArgsFrom depth none (s.text ++ rest) =
      s.text.foldr prepend (splitArgsFrom ((Token.sign s).depthAfter depth) none rest) := by
  cases s with
  | lparen | lbracket | lbrace | rparen | rbracket | rbrace =>
    rw [splitArgsFrom.eq_def]
    simp [Sign.text, Token.depthAfter, Sign.isOpening, Sign.isClosing]
  | _ => cases h

theorem isInert_of_mem_text {s : Sign} (h : (Token.sign s).isBracket = false)
    (hcomma : s ≠ .comma) : ∀ c ∈ s.text, IsInert c := by
  have hall : (s.text.all fun c =>
      decide (c ∉ ['\'', '"', '(', '[', '{', ')', ']', '}', ','])) = true := by
    revert h hcomma
    cases s <;> decide
  intro c hc
  have hne := of_decide_eq_true (List.all_eq_true.1 hall c hc)
  simp only [List.mem_cons, List.not_mem_nil, or_false, not_or] at hne
  exact ⟨⟨hne.1, hne.2.1⟩, ⟨hne.2.2.1, hne.2.2.2.1, hne.2.2.2.2.1⟩,
    ⟨hne.2.2.2.2.2.1, hne.2.2.2.2.2.2.1, hne.2.2.2.2.2.2.2.1⟩, hne.2.2.2.2.2.2.2.2⟩

/-- A token is passed over, a comma outside of brackets apart. -/
theorem splitArgsFrom_token {lexicon : Lexicon} {token : Token} (h : token.Spelled lexicon)
    {depth : Nat} (hcomma : ¬(token = .sign .comma ∧ depth = 0)) (rest : List Char) :
    splitArgsFrom depth none (token.text ++ rest) =
      token.text.foldr prepend (splitArgsFrom (token.depthAfter depth) none rest) := by
  cases token with
  | name text =>
    exact splitArgsFrom_append (fun c hc => isInert_of_isWordLike (.inl (h.2 c hc))) _ _
  | integer text => exact splitArgsFrom_append (fun c hc => isInert_of_isWordLike (h.2 c hc)) _ _
  | float text => exact splitArgsFrom_append (fun c hc => isInert_of_isWordLike (h.2 c hc)) _ _
  | string quote body =>
    have hquote : quote = '\'' ∨ quote = '"' := by simpa [isQuoteChar] using h.1
    have hbody := splitArgsFrom_string h.1 h.2 depth rest
    rw [Token.text, List.cons_append, List.append_assoc, List.singleton_append,
      splitArgsFrom.eq_def]
    dsimp only
    rw [if_pos hquote, quoteAfter, hbody]
    rfl
  | sign s =>
    change splitArgsFrom depth none (s.text ++ rest) = _
    by_cases hbracket : (Token.sign s).isBracket = true
    · rw [splitArgsFrom_bracket hbracket]
      rfl
    · rw [Bool.not_eq_true] at hbracket
      rw [Token.depthAfter_of_not_isBracket hbracket]
      by_cases hs : s = .comma
      · subst hs
        have hdepth : depth ≠ 0 := fun h => hcomma ⟨rfl, h⟩
        change splitArgsFrom depth none (',' :: rest) = _
        rw [splitArgsFrom.eq_def]
        simp [hdepth, Token.text, Sign.text]
      · exact splitArgsFrom_append (isInert_of_mem_text hbracket hs) _ _

/-- A piece of the text of a piece of lexemes: white space may follow it. -/
def IsTextOf (piece : List Lexeme) (text : List Char) : Prop :=
  ∃ blank, text = render piece ++ blank ∧ ∀ c ∈ blank, isSpace c = true

theorem forall₂_prepend {lexeme : Lexeme} {pieces : List (List Lexeme)} {texts : List (List Char)}
    (h : List.Forall₂ IsTextOf pieces texts) (hne : pieces ≠ []) :
    List.Forall₂ IsTextOf (prepend lexeme pieces) (lexeme.text.foldr prepend texts) := by
  cases h with
  | nil => exact absurd rfl hne
  | @cons piece text pieces texts hpiece h =>
    obtain ⟨blank, rfl, hblank⟩ := hpiece
    rw [foldr_prepend, ← List.append_assoc]
    exact .cons ⟨blank, rfl, hblank⟩ h

theorem splitAtCommas_ne_nil (depth : Nat) (lexemes : List Lexeme) :
    splitAtCommas depth lexemes ≠ [] := by
  cases lexemes with
  | nil => exact List.cons_ne_nil _ _
  | cons lexeme rest =>
    rw [splitAtCommas]
    split_ifs
    · exact List.cons_ne_nil _ _
    · cases splitAtCommas (lexeme.token.depthAfter depth) rest <;> exact List.cons_ne_nil _ _

theorem splitArgsFrom_render {lexicon : Lexicon} {lexemes : List Lexeme}
    (h : ∀ lexeme ∈ lexemes, lexeme.Spelled lexicon) {pad : List Char}
    (hpad : ∀ c ∈ pad, isSpace c = true) (depth : Nat) :
    List.Forall₂ IsTextOf (splitAtCommas depth lexemes)
      (splitArgsFrom depth none (render lexemes ++ pad)) := by
  induction lexemes generalizing depth with
  | nil =>
    rw [render_nil, List.nil_append, ← List.append_nil pad,
      splitArgsFrom_append fun c hc => isInert_of_isSpace (hpad c hc), splitArgsFrom,
      foldr_prepend]
    exact .cons ⟨pad, List.append_nil _, hpad⟩ .nil
  | cons lexeme rest ih =>
    rw [List.forall_mem_cons] at h
    have hspace : ∀ c ∈ lexeme.space, IsInert c :=
      fun c hc => isInert_of_isSpace (h.1.space c hc)
    rw [render_cons, Lexeme.text, List.append_assoc, List.append_assoc,
      splitArgsFrom_append hspace]
    by_cases hcomma : lexeme.token = .sign .comma ∧ depth = 0
    · rw [splitAtCommas, if_pos hcomma, hcomma.1, hcomma.2]
      change List.Forall₂ _ _ (lexeme.space.foldr prepend (splitArgsFrom 0 none (',' :: _)))
      rw [splitArgsFrom_comma, foldr_prepend, List.append_nil]
      exact .cons ⟨lexeme.space, rfl, h.1.space⟩ (ih h.2 0)
    · rw [splitAtCommas_cons hcomma, splitArgsFrom_token h.1.token hcomma, ← List.foldr_append]
      exact forall₂_prepend (ih h.2 _) (splitAtCommas_ne_nil _ _)

/-! ## The text of lexemes -/

/-- A lexicon of which no name has a blank, or starts with a digit. -/
structure NameLexicon extends Lexicon where
  visible : ∀ c, isWord c = true → isWhitespace c = false
  not_digit : ∀ c, isStart c = true → c.isDigit = false

/-- The text of lexemes, from the first token on. -/
def textOf : List Lexeme → List Char
  | [] => []
  | lexeme :: rest => lexeme.token.text ++ render rest

section Texts

variable {lexicon : NameLexicon}
variable {lexemes : List Lexeme}

theorem blank_of_isSpace {text : List Char} (h : ∀ c ∈ text, isSpace c = true) : Blank text := by
  intro c hc
  have hspace := h c hc
  simp only [isSpace, Bool.or_eq_true, decide_eq_true_eq] at hspace
  rcases hspace with ((rfl | rfl) | rfl) | rfl <;> decide

theorem isWhitespace_of_isWordLike {c : Char} (h : lexicon.isWordLike c) :
    isWhitespace c = false := by
  rcases h with h | rfl | rfl | rfl
  · exact lexicon.visible c h
  all_goals decide

theorem tight_of_forall {text : List Char} (h : ∀ c ∈ text, isWhitespace c = false) : Tight text :=
  ⟨fun c hc => h c (List.mem_of_mem_head? hc), fun c hc => h c (List.mem_of_mem_getLast? hc)⟩

theorem isWhitespace_of_isQuoteChar {c : Char} (h : isQuoteChar c = true) :
    isWhitespace c = false := by
  have hc : c = '\'' ∨ c = '"' := by simpa [isQuoteChar] using h
  rcases hc with rfl | rfl <;> decide

theorem tight_token {token : Token} (h : token.Spelled lexicon.toLexicon) : Tight token.text := by
  cases token with
  | name text => exact tight_of_forall fun c hc => lexicon.visible c (h.2 c hc)
  | integer text => exact tight_of_forall fun c hc => isWhitespace_of_isWordLike (h.2 c hc)
  | float text => exact tight_of_forall fun c hc => isWhitespace_of_isWordLike (h.2 c hc)
  | string quote body =>
    have hquote := isWhitespace_of_isQuoteChar h.1
    refine ⟨by simpa [Token.text] using hquote, ?_⟩
    rw [Token.text, ← List.cons_append, List.getLast?_concat]
    simpa using hquote
  | sign s =>
    have hall : (s.text.all fun c => !isWhitespace c) = true := by
      cases s <;> decide
    exact tight_of_forall fun c hc => by simpa using List.all_eq_true.1 hall c hc

theorem textOf_ne_nil (h : ∀ lexeme ∈ lexemes, lexeme.Spelled lexicon.toLexicon)
    (hne : lexemes ≠ []) : textOf lexemes ≠ [] := by
  obtain ⟨lexeme, rest, rfl⟩ := List.exists_cons_of_ne_nil hne
  exact List.append_ne_nil_of_left_ne_nil
    (h lexeme List.mem_cons_self).token.text_ne_nil _

theorem tight_textOf (h : ∀ lexeme ∈ lexemes, lexeme.Spelled lexicon.toLexicon) :
    Tight (textOf lexemes) := by
  induction lexemes with
  | nil => exact tight_of_forall (by simp [textOf])
  | cons lexeme rest ih =>
    rw [List.forall_mem_cons] at h
    have hhead := tight_token h.1.token
    have hne := h.1.token.text_ne_nil
    cases rest with
    | nil => rwa [textOf, render_nil, List.append_nil]
    | cons next rest =>
      have htext : textOf (lexeme :: next :: rest) =
          lexeme.token.text ++ (next.space ++ textOf (next :: rest)) := by
        rw [textOf, render_cons, Lexeme.text, List.append_assoc]
        rfl
      have hmore := textOf_ne_nil h.2 (List.cons_ne_nil _ _)
      rw [htext]
      refine ⟨?_, ?_⟩
      · rw [List.head?_append_of_ne_nil _ hne]
        exact hhead.head
      · rw [List.getLast?_append_of_ne_nil _ (List.append_ne_nil_of_right_ne_nil _ hmore),
          List.getLast?_append_of_ne_nil _ hmore]
        exact (ih h.2).last

theorem render_eq (lexeme : Lexeme) (rest : List Lexeme) :
    render (lexeme :: rest) = lexeme.space ++ textOf (lexeme :: rest) := by
  rw [render_cons, Lexeme.text, List.append_assoc]
  rfl

theorem trim_render (h : ∀ lexeme ∈ lexemes, lexeme.Spelled lexicon.toLexicon) {blank : List Char}
    (hblank : ∀ c ∈ blank, isSpace c = true) : trim (render lexemes ++ blank) = textOf lexemes := by
  have htight := Core.trim_eq_self_iff.2 (tight_textOf h)
  rw [Core.trim_append_blank (blank_of_isSpace hblank)]
  cases lexemes with
  | nil => rfl
  | cons lexeme rest =>
    have hspace := blank_of_isSpace (h lexeme List.mem_cons_self).space
    rw [render_eq, Core.trim_append hspace, htight]

end Texts

/-! ## Keys -/

theorem append_eq_append_cons {x y front after : List Char} (hx : c ∉ x)
    (h : x ++ y = front ++ c :: after) : ∃ more, front = x ++ more ∧ y = more ++ c :: after := by
  induction x generalizing front with
  | nil => exact ⟨front, rfl, h⟩
  | cons d x ih =>
    rw [List.mem_cons, not_or] at hx
    cases front with
    | nil => exact absurd (List.cons.inj h).1.symm hx.1
    | cons e front =>
      obtain ⟨rfl, hmore⟩ := List.cons.inj h
      obtain ⟨more, rfl, hy⟩ := ih hx.2 hmore
      exact ⟨more, rfl, hy⟩

/-- In front of the first `=` there is more than a bare word, or another `=` follows it. -/
def KeyFree (text : List Char) : Prop :=
  ∀ front after, text = front ++ '=' :: after → '=' ∉ front →
    (∃ c ∈ front, isKeyChar c = false ∧ isWhitespace c = false) ∨ after.head? = some '='

theorem mem_trim (h : c ∈ text) (hc : isWhitespace c = false) : c ∈ trim text := by
  have hdrop : ∀ {text : List Char}, c ∈ text → c ∈ text.dropWhile isWhitespace := by
    intro text h
    rw [← List.takeWhile_append_dropWhile (p := isWhitespace) (l := text)] at h
    rcases List.mem_append.1 h with h | h
    · rw [List.mem_takeWhile_imp h] at hc
      cases hc
    · exact h
  exact List.mem_reverse.2 (hdrop (List.mem_reverse.2 (hdrop h)))

theorem argumentKey_eq_none (h : KeyFree text) : argumentKey text = none := by
  rw [argumentKey]
  cases hrest : text.dropWhile (· != '=') with
  | nil => rfl
  | cons c after =>
    have hc : c = '=' := by
      have hhead := List.head_dropWhile_not (l := text) (· != '=') (by simp [hrest])
      simpa [hrest] using hhead
    subst hc
    have htext : text = text.takeWhile (· != '=') ++ '=' :: after := by
      rw [← hrest, List.takeWhile_append_dropWhile]
    dsimp only
    refine if_neg ?_
    have hnotMem : '=' ∉ text.takeWhile (· != '=') := by
      intro hmem
      simpa using List.mem_takeWhile_imp hmem
    rcases h _ _ htext hnotMem with ⟨c, hmem, hkey, hblank⟩ | hafter
    · have hall : (trim (text.takeWhile (· != '='))).all isKeyChar = false :=
        List.all_eq_false.2 ⟨c, mem_trim hmem hblank, by simp [hkey]⟩
      simp [hall]
    · simp [hafter]

section Keys

variable {lexicon : NameLexicon}

theorem equals_notMem_of_isSpace {text : List Char} (h : ∀ c ∈ text, isSpace c = true) :
    '=' ∉ text := by
  intro hmem
  exact absurd (h _ hmem) (by decide)

theorem ne_equals_of_isWordLike {c : Char} (h : lexicon.isWordLike c) : c ≠ '=' := by
  rintro rfl
  rcases h with h | h | h | h
  · exact absurd (lexicon.ordinary_of_word _ h) (by decide)
  all_goals exact absurd h (by decide)

theorem keyFree_cons {c : Char} (hc : c ≠ '=') (hkey : isKeyChar c = false)
    (hblank : isWhitespace c = false) (text : List Char) : KeyFree (c :: text) := by
  intro front after heq _
  cases front with
  | nil => exact absurd (List.cons.inj heq).1 hc
  | cons d front =>
    obtain ⟨rfl, -⟩ := List.cons.inj heq
    exact .inl ⟨c, List.mem_cons_self, hkey, hblank⟩

/-- A token that is no assignment, behind which a text is not a bare word. -/
theorem keyFree_token {token : Token} (h : token.Spelled lexicon.toLexicon)
    (hassign : token ≠ .sign .assign) {rest : List Char} (hrest : KeyFree rest) :
    KeyFree (token.text ++ rest) := by
  have hword : ∀ {text : List Char}, (∀ c ∈ text, lexicon.isWordLike c) →
      KeyFree (text ++ rest) := by
    intro text htext front after heq hfront
    have hnotMem : '=' ∉ text := fun hmem => ne_equals_of_isWordLike (htext _ hmem) rfl
    obtain ⟨more, rfl, hmore⟩ := append_eq_append_cons hnotMem heq
    rw [List.mem_append, not_or] at hfront
    rcases hrest _ _ hmore hfront.2 with ⟨c, hc, hkey⟩ | hafter
    · exact .inl ⟨c, List.mem_append_right _ hc, hkey⟩
    · exact .inr hafter
  cases token with
  | name text => exact hword fun c hc => .inl (h.2 c hc)
  | integer text => exact hword h.2
  | float text => exact hword h.2
  | string quote body =>
    have hquote : quote = '\'' ∨ quote = '"' := by simpa [isQuoteChar] using h.1
    rcases hquote with rfl | rfl <;> exact keyFree_cons (by decide) (by decide) (by decide) _
  | sign s =>
    cases s
    case assign => exact absurd rfl hassign
    case eq =>
      intro front after heq hfront
      cases front with
      | nil =>
        obtain ⟨-, rfl⟩ := List.cons.inj heq
        exact .inr rfl
      | cons c front =>
        obtain ⟨rfl, -⟩ := List.cons.inj heq
        exact absurd List.mem_cons_self hfront
    all_goals exact keyFree_cons (by decide) (by decide) (by decide) _

theorem keyFree_space {space rest : List Char} (h : ∀ c ∈ space, isSpace c = true)
    (hrest : KeyFree rest) : KeyFree (space ++ rest) := by
  intro front after heq hfront
  obtain ⟨more, rfl, hmore⟩ := append_eq_append_cons (equals_notMem_of_isSpace h) heq
  rw [List.mem_append, not_or] at hfront
  rcases hrest _ _ hmore hfront.2 with ⟨c, hc, hkey⟩ | hafter
  · exact .inl ⟨c, List.mem_append_right _ hc, hkey⟩
  · exact .inr hafter

/-- An expression has no key: an assignment in it is behind a bracket. -/
theorem keyFree_render {lexemes : List Lexeme}
    (h : ∀ lexeme ∈ lexemes, lexeme.Spelled lexicon.toLexicon)
    (hbalanced : Balanced false (tokens lexemes)) : KeyFree (render lexemes) := by
  induction lexemes with
  | nil =>
    intro front after heq
    cases front <;> cases heq
  | cons lexeme rest ih =>
    rw [List.forall_mem_cons] at h
    rw [render_cons, Lexeme.text, List.append_assoc]
    refine keyFree_space h.1.space ?_
    rw [tokens_cons] at hbalanced
    rcases hbalanced.plain_or_opening with ⟨hplain, hrest⟩ | ⟨opening, htoken, hopening⟩
    · refine keyFree_token h.1.token ?_ (ih h.2 hrest)
      intro hassign
      rw [hassign] at hplain
      cases hplain
    · rw [htoken]
      cases opening with
      | lparen | lbracket | lbrace =>
        exact keyFree_cons (by decide) (by decide) (by decide) _
      | _ => cases hopening

end Keys

/-! ## Arguments -/

/-- The key of an argument that is positional or has a keyword. -/
def keyOf : ArgumentKind → Option (Option (List Char))
  | .positional => some none
  | .keyword name => some (some name)
  | .star | .doubleStar => none

/-- No starred argument, and no keyword that the key of a loose call cannot be. -/
def IsRegular (piece : List Lexeme) : Prop :=
  match kindOf (tokens piece) with
  | .positional => True
  | .keyword name => name.all isKeyChar = true
  | .star | .doubleStar => False

section Arguments

variable {lexicon : NameLexicon} {piece : List Lexeme} {blank : List Char}
variable {expression : List Lexeme}

theorem keyword_piece {name : List Char} (h : kindOf (tokens piece) = .keyword name) :
    ∃ space between,
      piece = ⟨space, .name name⟩ :: ⟨between, .sign .assign⟩ :: expressionOf piece := by
  have hpiece : ∃ space between rest,
      piece = ⟨space, .name name⟩ :: ⟨between, .sign .assign⟩ :: rest := by
    unfold kindOf at h
    split at h
    · cases h
    · cases h
    · next hmap =>
        cases h
        obtain ⟨⟨space, first⟩, more, rfl, rfl, hmore⟩ := List.map_eq_cons_iff.1 hmap
        obtain ⟨⟨between, second⟩, rest, rfl, rfl, -⟩ := List.map_eq_cons_iff.1 hmore
        exact ⟨space, between, rest, rfl⟩
    · cases h
  obtain ⟨space, between, rest, rfl⟩ := hpiece
  exact ⟨space, between, rfl⟩

theorem keyFree_of_space {space text : List Char} (h : ∀ c ∈ space, isSpace c = true)
    (hfree : KeyFree (space ++ text)) : KeyFree text := by
  intro front after heq hfront
  have hnotMem : '=' ∉ space ++ front := by
    rw [List.mem_append, not_or]
    exact ⟨equals_notMem_of_isSpace h, hfront⟩
  rcases hfree (space ++ front) after (by rw [heq, List.append_assoc]) hnotMem with
    ⟨c, hc, hkey, hblank⟩ | hafter
  · rcases List.mem_append.1 hc with hc | hc
    · rw [blank_of_isSpace h c hc] at hblank
      cases hblank
    · exact .inl ⟨c, hc, hkey, hblank⟩
  · exact .inr hafter

theorem looseArgument_positional (h : ∀ lexeme ∈ piece, lexeme.Spelled lexicon.toLexicon)
    (hblank : ∀ c ∈ blank, isSpace c = true) (hoperand : Operand (tokens piece)) :
    looseArgument (render piece ++ blank) = some (none, textOf piece) := by
  have hfree := keyFree_render h hoperand.balanced
  cases piece with
  | nil =>
    obtain ⟨token, rest, heq, -⟩ := hoperand.starts
    cases heq
  | cons lexeme rest =>
    rw [render_eq] at hfree
    have hkey := argumentKey_eq_none (keyFree_of_space (h lexeme List.mem_cons_self).space hfree)
    rw [looseArgument, trim_render h hblank, if_neg (textOf_ne_nil h (List.cons_ne_nil _ _)),
      hkey]

theorem head?_render_ne (h : ∀ lexeme ∈ expression, lexeme.Spelled lexicon.toLexicon)
    (hoperand : Operand (tokens expression)) : (render expression).head? ≠ some '=' := by
  obtain ⟨token, rest, htokens, hstart⟩ := hoperand.starts
  obtain ⟨⟨space, token⟩, rest, rfl, rfl, -⟩ := List.map_eq_cons_iff.1 htokens
  have hspelled := h _ List.mem_cons_self
  rw [render_cons, Lexeme.text, List.append_assoc]
  cases space with
  | cons c space =>
    intro hhead
    rw [List.cons_append, List.head?_cons, Option.some.injEq] at hhead
    exact equals_notMem_of_isSpace hspelled.space (hhead ▸ List.mem_cons_self)
  | nil =>
    rw [List.nil_append, List.head?_append_of_ne_nil _ hspelled.token.text_ne_nil]
    intro hhead
    have hmem := List.mem_of_mem_head? hhead
    have htoken := hspelled.token
    cases token with
    | name text => exact ne_equals_of_isWordLike (.inl (htoken.2 _ hmem)) rfl
    | integer text => exact ne_equals_of_isWordLike (htoken.2 _ hmem) rfl
    | float text => exact ne_equals_of_isWordLike (htoken.2 _ hmem) rfl
    | string quote body =>
      obtain rfl := Option.some.inj hhead
      exact absurd htoken.1 (by decide)
    | sign s =>
      revert hstart hhead
      cases s <;> decide

/-- A keyword argument is read as its key and its expression. -/
theorem looseArgument_keyword {space between name : List Char}
    (hpiece : piece = ⟨space, .name name⟩ :: ⟨between, .sign .assign⟩ :: expression)
    (h : ∀ lexeme ∈ piece, lexeme.Spelled lexicon.toLexicon)
    (hblank : ∀ c ∈ blank, isSpace c = true) (hoperand : Operand (tokens expression))
    (hname : name.all isKeyChar = true) :
    looseArgument (render piece ++ blank) = some (some name, textOf expression) := by
  subst hpiece
  have htrim := trim_render h hblank
  have hne := textOf_ne_nil h (List.cons_ne_nil _ _)
  simp only [List.forall_mem_cons] at h
  obtain ⟨hfirst, hsecond, hexpression⟩ := h
  have hbetween := blank_of_isSpace hsecond.space
  have htight : trim name = name := Core.trim_eq_self_iff.2 (tight_token hfirst.token)
  have htext : textOf (⟨space, .name name⟩ :: ⟨between, .sign .assign⟩ :: expression) =
      name ++ (between ++ '=' :: render expression) := by
    rw [textOf, render_cons, Lexeme.text, List.append_assoc]
    rfl
  have hequals : ∀ c ∈ name ++ between, (c != '=') = true := by
    intro c hc
    rcases List.mem_append.1 hc with hc | hc
    · have hword : lexicon.isWordLike c := .inl (hfirst.token.2 c hc)
      exact bne_iff_ne.2 (ne_equals_of_isWordLike hword)
    · rw [bne_iff_ne]
      rintro rfl
      exact equals_notMem_of_isSpace hsecond.space hc
  have hhead := head?_render_ne hexpression hoperand
  have hkey : argumentKey (name ++ (between ++ '=' :: render expression)) = some name := by
    rw [argumentKey, ← List.append_assoc, List.dropWhile_append_of_pos hequals,
      List.takeWhile_append_of_pos hequals, List.dropWhile_cons_of_neg (by simp),
      List.takeWhile_cons_of_neg (by simp), List.append_nil,
      Core.trim_append_blank hbetween, htight]
    refine if_pos ?_
    have hne : name ≠ [] := hfirst.token.text_ne_nil
    simp [hname, hhead, hne]
  have hdrop : (render expression).dropWhile (· = '=') = render expression := by
    cases hrender : render expression with
    | nil => rfl
    | cons c rest =>
      rw [hrender, List.head?_cons, ne_eq, Option.some.injEq] at hhead
      exact List.dropWhile_cons_of_neg (by simpa using hhead)
  have hrest : trim (render expression ++ []) = textOf expression :=
    trim_render hexpression (by simp)
  rw [List.append_nil] at hrest
  rw [looseArgument, htrim, if_neg hne, htext, hkey]
  dsimp only
  rw [List.drop_left, Core.trimStart_append hbetween, Core.trimStart_cons (by decide),
    List.dropWhile_cons_of_pos (by simp), hdrop, hrest]

theorem looseArgument_render (h : ∀ lexeme ∈ piece, lexeme.Spelled lexicon.toLexicon)
    (hblank : ∀ c ∈ blank, isSpace c = true) (hoperand : Operand (tokens (expressionOf piece)))
    (hregular : IsRegular piece) : ∃ key, keyOf (kindOf (tokens piece)) = some key ∧
      looseArgument (render piece ++ blank) = some (key, textOf (expressionOf piece)) := by
  rw [IsRegular] at hregular
  cases hkind : kindOf (tokens piece) with
  | positional =>
    have hexpression : expressionOf piece = piece := by
      rw [expressionOf, hkind]
      rfl
    rw [hexpression] at hoperand ⊢
    exact ⟨none, rfl, looseArgument_positional h hblank hoperand⟩
  | keyword name =>
    rw [hkind] at hregular
    obtain ⟨space, between, hpiece⟩ := keyword_piece hkind
    exact ⟨some name, rfl, looseArgument_keyword hpiece h hblank hoperand hregular⟩
  | star =>
    rw [hkind] at hregular
    exact hregular.elim
  | doubleStar =>
    rw [hkind] at hregular
    exact hregular.elim

end Arguments

end PhloTransform.Dbt
