import PhloTransform.Dbt.CallShapes

/-!
# Calls with raw arguments

The loose form returns the texts of the arguments.  It is right about a text that looks like a
call exactly if the text is an expression of which the last character closes the first
parenthesis, no argument is starred, and the keywords are ASCII.

Main results:

- Theorem `callShape_enclosed`: the name and the arguments of a call are found.
- Theorem `looseSound_iff`: the texts about which the loose form is right.
-/

namespace PhloTransform.Dbt

open Core (trim trimStart Blank Tight)
open Library.Jinja

/-! ## Calls by the grammar -/

def callName (call : NamedCall) : List Char :=
  call.first ++ call.others.flatMap fun text => '.' :: text

/-- By the grammar the whole text is one call. -/
def IsCallText (lexicon : NameLexicon) (text : List Char) (call : NamedCall) : Prop :=
  ∃ lexemes tail e, lexicon.lex text = some (lexemes, tail) ∧ IsCall lexemes call e

/-- What the loose form returns is the call that the text is: its name, and every argument with
its key and the text of its expression. -/
def LooseSound (lexicon : NameLexicon) (text : List Char) : Prop :=
  ∀ c, parseCallLoose text = some c → ∃ call, IsCallText lexicon text call ∧
    c.name = callName call ∧
    call.arguments.map (fun argument => (keyOf argument.kind, textOf argument.expression)) =
      c.args.map fun arg => (some arg.1, arg.2)

def IsShaped (text : List Char) : Prop :=
  (callShape text).isSome = true

/-- An expression that starts with a dotted name, of which the last token closes the parenthesis
behind the name. -/
structure IsEnclosed (lexicon : NameLexicon) (text : List Char) (e : Enclosed) : Prop where
  lexed : ∃ tail, lexicon.lex text = some (e.lexemes, tail)
  expression : Reads .condition (tokens e.lexemes) []
  named : ∃ first others, tokens e.path = pathTokens first others ∧ first ∉ reserved
  closed : Balanced true (tokens e.inner)

section Shapes

variable {lexicon : NameLexicon} {text : List Char}
variable {others : List (List Char)}

theorem isEnclosed_of_isCallText {call : NamedCall} (h : IsCallText lexicon text call) :
    ∃ e, IsEnclosed lexicon text e ∧ Arguments .nothing e.inner call.arguments := by
  obtain ⟨lexemes, tail, e, hlex, hcall⟩ := h
  obtain ⟨hexpression, hclosed⟩ := hcall.reads_condition
  rw [hcall.lexemes_eq] at hlex
  exact ⟨e, ⟨⟨tail, hlex⟩, hexpression, ⟨_, _, hcall.path_eq, hcall.named⟩, hclosed⟩,
    hcall.arguments⟩

/-! ## The name and the arguments -/

theorem render_dots {rest : List Lexeme} (h : ∀ lexeme ∈ rest, lexeme.Spelled lexicon.toLexicon)
    (htokens : tokens rest = others.flatMap fun text => [.sign .dot, .name text])
    (hname : ∀ c ∈ render rest, isNameChar c = true) :
    render rest = others.flatMap fun text => '.' :: text := by
  have hnil : ∀ {space : List Char}, (∀ c ∈ space, isSpace c = true) →
      (∀ c ∈ space, isNameChar c = true) → space = [] := by
    intro space hspace hchars
    refine List.eq_nil_iff_forall_not_mem.2 fun c hc => ?_
    have hblank := hspace c hc
    simp only [isSpace, Bool.or_eq_true, decide_eq_true_eq] at hblank
    have hchar := hchars c hc
    rcases hblank with ((rfl | rfl) | rfl) | rfl <;> exact absurd hchar (by decide)
  induction others generalizing rest with
  | nil =>
    rw [List.flatMap_nil, tokens, List.map_eq_nil_iff] at htokens
    rw [htokens]
    rfl
  | cons text others ih =>
    rw [List.flatMap_cons] at htokens
    obtain ⟨⟨space, dot⟩, more, rfl, rfl, hmore⟩ := List.map_eq_cons_iff.1 htokens
    obtain ⟨⟨between, name⟩, rest, rfl, rfl, hrest⟩ := List.map_eq_cons_iff.1 hmore
    simp only [List.forall_mem_cons] at h
    obtain ⟨hfirst, hsecond, h⟩ := h
    simp only [render_cons, Lexeme.text, List.forall_mem_append] at hname
    obtain ⟨⟨hspace, -⟩, ⟨hbetween, -⟩, hname⟩ := hname
    have hempty := hnil hfirst.space hspace
    have hempty' := hnil hsecond.space hbetween
    dsimp only at hempty hempty'
    subst hempty hempty'
    rw [render_cons, render_cons, ih h hrest hname]
    rfl

/-- The characters of a dotted name and the white space in it. -/
theorem isInert_of_mem_path {path : List Lexeme} {first : List Char}
    (h : ∀ lexeme ∈ path, lexeme.Spelled lexicon.toLexicon)
    (hpath : tokens path = pathTokens first others) : ∀ c ∈ render path, IsInert c := by
  intro c hc
  obtain ⟨lexeme, hlexeme, hc⟩ := List.mem_flatMap.1 hc
  have hmem : lexeme.token ∈ pathTokens first others := hpath ▸ List.mem_map_of_mem hlexeme
  have hspelled := h lexeme hlexeme
  rcases List.mem_append.1 hc with hc | hc
  · exact isInert_of_isSpace (hspelled.space c hc)
  · have htoken := hspelled.token
    generalize lexeme.token = token at hmem htoken hc
    rw [pathTokens, List.mem_cons, List.mem_flatMap] at hmem
    rcases hmem with rfl | ⟨text, -, hmem⟩
    · exact isInert_of_isWordLike (.inl (htoken.2 c hc))
    · rcases List.mem_pair.1 hmem with rfl | rfl
      · obtain rfl := List.mem_singleton.1 hc
        exact ⟨by decide, by decide, by decide, by decide⟩
      · exact isInert_of_isWordLike (.inl (htoken.2 c hc))

theorem callShape_eq {name rest : List Char} (h : trim text = name ++ '(' :: (rest ++ [')']))
    (hname : ∀ c ∈ name, IsInert c) : callShape text =
      if (trim name).isEmpty || !(trim name).all isNameChar then none
      else some (trim name, rest) := by
  have hpos : ∀ c ∈ name, (c != '(') = true := fun c hc => bne_iff_ne.2 (hname c hc).opening.1
  rw [callShape, h, List.takeWhile_append_of_pos hpos, List.dropWhile_append_of_pos hpos,
    List.takeWhile_cons_of_neg (by simp), List.dropWhile_cons_of_neg (by simp), List.append_nil]
  simp

theorem callShape_enclosed {e : Enclosed} {tail first : List Char}
    (hlexed : Lexed lexicon.toLexicon text e.lexemes tail)
    (hpath : tokens e.path = pathTokens first others) {shape : List Char × List Char}
    (h : callShape text = some shape) (arguments : List Argument) :
    shape = (callName ⟨first, others, arguments⟩, render e.inner ++ e.pad) := by
  obtain ⟨⟨space, token⟩, rest, hrest, rfl, htokens⟩ := List.map_eq_cons_iff.1 hpath
  have hspelled : ∀ lexeme ∈ e.path, lexeme.Spelled lexicon.toLexicon :=
    fun lexeme hlexeme => hlexed.spelled lexeme (List.mem_append_left _ hlexeme)
  have hgap : ∀ c ∈ e.gap, isSpace c = true := (hlexed.spelled ⟨e.gap, .sign .lparen⟩
    (List.mem_append_right _ List.mem_cons_self)).space
  have htext : trim text =
      (textOf e.path ++ e.gap) ++ '(' :: ((render e.inner ++ e.pad) ++ [')']) := by
    rw [hlexed.text_eq, trim_render hlexed.spelled hlexed.tail, Enclosed.lexemes, hrest]
    simp [textOf, Lexeme.text, Token.text, Sign.text]
  have hinert : ∀ c ∈ textOf e.path ++ e.gap, IsInert c := by
    intro c hc
    rcases List.mem_append.1 hc with hc | hc
    · refine isInert_of_mem_path hspelled hpath c ?_
      rw [hrest, render_eq, ← hrest]
      exact List.mem_append_right _ hc
    · exact isInert_of_isSpace (hgap c hc)
  have hname : trim (textOf e.path ++ e.gap) = textOf e.path := by
    rw [Core.trim_append_blank (blank_of_isSpace hgap),
      Core.trim_eq_self_iff.2 (tight_textOf hspelled)]
  rw [callShape_eq htext hinert, hname] at h
  split_ifs at h with hchars
  cases h
  rw [Bool.or_eq_true, not_or, Bool.not_eq_true, Bool.not_eq_true', Bool.not_eq_false,
    List.all_eq_true, hrest] at hchars
  rw [hrest] at hspelled ⊢
  have hdots := render_dots (fun lexeme hlexeme => hspelled lexeme (List.mem_cons_of_mem _ hlexeme))
    htokens fun c hc => hchars.2 c (List.mem_append_right _ hc)
  rw [textOf, hdots]
  rfl

end Shapes

/-! ## The arguments -/

section Arguments

variable {lexicon : NameLexicon} {text : List Char}

theorem looseArgument_blank (h : Blank text) : looseArgument text = none := by
  rw [looseArgument, Core.trim_blank h, if_pos rfl]

theorem all_isKeyChar_of_looseArgument {key value : List Char}
    (h : looseArgument text = some (some key, value)) : key.all isKeyChar = true := by
  rw [looseArgument] at h
  split_ifs at h
  split at h
  · next hkey =>
      cases h
      rw [argumentKey] at hkey
      split at hkey
      · cases hkey
      · dsimp only at hkey
        split_ifs at hkey with hchars
        cases hkey
        rw [Bool.and_eq_true, Bool.and_eq_true] at hchars
        exact hchars.1.1
  · cases h

theorem map_looseArgument {pieces : List (List Lexeme)} {texts : List (List Char)}
    (htexts : List.Forall₂ IsTextOf pieces texts)
    (hspelled : ∀ piece ∈ pieces, ∀ lexeme ∈ piece, lexeme.Spelled lexicon.toLexicon)
    (hoperand : ∀ piece ∈ pieces, piece ≠ [] → Operand (tokens (expressionOf piece)))
    (hregular : ∀ piece ∈ pieces, IsRegular piece) :
    ((pieces.filter (· ≠ [])).map Argument.ofPiece).map
        (fun argument => (keyOf argument.kind, textOf argument.expression)) =
      (texts.filterMap looseArgument).map fun arg => (some arg.1, arg.2) := by
  induction htexts with
  | nil => rfl
  | @cons piece text pieces texts htext _ ih =>
    rw [List.forall_mem_cons] at hspelled hoperand hregular
    have hmore := ih hspelled.2 hoperand.2 hregular.2
    obtain ⟨blank, rfl, hblank⟩ := htext
    by_cases hne : piece = []
    · subst hne
      have hnone := looseArgument_blank (blank_of_isSpace hblank)
      rw [List.filter_cons_of_neg (by simp), hmore, render_nil, List.nil_append,
        List.filterMap_cons_none hnone]
    · obtain ⟨key, hkey, hread⟩ :=
        looseArgument_render hspelled.1 hblank (hoperand.1 hne) hregular.1
      rw [List.filter_cons_of_pos (by simpa using hne), List.map_cons, List.map_cons, hmore,
        List.filterMap_cons_some hread, List.map_cons, Argument.ofPiece, hkey]

theorem looseSound_iff (lexicon : NameLexicon) (text : List Char) :
    LooseSound lexicon text ↔ (IsShaped text → ∃ e, IsEnclosed lexicon text e ∧
      ∀ piece ∈ splitAtCommas 0 e.inner, IsRegular piece) := by
  constructor
  · intro hsound hshaped
    obtain ⟨shape, hshape⟩ := Option.isSome_iff_exists.1 hshaped
    have hparse : parseCallLoose text = some _ := congrArg (Option.map _) hshape
    obtain ⟨call, hcall, -, harguments⟩ := hsound _ hparse
    obtain ⟨e, he, hinner⟩ := isEnclosed_of_isCallText hcall
    refine ⟨e, he, fun piece hpiece => ?_⟩
    by_cases hne : piece = []
    · subst hne
      exact trivial
    · have hmem : piece ∈ (splitAtCommas 0 e.inner).filter (· ≠ []) :=
        List.mem_filter.2 ⟨hpiece, by simpa using hne⟩
      have hargument := List.mem_map_of_mem (f := Argument.ofPiece) hmem
      rw [hinner.map_ofPiece] at hargument
      have hread := List.mem_map_of_mem
        (f := fun argument : Argument => (keyOf argument.kind, textOf argument.expression))
        hargument
      rw [harguments] at hread
      obtain ⟨⟨key, value⟩, harg, heq⟩ := List.mem_map.1 hread
      obtain ⟨part, -, hpart⟩ := List.mem_filterMap.1 harg
      have hkey := (Prod.mk.inj heq).1
      rw [IsRegular]
      change some key = keyOf (kindOf (tokens piece)) at hkey
      generalize kindOf (tokens piece) = kind at hkey
      cases kind with
      | positional => exact trivial
      | keyword name =>
        cases hkey
        exact all_isKeyChar_of_looseArgument hpart
      | star => cases hkey
      | doubleStar => cases hkey
  · intro hcondition c hparse
    obtain ⟨shape, hshape, rfl⟩ := Option.map_eq_some_iff.1 hparse
    obtain ⟨e, he, hregular⟩ := hcondition (Option.isSome_iff_exists.2 ⟨shape, hshape⟩)
    obtain ⟨tail, hlex⟩ := he.lexed
    obtain ⟨first, others, hpath, hfirst⟩ := he.named
    obtain ⟨arguments, hcall⟩ :=
      Enclosed.exists_arguments he.expression hpath hfirst he.closed
    have hlexed := lexicon.lexed_of_lex hlex
    have hparts := callShape_enclosed hlexed hpath hshape arguments
    subst hparts
    refine ⟨⟨first, others, arguments⟩, ⟨_, tail, e, hlex, hcall⟩, rfl, ?_⟩
    have hspelled : ∀ lexeme ∈ e.inner, lexeme.Spelled lexicon.toLexicon := fun lexeme hlexeme =>
      hlexed.spelled lexeme (by simp [Enclosed.lexemes, hlexeme])
    have hpad : ∀ c ∈ e.pad, isSpace c = true :=
      (hlexed.spelled ⟨e.pad, .sign .rparen⟩ (by simp [Enclosed.lexemes])).space
    have hmap := map_looseArgument (splitArgsFrom_render hspelled hpad 0)
      (fun piece hpiece lexeme hlexeme =>
        hspelled lexeme (subset_of_mem_splitAtCommas hpiece hlexeme))
      (fun piece hpiece hne => hcall.arguments.operand_expressionOf hpiece hne) hregular
    rwa [hcall.arguments.map_ofPiece] at hmap

end Arguments

end PhloTransform.Dbt
