import PhloTransform.Dbt.PyLitStrings

/-!
# String literals in their surroundings

A value is a string literal, a scalar, or a list, tuple or dictionary of values; the arguments of
a call are values with and without names.  The parser reads back all of it exactly if it reads
back the string literals in it.

Main results:

- Theorem `Value.parseValue_iff`: values of any nesting.
- Theorem `readBack_iff`: values and argument lists.
-/

namespace PhloTransform.Dbt.PyLit

open Library (IsAscii except_bind_eq_ok except_map_eq_ok)

/-! ## Values -/

/-- White space. -/
structure Ws where
  text : List Char
  blank : ∀ c ∈ text, c = ' ' ∨ c = '\t' ∨ c = '\n' ∨ c = '\r'

/-- What may follow a scalar: white space, a comma, a colon, a closing bracket or nothing. -/
def Delimited (rest : Bytes) : Prop :=
  ∀ b ∈ rest.head?, isWs b = true ∨ b = ','.toUInt8 ∨ b = ':'.toUInt8 ∨ b = ')'.toUInt8 ∨
    b = ']'.toUInt8 ∨ b = '}'.toUInt8

/-- A number, a word, a call or a block of Jinja: what the parser reads as it stands. -/
structure Scalar where
  text : List Char
  value : Lit
  starts : ∃ b tail, bytes text = b :: tail ∧
    (isNumberStart b = true ∨ isIdentStart b = true ∨ b = '{'.toUInt8)
  reads : ∀ fuel rest, Delimited rest →
    Parser.parseValue (fuel + 1) (bytes text ++ rest) = .ok (value, rest)

/-- A key of a dictionary: a string literal, or a scalar that is read as an identifier. -/
inductive Key where
  | string (lit : Literal)
  | name (scalar : Scalar) (ident : String) (h : scalar.value = .ident ident)

namespace Key

def text : Key → List Char
  | string lit => lit.text
  | name scalar _ _ => scalar.text

def value : Key → String
  | string lit => lit.value
  | name _ ident _ => ident

def literals : Key → List Literal
  | string lit => [lit]
  | name _ _ _ => []

end Key

mutual

/-- A value with its layout. -/
inductive Value where
  | string (lit : Literal)
  | scalar (scalar : Scalar)
  | sequence (kind : Parser.Sequence) (items : Items)
  | dict (entries : Entries)

/-- The items of a list or tuple, with the white space around them. -/
inductive Items where
  | close (pad : Ws)
  | last (before : Ws) (item : Value) (after : Ws)
  | more (before : Ws) (item : Value) (after : Ws) (rest : Items)

/-- The entries of a dictionary, with the white space around their parts. -/
inductive Entries where
  | close (pad : Ws)
  | last (before : Ws) (key : Key) (between : Ws) (gap : Ws) (item : Value) (after : Ws)
  | more (before : Ws) (key : Key) (between : Ws) (gap : Ws) (item : Value) (after : Ws)
      (rest : Entries)

end

def Parser.Sequence.openChar : Parser.Sequence → Char
  | .list => '['
  | .tuple => '('

def Parser.Sequence.closeChar : Parser.Sequence → Char
  | .list => ']'
  | .tuple => ')'

mutual

def Value.text : Value → List Char
  | .string lit => lit.text
  | .scalar scalar => scalar.text
  | .sequence kind items => kind.openChar :: items.text kind
  | .dict entries => '{' :: entries.text

def Items.text (kind : Parser.Sequence) : Items → List Char
  | .close pad => pad.text ++ [kind.closeChar]
  | .last before item after => before.text ++ item.text ++ after.text ++ [kind.closeChar]
  | .more before item after rest =>
    before.text ++ item.text ++ after.text ++ ',' :: rest.text kind

def Entries.text : Entries → List Char
  | .close pad => pad.text ++ ['}']
  | .last before key between gap item after =>
    before.text ++ key.text ++ between.text ++ ':' :: (gap.text ++ item.text ++ after.text ++ ['}'])
  | .more before key between gap item after rest =>
    before.text ++ key.text ++ between.text ++
      ':' :: (gap.text ++ item.text ++ after.text ++ ',' :: rest.text)

end

mutual

/-- The literal that the value stands for. -/
def Value.value : Value → Lit
  | .string lit => .str lit.value
  | .scalar scalar => scalar.value
  | .sequence _ items => .list items.values
  | .dict entries => .dict entries.values

def Items.values : Items → List Lit
  | .close _ => []
  | .last _ item _ => [item.value]
  | .more _ item _ rest => item.value :: rest.values

def Entries.values : Entries → List (String × Lit)
  | .close _ => []
  | .last _ key _ _ item _ => [(key.value, item.value)]
  | .more _ key _ _ item _ rest => (key.value, item.value) :: rest.values

end

mutual

def Value.literals : Value → List Literal
  | .string lit => [lit]
  | .scalar _ => []
  | .sequence _ items => items.literals
  | .dict entries => entries.literals

def Items.literals : Items → List Literal
  | .close _ => []
  | .last _ item _ => item.literals
  | .more _ item _ rest => item.literals ++ rest.literals

def Entries.literals : Entries → List Literal
  | .close _ => []
  | .last _ key _ _ item _ => key.literals ++ item.literals
  | .more _ key _ _ item _ rest => key.literals ++ item.literals ++ rest.literals

end

mutual

/-- A bound on the recursion that reads the value. -/
def Value.size : Value → Nat
  | .string _ => 1
  | .scalar _ => 1
  | .sequence _ items => items.size + 1
  | .dict entries => entries.size + 1

def Items.size : Items → Nat
  | .close _ => 1
  | .last _ item _ => item.size + 1
  | .more _ item _ rest => item.size + rest.size + 1

def Entries.size : Entries → Nat
  | .close _ => 1
  | .last _ _ _ _ item _ => item.size + 2
  | .more _ _ _ _ item _ rest => item.size + rest.size + 2

end

def Value.Ends (rest : Bytes) : Value → Prop
  | .string lit => lit.Ends rest
  | .scalar _ => Delimited rest
  | .sequence _ _ | .dict _ => True

/-! ## Bytes between values -/

theorem isWs_toUInt8 {c : Char} (h : c = ' ' ∨ c = '\t' ∨ c = '\n' ∨ c = '\r') :
    IsAscii c ∧ isWs c.toUInt8 = true := by
  rcases h with rfl | rfl | rfl | rfl <;> exact ⟨by decide, by decide⟩

theorem Ws.isWs_of_mem (ws : Ws) : ∀ b ∈ bytes ws.text, isWs b = true := by
  intro b hb
  obtain ⟨c, hc, hb⟩ := List.mem_flatMap.1 hb
  obtain ⟨hascii, hws⟩ := isWs_toUInt8 (ws.blank c hc)
  rw [Library.utf8EncodeChar_eq_singleton hascii, List.mem_singleton] at hb
  rwa [hb]

@[simp] theorem skipWs_ws (ws : Ws) (rest : Bytes) :
    Parser.skipWs (bytes ws.text ++ rest) = Parser.skipWs rest := by
  rw [Parser.skipWs, List.dropWhile_append_of_pos ws.isWs_of_mem]
  rfl

theorem skipWs_cons {b : UInt8} (hb : isWs b = false) (rest : Bytes) :
    Parser.skipWs (b :: rest) = b :: rest := by
  rw [Parser.skipWs, List.dropWhile_cons_of_neg (by simp [hb])]

theorem parseValue_ws (fuel : Nat) (ws : Ws) (rest : Bytes) :
    Parser.parseValue fuel (bytes ws.text ++ rest) = Parser.parseValue fuel rest := by
  cases fuel with
  | zero => rw [Parser.parseValue, Parser.parseValue]
  | succ fuel => rw [Parser.parseValue, Parser.parseValue, skipWs_ws]

def Opens (b : UInt8) : Prop :=
  isQuote b = true ∨ b = '['.toUInt8 ∨ b = '('.toUInt8 ∨ b = '{'.toUInt8 ∨
    isNumberStart b = true ∨ isIdentStart b = true

theorem Literal.isQuote_mark (lit : Literal) : isQuote lit.mark = true := by
  rw [Literal.mark]
  cases lit.quote <;> decide

theorem Value.exists_bytes_text (item : Value) :
    ∃ b tail, bytes item.text = b :: tail ∧ Opens b := by
  cases item with
  | string lit => exact ⟨lit.mark, _, lit.bytes_text, .inl lit.isQuote_mark⟩
  | scalar scalar =>
    obtain ⟨b, tail, htext, hb⟩ := scalar.starts
    refine ⟨b, tail, htext, ?_⟩
    rcases hb with hb | hb | hb
    · exact .inr (.inr (.inr (.inr (.inl hb))))
    · exact .inr (.inr (.inr (.inr (.inr hb))))
    · exact .inr (.inr (.inr (.inl hb)))
  | sequence kind items =>
    cases kind with
    | list => exact ⟨_, _, bytes_cons_of_isAscii (by decide) _, .inr (.inl rfl)⟩
    | tuple => exact ⟨_, _, bytes_cons_of_isAscii (by decide) _, .inr (.inr (.inl rfl))⟩
  | dict entries =>
    exact ⟨_, _, bytes_cons_of_isAscii (by decide) _, .inr (.inr (.inr (.inl rfl)))⟩

/-- No value starts with white space, a closing bracket, a comma, a colon or `=`. -/
theorem Opens.ne {b : UInt8} (h : Opens b) : isWs b = false ∧ b ≠ ']'.toUInt8 ∧
    b ≠ ')'.toUInt8 ∧ b ≠ '}'.toUInt8 ∧ b ≠ ','.toUInt8 ∧ b ≠ '='.toUInt8 := by
  refine ⟨?_, ?_, ?_, ?_, ?_, ?_⟩
  · by_contra hws
    simp only [Bool.not_eq_false, isWs, Bool.or_eq_true, beq_iff_eq] at hws
    rcases hws with ((rfl | rfl) | rfl) | rfl <;> revert h <;> unfold Opens <;> decide
  all_goals
    rintro rfl
    revert h
    unfold Opens
    decide

theorem isWs_eq_false_of_isQuote {b : UInt8} (h : isQuote b = true) : isWs b = false := by
  simp only [isQuote, Bool.or_eq_true, beq_iff_eq] at h
  rcases h with rfl | rfl <;> decide

/-- White space and a delimiter end every value in front of them. -/
theorem delimited_ws (ws : Ws) {b : UInt8} (hb : b = ','.toUInt8 ∨ b = ':'.toUInt8 ∨
    b = ')'.toUInt8 ∨ b = ']'.toUInt8 ∨ b = '}'.toUInt8) (rest : Bytes) :
    Delimited (bytes ws.text ++ b :: rest) := by
  intro c hc
  cases hws : bytes ws.text with
  | nil =>
    rw [hws, List.nil_append, List.head?_cons, Option.mem_some_iff] at hc
    subst hc
    exact .inr hb
  | cons d tail =>
    rw [hws, List.cons_append, List.head?_cons, Option.mem_some_iff] at hc
    subst hc
    exact .inl (ws.isWs_of_mem d (hws ▸ List.mem_cons_self))

theorem Literal.ends_of_delimited (lit : Literal) {rest : Bytes} (h : Delimited rest) :
    lit.Ends rest := by
  intro hhead
  have hquote := lit.isQuote_mark
  rcases h lit.mark hhead with hws | hb
  · rw [isWs_eq_false_of_isQuote hquote] at hws
    cases hws
  · rw [isQuote] at hquote
    rcases hb with hb | hb | hb | hb | hb <;> rw [hb] at hquote <;> revert hquote <;> decide

theorem Value.ends_of_delimited (item : Value) {rest : Bytes} (h : Delimited rest) :
    item.Ends rest := by
  cases item with
  | string lit => exact lit.ends_of_delimited h
  | scalar scalar => exact h
  | sequence kind items => trivial
  | dict entries => trivial

/-! ## Steps of the parser -/

namespace Parser

variable {fuel : Nat} {input rest left : Bytes} {b : UInt8}
variable {kind : Sequence}

theorem parseItems_close (hskip : skipWs input = kind.close :: rest) :
    parseItems (fuel + 1) kind input = .ok ([], left) ↔ left = rest := by
  rw [parseItems, hskip]
  dsimp only
  rw [if_pos rfl, Except.ok.injEq, Prod.mk.injEq]
  simp [eq_comm]

section AfterItem

variable {α : Type} {close : UInt8} {unexpected : Char → LitError}
  {more : Bytes → Except LitError (List α × Bytes)} {item first : α} {items : List α}

theorem eq_of_afterItem
    (h : afterItem close unexpected more item input = .ok (first :: items, left)) :
    item = first := by
  unfold afterItem at h
  split at h
  · cases h
  · split_ifs at h
    · obtain ⟨read, -, heq⟩ := except_map_eq_ok.1 h
      cases heq
      rfl
    · cases h
      rfl

theorem afterItem_comma (hskip : skipWs input = ','.toUInt8 :: rest) :
    afterItem close unexpected more item input = .ok (item :: items, left) ↔
      more rest = .ok (items, left) := by
  rw [afterItem, hskip]
  dsimp only
  rw [if_pos rfl, except_map_eq_ok]
  constructor
  · rintro ⟨read, hmore, heq⟩
    cases heq
    exact hmore
  · exact fun hmore => ⟨_, hmore, rfl⟩

theorem afterItem_close (hclose : close ≠ ','.toUInt8) (hskip : skipWs input = close :: rest) :
    afterItem close unexpected more item input = .ok ([item], left) ↔ left = rest := by
  rw [afterItem, hskip]
  dsimp only
  rw [if_neg hclose, if_pos rfl, Except.ok.injEq, Prod.mk.injEq]
  simp [eq_comm]

end AfterItem

theorem parseItems_item {item : Lit} {items : List Lit} (hskip : skipWs input = b :: rest)
    (hb : b ≠ kind.close) :
    parseItems (fuel + 1) kind input = .ok (item :: items, left) ↔
      ∃ after, parseValue fuel (b :: rest) = .ok (item, after) ∧
        afterItem kind.close kind.unexpected (parseItems fuel kind) item after =
          .ok (item :: items, left) := by
  rw [parseItems, hskip]
  dsimp only
  rw [if_neg hb, except_bind_eq_ok]
  constructor
  · rintro ⟨⟨first, after⟩, hfirst, h⟩
    obtain rfl := eq_of_afterItem h
    exact ⟨after, hfirst, h⟩
  · rintro ⟨after, hitem, h⟩
    exact ⟨(item, after), hitem, h⟩

theorem parseEntries_close (hskip : skipWs input = '}'.toUInt8 :: rest) :
    parseEntries (fuel + 1) input = .ok ([], left) ↔ left = rest := by
  rw [parseEntries, hskip]
  dsimp only
  rw [if_pos rfl, Except.ok.injEq, Prod.mk.injEq]
  simp [eq_comm]

theorem parseEntries_entry {item : Lit} {key : String} {items : List (String × Lit)}
    (hskip : skipWs input = b :: rest) (hb : b ≠ '}'.toUInt8) :
    parseEntries (fuel + 1) input = .ok ((key, item) :: items, left) ↔
      ∃ between, (∃ first, parseValue fuel (b :: rest) = .ok (first, between) ∧
          keyText first = .ok key) ∧
        ∃ behind after, skipWs between = ':'.toUInt8 :: behind ∧
          parseValue fuel behind = .ok (item, after) ∧
          afterItem '}'.toUInt8 .unexpectedInDict (parseEntries fuel) (key, item) after =
            .ok ((key, item) :: items, left) := by
  rw [parseEntries, hskip]
  dsimp only
  rw [if_neg hb, except_bind_eq_ok]
  constructor
  · rintro ⟨⟨first, between⟩, hfirst, h⟩
    obtain ⟨name, hname, h⟩ := except_bind_eq_ok.1 h
    dsimp only at h
    split at h
    · next c behind hbetween =>
      split at h
      · next hcolon =>
        obtain ⟨⟨value, after⟩, hvalue, h⟩ := except_bind_eq_ok.1 h
        cases eq_of_afterItem h
        exact ⟨between, ⟨first, hfirst, hname⟩, behind, after, by rw [hbetween, hcolon], hvalue, h⟩
      · cases h
    · cases h
  · rintro ⟨between, ⟨first, hfirst, hname⟩, behind, after, hcolon, hitem, h⟩
    refine ⟨(first, between), hfirst, except_bind_eq_ok.2 ⟨key, hname, ?_⟩⟩
    dsimp only
    rw [hcolon]
    dsimp only
    rw [if_pos rfl]
    exact except_bind_eq_ok.2 ⟨(item, after), hitem, h⟩

theorem parseValue_quote (hquote : isQuote b = true) :
    parseValue (fuel + 1) (b :: rest) = parseString b rest := by
  rw [parseValue, skipWs_cons (isWs_eq_false_of_isQuote hquote)]
  dsimp only
  rw [if_pos hquote]

theorem parseValue_opening (kind : Sequence) :
    parseValue (fuel + 1) (kind.opening :: rest) =
      (parseItems fuel kind rest).map fun (read, rest) => (.list read, rest) := by
  cases kind with
  | list =>
    rw [parseValue, skipWs_cons (by decide)]
    dsimp only [Sequence.opening]
    rw [if_neg (by decide), if_pos rfl]
  | tuple =>
    rw [parseValue, skipWs_cons (by decide)]
    dsimp only [Sequence.opening]
    rw [if_neg (by decide), if_neg (by decide), if_neg (fun h => absurd h.1 (by decide)),
      if_neg (by decide), if_pos rfl]

theorem parseValue_brace (hrest : rest.head? ≠ some '{'.toUInt8 ∧ rest.head? ≠ some '%'.toUInt8) :
    parseValue (fuel + 1) ('{'.toUInt8 :: rest) =
      (parseEntries fuel rest).map fun (read, rest) => (.dict read, rest) := by
  rw [parseValue, skipWs_cons (by decide)]
  dsimp only
  rw [if_neg (by decide), if_neg (by decide), if_neg (fun h => h.2.elim hrest.1 hrest.2),
    if_pos rfl]

end Parser

/-! ## Values that are read back -/

section Back

variable {fuel : Nat} {rest left : Bytes}
variable {entry : Bytes}

theorem parseValue_literal (lit : Literal) :
    Parser.parseValue (fuel + 1) (bytes lit.text ++ rest) =
      Parser.parseString lit.mark (bytes lit.body ++ rest) := by
  rw [lit.bytes_text, List.cons_append, Parser.parseValue_quote lit.isQuote_mark]

theorem bytes_openChar (kind : Parser.Sequence) (text : List Char) :
    bytes (kind.openChar :: text) = kind.opening :: bytes text := by
  cases kind <;> exact bytes_cons_of_isAscii (by decide) _

theorem bytes_closeChar (kind : Parser.Sequence) (text : List Char) :
    bytes (kind.closeChar :: text) = kind.close :: bytes text := by
  cases kind <;> exact bytes_cons_of_isAscii (by decide) _

theorem close_delimits (kind : Parser.Sequence) : kind.close = ','.toUInt8 ∨
    kind.close = ':'.toUInt8 ∨ kind.close = ')'.toUInt8 ∨ kind.close = ']'.toUInt8 ∨
      kind.close = '}'.toUInt8 := by
  cases kind <;> decide

theorem Opens.ne_close {b : UInt8} (h : Opens b) (kind : Parser.Sequence) : b ≠ kind.close := by
  cases kind
  · exact h.ne.2.1
  · exact h.ne.2.2.1

theorem Scalar.ne_brace (scalar : Scalar) {ident : String} (h : scalar.value = .ident ident)
    {b : UInt8} {tail : Bytes} (htext : bytes scalar.text = b :: tail) : b ≠ '{'.toUInt8 := by
  rintro rfl
  have hreads := scalar.reads 0 [] (by simp [Delimited])
  rw [htext, List.append_nil, h] at hreads
  by_cases hnext : tail.head? = some '{'.toUInt8 ∨ tail.head? = some '%'.toUInt8
  · rw [Parser.parseValue, skipWs_cons (by decide)] at hreads
    dsimp only at hreads
    rw [if_neg (by decide), if_neg (by decide), if_pos ⟨rfl, hnext⟩, Parser.parseJinja] at hreads
    split at hreads
    · cases hreads
    · split at hreads <;> cases hreads
  · rw [Parser.parseValue_brace (not_or.1 hnext)] at hreads
    obtain ⟨⟨items, left⟩, -, heq⟩ := except_map_eq_ok.1 hreads
    cases heq

theorem Key.exists_bytes_text (key : Key) :
    ∃ b tail, bytes key.text = b :: tail ∧ Opens b ∧ b ≠ '{'.toUInt8 := by
  cases key with
  | string lit =>
    refine ⟨lit.mark, _, lit.bytes_text, .inl lit.isQuote_mark, ?_⟩
    rw [Literal.mark]
    cases lit.quote <;> decide
  | name scalar ident h =>
    obtain ⟨b, tail, htext, hb⟩ := (Value.scalar scalar).exists_bytes_text
    exact ⟨b, tail, htext, hb, scalar.ne_brace h htext⟩

theorem Opens.ne_percent {b : UInt8} (h : Opens b) : b ≠ '%'.toUInt8 := by
  rintro rfl
  revert h
  unfold Opens
  decide

/-- White space or a value in front: what follows an opening brace starts no block of Jinja. -/
theorem head_ne_of_ws (ws : Ws) {b : UInt8} {tail : Bytes} (hb : b ≠ '{'.toUInt8)
    (hpercent : b ≠ '%'.toUInt8) :
    (bytes ws.text ++ b :: tail).head? ≠ some '{'.toUInt8 ∧
      (bytes ws.text ++ b :: tail).head? ≠ some '%'.toUInt8 := by
  cases hws : bytes ws.text with
  | nil => simpa using ⟨hb, hpercent⟩
  | cons c tail =>
    have hc := ws.isWs_of_mem c (hws ▸ List.mem_cons_self)
    simp only [List.cons_append, List.head?_cons, ne_eq, Option.some.injEq]
    constructor
    · rintro rfl
      exact absurd hc (by decide)
    · rintro rfl
      exact absurd hc (by decide)

theorem Entries.head_ne (entries : Entries) :
    (bytes entries.text ++ rest).head? ≠ some '{'.toUInt8 ∧
      (bytes entries.text ++ rest).head? ≠ some '%'.toUInt8 := by
  cases entries with
  | close pad =>
    rw [Entries.text, bytes_append, List.append_assoc, bytes_cons_of_isAscii (by decide)]
    exact head_ne_of_ws pad (by decide) (by decide)
  | last before key between gap item after =>
    obtain ⟨b, tail, hkey, hb, hne⟩ := key.exists_bytes_text
    simp only [Entries.text, bytes_append, List.append_assoc, hkey, List.cons_append]
    exact head_ne_of_ws before hne hb.ne_percent
  | more before key between gap item after more =>
    obtain ⟨b, tail, hkey, hb, hne⟩ := key.exists_bytes_text
    simp only [Entries.text, bytes_append, List.append_assoc, hkey, List.cons_append]
    exact head_ne_of_ws before hne hb.ne_percent

theorem Literal.parseValue_iff (lit : Literal) (hends : lit.Ends rest) :
    Parser.parseValue (fuel + 1) (bytes lit.text ++ rest) = .ok (.str lit.value, left) ↔
      lit.AsWritten ∧ left = rest := by
  rw [parseValue_literal, lit.parseString_iff hends]

theorem Scalar.parseValue_iff (scalar : Scalar) (hends : Delimited rest) {read : Lit} :
    Parser.parseValue (fuel + 1) (bytes scalar.text ++ rest) = .ok (read, left) ↔
      read = scalar.value ∧ left = rest := by
  rw [scalar.reads fuel rest hends, Except.ok.injEq, Prod.mk.injEq, eq_comm, eq_comm (a := rest)]

theorem Key.parseValue_iff (key : Key) (hends : Delimited rest) :
    (∃ first, Parser.parseValue (fuel + 1) (bytes key.text ++ rest) = .ok (first, left) ∧
        Parser.keyText first = .ok key.value) ↔
      (∀ lit ∈ key.literals, lit.AsWritten) ∧ left = rest := by
  cases key with
  | string lit =>
    have hlit : Parser.parseValue (fuel + 1) (bytes lit.text ++ rest) =
        .ok (.str lit.value, left) ↔ _ := lit.parseValue_iff (lit.ends_of_delimited hends)
    rw [Key.literals, List.forall_mem_singleton, ← hlit]
    constructor
    · rintro ⟨first, hfirst, hkey⟩
      have hread := hfirst
      rw [Key.text, parseValue_literal] at hread
      obtain ⟨⟨out, after⟩, -, heq⟩ := except_map_eq_ok.1 hread
      cases heq
      have hvalue : String.ofList out = lit.value := Except.ok.inj hkey
      rw [← hvalue]
      exact hfirst
    · exact fun h => ⟨_, h, rfl⟩
  | name scalar ident hident =>
    simp only [Key.text, scalar.parseValue_iff hends]
    constructor
    · rintro ⟨first, ⟨-, hleft⟩, -⟩
      exact ⟨by simp [Key.literals], hleft⟩
    · rintro ⟨-, hleft⟩
      exact ⟨scalar.value, ⟨rfl, hleft⟩, by rw [hident]; rfl⟩

theorem skipWs_value (before : Ws) (item : Value) (rest : Bytes) :
    ∃ b tail, bytes item.text = b :: tail ∧ Opens b ∧
      Parser.skipWs (bytes before.text ++ (bytes item.text ++ rest)) = b :: (tail ++ rest) := by
  obtain ⟨b, tail, htext, hb⟩ := item.exists_bytes_text
  exact ⟨b, tail, htext, hb, by rw [skipWs_ws, htext, List.cons_append, skipWs_cons hb.ne.1]⟩

theorem skipWs_ws_cons (ws : Ws) {b : UInt8} (hb : isWs b = false) (rest : Bytes) :
    Parser.skipWs (bytes ws.text ++ b :: rest) = b :: rest := by
  rw [skipWs_ws, skipWs_cons hb]

theorem isWs_close (kind : Parser.Sequence) : isWs kind.close = false := by
  cases kind <;> decide

theorem close_ne_comma (kind : Parser.Sequence) : kind.close ≠ ','.toUInt8 := by
  cases kind <;> decide

theorem parseItems_value {kind : Parser.Sequence} {before : Ws} {item : Value} {items : List Lit} :
    Parser.parseItems (fuel + 1) kind (bytes before.text ++ (bytes item.text ++ entry)) =
        .ok (item.value :: items, left) ↔
      ∃ after, Parser.parseValue fuel (bytes item.text ++ entry) = .ok (item.value, after) ∧
        Parser.afterItem kind.close kind.unexpected (Parser.parseItems fuel kind) item.value after =
          .ok (item.value :: items, left) := by
  obtain ⟨b, tail, htext, hb, hskip⟩ := skipWs_value before item entry
  rw [Parser.parseItems_item hskip (hb.ne_close kind), htext, List.cons_append]

/-- An entry is read back: its key, its item behind the colon, and what follows it. -/
theorem parseEntries_value {before between gap : Ws} {key : Key} {item : Value}
    {items : List (String × Lit)} :
    Parser.parseEntries (fuel + 2) (bytes before.text ++ (bytes key.text ++
        (bytes between.text ++ ':'.toUInt8 :: (bytes gap.text ++ (bytes item.text ++ entry))))) =
        .ok ((key.value, item.value) :: items, left) ↔
      (∀ lit ∈ key.literals, lit.AsWritten) ∧
        ∃ after, Parser.parseValue (fuel + 1) (bytes item.text ++ entry) =
            .ok (item.value, after) ∧
          Parser.afterItem '}'.toUInt8 .unexpectedInDict (Parser.parseEntries (fuel + 1))
            (key.value, item.value) after = .ok ((key.value, item.value) :: items, left) := by
  obtain ⟨b, tail, htext, hb, -⟩ := key.exists_bytes_text
  have hcolon := delimited_ws between (.inr (.inl rfl))
    (bytes gap.text ++ (bytes item.text ++ entry))
  have hskip : ∀ rest, Parser.skipWs (bytes before.text ++ (bytes key.text ++ rest)) =
      b :: (tail ++ rest) := by
    intro rest
    rw [skipWs_ws, htext, List.cons_append, skipWs_cons hb.ne.1]
  rw [Parser.parseEntries_entry (hskip _) hb.ne.2.2.2.1, ← List.cons_append, ← htext]
  simp only [key.parseValue_iff hcolon, and_assoc, exists_and_left, exists_eq_left]
  rw [skipWs_ws_cons between (by decide)]
  simp only [List.cons.injEq, true_and, exists_eq_left', parseValue_ws]

theorem map_value_iff {α : Type} {f : α → Lit} (hf : Function.Injective f)
    {read : Except LitError (α × Bytes)} {a : α} :
    (read.map fun (a, rest) => (f a, rest)) = .ok (f a, left) ↔ read = .ok (a, left) := by
  rw [except_map_eq_ok]
  constructor
  · rintro ⟨⟨a', after⟩, hread, heq⟩
    simp only [Prod.mk.injEq, hf.eq_iff] at heq
    rw [hread, heq.1, heq.2]
  · exact fun h => ⟨_, h, rfl⟩

mutual

/-- A value is read back, up to its end, exactly if its string literals are as written. -/
theorem Value.parseValue_iff (item : Value) {fuel : Nat} (hfuel : item.size ≤ fuel)
    {rest left : Bytes} (hends : item.Ends rest) :
    Parser.parseValue fuel (bytes item.text ++ rest) = .ok (item.value, left) ↔
      (∀ lit ∈ item.literals, lit.AsWritten) ∧ left = rest := by
  cases fuel with
  | zero => cases item <;> simp [Value.size] at hfuel
  | succ fuel =>
    match item with
    | .string lit => simp only [Value.text, Value.value, Value.literals, lit.parseValue_iff hends,
        List.forall_mem_singleton]
    | .scalar scalar =>
      rw [Value.text, Value.value, scalar.parseValue_iff hends]
      simp [Value.literals]
    | .sequence kind items =>
      rw [Value.text, bytes_openChar, List.cons_append, Parser.parseValue_opening]
      exact (map_value_iff fun _ _ => Lit.list.inj).trans
        (items.parseItems_iff kind (Nat.le_of_succ_le_succ hfuel))
    | .dict entries =>
      rw [Value.text, bytes_cons_of_isAscii (by decide), List.cons_append,
        Parser.parseValue_brace entries.head_ne]
      exact (map_value_iff fun _ _ => Lit.dict.inj).trans
        (entries.parseEntries_iff (Nat.le_of_succ_le_succ hfuel))

theorem Items.parseItems_iff (items : Items) (kind : Parser.Sequence) {fuel : Nat}
    (hfuel : items.size ≤ fuel) {rest left : Bytes} :
    Parser.parseItems fuel kind (bytes (items.text kind) ++ rest) = .ok (items.values, left) ↔
      (∀ lit ∈ items.literals, lit.AsWritten) ∧ left = rest := by
  cases fuel with
  | zero => cases items <;> simp [Items.size] at hfuel
  | succ fuel =>
    match items with
    | .close pad =>
      rw [Items.text, bytes_append, bytes_closeChar, List.append_assoc, List.cons_append,
        Items.values, Parser.parseItems_close (skipWs_ws_cons pad (isWs_close kind) _)]
      simp [Items.literals]
    | .last before item after =>
      have hends := item.ends_of_delimited (delimited_ws after (close_delimits kind) rest)
      simp only [Items.text, bytes_append, bytes_closeChar, bytes_nil, List.append_assoc,
        List.cons_append, List.nil_append, Items.values, parseItems_value]
      simp only [item.parseValue_iff (Nat.le_of_succ_le_succ hfuel) hends, and_assoc,
        exists_and_left, exists_eq_left]
      rw [Parser.afterItem_close (close_ne_comma kind) (skipWs_ws_cons after (isWs_close kind) _),
        Items.literals]
    | .more before item after more =>
      simp only [Items.size] at hfuel
      have hends := item.ends_of_delimited
        (delimited_ws after (.inl rfl) (bytes (more.text kind) ++ rest))
      simp only [Items.text, bytes_append, bytes_cons_of_isAscii (show IsAscii ',' by decide),
        List.append_assoc, List.cons_append, Items.values, parseItems_value]
      simp only [item.parseValue_iff (show _ ≤ fuel by omega) hends, and_assoc, exists_and_left,
        exists_eq_left]
      rw [Parser.afterItem_comma (skipWs_ws_cons after (by decide) _),
        more.parseItems_iff kind (show _ ≤ fuel by omega), Items.literals, List.forall_mem_append,
        and_assoc]

theorem Entries.parseEntries_iff (entries : Entries) {fuel : Nat} (hfuel : entries.size ≤ fuel)
    {rest left : Bytes} :
    Parser.parseEntries fuel (bytes entries.text ++ rest) = .ok (entries.values, left) ↔
      (∀ lit ∈ entries.literals, lit.AsWritten) ∧ left = rest := by
  cases fuel with
  | zero => cases entries <;> simp [Entries.size] at hfuel
  | succ fuel =>
    match entries with
    | .close pad =>
      rw [Entries.text, bytes_append, bytes_cons_of_isAscii (by decide), List.append_assoc,
        List.cons_append, Entries.values,
        Parser.parseEntries_close (skipWs_ws_cons pad (by decide) _)]
      simp [Entries.literals]
    | .last before key between gap item after =>
      simp only [Entries.size] at hfuel
      obtain ⟨fuel, rfl⟩ := Nat.exists_eq_add_of_le' (show 1 ≤ fuel by omega)
      have hends := item.ends_of_delimited
        (delimited_ws after (.inr (.inr (.inr (.inr rfl)))) rest)
      simp only [Entries.text, bytes_append, bytes_cons_of_isAscii (show IsAscii ':' by decide),
        bytes_cons_of_isAscii (show IsAscii '}' by decide), bytes_nil, List.append_assoc,
        List.cons_append, List.nil_append, Entries.values, parseEntries_value]
      simp only [item.parseValue_iff (show _ ≤ fuel + 1 by omega) hends, and_assoc,
        exists_and_left, exists_eq_left]
      rw [Parser.afterItem_close (by decide) (skipWs_ws_cons after (by decide) _),
        Entries.literals, List.forall_mem_append, and_assoc]
    | .more before key between gap item after more =>
      simp only [Entries.size] at hfuel
      obtain ⟨fuel, rfl⟩ := Nat.exists_eq_add_of_le' (show 1 ≤ fuel by omega)
      have hends := item.ends_of_delimited
        (delimited_ws after (.inl rfl) (bytes more.text ++ rest))
      simp only [Entries.text, bytes_append, bytes_cons_of_isAscii (show IsAscii ':' by decide),
        bytes_cons_of_isAscii (show IsAscii ',' by decide), List.append_assoc, List.cons_append,
        Entries.values, parseEntries_value]
      simp only [item.parseValue_iff (show _ ≤ fuel + 1 by omega) hends, and_assoc,
        exists_and_left, exists_eq_left]
      rw [Parser.afterItem_comma (skipWs_ws_cons after (by decide) _),
        more.parseEntries_iff (show _ ≤ fuel + 1 by omega), Entries.literals,
        List.forall_mem_append, List.forall_mem_append, and_assoc, and_assoc]

end

end Back

/-! ## Arguments -/

/-- The name of a keyword argument. -/
structure Name where
  first : Char
  others : List Char
  first_ok : IsAscii first ∧ isIdentStart first.toUInt8 = true
  others_ok : ∀ c ∈ others, IsAscii c ∧ isIdentByte c.toUInt8 = true

def Name.text (name : Name) : List Char := name.first :: name.others

/-- An argument of a call, with the white space around its `=`. -/
inductive Argument where
  | positional (item : Value)
  | keyword (name : Name) (before : Ws) (gap : Ws) (item : Value)

namespace Argument

def text : Argument → List Char
  | positional item => item.text
  | keyword name before gap item => name.text ++ before.text ++ '=' :: (gap.text ++ item.text)

def name : Argument → Option String
  | positional _ => none
  | keyword name _ _ _ => some (String.ofList name.text)

def item : Argument → Value
  | positional item => item
  | keyword _ _ _ item => item

end Argument

/-- The arguments of a call, with the white space around them. -/
inductive Arguments where
  | close (pad : Ws)
  | last (before : Ws) (argument : Argument) (after : Ws)
  | more (before : Ws) (argument : Argument) (after : Ws) (rest : Arguments)

namespace Arguments

def text : Arguments → List Char
  | close pad => pad.text
  | last before argument after => before.text ++ argument.text ++ after.text
  | more before argument after rest =>
    before.text ++ argument.text ++ after.text ++ ',' :: rest.text

/-- The positional and the keyword arguments. -/
def values : Arguments → List Lit × List (String × Lit)
  | close _ => ([], [])
  | last _ argument _ => Parser.gather argument.name argument.item.value ([], [])
  | more _ argument _ rest => Parser.gather argument.name argument.item.value rest.values

def literals : Arguments → List Literal
  | close _ => []
  | last _ argument _ => argument.item.literals
  | more _ argument _ rest => argument.item.literals ++ rest.literals

def size : Arguments → Nat
  | close _ => 1
  | last _ argument _ => argument.item.size + 1
  | more _ argument _ rest => argument.item.size + rest.size + 1

end Arguments

/-- What follows an argument: white space, and a comma or the end. -/
structure AfterArgument (rest : Bytes) : Prop where
  delimited : Delimited rest
  next : ∀ b ∈ (Parser.skipWs rest).head?, b = ','.toUInt8

theorem afterArgument_comma (ws : Ws) (rest : Bytes) :
    AfterArgument (bytes ws.text ++ ','.toUInt8 :: rest) where
  delimited := delimited_ws ws (.inl rfl) rest
  next := by
    rw [skipWs_ws_cons ws (by decide)]
    simp

theorem skipWs_end (ws : Ws) : Parser.skipWs (bytes ws.text) = [] := by
  have h := skipWs_ws ws []
  rwa [List.append_nil] at h

theorem afterArgument_end (ws : Ws) : AfterArgument (bytes ws.text) where
  delimited := by
    intro b hb
    exact .inl (ws.isWs_of_mem b (List.mem_of_mem_head? hb))
  next := by
    rw [skipWs_end]
    simp

theorem ne_of_isIdentStart {b : UInt8} (h : isIdentStart b = true) : isQuote b = false ∧
    b ≠ '['.toUInt8 ∧ b ≠ '{'.toUInt8 ∧ b ≠ '('.toUInt8 ∧ isNumberStart b = false := by
  refine ⟨?_, ?_, ?_, ?_, ?_⟩
  · by_contra hb
    simp only [Bool.not_eq_false, isQuote, Bool.or_eq_true, beq_iff_eq] at hb
    rcases hb with rfl | rfl <;> revert h <;> decide
  · rintro rfl
    revert h
    decide
  · rintro rfl
    revert h
    decide
  · rintro rfl
    revert h
    decide
  · by_contra hb
    simp only [Bool.not_eq_false, isNumberStart, isDigit, Bool.or_eq_true, beq_iff_eq,
      Bool.and_eq_true, decide_eq_true_eq, UInt8.le_iff_toNat_le] at hb
    simp only [isIdentStart, Bool.or_eq_true, beq_iff_eq, Bool.and_eq_true, decide_eq_true_eq,
      UInt8.le_iff_toNat_le, ← UInt8.toNat_inj] at h hb
    have h1 : 'a'.toUInt8.toNat = 97 := rfl
    have h2 : 'A'.toUInt8.toNat = 65 := rfl
    have h3 : '_'.toUInt8.toNat = 95 := rfl
    have h4 : '-'.toUInt8.toNat = 45 := rfl
    have h5 : '+'.toUInt8.toNat = 43 := rfl
    have h6 : '9'.toUInt8.toNat = 57 := rfl
    omega

theorem parseIdent_of_not_isIdentStart {b : UInt8} (h : isIdentStart b = false) (rest : Bytes) :
    Parser.parseIdent (b :: rest) = none := by
  rw [Parser.parseIdent, h]
  rfl

theorem word_rest {name : String} {after rest : Bytes} (h : (Parser.word name after).2 = rest) :
    after = rest ∨ after.head? = some '('.toUInt8 := by
  unfold Parser.word at h
  split_ifs at h with htrue hfalse hnone hcall
  · exact .inl h
  · exact .inl h
  · exact .inl h
  · exact .inr hcall
  · exact .inl h

theorem keyword_value (item : Value) {rest : Bytes} (hrest : AfterArgument rest) :
    Parser.keyword (bytes item.text ++ rest) = none := by
  obtain ⟨b, tail, htext, hb⟩ := item.exists_bytes_text
  cases hident : Parser.parseIdent (bytes item.text ++ rest) with
  | none => rw [Parser.keyword, hident, Option.bind_none]
  | some pair =>
    obtain ⟨name, after⟩ := pair
    have hstart : isIdentStart b = true := by
      by_contra hstart
      rw [htext, List.cons_append,
        parseIdent_of_not_isIdentStart (Bool.eq_false_of_not_eq_true hstart)] at hident
      cases hident
    obtain ⟨hquote, hbracket, hbrace, hparen, hnumber⟩ := ne_of_isIdentStart hstart
    have hafter : after = rest ∨ after.head? = some '('.toUInt8 := by
      cases item with
      | string lit =>
        have hmark := lit.isQuote_mark
        rw [Value.text, lit.bytes_text, List.cons.injEq] at htext
        rw [htext.1, hquote] at hmark
        cases hmark
      | sequence kind items =>
        rw [Value.text, bytes_openChar, List.cons.injEq] at htext
        cases kind
        · exact absurd htext.1.symm hbracket
        · exact absurd htext.1.symm hparen
      | dict entries =>
        rw [Value.text, bytes_cons_of_isAscii (by decide), List.cons.injEq] at htext
        exact absurd htext.1.symm hbrace
      | scalar scalar =>
        have hreads := scalar.reads 0 rest hrest.delimited
        have hskip : Parser.skipWs (bytes scalar.text ++ rest) = b :: (tail ++ rest) := by
          rw [← List.cons_append, ← htext]
          exact (htext ▸ List.cons_append ▸ skipWs_cons hb.ne.1 _)
        rw [Parser.parseValue, hskip] at hreads
        dsimp only at hreads
        rw [if_neg (by simp [hquote]), if_neg hbracket, if_neg (fun h => hbrace h.1),
          if_neg hbrace, if_neg hparen, if_neg (by simp [hnumber])] at hreads
        rw [htext, List.cons_append] at hident
        rw [hident] at hreads
        exact word_rest (congrArg Prod.snd (Except.ok.inj hreads))
    rw [Parser.keyword, hident, Option.bind_some]
    dsimp only
    rcases hafter with rfl | hopen
    · split
      · rename_i c left hskip
        obtain rfl := hrest.next c (by rw [hskip]; rfl)
        exact if_neg (fun h => absurd h.1 (by decide))
      · rfl
    · obtain ⟨left, rfl⟩ := List.head?_eq_some_iff.1 hopen
      rw [skipWs_cons (by decide)]
      exact if_neg (fun h => absurd h.1 (by decide))

theorem keyword_name (name : Name) (before : Ws) {rest : Bytes}
    (hrest : rest.head? ≠ some '='.toUInt8) :
    Parser.keyword (bytes name.text ++ (bytes before.text ++ '='.toUInt8 :: rest)) =
      some (String.ofList name.text, rest) := by
  have hascii : ∀ c ∈ name.text, IsAscii c := by
    intro c hc
    rcases List.mem_cons.1 hc with rfl | hc
    · exact name.first_ok.1
    · exact (name.others_ok c hc).1
  have hothers : ∀ b ∈ bytes name.others, isIdentByte b = true := by
    intro b hb
    obtain ⟨c, hc, hb⟩ := List.mem_flatMap.1 hb
    obtain ⟨hcascii, hident⟩ := name.others_ok c hc
    rw [Library.utf8EncodeChar_eq_singleton hcascii, List.mem_singleton] at hb
    rwa [hb]
  have hstop : ∃ b tail, bytes before.text ++ '='.toUInt8 :: rest = b :: tail ∧
      isIdentByte b = false := by
    cases hws : bytes before.text with
    | nil => exact ⟨'='.toUInt8, rest, rfl, by decide⟩
    | cons b tail =>
      refine ⟨b, _, rfl, ?_⟩
      have hb := before.isWs_of_mem b (hws ▸ List.mem_cons_self)
      simp only [isWs, Bool.or_eq_true, beq_iff_eq] at hb
      rcases hb with ((rfl | rfl) | rfl) | rfl <;> decide
  have hident : Parser.parseIdent (bytes name.text ++ (bytes before.text ++ '='.toUInt8 :: rest)) =
      some (String.ofList name.text, bytes before.text ++ '='.toUInt8 :: rest) := by
    obtain ⟨b, tail, htail, hb⟩ := hstop
    rw [htail, Name.text, bytes_cons_of_isAscii name.first_ok.1, List.cons_append,
      Parser.parseIdent, if_pos name.first_ok.2, List.takeWhile_append_of_pos hothers,
      List.dropWhile_append_of_pos hothers, List.takeWhile_cons_of_neg (by simp [hb]),
      List.dropWhile_cons_of_neg (by simp [hb]), List.append_nil, asciiText,
      ← bytes_cons_of_isAscii name.first_ok.1,
      map_charFrom_bytes (s := name.first :: name.others) hascii]
  rw [Parser.keyword, hident, Option.bind_some]
  dsimp only
  rw [skipWs_ws_cons before (by decide)]
  exact if_pos ⟨rfl, hrest⟩

theorem head_ne_eq (gap : Ws) (item : Value) (rest : Bytes) :
    (bytes gap.text ++ (bytes item.text ++ rest)).head? ≠ some '='.toUInt8 := by
  obtain ⟨b, tail, htext, hb⟩ := item.exists_bytes_text
  cases hws : bytes gap.text with
  | nil =>
    rw [htext, List.nil_append, List.cons_append, List.head?_cons]
    exact fun h => hb.ne.2.2.2.2.2 (Option.some.inj h)
  | cons c tail =>
    have hc := gap.isWs_of_mem c (hws ▸ List.mem_cons_self)
    rw [List.cons_append, List.head?_cons]
    intro h
    rw [Option.some.inj h] at hc
    exact absurd hc (by decide)

theorem argument_text (fuel : Nat) (argument : Argument) {rest : Bytes}
    (hrest : AfterArgument rest) :
    Parser.argument fuel (bytes argument.text ++ rest) =
      (Parser.parseValue fuel (bytes argument.item.text ++ rest)).map fun (item, after) =>
        (argument.name, item, after) := by
  cases argument with
  | positional item =>
    rw [Argument.text, Parser.argument, keyword_value item hrest]
    rfl
  | keyword name before gap item =>
    rw [Argument.text]
    simp only [bytes_append, bytes_cons_of_isAscii (show IsAscii '=' by decide),
      List.append_assoc, List.cons_append]
    rw [Parser.argument, keyword_name name before (head_ne_eq gap item rest)]
    dsimp only
    rw [parseValue_ws]
    rfl

theorem Argument.exists_bytes_text (argument : Argument) :
    ∃ b tail, bytes argument.text = b :: tail ∧ isWs b = false := by
  cases argument with
  | positional item =>
    obtain ⟨b, tail, htext, hb⟩ := item.exists_bytes_text
    exact ⟨b, tail, htext, hb.ne.1⟩
  | keyword name before gap item =>
    have hopens : Opens name.first.toUInt8 :=
      .inr (.inr (.inr (.inr (.inr name.first_ok.2))))
    exact ⟨name.first.toUInt8, _, bytes_cons_of_isAscii name.first_ok.1 _, hopens.ne.1⟩

theorem skipWs_argument (before : Ws) (argument : Argument) (rest : Bytes) :
    ∃ b tail, bytes argument.text ++ rest = b :: tail ∧
      Parser.skipWs (bytes before.text ++ (bytes argument.text ++ rest)) = b :: tail := by
  obtain ⟨b, tail, htext, hb⟩ := argument.exists_bytes_text
  exact ⟨b, tail ++ rest, by rw [htext, List.cons_append],
    by rw [skipWs_ws, htext, List.cons_append, skipWs_cons hb]⟩

theorem gather_injective {name : Option String} {item item' : Lit}
    {more more' : List Lit × List (String × Lit)}
    (h : Parser.gather name item more = Parser.gather name item' more') :
    item = item' ∧ more = more' := by
  cases name with
  | none =>
    simp only [Parser.gather, Prod.mk.injEq, List.cons.injEq] at h
    exact ⟨h.1.1, Prod.ext h.1.2 h.2⟩
  | some name =>
    simp only [Parser.gather, Prod.mk.injEq, List.cons.injEq, true_and] at h
    exact ⟨h.2.1, Prod.ext h.1 h.2.2⟩

theorem parseArguments_argument {fuel : Nat} {before : Ws} {argument : Argument} {rest : Bytes}
    (hrest : AfterArgument rest) {more : List Lit × List (String × Lit)} :
    Parser.parseArguments (fuel + 1) (bytes before.text ++ (bytes argument.text ++ rest)) =
        .ok (Parser.gather argument.name argument.item.value more) ↔
      ∃ after, Parser.parseValue fuel (bytes argument.item.text ++ rest) =
          .ok (argument.item.value, after) ∧
        (Parser.skipWs after = [] ∧ more = ([], []) ∨
          ∃ tail, Parser.skipWs after = ','.toUInt8 :: tail ∧
            Parser.parseArguments fuel tail = .ok more) := by
  obtain ⟨b, tail, htext, hskip⟩ := skipWs_argument before argument rest
  rw [Parser.parseArguments, hskip]
  dsimp only
  rw [← htext, argument_text fuel argument hrest, except_bind_eq_ok]
  constructor
  · rintro ⟨read, hread, h⟩
    obtain ⟨⟨item, after⟩, hvalue, rfl⟩ := except_map_eq_ok.1 hread
    dsimp only at h
    split at h
    · next hafter =>
      obtain ⟨rfl, hmore⟩ := gather_injective (Except.ok.inj h)
      exact ⟨after, hvalue, .inl ⟨hafter, hmore.symm⟩⟩
    · next c tail hafter =>
      split at h
      · next hcomma =>
        obtain ⟨others, hothers, heq⟩ := except_map_eq_ok.1 h
        obtain ⟨rfl, rfl⟩ := gather_injective heq
        exact ⟨after, hvalue, .inr ⟨tail, by rw [hafter, hcomma], hothers⟩⟩
      · cases h
  · rintro ⟨after, hvalue, h⟩
    refine ⟨_, except_map_eq_ok.2 ⟨_, hvalue, rfl⟩, ?_⟩
    dsimp only
    rcases h with ⟨hafter, rfl⟩ | ⟨tail, hafter, hmore⟩
    · rw [hafter]
    · rw [hafter]
      dsimp only
      rw [if_pos rfl, hmore]
      rfl

/-- Arguments are read back exactly if their string literals are as written. -/
theorem Arguments.parseArguments_iff (arguments : Arguments) {fuel : Nat}
    (hfuel : arguments.size ≤ fuel) :
    Parser.parseArguments fuel (bytes arguments.text) = .ok arguments.values ↔
      ∀ lit ∈ arguments.literals, lit.AsWritten := by
  induction arguments generalizing fuel with
  | close pad =>
    obtain ⟨fuel, rfl⟩ := Nat.exists_eq_add_of_le' (show 1 ≤ fuel from hfuel)
    rw [Arguments.text, Parser.parseArguments, skipWs_end]
    exact iff_of_true rfl (by simp [Arguments.literals])
  | last before argument after =>
    obtain ⟨fuel, rfl⟩ := Nat.exists_eq_add_of_le' (Nat.le_trans (Nat.le_add_left 1 _) hfuel)
    have hrest := afterArgument_end after
    have hends := argument.item.ends_of_delimited hrest.delimited
    rw [Arguments.text, bytes_append, bytes_append, List.append_assoc, Arguments.values,
      parseArguments_argument hrest]
    simp only [argument.item.parseValue_iff (Nat.le_of_succ_le_succ hfuel) hends, and_assoc,
      exists_and_left, exists_eq_left]
    simp [skipWs_end, Arguments.literals]
  | more before argument after rest ih =>
    obtain ⟨fuel, rfl⟩ := Nat.exists_eq_add_of_le' (Nat.le_trans (Nat.le_add_left 1 _) hfuel)
    rw [Arguments.size] at hfuel
    have hrest := afterArgument_comma after (bytes rest.text)
    have hends := argument.item.ends_of_delimited hrest.delimited
    simp only [Arguments.text, bytes_append, bytes_cons_of_isAscii (show IsAscii ',' by decide),
      List.append_assoc, Arguments.values]
    rw [parseArguments_argument hrest]
    simp only [argument.item.parseValue_iff (show _ ≤ fuel by omega) hends, and_assoc,
      exists_and_left, exists_eq_left]
    rw [skipWs_ws_cons after (by decide)]
    rw [Arguments.literals, List.forall_mem_append, ← ih (show _ ≤ fuel by omega)]
    simp

/-! ## Texts -/

section Sizes

theorem Literal.two_le_length (lit : Literal) : 2 ≤ (bytes lit.text).length := by
  rw [lit.bytes_text, List.length_cons, Literal.body, Literal.quotes, bytes_append, bytes_append,
    lit.bytes_replicate, lit.bytes_replicate]
  cases lit.triple <;> simp

mutual

theorem Value.size_le (item : Value) : item.size ≤ 2 * (bytes item.text).length := by
  match item with
  | .string lit =>
    have hlength := lit.two_le_length
    simp only [Value.size, Value.text]
    omega
  | .scalar scalar =>
    obtain ⟨b, tail, htext, -⟩ := scalar.starts
    simp only [Value.size, Value.text, htext, List.length_cons]
    omega
  | .sequence kind items =>
    have hsize := items.size_le kind
    simp only [Value.size, Value.text, bytes_openChar, List.length_cons]
    omega
  | .dict entries =>
    have hsize := entries.size_le
    simp only [Value.size, Value.text, bytes_cons_of_isAscii (show IsAscii '{' by decide),
      List.length_cons]
    omega

theorem Items.size_le (items : Items) (kind : Parser.Sequence) :
    items.size ≤ 2 * (bytes (items.text kind)).length := by
  match items with
  | .close pad =>
    simp only [Items.size, Items.text, bytes_append, bytes_closeChar, List.length_append,
      List.length_cons]
    omega
  | .last before item after =>
    have hsize := item.size_le
    simp only [Items.size, Items.text, bytes_append, bytes_closeChar, List.length_append,
      List.length_cons]
    omega
  | .more before item after rest =>
    have hsize := item.size_le
    have hrest := rest.size_le kind
    simp only [Items.size, Items.text, bytes_append,
      bytes_cons_of_isAscii (show IsAscii ',' by decide), List.length_append, List.length_cons]
    omega

theorem Entries.size_le (entries : Entries) : entries.size ≤ 2 * (bytes entries.text).length := by
  match entries with
  | .close pad =>
    simp only [Entries.size, Entries.text, bytes_append,
      bytes_cons_of_isAscii (show IsAscii '}' by decide), List.length_append, List.length_cons]
    omega
  | .last before key between gap item after =>
    have hsize := item.size_le
    simp only [Entries.size, Entries.text, bytes_append,
      bytes_cons_of_isAscii (show IsAscii ':' by decide),
      bytes_cons_of_isAscii (show IsAscii '}' by decide), List.length_append, List.length_cons]
    omega
  | .more before key between gap item after rest =>
    have hsize := item.size_le
    have hrest := rest.size_le
    simp only [Entries.size, Entries.text, bytes_append,
      bytes_cons_of_isAscii (show IsAscii ':' by decide),
      bytes_cons_of_isAscii (show IsAscii ',' by decide), List.length_append, List.length_cons]
    omega

end

theorem Arguments.size_le (arguments : Arguments) :
    arguments.size ≤ 2 * (bytes arguments.text).length + 1 := by
  have hsize (argument : Argument) :
      argument.item.size ≤ 2 * (bytes argument.text).length := by
    cases argument with
    | positional item => exact item.size_le
    | keyword name before gap item =>
      have hitem := item.size_le
      simp only [Argument.item, Argument.text, bytes_append,
        bytes_cons_of_isAscii (show IsAscii '=' by decide), List.length_append, List.length_cons]
      omega
  induction arguments with
  | close pad =>
    simp only [Arguments.size]
    omega
  | last before argument after =>
    have hitem := hsize argument
    simp only [Arguments.size, Arguments.text, bytes_append, List.length_append]
    omega
  | more before argument after rest ih =>
    have hitem := hsize argument
    simp only [Arguments.size, Arguments.text, bytes_append,
      bytes_cons_of_isAscii (show IsAscii ',' by decide), List.length_append, List.length_cons]
    omega

end Sizes

/-- A text for the parser: a value between white space, or the arguments of a call. -/
inductive Written where
  | value (before : Ws) (item : Value) (after : Ws)
  | arguments (args : Arguments)

namespace Written

def literals : Written → List Literal
  | value _ item _ => item.literals
  | arguments args => args.literals

/-- The parser returns what is written; at a value inside a longer text it returns the value and
goes on right behind it. -/
def ReadBack : Written → Prop
  | value before item after =>
    parseValue (String.ofList (before.text ++ item.text ++ after.text)) = .ok item.value ∧
      ∀ fuel rest, 2 * (bytes item.text).length ≤ fuel → item.Ends rest →
        Parser.parseValue fuel (bytes item.text ++ rest) = .ok (item.value, rest)
  | arguments args => parseArgs (String.ofList args.text) = .ok args.values

end Written

/-- A text is read back exactly if all of its string literals are ASCII and use no escape but
those that stand for the character behind the backslash, and none between triple quotes. -/
theorem readBack_iff (written : Written) :
    written.ReadBack ↔ ∀ lit ∈ written.literals, lit.AsWritten := by
  cases written with
  | value before item after =>
    have hends : item.Ends (bytes after.text) := by
      refine item.ends_of_delimited fun b hb => .inl (after.isWs_of_mem b ?_)
      exact List.mem_of_mem_head? hb
    constructor
    · rintro ⟨-, hread⟩
      exact ((item.parseValue_iff item.size_le hends).1 (hread _ _ (Nat.le_refl _) hends)).1
    · intro h
      refine ⟨?_, fun fuel rest hfuel hends =>
        (item.parseValue_iff (Nat.le_trans item.size_le hfuel) hends).2 ⟨h, rfl⟩⟩
      have hfuel : item.size ≤ fuelFor (bytes (before.text ++ item.text ++ after.text)) := by
        have hsize := item.size_le
        simp only [fuelFor, bytes_append, List.length_append]
        omega
      have hread := (item.parseValue_iff hfuel hends).2 ⟨h, rfl⟩
      rw [parseValue, String.toList_ofList]
      generalize fuelFor (bytes (before.text ++ item.text ++ after.text)) = fuel at hread ⊢
      rw [bytes_append, bytes_append, List.append_assoc, parseValue_ws, hread]
      exact if_pos (skipWs_end after)
  | arguments args =>
    rw [Written.ReadBack, parseArgs, String.toList_ofList]
    exact args.parseArguments_iff (Nat.le_succ_of_le args.size_le)

namespace Sample

def accented : Literal where
  quote := .single
  triple := false
  pieces := [.plain 'é']
  plain_ne := by simp
  separate := .singleton _
  closes := by simp [Quote.char]

def noWs : Ws := ⟨[], by simp⟩

/-- An accented letter is read as two other letters. -/
theorem accented_not_readBack :
    parseValue "'é'" = .ok (.str "Ã©") ∧
      ¬ (Written.value noWs (.string accented) noWs).ReadBack := by
  constructor
  · rfl
  · rintro ⟨hread, -⟩
    have hread : parseValue "'é'" = .ok (.str "é") := hread
    have hother : parseValue "'é'" = .ok (.str "Ã©") := rfl
    rw [hother] at hread
    exact absurd (Lit.str.inj (Except.ok.inj hread)) (by decide)

end Sample

end PhloTransform.Dbt.PyLit

