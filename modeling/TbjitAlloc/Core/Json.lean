import Mathlib

/-!
# JSON texts

A scanner splits a text into tokens and a parser reads a value from them.  Of
JSON this is the part without escapes, signs, fractions and null.  The tokens of
a value are a function of it, and the parser is the exact inverse: it accepts a
list of tokens if and only if these are the tokens of the value it returns.  To
show that a text is accepted it therefore suffices to scan it, which can be done
piece by piece.
-/

namespace TbjitAlloc.Json

inductive Mark
  | leftBrace
  | rightBrace
  | leftBracket
  | rightBracket
  | colon
  | comma
  deriving DecidableEq, Repr

inductive Token
  | mark (mark : Mark)
  | number (value : ℕ)
  | text (content : List Char)
  | boolean (value : Bool)
  deriving DecidableEq, Repr

/-! ## Scanning -/

/-- What the scanner is in the middle of. -/
inductive Pending
  | nothing
  | number (value : ℕ)
  | text (content : List Char)
  | word (letters : List Char)
  deriving DecidableEq, Repr

def markOf : Char → Option Mark
  | '{' => some .leftBrace
  | '}' => some .rightBrace
  | '[' => some .leftBracket
  | ']' => some .rightBracket
  | ':' => some .colon
  | ',' => some .comma
  | _ => none

def keyword (letters : List Char) : Option Token :=
  if letters = ['t', 'r', 'u', 'e'] then some (.boolean true)
  else if letters = ['f', 'a', 'l', 's', 'e'] then some (.boolean false)
  else none

/-- A character between two tokens: the tokens it completes and what it
begins. -/
def start (c : Char) : Option (List Token × Pending) :=
  if c = ' ' ∨ c = '\n' ∨ c = '\t' ∨ c = '\r' then some ([], .nothing)
  else
    match markOf c with
    | some mark => some ([.mark mark], .nothing)
    | none =>
        if c = '"' then some ([], .text [])
        else if c.isDigit then some ([], .number (c.toNat - '0'.toNat))
        else if c.isLower then some ([], .word [c])
        else none

/-- The same, behind a token that ends here. -/
def startAfter (token : Token) (c : Char) : Option (List Token × Pending) :=
  (start c).map fun next => (token :: next.1, next.2)

def step : Pending → Char → Option (List Token × Pending)
  | .nothing, c => start c
  | .number value, c =>
      if c.isDigit then
        -- A number has no leading zeros.
        if value = 0 then none
        else some ([], .number (10 * value + (c.toNat - '0'.toNat)))
      else startAfter (.number value) c
  | .text content, c =>
      if c = '"' then some ([.text content], .nothing)
      else if c = '\\' ∨ c.toNat < 32 then none
      else some ([], .text (content ++ [c]))
  | .word letters, c =>
      if c.isLower then some ([], .word (letters ++ [c]))
      else (keyword letters).bind fun token => startAfter token c

def scanFrom : Pending → List Char → Option (List Token × Pending)
  | pending, [] => some ([], pending)
  | pending, c :: text =>
      (step pending c).bind fun next =>
        (scanFrom next.2 text).map fun result =>
          (next.1 ++ result.1, result.2)

/-- The token that the end of the text completes. -/
def Pending.finish : Pending → Option (List Token)
  | .nothing => some []
  | .number value => some [.number value]
  | .text _ => none
  | .word letters => (keyword letters).map fun token => [token]

def scan (text : List Char) : Option (List Token) :=
  (scanFrom .nothing text).bind fun result =>
    result.2.finish.map fun tokens => result.1 ++ tokens

/-- A piece of text that stands for whole tokens. -/
def Scans (text : List Char) (tokens : List Token) : Prop :=
  scanFrom .nothing text = some (tokens, .nothing)

instance (text : List Char) (tokens : List Token) :
    Decidable (Scans text tokens) :=
  inferInstanceAs (Decidable (_ = _))

section Scanning

variable {text more : List Char} {tokens others : List Token}

theorem scanFrom_append (pending : Pending) (text more : List Char) :
    scanFrom pending (text ++ more) =
      (scanFrom pending text).bind fun result =>
        (scanFrom result.2 more).map fun next =>
          (result.1 ++ next.1, next.2) := by
  induction text generalizing pending with
  | nil =>
      rw [List.nil_append, scanFrom, Option.bind_some]
      cases scanFrom pending more <;> rfl
  | cons c text ih =>
      rw [List.cons_append, scanFrom, scanFrom]
      cases step pending c with
      | none => rfl
      | some next =>
          rw [Option.bind_some, Option.bind_some, ih]
          cases scanFrom next.2 text with
          | none => rfl
          | some result =>
              simp only [Option.bind_some, Option.map_some, Option.map_map]
              congr 1
              funext last
              simp [List.append_assoc]

theorem scan_of_scans (hscans : Scans text tokens) : scan text = some tokens := by
  rw [scan, hscans]
  exact congrArg some (List.append_nil tokens)

theorem Scans.append (hscans : Scans text tokens) (hmore : Scans more others) :
    Scans (text ++ more) (tokens ++ others) := by
  rw [Scans, scanFrom_append, hscans, Option.bind_some, hmore]
  rfl

/-- The digits of a number are taken as a whole. -/
theorem scanFrom_toDigits (value : ℕ) :
    scanFrom .nothing (Nat.toDigits 10 value) = some ([], .number value) := by
  induction value using Nat.strong_induction_on with
  | _ value ih =>
      rw [Nat.toDigits_eq_if (by decide)]
      split
      · next hsmall =>
          interval_cases value <;> rfl
      · next hlarge =>
          have hpos : value / 10 ≠ 0 := by omega
          have hdigit : value % 10 < 10 := Nat.mod_lt _ (by decide)
          have hstep : ∀ digit < 10,
              step (.number (value / 10)) digit.digitChar =
                some ([], .number (10 * (value / 10) + digit)) := by
            intro digit hlt
            interval_cases digit <;> exact (if_neg hpos)
          rw [scanFrom_append, ih (value / 10) (by omega), Option.bind_some,
            scanFrom, hstep _ hdigit, Nat.div_add_mod]
          rfl

/-- A number ends before a character that is no digit. -/
theorem Scans.number {c : Char} (hdigit : c.isDigit = false)
    (hscans : Scans (c :: text) tokens) (value : ℕ) :
    Scans (Nat.toDigits 10 value ++ c :: text) (.number value :: tokens) := by
  rw [Scans, scanFrom] at hscans
  rw [Scans, scanFrom_append, scanFrom_toDigits, Option.bind_some, scanFrom,
    step, hdigit, startAfter]
  change start c >>= _ = _ at hscans
  cases hstart : start c with
  | none =>
      rw [hstart] at hscans
      cases hscans
  | some next =>
      rw [hstart] at hscans
      change (scanFrom next.2 text).map _ = _ at hscans
      obtain ⟨result, hresult, hpair⟩ := Option.map_eq_some_iff.mp hscans
      obtain ⟨rfl, hpending⟩ := Prod.mk.inj hpair
      simp [hresult, hpending]

end Scanning

/-! ## Values -/

inductive Value
  | number (value : ℕ)
  | boolean (value : Bool)
  | text (content : List Char)
  | array (items : List Value)
  | object (fields : List (List Char × Value))

mutual

/-- The tokens of a value. -/
def Value.tokens : Value → List Token
  | .number value => [.number value]
  | .boolean value => [.boolean value]
  | .text content => [.text content]
  | .array [] => [.mark .leftBracket, .mark .rightBracket]
  | .array (item :: items) =>
      .mark .leftBracket :: (item.tokens ++ itemTokens items)
  | .object [] => [.mark .leftBrace, .mark .rightBrace]
  | .object ((key, value) :: fields) =>
      .mark .leftBrace :: .text key :: .mark .colon ::
        (value.tokens ++ fieldTokens fields)

/-- The rest of an array. -/
def itemTokens : List Value → List Token
  | [] => [.mark .rightBracket]
  | item :: items => .mark .comma :: (item.tokens ++ itemTokens items)

/-- The rest of an object. -/
def fieldTokens : List (List Char × Value) → List Token
  | [] => [.mark .rightBrace]
  | (key, value) :: fields =>
      .mark .comma :: .text key :: .mark .colon ::
        (value.tokens ++ fieldTokens fields)

end

mutual

/-- Read a value; the number bounds the depth of the recursion. -/
def parseValue : ℕ → List Token → Option (Value × List Token)
  | 0, _ => none
  | _ + 1, .number value :: rest => some (.number value, rest)
  | _ + 1, .boolean value :: rest => some (.boolean value, rest)
  | _ + 1, .text content :: rest => some (.text content, rest)
  | _ + 1, .mark .leftBracket :: .mark .rightBracket :: rest =>
      some (.array [], rest)
  | depth + 1, .mark .leftBracket :: rest =>
      (parseValue depth rest).bind fun first =>
        (parseItems depth first.2).map fun others =>
          (.array (first.1 :: others.1), others.2)
  | _ + 1, .mark .leftBrace :: .mark .rightBrace :: rest =>
      some (.object [], rest)
  | depth + 1, .mark .leftBrace :: .text key :: .mark .colon :: rest =>
      (parseValue depth rest).bind fun first =>
        (parseFields depth first.2).map fun others =>
          (.object ((key, first.1) :: others.1), others.2)
  | _ + 1, _ => none

def parseItems : ℕ → List Token → Option (List Value × List Token)
  | 0, _ => none
  | _ + 1, .mark .rightBracket :: rest => some ([], rest)
  | depth + 1, .mark .comma :: rest =>
      (parseValue depth rest).bind fun first =>
        (parseItems depth first.2).map fun others =>
          (first.1 :: others.1, others.2)
  | _ + 1, _ => none

def parseFields :
    ℕ → List Token → Option (List (List Char × Value) × List Token)
  | 0, _ => none
  | _ + 1, .mark .rightBrace :: rest => some ([], rest)
  | depth + 1, .mark .comma :: .text key :: .mark .colon :: rest =>
      (parseValue depth rest).bind fun first =>
        (parseFields depth first.2).map fun others =>
          ((key, first.1) :: others.1, others.2)
  | _ + 1, _ => none

end

/-- Read a text that holds one value and nothing else. -/
def parse (text : List Char) : Option Value :=
  (scan text).bind fun tokens =>
    match parseValue tokens.length tokens with
    | some (value, []) => some value
    | _ => none

/-! ## The parser inverts the tokens -/

/-- No value begins with a closing bracket. -/
theorem tokens_ne_rightBracket (value : Value) (rest tail : List Token) :
    value.tokens ++ rest ≠ .mark .rightBracket :: tail := by
  intro hsame
  cases value with
  | number value => cases hsame
  | boolean value => cases hsame
  | text content => cases hsame
  | array items => cases items <;> cases hsame
  | object fields => cases fields <;> cases hsame

/-- A value, the rest of an array and the rest of an object are read back from
their tokens.  The induction is on the depth, which their length bounds. -/
theorem parse_tokens (depth : ℕ) :
    (∀ (value : Value) rest, value.tokens.length ≤ depth →
      parseValue depth (value.tokens ++ rest) = some (value, rest)) ∧
    (∀ items rest, (itemTokens items).length ≤ depth →
      parseItems depth (itemTokens items ++ rest) = some (items, rest)) ∧
    ∀ fields rest, (fieldTokens fields).length ≤ depth →
      parseFields depth (fieldTokens fields ++ rest) = some (fields, rest) := by
  induction depth with
  | zero =>
      refine ⟨fun value rest hdepth => ?_, fun items rest hdepth => ?_,
        fun fields rest hdepth => ?_⟩
      · cases value with
        | array items => cases items <;> simp [Value.tokens] at hdepth
        | object fields => cases fields <;> simp [Value.tokens] at hdepth
        | _ => simp [Value.tokens] at hdepth
      · cases items <;> simp [itemTokens] at hdepth
      · cases fields <;> simp [fieldTokens] at hdepth
  | succ depth ih =>
      obtain ⟨hvalue, hitems, hfields⟩ := ih
      refine ⟨fun value rest hdepth => ?_, fun items rest hdepth => ?_,
        fun fields rest hdepth => ?_⟩
      · cases value with
        | number value => rfl
        | boolean value => rfl
        | text content => rfl
        | array items =>
            cases items with
            | nil => rfl
            | cons item items =>
                rw [Value.tokens, List.length_cons, List.length_append]
                  at hdepth
                rw [Value.tokens, List.cons_append, List.append_assoc,
                  parseValue, hvalue item _ (by omega), Option.bind_some,
                  hitems items rest (by omega)]
                · rfl
                · exact fun tail => tokens_ne_rightBracket item _ tail
        | object fields =>
            cases fields with
            | nil => rfl
            | cons field fields =>
                obtain ⟨key, value⟩ := field
                rw [Value.tokens, List.length_cons, List.length_cons,
                  List.length_cons, List.length_append] at hdepth
                rw [Value.tokens, List.cons_append, List.cons_append,
                  List.cons_append, List.append_assoc, parseValue,
                  hvalue value _ (by omega), Option.bind_some,
                  hfields fields rest (by omega)]
                rfl
      · cases items with
        | nil => rfl
        | cons item items =>
            rw [itemTokens, List.length_cons, List.length_append] at hdepth
            rw [itemTokens, List.cons_append, List.append_assoc, parseItems,
              hvalue item _ (by omega), Option.bind_some,
              hitems items rest (by omega)]
            rfl
      · cases fields with
        | nil => rfl
        | cons field fields =>
            obtain ⟨key, value⟩ := field
            rw [fieldTokens, List.length_cons, List.length_cons,
              List.length_cons, List.length_append] at hdepth
            rw [fieldTokens, List.cons_append, List.cons_append,
              List.cons_append, List.append_assoc, parseFields,
              hvalue value _ (by omega), Option.bind_some,
              hfields fields rest (by omega)]
            rfl

/-- What is read are the tokens of the value returned. -/
theorem tokens_of_parse (depth : ℕ) :
    (∀ tokens value rest, parseValue depth tokens = some (value, rest) →
      tokens = value.tokens ++ rest) ∧
    (∀ tokens items rest, parseItems depth tokens = some (items, rest) →
      tokens = itemTokens items ++ rest) ∧
    ∀ tokens fields rest, parseFields depth tokens = some (fields, rest) →
      tokens = fieldTokens fields ++ rest := by
  induction depth with
  | zero =>
      refine ⟨fun _ _ _ h => ?_, fun _ _ _ h => ?_, fun _ _ _ h => ?_⟩
      · simp [parseValue] at h
      · simp [parseItems] at h
      · simp [parseFields] at h
  | succ depth ih =>
      obtain ⟨hvalue, hitems, hfields⟩ := ih
      refine ⟨fun tokens value rest h => ?_, fun tokens items rest h => ?_,
        fun tokens fields rest h => ?_⟩
      · unfold parseValue at h
        split at h
        · cases h
        · cases h; rfl
        · cases h; rfl
        · cases h; rfl
        · cases h; rfl
        · next hdepth =>
          obtain rfl := Nat.succ.inj hdepth
          obtain ⟨first, hfirst, h⟩ := Option.bind_eq_some_iff.mp h
          obtain ⟨others, hothers, h⟩ := Option.map_eq_some_iff.mp h
          cases h
          rw [hvalue _ _ _ hfirst, hitems _ _ _ hothers, Value.tokens,
            List.cons_append, List.append_assoc]
        · cases h; rfl
        · next hdepth =>
          obtain rfl := Nat.succ.inj hdepth
          obtain ⟨first, hfirst, h⟩ := Option.bind_eq_some_iff.mp h
          obtain ⟨others, hothers, h⟩ := Option.map_eq_some_iff.mp h
          cases h
          rw [hvalue _ _ _ hfirst, hfields _ _ _ hothers, Value.tokens,
            List.cons_append, List.cons_append, List.cons_append,
            List.append_assoc]
        · cases h
      · unfold parseItems at h
        split at h
        · cases h
        · cases h; rfl
        · next hdepth =>
          obtain rfl := Nat.succ.inj hdepth
          obtain ⟨first, hfirst, h⟩ := Option.bind_eq_some_iff.mp h
          obtain ⟨others, hothers, h⟩ := Option.map_eq_some_iff.mp h
          cases h
          rw [hvalue _ _ _ hfirst, hitems _ _ _ hothers, itemTokens,
            List.cons_append, List.append_assoc]
        · cases h
      · unfold parseFields at h
        split at h
        · cases h
        · cases h; rfl
        · next hdepth =>
          obtain rfl := Nat.succ.inj hdepth
          obtain ⟨first, hfirst, h⟩ := Option.bind_eq_some_iff.mp h
          obtain ⟨others, hothers, h⟩ := Option.map_eq_some_iff.mp h
          cases h
          rw [hvalue _ _ _ hfirst, hfields _ _ _ hothers, fieldTokens,
            List.cons_append, List.cons_append, List.cons_append,
            List.append_assoc]
        · cases h

/-- A text is read as a value exactly if it scans to the tokens of the value. -/
theorem parse_eq_some_iff {text : List Char} {value : Value} :
    parse text = some value ↔ scan text = some value.tokens := by
  rw [parse, Option.bind_eq_some_iff]
  constructor
  · rintro ⟨tokens, hscan, hparse⟩
    split at hparse
    · next hvalue =>
        obtain rfl := Option.some.inj hparse
        rw [hscan, (tokens_of_parse _).1 _ _ _ hvalue, List.append_nil]
    · cases hparse
  · intro hscan
    refine ⟨value.tokens, hscan, ?_⟩
    have hread := (parse_tokens value.tokens.length).1 value [] le_rfl
    rw [List.append_nil] at hread
    rw [hread]

theorem parse_of_scans {text : List Char} {value : Value}
    (hscans : Scans text value.tokens) : parse text = some value :=
  parse_eq_some_iff.mpr (scan_of_scans hscans)

/-! ## Printing -/

def printNumber (value : ℕ) : List Char := Nat.toDigits 10 value

def printBoolean (value : Bool) : List Char :=
  if value then ['t', 'r', 'u', 'e'] else ['f', 'a', 'l', 's', 'e']

def printText (content : List Char) : List Char := '"' :: (content ++ ['"'])

/-- Fields with a separator before all but the first. -/
def printFields (separator : List Char) :
    Bool → List (List Char × List Char) → List Char
  | _, [] => []
  | first, (key, text) :: rest =>
      (if first then [] else separator) ++
        (printText key ++ (':' :: ' ' :: (text ++
          printFields separator false rest)))

/-- A character that ends a number or a word. -/
def ends (c : Char) : Bool := !c.isDigit && !c.isLower

/-- A character that stands for itself between quotes. -/
def plain (c : Char) : Bool := c ≠ '"' && c ≠ '\\' && 32 ≤ c.toNat

/-- The text of a value, whatever ends it. -/
def Shows (text : List Char) (value : Value) : Prop :=
  ∀ c more tokens, ends c = true → Scans (c :: more) tokens →
    Scans (text ++ c :: more) (value.tokens ++ tokens)

section Printing

variable {text more separator content : List Char} {tokens : List Token}
variable {c : Char}

theorem shows_number (value : ℕ) :
    Shows (printNumber value) (.number value) := by
  intro c more tokens hends hscans
  rw [ends, Bool.and_eq_true, Bool.not_eq_true'] at hends
  exact hscans.number hends.1 value

/-- What follows a word that has been recognized. -/
theorem scanFrom_word {letters : List Char} {token : Token}
    (hword : keyword letters = some token) (hends : ends c = true)
    (hscans : Scans (c :: more) tokens) :
    scanFrom (.word letters) (c :: more) = some (token :: tokens, .nothing) := by
  rw [ends, Bool.and_eq_true, Bool.not_eq_true', Bool.not_eq_true'] at hends
  rw [Scans, scanFrom] at hscans
  rw [scanFrom, step, hends.2, hword]
  change ((startAfter token c).bind _) = _
  change (start c).bind _ = _ at hscans
  rw [startAfter]
  cases hstart : start c with
  | none =>
      rw [hstart] at hscans
      cases hscans
  | some next =>
      rw [hstart] at hscans
      obtain ⟨result, hresult, hpair⟩ := Option.map_eq_some_iff.mp hscans
      obtain ⟨rfl, hpending⟩ := Prod.mk.inj hpair
      simp [hresult, hpending]

theorem shows_boolean (value : Bool) :
    Shows (printBoolean value) (.boolean value) := by
  intro c more tokens hends hscans
  have hletters : ∀ letters, scanFrom .nothing letters =
      some ([], .word letters) →
      keyword letters = some (.boolean value) →
        Scans (letters ++ c :: more) (.boolean value :: tokens) := by
    intro letters hscan hword
    rw [Scans, scanFrom_append, hscan, Option.bind_some,
      scanFrom_word hword hends hscans]
    rfl
  cases value with
  | true => exact hletters _ rfl rfl
  | false => exact hletters _ rfl rfl

theorem scanFrom_text {content before : List Char}
    (hplain : content.all plain = true) :
    scanFrom (.text before) content = some ([], .text (before ++ content)) := by
  induction content generalizing before with
  | nil => rw [List.append_nil, scanFrom]
  | cons c content ih =>
      rw [List.all_cons, Bool.and_eq_true] at hplain
      obtain ⟨hc, hrest⟩ := hplain
      simp only [plain, Bool.and_eq_true, decide_eq_true_eq] at hc
      have hquiet : ¬(c = '\\' ∨ c.toNat < 32) := by
        rintro (h | h)
        · exact hc.1.2 h
        · omega
      rw [scanFrom, step, if_neg hc.1.1, if_neg hquiet, Option.bind_some,
        ih hrest]
      simp

/-- Quoted, it is one token. -/
theorem scans_text (hplain : content.all plain = true) :
    Scans (printText content) [.text content] := by
  have hquoted : scanFrom .nothing ('"' :: content) =
      some ([], .text content) := by
    rw [scanFrom]
    change (scanFrom (.text []) content).map _ = _
    rw [scanFrom_text hplain]
    rfl
  rw [printText, ← List.cons_append, Scans, scanFrom_append, hquoted]
  rfl

theorem shows_text (hplain : content.all plain = true) :
    Shows (printText content) (.text content) := by
  intro c more tokens _ hscans
  exact (scans_text hplain).append hscans

/-- A field is its key, a colon and its value. -/
theorem scans_field {key : List Char} {value : Value}
    (hkey : key.all plain = true) (hshows : Shows text value)
    (hends : ends c = true) (hscans : Scans (c :: more) tokens) :
    Scans (printText key ++ (':' :: ' ' :: (text ++ c :: more)))
      (.text key :: .mark .colon :: (value.tokens ++ tokens)) := by
  have hcolon : Scans [':', ' '] [.mark .colon] := by decide
  exact (scans_text hkey).append
    (hcolon.append (hshows c more tokens hends hscans))

/-- The printed fields of an object. -/
structure PrintsField (field : List Char × List Char)
    (entry : List Char × Value) : Prop where
  key : field.1 = entry.1
  plain : entry.1.all plain = true
  value : Shows field.2 entry.2

variable {fields : List (List Char × List Char)}
variable {entries : List (List Char × Value)}

/-- The fields after the first. -/
theorem scans_printFields (hfields : List.Forall₂ PrintsField fields entries)
    (hseparator : Scans (',' :: separator) [.mark .comma])
    (hends : ends c = true)
    (hscans : Scans (c :: more) (.mark .rightBrace :: tokens)) :
    Scans (printFields (',' :: separator) false fields ++ c :: more)
      (fieldTokens entries ++ tokens) := by
  induction hfields with
  | nil => exact hscans
  | @cons field entry fields entries hfield hfields ih =>
      obtain ⟨key, text⟩ := field
      obtain ⟨rfl, hplain, hshows⟩ := hfield
      -- What follows the value begins with a comma or with `c`.
      obtain ⟨next, rest, hnext, hnextEnds⟩ : ∃ next rest,
          printFields (',' :: separator) false fields ++ c :: more =
            next :: rest ∧ ends next = true := by
        cases fields with
        | nil => exact ⟨c, more, rfl, hends⟩
        | cons other fields => exact ⟨',', _, rfl, rfl⟩
      rw [hnext] at ih
      have hrest := scans_field hplain hshows hnextEnds ih
      have hall := hseparator.append hrest
      rw [← hnext] at hall
      simpa [printFields, fieldTokens] using hall

/-- An object whose fields stand between an opening and a closing text. -/
theorem scans_object {opening : List Char} (c : Char) (closing : List Char)
    (hfields : List.Forall₂ PrintsField fields entries)
    (hopening : Scans opening [.mark .leftBrace])
    (hseparator : Scans (',' :: separator) [.mark .comma])
    (hends : ends c = true)
    (hclosing : Scans (c :: closing) [.mark .rightBrace])
    (hscans : Scans more tokens) :
    Scans (opening ++ (printFields (',' :: separator) true fields ++
        (c :: closing ++ more)))
      ((Value.object entries).tokens ++ tokens) := by
  have hend : Scans (c :: (closing ++ more)) (.mark .rightBrace :: tokens) :=
    hclosing.append hscans
  cases hfields with
  | nil => exact hopening.append hend
  | @cons field entry fields entries hfield hfields =>
      obtain ⟨key, text⟩ := field
      obtain ⟨rfl, hplain, hshows⟩ := hfield
      have hothers := scans_printFields hfields hseparator hends hend
      obtain ⟨next, rest, hnext, hnextEnds⟩ : ∃ next rest,
          printFields (',' :: separator) false fields ++
            c :: (closing ++ more) = next :: rest ∧ ends next = true := by
        cases fields with
        | nil => exact ⟨c, _, rfl, hends⟩
        | cons other fields => exact ⟨',', _, rfl, rfl⟩
      rw [hnext] at hothers
      have hall := hopening.append (scans_field hplain hshows hnextEnds hothers)
      rw [← hnext] at hall
      simpa [printFields, Value.tokens] using hall

/-- The same as a value that something follows. -/
theorem shows_object {opening : List Char} (c : Char) (closing : List Char)
    (hfields : List.Forall₂ PrintsField fields entries)
    (hopening : Scans opening [.mark .leftBrace])
    (hseparator : Scans (',' :: separator) [.mark .comma])
    (hends : ends c = true)
    (hclosing : Scans (c :: closing) [.mark .rightBrace]) :
    Shows (opening ++ (printFields (',' :: separator) true fields ++
      c :: closing)) (.object entries) := by
  intro next rest tokens _ hscans
  have hall := scans_object c closing hfields hopening hseparator hends hclosing
    hscans
  rwa [← List.append_assoc, ← List.append_assoc, List.append_assoc opening]
    at hall

end Printing

/-! ## Fields -/

/-- `dict.get`.  Keys that are looked up are not repeated. -/
def Value.get (value : Value) (key : List Char) : Option Value :=
  match value with
  | .object fields => fields.lookup key
  | _ => none

end TbjitAlloc.Json
