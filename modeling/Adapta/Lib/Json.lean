import Adapta.Lib.Text

/-!
# JSON texts

The JSON reader and writer of Python's `json` module, over strings of code points:
`loads` and `dumps`, the latter with `ensure_ascii` as an argument.

The reader is two automata, each a fold with a partial step.  `Lex` cuts the text into
tokens, and `Reader` builds the value from the tokens, with the enclosing containers on
a stack.  As in Python, a repeated key keeps its first place and its last value, `NaN`,
`Infinity` and `-Infinity` are numbers, and two `\u` escapes that form a surrogate pair
give one character.

## What is abstracted

* A float is represented by the text that `repr` gives it.  What reading and writing
  again makes of another text of a float is the parameter `canon`.
* Error messages and positions, and the interpreter's limits on nesting and on the
  digits of an integer.
-/

namespace Lib

/-! ## Numbers -/

/-- A character of a number or of a name. -/
def isWord (c : Char) : Bool := c.isAlphanum || c = '+' || c = '-' || c = '.'

/-- The text after an optional minus sign. -/
def unsigned : List Char → List Char
  | '-' :: w => w
  | w => w

/-- Digits without a needless zero in front. -/
def isDigits (w : List Char) : Bool :=
  w.all Char.isDigit && (w = ['0'] || (w ≠ [] && w.head? ≠ some '0'))

/-- `[eE][-+]?[0-9]+`. -/
def isExponent : List Char → Bool
  | e :: w =>
      let d := match w with
        | '+' :: d | '-' :: d => d
        | d => d
      (e = 'e' || e = 'E') && d ≠ [] && d.all Char.isDigit
  | [] => false

/-- A fraction, an exponent, or one after the other. -/
def isFraction (w : List Char) : Bool :=
  match w with
  | '.' :: t =>
      let rest := t.dropWhile Char.isDigit
      t.takeWhile Char.isDigit ≠ [] && (rest = [] || isExponent rest)
  | _ => isExponent w

/-- The three numbers that have names. -/
def floatNames : List String := ["NaN", "Infinity", "-Infinity"]

/-- The text is that of a float. -/
def isFloat (w : List Char) : Bool :=
  w.all isWord && (w ∈ floatNames.map String.toList ||
    (isDigits ((unsigned w).takeWhile Char.isDigit) &&
      isFraction ((unsigned w).dropWhile Char.isDigit)))

/-- The text of a float. -/
structure FloatText where
  text : List Char
  ok : isFloat text = true
deriving DecidableEq, Repr

/-! ## Values -/

inductive Json where
  | null
  | bool (b : Bool)
  | int (n : Int)
  | float (x : FloatText)
  | str (s : Str)
  | arr (l : List Json)
  | obj (l : List (Str × Json))
deriving Repr

/-- The fields of a `dict`. -/
abbrev Fields := List (Str × Json)

/-- `d[k] = v`. -/
def setField (l : Fields) (k : Str) (v : Json) : Fields :=
  if l.any (·.1 = k) then l.map fun x ↦ if x.1 = k then (k, v) else x else l ++ [(k, v)]

/-- `d.get(k)`. -/
def getField (l : Fields) (k : Str) : Option Json := (l.find? (·.1 = k)).map Prod.snd

/-! ## Writing -/

/-- The decimal text of an integer. -/
def intText : Int → List Char
  | .ofNat n => Nat.toDigits 10 n
  | .negSucc n => '-' :: Nat.toDigits 10 (n + 1)

/-- A hexadecimal digit, in lower case. -/
def hexDigit (n : Nat) : Char := Nat.digitChar n

/-- `\uXXXX`. -/
def unitText (n : Nat) : Str :=
  [.char '\\', .char 'u', .char (hexDigit (n / 4096 % 16)), .char (hexDigit (n / 256 % 16)),
    .char (hexDigit (n / 16 % 16)), .char (hexDigit (n % 16))]

/-- The letter of a short escape. -/
def shortEscape : Code → Option Char
  | .char '"' => some '"'
  | .char '\\' => some '\\'
  | .char '\n' => some 'n'
  | .char '\r' => some 'r'
  | .char '\t' => some 't'
  | .char '\x0c' => some 'f'
  | .char '\x08' => some 'b'
  | _ => none

/-- One code point inside a string. -/
def escape (ascii : Bool) (c : Code) : Str :=
  match shortEscape c with
  | some e => [.char '\\', .char e]
  | none =>
      if c.ord < 0x20 then unitText c.ord
      else if ascii && 0x7F ≤ c.ord then
        if c.ord < 0x10000 then unitText c.ord
        else
          unitText (0xD800 + (c.ord - 0x10000) / 0x400) ++
            unitText (0xDC00 + (c.ord - 0x10000) % 0x400)
      else [c]

/-- A string in quotes. -/
def quote (ascii : Bool) (s : Str) : Str :=
  .char '"' :: s.flatMap (escape ascii) ++ [.char '"']

mutual

/-- `json.dumps`. -/
def dumps (ascii : Bool) : Json → Str
  | .null => str "null"
  | .bool true => str "true"
  | .bool false => str "false"
  | .int n => (intText n).map .char
  | .float x => x.text.map .char
  | .str s => quote ascii s
  | .arr [] => str "[]"
  | .arr (v :: l) => .char '[' :: (dumps ascii v ++ dumpsItems ascii l) ++ [.char ']']
  | .obj [] => str "\x7b\x7d"
  | .obj ((k, v) :: l) =>
      .char '\x7b' :: (quote ascii k ++ str ": " ++ dumps ascii v ++ dumpsFields ascii l) ++
        [.char '\x7d']

/-- The items after the first. -/
def dumpsItems (ascii : Bool) : List Json → Str
  | [] => []
  | v :: l => str ", " ++ dumps ascii v ++ dumpsItems ascii l

/-- The fields after the first. -/
def dumpsFields (ascii : Bool) : List (Str × Json) → Str
  | [] => []
  | (k, v) :: l =>
      str ", " ++ quote ascii k ++ str ": " ++ dumps ascii v ++ dumpsFields ascii l

end

/-! ## Tokens -/

inductive Token where
  | lbrack
  | rbrack
  | lbrace
  | rbrace
  | comma
  | colon
  | str (s : Str)
  /-- A number, `true`, `false` or `null`. -/
  | lit (v : Json)

/-- A part of a string: a code point as it is, or the number of a `\u` escape. -/
inductive Part where
  | raw (c : Code)
  | unit (n : Nat)

/-- The code point with a given number below `0x10000`. -/
def ofUnit (n : Nat) : Code :=
  if h : 0xD800 ≤ n ∧ n < 0xE000 then .surrogate ⟨n - 0xD800, by omega⟩ else .char (Char.ofNat n)

/-- The string that is made of parts: escapes that form a surrogate pair are one character. -/
def join : List Part → Str
  | [] => []
  | .raw c :: l => c :: join l
  | .unit h :: .unit n :: l =>
      if 0xD800 ≤ h ∧ h < 0xDC00 ∧ 0xDC00 ≤ n ∧ n < 0xE000 then
        .char (Char.ofNat (0x10000 + (h - 0xD800) * 0x400 + (n - 0xDC00))) :: join l
      else ofUnit h :: join (.unit n :: l)
  | .unit n :: l => ofUnit n :: join l

/-- Where the lexer is. -/
inductive Lex where
  | idle
  /-- In a number or a name. -/
  | word (w : List Char)
  /-- In a string. -/
  | str (l : List Part)
  /-- After a backslash. -/
  | esc (l : List Part)
  /-- In a `\u` escape, with `n + 1` digits to come. -/
  | hex (l : List Part) (n v : Nat)

/-- White space between tokens. -/
def isBlank : Char → Bool
  | ' ' | '\t' | '\n' | '\r' => true
  | _ => false

def punctuation : Char → Option Token
  | '[' => some .lbrack
  | ']' => some .rbrack
  | '\x7b' => some .lbrace
  | '\x7d' => some .rbrace
  | ',' => some .comma
  | ':' => some .colon
  | _ => none

/-- The character of a short escape. -/
def unescape : Char → Option Char
  | '"' => some '"'
  | '\\' => some '\\'
  | '/' => some '/'
  | 'n' => some '\n'
  | 'r' => some '\r'
  | 't' => some '\t'
  | 'f' => some '\x0c'
  | 'b' => some '\x08'
  | _ => none

def hexValue (c : Char) : Option Nat :=
  if '0' ≤ c ∧ c ≤ '9' then some (c.toNat - 48)
  else if 'a' ≤ c ∧ c ≤ 'f' then some (c.toNat - 87)
  else if 'A' ≤ c ∧ c ≤ 'F' then some (c.toNat - 55)
  else none

/-- The integer with a given text. -/
def toInt : List Char → Int
  | '-' :: d => -(Nat.ofDigitChars 10 d 0)
  | d => Nat.ofDigitChars 10 d 0

section Reading

variable (canon : FloatText → FloatText)

/-- The value of a number or a name. -/
def wordValue (w : List Char) : Option Json :=
  if w = "null".toList then some .null
  else if w = "true".toList then some (.bool true)
  else if w = "false".toList then some (.bool false)
  else if isDigits (unsigned w) then some (.int (toInt w))
  else if h : isFloat w = true then some (.float (canon ⟨w, h⟩))
  else none

/-- One code point between tokens. -/
def Lex.start (toks : List Token) : Code → Option (List Token × Lex)
  | .char c =>
      if isBlank c then some (toks, .idle)
      else if c = '"' then some (toks, .str [])
      else if isWord c then some (toks, .word [c])
      else (punctuation c).map fun t ↦ (toks ++ [t], .idle)
  | .surrogate _ => none

/-- The tokens when the text ends here. -/
def Lex.finish : List Token × Lex → Option (List Token)
  | (toks, .idle) => some toks
  | (toks, .word w) => (wordValue canon w).map fun v ↦ toks ++ [.lit v]
  | _ => none

/-- One code point of the text. -/
def Lex.step (s : List Token × Lex) (c : Code) : Option (List Token × Lex) :=
  match s.2, c with
  | .idle, c => start s.1 c
  | .word w, .char c =>
      if isWord c then some (s.1, .word (w ++ [c]))
      else (finish canon s).bind fun toks ↦ start toks (.char c)
  | .word _, .surrogate _ => none
  | .str l, .char '"' => some (s.1 ++ [.str (join l)], .idle)
  | .str l, .char '\\' => some (s.1, .esc l)
  | .str l, c => if c.ord < 0x20 then none else some (s.1, .str (l ++ [.raw c]))
  | .esc l, .char 'u' => some (s.1, .hex l 3 0)
  | .esc l, .char c => (unescape c).map fun d ↦ (s.1, .str (l ++ [.raw (.char d)]))
  | .esc _, .surrogate _ => none
  | .hex l n v, .char c => (hexValue c).map fun d ↦
      (s.1, match n with
        | 0 => .str (l ++ [.unit (16 * v + d)])
        | n + 1 => .hex l n (16 * v + d))
  | .hex _ _ _, .surrogate _ => none

/-- The tokens of a text. -/
def lex (s : Str) : Option (List Token) :=
  (s.foldlM (Lex.step canon) ([], .idle)).bind (Lex.finish canon)

end Reading

/-! ## Reading -/

/-- A container that waits for a value. -/
inductive Frame where
  | arr (l : List Json)
  | obj (l : Fields) (k : Str)

/-- What the reader has just read, or what must come. -/
inductive Expect where
  | value
  /-- After `[` and after an item. -/
  | firstItem
  | item (l : List Json)
  /-- After `{`, after a field, after the comma that follows one, and after a key. -/
  | firstKey
  | field (l : Fields)
  | key (l : Fields)
  | colon (l : Fields) (k : Str)
  | done (v : Json)

structure Reader where
  stack : List Frame
  now : Expect

namespace Reader

/-- A value is complete. -/
def deliver (v : Json) : List Frame → Reader
  | [] => ⟨[], .done v⟩
  | .arr l :: st => ⟨st, .item (l ++ [v])⟩
  | .obj l k :: st => ⟨st, .field (setField l k v)⟩

/-- The first token of a value. -/
def begin (st : List Frame) : Token → Option Reader
  | .lit v => some (deliver v st)
  | .str s => some (deliver (.str s) st)
  | .lbrack => some ⟨st, .firstItem⟩
  | .lbrace => some ⟨st, .firstKey⟩
  | _ => none

def step (r : Reader) (t : Token) : Option Reader :=
  match r.now, t with
  | .value, t => begin r.stack t
  | .firstItem, .rbrack => some (deliver (.arr []) r.stack)
  | .firstItem, t => begin (.arr [] :: r.stack) t
  | .item l, .comma => some ⟨.arr l :: r.stack, .value⟩
  | .item l, .rbrack => some (deliver (.arr l) r.stack)
  | .firstKey, .rbrace => some (deliver (.obj []) r.stack)
  | .firstKey, .str k => some ⟨r.stack, .colon [] k⟩
  | .key l, .str k => some ⟨r.stack, .colon l k⟩
  | .colon l k, .colon => some ⟨.obj l k :: r.stack, .value⟩
  | .field l, .comma => some ⟨r.stack, .key l⟩
  | .field l, .rbrace => some (deliver (.obj l) r.stack)
  | _, _ => none

def result (r : Reader) : Option Json :=
  match r.now with
  | .done v => some v
  | _ => none

end Reader

/-- `json.loads`, or `none` if it raises. -/
def loads (canon : FloatText → FloatText) (s : Str) : Option Json :=
  (lex canon s).bind fun toks ↦
    (toks.foldlM Reader.step ⟨[], .value⟩).bind Reader.result

end Lib
