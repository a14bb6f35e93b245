import PgKronika.CheckedArith
import PgKronika.Utf8Text

/-! The persisted position in a tailed log file, as the text of its state file. -/
namespace PgKronika

open ByteCodec CheckedArith Utf8Text

inductive ParserKind
  | stderr | csvlog | unknown
  deriving DecidableEq

def ParserKind.parse (value : List Char) : Option ParserKind :=
  if value = "stderr".toList then some .stderr
  else if value = "csvlog".toList then some .csvlog
  else if value = "unknown".toList then some .unknown
  else none

def ParserKind.asStr : ParserKind → List Char
  | .stderr => "stderr".toList
  | .csvlog => "csvlog".toList
  | .unknown => "unknown".toList

/-- Position of a tailed log file; a path is the bytes that the system knows it by. -/
structure TailState where
  path : Bytes
  dev : UInt64
  inode : UInt64
  offset : UInt64
  parserKind : ParserKind
  skipUntilNewline : Bool
  deriving DecidableEq

def decimal (n : UInt64) : List Char := Nat.toDigits 10 n.toNat

def stateLine (key value : List Char) : List Char := key ++ '=' :: value ++ ['\n']

def TailState.render (s : TailState) : List Char :=
  stateLine "version".toList "1".toList ++
    stateLine "path".toList (fromUtf8Lossy s.path).toList ++
    stateLine "dev".toList (decimal s.dev) ++
    stateLine "inode".toList (decimal s.inode) ++
    stateLine "offset".toList (decimal s.offset) ++
    stateLine "parser".toList s.parserKind.asStr ++
    stateLine "skip_until_newline".toList (if s.skipUntilNewline then "true" else "false").toList

/-- A line without the carriage return in front of its newline. -/
def stripReturn (line : List Char) : List Char :=
  if line.getLast? = some '\r' then line.dropLast else line

/-- Lines of a text; only a newline ends a line, and the text behind the last one counts when it
is not empty. -/
def textLines : ℕ → List Char → List (List Char)
  | 0, _ => []
  | fuel+1, text =>
    if text = [] then []
    else
      match text.dropWhile (· ≠ '\n') with
      | [] => [text]
      | _::rest => stripReturn (text.takeWhile (· ≠ '\n')) :: textLines fuel rest

def splitOnce (line : List Char) : Option (List Char × List Char) :=
  match line.dropWhile (· ≠ '=') with
  | [] => none
  | _::value => some (line.takeWhile (· ≠ '='),value)

/-- A decimal number of 64 bits. -/
def parseU64 (value : List Char) : Option UInt64 :=
  let digits := match value with
    | '+'::rest => rest
    | _ => value
  if digits = [] ∨ ¬digits.all Char.isDigit then none
  else
    let n := Nat.ofDigitChars 10 digits 0
    if n ≤ u64Max then some (UInt64.ofNat n) else none

/-- The fields found so far. -/
structure StateFields where
  path : Option Bytes
  dev : Option UInt64
  inode : Option UInt64
  offset : Option UInt64
  parserKind : Option ParserKind
  skipUntilNewline : Bool

def StateFields.default : StateFields := ⟨none,none,none,none,none,false⟩

def StateFields.read (fields : StateFields) (line : List Char) : StateFields :=
  match splitOnce line with
  | none => fields
  | some (key,value) =>
    if key = "path".toList then { fields with path := some (utf8Chars value) }
    else if key = "dev".toList then { fields with dev := parseU64 value }
    else if key = "inode".toList then { fields with inode := parseU64 value }
    else if key = "offset".toList then { fields with offset := parseU64 value }
    else if key = "parser".toList then { fields with parserKind := ParserKind.parse value }
    else if key = "skip_until_newline".toList then
      { fields with skipUntilNewline := decide (value = "true".toList) }
    else fields

def StateFields.state (fields : StateFields) : Option TailState :=
  fields.path.bind fun path => fields.dev.bind fun dev => fields.inode.bind fun inode =>
    fields.offset.bind fun offset => fields.parserKind.bind fun parserKind =>
      some ⟨path,dev,inode,offset,parserKind,fields.skipUntilNewline⟩

def parseState (text : List Char) : Option TailState :=
  ((textLines text.length text).foldl StateFields.read .default).state

theorem takeWhile_append_cons {p : Char → Bool} {a : List Char} {c : Char} {b : List Char}
    (ha : ∀ x ∈ a, p x = true) (hc : p c = false) :
    (a ++ c :: b).takeWhile p = a ∧ (a ++ c :: b).dropWhile p = c :: b := by
  induction a with
  | nil => simp [hc]
  | cons x a ih =>
    have hx := ha x List.mem_cons_self
    obtain ⟨htake,hdrop⟩ := ih fun y hy => ha y (List.mem_cons_of_mem _ hy)
    simp [hx,htake,hdrop]

/-- A line without line breaks is read off its text. -/
theorem textLines_cons {fuel : ℕ} {line rest : List Char} (hline : '\n' ∉ line)
    (hreturn : line.getLast? ≠ some '\r') :
    textLines (fuel+1) (line ++ '\n' :: rest) = line :: textLines fuel rest := by
  obtain ⟨htake,hdrop⟩ := @takeWhile_append_cons (· ≠ '\n') line '\n' rest
    (fun x hx => by
      have hne : x ≠ '\n' := fun he => hline (he ▸ hx)
      simpa using hne) (by simp)
  rw [textLines,if_neg (by simp),hdrop,htake]
  dsimp only
  rw [stripReturn,if_neg hreturn]

theorem splitOnce_line {key value : List Char} (hkey : '=' ∉ key) :
    splitOnce (key ++ '=' :: value) = some (key,value) := by
  obtain ⟨htake,hdrop⟩ := @takeWhile_append_cons (· ≠ '=') key '=' value
    (fun x hx => by
      have hne : x ≠ '=' := fun he => hkey (he ▸ hx)
      simpa using hne) (by simp)
  rw [splitOnce,hdrop,htake]

theorem parseU64_decimal (n : UInt64) : parseU64 (decimal n) = some n := by
  have hdigit : ∀ c ∈ decimal n, c.isDigit = true := fun c hc =>
    Nat.isDigit_of_mem_toDigits (by decide) (by decide) hc
  have hne : decimal n ≠ [] := Nat.toDigits_ne_nil
  have hplus : ∀ rest, decimal n ≠ '+'::rest := fun rest heq => by
    have hbad := hdigit '+' (by rw [heq]; exact List.mem_cons_self)
    exact absurd hbad (by decide)
  rw [parseU64]
  · rw [if_neg (by simpa [hne] using hdigit)]
    dsimp only
    rw [decimal,Nat.ofDigitChars_ten_toDigits,if_pos (by have h := n.toNat_lt; rw [u64Max]; omega)]
    simp
  · exact fun rest heq => hplus rest heq

theorem ParserKind.parse_asStr (kind : ParserKind) : ParserKind.parse kind.asStr = some kind := by
  cases kind <;> decide

/-- A path that the state file can hold: text without a line break at its end or inside. -/
def PathPersists (path : Bytes) : Prop :=
  ∃ text : List Char, utf8Chars text = path ∧ '\n' ∉ text ∧ text.getLast? ≠ some '\r'

/-- A line of the state file whose value has no line break. -/
theorem stateLine_read {fuel : ℕ} {fields : StateFields} {key value rest : List Char}
    (hbreak : '\n' ∉ key ++ '=' :: value)
    (hreturn : (key ++ '=' :: value).getLast? ≠ some '\r') :
    (textLines (fuel+1) (stateLine key value ++ rest)).foldl StateFields.read fields =
      (textLines fuel rest).foldl StateFields.read
        (fields.read (key ++ '=' :: value)) := by
  have hline : stateLine key value ++ rest = (key ++ '=' :: value) ++ '\n' :: rest := by
    simp [stateLine]
  rw [hline,textLines_cons hbreak hreturn]
  rfl

theorem decimal_line {key : List Char} (hkey : '\n' ∉ key) (n : UInt64) :
    '\n' ∉ key ++ '=' :: decimal n ∧ (key ++ '=' :: decimal n).getLast? ≠ some '\r' := by
  have hdigit : ∀ c ∈ decimal n, c.isDigit = true := fun c hc =>
    Nat.isDigit_of_mem_toDigits (by decide) (by decide) hc
  constructor
  · intro hmem
    rcases List.mem_append.mp hmem with hmem | hmem
    · exact hkey hmem
    · rcases List.mem_cons.mp hmem with hmem | hmem
      · cases hmem
      · exact absurd (hdigit _ hmem) (by decide)
  · have hne : decimal n ≠ [] := Nat.toDigits_ne_nil
    intro hlast
    rw [List.append_cons,List.getLast?_append_of_ne_nil _ hne] at hlast
    exact absurd (hdigit _ (List.mem_of_getLast? hlast)) (by decide)

/-- The known keys, one line each. -/
theorem StateFields.read_line (fields : StateFields) {key value : List Char} (hkey : '=' ∉ key) :
    fields.read (key ++ '=' :: value) =
      if key = "path".toList then { fields with path := some (utf8Chars value) }
      else if key = "dev".toList then { fields with dev := parseU64 value }
      else if key = "inode".toList then { fields with inode := parseU64 value }
      else if key = "offset".toList then { fields with offset := parseU64 value }
      else if key = "parser".toList then { fields with parserKind := ParserKind.parse value }
      else if key = "skip_until_newline".toList then
        { fields with skipUntilNewline := decide (value = "true".toList) }
      else fields := by
  rw [read,splitOnce_line hkey]

theorem StateFields.read_version (fields : StateFields) (value : List Char) :
    fields.read ("version".toList ++ '=' :: value) = fields := by
  rw [read_line _ (by decide),if_neg (by decide),if_neg (by decide),if_neg (by decide),
    if_neg (by decide),if_neg (by decide),if_neg (by decide)]

theorem StateFields.read_path (fields : StateFields) (value : List Char) :
    fields.read ("path".toList ++ '=' :: value) =
      { fields with path := some (utf8Chars value) } := by
  rw [read_line _ (by decide),if_pos rfl]

theorem StateFields.read_dev (fields : StateFields) (value : List Char) :
    fields.read ("dev".toList ++ '=' :: value) =
      { fields with dev := parseU64 value } := by
  rw [read_line _ (by decide),if_neg (by decide),if_pos rfl]

theorem StateFields.read_inode (fields : StateFields) (value : List Char) :
    fields.read ("inode".toList ++ '=' :: value) =
      { fields with inode := parseU64 value } := by
  rw [read_line _ (by decide),if_neg (by decide),if_neg (by decide),if_pos rfl]

theorem StateFields.read_offset (fields : StateFields) (value : List Char) :
    fields.read ("offset".toList ++ '=' :: value) =
      { fields with offset := parseU64 value } := by
  rw [read_line _ (by decide),if_neg (by decide),if_neg (by decide),if_neg (by decide),if_pos rfl]

theorem StateFields.read_parser (fields : StateFields) (value : List Char) :
    fields.read ("parser".toList ++ '=' :: value) =
      { fields with parserKind := ParserKind.parse value } := by
  rw [read_line _ (by decide),if_neg (by decide),if_neg (by decide),if_neg (by decide),
    if_neg (by decide),if_pos rfl]

theorem StateFields.read_skip (fields : StateFields) (value : List Char) :
    fields.read ("skip_until_newline".toList ++ '=' :: value) =
      { fields with skipUntilNewline := decide (value = "true".toList) } := by
  rw [read_line _ (by decide),if_neg (by decide),if_neg (by decide),if_neg (by decide),
    if_neg (by decide),if_neg (by decide),if_pos rfl]

/-- A state with a persistable path is the one that its state file is read as. -/
theorem TailState.parse_render {s : TailState} (h : PathPersists s.path) :
    parseState s.render = some s := by
  obtain ⟨text,htext,hbreak,hreturn⟩ := h
  have hpath : (fromUtf8Lossy s.path).toList = text := by
    rw [fromUtf8Lossy,← htext,lossyChars_utf8Chars (le_refl _),String.toList_ofList]
  have hpathLine : '\n' ∉ "path".toList ++ '=' :: text ∧
      ("path".toList ++ '=' :: text).getLast? ≠ some '\r' := by
    constructor
    · intro hmem
      rcases List.mem_append.mp hmem with hmem | hmem
      · exact absurd hmem (by decide)
      · rcases List.mem_cons.mp hmem with hmem | hmem
        · cases hmem
        · exact hbreak hmem
    · cases htext' : text with
      | nil => decide
      | cons c cs =>
        rw [htext'] at hreturn
        rw [List.append_cons,List.getLast?_append_of_ne_nil _ (List.cons_ne_nil c cs)]
        exact hreturn
  obtain ⟨fuel,hfuel⟩ : ∃ fuel, s.render.length = fuel+7 := by
    refine ⟨s.render.length-7,?_⟩
    have hlen : 7 ≤ s.render.length := by
      simp only [render,stateLine,List.length_append,List.length_singleton]
      omega
    omega
  have hdev := @decimal_line "dev".toList (by decide) s.dev
  have hinode := @decimal_line "inode".toList (by decide) s.inode
  have hoffset := @decimal_line "offset".toList (by decide) s.offset
  rw [parseState,hfuel,render,hpath]
  simp only [List.append_assoc]
  rw [stateLine_read (by decide) (by decide),stateLine_read hpathLine.1 hpathLine.2,
    stateLine_read hdev.1 hdev.2,stateLine_read hinode.1 hinode.2,
    stateLine_read hoffset.1 hoffset.2,
    stateLine_read (by cases s.parserKind <;> decide) (by cases s.parserKind <;> decide)]
  rw [← List.append_nil (stateLine "skip_until_newline".toList _),
    stateLine_read (by cases s.skipUntilNewline <;> decide)
      (by cases s.skipUntilNewline <;> decide)]
  have hend : textLines fuel [] = [] := by cases fuel <;> rfl
  rw [hend,List.foldl_nil,StateFields.read_version,StateFields.read_path,StateFields.read_dev,
    StateFields.read_inode,StateFields.read_offset,StateFields.read_parser,StateFields.read_skip,
    parseU64_decimal,parseU64_decimal,parseU64_decimal,ParserKind.parse_asStr,htext]
  cases hskip : s.skipUntilNewline with
  | false =>
    rw [if_neg (by decide),decide_eq_false (by decide)]
    exact congrArg some (by rw [← hskip])
  | true =>
    rw [if_pos rfl,decide_eq_true rfl]
    exact congrArg some (by rw [← hskip])

end PgKronika
