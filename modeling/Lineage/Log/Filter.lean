import Lineage.Log.Event
import Lineage.Text.Blank
import Lineage.Text.Number
import Lineage.Text.Pattern.Basic

/-!
# Filters of the log

A filter is a list of directives, separated by commas. A directive gives a threshold to the events whose target begins with its text,
or to all events when it is a level alone, and it may ask for a field that the events must have. Of several directives that apply to an
event the one with the longest text counts. An event is let through when it is at least as loud as the threshold says. Directives about
spans, and about values of fields, are understood, but there are no spans, so they let nothing through.
-/

namespace Lineage.Log

/-- The quietest level that is let through; nothing is when there is none. -/
abbrev Threshold := Option Level

/-- The threshold that a number names. -/
def Threshold.ofNumber? : Nat → Option Threshold
  | 0 => some none
  | 1 => some (some .error)
  | 2 => some (some .warn)
  | 3 => some (some .info)
  | 4 => some (some .debug)
  | 5 => some (some .trace)
  | _ => none

/-- The threshold that a word in small letters names. -/
def Threshold.ofName? : String → Option Threshold
  | "off" => some none
  | "error" => some (some .error)
  | "warn" => some (some .warn)
  | "info" => some (some .info)
  | "debug" => some (some .debug)
  | "trace" => some (some .trace)
  | _ => none

/-- The threshold that a text names: a level in letters of either case, or its number. -/
def threshold? (cs : List Char) : Option Threshold :=
  ((Text.word? (String.ofList cs)).bind Threshold.ofNumber?).or (Threshold.ofName? (String.ofList (cs.map Char.toLower)))

/-- Whether a level is let through. -/
def Threshold.passes (t : Threshold) (l : Level) : Bool := t.any fun quietest => quietest.rank ≤ l.rank

/-- A directive: the threshold of all events whose target begins with some text and that have a field, if one is named. -/
structure Directive where
  targetStart : List Char
  field : Option String
  threshold : Threshold
  deriving DecidableEq, Repr

namespace Directive

/-- Whether a directive applies to an event. -/
def appliesTo (d : Directive) (e : Event) : Bool :=
  d.targetStart.isPrefixOf e.target.toList && d.field.all e.hasField

/-- Whether two directives are about the same events. -/
def sameSubject (d e : Directive) : Bool := d.targetStart = e.targetStart && d.field = e.field

/-- Whether a directive goes before another that applies to the same event: its text is longer, or it alone names a field, or it names
the field that comes later in the order of code points. -/
def goesBefore (d e : Directive) : Bool :=
  if d.targetStart.length ≠ e.targetStart.length then e.targetStart.length < d.targetStart.length
  else
    match d.field, e.field with
    | some a, some b => b < a
    | some _, none => true
    | none, _ => false

end Directive

/-- Directives, no two of which are about the same events. -/
structure Filter where
  directives : List Directive
  deriving DecidableEq, Repr

namespace Filter

/-- The filter with one more directive, which takes the place of one about the same events. -/
def add (f : Filter) (d : Directive) : Filter := ⟨f.directives.filter (!d.sameSubject ·) ++ [d]⟩

/-- The one of two directives that goes before the other. -/
def finer (d e : Directive) : Directive := if e.goesBefore d then e else d

/-- The directive that counts for an event. -/
def chosen? (f : Filter) (e : Event) : Option Directive :=
  match f.directives.filter (·.appliesTo e) with
  | [] => none
  | d :: ds => some (ds.foldl finer d)

/-- Whether an event is let through. -/
def passes (f : Filter) (e : Event) : Bool := (f.chosen? e).any (·.threshold.passes e.level)

/-- The filter that gives a threshold to all targets that begin with some text. -/
def ofTarget (targetStart : String) (t : Threshold) : Filter := ⟨[⟨targetStart.toList, none, t⟩]⟩

/-! ## Reading

A directive is read without the blanks around it, and the places where its parts begin and end are counted in bytes from there. The
parts are then cut out of the text with its blanks. So a blank behind the text belongs to its last part, and blanks before the text
shift all parts. -/

/-- Why a text is no filter. -/
inductive Unusable where
  /-- it is not in the format of filters -/
  | refused
  /-- a part of it would begin or end inside of a character -/
  | torn
  deriving DecidableEq, Repr

/-- The number of bytes of a text. -/
def byteCount : List Char → Nat
  | [] => 0
  | c :: cs => c.utf8Size + byteCount cs

/-- The text after so many bytes. -/
def dropBytes : Nat → List Char → Except Unusable (List Char)
  | 0, cs => .ok cs
  | _ + 1, [] => .error .torn
  | n + 1, c :: cs => if c.utf8Size ≤ n + 1 then dropBytes (n + 1 - c.utf8Size) cs else .error .torn

/-- The text before so many bytes. -/
def takeBytes : Nat → List Char → Except Unusable (List Char)
  | 0, _ => .ok []
  | _ + 1, [] => .error .torn
  | n + 1, c :: cs =>
    if c.utf8Size ≤ n + 1 then (takeBytes (n + 1 - c.utf8Size) cs).map (c :: ·) else .error .torn

/-- The part of a text between two places. -/
def cut (cs : List Char) (first last : Nat) : Except Unusable (List Char) := do
  takeBytes (last - first) (← dropBytes first cs)

/-- What a directive says about a text: something about events, or about spans. -/
inductive Parsed where
  | about (d : Directive)
  | aboutSpans
  deriving DecidableEq, Repr

/-- What must hold of a field: that it is there, or that it has a value. -/
structure FieldMatch where
  name : List Char
  hasValue : Bool
  deriving DecidableEq, Repr

/-- Whether a text describes values: it writes a number, or it is a pattern. -/
def describesValues (cs : List Char) : Bool := Text.isReal cs || Text.Pattern.isPattern cs

/-- What a text between braces says about a field. What follows a second equals sign does not matter. -/
def fieldMatch (cs : List Char) : Except Unusable FieldMatch :=
  let name := cs.takeWhile (· ≠ '=')
  if cs = [] then .error .refused
  else
    match cs.dropWhile (· ≠ '=') with
    | [] => .ok ⟨name, false⟩
    | _ :: more => if describesValues (more.takeWhile (· ≠ '=')) then .ok ⟨name, true⟩ else .error .refused

/-- The threshold that a text ends with, from a place on. Without one everything is let through. -/
def thresholdFrom (text : List Char) (first : Nat) : Except Unusable Threshold := do
  let cs ← dropBytes first text
  if cs = [] then pure (some .trace)
  else
    match threshold? cs with
    | some t => pure t
    | none => .error .refused

/-- The threshold behind a closing bracket, given the place behind it and what is there. -/
def thresholdAfter (text : List Char) (place : Nat) : List Char → Except Unusable Threshold
  | [] => .ok (some .trace)
  | '=' :: _ => thresholdFrom text (place + 1)
  | _ => .error .refused

/-- A directive from the brace before a field on, given whether it is about spans with a name. -/
def parsedField (text target : List Char) (isNamed : Bool) (first : Nat) (cs : List Char) : Except Unusable Parsed :=
  let last := first + byteCount (cs.takeWhile (· ≠ '\x7d'))
  match cs.dropWhile (· ≠ '\x7d') with
  | [] => .error .refused
  | _ :: rest => do
    let field ← fieldMatch (← cut text first last)
    match rest with
    | ']' :: more =>
      let t ← thresholdAfter text (last + 2) more
      pure (if isNamed || field.hasValue then .aboutSpans else .about ⟨target, some (String.ofList field.name), t⟩)
    | _ => .error .refused

/-- A directive from an opening bracket on. -/
def parsedSpan (text target : List Char) (first : Nat) (cs : List Char) : Except Unusable Parsed :=
  let isName (c : Char) : Bool := c ≠ ']' && c ≠ '\x7b'
  let last := first + byteCount (cs.takeWhile isName)
  match cs.dropWhile isName with
  | [] => .error .refused
  | ']' :: rest => do
    let _ ← cut text first last
    let _ ← thresholdAfter text (last + 1) rest
    pure .aboutSpans
  | _ :: rest => do
    let name ← cut text first last
    parsedField text target (name ≠ []) (last + 1) rest

/-- Whether a directive may begin with a character. -/
def isStart (c : Char) : Bool := Text.isAlphanumeric c || c = '-' || c = ':' || c = '_'

/-- Reads a directive. A text that is neither a level nor has an equals sign or a bracket is that of targets. -/
def parsed (text : List Char) : Except Unusable Parsed :=
  match Text.trimmed text with
  | [] => .error .refused
  | '[' :: cs => parsedSpan text [] 1 cs
  | c :: cs =>
    let isTarget (c : Char) : Bool := c ≠ '=' && c ≠ '['
    let last := byteCount ((c :: cs).takeWhile isTarget)
    if !isStart c then .error .refused
    else
      match (c :: cs).dropWhile isTarget with
      | [] =>
        match threshold? text with
        | some t => .ok (.about ⟨[], none, t⟩)
        | none => .ok (.about ⟨text, none, some .trace⟩)
      | '=' :: _ => do
        let target ← cut text 0 last
        pure (.about ⟨target, none, ← thresholdFrom text (last + 1)⟩)
      | _ :: rest => do
        let target ← cut text 0 last
        parsedSpan text target (last + 1) rest

/-- The filter with what a directive says. -/
def addParsed (f : Filter) : Parsed → Filter
  | .about d => f.add d
  | .aboutSpans => f

/-- The filter that a text describes. A text that describes nothing lets errors through. -/
def ofText (s : String) : Except Unusable Filter := do
  let items := (s.toList.splitOn ',').filter (· ≠ [])
  let directives ← items.mapM parsed
  pure (if directives = [] then ofTarget "" (some .error) else directives.foldl addParsed ⟨[]⟩)

end Filter
end Lineage.Log
