import Gosub.Text.Terminal

/-!
# Log records

A record has a level, the spans it was made in, a message and fields. Records are made whether or
not they show: a threshold decides, record by record and span by span, what is written.
-/

namespace Gosub

inductive Level where
  | error
  | warn
  | info
  | debug
  | trace
  deriving DecidableEq

namespace Level

def rank : Level → Nat
  | error => 0
  | warn => 1
  | info => 2
  | debug => 3
  | trace => 4

/-- The name, in five columns. -/
def label : Level → String
  | error => "ERROR"
  | warn => " WARN"
  | info => " INFO"
  | debug => "DEBUG"
  | trace => "TRACE"

/-- Whether a threshold lets a level through. -/
def shownAt (level threshold : Level) : Bool := level.rank ≤ threshold.rank

end Level

/-- An activity during which records are made. -/
structure Span where
  level : Level
  text : String
  deriving DecidableEq

structure Record where
  level : Level
  /-- Outermost first. -/
  spans : List Span
  message : String
  fields : List (String × String)
  deriving DecidableEq

namespace Record

def of (level : Level) (message : String) (fields : List (String × String)) : Record :=
  ⟨level, [], message, fields⟩

def within (span : Span) (r : Record) : Record := { r with spans := span :: r.spans }

/-- The spans that show, joined by colons. -/
def renderSpans (threshold : Level) (r : Record) : String :=
  let shown := r.spans.filter fun s => s.level.shownAt threshold
  String.join (shown.map fun s => s.text ++ ":") ++ (if shown.isEmpty then "" else " ")

/-- The message and the fields. Only the message is kept from steering a terminal. -/
def renderBody (r : Record) : String :=
  let fields := r.fields.map fun f => f.1 ++ "=" ++ f.2
  " ".intercalate (if r.message.isEmpty then fields else Text.disarmed r.message :: fields)

def render (threshold : Level) (r : Record) : String :=
  r.level.label ++ " " ++ r.renderSpans threshold ++ r.renderBody

end Record

/-- Something written: a record, or plain text. -/
inductive Output where
  | record (r : Record)
  | text (line : String)
  deriving DecidableEq

namespace Output

def log (level : Level) (message : String) (fields : List (String × String)) : Output :=
  .record (.of level message fields)

def within (span : Span) : Output → Output
  | record r => record (r.within span)
  | text line => text line

/-- What is written of an output, if it shows. -/
def render? (threshold : Level) : Output → Option String
  | record r => if r.level.shownAt threshold then some (r.render threshold) else none
  | text line => some line

end Output

end Gosub
