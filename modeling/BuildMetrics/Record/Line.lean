import BuildMetrics.Record

/-!
# Lines of the proxy

A proxy takes one record a line: the quoted name, the value, the time, the quoted source and the
quoted tags. Names and the names of tags have an alphabet of their own, and any other character
of theirs becomes a hyphen. The source and the values of tags may hold anything; quotes and
newlines in them are escaped, so a record never takes more than one line.
-/

namespace BuildMetrics.Record

/-- The letters and digits of ASCII. -/
def isAlnum (c : Char) : Bool :=
  ('a' ≤ c && c ≤ 'z') || ('A' ≤ c && c ≤ 'Z') || ('0' ≤ c && c ≤ '9')

/-- The characters of a name. -/
def isNameChar (c : Char) : Bool :=
  isAlnum c || c == '-' || c == '_' || c == '.' || c == '/' || c == '~'

/-- The characters of the name of a tag. -/
def isKeyChar (c : Char) : Bool :=
  isAlnum c || c == '-' || c == '_' || c == '.'

/-- The characters with a hyphen for each that is not kept. -/
def hyphenate (keeps : Char → Bool) (cs : List Char) : List Char :=
  cs.map fun c => if keeps c then c else '-'

/-- A character of a quoted text. -/
def quoteChar (c : Char) : List Char :=
  if c = '"' then ['\\', '"']
  else if c = '\n' then ['\\', 'n']
  else [c]

/-- A text between quotes. -/
def quoted (s : String) : List Char :=
  '"' :: (s.toList.flatMap quoteChar ++ ['"'])

/-- A tag, with a blank in front of it. -/
def tagChars (key value : String) : List Char :=
  ' ' :: '"' :: (hyphenate isKeyChar key.toList ++ '"' :: '=' :: quoted value)

/-- The characters of a record's line, without the newline at its end. -/
def lineChars (r : Record) : List Char :=
  '"' :: (hyphenate isNameChar r.name.toList ++ '"' :: ' ' :: (r.valueChars ++
    ' ' :: (Decimal.intChars r.time.toInt ++ " source=".toList ++ quoted r.source ++
      r.tags.entries.flatMap fun (key, value) => tagChars key value)))

/-- The line of a record, without the newline at its end. -/
def line (r : Record) : String := String.ofList r.lineChars

end BuildMetrics.Record
