/-!
# Plain text

A text that is meant for a log and not for a screen is shown without its control characters and
without the escape sequences that would colour it or move a cursor. White space stays.

An escape sequence begins with the escape character. What follows says how it ends: a control
sequence ends with a letter or another sign from `@` on, a command to the system with a bell, the
other strings with a string terminator. Two characters cancel any sequence, and an escape character
begins the next one wherever it stands. White space that breaks into a sequence is shown, and so is
the text after it, until a control character takes the sequence up again.
-/

namespace Nes.PlainText

/-! ## Characters -/

/-- White space that is a control character. -/
def isLayout (c : Char) : Bool := c == '\t' || c == '\n' || c == '\x0c' || c == '\r'

/-- Whether a character is shown outside escape sequences. -/
def isShown (c : Char) : Bool := isLayout c || (' ' ≤ c && c != '\x7f')

/-- The character that begins a sequence. -/
def escape : Char := '\x1b'

/-- The character that ends a command to the system. -/
def bell : Char := '\x07'

/-- Whether a character breaks off any escape sequence. -/
def cancels (c : Char) : Bool := c == '\x18' || c == '\x1a'

/-- Whether a character terminates a string. The terminator is a byte, so a character that takes
    several bytes terminates if one of them is that byte. -/
def terminates (c : Char) : Bool := (String.utf8EncodeChar c).contains 0x9c

/-! ## Sequences -/

/-- An escape sequence, as far as it has been read. -/
inductive Sequence where
  /-- The escape character alone. -/
  | introduced
  /-- An escape character and intermediate signs. -/
  | intermediate
  /-- A control sequence. -/
  | control
  /-- A device control string, before its parameters. -/
  | device
  /-- A device control string, in its parameters. -/
  | deviceParameters
  /-- A device control string, in its intermediate signs. -/
  | deviceIntermediate
  /-- The body of a string, which lasts until it is terminated. -/
  | string
  /-- A command to the system, which lasts until a bell. -/
  | command
deriving DecidableEq

namespace Sequence

/-- Whether white space that breaks into a sequence is shown. -/
def showsLayout : Sequence → Bool
  | introduced | intermediate | control => true
  | device | deviceParameters | deviceIntermediate | string | command => false

/-- The sequence after one more character, or nothing if the character ends it. Characters that
    have no place in a sequence are passed over. -/
def next? : Sequence → Char → Option Sequence
  | introduced, c =>
    if c < ' ' || '~' < c then introduced
    else if c < '0' then intermediate
    else match c with
      | '[' => control
      | ']' => command
      | 'P' => device
      | 'X' | '^' | '_' => string
      | _ => none
  | intermediate, c => if '0' ≤ c && c ≤ '~' then none else intermediate
  | control, c => if '@' ≤ c && c ≤ '~' then none else control
  | device, c =>
    if c < ' ' || '~' < c then device
    else if c < '0' then deviceIntermediate
    else if c < '@' then deviceParameters
    else string
  | deviceParameters, c =>
    if c < ' ' || '~' < c then deviceParameters
    else if c < '0' then deviceIntermediate
    else if c < '<' then deviceParameters
    else string
  | deviceIntermediate, c => if '0' ≤ c && c ≤ '~' then string else deviceIntermediate
  | string, c => if terminates c then none else string
  | command, c => if c == bell then none else command

end Sequence

/-! ## Reading -/

/-- Where in a text a reader is. -/
inductive Reading where
  /-- Outside escape sequences. -/
  | text
  /-- Within a sequence. -/
  | inside (sequence : Sequence)
  /-- In text that white space has let into a sequence. -/
  | interrupted (sequence : Sequence)
deriving DecidableEq

namespace Reading

/-- The sequence that has been begun and not ended. -/
def sequence? : Reading → Option Sequence
  | text => none
  | inside sequence | interrupted sequence => sequence

/-- Whether a character is shown. -/
def shows : Reading → Char → Bool
  | text, c | interrupted _, c => isShown c
  | inside sequence, c => sequence.showsLayout && isLayout c

/-- The place after a character that is shown. One that takes more than a byte ends a sequence that
    is interrupted. -/
def afterShown : Reading → Char → Reading
  | text, _ => text
  | inside sequence, _ => interrupted sequence
  | interrupted sequence, c => if c ≤ '\x7f' then interrupted sequence else text

/-- The place after a character that is not shown. -/
def afterHidden (reading : Reading) (c : Char) : Reading :=
  if c == escape then inside .introduced
  else if cancels c then text
  else match reading.sequence?.bind (·.next? c) with
    | some sequence => inside sequence
    | none => text

end Reading

/-- What is shown of a text that is read from some place on. -/
def strip : Reading → List Char → List Char
  | _, [] => []
  | reading, c :: rest =>
    if reading.shows c then c :: strip (reading.afterShown c) rest
    else strip (reading.afterHidden c) rest

/-- What is shown of a text. -/
def ofString (s : String) : String := String.ofList (strip .text s.toList)

end Nes.PlainText
