/-
  Failures on their way to a protected call, and what the call reports.

  A failure has a code and remembers how deep in protected calls it was
  raised.  It has a message and the program's name only if the call that was
  innermost then asked for them (`Detail.message`); running out of memory
  always has its message.

  * `Format` is a text to be rendered when it is needed; rendering may be
    refused halfway.
  * `Failure.report` is what the receiving call reports, and
    `Report.display` shows it.
-/

namespace ScopedResources

/-! ## Messages -/

/-- A message that has yet to be rendered. -/
inductive Format where
  /-- A fixed text; nothing needs to be rendered. -/
  | literal (text : String)
  /-- What rendering writes, and whether it is then refused. -/
  | rendered (written : String) (refused : Bool)
  deriving DecidableEq, Repr

namespace Format

/-- What stands for a message whose rendering was refused. -/
def invalid : String := "invalid format string"

/-- The complete text, if rendering is not refused. -/
def complete? : Format → Option String
  | literal text => some text
  | rendered written refused => if refused then none else some written

/-- The message: the complete text, or the note that there is none. -/
def text (f : Format) : String :=
  f.complete?.getD invalid

/-- What is written before rendering ends, however it ends. -/
def written : Format → String
  | literal text => text
  | rendered written _ => written

/-- The same with more text after it. -/
def append (f : Format) (more : String) : Format :=
  match f with
  | literal text => .rendered (text ++ more) false
  | rendered written true => .rendered written true
  | rendered written false => .rendered (written ++ more) false

/-- The same with more text before it. -/
def prepend (before : String) : Format → Format
  | literal text => .rendered (before ++ text) false
  | rendered written refused => .rendered (before ++ written) refused

end Format

/-! ## Failures -/

/-- How much a protected call wants to know about a failure. -/
inductive Detail where
  /-- The code alone; no message is rendered. -/
  | code
  /-- The code, the message and the program's name. -/
  | message
  deriving DecidableEq, Repr, Inhabited

/-- A failure on its way to a protected call. -/
structure Failure where
  /-- The number of a host error, `0` when unspecified. -/
  code : Int
  message : Option String
  program : Option String
  /-- How many protected calls were active when it was raised. -/
  depth : Nat
  deriving DecidableEq, Repr

/-- What a protected call reports when its body failed. -/
structure Report where
  /-- The number of a host error, `0` when unspecified. -/
  code : Int
  message : Option String
  program : Option String
  deriving DecidableEq, Repr

/-- The message of a failure, or words for its code. -/
def describe (code : Int) (message : Option String) : String :=
  match message with
  | some message => message
  | none =>
    if code = 0 then "unspecified failure" else "failed with error code " ++ toString code

def Failure.display (f : Failure) : String :=
  describe f.code f.message

def Failure.report (f : Failure) : Report :=
  ⟨f.code, f.message, f.program⟩

/-- A report as text, after the program's name if that is known. -/
def Report.display (report : Report) : String :=
  match report.program with
  | some program => program ++ ": " ++ describe report.code report.message
  | none => describe report.code report.message

/-- The message when memory is exhausted. -/
def noMemoryMessage : String := "no memory"

end ScopedResources
