/-
  The command line's arguments.

  The first argument names a command; those after it are its operands.  No
  command has options, so an operand that starts with a dash must stand after
  a `--`; a dash alone is an operand.

  * `Request.ofArguments?` is what some arguments ask for; nothing when they
    are not understood.
-/
import ScopedResources.Path

namespace ScopedResources

/-- What the program can be told to do. -/
inductive Command where
  /-- Opens all files, then writes what each of them holds. -/
  | cat (files : List Bytes)
  /-- Sends a message through a pipe and writes what comes out. -/
  | pipe (message : String)
  /-- Reads a file through a duplicated descriptor. -/
  | dup (file : Bytes)
  /-- Writes a message to standard error under the debug lock. -/
  | dbg (message : String)
  /-- Shows the configuration. -/
  | config
  deriving DecidableEq, Repr

/-- What the arguments ask for. -/
inductive Request where
  | version
  | command (command : Command)
  deriving DecidableEq, Repr

namespace Request

/-- The octet of `-`. -/
def dash : UInt8 := 0x2D

/-- Whether an argument is an option where options may stand. -/
def isOption (argument : Bytes) : Bool :=
  argument.head? == some dash && argument.length > 1

/-- The operands among the arguments of a command; an option is refused. -/
def operands? : List Bytes → Option (List Bytes)
  | [] => some []
  | argument :: rest =>
    if argument = [dash, dash] then some rest
    else if isOption argument then none
    else (operands? rest).map (argument :: ·)

/-- A file as an operand: not empty. -/
def file? (operand : Bytes) : Option Bytes :=
  if operand = [] then none else some operand

def command? (name : String) (operands : List Bytes) : Option Command :=
  match name, operands with
  | "cat", first :: others => (first :: others).mapM file? |>.map .cat
  | "pipe", [message] => (Utf8.decode? message).map .pipe
  | "dup", [file] => (file? file).map .dup
  | "dbg", [message] => (Utf8.decode? message).map .dbg
  | "config", [] => some .config
  | _, _ => none

def asksVersion (argument : Bytes) : Bool :=
  argument == Utf8.encode "--version" || (Utf8.encode "-V").isPrefixOf argument

def ofArguments? : List Bytes → Option Request
  | [] => none
  | first :: others =>
    if asksVersion first then some .version
    else do
      let name ← Utf8.decode? first
      let operands ← operands? others
      return .command (← command? name operands)

end Request

end ScopedResources
