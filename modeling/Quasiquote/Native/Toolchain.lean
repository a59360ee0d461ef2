import Quasiquote.Native.Error
import Quasiquote.Text.Blank
import Quasiquote.Text.Lines
import Quasiquote.Text.Utf8

/-!
# Compilers

## Main Definitions

* `Native.Toolchain` — how a compiler is called
* `Native.Toolchain.ofCommandLine?`, `Native.Toolchain.detect` — from a text, and from what the
  system offers
* `Native.Toolchain.command` — the call that compiles a source
* `Native.Toolchain.judge` — whether a compilation has succeeded
-/

namespace Quasiquote.Native

/-- A program with the first arguments of its calls. -/
structure Toolchain where
  program : String
  arguments : List String
deriving DecidableEq, Repr

/-- The call of a program. -/
structure Command where
  program : String
  arguments : List String
deriving DecidableEq, Repr

/-- What a program leaves when it ends: its status, and its messages. -/
structure Exit where
  status : Nat
  messages : List UInt8
deriving DecidableEq, Repr

/-- What a system offers for finding a compiler. -/
structure Surroundings where
  /-- The value of a variable. -/
  valueOf? : String → Option String
  /-- Whether a program tells its version. -/
  responds : String → Bool

/-- The flags of every compilation. -/
def baseFlags : List String := ["-O2", "-std=gnu11", "-fPIC", "-shared"]

/-- The variables that name the compiler, the first one first. -/
def compilerVariables : List String := ["QUASI_CC", "CC"]

/-- The programs that are tried as compilers, the first one first. -/
def compilerCandidates : List String := ["cc", "gcc", "clang"]

/-- What an error of the compiler is known by. -/
def errorMark : String := "error:"

/-- Whether a text occurs in another. -/
def occursIn (needle : List Char) : List Char → Bool
  | [] => needle.isEmpty
  | c :: rest => needle.isPrefixOf (c :: rest) || occursIn needle rest

namespace Toolchain

/-- The toolchain with a program and no arguments. -/
def ofProgram (program : String) : Toolchain := { program, arguments := [] }

/-- The toolchain that a text of words between blanks names. A blank text names none. -/
def ofCommandLine? (line : String) : Option Toolchain :=
  match (Text.words line.toList).map String.ofList with
  | [] => none
  | program :: arguments => some { program, arguments }

/-- The toolchain that the variables name, or else the first candidate that responds. -/
def detect (s : Surroundings) : Except BuildError Toolchain :=
  let named := compilerVariables.findSome? fun name => (s.valueOf? name).bind ofCommandLine?
  match named.or ((compilerCandidates.find? s.responds).map ofProgram) with
  | some toolchain => .ok toolchain
  | none => .error .noCompiler

/-- The call that compiles a source into an output, with extra arguments. -/
def command (t : Toolchain) (source output : String) (extra : List String) : Command :=
  { program := t.program, arguments := t.arguments ++ baseFlags ++ ["-o", output, source] ++ extra }

/-- Whether a compilation has succeeded. It fails if the compiler cannot be run, ends with another
status than zero, or reports an error on some line. -/
def judge (t : Toolchain) : Except IoError Exit → Except BuildError Unit
  | .error e => .error (.spawn t.program e)
  | .ok done =>
    let messages := Text.trimEnd (Utf8.decodeLossy done.messages)
    if done.status ≠ 0 ∨ (Text.lines messages).any (occursIn errorMark.toList) then
      .error (.rejected t.program
        (if messages.isEmpty then t.program ++ " exited with exit status: " ++ toString done.status
        else String.ofList messages))
    else .ok ()

end Toolchain

end Quasiquote.Native
