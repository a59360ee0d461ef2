import Quasiquote.Commands.Listing
import Quasiquote.Commands.Rewrite
import Quasiquote.Native.Sweep

/-!
# The command line

## Main Definitions

* `Report` — what a run of the program leaves
* `runCommand` — run the program with some arguments on a file tree
-/

namespace Quasiquote

/-- What a run of the program leaves. -/
structure Report where
  status : Nat
  output : String
  errors : String
  files : FileTree (List UInt8)

namespace Report

/-- A run that succeeds. -/
def success (files : FileTree (List UInt8)) (output : String) : Report :=
  { status := 0, output, errors := "", files }

/-- A run that fails and changes nothing. -/
def failure (files : FileTree (List UInt8)) (output errors : String) : Report :=
  { status := 1, output, errors, files }

/-- The run of a command that gives text. -/
def ofText (files : FileTree (List UInt8)) : Except CommandError String → Report
  | .ok text => success files text
  | .error e => failure files "" (e.message ++ "\n")

end Report

/-! ### Texts -/

/-- The version of the program. -/
def version : String := "0.1.0-alpha.1"

/-- What the program does. -/
def usage : String := Text.unlines
  ["Quasiquote tools",
   "",
   "Usage: quasi <command> [options]",
   "",
   "Commands:",
   "  rewrite <file.py>...   Print or write the rewritten module",
   "  sites <file.py>        List quote sites and their body hashes",
   "  lex <file.py>          Tokenize and display tokens",
   "  cleanup                Remove unused native artifacts",
   "  help                   Show this help message",
   "  version                Show version information",
   "",
   "Set RUST_LOG (e.g. RUST_LOG=quasi_native=debug) for diagnostics."]

/-- How rewriting is called. -/
def rewriteUsage : String := Text.unlines
  ["Usage: quasi rewrite <file.py>... [options]",
   "",
   "Options:",
   "  -o, --output <path>  Output file (one input) or directory (several)",
   "  -f, --force          Rewrite modules without the encoding pragma"]

/-- How the cleanup is called. -/
def cleanupUsage : String := "Usage: quasi cleanup [--path <dir>] [--no-recurse]\n"

/-! ### Arguments -/

/-- The options and paths among the arguments of rewriting, or the option that is not known. An
output option without a value is not known. -/
def rewriteArguments (o : RewriteOptions) (paths : List String) :
    List String → Except String (RewriteOptions × List String)
  | [] => .ok (o, paths.reverse)
  | argument :: rest =>
    if argument = "-o" ∨ argument = "--output" then
      match rest with
      | value :: rest => rewriteArguments { o with output := some value } paths rest
      | [] => .error argument
    else if argument = "-f" ∨ argument = "--force" then
      rewriteArguments { o with force := true } paths rest
    else if argument.toList.head? = some '-' then .error argument
    else rewriteArguments o (argument :: paths) rest

/-- The directory of a cleanup, and whether it goes below it. -/
structure CleanupOptions where
  path : String
  recurse : Bool
deriving DecidableEq, Repr

/-- The options among the arguments of a cleanup, or the argument that is not known. -/
def cleanupArguments (o : CleanupOptions) : List String → Except String CleanupOptions
  | [] => .ok o
  | argument :: rest =>
    if argument = "--path" then
      match rest with
      | value :: rest => cleanupArguments { o with path := value } rest
      | [] => .error argument
    else if argument = "--no-recurse" then cleanupArguments { o with recurse := false } rest
    else .error argument

/-! ### Commands -/

/-- What is printed for a rewritten file: its text, unless that was written to a file. -/
def printed : Except CommandError Rewritten → String
  | .ok r => if r.written.isSome then "" else r.source
  | .error _ => ""

/-- What is reported of a file that could not be rewritten. -/
def reported : Except CommandError Rewritten → String
  | .ok _ => ""
  | .error e => e.message ++ "\n"

/-- Rewrite files. -/
def runRewrite (files : FileTree (List UInt8)) (arguments : List String) : Report :=
  match rewriteArguments { output := none, force := false } [] arguments with
  | .error option => .failure files "" ("error: unknown option \x27" ++ option ++ "\x27\n")
  | .ok (_, []) => .failure files "" rewriteUsage
  | .ok (o, paths) =>
    let (results, files) := rewriteFiles o files paths
    { status := if results.all fun r => r.toBool then 0 else 1
      output := String.join (results.map printed)
      errors := String.join (results.map reported)
      files }

/-- Run a command on the source of one file. -/
def runListing (files : FileTree (List UInt8)) (name : String)
    (listing : String → String → Except CommandError String) : List String → Report
  | [] => .failure files "" ("Usage: quasi " ++ name ++ " <file.py>\n")
  | path :: _ => .ofText files ((readSource files path).bind (listing path))

/-- Remove stale artifacts. -/
def runCleanup (files : FileTree (List UInt8)) (arguments : List String) : Report :=
  match cleanupArguments { path := ".", recurse := true } arguments with
  | .error argument =>
    .failure files "" ("error: unexpected argument \x27" ++ argument ++ "\x27\n" ++ cleanupUsage)
  | .ok o =>
    let done := Native.cleanup files o.path o.recurse
    match done.outcome with
    | .error e => .failure done.files "" ((CommandError.cleaning e).message ++ "\n")
    | .ok removed => .success done.files (Text.unlines removed)

/-- Run the program. -/
def runCommand (files : FileTree (List UInt8)) : List String → Report
  | [] => .success files usage
  | command :: arguments =>
    match command with
    | "rewrite" => runRewrite files arguments
    | "sites" => runListing files command listSites arguments
    | "lex" => runListing files command listTokens arguments
    | "cleanup" => runCleanup files arguments
    | "help" | "--help" | "-h" => .success files usage
    | "version" | "--version" | "-V" => .success files ("quasi " ++ version ++ "\n")
    | _ => .failure files usage ("Unknown command: " ++ command ++ "\n\n")

end Quasiquote
