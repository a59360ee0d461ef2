import Quasiquote.Native.Wrapper
import Quasiquote.Quoter.Error

/-!
# Errors of building and loading

## Main Definitions

* `Native.BuildError` — why a source does not become an artifact
* `Native.LoadError` — why an artifact cannot be loaded
* `Native.CacheError` — why the cache has no artifact to give
* `Native.CacheError.toQuoteError` — what the caller of a site sees
-/

namespace Quasiquote.Native

/-- Why a source does not become an artifact. -/
inductive BuildError where
  | noCompiler
  /-- The compiler ran and rejected the source. -/
  | rejected (compiler diagnostics : String)
  /-- The compiler could not be run. -/
  | spawn (compiler : String) (cause : IoError)
  | io (path : String) (cause : IoError)
deriving DecidableEq, Repr

namespace BuildError

/-- The text of the error. -/
def message : BuildError → String
  | noCompiler => "no C compiler found; set QUASI_CC or CC"
  | rejected compiler diagnostics => compiler ++ " failed:\n" ++ diagnostics
  | spawn compiler cause => "cannot run " ++ compiler ++ ": " ++ cause.message
  | io path cause => path ++ ": " ++ cause.message

/-- What the caller of a site sees. A compiler that is missing counts as a failed compilation. -/
def toQuoteError : BuildError → QuoteError
  | rejected _ diagnostics => .compilation diagnostics
  | io path cause => .io path cause
  | e => .compilation e.message

end BuildError

/-- Why an artifact cannot be loaded. -/
inductive LoadError where
  | missing (path : String)
  /-- The file is no artifact. -/
  | unreadable (path reason : String)
  /-- The artifact has no usable entry table. -/
  | noEntry (path reason : String)
  /-- The artifact was built for another interface. -/
  | otherInterface (path : String) (version : Nat)
deriving DecidableEq, Repr

namespace LoadError

/-- The artifact that was to be loaded. -/
def path : LoadError → String
  | missing path => path
  | unreadable path _ => path
  | noEntry path _ => path
  | otherInterface path _ => path

/-- The text of the error. -/
def message : LoadError → String
  | missing path => path ++ " does not exist"
  | unreadable path reason => "cannot open " ++ path ++ ": " ++ reason
  | noEntry path reason => path ++ " has no entry symbol: " ++ reason
  | otherInterface path version =>
    path ++ " was built for ABI version " ++ toString version ++ ", expected " ++
      toString interfaceVersion

/-- What the caller of a site sees. -/
def toQuoteError (e : LoadError) : QuoteError := .load e.path e.message

end LoadError

/-- Why the cache has no artifact to give. -/
inductive CacheError where
  | build (cause : BuildError)
  | load (cause : LoadError)
  | io (path : String) (cause : IoError)
deriving DecidableEq, Repr

namespace CacheError

/-- The text of the error. -/
def message : CacheError → String
  | build cause => cause.message
  | load cause => cause.message
  | io path cause => path ++ ": " ++ cause.message

/-- What the caller of a site sees. -/
def toQuoteError : CacheError → QuoteError
  | build cause => cause.toQuoteError
  | load cause => cause.toQuoteError
  | io path cause => .io path cause

end CacheError

end Quasiquote.Native
