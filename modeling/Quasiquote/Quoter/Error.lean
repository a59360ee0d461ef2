import Quasiquote.Files.Error
import Quasiquote.Host.Error

/-!
# Errors of quoting

## Main Definitions

* `QuoteError` — what the caller of a quote site can see instead of a result
-/

namespace Quasiquote

/-- The errors of resolving and running a quote site. -/
inductive QuoteError where
  /-- The object under the quoter's name does not handle the site's form. -/
  | notSupported (method : String) (type : String)
  /-- A name that is bound to nothing. -/
  | unbound (name : String)
  /-- Host code that fails. -/
  | eval (cause : Host.EvalError)
  /-- A body that is not in the shape its quoter accepts. -/
  | badBody (reason : String)
  /-- A compiled body that reports a failure. -/
  | native (message : String)
  /-- A body that the compiler rejects. -/
  | compilation (diagnostics : String)
  /-- A compiled body that cannot be loaded. -/
  | load (path : String) (message : String)
  /-- A file that cannot be read or written. -/
  | io (path : String) (cause : IoError)
deriving DecidableEq, Repr

namespace QuoteError

/-- The text of the error. -/
def message : QuoteError → String
  | notSupported method type => type ++ " object does not support " ++ method
  | unbound name => "name \x27" ++ name ++ "\x27 is not defined"
  | eval cause => cause.message
  | badBody reason => "invalid quote body: " ++ reason
  | native message => "native quote failed: " ++ message
  | compilation diagnostics => "compilation failed:\n" ++ diagnostics
  | load path message => "cannot load " ++ path ++ ": " ++ message
  | io path cause => path ++ ": " ++ cause.message

end QuoteError

end Quasiquote
