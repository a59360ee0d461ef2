import Quasiquote.Site.Recognition
import Quasiquote.Site.Pragma

/-!
# Rewriting a source

The quote sites of a source are replaced by their calls; all other text stays.

## Main Definitions

* `splice` — a text with some of its stretches replaced by calls
* `transform` — a source with all its sites replaced
* `transformSource` — the same for a source that opts in, nothing for any other
-/

namespace Quasiquote

/-- The characters at the beginning of a text that lie within its first `bytes` bytes. -/
def takeBytes : Nat → List Char → List Char
  | _, [] => []
  | bytes, c :: rest =>
    if c.utf8Size ≤ bytes then c :: takeBytes (bytes - c.utf8Size) rest else []

/-- The rest of a text behind `takeBytes`. -/
def dropBytes : Nat → List Char → List Char
  | _, [] => []
  | bytes, c :: rest =>
    if c.utf8Size ≤ bytes then dropBytes (bytes - c.utf8Size) rest else c :: rest

@[simp] theorem takeBytes_append_dropBytes (bytes : Nat) (text : List Char) :
    takeBytes bytes text ++ dropBytes bytes text = text := by
  induction text generalizing bytes with
  | nil => rfl
  | cons c rest ih =>
    unfold takeBytes dropBytes
    split <;> simp [ih]

/-- A text that begins at a byte offset, with sites replaced by their calls. -/
def splice (offset : Nat) (text : List Char) : List Site → List Char
  | [] => text
  | s :: sites =>
    takeBytes (s.start - offset) text ++ s.callChars ++
      splice s.stop (dropBytes (s.stop - offset) text) sites

@[simp] theorem splice_nil (offset : Nat) (text : List Char) : splice offset text [] = text := rfl

/-- A rewritten source. -/
structure Transformed where
  source : String
  /-- The sites that were replaced, in order. -/
  sites : List Site
deriving DecidableEq, Repr

/-- A source with every quote site replaced by its call. -/
def transform (source : String) : Except RewriteError Transformed :=
  (findSites source).map fun sites =>
    { source := String.ofList (splice 0 source.toList sites), sites }

/-- The rewritten source, or nothing if there is nothing to rewrite: the source does not opt in, or
it has no sites. -/
def transformSource (source : String) : Except RewriteError (Option String) :=
  if Pragma.isEnabled source then
    (transform source).map fun t => if t.sites.isEmpty then none else some t.source
  else .ok none

end Quasiquote
