import Quasiquote.Host.Exec
import Quasiquote.Quoter.FromFile
import Quasiquote.Quoter.Probe

/-!
# Dispatch

A rewritten site names its quoter. The name is looked up on every call, so another object under the
name handles the next call.

## Main Definitions

* `Interpretation` — what the quoters of an installation do
* `Stage` — the objects, the frame and the world in which a site is called
* `resolve` — the quoter that a name means
* `callBlock`, `callExpression` — call a site

## Design Notes

A call that fails commits nothing. What it has done to the objects and to the world stays, and the
frame's mapping stays up to date with its slots.
-/

namespace Quasiquote

/-- What the quoters do that depend on the world. -/
structure Interpretation (σ : Type) where
  /-- The text of a file. -/
  readText : σ → String → Except IoError String
  /-- The quoter that compiles its bodies, by its number. -/
  native : Nat → Quoter σ

/-- What a quoter of some kind does. -/
def Interpretation.quoter {σ : Type} (i : Interpretation σ) : QuoterKind → Quoter σ
  | .host => .host
  | .fromFile inner => .fromFile i.readText (i.quoter inner)
  | .native number => i.native number
  | .probe p => .probe p

/-- What a site is called in. -/
structure Stage (σ : Type) where
  heap : Heap
  frame : Frame
  world : σ

namespace Stage

variable {σ : Type}

/-- The scene for a quoter that was called by a name. -/
def scene (s : Stage σ) (name : String) : Scene σ :=
  { heap := s.heap, context := .ofFrame s.frame (some name), world := s.world }

/-- The stage after a scene, with its frame as it is. -/
def ofScene (s : Scene σ) : Stage σ :=
  { heap := s.heap, frame := s.context.frame, world := s.world }

/-- The stage after a scene whose bindings are committed. -/
def ofCommitted (s : Scene σ) : Stage σ :=
  { heap := s.heap, frame := s.context.commit.frame, world := s.world }

end Stage

variable {σ : Type}

/-- The quoter that a name means in a frame, if it handles a form. -/
def resolve (quoter : QuoterKind → Quoter σ) (s : Stage σ) (name : String) (form : Site.Kind) :
    Except QuoteError (Quoter σ) :=
  match s.frame.get? name with
  | none => .error (.unbound name)
  | some r =>
    let object := s.heap.get r
    match object.quoter? with
    | none => .error ((Capabilities.only form).unsupportedBy object.typeName)
    | some kind =>
      let q := quoter kind
      if q.capabilities.has form then .ok q
      else .error ((Capabilities.only form).unsupportedBy quoterTypeName)

/-- Call a site of a form, with the method of its quoter that handles it. -/
def call {α : Type} (quoter : QuoterKind → Quoter σ) (form : Site.Kind)
    (method : Quoter σ → Quoting σ α) (name : String) (s : Stage σ) :
    Except QuoteError α × Stage σ :=
  match resolve quoter s name form with
  | .error e => (.error e, s)
  | .ok q =>
    match (method q).run (s.scene name) with
    | (.ok a, scene) => (.ok a, .ofCommitted scene)
    | (.error e, scene) => (.error e, .ofScene scene)

/-- Call a block site. -/
def callBlock (quoter : QuoterKind → Quoter σ) (name body : String) (column : Nat) (s : Stage σ) :
    Except QuoteError Unit × Stage σ :=
  call quoter .block (fun q => q.quoteBlock body column) name s

/-- Call an expression site. -/
def callExpression (quoter : QuoterKind → Quoter σ) (name body : String) (column : Nat)
    (s : Stage σ) : Except QuoteError Ref × Stage σ :=
  call quoter .expression (fun q => q.quoteExpression body column) name s

end Quasiquote
