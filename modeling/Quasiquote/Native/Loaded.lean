import Quasiquote.Files.Tree
import Quasiquote.Native.Error
import Quasiquote.Native.HandleTable
import Quasiquote.Scope.Context

/-!
# Loaded artifacts

## Main Definitions

* `Native.BodyCode` — what a compiled body does
* `Native.Image` — a compiled artifact
* `Native.load` — the body in an artifact's file
* `Native.LoadedQuote.run` — run a body against a context

## Design Notes

A body sees the objects of its names in slots. It may put other objects there, and then hands the
references to them over. The host takes them when the body succeeds, and releases them when it
fails.
-/

namespace Quasiquote.Native

/-- What a compiled body does with its slots: its result, and the slots afterwards. -/
abbrev BodyCode := List Handle → HandleTable → Handle × List Handle × HandleTable

/-- A compiled artifact: its entry table under a symbol. -/
structure Image where
  symbol : String
  version : Nat
  kindNumber : Nat
  /-- The names of the slots, as C strings. -/
  names : List (List UInt8)
  code : BodyCode

/-- What files hold where bodies are compiled. -/
inductive Contents where
  | bytes (data : List UInt8)
  | image (compiled : Image)

instance : Inhabited Contents := ⟨.bytes []⟩

instance : TextContents Contents where
  text?
    | .bytes data => Utf8.decodeString? data
    | .image _ => none

/-- A body that is ready to run. -/
structure LoadedQuote where
  path : String
  kind : Site.Kind
  names : List String
  code : BodyCode

/-- The body in an image at a path. -/
def loadImage (path : String) (i : Image) : Except LoadError LoadedQuote :=
  if i.symbol ≠ entrySymbol then .error (.noEntry path ("undefined symbol: " ++ entrySymbol))
  else if i.version ≠ interfaceVersion then .error (.otherInterface path i.version)
  else
    match kindOfNumber? i.kindNumber with
    | none => .error (.noEntry path ("unknown quote kind " ++ toString i.kindNumber))
    | some kind =>
      .ok { path, kind, names := i.names.map HandleTable.cText, code := i.code }

/-- The body in the file at a path. -/
def load (path : String) (files : FileTree Contents) : Except LoadError LoadedQuote :=
  match files.read path with
  | .error _ => .error (.missing path)
  | .ok (.bytes _) => .error (.unreadable path "file is no artifact")
  | .ok (.image i) => loadImage path i

/-- Add a reference to each object among some handles. -/
def retainAll (t : HandleTable) (handles : List Handle) : HandleTable :=
  handles.foldl (fun t h => t.incref h) t

/-- Give up a reference to each object among some handles. -/
def dropAll (t : HandleTable) (handles : List Handle) : HandleTable :=
  handles.foldl (fun t h => t.decref h) t

/-- The names whose slots hold other objects than before, with these objects. -/
def changedSlots : List String → List Handle → List Handle → List (String × Ref)
  | name :: names, before :: befores, after :: afters =>
    let rest := changedSlots names befores afters
    match after with
    | some r => if before = some r then rest else (name, r) :: rest
    | none => rest
  | _, _, _ => []

/-- Stage a binding with the reference to its object. The reference of a binding that was staged
before under the name is released. -/
def stageOwned (name : String) (r : Ref) (c : Context) (t : HandleTable) : Context × HandleTable :=
  (c.stage name r, t.decref (c.pending.get? name))

/-- Stage several bindings with the references to their objects. -/
def stageAll : List (String × Ref) → Context → HandleTable → Context × HandleTable
  | [], c, t => (c, t)
  | (name, r) :: rest, c, t =>
    let (c, t) := stageOwned name r c t
    stageAll rest c t

/-- The error of a body that fails without recording one. -/
def silentFailure : String := "native code returned NULL without raising"

/-- Run a body. Its slots are set to the objects that its names mean, which are kept while it runs.
The slots that it changes are staged if it gives a result. -/
def LoadedQuote.run (q : LoadedQuote) (c : Context) (t : HandleTable) :
    Except QuoteError Ref × Context × HandleTable :=
  let before := q.names.map c.get?
  let (result, after, t) := q.code before { retainAll t before with error := none }
  let changed := changedSlots q.names before after
  match result with
  | none =>
    let (error, t) := t.takeError
    let t := dropAll (dropAll t (changed.map fun p => some p.2)) before
    (.error (.native (error.getD silentFailure)), c, t)
  | some value =>
    let (c, t) := stageAll changed c t
    (.ok value, c, dropAll t before)

end Quasiquote.Native
