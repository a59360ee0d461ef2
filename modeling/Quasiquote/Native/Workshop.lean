import Quasiquote.Native.BuildCache
import Quasiquote.Native.Loaded
import Quasiquote.Native.Toolchain
import Quasiquote.Native.Unit
import Quasiquote.Quoter.Dispatch

/-!
# The native quoter

The native quoter compiles its body, loads what comes out of it and runs that. The workshop is what
this takes: files, programs to call, caches, and the quoters that share them.

## Main Definitions

* `Native.Executable` — a program that can be called as a compiler
* `Native.Config` — the options of a quoter
* `Native.Workshop` — files, programs, caches and quoters
* `Quoter.native` — the quoter that compiles its bodies
* `Native.Workshop.interpretation` — what all quoters do in a workshop
-/

namespace Quasiquote.Native

/-- What a compiler leaves: its end, and the output if it has written one. -/
structure Compiled where
  exit : Exit
  output : Option Contents

/-- A program that can be called as a compiler. -/
structure Executable where
  /-- The status with which it ends when it is asked for its version. -/
  versionStatus : Nat
  compile : CompilationUnit → Compiled

/-- The options of a quoter. -/
structure Config where
  /-- Arguments to all compilations. -/
  arguments : List String
  /-- The generated source is kept beside the artifact. -/
  keepSource : Bool
  /-- The artifact is kept after it was loaded. -/
  keepArtifact : Bool
  /-- The compiler, which is detected if there is none. -/
  toolchain : Option Toolchain
  /-- The number of the cache that the quoter uses. -/
  cache : Nat
deriving Repr, Inhabited

/-- Everything that native quoters work with. -/
structure Workshop where
  files : FileTree Contents
  environment : Table String String
  programs : Table String Executable
  caches : List (BuildCache Fingerprint LoadedQuote)
  quoters : List Config

namespace Workshop

/-- The workshop as a place to find a compiler in. -/
def surroundings (w : Workshop) : Surroundings where
  valueOf? := w.environment.get?
  responds program :=
    match w.programs.get? program with
    | some e => e.versionStatus == 0
    | none => false

/-- The toolchain of a quoter. -/
def toolchain (w : Workshop) (config : Config) : Except BuildError Toolchain :=
  match config.toolchain with
  | some t => .ok t
  | none => Toolchain.detect w.surroundings

/-- Compile a unit. The output is empty unless the compiler writes it. -/
def compile (w : Workshop) (t : Toolchain) (unit : CompilationUnit) :
    Except BuildError Contents :=
  match w.programs.get? t.program with
  | none => (t.judge (.error .notFound)).map fun _ => .bytes []
  | some program =>
    let done := program.compile unit
    (t.judge (.ok done.exit)).map fun _ => done.output.getD (.bytes [])

/-- Build a unit. -/
def build (w : Workshop) (config : Config) (unit : CompilationUnit) : BuildCache.Build Contents :=
  fun files =>
    match w.toolchain config with
    | .error e => (.error e, files)
    | .ok t =>
      if config.keepSource then
        match files.write unit.sourcePath (.bytes (Utf8.encodeString unit.source)) with
        | .error e => (.error (.io unit.sourcePath e), files)
        | .ok files => (w.compile t unit, files)
      else (w.compile t unit, files)

/-- Load an artifact, which is removed afterwards unless it is kept. -/
def loadArtifact (config : Config) : BuildCache.Load Contents LoadedQuote := fun path files =>
  match load path files with
  | .error e => (.error e, files)
  | .ok quote => (.ok quote, if config.keepArtifact then files else BuildCache.discard files path)

/-- The cache of a quoter. -/
def cacheOf (w : Workshop) (config : Config) : BuildCache Fingerprint LoadedQuote :=
  w.caches.getD config.cache .empty

/-- The workshop with another state of a quoter's cache. -/
def setCache (w : Workshop) (config : Config) (c : BuildCache Fingerprint LoadedQuote) : Workshop :=
  { w with caches := w.caches.set config.cache c }

/-- The loaded body of a quote, with the workshop after it was found or built. -/
def obtain (w : Workshop) (config : Config) (kind : Site.Kind) (body : String) (c : Context)
    (column : Nat) : Except CacheError LoadedQuote × Workshop :=
  let found := (w.cacheOf config).getOrBuild w.files
    (identityOf config.arguments kind body c.frame).fingerprint
    (artifactPathOf config.arguments kind body c.frame)
    (w.build config (compilationUnit config.arguments kind body c column))
    (loadArtifact config)
  (found.result.map (·.value), { w.setCache config found.cache with files := found.files })

end Workshop

/-- The objects that a context leads to, once for each binding. -/
def contextRoots (c : Context) : List Ref :=
  c.frame.globals.map Prod.snd ++ c.frame.locals.map Prod.snd ++ c.frame.slots.filterMap Prod.snd ++
    c.pending.map Prod.snd

/-- The function table over a scene, whose counts are the references that the context leads to. -/
def tableOf (heap : Heap) (c : Context) : HandleTable :=
  .ofHeap heap fun r => heap.references (contextRoots c) r

/-- Run a loaded body against a scene. -/
def runLoaded (q : LoadedQuote) : Quoting Workshop Ref := do
  let s ← get
  match q.run s.context (tableOf s.heap s.context) with
  | (result, context, table) => do
    set { s with heap := table.heap, context }
    match result with
    | .ok r => return r
    | .error e => throw e

/-- Quote a body through the quoter with a number. -/
def quote (number : Nat) (kind : Site.Kind) (body : String) (column : Nat) :
    Quoting Workshop Ref := do
  let s ← get
  match s.world.quoters[number]? with
  | none => Quoting.unsupported kind
  | some config => do
    let (found, world) := s.world.obtain config kind body s.context column
    set { s with world }
    match found with
    | .error e => throw e.toQuoteError
    | .ok q => runLoaded q

end Native

/-- The native quoter with a number. -/
def Quoter.native (number : Nat) : Quoter Native.Workshop where
  capabilities := .both
  quoteBlock body column := do
    let _ ← Native.quote number .block body column
  quoteExpression body column := Native.quote number .expression body column

/-- What all quoters do in a workshop. -/
def Native.Workshop.interpretation : Interpretation Native.Workshop where
  readText w path := w.files.readText path
  native := Quoter.native

end Quasiquote
