import Quasiquote.Digest.Sha256
import Quasiquote.Native.Wrapper
import Quasiquote.Text.Hex

/-!
# Build identities

A body is compiled once for each identity: its kind, its module, its text, the interface that it is
compiled against and the arguments to the compiler.

## Main Definitions

* `Native.Identity` — what a compiled body depends on
* `Native.Identity.bytes` — its unambiguous spelling in bytes
* `Native.Fingerprint` — the digest of that spelling
* `Native.bodyHash`, `Native.interfaceTag` — the short digests in the names of artifacts
-/

namespace Quasiquote.Native

/-- What a compiled body depends on. -/
structure Identity where
  kind : Site.Kind
  moduleName : String
  body : String
  tag : String
  arguments : List String
deriving DecidableEq, Repr

/-- The name of a kind in identities and in the names of artifacts. -/
def kindWord : Site.Kind → String
  | .block => "stmt"
  | .expression => "expr"

/-- The lowest bytes of a number, the lowest first. -/
def lowBytes (n : Nat) : Nat → List UInt8
  | 0 => []
  | count + 1 => UInt8.ofNat (n % 256) :: lowBytes (n / 256) count

/-- A text with its length in bytes before it. -/
def measured (text : String) : List UInt8 :=
  let bytes := Utf8.encodeString text
  lowBytes bytes.length 8 ++ bytes

/-- The fields of an identity, in order. -/
def Identity.fields (i : Identity) : List String :=
  kindWord i.kind :: i.moduleName :: i.body :: i.tag :: i.arguments

/-- The spelling of an identity. Each field tells its length, so no two identities are spelled
alike. -/
def Identity.bytes (i : Identity) : List UInt8 := i.fields.flatMap measured

/-- The digest of an identity. -/
structure Fingerprint where
  digest : List UInt8
deriving DecidableEq, Repr

/-- The fingerprint of an identity. -/
def Identity.fingerprint (i : Identity) : Fingerprint := ⟨Sha256.digest i.bytes⟩

namespace Fingerprint

/-- The digits of a fingerprint. -/
def hex (f : Fingerprint) : String := Text.hex f.digest

/-- A short mark of a fingerprint for records. -/
def mark (f : Fingerprint) : String := "Fingerprint(" ++ Text.hex (f.digest.take 8) ++ ")"

end Fingerprint

/-- The bytes of a digest that are kept of a body. -/
def bodyHashBytes : Nat := 16

/-- The digits of the beginning of a body's digest. -/
def bodyHash (body : String) : String :=
  Text.hex ((Sha256.digest (Utf8.encodeString body)).take bodyHashBytes)

/-- The tag of the interface without arguments: versions, processor and system. -/
def baseTag : String := "quasi01-abi" ++ toString interfaceVersion ++ "-x86-64-linux"

/-- The tag of the interface that bodies are compiled against, with a short digest of the arguments
if there are any. -/
def interfaceTag (arguments : List String) : String :=
  match arguments with
  | [] => baseTag
  | _ =>
    let joined := Utf8.encodeString ("\x00".intercalate arguments)
    baseTag ++ "-f" ++ Text.hex ((Sha256.digest joined).take 4)

end Quasiquote.Native
