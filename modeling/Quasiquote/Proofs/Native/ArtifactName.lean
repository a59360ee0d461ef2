import Mathlib.Data.List.TakeWhile
import Mathlib.Data.Option.Basic
import Quasiquote.Native.ArtifactName
import Quasiquote.Proofs.Files.Path

/-!
# Reading the names of artifacts

A name is read from its end. What is read of the file with a name is that name, whatever the module's part
holds, as neither hashes nor tags hold underscores and no extension holds a dot.

## Main Statements

* `Native.isHexDigit_of_mem_hex`, `Native.length_bodyHash` — the digits of hashes
* `Native.splitAtLast?_eq_some_iff` — how a text is cut at a character
* `Native.ArtifactName.parse?_of_stem`, `Native.ArtifactName.exists_stem_of_parse?` — the file names that
  are read as a name
* `Native.ArtifactName.file_names_lossless` — names are read back from files, and share none
-/

namespace Quasiquote

/-! ### Digests -/

namespace Sha256

theorem length_bytesOf (n count : Nat) : (bytesOf n count).length = count := by
  induction count with
  | zero => rfl
  | succ count ih => rw [bytesOf, List.length_cons, ih]

theorem length_digest (message : List UInt8) : (digest message).length = 32 := by
  simp [digest, length_bytesOf]

end Sha256

namespace Native

theorem isHexDigit_hexDigit : ∀ n < 16, isHexDigit (Text.hexDigit n) = true := by decide

/-- The digits of bytes are digits of a hash. -/
theorem isHexDigit_of_mem_hex (bytes : List UInt8) : ∀ c ∈ (Text.hex bytes).toList, isHexDigit c := by
  intro c hc
  rw [Text.hex, String.toList_ofList] at hc
  obtain ⟨b, -, hc⟩ := List.mem_flatMap.1 hc
  have hlow : b.toNat % 16 < 16 := Nat.mod_lt _ (by decide)
  have hhigh : b.toNat / 16 < 16 := by have := b.toNat_lt; omega
  rw [Text.hexByte, List.mem_cons, List.mem_singleton] at hc
  rcases hc with rfl | rfl
  · exact isHexDigit_hexDigit _ hhigh
  · exact isHexDigit_hexDigit _ hlow

theorem length_hex (bytes : List UInt8) : (Text.hex bytes).length = 2 * bytes.length := by
  rw [Text.hex, String.length_ofList]
  induction bytes with
  | nil => rfl
  | cons b bytes ih =>
    rw [List.flatMap_cons, List.length_append, ih, List.length_cons]
    simp [Text.hexByte]
    omega

theorem length_bodyHash (body : String) : (bodyHash body).length = bodyHashBytes * 2 := by
  rw [bodyHash, length_hex, List.length_take, Sha256.length_digest]
  rfl

theorem notMem_hex {c : Char} (h : isHexDigit c = false) (bytes : List UInt8) :
    c ∉ (Text.hex bytes).toList := by
  intro hmem
  rw [isHexDigit_of_mem_hex bytes c hmem] at h
  cases h

/-- The characters of a tag are those of the basic tag, those of the mark behind it, and digits. -/
theorem notMem_interfaceTag {c : Char} (hbase : c ∉ baseTag.toList) (hmark : c ∉ "-f".toList)
    (hdigit : isHexDigit c = false) (arguments : List String) :
    c ∉ (interfaceTag arguments).toList := by
  cases arguments with
  | nil => exact hbase
  | cons argument arguments =>
    rw [interfaceTag, String.toList_append, String.toList_append, List.mem_append, List.mem_append]
    · rintro ((h | h) | h)
      · exact hbase h
      · exact hmark h
      · exact notMem_hex hdigit _ h
    · simp

theorem underscore_notMem_interfaceTag (arguments : List String) :
    '_' ∉ (interfaceTag arguments).toList :=
  notMem_interfaceTag (by decide +kernel) (by decide) (by decide) arguments

theorem interfaceTag_ne_empty (arguments : List String) : interfaceTag arguments ≠ "" := by
  have hbase : baseTag.toList ≠ [] := by decide +kernel
  intro hempty
  have hnil := congrArg String.toList hempty
  cases arguments with
  | nil => exact hbase hnil
  | cons argument arguments => simp [interfaceTag, hbase] at hnil

/-! ### Cutting texts -/

theorem splitAtLast?_append {mark : Char} {back : List Char} (front : List Char) (h : mark ∉ back) :
    splitAtLast? mark (front ++ mark :: back) = some (front, back) := by
  have hback : ∀ c ∈ back.reverse, decide (c ≠ mark) = true := by
    intro c hc
    have hne : c ≠ mark := fun heq => h (heq ▸ List.mem_reverse.1 hc)
    exact decide_eq_true hne
  have hreverse : (front ++ mark :: back).reverse = back.reverse ++ mark :: front.reverse := by simp
  rw [splitAtLast?, hreverse, List.dropWhile_append_of_pos hback, List.takeWhile_append_of_pos hback,
    List.dropWhile_cons_of_neg (by simp), List.takeWhile_cons_of_neg (by simp)]
  simp

/-- **A text is cut at the last occurrence of a character.** -/
theorem splitAtLast?_eq_some_iff {mark : Char} {text front back : List Char} :
    splitAtLast? mark text = some (front, back) ↔ text = front ++ mark :: back ∧ mark ∉ back := by
  constructor
  · intro h
    by_cases hmark : mark ∈ text
    · obtain ⟨front', back', rfl, hback⟩ := exists_last_of_mem hmark
      rw [splitAtLast?_append front' hback] at h
      cases h
      exact ⟨rfl, hback⟩
    · have hnone : text.reverse.dropWhile (· ≠ mark) = [] := by
        refine List.dropWhile_eq_nil_iff.2 fun c hc => ?_
        have hne : c ≠ mark := fun heq => hmark (heq ▸ List.mem_reverse.1 hc)
        exact decide_eq_true hne
      rw [splitAtLast?, hnone] at h
      cases h
  · rintro ⟨rfl, h⟩
    exact splitAtLast?_append front h

theorem dropStart?_eq_some_iff {start text rest : List Char} :
    dropStart? start text = some rest ↔ text = start ++ rest := by
  rw [dropStart?]
  split
  · next hstart =>
    obtain ⟨behind, rfl⟩ := List.isPrefixOf_iff_prefix.1 hstart
    simp [eq_comm]
  · next hstart =>
    simp only [reduceCtorEq, false_iff]
    rintro rfl
    exact hstart (List.isPrefixOf_iff_prefix.2 (List.prefix_append start rest))

/-- What stands in front of the module in a name. -/
theorem splitKind?_eq_some_iff {text rest : List Char} {kind : Site.Kind} :
    splitKind? text = some (kind, rest) ↔ text = (kindWord kind ++ "_").toList ++ rest := by
  rw [splitKind?]
  cases hblock : dropStart? (kindWord .block ++ "_").toList text with
  | some rest' =>
    obtain rfl := dropStart?_eq_some_iff.1 hblock
    cases kind with
    | block => simp [eq_comm]
    | expression => simp [kindWord]
  | none =>
    cases kind with
    | block =>
      have hnot : text ≠ (kindWord .block ++ "_").toList ++ rest := by
        intro htext
        rw [dropStart?_eq_some_iff.2 htext] at hblock
        cases hblock
      simpa using hnot
    | expression =>
      rw [← dropStart?_eq_some_iff]
      simp

/-! ### Names -/

namespace ArtifactName

theorem toList_file (n : ArtifactName) (extension : String) :
    (n.stem ++ "." ++ extension).toList = (artifactMark.toList ++ ((kindWord n.kind ++ "_").toList ++
      ((n.moduleName.toList ++ '_' :: n.bodyHash.toList) ++ '_' :: n.tag.toList))) ++
        '.' :: extension.toList := by
  simp [stem]

theorem dot_notMem_extension : ∀ extension ∈ knownExtensions, '.' ∉ extension.toList := by decide

/-- A part of a name that is a hash holds no underscore. -/
theorem underscore_notMem_bodyHash {n : ArtifactName} (h : n.isWellFormed = true) :
    '_' ∉ n.bodyHash.toList := by
  simp only [isWellFormed, Bool.and_eq_true, List.all_eq_true] at h
  intro hmem
  exact absurd (h.2 _ hmem) (by decide)

/-- **A name is read back from its file,** whatever its module's part holds. -/
theorem parse?_of_stem {n : ArtifactName} (h : n.isWellFormed = true) (htag : '_' ∉ n.tag.toList)
    {extension : String} (hextension : extension ∈ knownExtensions) :
    parse? (n.stem ++ "." ++ extension) = some n := by
  have hcut := splitAtLast?_append (artifactMark.toList ++ ((kindWord n.kind ++ "_").toList ++
    ((n.moduleName.toList ++ '_' :: n.bodyHash.toList) ++ '_' :: n.tag.toList)))
    (dot_notMem_extension _ hextension)
  have hmodule := splitAtLast?_append n.moduleName.toList (underscore_notMem_bodyHash h)
  rw [parse?, toList_file, hcut]
  simp only [Option.bind_eq_bind, Option.bind_some, String.ofList_toList, hextension, guard_true,
    Option.pure_def, dropStart?_eq_some_iff.2 rfl, splitKind?_eq_some_iff.2 rfl, splitAtLast?_append _ htag,
    hmodule, h, if_true]

/-- **A file that is read as a name is the file with that name** and a known extension. -/
theorem exists_stem_of_parse? {file : String} {n : ArtifactName} (h : parse? file = some n) :
    n.isWellFormed = true ∧ '_' ∉ n.tag.toList ∧
      ∃ extension ∈ knownExtensions, file = n.stem ++ "." ++ extension := by
  simp only [parse?, Option.bind_eq_bind, Option.bind_eq_some_iff, Prod.exists,
    Option.guard_eq_some', exists_const] at h
  obtain ⟨stem, extension, hcut, hextension, rest, hrest, kind, rest', hkind, rest'', tag, htag,
    moduleName, hash, hmodule, hname⟩ := h
  split at hname
  · next hwellFormed =>
    cases hname
    obtain ⟨hfile, -⟩ := splitAtLast?_eq_some_iff.1 hcut
    obtain ⟨hrest', hnot⟩ := splitAtLast?_eq_some_iff.1 htag
    obtain ⟨hrest'', -⟩ := splitAtLast?_eq_some_iff.1 hmodule
    refine ⟨hwellFormed, by rwa [String.toList_ofList], String.ofList extension, hextension, ?_⟩
    rw [← String.toList_inj, toList_file, hfile, dropStart?_eq_some_iff.1 hrest,
      splitKind?_eq_some_iff.1 hkind, hrest', hrest'']
    simp only [String.toList_ofList]
  · cases hname

/-- The name for a body, in a module with a name. -/
theorem isWellFormed_ofBody (kind : Site.Kind) {moduleName : String} (h : moduleName ≠ "")
    (body : String) (arguments : List String) :
    (ofBody kind moduleName body (interfaceTag arguments)).isWellFormed = true := by
  simp only [isWellFormed, ofBody, length_bodyHash, bne_iff_ne, ne_eq, Bool.and_eq_true, beq_self_eq_true,
    List.all_eq_true, and_true]
  exact ⟨⟨h, interfaceTag_ne_empty arguments⟩, isHexDigit_of_mem_hex _⟩

theorem sourceFile_eq (n : ArtifactName) : n.sourceFile = n.stem ++ "." ++ "c" := by
  rw [String.append_assoc]
  rfl

/-- The parts of a file's name that do not depend on the body are these characters. -/
theorem mem_words {c : Char} (kind : Site.Kind) {extension : String}
    (hextension : extension ∈ knownExtensions)
    (hc : c ∈ artifactMark.toList ++ (kindWord kind ++ "_").toList ++ ['_', '.'] ++ extension.toList) :
    c ∈ "_qq_stmtexpr.sodylibdllc".toList := by
  have hall : ∀ kind ∈ [Site.Kind.block, .expression], ∀ extension ∈ knownExtensions,
      ∀ c ∈ artifactMark.toList ++ (kindWord kind ++ "_").toList ++ ['_', '.'] ++ extension.toList,
        c ∈ "_qq_stmtexpr.sodylibdllc".toList := by decide
  exact hall kind (by cases kind <;> simp) extension hextension c hc

/-- The artifact of a body can be named so where the module can. -/
theorem isName_ofBody (kind : Site.Kind) {moduleName : String} (body : String) (arguments : List String)
    (hslash : '/' ∉ moduleName.toList) (hnul : '\x00' ∉ moduleName.toList) {extension : String}
    (hextension : extension ∈ knownExtensions) :
    Path.IsName ((ofBody kind moduleName body (interfaceTag arguments)).stem ++ "." ++ extension) := by
  have hfree {c : Char} (hmodule : c ∉ moduleName.toList) (hdigit : isHexDigit c = false)
      (htag : c ∉ (interfaceTag arguments).toList) (hword : c ∉ "_qq_stmtexpr.sodylibdllc".toList) :
      c ∉ ((ofBody kind moduleName body (interfaceTag arguments)).stem ++ "." ++ extension).toList := by
    have hwords : c ∉ artifactMark.toList ++ (kindWord kind ++ "_").toList ++ ['_', '.'] ++
        extension.toList := fun hc => hword (mem_words kind hextension hc)
    simp only [List.mem_append, List.mem_cons, not_or] at hwords
    simp only [toList_file, List.mem_append, List.mem_cons, not_or]
    exact ⟨⟨hwords.1.1.1, hwords.1.1.2, ⟨hmodule, hwords.1.2.1, notMem_hex hdigit _⟩, hwords.1.2.1, htag⟩,
      hwords.1.2.2.1, hwords.2⟩
  refine Path.isName_of_length ?_ (hfree hslash (by decide) ?_ (by decide))
    (hfree hnul (by decide) ?_ (by decide))
  · have hmark : artifactMark.length = 4 := by decide
    simp only [stem, String.length_append, hmark]
    omega
  · exact notMem_interfaceTag (by decide +kernel) (by decide) (by decide) arguments
  · exact notMem_interfaceTag (by decide +kernel) (by decide) (by decide) arguments

/-! ### Names and files -/

/-- What the parts of a name are if it is read from a file. The module's part may be any text. -/
def IsCanonical (n : ArtifactName) : Prop := n.isWellFormed = true ∧ '_' ∉ n.tag.toList

instance (n : ArtifactName) : Decidable n.IsCanonical :=
  inferInstanceAs (Decidable (_ ∧ _))

theorem isCanonical_ofBody (kind : Site.Kind) {moduleName : String} (h : moduleName ≠ "") (body : String)
    (arguments : List String) : (ofBody kind moduleName body (interfaceTag arguments)).IsCanonical :=
  ⟨isWellFormed_ofBody kind h body arguments, underscore_notMem_interfaceTag arguments⟩

/-- **Which files are read as a name.** -/
theorem parse?_eq_some_iff {file : String} {n : ArtifactName} :
    parse? file = some n ↔
      n.IsCanonical ∧ ∃ extension ∈ knownExtensions, file = n.stem ++ "." ++ extension := by
  constructor
  · intro h
    obtain ⟨hwellFormed, htag, hfile⟩ := exists_stem_of_parse? h
    exact ⟨⟨hwellFormed, htag⟩, hfile⟩
  · rintro ⟨⟨hwellFormed, htag⟩, extension, hextension, rfl⟩
    exact parse?_of_stem hwellFormed htag hextension

/-- Names that are read from files share no file. -/
theorem IsCanonical.eq_of_file {n m : ArtifactName} (hn : n.IsCanonical) (hm : m.IsCanonical)
    {extension other : String} (hextension : extension ∈ knownExtensions) (hother : other ∈ knownExtensions)
    (h : n.stem ++ "." ++ extension = m.stem ++ "." ++ other) : n = m := by
  have hparse : parse? (n.stem ++ "." ++ extension) = some m :=
    parse?_eq_some_iff.2 ⟨hm, other, hother, h⟩
  rw [parse?_eq_some_iff.2 ⟨hn, extension, hextension, rfl⟩] at hparse
  exact Option.some.inj hparse

/-- **The names of artifacts are written without loss.** The name for a body is read back from its artifact
and from its source, whatever text the module's part is; a file that is read as a name is the file with
that name; and no two names that are read from files, nor the names for any two bodies, share a file. -/
theorem file_names_lossless :
    (∀ (kind : Site.Kind) (moduleName body : String) (arguments : List String), moduleName ≠ "" →
      parse? (ofBody kind moduleName body (interfaceTag arguments)).artifactFile =
          some (ofBody kind moduleName body (interfaceTag arguments)) ∧
        parse? (ofBody kind moduleName body (interfaceTag arguments)).sourceFile =
          some (ofBody kind moduleName body (interfaceTag arguments)) ∧
        (ofBody kind moduleName body (interfaceTag arguments)).IsCanonical) ∧
    (∀ (file : String) (n : ArtifactName), parse? file = some n ↔
      n.IsCanonical ∧ ∃ extension ∈ knownExtensions, file = n.stem ++ "." ++ extension) ∧
    (∀ n m : ArtifactName, n.IsCanonical → m.IsCanonical →
      ∀ extension ∈ knownExtensions, ∀ other ∈ knownExtensions,
        n.stem ++ "." ++ extension = m.stem ++ "." ++ other → n = m) := by
  refine ⟨fun kind moduleName body arguments hmodule => ?_, fun _ _ => parse?_eq_some_iff,
    fun n m hn hm _ hextension _ hother h => hn.eq_of_file hm hextension hother h⟩
  have hname := isCanonical_ofBody kind hmodule body arguments
  refine ⟨parse?_eq_some_iff.2 ⟨hname, artifactExtension, by decide, rfl⟩, ?_, hname⟩
  rw [sourceFile_eq]
  exact parse?_eq_some_iff.2 ⟨hname, "c", by decide, rfl⟩

/-- A module whose name holds underscores and dots, and text like a hash and a tag. -/
def nestedModule : String := "a_b.so_e3b0c44298fc1c149afbf4c8996fb924_quasi01-abi1-x86-64-linux"

/-- The artifact of a body in that module is read back, with arguments to the compiler. -/
theorem nestedModule_lossless :
    nestedModule ≠ "" ∧
      parse? (ofBody .expression nestedModule "x" (interfaceTag ["-O0", "-D_X"])).artifactFile =
        some (ofBody .expression nestedModule "x" (interfaceTag ["-O0", "-D_X"])) ∧
      parse? (ofBody .expression nestedModule "x" (interfaceTag ["-O0", "-D_X"])).sourceFile =
        some (ofBody .expression nestedModule "x" (interfaceTag ["-O0", "-D_X"])) := by
  have hmodule : nestedModule ≠ "" := by decide
  obtain ⟨hartifact, hsource, -⟩ :=
    file_names_lossless.1 .expression nestedModule "x" ["-O0", "-D_X"] hmodule
  exact ⟨hmodule, hartifact, hsource⟩

section Module

variable {file : String} {n : ArtifactName}

/-- The module of an artifact can be named so. -/
theorem isName_module (h : parse? file = some n) (hfile : Path.IsName file) :
    Path.IsName (n.moduleName ++ "." ++ "py") := by
  obtain ⟨-, -, extension, -, rfl⟩ := exists_stem_of_parse? h
  have hfree {c : Char} (hc : c ∉ (n.stem ++ "." ++ extension).toList) (hend : c ∉ ".py".toList) :
      c ∉ (n.moduleName ++ "." ++ "py").toList := by
    simp only [toList_file, List.mem_append, not_or] at hc
    rw [String.append_assoc, String.toList_append, List.mem_append, not_or]
    exact ⟨hc.1.2.2.1.1, hend⟩
  refine Path.isName_of_length ?_ (hfree hfile.no_slash (by decide)) (hfree hfile.no_nul (by decide))
  have hdot : ".".length = 1 := by decide
  have hend : "py".length = 2 := by decide
  simp only [String.length_append, hdot, hend]
  omega

/-- The name of a module is shorter than those of its artifacts. -/
theorem module_size_le (h : parse? file = some n) :
    (n.moduleName ++ "." ++ "py").utf8ByteSize ≤ file.utf8ByteSize := by
  obtain ⟨-, -, extension, -, rfl⟩ := exists_stem_of_parse? h
  have hmark : artifactMark.utf8ByteSize = 4 := by decide
  have hend : "py".utf8ByteSize = 2 := by decide
  simp only [stem, String.utf8ByteSize_append, hmark, hend]
  omega

end Module

end ArtifactName

end Native

end Quasiquote
