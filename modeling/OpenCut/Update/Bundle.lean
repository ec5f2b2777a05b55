import OpenCut.Lib.Table
import OpenCut.Release.Metadata

/-!
# Bundles and their trees

`internal/bundle/bundle.go` and `internal/release/manifest.go`: a bundle is an archive, `Extract`
writes its entries one after another into a new tree (`writeEntry`, `extract`), and a tree is
accepted if its manifest and the files that the manifest names are as expected
(`CellHost.loadManifest`, `CellHost.resolveEntry`).

What a bundle holds, how manifests are encoded and what the file system says of a path are
parameters (`CellHost`).
-/

namespace OpenCut

open Outcome

/-! ## Trees -/

/-- What a path of a tree is. -/
inductive Node
  | directory
  | file (content : Text) (executable : Bool)
  | symlink (target : Text)
deriving DecidableEq

/-- A directory, by the paths in it. -/
abbrev Tree := Table Text Node

/-- An entry of an archive; a type that is not supported has no node. -/
structure ArchiveEntry where
  name : Text
  node : Option Node
deriving DecidableEq

/-- Why an entry is not extracted. -/
inductive ExtractError
  | unsafePath (name : Text)
  | notRealDirectory (path : Text)
  | exists_ (path : Text)
  | unsafeLink (name target : Text)
  | unsupported (name : Text)
  | truncated

/-- A path that leaves the directory it is relative to. -/
def escapes (path : Text) : Prop := path = "..".toList ∨ "../".toList <+: path

instance (path : Text) : Decidable (escapes path) := inferInstanceAs (Decidable (_ ∨ _))

/-- `safeArchivePath`. -/
def safeArchivePath (name : Text) : Except ExtractError Unit := do
  ensure (name ≠ [] ∧ '\\' ∉ name ∧ name.head? ≠ some '/') (.unsafePath name)
  ensure (name ≠ ['.'] ∧ ¬escapes name ∧ pathClean name = name) (.unsafePath name)

/-- `path.Dir` of a clean path, as its segments. -/
def parentSegments (name : Text) : List Text := (name.splitOn '/').dropLast

/-- `validateArchiveLink`. -/
def validateArchiveLink (entry target : Text) : Except ExtractError Unit := do
  ensure (target ≠ [] ∧ target.head? ≠ some '/' ∧ '\\' ∉ target) (.unsafeLink entry target)
  let resolved := pathClean (List.intercalate ['/'] (parentSegments entry ++ [target]))
  ensure (¬escapes resolved) (.unsafeLink entry target)

variable (tree : Tree)

/-- One segment of `ensureDirectory`. -/
def Tree.ensureSegment (path : Text) : Except ExtractError Tree :=
  match tree.find? path with
  | none => .ok (tree.set path .directory)
  | some .directory => .ok tree
  | some _ => .error (.notRealDirectory path)

/-- `ensureDirectory`, on the segments of the path. -/
def Tree.ensureDirectory (segments : List Text) : Except ExtractError Tree :=
  (List.range segments.length).foldlM (fun tree n =>
    tree.ensureSegment (List.intercalate ['/'] (segments.take (n + 1)))) tree

/-- A new file or symbolic link under a path. -/
def Tree.create (path : Text) (node : Node) : Except ExtractError Tree := do
  ensure (tree.find? path).isNone (.exists_ path)
  return tree.set path node

/-- What `Extract` does with one entry. -/
def writeEntry (entry : ArchiveEntry) : Except ExtractError Tree := do
  safeArchivePath entry.name
  match entry.node with
  | some .directory => tree.ensureDirectory (entry.name.splitOn '/')
  | some (.file content executable) =>
    let tree ← tree.ensureDirectory (parentSegments entry.name)
    tree.create entry.name (.file content executable)
  | some (.symlink target) =>
    validateArchiveLink entry.name target
    let tree ← tree.ensureDirectory (parentSegments entry.name)
    tree.create entry.name (.symlink target)
  | none => throw (.unsupported entry.name)

/-- `Extract` of an archive into a new directory; `ends` if the archive can be read to its end. -/
def extract (entries : List ArchiveEntry) (ends : Bool) : Except ExtractError Tree := do
  let tree ← entries.foldlM writeEntry ∅
  ensure ends .truncated
  return tree

/-! ## Manifests -/

/-- `Manifest`. -/
structure Manifest where
  schema : Int
  channel : Text
  version : Text
  target : Target
  launcherEntry : Text
  payloadEntry : Text
  minimumBootstrapProtocol : Text
  publishedAt : Instant

/-- `validateEntry`; `kind` is `launcher` or `payload`. -/
def validateEntry (entry kind : Text) : Bool :=
  entry ≠ [] ∧ '\\' ∉ entry ∧ entry.head? ≠ some '/' ∧ pathClean entry = entry ∧
    kind ++ ['/'] <+: entry ∧ entry ≠ kind ++ ['/']

/-- The kind of the entry of the launcher. -/
def launcherKind : Text := "launcher".toList

/-- The kind of the entry of the payload. -/
def payloadKind : Text := "payload".toList

variable (manifest : Manifest)

/-- `Manifest.Validate`. -/
def Manifest.valid : Bool :=
  manifest.schema = 1 ∧ (parseVersionForChannel manifest.version manifest.channel).isSome ∧
    manifest.minimumBootstrapProtocol ≠ [] ∧ manifest.publishedAt ≠ zeroTime ∧
    manifest.target.valid ∧ validateEntry manifest.launcherEntry launcherKind ∧
    validateEntry manifest.payloadEntry payloadKind

/-- `Manifest.ValidateHost`. -/
def Manifest.validHost (channel protocolFloor : Text) (host : Target) : Bool :=
  manifest.valid ∧ manifest.channel = channel ∧ manifest.target = host ∧
    manifest.minimumBootstrapProtocol = protocolFloor

/-- `CLIEntry` of a valid target. -/
def cliEntry (target : Target) : Text :=
  "payload/bin/".toList ++ (if target.platform = .win then "open-cut.exe" else "open-cut").toList

/-! ## The host of a cell -/

/-- The cell's channel, the machine, and what its programs do: signatures, digests and archives of
    files, what is read under a path of a tree, how manifests are decoded, and whether the
    topology of the runtime under a path can be resolved. -/
structure CellHost where
  channel : Text
  host : Target
  scheme : TrustScheme
  Bytes : Type
  sha256 : Bytes → Text
  size : Bytes → Int
  archive : Bytes → List ArchiveEntry × Bool
  readFile : Tree → Text → Option Text
  isRegular : Tree → Text → Bool
  decodeManifest : Text → Option Manifest
  topologyResolves : Tree → Text → Bool

namespace CellHost

variable (H : CellHost) (tree : Tree)

/-- `LoadManifest`. -/
def loadManifest : Option Manifest :=
  ((H.readFile tree "manifest.json".toList).bind H.decodeManifest).filter Manifest.valid

/-- `ResolveEntry`. -/
def resolveEntry (entry kind : Text) : Bool := validateEntry entry kind && H.isRegular tree entry

/-- What `Recover` looks at in a version's directory, and `installFromOrigin` in a tree: the
    manifest is for this version and this host, and the payload and the CLI are there. -/
def releaseFits (version protocolFloor : Text) : Bool :=
  (H.loadManifest tree).any fun manifest =>
    manifest.version = version ∧ manifest.validHost H.channel protocolFloor H.host ∧
      H.resolveEntry tree manifest.payloadEntry payloadKind ∧
      H.topologyResolves tree manifest.payloadEntry ∧
      H.resolveEntry tree (cliEntry manifest.target) payloadKind

/-- What else `installFromOrigin` looks at: the manifest agrees with the metadata, and the launcher
    is there. -/
def releaseMatches (descriptor : Descriptor) : Bool :=
  (H.loadManifest tree).any fun manifest =>
    manifest.channel = descriptor.channel ∧ manifest.target = descriptor.target ∧
      H.resolveEntry tree manifest.launcherEntry launcherKind

/-- The bytes are those that the metadata is about. -/
def bundleFits (bytes : H.Bytes) (bundle : BundleDescriptor) : Bool :=
  H.sha256 bytes = bundle.sha256 ∧ H.size bytes = bundle.size

end CellHost

end OpenCut
