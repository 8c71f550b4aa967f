import Kdna.Ir.Canonical

/-!
# Requests, handles and views

What a read is about: an admitted request, the handle that an expansion presents, and
the view of an admitted snapshot. Targets and anchors stay values, compared by their
canonical texts.
-/

namespace Kdna.Read

/-- `same(left, right)`: equal canonical texts. Past 8 MiB the source throws instead,
which ends the read without an envelope; the model goes on, so it has every envelope of
the source. -/
def same (a b : Json) : Bool := canonicalText a == canonicalText b

/-- The first millisecond. -/
def msZero : Json := .num (.natural 0 Binary64.zero_le_limit)

/-- The second millisecond. -/
def msOne : Json := .num (.natural 1 Binary64.one_le_limit)

/-- The judgment that a request selects. -/
structure Selection where
  assetId : String
  assetVersion : String
  judgmentId : String
  deriving DecidableEq, Repr

/-- The selection as a value. -/
def Selection.json (s : Selection) : Json :=
  .obj [("asset_id", .str s.assetId), ("asset_version", .str s.assetVersion),
    ("judgment_id", .str s.judgmentId)]

/-- The modes of a request. -/
inductive Mode
  | wholeAsset
  | catalog
  | exactSelection
  | expand
  deriving DecidableEq, Repr

/-- An expansion handle. -/
structure Handle where
  handleId : String
  assetId : String
  assetVersion : String
  a : String
  c : String
  snapshotId : String
  coreVersion : String
  irVersion : String
  readVersion : String
  anchor : Json
  target : Json
  scope : List String
  issuedAt : ℕ
  expiresAt : ℕ
  hostId : String
  hostEpoch : String

/-- `jcs(h) === jcs(h')` -/
def Handle.same (h h' : Handle) : Bool :=
  h.handleId = h'.handleId && h.assetId = h'.assetId && h.assetVersion = h'.assetVersion &&
    h.a = h'.a && h.c = h'.c && h.snapshotId = h'.snapshotId && h.coreVersion = h'.coreVersion &&
    h.irVersion = h'.irVersion && h.readVersion = h'.readVersion && Read.same h.anchor h'.anchor &&
    Read.same h.target h'.target && h.scope = h'.scope && h.issuedAt = h'.issuedAt &&
    h.expiresAt = h'.expiresAt && h.hostId = h'.hostId && h.hostEpoch = h'.hostEpoch

/-- An admitted request. -/
structure Request where
  requestId : String
  budgetBytes : ℕ
  mode : Mode
  selection : Option Selection
  handle : Option Handle

/-- `anchorFor(request)` -/
def anchorFor (request : Request) : Json :=
  match request.selection with
  | none => Ir.assetAnchor
  | some s => Ir.judgmentAnchor s.json

/-- The view of an admitted snapshot. Its expansion targets are those of its IR. -/
structure View where
  snapshotId : String
  assetId : String
  assetVersion : String
  a : String
  c : String
  ir : Ir.CanonicalIr

end Kdna.Read
