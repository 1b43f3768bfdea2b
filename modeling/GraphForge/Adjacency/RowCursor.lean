import GraphForge.Adjacency.ShardedIndex

/-!
# The pull cursor over the rows of a shard set

The cursor decodes the shards in manifest order and returns the rows `0 .. nodeCount` one
by one. A row that the next shard continues is put aside and concatenated; a node that no
shard covers is returned empty. An error is final: it stays the answer to every later
pull. The shards come from `read`, which may answer differently at every pull.
-/

namespace GraphForge.Adjacency

/-- The logical row being concatenated because it continues from one shard into the
next. -/
structure SpanningRow where
  node : Option ℕ
  edgeIds : List ℕ
  neighborIds : List ℕ
  deriving DecidableEq, Repr

namespace SpanningRow

/-- No row, and its buffers released. -/
def finish : SpanningRow := ⟨none, [], []⟩

/-- One more piece of the row. -/
def append (s : SpanningRow) (row : CsrRow) : SpanningRow :=
  { s with
    edgeIds := s.edgeIds ++ row.edgeIds
    neighborIds := s.neighborIds ++ row.neighborIds }

/-- The first piece of a row. -/
def start (s : SpanningRow) (node : ℕ) (row : CsrRow) : SpanningRow :=
  { s with node := some node }.append row

/-- The pieces as one row. -/
def row (s : SpanningRow) : CsrRow := ⟨s.edgeIds, s.neighborIds⟩

end SpanningRow

/-- The one decoded shard a cursor holds. `continuesNext`: the next shard continues this
shard's last row. -/
structure LoadedShard where
  csr : CsrIndex
  firstNode : ℕ
  nodeCount : ℕ
  nextLocal : ℕ
  continuesNext : Bool
  deriving DecidableEq, Repr

/-- What the next call returns. -/
inductive CursorStep where
  | empty (node : ℕ)
  | shard (node row : ℕ)
  | spanning (node : ℕ)
  | done
  deriving DecidableEq, Repr

/-- A cursor over the rows of an index, shard by shard. -/
structure CsrRowCursor where
  nextShard : ℕ
  shard : Option LoadedShard
  spanning : SpanningRow
  /-- A spanning row was returned and its buffers can be released. -/
  releaseSpanning : Bool
  /-- Every node below this one has been returned. -/
  nextNode : ℕ
  checked : Bool
  /-- The error every pull returns once one has occurred. -/
  failed : Option GfError
  deriving DecidableEq, Repr

/-- How one pass of the loop of `advance` ends. -/
inductive CursorPass where
  | again
  | returns (outcome : Except GfError CursorStep)

namespace CsrRowCursor

/-- A cursor before the first shard. -/
def new : CsrRowCursor := ⟨0, none, .finish, false, 0, false, none⟩

variable (read : CsrShardRecord → Except GfError CsrIndex) (manifest : CsrShardManifest)

/-- Load a shard. -/
def load (nextShard : ℕ) (record : CsrShardRecord) : Except GfError LoadedShard := do
  let csr ← read record
  let lastNode := record.firstNode + record.nodeCount - 1
  return {
    csr := csr
    firstNode := record.firstNode
    nodeCount := record.nodeCount
    nextLocal := 0
    continuesNext := manifest.shards[nextShard + 1]?.any (·.firstNode ≤ lastNode) }

/-- One pass of the loop of `advance`. -/
def pass (c : CsrRowCursor) : CursorPass × CsrRowCursor :=
  match c.shard with
  | none => match manifest.shards[c.nextShard]? with
    | none =>
      if c.nextNode < manifest.nodeCount then
        (.returns (.ok (.empty c.nextNode)), { c with nextNode := c.nextNode + 1 })
      else (.returns (.ok .done), c)
    | some record => match load read manifest c.nextShard record with
      | .error e => (.returns (.error e), c)
      | .ok shard => (.again, { c with shard := some shard, nextShard := c.nextShard + 1 })
  | some shard =>
    if shard.nextLocal = shard.nodeCount then (.again, { c with shard := none })
    else
      let node := shard.firstNode + shard.nextLocal
      if c.nextNode < node then
        (.returns (.ok (.empty c.nextNode)), { c with nextNode := c.nextNode + 1 })
      else
        let row := shard.csr.row shard.nextLocal
        let defers := shard.continuesNext && shard.nextLocal + 1 = shard.nodeCount
        let taken := { c with shard := some { shard with nextLocal := shard.nextLocal + 1 } }
        if c.spanning.node = some node then
          let joined := { taken with spanning := c.spanning.append row }
          if defers then (.again, joined)
          else (.returns (.ok (.spanning node)), { joined with nextNode := node + 1 })
        else if defers then (.again, { taken with spanning := c.spanning.start node row })
        else (.returns (.ok (.shard node shard.nextLocal)), { taken with nextNode := node + 1 })

/-- The loop. A shard takes at most three passes that return nothing: it is loaded, its
last row is put aside, and it is dropped. -/
def advance : ℕ → CsrRowCursor → Except GfError CursorStep × CsrRowCursor
  | 0, c => (.error (.storage "CSR row cursor does not advance"), c)
  | fuel + 1, c => match pass read manifest c with
    | (.again, c) => advance fuel c
    | (.returns outcome, c) => (outcome, c)

/-- `pair[1].first_node >= pair[0].first_node + pair[0].node_count - 1` for all
consecutive shards. -/
def sharesBoundaries : Bool :=
  manifest.shards.IsChain fun a b => a.firstNode + a.nodeCount - 1 ≤ b.firstNode

/-- One step: a row, a shard more, or the end. -/
def step (c : CsrRowCursor) : Except GfError CursorStep × CsrRowCursor :=
  if c.checked = false ∧ sharesBoundaries manifest = false then
    (.error (corruptIndex "CSR shards overlap beyond a shared boundary row"), c)
  else
    let c := { c with checked := true }
    let c := if c.releaseSpanning then { c with spanning := .finish, releaseSpanning := false } else c
    advance read manifest (3 * manifest.shards.length + 3) c

/-- The next `(node_id, row)`, or `none` after the last node. -/
def nextRow (c : CsrRowCursor) : Except GfError (Option (ℕ × CsrRow)) × CsrRowCursor :=
  match c.failed with
  | some error => (.error error, c)
  | none => match step read manifest c with
    | (.error error, c) => (.error error, { c with
        shard := none
        spanning := .finish
        releaseSpanning := false
        failed := some error })
    | (.ok .done, c) => (.ok none, c)
    | (.ok (.empty node), c) => (.ok (some (node, .empty)), c)
    | (.ok (.spanning node), c) =>
      (.ok (some (node, c.spanning.row)), { c with releaseSpanning := true })
    | (.ok (.shard node i), c) => match c.shard with
      | some shard => (.ok (some (node, shard.csr.row i)), c)
      | none => (.error (.storage "a returned shard row is loaded"), c)

/-- The cursor after `n` pulls. -/
def after : ℕ → CsrRowCursor
  | 0 => new
  | n + 1 => (nextRow read manifest (after n)).2

/-- What pull `n` returns, counted from zero. -/
def pull (n : ℕ) : Except GfError (Option (ℕ × CsrRow)) :=
  (nextRow read manifest (after read manifest n)).1

end CsrRowCursor

end GraphForge.Adjacency
