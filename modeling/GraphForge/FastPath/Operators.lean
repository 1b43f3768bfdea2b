import GraphForge.FastPath.Detect
import GraphForge.Uuid

/-!
# The fast operators

`EdgeCountExec`, `OrderedOneHopExec` and `OrderedTwoHopPathCountExec`, over the adjacency provider
and the ordinal identities of a session. The ordered operators walk the destinations in node-id
order, count the matches that end there from the inbound rows, and stop at the limit.
-/

namespace GraphForge.FastPath

open Binder Except

/-! ## What a session offers -/

/-- `AdjacencyReader`: row access over one adjacency view. A row is a list of relationships with the
node at their other end, read in chunks. Rows are finite: no chunk starts at `rowLimit` or after. -/
structure AdjacencyReader where
  nodeExtent : ℕ
  degree : ℕ → Except GfError ℕ
  neighborChunk (node skip limit : ℕ) : Except GfError (List (ℕ × ℕ))
  rowLimit : ℕ → ℕ
  skip_lt : ∀ node skip limit chunk, neighborChunk node skip limit = .ok chunk → chunk ≠ [] →
    skip < rowLimit node

/-- Readers of the adjacency and the number of edges, by type and direction. -/
structure AdjacencyProvider where
  adjacency : String → Direction → Except GfError AdjacencyReader
  edgeCardinality : String → Direction → Except GfError ℕ

/-- `V4OrdinalIdentitySession`. -/
structure OrdinalIdentities where
  maxRequestedIds : ℕ
  uuidOrderMatchesOrdinals : Except GfError Bool
  lookupNodeUuids : List ℕ → Except GfError (List (Option Uuid))

/-- What a session has at hand. -/
structure SessionState where
  provider : Option AdjacencyProvider
  identities : Option OrdinalIdentities

/-! ## Batches -/

/-- Why an operator fails. -/
inductive ExecError where
  | internal (message : String)
  | external (error : GfError)
  /-- A schema that does not fit the columns. -/
  | arrow
  deriving DecidableEq, Repr

/-- A value of a result column. -/
inductive Cell where
  | int64 (n : ℕ)
  | uuid (u : Uuid)
  deriving DecidableEq, Repr

/-- A batch of columns. -/
structure RecordBatch where
  schema : List (Option String)
  columns : List (List Cell)
  deriving DecidableEq, Repr

variable (schema : List (Option String))

/-- `RecordBatch::try_new`. -/
def RecordBatch.tryNew (columns : List (List Cell)) : Except ExecError RecordBatch := do
  refuseIf (schema.length ≠ columns.length) .arrow
  return ⟨schema, columns⟩

/-- The rows of a batch: the named cells at each position. -/
def RecordBatch.rows (batch : RecordBatch) : List (List (Option String × Cell)) :=
  (List.range (batch.columns.headD []).length).map fun i =>
    batch.schema.zip (batch.columns.filterMap (·[i]?))

/-! ## Counting edges -/

/-- `EdgeCountExec::execute`. -/
def executeEdgeCount (relTypeName : String) (direction : Direction) (provider : AdjacencyProvider) :
    Except ExecError RecordBatch := do
  let count ← (provider.edgeCardinality relTypeName direction).mapError .external
  let columns ← schema.mapM fun _ => do
    refuseIf (2 ^ 63 ≤ count) (.internal "edge count exceeds Int64")
    return [Cell.int64 count]
  RecordBatch.tryNew schema columns

/-! ## One hop -/

/-- The destinations with the number of their copies, up to the limit. -/
def oneHopDestinations (inbound : AdjacencyReader) : List ℕ → ℕ → Except ExecError (List (ℕ × ℕ))
  | [], _ => return []
  | destination :: rest, remaining =>
    if remaining = 0 then return []
    else do
      let inDegree ← (inbound.degree destination).mapError .external
      if inDegree = 0 then oneHopDestinations inbound rest remaining
      else do
        let emit := min inDegree remaining
        let others ← oneHopDestinations inbound rest (remaining - emit)
        return (destination, emit) :: others

/-- The identity found for a destination. -/
def destinationUuid (found : Option Uuid) : Except ExecError Uuid :=
  ofOption (.internal "missing destination uuid") found

/-- The identities of one request, each in its number of copies. -/
def projectChunk (identities : OrdinalIdentities) (destinations : List (ℕ × ℕ)) :
    Except ExecError (List Uuid) := do
  let values ← (identities.lookupNodeUuids (destinations.map (·.1))).mapError .external
  let copies ← (destinations.zip values).mapM fun pair => do
    let uuid ← destinationUuid pair.2
    return List.replicate pair.1.2 uuid
  return copies.flatten

/-- `OrderedOneHopExec::execute`. -/
def executeOneHop (fetch : ℕ) (relTypeName : String) (provider : AdjacencyProvider)
    (identities : OrdinalIdentities) : Except ExecError RecordBatch := do
  let inbound ← (provider.adjacency relTypeName .in_).mapError .external
  let destinations ← oneHopDestinations inbound (List.range inbound.nodeExtent) fetch
  let chunks ← (destinations.chunks identities.maxRequestedIds).mapM (projectChunk identities)
  RecordBatch.tryNew schema [chunks.flatten.map .uuid]

/-! ## Two hops -/

/-- The body of a loop over the entries of a chunk; `done` leaves the function. -/
def visitEntries {σ : Type} (visit : ℕ × ℕ → σ → Except GfError (ForInStep σ)) :
    List (ℕ × ℕ) → σ → Except GfError (ForInStep σ)
  | [], s => return .yield s
  | entry :: rest, s => do
    match ← visit entry s with
    | .done s => return .done s
    | .yield s => visitEntries visit rest s

/-- The entries read at a time (`CHUNK`). -/
def chunkLimit : ℕ := 256

/-- One round of a loop over a row: an empty chunk ends it. -/
def rowRound {σ : Type} (reader : AdjacencyReader) (node : ℕ)
    (visit : ℕ × ℕ → σ → Except GfError (ForInStep σ))
    (loop : ℕ × σ → Except GfError (ForInStep σ)) (at_ : ℕ × σ) :
    Except GfError (ForInStep σ) := do
  let chunk ← reader.neighborChunk node at_.1 chunkLimit
  if chunk = [] then return .yield at_.2
  else
    match ← visitEntries visit chunk at_.2 with
    | .done s => return .done s
    | .yield s => loop (at_.1 + chunk.length, s)

/-- A loop over the row of a node, chunk by chunk. -/
def eachNeighbor {σ : Type} (reader : AdjacencyReader) (node : ℕ)
    (visit : ℕ × ℕ → σ → Except GfError (ForInStep σ)) (s : σ) : Except GfError (ForInStep σ) :=
  MeasuredFix.fix (fun at_ => reader.rowLimit node - at_.1) (rowRound reader node visit) (0, s)

/-- One inner entry of `count_two_hop_paths_to`: a first relationship before the second one. -/
def countPath (requireEdgeDisjoint : Bool) (remaining second : ℕ) (entry : ℕ × ℕ) (count : ℕ) :
    Except GfError (ForInStep ℕ) :=
  if requireEdgeDisjoint = false ∨ entry.1 ≠ second then
    let count := saturatingAdd count 1
    if remaining ≤ count then return .done count else return .yield count
  else return .yield count

/-- `count_two_hop_paths_to`: the paths that end in a destination, counted up to `remaining`. -/
def countTwoHopPathsTo (inbound : AdjacencyReader) (destination : ℕ) (requireEdgeDisjoint : Bool)
    (remaining : ℕ) : Except GfError ℕ := do
  let final ← eachNeighbor inbound destination (fun second count =>
    eachNeighbor inbound second.2 (countPath requireEdgeDisjoint remaining second.1) count) 0
  match final with
  | .done count => return count
  | .yield count => return count

/-- The identities of the destinations, each as often as paths end there, up to the limit. -/
def twoHopUuids (inbound : AdjacencyReader) (identities : OrdinalIdentities)
    (requireEdgeDisjoint : Bool) : List ℕ → ℕ → Except ExecError (List Uuid)
  | [], _ => return []
  | destination :: rest, remaining =>
    if remaining = 0 then return []
    else do
      let pathCount ← (countTwoHopPathsTo inbound destination requireEdgeDisjoint
        remaining).mapError .external
      if pathCount = 0 then twoHopUuids inbound identities requireEdgeDisjoint rest remaining
      else do
        let values ← (identities.lookupNodeUuids [destination]).mapError .external
        let uuid ← destinationUuid values.head?.join
        let emit := min pathCount remaining
        let others ← twoHopUuids inbound identities requireEdgeDisjoint rest (remaining - emit)
        return List.replicate emit uuid ++ others

/-- `OrderedTwoHopPathCountExec::execute`. -/
def executeTwoHop (fetch : ℕ) (relTypeName : String) (provider : AdjacencyProvider)
    (identities : OrdinalIdentities) (requireEdgeDisjoint : Bool) :
    Except ExecError RecordBatch := do
  let inbound ← (provider.adjacency relTypeName .in_).mapError .external
  let uuids ← twoHopUuids inbound identities requireEdgeDisjoint
    (List.range inbound.nodeExtent) fetch
  RecordBatch.tryNew schema [uuids.map .uuid]

/-! ## Planning -/

/-- A planned fast operator. -/
inductive FastExec where
  | edgeCount (schema : List (Option String)) (relTypeName : String) (direction : Direction)
      (provider : AdjacencyProvider)
  | orderedOneHop (schema : List (Option String)) (fetch : ℕ) (relTypeName : String)
      (provider : AdjacencyProvider) (identities : OrdinalIdentities)
  | orderedTwoHop (schema : List (Option String)) (fetch : ℕ) (relTypeName : String)
      (provider : AdjacencyProvider) (identities : OrdinalIdentities) (requireEdgeDisjoint : Bool)

/-- The operator's only partition. -/
def FastExec.execute : FastExec → Except ExecError RecordBatch
  | .edgeCount schema relTypeName direction provider =>
    executeEdgeCount schema relTypeName direction provider
  | .orderedOneHop schema fetch relTypeName provider identities =>
    executeOneHop schema fetch relTypeName provider identities
  | .orderedTwoHop schema fetch relTypeName provider identities requireEdgeDisjoint =>
    executeTwoHop schema fetch relTypeName provider identities requireEdgeDisjoint

/-- Why a fast path was not chosen. -/
inductive Refusal where
  /-- A session precondition does not hold; the generic plan answers instead. -/
  | precondition (reason : String)
  /-- Establishing a precondition failed closed. -/
  | failed (error : ExecError)
  deriving DecidableEq, Repr

/-- The one expansion of a plan, which must be outgoing. -/
def singleOutExpand (expands : List ExpandNode) : Except Refusal ExpandNode :=
  match expands with
  | [expand] =>
    if expand.direction = .out then .ok expand
    else .error (.precondition "the hop is not outgoing")
  | _ => .error (.precondition s!"{expands.length} provider expands, expected 1")

/-- `ordered_identities`: the session's identities, when node-ordinal order is UUID order. -/
def orderedIdentities (session : SessionState) : Except Refusal OrdinalIdentities := do
  let identities ← ofOption
    (.precondition "the session has no ordinal identity authority") session.identities
  let ordered ← identities.uuidOrderMatchesOrdinals.mapError (fun e => .failed (.external e))
  refuseIf (ordered = false) (.precondition "node-ordinal order is not UUID order")
  return identities

/-- `choose`: the operator for a kind, given the expansions and the output schema of the generic
plan. -/
def choose (kind : FastPathKind) (expands : List ExpandNode) (schema : List (Option String))
    (session : SessionState) : Except Refusal FastExec := do
  let provider ← ofOption
    (.precondition "the session has no adjacency provider") session.provider
  match kind with
  | .edgeCount => do
    let expand ← singleOutExpand expands
    return .edgeCount schema expand.relTypeName expand.direction provider
  | .orderedOneHop fetch => do
    let expand ← singleOutExpand expands
    let identities ← orderedIdentities session
    return .orderedOneHop schema fetch expand.relTypeName provider identities
  | .orderedTwoHop fetch requireEdgeDisjoint =>
    match expands with
    | [first, second] => do
      refuseIf (first.relTypeName ≠ second.relTypeName ∨ first.direction ≠ .out ∨
          second.direction ≠ .out)
        (.precondition "the two hops differ in relation type or direction")
      let identities ← orderedIdentities session
      return .orderedTwoHop schema fetch second.relTypeName provider identities
        requireEdgeDisjoint
    | _ => .error (.precondition s!"{expands.length} provider expands, expected 2")

end GraphForge.FastPath
