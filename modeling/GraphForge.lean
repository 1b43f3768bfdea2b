import GraphForge.PropertyOverlay.PartitionCuts
import GraphForge.PropertyOverlay.InventoryBudget
import GraphForge.Adjacency.DeltaOverlay
import GraphForge.Adjacency.SortedShards
import GraphForge.Adjacency.RowCursorTheorems
import GraphForge.Adjacency.ExternalSortTheorems
import GraphForge.DeltaJournal.RunTheorems
import GraphForge.Values.EqualityTheorems
import GraphForge.Values.OrderKey
import GraphForge.Values.HetRoundTrip
import GraphForge.Relational.StoredEqualityTheorems
import GraphForge.Binder.CollectIdentityTheorems
import GraphForge.OrdinalIdentity.LookupTheorems
import GraphForge.Knowledge.StatusTheorems
import GraphForge.Knowledge.HypothesisTheorems
import GraphForge.HubPublish.HistoryTheorems
import GraphForge.Checkpoints.CrashTheorems
import GraphForge.FastPath.ResultTheorems
import GraphForge.Algorithms.ChromaticNumberTheorems
import GraphForge.Algorithms.StronglyConnectedTheorems
import GraphForge.Algorithms.BiconnectedTheorems
import GraphForge.Algorithms.BipartiteMatchingTheorems
import GraphForge.Algorithms.KCore
import GraphForge.Ontology.Bridge
import GraphForge.Temporal.TimeOfDay
import GraphForge.Temporal.Truncation
