import RayionClient.Rejection
import RayionClient.ColonScan
import RayionClient.Outcome
import RayionClient.PortNumber
import RayionClient.Stream
import RayionClient.Base.Parallel
import RayionClient.Threads
import RayionClient.Interleaving
import RayionClient.Scripts
import RayionClient.Schedules
import RayionClient.Base.Neighbours
import RayionClient.HashTable
import RayionClient.Entries
import RayionClient.HashTableRefinement
import RayionClient.HashTableRuns
import RayionClient.Clock
import RayionClient.Base.Records
import RayionClient.SDESPacket
import RayionClient.SDESFormat
import RayionClient.SDESIteration
import RayionClient.Base.Groups
import RayionClient.BuilderSizes
import RayionClient.Base.Ownership
import RayionClient.SDESInfo
import RayionClient.SourceAddresses
import RayionClient.BufferFile
import RayionClient.Base.Rounding
import RayionClient.TimeConversion
import RayionClient.SenderTime
