import HeapAnalyser.Layout
import HeapAnalyser.Tiling
import HeapAnalyser.Walk
import HeapAnalyser.WalkLayout
import HeapAnalyser.Chase
import HeapAnalyser.FreeList
import HeapAnalyser.Histogram
import HeapAnalyser.Stats
import HeapAnalyser.Classification
import HeapAnalyser.Arenas
import HeapAnalyser.FirstOwner
import HeapAnalyser.Tls
import HeapAnalyser.HeapList
import HeapAnalyser.Analyze
import HeapAnalyser.Conservation
import HeapAnalyser.SecondaryHeaps
import HeapAnalyser.WalkConfined
import HeapAnalyser.ArenaList
import HeapAnalyser.HeapChain
import HeapAnalyser.Analysis
import HeapAnalyser.Degradation
import HeapAnalyser.ThreadArenas
import HeapAnalyser.ProblemArenas
import HeapAnalyser.PaddingSkip
import HeapAnalyser.HeapState
import HeapAnalyser.StateReads
import HeapAnalyser.Recovery
import HeapAnalyser.Bytes
import HeapAnalyser.Elf
import HeapAnalyser.Notes
import HeapAnalyser.BuildId
import HeapAnalyser.MappedFiles
import HeapAnalyser.Checks
import HeapAnalyser.Dwarf
import HeapAnalyser.DwarfMembers
import HeapAnalyser.DwarfSelection
import HeapAnalyser.DwarfBounds
import HeapAnalyser.Image
import HeapAnalyser.WordReads
import HeapAnalyser.Threads
import HeapAnalyser.DwarfSections
import HeapAnalyser.DwarfTypes
import HeapAnalyser.DwarfScan
import HeapAnalyser.Numerals
import HeapAnalyser.Version
import HeapAnalyser.SymbolScan
import HeapAnalyser.DwarfExtract
import HeapAnalyser.DwarfErrors
import HeapAnalyser.DebugLink
import HeapAnalyser.Detection
import HeapAnalyser.Diagnosis
import HeapAnalyser.Selection
import HeapAnalyser.Locate
import HeapAnalyser.Pipeline
import HeapAnalyser.Agreement
import HeapAnalyser.EndToEnd
import HeapAnalyser.Slots
import HeapAnalyser.Outcome
import HeapAnalyser.Balance
import HeapAnalyser.CoreNotes
import HeapAnalyser.Schema
import HeapAnalyser.Commands
