import DumpBridge.Main
import DumpBridge.Proofs.Separators.Alterations
import DumpBridge.Proofs.Separators.TableBodies
import DumpBridge.Proofs.Line.DataLines
import DumpBridge.Proofs.Line.Enumerations
import DumpBridge.Proofs.Script.Warnings
import DumpBridge.Proofs.Command.Batch
import DumpBridge.Proofs.Rows.Restarts
import DumpBridge.Proofs.Literal.Fusing
import DumpBridge.Proofs.Line.ConditionalBlocks
import DumpBridge.Proofs.Enum.Declared
import DumpBridge.Proofs.Enum.FirstSeen
import DumpBridge.Proofs.Rows.Settled
import DumpBridge.Proofs.Rows.ColumnOrder
import DumpBridge.Proofs.Line.WrittenHeader
import DumpBridge.Proofs.Enum.Search
import DumpBridge.Proofs.Separators.InPlace
import DumpBridge.Proofs.Line.KeyLists
import DumpBridge.Proofs.Literal.ByteScan
