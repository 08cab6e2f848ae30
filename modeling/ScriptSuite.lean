import ScriptSuite.Disk.Directory
import ScriptSuite.Main
import ScriptSuite.Proofs.Command.External
import ScriptSuite.Proofs.Command.Verdict
import ScriptSuite.Proofs.EmbedGraph.Calls
import ScriptSuite.Proofs.EmbedGraph.ClosedWalks
import ScriptSuite.Proofs.EmbedGraph.Events
import ScriptSuite.Proofs.Script.Declared
import ScriptSuite.Proofs.Script.Defects
import ScriptSuite.Proofs.Script.Document
import ScriptSuite.Proofs.Script.FaultyLine
import ScriptSuite.Proofs.Script.Image
import ScriptSuite.Proofs.Script.Interleaving
import ScriptSuite.Proofs.Script.Layout
import ScriptSuite.Proofs.Script.Numbering
import ScriptSuite.Proofs.Script.Padding
import ScriptSuite.Proofs.Script.Scans
import ScriptSuite.Proofs.Suite.Knowledge
import ScriptSuite.Proofs.Suite.Precedence
import ScriptSuite.Proofs.Suite.Reformatting
import ScriptSuite.Proofs.Suite.Searching
import ScriptSuite.Proofs.Text.IllFormed
