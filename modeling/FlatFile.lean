import FlatFile.Binary64.Text
import FlatFile.Json.Forms
import FlatFile.Json.Reader
import FlatFile.Main
import FlatFile.Proofs.ColumnReading
import FlatFile.Proofs.TemplateText
import FlatFile.Proofs.Rendering
import FlatFile.Proofs.ParserArtifacts
import FlatFile.Proofs.GeneratedFiles
import FlatFile.Proofs.SavedSettings
import FlatFile.Proofs.ConfinedRuns
import FlatFile.Proofs.DataLines
import FlatFile.Proofs.DriftReports
import FlatFile.Proofs.JsonForms
import FlatFile.Proofs.LineDiffs
import FlatFile.Proofs.LabelNames
import FlatFile.Proofs.NamingHistory
import FlatFile.Proofs.CursorHistory
import FlatFile.Proofs.MoreReservedWords
import FlatFile.Proofs.CompileFindings
import FlatFile.Proofs.MoreVariables
import FlatFile.Proofs.RecordArtifacts
import FlatFile.Proofs.FileNames
import FlatFile.Proofs.LineEndings
import FlatFile.Proofs.RecordLines
import FlatFile.Proofs.TokenLists
import FlatFile.Proofs.EventLogs
import FlatFile.Proofs.AccessorNames
