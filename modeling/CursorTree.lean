import CursorTree.CommandLine.Folder
import CursorTree.Kinds
import CursorTree.Main
import CursorTree.Proofs.Membership
import CursorTree.Session.Command
import CursorTree.Session.Desk
import CursorTree.Proofs.Enumeration
import CursorTree.Proofs.Expansion
import CursorTree.Proofs.DriverChoice
import CursorTree.Proofs.Conjunction
import CursorTree.Proofs.Simplification
import CursorTree.Proofs.ListHistory
import CursorTree.Proofs.Columns
import CursorTree.Proofs.Nodes
import CursorTree.Proofs.RowBindings
import CursorTree.Proofs.Interleaving
import CursorTree.Proofs.Passes
import CursorTree.Proofs.NormalForm
import CursorTree.Proofs.Registration
import CursorTree.Proofs.Resetting
import CursorTree.Proofs.Callers
import CursorTree.Proofs.Copying
import CursorTree.Proofs.Asking
import CursorTree.Proofs.Paging
import CursorTree.Proofs.PrintedReport
import CursorTree.Proofs.Spelling
import CursorTree.Proofs.ValueLists
import CursorTree.Proofs.SettingsObjects
import CursorTree.Proofs.KeptTags
import CursorTree.Proofs.OutlineShape
import CursorTree.Proofs.Numerals
import CursorTree.Proofs.ArgumentPieces
import CursorTree.Proofs.BuiltTables
import CursorTree.Proofs.RegistryLaws
import CursorTree.Proofs.DisplayedSnapshots
import CursorTree.Proofs.SnapshotReading
import CursorTree.Proofs.PassReports
import CursorTree.Proofs.NumberedBindings
import CursorTree.Proofs.Saturation
