import CommandLine.Main
import CommandLine.Proofs.Line
import CommandLine.Proofs.Unix.Reading
import CommandLine.Proofs.Unix.RoundTrip
import CommandLine.Proofs.Windows.Reading
import CommandLine.Proofs.Windows.RoundTrip
import CommandLine.Proofs.Macro.Template
import CommandLine.Proofs.Unix.Strict
import CommandLine.Proofs.Macro.UnixSubstitution
import CommandLine.Proofs.Macro.WindowsSubstitution
import CommandLine.Proofs.Cursor.Windows
import CommandLine.Proofs.Cursor.Unix
import CommandLine.Proofs.Appending
import CommandLine.Proofs.Windows.Appending
import CommandLine.Proofs.Macro.Named
import CommandLine.Proofs.Macro.UnixSteps
import CommandLine.Proofs.Macro.UnixLayout
import CommandLine.Proofs.Cursor.Editing
import CommandLine.Proofs.Launch
import CommandLine.Proofs.Cursor.Written
import CommandLine.Proofs.Macro.WindowsEmpty
import CommandLine.Proofs.Macro.UnixUnquoting
import CommandLine.Proofs.Macro.UnixBackquoted
import CommandLine.Proofs.Macro.File
import CommandLine.Proofs.Macro.UnixSurvival
import CommandLine.Proofs.Macro.UnixSpaced
import CommandLine.Proofs.Macro.UnixEnclosed
import CommandLine.Proofs.Macro.UnixEnding
import CommandLine.Proofs.Cursor.Deleting
import CommandLine.Proofs.Cursor.Progress
import CommandLine.Proofs.Windows.References
import CommandLine.Proofs.Unix.Fields
import CommandLine.Proofs.Unix.Comparison
import CommandLine.Proofs.ShellLine
import CommandLine.Proofs.Settings.Loading
import CommandLine.Proofs.Settings.Storing
import CommandLine.Proofs.Settings.Initial
import CommandLine.Proofs.Json.Layers
import CommandLine.Proofs.Nesting
import CommandLine.Proofs.Macro.WindowsLookback
import CommandLine.Proofs.Windows.Inside
