import U6fs.Lib.Fold
import U6fs.Lib.Namespace
import U6fs.Spec.Runs
import U6fs.Spec.Namespace
import U6fs.Verif.MountBitmaps
import U6fs.Verif.BitmapSet
import U6fs.Verif.Allocation
import U6fs.Verif.Coherence
import U6fs.Verif.Ownership
import U6fs.Verif.NonInterference
import U6fs.Verif.BitmapText
import U6fs.Verif.ExitCodes
import U6fs.Verif.Enumeration
import U6fs.Verif.StoredTree
import U6fs.Verif.NameRecord
import U6fs.Verif.ScanBounds
import U6fs.Verif.Resources
import U6fs.Verif.ScanMarks
import U6fs.Verif.Findsector
import U6fs.Verif.AppendCalls
import U6fs.Verif.Uninitialised
import U6fs.Verif.Appending
import U6fs.Verif.Accounting
