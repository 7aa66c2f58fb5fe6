import DiskAtlas.Filter.Reader
import DiskAtlas.Image.Volume
import DiskAtlas.Mapping.DevicePager
import DiskAtlas.Mapping.Exchange
import DiskAtlas.Overview.Display
import DiskAtlas.Proofs.Filter.Masks
import DiskAtlas.Proofs.Filter.Quoting
import DiskAtlas.Proofs.Filter.Ranges
import DiskAtlas.Proofs.Filter.Regrouping
import DiskAtlas.Proofs.Life.Answers
import DiskAtlas.Proofs.Life.AskedPath
import DiskAtlas.Proofs.Life.Finished
import DiskAtlas.Proofs.Life.Ingestion
import DiskAtlas.Proofs.Life.Overviews
import DiskAtlas.Proofs.Life.Pages
import DiskAtlas.Proofs.Life.Reading
import DiskAtlas.Proofs.Life.Reopening
import DiskAtlas.Proofs.Life.Shuffling
import DiskAtlas.Proofs.Life.Unbegun
import DiskAtlas.Proofs.Mapping.AnySource
import DiskAtlas.Proofs.Mapping.BlockFailure
import DiskAtlas.Proofs.Mapping.BlockRuns
import DiskAtlas.Proofs.Mapping.BlockWalk
import DiskAtlas.Proofs.Mapping.DeviceMap
import DiskAtlas.Proofs.Mapping.DevicePager
import DiskAtlas.Proofs.Mapping.Dialogue
import DiskAtlas.Proofs.Mapping.Endless
import DiskAtlas.Proofs.Mapping.Fallback
import DiskAtlas.Proofs.Mapping.FilePager
import DiskAtlas.Proofs.Mapping.Joined
import DiskAtlas.Proofs.Mapping.Paging
import DiskAtlas.Proofs.Mapping.Writes
import DiskAtlas.Proofs.Overview.Dominant
import DiskAtlas.Proofs.Overview.Highlights
import DiskAtlas.Proofs.Overview.Partition
import DiskAtlas.Proofs.Overview.Selections
import DiskAtlas.Proofs.Packing.Frame
import DiskAtlas.Proofs.Query.PathScan
import DiskAtlas.Proofs.Scan.Failed
import DiskAtlas.Proofs.Scan.Namespace
import DiskAtlas.Proofs.Scan.Reachable
import DiskAtlas.Proofs.Scan.Undisturbed
import DiskAtlas.Proofs.Snapshot.Beside
import DiskAtlas.Proofs.Snapshot.Codec
import DiskAtlas.Proofs.Snapshot.Disk
import DiskAtlas.Proofs.Snapshot.File
import DiskAtlas.Proofs.Snapshot.Layout
import DiskAtlas.Proofs.Store.Indexed
import DiskAtlas.Proofs.Text.Split
import DiskAtlas.Query.Rows
import DiskAtlas.Snapshot.Shelf
