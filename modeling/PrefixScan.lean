import PrefixScan.Config.File
import PrefixScan.Element
import PrefixScan.Session
import PrefixScan.Proofs.Bracketing
import PrefixScan.Proofs.Cube.Memory
import PrefixScan.Proofs.Cube.Move
import PrefixScan.Proofs.Cube.Instr
import PrefixScan.Proofs.Cube.Working
import PrefixScan.Proofs.Cube.Storing
import PrefixScan.Proofs.Rounding
import PrefixScan.Proofs.Cube.PlaneScan
import PrefixScan.Proofs.Cube.Chunks
import PrefixScan.Proofs.Cube.CubeScan
import PrefixScan.Proofs.Cube.Kernel
import PrefixScan.Proofs.Cube.Grid
import PrefixScan.Proofs.Cascade.Shape
import PrefixScan.Proofs.Scan.Pass
import PrefixScan.Proofs.Scan.Sweep
import PrefixScan.Proofs.Scan.Accept
import PrefixScan.Proofs.Scan.Inclusive
import PrefixScan.Proofs.Total
import PrefixScan.Proofs.Scan.Prefix
import PrefixScan.Proofs.Cascade.Padding
import PrefixScan.Proofs.Scan.LastTotal
import PrefixScan.Proofs.Session.Storage
import PrefixScan.Proofs.Session.History
import PrefixScan.Proofs.Partition.Sweep
import PrefixScan.Proofs.Scan.Addressing
import PrefixScan.Proofs.Schedule
import PrefixScan.Proofs.Cube.Footprint
import PrefixScan.Proofs.Cube.Planes
import PrefixScan.Proofs.Cube.Blocks
import PrefixScan.Proofs.Scan.Orders
import PrefixScan.Proofs.Scan.Checks
import PrefixScan.Proofs.Session.Refusal
import PrefixScan.Proofs.Scan.Trail
import PrefixScan.Proofs.Scan.Single
import PrefixScan.Proofs.Scan.Accesses
import PrefixScan.Proofs.Scan.Reach
import PrefixScan.Proofs.Session.Room
import PrefixScan.Proofs.Cascade.Sizes
import PrefixScan.Proofs.Cube.Nesting
import PrefixScan.Proofs.Scan.Carries
import PrefixScan.Proofs.Cube.Writes
import PrefixScan.Proofs.Scan.Tiling
import PrefixScan.Proofs.Partition.Walk
import PrefixScan.Proofs.Scan.Block
import PrefixScan.Proofs.Cube.Uniform
import PrefixScan.Proofs.Text
import PrefixScan.Proofs.Toml.Statement
import PrefixScan.Proofs.Toml.Contents
import PrefixScan.Proofs.Toml.Reading
import PrefixScan.Proofs.Toml.Written
import PrefixScan.Proofs.Config.Meaning
import PrefixScan.Proofs.Config.Edits
import PrefixScan.Proofs.Config.RoundTrip
import PrefixScan.Proofs.Cube.Discipline
import PrefixScan.Proofs.Profile.Line
