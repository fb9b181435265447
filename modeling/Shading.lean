import Shading.Code.Report
import Shading.CommandLine.Directory
import Shading.Json.Extract
import Shading.Main
import Shading.Proofs.Code.Cache
import Shading.Proofs.Code.Digest
import Shading.Proofs.Fragment.Edits
import Shading.Proofs.Fragment.Splitting
import Shading.Proofs.Layout.PartialFill
import Shading.Proofs.Layout.Tree
import Shading.Proofs.Layout.Words
import Shading.Proofs.Lowering.Nesting
import Shading.Proofs.Program.LiteralTypes
import Shading.Proofs.Resource.FirstSeen
import Shading.Proofs.Session.Containers
import Shading.Proofs.Session.Queries
import Shading.Proofs.Session.StateReads
import Shading.Proofs.Session.Strings
import Shading.Proofs.Shader.Blocks
import Shading.Proofs.Shader.Loads
import Shading.Proofs.Shader.Structures
