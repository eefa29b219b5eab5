import RemoteEval.Main
import RemoteEval.Network
import RemoteEval.Resource.Loader
import RemoteEval.Script.Depth
import RemoteEval.Shell.Startup
import RemoteEval.Value.Inspect
import RemoteEval.Proofs.Host.Sequential
import RemoteEval.Proofs.Lexer.OpenInput
import RemoteEval.Proofs.Parser.DeepSources
import RemoteEval.Proofs.Parser.Ways
import RemoteEval.Proofs.Resource.Order
import RemoteEval.Proofs.Script.Values
import RemoteEval.Proofs.Host.Reply
import RemoteEval.Proofs.Shell.Flight
import RemoteEval.Proofs.Shell.Transparency
import RemoteEval.Proofs.Host.Progress
import RemoteEval.Proofs.Shell.Submission
import RemoteEval.Proofs.Host.Listing
import RemoteEval.Proofs.Resource.LoadOrder
import RemoteEval.Proofs.Wire.ResourceList
import RemoteEval.Proofs.Shell.Startup
import RemoteEval.Proofs.Shell.Shadow
import RemoteEval.Proofs.Resource.Cycles
import RemoteEval.Proofs.Script.Faults
import RemoteEval.Proofs.Shell.Closing
import RemoteEval.Proofs.Host.Answered
import RemoteEval.Proofs.Script.Framing
import RemoteEval.Proofs.Resource.Recursion
import RemoteEval.Proofs.Resource.Rearrangement
import RemoteEval.Proofs.Script.Integers
import RemoteEval.Proofs.Script.Joined
import RemoteEval.Proofs.Script.Mentioned
import RemoteEval.Proofs.Value.Equality
import RemoteEval.Proofs.Value.Table
import RemoteEval.Proofs.Value.Calls
import RemoteEval.Proofs.Value.Reference
import RemoteEval.Text.Lossy
import RemoteEval.Proofs.Text.Lossy
import RemoteEval.Proofs.Wire.Classification
import RemoteEval.Proofs.Wire.Boundaries
import RemoteEval.Proofs.Shell.Attempt
import RemoteEval.Proofs.Shell.Draft
import RemoteEval.Proofs.Shell.Prompts
import RemoteEval.Proofs.Parser.BinaryMinus
import RemoteEval.Proofs.Config.Settings
import RemoteEval.Proofs.Resource.Header
import RemoteEval.Proofs.Script.Positions
import RemoteEval.Proofs.Lexer.Literals
