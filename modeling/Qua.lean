import Qua.Expression.HashInput
import Qua.Main
import Qua.Program.OfJson
import Qua.Proofs.Build.Operands
import Qua.Proofs.Build.Poison
import Qua.Proofs.Expression.RoundTrip
import Qua.Proofs.Replay.Bodies
import Qua.Proofs.Replay.Declarations
import Qua.Proofs.Replay.Scopes
import Qua.Proofs.Replay.WholeScript
import Qua.Proofs.Storage.Program
import Qua.Proofs.Stream.RoundTrip
import Qua.Script.ToJson
import Qua.Stream.Bins
import Qua.Proofs.Script.Precedence
import Qua.Proofs.Configuration.Equality
import Qua.Proofs.Configuration.Runs
import Qua.Proofs.Script.Spread
import Qua.Proofs.Configuration.Literal
import Qua.Proofs.Build.Allocation
import Qua.Proofs.Build.Tags
import Qua.Proofs.Replay.Sessions
import Qua.Proofs.Script.Remainder
import Qua.Proofs.Script.Tight
import Qua.Proofs.Build.Switch
import Qua.Proofs.Build.Roles
import Qua.Proofs.Replay.Remaking
import Qua.Proofs.Replay.Results
import Qua.Proofs.Idempotence
import Qua.Proofs.Replay.Redeclaring
import Qua.Proofs.Replay.Triggers
import Qua.Proofs.Replay.Flags
import Qua.Proofs.Stream.Bins
import Qua.Proofs.Stream.Declared
import Qua.Proofs.Configuration.Replayed
import Qua.Proofs.Printing.Scripts
import Qua.Proofs.InPlace.Statements
import Qua.Proofs.Replay.Integers
import Qua.Proofs.Replay.Consumption
import Qua.Proofs.Replay.Renamed
import Qua.Proofs.RoundTrip.Sessions
import Qua.Proofs.Expression.Hashing
import Qua.Proofs.Replay.Reached
