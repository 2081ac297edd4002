import TypedJson.Decoder.Decode
import TypedJson.Decoder.Label
import TypedJson.Json.Quoted.Lemmas
import TypedJson.Proofs.Calls
import TypedJson.Proofs.Simulation
import TypedJson.Proofs.Blame
import TypedJson.Proofs.Budget
import TypedJson.Proofs.Position
import TypedJson.Proofs.Termination
import TypedJson.Proofs.DepthLimit
import TypedJson.Proofs.AmpleLimit
import TypedJson.Proofs.PathText
import TypedJson.Proofs.BlindSimulation
import TypedJson.Proofs.Shape
import TypedJson.Proofs.WellGuarded
import TypedJson.Proofs.Acceptance
import TypedJson.Proofs.KeyOrder
import TypedJson.Proofs.NormalForm
import TypedJson.Proofs.Fields
import TypedJson.Proofs.MissingKeys
import TypedJson.Proofs.Chain
import TypedJson.Proofs.Spelling
import TypedJson.Proofs.Reading
import TypedJson.Proofs.PathEnd
import TypedJson.Proofs.Locality
import TypedJson.Proofs.EventLog
import TypedJson.Proofs.Unbounded
import TypedJson.Proofs.Replacement
import TypedJson.Proofs.Regrouping
import TypedJson.Proofs.InTurn
import TypedJson.Proofs.Positions
import TypedJson.Proofs.FlagTrees
import TypedJson.Proofs.Rounding
import TypedJson.Proofs.ExactEquality
