import ScriptedArrays.Environment
import ScriptedArrays.Instance
import ScriptedArrays.Assign
import ScriptedArrays.Cell.Code
import ScriptedArrays.Proofs.Execution
import ScriptedArrays.Proofs.RowRuns
import ScriptedArrays.Proofs.RowCasts
import ScriptedArrays.Proofs.Presence
import ScriptedArrays.Proofs.RowRoutes
import ScriptedArrays.Proofs.Consistency
import ScriptedArrays.Proofs.FirstMatches
import ScriptedArrays.Proofs.IndexGate
import ScriptedArrays.Proofs.ScopeGraphs
import ScriptedArrays.Proofs.Inheritance
import ScriptedArrays.Proofs.Visits
import ScriptedArrays.Proofs.Concealment
import ScriptedArrays.Proofs.Resolution
import ScriptedArrays.Proofs.ReuseRuns
import ScriptedArrays.Proofs.NumberRange
import ScriptedArrays.Proofs.NestedValues
import ScriptedArrays.Proofs.Instances
import ScriptedArrays.Proofs.Reconverting
import ScriptedArrays.Proofs.TextSlots
import ScriptedArrays.Proofs.Numerals
import ScriptedArrays.Proofs.Truncation
import ScriptedArrays.Proofs.Slices
import ScriptedArrays.Proofs.StartNumbers
import ScriptedArrays.Proofs.ArrayEquality
import ScriptedArrays.Proofs.Concatenations
import ScriptedArrays.Proofs.LastingTexts
import ScriptedArrays.Proofs.Joins
import ScriptedArrays.Proofs.Ancestors
import ScriptedArrays.Proofs.WrittenSettings
import ScriptedArrays.Proofs.Copies
import ScriptedArrays.Proofs.ScriptValues
import ScriptedArrays.Proofs.Traces
import ScriptedArrays.Proofs.WholeTexts
import ScriptedArrays.Proofs.ScalarEquality
import ScriptedArrays.Proofs.ScriptItems
