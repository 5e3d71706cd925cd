import TypeBridge.CommandLine.FileTree
import TypeBridge.Main
import TypeBridge.Proofs.References
import TypeBridge.Proofs.Termination
import TypeBridge.Settings.LogFilter
import TypeBridge.Proofs.Turns
import TypeBridge.Proofs.Overrides
import TypeBridge.Proofs.Failures
import TypeBridge.Proofs.Unnumbered
import TypeBridge.Proofs.RootOrder
import TypeBridge.Proofs.Requests
import TypeBridge.Proofs.Locality
import TypeBridge.Proofs.TaggedMembers
import TypeBridge.Proofs.Unmentioned
import TypeBridge.Proofs.Admission
import TypeBridge.Proofs.RoundTrip
import TypeBridge.Proofs.Binding
import TypeBridge.Proofs.Positions
import TypeBridge.Proofs.Dependents
import TypeBridge.Proofs.Loading
import TypeBridge.Proofs.Scopes
import TypeBridge.Proofs.Bodies
import TypeBridge.Proofs.Instantiation
import TypeBridge.Proofs.Comments
import TypeBridge.Proofs.Documentation
import TypeBridge.Proofs.Capture
import TypeBridge.Proofs.Readability
import TypeBridge.Proofs.Literals
import TypeBridge.Proofs.Terminators
import TypeBridge.Proofs.NestedChains
import TypeBridge.Proofs.Arrangement
import TypeBridge.Proofs.NamedLines
import TypeBridge.Proofs.Additions
import TypeBridge.Proofs.ForeignMembers
import TypeBridge.Proofs.SettingsPlaces
