import TypeStrip.Main
import TypeStrip.Proofs.Arrows.LexicalThis
import TypeStrip.Proofs.Constants.Bitwise
import TypeStrip.Proofs.Constants.Members
import TypeStrip.Proofs.Elision.Imports
import TypeStrip.Proofs.Erasure.Wrappers
import TypeStrip.Proofs.Escapes.Units
import TypeStrip.Proofs.Exports.TypeNames
import TypeStrip.Proofs.Interface.RoundTrip
import TypeStrip.Proofs.Namespaces.Merging
import TypeStrip.Proofs.Numbers.Keys
import TypeStrip.Proofs.Numbers.Radix
import TypeStrip.Proofs.Package.Nearest
import TypeStrip.Proofs.Path.Canonical
import TypeStrip.Proofs.Places.LineBreaks
import TypeStrip.Proofs.Places.Longest
import TypeStrip.Proofs.Places.Modules
import TypeStrip.Proofs.Printing.Properties
import TypeStrip.Proofs.Progress.Program
import TypeStrip.Proofs.Project.Preparation
import TypeStrip.Proofs.Project.Readiness
import TypeStrip.Proofs.Project.Resolution
import TypeStrip.Proofs.Project.Scanning
import TypeStrip.Proofs.Requires.Answers
import TypeStrip.Proofs.Requires.Binding
import TypeStrip.Proofs.Strings.Program
import TypeStrip.Proofs.Template.RoundTrip
import TypeStrip.Proofs.Template.Sums
import TypeStrip.Proofs.Temporaries.Distinct
import TypeStrip.Proofs.Temporaries.Identifiers
