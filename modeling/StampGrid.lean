import StampGrid.Main
import StampGrid.Stride.Walk
import StampGrid.Proofs.Grid.Count
import StampGrid.Proofs.Draft.Faults
import StampGrid.Proofs.Render.Painting
import StampGrid.Proofs.Render.Repetition
import StampGrid.Proofs.Render.Processes
import StampGrid.Proofs.Plan.Document
import StampGrid.Proofs.CommandLine.Precedence
import StampGrid.Proofs.Stride.Views
import StampGrid.Proofs.Script.Interleaving
import StampGrid.Proofs.Draft.Writing
import StampGrid.Proofs.CommandLine.Atomicity
import StampGrid.Proofs.Script.Layout
import StampGrid.Proofs.Text.Matching
import StampGrid.Proofs.Draft.Assignment
import StampGrid.Proofs.Text.Integers
import StampGrid.Proofs.Geometry
import StampGrid.Proofs.Draft.Declaration
import StampGrid.Proofs.Draft.Effects
import StampGrid.Proofs.Draft.LineEndings
import StampGrid.Proofs.Render.Loading
import StampGrid.Proofs.Draft.Locators
import StampGrid.Proofs.Text.Splitting
import StampGrid.Proofs.Geometry.Parsing
