import TurtlePlot.Draft
import TurtlePlot.Files.Tree
import TurtlePlot.Main
import TurtlePlot.Proofs.Adequacy
import TurtlePlot.Proofs.Unrolling
import TurtlePlot.Proofs.Limits
import TurtlePlot.Proofs.Strokes
import TurtlePlot.Proofs.Grammar
import TurtlePlot.Proofs.Canonical
import TurtlePlot.Proofs.JsonTokens
import TurtlePlot.Proofs.JsonText
import TurtlePlot.Proofs.Files
import TurtlePlot.Proofs.ProgramFile
import TurtlePlot.Proofs.Double
import TurtlePlot.Proofs.Ink
import TurtlePlot.Proofs.Interruption
import TurtlePlot.Proofs.VisibleText
import TurtlePlot.Proofs.Blocks
import TurtlePlot.Proofs.Magnitude
import TurtlePlot.Proofs.Plotting
import TurtlePlot.Proofs.NumberFaults
import TurtlePlot.Proofs.Rounding
import TurtlePlot.Proofs.PlainNumbers
import TurtlePlot.Proofs.Markup
import TurtlePlot.Proofs.Exports
import TurtlePlot.Proofs.Remarks
import TurtlePlot.Proofs.Crashes
import TurtlePlot.Proofs.Nesting
import TurtlePlot.Proofs.NegativeCounts
import TurtlePlot.Proofs.FirstBreach
import TurtlePlot.Proofs.ExactDouble
import TurtlePlot.Proofs.DoubleText
import TurtlePlot.Proofs.SettingsFile
import TurtlePlot.Proofs.Subpaths
import TurtlePlot.Proofs.Renaming
import TurtlePlot.Proofs.Cycles
import TurtlePlot.Proofs.Conditionals
import TurtlePlot.Proofs.NumberLine
import TurtlePlot.Proofs.Bounds
import TurtlePlot.Proofs.NearestDecimal
import TurtlePlot.Proofs.ShortNumerals
import TurtlePlot.Proofs.PathText
