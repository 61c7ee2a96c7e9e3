import MarkupTemplate.Diagnostic
import MarkupTemplate.Proofs.Blame.Pointing
import MarkupTemplate.Proofs.Evaluation.InTurn
import MarkupTemplate.Proofs.Evaluation.Obligations
import MarkupTemplate.Proofs.Failure.Truthful
import MarkupTemplate.Proofs.Likeness.Evaluation
import MarkupTemplate.Proofs.Lockstep.Readings
import MarkupTemplate.Proofs.Lockstep.Spacing
import MarkupTemplate.Proofs.Markup.Escaping
import MarkupTemplate.Proofs.Markup.Injection
import MarkupTemplate.Proofs.Place.Reread
import MarkupTemplate.Proofs.Prefix.Extension
import MarkupTemplate.Proofs.Printing.Rendering
import MarkupTemplate.Proofs.Progress.Advance
import MarkupTemplate.Proofs.Scoping.Growth
import MarkupTemplate.Proofs.Scoping.Insertion
import MarkupTemplate.Proofs.Scoping.Renaming
import MarkupTemplate.Proofs.Sessions.Simulation
import MarkupTemplate.Proofs.Source.Walk
import MarkupTemplate.Tree.Alike
import MarkupTemplate.Tree.Printer
