import Brushwork.Main
import Brushwork.Session
import Brushwork.Proofs.Canvas.Cells
import Brushwork.Proofs.Canvas.Search
import Brushwork.Proofs.Canvas.Sweep
import Brushwork.Proofs.Agent.Figure
import Brushwork.Proofs.Agent.Octant
import Brushwork.Proofs.Canvas.Region
import Brushwork.Proofs.Canvas.Painted
import Brushwork.Proofs.Agent.Circle
import Brushwork.Proofs.Expr.Cutting
import Brushwork.Proofs.Expr.Evaluation
import Brushwork.Proofs.Expr.Conservation
import Brushwork.Proofs.Expr.Acceptance
import Brushwork.Proofs.Expr.Causes
import Brushwork.Proofs.Command.Causes
import Brushwork.Proofs.Command.Frame
import Brushwork.Proofs.Program.Leads
import Brushwork.Proofs.Program.Limit
import Brushwork.Proofs.Program.Budget
import Brushwork.Proofs.Session.Invariant
import Brushwork.Proofs.Text.Trimming
import Brushwork.Proofs.Expr.Names
import Brushwork.Proofs.Command.Assignment
import Brushwork.Proofs.Command.Jump
import Brushwork.Proofs.Program.Steps
import Brushwork.Proofs.Program.Labels
import Brushwork.Proofs.Program.Agreement
import Brushwork.Proofs.Program.Isolation
import Brushwork.Proofs.Agent.Outline
import Brushwork.Proofs.Inspection.Form
import Brushwork.Proofs.Program.Reporting
import Brushwork.Proofs.Program.Location
import Brushwork.Proofs.Agent.Line
import Brushwork.Proofs.Agent.Rectangle
import Brushwork.Proofs.Expr.Nesting
import Brushwork.Proofs.Token.RoundTrip
import Brushwork.Proofs.Separation
import Brushwork.Proofs.Text.Arguments
import Brushwork.Proofs.Command.Arguments
import Brushwork.Proofs.Token.Boundary
import Brushwork.Proofs.Token.Arguments
import Brushwork.Proofs.Expr.Arguments
import Brushwork.Proofs.Command.Count
import Brushwork.Proofs.Program.Spawning
import Brushwork.Proofs.Agent.Count
import Brushwork.Proofs.Program.LabelLines
import Brushwork.Proofs.Token.Hyphens
import Brushwork.Proofs.Program.Forward
import Brushwork.Proofs.Text.Layout
import Brushwork.Proofs.Program.Layout
import Brushwork.Proofs.Expr.Sign
import Brushwork.Proofs.Picture.Reading
import Brushwork.Proofs.Program.Readiness
import Brushwork.Proofs.CommandLine.Answer
import Brushwork.Proofs.Inspection.Static
import Brushwork.Proofs.Canvas.Range
import Brushwork.Proofs.Expr.Chain
import Brushwork.Proofs.CommandLine.Directory
import Brushwork.Proofs.Canvas.Width
import Brushwork.Proofs.Agent.Width
