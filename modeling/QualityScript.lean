import QualityScript.Main
import QualityScript.Proofs.Syntax.Opacity
import QualityScript.Proofs.Evaluation.Limits
import QualityScript.Proofs.Evaluation.Margins
import QualityScript.Proofs.Evaluation.Readings
import QualityScript.Proofs.Evaluation.Splicing
import QualityScript.Proofs.Evaluation.Context
import QualityScript.Proofs.Evaluation.WorldText
import QualityScript.Proofs.Evaluation.Encounters
import QualityScript.Proofs.Evaluation.BareBlocks
import QualityScript.Proofs.Evaluation.Names
import QualityScript.Proofs.Evaluation.Capitals
import QualityScript.Proofs.Effects.Sessions
import QualityScript.Proofs.Effects.Spending
import QualityScript.Proofs.Effects.Succession
import QualityScript.Proofs.Content.Saving
import QualityScript.Proofs.Content.Linting
import QualityScript.Proofs.Syntax.Composing
import QualityScript.Proofs.Syntax.Printing
import QualityScript.Proofs.Syntax.Segments
import QualityScript.Proofs.Syntax.Pairing
import QualityScript.Proofs.Syntax.Pieces
import QualityScript.Proofs.Evaluation.Comparing
import QualityScript.Proofs.Effects.Levels
import QualityScript.Proofs.Evaluation.Verbatim
import QualityScript.Proofs.Evaluation.Deciding
import QualityScript.Proofs.Evaluation.Selecting
import QualityScript.Proofs.Challenge.Shape
import QualityScript.Proofs.Challenge.Sampling
